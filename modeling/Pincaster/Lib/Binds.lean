import Mathlib.Data.List.Nodup
import Mathlib.Logic.Function.Basic
/-!
# Binds — finite maps written pair by pair, and callbacks over pairs

A map is a partial function.  `assign` writes a list of pairs into it, the last pair of a key winning.  `walk` gives the
pairs of a list to a callback that has a status and may have no result; `Along` says that each of them is found in a
state where it may be given, and `walk_of_along` is the invariant rule.
-/
namespace Lib

variable {α β σ : Type}

/-! ## Maps -/

section

variable [DecidableEq α]

/-- The map with no binding. -/
def unbound : α → Option β := fun _ => none

def assign (m : α → Option β) (ps : List (α × β)) : α → Option β :=
  ps.foldl (fun m p => Function.update m p.1 (some p.2)) m

@[simp] theorem assign_nil (m : α → Option β) : assign m [] = m := rfl

theorem assign_cons (m : α → Option β) (p : α × β) (ps : List (α × β)) :
    assign m (p :: ps) = assign (Function.update m p.1 (some p.2)) ps := rfl

theorem assign_snoc (m : α → Option β) (ps : List (α × β)) (k : α) (v : β) :
    assign m (ps ++ [(k, v)]) = Function.update (assign m ps) k (some v) := by
  rw [assign, List.foldl_append]
  rfl

theorem assign_of_not_mem : ∀ (ps : List (α × β)) (m : α → Option β) {k : α}, k ∉ ps.map Prod.fst → assign m ps k = m k
  | [], _, _, _ => rfl
  | p :: ps, m, k, h => by
    rw [List.map_cons, List.mem_cons, not_or] at h
    rw [assign_cons, assign_of_not_mem ps _ h.2, Function.update_of_ne h.1]

/-- **The last pair of a key wins.** -/
theorem assign_last (m : α → Option β) (pre : List (α × β)) {k : α} (v : β) {post : List (α × β)}
    (h : k ∉ post.map Prod.fst) : assign m (pre ++ (k, v) :: post) k = some v := by
  rw [assign, List.foldl_append, List.foldl_cons, ← assign, assign_of_not_mem post _ h, Function.update_self]

/-- A key of the list has a last pair. -/
theorem exists_last : ∀ {ps : List (α × β)} {k : α}, k ∈ ps.map Prod.fst →
    ∃ pre v post, ps = pre ++ (k, v) :: post ∧ k ∉ post.map Prod.fst
  | [], _, h => by simp at h
  | (k', v) :: ps, k, h => by
    by_cases hps : k ∈ ps.map Prod.fst
    · obtain ⟨pre, w, post, rfl, hpost⟩ := exists_last hps
      exact ⟨(k', v) :: pre, w, post, rfl, hpost⟩
    · have hk : k = k' := (List.mem_cons.1 h).resolve_right hps
      subst hk
      exact ⟨[], v, ps, rfl, hps⟩

/-- **A written map overrides** the one it is written into. -/
theorem assign_eq_or (m : α → Option β) (ps : List (α × β)) (k : α) :
    assign m ps k = (assign unbound ps k).or (m k) := by
  by_cases hk : k ∈ ps.map Prod.fst
  · obtain ⟨pre, v, post, rfl, hpost⟩ := exists_last hk
    rw [assign_last _ _ _ hpost, assign_last _ _ _ hpost, Option.some_or]
  · rw [assign_of_not_mem _ _ hk, assign_of_not_mem _ _ hk]
    rfl

theorem assign_eq_none {ps : List (α × β)} {k : α} : assign unbound ps k = none ↔ k ∉ ps.map Prod.fst := by
  refine ⟨fun h hk => ?_, fun h => assign_of_not_mem ps _ h⟩
  obtain ⟨pre, v, post, rfl, hpost⟩ := exists_last hk
  rw [assign_last _ _ _ hpost] at h
  cases h

theorem mem_of_assign : ∀ {ps : List (α × β)} {k : α} {v : β}, assign unbound ps k = some v → (k, v) ∈ ps := by
  intro ps k v h
  by_cases hk : k ∈ ps.map Prod.fst
  · obtain ⟨pre, w, post, rfl, hpost⟩ := exists_last hk
    rw [assign_last _ _ _ hpost, Option.some.injEq] at h
    subst h
    simp
  · rw [assign_eq_none.2 hk] at h
    cases h

/-- When no key comes twice, the bindings are the pairs. -/
theorem assign_eq_some {ps : List (α × β)} (hnodup : (ps.map Prod.fst).Nodup) {k : α} {v : β} :
    assign unbound ps k = some v ↔ (k, v) ∈ ps := by
  refine ⟨mem_of_assign, fun h => ?_⟩
  obtain ⟨pre, post, rfl⟩ := List.append_of_mem h
  rw [List.map_append, List.map_cons, List.nodup_append, List.nodup_cons] at hnodup
  exact assign_last _ _ _ hnodup.2.1.1

end

/-! ## Callbacks -/

/-- The callback over a list of pairs, until it returns something else than 0. -/
def walk (cb : σ → α → β → Option (Int × σ)) : List (α × β) → σ → Option (Int × σ)
  | [], context => some (0, context)
  | (key, value) :: ps, context => do
    let (ret, context) ← cb context key value
    if ret ≠ 0 then some (ret, context) else walk cb ps context

/-- Every pair is given in a state that `ok` allows it in, and the callback has a result there. -/
def Along (cb : σ → α → β → Option (Int × σ)) (ok : σ → α → β → Prop) : List (α × β) → σ → Prop
  | [], _ => True
  | (key, value) :: ps, context => ok context key value ∧
    match cb context key value with
    | none => False
    | some (_, context) => Along cb ok ps context

instance decidableAlong {cb : σ → α → β → Option (Int × σ)} {ok : σ → α → β → Prop}
    [∀ context key value, Decidable (ok context key value)] : ∀ (ps : List (α × β)) (context : σ),
    Decidable (Along cb ok ps context)
  | [], _ => .isTrue trivial
  | (key, value) :: ps, context =>
    have : Decidable (match cb context key value with
      | none => False
      | some (_, context) => Along cb ok ps context) :=
      match cb context key value with
      | none => .isFalse id
      | some (_, context) => decidableAlong ps context
    inferInstanceAs (Decidable (_ ∧ _))

/-- **The invariant rule**: what every allowed call keeps holds after the walk, which no call stops. -/
theorem walk_of_along {cb : σ → α → β → Option (Int × σ)} {ok : σ → α → β → Prop} (Inv : List (α × β) → σ → Prop)
    (all : List (α × β)) (step : ∀ pre key value post context, all = pre ++ (key, value) :: post → Inv pre context →
      ok context key value → ∃ context', cb context key value = some (0, context') ∧
        Inv (pre ++ [(key, value)]) context') :
    ∀ (ps pre : List (α × β)) (context : σ), all = pre ++ ps → Inv pre context → Along cb ok ps context →
      ∃ context', walk cb ps context = some (0, context') ∧ Inv all context'
  | [], pre, context, hall, hinv, _ => ⟨context, rfl, by rw [hall, List.append_nil]; exact hinv⟩
  | (key, value) :: ps, pre, context, hall, hinv, halong => by
    obtain ⟨context', hcb, hinv'⟩ := step pre key value ps context hall hinv halong.1
    have hrest := halong.2
    rw [hcb] at hrest
    obtain ⟨context'', hwalk, hend⟩ := walk_of_along Inv all step ps (pre ++ [(key, value)]) context' (by simp [hall]) hinv' hrest
    exact ⟨context'', by simp only [walk, hcb]; exact hwalk, hend⟩

/-- **Two walks side by side**: what every two allowed calls keep of the two contexts holds of them after the walks. -/
theorem walk_along₂ {cb : σ → α → β → Option (Int × σ)} {ok : σ → α → β → Prop} (Rel : σ → σ → Prop) :
    ∀ (ps : List (α × β)), (∀ p ∈ ps, ∀ context₁ context₂, Rel context₁ context₂ → ok context₁ p.1 p.2 →
      ok context₂ p.1 p.2 → ∃ context₁' context₂', cb context₁ p.1 p.2 = some (0, context₁') ∧
        cb context₂ p.1 p.2 = some (0, context₂') ∧ Rel context₁' context₂') →
    ∀ context₁ context₂, Rel context₁ context₂ → Along cb ok ps context₁ → Along cb ok ps context₂ →
      ∃ context₁' context₂', walk cb ps context₁ = some (0, context₁') ∧ walk cb ps context₂ = some (0, context₂') ∧
        Rel context₁' context₂'
  | [], _, context₁, context₂, hrel, _, _ => ⟨context₁, context₂, rfl, rfl, hrel⟩
  | (key, value) :: ps, step, context₁, context₂, hrel, halong₁, halong₂ => by
    obtain ⟨context₁', context₂', hcb₁, hcb₂, hrel'⟩ :=
      step (key, value) List.mem_cons_self context₁ context₂ hrel halong₁.1 halong₂.1
    have hrest₁ := halong₁.2
    have hrest₂ := halong₂.2
    simp only at hcb₁ hcb₂
    rw [hcb₁] at hrest₁
    rw [hcb₂] at hrest₂
    obtain ⟨end₁, end₂, hwalk₁, hwalk₂, hend⟩ := walk_along₂ Rel ps (fun p hp => step p (List.mem_cons_of_mem _ hp))
      context₁' context₂' hrel' hrest₁ hrest₂
    exact ⟨end₁, end₂, by simp only [walk, hcb₁]; exact hwalk₁, by simp only [walk, hcb₂]; exact hwalk₂, hend⟩

/-- **The invariant rule for a callback that may stop the walk**: what every call keeps holds after it. -/
theorem walk_inv {cb : σ → α → β → Option (Int × σ)} (Inv : σ → Prop) : ∀ (ps : List (α × β)),
    (∀ p ∈ ps, ∀ context, Inv context → ∃ ret context', cb context p.1 p.2 = some (ret, context') ∧ Inv context') →
    ∀ context, Inv context → ∃ ret context', walk cb ps context = some (ret, context') ∧ Inv context'
  | [], _, context, hinv => ⟨0, context, rfl, hinv⟩
  | (key, value) :: ps, step, context, hinv => by
    obtain ⟨ret, context', hcb, hinv'⟩ := step (key, value) List.mem_cons_self context hinv
    by_cases hret : ret = 0
    · obtain ⟨ret', context'', hwalk, hend⟩ := walk_inv Inv ps (fun p hp => step p (List.mem_cons_of_mem _ hp)) context' hinv'
      refine ⟨ret', context'', ?_, hend⟩
      simp only at hcb
      simp only [walk, hcb, Option.bind_eq_bind, Option.bind_some, hret, ne_eq, not_true_eq_false, if_false, hwalk]
    · refine ⟨ret, context', ?_, hinv'⟩
      simp only at hcb
      simp only [walk, hcb, Option.bind_eq_bind, Option.bind_some, ne_eq, hret, not_false_eq_true, if_true]

/-- **What is allowed may be told in another way**, in the states an invariant allows. -/
theorem along_congr {cb : σ → α → β → Option (Int × σ)} {ok ok' : σ → α → β → Prop} (Inv : σ → Prop) :
    ∀ (ps : List (α × β)), (∀ p ∈ ps, ∀ context, Inv context → (ok context p.1 p.2 ↔ ok' context p.1 p.2) ∧
      (ok context p.1 p.2 → ∃ ret context', cb context p.1 p.2 = some (ret, context') ∧ Inv context')) →
    ∀ context, Inv context → (Along cb ok ps context ↔ Along cb ok' ps context)
  | [], _, _, _ => Iff.rfl
  | (key, value) :: ps, step, context, hinv => by
    obtain ⟨hiff, hnext⟩ := step (key, value) List.mem_cons_self context hinv
    unfold Along
    rw [← hiff]
    refine and_congr_right fun hok => ?_
    obtain ⟨ret, context', hcb, hinv'⟩ := hnext hok
    simp only at hcb
    simp only [hcb]
    exact along_congr Inv ps (fun p hp => step p (List.mem_cons_of_mem _ hp)) context' hinv'

end Lib
