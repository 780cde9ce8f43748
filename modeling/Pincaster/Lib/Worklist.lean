import Mathlib.Data.List.Nodup
import Mathlib.Data.Set.Card
import Mathlib.Logic.Relation
/-!
# Worklist — a list that grows while it is gone through

Every element may add others, which go to the end unless they are there.  Once the end is reached the list has what can
be reached from its first element, each once.
-/
namespace Lib

variable {α : Type}

/-- What is reached by some steps. -/
def Reach (next : α → List α) : α → α → Prop := Relation.ReflTransGen (fun x y => y ∈ next x)

section

variable [DecidableEq α]

/-- Elements that are new go to the end, in their order. -/
def grow (seen : List α) : List α → List α
  | [] => seen
  | x :: xs => grow (if x ∈ seen then seen else seen ++ [x]) xs

theorem prefix_grow : ∀ (xs seen : List α), seen <+: grow seen xs
  | [], seen => List.prefix_rfl
  | x :: xs, seen => by
    rw [grow]
    refine List.IsPrefix.trans ?_ (prefix_grow xs _)
    split
    · exact List.prefix_rfl
    · exact List.prefix_append _ _

theorem mem_grow {y : α} : ∀ (xs seen : List α), y ∈ grow seen xs ↔ y ∈ seen ∨ y ∈ xs
  | [], seen => by simp [grow]
  | x :: xs, seen => by
    rw [grow, mem_grow xs, List.mem_cons]
    split
    · rename_i hx
      refine ⟨fun h => h.imp_right .inr, fun h => h.elim .inl (fun h => h.elim (fun hy => .inl (hy ▸ hx)) .inr)⟩
    · rw [List.mem_append, List.mem_singleton, or_assoc]

theorem nodup_grow : ∀ (xs : List α) {seen : List α}, seen.Nodup → (grow seen xs).Nodup
  | [], _, h => h
  | x :: xs, seen, h => by
    rw [grow]
    refine nodup_grow xs ?_
    split
    · exact h
    · rename_i hx
      exact List.nodup_append.2 ⟨h, List.nodup_singleton x, fun a ha b hb hab =>
        hx (by rw [← List.mem_singleton.1 hb, ← hab]; exact ha)⟩

theorem grow_of_subset : ∀ (xs : List α) {seen : List α}, (∀ x ∈ xs, x ∈ seen) → grow seen xs = seen
  | [], _, _ => rfl
  | x :: xs, seen, h => by
    rw [grow, if_pos (h x List.mem_cons_self)]
    exact grow_of_subset xs (fun y hy => h y (List.mem_cons_of_mem x hy))

/-- **A list gone through up to `i`**: all it has is reached from its first element, and what the elements before `i`
add is there. -/
structure Swept (next : α → List α) (start : α) (i : Nat) (seen : List α) : Prop where
  head : seen.head? = some start
  nodup : seen.Nodup
  reached : ∀ x ∈ seen, Reach next start x
  closed : ∀ j x, j < i → seen[j]? = some x → ∀ y ∈ next x, y ∈ seen

variable {next : α → List α} {start : α} {i : Nat} {seen : List α}

omit [DecidableEq α] in
theorem swept_singleton (next : α → List α) (start : α) : Swept next start 0 [start] where
  head := rfl
  nodup := List.nodup_singleton start
  reached x hx := by
    rw [List.mem_singleton.1 hx]
    exact .refl
  closed j x hj := by omega

/-- **One more element is gone through.** -/
theorem Swept.step (h : Swept next start i seen) {x : α} (hx : seen[i]? = some x) :
    Swept next start (i + 1) (grow seen (next x)) := by
  have hpre := prefix_grow (next x) seen
  refine ⟨?_, nodup_grow _ h.nodup, fun y hy => ?_, fun j y hj hy z hz => ?_⟩
  · obtain ⟨post, hpost⟩ := hpre
    rw [← hpost, List.head?_append, h.head, Option.some_or]
  · rcases (mem_grow _ _).1 hy with hy | hy
    · exact h.reached y hy
    · exact (h.reached x (List.mem_of_getElem? hx)).tail hy
  · have hi : i < seen.length := (List.getElem?_eq_some_iff.1 hx).1
    obtain ⟨post, hpost⟩ := hpre
    rw [← hpost, List.getElem?_append_left (by omega)] at hy
    rcases Nat.lt_succ_iff_lt_or_eq.1 hj with hj | rfl
    · exact (mem_grow _ _).2 (.inl (h.closed j y hj hy z hz))
    · rw [hx, Option.some.injEq] at hy
      exact (mem_grow _ _).2 (.inr (hy ▸ hz))

omit [DecidableEq α] in
/-- **A list gone through to its end** has what is reached, and nothing else. -/
theorem Swept.mem_iff (h : Swept next start i seen) (hi : seen.length ≤ i) {y : α} : y ∈ seen ↔ Reach next start y := by
  refine ⟨h.reached y, fun hy => ?_⟩
  induction hy with
  | refl => exact List.mem_of_head? h.head
  | @tail x y _ hxy ih =>
    obtain ⟨j, hj, hx⟩ := List.getElem_of_mem ih
    exact h.closed j x (by omega) (by rw [List.getElem?_eq_getElem hj, hx]) y hxy

omit [DecidableEq α] in
theorem Swept.ncard (h : Swept next start i seen) (hi : seen.length ≤ i) :
    Set.ncard {y | Reach next start y} = seen.length := by
  classical
  have heq : {y | Reach next start y} = (seen.toFinset : Set α) := by
    ext y
    rw [Set.mem_ofPred_eq, Finset.mem_coe, List.mem_toFinset, h.mem_iff hi]
  rw [heq, Set.ncard_coe_finset, List.toFinset_card_of_nodup h.nodup]

end

end Lib
