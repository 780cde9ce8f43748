import Mathlib.Data.List.Basic
import Mathlib.Logic.Function.Basic
/-!
# Replay — operations applied one after the other

`apply` has no result when the program aborts.  Operations that commute may be applied in either order
(`replay_middle`), and operations that modify different places commute (`modifyAt_comm`).
-/
namespace Lib

section
variable {σ ω : Type} (apply : ω → σ → Option σ)

def replay : List ω → σ → Option σ
  | [], s => some s
  | o :: os, s => (apply o s).bind (replay os)

@[simp] theorem replay_nil (s : σ) : replay apply [] s = some s := rfl

@[simp] theorem replay_cons (o : ω) (os : List ω) (s : σ) :
    replay apply (o :: os) s = (apply o s).bind (replay apply os) := rfl

theorem replay_append : ∀ (os os' : List ω) (s : σ),
    replay apply (os ++ os') s = (replay apply os s).bind (replay apply os')
  | [], _, _ => rfl
  | o :: os, os', s => by
    rw [List.cons_append, replay_cons, replay_cons, Option.bind_assoc]
    exact congrArg _ (funext (fun s' => replay_append os os' s'))

theorem replay_snoc (os : List ω) (o : ω) (s : σ) :
    replay apply (os ++ [o]) s = (replay apply os s).bind (apply o) := by
  rw [replay_append]
  refine congrArg _ (funext (fun s' => ?_))
  rw [replay_cons]
  cases apply o s' <;> rfl

def Commutes (a b : ω) : Prop := ∀ s, (apply a s).bind (apply b) = (apply b s).bind (apply a)

variable {apply}

theorem Commutes.symm {a b : ω} (h : Commutes apply a b) : Commutes apply b a := fun s => (h s).symm

theorem Commutes.refl (a : ω) : Commutes apply a a := fun _ => rfl

/-- An operation that commutes with each of the others goes past all of them. -/
theorem replay_bind_comm {o : ω} : ∀ (os : List ω) (s : σ), (∀ a ∈ os, Commutes apply a o) →
    (replay apply os s).bind (apply o) = (apply o s).bind (replay apply os)
  | [], s, _ => by
    rw [replay_nil, Option.bind_some]
    cases apply o s <;> rfl
  | a :: os, s, h => by
    have ih (s' : σ) := replay_bind_comm os s' (fun b hb => h b (List.mem_cons_of_mem _ hb))
    calc (replay apply (a :: os) s).bind (apply o)
        = (apply a s).bind (fun s' => (replay apply os s').bind (apply o)) := by rw [replay_cons, Option.bind_assoc]
      _ = (apply a s).bind (fun s' => (apply o s').bind (replay apply os)) := congrArg _ (funext ih)
      _ = ((apply o s).bind (apply a)).bind (replay apply os) := by
          rw [← Option.bind_assoc, h a List.mem_cons_self s]
      _ = (apply o s).bind (replay apply (a :: os)) := by rw [Option.bind_assoc]; rfl

/-- **An operation may be applied before the ones in front of it that it commutes with.** -/
theorem replay_middle {o : ω} (os os' : List ω) (s : σ) (h : ∀ a ∈ os, Commutes apply a o) :
    replay apply (os ++ o :: os') s = (apply o s).bind (replay apply (os ++ os')) := by
  rw [replay_append]
  calc (replay apply os s).bind (replay apply (o :: os'))
      = ((replay apply os s).bind (apply o)).bind (replay apply os') := by rw [Option.bind_assoc]; rfl
    _ = ((apply o s).bind (replay apply os)).bind (replay apply os') := by rw [replay_bind_comm os s h]
    _ = (apply o s).bind (replay apply (os ++ os')) := by
        rw [Option.bind_assoc]
        exact congrArg _ (funext (fun s' => (replay_append apply os os' s').symm))

end

/-! ## Modifying one place -/

section
variable {ι β : Type} [DecidableEq ι]

def modifyAt (i : ι) (f : β → Option β) (s : ι → β) : Option (ι → β) := (f (s i)).map (Function.update s i)

theorem modifyAt_eq_some {i : ι} {f : β → Option β} {s s' : ι → β} (h : modifyAt i f s = some s') :
    f (s i) = some (s' i) ∧ ∀ j, j ≠ i → s' j = s j := by
  obtain ⟨b, hb, rfl⟩ := Option.map_eq_some_iff.1 h
  exact ⟨by simpa using hb, fun j hj => Function.update_of_ne hj _ _⟩

/-- **Modifications of different places commute.** -/
theorem modifyAt_comm {i j : ι} (hij : i ≠ j) (f g : β → Option β) (s : ι → β) :
    (modifyAt i f s).bind (modifyAt j g) = (modifyAt j g s).bind (modifyAt i f) := by
  unfold modifyAt
  cases hf : f (s i) with
  | none => cases hg : g (s j) <;> simp [Function.update_of_ne hij, hf]
  | some b =>
    cases hg : g (s j) with
    | none => simp [Function.update_of_ne hij.symm, hg]
    | some c => simp [Function.update_of_ne hij, Function.update_of_ne hij.symm, hf, hg, Function.update_comm hij]

/-- Modifications of one place commute when what they do there commutes. -/
theorem modifyAt_comm_same {f g : β → Option β} (h : ∀ b, (f b).bind g = (g b).bind f) (i : ι) (s : ι → β) :
    (modifyAt i f s).bind (modifyAt i g) = (modifyAt i g s).bind (modifyAt i f) := by
  have hboth (f g : β → Option β) : (modifyAt i f s).bind (modifyAt i g) =
      ((f (s i)).bind g).map (Function.update s i) := by
    unfold modifyAt
    cases hf : f (s i) with
    | none => rfl
    | some b =>
      simp only [Option.map_some, Option.bind_some, Function.update_self]
      cases g b <;> simp
  rw [hboth, hboth, h]

end
end Lib
