import Mathlib.Data.List.Induction
import Mathlib.Logic.Relation
import Pincaster.Lib.Runs
/-!
# Simulation — a system that follows another one

A system is simulated by another one when every step it takes is a step of the other, between states that are related.
Its runs are then runs of the other one, and what holds in all states of the other one holds of related states.  A part
of a system takes some of its steps; the runs of the system are then runs of the part.
-/
namespace Lib

namespace System

variable {σ τ ι κ : Type} {C : System σ ι} {A : System τ κ} {R : σ → τ → Prop} {input : ι → κ}

/-- A run whose inputs are good is one of the restricted system. -/
theorem Run.restrict {Good : σ → ι → Prop} {hist : List (σ × ι)} {s : σ} (hr : C.Run hist s)
    (hgood : ∀ p ∈ hist, Good p.1 p.2) : (C.restrict Good).Run hist s := by
  induction hr with
  | init => exact .init
  | @snoc hist s s' i _ hlegal hstep ih =>
    exact (ih (fun p hp => hgood p (List.mem_append_left _ hp))).snoc
      ⟨hlegal, hgood (s, i) (List.mem_append_right _ (List.mem_singleton_self _))⟩ hstep

/-- **Every step of a system is a step of another one.** -/
structure Simulation (C : System σ ι) (A : System τ κ) (R : σ → τ → Prop) (input : ι → κ) : Prop where
  init : R C.init A.init
  step : ∀ {s t i s'}, R s t → C.legal s i → C.step s i = some s' →
    A.legal t (input i) ∧ ∃ t', A.step t (input i) = some t' ∧ R s' t'

/-- **A run is followed to its end.** -/
theorem Simulation.run (h : Simulation C A R input) {hist : List (σ × ι)} {s : σ} (hr : C.Run hist s) :
    ∃ hist' t, A.Run hist' t ∧ hist'.map Prod.snd = hist.map (fun p => input p.2) ∧ R s t := by
  induction hr with
  | init => exact ⟨[], A.init, .init, rfl, h.init⟩
  | @snoc hist s s' i _ hlegal hstep ih =>
    obtain ⟨hist', t, hr', hinputs, hrel⟩ := ih
    obtain ⟨hlegal', t', hstep', hrel'⟩ := h.step hrel hlegal hstep
    exact ⟨_, t', hr'.snoc hlegal' hstep', by rw [List.map_append, List.map_append, hinputs]; rfl, hrel'⟩

/-- **An invariant of the other system** is one of the system. -/
theorem Simulation.reachable (h : Simulation C A R input) {s : σ} (hr : C.Reachable s) :
    ∃ t, A.Reachable t ∧ R s t := by
  obtain ⟨hist, hr⟩ := hr
  obtain ⟨hist', t, hr', -, hrel⟩ := h.run hr
  exact ⟨t, ⟨hist', hr'⟩, hrel⟩

/-! ## Parts -/

/-- The steps of a part, with its own states. -/
def partHistory (part : σ → τ) (input : σ → ι → Option κ) (hist : List (σ × ι)) : List (τ × κ) :=
  hist.filterMap (fun p => (input p.1 p.2).map (fun j => (part p.1, j)))

theorem partHistory_snoc (part : σ → τ) (input : σ → ι → Option κ) (hist : List (σ × ι)) (s : σ) (i : ι) :
    partHistory part input (hist ++ [(s, i)]) =
      partHistory part input hist ++ ((input s i).map (fun j => (part s, j))).toList := by
  rw [partHistory, partHistory, List.filterMap_append, List.filterMap_cons, List.filterMap_nil]
  cases input s i <;> rfl

/-- **A run of a system is one of its part.** -/
theorem Run.part {part : σ → τ} {input : σ → ι → Option κ} (hinit : part C.init = A.init)
    (hnone : ∀ s i s', C.Reachable s → C.step s i = some s' → input s i = none → part s' = part s)
    (hsome : ∀ s i s' j, C.Reachable s → C.legal s i → C.step s i = some s' → input s i = some j →
      A.legal (part s) j ∧ A.step (part s) j = some (part s')) {hist : List (σ × ι)} {s : σ} (hr : C.Run hist s) :
    A.Run (partHistory part input hist) (part s) := by
  induction hr with
  | init =>
    rw [hinit]
    exact .init
  | @snoc hist s s' i hr hlegal hstep ih =>
    rw [partHistory_snoc]
    cases hi : input s i with
    | none =>
      rw [hnone s i s' ⟨hist, hr⟩ hstep hi, Option.map_none, Option.toList_none, List.append_nil]
      exact ih
    | some j =>
      obtain ⟨hlegal', hstep'⟩ := hsome s i s' j ⟨hist, hr⟩ hlegal hstep hi
      exact ih.snoc hlegal' hstep'

/-! ## Continuations -/

/-- A state that some good inputs lead to. -/
def Continues (C : System σ ι) (Good : ι → Prop) : σ → σ → Prop :=
  Relation.ReflTransGen (fun s s' => ∃ i, C.legal s i ∧ Good i ∧ C.step s i = some s')

theorem Continues.single {Good : ι → Prop} {s s' : σ} {i : ι} (hlegal : C.legal s i) (hgood : Good i)
    (hstep : C.step s i = some s') : C.Continues Good s s' := Relation.ReflTransGen.single ⟨i, hlegal, hgood, hstep⟩

/-- A run goes on. -/
theorem Run.append {Good : ι → Prop} {hist : List (σ × ι)} {s s' : σ} (hr : C.Run hist s) (h : C.Continues Good s s') :
    ∃ hist', C.Run (hist ++ hist') s' ∧ ∀ p ∈ hist', Good p.2 := by
  induction h with
  | refl => exact ⟨[], by rwa [List.append_nil], by simp⟩
  | @tail t s' _ hnext ih =>
    obtain ⟨hist', hr', hgood'⟩ := ih
    obtain ⟨i, hlegal, hgood, hstep⟩ := hnext
    refine ⟨hist' ++ [(t, i)], by rw [← List.append_assoc]; exact hr'.snoc hlegal hstep, fun p hp => ?_⟩
    rcases List.mem_append.1 hp with hp | hp
    · exact hgood' p hp
    · rwa [List.mem_singleton.1 hp]

theorem Run.snoc_inv {hist : List (σ × ι)} {s s' : σ} {i : ι} (hr : C.Run (hist ++ [(s, i)]) s') :
    C.Run hist s ∧ C.legal s i ∧ C.step s i = some s' := by
  generalize hl : hist ++ [(s, i)] = l at hr
  cases hr with
  | init => simp at hl
  | snoc hr hlegal hstep =>
    obtain ⟨rfl, heq⟩ := List.append_inj' hl rfl
    obtain ⟨rfl, rfl⟩ := Prod.mk.inj (List.singleton_inj.1 heq)
    exact ⟨hr, hlegal, hstep⟩

/-- The history of a run says where it ends. -/
theorem Run.unique {hist : List (σ × ι)} {s s' : σ} (hr : C.Run hist s) (hr' : C.Run hist s') : s = s' := by
  cases hr with
  | init =>
    generalize hl : ([] : List (σ × ι)) = l at hr'
    cases hr' with
    | init => rfl
    | snoc => simp at hl
  | snoc _ _ hstep => exact Option.some.inj (hstep.symm.trans hr'.snoc_inv.2.2)

/-- What a run does after its beginning. -/
theorem Run.continues {Good : ι → Prop} {hist : List (σ × ι)} {s : σ} (hr : C.Run hist s) :
    ∀ {hist' : List (σ × ι)} {s' : σ},
    C.Run (hist ++ hist') s' → (∀ p ∈ hist', Good p.2) → C.Continues Good s s' := by
  intro hist'
  induction hist' using List.reverseRecOn with
  | nil =>
    intro s' hr' _
    rw [List.append_nil] at hr'
    exact hr.unique hr' ▸ .refl
  | append_singleton hist' p ih =>
    intro s' hr' hgood
    obtain ⟨t, i⟩ := p
    rw [← List.append_assoc] at hr'
    obtain ⟨hr', hlegal, hstep⟩ := hr'.snoc_inv
    exact (ih hr' (fun p hp => hgood p (List.mem_append_left _ hp))).tail
      ⟨i, hlegal, hgood (t, i) (List.mem_append_right _ (List.mem_singleton_self _)), hstep⟩

end System
end Lib
