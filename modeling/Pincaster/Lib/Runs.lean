import Mathlib.Data.List.Basic
/-!
# Runs — systems taking step after step

A system has one initial state, inputs that are legal in some states, and a step that has no result when the program
aborts.  A run keeps its history: every input with the state it was given in, oldest first.
-/
namespace Lib

structure System (σ ι : Type) where
  init : σ
  legal : σ → ι → Prop
  step : σ → ι → Option σ

namespace System

variable {σ ι : Type}

inductive Run (S : System σ ι) : List (σ × ι) → σ → Prop
  | init : Run S [] S.init
  | snoc {h : List (σ × ι)} {s s' : σ} {i : ι} : Run S h s → S.legal s i → S.step s i = some s' →
      Run S (h ++ [(s, i)]) s'

def Reachable (S : System σ ι) (s : σ) : Prop := ∃ h, S.Run h s

variable {S : System σ ι}

/-- **An invariant that good steps keep holds all along a run of good steps.** -/
theorem Run.inv_of_good (Inv : σ → Prop) (Good : σ → ι → Prop) (h0 : Inv S.init)
    (hstep : ∀ s i s', Inv s → S.legal s i → Good s i → S.step s i = some s' → Inv s')
    {h : List (σ × ι)} {s : σ} (hr : S.Run h s) : (∀ p ∈ h, Good p.1 p.2) → (∀ p ∈ h, Inv p.1) ∧ Inv s := by
  induction hr with
  | init => exact fun _ => ⟨by simp, h0⟩
  | @snoc h s s' i _ hl hs ih =>
    intro hg
    obtain ⟨ihh, ihs⟩ := ih (fun p hp => hg p (List.mem_append_left _ hp))
    refine ⟨fun p hp => ?_, hstep s i s' ihs hl (hg (s, i) (by simp)) hs⟩
    rcases List.mem_append.1 hp with hp | hp
    · exact ihh p hp
    · rw [List.mem_singleton.1 hp]; exact ihs

theorem Run.inv (Inv : σ → Prop) (h0 : Inv S.init)
    (hstep : ∀ s i s', Inv s → S.legal s i → S.step s i = some s' → Inv s')
    {h : List (σ × ι)} {s : σ} (hr : S.Run h s) : Inv s :=
  (hr.inv_of_good Inv (fun _ _ => True) h0 (fun s i s' hi hl _ hs => hstep s i s' hi hl hs)
    (fun _ _ => trivial)).2

theorem Reachable.inv (Inv : σ → Prop) (h0 : Inv S.init)
    (hstep : ∀ s i s', Inv s → S.legal s i → S.step s i = some s' → Inv s') {s : σ} (hr : S.Reachable s) : Inv s := by
  obtain ⟨h, hr⟩ := hr
  exact hr.inv Inv h0 hstep

/-- **A law that the first bad step breaks holds in every state of a run exactly when every step of it is good.** -/
theorem Run.law_iff_good {Inv Law : σ → Prop} {Good : σ → ι → Prop} (h0 : Inv S.init) (hlaw : ∀ s, Inv s → Law s)
    (hstep : ∀ s i s', Inv s → S.legal s i → Good s i → S.step s i = some s' → Inv s')
    (hbad : ∀ s i s', Inv s → S.legal s i → ¬ Good s i → S.step s i = some s' → ¬ Law s')
    {h : List (σ × ι)} {s : σ} (hr : S.Run h s) :
    ((∀ p ∈ h, Law p.1) ∧ Law s) ↔ ∀ p ∈ h, Good p.1 p.2 := by
  constructor
  · induction hr with
    | init => exact fun _ p hp => by cases hp
    | @snoc h s s' i hr hl hs ih =>
      rintro ⟨hh, hs'⟩ p hp
      have hgood := ih ⟨fun q hq => hh q (List.mem_append_left _ hq), hh (s, i) (by simp)⟩
      rcases List.mem_append.1 hp with hp | hp
      · exact hgood p hp
      · rw [List.mem_singleton.1 hp]
        by_contra hb
        exact hbad s i s' (hr.inv_of_good Inv Good h0 hstep hgood).2 hl hb hs hs'
  · intro hg
    obtain ⟨hh, hs⟩ := hr.inv_of_good Inv Good h0 hstep hg
    exact ⟨fun p hp => hlaw _ (hh p hp), hlaw _ hs⟩

/-- The system with one more condition on its inputs. -/
def restrict (S : System σ ι) (Good : σ → ι → Prop) : System σ ι := { S with legal := fun s i => S.legal s i ∧ Good s i }

instance {Good : σ → ι → Prop} (s : σ) (i : ι) [Decidable (S.legal s i)] [Decidable (Good s i)] :
    Decidable ((S.restrict Good).legal s i) := inferInstanceAs (Decidable (_ ∧ _))

theorem Run.of_restrict {Good : σ → ι → Prop} {h : List (σ × ι)} {s : σ} (hr : (S.restrict Good).Run h s) :
    S.Run h s ∧ ∀ p ∈ h, Good p.1 p.2 := by
  induction hr with
  | init => exact ⟨.init, by simp⟩
  | @snoc h s s' i _ hl hs ih =>
    refine ⟨ih.1.snoc hl.1 hs, fun p hp => ?_⟩
    rcases List.mem_append.1 hp with hp | hp
    · exact ih.2 p hp
    · rw [List.mem_singleton.1 hp]
      exact hl.2

/-- A run computed from its inputs, with no result where one of them is not legal. -/
def exec (S : System σ ι) [∀ s i, Decidable (S.legal s i)] : List ι → σ → Option σ
  | [], s => some s
  | i :: is, s => if S.legal s i then (S.step s i).bind (S.exec is) else none

theorem Run.of_exec [∀ s i, Decidable (S.legal s i)] : ∀ (is : List ι) {h : List (σ × ι)} {s s' : σ},
    S.Run h s → S.exec is s = some s' → ∃ h', S.Run h' s' ∧ h'.map Prod.snd = h.map Prod.snd ++ is
  | [], h, s, s', hr, he => by
    cases he
    exact ⟨h, hr, by simp⟩
  | i :: is, h, s, s', hr, he => by
    rw [exec] at he
    split at he
    · rename_i hl
      obtain ⟨s₁, hs₁, he⟩ := Option.bind_eq_some_iff.1 he
      obtain ⟨h', hr', hi⟩ := of_exec is (hr.snoc hl hs₁) he
      exact ⟨h', hr', by simp [hi]⟩
    · cases he

/-- What is seen at the end of these inputs is seen at the end of a run. -/
theorem exists_run_of_exec [∀ s i, Decidable (S.legal s i)] {is : List ι} {p : σ → Bool}
    (hp : (S.exec is S.init).any p = true) : ∃ h s, S.Run h s ∧ h.map Prod.snd = is ∧ p s = true := by
  obtain ⟨s, hs, hp⟩ := (Option.any_eq_true _ _).1 hp
  obtain ⟨h, hr, hinputs⟩ := Run.of_exec is Run.init hs
  exact ⟨h, s, hr, hinputs, hp⟩

end System
end Lib
