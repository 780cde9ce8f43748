/-!
# Calls — objects that reply, against what they are for

An object takes calls one after the other and replies to each; a call that aborts has no result.  A specification says
which replies a call may get in a state of its own.  `calls_simulates` carries one step of a simulation to every list of
calls, also where the object meets the specification in good states only.
-/
namespace Lib

variable {σ τ ι ρ : Type}

/-- The calls in their order, with their replies. -/
def calls (call : σ → ι → Option (σ × ρ)) : σ → List ι → Option (σ × List ρ)
  | s, [] => some (s, [])
  | s, i :: is => (call s i).bind (fun r => (calls call r.1 is).map (fun rs => (rs.1, r.2 :: rs.2)))

/-- **The replies that a specification allows** for the calls from a state on. -/
inductive Replies (spec : τ → ι → ρ → τ → Prop) : τ → List ι → List ρ → Prop
  | nil (t : τ) : Replies spec t [] []
  | cons {t t' : τ} {i : ι} {r : ρ} {is : List ι} {rs : List ρ} : spec t i r t' → Replies spec t' is rs →
      Replies spec t (i :: is) (r :: rs)

/-- The condition holds at every call that is made. -/
def GoodCalls (call : σ → ι → Option (σ × ρ)) (Good : σ → ι → Prop) : σ → List ι → Prop
  | _, [] => True
  | s, i :: is => Good s i ∧ ∀ r ∈ call s i, GoodCalls call Good r.1 is

variable {call : σ → ι → Option (σ × ρ)} {spec : τ → ι → ρ → τ → Prop} {Good Good' : σ → ι → Prop}
  {Sim : σ → τ → Prop} {Ok : ι → Prop}

/-- **A simulation step by step is one of every list of calls**, as long as the calls are good. -/
theorem calls_simulates (hstep : ∀ s t i, Sim s t → Ok i → Good s i →
      ∃ s' r t', call s i = some (s', r) ∧ spec t i r t' ∧ Sim s' t') :
    ∀ (is : List ι) (s : σ) (t : τ), Sim s t → (∀ i ∈ is, Ok i) → GoodCalls call Good s is →
      ∃ s' rs, calls call s is = some (s', rs) ∧ Replies spec t is rs
  | [], s, t, _, _, _ => ⟨s, [], rfl, .nil t⟩
  | i :: is, s, t, hsim, hok, hgood => by
    obtain ⟨s', r, t', hcall, hspec, hsim'⟩ := hstep s t i hsim (hok i List.mem_cons_self) hgood.1
    obtain ⟨s'', rs, hcalls, hreplies⟩ := calls_simulates hstep is s' t' hsim'
      (fun j hj => hok j (List.mem_cons_of_mem _ hj)) (hgood.2 _ hcall)
    refine ⟨s'', r :: rs, ?_, .cons hspec hreplies⟩
    rw [calls, hcall, Option.bind_some, hcalls, Option.map_some]

/-- **Two conditions that agree where the simulation holds** are the same condition on the calls. -/
theorem goodCalls_iff (hiff : ∀ s t i, Sim s t → Ok i → (Good s i ↔ Good' s i))
    (hstep : ∀ s t i, Sim s t → Ok i → Good s i → ∃ s' r t', call s i = some (s', r) ∧ spec t i r t' ∧ Sim s' t') :
    ∀ (is : List ι) (s : σ) (t : τ), Sim s t → (∀ i ∈ is, Ok i) →
      (GoodCalls call Good s is ↔ GoodCalls call Good' s is)
  | [], _, _, _, _ => Iff.rfl
  | i :: is, s, t, hsim, hok => by
    have hi := hok i List.mem_cons_self
    rw [GoodCalls, GoodCalls, ← hiff s t i hsim hi]
    refine and_congr_right (fun hgood => ?_)
    obtain ⟨s', r, t', hcall, -, hsim'⟩ := hstep s t i hsim hi hgood
    have hrest := goodCalls_iff hiff hstep is s' t' hsim' (fun j hj => hok j (List.mem_cons_of_mem _ hj))
    rw [hcall]
    constructor
    · rintro h _ ⟨⟩
      exact hrest.1 (h _ rfl)
    · rintro h _ ⟨⟩
      exact hrest.2 (h _ rfl)

/-- An invariant of the calls that makes every call good. -/
theorem goodCalls_of_inv {Inv : σ → Prop} (hgood : ∀ s i, Inv s → Ok i → Good s i)
    (hstep : ∀ s i r, Inv s → Ok i → call s i = some r → Inv r.1) :
    ∀ (is : List ι) (s : σ), Inv s → (∀ i ∈ is, Ok i) → GoodCalls call Good s is
  | [], _, _, _ => trivial
  | i :: is, s, hinv, hok => by
    have hi := hok i List.mem_cons_self
    exact ⟨hgood s i hinv hi, fun r hr => goodCalls_of_inv hgood hstep is r.1 (hstep s i r hinv hi hr)
      (fun j hj => hok j (List.mem_cons_of_mem _ hj))⟩

theorem goodCalls_true : ∀ (is : List ι) (s : σ), GoodCalls call (fun _ _ => True) s is
  | [], _ => trivial
  | _ :: is, _ => ⟨trivial, fun r _ => goodCalls_true is r.1⟩

end Lib
