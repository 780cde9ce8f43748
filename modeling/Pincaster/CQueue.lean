import Mathlib.Data.List.Basic
import Mathlib.Logic.Function.Basic
/-!
# CQueue — `cqueue.c`

A ring of `nb_elements` elements.  Pointers into it are the numbers of the elements they point to.  A failed assertion
and the read of an element that was never written have no result.  `CQueue.Holds` is what the ring is for: a first-in
first-out list no longer than the ring.
-/
namespace Pincaster

variable {α : Type}

structure CQueue (α : Type) where
  cqueue : Nat → Option α
  cqueueEnd : Nat
  firstElement : Option Nat
  lastElement : Option Nat

/-- `init_cqueue`; `none` is its `-1`. -/
def initCqueue (nbElements : Nat) : Option (CQueue α) :=
  if nbElements < 2 then none else some ⟨fun _ => none, nbElements - 1, none, none⟩

def pushCqueue (q : CQueue α) (x : α) : Option (CQueue α × Int) :=
  match q.lastElement with
  | none =>
    if q.firstElement = none then
      some ({ q with cqueue := Function.update q.cqueue 0 (some x), firstElement := some 0, lastElement := some 0 }, 0)
    else none
  | some last =>
    let newElement := if last ≠ q.cqueueEnd then last + 1 else 0
    if q.firstElement = some newElement then some (q, -1)
    else
      some ({ q with cqueue := Function.update q.cqueue newElement (some x), lastElement := some newElement }, 0)

/-- The inner `none` is `NULL`. -/
def shiftCqueue (q : CQueue α) : Option (CQueue α × Option α) :=
  match q.firstElement with
  | none => some (q, none)
  | some first => do
    let x ← q.cqueue first
    if q.lastElement = some first then some ({ q with firstElement := none, lastElement := none }, some x)
    else
      let nextElement := if first ≠ q.cqueueEnd then first + 1 else 0
      some ({ q with firstElement := some nextElement }, some x)

/-- **The ring holds the list `l`**: its elements follow each other from the first one on, around the end. -/
structure CQueue.Holds (q : CQueue α) (l : List α) : Prop where
  len : l.length ≤ q.cqueueEnd + 1
  first : q.firstElement = none ↔ l = []
  last : ∀ f, q.firstElement = some f → f ≤ q.cqueueEnd ∧
    q.lastElement = some ((f + (l.length - 1)) % (q.cqueueEnd + 1))
  lastNone : q.firstElement = none → q.lastElement = none
  elements : ∀ f, q.firstElement = some f → ∀ i x, l[i]? = some x → q.cqueue ((f + i) % (q.cqueueEnd + 1)) = some x

theorem CQueue.holds_nil {q : CQueue α} (hfirst : q.firstElement = none) (hlast : q.lastElement = none) : q.Holds [] :=
  ⟨by simp, by simp [hfirst], by simp [hfirst], fun _ => hlast, by simp⟩

theorem initCqueue_holds {n : Nat} {q : CQueue α} (h : initCqueue n = some q) : q.Holds [] ∧ q.cqueueEnd + 1 = n := by
  unfold initCqueue at h
  split at h
  · cases h
  · cases h
    exact ⟨CQueue.holds_nil rfl rfl, by simp only; omega⟩

theorem mod_succ_eq {a n : Nat} (h : a < n) : (a + 1) % n = if a + 1 ≠ n then a + 1 else 0 := by
  split
  · exact Nat.mod_eq_of_lt (by omega)
  · rename_i hn
    rw [not_not.1 hn, Nat.mod_self]

/-- Going around the ring from `f`, two steps apart by less than a full turn are two elements. -/
theorem mod_add_ne {f i j n : Nat} (hi : i < j) (hj : j < n) : (f + i) % n ≠ (f + j) % n := by
  intro h
  have h1 := Nat.sub_mod_eq_zero_of_mod_eq h.symm
  rw [show f + j - (f + i) = j - i by omega, Nat.mod_eq_of_lt (by omega)] at h1
  omega

/-- **A push appends the element, and fails exactly when the ring is full.** -/
theorem pushCqueue_spec {q : CQueue α} {l : List α} (h : q.Holds l) (x : α) :
    ∃ q' ret, pushCqueue q x = some (q', ret) ∧ q'.cqueueEnd = q.cqueueEnd ∧
      ((l.length < q.cqueueEnd + 1 ∧ ret = 0 ∧ q'.Holds (l ++ [x])) ∨
        (l.length = q.cqueueEnd + 1 ∧ ret = -1 ∧ q' = q)) := by
  unfold pushCqueue
  cases hf : q.firstElement with
  | none =>
    have hl : l = [] := h.first.1 hf
    subst hl
    rw [h.lastNone hf]
    refine ⟨_, 0, rfl, rfl, .inl ⟨by simp, rfl, ⟨by simp, by simp, ?_, by simp, ?_⟩⟩⟩
    · rintro f hf'
      cases hf'
      simp
    · rintro f hf' i y hi
      cases hf'
      cases i with
      | zero => simpa using hi
      | succ i => simp at hi
  | some f =>
    obtain ⟨hfe, hlast⟩ := h.last f hf
    have hpos : 0 < l.length := List.length_pos_of_ne_nil (fun e => by rw [h.first.2 e] at hf; cases hf)
    have hmod : (f + (l.length - 1)) % (q.cqueueEnd + 1) < q.cqueueEnd + 1 := Nat.mod_lt _ (by omega)
    have hnew : (if (f + (l.length - 1)) % (q.cqueueEnd + 1) ≠ q.cqueueEnd then
        (f + (l.length - 1)) % (q.cqueueEnd + 1) + 1 else 0) = (f + l.length) % (q.cqueueEnd + 1) := by
      have h1 := mod_succ_eq hmod
      rw [Nat.mod_add_mod, show f + (l.length - 1) + 1 = f + l.length by omega] at h1
      rw [h1]
      simp only [ne_eq, Nat.add_right_cancel_iff]
    rw [hlast]
    simp only [hnew]
    have hlen := h.len
    by_cases hfull : l.length = q.cqueueEnd + 1
    · have hwrap : (f + l.length) % (q.cqueueEnd + 1) = f := by
        rw [hfull, Nat.add_mod_right, Nat.mod_eq_of_lt (by omega)]
      rw [if_pos (by rw [hwrap])]
      exact ⟨q, -1, rfl, rfl, .inr ⟨hfull, rfl, rfl⟩⟩
    · have hne : f ≠ (f + l.length) % (q.cqueueEnd + 1) := by
        have := mod_add_ne (f := f) (i := 0) (j := l.length) (n := q.cqueueEnd + 1) hpos (by omega)
        rwa [Nat.add_zero, Nat.mod_eq_of_lt (show f < q.cqueueEnd + 1 by omega)] at this
      rw [if_neg (fun e => hne (Option.some.inj e))]
      refine ⟨_, 0, rfl, rfl, .inl ⟨by omega, rfl, ⟨by simp; omega, by simp, ?_, by simp, ?_⟩⟩⟩
      · intro f' hf'
        cases hf'
        refine ⟨hfe, ?_⟩
        simp
      · intro f' hf' i y hi
        cases hf'
        rcases Nat.lt_trichotomy i l.length with hi' | rfl | hi'
        · rw [List.getElem?_append_left hi'] at hi
          simp only [Function.update_of_ne (mod_add_ne (f := f) (n := q.cqueueEnd + 1) hi' (by omega))]
          exact h.elements f hf i y hi
        · simpa using hi
        · rw [List.getElem?_eq_none (by simp; omega)] at hi
          cases hi

/-- **A shift takes the oldest element**, and gives `NULL` exactly when there is none. -/
theorem shiftCqueue_spec {q : CQueue α} {l : List α} (h : q.Holds l) :
    ∃ q', shiftCqueue q = some (q', l.head?) ∧ q'.cqueueEnd = q.cqueueEnd ∧ q'.Holds l.tail := by
  unfold shiftCqueue
  cases hf : q.firstElement with
  | none =>
    have hl : l = [] := h.first.1 hf
    subst hl
    exact ⟨q, rfl, rfl, h⟩
  | some f =>
    obtain ⟨hfe, hlast⟩ := h.last f hf
    cases l with
    | nil => rw [h.first.2 rfl] at hf; cases hf
    | cons x l =>
      have hx : q.cqueue f = some x := by
        have := h.elements f hf 0 x rfl
        rwa [Nat.add_zero, Nat.mod_eq_of_lt (by omega)] at this
      have hlen := h.len
      rw [List.length_cons] at hlen
      simp only [hx, Option.bind_eq_bind, Option.bind_some, hlast, List.length_cons, Nat.add_sub_cancel,
        List.head?_cons, List.tail_cons]
      cases l with
      | nil =>
        rw [if_pos (by rw [List.length_nil, Nat.add_zero, Nat.mod_eq_of_lt (by omega)])]
        exact ⟨_, rfl, rfl, ⟨by simp, by simp, by simp, by simp, by simp⟩⟩
      | cons y l =>
        have hne : (f + (y :: l).length) % (q.cqueueEnd + 1) ≠ f := by
          have := mod_add_ne (f := f) (i := 0) (j := (y :: l).length) (n := q.cqueueEnd + 1) (by simp) (by omega)
          rw [Nat.add_zero, Nat.mod_eq_of_lt (show f < q.cqueueEnd + 1 by omega)] at this
          exact this.symm
        rw [if_neg (fun e => hne (Option.some.inj e))]
        have hnext : (if f ≠ q.cqueueEnd then f + 1 else 0) = (f + 1) % (q.cqueueEnd + 1) := by
          rw [mod_succ_eq (by omega)]
          simp only [ne_eq, Nat.add_right_cancel_iff]
        rw [hnext]
        refine ⟨_, rfl, rfl, ⟨by simp at hlen ⊢; omega, by simp, ?_, by simp, ?_⟩⟩
        · intro f' hf'
          cases hf'
          refine ⟨Nat.lt_succ_iff.1 (Nat.mod_lt _ (by omega)), ?_⟩
          simp only [Nat.mod_add_mod, List.length_cons]
          congr 2
          omega
        · intro f' hf' i z hi
          cases hf'
          have := h.elements f hf (i + 1) z (by simpa using hi)
          rw [Nat.mod_add_mod, show f + 1 + i = f + (i + 1) by omega]
          exact this

/-- A ring holds one list. -/
theorem CQueue.Holds.unique {q : CQueue α} {l l' : List α} (h : q.Holds l) (h' : q.Holds l') : l = l' := by
  cases hf : q.firstElement with
  | none => rw [h.first.1 hf, h'.first.1 hf]
  | some f =>
    have hpos {l : List α} (h : q.Holds l) : 0 < l.length :=
      List.length_pos_of_ne_nil (fun e => by rw [h.first.2 e] at hf; cases hf)
    have := hpos h
    have := hpos h'
    have := h.len
    have := h'.len
    have hlast : (f + (l.length - 1)) % (q.cqueueEnd + 1) = (f + (l'.length - 1)) % (q.cqueueEnd + 1) :=
      Option.some.inj ((h.last f hf).2.symm.trans (h'.last f hf).2)
    have hlen : l.length = l'.length := by
      rcases Nat.lt_trichotomy (l.length - 1) (l'.length - 1) with hlt | heq | hlt
      · exact absurd hlast (mod_add_ne hlt (by omega))
      · omega
      · exact absurd hlast.symm (mod_add_ne hlt (by omega))
    refine List.ext_getElem? (fun i => ?_)
    rcases Nat.lt_or_ge i l.length with hi | hi
    · have h1 := h.elements f hf i _ (List.getElem?_eq_getElem hi)
      have h2 := h'.elements f hf i _ (List.getElem?_eq_getElem (hlen ▸ hi))
      rw [List.getElem?_eq_getElem hi, List.getElem?_eq_getElem (hlen ▸ hi), ← h1, ← h2]
    · rw [List.getElem?_eq_none hi, List.getElem?_eq_none (by omega)]

end Pincaster
