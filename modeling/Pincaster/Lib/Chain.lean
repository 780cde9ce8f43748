import Mathlib.Data.List.Basic
import Mathlib.Data.List.Nodup
/-!
# Chain — doubly linked lists of addresses

`Chain nx pv p hd l`: from the head pointer `hd`, the `next` field `nx` walks exactly the addresses of `l`, and each
`previous` field `pv` names the address before it, the first one's being `p`.  A list with no outer neighbour is a
chain with `p = none`.
-/
namespace Lib

def Chain (nx pv : Nat → Option Nat) : Option Nat → Option Nat → List Nat → Prop
  | _, hd, [] => hd = none
  | p, hd, a :: l => hd = some a ∧ pv a = p ∧ Chain nx pv (some a) (nx a) l

namespace Chain

variable {nx pv nx' pv' : Nat → Option Nat}

@[simp] theorem nil_iff {p hd : Option Nat} : Chain nx pv p hd [] ↔ hd = none := Iff.rfl

@[simp] theorem cons_iff {p hd : Option Nat} {a : Nat} {l : List Nat} :
    Chain nx pv p hd (a :: l) ↔ hd = some a ∧ pv a = p ∧ Chain nx pv (some a) (nx a) l := Iff.rfl

theorem head_eq {p hd : Option Nat} : ∀ {l : List Nat}, Chain nx pv p hd l → hd = l.head?
  | [], h => h
  | _ :: _, h => h.1

/-- A chain only reads the fields of its own addresses. -/
theorem congr : ∀ {l : List Nat} {p hd : Option Nat}, Chain nx pv p hd l →
    (∀ a ∈ l, nx' a = nx a ∧ pv' a = pv a) → Chain nx' pv' p hd l
  | [], _, _, h, _ => h
  | a :: l, p, hd, ⟨h1, h2, h3⟩, he => by
    obtain ⟨hn, hp⟩ := he a List.mem_cons_self
    refine ⟨h1, hp.trans h2, ?_⟩
    rw [hn]
    exact h3.congr (fun b hb => he b (List.mem_cons_of_mem a hb))

/-- The walk along `next` has one list of addresses. -/
theorem unique : ∀ {l l' : List Nat} {p p' hd : Option Nat}, Chain nx pv p hd l → Chain nx pv p' hd l' → l = l'
  | [], [], _, _, _, _, _ => rfl
  | [], b :: l', _, _, _, h, h' => by
    rw [nil_iff.1 h] at h'
    cases h'.1
  | a :: l, [], _, _, _, h, h' => by
    rw [nil_iff.1 h'] at h
    cases h.1
  | a :: l, b :: l', _, _, _, ⟨h1, _, h3⟩, ⟨h1', _, h3'⟩ => by
    have hab : a = b := Option.some.inj (h1.symm.trans h1')
    subst hab
    rw [h3.unique h3']

/-- The address before `a` is the one its `previous` field names. -/
theorem previous_eq : ∀ {l₁ l₂ : List Nat} {a : Nat} {p hd : Option Nat}, Chain nx pv p hd (l₁ ++ a :: l₂) →
    pv a = l₁.getLast?.or p
  | [], _, _, p, _, h => by
    rw [List.nil_append] at h
    simpa using h.2.1
  | b :: l₁, l₂, a, p, hd, h => by
    rw [List.cons_append] at h
    rw [h.2.2.previous_eq, List.getLast?_cons]
    cases l₁.getLast? <;> rfl

theorem next_eq : ∀ {l₁ l₂ : List Nat} {a : Nat} {p hd : Option Nat}, Chain nx pv p hd (l₁ ++ a :: l₂) →
    nx a = l₂.head?
  | [], _, _, _, _, h => h.2.2.head_eq
  | _ :: l₁, _, _, _, _, h => next_eq (show Chain nx pv _ _ (l₁ ++ _ :: _) from h.2.2)

/-- **Pushing a new address in front**: its fields are set, and the old head points back to it. -/
theorem push {hd : Option Nat} {a : Nat} {l : List Nat} (h : Chain nx pv none hd l) (hl : l.Nodup) (ha : a ∉ l)
    (hna : nx' a = hd) (hpa : pv' a = none) (hn : ∀ b ∈ l, nx' b = nx b)
    (hp : ∀ b ∈ l, pv' b = if hd = some b then some a else pv b) : Chain nx' pv' none (some a) (a :: l) := by
  refine ⟨rfl, hpa, ?_⟩
  rw [hna]
  cases l with
  | nil => exact h
  | cons b l =>
    obtain ⟨h1, _, h3⟩ := h
    refine ⟨h1, by rw [hp b List.mem_cons_self, if_pos h1], ?_⟩
    rw [hn b List.mem_cons_self]
    refine h3.congr (fun c hc => ⟨hn c (List.mem_cons_of_mem b hc), ?_⟩)
    have hcb : b ≠ c := fun e => (List.nodup_cons.1 hl).1 (e ▸ hc)
    rw [hp c (List.mem_cons_of_mem b hc), if_neg]
    rw [h1]
    exact fun e => hcb (Option.some.inj e)

/-- **Unlinking an address**: its neighbours are joined over it; the head moves only when it was the head. -/
theorem unlink : ∀ {l₁ l₂ : List Nat} {a : Nat} {p hd : Option Nat}, Chain nx pv p hd (l₁ ++ a :: l₂) →
    (l₁ ++ a :: l₂).Nodup → (∀ b, p = some b → b ∉ l₁ ++ a :: l₂) →
    (∀ b ∈ l₁ ++ l₂, nx' b = if pv a = some b then nx a else nx b) →
    (∀ b ∈ l₁ ++ l₂, pv' b = if nx a = some b then pv a else pv b) →
    Chain nx' pv' p (if l₁ = [] then nx a else hd) (l₁ ++ l₂)
  | [], l₂, a, p, hd, h, hl, hout, hn, hp => by
    obtain ⟨_, hpa, h3⟩ := h
    simp only [List.nil_append, if_true] at hl hout hn hp ⊢
    cases l₂ with
    | nil => exact h3
    | cons c l₂ =>
      obtain ⟨h4, _, h6⟩ := h3
      refine ⟨h4, by rw [hp c List.mem_cons_self, if_pos h4, hpa], ?_⟩
      have hnc : ∀ d ∈ c :: l₂, nx' d = nx d := fun d hd' => by
        rw [hn d hd', if_neg]
        rw [hpa]
        exact fun e => hout d e (List.mem_cons_of_mem a hd')
      rw [hnc c List.mem_cons_self]
      refine h6.congr (fun d hd' => ⟨hnc d (List.mem_cons_of_mem c hd'), ?_⟩)
      have hcd : c ≠ d := fun e => (List.nodup_cons.1 (List.nodup_cons.1 hl).2).1 (e ▸ hd')
      rw [hp d (List.mem_cons_of_mem c hd'), if_neg]
      rw [h4]
      exact fun e => hcd (Option.some.inj e)
  | b :: l₁, l₂, a, p, hd, h, hl, hout, hn, hp => by
    obtain ⟨h1, hpb, h3⟩ := h
    rw [List.cons_append] at hl
    obtain ⟨hbl, hl'⟩ := List.nodup_cons.1 hl
    have ih := unlink h3 hl' (fun c hc => by cases hc; exact hbl)
      (fun c hc => hn c (List.mem_cons_of_mem b hc)) (fun c hc => hp c (List.mem_cons_of_mem b hc))
    simp only [List.cons_append, reduceCtorEq, if_false, cons_iff]
    refine ⟨h1, ?_, ?_⟩
    · rw [hp b List.mem_cons_self, if_neg, hpb]
      rw [next_eq h3]
      intro e
      exact hbl (List.mem_append_right l₁ (List.mem_cons_of_mem a (List.mem_of_mem_head? e)))
    · rw [hn b List.mem_cons_self, previous_eq h3]
      by_cases hl₁ : l₁ = []
      · subst hl₁
        simpa using ih
      · have hne : (l₁.getLast?.or (some b)) ≠ some b := by
          obtain ⟨c, hc⟩ := Option.ne_none_iff_exists'.1 (fun e => hl₁ (List.getLast?_eq_none_iff.1 e))
          rw [hc]
          intro e
          have hcb : c = b := by simpa using e
          subst hcb
          exact hbl (List.mem_append_left _ (List.mem_of_getLast? hc))
        rw [if_neg hne]
        rwa [if_neg hl₁] at ih

end Chain
end Lib
