import Mathlib.Data.List.Basic
import Mathlib.Data.List.TakeWhile
/-!
# RbTree — the trees of `tree.h` by their contract

A tree is the list of its nodes in the order of a comparison function on their keys.  The operations are those of the
macros; what they are for is told by the lemmas, and needs the comparison to be a total order.
-/
namespace Lib

variable {α ν : Type}

/-- **A comparison function that orders its type.** -/
structure TotalCmp (cmp : α → α → Int) : Prop where
  eq_zero : ∀ a b, cmp a b = 0 ↔ a = b
  neg_iff : ∀ a b, cmp a b < 0 ↔ 0 < cmp b a
  trans : ∀ a b c, cmp a b < 0 → cmp b c < 0 → cmp a c < 0

namespace TotalCmp

variable {cmp : α → α → Int}

theorem self (h : TotalCmp cmp) (a : α) : cmp a a = 0 := (h.eq_zero a a).2 rfl

theorem asymm (h : TotalCmp cmp) {a b : α} (hab : cmp a b < 0) : ¬ cmp b a < 0 := by
  have := (h.neg_iff a b).1 hab
  omega

theorem lt_of_not_neg (h : TotalCmp cmp) {a b : α} (hab : ¬ cmp a b < 0) (hne : a ≠ b) : cmp b a < 0 := by
  have hzero : cmp a b ≠ 0 := fun h0 => hne ((h.eq_zero a b).1 h0)
  exact (h.neg_iff b a).2 (by omega)

end TotalCmp

/-- A tree, whose nodes are in order. -/
structure RbTree (key : ν → α) (cmp : α → α → Int) where
  nodes : List ν
  ordered : nodes.Pairwise (fun m n => cmp (key m) (key n) < 0)

namespace RbTree

variable {key : ν → α} {cmp : α → α → Int}

def empty : RbTree key cmp := ⟨[], .nil⟩

/-- `RB_MIN`. -/
def min (t : RbTree key cmp) : Option ν := t.nodes.head?

/-- `RB_FIND`: the node that compares equal. -/
def find (t : RbTree key cmp) (a : α) : Option ν := t.nodes.find? (fun n => cmp a (key n) = 0)

/-- `RB_NFIND`: the first node that does not compare less. -/
def nfind (t : RbTree key cmp) (a : α) : Option ν := t.nodes.find? (fun n => cmp a (key n) ≤ 0)

/-- `RB_NEXT`: the first node that compares greater. -/
def next (t : RbTree key cmp) (n : ν) : Option ν := t.nodes.find? (fun m => cmp (key n) (key m) < 0)

/-- Where a node goes in the order. -/
def place (key : ν → α) (cmp : α → α → Int) (n : ν) : List ν → List ν
  | [] => [n]
  | m :: ms => if cmp (key n) (key m) < 0 then n :: m :: ms else m :: place key cmp n ms

theorem place_perm (n : ν) : ∀ ms : List ν, (place key cmp n ms).Perm (n :: ms)
  | [] => .refl _
  | m :: ms => by
    rw [place]
    split
    · exact .refl _
    · exact ((place_perm n ms).cons m).trans (.swap n m ms)

theorem pairwise_place (hcmp : TotalCmp cmp) {n : ν} : ∀ {ms : List ν}, (∀ m ∈ ms, key m ≠ key n) →
    ms.Pairwise (fun m n => cmp (key m) (key n) < 0) →
    (place key cmp n ms).Pairwise (fun m n => cmp (key m) (key n) < 0)
  | [], _, _ => List.pairwise_singleton _ _
  | m :: ms, hne, hord => by
    obtain ⟨hm, hord⟩ := List.pairwise_cons.1 hord
    rw [place]
    split
    · rename_i hlt
      exact .cons (List.forall_mem_cons.2 ⟨hlt, fun x hx => hcmp.trans _ _ _ hlt (hm x hx)⟩) (.cons hm hord)
    · rename_i hnot
      refine .cons (fun x hx => ?_) (pairwise_place hcmp (fun x hx => hne x (List.mem_cons_of_mem _ hx)) hord)
      rcases List.mem_cons.1 ((place_perm n ms).mem_iff.1 hx) with rfl | hx
      · exact hcmp.lt_of_not_neg hnot (hne m List.mem_cons_self).symm
      · exact hm x hx

/-- `RB_INSERT` of a node whose key is not there. -/
def insert (hcmp : TotalCmp cmp) (t : RbTree key cmp) (n : ν) (h : ∀ m ∈ t.nodes, key m ≠ key n) : RbTree key cmp :=
  ⟨place key cmp n t.nodes, pairwise_place hcmp h t.ordered⟩

/-- `RB_REMOVE` of the nodes with a property. -/
def remove (t : RbTree key cmp) (p : ν → Bool) : RbTree key cmp :=
  ⟨t.nodes.filter (fun n => !p n), t.ordered.filter _⟩

theorem mem_insert (hcmp : TotalCmp cmp) {t : RbTree key cmp} {n : ν} {h : ∀ m ∈ t.nodes, key m ≠ key n} {m : ν} :
    m ∈ (t.insert hcmp n h).nodes ↔ m = n ∨ m ∈ t.nodes := (place_perm n t.nodes).mem_iff.trans List.mem_cons

theorem mem_remove {t : RbTree key cmp} {p : ν → Bool} {m : ν} : m ∈ (t.remove p).nodes ↔ m ∈ t.nodes ∧ p m = false := by
  rw [remove, List.mem_filter, Bool.not_eq_true']

/-! ## Scans -/

/-- **The next node** is the one behind it in the order. -/
theorem next_of_split (hcmp : TotalCmp cmp) {t : RbTree key cmp} {pre post : List ν} {n : ν}
    (h : t.nodes = pre ++ n :: post) : t.next n = post.head? := by
  have hord := t.ordered
  rw [h, List.pairwise_append, List.pairwise_cons] at hord
  obtain ⟨-, ⟨hpost, -⟩, hpre⟩ := hord
  have hnone : pre.find? (fun m => cmp (key n) (key m) < 0) = none :=
    List.find?_eq_none.2 (fun m hm hlt =>
      hcmp.asymm (hpre m hm n List.mem_cons_self) (of_decide_eq_true hlt))
  rw [next, h, List.find?_append, hnone, Option.none_or, List.find?_cons_of_neg (by simp [hcmp.self])]
  cases post with
  | nil => rfl
  | cons m post => rw [List.find?_cons_of_pos (by simpa using hpost m List.mem_cons_self), List.head?_cons]

/-- **What `RB_NFIND` finds** is the head of the nodes that do not compare less. -/
theorem nfind_split (hcmp : TotalCmp cmp) (t : RbTree key cmp) (a : α) : ∃ pre post, t.nodes = pre ++ post ∧
    t.nfind a = post.head? ∧ (∀ n ∈ pre, cmp (key n) a < 0) ∧ ∀ n ∈ post, cmp a (key n) ≤ 0 := by
  refine ⟨t.nodes.takeWhile (fun n => cmp (key n) a < 0), t.nodes.dropWhile (fun n => cmp (key n) a < 0),
    List.takeWhile_append_dropWhile.symm, ?_, fun n hn => by simpa using List.mem_takeWhile_imp hn, ?_⟩
  · rw [nfind]
    induction t.nodes with
    | nil => rfl
    | cons n ns ih =>
      by_cases hn : cmp (key n) a < 0
      · have := (hcmp.neg_iff (key n) a).1 hn
        rw [List.find?_cons_of_neg (by simpa using this), List.dropWhile_cons_of_pos (by simpa using hn), ih]
      · have hle : cmp a (key n) ≤ 0 := by
          have := (hcmp.neg_iff (key n) a).2
          omega
        rw [List.find?_cons_of_pos (by simpa using hle), List.dropWhile_cons_of_neg (by simpa using hn), List.head?_cons]
  · have hord := t.ordered
    generalize t.nodes = ns at hord
    induction ns with
    | nil => exact fun _ hn => nomatch hn
    | cons m ns ih =>
      rw [List.pairwise_cons] at hord
      by_cases hm : cmp (key m) a < 0
      · rw [List.dropWhile_cons_of_pos (by simpa using hm)]
        exact ih hord.2
      · rw [List.dropWhile_cons_of_neg (by simpa using hm)]
        have hma : ¬ 0 < cmp a (key m) := fun hlt => hm ((hcmp.neg_iff (key m) a).2 hlt)
        rintro n (_ | ⟨_, hn⟩)
        · omega
        · by_cases ham : a = key m
          · subst ham
            exact Int.le_of_lt (hord.1 n hn)
          · exact Int.le_of_lt (hcmp.trans _ _ _ (hcmp.lt_of_not_neg hm (Ne.symm ham)) (hord.1 n hn))

/-- **`RB_FIND`** finds the node with the key, if there is one. -/
theorem find_eq_some (hcmp : TotalCmp cmp) {t : RbTree key cmp} {a : α} {n : ν} :
    t.find a = some n ↔ n ∈ t.nodes ∧ key n = a := by
  constructor
  · intro h
    exact ⟨List.mem_of_find?_eq_some h, ((hcmp.eq_zero _ _).1 (by simpa using List.find?_some h)).symm⟩
  · rintro ⟨hn, rfl⟩
    obtain ⟨pre, post, h⟩ := List.append_of_mem hn
    have hord := t.ordered
    rw [h, List.pairwise_append] at hord
    have hnone : pre.find? (fun m => cmp (key n) (key m) = 0) = none := by
      refine List.find?_eq_none.2 (fun m hm heq => ?_)
      have hlt := (hcmp.neg_iff _ _).1 (hord.2.2 m hm n List.mem_cons_self)
      have := of_decide_eq_true heq
      omega
    rw [find, h, List.find?_append, hnone, Option.none_or, List.find?_cons_of_pos (by simpa using hcmp.self _)]

theorem find_eq_none (hcmp : TotalCmp cmp) {t : RbTree key cmp} {a : α} :
    t.find a = none ↔ ∀ n ∈ t.nodes, key n ≠ a := by
  rw [Option.eq_none_iff_forall_not_mem]
  exact ⟨fun h n hn ha => h n ((find_eq_some hcmp).2 ⟨hn, ha⟩), fun h n hn => by
    obtain ⟨hmem, ha⟩ := (find_eq_some hcmp).1 hn
    exact h n hmem ha⟩

end RbTree

/-- Where a property once lost is lost for good, the elements that have it come first. -/
theorem filter_eq_takeWhile {p : α → Bool} : ∀ {l : List α}, l.Pairwise (fun a b => p b = true → p a = true) →
    l.filter p = l.takeWhile p
  | [], _ => rfl
  | a :: l, h => by
    rw [List.pairwise_cons] at h
    by_cases ha : p a = true
    · rw [List.filter_cons_of_pos ha, List.takeWhile_cons_of_pos ha, filter_eq_takeWhile h.2]
    · rw [List.takeWhile_cons_of_neg ha, List.filter_eq_nil_iff]
      rintro b (_ | ⟨_, hb⟩)
      · exact ha
      · exact fun hpb => ha (h.1 b hb hpb)

end Lib
