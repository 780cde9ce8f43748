import Mathlib.Algebra.Order.BigOperators.Group.List
import Mathlib.Algebra.Order.Ring.Nat
import Mathlib.Data.List.Perm.Subperm
/-!
# Lib.Covering — functions that cover a list with smaller things

A function that takes no element of a list to a larger one, and of which every element is a value, moves none of them.
-/
namespace Lib

variable {α : Type} {l : List α}

/-- What is nowhere larger and not smaller in the sum is the same everywhere. -/
theorem eq_of_sum_le (size size' : α → Nat) : ∀ {l : List α}, (∀ a ∈ l, size a ≤ size' a) →
    (l.map size').sum ≤ (l.map size).sum → ∀ a ∈ l, size a = size' a
  | [], _, _, a, ha => absurd ha List.not_mem_nil
  | b :: l, hle, hsum, a, ha => by
    have hlel := fun c hc => hle c (List.mem_cons_of_mem b hc)
    have hrest : (l.map size).sum ≤ (l.map size').sum := List.sum_le_sum hlel
    have hb := hle b List.mem_cons_self
    rw [List.map_cons, List.map_cons, List.sum_cons, List.sum_cons] at hsum
    rcases List.mem_cons.1 ha with rfl | ha
    · omega
    · exact eq_of_sum_le size size' hlel (by omega) a ha

/-- **A function that makes nothing larger and reaches all of a list leaves it as it is.** -/
theorem eq_of_covers {f : α → Option α} (size : α → Nat) (hnodup : l.Nodup)
    (hsize : ∀ a ∈ l, ∀ b ∈ f a, size b ≤ size a ∧ (size b = size a → b = a)) (hcovers : ∀ a ∈ l, a ∈ l.filterMap f) :
    ∀ a ∈ l, f a = some a := by
  have hperm : l.Perm (l.filterMap f) := (hnodup.subperm hcovers).perm_of_length_le (List.length_filterMap_le f l)
  have hsome : ∀ a ∈ l, (f a).isSome = true := List.filterMap_length_eq_length.1 hperm.length_eq.symm
  have hmap : l.filterMap f = l.map (fun a => (f a).getD a) := by
    rw [← List.filterMap_eq_map]
    refine List.filterMap_congr (fun a ha => ?_)
    obtain ⟨b, hb⟩ := Option.isSome_iff_exists.1 (hsome a ha)
    rw [Function.comp_apply, hb, Option.getD_some]
  have hsum := (hperm.map size).sum_eq
  rw [hmap, List.map_map] at hsum
  intro a ha
  obtain ⟨b, hb⟩ := Option.isSome_iff_exists.1 (hsome a ha)
  have hsame := eq_of_sum_le (size ∘ fun a => (f a).getD a) size (fun c hc => by
    obtain ⟨d, hd⟩ := Option.isSome_iff_exists.1 (hsome c hc)
    rw [Function.comp_apply, hd, Option.getD_some]
    exact (hsize c hc d hd).1) hsum.le a ha
  rw [Function.comp_apply, hb, Option.getD_some] at hsame
  rw [hb, (hsize a ha b hb).2 hsame]

end Lib
