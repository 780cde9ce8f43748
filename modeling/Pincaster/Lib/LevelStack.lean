import Mathlib.Data.List.Basic
/-!
# LevelStack — the stack of a depth-first walk

What waits on the stack of a walk that goes down a tree one level at a time.  When a node gives way to at most `width + 1`
nodes one level below it, an element of level `d` has at most `width * d` elements below it on the stack.
-/
namespace Lib

variable {α : Type} {level : α → Nat → Prop} {width : Nat} {stack : List α}

/-- The elements of a stack, the bottom first, with the room that their levels leave below them. -/
def Leveled (level : α → Nat → Prop) (width : Nat) (stack : List α) : Prop :=
  ∀ i x, stack[i]? = some x → ∃ d, level x d ∧ i ≤ width * d

theorem leveled_nil : Leveled level width ([] : List α) := fun i x h => by simp at h

theorem Leveled.push (h : Leveled level width stack) {x : α} {d : Nat} (hx : level x d)
    (hlen : stack.length ≤ width * d) : Leveled level width (stack ++ [x]) := fun i y hy => by
  rcases Nat.lt_or_ge i stack.length with hi | hi
  · rw [List.getElem?_append_left hi] at hy
    exact h i y hy
  · rw [List.getElem?_append_right hi, List.getElem?_singleton] at hy
    split at hy
    · cases hy
      exact ⟨d, hx, by omega⟩
    · cases hy

theorem Leveled.pop (h : Leveled level width stack) : Leveled level width stack.dropLast := fun i x hx => by
  rw [List.getElem?_dropLast] at hx
  split at hx
  · exact h i x hx
  · cases hx

/-- What is below the top. -/
theorem Leveled.top (h : Leveled level width stack) {x : α} (hx : stack.getLast? = some x) :
    ∃ d, level x d ∧ stack.dropLast.length ≤ width * d := by
  rw [List.getLast?_eq_getElem?] at hx
  rw [List.length_dropLast]
  exact h _ x hx

/-- **A stack is no longer than the levels of its elements allow.** -/
theorem Leveled.length_le (h : Leveled level width stack) {depth : Nat} (hmax : ∀ x d, level x d → d ≤ depth) :
    stack.length ≤ width * depth + 1 := by
  cases hlast : stack.getLast? with
  | none =>
    rw [List.getLast?_eq_none_iff.1 hlast]
    exact Nat.zero_le _
  | some x =>
    obtain ⟨d, hd, hle⟩ := h.top hlast
    have hmul := Nat.mul_le_mul_left width (hmax x d hd)
    rw [List.length_dropLast] at hle
    omega

end Lib
