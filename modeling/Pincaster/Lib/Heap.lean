import Mathlib.Data.Option.Basic
import Mathlib.Order.Basic
/-!
# Heap — cells allocated at fresh addresses

A store of cells of one type.  The allocator hands out addresses in increasing order and never the same one twice, so
a freed address stays dangling: a read of it is `none`, and a program that makes such a read has no result.
-/
namespace Lib

structure Heap (β : Type) where
  cells : Nat → Option β
  brk : Nat
  fresh : ∀ a, brk ≤ a → cells a = none

namespace Heap

variable {β : Type}

def empty : Heap β := ⟨fun _ => none, 0, fun _ _ => rfl⟩

/-- `malloc`: the new cell is at `h.brk`. -/
def alloc (h : Heap β) (v : β) : Heap β :=
  ⟨fun a => if a = h.brk then some v else h.cells a, h.brk + 1, fun a ha => by
    rw [if_neg (by omega)]; exact h.fresh a (by omega)⟩

/-- A write through a pointer: a cell that is not allocated stays so. -/
def modify (h : Heap β) (a : Nat) (f : β → β) : Heap β :=
  ⟨fun b => if b = a then (h.cells b).map f else h.cells b, h.brk, fun b hb => by
    rw [h.fresh b hb]; split <;> rfl⟩

/-- Writes through any number of pointers. -/
def mapCells (h : Heap β) (f : Nat → β → β) : Heap β :=
  ⟨fun a => (h.cells a).map (f a), h.brk, fun a ha => by rw [h.fresh a ha]; rfl⟩

def free (h : Heap β) (a : Nat) : Heap β :=
  ⟨fun b => if b = a then none else h.cells b, h.brk, fun b hb => by
    split
    · rfl
    · exact h.fresh b hb⟩

/-- A write through a pointer that must be valid. -/
def store (h : Heap β) (a : Nat) (f : β → β) : Option (Heap β) :=
  if (h.cells a).isSome then some (h.modify a f) else none

@[simp] theorem cells_empty (a : Nat) : (empty : Heap β).cells a = none := rfl

@[simp] theorem cells_alloc (h : Heap β) (v : β) (a : Nat) :
    (h.alloc v).cells a = if a = h.brk then some v else h.cells a := rfl

@[simp] theorem brk_alloc (h : Heap β) (v : β) : (h.alloc v).brk = h.brk + 1 := rfl

@[simp] theorem cells_modify (h : Heap β) (a b : Nat) (f : β → β) :
    (h.modify a f).cells b = if b = a then (h.cells b).map f else h.cells b := rfl

@[simp] theorem brk_modify (h : Heap β) (a : Nat) (f : β → β) : (h.modify a f).brk = h.brk := rfl

@[simp] theorem cells_mapCells (h : Heap β) (f : Nat → β → β) (a : Nat) :
    (h.mapCells f).cells a = (h.cells a).map (f a) := rfl

@[simp] theorem brk_mapCells (h : Heap β) (f : Nat → β → β) : (h.mapCells f).brk = h.brk := rfl

/-- Where nothing else is written the heap is the same. -/
theorem mapCells_eq_self {h : Heap β} {f : Nat → β → β} (hf : ∀ a v, h.cells a = some v → f a v = v) :
    h.mapCells f = h := by
  obtain ⟨cells, brk, fresh⟩ := h
  rw [mapCells, Heap.mk.injEq]
  refine ⟨funext (fun a => ?_), rfl⟩
  change (cells a).map (f a) = cells a
  cases ha : cells a with
  | none => rfl
  | some v => rw [Option.map_some, hf a v ha]

@[simp] theorem cells_free (h : Heap β) (a b : Nat) :
    (h.free a).cells b = if b = a then none else h.cells b := rfl

@[simp] theorem brk_free (h : Heap β) (a : Nat) : (h.free a).brk = h.brk := rfl

theorem lt_brk {h : Heap β} {a : Nat} {v : β} (ha : h.cells a = some v) : a < h.brk := by
  by_contra hb
  rw [h.fresh a (by omega)] at ha
  cases ha

theorem store_of_cells {h : Heap β} {a : Nat} {v : β} (ha : h.cells a = some v) (f : β → β) :
    h.store a f = some (h.modify a f) := by
  simp [store, ha]

end Heap
end Lib
