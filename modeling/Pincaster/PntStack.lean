import Mathlib.Data.List.Basic
/-!
# PntStack — the growable stack of `stack.c`

The elements that were pushed and the sizes in bytes that decide when the storage is reallocated.  `stack` is the number
of the storage: a realloc moves the elements to a new one, and a pointer into an old storage does not reach them.
Memory allocations succeed, and no size comes near `SIZE_MAX`.  A failed assertion has no result.
-/
namespace Pincaster

variable {α σ : Type}

def STACK_CHUNK_SIZE : Nat := 4096
def STACK_SHRINK_AFTER_LOW_DEPTH_COUNT : Nat := 100

structure PntStack (α : Type) where
  stack : Nat
  stackSize : Nat
  elementSize : Nat
  lowDepth : Nat
  lowDepthUnreachedCount : Nat
  elements : List α

/-- The bytes in use. -/
def PntStack.depth (s : PntStack α) : Nat := s.elements.length * s.elementSize

/-- The size of the storage is rounded up to a multiple of the chunk. -/
def initPntStack (initialNbElements elementSize : Nat) : PntStack α :=
  let stackSize := (initialNbElements * elementSize + (STACK_CHUNK_SIZE - 1)) / STACK_CHUNK_SIZE * STACK_CHUNK_SIZE
  ⟨0, stackSize, elementSize, stackSize / 2, 0, []⟩

/-- `new_pnt_stack`; `none` is its `NULL`. -/
def newPntStack (initialNbElements elementSize : Nat) : Option (PntStack α) :=
  if elementSize = 0 then none
  else if initialNbElements ≤ 0 then
    if STACK_CHUNK_SIZE / elementSize ≤ 0 then none
    else some (initPntStack (STACK_CHUNK_SIZE / elementSize) elementSize)
  else some (initPntStack initialNbElements elementSize)

/-- What follows the copy of an element to a storage that had room: the storage is halved when the depth has been low
for long. -/
def shrinkPntStack (s : PntStack α) : PntStack α :=
  if s.stackSize ≤ STACK_CHUNK_SIZE ∨ s.stackSize ≤ s.elementSize then s
  else if s.depth > s.lowDepth then { s with lowDepthUnreachedCount := 0 }
  else if s.lowDepthUnreachedCount + 1 < STACK_SHRINK_AFTER_LOW_DEPTH_COUNT then
    { s with lowDepthUnreachedCount := s.lowDepthUnreachedCount + 1 }
  else { s with stack := s.stack + 1, stackSize := s.lowDepth, lowDepth := s.lowDepth / 2, lowDepthUnreachedCount := 0 }

def pushPntStack (s : PntStack α) (pnt : α) : Option (PntStack α × Int) :=
  if s.depth < s.stackSize then
    let s := { s with elements := s.elements ++ [pnt] }
    if s.depth ≤ s.stackSize then some (shrinkPntStack s, 0) else none
  else
    some ({ s with
      stack := s.stack + 1, stackSize := s.stackSize * 2, lowDepth := s.stackSize, lowDepthUnreachedCount := 0
      elements := s.elements ++ [pnt] }, 0)

/-- The inner `none` is `NULL`. -/
def popPntStack (s : PntStack α) : PntStack α × Option α := ({ s with elements := s.elements.dropLast }, s.elements.getLast?)

/-! ## Pointers to elements -/

/-- A pointer to an element: the storage and the number of the element. -/
structure ElementPtr where
  stack : Nat
  index : Nat

/-- The element at a pointer into the storage of the stack. -/
def PntStack.load (s : PntStack α) (p : ElementPtr) : Option α := if p.stack = s.stack then s.elements[p.index]? else none

/-- A write through a pointer, which is lost in an old storage. -/
def PntStack.store (s : PntStack α) (p : ElementPtr) (f : α → α) : PntStack α :=
  if p.stack = s.stack then { s with elements := s.elements.modify p.index f } else s

/-- `pnt_stack_foreach` from an element on.  The callback may push onto the stack, which is part of its context. -/
def pntStackForeachFrom (stackOf : σ → PntStack α) (cb : σ → ElementPtr → Option (Int × σ)) : Nat → Nat → σ → Option σ
  | 0, _, _ => none
  | fuel + 1, index, context =>
    if index < (stackOf context).elements.length then do
      let (ret, context) ← cb context ⟨(stackOf context).stack, index⟩
      if ret ≠ 0 then some context else pntStackForeachFrom stackOf cb fuel (index + 1) context
    else some context

def pntStackForeach (stackOf : σ → PntStack α) (cb : σ → ElementPtr → Option (Int × σ)) (fuel : Nat) (context : σ) :
    Option σ :=
  pntStackForeachFrom stackOf cb fuel 0 context

end Pincaster
