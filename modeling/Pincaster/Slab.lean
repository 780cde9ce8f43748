import Pincaster.Lib.Heap
import Mathlib.Logic.Function.Basic
/-!
# Slab — `slab.c`

A slab keeps its entries in chunks of one entry per bit of `BitmapType`.  A set bit of a chunk's bitmap is a free
slot.  Chunks with a free slot hang off `first_partial_chunk`, the full ones off `first_full_chunk`, each a doubly
linked list kept by hand.  A failed assertion or a dereference of `NULL` or of freed memory has no result.
-/
namespace Pincaster

open Lib (Heap)

/-- `unsigned long`. -/
abbrev BitmapType := BitVec 64

/-- What stands before an entry: the chunk the slot is in, `NULL` once the entry is removed. -/
structure SlabSlot (α : Type) where
  slabChunk : Option Nat
  data : α

/-- `slots i = none` is memory `malloc` returned and nothing has written. -/
structure SlabChunk (α : Type) where
  bitmap : BitmapType
  next : Option Nat
  previous : Option Nat
  slots : Nat → Option (SlabSlot α)

structure Slab (α : Type) where
  chunks : Heap (SlabChunk α)
  nbSlotsPerChunk : Nat
  firstPartialChunk : Option Nat
  firstFullChunk : Option Nat

/-- The address of an entry: a slot of a chunk. -/
structure EntryPtr where
  chunk : Nat
  bit : Nat
  deriving DecidableEq, Repr

variable {α σ : Type}

/-- `sizeof(BitmapType) * CHAR_BIT` slots in a chunk. -/
def initSlab : Slab α := ⟨Heap.empty, 8 * 8, none, none⟩

/-- One plus the index of the lowest set bit, 0 when there is none. -/
def ffsl (bitmap : BitmapType) : Nat :=
  match (List.range 64).find? (fun i => bitmap.getLsbD i) with
  | some i => i + 1
  | none => 0

def newSlabChunk : SlabChunk α := ⟨~~~0#64, none, none, fun _ => none⟩

def Slab.storeChunk (slab : Slab α) (chunk : Nat) (f : SlabChunk α → SlabChunk α) : Option (Slab α) := do
  let chunks ← slab.chunks.store chunk f
  some { slab with chunks }

/-- A write through a pointer the source first compares with `NULL`. -/
def Slab.storePtr (slab : Slab α) (chunk : Option Nat) (f : SlabChunk α → SlabChunk α) : Option (Slab α) :=
  match chunk with
  | some chunk => slab.storeChunk chunk f
  | none => some slab

/-- The two `if`s that join the neighbours of a chunk, written three times in the source. -/
def unlinkNeighbours (slab : Slab α) (chunk : Nat) : Option (Slab α) := do
  let c ← slab.chunks.cells chunk
  let slab ← slab.storePtr c.previous (fun x => { x with next := c.next })
  let c ← slab.chunks.cells chunk
  slab.storePtr c.next (fun x => { x with previous := c.previous })

/-- The chunk becomes the first of a list whose head was `head`. -/
def linkFront (slab : Slab α) (chunk : Nat) (head : Option Nat) : Option (Slab α) := do
  let slab ← slab.storeChunk chunk (fun x => { x with next := head, previous := none })
  slab.storePtr head (fun x => { x with previous := some chunk })

/-- A chunk that got full leaves the partial list. -/
def takeFromPartial (slab : Slab α) (chunk : Nat) : Option (Slab α) := do
  let slab ← unlinkNeighbours slab chunk
  let c ← slab.chunks.cells chunk
  if slab.firstPartialChunk = some chunk then
    -- the head becomes `NULL` here, whatever follows the chunk
    if c.previous = none then some { slab with firstPartialChunk := none } else none
  else some slab

/-- `add_entry_to_slab` from `chunk->bitmap == 0` on: the chunk moves to the full list. -/
def moveToFull (slab : Slab α) (chunk : Nat) : Option (Slab α) := do
  let slab ← takeFromPartial slab chunk
  let slab ← linkFront slab chunk slab.firstFullChunk
  some { slab with firstFullChunk := some chunk }

/-- `add_entry_to_slab` once it has a chunk. -/
def addEntryToChunk (slab : Slab α) (chunk : Nat) (entry : α) : Option (Slab α × Option EntryPtr) := do
  let c ← slab.chunks.cells chunk
  if ffsl c.bitmap = 0 then none
  let bit := ffsl c.bitmap - 1
  let bitmap := c.bitmap &&& ~~~(1#64 <<< bit)
  let slab ← slab.storeChunk chunk
    (fun x => { x with bitmap, slots := Function.update x.slots bit (some ⟨some chunk, entry⟩) })
  let slab ← if bitmap = 0 then moveToFull slab chunk else some slab
  some (slab, some ⟨chunk, bit⟩)

/-- `malloc` says whether the allocation of a chunk succeeds; without one the result is `NULL`. -/
def addEntryToSlab (malloc : Bool) (slab : Slab α) (entry : α) : Option (Slab α × Option EntryPtr) :=
  match slab.firstPartialChunk with
  | some chunk => addEntryToChunk slab chunk entry
  | none =>
    if malloc then
      addEntryToChunk
        { slab with chunks := slab.chunks.alloc newSlabChunk, firstPartialChunk := some slab.chunks.brk }
        slab.chunks.brk entry
    else some (slab, none)

/-- The search for `slot` among the slots of `chunk`, `bits` of them left from `bit` on. -/
def scanSlots (chunk : Nat) (slot : EntryPtr) : Nat → Nat → Option Nat
  | 0, _ => none
  | bits + 1, bit => if (⟨chunk, bit⟩ : EntryPtr) = slot then some bit else scanSlots chunk slot bits (bit + 1)

/-- A chunk that got a free slot leaves the full list. -/
def takeFromFull (slab : Slab α) (chunk : Nat) : Option (Slab α) := do
  let slab ← unlinkNeighbours slab chunk
  let c ← slab.chunks.cells chunk
  if slab.firstFullChunk = some chunk then
    if c.previous = none then some { slab with firstFullChunk := c.next } else none
  else some slab

/-- `remove_entry_from_slab` when the chunk was full: it moves to the front of the partial list. -/
def moveToPartial (slab : Slab α) (chunk : Nat) : Option (Slab α) := do
  let slab ← takeFromFull slab chunk
  let slab ← linkFront slab chunk slab.firstPartialChunk
  some { slab with firstPartialChunk := some chunk }

/-- `remove_entry_from_slab` when the chunk is now empty. -/
def freeChunk (slab : Slab α) (chunk : Nat) : Option (Slab α) := do
  let slab ← unlinkNeighbours slab chunk
  let c ← slab.chunks.cells chunk
  let firstPartialChunk := if slab.firstPartialChunk = some chunk then c.next else slab.firstPartialChunk
  some { slab with firstPartialChunk, chunks := slab.chunks.free chunk }

def removeEntryFromSlab (slab : Slab α) (entry : EntryPtr) : Option (Slab α × Int) := do
  let slot ← (← slab.chunks.cells entry.chunk).slots entry.bit
  let chunk ← slot.slabChunk
  match scanSlots chunk entry slab.nbSlotsPerChunk 0 with
  | none => some (slab, -1)
  | some bit =>
    let c ← slab.chunks.cells chunk
    let wasFull := c.bitmap = 0
    let bitmap := c.bitmap ||| (1#64 <<< bit)
    let slab ← slab.storeChunk chunk (fun x => { x with
      bitmap, slots := fun i => if i = bit then (x.slots i).map ({ · with slabChunk := none }) else x.slots i })
    let slab ← if wasFull then moveToPartial slab chunk else some slab
    let slab ← if bitmap = ~~~0#64 then (if wasFull then none else freeChunk slab chunk) else some slab
    some (slab, 0)

/-- The loop over the slots of a chunk: `bits` of them left from `i` on, `bitmap` shifted once for each one done. -/
def foreachSlot (cb : σ → EntryPtr → α → Int × σ) (chunk : Nat) (slots : Nat → Option (SlabSlot α)) :
    Nat → Nat → BitmapType → σ → Option (Int × σ)
  | 0, _, _, ctx => some (0, ctx)
  | bits + 1, i, bitmap, ctx =>
    if bitmap &&& 1#64 = 0#64 then do
      let slot ← slots i
      let (ret, ctx) := cb ctx ⟨chunk, i⟩ slot.data
      if ret = 0 then foreachSlot cb chunk slots bits (i + 1) (bitmap >>> 1) ctx else some (ret, ctx)
    else foreachSlot cb chunk slots bits (i + 1) (bitmap >>> 1) ctx

/-- The loop over a list of chunks.  No list is longer than the number of chunks ever allocated. -/
def foreachChunk (cb : σ → EntryPtr → α → Int × σ) (slab : Slab α) : Nat → Option Nat → σ → Option (Int × σ)
  | _, none, ctx => some (0, ctx)
  | 0, some _, _ => none
  | fuel + 1, some chunk, ctx => do
    let c ← slab.chunks.cells chunk
    let (ret, ctx) ← foreachSlot cb chunk c.slots slab.nbSlotsPerChunk 0 c.bitmap ctx
    if ret = 0 then foreachChunk cb slab fuel c.next ctx else some (ret, ctx)

def slabForeach (cb : σ → EntryPtr → α → Int × σ) (slab : Slab α) (ctx : σ) : Option (Int × σ) := do
  let (ret, ctx) ← foreachChunk cb slab slab.chunks.brk slab.firstPartialChunk ctx
  if ret = 0 then foreachChunk cb slab slab.chunks.brk slab.firstFullChunk ctx else some (ret, ctx)

end Pincaster
