import Pincaster.CQueueBytes
import Pincaster.PntStack
/-!
# PntStackBytes — `stack.c` with its bytes

The stack as the code has it: one storage of bytes, a depth in bytes, and sizes that grow and shrink.  It refines the
stack of `PntStack`, whose elements are values, as long as every copy stays within the storage, and `pnt_stack_iff` says
when it does.  A failed assertion and an access outside of the storage have no result.  `malloc` gives the bytes of a new
allocation; allocations succeed.
-/
namespace Pincaster

open Lib (Bytes readAt writeAt calls Replies GoodCalls)

structure PntStackBytes where
  stack : Bytes
  stackSize : Nat
  elementSize : Nat
  depth : Nat
  lowDepth : Nat
  lowDepthUnreachedCount : Nat

variable (malloc : Nat → Bytes)

/-- `realloc`: the bytes both sizes have are kept. -/
def reallocBytes (m : Bytes) (size : Nat) : Bytes := m.take size ++ (malloc size).drop m.length

/-- `init_pnt_stack`; `none` is its `-1`.  The sum that is rounded up to a multiple of the chunk wraps. -/
def initPntStackBytes (initialNbElements elementSize : Nat) : Option PntStackBytes :=
  if SIZE_MAX / initialNbElements < elementSize then none
  else
    let stackSize := (initialNbElements * elementSize + (STACK_CHUNK_SIZE - 1)) % (SIZE_MAX + 1) / STACK_CHUNK_SIZE *
      STACK_CHUNK_SIZE
    some ⟨malloc stackSize, stackSize, elementSize, 0, stackSize / 2, 0⟩

/-- `new_pnt_stack`; `none` is its `NULL`. -/
def newPntStackBytes (initialNbElements elementSize : Nat) : Option PntStackBytes :=
  if elementSize = 0 then none
  else if initialNbElements ≤ 0 then
    if STACK_CHUNK_SIZE / elementSize ≤ 0 then none
    else initPntStackBytes malloc (STACK_CHUNK_SIZE / elementSize) elementSize
  else initPntStackBytes malloc initialNbElements elementSize

/-- What follows the copy to a storage that had room. -/
def shrinkPntStackBytes (s : PntStackBytes) : PntStackBytes :=
  if s.stackSize ≤ STACK_CHUNK_SIZE ∨ s.stackSize ≤ s.elementSize then s
  else if s.depth > s.lowDepth then { s with lowDepthUnreachedCount := 0 }
  else if s.lowDepthUnreachedCount + 1 < STACK_SHRINK_AFTER_LOW_DEPTH_COUNT then
    { s with lowDepthUnreachedCount := s.lowDepthUnreachedCount + 1 }
  else
    { s with
      stack := reallocBytes malloc s.stack s.lowDepth, stackSize := s.lowDepth, lowDepth := s.lowDepth / 2
      lowDepthUnreachedCount := 0 }

def pushPntStackBytes (s : PntStackBytes) (pnt : Bytes) : Option (PntStackBytes × Int) := do
  let element ← readAt pnt 0 s.elementSize
  if s.depth < s.stackSize then do
    let stack ← writeAt s.stack s.depth element
    let s := { s with stack, depth := s.depth + s.elementSize }
    if s.depth ≤ s.stackSize then some (shrinkPntStackBytes malloc s, 0) else none
  else if s.stackSize > SIZE_MAX / 2 then some (s, -1)
  else
    let newStackSize := s.stackSize * 2
    if newStackSize ≤ s.stackSize then some (s, -1)
    else do
      let newStack := reallocBytes malloc s.stack newStackSize
      let stack ← writeAt newStack s.depth element
      some ({ s with
        stack, stackSize := newStackSize, lowDepth := s.stackSize, lowDepthUnreachedCount := 0
        depth := s.depth + s.elementSize }, 0)

/-- The element that was popped, or `none` for `NULL`. -/
def popPntStackBytes (s : PntStackBytes) : Option (PntStackBytes × Option Nat) :=
  if s.depth ≤ 0 then some (s, none)
  else if s.depth ≥ s.elementSize then
    let s := { s with depth := s.depth - s.elementSize }
    some (s, some s.depth)
  else none

/-! ## Calls -/

inductive PntStackCall where
  | push (pnt : Bytes)
  | pop

/-- What a push is given is an element. -/
def PntStackCall.Ok (elementSize : Nat) : PntStackCall → Prop
  | push pnt => pnt.length = elementSize
  | pop => True

/-- What a call replies: the result of a push, or the bytes behind the pointer of a pop. -/
inductive PntStackReply where
  | pushed (ret : Int)
  | popped (element : Option Bytes)

def callPntStack (s : PntStackBytes) : PntStackCall → Option (PntStackBytes × PntStackReply)
  | .push pnt => (pushPntStackBytes malloc s pnt).map (fun r => (r.1, .pushed r.2))
  | .pop => (popPntStackBytes s).bind (fun r => match r.2 with
    | none => some (r.1, .popped none)
    | some element => (readAt r.1.stack element r.1.elementSize).map (fun x => (r.1, .popped (some x))))

/-- **A last-in first-out list**, its last element first; a push may be refused. -/
inductive LifoSpec : List Bytes → PntStackCall → PntStackReply → List Bytes → Prop
  | push (l : List Bytes) (pnt : Bytes) : LifoSpec l (.push pnt) (.pushed 0) (pnt :: l)
  | refused (l : List Bytes) (pnt : Bytes) : LifoSpec l (.push pnt) (.pushed (-1)) l
  | pop (x : Bytes) (l : List Bytes) : LifoSpec (x :: l) .pop (.popped (some x)) l
  | empty : LifoSpec [] .pop (.popped none) []

/-- The size of the storage when a push copies its element, after it has grown; `none` when the push is refused. -/
def PntStackBytes.copySize (s : PntStackBytes) : Option Nat :=
  if s.depth < s.stackSize then some s.stackSize
  else if s.stackSize > SIZE_MAX / 2 ∨ s.stackSize * 2 ≤ s.stackSize then none
  else some (s.stackSize * 2)

/-- **The copy of a push stays within the storage.** -/
def PntStackBytes.CopyFits (s : PntStackBytes) : PntStackCall → Prop
  | .push _ => ∀ size ∈ s.copySize, s.depth + s.elementSize ≤ size
  | .pop => True

/-- **What the stack is for**: no copy leaves the storage, and every pop gives the element pushed last. -/
def PntStackLaw (s : PntStackBytes) (cs : List PntStackCall) : Prop :=
  GoodCalls (callPntStack malloc) PntStackBytes.CopyFits s cs ∧
    ∃ s' replies, calls (callPntStack malloc) s cs = some (s', replies) ∧ Replies LifoSpec [] cs replies

/-- A push does not come when the storage has all the elements that it has room for, and some bytes besides. -/
def PntStackBytes.Even (s : PntStackBytes) : PntStackCall → Prop
  | .push _ => s.elementSize ∣ s.stackSize ∨ s.depth / s.elementSize ≠ s.stackSize / s.elementSize
  | .pop => True

/-! ## The refinement -/

/-- The elements of a stack, of `e` bytes each, in a storage. -/
structure PntStackBytes.Refines (s : PntStackBytes) (e : Nat) (p : PntStack Bytes) : Prop where
  elementSize : s.elementSize = e
  elementSize' : p.elementSize = e
  stackSize : s.stackSize = p.stackSize
  depth : s.depth = p.elements.length * e
  lowDepth : s.lowDepth = p.lowDepth
  count : s.lowDepthUnreachedCount = p.lowDepthUnreachedCount
  length : s.stack.length = s.stackSize
  elements : ∀ i x, p.elements[i]? = some x → readAt s.stack (i * e) e = some x

/-- **The sizes**: the elements are within the storage, which is large enough for one of them when it is not empty. -/
structure PntStack.SizesOk {α : Type} (p : PntStack α) : Prop where
  pos : 0 < p.elementSize
  depth : p.depth ≤ p.stackSize
  lowDepth : p.lowDepth ≤ p.stackSize
  element : p.stackSize ≠ 0 → p.elementSize ≤ p.stackSize

variable {malloc}

theorem length_reallocBytes (hmalloc : ∀ size, (malloc size).length = size) (m : Bytes) (size : Nat) :
    (reallocBytes malloc m size).length = size := by
  rw [reallocBytes, List.length_append, List.length_take, List.length_drop, hmalloc]
  omega

/-- A realloc keeps what stands before both sizes. -/
theorem readAt_reallocBytes (hmalloc : ∀ size, (malloc size).length = size) {m : Bytes} {size o n : Nat}
    (hm : o + n ≤ m.length) (hsize : o + n ≤ size) : readAt (reallocBytes malloc m size) o n = readAt m o n := by
  refine Lib.readAt_of_prefix ?_ (Nat.le_refl (o + n)) hm (by rw [length_reallocBytes hmalloc]; exact hsize)
  rw [reallocBytes, List.take_append_of_le_length (by rw [List.length_take]; omega), List.take_take]
  congr 1
  omega

theorem PntStackBytes.Refines.depth_eq {s : PntStackBytes} {e : Nat} {p : PntStack Bytes} (h : s.Refines e p) :
    s.depth = p.depth := by
  rw [h.depth, PntStack.depth, h.elementSize']

/-- An element stands within the depth. -/
theorem elements_within {e i : Nat} {elements : List Bytes} {x : Bytes} (h : elements[i]? = some x) :
    i * e + e ≤ elements.length * e := by
  obtain ⟨hi, -⟩ := List.getElem?_eq_some_iff.1 h
  rw [← Nat.succ_mul]
  exact Nat.mul_le_mul_right e hi

/-- **A storage that shrinks** keeps the elements: it is no smaller than the depth. -/
theorem shrinkPntStackBytes_refines (hmalloc : ∀ size, (malloc size).length = size) {s : PntStackBytes} {e : Nat}
    {p : PntStack Bytes} (h : s.Refines e p) (hdepth : p.depth ≤ p.stackSize) :
    (shrinkPntStackBytes malloc s).Refines e (shrinkPntStack p) := by
  have hdepth' := h.depth_eq
  have hsize := h.stackSize
  have helement := h.elementSize.trans h.elementSize'.symm
  have hlowDepth := h.lowDepth
  have hcounted := h.count
  unfold shrinkPntStackBytes shrinkPntStack
  by_cases hsmall : p.stackSize ≤ STACK_CHUNK_SIZE ∨ p.stackSize ≤ p.elementSize
  · rw [if_pos hsmall, if_pos (by rwa [hsize, helement])]
    exact h
  · rw [if_neg hsmall, if_neg (by rwa [hsize, helement])]
    by_cases hlow : p.depth > p.lowDepth
    · rw [if_pos hlow, if_pos (by omega)]
      exact ⟨h.elementSize, h.elementSize', hsize, h.depth, hlowDepth, rfl, h.length, h.elements⟩
    · rw [if_neg hlow, if_neg (by omega)]
      by_cases hcount : p.lowDepthUnreachedCount + 1 < STACK_SHRINK_AFTER_LOW_DEPTH_COUNT
      · rw [if_pos hcount, if_pos (by omega)]
        exact ⟨h.elementSize, h.elementSize', hsize, h.depth, hlowDepth, congrArg (· + 1) hcounted, h.length,
          h.elements⟩
      · rw [if_neg hcount, if_neg (by omega)]
        refine ⟨h.elementSize, h.elementSize', hlowDepth, h.depth, congrArg (· / 2) hlowDepth, rfl,
          length_reallocBytes hmalloc _ _, fun i x hx => ?_⟩
        have hin : i * e + e ≤ p.elements.length * e := elements_within hx
        have hlen := h.length
        have hdepth'' := h.depth
        rw [readAt_reallocBytes hmalloc (by omega) (by omega)]
        exact h.elements i x hx

/-- The element that is copied behind the others. -/
theorem readAt_push {stack stack' : Bytes} {e : Nat} {elements : List Bytes} {pnt : Bytes} (hpnt : pnt.length = e)
    (hwrite : writeAt stack (elements.length * e) pnt = some stack')
    (helements : ∀ i x, elements[i]? = some x → readAt stack (i * e) e = some x) :
    ∀ i x, (elements ++ [pnt])[i]? = some x → readAt stack' (i * e) e = some x := by
  intro i x hx
  rcases Nat.lt_trichotomy i elements.length with hi | rfl | hi
  · rw [List.getElem?_append_left hi] at hx
    rw [Lib.readAt_writeAt_of_disjoint hwrite (.inl (elements_within hx))]
    exact helements i x hx
  · rw [List.getElem?_concat_length] at hx
    cases hx
    have hread := Lib.readAt_writeAt hwrite
    rwa [hpnt] at hread
  · rw [List.getElem?_eq_none (by rw [List.length_append, List.length_singleton]; omega)] at hx
    cases hx

/-- **A push of the bytes**: it is refused and changes nothing, or it is a push of the element. -/
theorem pushPntStackBytes_refines (hmalloc : ∀ size, (malloc size).length = size) {s : PntStackBytes} {e : Nat}
    {p : PntStack Bytes} (h : s.Refines e p) (hsizes : p.SizesOk) {pnt : Bytes} (hpnt : pnt.length = e)
    (hfits : s.CopyFits (.push pnt)) :
    (pushPntStackBytes malloc s pnt = some (s, -1) ∧ s.copySize = none) ∨
      ∃ s' p', pushPntStackBytes malloc s pnt = some (s', 0) ∧ pushPntStack p pnt = some (p', 0) ∧ s'.Refines e p' ∧
        s.copySize.isSome = true := by
  have hread : readAt pnt 0 s.elementSize = some pnt := by
    unfold readAt
    rw [h.elementSize, if_pos (by omega), List.drop_zero, ← hpnt, List.take_length]
  have hdepth := h.depth_eq
  have hsize := h.stackSize
  have hlen := h.length
  simp only [PntStackBytes.CopyFits] at hfits
  unfold pushPntStackBytes pushPntStack
  unfold PntStackBytes.copySize at hfits ⊢
  rw [hread]
  simp only [Option.bind_eq_bind, Option.bind_some]
  by_cases hroom : s.depth < s.stackSize
  · simp only [if_pos hroom, Option.mem_def, Option.some.injEq, forall_eq'] at hfits ⊢
    have hin : s.depth + pnt.length ≤ s.stack.length := by rw [hpnt, hlen, ← h.elementSize]; exact hfits
    obtain ⟨stack, hwrite⟩ : ∃ stack, writeAt s.stack s.depth pnt = some stack := ⟨_, by rw [writeAt, if_pos hin]⟩
    have hpushed : ({ s with stack, depth := s.depth + s.elementSize } : PntStackBytes).Refines e
        { p with elements := p.elements ++ [pnt] } := by
      refine ⟨h.elementSize, h.elementSize', hsize, ?_, h.lowDepth, h.count, (Lib.length_writeAt hwrite).trans hlen, ?_⟩
      · simp only [h.depth, h.elementSize, List.length_append, List.length_singleton, Nat.succ_mul]
      · exact readAt_push hpnt (h.depth ▸ hwrite) h.elements
    have hfits' : ({ p with elements := p.elements ++ [pnt] } : PntStack Bytes).depth ≤ p.stackSize := by
      rw [← hpushed.depth_eq, ← hsize]
      exact hfits
    refine .inr ⟨_, _, ?_, ?_, shrinkPntStackBytes_refines hmalloc hpushed hfits', rfl⟩
    · rw [hwrite, Option.bind_some, if_pos hfits]
    · rw [if_pos (by omega)]
      exact if_pos hfits'
  · simp only [if_neg hroom] at hfits ⊢
    by_cases hmax : s.stackSize > SIZE_MAX / 2
    · simp [hmax]
    · by_cases hzero : s.stackSize * 2 ≤ s.stackSize
      · simp [hmax, hzero]
      · have hgrow : ¬ (s.stackSize > SIZE_MAX / 2 ∨ s.stackSize * 2 ≤ s.stackSize) := not_or.2 ⟨hmax, hzero⟩
        simp only [if_neg hgrow, if_neg hmax, if_neg hzero, Option.mem_def, Option.some.injEq, forall_eq'] at hfits ⊢
        have hnewLen := length_reallocBytes hmalloc s.stack (s.stackSize * 2)
        have hin : s.depth + pnt.length ≤ (reallocBytes malloc s.stack (s.stackSize * 2)).length := by
          rw [hpnt, hnewLen, ← h.elementSize]
          exact hfits
        obtain ⟨stack, hwrite⟩ : ∃ stack, writeAt (reallocBytes malloc s.stack (s.stackSize * 2)) s.depth pnt =
            some stack := ⟨_, by rw [writeAt, if_pos hin]⟩
        refine .inr ⟨_, _, by rw [hwrite, Option.bind_some], if_neg (by omega), ?_, rfl⟩
        refine ⟨h.elementSize, h.elementSize', congrArg (· * 2) hsize, ?_, hsize, rfl,
          (Lib.length_writeAt hwrite).trans hnewLen, readAt_push hpnt (h.depth ▸ hwrite) (fun i x hx => ?_)⟩
        · simp only [h.depth, h.elementSize, List.length_append, List.length_singleton, Nat.succ_mul]
        · have hwithin := elements_within (e := e) hx
          have hdepth' := h.depth
          have hdepth'' := hsizes.depth
          rw [readAt_reallocBytes hmalloc (by omega) (by omega)]
          exact h.elements i x hx

/-! ## The sizes -/

section
variable {α : Type} {p p' : PntStack α}

theorem shrinkPntStack_elements (p : PntStack α) : (shrinkPntStack p).elements = p.elements ∧
    (shrinkPntStack p).elementSize = p.elementSize := by
  unfold shrinkPntStack
  split
  · exact ⟨rfl, rfl⟩
  · split
    · exact ⟨rfl, rfl⟩
    · split <;> exact ⟨rfl, rfl⟩

/-- A storage that shrinks has room for the element that was just pushed. -/
theorem shrinkPntStack_sizes (h : p.SizesOk) (hone : p.elementSize ≤ p.depth) : (shrinkPntStack p).SizesOk := by
  unfold shrinkPntStack
  split
  · exact h
  · split
    · exact ⟨h.pos, h.depth, h.lowDepth, h.element⟩
    · rename_i hlow
      have hlow' := not_lt.1 hlow
      split
      · exact ⟨h.pos, h.depth, h.lowDepth, h.element⟩
      · exact ⟨h.pos, hlow', Nat.div_le_self _ _, fun _ => hone.trans hlow'⟩

theorem depth_concat (p : PntStack α) (x : α) :
    (p.elements ++ [x]).length * p.elementSize = p.depth + p.elementSize := by
  rw [List.length_append, List.length_singleton, Nat.succ_mul, PntStack.depth]

/-- **A push that fits** keeps the sizes in order. -/
theorem pushPntStack_sizes (h : p.SizesOk) {x : α} (hpush : pushPntStack p x = some (p', 0))
    (hgrow : p.stackSize ≤ p.depth → p.stackSize ≠ 0) :
    p'.SizesOk ∧ p'.elements = p.elements ++ [x] := by
  have hpos := h.pos
  unfold pushPntStack at hpush
  split at hpush
  · simp only at hpush
    split at hpush
    · rename_i hdepth
      cases hpush
      refine ⟨shrinkPntStack_sizes ⟨h.pos, hdepth, h.lowDepth, h.element⟩ ?_, (shrinkPntStack_elements _).1⟩
      rw [PntStack.depth, depth_concat]
      exact Nat.le_add_left _ _
    · cases hpush
  · rename_i hfull
    cases hpush
    have hne := hgrow (not_lt.1 hfull)
    have hone := h.element hne
    have hdepth := h.depth
    refine ⟨⟨h.pos, ?_, ?_, fun _ => ?_⟩, rfl⟩
    · rw [PntStack.depth, depth_concat]
      simp only
      omega
    · simp only
      omega
    · simp only
      omega

theorem popPntStack_sizes (h : p.SizesOk) : (popPntStack p).1.SizesOk := by
  refine ⟨h.pos, le_trans ?_ h.depth, h.lowDepth, h.element⟩
  exact Nat.mul_le_mul_right _ (by rw [popPntStack, List.length_dropLast]; omega)

end

/-! ## One call -/

/-- The bytes hold the list, its last element first. -/
def PntStackBytes.Holds (s : PntStackBytes) (e : Nat) (l : List Bytes) : Prop :=
  ∃ p : PntStack Bytes, s.Refines e p ∧ p.SizesOk ∧ p.elements = l.reverse

/-- A storage has room for an element, or is exactly full, or its last bytes are too few for one. -/
theorem copyFits_iff {s : PntStackBytes} {e : Nat} {l : List Bytes} (h : s.Holds e l) (call : PntStackCall) :
    s.CopyFits call ↔ s.Even call := by
  obtain ⟨p, href, hsizes, -⟩ := h
  cases call with
  | pop => exact Iff.rfl
  | push pnt =>
    have hpos : 0 < e := href.elementSize' ▸ hsizes.pos
    have hdepth : p.elements.length * e ≤ s.stackSize := by
      rw [← href.depth, href.depth_eq, href.stackSize]
      exact hsizes.depth
    have hone := hsizes.element
    rw [href.elementSize', ← href.stackSize] at hone
    simp only [PntStackBytes.CopyFits, PntStackBytes.Even, PntStackBytes.copySize]
    rw [href.elementSize, href.depth, Nat.mul_div_cancel _ hpos]
    generalize s.stackSize = size at hdepth hone ⊢
    generalize p.elements.length = k at hdepth ⊢
    rcases Nat.lt_or_ge (k * e) size with hroom | hfull
    · have hfits : k * e + e ≤ size ↔ k < size / e := by
        rw [← Nat.succ_mul]
        exact (Nat.le_div_iff_mul_le hpos).symm
      simp only [if_pos hroom, Option.mem_def, Option.some.injEq, forall_eq', hfits]
      constructor
      · exact fun h => .inr (Nat.ne_of_lt h)
      · rintro (⟨m, rfl⟩ | hne)
        · rw [Nat.mul_div_cancel_left m hpos]
          rw [Nat.mul_comm] at hroom
          exact Nat.lt_of_mul_lt_mul_left hroom
        · exact Nat.lt_of_le_of_ne ((Nat.le_div_iff_mul_le hpos).2 hdepth) hne
    · refine iff_of_true (fun grown hgrown => ?_) (.inl ?_)
      · rw [if_neg (not_lt.2 hfull)] at hgrown
        split at hgrown
        · cases hgrown
        · cases hgrown
          omega
      · rw [Nat.le_antisymm hfull hdepth]
        exact Nat.dvd_mul_left e k

/-- **One call**: as long as its copy fits, the list allows its reply. -/
theorem callPntStack_spec (hmalloc : ∀ size, (malloc size).length = size) {s : PntStackBytes} {e : Nat} {l : List Bytes}
    (h : s.Holds e l) {call : PntStackCall} (hok : call.Ok e) (hfits : s.CopyFits call) :
    ∃ s' reply l', callPntStack malloc s call = some (s', reply) ∧ LifoSpec l call reply l' ∧ s'.Holds e l' := by
  obtain ⟨p, href, hsizes, helements⟩ := h
  cases call with
  | push pnt =>
    rcases pushPntStackBytes_refines hmalloc href hsizes hok hfits with
      ⟨hpush, -⟩ | ⟨s', p', hpush, hpush', href', hcopy⟩
    · exact ⟨s, _, l, by rw [callPntStack, hpush, Option.map_some], .refused l pnt, p, href, hsizes, helements⟩
    · have hgrow : p.stackSize ≤ p.depth → p.stackSize ≠ 0 := by
        rintro hfull hzero
        have hdepth := href.depth_eq
        have hsize := href.stackSize
        unfold PntStackBytes.copySize at hcopy
        rw [if_neg (by omega), if_pos (by omega)] at hcopy
        cases hcopy
      obtain ⟨hsizes', helements'⟩ := pushPntStack_sizes hsizes hpush' hgrow
      refine ⟨s', _, pnt :: l, by rw [callPntStack, hpush, Option.map_some], .push l pnt, p', href', hsizes', ?_⟩
      rw [helements', helements, List.reverse_cons]
  | pop =>
    have hdepth := href.depth
    cases l with
    | nil =>
      rw [helements, List.reverse_nil, List.length_nil, Nat.zero_mul] at hdepth
      refine ⟨s, _, [], ?_, .empty, p, href, hsizes, helements⟩
      rw [callPntStack, popPntStackBytes, if_pos (by omega), Option.bind_some]
    | cons x l =>
      have hpos : 0 < e := href.elementSize' ▸ hsizes.pos
      rw [List.reverse_cons] at helements
      rw [helements, List.length_append, List.length_singleton, Nat.succ_mul] at hdepth
      have hlast : readAt s.stack (l.reverse.length * e) e = some x :=
        href.elements _ _ (by rw [helements, List.getElem?_concat_length])
      have hsize := href.elementSize
      have hdepth' : s.depth - s.elementSize = l.reverse.length * e := by omega
      have hpop : popPntStackBytes s =
          some ({ s with depth := l.reverse.length * e }, some (l.reverse.length * e)) := by
        rw [popPntStackBytes, if_neg (by omega), if_pos (by omega), hdepth']
      have hcall : callPntStack malloc s .pop = some ({ s with depth := l.reverse.length * e }, .popped (some x)) := by
        rw [callPntStack, hpop, Option.bind_some]
        simp only [hsize, hlast, Option.map_some]
      refine ⟨_, _, l, hcall, .pop x l, (popPntStack p).1, ?_, popPntStack_sizes hsizes, ?_⟩
      · refine ⟨href.elementSize, href.elementSize', href.stackSize, ?_, href.lowDepth, href.count, href.length, ?_⟩
        · rw [popPntStack, helements, List.dropLast_concat]
        · intro i y hy
          rw [popPntStack, helements, List.dropLast_concat] at hy
          refine href.elements i y ?_
          rw [helements, List.getElem?_append_left (List.getElem?_eq_some_iff.1 hy).1]
          exact hy
      · rw [popPntStack, helements, List.dropLast_concat]

/-- A stack that was made is empty, and its storage has room for an element unless its size has wrapped. -/
theorem initPntStackBytes_holds (hmalloc : ∀ size, (malloc size).length = size) {n e : Nat} (hn : 0 < n) (he : 0 < e)
    {s : PntStackBytes} (h : initPntStackBytes malloc n e = some s) : s.Holds e [] := by
  unfold initPntStackBytes at h
  split at h
  · cases h
  · rename_i hmax
    cases h
    have hmul : n * e ≤ SIZE_MAX := by
      rw [Nat.mul_comm]
      exact (Nat.le_div_iff_mul_le hn).1 (not_lt.1 hmax)
    have hone : e ≤ n * e := Nat.le_mul_of_pos_left e hn
    generalize hsize : (n * e + (STACK_CHUNK_SIZE - 1)) % (SIZE_MAX + 1) / STACK_CHUNK_SIZE * STACK_CHUNK_SIZE = size
    refine ⟨⟨0, size, e, size / 2, 0, []⟩, ⟨rfl, rfl, rfl, by simp, rfl, rfl, hmalloc _, by simp⟩,
      ⟨he, by simp [PntStack.depth], Nat.div_le_self _ _, fun hne => ?_⟩, rfl⟩
    have hne' : size ≠ 0 := hne
    show e ≤ size
    simp only [STACK_CHUNK_SIZE, SIZE_MAX] at hsize hmul
    generalize n * e = size' at hsize hmul hone
    omega

theorem newPntStackBytes_holds (hmalloc : ∀ size, (malloc size).length = size) {n e : Nat}
    {s : PntStackBytes} (h : newPntStackBytes malloc n e = some s) : 0 < e ∧ s.Holds e [] := by
  unfold newPntStackBytes at h
  split at h
  · cases h
  · rename_i he
    have hpos := Nat.pos_of_ne_zero he
    refine ⟨hpos, ?_⟩
    split at h
    · split at h
      · cases h
      · rename_i hcount
        exact initPntStackBytes_holds hmalloc (not_le.1 hcount) hpos h
    · rename_i hn
      exact initPntStackBytes_holds hmalloc (not_le.1 hn) hpos h

/-! ## The law -/

/-- **When the pointer stack stays within its storage**: no push comes when the storage has all the elements that it has
room for, and some bytes besides. -/
theorem pnt_stack_iff (hmalloc : ∀ size, (malloc size).length = size) {n e : Nat} {s : PntStackBytes}
    (hnew : newPntStackBytes malloc n e = some s) (cs : List PntStackCall) (hcs : ∀ call ∈ cs, call.Ok e) :
    PntStackLaw malloc s cs ↔ GoodCalls (callPntStack malloc) PntStackBytes.Even s cs := by
  obtain ⟨-, hholds⟩ := newPntStackBytes_holds hmalloc hnew
  have hstep : ∀ s l call, PntStackBytes.Holds s e l → call.Ok e → s.CopyFits call → ∃ s' reply l',
      callPntStack malloc s call = some (s', reply) ∧ LifoSpec l call reply l' ∧ s'.Holds e l' :=
    fun _ _ _ hholds hok hfits => callPntStack_spec hmalloc hholds hok hfits
  have hiff : ∀ s l call, PntStackBytes.Holds s e l → call.Ok e → (s.CopyFits call ↔ s.Even call) :=
    fun _ _ call hholds _ => copyFits_iff hholds call
  rw [← Lib.goodCalls_iff hiff hstep cs s [] hholds hcs]
  exact ⟨fun h => h.1, fun h => ⟨h, Lib.calls_simulates hstep cs s [] hholds hcs h⟩⟩

/-- **How a call changes the sizes**: not at all, to the half of a storage larger than a chunk, or to the double. -/
theorem callPntStack_sizes {s : PntStackBytes} {call : PntStackCall} {r : PntStackBytes × PntStackReply}
    (h : callPntStack malloc s call = some r) : r.1.elementSize = s.elementSize ∧
      ((r.1.stackSize = s.stackSize ∧ r.1.lowDepth = s.lowDepth) ∨
        (STACK_CHUNK_SIZE < s.stackSize ∧ r.1.stackSize = s.lowDepth ∧ r.1.lowDepth = s.lowDepth / 2) ∨
        (r.1.stackSize = s.stackSize * 2 ∧ r.1.lowDepth = s.stackSize)) := by
  cases call with
  | push pnt =>
    obtain ⟨⟨s', ret⟩, hpush, rfl⟩ := Option.map_eq_some_iff.1 h
    unfold pushPntStackBytes at hpush
    obtain ⟨element, -, hpush⟩ := Option.bind_eq_some_iff.1 hpush
    split at hpush
    · obtain ⟨stack, -, hpush⟩ := Option.bind_eq_some_iff.1 hpush
      simp only at hpush
      split at hpush
      · cases hpush
        unfold shrinkPntStackBytes
        split
        · exact ⟨rfl, .inl ⟨rfl, rfl⟩⟩
        · rename_i hlarge
          split
          · exact ⟨rfl, .inl ⟨rfl, rfl⟩⟩
          · split
            · exact ⟨rfl, .inl ⟨rfl, rfl⟩⟩
            · exact ⟨rfl, .inr (.inl ⟨not_le.1 (not_or.1 hlarge).1, rfl, rfl⟩)⟩
      · cases hpush
    · split at hpush
      · cases hpush
        exact ⟨rfl, .inl ⟨rfl, rfl⟩⟩
      · simp only at hpush
        split at hpush
        · cases hpush
          exact ⟨rfl, .inl ⟨rfl, rfl⟩⟩
        · obtain ⟨stack, -, hpush⟩ := Option.bind_eq_some_iff.1 hpush
          cases hpush
          exact ⟨rfl, .inr (.inr ⟨rfl, rfl⟩)⟩
  | pop =>
    obtain ⟨⟨s', element⟩, hpop, h⟩ := Option.bind_eq_some_iff.1 h
    have hsame : s'.elementSize = s.elementSize ∧ s'.stackSize = s.stackSize ∧ s'.lowDepth = s.lowDepth := by
      unfold popPntStackBytes at hpop
      split at hpop
      · cases hpop
        exact ⟨rfl, rfl, rfl⟩
      · split at hpop <;> cases hpop
        exact ⟨rfl, rfl, rfl⟩
    have hr : r.1 = s' := by
      cases element with
      | none =>
        cases h
        rfl
      | some element =>
        obtain ⟨x, -, rfl⟩ := Option.map_eq_some_iff.1 h
        rfl
    rw [hr]
    exact ⟨hsame.1, .inl hsame.2⟩

theorem newPntStackBytes_lowDepth {n e : Nat} {s : PntStackBytes} (h : newPntStackBytes malloc n e = some s) :
    s.lowDepth = s.stackSize / 2 ∧ s.elementSize = e := by
  have hinit : ∀ {n : Nat}, initPntStackBytes malloc n e = some s →
      s.lowDepth = s.stackSize / 2 ∧ s.elementSize = e := by
    intro n h
    unfold initPntStackBytes at h
    split at h <;> cases h
    exact ⟨rfl, rfl⟩
  unfold newPntStackBytes at h
  split at h
  · cases h
  · split at h
    · split at h
      · cases h
      · exact hinit h
    · exact hinit h

/-- The elements divide a chunk, and the storage is a power of two chunks. -/
def PntStackBytes.Chunks (s : PntStackBytes) : Prop :=
  s.elementSize ∣ STACK_CHUNK_SIZE ∧ ∃ j, s.stackSize = STACK_CHUNK_SIZE * 2 ^ j ∧ s.lowDepth = s.stackSize / 2

theorem callPntStack_chunks {s : PntStackBytes} (h : s.Chunks) {call : PntStackCall} {r : PntStackBytes × PntStackReply}
    (hcall : callPntStack malloc s call = some r) : r.1.Chunks := by
  obtain ⟨hdvd, j, hsize, hlow⟩ := h
  obtain ⟨helement, hsizes⟩ := callPntStack_sizes hcall
  refine ⟨helement ▸ hdvd, ?_⟩
  rcases hsizes with ⟨hsize', hlow'⟩ | ⟨hlarge, hsize', hlow'⟩ | ⟨hsize', hlow'⟩
  · exact ⟨j, hsize'.trans hsize, by rw [hlow', hlow, hsize']⟩
  · cases j with
    | zero =>
      rw [Nat.pow_zero, Nat.mul_one] at hsize
      omega
    | succ j =>
      rw [Nat.pow_succ, ← Nat.mul_assoc] at hsize
      exact ⟨j, by omega, by omega⟩
  · refine ⟨j + 1, ?_, by omega⟩
    rw [hsize', hsize, Nat.pow_succ, Nat.mul_assoc]

/-- **Elements that divide a chunk** are safe, whatever the calls, in a storage that starts with a power of two
chunks. -/
theorem pnt_stack_chunks (hmalloc : ∀ size, (malloc size).length = size) {n e j : Nat} {s : PntStackBytes}
    (hnew : newPntStackBytes malloc n e = some s) (hdvd : e ∣ STACK_CHUNK_SIZE)
    (hsize : s.stackSize = STACK_CHUNK_SIZE * 2 ^ j) (cs : List PntStackCall) (hcs : ∀ call ∈ cs, call.Ok e) :
    PntStackLaw malloc s cs := by
  obtain ⟨hlow, helement⟩ := newPntStackBytes_lowDepth hnew
  have hinit : s.Chunks := ⟨helement ▸ hdvd, j, hsize, hlow⟩
  have heven : ∀ (s : PntStackBytes) (call : PntStackCall), s.Chunks → call.Ok e → s.Even call := by
    rintro s call ⟨hdvd, j, hsize, -⟩ -
    cases call with
    | push pnt => exact .inl (hsize ▸ Nat.dvd_mul_right_of_dvd hdvd _)
    | pop => trivial
  refine (pnt_stack_iff hmalloc hnew cs hcs).2 (Lib.goodCalls_of_inv heven ?_ cs s hinit hcs)
  exact fun _ _ _ hchunks _ hcall => callPntStack_chunks hchunks hcall

theorem pnt_stack_push_pop : (∀ size, (List.replicate size (0 : UInt8)).length = size) ∧
    ∃ s, newPntStackBytes (List.replicate · 0) 8 24 = some s ∧
      PntStackLaw (List.replicate · 0) s [.push (List.replicate 24 1), .pop] := by
  have hmalloc : ∀ size, (List.replicate size (0 : UInt8)).length = size := fun _ => List.length_replicate
  refine ⟨hmalloc, ⟨List.replicate 4096 0, 4096, 24, 0, 2048, 0⟩, rfl, ?_⟩
  refine (pnt_stack_iff (n := 8) (e := 24) hmalloc rfl _ ?_).2 ⟨.inr (by decide), fun r _ => ⟨trivial, ?_⟩⟩
  · simp [PntStackCall.Ok]
  · exact fun _ _ => trivial

/-- A push to a small storage that is not full yet. -/
theorem pushPntStackBytes_small {s s' : PntStackBytes} {pnt : Bytes} {ret : Int}
    (hsmall : s.stackSize ≤ STACK_CHUNK_SIZE) (hroom : s.depth < s.stackSize)
    (hpush : pushPntStackBytes malloc s pnt = some (s', ret)) : s.depth + s.elementSize ≤ s.stackSize ∧
      s'.stackSize = s.stackSize ∧ s'.depth = s.depth + s.elementSize ∧ s'.elementSize = s.elementSize := by
  unfold pushPntStackBytes at hpush
  obtain ⟨element, -, hpush⟩ := Option.bind_eq_some_iff.1 hpush
  rw [if_pos hroom] at hpush
  obtain ⟨stack, -, hpush⟩ := Option.bind_eq_some_iff.1 hpush
  simp only at hpush
  split at hpush
  · rename_i hdepth
    cases hpush
    have hsame : shrinkPntStackBytes malloc { s with stack, depth := s.depth + s.elementSize } =
        { s with stack, depth := s.depth + s.elementSize } := if_pos (.inl hsmall)
    rw [hsame]
    exact ⟨hdepth, rfl, rfl, rfl⟩
  · cases hpush

/-- **Pushes of elements that do not fill a storage** end in one that leaves it. -/
theorem pushes_leave : ∀ (k : Nat) (s : PntStackBytes) (pnt : Bytes), s.stackSize ≤ STACK_CHUNK_SIZE →
    s.depth + k * s.elementSize < s.stackSize → s.stackSize < s.depth + (k + 1) * s.elementSize →
    calls (callPntStack malloc) s (List.replicate (k + 1) (.push pnt)) = none
  | k, s, pnt, hsmall, hroom, hleave => by
    rw [List.replicate_succ, calls, callPntStack]
    cases hpush : pushPntStackBytes malloc s pnt with
    | none => rfl
    | some r =>
      have hroom' : s.depth < s.stackSize := Nat.lt_of_le_of_lt (Nat.le_add_right _ _) hroom
      obtain ⟨hin, hsize, hdepth, helement⟩ := pushPntStackBytes_small hsmall hroom' hpush
      cases k with
      | zero =>
        rw [Nat.zero_add, Nat.one_mul] at hleave
        omega
      | succ k =>
        simp only [Nat.succ_mul] at hroom hleave
        have hrest := pushes_leave k r.1 pnt (by omega) (by rw [helement]; omega)
          (by rw [helement, Nat.succ_mul]; omega)
        rw [Option.map_some, Option.bind_some, hrest]
        rfl

/-- **The quad nodes of a search**, 24 bytes each: the 171st one that is pending is written over the end of the
storage. -/
theorem pnt_stack_leaves : ∃ s, newPntStackBytes (List.replicate · 0) 8 24 = some s ∧
    ¬ PntStackLaw (List.replicate · 0) s (List.replicate 171 (.push (List.replicate 24 0))) := by
  refine ⟨⟨List.replicate 4096 0, 4096, 24, 0, 2048, 0⟩, rfl, ?_⟩
  rintro ⟨-, s', replies, hcalls, -⟩
  rw [pushes_leave 170 _ _ (Nat.le_refl _) (by decide) (by decide)] at hcalls
  cases hcalls

end Pincaster
