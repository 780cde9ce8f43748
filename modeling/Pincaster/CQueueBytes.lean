import Mathlib.Algebra.Group.Nat.Defs
import Pincaster.CQueue
import Pincaster.Lib.Buffer
import Pincaster.Lib.Calls
/-!
# CQueueBytes — `cqueue.c` with its pointers and bytes

The ring as the code has it: pointers are offsets into one allocation, elements are the bytes behind them.  It refines
the ring of `CQueue`, whose pointers count elements, and with it a first-in first-out list (`cqueue_fifo`).  A failed
assertion and an access outside of the allocation have no result.
-/
namespace Pincaster

open Lib (Bytes readAt writeAt calls Replies)

def SIZE_MAX : Nat := 2 ^ 64 - 1

structure CQueueBytes where
  cqueue : Bytes
  cqueueEnd : Nat
  firstElement : Option Nat
  lastElement : Option Nat
  elementSize : Nat

/-- `init_cqueue`; `none` is its `-1`, and `malloc` gives the bytes of an allocation, `none` for `NULL`. -/
def initCqueueBytes (malloc : Nat → Option Bytes) (nbElements elementSize : Nat) : Option CQueueBytes :=
  if nbElements < 2 ∨ SIZE_MAX / nbElements < elementSize then none
  else
    let cqueueSize := nbElements * elementSize
    (malloc cqueueSize).map (fun cqueue => ⟨cqueue, cqueueSize - elementSize, none, none, elementSize⟩)

def pushCqueueBytes (q : CQueueBytes) (pnt : Bytes) : Option (CQueueBytes × Int) := do
  let element ← readAt pnt 0 q.elementSize
  match q.lastElement with
  | none =>
    if q.firstElement = none then do
      let cqueue ← writeAt q.cqueue 0 element
      some ({ q with cqueue, firstElement := some 0, lastElement := some 0 }, 0)
    else none
  | some last =>
    let newElement := if last ≠ q.cqueueEnd then last + q.elementSize else 0
    if q.firstElement = some newElement then some (q, -1)
    else do
      let cqueue ← writeAt q.cqueue newElement element
      some ({ q with cqueue, lastElement := some newElement }, 0)

/-- `none` for `NULL`. -/
def shiftCqueueBytes (q : CQueueBytes) : CQueueBytes × Option Nat :=
  match q.firstElement with
  | none => (q, none)
  | some first =>
    if q.lastElement = some first then ({ q with firstElement := none, lastElement := none }, some first)
    else
      let nextElement := if first ≠ q.cqueueEnd then first + q.elementSize else 0
      ({ q with firstElement := some nextElement }, some first)

/-! ## Calls -/

inductive CqueueCall where
  | push (pnt : Bytes)
  | shift

/-- What a push is given is an element. -/
def CqueueCall.Ok (elementSize : Nat) : CqueueCall → Prop
  | push pnt => pnt.length = elementSize
  | shift => True

/-- What a call replies: the result of a push with the element it wrote to, or the element that was taken and the bytes
behind it. -/
inductive CqueueReply where
  | pushed (ret : Int) (newElement : Option Nat)
  | shifted (element : Option (Nat × Bytes))

def callCqueue (q : CQueueBytes) : CqueueCall → Option (CQueueBytes × CqueueReply)
  | .push pnt => (pushCqueueBytes q pnt).map (fun r => (r.1, .pushed r.2 (if r.2 = 0 then r.1.lastElement else none)))
  | .shift =>
    match shiftCqueueBytes q with
    | (q, none) => some (q, .shifted none)
    | (q, some element) => (readAt q.cqueue element q.elementSize).map (fun x => (q, .shifted (some (element, x))))

/-! ## What the queue is for -/

/-- **A first-in first-out list of `n` elements at most**, which stand at multiples of their size within an allocation
for `n` of them. -/
inductive FifoSpec (n elementSize : Nat) : List Bytes → CqueueCall → CqueueReply → List Bytes → Prop
  | push (l : List Bytes) (pnt : Bytes) (a : Nat) (hroom : l.length < n) (hdvd : elementSize ∣ a)
      (hle : a + elementSize ≤ n * elementSize) :
      FifoSpec n elementSize l (.push pnt) (.pushed 0 (some a)) (l ++ [pnt])
  | full (l : List Bytes) (pnt : Bytes) (hfull : l.length = n) :
      FifoSpec n elementSize l (.push pnt) (.pushed (-1) none) l
  | shift (x : Bytes) (l : List Bytes) (a : Nat) (hdvd : elementSize ∣ a) (hle : a + elementSize ≤ n * elementSize) :
      FifoSpec n elementSize (x :: l) .shift (.shifted (some (a, x))) l
  | empty : FifoSpec n elementSize [] .shift (.shifted none) []

/-! ## The refinement -/

/-- **The bytes of a ring of elements.** -/
structure CQueueBytes.Refines (b : CQueueBytes) (e : Nat) (q : CQueue Bytes) : Prop where
  elementSize : b.elementSize = e
  length : b.cqueue.length = (q.cqueueEnd + 1) * e
  cqueueEnd : b.cqueueEnd = q.cqueueEnd * e
  first : b.firstElement = q.firstElement.map (· * e)
  last : b.lastElement = q.lastElement.map (· * e)
  elements : ∀ i x, i ≤ q.cqueueEnd → q.cqueue i = some x → readAt b.cqueue (i * e) e = some x

/-- The first and the last element stand within the ring. -/
theorem CQueue.Holds.bounds {α : Type} {q : CQueue α} {l : List α} (h : q.Holds l) :
    (∀ f ∈ q.firstElement, f ≤ q.cqueueEnd) ∧ ∀ last ∈ q.lastElement, last ≤ q.cqueueEnd := by
  refine ⟨fun f hf => (h.last f hf).1, fun last hlast => ?_⟩
  cases hf : q.firstElement with
  | none =>
    rw [h.lastNone hf] at hlast
    cases hlast
  | some f =>
    rw [(h.last f hf).2] at hlast
    cases hlast
    exact Nat.lt_succ_iff.1 (Nat.mod_lt _ (Nat.succ_pos _))

/-- Elements that are apart do not overlap. -/
theorem element_disjoint {e i j : Nat} (h : i ≠ j) : i * e + e ≤ j * e ∨ j * e + e ≤ i * e := by
  rcases Nat.lt_or_gt_of_ne h with h | h
  · exact .inl (by rw [← Nat.succ_mul]; exact Nat.mul_le_mul_right e h)
  · exact .inr (by rw [← Nat.succ_mul]; exact Nat.mul_le_mul_right e h)

theorem element_le {e i n : Nat} (h : i ≤ n) : i * e + e ≤ (n + 1) * e := by
  rw [← Nat.succ_mul]
  exact Nat.mul_le_mul_right e (Nat.succ_le_succ h)

/-- A write of an element to its place. -/
theorem CQueueBytes.Refines.write {b : CQueueBytes} {e : Nat} {q : CQueue Bytes} (h : b.Refines e q) {i : Nat}
    (hi : i ≤ q.cqueueEnd) {x : Bytes} (hx : x.length = e) : ∃ cqueue, writeAt b.cqueue (i * e) x = some cqueue ∧
      cqueue.length = (q.cqueueEnd + 1) * e ∧ ∀ j y, j ≤ q.cqueueEnd →
        Function.update q.cqueue i (some x) j = some y → readAt cqueue (j * e) e = some y := by
  have hwrite : (writeAt b.cqueue (i * e) x).isSome = true := by
    unfold writeAt
    rw [if_pos (by rw [hx, h.length]; exact element_le hi)]
    rfl
  obtain ⟨cqueue, hcqueue⟩ := Option.isSome_iff_exists.1 hwrite
  refine ⟨cqueue, hcqueue, (Lib.length_writeAt hcqueue).trans h.length, fun j y hj hy => ?_⟩
  by_cases hij : j = i
  · subst hij
    rw [Function.update_self] at hy
    cases hy
    rw [← hx]
    exact hx ▸ Lib.readAt_writeAt hcqueue
  · rw [Function.update_of_ne hij] at hy
    rw [Lib.readAt_writeAt_of_disjoint hcqueue (hx ▸ element_disjoint hij)]
    exact h.elements j y hj hy

/-- The pointer to the element behind another one. -/
theorem next_element {e i n : Nat} (he : 0 < e) :
    (if i * e ≠ n * e then i * e + e else 0) = (if i ≠ n then i + 1 else 0) * e := by
  by_cases h : i = n
  · subst h
    rw [if_neg (not_not.2 rfl), if_neg (not_not.2 rfl), Nat.zero_mul]
  · rw [if_pos h, if_pos (fun heq => h (Nat.eq_of_mul_eq_mul_right he heq)), Nat.succ_mul]

theorem map_mul_eq_some {e i : Nat} (he : 0 < e) (o : Option Nat) : o.map (· * e) = some (i * e) ↔ o = some i := by
  cases o with
  | none => simp
  | some j =>
    simp only [Option.map_some, Option.some.injEq]
    exact ⟨Nat.eq_of_mul_eq_mul_right he, congrArg (· * e)⟩

/-- **A push of the bytes is a push of the element.** -/
theorem pushCqueueBytes_refines {b : CQueueBytes} {e : Nat} {q q' : CQueue Bytes} {ret : Int} {pnt : Bytes}
    (h : b.Refines e q) (he : 0 < e) (hlast : ∀ last ∈ q.lastElement, last ≤ q.cqueueEnd) (hpnt : pnt.length = e)
    (hpush : pushCqueue q pnt = some (q', ret)) :
    ∃ b', pushCqueueBytes b pnt = some (b', ret) ∧ b'.Refines e q' := by
  have hread : readAt pnt 0 e = some pnt := by
    unfold readAt
    rw [if_pos (by omega), List.drop_zero, ← hpnt, List.take_length]
  unfold pushCqueueBytes
  simp only [h.elementSize, hread, Option.bind_eq_bind, Option.bind_some, h.last, h.first, h.cqueueEnd]
  unfold pushCqueue at hpush
  cases hl : q.lastElement with
  | none =>
    simp only [hl] at hpush
    split at hpush
    · rename_i hfirst
      cases hpush
      obtain ⟨cqueue, hwrite, hlen, helements⟩ := h.write (Nat.zero_le _) hpnt
      rw [Nat.zero_mul] at hwrite
      simp only [Option.map_none, hfirst, if_true, hwrite, Option.bind_some]
      exact ⟨_, rfl, ⟨rfl, hlen, rfl, by simp, by simp, helements⟩⟩
    · cases hpush
  | some last =>
    simp only [hl] at hpush
    simp only [Option.map_some, next_element he, map_mul_eq_some he]
    generalize hnewElement : (if last ≠ q.cqueueEnd then last + 1 else 0) = newElement at hpush ⊢
    split at hpush
    · rename_i hfull
      cases hpush
      rw [if_pos hfull]
      exact ⟨b, rfl, h⟩
    · rename_i hroom
      cases hpush
      rw [if_neg hroom]
      have hnew : newElement ≤ q.cqueueEnd := by
        have := hlast last hl
        rw [← hnewElement]
        split <;> omega
      obtain ⟨cqueue, hwrite, hlen, helements⟩ := h.write hnew hpnt
      rw [hwrite, Option.bind_some]
      exact ⟨_, rfl, ⟨rfl, hlen, rfl, rfl, by simp, helements⟩⟩

/-- **A shift of the bytes is a shift of the element**, and gives the pointer to it. -/
theorem shiftCqueueBytes_refines {b : CQueueBytes} {e : Nat} {q q' : CQueue Bytes} {element : Option Bytes}
    (h : b.Refines e q) (he : 0 < e) (hfirst : ∀ f ∈ q.firstElement, f ≤ q.cqueueEnd)
    (hshift : shiftCqueue q = some (q', element)) : ∃ b' pointer, shiftCqueueBytes b = (b', pointer) ∧ b'.Refines e q' ∧
      (element = none ∧ pointer = none ∨ ∃ x i, element = some x ∧ pointer = some (i * e) ∧ i ≤ q.cqueueEnd ∧
        readAt b'.cqueue (i * e) e = some x) := by
  unfold shiftCqueue at hshift
  unfold shiftCqueueBytes
  rw [h.first]
  cases hf : q.firstElement with
  | none =>
    simp only [hf] at hshift
    cases hshift
    exact ⟨b, none, rfl, h, .inl ⟨rfl, rfl⟩⟩
  | some f =>
    simp only [hf] at hshift
    obtain ⟨x, hx, hshift⟩ := Option.bind_eq_some_iff.1 hshift
    have hread := h.elements f x (hfirst f hf) hx
    simp only [Option.map_some, h.last, h.cqueueEnd, h.elementSize, next_element he, map_mul_eq_some he]
    generalize (if f ≠ q.cqueueEnd then f + 1 else 0) = nextElement at hshift ⊢
    split at hshift
    · rename_i hone
      cases hshift
      rw [if_pos hone]
      exact ⟨_, _, rfl, ⟨rfl, h.length, rfl, rfl, rfl, h.elements⟩, .inr ⟨x, f, rfl, rfl, hfirst f hf, hread⟩⟩
    · rename_i hmore
      cases hshift
      rw [if_neg hmore]
      exact ⟨_, _, rfl, ⟨rfl, h.length, rfl, rfl, rfl, h.elements⟩, .inr ⟨x, f, rfl, rfl, hfirst f hf, hread⟩⟩

/-! ## The law -/

/-- The bytes hold the list: they refine a ring of `n` elements that holds it. -/
def CQueueBytes.Holds (b : CQueueBytes) (n e : Nat) (l : List Bytes) : Prop :=
  ∃ q : CQueue Bytes, b.Refines e q ∧ q.cqueueEnd + 1 = n ∧ q.Holds l

/-- A queue that was made is empty. -/
theorem initCqueueBytes_holds {malloc : Nat → Option Bytes} (hmalloc : ∀ size m, malloc size = some m → m.length = size)
    {n e : Nat} {b : CQueueBytes} (h : initCqueueBytes malloc n e = some b) : b.Holds n e [] := by
  unfold initCqueueBytes at h
  split at h
  · cases h
  · rename_i hn
    obtain ⟨cqueue, hcqueue, rfl⟩ := Option.map_eq_some_iff.1 h
    have hlen := hmalloc _ _ hcqueue
    refine ⟨⟨fun _ => none, n - 1, none, none⟩, ⟨rfl, ?_, ?_, rfl, rfl, fun i x _ hx => nomatch hx⟩, ?_, ?_⟩
    · rw [show n - 1 + 1 = n by omega]
      exact hlen
    · rw [Nat.sub_mul, Nat.one_mul]
    · show n - 1 + 1 = n
      omega
    · exact CQueue.holds_nil rfl rfl

/-- **One call**: the list allows its reply. -/
theorem callCqueue_spec {b : CQueueBytes} {n e : Nat} {l : List Bytes} (he : 0 < e) (h : b.Holds n e l)
    {call : CqueueCall} (hok : call.Ok e) :
    ∃ b' reply l', callCqueue b call = some (b', reply) ∧ FifoSpec n e l call reply l' ∧ b'.Holds n e l' := by
  obtain ⟨q, href, hn, hq⟩ := h
  obtain ⟨hfirst, hlast⟩ := hq.bounds
  cases call with
  | push pnt =>
    obtain ⟨q', ret, hpush, hend, hcase⟩ := pushCqueue_spec hq pnt
    obtain ⟨b', hpush', href'⟩ := pushCqueueBytes_refines href he hlast hok hpush
    have hcall : callCqueue b (.push pnt) = some (b', .pushed ret (if ret = 0 then b'.lastElement else none)) := by
      rw [callCqueue, hpush', Option.map_some]
    rcases hcase with ⟨hroom, rfl, hholds⟩ | ⟨hfull, rfl, rfl⟩
    · have hne : q'.firstElement ≠ none := fun hnone => by simpa using hholds.first.1 hnone
      obtain ⟨f, hf⟩ := Option.ne_none_iff_exists'.1 hne
      obtain ⟨i, hi⟩ : ∃ i, q'.lastElement = some i := ⟨_, (hholds.last f hf).2⟩
      have hle := element_le (e := e) (hholds.bounds.2 i hi)
      rw [hend, hn] at hle
      rw [if_pos rfl, href'.last, hi, Option.map_some] at hcall
      exact ⟨b', _, _, hcall, .push l pnt _ (by omega) (Nat.dvd_mul_left e i) hle, q', href', by omega, hholds⟩
    · exact ⟨b', _, l, hcall, .full l pnt (by omega), q', href', hn, hq⟩
  | shift =>
    obtain ⟨q', hshift, hend, hholds⟩ := shiftCqueue_spec hq
    obtain ⟨b', pointer, hshift', href', helement⟩ := shiftCqueueBytes_refines href he hfirst hshift
    have hholds' : b'.Holds n e l.tail := ⟨q', href', by omega, hholds⟩
    rcases helement with ⟨hnone, rfl⟩ | ⟨x, i, hsome, rfl, hi, hread⟩
    · obtain rfl := List.head?_eq_none_iff.1 hnone
      exact ⟨b', _, [], by rw [callCqueue, hshift'], .empty, hholds'⟩
    · obtain ⟨l, rfl⟩ := List.head?_eq_some_iff.1 hsome
      have hcall : callCqueue b .shift = some (b', .shifted (some (i * e, x))) := by
        rw [callCqueue, hshift']
        simp only [href'.elementSize, hread, Option.map_some]
      exact ⟨b', _, l, hcall, .shift x l _ (Nat.dvd_mul_left e i) (hn ▸ element_le hi), hholds'⟩

/-- **The operation queue is a bounded first-in first-out list**: every sequence of calls on a queue made for `n`
elements, which are of at least one byte, gets the replies of a list of capacity `n`, and every element stands at a
multiple of its size within the allocation. -/
theorem cqueue_fifo {malloc : Nat → Option Bytes} (hmalloc : ∀ size m, malloc size = some m → m.length = size)
    {n e : Nat} (he : 1 ≤ e) {b : CQueueBytes} (hinit : initCqueueBytes malloc n e = some b) (cs : List CqueueCall)
    (hcs : ∀ call ∈ cs, call.Ok e) :
    ∃ b' replies, calls callCqueue b cs = some (b', replies) ∧ Replies (FifoSpec n e) [] cs replies := by
  have hstep : ∀ b l call, CQueueBytes.Holds b n e l → call.Ok e → True → ∃ b' reply l',
      callCqueue b call = some (b', reply) ∧ FifoSpec n e l call reply l' ∧ b'.Holds n e l' :=
    fun _ _ _ hholds hok _ => callCqueue_spec he hholds hok
  exact Lib.calls_simulates hstep cs b [] (initCqueueBytes_holds hmalloc hinit) hcs (Lib.goodCalls_true cs b)

theorem cqueue_fifo_bytes : (∀ size m, some (List.replicate size (0 : UInt8)) = some m → m.length = size) ∧
    ∃ b b' replies, initCqueueBytes (fun size => some (List.replicate size 0)) 2 1 = some b ∧
      calls callCqueue b [.push [7], .push [8], .push [9], .shift] = some (b', replies) ∧
      Replies (FifoSpec 2 1) [] [.push [7], .push [8], .push [9], .shift] replies := by
  have hmalloc : ∀ size m, some (List.replicate size (0 : UInt8)) = some m → m.length = size := by
    rintro size _ ⟨⟩
    exact List.length_replicate
  obtain ⟨b', replies, hcalls, hreplies⟩ := cqueue_fifo (n := 2) (e := 1) hmalloc (Nat.le_refl 1) rfl
    [.push [7], .push [8], .push [9], .shift] (by simp [CqueueCall.Ok])
  exact ⟨hmalloc, _, b', replies, rfl, hcalls, hreplies⟩

/-- **Elements of no bytes** have one address: the second one of a queue for two is refused. -/
theorem cqueue_empty_elements : ∃ b, initCqueueBytes (fun size => some (List.replicate size 0)) 2 0 = some b ∧
    ¬ ∃ b' replies, calls callCqueue b [.push [], .push []] = some (b', replies) ∧
      Replies (FifoSpec 2 0) [] [.push [], .push []] replies := by
  refine ⟨⟨[], 0, none, none, 0⟩, rfl, ?_⟩
  rintro ⟨b', replies, hcalls, h⟩
  cases hcalls
  cases h with
  | cons h₁ h₂ =>
    cases h₁
    cases h₂ with
    | cons h₂ _ =>
      cases h₂ with
      | full _ _ hfull => cases hfull

end Pincaster
