import Mathlib.Data.Fintype.Card
import Mathlib.Data.Set.Card
import Pincaster.Lib.RecordStream
import Pincaster.Lib.Runs
import Pincaster.Requests
/-!
# ReplyPipe — `send_op_reply` and `handle_consumer_ops.c`: from the workers to the clients

A reply goes through a pair of buffers as the bytes of its pointer, and `consumer_cb` frees it.  However the bytes are
moved and whoever sends at the same time, every reply reaches its client once, in the order in which the pointers were
written (`replies_delivered`, `replies_drain`).
-/
namespace Pincaster

open Lib (Bytes leBytes leVal System)

/-! ## Replies in memory -/

inductive OpType where
  | none | error | systemPing | systemRewrite | layersCreate | layersDelete | layersIndex | recordsPut | recordsGet
  | recordsDelete | searchNearby | searchInRect | searchInKeys
  deriving DecidableEq

/-- The members that every `OpReply` has, without its JSON; `req` is the request it is for. -/
structure BareOpReply where
  type : OpType
  req : Nat
  opTid : Nat
  deriving DecidableEq

/-- `sizeof op_reply`: the size of a pointer. -/
def OP_REPLY_SIZE : Nat := 8

/-- The bytes of a pointer, and the pointer that bytes are. -/
def ptrBytes (ptr : UInt64) : Bytes := leBytes OP_REPLY_SIZE ptr.toNat

def bytesPtr (bs : Bytes) : UInt64 := UInt64.ofNat (leVal bs)

theorem length_ptrBytes (ptr : UInt64) : (ptrBytes ptr).length = OP_REPLY_SIZE := Lib.length_leBytes _ _

theorem bytesPtr_ptrBytes (ptr : UInt64) : bytesPtr (ptrBytes ptr) = ptr := by
  have hsize : 256 ^ OP_REPLY_SIZE = 2 ^ 64 := by decide
  rw [bytesPtr, ptrBytes, Lib.leVal_leBytes, hsize, Nat.mod_eq_of_lt ptr.toNat_lt, UInt64.ofNat_toNat]

/-! ## `handle_consumer_ops.c` -/

/-- `send_json_gen`: the number it returns, and the status it sends unless there is no memory for a buffer. -/
def sendJsonGen (evbufferNew : Bool) : Int × List Int := if evbufferNew then (0, [HTTP_OK]) else (-1, [])

/-- The handler of a type of replies. -/
def handleConsumerOp (evbufferNew : Bool) : OpType → Int × List Int
  | .error => (0, [HTTP_NOTFOUND])
  | .none => (-1, [])
  | .systemPing | .systemRewrite | .layersCreate | .layersDelete | .layersIndex | .recordsPut | .recordsGet
  | .recordsDelete | .searchNearby | .searchInRect | .searchInKeys => sendJsonGen evbufferNew

/-- What is sent for a reply: an error with the number of a handler that has failed. -/
def consumed (evbufferNew : Bool) (opReply : BareOpReply) : List Int :=
  let (ret, statuses) := handleConsumerOp evbufferNew opReply.type
  if ret ≠ 0 then statuses ++ [ret] else statuses

/-- The pair of buffers, with the replies in memory and those who send one: `n` threads, each with the pointer of its
reply and whether the length of the output was found to be small enough.  `written` are the replies whose pointers were
written, and `sent` is what the clients were sent, with the reply. -/
structure ReplyPipe (n : Nat) where
  cells : UInt64 → Option BareOpReply
  senders : Fin n → Option (UInt64 × Bool)
  output : Bytes
  input : Bytes
  written : List BareOpReply
  sent : List (BareOpReply × List Int)

variable {n : Nat}

/-- The loop of `consumer_cb`; `evbufferNew` says for which replies there is memory.  It fails when a pointer is read
that is none of a reply. -/
def consumeReplies (evbufferNew : BareOpReply → Bool) : Nat → ReplyPipe n → Option (ReplyPipe n)
  | 0, s => some s
  | fuel + 1, s =>
    if s.input.length < OP_REPLY_SIZE then some s
    else do
      let ptr := bytesPtr (s.input.take OP_REPLY_SIZE)
      let opReply ← s.cells ptr
      consumeReplies evbufferNew fuel { s with
        cells := Function.update s.cells ptr none
        input := s.input.drop OP_REPLY_SIZE
        sent := s.sent ++ [(opReply, consumed (evbufferNew opReply) opReply)] }

/-- `consumer_cb`: there are no more pointers than bytes. -/
def consumerCb (evbufferNew : BareOpReply → Bool) (s : ReplyPipe n) : Option (ReplyPipe n) :=
  consumeReplies evbufferNew s.input.length s

/-! ## Steps -/

/-- A thread allocates a reply (`malloc` gives any free pointer), finds the output short enough or waits, and writes the
pointer, or waits again when the write fails; the pair moves any number of bytes. -/
inductive PipeStep (n : Nat) where
  | allocate (thread : Fin n) (ptr : UInt64) (opReply : BareOpReply)
  | check (thread : Fin n)
  | write (thread : Fin n) (ok : Bool)
  | move (bytes : Nat)
  | consume (evbufferNew : BareOpReply → Bool)

def PipeStep.legal (s : ReplyPipe n) : PipeStep n → Prop
  | .allocate thread ptr _ => s.senders thread = none ∧ s.cells ptr = none
  | .check thread => (s.senders thread).map Prod.snd = some false
  | .write thread _ => (s.senders thread).map Prod.snd = some true
  | .move bytes => bytes ≤ s.output.length
  | .consume _ => True

instance (s : ReplyPipe n) : ∀ i : PipeStep n, Decidable (i.legal s)
  | .allocate _ _ _ => inferInstanceAs (Decidable (_ ∧ _))
  | .check _ | .write _ _ => inferInstanceAs (Decidable (_ = _))
  | .move _ => inferInstanceAs (Decidable (_ ≤ _))
  | .consume _ => inferInstanceAs (Decidable True)

def pipeStep (maxQueuedReplies : Nat) (s : ReplyPipe n) : PipeStep n → Option (ReplyPipe n)
  | .allocate thread ptr opReply => some { s with
      cells := Function.update s.cells ptr (some opReply)
      senders := Function.update s.senders thread (some (ptr, false)) }
  | .check thread => do
    let (ptr, _) ← s.senders thread
    if s.output.length ≥ maxQueuedReplies * OP_REPLY_SIZE then some s
    else some { s with senders := Function.update s.senders thread (some (ptr, true)) }
  | .write thread ok => do
    let (ptr, _) ← s.senders thread
    let opReply ← s.cells ptr
    if ok then
      some { s with
        senders := Function.update s.senders thread none
        output := s.output ++ ptrBytes ptr
        written := s.written ++ [opReply] }
    else some { s with senders := Function.update s.senders thread (some (ptr, false)) }
  | .move bytes => some { s with input := s.input ++ s.output.take bytes, output := s.output.drop bytes }
  | .consume evbufferNew => consumerCb evbufferNew s

def pipeSystem (n maxQueuedReplies : Nat) : System (ReplyPipe n) (PipeStep n) where
  init := ⟨fun _ => none, fun _ => none, [], [], [], []⟩
  legal := PipeStep.legal
  step := pipeStep maxQueuedReplies

instance {maxQueuedReplies : Nat} (s : ReplyPipe n) (i : PipeStep n) :
    Decidable ((pipeSystem n maxQueuedReplies).legal s i) := inferInstanceAs (Decidable (i.legal s))

/-! ## What is on its way -/

/-- **The pipe with the pointers that are in it**: they are those of replies in memory, apart from those of the senders,
and no other reply is in memory; the replies of the pointers are those that were written and not yet sent. -/
structure InPipe (s : ReplyPipe n) (pending : List UInt64) : Prop where
  bytes : s.input ++ s.output = pending.flatMap ptrBytes
  nodup : pending.Nodup
  live : ∀ ptr, (s.cells ptr).isSome = true ↔ ptr ∈ pending ∨ ∃ thread checked, s.senders thread = some (ptr, checked)
  apart : ∀ {thread ptr checked}, s.senders thread = some (ptr, checked) → ptr ∉ pending
  alone : ∀ {thread thread' ptr checked checked'}, s.senders thread = some (ptr, checked) →
    s.senders thread' = some (ptr, checked') → thread = thread'
  written : s.written.map some = s.sent.map (fun p => some p.1) ++ pending.map s.cells
  answered : ∀ p ∈ s.sent, ∃ evbufferNew, p.2 = consumed evbufferNew p.1

theorem inPipe_init (maxQueuedReplies : Nat) : InPipe (pipeSystem n maxQueuedReplies).init [] where
  bytes := rfl
  nodup := .nil
  live ptr := by simp [pipeSystem]
  apart h := by cases h
  alone h := by cases h
  written := rfl
  answered p hp := by cases hp

namespace InPipe

variable {s s' : ReplyPipe n} {pending : List UInt64} {thread : Fin n} {ptr : UInt64} {checked : Bool}

/-- A free pointer is nowhere. -/
theorem free (h : InPipe s pending) (hptr : s.cells ptr = none) :
    ptr ∉ pending ∧ ∀ thread checked, s.senders thread ≠ some (ptr, checked) := by
  have hno := not_or.1 ((h.live ptr).not.1 (by rw [hptr]; exact Bool.false_ne_true))
  exact ⟨hno.1, fun thread checked heq => hno.2 ⟨thread, checked, heq⟩⟩

/-- The other cells of the pipe stay as they are. -/
theorem map_update (cells : UInt64 → Option BareOpReply) {o : Option BareOpReply} (hptr : ptr ∉ pending) :
    pending.map (Function.update cells ptr o) = pending.map cells :=
  List.map_congr_left (fun _ hp => Function.update_of_ne (ne_of_mem_of_not_mem hp hptr) _ _)

theorem allocate (h : InPipe s pending) (hthread : s.senders thread = none) (hptr : s.cells ptr = none)
    (opReply : BareOpReply) : InPipe { s with
      cells := Function.update s.cells ptr (some opReply)
      senders := Function.update s.senders thread (some (ptr, false)) } pending := by
  obtain ⟨hpending, hsenders⟩ := h.free hptr
  have hcase : ∀ {t p c}, Function.update s.senders thread (some (ptr, false)) t = some (p, c) →
      t = thread ∧ p = ptr ∨ t ≠ thread ∧ s.senders t = some (p, c) := fun {t p c} ht => by
    rw [Function.update_apply] at ht
    split at ht
    · rename_i heq
      exact .inl ⟨heq, (Prod.ext_iff.1 (Option.some.inj ht)).1.symm⟩
    · rename_i hne
      exact .inr ⟨hne, ht⟩
  refine ⟨h.bytes, h.nodup, fun p => ?_, fun {t p c} ht => ?_, fun {t t' p c c'} ht ht' => ?_, ?_, h.answered⟩
  · dsimp only
    rw [Function.update_apply]
    by_cases hp : p = ptr
    · rw [if_pos hp]
      exact ⟨fun _ => .inr ⟨thread, false, hp ▸ Function.update_self ..⟩, fun _ => rfl⟩
    · rw [if_neg hp, h.live]
      refine or_congr_right ⟨fun ⟨t, c, ht⟩ => ⟨t, c, ?_⟩, fun ⟨t, c, ht⟩ => ⟨t, c, ?_⟩⟩
      · rwa [Function.update_of_ne (fun heq => by rw [heq, hthread] at ht; cases ht)]
      · exact (hcase ht).elim (fun heq => absurd heq.2 hp) And.right
  · rcases hcase ht with ⟨-, rfl⟩ | ⟨-, ht⟩
    · exact hpending
    · exact h.apart ht
  · rcases hcase ht with ⟨rfl, rfl⟩ | ⟨-, hs⟩ <;> rcases hcase ht' with ⟨rfl, hp⟩ | ⟨-, hs'⟩
    · rfl
    · exact absurd hs' (hsenders _ _)
    · exact absurd (hp ▸ hs) (hsenders _ _)
    · exact h.alone hs hs'
  · rw [h.written, map_update s.cells hpending]

/-- A sender gets further, or back. -/
theorem mark (h : InPipe s pending) (hthread : s.senders thread = some (ptr, checked)) (checked' : Bool) :
    InPipe { s with senders := Function.update s.senders thread (some (ptr, checked')) } pending := by
  have hcase : ∀ {t p c}, Function.update s.senders thread (some (ptr, checked')) t = some (p, c) →
      ∃ c, s.senders t = some (p, c) := fun {t p c} ht => by
    rw [Function.update_apply] at ht
    split at ht
    · rename_i heq
      obtain ⟨rfl, -⟩ := Prod.mk.inj (Option.some.inj ht)
      exact ⟨checked, heq ▸ hthread⟩
    · exact ⟨c, ht⟩
  refine ⟨h.bytes, h.nodup, fun p => ?_, fun {t p c} ht => ?_, fun {t t' p c c'} ht ht' => ?_, h.written, h.answered⟩
  · rw [h.live]
    refine or_congr_right ⟨fun ⟨t, c, ht⟩ => ?_, fun ⟨t, c, ht⟩ => ⟨t, hcase ht⟩⟩
    by_cases heq : t = thread
    · subst heq
      obtain ⟨rfl, -⟩ := Prod.mk.inj (Option.some.inj (hthread.symm.trans ht))
      exact ⟨t, checked', Function.update_self ..⟩
    · exact ⟨t, c, (Function.update_of_ne heq ..).trans ht⟩
  · obtain ⟨c, ht⟩ := hcase ht
    exact h.apart ht
  · obtain ⟨c, ht⟩ := hcase ht
    obtain ⟨c', ht'⟩ := hcase ht'
    exact h.alone ht ht'

/-- **A pointer is written.** -/
theorem write (h : InPipe s pending) (hthread : s.senders thread = some (ptr, checked)) :
    ∃ opReply, s.cells ptr = some opReply ∧ InPipe { s with
      senders := Function.update s.senders thread none
      output := s.output ++ ptrBytes ptr
      written := s.written ++ [opReply] } (pending ++ [ptr]) := by
  obtain ⟨opReply, hcell⟩ := Option.isSome_iff_exists.1 ((h.live ptr).2 (.inr ⟨thread, checked, hthread⟩))
  have hcase : ∀ {t p c}, Function.update s.senders thread none t = some (p, c) →
      t ≠ thread ∧ s.senders t = some (p, c) := fun {t p c} ht => by
    rw [Function.update_apply] at ht
    split at ht
    · cases ht
    · rename_i hne
      exact ⟨hne, ht⟩
  refine ⟨opReply, hcell, ?_, ?_, fun p => ?_, fun {t p c} ht => ?_, fun {t t' p c c'} ht ht' => ?_, ?_, h.answered⟩
  · rw [← List.append_assoc, h.bytes, List.flatMap_append, List.flatMap_singleton]
  · rw [← List.concat_eq_append]
    exact h.nodup.concat (h.apart hthread)
  · rw [h.live, List.mem_append, List.mem_singleton, or_assoc]
    refine or_congr_right ⟨fun ⟨t, c, ht⟩ => ?_, fun hor => ?_⟩
    · by_cases heq : t = thread
      · subst heq
        rw [hthread, Option.some.injEq] at ht
        exact .inl (Prod.mk.inj ht).1.symm
      · exact .inr ⟨t, c, (Function.update_of_ne heq ..).trans ht⟩
    · rcases hor with rfl | ⟨t, c, ht⟩
      · exact ⟨thread, checked, hthread⟩
      · exact ⟨t, c, (hcase ht).2⟩
  · obtain ⟨hne, ht⟩ := hcase ht
    rw [List.mem_append, List.mem_singleton, not_or]
    exact ⟨h.apart ht, fun heq => hne (h.alone ht (heq ▸ hthread))⟩
  · exact h.alone (hcase ht).2 (hcase ht').2
  · rw [List.map_append, h.written, List.map_append, List.append_assoc, List.map_singleton, List.map_singleton, hcell]

theorem move (h : InPipe s pending) (bytes : Nat) :
    InPipe { s with input := s.input ++ s.output.take bytes, output := s.output.drop bytes } pending := by
  refine ⟨?_, h.nodup, h.live, h.apart, h.alone, h.written, h.answered⟩
  rw [List.append_assoc, List.take_append_drop, h.bytes]

/-- **A pointer is read**, when all of it has arrived: it is the one of a reply in memory, which is freed. -/
theorem read (h : InPipe s pending) (hlen : OP_REPLY_SIZE ≤ s.input.length) (evbufferNew : BareOpReply → Bool) :
    ∃ opReply pending', pending = bytesPtr (s.input.take OP_REPLY_SIZE) :: pending' ∧
      s.cells (bytesPtr (s.input.take OP_REPLY_SIZE)) = some opReply ∧ InPipe { s with
      cells := Function.update s.cells (bytesPtr (s.input.take OP_REPLY_SIZE)) none
      input := s.input.drop OP_REPLY_SIZE
      sent := s.sent ++ [(opReply, consumed (evbufferNew opReply) opReply)] } pending' := by
  obtain ⟨ptr, pending', rfl, htake, hdrop⟩ := Lib.record_of_stream length_ptrBytes (by decide) h.bytes hlen
  rw [htake, bytesPtr_ptrBytes]
  obtain ⟨hptr, hnodup⟩ := List.nodup_cons.1 h.nodup
  obtain ⟨opReply, hcell⟩ := Option.isSome_iff_exists.1 ((h.live ptr).2 (.inl List.mem_cons_self))
  refine ⟨opReply, pending', rfl, hcell, hdrop, hnodup, fun p => ?_,
    fun ht hin => h.apart ht (List.mem_cons_of_mem _ hin), h.alone, ?_, fun p hp => ?_⟩
  · dsimp only
    rw [Function.update_apply]
    by_cases hp : p = ptr
    · subst hp
      rw [if_pos rfl]
      refine ⟨fun hno => absurd hno Bool.false_ne_true, fun hor => ?_⟩
      rcases hor with hin | ⟨t, c, ht⟩
      · exact absurd hin hptr
      · exact absurd List.mem_cons_self (h.apart ht)
    · rw [if_neg hp, h.live, List.mem_cons, or_assoc]
      exact or_iff_right hp
  · rw [h.written, map_update s.cells hptr, List.map_cons, hcell, List.map_append, List.map_singleton,
      List.append_assoc,
      List.singleton_append]
  · rcases List.mem_append.1 hp with hp | hp
    · exact h.answered p hp
    · rw [List.mem_singleton.1 hp]
      exact ⟨_, rfl⟩

/-- **The consumer** reads every pointer that has arrived. -/
theorem consumed (evbufferNew : BareOpReply → Bool) : ∀ (fuel : Nat) {s : ReplyPipe n} {pending : List UInt64},
    InPipe s pending → s.input.length ≤ fuel → ∃ s' pending', consumeReplies evbufferNew fuel s = some s' ∧
      InPipe s' pending' ∧ s'.input.length < OP_REPLY_SIZE ∧ s'.senders = s.senders ∧ s'.output = s.output ∧
      s'.written = s.written ∧ ∀ ptr, ptr ∉ pending → s'.cells ptr = s.cells ptr
  | 0, s, pending, h, hfuel => ⟨s, pending, rfl, h, lt_of_le_of_lt hfuel (by decide), rfl, rfl, rfl, fun _ _ => rfl⟩
  | fuel + 1, s, pending, h, hfuel => by
    rw [consumeReplies]
    by_cases hlen : s.input.length < OP_REPLY_SIZE
    · rw [if_pos hlen]
      exact ⟨s, pending, rfl, h, hlen, rfl, rfl, rfl, fun _ _ => rfl⟩
    · obtain ⟨opReply, pending', hpending, hcell, h'⟩ := h.read (Nat.not_lt.1 hlen) evbufferNew
      have hshort : (s.input.drop OP_REPLY_SIZE).length ≤ fuel := by
        have hpos : 0 < OP_REPLY_SIZE := by decide
        rw [List.length_drop]
        omega
      obtain ⟨s', pending'', hrest, h'', hend, hsenders, houtput, hwritten, hcells⟩ :=
        consumed evbufferNew fuel h' hshort
      refine ⟨s', pending'', ?_, h'', hend, hsenders, houtput, hwritten, fun ptr hptr => ?_⟩
      · simp only [if_neg hlen, hcell, Option.bind_eq_bind, Option.bind_some]
        exact hrest
      · rw [hpending, List.mem_cons, not_or] at hptr
        exact (hcells ptr hptr.2).trans (Function.update_of_ne hptr.1 ..)

/-- **A step keeps the pipe in order.** -/
theorem step {maxQueuedReplies : Nat} (h : InPipe s pending) {i : PipeStep n} (hlegal : i.legal s)
    (hs : pipeStep maxQueuedReplies s i = some s') : ∃ pending', InPipe s' pending' := by
  cases i with
  | allocate thread ptr opReply =>
    cases hs
    exact ⟨_, h.allocate hlegal.1 hlegal.2 opReply⟩
  | check thread =>
    obtain ⟨⟨ptr, checked⟩, hthread, -⟩ := Option.map_eq_some_iff.1 hlegal
    simp only [pipeStep, hthread, Option.bind_eq_bind, Option.bind_some] at hs
    split at hs
    · exact ⟨_, Option.some.inj hs ▸ h⟩
    · exact ⟨_, Option.some.inj hs ▸ h.mark hthread true⟩
  | write thread ok =>
    obtain ⟨⟨ptr, checked⟩, hthread, -⟩ := Option.map_eq_some_iff.1 hlegal
    obtain ⟨opReply, hcell, h'⟩ := h.write hthread
    simp only [pipeStep, hthread, hcell, Option.bind_eq_bind, Option.bind_some] at hs
    split at hs
    · exact ⟨_, Option.some.inj hs ▸ h'⟩
    · exact ⟨_, Option.some.inj hs ▸ h.mark hthread false⟩
  | move bytes =>
    cases hs
    exact ⟨_, h.move bytes⟩
  | consume evbufferNew =>
    obtain ⟨s₁, pending', hconsume, h', -⟩ := consumed evbufferNew _ h le_rfl
    exact ⟨pending', Option.some.inj (hconsume.symm.trans hs) ▸ h'⟩

end InPipe

theorem exists_inPipe {maxQueuedReplies : Nat} {s : ReplyPipe n} (hr : (pipeSystem n maxQueuedReplies).Reachable s) :
    ∃ pending, InPipe s pending := by
  refine hr.inv (fun s => ∃ pending, InPipe s pending) ⟨[], inPipe_init maxQueuedReplies⟩ ?_
  rintro s i s' ⟨pending, h⟩ hlegal hs
  exact h.step hlegal hs

/-! ## The replies of the senders -/

/-- The reply that a thread sends. -/
def heldBy (s : ReplyPipe n) (thread : Fin n) : Option BareOpReply := (s.senders thread).bind (fun p => s.cells p.1)

def held (s : ReplyPipe n) : List BareOpReply := (List.finRange n).filterMap (heldBy s)

/-- One more thread has something. -/
theorem filterMap_perm_cons {α β : Type} {f g : α → Option β} {a : α} {b : β} : ∀ {l : List α}, l.Nodup → a ∈ l →
    f a = some b → g a = none → (∀ x ∈ l, x ≠ a → f x = g x) → (l.filterMap f).Perm (b :: l.filterMap g) := by
  intro l hnodup ha hf hg hsame
  obtain ⟨pre, post, rfl⟩ := List.append_of_mem ha
  have hnot : a ∉ pre ∧ a ∉ post := by
    rw [List.nodup_append, List.nodup_cons] at hnodup
    exact ⟨fun hin => hnodup.2.2 a hin a List.mem_cons_self rfl, hnodup.2.1.1⟩
  have hpre : pre.filterMap f = pre.filterMap g := List.filterMap_congr (fun x hx =>
    hsame x (List.mem_append_left _ hx) (ne_of_mem_of_not_mem hx hnot.1))
  have hpost : post.filterMap f = post.filterMap g := List.filterMap_congr (fun x hx =>
    hsame x (List.mem_append_right _ (List.mem_cons_of_mem _ hx)) (ne_of_mem_of_not_mem hx hnot.2))
  rw [List.filterMap_append, List.filterMap_cons, hf, List.filterMap_append, List.filterMap_cons, hg, hpre, hpost]
  exact List.perm_middle

theorem held_congr {s s' : ReplyPipe n} (h : ∀ thread, heldBy s' thread = heldBy s thread) : held s' = held s :=
  List.filterMap_congr (fun thread _ => h thread)

theorem held_eq_nil {s : ReplyPipe n} (h : ∀ thread, s.senders thread = none) : held s = [] :=
  List.filterMap_eq_nil_iff.2 (fun thread _ => by rw [heldBy, h, Option.bind_none])

def PipeStep.allocated : PipeStep n → List BareOpReply
  | .allocate _ _ opReply => [opReply]
  | .check _ | .write _ _ | .move _ | .consume _ => []

/-- **No reply is lost or doubled before it is written.** -/
theorem InPipe.held_step {maxQueuedReplies : Nat} {s s' : ReplyPipe n} {pending : List UInt64} (h : InPipe s pending)
    {i : PipeStep n} (hlegal : i.legal s) (hs : pipeStep maxQueuedReplies s i = some s') :
    (s'.written ++ held s').Perm (i.allocated ++ (s.written ++ held s)) := by
  have hmarked : ∀ {thread ptr checked} (checked' : Bool), s.senders thread = some (ptr, checked) →
      held { s with senders := Function.update s.senders thread (some (ptr, checked')) } = held s := by
    intro thread ptr checked checked' hthread
    refine held_congr (fun t => ?_)
    unfold heldBy
    dsimp only
    by_cases heq : t = thread
    · rw [heq, Function.update_self, hthread, Option.bind_some, Option.bind_some]
    · rw [Function.update_of_ne heq]
  cases i with
  | allocate thread ptr opReply =>
    cases hs
    obtain ⟨-, hsenders⟩ := h.free hlegal.2
    refine (List.Perm.append_left _ (filterMap_perm_cons (List.nodup_finRange n) (List.mem_finRange thread) ?_ ?_
      (fun t _ hne => ?_))).trans List.perm_middle
    · simp [heldBy]
    · rw [heldBy, hlegal.1, Option.bind_none]
    · rw [heldBy, heldBy]
      dsimp only
      rw [Function.update_of_ne hne]
      refine Option.bind_congr (fun p hp => Function.update_of_ne (fun heq => ?_) _ _)
      exact hsenders t p.2 (heq ▸ hp)
  | check thread =>
    obtain ⟨⟨ptr, checked⟩, hthread, -⟩ := Option.map_eq_some_iff.1 hlegal
    simp only [pipeStep, hthread, Option.bind_eq_bind, Option.bind_some] at hs
    split at hs
    · exact Option.some.inj hs ▸ .refl _
    · rw [← Option.some.inj hs, hmarked true hthread]
      exact .refl _
  | write thread ok =>
    obtain ⟨⟨ptr, checked⟩, hthread, -⟩ := Option.map_eq_some_iff.1 hlegal
    obtain ⟨opReply, hcell, -⟩ := h.write hthread
    simp only [pipeStep, hthread, hcell, Option.bind_eq_bind, Option.bind_some] at hs
    split at hs
    · rw [← Option.some.inj hs, PipeStep.allocated, List.nil_append, List.append_assoc, List.singleton_append]
      refine List.Perm.append_left _ (filterMap_perm_cons (List.nodup_finRange n) (List.mem_finRange thread) ?_ ?_
        (fun t _ hne => ?_)).symm
      · rw [heldBy, hthread, Option.bind_some, hcell]
      · simp [heldBy]
      · rw [heldBy, heldBy]
        dsimp only
        rw [Function.update_of_ne hne]
    · rw [← Option.some.inj hs, hmarked false hthread]
      exact .refl _
  | move bytes =>
    cases hs
    exact .refl _
  | consume evbufferNew =>
    obtain ⟨s₁, -, hconsume, -, -, hsenders, -, hwritten, hcells⟩ := h.consumed evbufferNew _ le_rfl
    obtain rfl := Option.some.inj (hconsume.symm.trans hs)
    have hheld : held s₁ = held s := held_congr (fun thread => by
      rw [heldBy, heldBy, hsenders]
      exact Option.bind_congr (fun p hp => hcells _ (h.apart hp)))
    rw [hwritten, hheld]
    exact .refl _

/-! ## The length of the output -/

/-- The threads that will write, having found the output short enough. -/
def writers (s : ReplyPipe n) : Finset (Fin n) := Finset.univ.filter (fun thread => (s.senders thread).any Prod.snd)

/-- **What is in the output and what may come at once.** -/
def OutputBounded (maxQueuedReplies : Nat) (s : ReplyPipe n) : Prop :=
  s.output.length + OP_REPLY_SIZE * (writers s).card ≤ OP_REPLY_SIZE * (maxQueuedReplies + n)

theorem mem_writers {s : ReplyPipe n} {thread : Fin n} :
    thread ∈ writers s ↔ (s.senders thread).any Prod.snd = true := by simp [writers]

theorem card_writers_le (s : ReplyPipe n) : (writers s).card ≤ n :=
  (Finset.card_le_univ _).trans_eq (Fintype.card_fin n)

/-- A sender that is not about to write, or no longer, adds nothing. -/
theorem writers_subset {s s' : ReplyPipe n} {thread : Fin n} {o : Option (UInt64 × Bool)}
    (hs : s'.senders = Function.update s.senders thread o) (ho : o.any Prod.snd = false) :
    writers s' ⊆ (writers s).erase thread := by
  intro t ht
  rw [mem_writers, hs, Function.update_apply] at ht
  split at ht
  · rw [ho] at ht
    cases ht
  · rename_i hne
    exact Finset.mem_erase.2 ⟨hne, mem_writers.2 ht⟩

theorem OutputBounded.step {maxQueuedReplies : Nat} {s s' : ReplyPipe n} (h : OutputBounded maxQueuedReplies s)
    {i : PipeStep n} (hlegal : i.legal s) (hs : pipeStep maxQueuedReplies s i = some s') {pending : List UInt64}
    (hpipe : InPipe s pending) : OutputBounded maxQueuedReplies s' := by
  unfold OutputBounded at h ⊢
  have hfewer : ∀ {s' : ReplyPipe n} {thread o}, s'.senders = Function.update s.senders thread o →
      o.any Prod.snd = false → (writers s').card ≤ (writers s).card := fun hs ho =>
    Finset.card_le_card ((writers_subset hs ho).trans (Finset.erase_subset _ _))
  cases i with
  | allocate thread ptr opReply =>
    cases hs
    exact (Nat.add_le_add_left (Nat.mul_le_mul_left _ (hfewer rfl rfl)) _).trans h
  | check thread =>
    obtain ⟨⟨ptr, checked⟩, hthread, -⟩ := Option.map_eq_some_iff.1 hlegal
    simp only [pipeStep, hthread, Option.bind_eq_bind, Option.bind_some] at hs
    split at hs
    · exact Option.some.inj hs ▸ h
    · rename_i hshort
      -- whoever else is about to write
      have hcard := card_writers_le s'
      have houtput : s'.output.length ≤ maxQueuedReplies * OP_REPLY_SIZE := by
        rw [← Option.some.inj hs]
        exact (Nat.lt_of_not_ge hshort).le
      calc s'.output.length + OP_REPLY_SIZE * (writers s').card
          ≤ maxQueuedReplies * OP_REPLY_SIZE + OP_REPLY_SIZE * n :=
            Nat.add_le_add houtput (Nat.mul_le_mul_left _ hcard)
        _ = OP_REPLY_SIZE * (maxQueuedReplies + n) := by rw [Nat.mul_comm, ← Nat.mul_add]
  | write thread ok =>
    obtain ⟨⟨ptr, checked⟩, hthread, hchecked⟩ := Option.map_eq_some_iff.1 hlegal
    obtain ⟨opReply, hcell, -⟩ := hpipe.write hthread
    simp only [pipeStep, hthread, hcell, Option.bind_eq_bind, Option.bind_some] at hs
    split at hs
    · have hwriter : thread ∈ writers s := mem_writers.2 (by rw [hthread]; exact hchecked)
      have hcard : (writers s').card + 1 ≤ (writers s).card := by
        rw [← Finset.card_erase_add_one hwriter]
        refine Nat.succ_le_succ (Finset.card_le_card (writers_subset (o := none) ?_ rfl))
        rw [← Option.some.inj hs]
      have houtput : s'.output.length = s.output.length + OP_REPLY_SIZE := by
        rw [← Option.some.inj hs, List.length_append, length_ptrBytes]
      calc s'.output.length + OP_REPLY_SIZE * (writers s').card
          = s.output.length + OP_REPLY_SIZE * ((writers s').card + 1) := by rw [houtput, Nat.mul_succ]; omega
        _ ≤ s.output.length + OP_REPLY_SIZE * (writers s).card := Nat.add_le_add_left (Nat.mul_le_mul_left _ hcard) _
        _ ≤ OP_REPLY_SIZE * (maxQueuedReplies + n) := h
    · rw [← Option.some.inj hs]
      exact (Nat.add_le_add_left (Nat.mul_le_mul_left _ (hfewer rfl rfl)) _).trans h
  | move bytes =>
    cases hs
    exact (Nat.add_le_add_right (List.drop_sublist ..).length_le _).trans h
  | consume evbufferNew =>
    obtain ⟨s₁, -, hconsume, -, -, hsenders, houtput, -, -⟩ := hpipe.consumed evbufferNew _ le_rfl
    obtain rfl := Option.some.inj (hconsume.symm.trans hs)
    rw [houtput, show writers s₁ = writers s by unfold writers; rw [hsenders]]
    exact h

theorem outputBounded {maxQueuedReplies : Nat} {s : ReplyPipe n} (hr : (pipeSystem n maxQueuedReplies).Reachable s) :
    OutputBounded maxQueuedReplies s := by
  refine (hr.inv (fun s => (∃ pending, InPipe s pending) ∧ OutputBounded maxQueuedReplies s)
    ⟨⟨[], inPipe_init maxQueuedReplies⟩, ?_⟩ ?_).2
  · simp [OutputBounded, pipeSystem, writers]
  · rintro s i s' ⟨⟨pending, h⟩, hbound⟩ hlegal hs
    exact ⟨h.step hlegal hs, hbound.step hlegal hs h⟩

/-! ## What the clients are sent -/

/-- One status for a reply, in any case. -/
theorem consumed_length (evbufferNew : Bool) (opReply : BareOpReply) : (consumed evbufferNew opReply).length = 1 := by
  unfold consumed
  cases opReply.type <;> cases evbufferNew <;> rfl

/-- A thread has the pointer of the reply that it sends. -/
def Sends (s : ReplyPipe n) (thread : Fin n) (ptr : UInt64) : Prop :=
  ∃ checked, s.senders thread = some (ptr, checked)

/-- **Every reply is delivered once, in its order.**  In every state that any number of threads, any cuts of the stream
and any calls of the consumer lead to: the consumer never reads a pointer that is none of a reply; the replies that were
sent, each with one status, are the first ones that were written; the others are in the pipe, each whole; no other reply
is in memory but those of the senders, each of which has its own; and the output is at most as long as the limit and the
number of threads allow. -/
theorem replies_delivered {maxQueuedReplies : Nat} {s : ReplyPipe n}
    (hr : (pipeSystem n maxQueuedReplies).Reachable s) :
    (∀ evbufferNew, ∃ s', consumerCb evbufferNew s = some s') ∧
    (∃ pending : List UInt64, pending.Nodup ∧ s.input.length + s.output.length = OP_REPLY_SIZE * pending.length ∧
      s.written.map some = s.sent.map (fun p => some p.1) ++ pending.map s.cells ∧
      (∀ ptr, (s.cells ptr).isSome = true ↔ ptr ∈ pending ∨ ∃ thread, Sends s thread ptr) ∧
      ∀ thread ptr, Sends s thread ptr → ptr ∉ pending ∧ ∀ thread', Sends s thread' ptr → thread' = thread) ∧
    (∀ p ∈ s.sent, p.2.length = 1 ∧ ∃ evbufferNew, p.2 = consumed evbufferNew p.1) ∧
    s.output.length ≤ OP_REPLY_SIZE * (maxQueuedReplies + n) := by
  obtain ⟨pending, h⟩ := exists_inPipe hr
  refine ⟨fun evbufferNew => ?_, ⟨pending, h.nodup, ?_, h.written, h.live, fun thread ptr hsends => ?_⟩,
    fun p hp => ?_, ?_⟩
  · obtain ⟨s', -, hconsume, -⟩ := h.consumed evbufferNew _ le_rfl
    exact ⟨s', hconsume⟩
  · rw [← Lib.length_records length_ptrBytes, ← h.bytes, List.length_append]
  · obtain ⟨checked, hthread⟩ := hsends
    exact ⟨h.apart hthread, fun thread' ⟨checked', hthread'⟩ => h.alone hthread' hthread⟩
  · obtain ⟨evbufferNew, hstatuses⟩ := h.answered p hp
    exact ⟨hstatuses ▸ consumed_length evbufferNew p.1, evbufferNew, hstatuses⟩
  · exact le_trans (Nat.le_add_right _ _) (outputBounded hr)

/-- A thread sends a reply, whose pointer arrives in two parts. -/
def twoParts (opReply : BareOpReply) : List (PipeStep 1) :=
  [.allocate 0 4096 opReply, .check 0, .write 0 true, .move 3, .consume (fun _ => true), .move 5,
    .consume (fun _ => true)]

theorem exists_twoParts_run : ∃ h s, (pipeSystem 1 10).Run h s ∧
    s.sent = [(⟨.recordsGet, 7, 1⟩, [HTTP_OK])] ∧ s.written = [⟨.recordsGet, 7, 1⟩] := by
  have hrun : ((pipeSystem 1 10).exec (twoParts ⟨.recordsGet, 7, 1⟩) (pipeSystem 1 10).init).any (fun s =>
      s.sent = [(⟨.recordsGet, 7, 1⟩, [HTTP_OK])] ∧ s.written = [⟨.recordsGet, 7, 1⟩]) = true := by decide +kernel
  obtain ⟨s, hs, hsent⟩ := (Option.any_eq_true _ _).1 hrun
  obtain ⟨h, hr, -⟩ := System.Run.of_exec _ System.Run.init hs
  obtain ⟨hsent, hwritten⟩ := of_decide_eq_true hsent
  exact ⟨h, s, hr, hsent, hwritten⟩

theorem replies_delivered_once : ∃ s, (pipeSystem 1 10).Reachable s ∧ s.sent = [(⟨.recordsGet, 7, 1⟩, [HTTP_OK])] ∧
    (∀ evbufferNew, ∃ s', consumerCb evbufferNew s = some s') ∧ s.output.length ≤ OP_REPLY_SIZE * 11 := by
  obtain ⟨h, s, hr, hsent, -⟩ := exists_twoParts_run
  obtain ⟨hconsumer, -, -, hlength⟩ := replies_delivered ⟨h, hr⟩
  exact ⟨s, ⟨h, hr⟩, hsent, hconsumer, hlength⟩

/-- **Nothing stays in the pipe**: when the pair has moved all bytes and the consumer was called, every reply that was
written has been sent, and the only replies in memory are those of the senders. -/
theorem replies_drain {maxQueuedReplies : Nat} {s : ReplyPipe n} (hr : (pipeSystem n maxQueuedReplies).Reachable s)
    (evbufferNew : BareOpReply → Bool) : ∃ s₁ s', pipeStep maxQueuedReplies s (.move s.output.length) = some s₁ ∧
      pipeStep maxQueuedReplies s₁ (.consume evbufferNew) = some s' ∧ s'.input = [] ∧ s'.output = [] ∧
      s'.written = s.written ∧ s'.sent.map Prod.fst = s.written ∧
      ∀ ptr, (s'.cells ptr).isSome = true ↔ ∃ thread, Sends s thread ptr := by
  obtain ⟨pending, h⟩ := exists_inPipe hr
  obtain ⟨s', pending', hconsume, h', hlen, hsenders, houtput, hwritten, -⟩ :=
    (h.move s.output.length).consumed evbufferNew _ le_rfl
  rw [List.drop_length] at houtput
  have hbytes := h'.bytes
  rw [houtput, List.append_nil] at hbytes
  obtain rfl := Lib.no_records length_ptrBytes hbytes hlen
  refine ⟨_, s', rfl, hconsume, hbytes, houtput, hwritten, ?_, fun ptr => ?_⟩
  · have hall := h'.written
    rw [List.map_nil, List.append_nil, hwritten] at hall
    refine (List.map_injective_iff.2 (Option.some_injective _) ?_).symm
    rw [hall, List.map_map]
    rfl
  · rw [h'.live, hsenders]
    exact or_iff_right List.not_mem_nil

theorem replies_drain_once : ∃ s s₁ s', (pipeSystem 1 10).Reachable s ∧ s.written = [⟨.recordsGet, 7, 1⟩] ∧
    pipeStep 10 s (.move s.output.length) = some s₁ ∧ pipeStep 10 s₁ (.consume (fun _ => true)) = some s' ∧
    s'.sent.map Prod.fst = s.written := by
  obtain ⟨h, s, hr, -, hwritten⟩ := exists_twoParts_run
  obtain ⟨s₁, s', hmove, hconsume, -, -, -, hsent, -⟩ := replies_drain ⟨h, hr⟩ (fun _ => true)
  exact ⟨s, s₁, s', ⟨h, hr⟩, hwritten, hmove, hconsume, hsent⟩

end Pincaster
