import Pincaster.SlabRuns
import Pincaster.QueryCodec
import Pincaster.DomainRecords
import Pincaster.DomainSystem
/-!
# JournalRewrite — the child of a rewrite, and what the parent does with its file

Every operation of the child may fail, a write may also be short or interrupted.  What fails is kept in `anyFailed`,
which the program does not have: it drops most results.  The store is the slab of layers, a layer the list of its records
in the order of its tree.  `printDouble` is `%f`.
-/
namespace Pincaster

open Lib (Bytes bytes printNat)

variable {D : Type}

def TMP_LOG_BUFFER_SIZE : Nat := 65536

/-! ## Operations that may fail -/

/-- How an operation ends: it does all it was asked for, it writes `n + 1` bytes at most, `EINTR` or `EAGAIN`, any other
error. -/
inductive Outcome where
  | done
  | partly (n : Nat)
  | interrupted
  | failed
  deriving DecidableEq

/-- The child: how its operations will end, `done` behind the list, and what its file has. -/
structure Child where
  outcomes : List Outcome
  tmpLog : Bytes
  anyFailed : Bool

/-- An operation other than a write. -/
def Child.attempt (c : Child) : Bool × Child :=
  match c.outcomes with
  | [] => (true, c)
  | o :: outcomes => (o ≠ .failed, { c with outcomes, anyFailed := c.anyFailed || o = .failed })

inductive WriteResult where
  | written (n : Nat)
  | again
  | error

/-- `evbuffer_write`; it has nothing to write for an empty buffer and returns -1, with the `errno` there was. -/
def evbufferWrite (o : Outcome) (logBuffer : Bytes) : WriteResult :=
  match o with
  | .interrupted => .again
  | .failed => .error
  | .done => if logBuffer.length > 0 then .written logBuffer.length else .error
  | .partly n => if logBuffer.length > 0 then .written (min (n + 1) logBuffer.length) else .error

/-- The loop of `flush_log_buffer`; `to_write` is the length of the buffer all along. -/
def flushLogBufferLoop : List Outcome → Bytes → Child → Int × Bytes × Child
  | [], logBuffer, c =>
    match evbufferWrite .done logBuffer with
    | .error => (-1, logBuffer, { c with outcomes := [], anyFailed := true })
    | .again => (0, logBuffer, { c with outcomes := [] })
    | .written n => (0, logBuffer.drop n, { c with outcomes := [], tmpLog := c.tmpLog ++ logBuffer.take n })
  | o :: outcomes, logBuffer, c =>
    match evbufferWrite o logBuffer with
    | .error => (-1, logBuffer, { c with outcomes, anyFailed := true })
    | .again => if 0 < logBuffer.length then flushLogBufferLoop outcomes logBuffer c else (0, logBuffer, { c with outcomes })
    | .written n =>
      let c := { c with tmpLog := c.tmpLog ++ logBuffer.take n }
      let logBuffer := logBuffer.drop n
      if 0 < logBuffer.length then flushLogBufferLoop outcomes logBuffer c else (0, logBuffer, { c with outcomes })

def flushLogBuffer (logBuffer : Bytes) (c : Child) : Int × Bytes × Child := flushLogBufferLoop c.outcomes logBuffer c

/-! ## The dump -/

structure DumpedRecord (D : Type) where
  key : Bytes
  properties : List (Bytes × Bytes)
  position : Option (Position2D D)
  expiresAt : Option Int

structure DumpedLayer (D : Type) where
  name : Bytes
  records : List (DumpedRecord D)

/-- What the dump reads besides the store. -/
structure DumpContext (D : Type) where
  encodedApiBaseUri : Bytes
  now : Int
  printDouble : D → Bytes

variable (context : DumpContext D)

/-- `rebuild_journal_property_cb`: the result, the body with its `first`, and the child.  `encode` is what
`uri_encode_binval` leaves. -/
def rebuildJournalPropertyCbChild (key value : Bytes) (bodyBuffer : Bytes) (first : Bool) (c : Child) :
    Int × Bytes × Child :=
  let bodyBuffer := if first then bodyBuffer else bodyBuffer ++ bytes "&"
  let (encoded, c) := c.attempt
  if encoded then
    let bodyBuffer := bodyBuffer ++ encode key ++ bytes "="
    let (encoded, c) := c.attempt
    if encoded then (0, bodyBuffer ++ encode value, c) else (-1, bodyBuffer, c)
  else (-1, bodyBuffer, c)

/-- `slip_map_foreach` with it; its result says nothing. -/
def rebuildJournalPropertiesChild : List (Bytes × Bytes) → Bytes → Bool → Child → Bytes × Bool × Child
  | [], bodyBuffer, first, c => (bodyBuffer, first, c)
  | (key, value) :: properties, bodyBuffer, first, c =>
    let (ret, bodyBuffer, c) := rebuildJournalPropertyCbChild key value bodyBuffer first c
    if ret = 0 then rebuildJournalPropertiesChild properties bodyBuffer false c else (bodyBuffer, false, c)

/-- The rest of a body: the position and the expiration. -/
def rebuildJournalBody (record : DumpedRecord D) (bodyBuffer : Bytes) (first : Bool) : Bytes :=
  let (bodyBuffer, first) := match record.position with
    | none => (bodyBuffer, first)
    | some position => ((if first then bodyBuffer else bodyBuffer ++ bytes "&") ++ INT_PROPERTY_POSITION ++ bytes "=" ++
        context.printDouble position.latitude ++ bytes "," ++ context.printDouble position.longitude, false)
  match record.expiresAt with
  | none => bodyBuffer
  | some ts => (if first then bodyBuffer else bodyBuffer ++ bytes "&") ++ INT_PROPERTY_EXPIRES_AT ++ bytes "=" ++
      printNat 10 (ts % 2 ^ 64).toNat

def recordUri (encodedLayerName key : Bytes) : Bytes :=
  context.encodedApiBaseUri ++ bytes "records/" ++ encodedLayerName ++ bytes "/" ++ key ++ bytes ".json"

def layerUri (encodedLayerName : Bytes) : Bytes :=
  context.encodedApiBaseUri ++ bytes "layers/" ++ encodedLayerName ++ bytes ".json"

/-- `rebuild_journal_record_cb`: the result, the log buffer and the child. -/
def rebuildJournalRecordCb (encodedLayerName : Bytes) (record : DumpedRecord D) (logBuffer : Bytes) (c : Child) :
    Int × Bytes × Child :=
  let uri := recordUri context encodedLayerName record.key
  let logBuffer := logBuffer ++ DB_LOG_RECORD_COOKIE_HEAD ++
    (printNat 16 EVHTTP_REQ_PUT ++ bytes " " ++ printNat 16 uri.length ++ bytes ":" ++ uri ++ bytes " ")
  let (allocated, c) := c.attempt
  if allocated then
    let (bodyBuffer, first, c) := rebuildJournalPropertiesChild record.properties [] true c
    let bodyBuffer := rebuildJournalBody context record bodyBuffer first
    let logBuffer := logBuffer ++ (printNat 16 bodyBuffer.length ++ bytes ":") ++ bodyBuffer ++ DB_LOG_RECORD_COOKIE_TAIL
    if logBuffer.length > TMP_LOG_BUFFER_SIZE then
      let (_, logBuffer, c) := flushLogBuffer logBuffer c
      (0, logBuffer, c)
    else (0, logBuffer, c)
  else (-1, logBuffer, c)

/-- `key_nodes_foreach` with it. -/
def rebuildJournalRecords (encodedLayerName : Bytes) : List (DumpedRecord D) → Bytes → Child → Int × Bytes × Child
  | [], logBuffer, c => (0, logBuffer, c)
  | record :: records, logBuffer, c =>
    let (ret, logBuffer, c) := rebuildJournalRecordCb context encodedLayerName record logBuffer c
    if ret = 0 then rebuildJournalRecords encodedLayerName records logBuffer c else (ret, logBuffer, c)

/-- `rebuild_journal_layer_cb`; its context is the child with `ts_written`. -/
def rebuildJournalLayerCb (cbContext : Child × Bool) (_ : EntryPtr) (layer : DumpedLayer D) : Int × Child × Bool :=
  let (c, tsWritten) := cbContext
  let (allocated, c) := c.attempt
  if allocated then
    let logBuffer := if tsWritten then [] else addTsToEvLogBuffer [] context.now
    let (encoded, c) := c.attempt
    if encoded then
      let uri := layerUri context (encode layer.name)
      let logBuffer := logBuffer ++ logRecord EVHTTP_REQ_POST uri []
      let (ret, logBuffer, c) := rebuildJournalRecords context (encode layer.name) layer.records logBuffer c
      if ret ≠ 0 then (-1, c, true)
      else
        let (ret, _, c) := flushLogBuffer logBuffer c
        (ret, c, true)
    else (-1, c, true)
  else (-1, c, tsWritten)

/-- What the result of `slab_foreach` is does not matter. -/
def rebuildJournal (layersSlab : Slab (DumpedLayer D)) (c : Child) : Option Child :=
  (slabForeach (rebuildJournalLayerCb context) layersSlab (c, false)).map (fun r => r.2.1)

/-! ## The child and the parent -/

/-- What is left of a child: its exit status, the file under the temporary name, and whether an operation failed. -/
structure ChildExit where
  status : Int
  tmpFile : Option Bytes
  anyFailed : Bool

/-- `rewrite_child`, behind which stands `_exit(0)`; `tmpFile` is an older file of that name. -/
def rewriteChild (layersSlab : Slab (DumpedLayer D)) (outcomes : List Outcome) (tmpFile : Option Bytes) :
    Option ChildExit := do
  let (named, c) := (⟨outcomes, [], false⟩ : Child).attempt
  if named then
    let (opened, c) := c.attempt
    if opened then
      let c ← rebuildJournal context layersSlab c
      some ⟨0, some c.tmpLog, c.anyFailed⟩
    else some ⟨0, tmpFile, c.anyFailed⟩
  else some ⟨0, tmpFile, c.anyFailed⟩

/-- How the operations of the parent end; `written` is for the writes of `copy_data_between_fds`. -/
structure ParentOutcomes where
  named : Bool
  rewound : Bool
  opened : Bool
  written : Bool
  forwarded : Bool
  anySlaveInInitialDownload : Bool
  renamed : Bool

/-- `system_rewrite_after_fork_cb`: the file that replaces the journal.  `recent` is the journal from
`offset_before_fork` on; where the file cannot be opened it is unlinked, and the copy goes on with a descriptor of -1. -/
def systemRewriteAfterFork (parent : ParentOutcomes) (tmpFile : Option Bytes) (recent : Bytes) : Option Bytes :=
  if ¬ parent.named ∨ ¬ parent.rewound then none
  else
    let tmpFile := if parent.opened then tmpFile else none
    if 0 < recent.length ∧ (tmpFile = none ∨ ¬ parent.written) then none
    else if ¬ parent.forwarded ∨ parent.anySlaveInInitialDownload then none
    else if parent.renamed then tmpFile.map (· ++ recent)
    else none

/-- `sigchld_cb`. -/
def sigchldCb (parent : ParentOutcomes) (child : ChildExit) (recent : Bytes) : Option Bytes :=
  if child.status ≠ 0 then none else systemRewriteAfterFork parent child.tmpFile recent

end Pincaster
