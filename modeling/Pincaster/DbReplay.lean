import Pincaster.DbLog
import Pincaster.Lib.Reader
/-!
# DbReplay — `db_log.c` and `replication_slave.c`: reading records of the journal

The file is read through `buffered_read`, the line a slave has received through `m_buffered_read`.  The two functions
that read a record are the same but for that and for what they do with a wrong cookie.  `bufferedRead` is `buffered_read`
where every read of a file returns the bytes asked for when the file has them; the loop that replays takes its reader as a
parameter.  Memory is always there.
-/
namespace Pincaster

open Lib (Bytes bytes cstr strtol strtoul Decoder ReadFn readUntil)

variable {σ : Type}

/-- What `fake_request` is called with. -/
structure LoggedRequest where
  verb : Int
  uri : Bytes
  body : Bytes
  deriving DecidableEq

/-- What a record of the journal holds. -/
inductive LogItem where
  | timestamp (ts : Int)
  | request (req : LoggedRequest)
  deriving DecidableEq

def LogItem.request? : LogItem → Option LoggedRequest
  | .timestamp _ => none
  | .request req => some req

/-- The conversion of a `long` to `int`. -/
def toInt (n : Int) : Int := Int.bmod n (2 ^ 32)

/-- `sizeof buf_number`. -/
def SIZEOF_BUF_NUMBER : Nat := 50

/-! ## One record behind its cookie -/

/-- The check of `buf_cookie_tail`. -/
def readCookieTail (read : ReadFn σ) : Decoder σ Unit := do
  let bufCookieTail ← read DB_LOG_RECORD_COOKIE_TAIL.length
  if bufCookieTail = DB_LOG_RECORD_COOKIE_TAIL then pure () else .fail

/-- The branch for `DB_LOG_RECORD_COOKIE_MARK_CHAR`. -/
def readTimestamp (read : ReadFn σ) (bufNumber : Bytes) : Decoder σ LogItem :=
  let (ts, endptr) := strtol 16 bufNumber.tail
  if endptr = bufNumber.tail ∨ ts ≤ 0 then .fail
  else do
    let t ← read 1
    if t = DB_LOG_RECORD_COOKIE_TIMESTAMP_CHAR then do
      readCookieTail read
      pure (.timestamp ts)
    else .fail

def readBody (read : ReadFn σ) (bodyLen : Nat) : Decoder σ Bytes := if 0 < bodyLen then read bodyLen else pure []

/-- The blank after the URI, the body with its length, and the tail.  The blank is read into `buf_number`. -/
def readBodyAndTail (read : ReadFn σ) (bufNumber : Bytes) : Decoder σ Bytes := do
  let c ← read 1
  if c = bytes " " then do
    let bufNumber ← readUntil read 58 (c ++ bufNumber.drop 1) SIZEOF_BUF_NUMBER []
    let (bodyLen, endptr) := strtoul 16 bufNumber
    if endptr = bufNumber then .fail
    else do
      let body ← readBody read bodyLen
      readCookieTail read
      pure body
  else .fail

/-- A record whose first number has been read. -/
def readRequest (read : ReadFn σ) (bufNumber : Bytes) : Decoder σ LogItem :=
  let (verb, endptr) := strtol 16 bufNumber
  if endptr = bufNumber then .fail
  else do
    let bufNumber ← readUntil read 58 bufNumber SIZEOF_BUF_NUMBER []
    let (uriLen, endptr) := strtoul 16 bufNumber
    if endptr = bufNumber ∨ uriLen ≤ 0 then .fail
    else do
      let uri ← read uriLen
      let body ← readBodyAndTail read bufNumber
      pure (.request ⟨toInt verb, cstr uri, body⟩)

/-- A record behind its cookie.  `stack` is what the stack has from `buf_number` on when the function is entered. -/
def readRecord (read : ReadFn σ) (stack : Bytes) : Decoder σ LogItem := do
  let bufNumber ← readUntil read 32 stack SIZEOF_BUF_NUMBER []
  if bufNumber.head? = DB_LOG_RECORD_COOKIE_MARK_CHAR.head? then readTimestamp read bufNumber
  else readRequest read bufNumber

/-! ## Records in memory -/

/-- `pnt` is the memory from the pointer on. -/
structure MemoryReadContext where
  pnt : Bytes
  remaining : Nat

def mBufferedRead : ReadFn MemoryReadContext := fun size =>
  ⟨fun mrc =>
    if size > mrc.remaining then (none, mrc)
    else (some (mrc.pnt.take size), ⟨mrc.pnt.drop size, mrc.remaining - size⟩)⟩

/-- The result, and what was passed to `fake_request`. -/
def mReplayLogRecord (stack brp : Bytes) (sizeofBrp : Nat) : Int × Option LoggedRequest :=
  match (mBufferedRead DB_LOG_RECORD_COOKIE_HEAD.length).run ⟨brp, sizeofBrp⟩ with
  | (none, _) => (1, none)
  | (some bufCookieHead, mrc) =>
    if bufCookieHead ≠ DB_LOG_RECORD_COOKIE_HEAD then (-1, none)
    else
      match (readRecord mBufferedRead stack).run mrc with
      | (none, _) => (-1, none)
      | (some item, _) => (0, item.request?)

/-! ## Records of the file -/

structure BufferedReadContext where
  buf : Bytes
  offset : Nat
  totalSize : Nat
  bufferSize : Nat

def DEFAULT_BUFFERED_READ_BUFFER_SIZE : Nat := 65536

/-- `init_buffered_read` on the descriptor of the journal. -/
def initBufferedRead (dbLog : DBLog UInt8) : BufferedReadContext where
  buf := []
  offset := 0
  totalSize := (dbLog.dbLogFd.getD []).length
  bufferSize := DEFAULT_BUFFERED_READ_BUFFER_SIZE

/-- `evbuffer_read` from the journal: the bytes, and the descriptor moved on. -/
def evbufferRead (dbLog : DBLog UInt8) (toRead : Nat) : Bytes × DBLog UInt8 :=
  let data := ((dbLog.dbLogFd.getD []).drop dbLog.dbLogOffset).take toRead
  (data, { dbLog with dbLogOffset := dbLog.dbLogOffset + data.length })

def bufferedRead : ReadFn (DBLog UInt8 × BufferedReadContext) := fun length =>
  ⟨fun (dbLog, context) =>
    let availableInBuf := context.buf.length
    if availableInBuf < length then
      if context.offset ≥ context.totalSize then (none, (dbLog, context))
      else
        let toRead := length - availableInBuf
        let remaining := context.totalSize - context.offset
        if toRead > remaining then (none, (dbLog, context))
        else
          -- read ahead when there is that much
          let toRead := if remaining - toRead ≥ context.bufferSize then toRead + context.bufferSize else toRead
          let (data, dbLog) := evbufferRead dbLog toRead
          let buf := context.buf ++ data
          let offset := context.offset + data.length
          (some (buf.take length), (dbLog, { context with buf := buf.drop length, offset }))
    else (some (context.buf.take length), (dbLog, { context with buf := context.buf.drop length }))⟩

section
variable (read : ReadFn (DBLog UInt8 × BufferedReadContext))

/-- The result, what was passed to `fake_request`, and the journal and its reader.  A wrong cookie cuts the file where
the descriptor stood before the record. -/
def replayLogRecordBy (stack : Bytes) (dbLog : DBLog UInt8) (brc : BufferedReadContext) :
    Int × Option LoggedRequest × DBLog UInt8 × BufferedReadContext :=
  match dbLog.dbLogFd with
  | none => (1, none, dbLog, brc)
  | some file =>
    let currentOffset := dbLog.dbLogOffset
    match (read DB_LOG_RECORD_COOKIE_HEAD.length).run (dbLog, brc) with
    | (none, (dbLog, brc)) => (1, none, dbLog, brc)
    | (some bufCookieHead, (dbLog, brc)) =>
      if bufCookieHead ≠ DB_LOG_RECORD_COOKIE_HEAD then
        (-1, none, { dbLog with dbLogFd := some (file.take currentOffset), dbLogOffset := currentOffset }, brc)
      else
        match (readRecord read stack).run (dbLog, brc) with
        | (none, (dbLog, brc)) => (-1, none, dbLog, brc)
        | (some item, (dbLog, brc)) => (0, item.request?, dbLog, brc)

/-- The loop of `replay_log`; the first argument bounds the number of records, and `stack` gives the stack of each
call. -/
def replayLogLoopBy (stack : Nat → Bytes) : Nat → DBLog UInt8 → BufferedReadContext →
    Option (Int × List LoggedRequest × DBLog UInt8)
  | 0, _, _ => none
  | fuel + 1, dbLog, brc =>
    match replayLogRecordBy read (stack fuel) dbLog brc with
    | (res, req, dbLog, brc) =>
      if res = 0 then
        (replayLogLoopBy stack fuel dbLog brc).map fun (res, reqs, dbLog) => (res, req.toList ++ reqs, dbLog)
      else some (res, req.toList, dbLog)

/-- The result, the calls of `fake_request` in their order, and the journal afterwards. -/
def replayLogBy (stack : Nat → Bytes) (dbLog : DBLog UInt8) : Option (Int × List LoggedRequest × DBLog UInt8) :=
  if dbLog.dbLogFd = none ∨ dbLog.dbLogFileName = none then some (0, [], dbLog)
  else
    (replayLogLoopBy read stack ((dbLog.dbLogFd.getD []).length + 1) dbLog (initBufferedRead dbLog)).map
      fun (res, reqs, dbLog) => (if res < 0 then -1 else 0, reqs, dbLog)

end

/-- `replay_log` with complete reads. -/
abbrev replayLog := replayLogBy bufferedRead

end Pincaster
