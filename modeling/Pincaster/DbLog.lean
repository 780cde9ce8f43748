import Pincaster.Requests
/-!
# DbLog — `db_log.c`: writing the journal

A record of the journal is a cookie, the verb, the URI and the body with their lengths in hex, and another cookie.  A
timestamp mark goes before the first record of every minute.  Every write to the file succeeds.
-/
namespace Pincaster

open Lib (Bytes bytes printNat)

variable {α D : Type}

def DB_LOG_RECORD_COOKIE_HEAD : Bytes := bytes "-<"
def DB_LOG_RECORD_COOKIE_TAIL : Bytes := bytes ">\n"
def DB_LOG_RECORD_COOKIE_MARK_CHAR : Bytes := bytes "@"
def DB_LOG_RECORD_COOKIE_TIMESTAMP_CHAR : Bytes := bytes "T"
def DB_LOG_MAX_URI_LEN : Nat := 10000
def DB_LOG_MAX_BODY_LEN : Nat := 100000
def DB_LOG_TIMESTAMP_GRANULARITY : Int := 60

/-- `open_db_log`; `file` is what the file has, empty when it is new. -/
def openDbLog (dbLog : DBLog α) (file : List α) : DBLog α × Int :=
  match dbLog.dbLogFileName with
  | none => ({ dbLog with dbLogFd := none }, 1)
  | some _ => ({ dbLog with lastTs := -1, dbLogFd := some file, dbLogOffset := 0, logBuffer := [] }, 0)

/-- `add_ts_to_ev_log_buffer`; `ts` is printed as `unsigned long`. -/
def addTsToEvLogBuffer (logBuffer : Bytes) (ts : Int) : Bytes :=
  logBuffer ++ (DB_LOG_RECORD_COOKIE_HEAD ++ DB_LOG_RECORD_COOKIE_MARK_CHAR) ++ printNat 16 (ts % 2 ^ 64).toNat ++
    (bytes " " ++ DB_LOG_RECORD_COOKIE_TIMESTAMP_CHAR ++ DB_LOG_RECORD_COOKIE_TAIL)

def flushDbLog (dbLog : DBLog α) (sync : Bool) : DBLog α :=
  match dbLog.dbLogFd with
  | none => dbLog
  | some file =>
    if dbLog.logBuffer.length ≤ 0 then dbLog
    else
      -- without `sync` there is nothing to write
      let toWrite := if sync then dbLog.logBuffer.length else 0
      if 0 < toWrite then
        { dbLog with
          dbLogFd := some (file ++ dbLog.logBuffer), dbLogOffset := file.length + dbLog.logBuffer.length
          logBuffer := [] }
      else dbLog

/-- The journal as it will be once its buffer is flushed. -/
def DBLog.journal (dbLog : DBLog α) : List α := dbLog.dbLogFd.getD [] ++ dbLog.logBuffer

theorem flushDbLog_journal (dbLog : DBLog α) (sync : Bool) : (flushDbLog dbLog sync).journal = dbLog.journal := by
  unfold flushDbLog
  cases hfile : dbLog.dbLogFd with
  | none => rfl
  | some file =>
    simp only
    generalize (if sync = true then dbLog.logBuffer.length else 0) = toWrite
    split
    · rfl
    · split
      · simp [DBLog.journal, hfile]
      · rfl

/-- What a flush with `sync` leaves. -/
theorem flushDbLog_sync {dbLog : DBLog α} {file : List α} (hfile : dbLog.dbLogFd = some file) :
    (flushDbLog dbLog true).dbLogFd = some (file ++ dbLog.logBuffer) ∧ (flushDbLog dbLog true).logBuffer = [] ∧
      (flushDbLog dbLog true).journalRewriteProcess = dbLog.journalRewriteProcess ∧
      (flushDbLog dbLog true).offsetBeforeFork = dbLog.offsetBeforeFork ∧
      (dbLog.dbLogOffset ≤ file.length → (flushDbLog dbLog true).dbLogOffset ≤ (file ++ dbLog.logBuffer).length) := by
  unfold flushDbLog
  simp only [hfile, if_true]
  by_cases hnil : dbLog.logBuffer.length ≤ 0
  · rw [if_pos hnil]
    have : dbLog.logBuffer = [] := List.length_eq_zero_iff.1 (by omega)
    simp [this, hfile]
  · rw [if_neg hnil, if_pos (by omega)]
    simp

/-- What no flush changes. -/
theorem flushDbLog_kept (dbLog : DBLog α) (sync : Bool) : (flushDbLog dbLog sync).lastTs = dbLog.lastTs ∧
    (flushDbLog dbLog sync).dbLogFd.isSome = dbLog.dbLogFd.isSome ∧
    (flushDbLog dbLog sync).dbLogFileName = dbLog.dbLogFileName := by
  unfold flushDbLog
  cases hfile : dbLog.dbLogFd with
  | none => simp [hfile]
  | some file =>
    simp only
    generalize (if sync = true then dbLog.logBuffer.length else 0) = toWrite
    split
    · simp [hfile]
    · split <;> simp [hfile]

/-- What `add_to_db_log` writes for a request, the timestamp mark apart. -/
def logRecord (verb : Nat) (uri body : Bytes) : Bytes :=
  DB_LOG_RECORD_COOKIE_HEAD ++
    (printNat 16 verb ++ bytes " " ++ printNat 16 uri.length ++ bytes ":" ++ uri ++ bytes " " ++
      printNat 16 body.length ++ bytes ":") ++ body ++ DB_LOG_RECORD_COOKIE_TAIL

theorem logRecord_ne_nil (verb : Nat) (uri body : Bytes) : logRecord verb uri body ≠ [] := by
  simp [logRecord, DB_LOG_RECORD_COOKIE_TAIL, bytes]

/-- The mark of a new minute. -/
def addTimestamp (dbLog : DBLog UInt8) (now : Int) : DBLog UInt8 :=
  let ts := now - Int.tmod now DB_LOG_TIMESTAMP_GRANULARITY
  if ts > dbLog.lastTs then { dbLog with lastTs := ts, logBuffer := addTsToEvLogBuffer dbLog.logBuffer ts } else dbLog

/-- When `add_to_db_log` flushes the buffer: at once with a period of 0, without `sync` when the buffer is over its
size. -/
def flushAfterRecord (dbLog : DBLog α) : DBLog α :=
  if dbLog.fsyncPeriod = 0 then flushDbLog dbLog true
  else if dbLog.logBuffer.length > dbLog.journalBufferSize then flushDbLog dbLog false
  else dbLog

/-- The body of a record: a NUL at its end is left out. -/
def loggedBody (inputBuffer : Bytes) : Bytes :=
  if inputBuffer.getLast? = some 0 then inputBuffer.dropLast else inputBuffer

def addToDbLog (context : HttpHandlerContext D) (verb : Nat) (uri inputBuffer : Bytes) (sendToSlaves : Bool) :
    HttpHandlerContext D × Int :=
  match context.dbLog.dbLogFd with
  | none => (context, 0)
  | some _ =>
    let uriLen := uri.length
    let bodyLen := inputBuffer.length
    if uriLen > DB_LOG_MAX_URI_LEN ∨ bodyLen > DB_LOG_MAX_BODY_LEN then (context, -1)
    else
      let dbLog := addTimestamp context.dbLog context.now
      let record := logRecord verb uri (loggedBody inputBuffer)
      let slavesOut := if sendToSlaves ∧ 0 < context.activeSlaves then context.slavesOut ++ record else context.slavesOut
      let dbLog := flushAfterRecord { dbLog with logBuffer := dbLog.logBuffer ++ record }
      ({ context with dbLog, slavesOut }, 0)

end Pincaster
