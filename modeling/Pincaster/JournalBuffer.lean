import Pincaster.DbLog
/-!
# JournalBuffer — how much of the journal is only in memory

A flush without `sync` writes nothing, so that only a period of 0 ever empties the buffer in `add_to_db_log`.  Otherwise
the buffer has every byte the calls have added, and stays within `journal_buffer_size` exactly as long as all of them
together do (`journal_buffer_bounded_iff`).
-/
namespace Pincaster

open Lib (Bytes bytes printNat)

variable {D : Type}

/-- The arguments of one call of `add_to_db_log`; `now` is the clock of the request. -/
structure BufferCall where
  now : Int
  verb : Nat
  uri : Bytes
  inputBuffer : Bytes
  sendToSlaves : Bool

def addCall (context : HttpHandlerContext D) (call : BufferCall) : HttpHandlerContext D × Int :=
  addToDbLog { context with now := call.now } call.verb call.uri call.inputBuffer call.sendToSlaves

/-- What every call of a sequence leaves and returns. -/
def addCalls : HttpHandlerContext D → List BufferCall → List (HttpHandlerContext D × Int)
  | _, [] => []
  | context, call :: calls => addCall context call :: addCalls (addCall context call).1 calls

/-- The URI or the body is longer than the journal takes. -/
def BufferCall.TooLong (call : BufferCall) : Prop :=
  call.uri.length > DB_LOG_MAX_URI_LEN ∨ call.inputBuffer.length > DB_LOG_MAX_BODY_LEN

instance (call : BufferCall) : Decidable call.TooLong := inferInstanceAs (Decidable (_ ∨ _))

/-- The minute of a call. -/
def BufferCall.minute (call : BufferCall) : Int := call.now - Int.tmod call.now DB_LOG_TIMESTAMP_GRANULARITY

/-- The bytes a call that is not too long writes: the mark of a new minute and the record. -/
def BufferCall.logged (call : BufferCall) (lastTs : Int) : Bytes :=
  (if call.minute > lastTs then addTsToEvLogBuffer [] call.minute else []) ++
    logRecord call.verb call.uri (loggedBody call.inputBuffer)

/-- **The bytes that a sequence of calls writes**, told by its arguments and the last minute marked before it. -/
def loggedBytes : Int → List BufferCall → Nat
  | _, [] => 0
  | lastTs, call :: calls =>
    if call.TooLong then loggedBytes lastTs calls
    else (call.logged lastTs).length + loggedBytes (max lastTs call.minute) calls

/-- The journal with the bytes of a call in its buffer. -/
def DBLog.withCall (dbLog : DBLog UInt8) (call : BufferCall) : DBLog UInt8 :=
  { dbLog with lastTs := max dbLog.lastTs call.minute, logBuffer := dbLog.logBuffer ++ call.logged dbLog.lastTs }

theorem addTsToEvLogBuffer_eq (logBuffer : Bytes) (ts : Int) :
    addTsToEvLogBuffer logBuffer ts = logBuffer ++ addTsToEvLogBuffer [] ts := by
  simp [addTsToEvLogBuffer]

theorem addTimestamp_eq (dbLog : DBLog UInt8) (call : BufferCall) : addTimestamp dbLog call.now =
    { dbLog with
      lastTs := max dbLog.lastTs call.minute
      logBuffer := dbLog.logBuffer ++
        if call.minute > dbLog.lastTs then addTsToEvLogBuffer [] call.minute else [] } := by
  show (if call.minute > dbLog.lastTs then _ else dbLog) = _
  by_cases hts : call.minute > dbLog.lastTs
  · rw [if_pos hts, if_pos hts, max_eq_right (le_of_lt hts), ← addTsToEvLogBuffer_eq]
    rfl
  · rw [if_neg hts, if_neg hts, max_eq_left (not_lt.1 hts), List.append_nil]

/-- **A flush without `sync` is no flush.** -/
theorem flushDbLog_no_sync {α : Type} (dbLog : DBLog α) : flushDbLog dbLog false = dbLog := by
  unfold flushDbLog
  cases hfile : dbLog.dbLogFd with
  | none => rfl
  | some file =>
    simp only [Bool.false_eq_true, if_false, lt_irrefl]
    split <;> rfl

theorem flushDbLog_fsyncPeriod {α : Type} (dbLog : DBLog α) (sync : Bool) :
    (flushDbLog dbLog sync).fsyncPeriod = dbLog.fsyncPeriod := by
  unfold flushDbLog
  cases hfile : dbLog.dbLogFd with
  | none => rfl
  | some file =>
    simp only
    generalize (if sync = true then dbLog.logBuffer.length else 0) = toWrite
    split
    · rfl
    · split <;> rfl

theorem flushAfterRecord_eq {α : Type} (dbLog : DBLog α) :
    flushAfterRecord dbLog = if dbLog.fsyncPeriod = 0 then flushDbLog dbLog true else dbLog := by
  unfold flushAfterRecord
  by_cases hperiod : dbLog.fsyncPeriod = 0
  · rw [if_pos hperiod, if_pos hperiod]
  · rw [if_neg hperiod, if_neg hperiod, flushDbLog_no_sync, ite_self]

/-! ## One call -/

theorem addCall_closed {context : HttpHandlerContext D} (h : context.dbLog.dbLogFd = none) (call : BufferCall) :
    addCall context call = ({ context with now := call.now }, 0) := by
  simp only [addCall, addToDbLog, h]

theorem addCall_tooLong {context : HttpHandlerContext D} {file : Bytes} (h : context.dbLog.dbLogFd = some file)
    {call : BufferCall} (hlong : call.TooLong) : addCall context call = ({ context with now := call.now }, -1) := by
  simp only [addCall, addToDbLog, h]
  exact if_pos hlong

/-- **A call that is not too long** leaves its bytes behind those of the buffer, and the flush is up to the period. -/
theorem addCall_logged {context : HttpHandlerContext D} {file : Bytes} (h : context.dbLog.dbLogFd = some file)
    {call : BufferCall} (hlong : ¬ call.TooLong) : (addCall context call).2 = 0 ∧
      (addCall context call).1.dbLog = flushAfterRecord (context.dbLog.withCall call) := by
  have hshort : ¬ (call.uri.length > DB_LOG_MAX_URI_LEN ∨ call.inputBuffer.length > DB_LOG_MAX_BODY_LEN) := hlong
  simp only [addCall, addToDbLog, h]
  rw [if_neg hshort]
  refine ⟨rfl, ?_⟩
  simp only [addTimestamp_eq, List.append_assoc]
  rfl

/-- With a period of 0 the buffer is empty behind every call. -/
theorem addCall_period_zero {context : HttpHandlerContext D} (hperiod : context.dbLog.fsyncPeriod = 0)
    (hempty : context.dbLog.logBuffer = []) (call : BufferCall) :
    (addCall context call).1.dbLog.logBuffer = [] ∧ (addCall context call).1.dbLog.fsyncPeriod = 0 := by
  cases hfile : context.dbLog.dbLogFd with
  | none => rw [addCall_closed hfile]; exact ⟨hempty, hperiod⟩
  | some file =>
    by_cases hlong : call.TooLong
    · rw [addCall_tooLong hfile hlong]
      exact ⟨hempty, hperiod⟩
    · have hfile' : (context.dbLog.withCall call).dbLogFd = some file := hfile
      have hperiod' : (context.dbLog.withCall call).fsyncPeriod = 0 := hperiod
      rw [(addCall_logged hfile hlong).2, flushAfterRecord_eq, if_pos hperiod']
      exact ⟨(flushDbLog_sync hfile').2.1, (flushDbLog_fsyncPeriod _ true).trans hperiod'⟩

/-- With another period the buffer keeps what there was. -/
theorem addCall_period_ne_zero {context : HttpHandlerContext D} {file : Bytes} (hfile : context.dbLog.dbLogFd = some file)
    (hperiod : context.dbLog.fsyncPeriod ≠ 0) {call : BufferCall} (hlong : ¬ call.TooLong) :
    (addCall context call).2 = 0 ∧ (addCall context call).1.dbLog = context.dbLog.withCall call := by
  obtain ⟨hret, hlog⟩ := addCall_logged hfile hlong
  have hperiod' : (context.dbLog.withCall call).fsyncPeriod ≠ 0 := hperiod
  exact ⟨hret, by rw [hlog, flushAfterRecord_eq, if_neg hperiod']⟩

/-! ## Sequences of calls -/

/-- The buffer is within its size behind every call of the sequence that returns 0. -/
def BufferBounded (context : HttpHandlerContext D) (calls : List BufferCall) : Prop :=
  ∀ r ∈ addCalls context calls, r.2 = 0 → r.1.dbLog.logBuffer.length ≤ r.1.dbLog.journalBufferSize

theorem bounded_cons {context : HttpHandlerContext D} {call : BufferCall} {calls : List BufferCall} :
    BufferBounded context (call :: calls) ↔
      ((addCall context call).2 = 0 → (addCall context call).1.dbLog.logBuffer.length ≤
        (addCall context call).1.dbLog.journalBufferSize) ∧ BufferBounded (addCall context call).1 calls := by
  rw [BufferBounded, addCalls, List.forall_mem_cons]
  rfl

theorem bounded_closed : ∀ (calls : List BufferCall) {context : HttpHandlerContext D}, context.dbLog.dbLogFd = none →
    context.dbLog.logBuffer = [] → BufferBounded context calls
  | [], _, _, _ => fun _ h => absurd h List.not_mem_nil
  | call :: calls, context, hfile, hempty => by
    rw [bounded_cons, addCall_closed hfile]
    exact ⟨fun _ => by simp [hempty], bounded_closed calls hfile hempty⟩

theorem bounded_period_zero : ∀ (calls : List BufferCall) {context : HttpHandlerContext D},
    context.dbLog.fsyncPeriod = 0 → context.dbLog.logBuffer = [] → BufferBounded context calls
  | [], _, _, _ => fun _ h => absurd h List.not_mem_nil
  | call :: calls, context, hperiod, hempty => by
    obtain ⟨hempty', hperiod'⟩ := addCall_period_zero hperiod hempty call
    rw [bounded_cons, hempty']
    exact ⟨fun _ => Nat.zero_le _, bounded_period_zero calls hperiod' hempty'⟩

/-- With another period the last call that returns 0 has all the bytes before it in the buffer. -/
theorem bounded_period_ne_zero : ∀ (calls : List BufferCall) {context : HttpHandlerContext D} {file : Bytes},
    context.dbLog.dbLogFd = some file → context.dbLog.fsyncPeriod ≠ 0 →
    context.dbLog.logBuffer.length ≤ context.dbLog.journalBufferSize →
    (BufferBounded context calls ↔
      context.dbLog.logBuffer.length + loggedBytes context.dbLog.lastTs calls ≤ context.dbLog.journalBufferSize)
  | [], _, _, _, _, hroom => by
    simp only [loggedBytes, Nat.add_zero, hroom, iff_true]
    exact fun _ h => absurd h List.not_mem_nil
  | call :: calls, context, file, hfile, hperiod, hroom => by
    rw [bounded_cons, loggedBytes]
    by_cases hlong : call.TooLong
    · rw [addCall_tooLong hfile hlong, if_pos hlong, and_iff_right (fun h : (-1 : Int) = 0 => nomatch h)]
      exact bounded_period_ne_zero calls hfile hperiod hroom
    · obtain ⟨hret, hlog⟩ := addCall_period_ne_zero hfile hperiod hlong
      have hlen : (context.dbLog.withCall call).logBuffer.length =
          context.dbLog.logBuffer.length + (call.logged context.dbLog.lastTs).length := List.length_append
      have hsize : (context.dbLog.withCall call).journalBufferSize = context.dbLog.journalBufferSize := rfl
      rw [if_neg hlong, hret, hlog, hlen, hsize, forall_prop_of_true rfl]
      by_cases hroom' : context.dbLog.logBuffer.length + (call.logged context.dbLog.lastTs).length ≤
          context.dbLog.journalBufferSize
      · have hfile' : (addCall context call).1.dbLog.dbLogFd = some file := by rw [hlog]; exact hfile
        rw [bounded_period_ne_zero calls hfile' (by rw [hlog]; exact hperiod)
          (by rw [hlog, hlen]; exact hroom'), hlog, hlen, hsize, and_iff_right hroom', Nat.add_assoc]
        rfl
      · exact iff_of_false (fun h => hroom' h.1) (by omega)

/-- **The buffer stays within its size** exactly when there is no journal, every record is flushed, or all that the calls
write fits in the buffer at once. -/
theorem journal_buffer_bounded_iff (context : HttpHandlerContext D) (hempty : context.dbLog.logBuffer = [])
    (calls : List BufferCall) :
    (∀ r ∈ addCalls context calls, r.2 = 0 → r.1.dbLog.logBuffer.length ≤ r.1.dbLog.journalBufferSize) ↔
      context.dbLog.dbLogFd = none ∨ context.dbLog.fsyncPeriod = 0 ∨
        loggedBytes context.dbLog.lastTs calls ≤ context.dbLog.journalBufferSize := by
  rw [← BufferBounded]
  cases hfile : context.dbLog.dbLogFd with
  | none => exact iff_of_true (bounded_closed calls hfile hempty) (.inl rfl)
  | some file =>
    by_cases hperiod : context.dbLog.fsyncPeriod = 0
    · exact iff_of_true (bounded_period_zero calls hperiod hempty) (.inr (.inl hperiod))
    · rw [bounded_period_ne_zero calls hfile hperiod (by simp [hempty])]
      simp [hempty, hperiod]

/-- A journal that was just opened, without periodic `fsync`. -/
def unsynced (journalBufferSize : Nat) : HttpHandlerContext D where
  now := 0
  opTid := 0
  cqueue := ⟨fun _ => none, 15, none, none⟩
  dbLog := ⟨some (bytes "pincaster.db"), some [], 0, [], journalBufferSize, -1, none, none, -1⟩
  encodedApiBaseUri := bytes "/api/1.0/"
  shouldExit := false
  thrWorkers := true
  loopExit := false
  activeSlaves := 0
  slavesOut := []
  rewriteReplies := []

def createLayer : BufferCall := ⟨120, EVHTTP_REQ_POST, bytes "/api/1.0/layers/x.json", [], true⟩

/-- One record fits in a buffer of 64 bytes. -/
theorem journal_buffer_bounded_one :
    (addCalls (unsynced 64 : HttpHandlerContext ℚ) [createLayer]).map Prod.snd = [0] ∧
    ∀ r ∈ addCalls (unsynced 64 : HttpHandlerContext ℚ) [createLayer], r.2 = 0 →
      r.1.dbLog.logBuffer.length ≤ r.1.dbLog.journalBufferSize :=
  ⟨by decide +kernel, (journal_buffer_bounded_iff (unsynced 64) rfl [createLayer]).2 (.inr (.inr (by decide +kernel)))⟩

/-- **The second record does not**: it stays in memory behind the first one. -/
theorem journal_buffer_grows : ¬ ∀ (context : HttpHandlerContext ℚ) (calls : List BufferCall),
    context.dbLog.logBuffer = [] → 1 ≤ context.dbLog.journalBufferSize →
    ∀ r ∈ addCalls context calls, r.2 = 0 → r.1.dbLog.logBuffer.length ≤ r.1.dbLog.journalBufferSize := by
  intro h
  have hsecond := h (unsynced 64) [createLayer, createLayer] rfl (by decide)
    (addCall (addCall (unsynced 64) createLayer).1 createLayer) (.tail _ (.head _)) (by decide)
  have hlength : ¬ (addCall (addCall (unsynced 64 : HttpHandlerContext ℚ) createLayer).1
      createLayer).1.dbLog.logBuffer.length ≤ 64 := by decide +kernel
  exact hlength hsecond

end Pincaster
