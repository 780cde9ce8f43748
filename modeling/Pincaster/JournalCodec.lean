import Pincaster.JournalScan
import Pincaster.JournalComplete
/-!
# JournalCodec — what is written is read back

An item of the journal is read back whatever stands behind it.  A journal is a list of items (`journalItems`), and so is
replayed as that list.
-/
namespace Pincaster

open Lib (Bytes bytes strtol printNat isDigitOf Decoder Fed ReadFn takeBytes readUntil)

variable {D : Type}

/-! ## One item is read back -/

/-- The item as the journal has it. -/
def LogItem.encode : LogItem → Bytes
  | .timestamp ts => addTsToEvLogBuffer [] ts
  | .request req => logRecord req.verb.toNat req.uri req.body

/-- What a record can hold: `time_t` and `int` values, a C string that is not empty, lengths that fit `size_t`. -/
def LogItem.Ok : LogItem → Prop
  | .timestamp ts => 0 < ts ∧ ts < 2 ^ 63
  | .request req => (0 ≤ req.verb ∧ req.verb < 2 ^ 31) ∧ (req.uri ≠ [] ∧ (0 : UInt8) ∉ req.uri) ∧
      req.uri.length < 2 ^ 64 ∧ req.body.length < 2 ^ 64

/-- A printed number is a token of its own. -/
theorem printNat_token {n : Nat} {delim : UInt8} (hdelim : isDigitOf 16 delim = false) (hn : n < 16 ^ 16) :
    delim ∉ printNat 16 n ∧ (printNat 16 n).length < SIZEOF_BUF_NUMBER := by
  refine ⟨fun h => ?_, ?_⟩
  · rw [Lib.isDigitOf_printNat (by omega) (by omega) n delim h] at hdelim
    cases hdelim
  · have := Lib.length_printNat_le (k := 15) (by omega) hn
    unfold SIZEOF_BUF_NUMBER
    omega

/-- The pieces in which a number is read up to its delimiter. -/
def numberPieces (n : Nat) (delim : UInt8) : List Bytes := Lib.tokenPieces (printNat 16 n) delim

/-- The pieces of a record behind its URI. -/
def bodyPieces (body : Bytes) : List Bytes :=
  bytes " " :: numberPieces body.length 58 ++ ((if body = [] then [] else [body]) ++ [DB_LOG_RECORD_COOKIE_TAIL])

/-- The pieces in which a record is read behind its cookie. -/
def LogItem.pieces : LogItem → List Bytes
  | .timestamp ts => Lib.tokenPieces (DB_LOG_RECORD_COOKIE_MARK_CHAR ++ printNat 16 (ts % 2 ^ 64).toNat) 32 ++
      [DB_LOG_RECORD_COOKIE_TIMESTAMP_CHAR, DB_LOG_RECORD_COOKIE_TAIL]
  | .request req =>
    numberPieces req.verb.toNat 32 ++ numberPieces req.uri.length 58 ++ (req.uri :: bodyPieces req.body)

theorem LogItem.encode_eq (item : LogItem) : item.encode = DB_LOG_RECORD_COOKIE_HEAD ++ item.pieces.flatten := by
  cases item with
  | timestamp ts =>
    simp only [LogItem.encode, addTsToEvLogBuffer, LogItem.pieces, List.flatten_append, Lib.flatten_tokenPieces,
      List.flatten_cons, List.flatten_nil, List.nil_append, List.append_nil, List.append_assoc]
    rfl
  | request req =>
    have hbody : (if req.body = [] then [] else [req.body]).flatten = req.body := by
      split
      · exact Eq.symm ‹_›
      · exact List.flatten_singleton
    simp only [LogItem.encode, logRecord, LogItem.pieces, bodyPieces, numberPieces, List.flatten_append,
      Lib.flatten_tokenPieces, List.flatten_cons, List.flatten_nil, hbody, List.cons_append, List.append_nil,
      List.append_assoc]
    rfl

section
variable {σ : Type} {read : ReadFn σ} {s s' s₁ : σ}

/-- The array after the number was read into it. -/
theorem readUntil_number {n : Nat} {delim : UInt8} (hfed : Fed read (numberPieces n delim) s s')
    (hdelim : isDigitOf 16 delim = false) (hn : n < 16 ^ 16) (buf : Bytes) :
    ∃ buf', (readUntil read delim buf SIZEOF_BUF_NUMBER []).run s = (some (printNat 16 n ++ delim :: buf'), s') := by
  obtain ⟨hmem, hlen⟩ := printNat_token hdelim hn
  rw [Lib.readUntil_fed buf [] hfed hmem hlen]
  exact ⟨buf.drop ((printNat 16 n).length + 1), by simp⟩

theorem readCookieTail_fed (h : (read DB_LOG_RECORD_COOKIE_TAIL.length).run s = (some DB_LOG_RECORD_COOKIE_TAIL, s')) :
    (readCookieTail read).run s = (some (), s') := by
  rw [readCookieTail, Decoder.bind_of_some h, if_pos rfl]
  rfl

/-- The branch for a mark whose number was read. -/
theorem readTimestamp_pos {bufNumber endptr : Bytes} {ts : Int} (h : strtol 16 bufNumber.tail = (ts, endptr))
    (hend : endptr ≠ bufNumber.tail) (hts : 0 < ts) : readTimestamp read bufNumber =
      (do
        let t ← read 1
        if t = DB_LOG_RECORD_COOKIE_TIMESTAMP_CHAR then do
          readCookieTail read
          pure (.timestamp ts)
        else .fail) := by
  unfold readTimestamp
  rw [h]
  simp only
  rw [if_neg (by
    rw [not_or]
    exact ⟨hend, by omega⟩)]

theorem readTimestamp_fed {ts : Int} (h : 0 < ts ∧ ts < 2 ^ 63) (stack : Bytes)
    (hfed : Fed read (LogItem.timestamp ts).pieces s s') : (readRecord read stack).run s = (some (.timestamp ts), s') := by
  obtain ⟨n, rfl⟩ := Int.eq_ofNat_of_zero_le h.1.le
  have hn : n < 2 ^ 63 := by omega
  have hts : ((n : Int) % 2 ^ 64).toNat = n := by omega
  rw [LogItem.pieces, hts] at hfed
  obtain ⟨m, hnumber, hend⟩ := hfed.split
  have hmark : DB_LOG_RECORD_COOKIE_MARK_CHAR = [64] := rfl
  obtain ⟨hmem, hlen⟩ := printNat_token (n := n) (show isDigitOf 16 32 = false by decide) (by omega)
  have htoken : (32 : UInt8) ∉ DB_LOG_RECORD_COOKIE_MARK_CHAR ++ printNat 16 n := by
    rw [hmark, List.singleton_append, List.mem_cons, not_or]
    exact ⟨by decide, hmem⟩
  have hroom : (DB_LOG_RECORD_COOKIE_MARK_CHAR ++ printNat 16 n).length < SIZEOF_BUF_NUMBER := by
    have := Lib.length_printNat_le (show 2 ≤ 16 by omega) (show n < 16 ^ (15 + 1) by omega)
    rw [hmark, List.singleton_append, List.length_cons]
    unfold SIZEOF_BUF_NUMBER
    omega
  rw [readRecord, Decoder.bind_of_some (Lib.readUntil_fed stack [] hnumber htoken hroom)]
  generalize stack.drop _ = junk
  rw [hmark]
  simp only [List.nil_append, List.cons_append, List.head?_cons, if_true, List.append_assoc]
  rw [readTimestamp_pos (Lib.strtol_printNat (by omega) (by omega) hn (by rintro c hc; cases hc; decide))
      (by simp [Lib.printNat_ne_nil]) h.1]
  cases hend with
  | cons htime hrest =>
    cases hrest with
    | cons htail hnil =>
      cases hnil
      rw [Decoder.bind_of_some (show (read 1).run m = _ from htime), if_pos rfl,
        Decoder.bind_of_some (readCookieTail_fed htail)]
      rfl

/-- The end of a record up to its body. -/
theorem readBodyAndTail_fed {body : Bytes} (hlen : body.length < 2 ^ 64) (bufNumber : Bytes)
    (hfed : Fed read (bytes " " :: numberPieces body.length 58) s s') : (readBodyAndTail read bufNumber).run s =
      (do
        let body ← readBody read body.length
        readCookieTail read
        pure body : Decoder σ Bytes).run s' := by
  cases hfed with
  | cons hblank hnumber =>
    rw [readBodyAndTail, Decoder.bind_of_some (show (read 1).run s = _ from hblank), if_pos rfl]
    obtain ⟨junk, hread⟩ := readUntil_number hnumber (show isDigitOf 16 58 = false by decide) (by omega)
      (bytes " " ++ bufNumber.drop 1)
    rw [Decoder.bind_of_some hread]
    simp only
    rw [Lib.strtoul_printNat (by omega) (by omega) hlen (by rintro c hc; cases hc; decide),
      if_neg (by simp [Lib.printNat_ne_nil])]

/-- A record that starts with a number is a request. -/
theorem readRecord_number {n : Nat} (hn : n < 16 ^ 16) (stack : Bytes) (hfed : Fed read (numberPieces n 32) s s') :
    ∃ junk, (readRecord read stack).run s = (readRequest read (printNat 16 n ++ 32 :: junk)).run s' := by
  obtain ⟨junk, hread⟩ := readUntil_number hfed (show isDigitOf 16 32 = false by decide) hn stack
  have hhead : (printNat 16 n ++ 32 :: junk).head? ≠ DB_LOG_RECORD_COOKIE_MARK_CHAR.head? := by
    intro hmark
    obtain ⟨d, ds, hds⟩ := List.exists_cons_of_ne_nil (Lib.printNat_ne_nil 16 n)
    rw [hds] at hmark
    have hd := Lib.isDigitOf_printNat (show 2 ≤ 16 by omega) (by omega) n d (by rw [hds]; simp)
    rw [show d = 64 from Option.some.inj hmark] at hd
    exact absurd hd (by decide)
  refine ⟨junk, ?_⟩
  unfold readRecord
  rw [Decoder.bind_of_some hread, if_neg hhead]

/-- A request up to its URI. -/
theorem readRecord_uri {req : LoggedRequest} (h : (LogItem.request req).Ok) (stack : Bytes)
    (hfed : Fed read (numberPieces req.verb.toNat 32 ++ numberPieces req.uri.length 58) s s') :
    ∃ bufNumber, (readRecord read stack).run s =
      (do
        let uri ← read req.uri.length
        let body ← readBodyAndTail read bufNumber
        pure (.request ⟨req.verb, Lib.cstr uri, body⟩) : Decoder σ LogItem).run s' := by
  obtain ⟨hverb, huri, hlen⟩ := h
  obtain ⟨m, hnumber, hurilen⟩ := hfed.split
  obtain ⟨n, hn⟩ := Int.eq_ofNat_of_zero_le hverb.1
  rw [hn, Int.toNat_natCast] at hnumber
  obtain ⟨junk, hread⟩ := readRecord_number (n := n) (by omega) stack hnumber
  have hint : toInt n = n := Int.bmod_eq_of_le_mul_two (by omega) (by omega)
  rw [hread]
  unfold readRequest
  rw [Lib.strtol_printNat (by omega) (by omega) (by omega) (by rintro c hc; cases hc; decide)]
  simp only
  rw [if_neg (by simp [Lib.printNat_ne_nil])]
  obtain ⟨junk', hread'⟩ := readUntil_number hurilen (show isDigitOf 16 58 = false by decide) (by omega)
    (printNat 16 n ++ 32 :: junk)
  rw [Decoder.bind_of_some hread',
    Lib.strtoul_printNat (by omega) (by omega) hlen.1 (by rintro c hc; cases hc; decide)]
  have hpos := List.length_pos_of_ne_nil huri.1
  rw [if_neg (by
    rw [not_or]
    exact ⟨by simp [Lib.printNat_ne_nil], by omega⟩), hint, hn]
  exact ⟨_, rfl⟩

/-- **An item of the journal is read from its pieces.** -/
theorem readRecord_fed {item : LogItem} (h : item.Ok) (stack : Bytes) (hfed : Fed read item.pieces s s') :
    (readRecord read stack).run s = (some item, s') := by
  cases item with
  | timestamp ts => exact readTimestamp_fed h stack hfed
  | request req =>
    obtain ⟨m, hnumbers, hrest⟩ := hfed.split
    obtain ⟨bufNumber, hread⟩ := readRecord_uri h stack hnumbers
    cases hrest with
    | cons huri hbody =>
      obtain ⟨m₂, hlength, hend⟩ := hbody.split
      rw [hread, Decoder.bind_of_some huri, Lib.cstr_of_not_mem h.2.1.2]
      have htail : (do
          let body ← readBody read req.body.length
          readCookieTail read
          pure body : Decoder σ Bytes).run m₂ = (some req.body, s') := by
        obtain ⟨m₃, hpiece, htail⟩ := hend.split
        cases htail with
        | cons htail hnil =>
          cases hnil
          have hone : (readBody read req.body.length).run m₂ = (some req.body, m₃) := by
            unfold readBody
            by_cases hempty : req.body = []
            · rw [if_pos hempty] at hpiece
              cases hpiece
              rw [hempty]
              rfl
            · rw [if_neg hempty] at hpiece
              cases hpiece with
              | cons hpiece hnil =>
                cases hnil
                rw [if_pos (List.length_pos_of_ne_nil hempty)]
                exact hpiece
          rw [Decoder.bind_of_some hone, Decoder.bind_of_some (readCookieTail_fed htail)]
          rfl
      rw [Decoder.bind_of_some ((readBodyAndTail_fed h.2.2.2 bufNumber hlength).trans htail)]
      rfl

end

theorem readCookieTail_append (rest : Bytes) :
    (readCookieTail takeBytes).run (DB_LOG_RECORD_COOKIE_TAIL ++ rest) = (some (), rest) :=
  readCookieTail_fed (Lib.takeBytes_append rfl)

/-- **An item of the journal is read back**, whatever stands behind it. -/
theorem scanRecord_encode {item : LogItem} (h : item.Ok) (stack rest : Bytes) :
    scanRecord stack (item.encode ++ rest) = (0, item.request?, rest) := by
  rw [LogItem.encode_eq, List.append_assoc, scanRecord, Lib.takeBytes_append rfl]
  simp only [ne_eq, not_true_eq_false, if_false, readRecord_fed h stack (Lib.fed_takeBytes item.pieces rest)]

/-! ## The journal of a list of calls -/

theorem LogItem.encode_ne_nil (item : LogItem) : item.encode ≠ [] := by
  cases item with
  | timestamp ts => simp [LogItem.encode, addTsToEvLogBuffer, DB_LOG_RECORD_COOKIE_TAIL, bytes]
  | request req => exact logRecord_ne_nil _ _ _

/-- **A journal is scanned item by item**, up to what is behind its items. -/
theorem scan_encode (stack : Nat → Bytes) (rest : Bytes) (fuel : Nat) : ∀ {items : List LogItem},
    (∀ item ∈ items, item.Ok) → scan stack (items.length + fuel) (items.flatMap LogItem.encode ++ rest) =
      (scan stack fuel rest).map fun r => (r.1, items.filterMap LogItem.request? ++ r.2.1, r.2.2)
  | [], _ => by simp
  | item :: items, h => by
    have ih := scan_encode stack rest fuel (fun i hi => h i (List.mem_cons_of_mem item hi))
    rw [List.length_cons, Nat.add_right_comm, scan, List.flatMap_cons, List.append_assoc,
      scanRecord_encode (h item List.mem_cons_self)]
    simp only [if_true, ih, Option.map_map]
    congr 1
    funext r
    cases item <;> rfl

theorem length_le_flatMap_encode (items : List LogItem) : items.length ≤ (items.flatMap LogItem.encode).length := by
  induction items with
  | nil => exact Nat.le_refl 0
  | cons item items ih =>
    have := List.length_pos_of_ne_nil item.encode_ne_nil
    simp only [List.length_cons, List.flatMap_cons, List.length_append]
    omega

/-- One call of `add_to_db_log`. -/
structure LogCall where
  now : Int
  verb : Nat
  uri : Bytes
  body : Bytes
  sendToSlaves : Bool

/-- What the call is to be replayed as. -/
def LogCall.logged (call : LogCall) : LoggedRequest := ⟨call.verb, call.uri, loggedBody call.body⟩

def addAllToDbLog (context : HttpHandlerContext D) : List LogCall → HttpHandlerContext D
  | [] => context
  | call :: calls =>
    addAllToDbLog
      (addToDbLog { context with now := call.now } call.verb call.uri call.body call.sendToSlaves).1 calls

/-- A request the journal takes: the types of its values, a URI that is a C string, the two limits, and a clock past its
first minute. -/
structure LogCall.Ok (call : LogCall) : Prop where
  verb : call.verb < 2 ^ 31
  uri : call.uri ≠ [] ∧ (0 : UInt8) ∉ call.uri
  limits : LogLimits call.uri call.body
  clock : 60 ≤ call.now ∧ call.now < 2 ^ 63

instance (call : LogCall) : Decidable call.Ok :=
  decidable_of_iff (call.verb < 2 ^ 31 ∧ (call.uri ≠ [] ∧ (0 : UInt8) ∉ call.uri) ∧ LogLimits call.uri call.body ∧
    60 ≤ call.now ∧ call.now < 2 ^ 63) ⟨fun h => ⟨h.1, h.2.1, h.2.2.1, h.2.2.2⟩, fun h => ⟨h.1, h.2, h.3, h.4⟩⟩

/-- The items of a journal: a mark before the first record of every minute. -/
def journalItems (lastTs : Int) : List LogCall → List LogItem
  | [] => []
  | call :: calls =>
    let ts := call.now - Int.tmod call.now DB_LOG_TIMESTAMP_GRANULARITY
    if ts > lastTs then .timestamp ts :: .request call.logged :: journalItems ts calls
    else .request call.logged :: journalItems lastTs calls

theorem length_loggedBody_le (inputBuffer : Bytes) : (loggedBody inputBuffer).length ≤ inputBuffer.length := by
  unfold loggedBody
  split
  · rw [List.length_dropLast]
    omega
  · exact Nat.le_refl _

theorem LogCall.Ok.request_ok {call : LogCall} (h : call.Ok) : (LogItem.request call.logged).Ok := by
  have hbody := length_loggedBody_le call.body
  have hverb := h.verb
  obtain ⟨huri, hlim⟩ := h.limits
  unfold DB_LOG_MAX_URI_LEN at huri
  unfold DB_LOG_MAX_BODY_LEN at hlim
  unfold LogItem.Ok LogCall.logged
  exact ⟨⟨by simp only; omega, by simp only; omega⟩, h.uri, by simp only; omega, by simp only; omega⟩

theorem LogCall.Ok.timestamp_ok {call : LogCall} (h : call.Ok) :
    (LogItem.timestamp (call.now - Int.tmod call.now DB_LOG_TIMESTAMP_GRANULARITY)).Ok := by
  have hclock := h.clock
  have hmod : Int.tmod call.now DB_LOG_TIMESTAMP_GRANULARITY = call.now % 60 := Int.tmod_eq_emod_of_nonneg (by omega)
  unfold LogItem.Ok
  rw [hmod]
  omega

theorem journalItems_ok : ∀ {calls : List LogCall} (lastTs : Int), (∀ call ∈ calls, call.Ok) →
    ∀ item ∈ journalItems lastTs calls, item.Ok
  | [], _, _, _, h => by cases h
  | call :: calls, lastTs, hok, item, h => by
    have hcall := hok call List.mem_cons_self
    have ih := fun ts => journalItems_ok ts (fun c hc => hok c (List.mem_cons_of_mem call hc)) item
    unfold journalItems at h
    simp only at h
    split at h
    · simp only [List.mem_cons] at h
      rcases h with rfl | rfl | h
      · exact hcall.timestamp_ok
      · exact hcall.request_ok
      · exact ih _ h
    · rcases List.mem_cons.1 h with rfl | h
      · exact hcall.request_ok
      · exact ih _ h

/-- The requests of a journal are those of the calls, in their order. -/
theorem journalItems_requests : ∀ (calls : List LogCall) (lastTs : Int),
    (journalItems lastTs calls).filterMap LogItem.request? = calls.map LogCall.logged
  | [], _ => rfl
  | call :: calls, lastTs => by
    unfold journalItems
    simp only
    split <;> simp [List.filterMap_cons, LogItem.request?, journalItems_requests calls]

/-- What a call that is within the limits leaves: the journal is still open, and its last mark is the latest one. -/
theorem addToDbLog_kept (context : HttpHandlerContext D) {file : Bytes} (hopen : context.dbLog.dbLogFd = some file)
    {uri inputBuffer : Bytes} (hlim : LogLimits uri inputBuffer) (verb : Nat) (sendToSlaves : Bool) :
    let ts := context.now - Int.tmod context.now DB_LOG_TIMESTAMP_GRANULARITY
    let dbLog := (addToDbLog context verb uri inputBuffer sendToSlaves).1.dbLog
    dbLog.lastTs = (if ts > context.dbLog.lastTs then ts else context.dbLog.lastTs) ∧ dbLog.dbLogFd.isSome ∧
      dbLog.dbLogFileName = context.dbLog.dbLogFileName := by
  have hle : ¬ (uri.length > DB_LOG_MAX_URI_LEN ∨ inputBuffer.length > DB_LOG_MAX_BODY_LEN) := by
    have := hlim.1
    have := hlim.2
    omega
  have hflush : ∀ dbLog : DBLog UInt8, (flushAfterRecord dbLog).lastTs = dbLog.lastTs ∧
      (flushAfterRecord dbLog).dbLogFd.isSome = dbLog.dbLogFd.isSome ∧
      (flushAfterRecord dbLog).dbLogFileName = dbLog.dbLogFileName := by
    intro dbLog
    unfold flushAfterRecord
    split
    · exact flushDbLog_kept dbLog true
    · split
      · exact flushDbLog_kept dbLog false
      · exact ⟨rfl, rfl, rfl⟩
  unfold addToDbLog
  simp only [hopen, if_neg hle]
  rw [(hflush _).1, (hflush _).2.1, (hflush _).2.2]
  unfold addTimestamp
  simp only
  split <;> simp [hopen]

/-- **The journal of a list of calls is the list of its items.** -/
theorem addAllToDbLog_journal : ∀ {calls : List LogCall} (context : HttpHandlerContext D),
    context.dbLog.dbLogFd.isSome → (∀ call ∈ calls, call.Ok) →
    (addAllToDbLog context calls).dbLog.journal =
      context.dbLog.journal ++ (journalItems context.dbLog.lastTs calls).flatMap LogItem.encode
  | [], _, _, _ => by simp [addAllToDbLog, journalItems]
  | call :: calls, context, hopen, hok => by
    obtain ⟨file, hfile⟩ := Option.isSome_iff_exists.1 hopen
    have hcall := hok call List.mem_cons_self
    have hj := addToDbLog_journal { context with now := call.now } hfile hcall.limits call.verb call.sendToSlaves
    obtain ⟨hts, hopen', -⟩ := addToDbLog_kept { context with now := call.now } hfile hcall.limits call.verb
      call.sendToSlaves
    have ih := addAllToDbLog_journal _ hopen' (fun c hc => hok c (List.mem_cons_of_mem call hc))
    unfold addAllToDbLog journalItems
    rw [ih, hj, hts]
    simp only [timestampMark]
    split <;> simp [LogItem.encode, LogCall.logged]

theorem addAllToDbLog_kept : ∀ {calls : List LogCall} (context : HttpHandlerContext D),
    context.dbLog.dbLogFd.isSome → (∀ call ∈ calls, call.Ok) →
    (addAllToDbLog context calls).dbLog.dbLogFd.isSome ∧
      (addAllToDbLog context calls).dbLog.dbLogFileName = context.dbLog.dbLogFileName
  | [], _, hopen, _ => ⟨hopen, rfl⟩
  | call :: calls, context, hopen, hok => by
    obtain ⟨file, hfile⟩ := Option.isSome_iff_exists.1 hopen
    obtain ⟨-, hopen', hname⟩ := addToDbLog_kept { context with now := call.now } hfile
      (hok call List.mem_cons_self).limits call.verb call.sendToSlaves
    have ih := addAllToDbLog_kept _ hopen' (fun c hc => hok c (List.mem_cons_of_mem call hc))
    exact ⟨ih.1, ih.2.trans hname⟩

/-! ## Restart -/

/-- A journal that was just opened has the whole file left. -/
theorem initBufferedRead_left (dbLog : DBLog UInt8) (file : Bytes) :
    FileLeft { dbLog with lastTs := -1, dbLogFd := some file, dbLogOffset := 0, logBuffer := [] }
      ({ dbLog with lastTs := -1, dbLogFd := some file, dbLogOffset := 0, logBuffer := [] },
        initBufferedRead { dbLog with lastTs := -1, dbLogFd := some file, dbLogOffset := 0, logBuffer := [] }) file :=
  ⟨file, rfl, rfl, rfl, Nat.zero_le _, rfl⟩

/-- **A restart replays what `scan` finds in the file.** -/
theorem replayLog_eq (stack : Nat → Bytes) {dbLog : DBLog UInt8} {file : Bytes} (hname : dbLog.dbLogFileName ≠ none)
    {res : Int} {reqs : List LoggedRequest} {torn : Bytes}
    (h : scan stack (file.length + 1) file = some (res, reqs, torn)) :
    ∃ dbLog', replayLog stack (openDbLog dbLog file).1 = some (if res < 0 then -1 else 0, reqs, dbLog') ∧
      (¬ BadCookie torn → ∃ n, dbLog' = { (openDbLog dbLog file).1 with dbLogOffset := n }) := by
  obtain ⟨name, hname⟩ := Option.ne_none_iff_exists'.1 hname
  unfold openDbLog replayLog replayLogBy
  simp only [hname, Option.getD_some]
  obtain ⟨dbLog', hloop, hfile⟩ := replayLogLoop_eq stack _ (initBufferedRead_left dbLog file) h
  rw [if_neg (by simp), ← hname]
  simp only at hloop
  rw [hloop]
  exact ⟨dbLog', rfl, hfile⟩

/-- **Replay ends**: every record it reads has bytes of its own. -/
theorem replayLog_isSome (stack : Nat → Bytes) (dbLog : DBLog UInt8) (file : Bytes) :
    (replayLog stack (openDbLog dbLog file).1).isSome = true := by
  by_cases hname : dbLog.dbLogFileName = none
  · unfold openDbLog replayLog replayLogBy
    simp [hname]
  · obtain ⟨⟨res, reqs, torn⟩, h⟩ := Option.isSome_iff_exists.1 (scan_isSome stack (file.length + 1) file (by omega))
    obtain ⟨dbLog', hreplay, -⟩ := replayLog_eq stack hname h
    rw [hreplay]
    rfl

/-- A journal of complete items is replayed to its end. -/
theorem scan_items (stack : Nat → Bytes) {items : List LogItem} (h : ∀ item ∈ items, item.Ok) {fuel : Nat}
    (hfuel : items.length < fuel) : scan stack fuel (items.flatMap LogItem.encode) =
      some (1, items.filterMap LogItem.request?, []) := by
  obtain ⟨n, rfl⟩ : ∃ n, fuel = items.length + (n + 1) := ⟨fuel - items.length - 1, by omega⟩
  have hscan := scan_encode stack [] (n + 1) h
  rw [List.append_nil] at hscan
  rw [hscan]
  simp [scan, scanRecord, takeBytes, DB_LOG_RECORD_COOKIE_HEAD, bytes]

/-- **The codec of the journal.**  What a list of calls adds to an empty journal is a list of items; it is replayed as
the requests of the calls, each body without a NUL at its end, and the reader in memory reads each item alone. -/
theorem journal_codec {context : HttpHandlerContext D} (hname : context.dbLog.dbLogFileName ≠ none)
    (hopen : context.dbLog.dbLogFd = some []) (hbuffer : context.dbLog.logBuffer = []) {calls : List LogCall}
    (hcalls : ∀ call ∈ calls, call.Ok) (stack : Nat → Bytes) :
    let journal := (addAllToDbLog context calls).dbLog.journal
    let items := journalItems context.dbLog.lastTs calls
    journal = items.flatMap LogItem.encode ∧ items.filterMap LogItem.request? = calls.map LogCall.logged ∧
      (∃ dbLog', replayLog stack (openDbLog context.dbLog journal).1 = some (0, calls.map LogCall.logged, dbLog')) ∧
      ∀ item ∈ items, mReplayLogRecord (stack 0) item.encode item.encode.length = (0, item.request?) := by
  have hempty : context.dbLog.journal = [] := by simp [DBLog.journal, hopen, hbuffer]
  have hjournal := addAllToDbLog_journal context (by rw [hopen]; rfl) hcalls
  rw [hempty, List.nil_append] at hjournal
  have hok := journalItems_ok context.dbLog.lastTs hcalls
  refine ⟨hjournal, journalItems_requests calls _, ?_, fun item hitem => ?_⟩
  · have hscan := scan_items stack hok (Nat.lt_succ_of_le (length_le_flatMap_encode _))
    rw [journalItems_requests, ← hjournal] at hscan
    obtain ⟨dbLog', hreplay, -⟩ := replayLog_eq stack hname hscan
    exact ⟨dbLog', hreplay⟩
  · have hscan := scanRecord_encode (hok item hitem) (stack 0) []
    rw [List.append_nil] at hscan
    rw [mReplayLogRecord_eq _ (Nat.le_refl _), List.take_length, hscan]

/-- A record, a minute later one with the end of a record, a cookie and a NUL in its body, and a third one. -/
theorem journal_codec_three : ∃ dbLog', replayLog (fun _ => [])
    (openDbLog freshContext.dbLog (addAllToDbLog freshContext
      [⟨60, EVHTTP_REQ_POST, bytes "/api/1.0/layers/x.json", [], true⟩,
        ⟨125, EVHTTP_REQ_PUT, bytes "/api/1.0/records/x/a b.json", bytes "v=>\n-<@1 T>\n" ++ [0, 0], true⟩,
        ⟨126, EVHTTP_REQ_DELETE, bytes "/api/1.0/records/x/a:1.json", [10], false⟩]).dbLog.journal).1 =
    some (0, [⟨2, bytes "/api/1.0/layers/x.json", []⟩,
      ⟨8, bytes "/api/1.0/records/x/a b.json", bytes "v=>\n-<@1 T>\n" ++ [0]⟩,
      ⟨16, bytes "/api/1.0/records/x/a:1.json", [10]⟩], dbLog') :=
  (journal_codec (by decide) rfl rfl (by
    simp only [List.mem_cons, List.not_mem_nil, or_false, forall_eq_or_imp, forall_eq]
    refine ⟨⟨?_, ?_, ?_, ?_⟩, ⟨?_, ?_, ?_, ?_⟩, ⟨?_, ?_, ?_, ?_⟩⟩ <;> decide) _).2.2.1

end Pincaster
