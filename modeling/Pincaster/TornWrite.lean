import Pincaster.JournalCodec
/-!
# TornWrite — a restart on a journal whose last write was cut

What `replay_log` returns is not looked at, and the file is only cut where a wrong cookie is read: a torn record stays
in front of every later one.  `torn_write_recovered_iff` says which torn records do no harm.
-/
namespace Pincaster

open Lib (Bytes bytes cstr strtol strtoul printNat isDigitOf ofDigits Decoder takeBytes readUntil)

variable {D : Type}

/-- A restart on a file: the journal is opened and replayed, whatever `replay_log` returns. -/
def restartDbLog (stack : Nat → Bytes) (dbLog : DBLog UInt8) (file : Bytes) :
    Option (List LoggedRequest × DBLog UInt8) :=
  (replayLog stack (openDbLog dbLog file).1).map fun (_, reqs, dbLog) => (reqs, dbLog)

/-- What is replayed after a restart on a file, some requests, a flush and another restart. -/
def secondRestart (stack stack' : Nat → Bytes) (context : HttpHandlerContext D) (file : Bytes) (calls : List LogCall) :
    Option (List LoggedRequest) := do
  let (_, dbLog) ← restartDbLog stack context.dbLog file
  let context := addAllToDbLog { context with dbLog } calls
  let dbLog := flushDbLog context.dbLog true
  let (reqs, _) ← restartDbLog stack' dbLog (dbLog.dbLogFd.getD [])
  some reqs

/-- A timestamp mark that was cut inside its digits. -/
def CutMark (torn : Bytes) : Prop :=
  ∃ ds ≠ [], (∀ c ∈ ds, isDigitOf 16 c = true) ∧
    torn = DB_LOG_RECORD_COOKIE_HEAD ++ DB_LOG_RECORD_COOKIE_MARK_CHAR ++ ds

/-! ## The first restart -/

/-- A prefix of two strings in a row ends in the first one or behind it. -/
theorem prefix_split {α : Type} {p a b : List α} (h : p <+: a ++ b) : p <+: a ∨ ∃ q, p = a ++ q ∧ q <+: b :=
  (List.prefix_or_prefix_of_prefix h (List.prefix_append a b)).imp_right fun ⟨q, hq⟩ =>
    ⟨q, hq.symm, (List.prefix_append_right_inj a).1 (hq ▸ h)⟩

theorem encode_timestamp (ts : Int) : (LogItem.timestamp ts).encode = DB_LOG_RECORD_COOKIE_HEAD ++
    (DB_LOG_RECORD_COOKIE_MARK_CHAR ++ (printNat 16 (ts % 2 ^ 64).toNat ++ bytes " T>\n")) := by
  simp [LogItem.encode, addTsToEvLogBuffer, bytes, DB_LOG_RECORD_COOKIE_TIMESTAMP_CHAR, DB_LOG_RECORD_COOKIE_TAIL]

theorem encode_request (req : LoggedRequest) : ∃ rest, (LogItem.request req).encode =
    DB_LOG_RECORD_COOKIE_HEAD ++ (printNat 16 req.verb.toNat ++ (bytes " " ++ rest)) := by
  refine ⟨printNat 16 req.uri.length ++ (bytes ":" ++ (req.uri ++ (bytes " " ++ (printNat 16 req.body.length ++
    (bytes ":" ++ (req.body ++ DB_LOG_RECORD_COOKIE_TAIL)))))), ?_⟩
  simp [LogItem.encode, logRecord]

/-- Every item starts with a cookie. -/
theorem head_prefix_encode (item : LogItem) : DB_LOG_RECORD_COOKIE_HEAD <+: item.encode := by
  cases item with
  | timestamp ts =>
    rw [encode_timestamp]
    exact List.prefix_append _ _
  | request req =>
    obtain ⟨rest, hrest⟩ := encode_request req
    rw [hrest]
    exact List.prefix_append _ _

section Torn

variable {item : LogItem} {torn : Bytes}

theorem torn_cookie (hp : torn <+: item.encode) : ¬ BadCookie torn := by
  rintro ⟨hlen, hbad⟩
  have hhead : DB_LOG_RECORD_COOKIE_HEAD <+: torn :=
    List.prefix_of_prefix_length_le (head_prefix_encode item) hp hlen
  exact hbad (List.prefix_iff_eq_take.1 hhead).symm

/-- A record that was cut is not read. -/
theorem torn_failed (hok : item.Ok) (hp : torn <+: item.encode) (hne : torn ≠ item.encode) (stack : Bytes) :
    (scanRecord stack torn).1 ≠ 0 := by
  intro h
  obtain ⟨rest, hrest⟩ := hp
  have hwhole := scanRecord_append h rest
  have hread := scanRecord_encode hok stack []
  rw [List.append_nil, ← hrest, hwhole] at hread
  have hnil := congrArg (fun r => r.2.2) hread
  simp only [List.append_eq_nil_iff] at hnil
  rw [hnil.2, List.append_nil] at hrest
  exact hne hrest

theorem scan_torn (hok : item.Ok) (hp : torn <+: item.encode) (hne : torn ≠ item.encode) (stack : Nat → Bytes)
    (fuel : Nat) : ∃ res, scan stack (fuel + 1) torn = some (res, [], torn) := by
  have hfail := torn_failed hok hp hne (stack fuel)
  have hreq := scanRecord_failed hfail
  rw [scan]
  rcases hs : scanRecord (stack fuel) torn with ⟨res, req, l⟩
  rw [hs] at hfail hreq
  simp only at hfail hreq ⊢
  rw [if_neg hfail, hreq]
  exact ⟨res, rfl⟩

/-- What a restart replays is what `scan` finds. -/
theorem restart_scan (stack : Nat → Bytes) {dbLog : DBLog UInt8} (hname : dbLog.dbLogFileName ≠ none)
    (file : Bytes) : ((restartDbLog stack dbLog file).bind fun r => some r.1) =
      (scan stack (file.length + 1) file).map fun r => r.2.1 := by
  obtain ⟨⟨res, reqs, torn⟩, h⟩ := Option.isSome_iff_exists.1 (scan_isSome stack (file.length + 1) file (by omega))
  obtain ⟨dbLog', hreplay, -⟩ := replayLog_eq stack hname h
  rw [restartDbLog, hreplay, h]
  rfl

variable {items : List LogItem} {context : HttpHandlerContext D}

/-- The restart replays the complete records, and leaves the file as it is. -/
theorem restart_torn (hname : context.dbLog.dbLogFileName ≠ none) (hitems : ∀ item ∈ items, item.Ok) (hok : item.Ok)
    (hp : torn <+: item.encode) (hne : torn ≠ item.encode) (stack : Nat → Bytes) :
    ∃ n, restartDbLog stack context.dbLog (items.flatMap LogItem.encode ++ torn) =
      some (items.filterMap LogItem.request?,
        { (openDbLog context.dbLog (items.flatMap LogItem.encode ++ torn)).1 with dbLogOffset := n }) := by
  have hle := length_le_flatMap_encode items
  obtain ⟨fuel, hfuel⟩ : ∃ fuel, (items.flatMap LogItem.encode ++ torn).length + 1 = items.length + (fuel + 1) :=
    ⟨(items.flatMap LogItem.encode ++ torn).length - items.length, by rw [List.length_append]; omega⟩
  obtain ⟨res, htorn⟩ := scan_torn hok hp hne stack fuel
  have hscan := scan_encode stack torn (fuel + 1) hitems
  rw [htorn, ← hfuel] at hscan
  obtain ⟨dbLog', hreplay, hfile⟩ := replayLog_eq stack hname hscan
  obtain ⟨n, rfl⟩ := hfile (torn_cookie hp)
  refine ⟨n, ?_⟩
  rw [restartDbLog, hreplay, List.append_nil]
  rfl

variable (context) in
/-- **The second restart** reads the complete records, and then what is torn in front of the new records. -/
theorem secondRestart_eq (hname : context.dbLog.dbLogFileName ≠ none) (hitems : ∀ item ∈ items, item.Ok)
    (hok : item.Ok) (hp : torn <+: item.encode) (hne : torn ≠ item.encode) (stack stack' : Nat → Bytes)
    {calls : List LogCall} (hcalls : ∀ call ∈ calls, call.Ok) :
    ∃ fuel, (journalItems (-1) calls).length ≤ fuel ∧
      secondRestart stack stack' context (items.flatMap LogItem.encode ++ torn) calls =
        (scan stack' (fuel + 1) (torn ++ (journalItems (-1) calls).flatMap LogItem.encode)).map
          fun (_, reqs, _) => items.filterMap LogItem.request? ++ reqs := by
  obtain ⟨n, hfirst⟩ := restart_torn hname hitems hok hp hne stack
  obtain ⟨name, hname⟩ := Option.ne_none_iff_exists'.1 hname
  have hopen : openDbLog context.dbLog (items.flatMap LogItem.encode ++ torn) =
      ({ context.dbLog with
          lastTs := -1, dbLogFd := some (items.flatMap LogItem.encode ++ torn), dbLogOffset := 0, logBuffer := [] },
        0) := by
    simp [openDbLog, hname]
  rw [hopen] at hfirst
  unfold secondRestart
  rw [hfirst]
  simp only [Option.bind_eq_bind, Option.bind_some]
  generalize hcontext : ({ context with
    dbLog := { context.dbLog with
      lastTs := -1, dbLogFd := some (items.flatMap LogItem.encode ++ torn), dbLogOffset := n,
      logBuffer := [] } } : HttpHandlerContext D) = context'
  have hfd : context'.dbLog.dbLogFd.isSome := by
    rw [← hcontext]
    rfl
  have hjournal := addAllToDbLog_journal context' hfd hcalls
  have hkept := addAllToDbLog_kept context' hfd hcalls
  have hbefore : context'.dbLog.journal = items.flatMap LogItem.encode ++ torn ∧ context'.dbLog.lastTs = -1 ∧
      context'.dbLog.dbLogFileName = some name := by
    rw [← hcontext]
    exact ⟨by simp [DBLog.journal], rfl, hname⟩
  rw [hbefore.1, hbefore.2.1, List.append_assoc] at hjournal
  obtain ⟨file, hfile⟩ := Option.isSome_iff_exists.1 hkept.1
  have hflushed : (flushDbLog (addAllToDbLog context' calls).dbLog true).dbLogFd =
      some (addAllToDbLog context' calls).dbLog.journal := by
    rw [(flushDbLog_sync hfile).1, DBLog.journal, hfile, Option.getD_some]
  rw [hflushed, hjournal, Option.getD_some]
  rw [restart_scan stack' (by rw [(flushDbLog_kept _ true).2.2, hkept.2, hbefore.2.2]; exact Option.some_ne_none name)]
  have hle := length_le_flatMap_encode items
  have hle' := length_le_flatMap_encode (journalItems (-1) calls)
  generalize hrest : torn ++ (journalItems (-1) calls).flatMap LogItem.encode = rest
  have hlen : (journalItems (-1) calls).length ≤ rest.length := by
    rw [← hrest, List.length_append]
    omega
  obtain ⟨fuel, hfuel⟩ : ∃ fuel, (items.flatMap LogItem.encode ++ rest).length + 1 = items.length + (fuel + 1) :=
    ⟨(items.flatMap LogItem.encode ++ rest).length - items.length, by rw [List.length_append]; omega⟩
  refine ⟨fuel, ?_, ?_⟩
  · rw [List.length_append] at hfuel
    omega
  · rw [hfuel, scan_encode stack' rest (fuel + 1) hitems, Option.map_map]
    rfl

/-! ## What is torn in front of a mark -/

theorem scanRecord_head (stack l : Bytes) : scanRecord stack (DB_LOG_RECORD_COOKIE_HEAD ++ l) =
    match (readRecord takeBytes stack).run l with
    | (none, l) => (-1, none, l)
    | (some item, l) => (0, item.request?, l) := by
  have hread : (takeBytes DB_LOG_RECORD_COOKIE_HEAD.length).run (DB_LOG_RECORD_COOKIE_HEAD ++ l) =
      (some DB_LOG_RECORD_COOKIE_HEAD, l) := Lib.takeBytes_append rfl
  rcases hrecord : (readRecord takeBytes stack).run l with ⟨_ | item, l'⟩ <;> simp [scanRecord, hread, hrecord]

/-- The digits behind a mark that was cut go into the number of the next mark. -/
theorem scanRecord_cutMark {ds : Bytes} (hne : ds ≠ []) (hds : ∀ c ∈ ds, isDigitOf 16 c = true)
    (hpos : 0 < ofDigits 16 ds) (hlen : ds.length ≤ 16) {ts : Int} (hts : 0 < ts ∧ ts < 2 ^ 63) (stack rest : Bytes) :
    scanRecord stack (DB_LOG_RECORD_COOKIE_HEAD ++ DB_LOG_RECORD_COOKIE_MARK_CHAR ++ ds ++
      ((LogItem.timestamp ts).encode ++ rest)) = (0, none, rest) := by
  obtain ⟨n, rfl⟩ := Int.eq_ofNat_of_zero_le hts.1.le
  have hn : ((n : Int) % 2 ^ 64).toNat = n := by omega
  obtain ⟨hmem, -⟩ := printNat_token (n := n) (show isDigitOf 16 32 = false by decide) (by omega)
  have hdigits := Lib.length_printNat_le (show 2 ≤ 16 by omega) (show n < 16 ^ (15 + 1) by omega)
  have htoken : (32 : UInt8) ∉ 64 :: (ds ++ (bytes "-<@" ++ printNat 16 n)) := by
    simp only [List.mem_cons, List.mem_append, not_or]
    exact ⟨by decide, fun h => absurd (hds _ h) (by decide), by decide, hmem⟩
  have hroom : (64 :: (ds ++ (bytes "-<@" ++ printNat 16 n))).length < SIZEOF_BUF_NUMBER := by
    have : (bytes "-<@").length = 3 := rfl
    simp only [List.length_cons, List.length_append, SIZEOF_BUF_NUMBER]
    omega
  have hread := Lib.readUntil_delim stack [] (DB_LOG_RECORD_COOKIE_TIMESTAMP_CHAR ++ (DB_LOG_RECORD_COOKIE_TAIL ++ rest))
    htoken hroom
  rw [encode_timestamp, hn]
  have hbytes : DB_LOG_RECORD_COOKIE_HEAD ++ DB_LOG_RECORD_COOKIE_MARK_CHAR ++ ds ++ (DB_LOG_RECORD_COOKIE_HEAD ++
      (DB_LOG_RECORD_COOKIE_MARK_CHAR ++ (printNat 16 n ++ bytes " T>\n")) ++ rest) = DB_LOG_RECORD_COOKIE_HEAD ++
      (64 :: (ds ++ (bytes "-<@" ++ printNat 16 n)) ++ 32 :: (DB_LOG_RECORD_COOKIE_TIMESTAMP_CHAR ++
        (DB_LOG_RECORD_COOKIE_TAIL ++ rest))) := by
    simp [DB_LOG_RECORD_COOKIE_HEAD, DB_LOG_RECORD_COOKIE_MARK_CHAR, DB_LOG_RECORD_COOKIE_TIMESTAMP_CHAR,
      DB_LOG_RECORD_COOKIE_TAIL, bytes]
  rw [hbytes, scanRecord_head]
  unfold readRecord
  rw [Decoder.bind_of_some hread]
  generalize stack.drop _ = junk
  simp only [List.nil_append, List.cons_append, List.append_assoc, List.head?_cons]
  rw [if_pos (show some 64 = DB_LOG_RECORD_COOKIE_MARK_CHAR.head? from rfl),
    readTimestamp_pos (Lib.strtol_digits (by omega) hds hne (by rintro c hc; cases hc; decide)) (by simpa using hne)
      (by omega),
    Decoder.bind_of_some (Lib.takeBytes_append (p := DB_LOG_RECORD_COOKIE_TIMESTAMP_CHAR) (n := 1) rfl), if_pos rfl,
    Decoder.bind_of_some (readCookieTail_append rest)]
  rfl

theorem readRequest_none {bufNumber : Bytes} (h : Lib.strtoDigits 16 bufNumber = none) :
    readRequest takeBytes bufNumber = .fail := by
  unfold readRequest strtol
  rw [h]
  exact if_pos rfl

/-- Cut digits in front of a mark: the mark becomes part of the first number, which is then no number or is followed by
none. -/
theorem scanRecord_cutNumber {ds : Bytes} (hds : ∀ c ∈ ds, isDigitOf 16 c = true) (hlen : ds.length ≤ 16)
    (stack rest : Bytes) :
    (scanRecord stack (DB_LOG_RECORD_COOKIE_HEAD ++ ds ++ (bytes "-<@3c T>\n" ++ rest))).1 = -1 := by
  have htoken : (32 : UInt8) ∉ ds ++ bytes "-<@3c" := by
    simp only [List.mem_append, not_or]
    exact ⟨fun h => absurd (hds _ h) (by decide), by decide⟩
  have hroom : (ds ++ bytes "-<@3c").length < SIZEOF_BUF_NUMBER := by
    have : (bytes "-<@3c").length = 5 := rfl
    simp only [List.length_append, SIZEOF_BUF_NUMBER]
    omega
  have hread := Lib.readUntil_delim stack [] (bytes "T>\n" ++ rest) htoken hroom
  have hbytes : DB_LOG_RECORD_COOKIE_HEAD ++ ds ++ (bytes "-<@3c T>\n" ++ rest) =
      DB_LOG_RECORD_COOKIE_HEAD ++ (ds ++ bytes "-<@3c" ++ 32 :: (bytes "T>\n" ++ rest)) := by
    simp [bytes]
  rw [hbytes, scanRecord_head]
  unfold readRecord
  rw [Decoder.bind_of_some hread]
  generalize stack.drop _ = junk
  simp only [List.nil_append, List.append_assoc, List.singleton_append]
  have hhead : (ds ++ (bytes "-<@3c" ++ 32 :: junk)).head? ≠ DB_LOG_RECORD_COOKIE_MARK_CHAR.head? := by
    rcases ds with _ | ⟨d, ds⟩
    · exact fun h => absurd (Option.some.inj h) (by decide)
    · intro h
      have hd := hds d List.mem_cons_self
      rw [show d = 64 from Option.some.inj h] at hd
      exact absurd hd (by decide)
  rw [if_neg hhead]
  by_cases hne : ds = []
  · -- no digit before the mark
    rw [hne, readRequest_none rfl]
    rfl
  · unfold readRequest
    rw [Lib.strtol_digits (by omega) hds hne (by rintro c hc; cases hc; decide)]
    simp only
    rw [if_neg (by simpa using hne)]
    -- the next number starts with the `T` of the mark
    rcases hnum : (readUntil takeBytes 58 (ds ++ (bytes "-<@3c" ++ 32 :: junk)) SIZEOF_BUF_NUMBER []).run
        (bytes "T>\n" ++ rest) with ⟨_ | bufNumber, l⟩
    · rw [Decoder.bind_of_none hnum]
    · rw [Decoder.bind_of_some hnum]
      have hstep : (readUntil takeBytes 58 (ds ++ (bytes "-<@3c" ++ 32 :: junk)) 49 [84]).run (bytes ">\n" ++ rest) =
          (some bufNumber, l) := hnum
      obtain ⟨t, rfl⟩ := Lib.readUntil_starts hstep
      have hnone : Lib.strtoDigits 16 ([84] ++ t) = none := by
        rcases t with _ | ⟨a, _ | ⟨b, t⟩⟩ <;> rfl
      simp only [strtoul, hnone, true_or, if_true]
      rfl

theorem torn_cases {l torn : Bytes} (hp : torn <+: DB_LOG_RECORD_COOKIE_HEAD ++ l) (hne : torn ≠ []) :
    torn = bytes "-" ∨ ∃ q, torn = DB_LOG_RECORD_COOKIE_HEAD ++ q ∧ q <+: l := by
  rcases List.prefix_cons_iff.1 hp with rfl | ⟨t, rfl, ht⟩
  · exact absurd rfl hne
  · rcases List.prefix_cons_iff.1 ht with rfl | ⟨q, rfl, hq⟩
    · exact .inl rfl
    · exact .inr ⟨q, rfl, hq⟩

theorem scanRecord_cutCookie (stack rest : Bytes) :
    (scanRecord stack (bytes "-" ++ (bytes "-<@3c T>\n" ++ rest))).1 = -1 := by
  have hread : (takeBytes DB_LOG_RECORD_COOKIE_HEAD.length).run (bytes "-" ++ (bytes "-<@3c T>\n" ++ rest)) =
      (some (bytes "--"), bytes "<@3c T>\n" ++ rest) := rfl
  unfold scanRecord
  rw [hread]
  rfl

theorem readTimestamp_none {bufNumber : Bytes} (h : Lib.strtoDigits 16 bufNumber.tail = none) :
    readTimestamp takeBytes bufNumber = .fail := by
  unfold readTimestamp strtol
  rw [h]
  exact if_pos (.inl rfl)

theorem scanRecord_cutAt (stack rest : Bytes) :
    (scanRecord stack (DB_LOG_RECORD_COOKIE_HEAD ++ [64] ++ (bytes "-<@3c T>\n" ++ rest))).1 = -1 := by
  have hread := Lib.readUntil_delim stack [] (bytes "T>\n" ++ rest) (show (32 : UInt8) ∉ bytes "@-<@3c" by decide)
    (show (bytes "@-<@3c").length < SIZEOF_BUF_NUMBER by decide)
  have hbytes : DB_LOG_RECORD_COOKIE_HEAD ++ [64] ++ (bytes "-<@3c T>\n" ++ rest) =
      DB_LOG_RECORD_COOKIE_HEAD ++ (bytes "@-<@3c" ++ 32 :: (bytes "T>\n" ++ rest)) := rfl
  rw [hbytes, scanRecord_head]
  unfold readRecord
  rw [Decoder.bind_of_some hread]
  generalize stack.drop _ = junk
  change (match (readTimestamp takeBytes (bytes "@-<@3c" ++ [32] ++ junk)).run (bytes "T>\n" ++ rest) with
    | (none, l) => ((-1 : Int), none, l)
    | (some item, l) => (0, item.request?, l)).1 = -1
  rw [readTimestamp_none rfl]
  rfl

/-- The number of a mark is read, whatever stands behind the blank. -/
theorem readRecord_mark {n : Nat} (hn : n < 2 ^ 63) (hpos : 0 < (n : Int) ∧ (n : Int) < 2 ^ 63) (stack rest : Bytes) :
    (readRecord takeBytes stack).run (64 :: printNat 16 n ++ 32 :: rest) =
      Decoder.run (do
        let t ← takeBytes 1
        if t = DB_LOG_RECORD_COOKIE_TIMESTAMP_CHAR then do
          readCookieTail takeBytes
          pure (.timestamp n)
        else .fail) rest := by
  obtain ⟨hmem, -⟩ := printNat_token (n := n) (show isDigitOf 16 32 = false by decide) (by omega)
  have htoken : (32 : UInt8) ∉ 64 :: printNat 16 n := by
    rw [List.mem_cons, not_or]
    exact ⟨by decide, hmem⟩
  have hroom : (64 :: printNat 16 n).length < SIZEOF_BUF_NUMBER := by
    have := Lib.length_printNat_le (show 2 ≤ 16 by omega) (show n < 16 ^ (15 + 1) by omega)
    rw [List.length_cons]
    unfold SIZEOF_BUF_NUMBER
    omega
  have hread := Lib.readUntil_delim stack [] rest htoken hroom
  unfold readRecord
  rw [Decoder.bind_of_some hread]
  generalize stack.drop _ = junk
  simp only [List.nil_append, List.cons_append, List.append_assoc]
  rw [List.head?_cons, if_pos (show some 64 = DB_LOG_RECORD_COOKIE_MARK_CHAR.head? from rfl),
    readTimestamp_pos (Lib.strtol_printNat (by omega) (by omega) hn (by rintro c hc; cases hc; decide))
      (by simp [Lib.printNat_ne_nil]) hpos.1]

/-- The digits of a mark that was cut have a value, and are few. -/
theorem cutMark_digits {item : LogItem} (hok : item.Ok) {ds : Bytes} (hne : ds ≠ [])
    (hp : DB_LOG_RECORD_COOKIE_HEAD ++ DB_LOG_RECORD_COOKIE_MARK_CHAR ++ ds <+: item.encode)
    (hds : ∀ c ∈ ds, isDigitOf 16 c = true) : 0 < ofDigits 16 ds ∧ ds.length ≤ 16 := by
  rw [List.append_assoc] at hp
  cases item with
  | timestamp ts =>
    obtain ⟨n, rfl⟩ := Int.eq_ofNat_of_zero_le hok.1.le
    obtain ⟨hpos, hlt⟩ := hok
    have hn : ((n : Int) % 2 ^ 64).toNat = n := by omega
    rw [encode_timestamp, hn, List.prefix_append_right_inj, List.prefix_append_right_inj] at hp
    have hlen := Lib.length_printNat_le (show 2 ≤ 16 by omega) (show n < 16 ^ (15 + 1) by omega)
    have hpre : ds <+: printNat 16 n := by
      rcases prefix_split hp with hp | ⟨q, rfl, hq⟩
      · exact hp
      · change q <+: 32 :: bytes "T>\n" at hq
        rcases List.prefix_cons_iff.1 hq with rfl | ⟨q, rfl, -⟩
        · rw [List.append_nil]
        · exact absurd (hds 32 (by simp)) (by decide)
    exact ⟨Lib.ofDigits_prefix_pos (by omega) (by omega) (Nat.lt_succ_self n) (by omega) hpre hne,
      hpre.length_le.trans hlen⟩
  | request req =>
    -- a request has a digit where a mark has its sign
    obtain ⟨rest, hrest⟩ := encode_request req
    rw [hrest, List.prefix_append_right_inj] at hp
    obtain ⟨d, ds', hd⟩ := List.exists_cons_of_ne_nil (Lib.printNat_ne_nil 16 req.verb.toNat)
    have hdigit := Lib.isDigitOf_printNat (show 2 ≤ 16 by omega) (by omega) req.verb.toNat d (by rw [hd]; simp)
    rw [hd] at hp
    have h64 : (64 : UInt8) = d := (List.cons_prefix_cons.1 hp).1
    rw [← h64] at hdigit
    exact absurd hdigit (by decide)

/-- A torn timestamp mark in front of another one, unless it was cut inside its digits, is not read. -/
theorem scanRecord_torn_timestamp {ts : Int} (hok : 0 < ts ∧ ts < 2 ^ 63) {torn : Bytes}
    (hp : torn <+: (LogItem.timestamp ts).encode) (hwhole : torn ≠ (LogItem.timestamp ts).encode) (hne : torn ≠ [])
    (hcut : ¬ CutMark torn) (stack rest : Bytes) :
    (scanRecord stack (torn ++ (bytes "-<@3c T>\n" ++ rest))).1 = -1 := by
  obtain ⟨n, rfl⟩ := Int.eq_ofNat_of_zero_le hok.1.le
  have hn : ((n : Int) % 2 ^ 64).toNat = n := by omega
  rw [encode_timestamp, hn] at hp hwhole
  have hdigits := Lib.isDigitOf_printNat (show 2 ≤ 16 by omega) (by omega) n
  have hlen := Lib.length_printNat_le (show 2 ≤ 16 by omega) (show n < 16 ^ (15 + 1) by omega)
  rcases torn_cases hp hne with rfl | ⟨q, rfl, hq⟩
  · exact scanRecord_cutCookie stack rest
  change q <+: 64 :: (printNat 16 n ++ bytes " T>\n") at hq
  rcases List.prefix_cons_iff.1 hq with rfl | ⟨q, rfl, hq₁⟩
  · exact scanRecord_cutNumber (by simp) (Nat.zero_le _) stack rest
  have hcut' : q ≠ [] → ¬ q <+: printNat 16 n := fun hnil hq =>
    hcut ⟨q, hnil, fun c hc => hdigits c (hq.subset hc), by simp [DB_LOG_RECORD_COOKIE_MARK_CHAR, bytes]⟩
  rcases prefix_split hq₁ with hq₁ | ⟨q, rfl, hq₂⟩
  · rw [show q = [] from Classical.byContradiction fun hnil => hcut' hnil hq₁]
    exact scanRecord_cutAt stack rest
  · change q <+: 32 :: 84 :: 62 :: 10 :: [] at hq₂
    rcases List.prefix_cons_iff.1 hq₂ with rfl | ⟨q, rfl, hq₃⟩
    · rw [List.append_nil] at hcut'
      exact absurd (List.prefix_refl _) (hcut' (Lib.printNat_ne_nil 16 n))
    have hbytes : DB_LOG_RECORD_COOKIE_HEAD ++ 64 :: (printNat 16 n ++ 32 :: q) ++ (bytes "-<@3c T>\n" ++ rest) =
        DB_LOG_RECORD_COOKIE_HEAD ++ (64 :: printNat 16 n ++ 32 :: (q ++ (bytes "-<@3c T>\n" ++ rest))) := by simp
    change (scanRecord stack (DB_LOG_RECORD_COOKIE_HEAD ++ 64 :: (printNat 16 n ++ 32 :: q) ++
      (bytes "-<@3c T>\n" ++ rest))).1 = -1
    rw [hbytes, scanRecord_head, readRecord_mark (by omega) hok]
    -- neither the `T` nor the end of a mark
    rcases List.prefix_cons_iff.1 hq₃ with rfl | ⟨q, rfl, hq₄⟩
    · rfl
    rcases List.prefix_cons_iff.1 hq₄ with rfl | ⟨q, rfl, hq₅⟩
    · rfl
    rcases List.prefix_cons_iff.1 hq₅ with rfl | ⟨q, rfl, hq₆⟩
    · rfl
    rw [List.prefix_nil.1 hq₆] at hwhole
    exact absurd rfl hwhole

/-- A request that was read has the verb of its first number. -/
theorem readRequest_verb {bufNumber endptr l l' : Bytes} {verb : Int} {item : LogItem}
    (hverb : strtol 16 bufNumber = (verb, endptr))
    (h : (readRequest takeBytes bufNumber).run l = (some item, l')) :
    ∃ uri body, item = .request ⟨toInt verb, uri, body⟩ := by
  unfold readRequest at h
  rw [hverb] at h
  simp only at h
  split at h
  · cases h
  obtain ⟨bufNumber', l₁, -, h⟩ := Decoder.some_of_bind h
  split at h
  · cases h
  obtain ⟨uri, l₂, -, h⟩ := Decoder.some_of_bind h
  obtain ⟨body, l₃, -, h⟩ := Decoder.some_of_bind h
  cases h
  exact ⟨_, _, rfl⟩

/-- A torn request in front of a mark is read as a request with its verb, or not at all. -/
theorem scanRecord_torn_request {req : LoggedRequest} (hok : (LogItem.request req).Ok) {torn : Bytes}
    (hp : torn <+: (LogItem.request req).encode) (hne : torn ≠ []) (stack rest : Bytes) :
    (scanRecord stack (torn ++ (bytes "-<@3c T>\n" ++ rest))).1 = -1 ∨
      ∃ uri body, (scanRecord stack (torn ++ (bytes "-<@3c T>\n" ++ rest))).2.1 = some ⟨req.verb, uri, body⟩ := by
  obtain ⟨end', hend⟩ := encode_request req
  rw [hend] at hp
  obtain ⟨hverb, -⟩ := hok
  have hdigits := Lib.isDigitOf_printNat (show 2 ≤ 16 by omega) (by omega) req.verb.toNat
  have hlen := Lib.length_printNat_le (show 2 ≤ 16 by omega) (show req.verb.toNat < 16 ^ (15 + 1) by omega)
  rcases torn_cases hp hne with rfl | ⟨q, rfl, hq⟩
  · exact .inl (scanRecord_cutCookie stack rest)
  rcases prefix_split hq with hq₁ | ⟨q, rfl, hq₁⟩
  · exact .inl (scanRecord_cutNumber (fun c hc => hdigits c (hq₁.subset hc)) (hq₁.length_le.trans hlen) stack rest)
  change q <+: 32 :: end' at hq₁
  rcases List.prefix_cons_iff.1 hq₁ with rfl | ⟨q, rfl, -⟩
  · rw [List.append_nil]
    exact .inl (scanRecord_cutNumber hdigits hlen stack rest)
  -- the verb is complete
  obtain ⟨junk, hread⟩ := readRecord_number (n := req.verb.toNat) (by omega) stack
    (Lib.fed_token (printNat 16 req.verb.toNat) 32 (q ++ (bytes "-<@3c T>\n" ++ rest)))
  have hbytes : DB_LOG_RECORD_COOKIE_HEAD ++ (printNat 16 req.verb.toNat ++ 32 :: q) ++ (bytes "-<@3c T>\n" ++ rest) =
      DB_LOG_RECORD_COOKIE_HEAD ++ (printNat 16 req.verb.toNat ++ 32 :: (q ++ (bytes "-<@3c T>\n" ++ rest))) := by simp
  change (scanRecord stack (DB_LOG_RECORD_COOKIE_HEAD ++ (printNat 16 req.verb.toNat ++ 32 :: q) ++
    (bytes "-<@3c T>\n" ++ rest))).1 = -1 ∨ ∃ uri body, (scanRecord stack (DB_LOG_RECORD_COOKIE_HEAD ++
      (printNat 16 req.verb.toNat ++ 32 :: q) ++ (bytes "-<@3c T>\n" ++ rest))).2.1 = some ⟨req.verb, uri, body⟩
  rw [hbytes, scanRecord_head, hread]
  rcases hreq : (readRequest takeBytes (printNat 16 req.verb.toNat ++ 32 :: junk)).run
      (q ++ (bytes "-<@3c T>\n" ++ rest)) with ⟨_ | item, l⟩
  · exact .inl rfl
  · have hstrtol : strtol 16 (printNat 16 req.verb.toNat ++ 32 :: junk) = _ :=
      Lib.strtol_printNat (by omega) (by omega) (by omega) (by rintro c hc; cases hc; decide)
    obtain ⟨uri, body, rfl⟩ := readRequest_verb hstrtol hreq
    refine .inr ⟨uri, body, ?_⟩
    have hint : toInt req.verb.toNat = req.verb := by
      rw [Int.toNat_of_nonneg hverb.1]
      exact Int.bmod_eq_of_le_mul_two (by omega) (by omega)
    rw [hint]
    rfl

/-! ## What is recovered -/

/-- A request whose verb is not the one of the torn record. -/
def otherCall (item : LogItem) : LogCall where
  now := 60
  verb := if item.request?.map LoggedRequest.verb = some 1 then 2 else 1
  uri := bytes "/"
  body := []
  sendToSlaves := false

theorem otherCall_ok (item : LogItem) : (otherCall item).Ok := by
  refine ⟨?_, show bytes "/" ≠ [] ∧ (0 : UInt8) ∉ bytes "/" by decide, show LogLimits (bytes "/") [] by decide,
    show (60 : Int) ≤ 60 ∧ (60 : Int) < 2 ^ 63 by decide⟩
  unfold otherCall
  simp only
  split <;> omega

theorem otherCall_items (item : LogItem) :
    ∃ rest, (journalItems (-1) [otherCall item]).flatMap LogItem.encode = bytes "-<@3c T>\n" ++ rest := by
  have hitems : journalItems (-1) [otherCall item] = [.timestamp 60, .request (otherCall item).logged] := rfl
  have hmark : (LogItem.timestamp 60).encode = bytes "-<@3c T>\n" := by decide
  rw [hitems, List.flatMap_cons, hmark]
  exact ⟨_, rfl⟩

/-- The request after a torn record that does harm is lost. -/
theorem scan_otherCall (hok : item.Ok) (hp : torn <+: item.encode) (hwhole : torn ≠ item.encode) (hne : torn ≠ [])
    (hcut : ¬ CutMark torn) (stack : Nat → Bytes) (fuel : Nat) {res : Int} {reqs : List LoggedRequest} {l : Bytes}
    (h : scan stack (fuel + 1) (torn ++ (journalItems (-1) [otherCall item]).flatMap LogItem.encode) =
      some (res, reqs, l)) : reqs ≠ [(otherCall item).logged] := by
  obtain ⟨rest, hrest⟩ := otherCall_items item
  rw [hrest, scan] at h
  have hread : (scanRecord (stack fuel) (torn ++ (bytes "-<@3c T>\n" ++ rest))).1 = -1 ∨
      ∃ req, (scanRecord (stack fuel) (torn ++ (bytes "-<@3c T>\n" ++ rest))).2.1 = some req ∧
        req.verb ≠ (otherCall item).verb := by
    cases item with
    | timestamp ts => exact .inl (scanRecord_torn_timestamp hok hp hwhole hne hcut _ _)
    | request req =>
      refine (scanRecord_torn_request hok hp hne (stack fuel) rest).imp_right fun hread => ?_
      obtain ⟨uri, body, hreq⟩ := hread
      refine ⟨_, hreq, ?_⟩
      unfold otherCall
      simp only [LogItem.request?, Option.map_some, Option.some.injEq]
      split <;> omega
  rcases hs : scanRecord (stack fuel) (torn ++ (bytes "-<@3c T>\n" ++ rest)) with ⟨res', req', l'⟩
  rw [hs] at h hread
  simp only at h hread
  rcases hread with rfl | ⟨req, rfl, hverb⟩
  · have hnone := scanRecord_failed (show (scanRecord (stack fuel) (torn ++ (bytes "-<@3c T>\n" ++ rest))).1 ≠ 0 by
      rw [hs]
      exact show (-1 : Int) ≠ 0 by decide)
    rw [hs] at hnone
    simp only at hnone
    cases hnone
    cases h
    exact Ne.symm (List.cons_ne_nil _ _)
  · intro heq
    have hfirst : reqs.head? = some req := by
      split at h
      · obtain ⟨⟨_, _, _⟩, -, hmap⟩ := Option.map_eq_some_iff.1 h
        cases hmap
        rfl
      · cases h
        rfl
    rw [heq] at hfirst
    cases hfirst
    exact hverb rfl

/-- The requests after a record that was cut inside the digits of its mark are all read. -/
theorem scan_cutMark (hok : item.Ok) (hp : torn <+: item.encode) (hwhole : torn ≠ item.encode) (hcut : CutMark torn)
    (stack : Nat → Bytes) {calls : List LogCall} (hcalls : ∀ call ∈ calls, call.Ok) {fuel : Nat}
    (hfuel : (journalItems (-1) calls).length ≤ fuel) :
    (scan stack (fuel + 1) (torn ++ (journalItems (-1) calls).flatMap LogItem.encode)).map (fun r => r.2.1) =
      some (calls.map LogCall.logged) := by
  cases calls with
  | nil =>
    obtain ⟨res, hscan⟩ := scan_torn hok hp hwhole stack fuel
    simp [journalItems, hscan]
  | cons call calls =>
    have hcall := hcalls call List.mem_cons_self
    have hts := hcall.timestamp_ok
    generalize hnow : call.now - Int.tmod call.now DB_LOG_TIMESTAMP_GRANULARITY = ts at hts
    obtain ⟨hts₁, hts₂⟩ := hts
    have hitems : journalItems (-1) (call :: calls) =
        .timestamp ts :: .request call.logged :: journalItems ts calls := by
      simp only [journalItems, hnow]
      rw [if_pos (by omega)]
    have hallOk := journalItems_ok (-1) hcalls
    have hreqs := journalItems_requests (call :: calls) (-1)
    rw [hitems] at hfuel hallOk hreqs ⊢
    obtain ⟨ds, hne, hds, rfl⟩ := hcut
    obtain ⟨hpos, hlen⟩ := cutMark_digits hok hne hp hds
    rw [List.flatMap_cons, scan, scanRecord_cutMark hne hds hpos hlen ⟨hts₁, hts₂⟩]
    simp only [if_true]
    rw [scan_items stack (fun i hi => hallOk i (List.mem_cons_of_mem _ hi)) (by
      rw [List.length_cons] at hfuel
      omega)]
    simp only [Option.map_some, Option.toList_none, List.nil_append, ← hreqs]
    rfl

variable (context) in
/-- **Which torn records do no harm.**  After a record that was cut, every list of later requests is recovered exactly
when nothing is left of the record, or it was a timestamp mark cut inside its digits. -/
theorem torn_write_recovered_iff (hname : context.dbLog.dbLogFileName ≠ none) (hitems : ∀ item ∈ items, item.Ok)
    (hok : item.Ok) (hp : torn <+: item.encode) (hwhole : torn ≠ item.encode) (stack stack' : Nat → Bytes) :
    (∀ calls : List LogCall, (∀ call ∈ calls, call.Ok) →
      secondRestart stack stack' context (items.flatMap LogItem.encode ++ torn) calls =
        some (items.filterMap LogItem.request? ++ calls.map LogCall.logged)) ↔
      torn = [] ∨ CutMark torn := by
  constructor
  · intro h
    by_contra hharm
    rw [not_or] at hharm
    have hcall : ∀ call ∈ [otherCall item], call.Ok := fun call hcall => by
      rw [List.mem_singleton.1 hcall]
      exact otherCall_ok item
    obtain ⟨fuel, -, hsecond⟩ := secondRestart_eq context hname hitems hok hp hwhole stack stack' hcall
    rw [h _ hcall] at hsecond
    obtain ⟨⟨res, reqs, l⟩, hscan, heq⟩ := Option.map_eq_some_iff.1 hsecond.symm
    exact scan_otherCall hok hp hwhole hharm.1 hharm.2 stack' fuel hscan (List.append_cancel_left heq)
  · intro hharm calls hcalls
    obtain ⟨fuel, hfuel, hsecond⟩ := secondRestart_eq context hname hitems hok hp hwhole stack stack' hcalls
    have hscan : (scan stack' (fuel + 1) (torn ++ (journalItems (-1) calls).flatMap LogItem.encode)).map
        (fun r => r.2.1) = some (calls.map LogCall.logged) := by
      rcases hharm with rfl | hcut
      · rw [List.nil_append, scan_items stack' (journalItems_ok (-1) hcalls) (by omega), journalItems_requests]
        rfl
      · exact scan_cutMark hok hp hwhole hcut stack' hcalls hfuel
    obtain ⟨⟨res, reqs, l⟩, hscan, heq⟩ := Option.map_eq_some_iff.1 hscan
    rw [hsecond, hscan, ← heq]
    rfl

end Torn

/-- The creation of a layer is recovered after a mark that was cut. -/
theorem torn_write_recovered_mark : secondRestart (fun _ => []) (fun _ => []) freshContext
      ((LogItem.request ⟨2, bytes "/api/1.0/layers/x.json", []⟩).encode ++ bytes "-<@3")
      [⟨125, EVHTTP_REQ_POST, bytes "/api/1.0/layers/y.json", [], true⟩] =
    some [⟨2, bytes "/api/1.0/layers/x.json", []⟩, ⟨2, bytes "/api/1.0/layers/y.json", []⟩] := by
  have hitem : ∀ item ∈ [LogItem.request ⟨2, bytes "/api/1.0/layers/x.json", []⟩], item.Ok := by
    intro item hitem
    rw [List.mem_singleton.1 hitem]
    exact ⟨by decide, by decide, by decide, by decide⟩
  have hmark : (LogItem.timestamp 60).Ok := ⟨by decide, by decide⟩
  have hrecovered := (torn_write_recovered_iff freshContext (by decide) hitem hmark
    ⟨bytes "c T>\n", by decide⟩ (by decide) (fun _ => []) (fun _ => [])).2
    (.inr ⟨bytes "3", by decide, fun c hc => by rw [List.mem_singleton.1 hc]; decide, rfl⟩)
  refine hrecovered [⟨125, EVHTTP_REQ_POST, bytes "/api/1.0/layers/y.json", [], true⟩] (fun call hcall => ?_)
  rw [List.mem_singleton.1 hcall]
  exact ⟨by decide, by decide, show LogLimits (bytes "/api/1.0/layers/y.json") [] by decide, by decide⟩

/-- **A torn record takes a later request with it**: a record is cut inside the length of its URI, and the request that
was accepted and flushed after the restart is not replayed by the next one. -/
theorem torn_write_loses_update :
    (LogItem.request ⟨2, bytes "/api/1.0/layers/x.json", []⟩).Ok ∧
    bytes "-<2 1" <+: (LogItem.request ⟨2, bytes "/api/1.0/layers/x.json", []⟩).encode ∧
    (⟨60, EVHTTP_REQ_POST, bytes "/api/1.0/layers/y.json", [], true⟩ : LogCall).Ok ∧
    secondRestart (fun _ => []) (fun _ => []) freshContext (bytes "-<2 1")
      [⟨60, EVHTTP_REQ_POST, bytes "/api/1.0/layers/y.json", [], true⟩] = some [] :=
  ⟨⟨by decide, by decide, by decide, by decide⟩, by decide, ⟨by decide, by decide, by decide, by decide⟩,
    by decide +kernel⟩

end Pincaster
