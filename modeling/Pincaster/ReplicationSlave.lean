import Pincaster.JournalCodec
/-!
# ReplicationSlave — `replication_slave.c`: what a slave reads

The slave cuts its input at line feeds and reads each line as a record, so that a line feed inside a record cuts it.
`slave_sees_restart_iff` says when it sees the requests a restart of the master sees.
-/
namespace Pincaster

open Lib (Bytes bytes cstr printNat isDigitOf Decoder Reads takeBytes Framed)

variable {D : Type}

/-! ## The reader of a slave -/

/-- `evbuffer_search_eol` with `EVBUFFER_EOL_LF`. -/
def evbufferSearchEol (input : Bytes) : Option Nat := input.findIdx? (· = 10)

/-- `reader_readcb`: what is passed to `fake_request`, the number of lines read so far, and the input left.  The first
number bounds the lines; `stack` gives the stack of each call of `m_replay_log_record`, whose result is ignored. -/
def readerReadcb (stack : Nat → Bytes) : Nat → Nat → Bytes → List LoggedRequest × Nat × Bytes
  | 0, nbLines, input => ([], nbLines, input)
  | fuel + 1, nbLines, input =>
    if input.length ≠ 0 then
      match evbufferSearchEol input with
      | none => ([], nbLines, input)
      | some pos =>
        let lineSize := pos + 1
        let buf := input.take lineSize
        let (reqs, nbLines', input) := readerReadcb stack fuel (nbLines + 1) (input.drop lineSize)
        ((mReplayLogRecord (stack nbLines) buf lineSize).2.toList ++ reqs, nbLines', input)
    else ([], nbLines, input)

/-- The calls of `reader_readcb`, one for each chunk of the stream, on the input left by the last one. -/
def slaveRequests (stack : Nat → Bytes) : Nat → Bytes → List Bytes → List LoggedRequest
  | _, _, [] => []
  | nbLines, input, chunk :: chunks =>
    let (reqs, nbLines, input) := readerReadcb stack (input ++ chunk).length nbLines (input ++ chunk)
    reqs ++ slaveRequests stack nbLines input chunks

/-- What `acceptcb` sends first. -/
def EXPORTED_JOURNAL : Bytes := bytes "EXPORTED JOURNAL 1\n"

/-- A stream that carries `reqs`: the greeting, and a record for each of them in their order, with marks or without. -/
def RecordStream (reqs : List LoggedRequest) (stream : Bytes) : Prop :=
  ∃ items : List LogItem, (∀ item ∈ items, item.Ok) ∧ items.filterMap LogItem.request? = reqs ∧
    stream = EXPORTED_JOURNAL ++ items.flatMap LogItem.encode

/-! ## Line by line -/

/-- What is passed to `fake_request` for some lines. -/
def lineRequests (stack : Nat → Bytes) : Nat → List Bytes → List LoggedRequest
  | _, [] => []
  | n, line :: lines => (scanRecord (stack n) (line ++ [10])).2.1.toList ++ lineRequests stack (n + 1) lines

theorem lineRequests_append (stack : Nat → Bytes) : ∀ (n : Nat) (lines lines' : List Bytes),
    lineRequests stack n (lines ++ lines') = lineRequests stack n lines ++ lineRequests stack (n + lines.length) lines'
  | _, [], _ => rfl
  | n, line :: lines, lines' => by
    rw [List.cons_append, lineRequests, lineRequests, lineRequests_append stack (n + 1), List.append_assoc,
      List.length_cons, Nat.add_right_comm, Nat.add_assoc]

theorem evbufferSearchEol_line {line : Bytes} (h : 10 ∉ line) (rest : Bytes) :
    evbufferSearchEol (line ++ 10 :: rest) = some line.length := by
  unfold evbufferSearchEol
  rw [List.findIdx?_append, List.findIdx?_eq_none_iff.2 (fun c hc => by simp; rintro rfl; exact h hc)]
  simp [List.findIdx?_cons]

/-- **A call reads the complete lines of its input.** -/
theorem readerReadcb_framed (stack : Nat → Bytes) : ∀ (fuel n : Nat) (input : Bytes), input.length ≤ fuel →
    ∃ lines rest, Framed 10 input lines rest ∧
      readerReadcb stack fuel n input = (lineRequests stack n lines, n + lines.length, rest)
  | 0, n, input, h => by
    rw [List.length_eq_zero_iff.1 (Nat.le_zero.1 h)]
    exact ⟨[], [], .of_rest (fun h => nomatch h), rfl⟩
  | fuel + 1, n, input, h => by
    unfold readerReadcb
    split
    · rcases Lib.first_delim 10 input with hnone | ⟨line, rest, rfl, hline⟩
      · have heol : evbufferSearchEol input = none := by
          unfold evbufferSearchEol
          exact List.findIdx?_eq_none_iff.2 (fun c hc => by simp; rintro rfl; exact hnone hc)
        rw [heol]
        exact ⟨[], input, .of_rest hnone, rfl⟩
      · rw [List.length_append, List.length_cons] at h
        obtain ⟨lines, rest', hframed, hread⟩ := readerReadcb_framed stack fuel (n + 1) rest (by omega)
        have hline' : line ++ 10 :: rest = (line ++ [10]) ++ rest := by simp
        have hlen : line.length + 1 = (line ++ [10]).length := by simp
        rw [evbufferSearchEol_line hline]
        simp only
        rw [hline', hlen, List.take_left, List.drop_left, hread, mReplayLogRecord_eq _ (Nat.le_refl _), List.take_length,
          ← hline']
        exact ⟨line :: lines, rest', hframed.cons hline, by
          rw [lineRequests, List.length_cons, Nat.add_assoc n, Nat.add_comm 1]⟩
    · rename_i hnil
      rw [List.length_eq_zero_iff.1 (not_not.1 hnil)]
      exact ⟨[], [], .of_rest (fun h => nomatch h), rfl⟩

/-- **The chunks do not matter**: a slave reads the complete lines of the stream. -/
theorem slaveRequests_framed (stack : Nat → Bytes) : ∀ (n : Nat) (input : Bytes) (chunks : List Bytes), 10 ∉ input →
    ∃ lines rest, Framed 10 (input ++ chunks.flatten) lines rest ∧
      slaveRequests stack n input chunks = lineRequests stack n lines
  | n, input, [], h => ⟨[], input, by rw [List.flatten_nil, List.append_nil]; exact .of_rest h, rfl⟩
  | n, input, chunk :: chunks, _ => by
    obtain ⟨lines, rest, hframed, hread⟩ := readerReadcb_framed stack _ n (input ++ chunk) (Nat.le_refl _)
    obtain ⟨lines', rest', hframed', hrest⟩ := slaveRequests_framed stack (n + lines.length) rest chunks hframed.rest
    unfold slaveRequests
    rw [hread]
    simp only
    rw [hrest, ← lineRequests_append, List.flatten_cons, ← List.append_assoc]
    exact ⟨lines ++ lines', rest', hframed.append hframed', rfl⟩

/-! ## A record on a line -/

/-- A reader of a list never goes back. -/
theorem reads_suffix (l₀ : Bytes) : Reads False takeBytes (fun s l : Bytes => s = l ∧ s <:+ l₀) := by
  rintro n - s _ ⟨rfl, hs⟩
  refine .inl ⟨rfl, rfl, ?_⟩
  unfold takeBytes
  simp only
  split
  · exact (List.drop_suffix n s).trans hs
  · exact hs

/-- What is read before the end of a line has no line feed. -/
theorem not_mem_of_suffix {line a b : Bytes} (hline : 10 ∉ line) (h : a ++ b <:+ line ++ [10]) (hb : b ≠ []) :
    (10 : UInt8) ∉ a := by
  obtain ⟨c, hc⟩ := h
  have hlast : b = b.dropLast ++ [b.getLast hb] := (List.dropLast_append_getLast hb).symm
  rw [hlast, ← List.append_assoc, ← List.append_assoc] at hc
  rw [← (List.append_inj' hc rfl).1] at hline
  exact fun hmem => hline (by simp [hmem])

theorem takeBytes_split {n : Nat} {l l' x : Bytes} (h : (takeBytes n).run l = (some x, l')) : x ++ l' = l := by
  obtain ⟨-, rfl, rfl⟩ := Lib.takeBytes_eq_some.1 h
  exact List.take_append_drop n l

theorem ne_nil_of_takeBytes {n : Nat} {l l' x : Bytes} (hn : 0 < n) (h : (takeBytes n).run l = (some x, l')) :
    l ≠ [] := by
  rintro rfl
  have := (Lib.takeBytes_eq_some.1 h).1
  rw [List.length_nil] at this
  omega

/-- The body of a record on a line. -/
theorem readBodyAndTail_line {line bufNumber l l' body : Bytes} (hline : 10 ∉ line) (hl : l <:+ line ++ [10])
    (h : (readBodyAndTail takeBytes bufNumber).run l = (some body, l')) : (10 : UInt8) ∉ body := by
  unfold readBodyAndTail at h
  obtain ⟨c, l₁, hc, h⟩ := Decoder.some_of_bind h
  split at h
  · obtain ⟨b, l₂, hb, h⟩ := Decoder.some_of_bind h
    have hl₁ : l₁ <:+ line ++ [10] := ((takeBytes_split hc).symm ▸ List.suffix_append c l₁ : l₁ <:+ l).trans hl
    have hl₂ := (((reads_suffix (line ++ [10])).readUntil 58 (c ++ bufNumber.drop 1) SIZEOF_BUF_NUMBER []).exact
      ⟨rfl, hl₁⟩).2.2
    rw [hb] at hl₂
    simp only at h hl₂
    split at h
    · cases h
    · obtain ⟨x, l₃, hx, h⟩ := Decoder.some_of_bind h
      obtain ⟨_, l₄, ht, h⟩ := Decoder.some_of_bind h
      cases h
      unfold readBody at hx
      split at hx
      · have hsplit := takeBytes_split hx
        obtain ⟨t, l₅, ht, -⟩ := Decoder.some_of_bind ht
        exact not_mem_of_suffix hline (hsplit ▸ hl₂) (ne_nil_of_takeBytes (by decide) ht)
      · cases hx
        exact fun h => nomatch h
  · cases h

/-- **A record that is read from one line has no line feed.** -/
theorem scanRecord_line {stack line : Bytes} (hline : 10 ∉ line) {req : LoggedRequest}
    (h : (scanRecord stack (line ++ [10])).2.1 = some req) : 10 ∉ req.uri ∧ 10 ∉ req.body := by
  unfold scanRecord at h
  split at h
  · cases h
  rename_i head l hhead
  split at h
  · cases h
  split at h
  · cases h
  rename_i item l' hitem
  simp only at h
  have hl : l <:+ line ++ [10] := takeBytes_split hhead ▸ List.suffix_append head l
  unfold readRecord at hitem
  obtain ⟨b, l₁, hb, hitem⟩ := Decoder.some_of_bind hitem
  have hl₁ := (((reads_suffix (line ++ [10])).readUntil 32 stack SIZEOF_BUF_NUMBER []).exact ⟨rfl, hl⟩).2.2
  rw [hb] at hl₁
  split at hitem
  · -- a mark has no request
    unfold readTimestamp at hitem
    simp only at hitem
    split at hitem
    · cases hitem
    · obtain ⟨t, l₂, -, hitem⟩ := Decoder.some_of_bind hitem
      split at hitem
      · obtain ⟨_, l₃, -, hitem⟩ := Decoder.some_of_bind hitem
        cases hitem
        cases h
      · cases hitem
  · unfold readRequest at hitem
    simp only at hitem hl₁
    split at hitem
    · cases hitem
    · obtain ⟨b₂, l₂, hb₂, hitem⟩ := Decoder.some_of_bind hitem
      have hl₂ := (((reads_suffix (line ++ [10])).readUntil 58 b SIZEOF_BUF_NUMBER []).exact ⟨rfl, hl₁⟩).2.2
      rw [hb₂] at hl₂
      simp only at hitem hl₂
      split at hitem
      · cases hitem
      · obtain ⟨uri, l₃, huri, hitem⟩ := Decoder.some_of_bind hitem
        obtain ⟨body, l₄, hbody, hitem⟩ := Decoder.some_of_bind hitem
        cases hitem
        cases h
        have hsplit := takeBytes_split huri
        have hl₃ : l₃ <:+ line ++ [10] := (hsplit ▸ List.suffix_append uri l₃ : l₃ <:+ l₂).trans hl₂
        refine ⟨fun hmem => ?_, readBodyAndTail_line hline hl₃ hbody⟩
        have hne : l₃ ≠ [] := by
          unfold readBodyAndTail at hbody
          obtain ⟨c, l₅, hc, -⟩ := Decoder.some_of_bind hbody
          exact ne_nil_of_takeBytes (by decide) hc
        exact not_mem_of_suffix hline (hsplit ▸ hl₂) hne ((List.takeWhile_prefix _).subset hmem)

/-- An item without line feeds is one line. -/
theorem encode_line {item : LogItem} (h : ∀ req, item = .request req → 10 ∉ req.uri ∧ 10 ∉ req.body) :
    ∃ line, item.encode = line ++ [10] ∧ (10 : UInt8) ∉ line := by
  have hdigits (n : Nat) : (10 : UInt8) ∉ printNat 16 n := fun hmem =>
    absurd (Lib.isDigitOf_printNat (show 2 ≤ 16 by omega) (by omega) n 10 hmem) (by decide)
  have htail : DB_LOG_RECORD_COOKIE_TAIL = bytes ">" ++ [10] := rfl
  cases item with
  | timestamp ts =>
    refine ⟨(DB_LOG_RECORD_COOKIE_HEAD ++ DB_LOG_RECORD_COOKIE_MARK_CHAR) ++ printNat 16 (ts % 2 ^ 64).toNat ++
      (bytes " " ++ DB_LOG_RECORD_COOKIE_TIMESTAMP_CHAR ++ bytes ">"), ?_, ?_⟩
    · unfold LogItem.encode addTsToEvLogBuffer
      simp [htail]
    · have h₁ : (10 : UInt8) ∉ DB_LOG_RECORD_COOKIE_HEAD ++ DB_LOG_RECORD_COOKIE_MARK_CHAR := by decide
      have h₂ : (10 : UInt8) ∉ bytes " " ++ DB_LOG_RECORD_COOKIE_TIMESTAMP_CHAR ++ bytes ">" := by decide
      rw [List.mem_append, List.mem_append, not_or, not_or]
      exact ⟨⟨h₁, hdigits _⟩, h₂⟩
  | request req =>
    obtain ⟨huri, hbody⟩ := h req rfl
    refine ⟨DB_LOG_RECORD_COOKIE_HEAD ++ (printNat 16 req.verb.toNat ++ bytes " " ++ printNat 16 req.uri.length ++
      bytes ":" ++ req.uri ++ bytes " " ++ printNat 16 req.body.length ++ bytes ":") ++ req.body ++ bytes ">", ?_, ?_⟩
    · unfold LogItem.encode logRecord
      simp [htail]
    · have h₁ : (10 : UInt8) ∉ DB_LOG_RECORD_COOKIE_HEAD := by decide
      have h₂ : (10 : UInt8) ∉ bytes " " := by decide
      have h₃ : (10 : UInt8) ∉ bytes ":" := by decide
      have h₄ : (10 : UInt8) ∉ bytes ">" := by decide
      simp [h₁, h₂, h₃, h₄, hdigits, huri, hbody]

/-- The lines of a list of items without line feeds. -/
theorem framed_items : ∀ {items : List LogItem}, (∀ item ∈ items, item.Ok) →
    (∀ req ∈ items.filterMap LogItem.request?, 10 ∉ req.uri ∧ 10 ∉ req.body) →
    ∃ lines, Framed 10 (items.flatMap LogItem.encode) lines [] ∧
      ∀ (stack : Nat → Bytes) n, lineRequests stack n lines = items.filterMap LogItem.request?
  | [], _, _ => ⟨[], .of_rest (fun h => nomatch h), fun _ _ => rfl⟩
  | item :: items, hok, h => by
    have hfree : ∀ req, item = .request req → 10 ∉ req.uri ∧ 10 ∉ req.body := fun req hreq => h req (by
      rw [hreq]
      simp [LogItem.request?])
    obtain ⟨line, hline, hmem⟩ := encode_line hfree
    obtain ⟨lines, hframed, hreqs⟩ := framed_items (fun i hi => hok i (List.mem_cons_of_mem item hi))
      (fun req hreq => h req (by
        obtain ⟨i, hi, hreq⟩ := List.mem_filterMap.1 hreq
        exact List.mem_filterMap.2 ⟨i, List.mem_cons_of_mem item hi, hreq⟩))
    refine ⟨line :: lines, ?_, fun stack n => ?_⟩
    · rw [List.flatMap_cons, hline, List.append_assoc, List.singleton_append]
      exact hframed.cons hmem
    · have hscan := scanRecord_encode (hok item List.mem_cons_self) (stack n) []
      rw [List.append_nil, hline] at hscan
      rw [lineRequests, hscan, hreqs]
      cases item <;> rfl

/-! ## The slave and a restart -/

/-- The greeting is a line of its own, and no record. -/
theorem scanRecord_exportedJournal (stack : Bytes) :
    (scanRecord stack (bytes "EXPORTED JOURNAL 1" ++ [10])).2.1 = none := rfl

/-- What a slave passes to `fake_request` comes from lines. -/
theorem lineRequests_line (stack : Nat → Bytes) : ∀ (n : Nat) {lines : List Bytes}, (∀ line ∈ lines, 10 ∉ line) →
    ∀ req ∈ lineRequests stack n lines, 10 ∉ req.uri ∧ 10 ∉ req.body
  | _, [], _, _, h => nomatch h
  | n, line :: lines, hlines, req, h => by
    unfold lineRequests at h
    rcases List.mem_append.1 h with h | h
    · exact scanRecord_line (hlines line List.mem_cons_self) (Option.mem_toList.1 h)
    · exact lineRequests_line stack (n + 1) (fun l hl => hlines l (List.mem_cons_of_mem line hl)) req h

theorem mem_loggedBody {c : UInt8} (hc : c ≠ 0) (inputBuffer : Bytes) :
    c ∈ loggedBody inputBuffer ↔ c ∈ inputBuffer := by
  unfold loggedBody
  split
  · rename_i hlast
    rw [← List.dropLast_append_getLast? 0 hlast]
    simp [hc]
  · rfl

/-- **When a slave sees what a restart sees**: exactly when no request has a line feed in its URI or its body, however the
stream is cut into chunks. -/
theorem slave_sees_restart_iff {context : HttpHandlerContext D} (hname : context.dbLog.dbLogFileName ≠ none)
    (hopen : context.dbLog.dbLogFd = some []) (hbuffer : context.dbLog.logBuffer = []) {calls : List LogCall}
    (hcalls : ∀ call ∈ calls, call.Ok) {chunks : List Bytes}
    (hstream : RecordStream (calls.map LogCall.logged) chunks.flatten) (stack stack' : Nat → Bytes) :
    (replayLog stack (openDbLog context.dbLog (addAllToDbLog context calls).dbLog.journal).1).map (fun r => r.2.1) =
        some (slaveRequests stack' 0 [] chunks) ↔
      ∀ call ∈ calls, 10 ∉ call.uri ∧ 10 ∉ call.body := by
  obtain ⟨-, -, ⟨dbLog', hreplay⟩, -⟩ := journal_codec hname hopen hbuffer hcalls stack
  obtain ⟨lines, rest, hframed, hslave⟩ := slaveRequests_framed stack' 0 [] chunks (fun h => nomatch h)
  rw [hreplay, hslave, Option.map_some, Option.some.injEq]
  simp only
  constructor
  · intro heq call hcall
    have hreq : call.logged ∈ lineRequests stack' 0 lines := by
      rw [← heq]
      exact List.mem_map_of_mem hcall
    obtain ⟨huri, hbody⟩ := lineRequests_line stack' 0 hframed.lines _ hreq
    exact ⟨huri, fun hmem => hbody ((mem_loggedBody (by decide) call.body).2 hmem)⟩
  · intro h
    obtain ⟨items, hok, hreqs, hflat⟩ := hstream
    have hline : ∀ req ∈ items.filterMap LogItem.request?, 10 ∉ req.uri ∧ 10 ∉ req.body := by
      intro req hreq
      rw [hreqs] at hreq
      obtain ⟨call, hcall, rfl⟩ := List.mem_map.1 hreq
      exact ⟨(h call hcall).1, fun hmem => (h call hcall).2 ((mem_loggedBody (by decide) call.body).1 hmem)⟩
    obtain ⟨lines', hframed', hreqs'⟩ := framed_items hok hline
    have hgreeting : (10 : UInt8) ∉ bytes "EXPORTED JOURNAL 1" := by decide
    have hall := hframed'.cons hgreeting
    have hstream : bytes "EXPORTED JOURNAL 1" ++ 10 :: items.flatMap LogItem.encode = [] ++ chunks.flatten := by
      rw [hflat]
      rfl
    rw [hstream] at hall
    obtain ⟨rfl, -⟩ := hframed.unique hall
    rw [lineRequests, scanRecord_exportedJournal, hreqs', hreqs]
    rfl

/-- Two requests, in chunks that cut a record and the greeting. -/
theorem slave_sees_restart_two : (replayLog (fun _ => [])
      (openDbLog freshContext.dbLog (addAllToDbLog freshContext
        [⟨60, EVHTTP_REQ_POST, bytes "/api/1.0/layers/x.json", [], true⟩,
          ⟨61, EVHTTP_REQ_PUT, bytes "/api/1.0/records/x/a.json", bytes "v=1" ++ [0], true⟩]).dbLog.journal).1).map
      (fun r => r.2.1) =
    some (slaveRequests (fun _ => []) 0 [] [bytes "EXPORTED", bytes " JOURNAL 1\n-<2 16:/api/1.0/lay",
      bytes "ers/x.json 0:>\n-<8 19:/api/1.0/records/x/a.json 3:v=1>\n"]) := by
  refine (slave_sees_restart_iff (by decide) rfl rfl ?_ ⟨[.request ⟨2, bytes "/api/1.0/layers/x.json", []⟩,
    .request ⟨8, bytes "/api/1.0/records/x/a.json", bytes "v=1"⟩], ?_, ?_, ?_⟩ (fun _ => []) (fun _ => [])).2 ?_
  · simp only [List.mem_cons, List.not_mem_nil, or_false, forall_eq_or_imp, forall_eq]
    exact ⟨⟨by decide, by decide, by decide, by decide⟩, ⟨by decide, by decide, by decide, by decide⟩⟩
  · simp only [List.mem_cons, List.not_mem_nil, or_false, forall_eq_or_imp, forall_eq]
    exact ⟨⟨by decide, by decide, by decide, by decide⟩, ⟨by decide, by decide, by decide, by decide⟩⟩
  · decide
  · decide
  · decide

/-- **A line feed loses a request**: the slave takes the record for two lines, and neither is a record. -/
theorem slave_misses_line_feed :
    (⟨60, EVHTTP_REQ_PUT, bytes "/api/1.0/records/x/a.json", bytes "v=1\n", true⟩ : LogCall).Ok ∧
    RecordStream [⟨8, bytes "/api/1.0/records/x/a.json", bytes "v=1\n"⟩]
      (bytes "EXPORTED JOURNAL 1\n-<8 19:/api/1.0/records/x/a.json 4:v=1\n>\n") ∧
    (replayLog (fun _ => []) (openDbLog freshContext.dbLog (addAllToDbLog freshContext
      [⟨60, EVHTTP_REQ_PUT, bytes "/api/1.0/records/x/a.json", bytes "v=1\n", true⟩]).dbLog.journal).1).map
        (fun r => r.2.1) = some [⟨8, bytes "/api/1.0/records/x/a.json", bytes "v=1\n"⟩] ∧
    slaveRequests (fun _ => []) 0 [] [bytes "EXPORTED JOURNAL 1\n-<8 19:/api/1.0/records/x/a.json 4:v=1\n>\n"] =
      [] := by
  refine ⟨⟨by decide, by decide, by decide, by decide⟩, ⟨[.request ⟨8, bytes "/api/1.0/records/x/a.json",
    bytes "v=1\n"⟩], fun item hitem => ?_, rfl, by decide⟩, by decide +kernel, by decide +kernel⟩
  rw [List.mem_singleton.1 hitem]
  exact ⟨by decide, by decide, by decide, by decide⟩

end Pincaster
