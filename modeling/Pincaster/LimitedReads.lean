import Pincaster.JournalCodec
import Pincaster.ShortReads
/-!
# LimitedReads — `replay_log` when a read of the file brings 4096 bytes at most

`evbuffer_read` of the vendored library never brings more than `max_read` bytes.  A field that the buffer and one such read
do not make up is cut: the reading goes on in the middle of it.  The journal is read item by item up to the first one with
such a field (`replayLimited_spec`), and there the replay ends, unless what follows the cut looks like the end of the field.
-/
namespace Pincaster

open Lib (Bytes bytes Decoder Fed ReadFn ReadsLike)

/-! ## A call -/

/-- `max_read` of a new buffer. -/
def EVBUFFER_MAX_READ_DEFAULT : Nat := 4096

/-- `buffered_read` with the `evbuffer_read` of the vendored library.  What a call does not copy stays as `memory` has it:
the byte of the destination at an index, told apart by the offset the file was read up to. -/
def limitedRead (memory : Nat → Nat → UInt8) : ReadFn (DBLog UInt8 × BufferedReadContext) := fun length =>
  ⟨fun s =>
    match bufferedReadShort (EVBUFFER_MAX_READ_DEFAULT - 1) length s.1 s.2 with
    | none => (none, s)
    | some (ret, out, dbLog, context) =>
      if ret = length then
        (some (out ++ (List.range' out.length (length - out.length)).map (memory context.offset)), (dbLog, context))
      else (none, (dbLog, context))⟩

/-- How many bytes a call for `length` bytes reads, where `left` bytes of the journal are not yet returned and `buffered`
of them, fewer than `length`, are in the buffer. -/
def bytesRead (left buffered length : Nat) : Nat :=
  let toRead := length - buffered
  let remaining := left - buffered
  min EVBUFFER_MAX_READ_DEFAULT
    (if remaining - toRead ≥ DEFAULT_BUFFERED_READ_BUFFER_SIZE then toRead + DEFAULT_BUFFERED_READ_BUFFER_SIZE else toRead)

/-- How much is in the buffer after a call that delivers. -/
def bufferedAfter (left buffered length : Nat) : Nat :=
  if buffered < length then buffered + bytesRead left buffered length - length else buffered - length

theorem bytesRead_delivers (left : Nat) {buffered length : Nat} (h : length ≤ buffered + EVBUFFER_MAX_READ_DEFAULT) :
    length - buffered ≤ bytesRead left buffered length := by
  unfold bytesRead
  refine le_min (Nat.sub_le_iff_le_add'.2 h) ?_
  split
  · exact Nat.le_add_right _ _
  · exact Nat.le_refl _

theorem bytesRead_cut (left : Nat) {buffered length : Nat} (h : buffered + EVBUFFER_MAX_READ_DEFAULT < length) :
    bytesRead left buffered length = EVBUFFER_MAX_READ_DEFAULT := by
  have hle : EVBUFFER_MAX_READ_DEFAULT ≤ length - buffered := Nat.le_sub_of_add_le' h.le
  unfold bytesRead
  refine min_eq_left ?_
  split
  · exact hle.trans (Nat.le_add_right _ _)
  · exact hle

/-- What the reader has left, and how much of it is in the buffer. -/
structure LimitedLeft (dbLog : DBLog UInt8) (s : DBLog UInt8 × BufferedReadContext) (l : Bytes) (buffered : Nat) : Prop where
  left : FileLeft dbLog s l
  buffered : s.2.buf.length = buffered
  size : s.2.bufferSize = DEFAULT_BUFFERED_READ_BUFFER_SIZE

section
variable {memory : Nat → Nat → UInt8} {dbLog : DBLog UInt8} {s : DBLog UInt8 × BufferedReadContext} {l : Bytes}
  {buffered n : Nat}

/-- At the end of the file nothing is read. -/
theorem limitedRead_end (h : LimitedLeft dbLog s l buffered) (hshort : l.length < n) :
    (limitedRead memory n).run s = (none, s) := by
  have hl := h.left.length_eq (d := s.1)
  have hcall : bufferedReadShort (EVBUFFER_MAX_READ_DEFAULT - 1) n s.1 s.2 = some (0, [], s.1, s.2) := by
    unfold bufferedReadShort
    rw [if_pos (by omega)]
    by_cases hend : s.2.offset ≥ s.2.totalSize
    · rw [if_pos hend]
    · rw [if_neg hend, if_pos (by omega)]
  unfold limitedRead
  simp only [hcall]
  rw [if_neg (by omega)]

/-- What a call that reads does. -/
theorem bufferedReadShort_reads (h : LimitedLeft dbLog s l buffered) (hbuf : buffered < n) (hle : n ≤ l.length) :
    ∃ data d, data.length = bytesRead l.length buffered n ∧
      bufferedReadShort (EVBUFFER_MAX_READ_DEFAULT - 1) n s.1 s.2 =
        some (evbufferRemove n d { s.2 with buf := s.2.buf ++ data, offset := s.2.offset + data.length }) ∧
      FileLeft dbLog (d, { s.2 with buf := s.2.buf ++ data, offset := s.2.offset + data.length }) l := by
  have hl := h.left.length_eq (d := s.1)
  have hlen := h.buffered
  obtain ⟨toRead, hr⟩ : ∃ toRead, (if s.2.totalSize - s.2.offset - (n - buffered) ≥ DEFAULT_BUFFERED_READ_BUFFER_SIZE then
    n - buffered + DEFAULT_BUFFERED_READ_BUFFER_SIZE else n - buffered) = toRead := ⟨_, rfl⟩
  have hread : n - buffered ≤ toRead ∧ toRead ≤ s.2.totalSize - s.2.offset := by
    rw [← hr]
    split <;> omega
  have hbytes : bytesRead l.length buffered n = min EVBUFFER_MAX_READ_DEFAULT toRead := by
    rw [← hr, bytesRead, show l.length - buffered = s.2.totalSize - s.2.offset by omega]
  have hmax : 0 < EVBUFFER_MAX_READ_DEFAULT := by decide
  have hoffset : s.2.offset + bytesRead l.length buffered n ≤ s.2.totalSize := by omega
  obtain ⟨data, d, hdata, hlength, hleft⟩ := evbufferRead_left (show FileLeft dbLog (s.1, s.2) l from h.left) hoffset
  refine ⟨data, d, hlength, ?_, hleft⟩
  unfold bufferedReadShort
  rw [if_pos (by omega), if_neg (by omega), if_neg (by omega)]
  simp only [hlen, h.size, hr]
  rw [Nat.sub_add_cancel hmax, ← hbytes]
  simp only [hdata]
  rw [if_neg (by omega), if_pos (by omega)]

variable (memory) in
/-- **A call that delivers.** -/
theorem limitedRead_delivers (h : LimitedLeft dbLog s l buffered) (hpos : 0 < n) (hle : n ≤ l.length)
    (hfits : n ≤ buffered + EVBUFFER_MAX_READ_DEFAULT) : ∃ s', (limitedRead memory n).run s = (some (l.take n), s') ∧
      LimitedLeft dbLog s' (l.drop n) (bufferedAfter l.length buffered n) := by
  -- enough is in the buffer, before the call or after its read
  obtain ⟨d, brc, hcall, hleft, hbuf, hafter, hsize⟩ : ∃ d brc,
      bufferedReadShort (EVBUFFER_MAX_READ_DEFAULT - 1) n s.1 s.2 = some (evbufferRemove n d brc) ∧
      FileLeft dbLog (d, brc) l ∧ n ≤ brc.buf.length ∧ brc.buf.length - n = bufferedAfter l.length buffered n ∧
      brc.bufferSize = DEFAULT_BUFFERED_READ_BUFFER_SIZE := by
    have hlen := h.buffered
    by_cases hread : buffered < n
    · obtain ⟨data, d, hdata, hcall, hleft⟩ := bufferedReadShort_reads h hread hle
      have hbytes := bytesRead_delivers l.length hfits
      refine ⟨d, _, hcall, hleft, ?_, ?_, h.size⟩
      · simp only [List.length_append]
        omega
      · simp only [List.length_append, bufferedAfter, if_pos hread]
        omega
    · refine ⟨s.1, s.2, ?_, h.left, by omega, by rw [bufferedAfter, if_neg hread, hlen], h.size⟩
      unfold bufferedReadShort
      rw [if_neg (by omega)]
  obtain ⟨hremove, hleft'⟩ := evbufferRemove_enough hleft hpos hbuf
  refine ⟨(d, { brc with buf := brc.buf.drop n }), ?_, hleft', by simp only [List.length_drop, hafter], hsize⟩
  unfold limitedRead
  simp only [hcall, hremove, if_true]
  rw [List.length_take_of_le hle, Nat.sub_self, List.range'_zero, List.map_nil, List.append_nil]

variable (memory) in
/-- **A call that falls short**: the reading goes on in the middle. -/
theorem limitedRead_cut (h : LimitedLeft dbLog s l buffered) (hle : n ≤ l.length)
    (hshort : buffered + EVBUFFER_MAX_READ_DEFAULT < n) : ∃ x s', (limitedRead memory n).run s = (some x, s') ∧
      LimitedLeft dbLog s' (l.drop (buffered + EVBUFFER_MAX_READ_DEFAULT)) 0 := by
  have hlen := h.buffered
  obtain ⟨data, d, hdata, hcall, hleft⟩ := bufferedReadShort_reads h (by omega) hle
  have hbytes := bytesRead_cut l.length hshort
  have hall : ((s.2.buf ++ data).take n) = s.2.buf ++ data := List.take_of_length_le (by
    rw [List.length_append]
    omega)
  have hmax : 0 < EVBUFFER_MAX_READ_DEFAULT := by decide
  have hremove : evbufferRemove n d { s.2 with buf := s.2.buf ++ data, offset := s.2.offset + data.length } =
      ((n : Int), s.2.buf ++ data, d, { s.2 with buf := [], offset := s.2.offset + data.length }) := by
    unfold evbufferRemove
    simp only [hall, List.length_append]
    rw [if_neg (by omega), List.drop_eq_nil_of_le (by rw [List.length_append]; omega)]
  obtain ⟨file, hfile, hd, htotal, hoffset, rfl⟩ := hleft
  have hrun : ∃ x, (limitedRead memory n).run s =
      (some x, (d, { s.2 with buf := [], offset := s.2.offset + data.length })) := by
    unfold limitedRead
    simp only [hcall, hremove, if_true]
    exact ⟨_, rfl⟩
  obtain ⟨x, hrun⟩ := hrun
  refine ⟨x, _, hrun, ⟨file, hfile, hd, htotal, hoffset, ?_⟩, rfl, h.size⟩
  simp only [List.nil_append]
  rw [← hbytes, ← hdata, ← hlen, ← List.length_append, List.drop_left]

end

/-! ## The reads of a record -/

/-- What becomes of the reads of some pieces: all of them are delivered, and so much is in the buffer behind them, or one
falls short, whose last bytes are not read, with the pieces behind it. -/
inductive PiecesRead where
  | whole (buffered : Nat)
  | cut (unread : Bytes) (behind : List Bytes)

def readPieces : List Bytes → Nat → Nat → PiecesRead
  | [], _, buffered => .whole buffered
  | p :: ps, left, buffered =>
    if buffered + EVBUFFER_MAX_READ_DEFAULT < p.length then .cut (p.drop (buffered + EVBUFFER_MAX_READ_DEFAULT)) ps
    else readPieces ps (left - p.length) (bufferedAfter left buffered p.length)

/-- What is read behind a cut begins like the next piece, so that the reading goes on. -/
def CutGoesOn (unread : Bytes) (behind : List Bytes) : Prop := ∃ q ∈ behind.head?, q <+: unread ++ behind.flatten

theorem readPieces_append_whole : ∀ {ps qs : List Bytes} {left buffered b : Nat}, readPieces ps left buffered = .whole b →
    readPieces (ps ++ qs) left buffered = readPieces qs (left - ps.flatten.length) b
  | [], _, _, _, _, h => by
    cases h
    rfl
  | p :: ps, qs, left, buffered, b, h => by
    rw [readPieces] at h
    split at h
    · cases h
    · rename_i hfits
      rw [List.cons_append, readPieces, if_neg hfits, readPieces_append_whole h, List.flatten_cons, List.length_append,
        Nat.sub_sub]

/-- Short pieces are delivered. -/
theorem readPieces_small : ∀ {ps : List Bytes}, (∀ p ∈ ps, p.length ≤ EVBUFFER_MAX_READ_DEFAULT) → ∀ left buffered : Nat,
    ∃ b, readPieces ps left buffered = .whole b
  | [], _, _, buffered => ⟨buffered, rfl⟩
  | p :: ps, h, left, buffered => by
    have hp := h p List.mem_cons_self
    rw [readPieces, if_neg (by omega)]
    exact readPieces_small (fun q hq => h q (List.mem_cons_of_mem p hq)) _ _

/-- The pieces of a record, its cookie included. -/
def LogItem.reads (item : LogItem) : List Bytes := DB_LOG_RECORD_COOKIE_HEAD :: item.pieces

theorem LogItem.flatten_reads (item : LogItem) : item.reads.flatten = item.encode := item.encode_eq.symm

theorem tokenPieces_length {t : Bytes} {delim : UInt8} {p : Bytes} (h : p ∈ Lib.tokenPieces t delim) : p.length = 1 := by
  rcases List.mem_append.1 h with h | h
  · obtain ⟨c, -, rfl⟩ := List.mem_map.1 h
    rfl
  · rw [List.mem_singleton.1 h]
    rfl

/-- The pieces of a record that are neither its URI nor its body. -/
theorem LogItem.piece_cases {item : LogItem} (hok : item.Ok) {p : Bytes} (h : p ∈ item.reads) :
    p ≠ [] ∧ (p.length ≤ 2 ∨ ∃ req, item = .request req ∧ (p = req.uri ∨ p = req.body)) := by
  have htoken : ∀ {t : Bytes} {delim : UInt8}, p ∈ Lib.tokenPieces t delim →
      p ≠ [] ∧ (p.length ≤ 2 ∨ ∃ req, item = .request req ∧ (p = req.uri ∨ p = req.body)) := fun h =>
    ⟨fun hnil => by simpa [hnil] using tokenPieces_length h, .inl (by rw [tokenPieces_length h]; omega)⟩
  rcases List.mem_cons.1 h with rfl | h
  · exact ⟨by decide, .inl (by decide)⟩
  cases item with
  | timestamp ts =>
    rcases List.mem_append.1 h with h | h
    · exact htoken h
    · simp only [List.mem_cons, List.not_mem_nil, or_false] at h
      rcases h with rfl | rfl <;> exact ⟨by decide, .inl (by decide)⟩
  | request req =>
    rcases List.mem_append.1 h with h | h
    · rcases List.mem_append.1 h with h | h <;> exact htoken h
    · rcases List.mem_cons.1 h with rfl | h
      · exact ⟨hok.2.1.1, .inr ⟨req, rfl, .inl rfl⟩⟩
      · rcases List.mem_cons.1 h with rfl | h
        · exact ⟨by decide, .inl (by decide)⟩
        · rcases List.mem_append.1 h with h | h
          · exact htoken h
          · rcases List.mem_append.1 h with h | h
            · split at h
              · cases h
              · rename_i hbody
                rw [List.mem_singleton.1 h]
                exact ⟨hbody, .inr ⟨req, rfl, .inr rfl⟩⟩
            · rw [List.mem_singleton.1 h]
              exact ⟨by decide, .inl (by decide)⟩

section
variable {memory : Nat → Nat → UInt8} {dbLog : DBLog UInt8}

variable (memory) in
/-- **Pieces that do not fall short are handed out.** -/
theorem fed_limitedRead : ∀ {ps : List Bytes} {rest : Bytes} {s : DBLog UInt8 × BufferedReadContext} {left buffered b : Nat},
    LimitedLeft dbLog s (ps.flatten ++ rest) buffered → (∀ p ∈ ps, p ≠ []) → left = (ps.flatten ++ rest).length →
    readPieces ps left buffered = .whole b →
    ∃ s', Fed (limitedRead memory) ps s s' ∧ LimitedLeft dbLog s' rest b
  | [], rest, s, _, buffered, b, h, _, _, hread => by
    cases hread
    exact ⟨s, .nil s, h⟩
  | p :: ps, rest, s, left, buffered, b, h, hne, hleft, hread => by
    subst hleft
    rw [readPieces] at hread
    split at hread
    · cases hread
    rename_i hfits
    rw [List.flatten_cons, List.append_assoc] at h hread
    obtain ⟨s₁, hrun, hnext⟩ := limitedRead_delivers memory h (List.length_pos_of_ne_nil (hne p List.mem_cons_self))
      (by rw [List.length_append]; omega) (by omega)
    rw [List.take_left' rfl] at hrun
    rw [List.drop_left' rfl] at hnext
    obtain ⟨s', hfed, hend⟩ := fed_limitedRead hnext (fun q hq => hne q (List.mem_cons_of_mem p hq))
      (by rw [List.length_append]; omega) hread
    exact ⟨s', .cons hrun hfed, hend⟩

variable (memory) in
/-- A read behind a cut, of no more bytes than one read of the file brings. -/
theorem limitedRead_behind {s : DBLog UInt8 × BufferedReadContext} {l q : Bytes} (h : LimitedLeft dbLog s l 0)
    (hq : 0 < q.length) (hle : q.length ≤ l.length) (hfits : q.length ≤ EVBUFFER_MAX_READ_DEFAULT) (hno : ¬ q <+: l) :
    ∃ x s', (limitedRead memory q.length).run s = (some x, s') ∧ x ≠ q := by
  obtain ⟨s', hrun, -⟩ := limitedRead_delivers memory h hq hle (by omega)
  refine ⟨_, s', hrun, fun heq => hno ?_⟩
  rw [← heq]
  exact List.take_prefix _ _

/-- **A URI that falls short**, and no blank behind the cut. -/
theorem readUri_cut {s : DBLog UInt8 × BufferedReadContext} {uri l : Bytes} {buffered : Nat}
    (h : LimitedLeft dbLog s (uri ++ l) buffered) (hshort : buffered + EVBUFFER_MAX_READ_DEFAULT < uri.length)
    (hno : ¬ bytes " " <+: uri.drop (buffered + EVBUFFER_MAX_READ_DEFAULT) ++ l) (bufNumber : Bytes)
    (item : Bytes → Bytes → LogItem) :
    ((do
        let uri ← limitedRead memory uri.length
        let body ← readBodyAndTail (limitedRead memory) bufNumber
        pure (item uri body) : Decoder _ LogItem).run s).1 = none := by
  obtain ⟨x, s₁, hrun, hcut⟩ := limitedRead_cut memory h (by rw [List.length_append]; omega) hshort
  rw [List.drop_append_of_le_length (by omega)] at hcut
  obtain ⟨c, s₂, hblank, hne⟩ := limitedRead_behind memory hcut (show 0 < (bytes " ").length by decide)
    (by rw [List.length_append, List.length_drop, show (bytes " ").length = 1 from rfl]; omega) (by decide) hno
  rw [Decoder.bind_of_some hrun]
  refine Decoder.bind_none ?_
  rw [readBodyAndTail, Decoder.bind_of_some (show (limitedRead memory 1).run s₁ = _ from hblank), if_neg hne]
  rfl

/-- **A body that falls short**, and no tail behind the cut. -/
theorem readBody_cut {s : DBLog UInt8 × BufferedReadContext} {body l : Bytes} {buffered : Nat}
    (h : LimitedLeft dbLog s (body ++ (DB_LOG_RECORD_COOKIE_TAIL ++ l)) buffered)
    (hshort : buffered + EVBUFFER_MAX_READ_DEFAULT < body.length)
    (hno : ¬ DB_LOG_RECORD_COOKIE_TAIL <+: body.drop (buffered + EVBUFFER_MAX_READ_DEFAULT) ++ DB_LOG_RECORD_COOKIE_TAIL) :
    ((do
        let body ← readBody (limitedRead memory) body.length
        readCookieTail (limitedRead memory)
        pure body : Decoder _ Bytes).run s).1 = none := by
  obtain ⟨x, s₁, hrun, hcut⟩ := limitedRead_cut memory h (by rw [List.length_append]; omega) hshort
  rw [List.drop_append_of_le_length (by omega)] at hcut
  have hbody : (readBody (limitedRead memory) body.length).run s = (some x, s₁) := by
    unfold readBody
    rw [if_pos (by omega)]
    exact hrun
  have hnot : ¬ DB_LOG_RECORD_COOKIE_TAIL <+:
      body.drop (buffered + EVBUFFER_MAX_READ_DEFAULT) ++ (DB_LOG_RECORD_COOKIE_TAIL ++ l) := fun htail => hno
    (List.prefix_of_prefix_length_le htail (by rw [← List.append_assoc]; exact List.prefix_append _ _)
      (by rw [List.length_append]; omega))
  obtain ⟨c, s₂, htail, hne⟩ := limitedRead_behind memory hcut (show 0 < DB_LOG_RECORD_COOKIE_TAIL.length by decide)
    (by rw [List.length_append, List.length_append]; omega) (by decide) hnot
  rw [Decoder.bind_of_some hbody]
  refine Decoder.bind_none ?_
  rw [readCookieTail, Decoder.bind_of_some htail, if_neg hne]
  rfl

/-- A record whose cookie was read, and nothing more. -/
theorem replayLogRecord_failed {s s₁ : DBLog UInt8 × BufferedReadContext} {l : Bytes} {buffered : Nat}
    (h : LimitedLeft dbLog s l buffered)
    (hhead : (limitedRead memory DB_LOG_RECORD_COOKIE_HEAD.length).run s = (some DB_LOG_RECORD_COOKIE_HEAD, s₁))
    {stack : Bytes} (hfail : ((readRecord (limitedRead memory) stack).run s₁).1 = none) :
    ∃ s', replayLogRecordBy (limitedRead memory) stack s.1 s.2 = (-1, none, s') := by
  obtain ⟨file, hfile, hs, -⟩ := h.left
  have hfd : s.1.dbLogFd = some file := by rw [hs, ← hfile]
  unfold replayLogRecordBy
  simp only [hfd, show (limitedRead memory DB_LOG_RECORD_COOKIE_HEAD.length).run (s.1, s.2) = _ from hhead, ne_eq,
    not_true_eq_false, if_false]
  rcases hread : (readRecord (limitedRead memory) stack).run (s₁.1, s₁.2) with ⟨_ | item, s₂⟩
  · exact ⟨s₂, rfl⟩
  · rw [show (readRecord (limitedRead memory) stack).run s₁ = _ from hread] at hfail
    cases hfail

/-- The pieces of a request up to its URI. -/
def uriLengthPieces (req : LoggedRequest) : List Bytes :=
  DB_LOG_RECORD_COOKIE_HEAD :: (numberPieces req.verb.toNat 32 ++ numberPieces req.uri.length 58)

/-- The pieces of a request behind its URI up to its body. -/
def bodyLengthPieces (req : LoggedRequest) : List Bytes := bytes " " :: numberPieces req.body.length 58

theorem small_numberPieces {n : Nat} {delim : UInt8} {p : Bytes} (h : p ∈ numberPieces n delim) :
    p ≠ [] ∧ p.length ≤ EVBUFFER_MAX_READ_DEFAULT := by
  have hlen := tokenPieces_length h
  refine ⟨fun hnil => by simp [hnil] at hlen, ?_⟩
  rw [hlen]
  decide

theorem small_uriLengthPieces (req : LoggedRequest) :
    ∀ p ∈ uriLengthPieces req, p ≠ [] ∧ p.length ≤ EVBUFFER_MAX_READ_DEFAULT := by
  intro p hp
  rcases List.mem_cons.1 hp with rfl | hp
  · exact ⟨by decide, by decide⟩
  · rcases List.mem_append.1 hp with hp | hp <;> exact small_numberPieces hp

theorem small_bodyLengthPieces (req : LoggedRequest) :
    ∀ p ∈ bodyLengthPieces req, p ≠ [] ∧ p.length ≤ EVBUFFER_MAX_READ_DEFAULT := by
  intro p hp
  rcases List.mem_cons.1 hp with rfl | hp
  · exact ⟨by decide, by decide⟩
  · exact small_numberPieces hp

variable (memory) in
/-- **A record with a field that falls short** is not read, unless the reading goes on behind the cut. -/
theorem replayLogRecord_cut {req : LoggedRequest} (hok : (LogItem.request req).Ok) {s : DBLog UInt8 × BufferedReadContext}
    {rest : Bytes} {buffered : Nat} (h : LimitedLeft dbLog s ((LogItem.request req).encode ++ rest) buffered) {unread : Bytes}
    {behind : List Bytes} (hread : readPieces (LogItem.request req).reads ((LogItem.request req).encode ++ rest).length
      buffered = .cut unread behind) (hno : ¬ CutGoesOn unread behind) (stack : Bytes) :
    ∃ s', replayLogRecordBy (limitedRead memory) stack s.1 s.2 = (-1, none, s') := by
  -- up to the URI
  have hreads : (LogItem.request req).reads = uriLengthPieces req ++ (req.uri :: bodyPieces req.body) := rfl
  rw [← LogItem.flatten_reads, hreads, List.flatten_append, List.append_assoc] at h hread
  obtain ⟨b₁, hwhole₁⟩ := readPieces_small (fun p hp => (small_uriLengthPieces req p hp).2)
    ((uriLengthPieces req).flatten ++ ((req.uri :: bodyPieces req.body).flatten ++ rest)).length buffered
  obtain ⟨s₁, hfed₁, hleft₁⟩ := fed_limitedRead memory h (fun p hp => (small_uriLengthPieces req p hp).1) rfl hwhole₁
  rw [readPieces_append_whole hwhole₁, List.length_append, Nat.add_sub_cancel_left] at hread
  cases hfed₁ with
  | cons hhead hnumbers =>
    refine replayLogRecord_failed h hhead ?_
    obtain ⟨bufNumber, hrecord⟩ := readRecord_uri hok stack hnumbers
    rw [hrecord]
    rw [readPieces] at hread
    rw [List.flatten_cons, List.append_assoc] at hleft₁ hread
    split at hread
    · rename_i hshort
      cases hread
      refine readUri_cut hleft₁ hshort (fun hblank => hno ⟨bytes " ", rfl, ?_⟩) bufNumber _
      exact List.prefix_of_prefix_length_le hblank (by rw [← List.append_assoc]; exact List.prefix_append _ _)
        (by rw [List.length_append, List.length_drop, show (bytes " ").length = 1 from rfl]; omega)
    · -- up to the body
      rename_i hfits
      obtain ⟨s₂, huri, hleft₂⟩ := limitedRead_delivers memory hleft₁ (List.length_pos_of_ne_nil hok.2.1.1)
        (by rw [List.length_append]; omega) (by omega)
      rw [List.take_left' rfl] at huri
      rw [List.drop_left' rfl] at hleft₂
      rw [Decoder.bind_of_some huri]
      refine Decoder.bind_none ?_
      generalize bufferedAfter _ b₁ req.uri.length = b₂ at hleft₂ hread
      rw [List.length_append, Nat.add_sub_cancel_left] at hread
      have hbody : bodyPieces req.body =
          bodyLengthPieces req ++ ((if req.body = [] then [] else [req.body]) ++ [DB_LOG_RECORD_COOKIE_TAIL]) := rfl
      rw [hbody, List.flatten_append, List.append_assoc] at hleft₂ hread
      obtain ⟨b₃, hwhole₃⟩ := readPieces_small (fun p hp => (small_bodyLengthPieces req p hp).2)
        ((bodyLengthPieces req).flatten ++
        (((if req.body = [] then [] else [req.body]) ++ [DB_LOG_RECORD_COOKIE_TAIL]).flatten ++ rest)).length b₂
      obtain ⟨s₃, hfed₃, hleft₃⟩ := fed_limitedRead memory hleft₂
        (fun p hp => (small_bodyLengthPieces req p hp).1) rfl hwhole₃
      rw [readPieces_append_whole hwhole₃] at hread
      rw [readBodyAndTail_fed hok.2.2.2 bufNumber hfed₃]
      have htail : ∀ left b, ∃ b', readPieces [DB_LOG_RECORD_COOKIE_TAIL] left b = .whole b' :=
        readPieces_small (fun p hp => by
          rw [List.mem_singleton.1 hp]
          decide)
      by_cases hempty : req.body = []
      · obtain ⟨b, hwhole⟩ := htail _ _
        rw [if_pos hempty, List.nil_append, hwhole] at hread
        cases hread
      · rw [if_neg hempty] at hleft₃ hread
        rw [List.singleton_append, readPieces] at hread
        split at hread
        · rename_i hshort
          cases hread
          refine readBody_cut (by simpa using hleft₃) hshort (fun htail => hno ⟨DB_LOG_RECORD_COOKIE_TAIL, rfl, ?_⟩)
          simpa using htail
        · obtain ⟨b, hwhole⟩ := htail _ _
          rw [hwhole] at hread
          cases hread

variable (memory) in
/-- A record whose reads are all delivered. -/
theorem replayLogRecord_whole {item : LogItem} (hok : item.Ok) {s : DBLog UInt8 × BufferedReadContext} {rest : Bytes}
    {buffered b : Nat} (h : LimitedLeft dbLog s (item.encode ++ rest) buffered)
    (hread : readPieces item.reads (item.encode ++ rest).length buffered = .whole b) (stack : Bytes) :
    ∃ s', replayLogRecordBy (limitedRead memory) stack s.1 s.2 = (0, item.request?, s') ∧ LimitedLeft dbLog s' rest b := by
  obtain ⟨file, hfile, hs, -⟩ := h.left
  have hfd : s.1.dbLogFd = some file := by rw [hs, ← hfile]
  rw [← LogItem.flatten_reads] at h hread
  obtain ⟨s', hfed, hleft⟩ := fed_limitedRead memory h (fun p hp => (LogItem.piece_cases hok hp).1) rfl hread
  cases hfed with
  | cons hhead hrest =>
    rename_i s₁
    refine ⟨s', ?_, hleft⟩
    unfold replayLogRecordBy
    simp only [hfd, show (limitedRead memory DB_LOG_RECORD_COOKIE_HEAD.length).run (s.1, s.2) = _ from hhead, ne_eq,
      not_true_eq_false, if_false, show (readRecord (limitedRead memory) stack).run (s₁.1, s₁.2) = _ from
        readRecord_fed hok stack hrest]

/-- The end of the journal. -/
theorem replayLogRecord_end {s : DBLog UInt8 × BufferedReadContext} {buffered : Nat} (h : LimitedLeft dbLog s [] buffered)
    (stack : Bytes) : replayLogRecordBy (limitedRead memory) stack s.1 s.2 = (1, none, s) := by
  obtain ⟨file, hfile, hs, -⟩ := h.left
  have hfd : s.1.dbLogFd = some file := by rw [hs, ← hfile]
  unfold replayLogRecordBy
  simp only [hfd, show (limitedRead memory DB_LOG_RECORD_COOKIE_HEAD.length).run (s.1, s.2) = _ from
    limitedRead_end h (show ([] : Bytes).length < DB_LOG_RECORD_COOKIE_HEAD.length by decide)]

/-- **A record that was read has bytes of its own**, whatever it is. -/
theorem replayLogRecord_shrinks {s : DBLog UInt8 × BufferedReadContext} {l : Bytes} {buffered : Nat}
    (h : LimitedLeft dbLog s l buffered) {stack : Bytes} {req : Option LoggedRequest} {s' : DBLog UInt8 × BufferedReadContext}
    (hread : replayLogRecordBy (limitedRead memory) stack s.1 s.2 = (0, req, s')) :
    ∃ l' b, LimitedLeft dbLog s' l' b ∧ l'.length < l.length := by
  -- no read leaves more than there was
  have hreads : ∀ n, ReadsLike False (limitedRead memory) (limitedRead memory) (fun s t : DBLog UInt8 × BufferedReadContext =>
      s = t ∧ ∃ l b, LimitedLeft dbLog s l b ∧ l.length ≤ n) := by
    rintro n size hsize s _ ⟨rfl, l, b, hleft, hle⟩
    refine .inl ⟨rfl, rfl, ?_⟩
    by_cases hend : l.length < size
    · rw [limitedRead_end hleft hend]
      exact ⟨l, b, hleft, hle⟩
    · by_cases hfits : size ≤ b + EVBUFFER_MAX_READ_DEFAULT
      · obtain ⟨s', hrun, hleft'⟩ := limitedRead_delivers memory hleft hsize (by omega) hfits
        rw [hrun]
        refine ⟨_, _, hleft', ?_⟩
        rw [List.length_drop]
        omega
      · obtain ⟨x, s', hrun, hleft'⟩ := limitedRead_cut memory hleft (show size ≤ l.length by omega) (by omega)
        rw [hrun]
        refine ⟨_, _, hleft', ?_⟩
        rw [List.length_drop]
        omega
  obtain ⟨file, hfile, hs, -⟩ := h.left
  have hfd : s.1.dbLogFd = some file := by rw [hs, ← hfile]
  have hhead : DB_LOG_RECORD_COOKIE_HEAD.length = 2 := rfl
  have hmax : 2 ≤ EVBUFFER_MAX_READ_DEFAULT := by decide
  unfold replayLogRecordBy at hread
  simp only [hfd] at hread
  by_cases hend : l.length < 2
  · simp only [show (limitedRead memory DB_LOG_RECORD_COOKIE_HEAD.length).run (s.1, s.2) = _ from
      limitedRead_end h hend] at hread
    cases hread
  · obtain ⟨s₁, hrun, hleft⟩ := limitedRead_delivers memory h (show 0 < 2 by omega) (by omega) (by omega)
    simp only [show (limitedRead memory DB_LOG_RECORD_COOKIE_HEAD.length).run (s.1, s.2) = _ from hrun] at hread
    split at hread
    · cases hread
    · have hrecord := ((readRecord_sim (hreads (l.drop 2).length) stack).exact ⟨rfl, _, _, hleft, Nat.le_refl _⟩).2.2
      rcases hr : (readRecord (limitedRead memory) stack).run (s₁.1, s₁.2) with ⟨_ | item, s₂⟩
      · rw [hr] at hread
        cases hread
      · rw [hr] at hread
        cases hread
        rw [show (readRecord (limitedRead memory) stack).run s₁ = _ from hr] at hrecord
        obtain ⟨l', b, hleft', hle⟩ := hrecord
        rw [List.length_drop] at hle
        exact ⟨l', b, hleft', by omega⟩

end

/-! ## The loop -/

/-- The items that are read as a whole, up to the first one with a field that falls short. -/
def wholeItems : List LogItem → Nat → List LogItem
  | [], _ => []
  | item :: items, buffered =>
    match readPieces item.reads ((item :: items).flatMap LogItem.encode).length buffered with
    | .whole buffered => item :: wholeItems items buffered
    | .cut _ _ => []

/-- **The reading goes on in the middle of an item**: in the first one with a field that falls short, what is behind the cut
begins like what stands behind the field. -/
def ReadingGoesOn : List LogItem → Nat → Prop
  | [], _ => False
  | item :: items, buffered =>
    match readPieces item.reads ((item :: items).flatMap LogItem.encode).length buffered with
    | .whole buffered => ReadingGoesOn items buffered
    | .cut unread behind => CutGoesOn unread behind

theorem wholeItems_initial : ∀ (items : List LogItem) (buffered : Nat), wholeItems items buffered <+: items
  | [], _ => List.prefix_rfl
  | item :: items, buffered => by
    rw [wholeItems]
    split
    · exact (List.prefix_cons_inj item).2 (wholeItems_initial items _)
    · exact List.nil_prefix

/-- Where all items are read, the reading goes on nowhere else. -/
theorem not_readingGoesOn : ∀ {items : List LogItem} {buffered : Nat}, wholeItems items buffered = items →
    ¬ ReadingGoesOn items buffered
  | [], _, _ => fun h => h
  | item :: items, buffered, h => by
    rw [wholeItems] at h
    rw [ReadingGoesOn]
    split at h
    · exact not_readingGoesOn (List.cons.inj h).2
    · cases h

/-- A mark is never cut. -/
theorem readPieces_timestamp {ts : Int} (hok : (LogItem.timestamp ts).Ok) (left buffered : Nat) :
    ∃ b, readPieces (LogItem.timestamp ts).reads left buffered = .whole b :=
  readPieces_small (fun p hp => by
    rcases (LogItem.piece_cases hok hp).2 with hle | ⟨req, hreq, -⟩
    · exact hle.trans (by decide)
    · cases hreq) left buffered

/-- **Where all requests are read, all items are.** -/
theorem wholeItems_eq_self : ∀ {items : List LogItem} {buffered : Nat}, (∀ item ∈ items, item.Ok) →
    (items.filterMap LogItem.request?).length ≤ ((wholeItems items buffered).filterMap LogItem.request?).length →
    wholeItems items buffered = items
  | [], _, _, _ => rfl
  | item :: items, buffered, hok, hlen => by
    have hrest := fun i hi => hok i (List.mem_cons_of_mem item hi)
    rw [wholeItems] at hlen ⊢
    split
    · rename_i b hread
      rw [hread] at hlen
      refine congrArg _ (wholeItems_eq_self hrest ?_)
      cases item with
      | timestamp ts => exact hlen
      | request req => exact Nat.le_of_succ_le_succ hlen
    · rename_i unread behind hread
      rw [hread] at hlen
      cases item with
      | timestamp ts =>
        obtain ⟨b, hwhole⟩ := readPieces_timestamp (hok _ List.mem_cons_self) _ buffered
        rw [hwhole] at hread
        cases hread
      | request req => exact absurd hlen (Nat.not_succ_le_zero _)

/-- Items without a long field are all read. -/
theorem wholeItems_small : ∀ {items : List LogItem}, (∀ item ∈ items, item.Ok) →
    (∀ req, .request req ∈ items → req.uri.length ≤ EVBUFFER_MAX_READ_DEFAULT ∧ req.body.length ≤ EVBUFFER_MAX_READ_DEFAULT) →
    ∀ buffered, wholeItems items buffered = items ∧ ¬ ReadingGoesOn items buffered
  | [], _, _, _ => ⟨rfl, fun h => h⟩
  | item :: items, hok, hsmall, buffered => by
    obtain ⟨b, hread⟩ := readPieces_small (fun p hp => by
      rcases (LogItem.piece_cases (hok item List.mem_cons_self) hp).2 with hle | ⟨req, rfl, rfl | rfl⟩
      · exact hle.trans (by decide)
      · exact (hsmall req List.mem_cons_self).1
      · exact (hsmall req List.mem_cons_self).2) ((item :: items).flatMap LogItem.encode).length buffered
    obtain ⟨hwhole, hno⟩ := wholeItems_small (fun i hi => hok i (List.mem_cons_of_mem item hi))
      (fun req hreq => hsmall req (List.mem_cons_of_mem item hreq)) b
    rw [wholeItems, ReadingGoesOn, hread]
    simp only [hwhole]
    exact ⟨trivial, hno⟩

section
variable {memory : Nat → Nat → UInt8} {dbLog : DBLog UInt8}

variable (memory) in
/-- Replay ends, whatever it makes of the bytes that are left. -/
theorem replayLogLoop_isSome (stack : Nat → Bytes) : ∀ (fuel : Nat) {s : DBLog UInt8 × BufferedReadContext} {l : Bytes}
    {buffered : Nat}, LimitedLeft dbLog s l buffered → l.length < fuel →
    (replayLogLoopBy (limitedRead memory) stack fuel s.1 s.2).isSome = true
  | 0, _, _, _, _, hlt => by omega
  | fuel + 1, s, l, buffered, h, hlt => by
    rw [replayLogLoopBy]
    rcases hread : replayLogRecordBy (limitedRead memory) (stack fuel) s.1 s.2 with ⟨res, req, s'⟩
    simp only
    split
    · rename_i hres
      subst hres
      obtain ⟨l', b, hleft, hlen⟩ := replayLogRecord_shrinks h hread
      rw [Option.isSome_map]
      exact replayLogLoop_isSome stack fuel hleft (by omega)
    · rfl

variable (memory) in
/-- **A journal is replayed item by item up to the first one with a field that falls short**, and the replay ends there unless
the reading goes on behind the cut. -/
theorem replayLogLoop_limited (stack : Nat → Bytes) : ∀ (fuel : Nat) {items : List LogItem}
    {s : DBLog UInt8 × BufferedReadContext} {buffered : Nat}, (∀ item ∈ items, item.Ok) →
    LimitedLeft dbLog s (items.flatMap LogItem.encode) buffered → (items.flatMap LogItem.encode).length < fuel →
    ∃ res reqs dbLog', replayLogLoopBy (limitedRead memory) stack fuel s.1 s.2 =
        some (res, (wholeItems items buffered).filterMap LogItem.request? ++ reqs, dbLog') ∧
      (¬ ReadingGoesOn items buffered → reqs = [])
  | 0, _, _, _, _, _, hlt => by omega
  | fuel + 1, [], s, buffered, _, h, _ => by
    rw [replayLogLoopBy, replayLogRecord_end h]
    exact ⟨1, [], _, rfl, fun _ => rfl⟩
  | fuel + 1, item :: items, s, buffered, hok, h, hlt => by
    have hitem := hok item List.mem_cons_self
    rw [List.flatMap_cons] at h hlt
    rcases hread : readPieces item.reads (item.encode ++ items.flatMap LogItem.encode).length buffered with
      b | ⟨unread, behind⟩
    · obtain ⟨s', hrecord, hleft⟩ := replayLogRecord_whole memory hitem h hread (stack fuel)
      have hpos := List.length_pos_of_ne_nil item.encode_ne_nil
      rw [List.length_append] at hlt
      obtain ⟨res, reqs, dbLog', hloop, hend⟩ := replayLogLoop_limited stack fuel
        (fun i hi => hok i (List.mem_cons_of_mem item hi)) hleft (by omega)
      refine ⟨res, reqs, dbLog', ?_, ?_⟩
      · rw [replayLogLoopBy, hrecord]
        simp only [if_true, hloop, Option.map_some, wholeItems, List.flatMap_cons, hread]
        cases item <;> rfl
      · rw [ReadingGoesOn, List.flatMap_cons, hread]
        exact hend
    · by_cases hgoes : CutGoesOn unread behind
      · -- whatever it reads there
        obtain ⟨⟨res, reqs, dbLog'⟩, hloop⟩ := Option.isSome_iff_exists.1
          (replayLogLoop_isSome memory stack (fuel + 1) h hlt)
        refine ⟨res, reqs, dbLog', ?_, fun hno => absurd ?_ hno⟩
        · rw [hloop, wholeItems, List.flatMap_cons, hread]
          rfl
        · rw [ReadingGoesOn, List.flatMap_cons, hread]
          exact hgoes
      · cases item with
        | timestamp ts =>
          obtain ⟨b, hwhole⟩ := readPieces_timestamp hitem _ buffered
          rw [hwhole] at hread
          cases hread
        | request req =>
          obtain ⟨s', hrecord⟩ := replayLogRecord_cut memory hitem h hread hgoes (stack fuel)
          refine ⟨-1, [], s'.1, ?_, fun _ => rfl⟩
          rw [replayLogLoopBy, hrecord, wholeItems, List.flatMap_cons, hread]
          rfl

/-- **The replay of a journal of items.** -/
theorem replayLimited_spec (memory : Nat → Nat → UInt8) (stack : Nat → Bytes) {dbLog : DBLog UInt8}
    (hname : dbLog.dbLogFileName ≠ none) {items : List LogItem} (hok : ∀ item ∈ items, item.Ok) :
    ∃ res reqs dbLog', replayLogBy (limitedRead memory) stack (openDbLog dbLog (items.flatMap LogItem.encode)).1 =
        some (res, (wholeItems items 0).filterMap LogItem.request? ++ reqs, dbLog') ∧
      (¬ ReadingGoesOn items 0 → reqs = []) := by
  obtain ⟨name, hname⟩ := Option.ne_none_iff_exists'.1 hname
  unfold openDbLog replayLogBy
  simp only [hname, Option.getD_some]
  have hleft := initBufferedRead_left dbLog (items.flatMap LogItem.encode)
  obtain ⟨res, reqs, dbLog', hloop, hend⟩ := replayLogLoop_limited memory stack _ hok
    ⟨hleft, rfl, rfl⟩ (Nat.lt_succ_self _)
  rw [if_neg (by simp), ← hname]
  simp only at hloop
  rw [hloop]
  exact ⟨_, reqs, dbLog', rfl, hend⟩

end

end Pincaster
