import Pincaster.DbReplay
/-!
# JournalScan — the two readers of the journal read alike

Both readers do what `scanRecord` does on the bytes they have left, and `replay_log` does what `scan` does on the bytes
of the file.
-/
namespace Pincaster

open Lib (Bytes bytes cstr strtol strtoul Decoder ReadFn Reads ReadsLike takeBytes takeBytes_eq_some)

variable {σ τ : Type}

/-! ## The readers -/

section Sim

variable {cut : Prop} {read : ReadFn σ} {read' : ReadFn τ} {left : σ → τ → Prop}

theorem readCookieTail_sim (h : ReadsLike cut read read' left) :
    Decoder.Sim cut left (readCookieTail read) (readCookieTail read') :=
  (h _ (by decide)).bind fun _ => .ite (.pure _) .fail

theorem readTimestamp_sim (h : ReadsLike cut read read' left) (bufNumber : Bytes) :
    Decoder.Sim cut left (readTimestamp read bufNumber) (readTimestamp read' bufNumber) :=
  .ite .fail ((h _ (by decide)).bind fun _ => .ite ((readCookieTail_sim h).bind fun _ => .pure _) .fail)

theorem readBody_sim (h : ReadsLike cut read read' left) (bodyLen : Nat) :
    Decoder.Sim cut left (readBody read bodyLen) (readBody read' bodyLen) := by
  unfold readBody
  split
  · exact h _ ‹_›
  · exact .pure _

theorem readBodyAndTail_sim (h : ReadsLike cut read read' left) (bufNumber : Bytes) :
    Decoder.Sim cut left (readBodyAndTail read bufNumber) (readBodyAndTail read' bufNumber) :=
  (h _ (by decide)).bind fun _ => .ite
    ((h.readUntil _ _ _ _).bind fun _ => .ite .fail
      ((readBody_sim h _).bind fun _ => (readCookieTail_sim h).bind fun _ => .pure _)) .fail

theorem readUri_sim (h : ReadsLike cut read read' left) (bufNumber endptr : Bytes) (uriLen : Nat) (verb : Int) :
    Decoder.Sim cut left
      (if endptr = bufNumber ∨ uriLen ≤ 0 then .fail
        else do
          let uri ← read uriLen
          let body ← readBodyAndTail read bufNumber
          pure (LogItem.request ⟨toInt verb, cstr uri, body⟩))
      (if endptr = bufNumber ∨ uriLen ≤ 0 then .fail
        else do
          let uri ← read' uriLen
          let body ← readBodyAndTail read' bufNumber
          pure (LogItem.request ⟨toInt verb, cstr uri, body⟩)) := by
  split
  · exact .fail
  · exact (h _ (by omega)).bind fun _ => (readBodyAndTail_sim h _).bind fun _ => .pure _

theorem readRequest_sim (h : ReadsLike cut read read' left) (bufNumber : Bytes) :
    Decoder.Sim cut left (readRequest read bufNumber) (readRequest read' bufNumber) :=
  .ite .fail ((h.readUntil _ _ _ _).bind fun _ => readUri_sim h _ _ _ _)

/-- **A record is read alike from two readers that do the same.** -/
theorem readRecord_sim (h : ReadsLike cut read read' left) (stack : Bytes) :
    Decoder.Sim cut left (readRecord read stack) (readRecord read' stack) :=
  (h.readUntil _ _ _ _).bind fun _ => .ite (readTimestamp_sim h _) (readRequest_sim h _)

end Sim

/-- What a context in memory has left. -/
def MemoryLeft (mrc : MemoryReadContext) (l : Bytes) : Prop :=
  mrc.remaining ≤ mrc.pnt.length ∧ mrc.pnt.take mrc.remaining = l

theorem reads_mBufferedRead : Reads False mBufferedRead MemoryLeft := by
  rintro n hn ⟨pnt, remaining⟩ l ⟨hle, rfl⟩
  simp only at hle
  have hlen : (pnt.take remaining).length = remaining := List.length_take_of_le hle
  refine .inl ?_
  simp only [mBufferedRead, takeBytes, hlen]
  split
  · rw [if_neg (by omega)]
    exact ⟨rfl, hle, rfl⟩
  · rw [if_pos (by omega)]
    refine ⟨?_, ?_, ?_⟩
    · rw [List.take_take, Nat.min_eq_left (by omega)]
    · simp only [List.length_drop]
      omega
    · simp only
      rw [List.drop_take]

/-- What the reader of a journal has left, a journal that differs from `dbLog` by its offset only. -/
def FileLeft (dbLog : DBLog UInt8) (s : DBLog UInt8 × BufferedReadContext) (l : Bytes) : Prop :=
  ∃ file, dbLog.dbLogFd = some file ∧ s.1 = { dbLog with dbLogOffset := s.2.offset } ∧ s.2.totalSize = file.length ∧
    s.2.offset ≤ file.length ∧ s.2.buf ++ file.drop s.2.offset = l

theorem reads_bufferedRead (dbLog : DBLog UInt8) : Reads False bufferedRead (FileLeft dbLog) := by
  rintro n hn ⟨d, buf, offset, total, size⟩ l ⟨file, hfile, hd, ht, hle, hl⟩
  simp only at hd ht hle hl
  subst hd ht hl
  refine .inl ?_
  simp only [bufferedRead, takeBytes, List.length_append, List.length_drop]
  have hl : FileLeft dbLog ({ dbLog with dbLogOffset := offset }, ⟨buf, offset, file.length, size⟩)
    (buf ++ file.drop offset) := ⟨file, hfile, rfl, rfl, hle, rfl⟩
  by_cases hbuf : buf.length < n
  · rw [if_pos hbuf]
    by_cases hend : offset ≥ file.length
    · rw [if_pos hend, if_neg (show ¬ n ≤ buf.length + (file.length - offset) by omega)]
      exact ⟨rfl, hl⟩
    rw [if_neg hend]
    by_cases hshort : n - buf.length > file.length - offset
    · rw [if_pos hshort, if_neg (show ¬ n ≤ buf.length + (file.length - offset) by omega)]
      exact ⟨rfl, hl⟩
    rw [if_neg hshort, if_pos (show n ≤ buf.length + (file.length - offset) by omega)]
    -- how much is read ahead does not matter
    generalize hr : (if file.length - offset - (n - buf.length) ≥ size then n - buf.length + size
      else n - buf.length) = toRead
    have hread : n - buf.length ≤ toRead ∧ toRead ≤ file.length - offset := by
      rw [← hr]
      split <;> omega
    have hdata : ((file.drop offset).take toRead).length = toRead :=
      List.length_take_of_le (by rw [List.length_drop]; exact hread.2)
    have hsplit : buf ++ file.drop offset = buf ++ (file.drop offset).take toRead ++ file.drop (offset + toRead) := by
      rw [List.append_assoc, ← List.drop_drop, List.take_append_drop]
    have hn : n ≤ (buf ++ (file.drop offset).take toRead).length := by
      rw [List.length_append, hdata]
      omega
    simp only [evbufferRead, hfile, Option.getD_some, hdata]
    rw [hsplit, List.take_append_of_le_length hn, List.drop_append_of_le_length hn]
    exact ⟨rfl, file, hfile, by rw [hfile], rfl, by simp only; omega, rfl⟩
  · rw [if_neg hbuf, if_pos (show n ≤ buf.length + (file.length - offset) by omega),
      List.take_append_of_le_length (by omega), List.drop_append_of_le_length (by omega)]
    exact ⟨rfl, file, hfile, rfl, rfl, hle, rfl⟩

/-! ## What the readers do on a list -/

/-- A record at the start of some bytes: the result, what is passed to `fake_request`, and what is left. -/
def scanRecord (stack l : Bytes) : Int × Option LoggedRequest × Bytes :=
  match (takeBytes DB_LOG_RECORD_COOKIE_HEAD.length).run l with
  | (none, l) => (1, none, l)
  | (some bufCookieHead, l) =>
    if bufCookieHead ≠ DB_LOG_RECORD_COOKIE_HEAD then (-1, none, l)
    else
      match (readRecord takeBytes stack).run l with
      | (none, l) => (-1, none, l)
      | (some item, l) => (0, item.request?, l)

/-- The records at the start of some bytes, and the bytes whose record was not read. -/
def scan (stack : Nat → Bytes) : Nat → Bytes → Option (Int × List LoggedRequest × Bytes)
  | 0, _ => none
  | fuel + 1, l =>
    match scanRecord (stack fuel) l with
    | (res, req, l') =>
      if res = 0 then (scan stack fuel l').map fun (res, reqs, torn) => (res, req.toList ++ reqs, torn)
      else some (res, req.toList, l)

/-- There are enough bytes for a cookie, and they are none: the file is cut. -/
def BadCookie (l : Bytes) : Prop := 2 ≤ l.length ∧ l.take 2 ≠ DB_LOG_RECORD_COOKIE_HEAD

theorem mReplayLogRecord_eq (stack : Bytes) {brp : Bytes} {size : Nat} (h : size ≤ brp.length) :
    mReplayLogRecord stack brp size =
      ((scanRecord stack (brp.take size)).1, (scanRecord stack (brp.take size)).2.1) := by
  have hsim := (reads_mBufferedRead DB_LOG_RECORD_COOKIE_HEAD.length (by decide)).exact
    (show MemoryLeft ⟨brp, size⟩ _ from ⟨h, rfl⟩)
  unfold mReplayLogRecord scanRecord
  rcases hm : (mBufferedRead DB_LOG_RECORD_COOKIE_HEAD.length).run ⟨brp, size⟩ with ⟨_ | head, mrc⟩ <;>
    rcases ht : (takeBytes DB_LOG_RECORD_COOKIE_HEAD.length).run (brp.take size) with ⟨_ | head', l⟩ <;>
    simp only [hm, ht] at hsim ⊢
  · cases hsim.1
  · cases hsim.1
  · obtain ⟨heq, hleft⟩ := hsim
    cases heq
    split
    · rfl
    · have hsim := (readRecord_sim reads_mBufferedRead stack).exact hleft
      rcases hm : (readRecord mBufferedRead stack).run mrc with ⟨_ | item, mrc'⟩ <;>
        rcases ht : (readRecord takeBytes stack).run l with ⟨_ | item', l'⟩ <;> simp only [hm, ht] at hsim ⊢
      · cases hsim.1
      · cases hsim.1
      · cases hsim.1
        rfl

/-- A record that is read as on the list; only a wrong cookie changes the file. -/
theorem replayLogRecord_eq (stack : Bytes) {dbLog : DBLog UInt8} {s : DBLog UInt8 × BufferedReadContext} {l : Bytes}
    (h : FileLeft dbLog s l) : ∃ s', replayLogRecordBy bufferedRead stack s.1 s.2 =
      ((scanRecord stack l).1, (scanRecord stack l).2.1, s') ∧
      (¬ BadCookie l → FileLeft dbLog s' (scanRecord stack l).2.2) := by
  have hsim := (reads_bufferedRead dbLog DB_LOG_RECORD_COOKIE_HEAD.length (by decide)).exact h
  obtain ⟨file, hfile, hs, -⟩ := h
  have hfd : s.1.dbLogFd = some file := by rw [hs, ← hfile]
  unfold replayLogRecordBy scanRecord
  simp only [hfd]
  rcases hm : (bufferedRead DB_LOG_RECORD_COOKIE_HEAD.length).run (s.1, s.2) with ⟨_ | head, s₁⟩ <;>
    rcases ht : (takeBytes DB_LOG_RECORD_COOKIE_HEAD.length).run l with ⟨_ | head', l'⟩ <;>
    simp only [hm, ht] at hsim ⊢
  · exact ⟨s₁, rfl, fun _ => hsim.2⟩
  · cases hsim.1
  · cases hsim.1
  · obtain ⟨heq, hleft⟩ := hsim
    cases heq
    split
    · rename_i hbad
      refine ⟨_, rfl, fun hcookie => absurd ?_ hcookie⟩
      obtain ⟨hlen, hhead⟩ := takeBytes_eq_some.1 ht
      exact ⟨hlen, hhead.1 ▸ hbad⟩
    · have hsim := (readRecord_sim (reads_bufferedRead dbLog) stack).exact hleft
      rcases hm : (readRecord bufferedRead stack).run (s₁.1, s₁.2) with ⟨_ | item, s₂⟩ <;>
        rcases ht : (readRecord takeBytes stack).run l' with ⟨_ | item', l₂⟩ <;> simp only [hm, ht] at hsim ⊢
      · exact ⟨s₂, rfl, fun _ => hsim.2⟩
      · cases hsim.1
      · cases hsim.1
      · cases hsim.1
        exact ⟨s₂, rfl, fun _ => hsim.2⟩

theorem scanRecord_cookie {stack l : Bytes} (h : (scanRecord stack l).1 = 0) : ¬ BadCookie l := by
  rintro ⟨hlen, hbad⟩
  unfold scanRecord at h
  have hread : (takeBytes DB_LOG_RECORD_COOKIE_HEAD.length).run l = (some (l.take 2), l.drop 2) :=
    takeBytes_eq_some.2 ⟨hlen, rfl, rfl⟩
  rw [hread] at h
  simp only [ne_eq, hbad, not_false_eq_true, if_true] at h
  cases h

/-- **Replay does what `scan` does on the file**, and changes the file only at a wrong cookie. -/
theorem replayLogLoop_eq (stack : Nat → Bytes) {dbLog : DBLog UInt8} : ∀ (fuel : Nat)
    {s : DBLog UInt8 × BufferedReadContext} {l : Bytes} {res : Int} {reqs : List LoggedRequest} {torn : Bytes},
    FileLeft dbLog s l → scan stack fuel l = some (res, reqs, torn) →
    ∃ dbLog', replayLogLoopBy bufferedRead stack fuel s.1 s.2 = some (res, reqs, dbLog') ∧
      (¬ BadCookie torn → ∃ n, dbLog' = { dbLog with dbLogOffset := n })
  | 0, _, _, _, _, _, _, h => by cases h
  | fuel + 1, s, l, res, reqs, torn, hleft, h => by
    obtain ⟨s', hs', hleft'⟩ := replayLogRecord_eq (stack fuel) hleft
    unfold scan at h
    unfold replayLogLoopBy
    rw [hs']
    simp only at h ⊢
    split at h
    · rename_i hres
      obtain ⟨⟨res', reqs', torn'⟩, hscan, heq⟩ := Option.map_eq_some_iff.1 h
      cases heq
      obtain ⟨dbLog', hloop, hfile⟩ := replayLogLoop_eq stack fuel (hleft' (scanRecord_cookie hres)) hscan
      rw [if_pos hres, hloop]
      exact ⟨dbLog', rfl, hfile⟩
    · rename_i hres
      cases h
      rw [if_neg hres]
      exact ⟨s'.1, rfl, fun hcookie => by
        obtain ⟨_, _, hs, -⟩ := hleft' hcookie
        exact ⟨_, hs⟩⟩

/-- A record that was read has its cookie before it and is behind what is left. -/
theorem scanRecord_shrinks {stack l : Bytes} (h : (scanRecord stack l).1 = 0) :
    (scanRecord stack l).2.2.length < l.length := by
  -- a list no longer than `n` is read as the list itself
  have hreads (n : Nat) : Reads False takeBytes (fun s l : Bytes => s = l ∧ s.length ≤ n) := by
    rintro k - s _ ⟨rfl, hle⟩
    refine .inl ⟨rfl, rfl, ?_⟩
    simp only [takeBytes]
    split
    · rw [List.length_drop]
      omega
    · exact hle
  unfold scanRecord at h ⊢
  have hhead : DB_LOG_RECORD_COOKIE_HEAD.length = 2 := rfl
  by_cases hlen : 2 ≤ l.length
  · simp only [takeBytes, hhead, if_pos hlen] at h ⊢
    split at h
    · cases h
    · rename_i hcookie
      rw [if_neg hcookie]
      have := ((readRecord_sim (hreads (l.drop 2).length) stack).exact ⟨rfl, le_refl (l.drop 2).length⟩).2.2
      rw [List.length_drop] at this
      rcases hr : (readRecord takeBytes stack).run (l.drop 2) with ⟨_ | item, l'⟩
      all_goals
        change ((readRecord takeBytes stack).run (l.drop 2)).2.length ≤ _ at this
        rw [hr] at this
        simp only at this ⊢
        omega
  · simp only [takeBytes, hhead, if_neg hlen] at h
    cases h

theorem scan_isSome (stack : Nat → Bytes) : ∀ (fuel : Nat) (l : Bytes), l.length < fuel →
    (scan stack fuel l).isSome = true
  | 0, _, h => by omega
  | fuel + 1, l, h => by
    rw [scan]
    rcases hs : scanRecord (stack fuel) l with ⟨res, req, l'⟩
    simp only
    split
    · rename_i hres
      have := scanRecord_shrinks (show (scanRecord (stack fuel) l).1 = 0 by rw [hs]; exact hres)
      rw [hs] at this
      simp only at this
      rw [Option.isSome_map]
      exact scan_isSome stack fuel l' (by omega)
    · rfl

/-- A record that could be read is read the same whatever stands behind it. -/
theorem scanRecord_append {stack l : Bytes} (h : (scanRecord stack l).1 = 0) (rest : Bytes) :
    scanRecord stack (l ++ rest) =
      (0, (scanRecord stack l).2.1, (scanRecord stack l).2.2 ++ rest) := by
  unfold scanRecord at h ⊢
  rcases ht : (takeBytes DB_LOG_RECORD_COOKIE_HEAD.length).run l with ⟨_ | head, l'⟩ <;> simp only [ht] at h
  · cases h
  obtain ⟨hlen, hhead, hl'⟩ := takeBytes_eq_some.1 ht
  have ht' : (takeBytes DB_LOG_RECORD_COOKIE_HEAD.length).run (l ++ rest) = (some head, l' ++ rest) :=
    takeBytes_eq_some.2 ⟨by rw [List.length_append]; omega, by rw [List.take_append_of_le_length hlen, hhead],
      by rw [List.drop_append_of_le_length hlen, hl']⟩
  simp only [ht']
  split at h
  · cases h
  rename_i hcookie
  simp only [if_neg hcookie]
  rcases hr : (readRecord takeBytes stack).run l' with ⟨_ | item, l₂⟩ <;> simp only [hr] at h
  · cases h
  rcases readRecord_sim (Lib.reads_append rest) stack l' (l' ++ rest) rfl with ⟨h1, h2⟩ | ⟨-, h1⟩ <;> rw [hr] at h1
  · rcases hr' : (readRecord takeBytes stack).run (l' ++ rest) with ⟨_ | item', l₃⟩ <;> simp only [hr, hr'] at h1 h2 ⊢
    · cases h1
    · cases h1
      rw [h2]
  · cases h1

/-- A record that could not be read passes nothing on. -/
theorem scanRecord_failed {stack l : Bytes} (h : (scanRecord stack l).1 ≠ 0) : (scanRecord stack l).2.1 = none := by
  unfold scanRecord at h ⊢
  split
  · rfl
  · rename_i head l' hhead
    simp only [hhead] at h
    split
    · rfl
    · rename_i hcookie
      rw [if_neg hcookie] at h
      split at h
      · rfl
      · exact absurd rfl h

end Pincaster
