import Pincaster.JournalScan
import Pincaster.Lib.Runs
/-!
# ShortReads — `buffered_read` when a read of the file brings less than it was asked for

A call reads the file once at most.  When that read, with what there was in the buffer, brings less than the call was
asked for, the call copies what it has and returns `length` all the same (`buffered_read_delivers_iff`).
-/
namespace Pincaster

open Lib (Bytes bytes System)

/-! ## A call -/

/-- The end of `buffered_read`: the result, what was copied to `out_buf`, and the reader. -/
def evbufferRemove (length : Nat) (dbLog : DBLog UInt8) (context : BufferedReadContext) :
    Int × Bytes × DBLog UInt8 × BufferedReadContext :=
  let out := context.buf.take length
  if out.length ≤ 0 then (-1, [], dbLog, context)
  else (length, out, dbLog, { context with buf := context.buf.drop length })

/-- `buffered_read` where `evbuffer_read` brings `short + 1` bytes at most; a failed assertion has no result. -/
def bufferedReadShort (short length : Nat) (dbLog : DBLog UInt8) (context : BufferedReadContext) :
    Option (Int × Bytes × DBLog UInt8 × BufferedReadContext) :=
  let availableInBuf := context.buf.length
  if availableInBuf < length then
    if context.offset ≥ context.totalSize then some (0, [], dbLog, context)
    else
      let toRead := length - availableInBuf
      let remaining := context.totalSize - context.offset
      if toRead > remaining then some (0, [], dbLog, context)
      else
        let toRead := if remaining - toRead ≥ context.bufferSize then toRead + context.bufferSize else toRead
        let (data, dbLog) := evbufferRead dbLog (min (short + 1) toRead)
        if data.length ≤ 0 then some (0, [], dbLog, context)
        else
          let offset := context.offset + data.length
          if offset ≤ context.totalSize then
            some (evbufferRemove length dbLog { context with buf := context.buf ++ data, offset })
          else none
  else some (evbufferRemove length dbLog context)

/-- **The call reads, and what it reads does not make up what the buffer lacks.** -/
def FallsShort (context : BufferedReadContext) (length short : Nat) : Prop :=
  context.buf.length < length ∧ length ≤ context.buf.length + (context.totalSize - context.offset) ∧
    context.buf.length + (short + 1) < length

instance (context : BufferedReadContext) (length short : Nat) : Decidable (FallsShort context length short) :=
  inferInstanceAs (Decidable (_ ∧ _))

section
variable {dbLog d : DBLog UInt8} {brc : BufferedReadContext} {l : Bytes} {length : Nat}

theorem FileLeft.length_eq (h : FileLeft dbLog (d, brc) l) :
    l.length = brc.buf.length + (brc.totalSize - brc.offset) := by
  obtain ⟨file, -, -, htotal, hoffset, rfl⟩ := h
  simp only at htotal hoffset
  rw [List.length_append, List.length_drop, htotal]

/-- The buffer has what is asked for. -/
theorem evbufferRemove_enough (h : FileLeft dbLog (d, brc) l) (hpos : 0 < length) (hbuf : length ≤ brc.buf.length) :
    evbufferRemove length d brc = ((length : Int), l.take length, d, { brc with buf := brc.buf.drop length }) ∧
      FileLeft dbLog (d, { brc with buf := brc.buf.drop length }) (l.drop length) := by
  obtain ⟨file, hfile, hd, htotal, hoffset, rfl⟩ := h
  have hlen : (brc.buf.take length).length = length := List.length_take_of_le hbuf
  refine ⟨?_, file, hfile, hd, htotal, hoffset, ?_⟩
  · unfold evbufferRemove
    simp only [hlen]
    rw [if_neg (by omega), List.take_append_of_le_length hbuf]
  · rw [List.drop_append_of_le_length hbuf]

/-- The read of a call that is not at the end of the file. -/
theorem evbufferRead_left {toRead : Nat} (h : FileLeft dbLog (d, brc) l) (hread : brc.offset + toRead ≤ brc.totalSize) :
    ∃ data d', evbufferRead d toRead = (data, d') ∧ data.length = toRead ∧
      FileLeft dbLog (d', { brc with buf := brc.buf ++ data, offset := brc.offset + data.length }) l := by
  obtain ⟨file, hfile, hd, htotal, hoffset, rfl⟩ := h
  simp only at hd htotal hoffset
  subst hd
  have hlen : ((file.drop brc.offset).take toRead).length = toRead :=
    List.length_take_of_le (by rw [List.length_drop]; omega)
  refine ⟨(file.drop brc.offset).take toRead, { dbLog with dbLogOffset := brc.offset + toRead }, ?_, hlen,
    file, hfile, by rw [hlen], htotal, by simp only [hlen]; omega, ?_⟩
  · simp only [evbufferRead, hfile, Option.getD_some, hlen]
  · simp only [hlen]
    rw [List.append_assoc, ← List.drop_drop, List.take_append_drop]

/-- **What one call does**: it returns 0 where the file ends, it delivers, or it falls short. -/
theorem bufferedReadShort_spec (h : FileLeft dbLog (d, brc) l) (hpos : 0 < length) (short : Nat) :
    ∃ ret out d' brc', bufferedReadShort short length d brc = some (ret, out, d', brc') ∧
      (l.length < length → ret = 0 ∧ FileLeft dbLog (d', brc') l) ∧
      (length ≤ l.length → ret = length ∧
        (¬ FallsShort brc length short → out = l.take length ∧ FileLeft dbLog (d', brc') (l.drop length)) ∧
        (FallsShort brc length short → out.length < length)) := by
  have hl := h.length_eq
  unfold bufferedReadShort
  by_cases hbuf : brc.buf.length < length
  · simp only [if_pos hbuf]
    by_cases hend : brc.offset ≥ brc.totalSize
    · rw [if_pos hend]
      exact ⟨0, [], d, brc, rfl, fun _ => ⟨rfl, h⟩, fun hle => absurd hle (by omega)⟩
    rw [if_neg hend]
    by_cases hmore : length - brc.buf.length > brc.totalSize - brc.offset
    · rw [if_pos hmore]
      exact ⟨0, [], d, brc, rfl, fun _ => ⟨rfl, h⟩, fun hle => absurd hle (by omega)⟩
    rw [if_neg hmore]
    -- how much is read ahead does not matter
    generalize hr : (if brc.totalSize - brc.offset - (length - brc.buf.length) ≥ brc.bufferSize then
      length - brc.buf.length + brc.bufferSize else length - brc.buf.length) = toRead
    have hread : length - brc.buf.length ≤ toRead ∧ toRead ≤ brc.totalSize - brc.offset := by
      rw [← hr]
      split <;> omega
    have hend' : brc.offset + min (short + 1) toRead ≤ brc.totalSize := by omega
    obtain ⟨data, d', hdata, hlen, hleft⟩ := evbufferRead_left h hend'
    simp only [hdata]
    rw [if_neg (by omega), if_pos (by omega)]
    by_cases hshort : FallsShort brc length short
    · unfold FallsShort at hshort
      have htake : ((brc.buf ++ data).take length).length = brc.buf.length + data.length := by
        rw [List.length_take, List.length_append]
        omega
      unfold evbufferRemove
      simp only [htake]
      rw [if_neg (by omega)]
      refine ⟨_, _, _, _, rfl, fun hlt => absurd hlt (by omega), fun _ => ⟨rfl, fun hno => absurd hshort hno, fun _ => ?_⟩⟩
      rw [htake]
      omega
    · obtain ⟨hremove, hleft'⟩ := evbufferRemove_enough hleft hpos (by
        unfold FallsShort at hshort
        rw [List.length_append]
        omega)
      exact ⟨_, _, _, _, congrArg some hremove, fun hlt => absurd hlt (by omega),
        fun _ => ⟨rfl, fun _ => ⟨rfl, hleft'⟩, fun hyes => absurd hyes hshort⟩⟩
  · simp only [if_neg hbuf]
    obtain ⟨hremove, hleft⟩ := evbufferRemove_enough h hpos (by omega)
    exact ⟨_, _, _, _, congrArg some hremove, fun hlt => absurd hlt (by omega),
      fun _ => ⟨rfl, fun _ => ⟨rfl, hleft⟩, fun hyes => absurd hyes.1 hbuf⟩⟩

end

/-- Reads that bring what a call asks for make it the reader of the replay. -/
theorem bufferedReadShort_enough {dbLog d : DBLog UInt8} {brc : BufferedReadContext} {l : Bytes} {length : Nat}
    (h : FileLeft dbLog (d, brc) l) (hpos : 0 < length) {short : Nat} (henough : length ≤ short + 1) :
    ∃ ret out s, bufferedReadShort short length d brc = some (ret, out, s) ∧
      ((bufferedRead length).run (d, brc)).1 = if ret = 0 then none else some out := by
  obtain ⟨ret, out, d', brc', hcall, hend, hdeliver⟩ := bufferedReadShort_spec h hpos short
  refine ⟨ret, out, (d', brc'), hcall, ?_⟩
  rw [((reads_bufferedRead dbLog length hpos).exact h).1]
  by_cases hle : length ≤ l.length
  · obtain ⟨hret, hout, -⟩ := hdeliver hle
    obtain ⟨hout, -⟩ := hout (fun hshort => absurd hshort.2.2 (by omega))
    rw [if_neg (by omega), hout, Lib.takeBytes]
    simp only [if_pos hle]
  · rw [if_pos (hend (by omega)).1, Lib.takeBytes_short (by omega)]

/-! ## A run of calls -/

/-- A call: how many bytes it asks for, and its read of the file brings `short + 1` bytes at most. -/
structure ReadCall where
  length : Nat
  short : Nat

/-- What a call that began behind `position` bytes returned. -/
structure ReadResult where
  position : Nat
  length : Nat
  ret : Int
  out : Bytes

/-- The reader, how many bytes the calls have returned together, and the result of the last one. -/
structure ReadState where
  dbLog : DBLog UInt8
  brc : BufferedReadContext
  position : Nat
  last : Option ReadResult

def readStep (s : ReadState) (call : ReadCall) : Option ReadState := do
  let (ret, out, dbLog, brc) ← bufferedReadShort call.short call.length s.dbLog s.brc
  let position := if ret = call.length then s.position + call.length else s.position
  some ⟨dbLog, brc, position, some ⟨s.position, call.length, ret, out⟩⟩

/-- A journal that was just opened, with its reader. -/
def readSystem (dbLog : DBLog UInt8) : System ReadState ReadCall where
  init := ⟨dbLog, initBufferedRead dbLog, 0, none⟩
  legal _ call := 1 ≤ call.length
  step := readStep

instance (dbLog : DBLog UInt8) (s : ReadState) (call : ReadCall) : Decidable ((readSystem dbLog).legal s call) :=
  inferInstanceAs (Decidable (1 ≤ call.length))

/-- **The result of a call is right**: with `length` it has copied the next `length` bytes of the file, and with 0 there
are fewer than that. -/
def ReadResult.Right (file : Bytes) (r : ReadResult) : Prop :=
  (r.ret = r.length → r.out = (file.drop r.position).take r.length ∧ r.out.length = r.length) ∧
    (r.ret = 0 → (file.drop r.position).length < r.length)

/-- The last call, if any, was right. -/
def ReadState.Right (file : Bytes) (s : ReadState) : Prop := ∀ r ∈ s.last, r.Right file

/-- What holds between two calls as long as none has fallen short. -/
structure ReadInv (dbLog : DBLog UInt8) (file : Bytes) (s : ReadState) : Prop where
  left : FileLeft dbLog (s.dbLog, s.brc) (file.drop s.position)
  right : s.Right file

section
variable {dbLog : DBLog UInt8} {file : Bytes}

theorem readStep_good {s s' : ReadState} {call : ReadCall} (h : ReadInv dbLog file s) (hpos : 1 ≤ call.length)
    (hgood : ¬ FallsShort s.brc call.length call.short) (hstep : readStep s call = some s') : ReadInv dbLog file s' := by
  obtain ⟨ret, out, d', brc', hcall, hend, hdeliver⟩ := bufferedReadShort_spec h.left hpos call.short
  unfold readStep at hstep
  rw [hcall] at hstep
  cases hstep
  by_cases hle : call.length ≤ (file.drop s.position).length
  · obtain ⟨rfl, hout, -⟩ := hdeliver hle
    obtain ⟨rfl, hleft⟩ := hout hgood
    refine ⟨by simpa [List.drop_drop] using hleft, ?_⟩
    rintro _ ⟨⟩
    exact ⟨fun _ => ⟨rfl, List.length_take_of_le hle⟩, fun hret => absurd hret (by simp only; omega)⟩
  · obtain ⟨rfl, hleft⟩ := hend (by omega)
    have hne : ¬ ((0 : Int) = call.length) := by omega
    refine ⟨by simpa [hne] using hleft, ?_⟩
    rintro _ ⟨⟩
    exact ⟨fun hret => absurd hret hne, fun _ => by simp only; omega⟩

theorem readStep_bad {s s' : ReadState} {call : ReadCall} (h : ReadInv dbLog file s) (hpos : 1 ≤ call.length)
    (hbad : FallsShort s.brc call.length call.short) (hstep : readStep s call = some s') : ¬ s'.Right file := by
  obtain ⟨ret, out, d', brc', hcall, -, hdeliver⟩ := bufferedReadShort_spec h.left hpos call.short
  have hlen := h.left.length_eq
  obtain ⟨rfl, -, hshort⟩ := hdeliver (by rw [hlen]; exact hbad.2.1)
  unfold readStep at hstep
  rw [hcall] at hstep
  cases hstep
  intro hright
  have hout := ((hright _ rfl).1 rfl).2
  exact absurd (hshort hbad) (by rw [hout]; exact lt_irrefl _)

/-- **Every call delivers the next bytes of the file** exactly when no read falls short of what its call lacks. -/
theorem buffered_read_delivers_iff (hfile : dbLog.dbLogFd = some file) (hopen : dbLog.dbLogOffset = 0)
    {h : List (ReadState × ReadCall)} {last : ReadState} (hrun : (readSystem dbLog).Run h last) :
    ((∀ p ∈ h, p.1.Right file) ∧ last.Right file) ↔ ∀ p ∈ h, ¬ FallsShort p.1.brc p.2.length p.2.short := by
  have hinit : ReadInv dbLog file (readSystem dbLog).init := by
    refine ⟨⟨file, hfile, ?_, ?_, Nat.zero_le _, rfl⟩, fun _ hr => by cases hr⟩
    · show dbLog = { dbLog with dbLogOffset := 0 }
      rw [← hopen]
    · show (dbLog.dbLogFd.getD []).length = file.length
      rw [hfile, Option.getD_some]
  exact hrun.law_iff_good hinit (fun _ hinv => hinv.right)
    (fun _ _ _ hinv hpos hgood hstep => readStep_good hinv hpos hgood hstep)
    (fun _ _ _ hinv hpos hbad hstep => readStep_bad hinv hpos (not_not.1 hbad) hstep)

end

/-- A journal of three bytes. -/
def journalAbc : DBLog UInt8 := ⟨some (bytes "db"), some (bytes "abc"), 0, [], 4096, 5, none, none, -1⟩

/-- Two reads that bring all they are asked for. -/
theorem buffered_read_delivers_abc : ∃ s₁ s₂, (readSystem journalAbc).Run
    [((readSystem journalAbc).init, ⟨1, 0⟩), (s₁, ⟨2, 1⟩)] s₂ ∧ s₂.Right (bytes "abc") := by
  obtain ⟨s₁, h₁⟩ : ∃ s₁, readStep (readSystem journalAbc).init ⟨1, 0⟩ = some s₁ := ⟨_, rfl⟩
  obtain rfl : s₁ = ⟨{ journalAbc with dbLogOffset := 1 }, ⟨[], 1, 3, 65536⟩, 1, some ⟨0, 1, 1, bytes "a"⟩⟩ :=
    Option.some.inj (h₁.symm.trans rfl)
  obtain ⟨s₂, h₂⟩ : ∃ s₂, readStep ⟨{ journalAbc with dbLogOffset := 1 }, ⟨[], 1, 3, 65536⟩, 1,
      some ⟨0, 1, 1, bytes "a"⟩⟩ ⟨2, 1⟩ = some s₂ := ⟨_, rfl⟩
  have hrun : (readSystem journalAbc).Run ([] ++ [((readSystem journalAbc).init, ⟨1, 0⟩)] ++ [(_, ⟨2, 1⟩)]) s₂ :=
    .snoc (.snoc .init (by decide) h₁) (by decide) h₂
  refine ⟨_, s₂, hrun, ((buffered_read_delivers_iff rfl rfl hrun).2 (fun p hp => ?_)).2⟩
  rcases List.mem_cons.1 hp with rfl | hp
  · decide
  · rw [List.mem_singleton.1 hp]
    decide

/-- **A short read**: the call returns 2 and has copied one byte. -/
theorem buffered_read_short : ¬ ∀ (dbLog : DBLog UInt8) (file : Bytes), dbLog.dbLogFd = some file →
    dbLog.dbLogOffset = 0 → ∀ h last, (readSystem dbLog).Run h last → last.Right file := by
  intro hall
  obtain ⟨s, hs⟩ : ∃ s, readStep (readSystem journalAbc).init ⟨2, 0⟩ = some s := ⟨_, rfl⟩
  have hlast : s.last = some ⟨0, 2, 2, bytes "a"⟩ := by
    rw [← Option.some.inj ((show _ = some _ from rfl : readStep (readSystem journalAbc).init ⟨2, 0⟩ = _).symm.trans hs)]
    rfl
  have hrun : (readSystem journalAbc).Run ([] ++ [((readSystem journalAbc).init, ⟨2, 0⟩)]) s := .snoc .init (by decide) hs
  have hright := ((hall journalAbc (bytes "abc") rfl rfl _ s hrun) _ hlast).1 rfl
  exact absurd hright.2 (by decide)

end Pincaster
