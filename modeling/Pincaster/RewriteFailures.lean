import Pincaster.JournalRewrite
/-!
# RewriteFailures — what a failure of the child does to the journal

When no operation of the child failed, its file is the complete dump of the layers that were visited.  Whether one failed
is lost on the way to the parent, which renames whatever file there is (`rewrite_safe_iff`).
-/
namespace Pincaster

open Lib (Bytes bytes printNat)

variable {D : Type} (context : DumpContext D)

/-! ## The complete dump -/

def dumpRecord (encodedLayerName : Bytes) (record : DumpedRecord D) : Bytes :=
  logRecord EVHTTP_REQ_PUT (recordUri context encodedLayerName record.key)
    (rebuildJournalBody context record (encodeBody record.properties) record.properties.isEmpty)

def dumpLayer (layer : DumpedLayer D) : Bytes :=
  logRecord EVHTTP_REQ_POST (layerUri context (encode layer.name)) [] ++
    layer.records.flatMap (dumpRecord context (encode layer.name))

/-- **The complete dump** of some layers: a mark, and every layer with every record. -/
def completeDump (layers : List (DumpedLayer D)) : Bytes :=
  (if layers = [] then [] else addTsToEvLogBuffer [] context.now) ++ layers.flatMap (dumpLayer context)

/-! ## Without a failure -/

/-- An operation that did not fail. -/
theorem Child.attempt_ok {c : Child} (h : c.attempt.2.anyFailed = false) :
    c.attempt.1 = true ∧ c.anyFailed = false ∧ c.attempt.2.tmpLog = c.tmpLog := by
  unfold Child.attempt at h ⊢
  split at h
  · exact ⟨rfl, h, rfl⟩
  · simp only [Bool.or_eq_false_iff, decide_eq_false_iff_not] at h
    exact ⟨by simpa using h.2, h.1, rfl⟩

theorem evbufferWrite_written {o : Outcome} {logBuffer : Bytes} {n : Nat}
    (h : evbufferWrite o logBuffer = .written n) : n ≤ logBuffer.length := by
  unfold evbufferWrite at h
  split at h
  · cases h
  · cases h
  · split at h
    · cases h
      exact Nat.le_refl _
    · cases h
  · split at h
    · cases h
      exact Nat.min_le_right _ _
    · cases h

/-- **A flush in which no write failed writes the whole buffer.** -/
theorem flushLogBufferLoop_ok : ∀ (outcomes : List Outcome) (logBuffer : Bytes) (c : Child),
    (flushLogBufferLoop outcomes logBuffer c).2.2.anyFailed = false →
    (flushLogBufferLoop outcomes logBuffer c).1 = 0 ∧ c.anyFailed = false ∧
      (flushLogBufferLoop outcomes logBuffer c).2.1 = [] ∧
      (flushLogBufferLoop outcomes logBuffer c).2.2.tmpLog = c.tmpLog ++ logBuffer
  | [], logBuffer, c, h => by
    unfold flushLogBufferLoop evbufferWrite at h ⊢
    by_cases hlen : logBuffer.length > 0
    · simp only [if_pos hlen] at h ⊢
      exact ⟨trivial, h, List.drop_length, by rw [List.take_length]⟩
    · simp only [if_neg hlen] at h
      cases h
  | o :: outcomes, logBuffer, c, h => by
    unfold flushLogBufferLoop at h ⊢
    rcases ho : evbufferWrite o logBuffer with n | _ | _
    · simp only [ho] at h ⊢
      split at h
      · rename_i hmore
        rw [if_pos hmore]
        obtain ⟨hret, hc, hbuffer, htmp⟩ := flushLogBufferLoop_ok outcomes _ _ h
        refine ⟨hret, hc, hbuffer, ?_⟩
        rw [htmp, List.append_assoc, List.take_append_drop]
      · rename_i hmore
        rw [if_neg hmore]
        have hnil : logBuffer.drop n = [] := List.eq_nil_of_length_eq_zero (by omega)
        have htake := List.take_append_drop n logBuffer
        rw [hnil, List.append_nil] at htake
        exact ⟨rfl, h, hnil, by rw [htake]⟩
    · simp only [ho] at h ⊢
      split at h
      · rename_i hmore
        rw [if_pos hmore]
        exact flushLogBufferLoop_ok outcomes _ _ h
      · rename_i hmore
        rw [if_neg hmore]
        have hnil : logBuffer = [] := List.eq_nil_of_length_eq_zero (by omega)
        rw [hnil]
        exact ⟨rfl, h, rfl, (List.append_nil _).symm⟩
    · simp only [ho] at h
      cases h

theorem flushLogBuffer_ok {logBuffer : Bytes} {c : Child} (h : (flushLogBuffer logBuffer c).2.2.anyFailed = false) :
    (flushLogBuffer logBuffer c).1 = 0 ∧ c.anyFailed = false ∧ (flushLogBuffer logBuffer c).2.1 = [] ∧
      (flushLogBuffer logBuffer c).2.2.tmpLog = c.tmpLog ++ logBuffer :=
  flushLogBufferLoop_ok c.outcomes logBuffer c h

/-- One property, as the body of a record has it. -/
theorem rebuildJournalPropertyCbChild_ok {key value bodyBuffer : Bytes} {first : Bool} {c : Child}
    (h : (rebuildJournalPropertyCbChild key value bodyBuffer first c).2.2.anyFailed = false) :
    (rebuildJournalPropertyCbChild key value bodyBuffer first c).1 = 0 ∧ c.anyFailed = false ∧
      (rebuildJournalPropertyCbChild key value bodyBuffer first c).2.2.tmpLog = c.tmpLog ∧
      (rebuildJournalPropertyCbChild key value bodyBuffer first c).2.1 =
        (if first then bodyBuffer else bodyBuffer ++ [38]) ++ encodePair (key, value) := by
  unfold rebuildJournalPropertyCbChild at h ⊢
  have hsep : bytes "&" = [38] := rfl
  rcases h₁ : c.attempt with ⟨ok₁, c₁⟩
  have hok₁ := @Child.attempt_ok c
  rw [h₁] at hok₁
  cases ok₁ with
  | false =>
    simp only [h₁] at h
    exact absurd (hok₁ h).1 Bool.false_ne_true
  | true =>
    rcases h₂ : c₁.attempt with ⟨ok₂, c₂⟩
    have hok₂ := @Child.attempt_ok c₁
    rw [h₂] at hok₂
    cases ok₂ with
    | false =>
      simp only [h₁, h₂] at h
      exact absurd (hok₂ h).1 Bool.false_ne_true
    | true =>
      simp only [h₁, h₂, hsep] at h ⊢
      obtain ⟨-, hc₁, htmp₂⟩ := hok₂ h
      obtain ⟨-, hc, htmp₁⟩ := hok₁ hc₁
      simp only at htmp₁ htmp₂
      refine ⟨rfl, hc, htmp₂.trans htmp₁, ?_⟩
      unfold encodePair
      rw [encode_append, encode_cons, enc_eq_sign, show bytes "=" = [61] from rfl]
      simp

theorem rebuildJournalPropertiesChild_ok : ∀ (properties : List (Bytes × Bytes)) {bodyBuffer : Bytes} {first : Bool}
    {c : Child}, (rebuildJournalPropertiesChild properties bodyBuffer first c).2.2.anyFailed = false →
    c.anyFailed = false ∧
      (rebuildJournalPropertiesChild properties bodyBuffer first c).2.2.tmpLog = c.tmpLog ∧
      (rebuildJournalPropertiesChild properties bodyBuffer first c).1 =
        bodyBuffer ++ (if first then encodeBody properties else encodeRest properties) ∧
      (rebuildJournalPropertiesChild properties bodyBuffer first c).2.1 = (first && properties.isEmpty)
  | [], bodyBuffer, first, c, h => by
    unfold rebuildJournalPropertiesChild at h ⊢
    refine ⟨h, ?_⟩
    cases first <;> simp [encodeBody, encodeRest]
  | (key, value) :: properties, bodyBuffer, first, c, h => by
    unfold rebuildJournalPropertiesChild at h ⊢
    have hok := @rebuildJournalPropertyCbChild_ok key value bodyBuffer first c
    rcases hcb : rebuildJournalPropertyCbChild key value bodyBuffer first c with ⟨ret, bodyBuffer', c'⟩
    rw [hcb] at hok
    simp only [hcb] at h hok ⊢
    split at h
    · rename_i hret
      rw [if_pos hret]
      obtain ⟨hc', htmp', hbody', hfirst'⟩ := rebuildJournalPropertiesChild_ok properties h
      obtain ⟨-, hc, htmp, hbody⟩ := hok hc'
      refine ⟨hc, htmp'.trans htmp, ?_, by rw [hfirst']; simp⟩
      rw [hbody', hbody]
      cases first <;> simp [encodeBody, encodeRest]
    · rename_i hret
      exact absurd (hok h).1 hret

/-- **A record without a failure**: its text is in the buffer, or was flushed with it. -/
theorem rebuildJournalRecordCb_ok {encodedLayerName : Bytes} {record : DumpedRecord D} {logBuffer : Bytes} {c : Child}
    (h : (rebuildJournalRecordCb context encodedLayerName record logBuffer c).2.2.anyFailed = false) :
    (rebuildJournalRecordCb context encodedLayerName record logBuffer c).1 = 0 ∧ c.anyFailed = false ∧
      (rebuildJournalRecordCb context encodedLayerName record logBuffer c).2.2.tmpLog ++
        (rebuildJournalRecordCb context encodedLayerName record logBuffer c).2.1 =
        c.tmpLog ++ logBuffer ++ dumpRecord context encodedLayerName record := by
  unfold rebuildJournalRecordCb at h ⊢
  have hok₁ := @Child.attempt_ok c
  rcases h₁ : c.attempt with ⟨ok₁, c₁⟩
  rw [h₁] at hok₁
  cases ok₁ with
  | false =>
    simp only [h₁] at h
    exact absurd (hok₁ h).1 Bool.false_ne_true
  | true =>
    have hok₂ := @rebuildJournalPropertiesChild_ok record.properties [] true c₁
    rcases h₂ : rebuildJournalPropertiesChild record.properties [] true c₁ with ⟨bodyBuffer, first, c₂⟩
    rw [h₂] at hok₂
    obtain ⟨text, htext⟩ : ∃ text, text = logBuffer ++ DB_LOG_RECORD_COOKIE_HEAD ++ (printNat 16 EVHTTP_REQ_PUT ++
        bytes " " ++ printNat 16 (recordUri context encodedLayerName record.key).length ++ bytes ":" ++
        recordUri context encodedLayerName record.key ++ bytes " ") ++
        (printNat 16 (rebuildJournalBody context record bodyBuffer first).length ++ bytes ":") ++
        rebuildJournalBody context record bodyBuffer first ++ DB_LOG_RECORD_COOKIE_TAIL := ⟨_, rfl⟩
    -- what was printed is the record, when all its properties are there
    have hrecord (hc : c₂.anyFailed = false) :
        c.anyFailed = false ∧ c₂.tmpLog = c.tmpLog ∧ text = logBuffer ++ dumpRecord context encodedLayerName record := by
      obtain ⟨hc₁, htmp₂, hbody, hfirst⟩ := hok₂ hc
      obtain ⟨-, hc, htmp₁⟩ := hok₁ hc₁
      refine ⟨hc, htmp₂.trans htmp₁, ?_⟩
      simp only [List.nil_append, if_true] at hbody
      simp only [Bool.true_and] at hfirst
      rw [htext, hbody, hfirst, dumpRecord, logRecord]
      simp only [List.append_assoc]
    simp only [h₁, h₂, ← htext] at h ⊢
    by_cases hlong : text.length > TMP_LOG_BUFFER_SIZE
    · simp only [if_true, if_pos hlong] at h ⊢
      obtain ⟨hret, hc₂, hbuffer, htmp⟩ := flushLogBuffer_ok h
      obtain ⟨hc, htmp₂, heq⟩ := hrecord hc₂
      exact ⟨trivial, hc, by rw [hbuffer, htmp, htmp₂, heq, List.append_nil, List.append_assoc]⟩
    · simp only [if_true, if_neg hlong] at h ⊢
      obtain ⟨hc, htmp₂, heq⟩ := hrecord h
      exact ⟨trivial, hc, by rw [htmp₂, heq, List.append_assoc]⟩

theorem rebuildJournalRecords_ok {encodedLayerName : Bytes} : ∀ (records : List (DumpedRecord D)) {logBuffer : Bytes}
    {c : Child}, (rebuildJournalRecords context encodedLayerName records logBuffer c).2.2.anyFailed = false →
    (rebuildJournalRecords context encodedLayerName records logBuffer c).1 = 0 ∧ c.anyFailed = false ∧
      (rebuildJournalRecords context encodedLayerName records logBuffer c).2.2.tmpLog ++
        (rebuildJournalRecords context encodedLayerName records logBuffer c).2.1 =
        c.tmpLog ++ logBuffer ++ records.flatMap (dumpRecord context encodedLayerName)
  | [], logBuffer, c, h => ⟨rfl, h, by simp [rebuildJournalRecords]⟩
  | record :: records, logBuffer, c, h => by
    unfold rebuildJournalRecords at h ⊢
    have hok := @rebuildJournalRecordCb_ok D context encodedLayerName record logBuffer c
    rcases hcb : rebuildJournalRecordCb context encodedLayerName record logBuffer c with ⟨ret, logBuffer', c'⟩
    rw [hcb] at hok
    simp only [hcb] at h hok ⊢
    split at h
    · rename_i hret
      rw [if_pos hret]
      obtain ⟨hret', hc', htmp'⟩ := rebuildJournalRecords_ok records h
      obtain ⟨-, hc, htmp⟩ := hok hc'
      refine ⟨hret', hc, ?_⟩
      rw [htmp', htmp, List.append_assoc, List.flatMap_cons]
    · rename_i hret
      exact absurd (hok h).1 hret

/-- **A layer without a failure.** -/
theorem rebuildJournalLayerCb_ok {e : EntryPtr} {layer : DumpedLayer D} {c : Child} {tsWritten : Bool}
    (h : (rebuildJournalLayerCb context (c, tsWritten) e layer).2.1.anyFailed = false) :
    (rebuildJournalLayerCb context (c, tsWritten) e layer).1 = 0 ∧ c.anyFailed = false ∧
      (rebuildJournalLayerCb context (c, tsWritten) e layer).2.2 = true ∧
      (rebuildJournalLayerCb context (c, tsWritten) e layer).2.1.tmpLog =
        c.tmpLog ++ (if tsWritten then [] else addTsToEvLogBuffer [] context.now) ++ dumpLayer context layer := by
  unfold rebuildJournalLayerCb at h ⊢
  have hok₁ := @Child.attempt_ok c
  rcases h₁ : c.attempt with ⟨ok₁, c₁⟩
  rw [h₁] at hok₁
  cases ok₁ with
  | false =>
    simp only [h₁] at h
    exact absurd (hok₁ h).1 Bool.false_ne_true
  | true =>
    have hok₂ := @Child.attempt_ok c₁
    rcases h₂ : c₁.attempt with ⟨ok₂, c₂⟩
    rw [h₂] at hok₂
    cases ok₂ with
    | false =>
      simp only [h₁, h₂] at h
      exact absurd (hok₂ h).1 Bool.false_ne_true
    | true =>
      simp only [h₁, h₂, if_true] at h ⊢
      generalize (if tsWritten = true then [] else addTsToEvLogBuffer [] context.now) = mark at h ⊢
      have hok₃ := @rebuildJournalRecords_ok D context (encode layer.name) layer.records
        (mark ++ logRecord EVHTTP_REQ_POST (layerUri context (encode layer.name)) []) c₂
      rcases h₃ : rebuildJournalRecords context (encode layer.name) layer.records
        (mark ++ logRecord EVHTTP_REQ_POST (layerUri context (encode layer.name)) []) c₂ with ⟨ret, logBuffer, c₃⟩
      rw [h₃] at hok₃
      simp only [h₃] at h ⊢
      by_cases hret : ret = 0
      · rw [if_neg (not_not.2 hret)] at h ⊢
        obtain ⟨hret', hc₃, -, htmp⟩ := flushLogBuffer_ok h
        obtain ⟨-, hc₂, htmp₃⟩ := hok₃ hc₃
        obtain ⟨-, hc₁, htmp₂⟩ := hok₂ hc₂
        obtain ⟨-, hc, htmp₁⟩ := hok₁ hc₁
        simp only at htmp₁ htmp₂ htmp₃
        refine ⟨hret', hc, rfl, ?_⟩
        simp only
        rw [htmp, htmp₃, htmp₂, htmp₁, dumpLayer]
        simp only [List.append_assoc]
      · rw [if_pos hret] at h
        exact absurd (hok₃ h).1 hret

/-- **All layers that are visited.** -/
theorem foreachList_rebuildJournalLayerCb_ok : ∀ (visited : List (EntryPtr × DumpedLayer D)) {c : Child}
    {tsWritten : Bool}, (foreachList (rebuildJournalLayerCb context) visited (c, tsWritten)).2.1.anyFailed = false →
    c.anyFailed = false ∧ (foreachList (rebuildJournalLayerCb context) visited (c, tsWritten)).2.1.tmpLog =
      c.tmpLog ++ (if tsWritten ∨ visited = [] then [] else addTsToEvLogBuffer [] context.now) ++
        visited.flatMap (fun p => dumpLayer context p.2)
  | [], c, tsWritten, h => ⟨h, by simp [foreachList]⟩
  | p :: visited, c, tsWritten, h => by
    unfold foreachList at h ⊢
    have hok := @rebuildJournalLayerCb_ok D context p.1 p.2 c tsWritten
    rcases hcb : rebuildJournalLayerCb context (c, tsWritten) p.1 p.2 with ⟨ret, c', tsWritten'⟩
    rw [hcb] at hok
    simp only [hcb] at h hok ⊢
    split at h
    · rename_i hret
      rw [if_pos hret]
      obtain ⟨hc', htmp'⟩ := foreachList_rebuildJournalLayerCb_ok visited h
      obtain ⟨-, hc, rfl, htmp⟩ := hok hc'
      refine ⟨hc, ?_⟩
      rw [htmp', htmp]
      cases tsWritten <;> simp
    · rename_i hret
      exact absurd (hok h).1 hret

/-! ## The child and the parent -/

/-- **What a `foreach` of the layers visits**: some of the live ones, each once, until the callback stops it.  A chunk
that the slab has lost is not visited. -/
structure Visits (layersSlab : Slab (DumpedLayer D)) (live visited : List (EntryPtr × DumpedLayer D)) : Prop where
  foreach : ∀ (cb : Child × Bool → EntryPtr → DumpedLayer D → Int × Child × Bool) (cbContext : Child × Bool),
    slabForeach cb layersSlab cbContext = some (foreachList cb visited cbContext)
  lost : ∃ lost, (visited ++ lost).Perm live

/-- A slab in order has all its layers visited. -/
theorem SlabInv.visits {s : SlabRun (DumpedLayer D)} {pl fl : List Nat} (h : SlabInv s pl fl) :
    ∃ visited, Visits s.slab s.live visited ∧ visited.Perm s.live :=
  ⟨_, ⟨h.foreach, [], by rw [List.append_nil]; exact h.slots.perm_visits h.lists⟩, h.slots.perm_visits h.lists⟩

/-- There is a file of the temporary name when the parent comes: an older one, or the one the child opened. -/
def TmpFileThere (outcomes : List Outcome) (tmpFile : Option Bytes) : Prop :=
  tmpFile.isSome = true ∨ outcomes[0]? ≠ some .failed ∧ outcomes[1]? ≠ some .failed

/-- Nothing keeps the parent from renaming the file there is. -/
def ParentRenames (parent : ParentOutcomes) (recent : Bytes) : Prop :=
  parent.named = true ∧ parent.rewound = true ∧ parent.opened = true ∧ (recent = [] ∨ parent.written = true) ∧
    parent.forwarded = true ∧ parent.anySlaveInInitialDownload = false ∧ parent.renamed = true

/-- **The journal is safe**: a failure of the child leaves it alone, and what replaces it is a complete dump of the layers
and the records that followed. -/
def RewriteSafe (live : List (EntryPtr × DumpedLayer D)) (anyFailed : Bool) (recent : Bytes)
    (replacement : Option Bytes) : Prop :=
  (anyFailed = true → replacement = none) ∧ ∀ journal, replacement = some journal →
    ∃ order : List (EntryPtr × DumpedLayer D), order.Perm live ∧
      journal = completeDump context (order.map Prod.snd) ++ recent

theorem attempt_fst (c : Child) : c.attempt.1 = true ↔ c.outcomes[0]? ≠ some .failed := by
  unfold Child.attempt
  split <;> simp_all

theorem attempt_outcomes (c : Child) : c.attempt.2.outcomes = c.outcomes.tail := by
  unfold Child.attempt
  split <;> simp_all

/-- **What the child leaves**: it always exits with 0.  Its file is there when its first two operations went well, and
complete when all of them did. -/
theorem rewriteChild_spec {layersSlab : Slab (DumpedLayer D)} {live visited : List (EntryPtr × DumpedLayer D)}
    (h : Visits layersSlab live visited) (outcomes : List Outcome) (tmpFile : Option Bytes) :
    ∃ child, rewriteChild context layersSlab outcomes tmpFile = some child ∧ child.status = 0 ∧
      (child.tmpFile.isSome = true ↔ TmpFileThere outcomes tmpFile) ∧
      (child.anyFailed = false → child.tmpFile = some (completeDump context (visited.map Prod.snd))) := by
  have hfst₁ := attempt_fst ⟨outcomes, [], false⟩
  have htail := attempt_outcomes ⟨outcomes, [], false⟩
  have hok₁ := @Child.attempt_ok ⟨outcomes, [], false⟩
  unfold rewriteChild TmpFileThere
  rcases h₁ : (⟨outcomes, [], false⟩ : Child).attempt with ⟨named, c₁⟩
  rw [h₁] at hfst₁ hok₁ htail
  simp only at hfst₁ hok₁ htail
  cases named with
  | false =>
    refine ⟨⟨0, tmpFile, c₁.anyFailed⟩, by simp, rfl, ?_, fun hc => absurd (hok₁ hc).1 Bool.false_ne_true⟩
    simp only [Bool.false_eq_true, false_iff, not_not] at hfst₁
    simp [hfst₁]
  | true =>
    have hfst₂ := attempt_fst c₁
    have hok₂ := @Child.attempt_ok c₁
    rw [htail, List.getElem?_tail] at hfst₂
    rcases h₂ : c₁.attempt with ⟨opened, c₂⟩
    rw [h₂] at hfst₂ hok₂
    simp only [true_iff] at hfst₁ hfst₂ hok₂
    cases opened with
    | false =>
      refine ⟨⟨0, tmpFile, c₂.anyFailed⟩, by simp [h₂], rfl, ?_, fun hc => absurd (hok₂ hc).1 Bool.false_ne_true⟩
      simp only [Bool.false_eq_true, false_iff, not_not, Nat.zero_add] at hfst₂
      simp [hfst₂]
    | true =>
      have hdump := @foreachList_rebuildJournalLayerCb_ok D context visited c₂ false
      rcases h₃ : foreachList (rebuildJournalLayerCb context) visited (c₂, false) with ⟨ret, c₃, tsWritten⟩
      rw [h₃] at hdump
      refine ⟨⟨0, some c₃.tmpLog, c₃.anyFailed⟩, ?_, rfl, ?_, fun hc => ?_⟩
      · simp only [if_true, h₂, rebuildJournal, h.foreach, h₃, Option.map_some, Option.bind_eq_bind, Option.bind_some]
      · simp only [true_iff, Nat.zero_add] at hfst₂
        simp only [Option.isSome_some, true_iff]
        exact .inr ⟨hfst₁, hfst₂⟩
      · obtain ⟨hc₂, htmp₃⟩ := hdump hc
        obtain ⟨-, hc₁, htmp₂⟩ := hok₂ hc₂
        obtain ⟨-, -, htmp₁⟩ := hok₁ hc₁
        simp only at htmp₁ htmp₂ htmp₃
        simp only
        rw [htmp₃, htmp₂, htmp₁, completeDump]
        simp [List.flatMap_map]

/-- **When the parent replaces the journal**: whenever there is a file, whatever became of the child. -/
theorem systemRewriteAfterFork_eq (parent : ParentOutcomes) (tmpFile : Option Bytes) (recent journal : Bytes) :
    systemRewriteAfterFork parent tmpFile recent = some journal ↔
      ParentRenames parent recent ∧ ∃ dump, tmpFile = some dump ∧ journal = dump ++ recent := by
  unfold systemRewriteAfterFork ParentRenames
  obtain ⟨named, rewound, opened, written, forwarded, anySlave, renamed⟩ := parent
  simp only
  cases named <;> cases rewound <;> cases opened <;> cases forwarded <;> cases anySlave <;> cases renamed <;>
    cases tmpFile <;> cases recent <;> cases written <;> simp [eq_comm]

/-- The journal that `systemRewriteAfterForkCb` opens is the file that was renamed. -/
theorem systemRewriteAfterFork_file {parent : ParentOutcomes} {dbLog : DBLog UInt8} {file : Bytes} {offset : Nat}
    (hopen : dbLog.dbLogFd = some file) (hoffset : dbLog.offsetBeforeFork = some offset)
    (hparent : ParentRenames parent (file.drop offset)) (dump : Bytes) :
    (systemRewriteAfterForkCb dump dbLog).bind (·.dbLogFd) =
      systemRewriteAfterFork parent (some dump) (file.drop offset) := by
  rw [(systemRewriteAfterFork_eq parent (some dump) _ (dump ++ file.drop offset)).2 ⟨hparent, dump, rfl, rfl⟩]
  simp [systemRewriteAfterForkCb, hopen, hoffset]

/-- More layers give a longer dump. -/
theorem completeDump_lost {visited order : List (DumpedLayer D)} {lost : List (DumpedLayer D)}
    (h : (visited ++ lost).Perm order) (hlost : lost ≠ []) :
    (completeDump context visited).length < (completeDump context order).length := by
  have hlen : (order.flatMap (dumpLayer context)).length =
      (visited.flatMap (dumpLayer context)).length + (lost.flatMap (dumpLayer context)).length := by
    rw [← List.length_append, ← List.flatMap_append]
    exact (h.flatMap_right (dumpLayer context)).length_eq.symm
  obtain ⟨layer, lost, rfl⟩ := List.exists_cons_of_ne_nil hlost
  have hpos : 0 < ((layer :: lost).flatMap (dumpLayer context)).length := by
    rw [List.flatMap_cons, List.length_append, dumpLayer, List.length_append]
    have := List.length_pos_of_ne_nil (logRecord_ne_nil EVHTTP_REQ_POST (layerUri context (encode layer.name)) [])
    omega
  have horder : order ≠ [] := by
    rintro rfl
    have := h.length_eq
    simp at this
  unfold completeDump
  rw [List.length_append, List.length_append, hlen, if_neg horder]
  split
  · simp only [List.length_nil]
    omega
  · omega

/-- **When a rewrite is safe**: exactly when no operation of the child failed and every layer was visited, or when there
is no temporary file, or the parent is kept from renaming it. -/
theorem rewrite_safe_iff {layersSlab : Slab (DumpedLayer D)} {live visited : List (EntryPtr × DumpedLayer D)}
    (h : Visits layersSlab live visited) (outcomes : List Outcome) (tmpFile : Option Bytes) (parent : ParentOutcomes)
    (recent : Bytes) : ∃ child, rewriteChild context layersSlab outcomes tmpFile = some child ∧
      (RewriteSafe context live child.anyFailed recent (sigchldCb parent child recent) ↔
        child.anyFailed = false ∧ visited.Perm live ∨
          ¬ (TmpFileThere outcomes tmpFile ∧ ParentRenames parent recent)) := by
  obtain ⟨child, hchild, hstatus, hthere, hdump⟩ := rewriteChild_spec context h outcomes tmpFile
  refine ⟨child, hchild, ?_⟩
  have hreplace : sigchldCb parent child recent = systemRewriteAfterFork parent child.tmpFile recent := by
    rw [sigchldCb, hstatus, if_neg (fun hne => hne rfl)]
  rw [hreplace, ← hthere]
  unfold RewriteSafe
  by_cases hrenames : child.tmpFile.isSome = true ∧ ParentRenames parent recent
  · obtain ⟨dump, htmp⟩ := Option.isSome_iff_exists.1 hrenames.1
    have hnew := (systemRewriteAfterFork_eq parent child.tmpFile recent (dump ++ recent)).2
      ⟨hrenames.2, dump, htmp, rfl⟩
    rw [hnew, or_iff_left (not_not_intro hrenames)]
    constructor
    · rintro ⟨hfailed, hcomplete⟩
      have hok : child.anyFailed = false := by
        by_contra hf
        cases hfailed (by simpa using hf)
      refine ⟨hok, ?_⟩
      obtain ⟨lost, hlost⟩ := h.lost
      have hdump := hdump hok
      rw [htmp, Option.some.injEq] at hdump
      obtain ⟨order, horder, heq⟩ := hcomplete _ rfl
      rw [hdump, List.append_cancel_right_eq] at heq
      rcases List.eq_nil_or_concat lost with rfl | ⟨l, x, rfl⟩
      · rwa [List.append_nil] at hlost
      · have hperm := (hlost.trans horder.symm).map Prod.snd
        rw [List.map_append] at hperm
        have := completeDump_lost context hperm (by simp)
        rw [heq] at this
        exact absurd this (Nat.lt_irrefl _)
    · rintro ⟨hok, hperm⟩
      have hdump := hdump hok
      rw [htmp, Option.some.injEq] at hdump
      refine ⟨fun hf => absurd (hok.symm.trans hf) Bool.false_ne_true, fun journal hjournal => ⟨visited, hperm, ?_⟩⟩
      rw [← Option.some.inj hjournal, hdump]
  · have hnone : systemRewriteAfterFork parent child.tmpFile recent = none := by
      rw [← Option.not_isSome_iff_eq_none]
      intro hsome
      obtain ⟨journal, hjournal⟩ := Option.isSome_iff_exists.1 hsome
      obtain ⟨hp, dump, htmp, -⟩ := (systemRewriteAfterFork_eq parent child.tmpFile recent journal).1 hjournal
      exact hrenames ⟨by rw [htmp]; rfl, hp⟩
    rw [hnone]
    exact ⟨fun _ => .inr hrenames, fun _ => ⟨fun _ => rfl, fun _ hsome => nomatch hsome⟩⟩

/-! ## One layer -/

/-- The layer `x` with the record `a`. -/
def dumpedLayerX : DumpedLayer Int := ⟨bytes "x", [⟨bytes "a", [], none, none⟩]⟩

/-- No position is printed. -/
def integerContext : DumpContext Int := ⟨bytes "/api/1.0/", 60, fun n => Lib.printInt 10 n ++ bytes ".000000"⟩

def willingParent : ParentOutcomes := ⟨true, true, true, true, true, false, true⟩

/-- A rewrite in which everything succeeds, with a record behind the fork. -/
theorem rewrite_safe_succeeded : ∃ slab e child,
    addEntryToSlab true initSlab dumpedLayerX = some (slab, some e) ∧
    rewriteChild integerContext slab [] none = some child ∧
    sigchldCb willingParent child (bytes "-<10 1:/ 0:>\n") = some (bytes "-<@3c T>\n-<2 16:/api/1.0/layers/x.json 0:>\n" ++
      bytes "-<8 19:/api/1.0/records/x/a.json 0:>\n-<10 1:/ 0:>\n") ∧
    RewriteSafe integerContext [(e, dumpedLayerX)] child.anyFailed (bytes "-<10 1:/ 0:>\n")
      (sigchldCb willingParent child (bytes "-<10 1:/ 0:>\n")) := by
  obtain ⟨s, hs, hgood, -⟩ := slabStep_add slabInv_init true dumpedLayerX
  simp only [slabStep, Option.bind_eq_bind] at hs
  obtain ⟨⟨slab, e⟩, hadd, hlive⟩ := Option.bind_eq_some_iff.1 hs
  have heval : (addEntryToSlab true initSlab dumpedLayerX).any (fun r => r.2 = some ⟨0, 0⟩ ∧
      (rewriteChild integerContext r.1 [] none).any (fun child => child.anyFailed = false ∧
        sigchldCb willingParent child (bytes "-<10 1:/ 0:>\n") = some (bytes
          "-<@3c T>\n-<2 16:/api/1.0/layers/x.json 0:>\n" ++
          bytes "-<8 19:/api/1.0/records/x/a.json 0:>\n-<10 1:/ 0:>\n"))) = true := by decide +kernel
  rw [hadd] at heval
  obtain ⟨he, heval⟩ := of_decide_eq_true heval
  obtain ⟨child, hchild, hsafe⟩ := (Option.any_eq_true _ _).1 heval
  obtain ⟨hok, hjournal⟩ := of_decide_eq_true hsafe
  simp only at he hchild
  subst he
  cases hlive
  obtain ⟨pl, fl, hslab⟩ := hgood (fun a c ha => by cases ha)
  obtain ⟨visited, hvisits, hperm⟩ := hslab.visits
  obtain ⟨child', hchild', hiff⟩ := rewrite_safe_iff integerContext hvisits [] none willingParent (bytes "-<10 1:/ 0:>\n")
  rw [hchild, Option.some.injEq] at hchild'
  subst hchild'
  exact ⟨slab, ⟨0, 0⟩, child, hadd, hchild, hjournal, hiff.2 (.inl ⟨hok, hperm⟩)⟩

/-- **A failed write replaces the journal by an empty one.**  The record `a` was dumped into the buffer, and its flush
fails. -/
theorem rewrite_failure_replaces_journal : ∃ slab e child,
    addEntryToSlab true initSlab dumpedLayerX = some (slab, some e) ∧
    rewriteChild integerContext slab [.done, .done, .done, .done, .done, .failed] none = some child ∧
    child.anyFailed = true ∧ sigchldCb willingParent child [] = some [] ∧
    ¬ RewriteSafe integerContext [(e, dumpedLayerX)] child.anyFailed [] (sigchldCb willingParent child []) := by
  have heval : (addEntryToSlab true initSlab dumpedLayerX).any (fun r => r.2 = some ⟨0, 0⟩ ∧
      (rewriteChild integerContext r.1 [.done, .done, .done, .done, .done, .failed] none).any (fun child =>
        child.anyFailed = true ∧ sigchldCb willingParent child [] = some [])) = true := by decide +kernel
  obtain ⟨⟨slab, e⟩, hadd, heval⟩ := (Option.any_eq_true _ _).1 heval
  obtain ⟨he, heval⟩ := of_decide_eq_true heval
  obtain ⟨child, hchild, heval⟩ := (Option.any_eq_true _ _).1 heval
  obtain ⟨hfailed, hjournal⟩ := of_decide_eq_true heval
  simp only at he hchild
  subst he
  refine ⟨slab, ⟨0, 0⟩, child, hadd, hchild, hfailed, hjournal, fun hsafe => ?_⟩
  have := hsafe.1 hfailed
  rw [hjournal] at this
  cases this

end Pincaster
