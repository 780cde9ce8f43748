import Pincaster.EffectOrder
import Pincaster.StoreView
import Pincaster.DomainSystem
/-!
# Compaction — rewriting the journal while the server runs

A rewrite stops the workers, flushes the journal and forks; the child dumps the store as it is then, and what the
journal gains from there on is copied behind the dump.  Stopping the workers leaves the queue as it is: an operation in
it is in the journal before the fork and in the store only after it, and so neither in the dump nor behind it.
-/
namespace Pincaster

open Lib (Bytes bytes System replay replay_append replay_snoc)

variable {D : Type}

/-- The server with its journal, which is kept in records here, and the dump of the last rewrite. -/
structure CompactingServer (D : Type) where
  opTid : Nat
  cqueue : CQueue (Op D)
  dbLog : DBLog (OpBody D)
  layers : Layers D
  dump : List (OpBody D)

inductive CompactingStep (D : Type) where
  | accept (body : OpBody D)
  | flush
  | work
  | rewriteStart (child : Nat)
  | rewriteEnd

variable [Dimension D]

def compactingStep (qbounds : Rectangle2D D) (dump : Layers D → List (OpBody D)) (s : CompactingServer D) :
    CompactingStep D → Option (CompactingServer D)
  | .accept body => do
    let (cqueue, ret) ← pushCqueue s.cqueue ⟨false, s.opTid + 1, body⟩
    if ret ≠ 0 then some { s with opTid := s.opTid + 1, cqueue }
    else some { s with
      opTid := s.opTid + 1, cqueue, dbLog := { s.dbLog with logBuffer := s.dbLog.logBuffer ++ [body] } }
  | .flush => some { s with dbLog := flushDbLog s.dbLog true }
  | .work => do
    match ← shiftCqueue s.cqueue with
    | (cqueue, none) => some { s with cqueue }
    | (cqueue, some op) => (workerDoWork qbounds op.body s.layers).map (fun layers => { s with cqueue, layers })
  | .rewriteStart child =>
    -- a second rewrite is answered with `HTTP_NOTMODIFIED`
    if s.dbLog.journalRewriteProcess ≠ none then some s
    else some { s with dbLog := forkDbLog (flushDbLog s.dbLog true) child, dump := dump s.layers }
  | .rewriteEnd => (systemRewriteAfterForkCb s.dump s.dbLog).map (fun dbLog => { s with dbLog })

/-- The server started with an empty journal; `dump` is what a child writes.  A mutation that is accepted has names out
of a URI and maps that the parser has made. -/
def compactingSystem (qbounds : Rectangle2D D) (dump : Layers D → List (OpBody D)) (cqueue : CQueue (Op D)) :
    System (CompactingServer D) (CompactingStep D) where
  init := ⟨0, cqueue, ⟨some (bytes "db"), some [], 0, [], 0, 0, none, none, 0⟩, fun _ => none, []⟩
  legal s
    | .accept body => body.mutates = true ∧ BodyOk body
    | .rewriteEnd => s.dbLog.journalRewriteProcess ≠ none
    | _ => True
  step := compactingStep qbounds dump

/-- **A dump is faithful to a store**: it has operations of requests, and its replay shows the store. -/
structure FaithfulDump (qbounds : Rectangle2D D) (dump : Layers D → List (OpBody D)) (layers : Layers D) : Prop where
  bodies : ∀ body ∈ dump layers, BodyOk body
  shows : (replay (workerDoWork qbounds) (dump layers) (fun _ => none)).map Layers.view = some layers.view

/-! ## The condition -/

/-- The journal behind the file offset of its descriptor, once it is flushed. -/
def DBLog.behindOffset {α : Type} (dbLog : DBLog α) : List α :=
  let dbLog := flushDbLog dbLog true
  (dbLog.dbLogFd.getD []).drop dbLog.dbLogOffset

omit [Dimension D] in
/-- The journal that will replace the current one when a rewrite ends. -/
def CompactingServer.rewritten (s : CompactingServer D) : List (OpBody D) :=
  s.dump ++ (s.dbLog.dbLogFd.getD []).drop (s.dbLog.offsetBeforeFork.getD 0) ++ s.dbLog.logBuffer

omit [Dimension D] in
/-- A journal that a restart may find, now or once the rewrite has ended. -/
def CompactingServer.Journal (s : CompactingServer D) (journal : List (OpBody D)) : Prop :=
  journal = s.dbLog.journal ∨ s.dbLog.journalRewriteProcess ≠ none ∧ journal = s.rewritten

/-- **The condition on a step**.  A rewrite starts with an empty queue, and what stands behind the file offset, which
will be copied behind the dump, changes nothing when it is replayed over the dump.  When a worker takes a PUT there is
room for it in the map of its record, in the store and in the one that a journal leads to, unless the two maps are laid
out alike. -/
def GoodStep (qbounds : Rectangle2D D) (dump : Layers D → List (OpBody D)) (s : CompactingServer D) :
    CompactingStep D → Prop
  | .rewriteStart _ => s.dbLog.journalRewriteProcess = none → s.cqueue.Holds [] ∧
      ∀ layers₀, replay (workerDoWork qbounds) (dump s.layers) (fun _ => none) = some layers₀ →
        (replay (workerDoWork qbounds) s.dbLog.behindOffset layers₀).map Layers.view = some layers₀.view
  | .work => ∀ op queue, s.cqueue.Holds (op :: queue) → ∀ journal, s.Journal journal → ∀ applied layers₀,
      journal = applied ++ (op :: queue).map Op.body →
      replay (workerDoWork qbounds) applied (fun _ => none) = some layers₀ → RoomIn layers₀ s.layers op.body
  | _ => True

/-! ## The invariant -/

/-- **The journal is what was applied and what is queued**, and what was applied leads to a store that shows the same.
-/
def LeadsTo (qbounds : Rectangle2D D) (journal queue : List (OpBody D)) (layers : Layers D) : Prop :=
  (∀ body ∈ journal, BodyOk body) ∧ ∃ applied layers₀, journal = applied ++ queue ∧
    replay (workerDoWork qbounds) applied (fun _ => none) = some layers₀ ∧ layers₀.view = layers.view

/-- **The invariant**: it is so of the journal, and of the one that will replace it. -/
structure CompactingInv (qbounds : Rectangle2D D) (s : CompactingServer D) (queue : List (Op D))
    (file : List (OpBody D)) :
    Prop where
  queued : s.cqueue.Holds queue
  opened : s.dbLog.dbLogFd = some file
  offset : s.dbLog.dbLogOffset ≤ file.length
  store : StoreOk s.layers
  current : LeadsTo qbounds (file ++ s.dbLog.logBuffer) (queue.map Op.body) s.layers
  rewritten : s.dbLog.journalRewriteProcess ≠ none → ∃ offset, s.dbLog.offsetBeforeFork = some offset ∧
    offset ≤ file.length ∧
    LeadsTo qbounds (s.dump ++ file.drop offset ++ s.dbLog.logBuffer) (queue.map Op.body) s.layers

theorem LeadsTo.snoc {qbounds : Rectangle2D D} {journal queue : List (OpBody D)} {layers : Layers D} {body : OpBody D}
    (h : LeadsTo qbounds journal queue layers) (hbody : BodyOk body) :
    LeadsTo qbounds (journal ++ [body]) (queue ++ [body]) layers := by
  obtain ⟨hbodies, applied, layers₀, rfl, hreplay, hview⟩ := h
  refine ⟨fun b hb => ?_, applied, layers₀, List.append_assoc .., hreplay, hview⟩
  rcases List.mem_append.1 hb with hb | hb
  · exact hbodies b hb
  · exact List.mem_singleton.1 hb ▸ hbody

/-- The operation at the head of the queue is applied, where there is room for it. -/
theorem LeadsTo.work {qbounds : Rectangle2D D} {journal queue : List (OpBody D)} {body : OpBody D}
    {layers layers' : Layers D} (h : LeadsTo qbounds journal (body :: queue) layers) (hok : StoreOk layers)
    (hroom : ∀ applied layers₀, journal = applied ++ body :: queue →
      replay (workerDoWork qbounds) applied (fun _ => none) = some layers₀ → RoomIn layers₀ layers body)
    (hwork : workerDoWork qbounds body layers = some layers') : LeadsTo qbounds journal queue layers' := by
  obtain ⟨hbodies, applied, layers₀, rfl, hreplay, hview⟩ := h
  obtain ⟨layers₁, hreplay₁, hok₁⟩ := replay_storeOk qbounds storeOk_empty
    (fun b hb => hbodies b (List.mem_append_left (body :: queue) hb))
  obtain rfl := Option.some.inj (hreplay.symm.trans hreplay₁)
  obtain ⟨new, new', hnew, hnew', hshows⟩ := workerDoWork_view qbounds hok₁ hok hview (hbodies body (by simp))
    (hroom applied layers₀ rfl hreplay)
  obtain rfl := Option.some.inj (hwork.symm.trans hnew')
  exact ⟨hbodies, applied ++ [body], new, by rw [List.append_assoc, List.singleton_append],
    by rw [replay_snoc, hreplay, Option.bind_some, hnew], hshows⟩

/-! ## One lemma per step -/

theorem CompactingInv.accept {qbounds : Rectangle2D D} (dump : Layers D → List (OpBody D)) {s s' : CompactingServer D}
    {queue : List (Op D)} {file : List (OpBody D)} {body : OpBody D} (hinv : CompactingInv qbounds s queue file)
    (hbody : BodyOk body) (h : compactingStep qbounds dump s (.accept body) = some s') :
    ∃ queue' file', CompactingInv qbounds s' queue' file' := by
  obtain ⟨q, ret, hpush, _, hcase⟩ := pushCqueue_spec hinv.queued ⟨false, s.opTid + 1, body⟩
  simp only [compactingStep, hpush, Option.bind_eq_bind, Option.bind_some] at h
  rcases hcase with ⟨_, rfl, hq⟩ | ⟨_, rfl, rfl⟩
  · rw [if_neg (by simp), Option.some.injEq] at h
    subst h
    refine ⟨_, file, hq, hinv.opened, hinv.offset, hinv.store, ?_, fun hp => ?_⟩
    · rw [List.map_append, ← List.append_assoc]
      exact hinv.current.snoc hbody
    · obtain ⟨offset, hoffset, hle, hlead⟩ := hinv.rewritten hp
      refine ⟨offset, hoffset, hle, ?_⟩
      rw [List.map_append, ← List.append_assoc]
      exact hlead.snoc hbody
  · rw [if_pos (by decide), Option.some.injEq] at h
    subst h
    exact ⟨queue, file, hinv.queued, hinv.opened, hinv.offset, hinv.store, hinv.current, hinv.rewritten⟩

theorem CompactingInv.flush {qbounds : Rectangle2D D} {s : CompactingServer D} {queue : List (Op D)}
    {file : List (OpBody D)} (hinv : CompactingInv qbounds s queue file) :
    CompactingInv qbounds { s with dbLog := flushDbLog s.dbLog true } queue (file ++ s.dbLog.logBuffer) := by
  obtain ⟨hfd, hbuf, hproc, hoff, hle⟩ := flushDbLog_sync hinv.opened
  refine ⟨hinv.queued, hfd, hle hinv.offset, hinv.store, ?_, fun hp => ?_⟩
  · rw [hbuf, List.append_nil]
    exact hinv.current
  · obtain ⟨offset, hoffset, hle, hlead⟩ := hinv.rewritten (hproc ▸ hp)
    refine ⟨offset, hoff ▸ hoffset, by rw [List.length_append]; omega, ?_⟩
    rw [hbuf, List.append_nil, List.drop_append_of_le_length hle, ← List.append_assoc]
    exact hlead

theorem CompactingInv.work {qbounds : Rectangle2D D} (dump : Layers D → List (OpBody D)) {s s' : CompactingServer D}
    {queue : List (Op D)} {file : List (OpBody D)} (hinv : CompactingInv qbounds s queue file)
    (hgood : GoodStep qbounds dump s .work) (h : compactingStep qbounds dump s .work = some s') :
    ∃ queue' file', CompactingInv qbounds s' queue' file' := by
  obtain ⟨q, hshift, _, hq⟩ := shiftCqueue_spec hinv.queued
  simp only [compactingStep, hshift, Option.bind_eq_bind, Option.bind_some] at h
  cases queue with
  | nil =>
    cases h
    exact ⟨[], file, hq, hinv.opened, hinv.offset, hinv.store, hinv.current, hinv.rewritten⟩
  | cons op queue =>
    obtain ⟨layers, hwork, rfl⟩ := Option.map_eq_some_iff.1 h
    have hroom := hgood op queue hinv.queued
    have hbody : BodyOk op.body := by
      obtain ⟨hbodies, applied, -, heq, -⟩ := hinv.current
      exact hbodies _ (by rw [heq]; simp)
    obtain ⟨layers', hwork', hstore⟩ := hinv.store.work qbounds hbody
    obtain rfl := Option.some.inj (hwork.symm.trans hwork')
    refine ⟨queue, file, hq, hinv.opened, hinv.offset, hstore, hinv.current.work hinv.store (hroom _ (.inl ?_)) hwork,
      fun hp => ?_⟩
    · rw [DBLog.journal, hinv.opened, Option.getD_some]
    · obtain ⟨offset, hoffset, hle, hlead⟩ := hinv.rewritten hp
      refine ⟨offset, hoffset, hle, hlead.work hinv.store (hroom _ (.inr ⟨hp, ?_⟩)) hwork⟩
      rw [CompactingServer.rewritten, hinv.opened, hoffset, Option.getD_some, Option.getD_some]

theorem CompactingInv.rewriteStart {qbounds : Rectangle2D D} {dump : Layers D → List (OpBody D)}
    {s s' : CompactingServer D} {queue : List (Op D)} {file : List (OpBody D)} {child : Nat}
    (hinv : CompactingInv qbounds s queue file) (hdump : FaithfulDump qbounds dump s.layers)
    (hgood : GoodStep qbounds dump s (.rewriteStart child))
    (h : compactingStep qbounds dump s (.rewriteStart child) = some s') :
    ∃ queue' file', CompactingInv qbounds s' queue' file' := by
  rw [compactingStep] at h
  split at h
  · cases h
    exact ⟨queue, file, hinv⟩
  · rename_i hnone
    obtain ⟨hempty, hquiet⟩ := hgood (not_not.1 hnone)
    obtain rfl := hinv.queued.unique hempty
    cases h
    have hflush := hinv.flush
    obtain ⟨hfd, hbuf, -⟩ := flushDbLog_sync hinv.opened
    have hbehind : s.dbLog.behindOffset = (file ++ s.dbLog.logBuffer).drop (flushDbLog s.dbLog true).dbLogOffset := by
      rw [DBLog.behindOffset, hfd]
      rfl
    refine ⟨[], _, hflush.queued, hflush.opened, hflush.offset, hflush.store, hflush.current, fun _ =>
      ⟨_, rfl, hflush.offset, fun body hb => ?_, ?_⟩⟩
    · rw [forkDbLog, hbuf, List.append_nil] at hb
      rcases List.mem_append.1 hb with hb | hb
      · exact hdump.bodies body hb
      · exact hinv.current.1 body (List.mem_of_mem_drop hb)
    · obtain ⟨layers₀, hreplay, hshows⟩ := Option.map_eq_some_iff.1 hdump.shows
      obtain ⟨layers₁, hreplay₁, hshows₁⟩ := Option.map_eq_some_iff.1 (hquiet layers₀ hreplay)
      refine ⟨_, layers₁, (List.append_nil _).symm, ?_, hshows₁.trans hshows⟩
      rw [forkDbLog, hbuf, List.append_nil, ← hbehind, replay_append, hreplay, Option.bind_some, hreplay₁]

theorem CompactingInv.rewriteEnd {qbounds : Rectangle2D D} (dump : Layers D → List (OpBody D))
    {s s' : CompactingServer D} {queue : List (Op D)} {file : List (OpBody D)}
    (hinv : CompactingInv qbounds s queue file) (hl : s.dbLog.journalRewriteProcess ≠ none)
    (h : compactingStep qbounds dump s .rewriteEnd = some s') :
    ∃ queue' file', CompactingInv qbounds s' queue' file' := by
  obtain ⟨offset, hoffset, hle, hlead⟩ := hinv.rewritten hl
  simp only [compactingStep, systemRewriteAfterForkCb, hinv.opened, hoffset, Option.bind_eq_bind, Option.bind_some,
    Option.map_some, Option.some.injEq] at h
  subst h
  refine ⟨queue, _, hinv.queued, rfl, ?_, hinv.store, hlead, fun hp => absurd rfl hp⟩
  simp only [List.length_append]
  split <;> omega

/-- **One step keeps the invariant**, under the condition. -/
theorem CompactingInv.step {qbounds : Rectangle2D D} {dump : Layers D → List (OpBody D)} {cqueue : CQueue (Op D)}
    {s s' : CompactingServer D} {i : CompactingStep D} (hinv : ∃ queue file, CompactingInv qbounds s queue file)
    (hl : (compactingSystem qbounds dump cqueue).legal s i)
    (hgood : GoodStep qbounds dump s i ∧ ∀ child, i = .rewriteStart child → FaithfulDump qbounds dump s.layers)
    (hs : (compactingSystem qbounds dump cqueue).step s i = some s') :
    ∃ queue file, CompactingInv qbounds s' queue file := by
  obtain ⟨queue, file, hinv⟩ := hinv
  cases i with
  | accept body => exact hinv.accept dump hl.2 hs
  | flush =>
    cases hs
    exact ⟨queue, _, hinv.flush⟩
  | work => exact hinv.work dump hgood.1 hs
  | rewriteStart child => exact hinv.rewriteStart (hgood.2 child rfl) hgood.1 hs
  | rewriteEnd => exact hinv.rewriteEnd dump hl hs

/-- **When every rewrite starts quietly and every PUT finds room, compaction loses no update**: with an empty queue the
replay of the journal file and the buffer is the live store, as far as it can be observed. -/
theorem compaction_keeps_updates {n : Nat} {qbounds : Rectangle2D D} {dump : Layers D → List (OpBody D)}
    {cqueue : CQueue (Op D)} (hinit : initCqueue n = some cqueue)
    {h : List (CompactingServer D × CompactingStep D)} {s : CompactingServer D}
    (hr : (compactingSystem qbounds dump cqueue).Run h s)
    (hdump : ∀ p ∈ h, ∀ child, p.2 = .rewriteStart child → FaithfulDump qbounds dump p.1.layers)
    (hgood : ∀ p ∈ h, GoodStep qbounds dump p.1 p.2) (hqueue : s.cqueue.Holds []) :
    (replay (workerDoWork qbounds) s.dbLog.journal (fun _ => none)).map Layers.view = some s.layers.view := by
  have hempty : LeadsTo qbounds [] [] (fun _ => none : Layers D) :=
    ⟨fun _ hb => absurd hb List.not_mem_nil, [], _, rfl, rfl, rfl⟩
  have hstart : CompactingInv qbounds (compactingSystem qbounds dump cqueue).init [] [] :=
    ⟨(initCqueue_holds hinit).1, rfl, le_rfl, storeOk_empty, hempty, fun hp => absurd rfl hp⟩
  obtain ⟨queue, file, hinv⟩ := (hr.inv_of_good (fun s => ∃ queue file, CompactingInv qbounds s queue file)
    (fun s i => GoodStep qbounds dump s i ∧
      ∀ child, i = .rewriteStart child → FaithfulDump qbounds dump s.layers)
    ⟨[], [], hstart⟩ (fun s i s' => CompactingInv.step) (fun p hp => ⟨hgood p hp, hdump p hp⟩)).2
  obtain rfl := hinv.queued.unique hqueue
  obtain ⟨-, applied, layers₀, hjournal, hreplay, hview⟩ := hinv.current
  rw [List.map_nil, List.append_nil] at hjournal
  rw [DBLog.journal, hinv.opened, Option.getD_some, hjournal, hreplay, Option.map_some, hview]

/-! ## Two rewrites -/

def keyA : Key := bytes "a" ++ [0]

/-- The PUT of one property of the record `a` of the layer `x`. -/
def putA (name value : Bytes) : RecordsPutOp ℚ :=
  { recordsPutOp layerX keyA with properties := (putProperty none name value).join }

/-- The dump of a store of which no more than the properties of this record is dumped: a PUT for each of them. -/
def dumpLayerX (layers : Layers ℚ) : List (OpBody ℚ) :=
  match layers layerX with
  | none => []
  | some keyNodes => .layersCreate layerX :: (keyNodes keyA).toList.flatMap (fun keyNode =>
      (visited keyNode.properties).map (fun p => .recordsPut (putA p.1 p.2)))

/-- The layer `x`, with at most the record `a`, which has nothing but properties. -/
def storeA (record : Option (Option SlipMap)) : Layers ℚ :=
  Function.update (fun _ => none) layerX (some (Function.update (fun _ => none) keyA
    (record.map (fun properties => ⟨none, properties, none⟩))))

theorem bodyOk_layerX : BodyOk (.layersCreate layerX : OpBody ℚ) :=
  ⟨bytes "x", rfl, by decide, by decide, by decide, by decide⟩

theorem bodyOk_putA {name value : Bytes} (hname : KeyLen name) (hhead : name.head? ≠ some INT_PROPERTY_COMMON_PREFIX)
    (hvalue : value.length ≤ 0xffff) : BodyOk (.recordsPut (putA name value)) := by
  obtain ⟨slip, hput, hwf, hmem⟩ := wellFormed_none.putProperty hname hvalue
  refine ⟨⟨?_, fun p hp => ?_, wellFormed_none, fun _ hp => absurd hp List.not_mem_nil⟩,
    bytes "x", bytes "a", rfl, rfl, by decide, by decide, by decide, by decide, by decide, by decide, by decide,
      by decide⟩
  · rw [putA, hput]
    exact hwf
  · rw [putA, hput] at hp
    rcases hmem p hp with hp | rfl
    · exact absurd hp List.not_mem_nil
    · exact hhead

theorem workerDoWork_layerX : workerDoWork earth (.layersCreate layerX) (fun _ => none) = some (storeA none) := by
  have hnone : Function.update (fun _ => none : KeyNodes ℚ) keyA none = fun _ => none := Function.update_eq_self keyA _
  rw [storeA, Option.map_none, hnone]
  rfl

theorem workerDoWork_putA (record : Option (Option SlipMap)) {name value : Bytes} {m : Option SlipMap}
    (h : putProperties record.join (putA name value) = some m) :
    workerDoWork earth (.recordsPut (putA name value)) (storeA record) = some (storeA (some m)) := by
  have hput : putKeyNode earth (putA name value)
      ((record.map (fun properties => (⟨none, properties, none⟩ : KeyNode ℚ))).getD newKeyNode) = some
        ⟨none, m, none⟩ := by
    cases record <;> exact congrArg (Option.map _) h
  have hlayer : storeA record (putA name value).layerName = some (Function.update (fun _ => none) keyA
      (record.map (fun properties => ⟨none, properties, none⟩))) := Function.update_self ..
  rw [workerDoWork, handleOpRecordsPut, hlayer]
  simp only [putA, recordsPutOp, Function.update_self] at hput ⊢
  rw [hput]
  simp [storeA]

theorem propertiesOf_storeA (m : Option SlipMap) : propertiesOf (storeA (some m)) layerX keyA = m := by
  simp [propertiesOf, storeA]

theorem view_storeA {m m' : SlipMap} (h : WellFormed (some m)) (h' : WellFormed (some m'))
    (hvisited : visited (some m) = visited (some m')) : (storeA (some (some m))).view =
      (storeA (some (some m'))).view := by
  obtain ⟨binds, h⟩ := h
  obtain ⟨binds', h'⟩ := h'
  obtain rfl : binds = binds' :=
    funext (fun name => Option.ext (fun value => by rw [← h.mem_visited, ← h'.mem_visited, hvisited]))
  refine view_update rfl layerX (congrArg some (records_update rfl keyA ?_))
  simp only [Option.map_some, KeyNode.view, findInSlipMap_holds h, findInSlipMap_holds h']

/-- A run whose steps meet the condition. -/
structure GoodRun (h : List (CompactingServer ℚ × CompactingStep ℚ)) (s : CompactingServer ℚ) : Prop where
  run : (compactingSystem earth dumpLayerX emptyRing).Run h s
  faithful : ∀ p ∈ h, ∀ child, p.2 = .rewriteStart child → FaithfulDump earth dumpLayerX p.1.layers
  good : ∀ p ∈ h, GoodStep earth dumpLayerX p.1 p.2

theorem GoodRun.snoc {h : List (CompactingServer ℚ × CompactingStep ℚ)} {s s' : CompactingServer ℚ}
    {i : CompactingStep ℚ}
    (hrun : GoodRun h s) (hl : (compactingSystem earth dumpLayerX emptyRing).legal s i)
    (hs : compactingStep earth dumpLayerX s i = some s')
    (hfaithful : ∀ child, i = .rewriteStart child → FaithfulDump earth dumpLayerX s.layers)
    (hgood : GoodStep earth dumpLayerX s i) : GoodRun (h ++ [(s, i)]) s' := by
  refine ⟨hrun.run.snoc hl hs, fun p hp => ?_, fun p hp => ?_⟩
  · rcases List.mem_append.1 hp with hp | hp
    · exact hrun.faithful p hp
    · obtain rfl := List.mem_singleton.1 hp
      exact hfaithful
  · rcases List.mem_append.1 hp with hp | hp
    · exact hrun.good p hp
    · obtain rfl := List.mem_singleton.1 hp
      exact hgood

/-- A mutation that a worker takes at once. -/
theorem GoodRun.request {h : List (CompactingServer ℚ × CompactingStep ℚ)} {s : CompactingServer ℚ} {body : OpBody ℚ}
    {layers' : Layers ℚ} (hrun : GoodRun h s) (hqueue : s.cqueue.Holds []) (hmut : body.mutates = true)
    (hbody : BodyOk body) (hwork : workerDoWork earth body s.layers = some layers')
    (hroom : ∀ journal, s.Journal journal → ∀ layers₀, replay (workerDoWork earth) journal
      (fun _ => none) = some layers₀ →
      RoomIn layers₀ s.layers body) :
    ∃ h' s', GoodRun h' s' ∧ h'.map Prod.snd = h.map Prod.snd ++ [.accept body, .work] ∧ s'.cqueue.Holds [] ∧
      s'.layers = layers' ∧ s'.dbLog = { s.dbLog with logBuffer := s.dbLog.logBuffer ++ [body] } ∧
        s'.dump = s.dump := by
  obtain ⟨q, ret, hpush, -, ⟨-, rfl, hq⟩ | ⟨hfull, -⟩⟩ := pushCqueue_spec hqueue ⟨false, s.opTid + 1, body⟩
  · obtain ⟨q', hshift, -, hq'⟩ := shiftCqueue_spec hq
    let s₁ : CompactingServer ℚ := { s with
      opTid := s.opTid + 1, cqueue := q, dbLog := { s.dbLog with logBuffer := s.dbLog.logBuffer ++ [body] } }
    have haccept : compactingStep earth dumpLayerX s (.accept body) = some s₁ := by
      rw [compactingStep, hpush]
      rfl
    have hstep : compactingStep earth dumpLayerX s₁ .work = some { s₁ with cqueue := q', layers := layers' } := by
      simp only [compactingStep, s₁, hshift, hwork, List.nil_append, List.head?_cons, Option.bind_eq_bind,
        Option.bind_some, Option.map_some]
    have hgood : GoodStep earth dumpLayerX s₁ .work := by
      intro op queue hholds journal hjournal applied layers₀ heq hreplay
      obtain ⟨rfl, rfl⟩ := List.cons.inj (hholds.unique hq)
      refine hroom applied ?_ layers₀ hreplay
      rcases hjournal with rfl | ⟨hp, rfl⟩
      · rw [DBLog.journal, ← List.append_assoc] at heq
        exact .inl (List.append_inj_left' heq rfl).symm
      · rw [CompactingServer.rewritten, ← List.append_assoc] at heq
        exact .inr ⟨hp, (List.append_inj_left' heq rfl).symm⟩
    have hrun₁ := hrun.snoc (i := .accept body) ⟨hmut, hbody⟩ haccept (fun _ hc => by cases hc) trivial
    exact ⟨_, _, hrun₁.snoc (i := .work) trivial hstep (fun _ hc => by cases hc) hgood, by simp, hq', rfl, rfl, rfl⟩
  · exact absurd hfull (by simp)

/-- Without a rewrite, a journal that leads to the store itself leaves the same room. -/
theorem roomIn_of_replay {s : CompactingServer ℚ} (hproc : s.dbLog.journalRewriteProcess = none)
    (hreplay : replay (workerDoWork earth) s.dbLog.journal (fun _ => none) = some s.layers) (body : OpBody ℚ)
    (journal : List (OpBody ℚ)) (hjournal : s.Journal journal) (layers₀ : Layers ℚ)
    (h : replay (workerDoWork earth) journal (fun _ => none) = some layers₀) : RoomIn layers₀ s.layers body := by
  rcases hjournal with rfl | ⟨hp, -⟩
  · obtain rfl := Option.some.inj (hreplay.symm.trans h)
    cases body with
    | recordsPut putOp => exact .inl rfl
    | _ => trivial
  · exact absurd hproc hp

theorem dumpLayerX_storeA (m : Option SlipMap) :
    dumpLayerX (storeA (some m)) = .layersCreate layerX :: (visited m).map (fun p => .recordsPut (putA p.1 p.2)) := by
  simp [dumpLayerX, storeA]

/-- **A property gets a shorter value, and the map of the dump is laid out in another way**: what is put while the child
dumps finds room in both. -/
theorem compaction_keeps_updates_quiet : ∃ h s, (compactingSystem earth dumpLayerX emptyRing).Run h s ∧
    h.map Prod.snd = [.accept (.layersCreate layerX), .work,
      .accept (.recordsPut (putA (bytes "n") (bytes "100"))), .work,
      .accept (.recordsPut (putA (bytes "n") (bytes "1"))), .work, .rewriteStart 7,
      .accept (.recordsPut (putA (bytes "m") (bytes "20"))), .work, .flush, .rewriteEnd] ∧
    (replay (workerDoWork earth) s.dbLog.journal (fun _ => none)).map Layers.view = some s.layers.view := by
  have hdec : (putProperties none (putA (bytes "n") (bytes "100"))).any (fun m₁ =>
      (putProperties m₁ (putA (bytes "n") (bytes "1"))).any (fun m₂ =>
        (putProperties m₂ (putA (bytes "m") (bytes "20"))).any (fun _ =>
          (putProperties none (putA (bytes "n") (bytes "1"))).any (fun m₃ =>
            m₂ ≠ m₃ ∧ m₂.isSome ∧ m₃.isSome ∧ visited m₂ = [(bytes "n", bytes "1")] ∧
              visited m₃ = [(bytes "n", bytes "1")] ∧
              UpdatesSucceed m₂ (putA (bytes "m") (bytes "20")) ∧
              UpdatesSucceed m₃ (putA (bytes "m") (bytes "20")))))) = true := by decide +kernel
  obtain ⟨m₁, hm₁, hdec⟩ := (Option.any_eq_true _ _).1 hdec
  obtain ⟨m₂, hm₂, hdec⟩ := (Option.any_eq_true _ _).1 hdec
  obtain ⟨m₄, hm₄, hdec⟩ := (Option.any_eq_true _ _).1 hdec
  obtain ⟨m₃, hm₃, hdec⟩ := (Option.any_eq_true _ _).1 hdec
  obtain ⟨-, hsome₂, hsome₃, hvisited₂, hvisited₃, hroom₂, hroom₃⟩ := of_decide_eq_true hdec
  have hn₁ : BodyOk (.recordsPut (putA (bytes "n") (bytes "100"))) := bodyOk_putA (by decide) (by decide) (by decide)
  have hn₂ : BodyOk (.recordsPut (putA (bytes "n") (bytes "1"))) := bodyOk_putA (by decide) (by decide) (by decide)
  have hm : BodyOk (.recordsPut (putA (bytes "m") (bytes "20"))) := bodyOk_putA (by decide) (by decide) (by decide)
  have hwf {m m' : Option SlipMap} {name value : Bytes} (h : WellFormed m)
      (hbody : BodyOk (.recordsPut (putA name value)))
      (hput : putProperties m (putA name value) = some m') : WellFormed m' := by
    obtain ⟨_, hput', hwf⟩ := putProperties_wellFormed h hbody.1
    exact Option.some.inj (hput.symm.trans hput') ▸ hwf
  obtain ⟨m₂, rfl⟩ := Option.isSome_iff_exists.1 hsome₂
  obtain ⟨m₃, rfl⟩ := Option.isSome_iff_exists.1 hsome₃
  have hput₁ := workerDoWork_putA none hm₁
  have hput₂ := workerDoWork_putA (some m₁) hm₂
  have hput₃ := workerDoWork_putA none hm₃
  have hput₄ := workerDoWork_putA (some (some m₂)) hm₄
  have hdumped : dumpLayerX (storeA (some (some m₂))) =
      [.layersCreate layerX, .recordsPut (putA (bytes "n") (bytes "1"))] := by
    rw [dumpLayerX_storeA, hvisited₂]
    rfl
  have hreplay : replay (workerDoWork earth) (dumpLayerX (storeA (some (some m₂)))) (fun _ => none) =
      some (storeA (some (some m₃))) := by
    rw [hdumped, replay, workerDoWork_layerX, Option.bind_some, replay, hput₃]
    rfl
  have hfaithful : FaithfulDump earth dumpLayerX (storeA (some (some m₂))) := by
    refine ⟨fun body hbody => ?_, ?_⟩
    · rw [hdumped] at hbody
      rcases List.mem_cons.1 hbody with rfl | hbody
      · exact bodyOk_layerX
      · exact List.mem_singleton.1 hbody ▸ hn₂
    · rw [hreplay, Option.map_some,
        view_storeA (hwf wellFormed_none hn₂ hm₃) (hwf (hwf wellFormed_none hn₁ hm₁) hn₂ hm₂)
          (hvisited₃.trans hvisited₂.symm)]
  have hstart : GoodRun [] (compactingSystem earth dumpLayerX emptyRing).init :=
    ⟨.init, fun p hp => absurd hp List.not_mem_nil, fun p hp => absurd hp List.not_mem_nil⟩
  -- before the rewrite the journal leads to the store itself
  obtain ⟨h₁, s₁, hrun₁, hsteps₁, hq₁, hl₁, hlog₁, -⟩ := hstart.request (CQueue.holds_nil rfl rfl) rfl bodyOk_layerX
    workerDoWork_layerX (fun _ _ _ _ => trivial)
  have hr₁ : replay (workerDoWork earth) s₁.dbLog.journal (fun _ => none) = some s₁.layers := by
    rw [hl₁, hlog₁]
    exact workerDoWork_layerX
  rw [← hl₁] at hput₁
  obtain ⟨h₂, s₂, hrun₂, hsteps₂, hq₂, hl₂, hlog₂, -⟩ := hrun₁.request hq₁ rfl hn₁ hput₁
    (roomIn_of_replay (by rw [hlog₁]; rfl) hr₁ _)
  have hjournal₂ : s₂.dbLog.journal = s₁.dbLog.journal ++ [.recordsPut (putA (bytes "n") (bytes "100"))] := by
    rw [hlog₂, DBLog.journal, DBLog.journal, List.append_assoc]
  have hr₂ : replay (workerDoWork earth) s₂.dbLog.journal (fun _ => none) = some s₂.layers := by
    rw [hjournal₂, replay_snoc, hr₁, Option.bind_some, hput₁, hl₂]
  rw [← hl₂] at hput₂
  obtain ⟨h₃, s₃, hrun₃, hsteps₃, hq₃, hl₃, hlog₃, -⟩ := hrun₂.request hq₂ rfl hn₂ hput₂
    (roomIn_of_replay (by rw [hlog₂, hlog₁]; rfl) hr₂ _)
  have hfile₃ : s₃.dbLog = ⟨some (bytes "db"), some [], 0, [.layersCreate layerX,
      .recordsPut (putA (bytes "n") (bytes "100")), .recordsPut (putA (bytes "n") (bytes "1"))], 0, 0, none, none,
        0⟩ := by
    rw [hlog₃, hlog₂, hlog₁]
    rfl
  have hrun₄ : GoodRun (h₃ ++ [(s₃, .rewriteStart 7)]) { s₃ with
      dump := dumpLayerX s₃.layers
      dbLog := ⟨some (bytes "db"), some [.layersCreate layerX, .recordsPut (putA (bytes "n") (bytes "100")),
        .recordsPut (putA (bytes "n") (bytes "1"))], 3, [], 0, 0, some 7, some 3, 0⟩ } :=
    hrun₃.snoc trivial (by rw [compactingStep, hfile₃]; rfl) (fun _ _ => hl₃ ▸ hfaithful)
      (fun _ => ⟨hq₃, fun layers₀ _ => by rw [hfile₃]; rfl⟩)
  -- the other property finds room in the map of the store and in the one of the dump
  rw [← hl₃] at hput₄
  obtain ⟨h₅, s₅, hrun₅, hsteps₅, hq₅, -, hlog₅, -⟩ := hrun₄.request hq₃ rfl hm hput₄ (fun journal hj layers₀ hr => by
    rcases hj with rfl | ⟨-, rfl⟩
    · have hjournal : s₃.dbLog.journal = s₂.dbLog.journal ++ [.recordsPut (putA (bytes "n") (bytes "1"))] := by
        rw [hlog₃, DBLog.journal, DBLog.journal, List.append_assoc]
      have hr₃ : replay (workerDoWork earth) s₃.dbLog.journal (fun _ => none) = some s₃.layers := by
        rw [hjournal, replay_snoc, hr₂, Option.bind_some, hput₂, hl₃]
      rw [hfile₃] at hr₃
      obtain rfl := Option.some.inj (hr₃.symm.trans hr)
      exact .inl rfl
    · have hr : replay (workerDoWork earth) (dumpLayerX (storeA (some (some m₂)))) (fun _ => none) = some layers₀ := by
        simpa [CompactingServer.rewritten, hl₃] using hr
      obtain rfl := Option.some.inj (hreplay.symm.trans hr)
      refine .inr ⟨?_, ?_⟩
      · exact (propertiesOf_storeA (some m₃)).symm ▸ hroom₃
      · exact hl₃ ▸ (propertiesOf_storeA (some m₂)).symm ▸ hroom₂)
  have hrun₆ := hrun₅.snoc (i := .flush) trivial rfl (fun _ hc => by cases hc) trivial
  have hrun₇ := hrun₆.snoc (i := .rewriteEnd) (by rw [hlog₅]; exact Option.some_ne_none 7) (by rw [hlog₅]; rfl)
    (fun _ hc => by cases hc) trivial
  refine ⟨_, _, hrun₇.run, ?_, compaction_keeps_updates (n := 16) rfl hrun₇.run hrun₇.faithful hrun₇.good hq₅⟩
  simp [hsteps₁, hsteps₂, hsteps₃, hsteps₅]

/-- **A layer that is created while a rewrite starts**: its creation is in the queue when the workers are stopped and in
the journal before the fork.  It is applied in the end, and not in the journal. -/
theorem compaction_loses_update : ∃ h s, (compactingSystem earth dumpLayerX emptyRing).Run h s ∧
    h.map Prod.snd = [.accept (.layersCreate layerX), .rewriteStart 7, .rewriteEnd, .work] ∧
    (∀ p ∈ h, ∀ child, p.2 = .rewriteStart child → FaithfulDump earth dumpLayerX p.1.layers) ∧
    s.cqueue.Holds [] ∧
    (replay (workerDoWork earth) s.dbLog.journal (fun _ => none)).map Layers.view ≠ some s.layers.view := by
  have h1 := (Lib.System.Run.init (S := compactingSystem earth dumpLayerX emptyRing)).snoc
    (i := .accept (.layersCreate layerX)) (by exact ⟨rfl, bodyOk_layerX⟩) rfl
  have h2 := h1.snoc (i := .rewriteStart 7) (by exact trivial) rfl
  have h3 := h2.snoc (i := .rewriteEnd) (by exact Option.some_ne_none 7) rfl
  have h4 := h3.snoc (i := .work) (by exact trivial) rfl
  refine ⟨_, _, h4, rfl, fun p hp child hc => ?_, ?_, fun he => ?_⟩
  · simp only [List.nil_append, List.cons_append, List.mem_cons, List.not_mem_nil, or_false] at hp
    rcases hp with rfl | rfl | rfl | rfl
    · cases hc
    · exact ⟨fun _ hb => absurd hb List.not_mem_nil, rfl⟩
    · cases hc
    · cases hc
  · exact CQueue.holds_nil rfl rfl
  · have hx := congrFun (Option.some.inj he) layerX
    exact Option.some_ne_none _ hx.symm

end Pincaster
