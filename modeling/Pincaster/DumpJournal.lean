import Pincaster.EffectOrder
import Pincaster.LimitedReads
import Pincaster.StartUp
/-!
# DumpJournal — the journal of a dump, and the start on it

A dump is a journal of items: a mark, and for each layer its creation and a PUT for each record.  The names and the maps of a
store that requests can reach fit into those items, so that `replay_log` reads all of them.
-/
namespace Pincaster

open Lib (Bytes bytes cstr System)

variable {D : Type}

/-! ## How long a dump gets -/

theorem length_enc_le (c : UInt8) : (enc c).length ≤ 3 := by
  unfold enc Lib.hex2
  split <;> simp

theorem length_encode_le : ∀ s : Bytes, (encode s).length ≤ 3 * s.length
  | [] => Nat.zero_le _
  | c :: s => by
    have := length_enc_le c
    have := length_encode_le s
    rw [encode_cons, List.length_append, List.length_cons]
    omega

theorem length_encodePair_le (p : Bytes × Bytes) : (encodePair p).length ≤ 3 * pairLength p + 3 := by
  have := length_encode_le (p.1 ++ 61 :: p.2)
  rw [List.length_append, List.length_cons] at this
  unfold encodePair pairLength
  omega

theorem length_encodeRest_le : ∀ ps : List (Bytes × Bytes),
    (encodeRest ps).length ≤ (ps.map (fun p => 3 * pairLength p + 4)).sum
  | [] => Nat.zero_le _
  | p :: ps => by
    have ih := length_encodeRest_le ps
    have := length_encodePair_le p
    rw [encodeRest, List.flatMap_cons, ← encodeRest, List.length_append, List.length_cons, List.map_cons, List.sum_cons]
    omega

theorem length_encodeBody_le (ps : List (Bytes × Bytes)) :
    (encodeBody ps).length ≤ (ps.map (fun p => 3 * pairLength p + 4)).sum := by
  cases ps with
  | nil => exact Nat.zero_le _
  | cons p ps =>
    have := length_encodeRest_le ps
    have := length_encodePair_le p
    rw [encodeBody, List.length_append, List.map_cons, List.sum_cons]
    omega

/-- The pairs of a map have names, so that there are no more of them than bytes. -/
theorem sum_pairs_le : ∀ {ps : List (Bytes × Bytes)}, (∀ p ∈ ps, 0 < pairLength p) →
    (ps.map (fun p => 3 * pairLength p + 4)).sum ≤ 7 * (ps.map pairLength).sum
  | [], _ => Nat.le_refl 0
  | p :: ps, h => by
    have ih := sum_pairs_le (fun q hq => h q (List.mem_cons_of_mem p hq))
    have hp := h p List.mem_cons_self
    rw [List.map_cons, List.sum_cons, List.map_cons, List.sum_cons]
    omega

/-! ## What is dumped of a store -/

/-- A record as the callback of the dump sees it. -/
def dumpedRecord (key : Key) (keyNode : KeyNode D) : DumpedRecord D :=
  ⟨cstr key, visited keyNode.properties, keyNode.slot, keyNode.expirable⟩

/-- **A layer of the slab that is a layer of the store**, with all its records. -/
def DumpedFrom (layers : Layers D) (layer : DumpedLayer D) : Prop :=
  ∃ layerName keyNodes, layers layerName = some keyNodes ∧ layer.name = cstr layerName ∧
    ∀ record, record ∈ layer.records ↔ ∃ key keyNode, keyNodes key = some keyNode ∧ record = dumpedRecord key keyNode

/-- What a layer that can be dumped has. -/
structure Dumpable (layer : DumpedLayer D) : Prop where
  name : LayerName layer.name
  names : ∀ record ∈ layer.records, RecordNames layer.name record.key
  maps : ∀ record ∈ layer.records, ∃ m, WellFormed m ∧ record.properties = visited m

theorem cstr_snoc {s : Bytes} (h : (0 : UInt8) ∉ s) : cstr (s ++ [0]) = s := by
  have hs : ∀ c ∈ s, c ≠ 0 := fun c hc hz => h (hz ▸ hc)
  unfold cstr
  rw [List.takeWhile_append_of_pos (by simpa using hs)]
  simp

/-- **Every layer of a store in order can be dumped.** -/
theorem DumpedFrom.dumpable {layers : Layers D} {layer : DumpedLayer D} (h : DumpedFrom layers layer)
    (hok : StoreOk layers) : Dumpable layer := by
  obtain ⟨layerName, keyNodes, hl, hname, hrecords⟩ := h
  obtain ⟨name, rfl, hlayer⟩ := hok.layer hl
  rw [cstr_snoc hlayer.nul] at hname
  refine ⟨hname ▸ hlayer, fun record hmem => ?_, fun record hmem => ?_⟩
  · obtain ⟨key, keyNode, hk, rfl⟩ := (hrecords record).1 hmem
    obtain ⟨⟨name', recordKey, hname', rfl, hnames⟩, -⟩ := hok.record hl hk
    obtain rfl := List.append_cancel_right hname'
    rw [hname, dumpedRecord, cstr_snoc hnames.key_nul]
    exact hnames
  · obtain ⟨key, keyNode, hk, rfl⟩ := (hrecords record).1 hmem
    exact ⟨keyNode.properties, (hok.record hl hk).2, rfl⟩

theorem Dumpable.pairLength_le {layer : DumpedLayer D} (h : Dumpable layer) {record : DumpedRecord D}
    (hmem : record ∈ layer.records) : ∀ p ∈ record.properties, pairLength p ≤ 0xffff := by
  obtain ⟨m, hwf, hprops⟩ := h.maps record hmem
  rw [hprops]
  exact fun p hp => hwf.pairLength_le hp

section
variable [Dimension D]

/-! ## The journal of a dump -/

/-- The items of a dump. -/
def dumpItems (context : DumpContext D) (layers : List (DumpedLayer D)) : List LogItem :=
  (if layers = [] then [] else [.timestamp context.now]) ++ layers.flatMap (fun layer =>
    .request (layerRequest context layer) :: layer.records.map (fun record => .request (recordRequest context layer record)))

omit [Dimension D] in
/-- **A complete dump is the journal of its items.** -/
theorem completeDump_eq (context : DumpContext D) (layers : List (DumpedLayer D)) :
    completeDump context layers = (dumpItems context layers).flatMap LogItem.encode := by
  have hlayer : ∀ layer : DumpedLayer D, dumpLayer context layer = (LogItem.request (layerRequest context layer) ::
      layer.records.map (fun record => LogItem.request (recordRequest context layer record))).flatMap LogItem.encode := by
    intro layer
    rw [List.flatMap_cons, List.flatMap_map]
    rfl
  unfold completeDump dumpItems
  rw [List.flatMap_append, List.flatMap_assoc]
  refine congrArg₂ _ ?_ (congrArg (fun f => List.flatMap f layers) (funext hlayer))
  split
  · rfl
  · rw [List.flatMap_cons, List.flatMap_nil, List.append_nil]
    rfl

/-- The configuration of a dump: a clock behind 1970, and a base URI that is a C string. -/
structure DumpContextOk (context : DumpContext D) : Prop where
  clock : 0 < context.now ∧ context.now < 2 ^ 63
  base : (0 : UInt8) ∉ context.encodedApiBaseUri
  length : context.encodedApiBaseUri.length < 2 ^ 63
  print : ∀ d, PrintedNumber D (context.printDouble d)

theorem not_mem_encode (s : Bytes) : (0 : UInt8) ∉ encode s := fun h => (mem_encode h).1 rfl

theorem post_verb : 0 ≤ (EVHTTP_REQ_POST : Int) ∧ (EVHTTP_REQ_POST : Int) < 2 ^ 31 := by decide

theorem put_verb : 0 ≤ (EVHTTP_REQ_PUT : Int) ∧ (EVHTTP_REQ_PUT : Int) < 2 ^ 31 := by decide

theorem layerRequest_ok {context : DumpContext D} (hcontext : DumpContextOk context) {layer : DumpedLayer D}
    (h : LayerName layer.name) : (LogItem.request (layerRequest context layer)).Ok := by
  have hlen := length_encode_le layer.name
  have hmax := h.length
  have hbase := hcontext.length
  unfold MAX_URI_LEN at hmax
  refine ⟨post_verb, ⟨by simp [layerRequest, layerUri, bytes], ?_⟩, ?_, by simp [layerRequest]⟩
  · simp only [layerRequest, layerUri, List.mem_append, not_or]
    exact ⟨⟨⟨hcontext.base, by decide⟩, not_mem_encode _⟩, by decide⟩
  · simp only [layerRequest, layerUri, List.length_append, show (bytes "layers/").length = 7 from rfl,
      show (bytes ".json").length = 5 from rfl]
    omega

/-- The body of a dumped record is far shorter than a length can be. -/
theorem length_recordBody {context : DumpContext D} (hcontext : DumpContextOk context) {record : DumpedRecord D}
    {m : Option SlipMap} (hwf : WellFormed m) (hprops : record.properties = visited m) :
    (rebuildJournalBody context record (encodeBody record.properties) record.properties.isEmpty).length ≤ 500000 := by
  rw [rebuildJournalBody_eq hcontext.print]
  refine (length_encodeBody_le _).trans ?_
  rw [List.map_append, List.sum_append]
  have hproperties : (record.properties.map (fun p => 3 * pairLength p + 4)).sum ≤ 7 * 0xffff := by
    rw [hprops]
    refine (sum_pairs_le (fun p hp => ?_)).trans (Nat.mul_le_mul_left 7 hwf.sum_le)
    have := (hwf.keyLen hp).1.1
    unfold pairLength
    omega
  have hfields : ((fieldPairs context record).map (fun p => 3 * pairLength p + 4)).sum ≤ 2 * 2440 := by
    unfold fieldPairs
    rw [List.map_append, List.sum_append]
    have hposition : ∀ position, 3 * pairLength (INT_PROPERTY_POSITION, positionText context position) + 4 ≤ 2440 := by
      intro position
      have := positionText_length hcontext.print position
      rw [pairLength_mk, show INT_PROPERTY_POSITION.length = 4 from rfl]
      omega
    have hexpires : ∀ ts, 3 * pairLength (INT_PROPERTY_EXPIRES_AT, expiresAtText ts) + 4 ≤ 2440 := by
      intro ts
      have := expiresAtText_length ts
      rw [pairLength_mk, show INT_PROPERTY_EXPIRES_AT.length = 11 from rfl]
      omega
    have hpositions : ((record.position.toList.map (fun position =>
        (INT_PROPERTY_POSITION, positionText context position))).map (fun p => 3 * pairLength p + 4)).sum ≤ 2440 := by
      cases record.position with
      | none => exact Nat.zero_le _
      | some position => simpa using hposition position
    have hexpirations : ((record.expiresAt.toList.map (fun ts => (INT_PROPERTY_EXPIRES_AT, expiresAtText ts))).map
        (fun p => 3 * pairLength p + 4)).sum ≤ 2440 := by
      cases record.expiresAt with
      | none => exact Nat.zero_le _
      | some ts => simpa using hexpires ts
    omega
  omega

theorem recordRequest_ok {context : DumpContext D} (hcontext : DumpContextOk context) {layer : DumpedLayer D}
    (h : Dumpable layer) {record : DumpedRecord D} (hmem : record ∈ layer.records) :
    (LogItem.request (recordRequest context layer record)).Ok := by
  have hnames := h.names record hmem
  obtain ⟨m, hwf, hprops⟩ := h.maps record hmem
  have hlen := length_encode_le layer.name
  have hmax := hnames.length
  have hbase := hcontext.length
  have hbody := length_recordBody hcontext hwf hprops
  unfold MAX_URI_LEN at hmax
  refine ⟨put_verb, ⟨by simp [recordRequest, recordUri, bytes], ?_⟩, ?_, ?_⟩
  · simp only [recordRequest, recordUri, List.mem_append, not_or]
    exact ⟨⟨⟨⟨⟨hcontext.base, by decide⟩, not_mem_encode _⟩, by decide⟩, hnames.key_nul⟩, by decide⟩
  · simp only [recordRequest, recordUri, List.length_append, show (bytes "records/").length = 8 from rfl,
      show (bytes "/").length = 1 from rfl, show (bytes ".json").length = 5 from rfl]
    omega
  · simp only [recordRequest]
    omega

/-- **The items of a dump can be read back.** -/
theorem dumpItems_ok {context : DumpContext D} (hcontext : DumpContextOk context) {layers : List (DumpedLayer D)}
    (h : ∀ layer ∈ layers, Dumpable layer) : ∀ item ∈ dumpItems context layers, item.Ok := by
  intro item hitem
  rcases List.mem_append.1 hitem with hitem | hitem
  · split at hitem
    · cases hitem
    · exact List.mem_singleton.1 hitem ▸ hcontext.clock
  · obtain ⟨layer, hlayer, hitem⟩ := List.mem_flatMap.1 hitem
    rcases List.mem_cons.1 hitem with rfl | hitem
    · exact layerRequest_ok hcontext (h layer hlayer).name
    · obtain ⟨record, hrecord, rfl⟩ := List.mem_map.1 hitem
      exact recordRequest_ok hcontext (h layer hlayer) hrecord

omit [Dimension D] in
/-- The requests of a dump. -/
theorem mem_dumpItems {context : DumpContext D} {layers : List (DumpedLayer D)} {request : LoggedRequest} :
    request ∈ (dumpItems context layers).filterMap LogItem.request? ↔ ∃ layer ∈ layers,
      request = layerRequest context layer ∨ ∃ record ∈ layer.records, request = recordRequest context layer record := by
  have hitem : ∀ item : LogItem, item.request? = some request ↔ item = .request request := by
    intro item
    cases item <;> simp [LogItem.request?]
  have htime : LogItem.request request ∉ (if layers = [] then [] else [LogItem.timestamp context.now]) := by
    split <;> simp
  simp only [List.mem_filterMap, hitem, exists_eq_right, dumpItems, List.mem_append, htime, false_or, List.mem_flatMap,
    List.mem_cons, LogItem.request.injEq, List.mem_map]
  refine exists_congr (fun layer => and_congr_right (fun _ => or_congr_right (exists_congr (fun record => ?_))))
  rw [eq_comm (b := request)]

/-! ## The start -/

/-- The items of a journal that was dumped, and logged to behind the dump. -/
def startItems (context : DumpContext D) (layers : List (DumpedLayer D)) (lastTs : Int) (calls : List LogCall) :
    List LogItem := dumpItems context layers ++ journalItems lastTs calls

/-- A record whose request is among those that are read as a whole, and that cannot be read again. -/
def Unreadable (D : Type) [Dimension D] (context : DumpContext D) (items : List LogItem) (layer : DumpedLayer D)
    (record : DumpedRecord D) : Prop :=
  .request (recordRequest context layer record) ∈ wholeItems items 0 ∧ ¬ RecordReadable D record

/-- **What becomes of the start** on a dump and what was logged behind it. -/
theorem start_up_cases {qbounds : Rectangle2D D} {served : HttpHandlerContext D} (hq : served.cqueue.Holds [])
    {h : List (Serving D × ServingStep)} {s : Serving D} (hr : (servingSystem qbounds served).Run h s)
    {context : DumpContext D} (hcontext : DumpContextOk context) {layersSlab : Slab (DumpedLayer D)}
    {live order : List (EntryPtr × DumpedLayer D)} (hvisits : Visits layersSlab live order)
    (hlive : ∀ p ∈ live, DumpedFrom s.layers p.2) {outcomes : List Outcome} {tmpFile : Option Bytes} {child : ChildExit}
    (hchild : rewriteChild context layersSlab outcomes tmpFile = some child) (hok : child.anyFailed = false)
    {logging : HttpHandlerContext D} (hfile : child.tmpFile = some logging.dbLog.journal)
    (hname : logging.dbLog.dbLogFileName ≠ none) (hopen : logging.dbLog.dbLogFd.isSome = true) {calls : List LogCall}
    (hcalls : ∀ call ∈ calls, call.Ok ∧ AcceptedCall D context.encodedApiBaseUri call) (memory : Nat → Nat → UInt8)
    (stack : Nat → Bytes) (encodedPublicBaseUri : Bytes) {main : HttpHandlerContext D} (hmain : main.cqueue.Holds [])
    (hbase : main.encodedApiBaseUri = context.encodedApiBaseUri) (hrunning : main.shouldExit = false) {items : List LogItem}
    (hitems : items = startItems context (order.map Prod.snd) logging.dbLog.lastTs calls) :
    (∀ item ∈ items, item.Ok) ∧ ∃ res requests dbLog', replayLogBy (limitedRead memory) stack
        (openDbLog logging.dbLog (addAllToDbLog logging calls).dbLog.journal).1 = some (res, requests, dbLog') ∧
      (¬ ReadingGoesOn items 0 → (∀ p ∈ order, ∀ record ∈ p.2.records, ¬ Unreadable D context items p.2 record) → ∃ result,
        replayRequests encodedPublicBaseUri qbounds 1 requests main (fun _ => none) = some (.done result)) ∧
      ((∃ p ∈ order, ∃ record ∈ p.2.records, Unreadable D context items p.2 record) → ∀ tries,
        replayRequests encodedPublicBaseUri qbounds tries requests main (fun _ => none) = some .waiting) := by
  obtain ⟨child', hchild', -, -, hdump⟩ := rewriteChild_spec context hvisits outcomes tmpFile
  obtain rfl := Option.some.inj (hchild.symm.trans hchild')
  have hdumped := Option.some.inj (hfile.symm.trans (hdump hok))
  rw [completeDump_eq] at hdumped
  have hstore := serving_storeOk hq hr
  have hdumpable : ∀ p ∈ order, Dumpable p.2 := fun p hp => by
    obtain ⟨lost, hlost⟩ := hvisits.lost
    exact (hlive p (hlost.subset (List.mem_append_left lost hp))).dumpable hstore
  -- the file is a journal of items
  have hok : ∀ item ∈ items, item.Ok := fun item hitem => by
    rcases List.mem_append.1 (hitems ▸ hitem) with hitem | hitem
    · refine dumpItems_ok hcontext (fun layer hlayer => ?_) item hitem
      obtain ⟨p, hp, rfl⟩ := List.mem_map.1 hlayer
      exact hdumpable p hp
    · exact journalItems_ok _ (fun call hcall => (hcalls call hcall).1) item hitem
  have hjournal : (addAllToDbLog logging calls).dbLog.journal = items.flatMap LogItem.encode := by
    rw [addAllToDbLog_journal logging hopen (fun call hcall => (hcalls call hcall).1), hdumped, hitems, startItems,
      List.flatMap_append]
  obtain ⟨res, more, dbLog', hreplay, hend⟩ := replayLimited_spec memory stack hname hok
  rw [← hjournal] at hreplay
  refine ⟨hok, res, _, dbLog', hreplay, ?_⟩
  have hmem : ∀ request, request ∈ items.filterMap LogItem.request? ↔ (∃ p ∈ order, request = layerRequest context p.2 ∨
      ∃ record ∈ p.2.records, request = recordRequest context p.2 record) ∨ ∃ call ∈ calls, request = call.logged := by
    intro request
    rw [hitems, startItems, List.filterMap_append, List.mem_append, mem_dumpItems, journalItems_requests]
    refine or_congr ?_ ?_
    · simp only [List.mem_map, exists_exists_and_eq_and]
    · rw [List.mem_map]
      exact exists_congr (fun call => and_congr_right (fun _ => eq_comm))
  have hread : ∀ request, request ∈ (wholeItems items 0).filterMap LogItem.request? ↔
      LogItem.request request ∈ wholeItems items 0 := by
    intro request
    rw [List.mem_filterMap]
    refine ⟨?_, fun hmem => ⟨_, hmem, rfl⟩⟩
    rintro ⟨item, hmem, hrequest⟩
    cases item with
    | timestamp ts => cases hrequest
    | request req =>
      cases hrequest
      exact hmem
  have hsubset : ∀ request ∈ (wholeItems items 0).filterMap LogItem.request?, request ∈ items.filterMap LogItem.request? :=
    fun request hrequest => ((wholeItems_initial items 0).sublist.filterMap LogItem.request?).subset hrequest
  -- a record is accepted or refused, everything else is accepted
  have hlayer : ∀ p ∈ order, AcceptedAtOnce D context.encodedApiBaseUri encodedPublicBaseUri (layerRequest context p.2) :=
    fun p hp => layerRequest_accepted context (hdumpable p hp).name
  have hcall : ∀ call ∈ calls, AcceptedAtOnce D context.encodedApiBaseUri encodedPublicBaseUri call.logged :=
    fun call hc => (hcalls call hc).2.again
  have haccept : ∀ p ∈ order, ∀ record ∈ p.2.records, RecordReadable D record →
      AcceptedAtOnce D context.encodedApiBaseUri encodedPublicBaseUri (recordRequest context p.2 record) :=
    fun p hp record hrecord => recordRequest_accepted hcontext.print ((hdumpable p hp).names record hrecord)
      ((hdumpable p hp).pairLength_le hrecord)
  have hrefuse : ∀ p ∈ order, ∀ record ∈ p.2.records, ¬ RecordReadable D record →
      RefusedForEver D context.encodedApiBaseUri encodedPublicBaseUri (recordRequest context p.2 record) :=
    fun p hp record hrecord => recordRequest_refused hcontext.print ((hdumpable p hp).names record hrecord)
      ((hdumpable p hp).pairLength_le hrecord)
  have hidle : Idle context.encodedApiBaseUri main (fun _ => none) := ⟨hmain, hbase, hrunning, storeOk_empty⟩
  have hcases : ∀ request ∈ (wholeItems items 0).filterMap LogItem.request?,
      AcceptedAtOnce D context.encodedApiBaseUri encodedPublicBaseUri request ∨
        RefusedForEver D context.encodedApiBaseUri encodedPublicBaseUri request := by
    intro request hrequest
    rcases (hmem request).1 (hsubset request hrequest) with ⟨p, hp, rfl | ⟨record, hrecord, rfl⟩⟩ | ⟨call, hc, rfl⟩
    · exact .inl (hlayer p hp)
    · by_cases hreadable : RecordReadable D record
      · exact .inl (haccept p hp record hrecord hreadable)
      · exact .inr (hrefuse p hp record hrecord hreadable)
    · exact .inl (hcall call hc)
  obtain ⟨hdone, hwaiting⟩ := replayRequests_spec qbounds hcases hidle
  refine ⟨fun hno hreadable => ?_, fun ⟨p, hp, record, hrecord, hwhole, hunreadable⟩ tries =>
    replayRequests_append qbounds more (hwaiting ⟨_, (hread _).2 hwhole, hrefuse p hp record hrecord hunreadable⟩ tries)⟩
  obtain ⟨context', layers', hresult, -⟩ := hdone (fun request hrequest => by
    rcases (hmem request).1 (hsubset request hrequest) with ⟨p, hp, rfl | ⟨record, hrecord, rfl⟩⟩ | ⟨call, hc, rfl⟩
    · exact hlayer p hp
    · exact haccept p hp record hrecord (by_contra fun hnot => hreadable p hp record hrecord ⟨(hread _).1 hrequest, hnot⟩)
    · exact hcall call hc) 1 Nat.one_pos
  rw [hend hno, List.append_nil]
  exact ⟨_, hresult⟩

/-- **The start on a dump and what was logged behind it comes back exactly when no record that is read as a whole is
unreadable**, for every journal whose reading does not go on in the middle of a field.  An unreadable record that is read as
a whole is tried for ever in any case. -/
theorem start_up_terminates_iff {qbounds : Rectangle2D D} {served : HttpHandlerContext D} (hq : served.cqueue.Holds [])
    {h : List (Serving D × ServingStep)} {s : Serving D} (hr : (servingSystem qbounds served).Run h s)
    {context : DumpContext D} (hcontext : DumpContextOk context) {layersSlab : Slab (DumpedLayer D)}
    {live order : List (EntryPtr × DumpedLayer D)} (hvisits : Visits layersSlab live order)
    (hlive : ∀ p ∈ live, DumpedFrom s.layers p.2) {outcomes : List Outcome} {tmpFile : Option Bytes} {child : ChildExit}
    (hchild : rewriteChild context layersSlab outcomes tmpFile = some child) (hok : child.anyFailed = false)
    {logging : HttpHandlerContext D} (hfile : child.tmpFile = some logging.dbLog.journal)
    (hname : logging.dbLog.dbLogFileName ≠ none) (hopen : logging.dbLog.dbLogFd.isSome = true) {calls : List LogCall}
    (hcalls : ∀ call ∈ calls, call.Ok ∧ AcceptedCall D context.encodedApiBaseUri call) (memory : Nat → Nat → UInt8)
    (stack : Nat → Bytes) (encodedPublicBaseUri : Bytes) {main : HttpHandlerContext D} (hmain : main.cqueue.Holds [])
    (hbase : main.encodedApiBaseUri = context.encodedApiBaseUri) (hrunning : main.shouldExit = false) :
    let items := startItems context (order.map Prod.snd) logging.dbLog.lastTs calls
    ∃ res requests dbLog', replayLogBy (limitedRead memory) stack
        (openDbLog logging.dbLog (addAllToDbLog logging calls).dbLog.journal).1 = some (res, requests, dbLog') ∧
      (¬ ReadingGoesOn items 0 →
        ((∃ tries result, replayRequests encodedPublicBaseUri qbounds tries requests main (fun _ => none) =
          some (.done result)) ↔ ∀ p ∈ order, ∀ record ∈ p.2.records, ¬ Unreadable D context items p.2 record)) ∧
      ((∃ p ∈ order, ∃ record ∈ p.2.records, Unreadable D context items p.2 record) → ∀ tries,
        replayRequests encodedPublicBaseUri qbounds tries requests main (fun _ => none) = some .waiting) ∧
      ((∀ req, .request req ∈ items → req.uri.length ≤ EVBUFFER_MAX_READ_DEFAULT ∧
        req.body.length ≤ EVBUFFER_MAX_READ_DEFAULT) → wholeItems items 0 = items ∧ ¬ ReadingGoesOn items 0) := by
  intro items
  obtain ⟨hitems, res, requests, dbLog', hreplay, hall, hsome⟩ := start_up_cases hq hr hcontext hvisits hlive hchild hok hfile
    hname hopen hcalls memory stack encodedPublicBaseUri hmain hbase hrunning (show items = _ from rfl)
  refine ⟨res, requests, dbLog', hreplay, fun hno => ⟨?_, fun hreadable => ⟨1, hall hno hreadable⟩⟩, hsome,
    fun hsmall => wholeItems_small hitems hsmall 0⟩
  rintro ⟨tries, result, hresult⟩ p hp record hrecord hunreadable
  rw [hsome ⟨p, hp, record, hrecord, hunreadable⟩ tries] at hresult
  cases hresult

/-! ## One request at a time -/

omit [Dimension D] in
/-- What `add_to_db_log` changes. -/
theorem addToDbLog_eq (context : HttpHandlerContext D) (verb : Nat) (uri inputBuffer : Bytes) (sendToSlaves : Bool) :
    ∃ dbLog slavesOut, (addToDbLog context verb uri inputBuffer sendToSlaves).1 = { context with dbLog, slavesOut } := by
  unfold addToDbLog
  split
  · exact ⟨_, _, rfl⟩
  · simp only
    split
    · exact ⟨_, _, rfl⟩
    · exact ⟨_, _, rfl⟩

omit [Dimension D] in
/-- **Nothing is on its way**: the queue is empty and no worker is busy. -/
structure Quiet (base : Bytes) (s : Serving D) : Prop where
  queue : s.context.cqueue.Holds []
  inflight : s.inflight = []
  base : s.context.encodedApiBaseUri = base

theorem Run.serve {qbounds : Rectangle2D D} {context : HttpHandlerContext D} {h : List (Serving D × ServingStep)}
    {s s' : Serving D} {i : ServingStep} (hr : (servingSystem qbounds context).Run h s)
    (hs : servingStep qbounds s i = some s') : (servingSystem qbounds context).Run (h ++ [(s, i)]) s' :=
  hr.snoc trivial hs

/-- **A mutation that is accepted, taken and applied.** -/
theorem Quiet.request {qbounds : Rectangle2D D} {context : HttpHandlerContext D} {base path : Bytes}
    {h : List (Serving D × ServingStep)} {s : Serving D} (hs : Quiet base s) (hr : (servingSystem qbounds context).Run h s)
    {u : ApiUri} (hu : apiUri path = some u) {req req' : EvhttpRequest} {body : OpBody D}
    (hhandler : ∀ context, domainHandler req context u false none = (queueOp context req' false body true).map some)
    {layers' : Layers D} (hwork : workerDoWork qbounds body s.layers = some layers') : ∃ h' s',
      (servingSystem qbounds context).Run h' s' ∧
      h'.map Prod.snd = h.map Prod.snd ++ [.request (base ++ path) req false none, .dequeue, .apply 0] ∧
      Quiet base s' ∧ s'.layers = layers' := by
  obtain ⟨opTid, cqueue, hq, hqueue⟩ := queueOp_idle hs.queue req' false body true
  obtain ⟨dbLog, slavesOut, hlog⟩ := addToDbLog_eq { s.context with opTid, cqueue } req'.type (base ++ path)
    req'.inputBuffer true
  obtain ⟨q, hshift, -, hq'⟩ := shiftCqueue_spec hq
  have h₁ : servingStep qbounds s (.request (base ++ path) req false none) =
      some ⟨{ s.context with opTid, cqueue, dbLog, slavesOut }, [], s.layers⟩ := by
    have hdrop : (base ++ path).drop s.context.encodedApiBaseUri.length = path := by rw [hs.base, List.drop_left]
    rw [servingStep, processApiRequest, hdrop, hu]
    simp only [hhandler, hqueue, Option.map_some, endApiRequest, ne_eq, not_true_eq_false, if_false, Bool.false_eq_true,
      not_false_eq_true, and_self, if_true, hlog, hs.inflight]
  have h₂ : servingStep qbounds ⟨{ s.context with opTid, cqueue, dbLog, slavesOut }, [], s.layers⟩ .dequeue =
      some ⟨{ s.context with opTid, cqueue := q, dbLog, slavesOut }, [⟨false, opTid, body⟩], s.layers⟩ := by
    rw [servingStep]
    simp only [hshift, Option.map_some, List.head?_cons, Option.toList_some, List.nil_append]
  have h₃ : servingStep qbounds ⟨{ s.context with opTid, cqueue := q, dbLog, slavesOut }, [⟨false, opTid, body⟩],
      s.layers⟩ (.apply 0) = some ⟨{ s.context with opTid, cqueue := q, dbLog, slavesOut }, [], layers'⟩ := by
    rw [servingStep]
    simp only [List.getElem?_cons_zero, hwork, Option.map_some, List.eraseIdx_cons_zero]
  exact ⟨_, _, Run.serve (Run.serve (Run.serve hr h₁) h₂) h₃, by simp, ⟨hq', rfl, hs.base⟩, rfl⟩

end

/-! ## A layer with some records -/

/-- The layer `x` with some records. -/
def storeOf (records : List (Key × KeyNode ℚ)) : Layers ℚ :=
  Function.update (fun _ => none) layerX (some (fun key => records.lookup key))

def dumpedRecords (records : List (Key × KeyNode ℚ)) : DumpedLayer ℚ :=
  ⟨bytes "x", records.map (fun p => dumpedRecord p.1 p.2)⟩

def dumpedLayerOf (key : Bytes) : DumpedLayer ℚ := ⟨bytes "x", [⟨key, [], none, none⟩]⟩

theorem dumpedRecords_one {key : Bytes} (h : (0 : UInt8) ∉ key) :
    dumpedRecords [(key ++ [0], newKeyNode)] = dumpedLayerOf key := by
  unfold dumpedRecords dumpedLayerOf dumpedRecord
  rw [List.map_singleton, cstr_snoc h]
  rfl

theorem mem_of_lookup {records : List (Key × KeyNode ℚ)} (hnodup : (records.map Prod.fst).Nodup) {key : Key}
    {keyNode : KeyNode ℚ} : records.lookup key = some keyNode ↔ (key, keyNode) ∈ records := by
  constructor
  · intro h
    obtain ⟨before, after, rfl, -⟩ := List.lookup_eq_some_iff.1 h
    simp
  · intro h
    obtain ⟨before, after, rfl⟩ := List.append_of_mem h
    rw [List.map_append, List.map_cons, List.nodup_middle, List.nodup_cons] at hnodup
    refine List.lookup_eq_some_iff.2 ⟨before, after, rfl, fun p hp => ?_⟩
    refine bne_iff_ne.2 (fun heq => hnodup.1 (List.mem_append_left _ ?_))
    exact List.mem_map.2 ⟨p, hp, (show key = p.1 from heq).symm⟩

theorem dumpedFrom_storeOf {records : List (Key × KeyNode ℚ)} (hnodup : (records.map Prod.fst).Nodup) :
    DumpedFrom (storeOf records) (dumpedRecords records) := by
  refine ⟨layerX, _, Function.update_self .., (cstr_snoc (s := bytes "x") (by decide)).symm, fun record => ?_⟩
  unfold dumpedRecords
  simp only [List.mem_map, mem_of_lookup hnodup, Prod.exists, eq_comm (a := record)]

/-- What a PUT makes of the records, when it is accepted. -/
def putRecord (records : List (Key × KeyNode ℚ)) (key body : Bytes) : Option (List (Key × KeyNode ℚ)) := do
  let (ret, putOp) ← queryParse (body ++ [0]) recordsPutOptParseCb (recordsPutOp layerX (key ++ [0]))
  if ret = 0 then
    (putKeyNode earth putOp ((records.lookup (key ++ [0])).getD newKeyNode)).map (fun node => (key ++ [0], node) :: records)
  else none

theorem storeOf_put {records : List (Key × KeyNode ℚ)} {putOp : RecordsPutOp ℚ} {node : KeyNode ℚ}
    (hlayer : putOp.layerName = layerX)
    (hnode : putKeyNode earth putOp ((records.lookup putOp.key).getD newKeyNode) = some node) :
    workerDoWork earth (.recordsPut putOp) (storeOf records) = some (storeOf ((putOp.key, node) :: records)) := by
  have hold : storeOf records layerX = some (fun key => records.lookup key) := Function.update_self ..
  unfold workerDoWork handleOpRecordsPut
  simp only [hlayer, hold, hnode, Option.bind_eq_bind, Option.bind_some, Option.map_some]
  refine congrArg some ?_
  unfold storeOf
  rw [Function.update_idem]
  have hlookup : Function.update (fun key => records.lookup key) putOp.key (some node) =
      fun key => ((putOp.key, node) :: records).lookup key := by
    funext key
    rw [Function.update_apply, List.lookup_cons]
    by_cases hkey : key = putOp.key
    · rw [if_pos hkey, hkey, beq_self_eq_true]
    · rw [if_neg hkey, beq_false_of_ne hkey]
  rw [hlookup]

/-- A PUT whose body is read. -/
theorem domainHandler_put {key body : Bytes} (hne : key ≠ []) (hnul : (0 : UInt8) ∉ key) {putOp : RecordsPutOp ℚ}
    (hparse : queryParse (body ++ [0]) recordsPutOptParseCb (recordsPutOp layerX (key ++ [0])) = some (0, putOp))
    (context : HttpHandlerContext ℚ) :
    domainHandler ⟨EVHTTP_REQ_PUT, body, []⟩ context ⟨bytes "records", bytes "x" ++ 47 :: key, none⟩ false none =
      (queueOp context ⟨EVHTTP_REQ_PUT, body ++ [0], []⟩ false (.recordsPut putOp) true).map some := by
  have hx : bytes "x" ≠ [] ∧ (0 : UInt8) ∉ bytes "x" ∧ (47 : UInt8) ∉ bytes "x" := by decide
  have huri : recordsUri (bytes "x" ++ 47 :: key) = some (.ok (layerX, key ++ [0])) :=
    recordsUri_append ⟨hx.1, hne⟩ ⟨hx.2.1, hnul⟩ hx.2.2
  rw [domainHandler_records, handleDomainRecords_put huri, recordsPut]
  simp only [hparse, Option.bind_eq_bind, Option.bind_some, ne_eq, not_true_eq_false, if_false]

theorem domainHandler_post (context : HttpHandlerContext ℚ) :
    domainHandler ⟨EVHTTP_REQ_POST, [], []⟩ context ⟨bytes "layers", bytes "x", none⟩ false none =
      (queueOp context ⟨EVHTTP_REQ_POST, [], []⟩ false (.layersCreate layerX) true).map some := rfl

/-- A PUT on the layer `x`, with its key as it is sent and as it is stored. -/
structure XPut where
  encodedKey : Bytes
  key : Bytes
  body : Bytes

def XPut.steps (put : XPut) : List ServingStep :=
  [.request (bytes "/api/1.0/" ++ (bytes "records/x/" ++ put.encodedKey ++ bytes ".json")) ⟨EVHTTP_REQ_PUT, put.body, []⟩
    false none, .dequeue, .apply 0]

/-- The URI has the key. -/
def XPut.Ok (put : XPut) : Prop := put.key ≠ [] ∧ (0 : UInt8) ∉ put.key ∧
  apiUri (bytes "records/x/" ++ put.encodedKey ++ bytes ".json") =
    some ⟨bytes "records", bytes "x" ++ 47 :: put.key, none⟩

instance (put : XPut) : Decidable put.Ok := inferInstanceAs (Decidable (_ ∧ _ ∧ _))

/-- What the PUTs make. -/
def putRecords (puts : List XPut) : Option (List (Key × KeyNode ℚ)) :=
  puts.foldlM (fun records put => putRecord records put.key put.body) []

/-- The requests that make the records. -/
def xSteps (puts : List XPut) : List ServingStep :=
  [.request (bytes "/api/1.0/" ++ bytes "layers/x.json") ⟨EVHTTP_REQ_POST, [], []⟩ false none, .dequeue, .apply 0] ++
    puts.flatMap XPut.steps

def storeSteps (encodedKey : Bytes) : List ServingStep :=
  [.request (bytes "/api/1.0/" ++ bytes "layers/x.json") ⟨EVHTTP_REQ_POST, [], []⟩ false none, .dequeue, .apply 0,
    .request (bytes "/api/1.0/" ++ (bytes "records/x/" ++ encodedKey ++ bytes ".json")) ⟨EVHTTP_REQ_PUT, [], []⟩ false none,
    .dequeue, .apply 0]

theorem Quiet.puts : ∀ {puts : List XPut} {h : List (Serving ℚ × ServingStep)} {s : Serving ℚ}
    {records records' : List (Key × KeyNode ℚ)}, Quiet (bytes "/api/1.0/") s → (servingSystem earth freshContext).Run h s →
    s.layers = storeOf records → (∀ put ∈ puts, put.Ok) →
    puts.foldlM (fun records put => putRecord records put.key put.body) records = some records' →
    ∃ h' s', (servingSystem earth freshContext).Run h' s' ∧ h'.map Prod.snd = h.map Prod.snd ++ puts.flatMap XPut.steps ∧
      s'.layers = storeOf records'
  | [], h, s, records, records', _, hr, hlayers, _, hputs => by
    obtain rfl := Option.some.inj hputs
    exact ⟨h, s, hr, (List.append_nil _).symm, hlayers⟩
  | put :: puts, h, s, records, records', hs, hr, hlayers, hok, hputs => by
    rw [List.foldlM_cons] at hputs
    obtain ⟨records₁, hput, hputs⟩ := Option.bind_eq_some_iff.1 hputs
    obtain ⟨⟨ret, putOp⟩, hparse, hput⟩ := Option.bind_eq_some_iff.1 hput
    dsimp only at hput
    split at hput
    · rename_i hret
      subst hret
      obtain ⟨node, hnode, rfl⟩ := Option.map_eq_some_iff.1 hput
      obtain ⟨-, hlayer, hkey⟩ := queryParse_putOp hparse
      have hlayer : putOp.layerName = layerX := hlayer
      have hkey : putOp.key = put.key ++ [0] := hkey
      obtain ⟨hne, hnul, hu⟩ := hok put List.mem_cons_self
      have hwork := storeOf_put hlayer (hkey.symm ▸ hnode)
      rw [← hlayers, hkey] at hwork
      obtain ⟨h₁, s₁, hr₁, hsteps₁, hquiet, hlayers₁⟩ := hs.request hr hu (domainHandler_put hne hnul hparse) hwork
      obtain ⟨h', s', hr', hsteps, hlayers'⟩ := Quiet.puts hquiet hr₁ hlayers₁
        (fun put hput => hok put (List.mem_cons_of_mem _ hput)) hputs
      refine ⟨h', s', hr', ?_, hlayers'⟩
      rw [hsteps, hsteps₁, List.flatMap_cons, List.append_assoc]
      rfl
    · cases hput

/-- **A layer with some records can be reached.** -/
theorem storeOf_reached {puts : List XPut} (hok : ∀ put ∈ puts, put.Ok) {records : List (Key × KeyNode ℚ)}
    (hputs : putRecords puts = some records) : ∃ h s, (servingSystem earth freshContext).Run h s ∧
      h.map Prod.snd = xSteps puts ∧ s.layers = storeOf records := by
  have hinit : Quiet (bytes "/api/1.0/") (servingSystem earth freshContext).init := ⟨freshContext_holds, rfl, rfl⟩
  have hpost : apiUri (bytes "layers/x.json") = some ⟨bytes "layers", bytes "x", none⟩ := by decide +kernel
  have hcreate : workerDoWork earth (.layersCreate layerX) (servingSystem earth freshContext).init.layers =
      some (storeOf []) := rfl
  obtain ⟨h₁, s₁, hr₁, hsteps₁, hquiet, hlayers⟩ := hinit.request .init hpost domainHandler_post hcreate
  obtain ⟨h₂, s₂, hr₂, hsteps₂, hlayers'⟩ := hquiet.puts hr₁ hlayers hok hputs
  refine ⟨h₂, s₂, hr₂, ?_, hlayers'⟩
  rw [hsteps₂, hsteps₁]
  rfl

/-- One record with nothing but its key. -/
theorem storeOf_reached_one {put : XPut} (hok : put.Ok) (hbody : put.body = []) : ∃ h s,
    (servingSystem earth freshContext).Run h s ∧ h.map Prod.snd = storeSteps put.encodedKey ∧
      DumpedFrom s.layers (dumpedLayerOf put.key) := by
  have hput : putRecord [] put.key [] = some [(put.key ++ [0], newKeyNode)] := rfl
  have hputs : putRecords [put] = some [(put.key ++ [0], newKeyNode)] := by
    rw [putRecords, List.foldlM_cons, hbody, hput]
    rfl
  obtain ⟨h, s, hr, hsteps, hlayers⟩ := storeOf_reached (fun p hp => List.mem_singleton.1 hp ▸ hok) hputs
  refine ⟨h, s, hr, ?_, ?_⟩
  · rw [hsteps, xSteps, List.flatMap_singleton, XPut.steps, hbody]
    rfl
  · rw [hlayers, ← dumpedRecords_one hok.2.1]
    exact dumpedFrom_storeOf (List.nodup_singleton _)

/-- No position is printed. -/
def dumpContextX : DumpContext ℚ := ⟨bytes "/api/1.0/", 60, fun _ => bytes "0.000000"⟩

theorem dumpContextX_ok : DumpContextOk dumpContextX where
  clock := by decide
  base := by decide
  length := by decide
  print _ :=
    have hprinted : PrintedNumber ℚ (bytes "0.000000") := ⟨by decide, by decide +kernel, by decide, by decide +kernel⟩
    hprinted

/-- The journal file of a dump. -/
def loggingBehind (dump : Bytes) : HttpHandlerContext ℚ :=
  { freshContext with dbLog := { freshContext.dbLog with dbLogFd := some dump } }

/-- A child that dumps one layer. -/
theorem layer_child (context : DumpContext ℚ) (layer : DumpedLayer ℚ) (heval : (addEntryToSlab true initSlab layer).any
    (fun r => r.2 = some ⟨0, 0⟩ ∧ (rewriteChild context r.1 [] none).any (fun child => child.anyFailed = false)) = true) :
    ∃ slab e child dump, addEntryToSlab true initSlab layer = some (slab, some e) ∧ Visits slab [(e, layer)] [(e, layer)] ∧
      rewriteChild context slab [] none = some child ∧ child.anyFailed = false ∧ child.tmpFile = some dump := by
  obtain ⟨s, hs, hgood, -⟩ := slabStep_add slabInv_init true layer
  simp only [slabStep, Option.bind_eq_bind] at hs
  obtain ⟨⟨slab, e⟩, hadd, hlive⟩ := Option.bind_eq_some_iff.1 hs
  rw [hadd] at heval
  obtain ⟨he, heval⟩ := of_decide_eq_true heval
  obtain ⟨child, hchild, hok⟩ := (Option.any_eq_true _ _).1 heval
  have hok := of_decide_eq_true hok
  simp only at he hchild
  subst he
  cases hlive
  obtain ⟨pl, fl, hslab⟩ := hgood (fun a c ha => by cases ha)
  obtain ⟨visited, hvisits, hperm⟩ := hslab.visits
  obtain rfl := List.perm_singleton.1 hperm
  obtain ⟨child', hchild', -, -, hdump⟩ := rewriteChild_spec context hvisits [] none
  obtain rfl := Option.some.inj (hchild.symm.trans hchild')
  exact ⟨slab, ⟨0, 0⟩, child, _, hadd, hvisits, hchild, hok, hdump hok⟩

/-- The store has the record `a%`, and the creation of the layer was logged once more behind the dump. -/
theorem start_up_terminates_percent : ∃ h s slab e child dump res requests dbLog',
    (servingSystem earth freshContext).Run h s ∧ h.map Prod.snd = storeSteps (bytes "a%25") ∧
    DumpedFrom s.layers (dumpedLayerOf (bytes "a%")) ∧
    addEntryToSlab true initSlab (dumpedLayerOf (bytes "a%")) = some (slab, some e) ∧
    rewriteChild dumpContextX slab [] none = some child ∧ child.anyFailed = false ∧ child.tmpFile = some dump ∧
    replayLogBy (limitedRead (fun _ _ => 0)) (fun _ => []) (openDbLog freshContext.dbLog (addAllToDbLog
      (loggingBehind dump) [⟨60, EVHTTP_REQ_POST, bytes "/api/1.0/layers/x.json", [], true⟩]).dbLog.journal).1 =
      some (res, requests, dbLog') ∧
    ∃ tries result, replayRequests (bytes "/public/") earth tries requests freshContext (fun _ => none) =
      some (.done result) := by
  have hput : XPut.Ok ⟨bytes "a%25", bytes "a%", []⟩ := by decide +kernel
  obtain ⟨h, s, hr, hsteps, hfrom⟩ := storeOf_reached_one hput rfl
  obtain ⟨slab, e, child, dump, hadd, hvisits, hchild, hok, hdump⟩ := layer_child dumpContextX
    (dumpedLayerOf (bytes "a%")) (by decide +kernel)
  have hfile : child.tmpFile = some (loggingBehind dump).dbLog.journal := by
    rw [hdump]
    simp [loggingBehind, DBLog.journal, freshContext]
  have hcall : ∀ call ∈ [(⟨60, EVHTTP_REQ_POST, bytes "/api/1.0/layers/x.json", [], true⟩ : LogCall)],
      call.Ok ∧ AcceptedCall ℚ dumpContextX.encodedApiBaseUri call := by
    intro call hcall
    obtain rfl := List.mem_singleton.1 hcall
    refine ⟨⟨by decide, by decide, by decide, by decide⟩, freshContext, _, ⟨EVHTTP_REQ_POST, [], []⟩, _, none, 0, [],
      ⟨false, 1, .layersCreate (bytes "x" ++ [0])⟩, rfl, ⟨bytes "layers/x.json", by decide⟩, freshContext_post [],
      freshContext_holds, ?_, rfl, rfl, rfl⟩
    rw [addToDbLog_cqueue]
    exact freshQueued_holds
  obtain ⟨res, requests, dbLog', hreplay, hiff, -, hsmall⟩ := start_up_terminates_iff freshContext_holds hr dumpContextX_ok
    hvisits (fun p hp => List.mem_singleton.1 hp ▸ hfrom) hchild hok hfile (Option.some_ne_none _) rfl hcall (fun _ _ => 0)
    (fun _ => []) (bytes "/public/") freshContext_holds rfl rfl
  have hshort : ∀ req ∈ (startItems dumpContextX [dumpedLayerOf (bytes "a%")] freshContext.dbLog.lastTs
      [⟨60, EVHTTP_REQ_POST, bytes "/api/1.0/layers/x.json", [], true⟩]).filterMap LogItem.request?,
      req.uri.length ≤ EVBUFFER_MAX_READ_DEFAULT ∧ req.body.length ≤ EVBUFFER_MAX_READ_DEFAULT := by decide +kernel
  have hno := (hsmall fun req hreq => hshort req (List.mem_filterMap.2 ⟨_, hreq, rfl⟩)).2
  refine ⟨h, s, slab, e, child, dump, res, requests, dbLog', hr, hsteps, hfrom, hadd, hchild, hok, hdump, hreplay,
    (hiff hno).2 ?_⟩
  rintro p hp record hrecord ⟨-, hunreadable⟩
  obtain rfl := List.mem_singleton.1 hp
  obtain rfl := List.mem_singleton.1 hrecord
  exact hunreadable ⟨by decide +kernel, fun _ hp => absurd hp List.not_mem_nil⟩

/-- **A store after which the server never starts**: the record `a%3Fb`, put as `a%253Fb`.  The dump writes its key as it
is, so that it is decoded to `a?b`, and what stands before the question mark has no extension. -/
theorem start_up_never_ends : ∃ h s slab e child dump res requests dbLog',
    (servingSystem earth freshContext).Run h s ∧ h.map Prod.snd = storeSteps (bytes "a%253Fb") ∧
    DumpedFrom s.layers (dumpedLayerOf (bytes "a%3Fb")) ∧
    addEntryToSlab true initSlab (dumpedLayerOf (bytes "a%3Fb")) = some (slab, some e) ∧
    rewriteChild dumpContextX slab [] none = some child ∧ child.anyFailed = false ∧ child.tmpFile = some dump ∧
    replayLogBy (limitedRead (fun _ _ => 0)) (fun _ => []) (openDbLog freshContext.dbLog dump).1 =
      some (res, requests, dbLog') ∧
    ∀ tries, replayRequests (bytes "/public/") earth tries requests freshContext (fun _ => none) = some .waiting := by
  have hput : XPut.Ok ⟨bytes "a%253Fb", bytes "a%3Fb", []⟩ := by decide +kernel
  obtain ⟨h, s, hr, hsteps, hfrom⟩ := storeOf_reached_one hput rfl
  obtain ⟨slab, e, child, dump, hadd, hvisits, hchild, hok, hdump⟩ := layer_child dumpContextX
    (dumpedLayerOf (bytes "a%3Fb")) (by decide +kernel)
  have hjournal : (loggingBehind dump).dbLog.journal = dump := by simp [loggingBehind, DBLog.journal, freshContext]
  obtain ⟨hitems, res, requests, dbLog', hreplay, -, hforever⟩ := start_up_cases freshContext_holds hr dumpContextX_ok hvisits
    (fun p hp => List.mem_singleton.1 hp ▸ hfrom) hchild hok
    (show child.tmpFile = some (loggingBehind dump).dbLog.journal by rw [hdump, hjournal]) (Option.some_ne_none _) rfl
    (fun call (hc : call ∈ []) => absurd hc List.not_mem_nil) (fun _ _ => 0) (fun _ => [])
    (bytes "/public/") freshContext_holds rfl rfl (show startItems dumpContextX [dumpedLayerOf (bytes "a%3Fb")]
      freshContext.dbLog.lastTs [] = _ from rfl)
  have hshort : ∀ req ∈ (startItems dumpContextX [dumpedLayerOf (bytes "a%3Fb")] freshContext.dbLog.lastTs []).filterMap
      LogItem.request?, req.uri.length ≤ EVBUFFER_MAX_READ_DEFAULT ∧ req.body.length ≤ EVBUFFER_MAX_READ_DEFAULT := by
    decide +kernel
  have hwhole := (wholeItems_small hitems (fun req hreq => hshort req (List.mem_filterMap.2 ⟨_, hreq, rfl⟩)) 0).1
  rw [addAllToDbLog, hjournal] at hreplay
  refine ⟨h, s, slab, e, child, dump, res, requests, dbLog', hr, hsteps, hfrom, hadd, hchild, hok, hdump, hreplay,
    hforever ⟨_, List.mem_singleton_self _, ⟨bytes "a%3Fb", [], none, none⟩, List.mem_singleton_self _, ?_,
      fun hreadable => ?_⟩⟩
  · rw [hwhole]
    show LogItem.request (recordRequest dumpContextX (dumpedLayerOf (bytes "a%3Fb")) ⟨bytes "a%3Fb", [], none, none⟩) ∈ _
    decide +kernel
  · exact absurd hreadable.1 (by decide +kernel)

end Pincaster
