import Pincaster.JournalCodec
import Pincaster.Serving
/-!
# StartUp — `replay_log` with `fake_request`, which tries a record until it is accepted

A request that was logged is accepted again at the first try.  What a rewrite has dumped is written anew, so that a record
may be refused: then it is refused at every try, and the server never starts (`start_up_terminates_iff`).
-/
namespace Pincaster

open Lib (Bytes bytes cstr caseEq System)

variable {D : Type}

/-! ## Trying a record -/

/-- A part of the replay that has come back, or one that has not. -/
inductive Replayed (α : Type) where
  | done (a : α)
  | waiting

section
variable [Dimension D]

/-- `process_request` with `fake_req`, which asserts that the URI is not a public one. -/
def processFakeRequest (encodedPublicBaseUri : Bytes) (context : HttpHandlerContext D) (uri : Bytes) (req : EvhttpRequest) :
    Option (Int × HttpHandlerContext D × EvhttpRequest) :=
  if context.encodedApiBaseUri.isPrefixOf uri then processApiRequest context uri req true none
  else if encodedPublicBaseUri.isPrefixOf uri then none
  else some (-1, context, req)

/-- The loop of `fake_request`, for a number of tries. -/
def retryRequest (encodedPublicBaseUri uri : Bytes) : Nat → HttpHandlerContext D → EvhttpRequest →
    Option (Replayed (HttpHandlerContext D))
  | 0, _, _ => some .waiting
  | tries + 1, context, req => do
    let (ret, context, req) ← processFakeRequest encodedPublicBaseUri context uri req
    if ret ≠ 0 then retryRequest encodedPublicBaseUri uri tries context req else some (.done context)

/-- `worker_do_work` in the main thread: it waits for ever when there is no operation. -/
def workInMainThread (qbounds : Rectangle2D D) (context : HttpHandlerContext D) (layers : Layers D) :
    Option (Replayed (HttpHandlerContext D × Layers D)) :=
  if context.shouldExit then some (.done (context, layers))
  else
    match shiftCqueue context.cqueue with
    | none => none
    | some (_, none) => some .waiting
    | some (cqueue, some op) =>
      (workerDoWork qbounds op.body layers).map (fun layers => .done ({ context with cqueue }, layers))

def fakeRequest (encodedPublicBaseUri : Bytes) (qbounds : Rectangle2D D) (tries : Nat) (request : LoggedRequest)
    (context : HttpHandlerContext D) (layers : Layers D) : Option (Replayed (HttpHandlerContext D × Layers D)) := do
  match ← retryRequest encodedPublicBaseUri request.uri tries context ⟨request.verb.toNat, request.body, []⟩ with
  | .waiting => some .waiting
  | .done context => workInMainThread qbounds context layers

/-- The calls of `fake_request` in `replay_log`, each with the same number of tries. -/
def replayRequests (encodedPublicBaseUri : Bytes) (qbounds : Rectangle2D D) (tries : Nat) : List LoggedRequest →
    HttpHandlerContext D → Layers D → Option (Replayed (HttpHandlerContext D × Layers D))
  | [], context, layers => some (.done (context, layers))
  | request :: requests, context, layers => do
    match ← fakeRequest encodedPublicBaseUri qbounds tries request context layers with
    | .waiting => some .waiting
    | .done (context, layers) => replayRequests encodedPublicBaseUri qbounds tries requests context layers

end

/-! ## Requests that are accepted, and requests that never are -/

/-- **The main thread between two records.** -/
structure Idle (base : Bytes) (context : HttpHandlerContext D) (layers : Layers D) : Prop where
  queue : context.cqueue.Holds []
  base : context.encodedApiBaseUri = base
  running : context.shouldExit = false
  store : StoreOk layers

theorem queueOp_idle {context : HttpHandlerContext D} (hq : context.cqueue.Holds []) (req : EvhttpRequest) (fakeReq : Bool)
    (body : OpBody D) (writeToLog : Bool) : ∃ opTid cqueue, cqueue.Holds [⟨fakeReq, opTid, body⟩] ∧
      queueOp context req fakeReq body writeToLog = some ⟨0, { context with opTid, cqueue }, req, writeToLog⟩ := by
  obtain ⟨q, ret, hpush, -, hcase⟩ := pushCqueue_spec hq ⟨fakeReq, context.opTid + 1, body⟩
  rcases hcase with ⟨-, rfl, hq'⟩ | ⟨hfull, -, -⟩
  · refine ⟨context.opTid + 1, q, hq', ?_⟩
    unfold queueOp
    simp only [hpush, Option.bind_eq_bind, Option.bind_some, ne_eq, not_true_eq_false, if_false]
  · simp at hfull

/-- The body of a request after some tries: a PUT adds a NUL at each. -/
def Padded (body inputBuffer : Bytes) : Prop := inputBuffer = body ∨ ∃ t, inputBuffer = body ++ 0 :: t

theorem Padded.snoc {body inputBuffer : Bytes} (h : Padded body inputBuffer) :
    ∃ t, inputBuffer ++ [0] = body ++ 0 :: t := by
  rcases h with rfl | ⟨t, rfl⟩
  · exact ⟨[], rfl⟩
  · exact ⟨t ++ [0], by simp⟩

section
variable [Dimension D]

/-- **A request that queues an operation at the first try**, whatever the main thread has done before. -/
def AcceptedAs (D : Type) [Dimension D] (base encodedPublicBaseUri : Bytes) (request : LoggedRequest) (body : OpBody D) :
    Prop :=
  ∀ context : HttpHandlerContext D, context.cqueue.Holds [] → context.encodedApiBaseUri = base → ∃ opTid cqueue req,
    cqueue.Holds [⟨true, opTid, body⟩] ∧
    processFakeRequest encodedPublicBaseUri context request.uri ⟨request.verb.toNat, request.body, []⟩ =
      some (0, { context with opTid, cqueue }, req)

/-- **A request that is accepted at once.** -/
def AcceptedAtOnce (D : Type) [Dimension D] (base encodedPublicBaseUri : Bytes) (request : LoggedRequest) : Prop :=
  ∃ body : OpBody D, BodyOk body ∧ AcceptedAs D base encodedPublicBaseUri request body

/-- **A request that is refused at every try.** -/
def RefusedForEver (D : Type) [Dimension D] (base encodedPublicBaseUri : Bytes) (request : LoggedRequest) : Prop :=
  ∀ (context : HttpHandlerContext D) inputBuffer, context.encodedApiBaseUri = base → Padded request.body inputBuffer →
    ∃ ret opTid inputBuffer', ret ≠ 0 ∧ Padded request.body inputBuffer' ∧
      processFakeRequest encodedPublicBaseUri context request.uri ⟨request.verb.toNat, inputBuffer, []⟩ =
        some (ret, { context with opTid }, ⟨request.verb.toNat, inputBuffer', []⟩)

variable {base encodedPublicBaseUri : Bytes} (qbounds : Rectangle2D D)

/-- The operation of a request that is accepted is worked on. -/
theorem fakeRequest_as {request : LoggedRequest} {body : OpBody D} (hbody : BodyOk body)
    (haccept : AcceptedAs D base encodedPublicBaseUri request body) {context : HttpHandlerContext D} {layers : Layers D}
    (hidle : Idle base context layers) {tries : Nat} (htries : 0 < tries) : ∃ context' layers',
      workerDoWork qbounds body layers = some layers' ∧
      fakeRequest encodedPublicBaseUri qbounds tries request context layers = some (.done (context', layers')) ∧
      Idle base context' layers' := by
  obtain ⟨opTid, cqueue, req, hq, hprocess⟩ := haccept context hidle.queue hidle.base
  obtain ⟨q, hshift, -, hq'⟩ := shiftCqueue_spec hq
  obtain ⟨layers', hwork, hok⟩ := hidle.store.work qbounds hbody
  obtain ⟨tries, rfl⟩ : ∃ n, tries = n + 1 := ⟨tries - 1, by omega⟩
  refine ⟨{ context with opTid, cqueue := q }, layers', hwork, ?_, hq', hidle.base, hidle.running, hok⟩
  unfold fakeRequest retryRequest workInMainThread
  simp only [hprocess, Option.bind_eq_bind, Option.bind_some, ne_eq, not_true_eq_false, if_false, hidle.running,
    Bool.false_eq_true, hshift, List.head?_cons, hwork, Option.map_some]

theorem fakeRequest_accepted {request : LoggedRequest} (h : AcceptedAtOnce D base encodedPublicBaseUri request)
    {context : HttpHandlerContext D} {layers : Layers D} (hidle : Idle base context layers) {tries : Nat}
    (htries : 0 < tries) : ∃ context' layers',
      fakeRequest encodedPublicBaseUri qbounds tries request context layers = some (.done (context', layers')) ∧
      Idle base context' layers' := by
  obtain ⟨body, hbody, haccept⟩ := h
  obtain ⟨context', layers', -, hfake, hidle'⟩ := fakeRequest_as qbounds hbody haccept hidle htries
  exact ⟨context', layers', hfake, hidle'⟩

theorem retryRequest_refused {request : LoggedRequest} (h : RefusedForEver D base encodedPublicBaseUri request) :
    ∀ (tries : Nat) (context : HttpHandlerContext D) (inputBuffer : Bytes), context.encodedApiBaseUri = base →
      Padded request.body inputBuffer → retryRequest encodedPublicBaseUri request.uri tries context
        ⟨request.verb.toNat, inputBuffer, []⟩ = some .waiting
  | 0, _, _, _, _ => rfl
  | tries + 1, context, inputBuffer, hbase, hpad => by
    obtain ⟨ret, opTid, inputBuffer', hret, hpad', hprocess⟩ := h context inputBuffer hbase hpad
    rw [retryRequest, hprocess]
    simp only [Option.bind_eq_bind, Option.bind_some, if_pos hret]
    exact retryRequest_refused h tries { context with opTid } inputBuffer' hbase hpad'

theorem fakeRequest_refused {request : LoggedRequest} (h : RefusedForEver D base encodedPublicBaseUri request)
    {context : HttpHandlerContext D} {layers : Layers D} (hidle : Idle base context layers) (tries : Nat) :
    fakeRequest encodedPublicBaseUri qbounds tries request context layers = some .waiting := by
  unfold fakeRequest
  rw [retryRequest_refused h tries context request.body hidle.base (.inl rfl)]
  rfl

/-- **The replay comes back exactly when no request is refused**; it aborts in no case. -/
theorem replayRequests_spec : ∀ {requests : List LoggedRequest} {context : HttpHandlerContext D} {layers : Layers D},
    (∀ request ∈ requests, AcceptedAtOnce D base encodedPublicBaseUri request ∨
      RefusedForEver D base encodedPublicBaseUri request) → Idle base context layers →
    ((∀ request ∈ requests, AcceptedAtOnce D base encodedPublicBaseUri request) → ∀ tries, 0 < tries →
      ∃ context' layers', replayRequests encodedPublicBaseUri qbounds tries requests context layers =
        some (.done (context', layers')) ∧ Idle base context' layers') ∧
    ((∃ request ∈ requests, RefusedForEver D base encodedPublicBaseUri request) → ∀ tries,
      replayRequests encodedPublicBaseUri qbounds tries requests context layers = some .waiting)
  | [], context, layers, _, hidle =>
    ⟨fun _ _ _ => ⟨context, layers, rfl, hidle⟩, fun ⟨_, hrequest, _⟩ => (nomatch hrequest)⟩
  | request :: requests, context, layers, hcases, hidle => by
    have hrest := fun r hr => hcases r (List.mem_cons_of_mem request hr)
    refine ⟨fun hall tries htries => ?_, fun ⟨refused, hmem, hrefused⟩ tries => ?_⟩
    · obtain ⟨context₁, layers₁, hfake, hidle₁⟩ :=
        fakeRequest_accepted qbounds (hall request List.mem_cons_self) hidle htries
      obtain ⟨context', layers', hreplay, hidle'⟩ := (replayRequests_spec hrest hidle₁).1
        (fun r hr => hall r (List.mem_cons_of_mem request hr)) tries htries
      refine ⟨context', layers', ?_, hidle'⟩
      rw [replayRequests, hfake]
      exact hreplay
    · rw [replayRequests]
      have hhead : RefusedForEver D base encodedPublicBaseUri request ∨
          AcceptedAtOnce D base encodedPublicBaseUri request ∧ refused ∈ requests := by
        rcases List.mem_cons.1 hmem with rfl | hmem
        · exact .inl hrefused
        · exact (hcases request List.mem_cons_self).symm.imp id (fun haccept => ⟨haccept, hmem⟩)
      rcases hhead with hforever | ⟨haccept, hmem⟩
      · rw [fakeRequest_refused qbounds hforever hidle]
        rfl
      · cases tries with
        | zero => rfl
        | succ tries =>
          obtain ⟨context₁, layers₁, hfake, hidle₁⟩ :=
            fakeRequest_accepted qbounds haccept hidle (Nat.succ_pos tries)
          rw [hfake]
          exact (replayRequests_spec hrest hidle₁).2 ⟨refused, hmem, hrefused⟩ _

/-- A replay that waits for ever does not come to what is behind. -/
theorem replayRequests_append {tries : Nat} (more : List LoggedRequest) :
    ∀ {requests : List LoggedRequest} {context : HttpHandlerContext D} {layers : Layers D},
      replayRequests encodedPublicBaseUri qbounds tries requests context layers = some .waiting →
      replayRequests encodedPublicBaseUri qbounds tries (requests ++ more) context layers = some .waiting
  | [], _, _, h => by cases h
  | request :: requests, context, layers, h => by
    rw [List.cons_append, replayRequests]
    rw [replayRequests] at h
    cases hfake : fakeRequest encodedPublicBaseUri qbounds tries request context layers with
    | none =>
      rw [hfake] at h
      cases h
    | some r =>
      rw [hfake] at h
      cases r with
      | waiting => rfl
      | done r => exact replayRequests_append more h

/-! ## What a rewrite has dumped -/

variable (context : DumpContext D)

/-- The request a layer is dumped as. -/
def layerRequest (layer : DumpedLayer D) : LoggedRequest := ⟨EVHTTP_REQ_POST, layerUri context (encode layer.name), []⟩

/-- The request a record is dumped as. -/
def recordRequest (layer : DumpedLayer D) (record : DumpedRecord D) : LoggedRequest :=
  ⟨EVHTTP_REQ_PUT, recordUri context (encode layer.name) record.key,
    rebuildJournalBody context record (encodeBody record.properties) record.properties.isEmpty⟩

theorem processFakeRequest_base {context : HttpHandlerContext D} (path : Bytes) (req : EvhttpRequest) :
    processFakeRequest encodedPublicBaseUri context (context.encodedApiBaseUri ++ path) req =
      match apiUri path with
      | none => some (-1, context, req)
      | some u => (domainHandler req context u true none).map (fun
        | none => (-1, context, req)
        | some r => if r.ret ≠ 0 then (-1, r.context, r.req) else (0, r.context, r.req)) := by
  unfold processFakeRequest processApiRequest
  rw [if_pos (List.isPrefixOf_iff_prefix.2 (List.prefix_append _ _)), List.drop_left]
  cases apiUri path with
  | none => rfl
  | some u =>
    refine congrArg (fun f => Option.map f (domainHandler req context u true none)) (funext fun o => ?_)
    cases o with
    | none => rfl
    | some r => simp only [endApiRequest, sendError, not_true_eq_false, false_and, if_false, if_true]

/-- **A dumped layer is created again.** -/
theorem layerRequest_as {layer : DumpedLayer D} (h : LayerName layer.name) : AcceptedAs D context.encodedApiBaseUri
    encodedPublicBaseUri (layerRequest context layer) (.layersCreate (layer.name ++ [0])) := by
  intro main hq hbase
  obtain ⟨opts, huri⟩ := apiUri_layerPath h
  obtain ⟨opTid, cqueue, hq', hqueue⟩ := queueOp_idle hq ⟨EVHTTP_REQ_POST, [], []⟩ true (.layersCreate (layer.name ++ [0])) true
  have hkey : newKeyFromCString layer.name = some (layer.name ++ [0]) := by
    unfold newKeyFromCString
    rw [Lib.cstr_of_not_mem h.nul, if_pos (List.length_pos_of_ne_nil h.ne_nil)]
  have hhandler : domainHandler ⟨EVHTTP_REQ_POST, [], []⟩ main ⟨bytes "layers", layer.name, opts⟩ true none =
      some (some ⟨0, { main with opTid, cqueue }, ⟨EVHTTP_REQ_POST, [], []⟩, true⟩) := by
    have hnotRecords : caseEq (bytes "records") (bytes "layers") = false := by decide
    have hnotSearch : caseEq (bytes "search") (bytes "layers") = false := by decide
    have hlayers : caseEq (bytes "layers") (bytes "layers") = true := by decide
    unfold domainHandler handleDomainLayers layersUri
    simp only [hnotRecords, hnotSearch, hlayers, if_true, Bool.false_eq_true, if_false]
    rw [if_neg (by decide), if_neg h.ne_nil, hkey, Option.bind_eq_bind, Option.bind_some, hqueue, Option.map_some]
  refine ⟨opTid, cqueue, ⟨EVHTTP_REQ_POST, [], []⟩, hq', ?_⟩
  have hpath : (layerRequest context layer).uri = main.encodedApiBaseUri ++ layerPath layer.name := by
    unfold layerRequest layerUri layerPath
    simp [hbase]
  rw [hpath, processFakeRequest_base, huri]
  simp only [layerRequest, Int.toNat_natCast, hhandler, Option.map_some, ne_eq, not_true_eq_false, if_false]

theorem layerRequest_accepted {layer : DumpedLayer D} (h : LayerName layer.name) :
    AcceptedAtOnce D context.encodedApiBaseUri encodedPublicBaseUri (layerRequest context layer) :=
  ⟨.layersCreate (layer.name ++ [0]), ⟨layer.name, rfl, h⟩, layerRequest_as context h⟩

variable (D) in
/-- **A record that can be read again**: its key still has an extension behind it once it is decoded, and every property is
a pair that a PUT takes. -/
def RecordReadable (record : DumpedRecord D) : Prop :=
  (rereadKey record.key).isSome = true ∧ ∀ p ∈ record.properties, PairReadable D p

/-- The key a record comes back under is a key. -/
theorem rereadKey_names {layer key stem : Bytes} (h : RecordNames layer key) (hstem : rereadKey key = some stem) :
    RecordNames layer stem := by
  obtain ⟨⟨stem', tail⟩, hstrip, rfl⟩ := Option.map_eq_some_iff.1 hstem
  obtain ⟨hnul, hmark⟩ := not_mem_extractOpts (evhttpDecodeUri (key ++ bytes ".json"))
  obtain ⟨heq, hne, -, hcase⟩ := (stripExt_eq_some_iff hnul).1 hstrip
  have hlen := (length_extractOpts_le (evhttpDecodeUri (key ++ bytes ".json"))).trans (length_decode_le false _)
  rw [heq] at hnul hmark hlen
  rw [List.mem_append, not_or] at hnul hmark
  have htail := (caseEq_ext hnul.2 hcase).1
  have hmax := h.length
  rw [List.length_append, List.length_append, show (bytes ".json").length = 5 from rfl] at hlen
  exact ⟨h.layer_ne_nil, h.layer_nul, h.layer_mark, h.layer_slash, hne, hnul.1, hmark.1, by simp only; omega⟩

/-- A record goes to the handler of records. -/
theorem domainHandler_records (req : EvhttpRequest) (main : HttpHandlerContext D) (uriPart : Bytes) (opts : Option Bytes)
    (fakeReq : Bool) (fork : Option Nat) : domainHandler req main ⟨bytes "records", uriPart, opts⟩ fakeReq fork =
      (handleDomainRecords req main uriPart opts fakeReq).map some := by
  unfold domainHandler
  rw [if_pos (show caseEq (bytes "records") (bytes "records") = true by decide)]

/-- A PUT on a record whose URI has a layer and a key. -/
theorem handleDomainRecords_put {main : HttpHandlerContext D} {uri inputBuffer : Bytes} {replies : List Int}
    {opts : Option Bytes} {fakeReq : Bool} {layerName key : Key} (h : recordsUri uri = some (.ok (layerName, key))) :
    handleDomainRecords ⟨EVHTTP_REQ_PUT, inputBuffer, replies⟩ main uri opts fakeReq =
      recordsPut main ⟨EVHTTP_REQ_PUT, inputBuffer, replies⟩ fakeReq layerName key := by
  have hget : EVHTTP_REQ_PUT ≠ EVHTTP_REQ_GET := by decide
  unfold handleDomainRecords
  simp only [or_true, true_or, if_true, h, Option.bind_eq_bind, Option.bind_some, if_neg hget]

theorem handleDomainRecords_put_error {main : HttpHandlerContext D} {uri inputBuffer : Bytes} {replies : List Int}
    {opts : Option Bytes} {fakeReq : Bool} {ret : Int} (h : recordsUri uri = some (.error ret)) :
    handleDomainRecords ⟨EVHTTP_REQ_PUT, inputBuffer, replies⟩ main uri opts fakeReq =
      some ⟨ret, main, ⟨EVHTTP_REQ_PUT, inputBuffer, replies⟩, false⟩ := by
  unfold handleDomainRecords
  simp only [or_true, true_or, if_true, h, Option.bind_eq_bind, Option.bind_some]

omit [Dimension D] in
theorem recordRequest_uri {main : HttpHandlerContext D} (hbase : main.encodedApiBaseUri = context.encodedApiBaseUri)
    (layer : DumpedLayer D) (record : DumpedRecord D) :
    (recordRequest context layer record).uri = main.encodedApiBaseUri ++ recordPath layer.name record.key := by
  unfold recordRequest recordUri recordPath
  simp [hbase]

variable {context}

variable (context) in
/-- **The operation that a dumped record is put again with**, if its request is not refused. -/
def restoredOp (layer : DumpedLayer D) (record : DumpedRecord D) : Option (RecordsPutOp D) := do
  let stem ← rereadKey record.key
  let (ret, putOp) ← readBack recordsPutOptParseCb (record.properties ++ fieldPairs context record)
    (recordsPutOp (layer.name ++ [0]) (stem ++ [0]))
  if ret = 0 then some putOp else none

theorem restoredOp_eq_some {layer : DumpedLayer D} {record : DumpedRecord D} {putOp : RecordsPutOp D} :
    restoredOp context layer record = some putOp ↔ ∃ stem, rereadKey record.key = some stem ∧
      readBack recordsPutOptParseCb (record.properties ++ fieldPairs context record)
        (recordsPutOp (layer.name ++ [0]) (stem ++ [0])) = some (0, putOp) := by
  unfold restoredOp
  simp only [Option.bind_eq_bind, Option.bind_eq_some_iff]
  refine exists_congr (fun stem => and_congr_right (fun _ => ⟨?_, fun h => ⟨(0, putOp), h, if_pos rfl⟩⟩))
  rintro ⟨⟨ret, putOp'⟩, hread, h⟩
  dsimp only at h
  split at h
  · rename_i hret
    cases h
    rw [hread, hret]
  · cases h

/-- **A record that is readable is put again.** -/
theorem RecordReadable.restored (hprint : ∀ d, PrintedNumber D (context.printDouble d)) {record : DumpedRecord D}
    (h : RecordReadable D record) (hlen : ∀ p ∈ record.properties, pairLength p ≤ 0xffff) (layer : DumpedLayer D) :
    ∃ putOp, restoredOp context layer record = some putOp := by
  obtain ⟨stem, hstem⟩ := Option.isSome_iff_exists.1 h.1
  obtain ⟨ret, putOp, hread, hret⟩ := readBack_dumped hprint hlen (layer.name ++ [0]) (stem ++ [0])
  rw [hret.2 h.2] at hread
  exact ⟨putOp, restoredOp_eq_some.2 ⟨stem, hstem, hread⟩⟩

/-- **The operation of a record that is put again** is one that a PUT can queue. -/
theorem restoredOp_ok (hprint : ∀ d, PrintedNumber D (context.printDouble d)) {layer : DumpedLayer D}
    {record : DumpedRecord D} (hnames : RecordNames layer.name record.key) {putOp : RecordsPutOp D}
    (h : restoredOp context layer record = some putOp) : BodyOk (.recordsPut putOp) := by
  obtain ⟨stem, hstem, hread⟩ := restoredOp_eq_some.1 h
  have hparse := (queryParse_body hprint record [] (recordsPutOp (layer.name ++ [0]) (stem ++ [0]))).trans hread
  obtain ⟨hok, hlayer, hkey⟩ := queryParse_putOp hparse
  exact ⟨hok, by rw [hlayer, hkey]; exact ⟨layer.name, stem, rfl, rfl, rereadKey_names hnames hstem⟩⟩

/-- **The request of a record that is put again.** -/
theorem recordRequest_as (hprint : ∀ d, PrintedNumber D (context.printDouble d)) {layer : DumpedLayer D}
    {record : DumpedRecord D} (hnames : RecordNames layer.name record.key) {putOp : RecordsPutOp D}
    (h : restoredOp context layer record = some putOp) :
    AcceptedAs D context.encodedApiBaseUri encodedPublicBaseUri (recordRequest context layer record) (.recordsPut putOp) := by
  intro main hq hbase
  obtain ⟨stem, hstem, hread⟩ := restoredOp_eq_some.1 h
  have hnames' := rereadKey_names hnames hstem
  obtain ⟨opts, huri⟩ := apiUri_recordPath hnames hstem
  have hparse := (queryParse_body hprint record [] (recordsPutOp (layer.name ++ [0]) (stem ++ [0]))).trans hread
  obtain ⟨body, hbody⟩ : ∃ body, body = rebuildJournalBody context record (encodeBody record.properties)
    record.properties.isEmpty := ⟨_, rfl⟩
  rw [← hbody] at hparse
  obtain ⟨opTid, cqueue, hq', hqueue⟩ := queueOp_idle hq ⟨EVHTTP_REQ_PUT, body ++ [0], []⟩ true (.recordsPut putOp) true
  have hhandler : handleDomainRecords ⟨EVHTTP_REQ_PUT, body, []⟩ main (layer.name ++ 47 :: stem) opts true =
      some ⟨0, { main with opTid, cqueue }, ⟨EVHTTP_REQ_PUT, body ++ [0], []⟩, true⟩ := by
    rw [handleDomainRecords_put (recordsUri_append ⟨hnames.layer_ne_nil, hnames'.key_ne_nil⟩
      ⟨hnames.layer_nul, hnames'.key_nul⟩ hnames.layer_slash)]
    unfold recordsPut
    simp only [hparse, Option.bind_eq_bind, Option.bind_some, ne_eq, not_true_eq_false, if_false, hqueue]
  refine ⟨opTid, cqueue, ⟨EVHTTP_REQ_PUT, body ++ [0], []⟩, hq', ?_⟩
  rw [recordRequest_uri context hbase, processFakeRequest_base, huri]
  simp only [recordRequest, Int.toNat_natCast, ← hbody, domainHandler_records, hhandler, Option.map_some, ne_eq,
    not_true_eq_false, if_false]

/-- **A dumped record is put again exactly when it is readable**; otherwise every try is refused. -/
theorem recordRequest_accepted (hprint : ∀ d, PrintedNumber D (context.printDouble d)) {layer : DumpedLayer D}
    {record : DumpedRecord D} (hnames : RecordNames layer.name record.key)
    (hlen : ∀ p ∈ record.properties, pairLength p ≤ 0xffff) (h : RecordReadable D record) :
    AcceptedAtOnce D context.encodedApiBaseUri encodedPublicBaseUri (recordRequest context layer record) := by
  obtain ⟨putOp, hop⟩ := h.restored hprint hlen layer
  exact ⟨.recordsPut putOp, restoredOp_ok hprint hnames hop, recordRequest_as hprint hnames hop⟩

theorem recordRequest_refused (hprint : ∀ d, PrintedNumber D (context.printDouble d)) {layer : DumpedLayer D}
    {record : DumpedRecord D} (hnames : RecordNames layer.name record.key)
    (hlen : ∀ p ∈ record.properties, pairLength p ≤ 0xffff) (h : ¬ RecordReadable D record) :
    RefusedForEver D context.encodedApiBaseUri encodedPublicBaseUri (recordRequest context layer record) := by
  intro main inputBuffer hbase hpad
  rw [recordRequest_uri context hbase, processFakeRequest_base]
  rcases hstem : rereadKey record.key with _ | stem
  · rcases apiUri_recordPath_none hnames hstem with huri | ⟨opts, huri⟩
    · exact ⟨-1, main.opTid, inputBuffer, by decide, hpad, by rw [huri]⟩
    · refine ⟨-1, main.opTid, inputBuffer, by decide, hpad, ?_⟩
      have hhandler : handleDomainRecords ⟨EVHTTP_REQ_PUT, inputBuffer, []⟩ main (layer.name ++ [47]) opts true =
          some ⟨HTTP_NOTFOUND, main, ⟨EVHTTP_REQ_PUT, inputBuffer, []⟩, false⟩ :=
        handleDomainRecords_put_error (recordsUri_no_key hnames.layer_ne_nil hnames.layer_nul hnames.layer_slash)
      rw [huri]
      simp only [recordRequest, Int.toNat_natCast, domainHandler_records, hhandler, Option.map_some]
      rw [if_pos (by decide)]
  · have hnames' := rereadKey_names hnames hstem
    obtain ⟨opts, huri⟩ := apiUri_recordPath hnames hstem
    obtain ⟨t, ht⟩ := hpad.snoc
    obtain ⟨ret, putOp, hread, hret⟩ := readBack_dumped hprint hlen (layer.name ++ [0]) (stem ++ [0])
    have hne : ret ≠ 0 := fun hzero => h ⟨by rw [hstem]; rfl, hret.1 hzero⟩
    have hparse := (queryParse_body hprint record t (recordsPutOp (layer.name ++ [0]) (stem ++ [0]))).trans hread
    change queryParse ((recordRequest context layer record).body ++ 0 :: t) _ _ = _ at hparse
    rw [← ht] at hparse
    have hhandler : handleDomainRecords ⟨EVHTTP_REQ_PUT, inputBuffer, []⟩ main (layer.name ++ 47 :: stem) opts true =
        some ⟨HTTP_BADREQUEST, { main with opTid := main.opTid + 1 }, ⟨EVHTTP_REQ_PUT, inputBuffer ++ [0], []⟩, false⟩ := by
      rw [handleDomainRecords_put (recordsUri_append ⟨hnames.layer_ne_nil, hnames'.key_ne_nil⟩
        ⟨hnames.layer_nul, hnames'.key_nul⟩ hnames.layer_slash)]
      unfold recordsPut
      simp only [hparse, Option.bind_eq_bind, Option.bind_some, if_pos hne]
    refine ⟨-1, main.opTid + 1, inputBuffer ++ [0], by decide, .inr ⟨t, ht⟩, ?_⟩
    rw [huri]
    simp only [recordRequest, Int.toNat_natCast, domainHandler_records, hhandler, Option.map_some]
    rw [if_pos (by decide)]

/-! ## What was logged behind the dump -/

/-- **A call of `add_to_db_log` for a request that queued a mutation.** -/
def AcceptedCall (D : Type) [Dimension D] (base : Bytes) (call : LogCall) : Prop :=
  ∃ (context context' : HttpHandlerContext D) (req req' : EvhttpRequest) (fork : Option Nat) (ret : Int) (l : List (Op D))
    (op : Op D), context.encodedApiBaseUri = base ∧ base <+: call.uri ∧
    processApiRequest context call.uri req false fork = some (ret, context', req') ∧ context.cqueue.Holds l ∧
    context'.cqueue.Holds (l ++ [op]) ∧ op.body.mutates = true ∧ call.verb = req.type ∧ call.body = handledBody req

/-- The handler of a request that queued a mutation asked for a record. -/
theorem processApiRequest_logged {context context' : HttpHandlerContext D} {uri : Bytes} {req req' : EvhttpRequest}
    {fork : Option Nat} {ret : Int} {l : List (Op D)} {op : Op D}
    (h : processApiRequest context uri req false fork = some (ret, context', req')) (hl : context.cqueue.Holds l)
    (hl' : context'.cqueue.Holds (l ++ [op])) (hm : op.body.mutates = true) :
    ∃ u r, apiUri (uri.drop context.encodedApiBaseUri.length) = some u ∧
      domainHandler req context u false fork = some (some r) ∧ r.writeToLog = true ∧ r.req.type = req.type ∧
      r.req.inputBuffer = handledBody req := by
  have hsame : context'.cqueue ≠ context.cqueue := fun he => by
    have := (he ▸ hl').unique hl
    simp at this
  unfold processApiRequest at h
  split at h
  · cases h
    exact absurd rfl hsame
  · rename_i u hu
    obtain ⟨o, ho, h⟩ := Option.map_eq_some_iff.1 h
    cases o with
    | none =>
      cases h
      exact absurd rfl hsame
    | some r =>
      have hkept := endApiRequest_cqueue uri false r
      simp only at h
      rw [h] at hkept
      simp only at hkept
      rw [hkept] at hsame hl'
      refine ⟨u, r, hu, ho, ?_⟩
      cases domainHandler_spec ho with
      | unqueued hq _ => exact absurd hq hsame
      | queued body opTid _ hlog hpush _ hreq =>
        obtain ⟨q, ret', hpush', -, hcase⟩ := pushCqueue_spec hl ⟨false, opTid, body⟩
        rw [hpush, Option.some.injEq, Prod.mk.injEq] at hpush'
        obtain ⟨rfl, rfl⟩ := hpush'
        rcases hcase with ⟨-, -, hq⟩ | ⟨-, hneg, -⟩
        · have hop := hl'.unique hq
          simp only [List.append_cancel_left_eq, List.cons.injEq, and_true] at hop
          subst hop
          exact ⟨hlog.trans hm, hreq.1, hreq.2 hm⟩
        · cases hneg

/-- **What was accepted once is accepted again.** -/
theorem AcceptedCall.again {call : LogCall} (h : AcceptedCall D base call) :
    AcceptedAtOnce D base encodedPublicBaseUri call.logged := by
  obtain ⟨context, context', req, req', fork, ret, l, op, rfl, ⟨path, hpath⟩, hreq, hl, hl', hm, hverb, hbody⟩ := h
  obtain ⟨u, r, hu, ho, hlog, htype, hinput⟩ := processApiRequest_logged hreq hl hl' hm
  rw [← hpath, List.drop_left] at hu
  obtain ⟨body, -, hok, -, -, hagain⟩ := domainHandler_requeues hu ho hlog none
  refine ⟨body, hok, fun main hq hbase => ?_⟩
  obtain ⟨req'', hqueue⟩ := hagain main [] true
  obtain ⟨opTid, cqueue, hq', hidle⟩ := queueOp_idle hq req'' true body true
  simp only [hidle, Option.join_eq_some_iff] at hqueue
  refine ⟨opTid, cqueue, req'', hq', ?_⟩
  rw [show call.logged.uri = main.encodedApiBaseUri ++ path from hbase ▸ hpath.symm, processFakeRequest_base, hu]
  have hrequest : (⟨call.logged.verb.toNat, call.logged.body, []⟩ : EvhttpRequest) =
      ⟨req.type, loggedBody r.req.inputBuffer, []⟩ := by
    simp only [LogCall.logged, Int.toNat_natCast, hverb, hbody, hinput]
  rw [hrequest]
  simp only [hqueue, Option.map_some, ne_eq, not_true_eq_false, if_false]

end

end Pincaster
