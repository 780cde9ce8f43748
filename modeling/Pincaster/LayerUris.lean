import Pincaster.Answers
import Pincaster.Serving
/-!
# LayerUris — the URIs that create and delete layers

A layer is created by a POST of `layers/NAME.json` and deleted by a DELETE of it.  `layer_uris_iff` says for which paths
the dispatcher tells these URIs from all others.
-/
namespace Pincaster

open Lib (Bytes bytes caseEq cstr strchr)

variable {D : Type}

/-- The path of a request: the decoded URI without the options. -/
def decodedPath (encodedUri : Bytes) : Bytes := (extractOpts (evhttpDecodeUri encodedUri)).1

/-- **The path of a layer**: `layers/`, the name and `.json`. -/
def LayerPath (path layer : Bytes) : Prop :=
  ∃ domain ext, path = domain ++ 47 :: (layer ++ ext) ∧ caseEq (bytes "layers") domain = true ∧ layer ≠ [] ∧
    caseEq ext (bytes ".json") = true

/-- The creation of a layer for a POST, its deletion for a DELETE. -/
def layerOp (type : Nat) (layerName : Key) : OpBody D :=
  if type = EVHTTP_REQ_POST then .layersCreate layerName else .layersDelete layerName

def OpBody.onLayers : OpBody D → Bool
  | .layersCreate _ | .layersDelete _ => true
  | _ => false

theorem onLayers_layerOp (type : Nat) (layerName : Key) : (layerOp type layerName : OpBody D).onLayers = true := by
  unfold layerOp
  split <;> rfl

/-! ## Paths -/

theorem map_tolower_of_caseEq {s t : Bytes} (hs : (0 : UInt8) ∉ s) (ht : (0 : UInt8) ∉ t) (h : caseEq s t = true) :
    s.map Lib.tolower = t.map Lib.tolower := by
  have heq := of_decide_eq_true h
  rwa [Lib.cstr_of_not_mem hs, Lib.cstr_of_not_mem ht] at heq

/-- A name that is a constant without a slash has none. -/
theorem slash_not_mem_of_caseEq {s t : Bytes} (hs : (0 : UInt8) ∉ s) (ht : (0 : UInt8) ∉ t)
    (hslash : (47 : UInt8) ∉ s.map Lib.tolower) (h : caseEq s t = true) : (47 : UInt8) ∉ t := fun hmem => by
  have hmem' := List.mem_map_of_mem (f := Lib.tolower) hmem
  rw [← map_tolower_of_caseEq hs ht h] at hmem'
  exact hslash hmem'

/-- **What the dispatcher finds in a path** that has the extension: what stands before and behind the first slash, or,
without a slash, the extension without its dot. -/
theorem apiUri_path {encodedUri : Bytes} {u : ApiUri} (h : apiUri encodedUri = some u) :
    ∃ ext, caseEq ext (bytes ".json") = true ∧ (47 : UInt8) ∉ u.domain ∧
      (decodedPath encodedUri = u.domain ++ 47 :: (u.uriPart ++ ext) ∨
        decodedPath encodedUri = u.domain ++ ext ∧ u.uriPart = ext.tail) := by
  obtain ⟨hnul, -⟩ := not_mem_extractOpts (evhttpDecodeUri encodedUri)
  unfold apiUri at h
  obtain ⟨⟨stem, ext⟩, hstrip, h⟩ := Option.bind_eq_some_iff.1 h
  obtain ⟨heq, -, -, hcase⟩ := (stripExt_eq_some_iff hnul).1 hstrip
  have hstem : (0 : UInt8) ∉ stem := fun hmem => hnul (heq ▸ List.mem_append_left _ hmem)
  simp only at h
  split at h
  · rename_i domain uriPart hchr
    cases h
    obtain ⟨rfl, hslash⟩ := strchr_eq_some hstem hchr
    exact ⟨ext, hcase, hslash, .inl (by rw [decodedPath, heq, List.append_assoc, List.cons_append])⟩
  · rename_i hchr
    cases h
    refine ⟨ext, hcase, fun hmem => ?_, .inr ⟨heq, rfl⟩⟩
    unfold strchr at hchr
    rw [Lib.cstr_of_not_mem hstem, if_pos hmem] at hchr
    cases hchr

/-- A path that is not too long has no extension when it is refused. -/
theorem apiUri_none {encodedUri : Bytes} (h : apiUri encodedUri = none)
    (hlen : (decodedPath encodedUri).length ≤ MAX_URI_LEN) {stem ext : Bytes} (hne : stem ≠ [])
    (hcase : caseEq ext (bytes ".json") = true) : decodedPath encodedUri ≠ stem ++ ext := fun heq => by
  obtain ⟨hnul, -⟩ := not_mem_extractOpts (evhttpDecodeUri encodedUri)
  have hstrip := (stripExt_eq_some_iff hnul).2 ⟨heq, hne, hlen, hcase⟩
  unfold apiUri at h
  simp only [hstrip, Option.bind_eq_bind, Option.bind_some] at h
  split at h <;> cases h

/-- The first slash and the extension take a path apart in one way. -/
theorem layerPath_iff {domain uriPart ext : Bytes} (layer : Bytes)
    (hnul : (0 : UInt8) ∉ domain ++ 47 :: (uriPart ++ ext)) (hslash : (47 : UInt8) ∉ domain)
    (hcase : caseEq ext (bytes ".json") = true) :
    LayerPath (domain ++ 47 :: (uriPart ++ ext)) layer ↔
      caseEq (bytes "layers") domain = true ∧ layer = uriPart ∧ uriPart ≠ [] := by
  constructor
  · rintro ⟨domain', ext', heq, hdomain, hne, hcase'⟩
    have hnul' := heq ▸ hnul
    simp only [List.mem_append, List.mem_cons, not_or] at hnul'
    have hslash' := slash_not_mem_of_caseEq (by decide) hnul'.1 (by decide) hdomain
    have hsplit := (strchr_append hslash hnul).symm.trans (heq ▸ strchr_append hslash' (heq ▸ hnul))
    obtain ⟨rfl, htail⟩ := Prod.mk.injEq .. ▸ Option.some.inj hsplit
    simp only [List.mem_append, List.mem_cons, not_or] at hnul
    have hlen := (caseEq_ext hnul.2.2.2 hcase).1.trans (caseEq_ext hnul'.2.2.2 hcase').1.symm
    obtain ⟨rfl, -⟩ := List.append_inj' htail hlen
    exact ⟨hdomain, rfl, hne⟩
  · rintro ⟨hdomain, rfl, hne⟩
    exact ⟨domain, ext, rfl, hdomain, hne, hcase⟩

/-- The path without the slash: the domain and the extension. -/
theorem layersJson_iff {path : Bytes} (hnul : (0 : UInt8) ∉ path) : caseEq path (bytes "layers.json") = true ↔
    ∃ domain ext, path = domain ++ ext ∧ caseEq (bytes "layers") domain = true ∧ caseEq ext (bytes ".json") = true := by
  have hname : (bytes "layers.json").map Lib.tolower = bytes "layers" ++ bytes ".json" := by decide
  constructor
  · intro h
    have hmap := map_tolower_of_caseEq hnul (by decide) h
    rw [hname] at hmap
    obtain ⟨domain, ext, rfl, hdomain, hext⟩ := List.map_eq_append_iff.1 hmap
    simp only [List.mem_append, not_or] at hnul
    refine ⟨domain, ext, rfl, decide_eq_true ?_, decide_eq_true ?_⟩
    · rw [Lib.cstr_of_not_mem hnul.1, hdomain]
      decide
    · rw [Lib.cstr_of_not_mem hnul.2, hext]
      decide
  · rintro ⟨domain, ext, rfl, hdomain, hext⟩
    have hnul' := hnul
    simp only [List.mem_append, not_or] at hnul'
    refine decide_eq_true ?_
    rw [Lib.cstr_of_not_mem hnul, List.map_append, ← map_tolower_of_caseEq (by decide) hnul'.1 hdomain,
      map_tolower_of_caseEq hnul'.2 (by decide) hext]
    decide

theorem slash_not_mem_layersJson {path : Bytes} (hnul : (0 : UInt8) ∉ path)
    (h : caseEq path (bytes "layers.json") = true) : (47 : UInt8) ∉ path := by
  obtain ⟨domain, ext, rfl, hdomain, hcase⟩ := (layersJson_iff hnul).1 h
  simp only [List.mem_append, not_or] at hnul ⊢
  exact ⟨slash_not_mem_of_caseEq (by decide) hnul.1 (by decide) hdomain, (caseEq_ext hnul.2 hcase).2⟩

theorem not_layerPath_of_slash {path layer : Bytes} (h : (47 : UInt8) ∉ path) : ¬ LayerPath path layer := by
  rintro ⟨domain, ext, rfl, -⟩
  simp at h

/-! ## What the handlers queue -/

/-- The queue is as it was, or has one more operation, which is not on layers. -/
def QueuesElse (context : HttpHandlerContext D) (r : HandlerResult D) : Prop :=
  r.context.cqueue = context.cqueue ∨
    ∃ op : Op D, op.body.onLayers = false ∧ pushCqueue context.cqueue op = some (r.context.cqueue, 0)

theorem queueOp_queuesElse {context : HttpHandlerContext D} {req : EvhttpRequest} {fakeReq : Bool} {body : OpBody D}
    {writeToLog : Bool} {r : HandlerResult D} (hbody : body.onLayers = false)
    (h : queueOp context req fakeReq body writeToLog = some r) : QueuesElse context r := by
  rcases queueOp_pushed h with hq | ⟨op, rfl, hpush⟩
  · exact .inl hq
  · exact .inr ⟨op, hbody, hpush⟩

theorem handleDomainSystem_queuesElse {context : HttpHandlerContext D} {req : EvhttpRequest} {uri : Bytes}
    {fakeReq : Bool} {fork : Option Nat} {r : HandlerResult D}
    (h : handleDomainSystem req context uri fakeReq fork = some r) : QueuesElse context r := by
  unfold handleDomainSystem at h
  split at h
  · exact queueOp_queuesElse rfl h
  · split at h
    · cases h
      exact .inl rfl
    · split at h
      · obtain ⟨⟨ret, context'⟩, hrewrite, rfl⟩ := Option.map_eq_some_iff.1 h
        have hq := handleSpecialOpSystemRewrite_cqueue hrewrite
        exact .inl hq
      · cases h
        exact .inl rfl

/-- No POST and no DELETE of the records domain is about layers. -/
theorem handleDomainRecords_queuesElse [Dimension D] {context : HttpHandlerContext D} {req : EvhttpRequest}
    {uri : Bytes} {opts : Option Bytes} {fakeReq : Bool} {r : HandlerResult D}
    (htype : req.type = EVHTTP_REQ_POST ∨ req.type = EVHTTP_REQ_DELETE)
    (h : handleDomainRecords req context uri opts fakeReq = some r) : QueuesElse context r := by
  have hget : req.type ≠ EVHTTP_REQ_GET := by rcases htype with h | h <;> rw [h] <;> decide
  have hput : req.type ≠ EVHTTP_REQ_PUT := by rcases htype with h | h <;> rw [h] <;> decide
  unfold handleDomainRecords at h
  split at h
  · obtain ⟨(ret | ⟨layerName, key⟩), -, h⟩ := Option.bind_eq_some_iff.1 h
    · cases h
      exact .inl rfl
    · exact queueOp_queuesElse rfl h
  · cases h
    exact .inl rfl

/-- A search is a GET. -/
theorem handleDomainSearch_queuesElse [Dimension D] {context : HttpHandlerContext D} {req : EvhttpRequest} {uri : Bytes}
    {opts : Option Bytes} {fakeReq : Bool} {r : HandlerResult D}
    (htype : req.type = EVHTTP_REQ_POST ∨ req.type = EVHTTP_REQ_DELETE)
    (h : handleDomainSearch req context uri opts fakeReq = some r) : QueuesElse context r := by
  have hget : req.type ≠ EVHTTP_REQ_GET := by rcases htype with h | h <;> rw [h] <;> decide
  unfold handleDomainSearch at h
  rw [if_pos hget] at h
  cases h
  exact .inl rfl

/-! ## One request -/

/-- The domains that are not `layers`. -/
def OtherDomain (u : ApiUri) : Prop :=
  caseEq (bytes "records") u.domain = true ∨ caseEq (bytes "search") u.domain = true ∨
    caseEq (bytes "system") u.domain = true

/-- The operation on the layer was queued behind the operations `l`. -/
def QueuesLayerOp (l : List (Op D)) (type : Nat) (fakeReq : Bool) (layer : Bytes)
    (r : Int × HttpHandlerContext D × EvhttpRequest) : Prop :=
  ∃ opTid, r.2.1.cqueue.Holds (l ++ [⟨fakeReq, opTid, layerOp type (layer ++ [0])⟩])

/-- The request was answered with an error, unless it is fake, and nothing was queued. -/
def Refused (context : HttpHandlerContext D) (req : EvhttpRequest) (fakeReq : Bool)
    (r : Int × HttpHandlerContext D × EvhttpRequest) : Prop :=
  r.1 = -1 ∧ r.2.1.cqueue = context.cqueue ∧
    (fakeReq = false → ∃ status, status ≠ 0 ∧ r.2.2.replies = req.replies ++ [status])

/-- **Layer URIs are recognised exactly**: an operation on a layer is queued for the path of the layer, and every other
path goes to another domain or is refused. -/
def LayerUrisExact [Dimension D] (context : HttpHandlerContext D) (l : List (Op D)) (uri : Bytes) (req : EvhttpRequest)
    (fakeReq : Bool) (fork : Option Nat) : Prop :=
  let encodedUri := uri.drop context.encodedApiBaseUri.length
  (∀ layer, (∃ r, processApiRequest context uri req fakeReq fork = some r ∧
      QueuesLayerOp l req.type fakeReq layer r) ↔ LayerPath (decodedPath encodedUri) layer) ∧
    ((∀ layer, ¬ LayerPath (decodedPath encodedUri) layer) → (∃ u, apiUri encodedUri = some u ∧ OtherDomain u) ∨
      ∃ r, processApiRequest context uri req fakeReq fork = some r ∧ Refused context req fakeReq r)

theorem not_queuesLayerOp {context : HttpHandlerContext D} {l : List (Op D)} (hl : context.cqueue.Holds l) {type : Nat}
    {fakeReq : Bool} {layer : Bytes} {r : Int × HttpHandlerContext D × EvhttpRequest}
    (hq : r.2.1.cqueue = context.cqueue) : ¬ QueuesLayerOp l type fakeReq layer r := by
  rintro ⟨opTid, hholds⟩
  have heq := (hq ▸ hholds).unique hl
  simp at heq

/-- An operation of another kind is not the one on the layer. -/
theorem QueuesElse.not_queuesLayerOp {context : HttpHandlerContext D} {l : List (Op D)} (hl : context.cqueue.Holds l)
    {uri : Bytes} {type : Nat} {fakeReq : Bool} {layer : Bytes} {r : HandlerResult D} (h : QueuesElse context r) :
    ¬ QueuesLayerOp l type fakeReq layer (endApiRequest uri fakeReq r) := by
  have hqueue := endApiRequest_cqueue uri fakeReq r
  rcases h with hq | ⟨op, hop, hpush⟩
  · exact Pincaster.not_queuesLayerOp hl (hqueue.trans hq)
  · rintro ⟨opTid, hholds⟩
    have heq := (pushed_holds hpush hl).unique (hqueue ▸ hholds)
    obtain ⟨rfl⟩ := List.append_cancel_left heq
    rw [onLayers_layerOp] at hop
    cases hop

theorem sendError_refused {context context' : HttpHandlerContext D} {req : EvhttpRequest} {fakeReq : Bool}
    {status : Int} (hq : context'.cqueue = context.cqueue) (hstatus : status ≠ 0) :
    Refused context req fakeReq (sendError context' req fakeReq status) := by
  refine ⟨rfl, hq, fun hfake => ⟨status, hstatus, ?_⟩⟩
  subst hfake
  rfl

/-- **The layers domain**: a POST or a DELETE is refused for an empty name, and queued for any other. -/
theorem handleDomainLayers_cases {context : HttpHandlerContext D} {req : EvhttpRequest} {uriPart : Bytes}
    {fakeReq : Bool} (htype : req.type = EVHTTP_REQ_POST ∨ req.type = EVHTTP_REQ_DELETE)
    (hnul : (0 : UInt8) ∉ uriPart) :
    handleDomainLayers req context uriPart fakeReq =
      if uriPart = [] then some ⟨HTTP_NOTFOUND, context, req, false⟩
      else queueOp context req fakeReq (layerOp req.type (uriPart ++ [0])) true := by
  have hkey : uriPart ≠ [] → newKeyFromCString uriPart = some (uriPart ++ [0]) := fun hne => by
    unfold newKeyFromCString
    rw [Lib.cstr_of_not_mem hnul, if_pos (List.length_pos_of_ne_nil hne)]
  have hlayers : ∀ body : Key → OpBody D, layersUri context req uriPart fakeReq body =
      if uriPart = [] then some ⟨HTTP_NOTFOUND, context, req, false⟩
      else queueOp context req fakeReq (body (uriPart ++ [0])) true := fun body => by
    unfold layersUri
    split
    · rfl
    · rename_i hne
      rw [hkey hne]
      rfl
  have hget : req.type ≠ EVHTTP_REQ_GET := by rcases htype with h | h <;> rw [h] <;> decide
  unfold handleDomainLayers layerOp
  rw [if_neg hget]
  rcases htype with hpost | hdelete
  · rw [if_pos hpost, if_pos hpost]
    exact hlayers .layersCreate
  · have hpost : req.type ≠ EVHTTP_REQ_POST := by rw [hdelete]; decide
    rw [if_neg hpost, if_pos hdelete, if_neg hpost]
    exact hlayers .layersDelete

/-- With room in the queue the operation is pushed. -/
theorem queueOp_room {context : HttpHandlerContext D} {l : List (Op D)} (hl : context.cqueue.Holds l)
    (hroom : l.length < context.cqueue.cqueueEnd + 1) (req : EvhttpRequest) (fakeReq : Bool) (body : OpBody D)
    (writeToLog : Bool) : ∃ r, queueOp context req fakeReq body writeToLog = some r ∧
      r.context.cqueue.Holds (l ++ [⟨fakeReq, context.opTid + 1, body⟩]) := by
  obtain ⟨q, ret, hpush, -, hcase⟩ := pushCqueue_spec hl (⟨fakeReq, context.opTid + 1, body⟩ : Op D)
  rcases hcase with ⟨-, rfl, hholds⟩ | ⟨hfull, -⟩
  · simp only [queueOp]
    rw [hpush]
    exact ⟨_, rfl, hholds⟩
  · omega

section
variable [Dimension D]

theorem processApiRequest_none {context : HttpHandlerContext D} {uri : Bytes} {req : EvhttpRequest} {fakeReq : Bool}
    {fork : Option Nat} (h : apiUri (uri.drop context.encodedApiBaseUri.length) = none) :
    processApiRequest context uri req fakeReq fork = some (sendError context req fakeReq HTTP_NOTFOUND) := by
  unfold processApiRequest
  rw [h]

theorem processApiRequest_some {context : HttpHandlerContext D} {uri : Bytes} {req : EvhttpRequest} {fakeReq : Bool}
    {fork : Option Nat} {u : ApiUri} (h : apiUri (uri.drop context.encodedApiBaseUri.length) = some u) :
    processApiRequest context uri req fakeReq fork = (domainHandler req context u fakeReq fork).map (fun
      | none => sendError context req fakeReq HTTP_NOTFOUND
      | some r => endApiRequest uri fakeReq r) := by
  unfold processApiRequest
  generalize apiUri (uri.drop context.encodedApiBaseUri.length) = o at h ⊢
  subst h
  rfl

/-- The domain of layers is none of the others. -/
theorem domainHandler_layers {req : EvhttpRequest} {context : HttpHandlerContext D} {u : ApiUri} {fakeReq : Bool}
    {fork : Option Nat} (hnul : (0 : UInt8) ∉ u.domain) (h : caseEq (bytes "layers") u.domain = true) :
    domainHandler req context u fakeReq fork = (handleDomainLayers req context u.uriPart fakeReq).map some := by
  have hother : ∀ {name : Bytes}, (0 : UInt8) ∉ name → name.map Lib.tolower ≠ (bytes "layers").map Lib.tolower →
      ¬ caseEq name u.domain = true := fun hname hne hcase =>
    hne ((map_tolower_of_caseEq hname hnul hcase).trans (map_tolower_of_caseEq (by decide) hnul h).symm)
  unfold domainHandler
  rw [if_neg (hother (by decide) (by decide)), if_neg (hother (by decide) (by decide)), if_pos h]

/-- **Another domain** leaves the layers alone, unless an assertion fails in it. -/
theorem domainHandler_other {req : EvhttpRequest} {context : HttpHandlerContext D} {u : ApiUri} {fakeReq : Bool}
    {fork : Option Nat} (htype : req.type = EVHTTP_REQ_POST ∨ req.type = EVHTTP_REQ_DELETE)
    (hlayers : ¬ caseEq (bytes "layers") u.domain = true) {o : Option (HandlerResult D)}
    (h : domainHandler req context u fakeReq fork = some o) :
    (∀ r ∈ o, QueuesElse context r) ∧ (o = none → ¬ OtherDomain u) := by
  unfold domainHandler at h
  split at h
  · obtain ⟨r, hr, rfl⟩ := Option.map_eq_some_iff.1 h
    refine ⟨?_, fun hnone => nomatch hnone⟩
    rintro _ ⟨⟩
    exact handleDomainRecords_queuesElse htype hr
  · rename_i hrecords
    split at h
    · obtain ⟨r, hr, rfl⟩ := Option.map_eq_some_iff.1 h
      refine ⟨?_, fun hnone => nomatch hnone⟩
      rintro _ ⟨⟩
      exact handleDomainSearch_queuesElse htype hr
    · rename_i hsearch
      split at h
      · obtain ⟨r, hr, rfl⟩ := Option.map_eq_some_iff.1 h
        refine ⟨?_, fun hnone => nomatch hnone⟩
        rintro _ ⟨⟩
        exact handleDomainSystem_queuesElse hr
      · rename_i hsystem
        cases h
        refine ⟨fun r hr => (nomatch hr), fun _ hother => ?_⟩
        rcases hother with h | h | h
        · exact hrecords h
        · exact hsearch h
        · exact hsystem h

/-- What a request leaves when its path is none of a layer and is not refused at once. -/
theorem layerUris_other {context : HttpHandlerContext D} {u : ApiUri} {l : List (Op D)} (uri : Bytes)
    (req : EvhttpRequest) (fakeReq : Bool) (fork : Option Nat) (hl : context.cqueue.Holds l)
    (htype : req.type = EVHTTP_REQ_POST ∨ req.type = EVHTTP_REQ_DELETE)
    (hu : apiUri (uri.drop context.encodedApiBaseUri.length) = some u)
    (hlayers : ¬ caseEq (bytes "layers") u.domain = true) :
    (∀ r layer, processApiRequest context uri req fakeReq fork = some r →
      ¬ QueuesLayerOp l req.type fakeReq layer r) ∧
    (OtherDomain u ∨ ∃ r, processApiRequest context uri req fakeReq fork = some r ∧ Refused context req fakeReq r) := by
  rw [processApiRequest_some hu]
  constructor
  · rintro r layer hr
    obtain ⟨o, ho, rfl⟩ := Option.map_eq_some_iff.1 hr
    cases o with
    | none => exact not_queuesLayerOp hl rfl
    | some r => exact ((domainHandler_other htype hlayers ho).1 r rfl).not_queuesLayerOp hl
  · by_cases hother : OtherDomain u
    · exact .inl hother
    · refine .inr ⟨_, ?_, sendError_refused rfl notFound_ne⟩
      have hrecords : ¬ caseEq (bytes "records") u.domain = true := fun h => hother (.inl h)
      have hsearch : ¬ caseEq (bytes "search") u.domain = true := fun h => hother (.inr (.inl h))
      have hsystem : ¬ caseEq (bytes "system") u.domain = true := fun h => hother (.inr (.inr h))
      unfold domainHandler
      rw [if_neg hrecords, if_neg hsearch, if_neg hlayers, if_neg hsystem]
      rfl

/-- What a request to the domain of layers leaves: nothing for an empty name, else the operation on the layer. -/
theorem layerUris_layers {context : HttpHandlerContext D} {u : ApiUri} {l : List (Op D)} (uri : Bytes)
    (req : EvhttpRequest) (fakeReq : Bool) (fork : Option Nat) (hl : context.cqueue.Holds l)
    (hroom : l.length < context.cqueue.cqueueEnd + 1)
    (htype : req.type = EVHTTP_REQ_POST ∨ req.type = EVHTTP_REQ_DELETE)
    (hu : apiUri (uri.drop context.encodedApiBaseUri.length) = some u)
    (hlayers : caseEq (bytes "layers") u.domain = true) :
    ∃ r, processApiRequest context uri req fakeReq fork = some r ∧
      (u.uriPart = [] → Refused context req fakeReq r) ∧
      ∀ layer, QueuesLayerOp l req.type fakeReq layer r ↔ u.uriPart ≠ [] ∧ layer = u.uriPart := by
  obtain ⟨hdomain, hnul, -⟩ := apiUri_spec hu
  rw [processApiRequest_some hu, domainHandler_layers hdomain hlayers, handleDomainLayers_cases htype hnul]
  split
  · rename_i hempty
    refine ⟨_, rfl, fun _ => ?_, fun layer => iff_of_false ?_ (fun h => h.1 hempty)⟩
    · exact sendError_refused rfl notFound_ne
    · exact not_queuesLayerOp hl rfl
  · rename_i hne
    obtain ⟨r, hr, hholds⟩ := queueOp_room hl hroom req fakeReq (layerOp req.type (u.uriPart ++ [0])) true
    rw [hr]
    refine ⟨_, rfl, fun hempty => absurd hempty hne, fun layer => ?_⟩
    rw [← endApiRequest_cqueue uri fakeReq r] at hholds
    constructor
    · rintro ⟨opTid, hholds'⟩
      have hop := List.append_cancel_left (hholds'.unique hholds)
      refine ⟨hne, ?_⟩
      simp only [List.cons.injEq, Op.mk.injEq, and_true, true_and] at hop
      have hname := hop.2
      unfold layerOp at hname
      split at hname <;> simpa using hname
    · rintro ⟨-, rfl⟩
      exact ⟨_, hholds⟩

/-! ## The law -/

/-- **Which paths are told apart.**  With room in the queue, the URIs of layers are recognised exactly unless the path
is `layers.json`: without its slash, `json` is taken for the name. -/
theorem layer_uris_iff (context : HttpHandlerContext D) (l : List (Op D)) (hl : context.cqueue.Holds l)
    (hroom : l.length < context.cqueue.cqueueEnd + 1) (uri : Bytes) (req : EvhttpRequest) (fakeReq : Bool)
    (fork : Option Nat) (htype : req.type = EVHTTP_REQ_POST ∨ req.type = EVHTTP_REQ_DELETE)
    (hlen : (decodedPath (uri.drop context.encodedApiBaseUri.length)).length ≤ MAX_URI_LEN) :
    LayerUrisExact context l uri req fakeReq fork ↔
      ¬ caseEq (decodedPath (uri.drop context.encodedApiBaseUri.length)) (bytes "layers.json") = true := by
  have hnul : (0 : UInt8) ∉ decodedPath (uri.drop context.encodedApiBaseUri.length) := (not_mem_extractOpts _).1
  have hjson := layersJson_iff hnul
  cases hu : apiUri (uri.drop context.encodedApiBaseUri.length) with
  | none =>
    have hpath : ∀ {stem ext : Bytes}, stem ≠ [] → caseEq ext (bytes ".json") = true →
        decodedPath (uri.drop context.encodedApiBaseUri.length) ≠ stem ++ ext := fun hne hcase =>
      apiUri_none hu hlen hne hcase
    refine iff_of_true ⟨fun layer => iff_of_false ?_ ?_, fun _ => .inr ⟨_, processApiRequest_none hu, ?_⟩⟩ ?_
    · rintro ⟨r, hr, hqueues⟩
      rw [processApiRequest_none hu] at hr
      cases hr
      exact not_queuesLayerOp hl rfl hqueues
    · rintro ⟨domain, ext, heq, -, hne, hcase⟩
      have hne' : domain ++ 47 :: layer ≠ [] := by simp
      exact hpath hne' hcase (by simpa using heq)
    · exact sendError_refused rfl notFound_ne
    · intro h
      obtain ⟨domain, ext, heq, hdomain, hcase⟩ := hjson.1 h
      refine hpath ?_ hcase heq
      rintro rfl
      exact absurd hdomain (by decide)
  | some u =>
    obtain ⟨ext, hcase, hslash, hpath⟩ := apiUri_path hu
    have hext : (0 : UInt8) ∉ ext := fun hmem => hnul (by
      rcases hpath with h | ⟨h, -⟩ <;> rw [h] <;> simp [hmem])
    obtain ⟨hlength, hextslash⟩ := caseEq_ext hext hcase
    by_cases hlayers : caseEq (bytes "layers") u.domain = true
    · obtain ⟨r, hr, hrefused, hqueues⟩ := layerUris_layers uri req fakeReq fork hl hroom htype hu hlayers
      have hqueued : ∀ layer, (∃ r, processApiRequest context uri req fakeReq fork = some r ∧
          QueuesLayerOp l req.type fakeReq layer r) ↔ u.uriPart ≠ [] ∧ layer = u.uriPart := by
        intro layer
        rw [← hqueues layer, hr]
        simp
      rcases hpath with hpath | ⟨hpath, huri⟩
      · have hiff := fun layer => layerPath_iff layer (hpath ▸ hnul) hslash hcase
        refine iff_of_true ⟨fun layer => ?_, fun hnone => .inr ⟨r, hr, hrefused ?_⟩⟩ ?_
        · rw [hqueued, hpath, hiff]
          exact ⟨fun h => ⟨hlayers, h.2, h.1⟩, fun h => ⟨h.2.2, h.2.1⟩⟩
        · by_contra hne
          exact hnone u.uriPart (hpath ▸ (hiff _).2 ⟨hlayers, rfl, hne⟩)
        · intro h
          have hnoslash := slash_not_mem_layersJson hnul h
          rw [hpath] at hnoslash
          simp at hnoslash
      · refine iff_of_false (fun h => ?_) (fun h => h (hjson.2 ⟨u.domain, ext, hpath, hlayers, hcase⟩))
        have hne : u.uriPart ≠ [] := fun hnil => by
          have := congrArg List.length (huri ▸ hnil)
          rw [List.length_tail, hlength] at this
          cases this
        refine not_layerPath_of_slash ?_ ((h.1 u.uriPart).1 ((hqueued _).2 ⟨hne, rfl⟩))
        rw [hpath, List.mem_append, not_or]
        exact ⟨hslash, hextslash⟩
    · obtain ⟨hqueues, hother⟩ := layerUris_other uri req fakeReq fork hl htype hu hlayers
      refine iff_of_true ⟨fun layer => iff_of_false ?_ ?_, fun _ => ?_⟩ ?_
      · rintro ⟨r, hr, h⟩
        exact hqueues r layer hr h
      · rcases hpath with hpath | ⟨hpath, -⟩
        · rw [hpath, layerPath_iff layer (hpath ▸ hnul) hslash hcase]
          exact fun h => hlayers h.1
        · refine not_layerPath_of_slash ?_
          rw [hpath, List.mem_append, not_or]
          exact ⟨hslash, hextslash⟩
      · exact hother.imp (fun h => ⟨u, hu, h⟩) id
      · intro h
        have hnoslash := slash_not_mem_layersJson hnul h
        obtain ⟨domain, ext', heq, hdomain, hcase'⟩ := hjson.1 h
        rcases hpath with hpath | ⟨hpath, -⟩
        · rw [hpath] at hnoslash
          simp at hnoslash
        · have hext' : (0 : UInt8) ∉ ext' := fun hmem => hnul (heq ▸ List.mem_append_right _ hmem)
          obtain ⟨rfl, -⟩ := List.append_inj' (hpath.symm.trans heq) (hlength.trans (caseEq_ext hext' hcase').1.symm)
          exact hlayers hdomain

end

theorem layer_uris_layer : LayerUrisExact freshContext [] (bytes "/api/1.0/layers/x.json") ⟨EVHTTP_REQ_POST, [], []⟩
    false none ∧ LayerPath (decodedPath (bytes "layers/x.json")) (bytes "x") :=
  ⟨(layer_uris_iff freshContext [] freshContext_holds (by decide) (bytes "/api/1.0/layers/x.json")
    ⟨EVHTTP_REQ_POST, [], []⟩ false none (.inl rfl) (by decide +kernel)).2 (by decide +kernel),
    bytes "layers", bytes ".json", by decide +kernel, by decide +kernel, by decide, by decide +kernel⟩

/-- **A POST of `layers.json` creates the layer `json`**, whose path is another one. -/
theorem layers_json_queued : (∃ r, processApiRequest freshContext (bytes "/api/1.0/layers.json")
      ⟨EVHTTP_REQ_POST, [], []⟩ false none = some r ∧ QueuesLayerOp [] EVHTTP_REQ_POST false (bytes "json") r) ∧
    ¬ LayerUrisExact freshContext [] (bytes "/api/1.0/layers.json") ⟨EVHTTP_REQ_POST, [], []⟩ false none := by
  have hu : apiUri ((bytes "/api/1.0/layers.json").drop freshContext.encodedApiBaseUri.length) =
      some ⟨bytes "layers", bytes "json", none⟩ := by decide +kernel
  obtain ⟨r, hr, -, hqueues⟩ := layerUris_layers (bytes "/api/1.0/layers.json") ⟨EVHTTP_REQ_POST, [], []⟩ false none
    freshContext_holds (by decide) (.inl rfl) hu (by decide +kernel)
  have hqueued : QueuesLayerOp [] EVHTTP_REQ_POST false (bytes "json") r := (hqueues (bytes "json")).2 ⟨by decide, rfl⟩
  refine ⟨⟨r, hr, hqueued⟩, fun h => not_layerPath_of_slash ?_ ((h.1 (bytes "json")).1 ⟨r, hr, hqueued⟩)⟩
  decide +kernel

end Pincaster
