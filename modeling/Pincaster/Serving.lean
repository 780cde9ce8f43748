import Pincaster.UriReread
import Pincaster.NameAssertion
/-!
# Serving — the stores that requests can reach

What a request queues has names that came out of a URI and maps that the parser made, so that the layers and the records of
a store have names the dump can write (`serving_storeOk`).  A request that is logged queues the same operation when it is
replayed, in any context (`Requeues`).
-/
namespace Pincaster

open Lib (Bytes bytes cstr strchr caseEq System)

variable {D : Type}

/-! ## Names -/

/-- The name of a layer as an operation has it. -/
def LayerKey (layerName : Key) : Prop := ∃ layer, layerName = layer ++ [0] ∧ LayerName layer

/-- The name of a layer and the key of a record as an operation has them. -/
def RecordKeys (layerName key : Key) : Prop :=
  ∃ layer name, layerName = layer ++ [0] ∧ key = name ++ [0] ∧ RecordNames layer name

/-- **A mutation whose names came out of a URI**, with maps in order. -/
def BodyOk : OpBody D → Prop
  | .layersCreate layerName => LayerKey layerName
  | .recordsPut putOp => PutOpOk putOp ∧ RecordKeys putOp.layerName putOp.key
  | _ => True

theorem strchr_eq_some {s before after : Bytes} {c : UInt8} (hs : (0 : UInt8) ∉ s)
    (h : strchr s c = some (before, after)) : s = before ++ c :: after ∧ c ∉ before := by
  unfold strchr at h
  rw [Lib.cstr_of_not_mem hs] at h
  split at h
  · rename_i hmem
    simp only [Option.some.injEq, Prod.mk.injEq] at h
    obtain ⟨rfl, rfl⟩ := h
    obtain ⟨n, t, rfl, hn⟩ := List.eq_append_cons_of_mem hmem
    obtain ⟨htake, hdrop⟩ := takeWhile_append_cons (p := fun d => decide (d ≠ c)) (s := n) (t := t) (c := c) (fun d hd => by
      simp only [ne_eq, decide_eq_true_eq]
      rintro rfl
      exact hn hd) (by simp)
    rw [htake, hdrop, List.tail_cons]
    exact ⟨rfl, hn⟩
  · cases h

/-- What a URI that is not refused is made of; without a slash the part for the handler is the end of the extension. -/
theorem apiUri_spec {encodedUri : Bytes} {u : ApiUri} (h : apiUri encodedUri = some u) :
    (0 : UInt8) ∉ u.domain ∧ (0 : UInt8) ∉ u.uriPart ∧ (63 : UInt8) ∉ u.uriPart ∧
      (u.domain.length + u.uriPart.length + 6 ≤ MAX_URI_LEN ∨ u.uriPart.length = 4 ∧ (47 : UInt8) ∉ u.uriPart) := by
  obtain ⟨hnul, hmark⟩ := not_mem_extractOpts (evhttpDecodeUri encodedUri)
  unfold apiUri at h
  obtain ⟨⟨stem, tail⟩, hstrip, h⟩ := Option.bind_eq_some_iff.1 h
  obtain ⟨heq, hne, hmax, hcase⟩ := (stripExt_eq_some_iff hnul).1 hstrip
  rw [heq] at hnul hmark hmax
  simp only [List.mem_append, not_or] at hnul hmark
  obtain ⟨hlen, hslash⟩ := caseEq_ext hnul.2 hcase
  simp only at h
  split at h
  · rename_i domain uriPart hchr
    cases h
    obtain ⟨rfl, -⟩ := strchr_eq_some hnul.1 hchr
    simp only [List.mem_append, List.mem_cons, not_or] at hnul hmark
    simp only [List.length_append, List.length_cons, hlen] at hmax
    exact ⟨hnul.1.1, hnul.1.2.2, hmark.1.2.2, .inl (by simp only; omega)⟩
  · cases h
    have htail : ∀ c, c ∉ tail → c ∉ tail.tail := fun c hc hmem => hc (List.mem_of_mem_tail hmem)
    exact ⟨hnul.1, htail _ hnul.2, htail _ hmark.2, .inr ⟨by rw [List.length_tail, hlen], htail _ hslash⟩⟩

theorem newKeyFromCString_some {ckey : Bytes} {key : Key} (hnul : (0 : UInt8) ∉ ckey)
    (h : newKeyFromCString ckey = some key) : key = ckey ++ [0] ∧ ckey ≠ [] := by
  unfold newKeyFromCString at h
  rw [Lib.cstr_of_not_mem hnul] at h
  split at h
  · rename_i hpos
    cases h
    exact ⟨rfl, List.ne_nil_of_length_pos hpos⟩
  · cases h

/-- The domain has the length of its name. -/
theorem length_of_caseEq {s t : Bytes} (ht : (0 : UInt8) ∉ t) (hs : (0 : UInt8) ∉ s) (h : caseEq s t = true) :
    t.length = s.length := by
  have hmap : (cstr s).map Lib.tolower = (cstr t).map Lib.tolower := of_decide_eq_true h
  rw [Lib.cstr_of_not_mem ht, Lib.cstr_of_not_mem hs] at hmap
  simpa using (congrArg List.length hmap).symm

theorem recordsUri_keys {uri : Bytes} {layerName key : Key} (hnul : (0 : UInt8) ∉ uri) (hmark : (63 : UInt8) ∉ uri)
    (hlen : (47 : UInt8) ∈ uri → 13 + uri.length ≤ MAX_URI_LEN) (h : recordsUri uri = some (.ok (layerName, key))) :
    RecordKeys layerName key := by
  unfold recordsUri at h
  split at h
  · cases h
  · rename_i layer sep hchr
    obtain ⟨rfl, hslash⟩ := strchr_eq_some hnul hchr
    obtain ⟨layerName', hlayer, h⟩ := Option.bind_eq_some_iff.1 h
    split at h
    · cases h
    · obtain ⟨key', hkey, h⟩ := Option.map_eq_some_iff.1 h
      cases h
      have hlen := hlen (by simp)
      simp only [List.mem_append, List.mem_cons, not_or] at hnul hmark
      simp only [List.length_append, List.length_cons] at hlen
      obtain ⟨rfl, hne⟩ := newKeyFromCString_some hnul.1 hlayer
      obtain ⟨rfl, hne'⟩ := newKeyFromCString_some hnul.2.2 hkey
      exact ⟨layer, sep, rfl, rfl, hne, hnul.1, hmark.1, hslash, hne', hnul.2.2, hmark.2.2, by omega⟩

/-! ## Requests that are logged -/

/-- **A handler that queues again what it has queued**: the operation depends neither on the context nor on the NUL that
the journal leaves out. -/
def Requeues (handler : EvhttpRequest → HttpHandlerContext D → Bool → Option (HandlerResult D))
    (context : HttpHandlerContext D) (req : EvhttpRequest) (fakeReq : Bool) (r : HandlerResult D) : Prop :=
  ∃ body : OpBody D, body.mutates = true ∧ BodyOk body ∧ r.req.type = req.type ∧
    (∃ req', queueOp context req' fakeReq body true = some r) ∧
    ∀ context' replies fakeReq', ∃ req', handler ⟨req.type, loggedBody r.req.inputBuffer, replies⟩ context' fakeReq' =
      queueOp context' req' fakeReq' body true

theorem queueOp_req {context : HttpHandlerContext D} {req : EvhttpRequest} {fakeReq : Bool} {body : OpBody D}
    {writeToLog : Bool} {r : HandlerResult D} (h : queueOp context req fakeReq body writeToLog = some r) :
    r.req = req ∧ (r.writeToLog = true → writeToLog = true) := by
  unfold queueOp at h
  obtain ⟨⟨q, ret⟩, -, h⟩ := Option.bind_eq_some_iff.1 h
  simp only at h
  split at h <;> cases h
  · exact ⟨rfl, fun hlog => nomatch hlog⟩
  · exact ⟨rfl, id⟩

theorem loggedBody_snoc (body : Bytes) : loggedBody (body ++ [0]) = body := by simp [loggedBody]

section
variable [Dimension D]

theorem recordsPut_requeues {context : HttpHandlerContext D} {req : EvhttpRequest} {fakeReq : Bool}
    {layerName key : Key} {r : HandlerResult D} (hnames : RecordKeys layerName key)
    (h : recordsPut context req fakeReq layerName key = some r) (hlog : r.writeToLog = true) :
    Requeues (fun req context fakeReq => recordsPut context req fakeReq layerName key) context req fakeReq r := by
  unfold recordsPut at h
  obtain ⟨⟨ret, putOp⟩, hparse, h⟩ := Option.bind_eq_some_iff.1 h
  simp only at hparse h
  split at h
  · cases h
    cases hlog
  · rename_i hret
    obtain ⟨hok, hlayer, hkey⟩ := queryParse_putOp hparse
    obtain ⟨hreq, -⟩ := queueOp_req h
    refine ⟨.recordsPut putOp, rfl, ⟨hok, by rw [hlayer, hkey]; exact hnames⟩, by rw [hreq], ⟨_, h⟩,
      fun context' replies fakeReq' => ⟨⟨req.type, req.inputBuffer ++ [0], replies⟩, ?_⟩⟩
    unfold recordsPut
    rw [hreq, loggedBody_snoc]
    simp only [hparse, Option.bind_eq_bind, Option.bind_some, if_neg hret]

theorem handleDomainRecords_requeues {context : HttpHandlerContext D} {req : EvhttpRequest} {uri : Bytes}
    {opts : Option Bytes} {fakeReq : Bool} {r : HandlerResult D} (hnul : (0 : UInt8) ∉ uri) (hmark : (63 : UInt8) ∉ uri)
    (hlen : (47 : UInt8) ∈ uri → 13 + uri.length ≤ MAX_URI_LEN)
    (h : handleDomainRecords req context uri opts fakeReq = some r) (hlog : r.writeToLog = true) :
    Requeues (fun req context fakeReq => handleDomainRecords req context uri opts fakeReq) context req fakeReq r := by
  unfold handleDomainRecords at h
  split at h
  · rename_i htype
    obtain ⟨(ret | ⟨layerName, key⟩), huri, h⟩ := Option.bind_eq_some_iff.1 h
    · cases h
      cases hlog
    · simp only at h
      have hnames := recordsUri_keys hnul hmark hlen huri
      split at h
      · unfold recordsGet at h
        obtain ⟨⟨ret, withLinks⟩, -, h⟩ := Option.bind_eq_some_iff.1 h
        simp only at h
        split at h
        · cases h
          cases hlog
        · exact nomatch (queueOp_req h).2 hlog
      · rename_i hget
        split at h
        · rename_i hput
          obtain ⟨body, hmutates, hok, hreq, hqueue, hagain⟩ := recordsPut_requeues hnames h hlog
          refine ⟨body, hmutates, hok, hreq, hqueue, fun context' replies fakeReq' => ?_⟩
          obtain ⟨req', hreq'⟩ := hagain context' replies fakeReq'
          refine ⟨req', hreq' ▸ ?_⟩
          unfold handleDomainRecords
          simp only [if_pos htype, huri, Option.bind_eq_bind, Option.bind_some, if_neg hget, if_pos hput]
        · rename_i hput
          obtain ⟨hreq, -⟩ := queueOp_req h
          refine ⟨.recordsDelete layerName key, rfl, trivial, by rw [hreq], ⟨_, h⟩, fun context' replies fakeReq' =>
            ⟨⟨req.type, loggedBody r.req.inputBuffer, replies⟩, ?_⟩⟩
          unfold handleDomainRecords
          simp only [if_pos htype, huri, Option.bind_eq_bind, Option.bind_some, if_neg hget, if_neg hput]
  · cases h
    cases hlog

omit [Dimension D] in
theorem layersUri_requeues {context : HttpHandlerContext D} {req : EvhttpRequest} {uri : Bytes} {fakeReq : Bool}
    {body : Key → OpBody D} {r : HandlerResult D} (hmutates : ∀ layerName, (body layerName).mutates = true)
    (hok : ∀ layerName, newKeyFromCString uri = some layerName → BodyOk (body layerName))
    (h : layersUri context req uri fakeReq body = some r) (hlog : r.writeToLog = true) :
    Requeues (fun req context fakeReq => layersUri context req uri fakeReq body) context req fakeReq r := by
  unfold layersUri at h
  split at h
  · cases h
    cases hlog
  · rename_i hne
    obtain ⟨layerName, hkey, h⟩ := Option.bind_eq_some_iff.1 h
    obtain ⟨hreq, -⟩ := queueOp_req h
    refine ⟨body layerName, hmutates _, hok _ hkey, by rw [hreq], ⟨_, h⟩, fun context' replies fakeReq' =>
      ⟨⟨req.type, loggedBody r.req.inputBuffer, replies⟩, ?_⟩⟩
    unfold layersUri
    simp only [if_neg hne, hkey, Option.bind_eq_bind, Option.bind_some]

omit [Dimension D] in
theorem handleDomainLayers_requeues {context : HttpHandlerContext D} {req : EvhttpRequest} {uri : Bytes} {fakeReq : Bool}
    {r : HandlerResult D} (hnul : (0 : UInt8) ∉ uri) (hmark : (63 : UInt8) ∉ uri) (hlen : 12 + uri.length ≤ MAX_URI_LEN)
    (h : handleDomainLayers req context uri fakeReq = some r) (hlog : r.writeToLog = true) :
    Requeues (fun req context fakeReq => handleDomainLayers req context uri fakeReq) context req fakeReq r := by
  unfold handleDomainLayers at h
  split at h
  · split at h
    · exact nomatch (queueOp_req h).2 hlog
    · cases h
      cases hlog
  · rename_i hget
    split at h
    · rename_i hpost
      obtain ⟨body, hmutates, hok, hreq, hqueue, hagain⟩ := layersUri_requeues (fun _ => rfl) (fun layerName hkey => by
        obtain ⟨rfl, hne⟩ := newKeyFromCString_some hnul hkey
        exact ⟨uri, rfl, hne, hnul, hmark, hlen⟩) h hlog
      refine ⟨body, hmutates, hok, hreq, hqueue, fun context' replies fakeReq' => ?_⟩
      obtain ⟨req', hreq'⟩ := hagain context' replies fakeReq'
      exact ⟨req', hreq' ▸ by unfold handleDomainLayers; simp only [if_neg hget, if_pos hpost]⟩
    · rename_i hpost
      split at h
      · rename_i hdelete
        have hdeletes : ∀ layerName, newKeyFromCString uri = some layerName → BodyOk (.layersDelete layerName : OpBody D) :=
          fun _ _ => trivial
        obtain ⟨body, hmutates, hok, hreq, hqueue, hagain⟩ := layersUri_requeues (fun _ => rfl) hdeletes h hlog
        refine ⟨body, hmutates, hok, hreq, hqueue, fun context' replies fakeReq' => ?_⟩
        obtain ⟨req', hreq'⟩ := hagain context' replies fakeReq'
        exact ⟨req', hreq' ▸ by unfold handleDomainLayers; simp only [if_neg hget, if_neg hpost, if_pos hdelete]⟩
      · cases h
        cases hlog

omit [Dimension D] in
theorem queueSearch_log {context : HttpHandlerContext D} {req : EvhttpRequest} {fakeReq : Bool} {body : Option (OpBody D)}
    {r : HandlerResult D} (h : queueSearch context req fakeReq body = some r) : r.writeToLog ≠ true := by
  intro hlog
  cases body with
  | none =>
    cases h
    cases hlog
  | some body => exact nomatch (queueOp_req h).2 hlog

theorem handleDomainSearch_log {context : HttpHandlerContext D} {req : EvhttpRequest} {uri : Bytes} {opts : Option Bytes}
    {fakeReq : Bool} {r : HandlerResult D} (h : handleDomainSearch req context uri opts fakeReq = some r) :
    r.writeToLog ≠ true := by
  have hrefused : ∀ ret, some ⟨ret, context, req, false⟩ = some r → r.writeToLog ≠ true := fun ret hr hlog => by
    cases hr
    cases hlog
  unfold handleDomainSearch at h
  split at h
  · exact hrefused _ h
  · split at h
    · exact hrefused _ h
    · exact hrefused _ h
    · obtain ⟨layerName, -, h⟩ := Option.bind_eq_some_iff.1 h
      split at h
      · exact hrefused _ h
      · exact hrefused _ h
      · obtain ⟨⟨ret, options⟩, -, h⟩ := Option.bind_eq_some_iff.1 h
        simp only at h
        split at h
        · exact hrefused _ h
        · unfold searchOp at h
          split at h
          · exact queueSearch_log h
          · split at h
            · exact queueSearch_log h
            · split at h
              · obtain ⟨pattern, -, h⟩ := Option.bind_eq_some_iff.1 h
                exact fun hlog => nomatch (queueOp_req h).2 hlog
              · exact hrefused _ h

omit [Dimension D] in
theorem handleDomainSystem_log {context : HttpHandlerContext D} {req : EvhttpRequest} {uri : Bytes} {fakeReq : Bool}
    {fork : Option Nat} {r : HandlerResult D} (h : handleDomainSystem req context uri fakeReq fork = some r) :
    r.writeToLog ≠ true := by
  unfold handleDomainSystem at h
  split at h
  · exact fun hlog => nomatch (queueOp_req h).2 hlog
  · split at h
    · cases h
      exact Bool.false_ne_true
    · split at h
      · obtain ⟨p, -, rfl⟩ := Option.map_eq_some_iff.1 h
        exact Bool.false_ne_true
      · cases h
        exact Bool.false_ne_true

/-- **Every request that is logged is queued again when it is replayed.** -/
theorem domainHandler_requeues {context : HttpHandlerContext D} {req : EvhttpRequest} {encodedUri : Bytes} {u : ApiUri}
    (hu : apiUri encodedUri = some u) {fakeReq : Bool} {fork : Option Nat} {r : HandlerResult D}
    (h : domainHandler req context u fakeReq fork = some (some r)) (hlog : r.writeToLog = true) (fork' : Option Nat) :
    Requeues (fun req context fakeReq => (domainHandler req context u fakeReq fork').join) context req fakeReq r := by
  obtain ⟨hdomain, hnul, hmark, hlen⟩ := apiUri_spec hu
  have hjoin : ∀ {o : Option (HandlerResult D)}, (o.map some).join = o := fun {o} => by cases o <;> rfl
  have hsome : ∀ {o : Option (HandlerResult D)}, o.map some = some (some r) → o = some r := fun {o} ho => by
    simpa using ho
  unfold domainHandler at h
  split at h
  · rename_i hrecords
    have hseven := length_of_caseEq hdomain (by decide) hrecords
    rw [show (bytes "records").length = 7 from rfl] at hseven
    have hbody := handleDomainRecords_requeues hnul hmark (fun hslash => by
      rcases hlen with hlen | ⟨-, hno⟩
      · omega
      · exact absurd hslash hno) (hsome h) hlog
    unfold domainHandler
    simp only [if_pos hrecords, hjoin]
    exact hbody
  · rename_i hrecords
    split at h
    · exact absurd hlog (handleDomainSearch_log (hsome h))
    · rename_i hsearch
      split at h
      · rename_i hlayers
        have hsix := length_of_caseEq hdomain (by decide) hlayers
        rw [show (bytes "layers").length = 6 from rfl] at hsix
        have hbody := handleDomainLayers_requeues hnul hmark (by
          unfold MAX_URI_LEN at hlen ⊢
          omega) (hsome h) hlog
        unfold domainHandler
        simp only [if_neg hrecords, if_neg hsearch, if_pos hlayers, hjoin]
        exact hbody
      · split at h
        · exact absurd hlog (handleDomainSystem_log (hsome h))
        · cases h

/-! ## Stores in order -/

omit [Dimension D] in
/-- **A store whose layers and records have names out of URIs** and property maps in order. -/
structure StoreOk (layers : Layers D) : Prop where
  layer : ∀ {layerName keyNodes}, layers layerName = some keyNodes → LayerKey layerName
  record : ∀ {layerName keyNodes key keyNode}, layers layerName = some keyNodes → keyNodes key = some keyNode →
    RecordKeys layerName key ∧ WellFormed keyNode.properties

omit [Dimension D] in
theorem storeOk_empty : StoreOk (fun _ => none : Layers D) := ⟨fun hl => (nomatch hl), fun hl _ => (nomatch hl)⟩

omit [Dimension D] in
theorem StoreOk.create {layers : Layers D} (h : StoreOk layers) {layerName : Key} (hname : LayerKey layerName) :
    StoreOk (handleOpLayersCreate layerName layers).2 := by
  unfold handleOpLayersCreate registerLayer
  split
  · exact h
  · split
    · exact h
    · refine ⟨fun {name keyNodes} hl => ?_, fun {name keyNodes key keyNode} hl hk => ?_⟩
      all_goals simp only at hl
      · by_cases hname' : name = layerName
        · exact hname' ▸ hname
        · rw [Function.update_of_ne hname'] at hl
          exact h.layer hl
      · by_cases hname' : name = layerName
        · subst hname'
          rw [Function.update_self] at hl
          cases hl
          cases hk
        · rw [Function.update_of_ne hname'] at hl
          exact h.record hl hk

omit [Dimension D] in
/-- What is left of a store in order is in order. -/
theorem StoreOk.mono {layers layers' : Layers D} (h : StoreOk layers)
    (hsub : ∀ layerName keyNodes', layers' layerName = some keyNodes' → ∃ keyNodes, layers layerName = some keyNodes ∧
      ∀ key keyNode, keyNodes' key = some keyNode → keyNodes key = some keyNode) : StoreOk layers' :=
  ⟨fun {layerName keyNodes'} hl => by
    obtain ⟨keyNodes, hl', -⟩ := hsub layerName keyNodes' hl
    exact h.layer hl',
  fun {layerName keyNodes' key keyNode} hl hk => by
    obtain ⟨keyNodes, hl', hkeys⟩ := hsub layerName keyNodes' hl
    exact h.record hl' (hkeys key keyNode hk)⟩

omit [Dimension D] in
theorem StoreOk.delete {layers : Layers D} (h : StoreOk layers) (layerName : Key) :
    StoreOk (handleOpLayersDelete layerName layers).2 := by
  refine h.mono (fun name keyNodes' hl => ⟨keyNodes', ?_, fun _ _ hk => hk⟩)
  unfold handleOpLayersDelete at hl
  split at hl
  · exact hl
  · simp only at hl
    by_cases hname : name = layerName
    · rw [hname, Function.update_self] at hl
      cases hl
    · rwa [Function.update_of_ne hname] at hl

omit [Dimension D] in
theorem StoreOk.deleteRecord {layers : Layers D} (h : StoreOk layers) (layerName key : Key) :
    StoreOk (handleOpRecordsDelete layerName key layers).2 := by
  refine h.mono (fun name keyNodes' hl => ?_)
  unfold handleOpRecordsDelete at hl
  split at hl
  · exact ⟨keyNodes', hl, fun _ _ hk => hk⟩
  · rename_i keyNodes hlayer
    split at hl
    · exact ⟨keyNodes', hl, fun _ _ hk => hk⟩
    · simp only at hl
      by_cases hname : name = layerName
      · subst hname
        rw [Function.update_self] at hl
        obtain rfl := Option.some.inj hl
        refine ⟨keyNodes, hlayer, fun key' keyNode hk => ?_⟩
        by_cases hkey : key' = key
        · rw [hkey, Function.update_self] at hk
          cases hk
        · rwa [Function.update_of_ne hkey] at hk
      · rw [Function.update_of_ne hname] at hl
        exact ⟨keyNodes', hl, fun _ _ hk => hk⟩

omit [Dimension D] in
theorem StoreOk.purge {layers : Layers D} (h : StoreOk layers) (now : Int) : StoreOk (purgeExpiredKeys now layers) := by
  refine h.mono (fun layerName keyNodes' hl => ?_)
  obtain ⟨keyNodes, hl', rfl⟩ := Option.map_eq_some_iff.1 hl
  exact ⟨keyNodes, hl', fun key keyNode hk => (Option.filter_eq_some_iff.1 hk).1⟩

/-- **A PUT whose operation is in order** fails no assertion and leaves the store in order. -/
theorem StoreOk.put {layers : Layers D} (h : StoreOk layers) (qbounds : Rectangle2D D) {putOp : RecordsPutOp D}
    (hop : PutOpOk putOp) (hnames : RecordKeys putOp.layerName putOp.key) :
    ∃ r, handleOpRecordsPut qbounds putOp layers = some r ∧ StoreOk r.2 := by
  unfold handleOpRecordsPut
  split
  · exact ⟨_, rfl, h⟩
  · rename_i keyNodes hlayer
    have hwf : WellFormed ((keyNodes putOp.key).getD newKeyNode).properties := by
      cases hk : keyNodes putOp.key with
      | none => exact wellFormed_none
      | some keyNode => exact (h.record hlayer hk).2
    obtain ⟨properties, hput, hwf'⟩ := putProperties_wellFormed hwf hop
    simp only [putKeyNode, hput, Option.map_some, Option.bind_eq_bind, Option.bind_some]
    refine ⟨_, rfl, fun {name keyNodes'} hl => ?_, fun {name keyNodes' key keyNode} hl hk => ?_⟩
    all_goals simp only at hl
    · by_cases hname : name = putOp.layerName
      · exact hname ▸ h.layer hlayer
      · rw [Function.update_of_ne hname] at hl
        exact h.layer hl
    · by_cases hname : name = putOp.layerName
      · subst hname
        rw [Function.update_self] at hl
        obtain rfl := Option.some.inj hl
        by_cases hkey : key = putOp.key
        · subst hkey
          rw [Function.update_self] at hk
          obtain rfl := Option.some.inj hk
          exact ⟨hnames, hwf'⟩
        · rw [Function.update_of_ne hkey] at hk
          exact h.record hlayer hk
      · rw [Function.update_of_ne hname] at hl
        exact h.record hl hk

/-- **An operation that came out of a URI** fails no assertion and leaves the store in order. -/
theorem StoreOk.work {layers : Layers D} (h : StoreOk layers) (qbounds : Rectangle2D D) {body : OpBody D}
    (hbody : BodyOk body) : ∃ layers', workerDoWork qbounds body layers = some layers' ∧ StoreOk layers' := by
  cases body with
  | layersCreate layerName => exact ⟨_, rfl, h.create hbody⟩
  | layersDelete layerName => exact ⟨_, rfl, h.delete layerName⟩
  | recordsPut putOp =>
    obtain ⟨r, hput, hok⟩ := h.put qbounds hbody.1 hbody.2
    exact ⟨r.2, by rw [workerDoWork, hput, Option.map_some], hok⟩
  | recordsDelete layerName key => exact ⟨_, rfl, h.deleteRecord layerName key⟩
  | systemPing | layersIndex | recordsGet | searchNearby | searchInRect | searchInKeys => exact ⟨layers, rfl, h⟩

/-! ## Requests, workers and purges -/

omit [Dimension D] in
/-- The server as far as its store goes: `inflight` are the operations that workers have taken and not applied yet. -/
structure Serving (D : Type) where
  context : HttpHandlerContext D
  inflight : List (Op D)
  layers : Layers D

inductive ServingStep
  | request (uri : Bytes) (req : EvhttpRequest) (fakeReq : Bool) (fork : Option Nat)
  | dequeue
  | apply (i : Nat)
  | purge (now : Int)

def servingStep (qbounds : Rectangle2D D) (s : Serving D) : ServingStep → Option (Serving D)
  | .request uri req fakeReq fork =>
    (processApiRequest s.context uri req fakeReq fork).map (fun r => { s with context := r.2.1 })
  | .dequeue => (shiftCqueue s.context.cqueue).map (fun (cqueue, op) =>
      { s with context := { s.context with cqueue }, inflight := s.inflight ++ op.toList })
  | .apply i => match s.inflight[i]? with
    | none => some s
    | some op => (workerDoWork qbounds op.body s.layers).map (fun layers =>
        { s with inflight := s.inflight.eraseIdx i, layers })
  | .purge now => some { s with layers := purgeExpiredKeys now s.layers }

/-- The server from an empty store on. -/
def servingSystem (qbounds : Rectangle2D D) (context : HttpHandlerContext D) : System (Serving D) ServingStep where
  init := ⟨context, [], fun _ => none⟩
  legal _ _ := True
  step := servingStep qbounds

omit [Dimension D] in
theorem queueOp_pushed {context : HttpHandlerContext D} {req : EvhttpRequest} {fakeReq : Bool} {body : OpBody D}
    {writeToLog : Bool} {r : HandlerResult D} (h : queueOp context req fakeReq body writeToLog = some r) :
    r.context.cqueue = context.cqueue ∨
      ∃ op : Op D, op.body = body ∧ pushCqueue context.cqueue op = some (r.context.cqueue, 0) := by
  unfold queueOp at h
  obtain ⟨⟨q, ret⟩, hpush, h⟩ := Option.bind_eq_some_iff.1 h
  simp only at h
  rcases pushCqueue_ret hpush with rfl | ⟨rfl, rfl⟩
  · cases h
    exact .inr ⟨_, rfl, hpush⟩
  · cases h
    exact .inl rfl

omit [Dimension D] in
/-- The end of a request leaves the queue as the handler left it. -/
theorem endApiRequest_cqueue (uri : Bytes) (fakeReq : Bool) (r : HandlerResult D) :
    (endApiRequest uri fakeReq r).2.1.cqueue = r.context.cqueue := by
  unfold endApiRequest sendError
  split
  · rfl
  · split
    · exact addToDbLog_cqueue _ _ _ _ _
    · rfl

/-- **What a request queues has names out of its URI.** -/
theorem processApiRequest_bodyOk {context context' : HttpHandlerContext D} {uri : Bytes} {req req' : EvhttpRequest}
    {fakeReq : Bool} {fork : Option Nat} {ret : Int}
    (h : processApiRequest context uri req fakeReq fork = some (ret, context', req')) :
    context'.cqueue = context.cqueue ∨
      ∃ op : Op D, BodyOk op.body ∧ pushCqueue context.cqueue op = some (context'.cqueue, 0) := by
  unfold processApiRequest at h
  split at h
  · cases h
    exact .inl rfl
  · rename_i u hu
    obtain ⟨o, ho, h⟩ := Option.map_eq_some_iff.1 h
    cases o with
    | none =>
      cases h
      exact .inl rfl
    | some r =>
      have hkept := endApiRequest_cqueue uri fakeReq r
      simp only at h
      rw [h] at hkept
      simp only at hkept
      rw [hkept]
      by_cases hlog : r.writeToLog = true
      · obtain ⟨body, -, hok, -, ⟨req'', hqueue⟩, -⟩ := domainHandler_requeues hu ho hlog fork
        refine (queueOp_pushed hqueue).imp id ?_
        rintro ⟨op, rfl, hpush⟩
        exact ⟨op, hok, hpush⟩
      · cases domainHandler_spec ho with
        | unqueued hq _ => exact .inl hq
        | queued body opTid _ hlog' hpush _ _ =>
          refine .inr ⟨_, ?_, hpush⟩
          -- an operation that changes nothing has no names to look at
          cases body with
          | layersCreate | recordsPut => exact absurd hlog' hlog
          | layersDelete | recordsDelete | systemPing | layersIndex | recordsGet | searchNearby | searchInRect
          | searchInKeys => trivial

/-- **What requests ask for and workers and purges keep**: a property of the operations that requests queue, and one of the
store that these operations and the purges preserve. -/
structure ServingKeeps (qbounds : Rectangle2D D) (asked : OpBody D → Prop) (kept : Layers D → Prop) : Prop where
  request : ∀ {context context' : HttpHandlerContext D} {uri : Bytes} {req req' : EvhttpRequest} {fakeReq : Bool}
    {fork : Option Nat} {ret : Int} {queue : List (Op D)}, context.cqueue.Holds queue →
    processApiRequest context uri req fakeReq fork = some (ret, context', req') → context'.cqueue = context.cqueue ∨
      ∃ op : Op D, asked op.body ∧ pushCqueue context.cqueue op = some (context'.cqueue, 0)
  work : ∀ {body : OpBody D} {layers layers' : Layers D}, asked body → kept layers →
    workerDoWork qbounds body layers = some layers' → kept layers'
  purge : ∀ (now : Int) {layers : Layers D}, kept layers → kept (purgeExpiredKeys now layers)

omit [Dimension D] in
/-- **The invariant**: every operation on its way is one that is asked for, and the store is kept. -/
structure ServingInv (asked : OpBody D → Prop) (kept : Layers D → Prop) (s : Serving D) (queue : List (Op D)) : Prop where
  queued : s.context.cqueue.Holds queue
  queue : ∀ op ∈ queue, asked op.body
  inflight : ∀ op ∈ s.inflight, asked op.body
  store : kept s.layers

section
variable {qbounds : Rectangle2D D} {asked : OpBody D → Prop} {kept : Layers D → Prop}

theorem ServingInv.step (hkeeps : ServingKeeps qbounds asked kept) {s s' : Serving D} {queue : List (Op D)}
    (hinv : ServingInv asked kept s queue) {i : ServingStep} (h : servingStep qbounds s i = some s') :
    ∃ queue', ServingInv asked kept s' queue' := by
  cases i with
  | request uri req fakeReq fork =>
    obtain ⟨⟨ret, context', req'⟩, hreq, rfl⟩ := Option.map_eq_some_iff.1 h
    rcases hkeeps.request hinv.queued hreq with hq | ⟨op, hok, hpush⟩
    · exact ⟨queue, hq ▸ hinv.queued, hinv.queue, hinv.inflight, hinv.store⟩
    · obtain ⟨q, ret', hpush', -, hcase⟩ := pushCqueue_spec hinv.queued op
      rw [hpush, Option.some.injEq, Prod.mk.injEq] at hpush'
      obtain ⟨rfl, rfl⟩ := hpush'
      rcases hcase with ⟨-, -, hq⟩ | ⟨-, hret, -⟩
      · refine ⟨queue ++ [op], hq, fun op' hop' => ?_, hinv.inflight, hinv.store⟩
        rcases List.mem_append.1 hop' with hop' | hop'
        · exact hinv.queue op' hop'
        · exact List.mem_singleton.1 hop' ▸ hok
      · cases hret
  | dequeue =>
    obtain ⟨q, hshift, -, hq⟩ := shiftCqueue_spec hinv.queued
    simp only [servingStep, hshift, Option.map_some, Option.some.injEq] at h
    subst h
    refine ⟨queue.tail, hq, fun op hop => hinv.queue op (List.mem_of_mem_tail hop), fun op hop => ?_, hinv.store⟩
    rcases List.mem_append.1 hop with hop | hop
    · exact hinv.inflight op hop
    · exact hinv.queue op (List.mem_of_mem_head? (Option.mem_toList.1 hop))
  | apply i =>
    rw [servingStep] at h
    split at h
    · cases h
      exact ⟨queue, hinv⟩
    · rename_i op hop
      obtain ⟨layers, hwork, rfl⟩ := Option.map_eq_some_iff.1 h
      exact ⟨queue, hinv.queued, hinv.queue, fun op' hop' => hinv.inflight op' ((List.eraseIdx_sublist _ _).subset hop'),
        hkeeps.work (hinv.inflight op (List.mem_of_getElem? hop)) hinv.store hwork⟩
  | purge now =>
    cases h
    exact ⟨queue, hinv.queued, hinv.queue, hinv.inflight, hkeeps.purge now hinv.store⟩

/-- **What is kept holds of every store that requests, workers and purges can reach.** -/
theorem serving_kept (hkeeps : ServingKeeps qbounds asked kept) (hempty : kept (fun _ => none))
    {context : HttpHandlerContext D} (hq : context.cqueue.Holds []) {h : List (Serving D × ServingStep)} {s : Serving D}
    (hr : (servingSystem qbounds context).Run h s) : kept s.layers := by
  have hinit : ∃ queue, ServingInv asked kept (servingSystem qbounds context).init queue :=
    ⟨[], hq, fun _ hop => (nomatch hop), fun _ hop => (nomatch hop), hempty⟩
  obtain ⟨queue, hinv⟩ := hr.inv (fun s => ∃ queue, ServingInv asked kept s queue) hinit
    (fun s i s' ⟨queue, hinv⟩ _ hs => hinv.step hkeeps hs)
  exact hinv.store

end

theorem storeOk_kept (qbounds : Rectangle2D D) : ServingKeeps qbounds (BodyOk (D := D)) StoreOk where
  request _ h := processApiRequest_bodyOk h
  work hbody hok h := by
    obtain ⟨layers, hwork, hok'⟩ := hok.work qbounds hbody
    exact Option.some.inj (hwork.symm.trans h) ▸ hok'
  purge now _ hok := hok.purge now

/-- **Every store that requests, workers and purges can reach is in order.** -/
theorem serving_storeOk {qbounds : Rectangle2D D} {context : HttpHandlerContext D} (hq : context.cqueue.Holds [])
    {h : List (Serving D × ServingStep)} {s : Serving D} (hr : (servingSystem qbounds context).Run h s) :
    StoreOk s.layers := serving_kept (storeOk_kept qbounds) storeOk_empty hq hr

end

end Pincaster
