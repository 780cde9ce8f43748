import Pincaster.Answers
import Pincaster.PutFrame
import Pincaster.StoreRefine
/-!
# QueuedOps — the operations that requests queue

Every operation that a request queues has a layer name that `new_key_from_c_string` has made, a PUT an expiration that is
a time, and a search a limit that is not 0 (`processApiRequest_asked`).
-/
namespace Pincaster

open Lib (Bytes bytes cstr)

variable {D : Type}

/-- What a request checks about the names and the limit of an operation, and the times it can read. -/
def NamesOk : OpBody D → Prop
  | .systemPing | .layersIndex => True
  | .layersCreate layerName | .layersDelete layerName | .recordsGet layerName _ _ | .recordsDelete layerName _ =>
    CKey layerName
  | .recordsPut putOp => CKey putOp.layerName ∧ Lib.IsIntmax putOp.expiresAt
  | .searchNearby layerName _ options | .searchInRect layerName _ options | .searchInKeys layerName _ options =>
    CKey layerName ∧ 1 ≤ options.limit

theorem NamesOk.layer {body : OpBody D} (h : NamesOk body) (hmutates : body.mutates = true) : CKey body.layer := by
  cases body with
  | layersCreate | layersDelete | recordsDelete => exact h
  | recordsPut => exact h.1
  | systemPing | layersIndex | recordsGet | searchNearby | searchInRect | searchInKeys => cases hmutates

/-- **An operation as requests queue it.** -/
structure Asked (body : OpBody D) : Prop where
  ok : BodyOk body
  names : NamesOk body

theorem Asked.requested {body : OpBody D} (h : Asked body) : Requested body := ⟨h.ok, h.names.layer⟩

theorem newKeyFromCString_cKey {ckey : Bytes} {key : Key} (h : newKeyFromCString ckey = some key) : CKey key := by
  unfold newKeyFromCString at h
  split at h
  · rw [← Option.some.inj h]
    exact .of_nul (Lib.zero_not_mem_cstr ckey)
  · cases h

/-! ## Handlers -/

/-- **What a handler does to the queue**: nothing, or it queues an operation with such names. -/
def Queues (context context' : HttpHandlerContext D) : Prop :=
  context'.cqueue = context.cqueue ∨
    ∃ op : Op D, NamesOk op.body ∧ pushCqueue context.cqueue op = some (context'.cqueue, 0)

theorem queueOp_queues {context : HttpHandlerContext D} {req : EvhttpRequest} {fakeReq : Bool} {body : OpBody D}
    {writeToLog : Bool} {r : HandlerResult D} (hbody : NamesOk body)
    (h : queueOp context req fakeReq body writeToLog = some r) : Queues context r.context := by
  refine (queueOp_pushed h).imp id ?_
  rintro ⟨op, rfl, hpush⟩
  exact ⟨op, hbody, hpush⟩

/-- A status and no operation. -/
theorem queues_refused {context : HttpHandlerContext D} {req : EvhttpRequest} {ret : Int} {r : HandlerResult D}
    (h : some ⟨ret, context, req, false⟩ = some r) : Queues context r.context := by
  cases h
  exact .inl rfl

section
variable [Dimension D]

theorem handleDomainRecords_queues {context : HttpHandlerContext D} {req : EvhttpRequest} {uri : Bytes}
    {opts : Option Bytes} {fakeReq : Bool} {r : HandlerResult D}
    (h : handleDomainRecords req context uri opts fakeReq = some r) : Queues context r.context := by
  unfold handleDomainRecords at h
  split at h
  · obtain ⟨(ret | ⟨layerName, key⟩), huri, h⟩ := Option.bind_eq_some_iff.1 h
    · exact queues_refused h
    · have hname : CKey layerName := by
        unfold recordsUri at huri
        split at huri
        · cases huri
        · obtain ⟨layerName', hlayer, huri⟩ := Option.bind_eq_some_iff.1 huri
          split at huri
          · cases huri
          · obtain ⟨key', -, huri⟩ := Option.map_eq_some_iff.1 huri
            cases huri
            exact newKeyFromCString_cKey hlayer
      simp only at h
      split at h
      · unfold recordsGet at h
        obtain ⟨⟨ret, withLinks⟩, -, h⟩ := Option.bind_eq_some_iff.1 h
        simp only at h
        have hget : NamesOk (.recordsGet layerName key withLinks : OpBody D) := hname
        split at h
        · exact queues_refused h
        · exact queueOp_queues hget h
      · split at h
        · unfold recordsPut at h
          obtain ⟨⟨ret, putOp⟩, hparse, h⟩ := Option.bind_eq_some_iff.1 h
          simp only at hparse h
          split at h
          · cases h
            exact .inl rfl
          · obtain ⟨-, hlayer, -⟩ := queryParse_putOp hparse
            have hput : NamesOk (.recordsPut putOp) := by
              rw [NamesOk, hlayer]
              exact ⟨hname, queryParse_time hparse⟩
            exact queueOp_queues hput h
        · have hdelete : NamesOk (.recordsDelete layerName key : OpBody D) := hname
          exact queueOp_queues hdelete h
  · exact queues_refused h

omit [Dimension D] in
theorem handleDomainLayers_queues {context : HttpHandlerContext D} {req : EvhttpRequest} {uri : Bytes} {fakeReq : Bool}
    {r : HandlerResult D} (h : handleDomainLayers req context uri fakeReq = some r) : Queues context r.context := by
  have hlayers : ∀ body : Key → OpBody D, (∀ layerName, CKey layerName → NamesOk (body layerName)) →
      layersUri context req uri fakeReq body = some r → Queues context r.context := by
    intro body hbody h
    unfold layersUri at h
    split at h
    · exact queues_refused h
    · obtain ⟨layerName, hlayer, h⟩ := Option.bind_eq_some_iff.1 h
      exact queueOp_queues (hbody layerName (newKeyFromCString_cKey hlayer)) h
  unfold handleDomainLayers at h
  split at h
  · have hindex : NamesOk (.layersIndex : OpBody D) := trivial
    split at h
    · exact queueOp_queues hindex h
    · exact queues_refused h
  · split at h
    · exact hlayers .layersCreate (fun _ hname => hname) h
    · split at h
      · exact hlayers .layersDelete (fun _ hname => hname) h
      · exact queues_refused h

/-- **The limit of a search** is not 0. -/
theorem searchOptParseCb_limit {context context' : SearchOptions D} {key value : Bytes} {ret : Int}
    (hlimit : 1 ≤ context.limit) (h : searchOptParseCb context key value = some (ret, context')) :
    1 ≤ context'.limit := by
  unfold searchOptParseCb at h
  simp only at h
  split at h
  · cases h
    exact hlimit
  · split at h
    · split at h <;> cases h <;> exact hlimit
    · split at h
      · split at h
        · cases h
          exact hlimit
        · rename_i limit hmem
          cases h
          obtain ⟨limit', -, hpos⟩ := Option.bind_eq_some_iff.1 hmem
          split at hpos
          · cases hpos
          · rename_i hne
            cases hpos
            exact Nat.one_le_iff_ne_zero.2 (fun hzero => hne (le_of_eq hzero))
      · split at h
        · split at h <;> cases h <;> exact hlimit
        · split at h
          · split at h <;> cases h <;> exact hlimit
          · split at h
            · split at h <;> cases h <;> exact hlimit
            · split at h
              · split at h <;> cases h <;> exact hlimit
              · cases h
                exact hlimit

theorem searchOptions_limit {opts : Option Bytes} {ret : Int} {options : SearchOptions D}
    (h : parseOpts opts searchOptParseCb
      ⟨Dimension.ofInt 0, DEFAULT_SEARCH_LIMIT, Dimension.ofInt (-1), true, true, false⟩ = some (ret, options)) :
    1 ≤ options.limit := by
  have hdefault : 1 ≤ DEFAULT_SEARCH_LIMIT := by decide
  cases opts with
  | none =>
    cases h
    exact hdefault
  | some opts =>
    exact queryParse_inv (fun options : SearchOptions D => 1 ≤ options.limit)
      (fun _ _ _ _ _ hlimit hcb => searchOptParseCb_limit hlimit hcb) hdefault h

omit [Dimension D] in
theorem queueSearch_queues {context : HttpHandlerContext D} {req : EvhttpRequest} {fakeReq : Bool}
    {body : Option (OpBody D)} {r : HandlerResult D} (hbody : ∀ b ∈ body, NamesOk b)
    (h : queueSearch context req fakeReq body = some r) : Queues context r.context := by
  cases body with
  | none =>
    cases h
    exact .inl rfl
  | some body => exact queueOp_queues (hbody body rfl) h

theorem handleDomainSearch_queues {context : HttpHandlerContext D} {req : EvhttpRequest} {uri : Bytes}
    {opts : Option Bytes} {fakeReq : Bool} {r : HandlerResult D}
    (h : handleDomainSearch req context uri opts fakeReq = some r) : Queues context r.context := by
  unfold handleDomainSearch at h
  split at h
  · exact queues_refused h
  · split at h
    · exact queues_refused h
    · exact queues_refused h
    · obtain ⟨layerName, hlayer, h⟩ := Option.bind_eq_some_iff.1 h
      have hname := newKeyFromCString_cKey hlayer
      split at h
      · exact queues_refused h
      · exact queues_refused h
      · obtain ⟨⟨ret, options⟩, hopts, h⟩ := Option.bind_eq_some_iff.1 h
        have hlimit := searchOptions_limit hopts
        simp only at h
        split at h
        · exact queues_refused h
        · unfold searchOp at h
          split at h
          · refine queueSearch_queues (fun b hb => ?_) h
            obtain ⟨position, -, rfl⟩ := Option.map_eq_some_iff.1 hb
            exact ⟨hname, hlimit⟩
          · split at h
            · refine queueSearch_queues (fun b hb => ?_) h
              obtain ⟨rect, -, rfl⟩ := Option.map_eq_some_iff.1 hb
              exact ⟨hname, hlimit⟩
            · split at h
              · obtain ⟨pattern, -, h⟩ := Option.bind_eq_some_iff.1 h
                have hkeys : NamesOk (.searchInKeys layerName pattern options : OpBody D) := ⟨hname, hlimit⟩
                exact queueOp_queues hkeys h
              · exact queues_refused h

omit [Dimension D] in
theorem handleDomainSystem_queues {context : HttpHandlerContext D} {req : EvhttpRequest} {uri : Bytes} {fakeReq : Bool}
    {fork : Option Nat} {r : HandlerResult D} (h : handleDomainSystem req context uri fakeReq fork = some r) :
    Queues context r.context := by
  unfold handleDomainSystem at h
  split at h
  · have hping : NamesOk (.systemPing : OpBody D) := trivial
    exact queueOp_queues hping h
  · split at h
    · cases h
      exact .inl rfl
    · split at h
      · obtain ⟨⟨ret, context'⟩, hrewrite, rfl⟩ := Option.map_eq_some_iff.1 h
        -- a rewrite queues nothing
        have hanswered : Answered True True context context' req req fakeReq ret :=
          handleSpecialOpSystemRewrite_answered trivial hrewrite
        cases hanswered with
        | refused ret hret hreq hq hmain hopTid => exact .inl hq
        | inline hasked hreq hq hmain hopTid => exact .inl hq
        | published hasked hreq hq hfake hmain hopTid => exact .inl hq
        | queued op hreq hpush hfake hmain hopTid =>
          unfold handleSpecialOpSystemRewrite at hrewrite
          simp only at hrewrite
          split at hrewrite
          · cases hrewrite
          · split at hrewrite
            · cases hrewrite
            · split at hrewrite
              · cases hrewrite
              · simp only [startWorkers, stopWorkers, Bool.false_eq_true, if_false, Option.map_some] at hrewrite
                cases hrewrite
                exact .inl rfl
      · exact queues_refused h

theorem domainHandler_queues {context : HttpHandlerContext D} {req : EvhttpRequest} {u : ApiUri} {fakeReq : Bool}
    {fork : Option Nat} {r : HandlerResult D} (h : domainHandler req context u fakeReq fork = some (some r)) :
    Queues context r.context := by
  unfold domainHandler at h
  repeat' split at h
  · exact handleDomainRecords_queues (by simpa using h)
  · exact handleDomainSearch_queues (by simpa using h)
  · exact handleDomainLayers_queues (by simpa using h)
  · exact handleDomainSystem_queues (by simpa using h)
  · cases h

/-- **What a request queues**, in any context: one operation with checked names, or nothing. -/
theorem processApiRequest_asked {context context' : HttpHandlerContext D} {uri : Bytes} {req req' : EvhttpRequest}
    {fakeReq : Bool} {fork : Option Nat} {ret : Int} {l : List (Op D)} (hl : context.cqueue.Holds l)
    (h : processApiRequest context uri req fakeReq fork = some (ret, context', req')) :
    context'.cqueue = context.cqueue ∨
      ∃ op : Op D, Asked op.body ∧ pushCqueue context.cqueue op = some (context'.cqueue, 0) := by
  have hqueues : Queues context context' := by
    unfold processApiRequest at h
    split at h
    · cases h
      exact .inl rfl
    · obtain ⟨o, ho, h⟩ := Option.map_eq_some_iff.1 h
      cases o with
      | none =>
        cases h
        exact .inl rfl
      | some r =>
        have hkept := endApiRequest_cqueue uri fakeReq r
        simp only at h
        rw [h] at hkept
        simp only at hkept
        have hhandler := domainHandler_queues ho
        rw [Queues, ← hkept] at hhandler
        exact hhandler
  rcases processApiRequest_bodyOk h with hq | ⟨op, hok, hpush⟩
  · exact .inl hq
  · rcases hqueues with hq | ⟨op', hnames, hpush'⟩
    · exact .inl hq
    · -- both are the operation that has been pushed
      have hsame : op = op' :=
        Option.some.inj ((pushed_of_push hl hpush).symm.trans (pushed_of_push hl hpush'))
      exact .inr ⟨op, ⟨hok, hsame ▸ hnames⟩, hpush⟩

end

end Pincaster
