import Pincaster.EffectOrder
import Pincaster.JournalComplete
import Pincaster.LayerSlab
/-!
# Answers — who answers a request

A request is refused at once, answered at once, or handed over: to the queue, whose workers publish one reply for an
operation, or to the reply of a rewrite.  `one_answer` tells this for one request, one operation and whole runs.
-/
namespace Pincaster

open Lib (bytes caseEq System)

variable {D : Type}

/-! ## What a request leaves -/

/-- The statuses a request is refused with; two of them are for a rewrite. -/
def Refusal (rewrite : Prop) (status : Int) : Prop :=
  status = HTTP_BADREQUEST ∨ status = HTTP_NOTFOUND ∨ status = HTTP_SERVUNAVAIL ∨
    rewrite ∧ (status = HTTP_NOCONTENT ∨ status = HTTP_NOTMODIFIED)

/-- **What a handler leaves of the duty to answer**; `shutdown` and `rewrite` say what the request asks for. -/
inductive Answered (shutdown rewrite : Prop) (context context' : HttpHandlerContext D) (req req' : EvhttpRequest)
    (fakeReq : Bool) : Int → Prop
  | refused (ret : Int) (hret : Refusal rewrite ret) (hreq : req'.replies = req.replies)
      (hq : context'.cqueue = context.cqueue) (hmain : context'.rewriteReplies = context.rewriteReplies)
      (hopTid : context.opTid ≤ context'.opTid) : Answered shutdown rewrite context context' req req' fakeReq ret
  | inline (hshutdown : shutdown) (hreq : req'.replies = req.replies ++ [HTTP_OK])
      (hq : context'.cqueue = context.cqueue) (hmain : context'.rewriteReplies = context.rewriteReplies)
      (hopTid : context.opTid ≤ context'.opTid) : Answered shutdown rewrite context context' req req' fakeReq 0
  | queued (op : Op D) (hreq : req'.replies = req.replies)
      (hpush : pushCqueue context.cqueue op = some (context'.cqueue, 0)) (hfake : op.fakeReq = fakeReq)
      (hmain : context'.rewriteReplies = context.rewriteReplies)
      (hopTid : context.opTid < op.opTid ∧ op.opTid = context'.opTid) :
      Answered shutdown rewrite context context' req req' fakeReq 0
  | published (hrewrite : rewrite) (hreq : req'.replies = req.replies) (hq : context'.cqueue = context.cqueue)
    (hfake : fakeReq = false)
      (hmain : context'.rewriteReplies = context.rewriteReplies ++ [context'.opTid])
      (hopTid : context.opTid < context'.opTid) : Answered shutdown rewrite context context' req req' fakeReq 0

theorem notFound_ne : HTTP_NOTFOUND ≠ 0 := by decide
theorem servUnavail_ne : HTTP_SERVUNAVAIL ≠ 0 := by decide

variable {shutdown rewrite : Prop}

theorem badRequest_refusal : Refusal rewrite HTTP_BADREQUEST := .inl rfl
theorem notFound_refusal : Refusal rewrite HTTP_NOTFOUND := .inr (.inl rfl)
theorem servUnavail_refusal : Refusal rewrite HTTP_SERVUNAVAIL := .inr (.inr (.inl rfl))

/-- A refusal is neither a success nor the status of one. -/
theorem Refusal.ne {status : Int} (h : Refusal rewrite status) : status ≠ 0 ∧ status ≠ HTTP_OK := by
  rcases h with rfl | rfl | rfl | ⟨-, rfl | rfl⟩ <;> decide

theorem queueOp_answered {context : HttpHandlerContext D} {req req' : EvhttpRequest} {fakeReq : Bool}
    {body : OpBody D} {writeToLog : Bool} {r : HandlerResult D} (hreq : req'.replies = req.replies)
    (h : queueOp context req' fakeReq body writeToLog = some r) :
    Answered shutdown rewrite context r.context req r.req fakeReq r.ret := by
  unfold queueOp at h
  obtain ⟨⟨q, ret⟩, hpush, h⟩ := Option.bind_eq_some_iff.1 h
  simp only at h
  rcases pushCqueue_ret hpush with rfl | ⟨rfl, rfl⟩
  · cases h
    exact .queued ⟨fakeReq, context.opTid + 1, body⟩ hreq hpush rfl rfl ⟨Nat.lt_succ_self _, rfl⟩
  · cases h
    exact .refused _ servUnavail_refusal hreq rfl rfl (Nat.le_succ _)

/-- A status before anything is queued. -/
theorem Answered.status {context : HttpHandlerContext D} {req : EvhttpRequest} {fakeReq : Bool} {ret : Int}
    (hret : Refusal rewrite ret) : Answered shutdown rewrite context context req req fakeReq ret :=
  .refused _ hret rfl rfl rfl (Nat.le_refl _)

theorem recordsGet_answered {context : HttpHandlerContext D} {req : EvhttpRequest} {opts : Option Lib.Bytes}
    {fakeReq : Bool} {layerName key : Key} {r : HandlerResult D}
    (h : recordsGet context req opts fakeReq layerName key = some r) :
    Answered shutdown rewrite context r.context req r.req fakeReq r.ret := by
  unfold recordsGet at h
  obtain ⟨⟨ret, withLinks⟩, -, h⟩ := Option.bind_eq_some_iff.1 h
  simp only at h
  split at h
  · cases h
    exact .status badRequest_refusal
  · exact queueOp_answered rfl h

section
variable [Dimension D]

theorem recordsPut_answered {context : HttpHandlerContext D} {req : EvhttpRequest} {fakeReq : Bool}
    {layerName key : Key} {r : HandlerResult D} (h : recordsPut context req fakeReq layerName key = some r) :
    Answered shutdown rewrite context r.context req r.req fakeReq r.ret := by
  unfold recordsPut at h
  obtain ⟨⟨ret, putOp⟩, -, h⟩ := Option.bind_eq_some_iff.1 h
  simp only at h
  split at h
  · cases h
    exact .refused _ badRequest_refusal rfl rfl rfl (Nat.le_succ _)
  · have hreq : ({ req with inputBuffer := req.inputBuffer ++ [0] } : EvhttpRequest).replies = req.replies := rfl
    exact queueOp_answered hreq h

/-- A URI that is refused is not found. -/
theorem recordsUri_error {uri : Lib.Bytes} {ret : Int} (h : recordsUri uri = some (.error ret)) :
    ret = HTTP_NOTFOUND := by
  unfold recordsUri at h
  split at h
  · cases h
    rfl
  · obtain ⟨layerName, -, h⟩ := Option.bind_eq_some_iff.1 h
    split at h
    · cases h
      rfl
    · obtain ⟨key, -, h⟩ := Option.map_eq_some_iff.1 h
      cases h

theorem handleDomainRecords_answered {context : HttpHandlerContext D} {req : EvhttpRequest} {uri : Lib.Bytes}
    {opts : Option Lib.Bytes} {fakeReq : Bool} {r : HandlerResult D}
    (h : handleDomainRecords req context uri opts fakeReq = some r) :
    Answered shutdown rewrite context r.context req r.req fakeReq r.ret := by
  unfold handleDomainRecords at h
  split at h
  · obtain ⟨(ret | ⟨layerName, key⟩), huri, h⟩ := Option.bind_eq_some_iff.1 h
    · cases h
      exact .status (recordsUri_error huri ▸ notFound_refusal)
    · simp only at h
      split at h
      · exact recordsGet_answered h
      · split at h
        · exact recordsPut_answered h
        · exact queueOp_answered rfl h
  · cases h
    exact .status notFound_refusal

omit [Dimension D] in
theorem handleDomainLayers_answered {context : HttpHandlerContext D} {req : EvhttpRequest} {uri : Lib.Bytes}
    {fakeReq : Bool} {r : HandlerResult D} (h : handleDomainLayers req context uri fakeReq = some r) :
    Answered shutdown rewrite context r.context req r.req fakeReq r.ret := by
  have hlayers : ∀ {body : Key → OpBody D}, layersUri context req uri fakeReq body = some r →
      Answered shutdown rewrite context r.context req r.req fakeReq r.ret := by
    intro body h
    unfold layersUri at h
    split at h
    · cases h
      exact .status notFound_refusal
    · obtain ⟨layerName, -, h⟩ := Option.bind_eq_some_iff.1 h
      exact queueOp_answered rfl h
  unfold handleDomainLayers at h
  split at h
  · split at h
    · exact queueOp_answered rfl h
    · cases h
      exact .status notFound_refusal
  · split at h
    · exact hlayers h
    · split at h
      · exact hlayers h
      · cases h
        exact .status notFound_refusal

omit [Dimension D] in
theorem queueSearch_answered {context : HttpHandlerContext D} {req : EvhttpRequest} {fakeReq : Bool}
    {body : Option (OpBody D)} {r : HandlerResult D} (h : queueSearch context req fakeReq body = some r) :
    Answered shutdown rewrite context r.context req r.req fakeReq r.ret := by
  cases body with
  | none =>
    cases h
    exact .refused _ badRequest_refusal rfl rfl rfl (Nat.le_succ _)
  | some body => exact queueOp_answered rfl h

theorem searchOp_answered {context : HttpHandlerContext D} {req : EvhttpRequest} {fakeReq : Bool} {layerName : Key}
    {searchType query : Lib.Bytes} {options : SearchOptions D} {r : HandlerResult D}
    (h : searchOp context req fakeReq layerName searchType query options = some r) :
    Answered shutdown rewrite context r.context req r.req fakeReq r.ret := by
  unfold searchOp at h
  split at h
  · exact queueSearch_answered h
  · split at h
    · exact queueSearch_answered h
    · split at h
      · split at h
        · cases h
          exact .status badRequest_refusal
        · obtain ⟨pattern, -, h⟩ := Option.bind_eq_some_iff.1 h
          exact queueOp_answered rfl h
      · cases h
        exact .status notFound_refusal

theorem handleDomainSearch_answered {context : HttpHandlerContext D} {req : EvhttpRequest} {uri : Lib.Bytes}
    {opts : Option Lib.Bytes} {fakeReq : Bool} {r : HandlerResult D}
    (h : handleDomainSearch req context uri opts fakeReq = some r) :
    Answered shutdown rewrite context r.context req r.req fakeReq r.ret := by
  unfold handleDomainSearch at h
  split at h
  · cases h
    exact .status notFound_refusal
  · split at h
    · cases h
      exact .status notFound_refusal
    · cases h
      exact .status servUnavail_refusal
    · obtain ⟨layerName, -, h⟩ := Option.bind_eq_some_iff.1 h
      split at h
      · cases h
        exact .status notFound_refusal
      · cases h
        exact .status notFound_refusal
      · obtain ⟨⟨ret, options⟩, -, h⟩ := Option.bind_eq_some_iff.1 h
        simp only at h
        split at h
        · cases h
          exact .status badRequest_refusal
        · exact searchOp_answered h

omit [Dimension D] in
/-- A rewrite is refused, or it publishes its reply. -/
theorem handleSpecialOpSystemRewrite_answered {context context' : HttpHandlerContext D} {req : EvhttpRequest}
    {fakeReq : Bool} {fork : Option Nat} {ret : Int} (hrewrite : rewrite)
    (h : handleSpecialOpSystemRewrite { context with opTid := context.opTid + 1 } fakeReq fork = some (ret, context')) :
    Answered shutdown rewrite context context' req req fakeReq ret := by
  unfold handleSpecialOpSystemRewrite at h
  simp only at h
  split at h
  · cases h
    exact .refused _ (.inr (.inr (.inr ⟨hrewrite, .inl rfl⟩))) rfl rfl rfl (Nat.le_succ _)
  · rename_i hjournal
    have hfake : fakeReq = false := by
      cases fakeReq
      · rfl
      · simp at hjournal
    split at h
    · cases h
      exact .refused _ (.inr (.inr (.inr ⟨hrewrite, .inr rfl⟩))) rfl rfl rfl (Nat.le_succ _)
    · split at h
      · cases h
        exact .refused _ servUnavail_refusal rfl rfl rfl (Nat.le_succ _)
      · simp only [startWorkers, stopWorkers, Bool.false_eq_true, if_false, Option.map_some] at h
        cases h
        exact .published hrewrite rfl rfl hfake rfl (Nat.lt_succ_self _)

omit [Dimension D] in
theorem handleDomainSystem_answered {context : HttpHandlerContext D} {req : EvhttpRequest} {uri : Lib.Bytes}
    {fakeReq : Bool} {fork : Option Nat} {r : HandlerResult D}
    (hshutdown : req.type = EVHTTP_REQ_POST ∧ caseEq uri (bytes "shutdown") = true → shutdown)
    (hrewrite : req.type = EVHTTP_REQ_POST ∧ caseEq uri (bytes "rewrite") = true → rewrite)
    (h : handleDomainSystem req context uri fakeReq fork = some r) :
    Answered shutdown rewrite context r.context req r.req fakeReq r.ret := by
  unfold handleDomainSystem at h
  split at h
  · exact queueOp_answered rfl h
  · split at h
    · rename_i hasked
      cases h
      exact .inline (hshutdown hasked) rfl rfl rfl (Nat.le_refl _)
    · split at h
      · rename_i hasked
        obtain ⟨⟨ret, context'⟩, hdone, rfl⟩ := Option.map_eq_some_iff.1 h
        exact handleSpecialOpSystemRewrite_answered (hrewrite hasked) hdone
      · cases h
        exact .status notFound_refusal

theorem domainHandler_answered {context : HttpHandlerContext D} {req : EvhttpRequest} {u : ApiUri} {fakeReq : Bool}
    {fork : Option Nat} {r : HandlerResult D} (h : domainHandler req context u fakeReq fork = some (some r)) :
    Answered (AsksShutdown req u) (AsksRewrite req u) context r.context req r.req fakeReq r.ret := by
  unfold domainHandler at h
  repeat' split at h
  · exact handleDomainRecords_answered (by simpa using h)
  · exact handleDomainSearch_answered (by simpa using h)
  · exact handleDomainLayers_answered (by simpa using h)
  · rename_i hsystem
    exact handleDomainSystem_answered (fun hasked => ⟨hsystem, hasked⟩) (fun hasked => ⟨hsystem, hasked⟩)
      (by simpa using h)
  · cases h

/-! ## One request -/

/-- What the URI of a request asks for. -/
def Asks (context : HttpHandlerContext D) (uri : Lib.Bytes) (p : ApiUri → Prop) : Prop :=
  ∃ u ∈ apiUri (uri.drop context.encodedApiBaseUri.length), p u

/-- **How a request over HTTP is answered**: by one error at once, a shutdown by one reply at once, by one operation in the
queue, or a rewrite by one reply that is published. -/
inductive AnsweredOnce (context context' : HttpHandlerContext D) (uri : Lib.Bytes) (req req' : EvhttpRequest) : Prop
  | refused (status : Int) (hstatus : Refusal (Asks context uri (AsksRewrite req)) status)
      (hreq : req'.replies = req.replies ++ [status])
      (hq : context'.cqueue = context.cqueue) (hmain : context'.rewriteReplies = context.rewriteReplies)
  | inline (hshutdown : Asks context uri (AsksShutdown req)) (hreq : req'.replies = req.replies ++ [HTTP_OK])
      (hq : context'.cqueue = context.cqueue) (hmain : context'.rewriteReplies = context.rewriteReplies)
  | queued (op : Op D) (hreq : req'.replies = req.replies)
      (hq : ∀ l, context.cqueue.Holds l → context'.cqueue.Holds (l ++ [op])) (hfake : op.fakeReq = false)
      (hopTid : context.opTid < op.opTid ∧ op.opTid = context'.opTid)
      (hmain : context'.rewriteReplies = context.rewriteReplies)
  | published (hrewrite : Asks context uri (AsksRewrite req)) (hreq : req'.replies = req.replies)
      (hq : context'.cqueue = context.cqueue) (hopTid : context.opTid < context'.opTid)
      (hmain : context'.rewriteReplies = context.rewriteReplies ++ [context'.opTid])

omit [Dimension D] in
theorem addToDbLog_frame (context : HttpHandlerContext D) (verb : Nat) (uri inputBuffer : Lib.Bytes)
    (sendToSlaves : Bool) :
    let context' := (addToDbLog context verb uri inputBuffer sendToSlaves).1
    context'.cqueue = context.cqueue ∧ context'.rewriteReplies = context.rewriteReplies ∧
      context'.opTid = context.opTid ∧ context'.loopExit = context.loopExit := by
  unfold addToDbLog
  split
  · exact ⟨rfl, rfl, rfl, rfl⟩
  · simp only
    split <;> exact ⟨rfl, rfl, rfl, rfl⟩

omit [Dimension D] in
/-- What is asked for may be more. -/
theorem Answered.mono {shutdown' rewrite' : Prop} {context context' : HttpHandlerContext D} {req req' : EvhttpRequest}
    {fakeReq : Bool} {ret : Int} (hshutdown : shutdown → shutdown') (hrewrite : rewrite → rewrite')
    (h : Answered shutdown rewrite context context' req req' fakeReq ret) :
    Answered shutdown' rewrite' context context' req req' fakeReq ret := by
  cases h with
  | refused ret hret hreq hq hmain hopTid =>
    have hret' : Refusal rewrite' ret := hret.imp_right (.imp_right (.imp_right (.imp_left hrewrite)))
    exact .refused ret hret' hreq hq hmain hopTid
  | inline hasked hreq hq hmain hopTid => exact .inline (hshutdown hasked) hreq hq hmain hopTid
  | queued op hreq hpush hfake hmain hopTid => exact .queued op hreq hpush hfake hmain hopTid
  | published hasked hreq hq hfake hmain hopTid => exact .published (hrewrite hasked) hreq hq hfake hmain hopTid

/-- What is left of the duty when the request is over: an error was sent for a status, unless the request is fake. -/
theorem processApiRequest_answered {context context' : HttpHandlerContext D} {uri : Lib.Bytes}
    {req req' : EvhttpRequest} {fakeReq : Bool} {fork : Option Nat} {ret : Int}
    (h : processApiRequest context uri req fakeReq fork = some (ret, context', req')) :
    ∃ status req'', Answered (Asks context uri (AsksShutdown req)) (Asks context uri (AsksRewrite req))
        context context' req req'' fakeReq status ∧
      req' = if status = 0 ∨ fakeReq = true then req'' else evhttpSendReply req'' status := by
  have herror : ∀ {context₁ : HttpHandlerContext D} {req₁ : EvhttpRequest} {status : Int},
      Answered (Asks context uri (AsksShutdown req)) (Asks context uri (AsksRewrite req)) context context₁ req req₁
        fakeReq status → status ≠ 0 → sendError context₁ req₁ fakeReq status = (ret, context', req') →
      ∃ status req'', Answered (Asks context uri (AsksShutdown req)) (Asks context uri (AsksRewrite req))
          context context' req req'' fakeReq status ∧
        req' = if status = 0 ∨ fakeReq = true then req'' else evhttpSendReply req'' status := by
    intro context₁ req₁ status hanswered hstatus h
    cases h
    refine ⟨status, req₁, hanswered, ?_⟩
    cases fakeReq <;> simp [hstatus]
  unfold processApiRequest at h
  split at h
  · exact herror (.status notFound_refusal) notFound_ne (Option.some.inj h)
  · rename_i u hu
    obtain ⟨o, ho, h⟩ := Option.map_eq_some_iff.1 h
    cases o with
    | none => exact herror (.status notFound_refusal) notFound_ne h
    | some r =>
      have hanswered := (domainHandler_answered ho).mono
        (fun hasked => (show Asks context uri (AsksShutdown req) from ⟨u, hu, hasked⟩))
        (fun hasked => (show Asks context uri (AsksRewrite req) from ⟨u, hu, hasked⟩))
      simp only [endApiRequest] at h
      split at h
      · rename_i hret
        exact herror hanswered hret h
      · rename_i hret
        have hzero : r.ret = 0 := not_not.1 hret
        rw [hzero] at hanswered
        split at h <;> cases h
        · refine ⟨0, r.req, ?_, by rw [if_pos (.inl rfl)]⟩
          obtain ⟨hq, hmain, hopTid, -⟩ := addToDbLog_frame r.context r.req.type uri r.req.inputBuffer true
          generalize hstatus : (0 : Int) = status at hanswered
          cases hanswered with
          | refused ret hne => exact absurd hstatus.symm hne.ne.1
          | inline hasked hreq hq' hmain' hle =>
            exact .inline hasked hreq (hq.trans hq') (hmain.trans hmain') (hopTid ▸ hle)
          | queued op hreq hpush hfake hmain' hle =>
            exact .queued op hreq (hq ▸ hpush) hfake (hmain.trans hmain') (hopTid ▸ hle)
          | published hasked hreq hq' hfake hmain' hlt =>
            exact .published hasked hreq (hq.trans hq') hfake (by rw [hmain, hmain', hopTid]) (hopTid ▸ hlt)
        · exact ⟨0, r.req, hanswered, by rw [if_pos (.inl rfl)]⟩

/-- **A shutdown is answered at once.** -/
theorem processApiRequest_shutdown {context : HttpHandlerContext D} {uri : Lib.Bytes} {req : EvhttpRequest}
    {fakeReq : Bool} {fork : Option Nat} (hasked : Asks context uri (AsksShutdown req)) :
    processApiRequest context uri req fakeReq fork = some (0,
      { context with dbLog := { context.dbLog with journalRewriteProcess := none }, loopExit := true },
      evhttpSendReply req HTTP_OK) := by
  obtain ⟨u, hu, hsystem, hpost, hshutdown⟩ := hasked
  have hping : ¬ caseEq u.uriPart (bytes "ping") = true := fun h => by
    have := caseEq_trans (caseEq_symm h) hshutdown
    exact absurd this (by decide)
  have hhandler : domainHandler req context u fakeReq fork = some (some ⟨0,
      { context with dbLog := { context.dbLog with journalRewriteProcess := none }, loopExit := true },
      evhttpSendReply req HTTP_OK, false⟩) := by
    rw [domainHandler_system hsystem, handleDomainSystem, if_neg hping, if_pos ⟨hpost, hshutdown⟩, Option.map_some]
  simp only [processApiRequest, Option.mem_def.1 hu, hhandler, Option.map_some, endApiRequest, ne_eq, not_true_eq_false,
    if_false, Bool.false_eq_true, and_false]

omit [Dimension D] in
theorem pushed_holds {q q' : CQueue (Op D)} {op : Op D} (h : pushCqueue q op = some (q', 0)) {l : List (Op D)}
    (hl : q.Holds l) : q'.Holds (l ++ [op]) := by
  obtain ⟨q'', ret, hpush, -, hcase⟩ := pushCqueue_spec hl op
  rw [h, Option.some.injEq, Prod.mk.injEq] at hpush
  obtain ⟨rfl, rfl⟩ := hpush
  rcases hcase with ⟨-, -, hholds⟩ | ⟨-, hneg, -⟩
  · exact hholds
  · cases hneg

/-- **A request over HTTP is answered once**, now or by the operation that was queued for it. -/
theorem processApiRequest_once {context context' : HttpHandlerContext D} {uri : Lib.Bytes} {req req' : EvhttpRequest}
    {fork : Option Nat} {ret : Int} (h : processApiRequest context uri req false fork = some (ret, context', req')) :
    AnsweredOnce context context' uri req req' := by
  obtain ⟨status, req'', hanswered, hreq'⟩ := processApiRequest_answered h
  cases hanswered with
  | refused ret hret hreq hq hmain hopTid =>
    rw [if_neg (by simp [hret.ne.1])] at hreq'
    exact .refused status hret (by rw [hreq', evhttpSendReply, hreq]) hq hmain
  | inline hasked hreq hq hmain hopTid =>
    rw [if_pos (.inl rfl)] at hreq'
    exact .inline hasked (hreq' ▸ hreq) hq hmain
  | queued op hreq hpush hfake hmain hopTid =>
    rw [if_pos (.inl rfl)] at hreq'
    exact .queued op (hreq' ▸ hreq) (fun l hl => pushed_holds hpush hl) hfake hopTid hmain
  | published hasked hreq hq hfake hmain hopTid =>
    rw [if_pos (.inl rfl)] at hreq'
    exact .published hasked (hreq' ▸ hreq) hq hopTid hmain

/-- **Only a shutdown is answered at once** with a success. -/
theorem processApiRequest_ok_iff {context context' : HttpHandlerContext D} {uri : Lib.Bytes} {req req' : EvhttpRequest}
    {fork : Option Nat} {ret : Int} (h : processApiRequest context uri req false fork = some (ret, context', req')) :
    req'.replies = req.replies ++ [HTTP_OK] ↔ Asks context uri (AsksShutdown req) := by
  constructor
  · intro hok
    cases processApiRequest_once h with
    | refused status hstatus hreq =>
      rw [hreq, List.append_cancel_left_eq, List.cons.injEq] at hok
      exact absurd hok.1 hstatus.ne.2
    | inline hshutdown => exact hshutdown
    | queued op hreq => exact absurd (hreq.symm.trans hok) (by simp)
    | published hrewrite hreq => exact absurd (hreq.symm.trans hok) (by simp)
  · intro hasked
    rw [processApiRequest_shutdown hasked] at h
    cases h
    rfl

/-- **A fake request is not answered**, but at a shutdown: nothing is published for it, and what it queues is fake. -/
theorem processApiRequest_fake {context context' : HttpHandlerContext D} {uri : Lib.Bytes} {req req' : EvhttpRequest}
    {fork : Option Nat} {ret : Int} (h : processApiRequest context uri req true fork = some (ret, context', req')) :
    context'.rewriteReplies = context.rewriteReplies ∧
      (req'.replies = req.replies ∨
        Asks context uri (AsksShutdown req) ∧ req'.replies = req.replies ++ [HTTP_OK]) ∧
      ∀ l, context.cqueue.Holds l → context'.cqueue.Holds l ∨
        ∃ op : Op D, op.fakeReq = true ∧ context'.cqueue.Holds (l ++ [op]) := by
  obtain ⟨status, req'', hanswered, hreq'⟩ := processApiRequest_answered h
  rw [if_pos (.inr rfl)] at hreq'
  subst hreq'
  cases hanswered with
  | refused ret hret hreq hq hmain hopTid => exact ⟨hmain, .inl hreq, fun l hl => .inl (hq ▸ hl)⟩
  | inline hasked hreq hq hmain hopTid => exact ⟨hmain, .inr ⟨hasked, hreq⟩, fun l hl => .inl (hq ▸ hl)⟩
  | queued op hreq hpush hfake hmain hopTid =>
    exact ⟨hmain, .inl hreq, fun l hl => .inr ⟨op, hfake, pushed_holds hpush hl⟩⟩
  | published hasked hreq hq hfake hmain hopTid => cases hfake

end

/-! ## One operation -/

namespace LayerStore

/-- **What a handler of the workers leaves of the duty to answer**: one reply with the number of the operation, none for a
fake one, or an error and no reply. -/
inductive Replied (op : Op D) (r : OpResult D) : Prop
  | sent (json : ReplyJson D) (hret : r.ret = 0) (hfake : op.fakeReq = false) (hreplies : r.replies = [⟨op.opTid, json⟩])
  | silent (hret : r.ret = 0) (hfake : op.fakeReq = true) (hreplies : r.replies = [])
  | failed (hret : r.ret ≠ 0) (hreplies : r.replies = [])

theorem sendOpReply_replied {op : Op D} {store : LayerStore D} {json : Option (ReplyJson D)} {r : OpResult D}
    (h : sendOpReply op store json = some r) : Replied op r := by
  unfold sendOpReply at h
  split at h
  · rename_i hfake
    cases h
    exact .silent rfl hfake rfl
  · rename_i hfake
    obtain ⟨json, -, rfl⟩ := Option.map_eq_some_iff.1 h
    exact .sent json rfl (Bool.eq_false_iff.2 hfake) rfl

theorem opError_replied {op : Op D} {ret : Int} {store : LayerStore D} {r : OpResult D} (hret : ret ≠ 0)
    (h : opError ret store = some r) : Replied op r := by
  cases h
  exact .failed hret rfl

section
variable [Field D] [LinearOrder D]

/-- **Every handler replies once or returns an error.** -/
theorem handleOp_replied {env : SearchEnv D Nat} {op : Op D} {store : LayerStore D} {r : OpResult D}
    (h : handleOp env op store = some r) : Replied op r := by
  unfold handleOp at h
  split at h
  case h_1 => exact sendOpReply_replied h
  case h_2 => exact sendOpReply_replied h
  case h_3 layerName _ =>
    unfold handleOpLayersDelete at h
    obtain ⟨⟨status, store'⟩, -, h⟩ := Option.bind_eq_some_iff.1 h
    simp only at h
    split at h
    · exact opError_replied notFound_ne h
    · split at h
      · exact opError_replied servUnavail_ne h
      · exact sendOpReply_replied h
  case h_4 => exact sendOpReply_replied h
  case h_5 putOp _ =>
    unfold handleOpRecordsPut at h
    split at h
    · exact opError_replied notFound_ne h
    · obtain ⟨⟨mem, db⟩, -, h⟩ := Option.bind_eq_some_iff.1 h
      exact sendOpReply_replied h
  case h_6 layerName key withLinks _ =>
    unfold handleOpRecordsGet at h
    split at h
    · exact opError_replied notFound_ne h
    · split at h
      · exact opError_replied notFound_ne h
      · exact sendOpReply_replied h
  case h_7 layerName key _ =>
    unfold handleOpRecordsDelete at h
    split at h
    · exact opError_replied notFound_ne h
    · split at h
      · exact opError_replied notFound_ne h
      · obtain ⟨⟨mem, db⟩, -, h⟩ := Option.bind_eq_some_iff.1 h
        exact sendOpReply_replied h
  case h_8 layerName position options _ =>
    unfold handleOpSearchNearby at h
    split at h
    · exact opError_replied notFound_ne h
    · exact sendOpReply_replied h
  case h_9 layerName rect options _ =>
    unfold handleOpSearchInRect at h
    split at h
    · exact opError_replied notFound_ne h
    · exact sendOpReply_replied h
  case h_10 layerName pattern options _ =>
    unfold handleOpSearchInKeys at h
    split at h
    · exact opError_replied notFound_ne h
    · exact sendOpReply_replied h

/-- **A worker publishes one reply for an operation**, the one of the handler or its own for an error, and none for a fake
one. -/
theorem workerDoWork_replies {env : SearchEnv D Nat} {op : Op D} {store : LayerStore D} {r : OpResult D}
    (h : workerDoWork env op store = some r) :
    r.replies.map OpReply.opTid = if op.fakeReq then [] else [op.opTid] := by
  obtain ⟨r', hr, rfl⟩ := Option.map_eq_some_iff.1 h
  cases handleOp_replied hr with
  | sent json hret hfake hreplies => simp [hret, hfake, hreplies]
  | silent hret hfake hreplies => simp [hret, hfake, hreplies]
  | failed hret hreplies => cases hfake : op.fakeReq <;> simp [hret, hreplies]

end

end LayerStore

/-- The same with the layers in their slab, also when the slab has not the layer that is deleted. -/
theorem SlabStore.workerDoWork_replies [Field D] [LinearOrder D] {env : SearchEnv D Nat} {op : Op D}
    {store : SlabStore D} {p : SlabStore D × List (OpReply D)} (h : SlabStore.workerDoWork env op store = some p) :
    p.2.map OpReply.opTid = if op.fakeReq then [] else [op.opTid] := by
  simp only [SlabStore.workerDoWork, Option.bind_eq_bind, Option.bind_eq_some_iff] at h
  obtain ⟨entries, -, r, hr, ⟨layersSlab, ret⟩, -, h⟩ := h
  cases h
  split
  · exact LayerStore.workerDoWork_replies hr
  · rw [SlabStore.replyTo]
    split <;> rfl

/-! ## Runs -/

/-- The main thread, the workers and what was published for operations.  `inflight` are the operations the workers are at,
and `queued` are those that were ever queued. -/
structure ReplyServer (D : Type) where
  context : HttpHandlerContext D
  store : SlabStore D
  inflight : List (Nat × Op D)
  published : List (OpReply D)
  queued : List (Op D)

inductive ReplyStep where
  | request (uri : Lib.Bytes) (req : EvhttpRequest) (fakeReq : Bool) (fork : Option Nat)
  | dequeue (worker : Nat)
  | finish (worker : Nat)
  | purge (now : Int)

/-- What a request has pushed: the last element of the ring, when it is a new one. -/
def CQueue.pushed {α : Type} (q q' : CQueue α) : Option α :=
  if q'.lastElement = q.lastElement then none else q'.lastElement.bind q'.cqueue

section
variable [Dimension D] [Field D] [LinearOrder D]

def replyStep (env : SearchEnv D Nat) (s : ReplyServer D) : ReplyStep → Option (ReplyServer D)
  | .request uri req fakeReq fork => (processApiRequest s.context uri req fakeReq fork).map (fun (_, context, _) =>
      { s with context, queued := s.queued ++ (CQueue.pushed s.context.cqueue context.cqueue).toList })
  | .dequeue worker =>
    -- a worker that is told to exit takes nothing
    if s.context.shouldExit then some s
    else do
      match ← shiftCqueue s.context.cqueue with
      | (cqueue, none) => some { s with context := { s.context with cqueue } }
      | (cqueue, some op) =>
        some { s with context := { s.context with cqueue }, inflight := s.inflight ++ [(worker, op)] }
  | .finish worker => do
    let (op, inflight) ← takeInflight worker s.inflight
    let (store, replies) ← SlabStore.workerDoWork env op s.store
    some { s with inflight, store, published := s.published ++ replies }
  | .purge now => (SlabStore.purgeExpiredKeys env.toPanDbEnv now s.store).map (fun store => { s with store })

/-- Any number of workers, on a queue that was just initialised. -/
def replySystem (env : SearchEnv D Nat) (context : HttpHandlerContext D) : System (ReplyServer D) ReplyStep where
  init := ⟨context, emptySlabStore, [], [], []⟩
  legal _ _ := True
  step := replyStep env

end

theorem pushed_self {α : Type} (q : CQueue α) : q.pushed q = none := if_pos rfl

theorem pushed_of_push {α : Type} {q q' : CQueue α} {x : α} {l : List α} (hl : q.Holds l)
    (h : pushCqueue q x = some (q', 0)) : q.pushed q' = some x := by
  unfold pushCqueue at h
  cases hlast : q.lastElement with
  | none =>
    simp only [hlast] at h
    split at h <;> cases h
    simp [CQueue.pushed, hlast]
  | some last =>
    simp only [hlast] at h
    generalize hnew : (if last ≠ q.cqueueEnd then last + 1 else 0) = newElement at h
    split at h
    · cases h
    · rename_i hfirst
      cases h
      have hne : newElement ≠ last := by
        rintro rfl
        split at hnew
        · omega
        · rename_i hend
          obtain ⟨f, hf⟩ := Option.ne_none_iff_exists'.1 (fun hnone => by simp [hl.lastNone hnone] at hlast)
          have := (hl.last f hf).1
          exact hfirst (hf.trans (congrArg some (by omega)))
      simp [CQueue.pushed, hlast, hne]

/-- The numbers of the operations that were received over HTTP. -/
def httpTids (ops : List (Op D)) : List Nat := (ops.filter (fun op => op.fakeReq = false)).map Op.opTid

@[simp] theorem httpTids_append (ops ops' : List (Op D)) : httpTids (ops ++ ops') = httpTids ops ++ httpTids ops' := by
  rw [httpTids, List.filter_append, List.map_append, httpTids, httpTids]

theorem httpTids_singleton (op : Op D) : httpTids [op] = if op.fakeReq then [] else [op.opTid] := by
  cases hfake : op.fakeReq <;> simp [httpTids, hfake]

/-- **The operations received over HTTP are accounted for**: each of them has its reply, is with a worker or is queued, and
no two have one number. -/
structure Accounts (s : ReplyServer D) (queue : List (Op D)) : Prop where
  holds : s.context.cqueue.Holds queue
  account : (httpTids s.queued).Perm
    (s.published.map OpReply.opTid ++ httpTids (s.inflight.map Prod.snd) ++ httpTids queue)
  ordered : (s.queued.map Op.opTid).Pairwise (· < ·)
  bounded : ∀ op ∈ s.queued, op.opTid ≤ s.context.opTid

theorem Accounts.nodup {s : ReplyServer D} {queue : List (Op D)} (h : Accounts s queue) :
    (s.published.map OpReply.opTid ++ httpTids (s.inflight.map Prod.snd) ++ httpTids queue).Nodup := by
  refine h.account.nodup_iff.1 ?_
  have hsub : (httpTids s.queued).Sublist (s.queued.map Op.opTid) := List.Sublist.map _ List.filter_sublist
  exact (h.ordered.sublist hsub).imp (fun hlt => Nat.ne_of_lt hlt)

section
variable [Dimension D] [Field D] [LinearOrder D] {env : SearchEnv D Nat}

omit [Field D] [LinearOrder D] in
theorem Accounts.request {s : ReplyServer D} {queue : List (Op D)} (hinv : Accounts s queue)
    {uri : Lib.Bytes} {req req' : EvhttpRequest} {fakeReq : Bool} {fork : Option Nat} {ret : Int}
    {context : HttpHandlerContext D}
    (h : processApiRequest s.context uri req fakeReq fork = some (ret, context, req')) :
    ∃ queue', Accounts { s with
      context, queued := s.queued ++ (CQueue.pushed s.context.cqueue context.cqueue).toList } queue' := by
  have hsame : context.cqueue = s.context.cqueue → s.context.opTid ≤ context.opTid →
      ∃ queue', Accounts { s with
        context, queued := s.queued ++ (CQueue.pushed s.context.cqueue context.cqueue).toList } queue' := by
    intro hq hopTid
    refine ⟨queue, hq ▸ hinv.holds, ?_, ?_, fun op hop => ?_⟩
    · rw [hq, pushed_self]
      simpa using hinv.account
    · rw [hq, pushed_self]
      simpa using hinv.ordered
    · rw [hq, pushed_self] at hop
      exact (hinv.bounded op (by simpa using hop)).trans hopTid
  obtain ⟨status, req'', hanswered, -⟩ := processApiRequest_answered h
  cases hanswered with
  | refused ret hret hreq hq hmain hopTid => exact hsame hq hopTid
  | inline hasked hreq hq hmain hopTid => exact hsame hq hopTid
  | published hasked hreq hq hfake hmain hopTid => exact hsame hq hopTid.le
  | queued op hreq hpush hfake hmain hopTid =>
    refine ⟨queue ++ [op], pushed_holds hpush hinv.holds, ?_, ?_, fun op' hop' => ?_⟩
    · rw [pushed_of_push hinv.holds hpush]
      simp only [Option.toList_some, httpTids_append, ← List.append_assoc]
      exact hinv.account.append_right _
    · rw [pushed_of_push hinv.holds hpush]
      simp only [Option.toList_some, List.map_append, List.map_cons, List.map_nil]
      refine List.pairwise_append.2 ⟨hinv.ordered, List.pairwise_singleton _ _, fun m hm n hn => ?_⟩
      obtain ⟨op', hop', rfl⟩ := List.mem_map.1 hm
      rw [List.mem_singleton.1 hn]
      exact (hinv.bounded op' hop').trans_lt hopTid.1
    · rw [pushed_of_push hinv.holds hpush] at hop'
      rcases List.mem_append.1 hop' with hop' | hop'
      · exact (hinv.bounded op' hop').trans (hopTid.1.trans_eq hopTid.2).le
      · rw [List.mem_singleton.1 hop']
        exact hopTid.2.le

/-- **A step keeps the accounts.** -/
theorem Accounts.step {s s' : ReplyServer D} {queue : List (Op D)} (hinv : Accounts s queue) {i : ReplyStep}
    (h : replyStep env s i = some s') : ∃ queue', Accounts s' queue' := by
  cases i with
  | request uri req fakeReq fork =>
    obtain ⟨⟨ret, context, req'⟩, hreq, rfl⟩ := Option.map_eq_some_iff.1 h
    exact hinv.request hreq
  | dequeue worker =>
    obtain ⟨q, hshift, -, hq⟩ := shiftCqueue_spec hinv.holds
    simp only [replyStep, hshift, Option.bind_eq_bind, Option.bind_some] at h
    split at h
    · exact ⟨queue, Option.some.inj h ▸ hinv⟩
    cases queue with
    | nil =>
      cases h
      exact ⟨[], hq, hinv.account, hinv.ordered, hinv.bounded⟩
    | cons op queue =>
      cases h
      refine ⟨queue, hq, ?_, hinv.ordered, hinv.bounded⟩
      have haccount := hinv.account
      rw [← List.singleton_append, httpTids_append] at haccount
      simpa only [List.map_append, httpTids_append, List.append_assoc, List.map_cons, List.map_nil] using haccount
  | finish worker =>
    simp only [replyStep, Option.bind_eq_bind, Option.bind_eq_some_iff] at h
    obtain ⟨⟨op, inflight⟩, htake, ⟨store, replies⟩, hwork, h⟩ := h
    cases h
    obtain ⟨after, hbefore, hrest⟩ := takeInflight_eq_some htake
    refine ⟨queue, hinv.holds, ?_, hinv.ordered, hinv.bounded⟩
    generalize overtaken worker s.inflight = front at hbefore hrest
    have hreplies : replies.map OpReply.opTid = httpTids [op] :=
      (SlabStore.workerDoWork_replies hwork).trans (httpTids_singleton op).symm
    have hinflight : httpTids (s.inflight.map Prod.snd) =
        httpTids (front.map Prod.snd) ++ (httpTids [op] ++ httpTids (after.map Prod.snd)) := by
      rw [hbefore, ← httpTids_append [op], ← httpTids_append, List.map_append, List.map_cons, List.singleton_append]
    refine hinv.account.trans (List.Perm.append_right _ ?_)
    simp only [hinflight, hrest, List.map_append, hreplies, httpTids_append, List.append_assoc]
    exact (List.perm_append_comm_assoc _ _ _).append_left _
  | purge now =>
    obtain ⟨store, -, rfl⟩ := Option.map_eq_some_iff.1 h
    exact ⟨queue, hinv.holds, hinv.account, hinv.ordered, hinv.bounded⟩

/-- **Every request is answered once.**  A request over HTTP is refused, queued or published for, and a shutdown and nothing
else is answered with a success at once; a fake one queues fake operations only; a worker publishes one reply for an
operation, and none for a fake one; and all along a run the operations received over HTTP are those that have their reply,
those the workers are at and those in the queue, each of them once. -/
theorem one_answer (env : SearchEnv D Nat) (init : HttpHandlerContext D) (hinit : init.cqueue.Holds []) :
    (∀ (context context' : HttpHandlerContext D) uri req req' fork ret,
      processApiRequest context uri req false fork = some (ret, context', req') →
        AnsweredOnce context context' uri req req' ∧
        (req'.replies = req.replies ++ [HTTP_OK] ↔ Asks context uri (AsksShutdown req))) ∧
    (∀ (context context' : HttpHandlerContext D) uri req req' fork ret,
      processApiRequest context uri req true fork = some (ret, context', req') →
        context'.rewriteReplies = context.rewriteReplies ∧
          (req'.replies = req.replies ∨
            Asks context uri (AsksShutdown req) ∧ req'.replies = req.replies ++ [HTTP_OK]) ∧
          ∀ l, context.cqueue.Holds l → context'.cqueue.Holds l ∨
            ∃ op : Op D, op.fakeReq = true ∧ context'.cqueue.Holds (l ++ [op])) ∧
    (∀ op store store' replies, SlabStore.workerDoWork env op store = some (store', replies) →
      replies.map OpReply.opTid = if op.fakeReq then [] else [op.opTid]) ∧
    ∀ h s, (replySystem env init).Run h s → ∃ queue, s.context.cqueue.Holds queue ∧
      (httpTids s.queued).Perm
        (s.published.map OpReply.opTid ++ httpTids (s.inflight.map Prod.snd) ++ httpTids queue) ∧
      (s.published.map OpReply.opTid ++ httpTids (s.inflight.map Prod.snd) ++ httpTids queue).Nodup := by
  refine ⟨fun _ _ _ _ _ _ _ h => ⟨processApiRequest_once h, processApiRequest_ok_iff h⟩,
    fun _ _ _ _ _ _ _ h => processApiRequest_fake h, fun _ _ _ _ h => SlabStore.workerDoWork_replies h,
    fun h s hrun => ?_⟩
  obtain ⟨queue, hinv⟩ : ∃ queue, Accounts s queue := by
    refine hrun.inv (fun s => ∃ queue, Accounts s queue) ⟨[], hinit, ?_, .nil, by simp [replySystem]⟩ ?_
    · exact .refl _
    · rintro s i s' ⟨queue, hinv⟩ - hs
      exact hinv.step hs
  exact ⟨queue, hinv.holds, hinv.account, hinv.nodup⟩

end

/-- The creation of a layer is answered by the worker of the operation that was queued, a shutdown and an URI of no domain at
once. -/
theorem one_answer_create :
    (∃ context' req' op, processApiRequest freshContext (bytes "/api/1.0/layers/x.json") ⟨EVHTTP_REQ_POST, [], []⟩ false
        none =
      some (0, context', req') ∧ req'.replies = [] ∧ context'.cqueue.Holds [op] ∧ op.fakeReq = false ∧
        op.opTid = context'.opTid) ∧
    (∃ context' req', processApiRequest freshContext (bytes "/api/1.0/SYSTEM/shutdown.json") ⟨EVHTTP_REQ_POST, [], []⟩ false
      none = some (0, context', req') ∧ req'.replies = [HTTP_OK]) ∧
    (∃ context' req' status, processApiRequest freshContext (bytes "/api/1.0/a.json") ⟨EVHTTP_REQ_POST, [], []⟩ false none =
      some (-1, context', req') ∧ req'.replies = [status] ∧ Refusal False status ∧
        context'.cqueue = freshContext.cqueue) ∧
    ∃ store replies, SlabStore.workerDoWork (worldEnv .flat) ⟨false, 1, .layersCreate layerX⟩ emptySlabStore =
      some (store, replies) ∧ replies.map OpReply.opTid = [1] := by
  obtain ⟨hanswers, -, hworker, -⟩ := one_answer (worldEnv .flat) freshContext freshContext_holds
  have hshutdown : Asks freshContext (bytes "/api/1.0/SYSTEM/shutdown.json") (AsksShutdown ⟨EVHTTP_REQ_POST, [], []⟩) := by
    unfold Asks
    decide +kernel
  have hrewrite : ∀ {uri : Lib.Bytes} {u : ApiUri}, apiUri (uri.drop freshContext.encodedApiBaseUri.length) = some u →
      ¬ AsksRewrite ⟨EVHTTP_REQ_POST, [], []⟩ u → ¬ Asks freshContext uri (AsksRewrite ⟨EVHTTP_REQ_POST, [], []⟩) := by
    rintro uri u hu hnot ⟨u', hu', hasked⟩
    rw [Option.mem_def, hu, Option.some.injEq] at hu'
    exact hnot (hu' ▸ hasked)
  have hunknown : apiUri ((bytes "/api/1.0/a.json").drop freshContext.encodedApiBaseUri.length) =
      some ⟨bytes "a", bytes "json", none⟩ := by decide +kernel
  have hcreate : (SlabStore.workerDoWork (worldEnv .flat) ⟨false, 1, .layersCreate layerX⟩ emptySlabStore).isSome =
      true := by decide +kernel
  obtain ⟨⟨store, replies⟩, hwork⟩ := Option.isSome_iff_exists.1 hcreate
  refine ⟨?_, ⟨_, _, processApiRequest_shutdown hshutdown, ?_⟩, ?_, store, replies, hwork, hworker _ _ _ _ hwork⟩
  · obtain ⟨hpost, -⟩ := hanswers _ _ _ _ _ _ _ (freshContext_post [])
    cases hpost with
    | refused status hstatus hreq => exact absurd hreq (by simp)
    | inline hasked hreq => exact absurd hreq (by simp)
    | published hasked =>
      exact absurd hasked (hrewrite (show _ = some ⟨bytes "layers", bytes "x", none⟩ by decide +kernel) (by decide +kernel))
    | queued op hreq hq hfake hopTid =>
      exact ⟨_, _, op, freshContext_post [], rfl, hq [] freshContext_holds, hfake, hopTid.2⟩
  · exact (hanswers _ _ _ _ _ none _ (processApiRequest_shutdown hshutdown)).2.2 hshutdown
  · have hpost : processApiRequest freshContext (bytes "/api/1.0/a.json") ⟨EVHTTP_REQ_POST, [], []⟩ false none =
        some (-1, freshContext, ⟨EVHTTP_REQ_POST, [], [HTTP_NOTFOUND]⟩) := by
      rw [processApiRequest, hunknown]
      rfl
    have hno := hrewrite hunknown (by decide +kernel)
    obtain ⟨honce, -⟩ := hanswers _ _ _ _ _ _ _ hpost
    cases honce with
    | refused status hstatus hreq hq =>
      exact ⟨_, _, status, hpost, hreq, hstatus.imp_right (.imp_right (.imp_right (.imp_left hno))), hq⟩
    | inline hasked hreq => exact absurd hreq (by decide)
    | published hasked => exact absurd hasked hno
    | queued op hreq => exact absurd hreq (by simp)

end Pincaster
