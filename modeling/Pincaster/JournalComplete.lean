import Pincaster.HttpServer
import Pincaster.Lib.Lines
/-!
# JournalComplete — which accepted mutations reach the journal

A handler that queues a mutation sets `*write_to_log`, and `add_to_db_log` is called for it after the operation was
queued; what `add_to_db_log` returns is not looked at.  `journal_complete_iff` compares the limits of the two.
-/
namespace Pincaster

open Lib (Bytes bytes printNat ofDigits isDigitOf ofDigits_printNat isDigitOf_printNat)

variable {D : Type}

/-! ## The records of a journal can be told apart -/

/-- A number in hex ends at the first character that is no digit. -/
theorem printNat_append_inj {m n : Nat} {x : UInt8} (hx : isDigitOf 16 x = false) {s t : Bytes}
    (h : printNat 16 m ++ x :: s = printNat 16 n ++ x :: t) : m = n ∧ s = t := by
  obtain ⟨h1, h2⟩ := Lib.append_cons_inj (p := fun c => isDigitOf 16 c = true) (by simp [hx])
    (isDigitOf_printNat (by omega) (by omega) m) (isDigitOf_printNat (by omega) (by omega) n) h
  refine ⟨?_, h2⟩
  rw [← ofDigits_printNat (show 2 ≤ 16 by omega) (by omega) m, h1, ofDigits_printNat (by omega) (by omega)]

/-- **A record of the journal determines its verb, its URI and its body.** -/
theorem logRecord_inj {verb verb' : Nat} {uri uri' body body' : Bytes}
    (h : logRecord verb uri body = logRecord verb' uri' body') : verb = verb' ∧ uri = uri' ∧ body = body' := by
  unfold logRecord at h
  rw [show bytes " " = [32] from rfl, show bytes ":" = [58] from rfl] at h
  simp only [List.append_assoc, List.append_cancel_left_eq, List.cons_append, List.nil_append] at h
  obtain ⟨hverb, h⟩ := printNat_append_inj (by decide) h
  obtain ⟨hlen, h⟩ := printNat_append_inj (by decide) h
  obtain ⟨huri, h⟩ := List.append_inj h hlen
  rw [List.cons.injEq] at h
  obtain ⟨hlen, h⟩ := printNat_append_inj (by decide) h.2
  exact ⟨hverb, huri, (List.append_inj h hlen).1⟩

/-! ## What the journal gains -/

theorem flushAfterRecord_journal (dbLog : DBLog UInt8) : (flushAfterRecord dbLog).journal = dbLog.journal := by
  unfold flushAfterRecord
  split
  · exact flushDbLog_journal dbLog true
  · split
    · exact flushDbLog_journal dbLog false
    · rfl

/-- The timestamp mark that goes before the next record. -/
def timestampMark (context : HttpHandlerContext D) : Bytes :=
  let ts := context.now - Int.tmod context.now DB_LOG_TIMESTAMP_GRANULARITY
  if ts > context.dbLog.lastTs then addTsToEvLogBuffer [] ts else []

theorem addTimestamp_journal (context : HttpHandlerContext D) :
    (addTimestamp context.dbLog context.now).journal = context.dbLog.journal ++ timestampMark context := by
  unfold addTimestamp timestampMark
  simp only
  split
  · simp [DBLog.journal, addTsToEvLogBuffer]
  · simp

/-- The limits of the journal on a request. -/
def LogLimits (uri inputBuffer : Bytes) : Prop :=
  uri.length ≤ DB_LOG_MAX_URI_LEN ∧ inputBuffer.length ≤ DB_LOG_MAX_BODY_LEN

instance (uri inputBuffer : Bytes) : Decidable (LogLimits uri inputBuffer) := inferInstanceAs (Decidable (_ ∧ _))

/-- **A request within the limits adds its mark and its record to an open journal.** -/
theorem addToDbLog_journal (context : HttpHandlerContext D) {file : Bytes} (hopen : context.dbLog.dbLogFd = some file)
    {uri inputBuffer : Bytes} (hlim : LogLimits uri inputBuffer) (verb : Nat) (sendToSlaves : Bool) :
    (addToDbLog context verb uri inputBuffer sendToSlaves).1.dbLog.journal =
      context.dbLog.journal ++ timestampMark context ++ logRecord verb uri (loggedBody inputBuffer) := by
  have hle : ¬ (uri.length > DB_LOG_MAX_URI_LEN ∨ inputBuffer.length > DB_LOG_MAX_BODY_LEN) := by
    have := hlim.1
    have := hlim.2
    omega
  unfold addToDbLog
  simp only [hopen, if_neg hle, flushAfterRecord_journal]
  rw [← addTimestamp_journal]
  simp [DBLog.journal]

/-- **Any other request adds nothing**: the `-1` of `add_to_db_log`. -/
theorem addToDbLog_over (context : HttpHandlerContext D) {file : Bytes} (hopen : context.dbLog.dbLogFd = some file)
    {uri inputBuffer : Bytes} (hlim : ¬ LogLimits uri inputBuffer) (verb : Nat) (sendToSlaves : Bool) :
    addToDbLog context verb uri inputBuffer sendToSlaves = (context, -1) := by
  have hgt : uri.length > DB_LOG_MAX_URI_LEN ∨ inputBuffer.length > DB_LOG_MAX_BODY_LEN := by
    unfold LogLimits at hlim
    omega
  unfold addToDbLog
  simp only [hopen, if_pos hgt]

theorem addToDbLog_cqueue (context : HttpHandlerContext D) (verb : Nat) (uri inputBuffer : Bytes)
    (sendToSlaves : Bool) : (addToDbLog context verb uri inputBuffer sendToSlaves).1.cqueue = context.cqueue := by
  unfold addToDbLog
  split
  · rfl
  · simp only
    split <;> rfl

/-! ## What a handler leaves -/

theorem pushCqueue_ret {α : Type} {q q' : CQueue α} {x : α} {ret : Int} (h : pushCqueue q x = some (q', ret)) :
    ret = 0 ∨ (ret = -1 ∧ q' = q) := by
  unfold pushCqueue at h
  cases hlast : q.lastElement with
  | none =>
    simp only [hlast] at h
    split at h <;> cases h
    exact .inl rfl
  | some last =>
    simp only [hlast] at h
    generalize (if last ≠ q.cqueueEnd then last + 1 else 0) = newElement at h
    split at h <;> cases h
    · exact .inr ⟨rfl, rfl⟩
    · exact .inl rfl

/-- The body a handler leaves: a PUT on a record added a NUL. -/
def handledBody (req : EvhttpRequest) : Bytes :=
  if req.type = EVHTTP_REQ_PUT then req.inputBuffer ++ [0] else req.inputBuffer

/-- **What a handler leaves.**  Either the queue is as it was and there is nothing to log, or one operation was queued,
`*write_to_log` says whether it changes the store, and the journal and the clock are as they were. -/
inductive Handled (context : HttpHandlerContext D) (req : EvhttpRequest) (fakeReq : Bool) (r : HandlerResult D) : Prop
  | unqueued (hq : r.context.cqueue = context.cqueue) (hlog : r.writeToLog = false)
  | queued (body : OpBody D) (opTid : Nat) (hret : r.ret = 0) (hlog : r.writeToLog = body.mutates)
      (hpush : pushCqueue context.cqueue ⟨fakeReq, opTid, body⟩ = some (r.context.cqueue, 0))
      (hcontext : r.context = { context with opTid, cqueue := r.context.cqueue })
      (hreq : r.req.type = req.type ∧ (body.mutates = true → r.req.inputBuffer = handledBody req))

theorem queueOp_spec {context : HttpHandlerContext D} {req req' : EvhttpRequest} {fakeReq : Bool} (body : OpBody D)
    {r : HandlerResult D} (h : queueOp context req' fakeReq body body.mutates = some r) (htype : req'.type = req.type)
    (hbody : body.mutates = true → req'.inputBuffer = handledBody req) : Handled context req fakeReq r := by
  unfold queueOp at h
  cases hpush : pushCqueue context.cqueue ⟨fakeReq, context.opTid + 1, body⟩ with
  | none => simp [hpush] at h
  | some p =>
    obtain ⟨q, ret⟩ := p
    simp only [hpush, Option.bind_eq_bind, Option.bind_some] at h
    rcases pushCqueue_ret hpush with rfl | ⟨rfl, rfl⟩
    · simp only [ne_eq, not_true_eq_false, if_false, Option.some.injEq] at h
      subst h
      exact .queued body _ rfl rfl hpush rfl ⟨htype, hbody⟩
    · simp only [ne_eq, Int.reduceNeg, reduceCtorEq, not_false_eq_true, if_true, Option.some.injEq] at h
      subst h
      exact .unqueued rfl rfl

/-- A handler that returns a status before it queues anything. -/
theorem Handled.refused {context : HttpHandlerContext D} {req req' : EvhttpRequest} {fakeReq : Bool} (ret : Int)
    (opTid : Nat) : Handled context req fakeReq ⟨ret, { context with opTid }, req', false⟩ := .unqueued rfl rfl

theorem recordsGet_spec {context : HttpHandlerContext D} {req : EvhttpRequest} {opts : Option Bytes} {fakeReq : Bool}
    {layerName key : Key} {r : HandlerResult D} (h : recordsGet context req opts fakeReq layerName key = some r) :
    Handled context req fakeReq r := by
  unfold recordsGet at h
  simp only [Option.bind_eq_bind, Option.bind_eq_some_iff] at h
  obtain ⟨⟨ret, withLinks⟩, _, h⟩ := h
  simp only at h
  split at h
  · cases h
    exact .unqueued rfl rfl
  · exact queueOp_spec (.recordsGet layerName key withLinks) h rfl (fun hm => nomatch hm)

theorem recordsPut_spec [Dimension D] {context : HttpHandlerContext D} {req : EvhttpRequest} {fakeReq : Bool}
    {layerName key : Key} {r : HandlerResult D} (hput : req.type = EVHTTP_REQ_PUT)
    (h : recordsPut context req fakeReq layerName key = some r) : Handled context req fakeReq r := by
  unfold recordsPut at h
  simp only [Option.bind_eq_bind, Option.bind_eq_some_iff] at h
  obtain ⟨⟨ret, putOp⟩, _, h⟩ := h
  simp only at h
  split at h
  · cases h
    exact .unqueued rfl rfl
  · exact queueOp_spec (.recordsPut putOp) h rfl (fun _ => by rw [handledBody, if_pos hput])

theorem handleDomainRecords_spec [Dimension D] {context : HttpHandlerContext D} {req : EvhttpRequest} {uri : Bytes}
    {opts : Option Bytes} {fakeReq : Bool} {r : HandlerResult D}
    (h : handleDomainRecords req context uri opts fakeReq = some r) : Handled context req fakeReq r := by
  unfold handleDomainRecords at h
  split at h
  · simp only [Option.bind_eq_bind, Option.bind_eq_some_iff] at h
    obtain ⟨(ret | ⟨layerName, key⟩), _, h⟩ := h
    · cases h
      exact .unqueued rfl rfl
    · simp only at h
      split at h
      · exact recordsGet_spec h
      · rename_i hget
        split at h
        · rename_i hput
          exact recordsPut_spec hput h
        · rename_i hput
          exact queueOp_spec (.recordsDelete layerName key) h rfl (fun _ => by rw [handledBody, if_neg hput])
  · cases h
    exact .unqueued rfl rfl

theorem layersUri_spec {context : HttpHandlerContext D} {req : EvhttpRequest} {uri : Bytes} {fakeReq : Bool}
    {body : Key → OpBody D} {r : HandlerResult D} (hput : req.type ≠ EVHTTP_REQ_PUT)
    (hbody : ∀ layerName, (body layerName).mutates = true) (h : layersUri context req uri fakeReq body = some r) :
    Handled context req fakeReq r := by
  unfold layersUri at h
  split at h
  · cases h
    exact .unqueued rfl rfl
  · simp only [Option.bind_eq_bind, Option.bind_eq_some_iff] at h
    obtain ⟨layerName, _, h⟩ := h
    rw [← hbody layerName] at h
    exact queueOp_spec _ h rfl (fun _ => by rw [handledBody, if_neg hput])

theorem handleDomainLayers_spec {context : HttpHandlerContext D} {req : EvhttpRequest} {uri : Bytes} {fakeReq : Bool}
    {r : HandlerResult D} (h : handleDomainLayers req context uri fakeReq = some r) :
    Handled context req fakeReq r := by
  unfold handleDomainLayers at h
  split at h
  · split at h
    · exact queueOp_spec .layersIndex h rfl (fun hm => nomatch hm)
    · cases h
      exact .unqueued rfl rfl
  · split at h
    · rename_i hpost
      exact layersUri_spec (by rw [hpost]; decide) (fun _ => rfl) h
    · split at h
      · rename_i hdelete
        exact layersUri_spec (by rw [hdelete]; decide) (fun _ => rfl) h
      · cases h
        exact .unqueued rfl rfl

theorem queueSearch_spec {context : HttpHandlerContext D} {req : EvhttpRequest} {fakeReq : Bool}
    {body : Option (OpBody D)} {r : HandlerResult D} (hbody : ∀ b ∈ body, b.mutates = false)
    (h : queueSearch context req fakeReq body = some r) : Handled context req fakeReq r := by
  cases body with
  | none =>
    cases h
    exact .unqueued rfl rfl
  | some b =>
    have hb := hbody b rfl
    unfold queueSearch at h
    rw [← hb] at h
    exact queueOp_spec _ h rfl (fun hm => by rw [hb] at hm; cases hm)

theorem searchOp_spec [Dimension D] {context : HttpHandlerContext D} {req : EvhttpRequest} {fakeReq : Bool} {layerName : Key}
    {searchType query : Bytes} {options : SearchOptions D} {r : HandlerResult D}
    (h : searchOp context req fakeReq layerName searchType query options = some r) : Handled context req fakeReq r := by
  unfold searchOp at h
  split at h
  · exact queueSearch_spec (by simp [OpBody.mutates]) h
  · split at h
    · exact queueSearch_spec (by simp [OpBody.mutates]) h
    · split at h
      · split at h
        · cases h
          exact .unqueued rfl rfl
        · simp only [Option.bind_eq_some_iff] at h
          obtain ⟨pattern, _, h⟩ := h
          exact queueOp_spec (.searchInKeys layerName pattern options) h rfl (fun hm => nomatch hm)
      · cases h
        exact .unqueued rfl rfl

theorem handleDomainSearch_spec [Dimension D] {context : HttpHandlerContext D} {req : EvhttpRequest} {uri : Bytes}
    {opts : Option Bytes} {fakeReq : Bool} {r : HandlerResult D}
    (h : handleDomainSearch req context uri opts fakeReq = some r) : Handled context req fakeReq r := by
  unfold handleDomainSearch at h
  split at h
  · cases h
    exact .unqueued rfl rfl
  · split at h
    · cases h
      exact .unqueued rfl rfl
    · cases h
      exact .unqueued rfl rfl
    · simp only [Option.bind_eq_bind, Option.bind_eq_some_iff] at h
      obtain ⟨layerName, _, h⟩ := h
      split at h
      · cases h
        exact .unqueued rfl rfl
      · cases h
        exact .unqueued rfl rfl
      · obtain ⟨⟨ret, options⟩, _, h⟩ := Option.bind_eq_some_iff.1 h
        simp only at h
        split at h
        · cases h
          exact .unqueued rfl rfl
        · exact searchOp_spec h

theorem handleSpecialOpSystemRewrite_cqueue {context context' : HttpHandlerContext D} {fakeReq : Bool}
    {fork : Option Nat} {ret : Int} (h : handleSpecialOpSystemRewrite context fakeReq fork = some (ret, context')) :
    context'.cqueue = context.cqueue := by
  unfold handleSpecialOpSystemRewrite at h
  simp only at h
  split at h
  · cases h
    rfl
  · split at h
    · cases h
      rfl
    · split at h
      · cases h
        rfl
      · simp only [startWorkers, stopWorkers, Bool.false_eq_true, if_false, Option.map_some] at h
        cases h
        rfl

theorem handleDomainSystem_spec {context : HttpHandlerContext D} {req : EvhttpRequest} {uri : Bytes} {fakeReq : Bool}
    {fork : Option Nat} {r : HandlerResult D} (h : handleDomainSystem req context uri fakeReq fork = some r) :
    Handled context req fakeReq r := by
  unfold handleDomainSystem at h
  split at h
  · exact queueOp_spec .systemPing h rfl (fun hm => nomatch hm)
  · split at h
    · cases h
      exact .unqueued rfl rfl
    · split at h
      · obtain ⟨⟨ret, context'⟩, hrewrite, rfl⟩ := Option.map_eq_some_iff.1 h
        have hq := handleSpecialOpSystemRewrite_cqueue hrewrite
        exact .unqueued hq rfl
      · cases h
        exact .unqueued rfl rfl

theorem domainHandler_spec [Dimension D] {context : HttpHandlerContext D} {req : EvhttpRequest} {u : ApiUri} {fakeReq : Bool}
    {fork : Option Nat} {r : HandlerResult D} (h : domainHandler req context u fakeReq fork = some (some r)) :
    Handled context req fakeReq r := by
  unfold domainHandler at h
  repeat' split at h
  · exact handleDomainRecords_spec (by simpa using h)
  · exact handleDomainSearch_spec (by simpa using h)
  · exact handleDomainLayers_spec (by simpa using h)
  · exact handleDomainSystem_spec (by simpa using h)
  · cases h

/-! ## Which mutations reach the journal -/

/-- **A request that queued a mutation went through the journal**: its handler asked for a record, and
`add_to_db_log` was called in the state the operation left. -/
theorem processApiRequest_queued [Dimension D] {context context' : HttpHandlerContext D} {uri : Bytes}
    {req req' : EvhttpRequest} {fork : Option Nat} {ret : Int} {l : List (Op D)} {op : Op D}
    (h : processApiRequest context uri req false fork = some (ret, context', req')) (hl : context.cqueue.Holds l)
    (hl' : context'.cqueue.Holds (l ++ [op])) (hm : op.body.mutates = true) :
    ret = 0 ∧ ∃ opTid cqueue,
      context' = (addToDbLog { context with opTid, cqueue } req.type uri (handledBody req) true).1 := by
  have hsame : context'.cqueue = context.cqueue → False := fun he => by
    have := (he ▸ hl').unique hl
    simp at this
  unfold processApiRequest at h
  split at h
  · cases h
    exact (hsame rfl).elim
  · obtain ⟨o, ho, h⟩ := Option.map_eq_some_iff.1 h
    cases o with
    | none =>
      cases h
      exact (hsame rfl).elim
    | some r =>
      simp only [endApiRequest, sendError] at h
      cases domainHandler_spec ho with
      | unqueued hq hlog =>
        rw [hlog] at h
        split at h <;> cases h
        · exact (hsame hq).elim
        · exact (hsame hq).elim
      | queued body opTid hret hlog hpush hcontext hreq =>
        obtain ⟨q, ret', hpush', _, hcase⟩ := pushCqueue_spec hl ⟨false, opTid, body⟩
        rw [hpush, Option.some.injEq, Prod.mk.injEq] at hpush'
        obtain ⟨rfl, rfl⟩ := hpush'
        have hq : r.context.cqueue.Holds (l ++ [⟨false, opTid, body⟩]) := by
          rcases hcase with ⟨_, _, hq⟩ | ⟨_, hneg, _⟩
          · exact hq
          · cases hneg
        have hop : context'.cqueue = r.context.cqueue := by
          rw [if_neg (by simp [hret])] at h
          split at h <;> cases h
          · exact addToDbLog_cqueue _ _ _ _ _
          · rfl
        have hbody : op.body = body := by
          have := (hop ▸ hl').unique hq
          simp only [List.append_cancel_left_eq, List.cons.injEq, and_true] at this
          rw [this]
        rw [hbody] at hm
        rw [if_neg (by simp [hret]), if_pos (by simp [hlog, hm]), hreq.1, hreq.2 hm, hcontext] at h
        cases h
        exact ⟨rfl, opTid, _, rfl⟩

/-- **The journal is complete for a request exactly when** its URI is at most as long as the journal takes, the body it
leaves in its buffer is, and that body ends with no NUL but the one of a PUT.  The limits of the request path are on
the decoded URI. -/
theorem journal_complete_iff [Dimension D] {context context' : HttpHandlerContext D} {uri file : Bytes}
    {req req' : EvhttpRequest} {fork : Option Nat} {ret : Int} {l : List (Op D)} {op : Op D}
    (hopen : context.dbLog.dbLogFd = some file)
    (h : processApiRequest context uri req false fork = some (ret, context', req')) (hl : context.cqueue.Holds l)
    (hl' : context'.cqueue.Holds (l ++ [op])) (hm : op.body.mutates = true) :
    context'.dbLog.journal =
        context.dbLog.journal ++ timestampMark context ++ logRecord req.type uri req.inputBuffer ↔
      uri.length ≤ DB_LOG_MAX_URI_LEN ∧ (handledBody req).length ≤ DB_LOG_MAX_BODY_LEN ∧
        (req.type ≠ EVHTTP_REQ_PUT → req.inputBuffer.getLast? ≠ some 0) := by
  obtain ⟨_, opTid, cqueue, hctx⟩ := processApiRequest_queued h hl hl' hm
  by_cases hlim : LogLimits uri (handledBody req)
  · have hj := addToDbLog_journal { context with opTid, cqueue } hopen hlim req.type true
    rw [← hctx] at hj
    have hbody : loggedBody (handledBody req) = req.inputBuffer ↔
        (req.type ≠ EVHTTP_REQ_PUT → req.inputBuffer.getLast? ≠ some 0) := by
      unfold handledBody loggedBody
      by_cases hput : req.type = EVHTTP_REQ_PUT
      · simp [hput]
      · simp only [hput, if_false, ne_eq, not_false_eq_true, true_implies]
        split
        · rename_i hlast
          refine ⟨fun he => ?_, fun hn => absurd hlast hn⟩
          have hne : req.inputBuffer ≠ [] := by
            rintro hnil
            simp [hnil] at hlast
          have := congrArg List.length he
          rw [List.length_dropLast] at this
          have := List.length_pos_of_ne_nil hne
          omega
        · rename_i hlast
          simp [hlast]
    rw [hj, ← hbody]
    refine ⟨fun he => ⟨hlim.1, hlim.2, (logRecord_inj (List.append_cancel_left he)).2.2⟩, fun he => ?_⟩
    rw [he.2.2]
    rfl
  · have hj := addToDbLog_over { context with opTid, cqueue } hopen hlim req.type true
    rw [hj] at hctx
    subst hctx
    refine ⟨fun he => absurd he ?_, fun he => absurd ⟨he.1, he.2.1⟩ hlim⟩
    rw [List.append_assoc]
    simp [DBLog.journal, logRecord_ne_nil]

/-- A server that has just opened an empty journal. -/
def freshContext : HttpHandlerContext ℚ where
  now := 60
  opTid := 0
  cqueue := ⟨fun _ => none, 15, none, none⟩
  dbLog := ⟨some (bytes "db"), some [], 0, [], 1000, 1, none, none, 0⟩
  encodedApiBaseUri := bytes "/api/1.0/"
  shouldExit := false
  thrWorkers := true
  loopExit := false
  activeSlaves := 0
  slavesOut := []
  rewriteReplies := []

/-- The queue with the creation of the layer `x`. -/
def freshQueued : CQueue (Op ℚ) :=
  ⟨Function.update (fun _ => none) 0 (some ⟨false, 1, .layersCreate (bytes "x" ++ [0])⟩), 15, some 0, some 0⟩

theorem freshContext_post (body : Bytes) :
    processApiRequest freshContext (bytes "/api/1.0/layers/x.json") ⟨EVHTTP_REQ_POST, body, []⟩ false none =
      some (0, (addToDbLog { freshContext with opTid := 1, cqueue := freshQueued } EVHTTP_REQ_POST
        (bytes "/api/1.0/layers/x.json") body true).1, ⟨EVHTTP_REQ_POST, body, []⟩) := by
  have hu : apiUri ((bytes "/api/1.0/layers/x.json").drop freshContext.encodedApiBaseUri.length) =
      some ⟨bytes "layers", bytes "x", none⟩ := by decide +kernel
  have hh : domainHandler ⟨EVHTTP_REQ_POST, body, []⟩ freshContext ⟨bytes "layers", bytes "x", none⟩ false none =
      some (some ⟨0, { freshContext with opTid := 1, cqueue := freshQueued }, ⟨EVHTTP_REQ_POST, body, []⟩, true⟩) := rfl
  rw [processApiRequest, hu]
  simp only [hh, Option.map_some, endApiRequest]
  rw [if_neg (by decide), if_pos (by decide)]

theorem freshContext_holds : freshContext.cqueue.Holds [] := CQueue.holds_nil rfl rfl

theorem freshQueued_holds : freshQueued.Holds [⟨false, 1, .layersCreate (bytes "x" ++ [0])⟩] := by
  obtain ⟨q, ret, hpush, _, hcase⟩ := pushCqueue_spec freshContext_holds ⟨false, 1, .layersCreate (bytes "x" ++ [0])⟩
  have hq : q = freshQueued ∧ ret = 0 := by
    cases hpush
    exact ⟨rfl, rfl⟩
  obtain ⟨rfl, rfl⟩ := hq
  rcases hcase with ⟨_, _, h⟩ | ⟨_, h, _⟩
  · exact h
  · cases h

/-- The creation of a layer, with no body. -/
theorem journal_complete_layer : ∃ context' req', processApiRequest freshContext (bytes "/api/1.0/layers/x.json")
      ⟨EVHTTP_REQ_POST, [], []⟩ false none = some (0, context', req') ∧
    context'.dbLog.journal = freshContext.dbLog.journal ++ timestampMark freshContext ++
      logRecord EVHTTP_REQ_POST (bytes "/api/1.0/layers/x.json") [] := by
  refine ⟨_, _, freshContext_post [], ?_⟩
  refine (journal_complete_iff rfl (freshContext_post []) freshContext_holds
    (show CQueue.Holds _ ([] ++ [⟨false, 1, .layersCreate (bytes "x" ++ [0])⟩]) from ?_) rfl).2 (by decide)
  rw [addToDbLog_cqueue]
  exact freshQueued_holds

theorem freshContext_post_over {body : Bytes} (h : DB_LOG_MAX_BODY_LEN < body.length) : ∃ context' req',
    processApiRequest freshContext (bytes "/api/1.0/layers/x.json") ⟨EVHTTP_REQ_POST, body, []⟩ false none =
      some (0, context', req') ∧
    context'.cqueue.Holds [⟨false, 1, .layersCreate (bytes "x" ++ [0])⟩] ∧ context'.dbLog = freshContext.dbLog := by
  refine ⟨_, _, freshContext_post body, ?_, ?_⟩
  · rw [addToDbLog_cqueue]
    exact freshQueued_holds
  · rw [addToDbLog_over _ (show _ = some [] from rfl) (fun hlim => absurd hlim.2 (by omega))]

/-- **A request with a large body is applied and not in the journal**: the creation of a layer with a body of 100001
bytes, which the handler does not look at, is queued and answered; the journal stays as it was. -/
theorem journal_misses_mutation : freshContext.dbLog.dbLogFd = some [] ∧ ∃ context' req',
    processApiRequest freshContext (bytes "/api/1.0/layers/x.json")
      ⟨EVHTTP_REQ_POST, List.replicate 100001 97, []⟩ false none = some (0, context', req') ∧
    context'.cqueue.Holds [⟨false, 1, .layersCreate (bytes "x" ++ [0])⟩] ∧ context'.dbLog = freshContext.dbLog :=
  ⟨rfl, freshContext_post_over (by rw [List.length_replicate]; decide)⟩

end Pincaster
