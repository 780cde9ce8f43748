import Pincaster.HttpServer
import Pincaster.Lib.Runs
/-!
# Workers — the pool of workers between two requests

Only a rewrite stops the workers.  It starts them again behind the fork, also when there is no memory for its reply, but
not when the fork has failed: then the pool is gone, and the next rewrite has no thread to join
(`workers_running_iff`).
-/
namespace Pincaster

open Lib (Bytes bytes caseEq System)

variable {D : Type}

/-! ## A rewrite with all its outcomes -/

/-- What a rewrite meets: the child of its fork, and whether there is memory for `op_reply` and for `json_gen`. -/
structure RewriteOutcome where
  fork : Option Nat
  opReply : Bool
  jsonGen : Bool

/-- `stop_workers` reads the threads it joins out of `thr_workers`, which must not be `NULL`. -/
def joinWorkers (context : HttpHandlerContext D) : Option (HttpHandlerContext D) :=
  if context.thrWorkers then some (stopWorkers context) else none

/-- `handle_special_op_system_rewrite`, every exit of it. -/
def systemRewrite (context : HttpHandlerContext D) (fakeReq : Bool) (outcome : RewriteOutcome) :
    Option (Int × HttpHandlerContext D) :=
  let dbLog := context.dbLog
  if fakeReq ∨ dbLog.dbLogFileName = none ∨ dbLog.dbLogFd = none then some (HTTP_NOCONTENT, context)
  else if dbLog.journalRewriteProcess ≠ none then some (HTTP_NOTMODIFIED, context)
  else do
    let context ← joinWorkers context
    let dbLog := flushDbLog dbLog true
    match outcome.fork with
    | none => some (HTTP_SERVUNAVAIL, { context with dbLog })
    | some child =>
      let context ← startWorkers { context with dbLog := forkDbLog dbLog child }
      if ¬ outcome.opReply then some (HTTP_SERVUNAVAIL, context)
      else if ¬ outcome.jsonGen then some (HTTP_SERVUNAVAIL, context)
      else some (0, { context with rewriteReplies := context.rewriteReplies ++ [context.opTid] })

/-- With a pool and with memory it is the handler that knows nothing of them. -/
theorem systemRewrite_eq {context : HttpHandlerContext D} (hpool : context.thrWorkers = true) (fakeReq : Bool)
    (fork : Option Nat) :
    systemRewrite context fakeReq ⟨fork, true, true⟩ = handleSpecialOpSystemRewrite context fakeReq fork := by
  unfold systemRewrite handleSpecialOpSystemRewrite
  simp only [joinWorkers, if_pos hpool]
  refine ite_congr rfl (fun _ => rfl) (fun _ => ite_congr rfl (fun _ => rfl) (fun _ => ?_))
  cases fork with
  | none => rfl
  | some child => rfl

/-- The condition under which a rewrite forks: a real request, an open journal and no other rewrite. -/
def Forks (context : HttpHandlerContext D) (fakeReq : Bool) : Prop :=
  fakeReq = false ∧ context.dbLog.dbLogFileName ≠ none ∧ context.dbLog.dbLogFd ≠ none ∧
    context.dbLog.journalRewriteProcess = none

/-- **The workers are running**: there is a pool, and nothing tells it to exit. -/
def Running (context : HttpHandlerContext D) : Prop := context.thrWorkers = true ∧ context.shouldExit = false

instance (context : HttpHandlerContext D) : Decidable (Running context) := inferInstanceAs (Decidable (_ ∧ _))

theorem startWorkers_running {context context' : HttpHandlerContext D} (h : startWorkers context = some context') :
    Running context' := by
  unfold startWorkers at h
  split at h
  · cases h
  · cases h
    exact ⟨rfl, rfl⟩

theorem joinWorkers_stopped {context context' : HttpHandlerContext D} (h : joinWorkers context = some context') :
    context'.thrWorkers = false := by
  unfold joinWorkers at h
  split at h <;> cases h
  rfl

/-- **A rewrite leaves the workers running** unless it forks and the fork fails. -/
theorem systemRewrite_running_iff {context context' : HttpHandlerContext D} {fakeReq : Bool} {outcome : RewriteOutcome}
    {ret : Int} (hrunning : Running context) (h : systemRewrite context fakeReq outcome = some (ret, context')) :
    Running context' ↔ ¬ (Forks context fakeReq ∧ outcome.fork = none) := by
  unfold systemRewrite at h
  simp only [Option.bind_eq_bind] at h
  split at h
  · rename_i hclosed
    cases h
    refine iff_of_true hrunning ?_
    rintro ⟨⟨hfake, hname, hfd, -⟩, -⟩
    rcases hclosed with hclosed | hclosed | hclosed
    · exact absurd hclosed (by simp [hfake])
    · exact hname hclosed
    · exact hfd hclosed
  · rename_i hopen
    simp only [not_or, Bool.not_eq_true] at hopen
    split at h
    · rename_i hbusy
      cases h
      refine iff_of_true hrunning ?_
      rintro ⟨⟨-, -, -, hidle⟩, -⟩
      exact hbusy hidle
    · rename_i hidle
      obtain ⟨context₁, hjoin, h⟩ := Option.bind_eq_some_iff.1 h
      cases hfork : outcome.fork with
      | none =>
        simp only [hfork] at h
        cases h
        have hforks : Forks context fakeReq := ⟨hopen.1, hopen.2.1, hopen.2.2, not_not.1 hidle⟩
        have hstopped := joinWorkers_stopped hjoin
        refine iff_of_false (fun hrun => ?_) (fun hno => hno ⟨hforks, rfl⟩)
        exact Bool.false_ne_true (hstopped.symm.trans hrun.1)
      | some child =>
        simp only [hfork] at h
        obtain ⟨context₂, hstart, h⟩ := Option.bind_eq_some_iff.1 h
        have hrun := startWorkers_running hstart
        refine iff_of_true ?_ (fun hfail => nomatch hfail.2)
        split at h
        · cases h
          exact hrun
        · split at h <;> cases h <;> exact hrun

/-- **With a pool no rewrite is without one to join.** -/
theorem systemRewrite_pool {context : HttpHandlerContext D} (hpool : context.thrWorkers = true) (fakeReq : Bool)
    (outcome : RewriteOutcome) : (systemRewrite context fakeReq outcome).isSome := by
  unfold systemRewrite
  simp only [joinWorkers, if_pos hpool, Option.bind_eq_bind, Option.bind_some]
  split
  · rfl
  · split
    · rfl
    · cases outcome.fork with
      | none => rfl
      | some child =>
        simp only [startWorkers, stopWorkers, Bool.false_eq_true, if_false, Option.bind_some]
        split
        · rfl
        · split <;> rfl

/-! ## The other handlers -/

/-- Every result leaves the pool as it was. -/
def SamePool (context : HttpHandlerContext D) (o : Option (HandlerResult D)) : Prop :=
  ∀ r ∈ o, r.context.thrWorkers = context.thrWorkers ∧ r.context.shouldExit = context.shouldExit

section
variable {context : HttpHandlerContext D}

theorem SamePool.status (ret : Int) (opTid : Nat) (req : EvhttpRequest) :
    SamePool context (some ⟨ret, { context with opTid }, req, false⟩) := by
  rintro _ ⟨⟩
  exact ⟨rfl, rfl⟩

theorem SamePool.refused (ret : Int) (req : EvhttpRequest) : SamePool context (some ⟨ret, context, req, false⟩) :=
  .status ret context.opTid req

theorem SamePool.bind {α : Type} {o : Option α} {f : α → Option (HandlerResult D)} (h : ∀ a, SamePool context (f a)) :
    SamePool context (o >>= f) := by
  intro r hr
  obtain ⟨a, -, hr⟩ := Option.bind_eq_some_iff.1 hr
  exact h a r hr

theorem SamePool.ite {c : Prop} [Decidable c] {o o' : Option (HandlerResult D)} (h : SamePool context o)
    (h' : SamePool context o') : SamePool context (if c then o else o') := by
  split
  · exact h
  · exact h'

theorem queueOp_samePool (req : EvhttpRequest) (fakeReq : Bool) (body : OpBody D) (writeToLog : Bool) :
    SamePool context (queueOp context req fakeReq body writeToLog) :=
  .bind fun _ => .ite (fun r hr => by cases hr; exact ⟨rfl, rfl⟩) (fun r hr => by cases hr; exact ⟨rfl, rfl⟩)

theorem handleDomainLayers_samePool (req : EvhttpRequest) (uri : Bytes) (fakeReq : Bool) :
    SamePool context (handleDomainLayers req context uri fakeReq) := by
  have hlayers : ∀ body : Key → OpBody D, SamePool context (layersUri context req uri fakeReq body) := fun body =>
    .ite (.refused _ _) (.bind fun _ => queueOp_samePool _ _ _ _)
  exact .ite (.ite (queueOp_samePool _ _ _ _) (.refused _ _)) (.ite (hlayers _) (.ite (hlayers _) (.refused _ _)))

variable [Dimension D]

theorem handleDomainRecords_samePool (req : EvhttpRequest) (uri : Bytes) (opts : Option Bytes) (fakeReq : Bool) :
    SamePool context (handleDomainRecords req context uri opts fakeReq) := by
  refine .ite (.bind fun keys => ?_) (.refused _ _)
  cases keys with
  | error ret => exact .refused _ _
  | ok keys =>
    have hget : SamePool context (recordsGet context req opts fakeReq keys.1 keys.2) :=
      .bind fun _ => .ite (.refused _ _) (queueOp_samePool _ _ _ _)
    have hput : SamePool context (recordsPut context req fakeReq keys.1 keys.2) :=
      .bind fun _ => .ite (.status _ _ _) (queueOp_samePool _ _ _ _)
    exact .ite hget (.ite hput (queueOp_samePool _ _ _ _))

theorem handleDomainSearch_samePool (req : EvhttpRequest) (uri : Bytes) (opts : Option Bytes) (fakeReq : Bool) :
    SamePool context (handleDomainSearch req context uri opts fakeReq) := by
  have hqueue : ∀ body, SamePool context (queueSearch context req fakeReq body) := fun body => by
    cases body with
    | none => exact .status _ _ _
    | some body => exact queueOp_samePool _ _ _ _
  have hsearch : ∀ layerName searchType query options,
      SamePool context (searchOp context req fakeReq layerName searchType query options) := fun _ _ _ _ =>
    .ite (hqueue _) (.ite (hqueue _) (.ite (.ite (.refused _ _) (.bind fun _ => queueOp_samePool _ _ _ _)) (.refused _ _)))
  refine .ite (.refused _ _) ?_
  split
  · exact .refused _ _
  · exact .refused _ _
  · refine .bind fun layerName => ?_
    split
    · exact .refused _ _
    · exact .refused _ _
    · exact .bind fun _ => .ite (.refused _ _) (hsearch _ _ _ _)

omit [Dimension D] in
/-- A system request other than a rewrite. -/
theorem handleDomainSystem_samePool (req : EvhttpRequest) (uri : Bytes) (fakeReq : Bool) (fork : Option Nat)
    (hrewrite : ¬ (req.type = EVHTTP_REQ_POST ∧ caseEq uri (bytes "rewrite") = true)) :
    SamePool context (handleDomainSystem req context uri fakeReq fork) := by
  unfold handleDomainSystem
  rw [if_neg hrewrite]
  refine .ite (queueOp_samePool _ _ _ _) (.ite ?_ (.refused _ _))
  rintro _ ⟨⟩
  exact ⟨rfl, rfl⟩

end

/-! ## A request -/

variable [Dimension D]

/-- `domainHandler` with all that a rewrite may meet. -/
def handleDomain (req : EvhttpRequest) (context : HttpHandlerContext D) (u : ApiUri) (fakeReq : Bool)
    (outcome : RewriteOutcome) : Option (Option (HandlerResult D)) :=
  if AsksRewrite req u then
    (systemRewrite { context with opTid := context.opTid + 1 } fakeReq outcome).map
      (fun (ret, context) => some ⟨ret, context, req, false⟩)
  else domainHandler req context u fakeReq none

/-- `process_api_request` with it. -/
def processRequest (context : HttpHandlerContext D) (uri : Bytes) (req : EvhttpRequest) (fakeReq : Bool)
    (outcome : RewriteOutcome) : Option (Int × HttpHandlerContext D × EvhttpRequest) :=
  match apiUri (uri.drop context.encodedApiBaseUri.length) with
  | none => some (sendError context req fakeReq HTTP_NOTFOUND)
  | some u => (handleDomain req context u fakeReq outcome).map (fun
    | none => sendError context req fakeReq HTTP_NOTFOUND
    | some r => endApiRequest uri fakeReq r)

/-- Only a rewrite forks. -/
theorem domainHandler_fork {req : EvhttpRequest} {context : HttpHandlerContext D} {u : ApiUri} {fakeReq : Bool}
    (hrewrite : ¬ AsksRewrite req u) (fork : Option Nat) :
    domainHandler req context u fakeReq none = domainHandler req context u fakeReq fork := by
  by_cases hsystem : caseEq (bytes "system") u.domain = true
  · have hno : ¬ (req.type = EVHTTP_REQ_POST ∧ caseEq u.uriPart (bytes "rewrite") = true) := fun h =>
      hrewrite ⟨hsystem, h⟩
    rw [domainHandler_system hsystem, domainHandler_system hsystem, handleDomainSystem, handleDomainSystem,
      if_neg hno, if_neg hno]
  · unfold domainHandler
    simp only [if_neg hsystem]

/-- **With a pool and with memory a request is the one that knows nothing of them.** -/
theorem processRequest_eq {context : HttpHandlerContext D} (hpool : context.thrWorkers = true) (uri : Bytes)
    (req : EvhttpRequest) (fakeReq : Bool) (fork : Option Nat) :
    processRequest context uri req fakeReq ⟨fork, true, true⟩ = processApiRequest context uri req fakeReq fork := by
  unfold processRequest processApiRequest
  cases apiUri (uri.drop context.encodedApiBaseUri.length) with
  | none => rfl
  | some u =>
    have hhandler : handleDomain req context u fakeReq ⟨fork, true, true⟩ = domainHandler req context u fakeReq fork := by
      unfold handleDomain
      by_cases hrewrite : AsksRewrite req u
      · have hping : ¬ caseEq u.uriPart (bytes "ping") = true := fun h => by
          have := caseEq_trans (caseEq_symm h) hrewrite.2.2
          exact absurd this (by decide)
        have hshutdown : ¬ (req.type = EVHTTP_REQ_POST ∧ caseEq u.uriPart (bytes "shutdown") = true) := fun h => by
          have := caseEq_trans (caseEq_symm h.2) hrewrite.2.2
          exact absurd this (by decide)
        rw [if_pos hrewrite, domainHandler_system hrewrite.1, handleDomainSystem, if_neg hping, if_neg hshutdown,
          if_pos hrewrite.2, systemRewrite_eq (show (HttpHandlerContext.thrWorkers { context with
          opTid := context.opTid + 1 }) = true from hpool), Option.map_map]
        rfl
      · rw [if_neg hrewrite, domainHandler_fork hrewrite]
    exact congrArg (Option.map _) hhandler

/-- The request gets to its fork, and the fork fails. -/
def ForkFails (context : HttpHandlerContext D) (uri : Bytes) (req : EvhttpRequest) (fakeReq : Bool)
    (outcome : RewriteOutcome) : Prop :=
  ∃ u ∈ apiUri (uri.drop context.encodedApiBaseUri.length),
    AsksRewrite req u ∧ Forks context fakeReq ∧ outcome.fork = none

omit [Dimension D] in
/-- The end of a request does nothing to the pool. -/
theorem endApiRequest_running (uri : Bytes) (fakeReq : Bool) (r : HandlerResult D) :
    Running (endApiRequest uri fakeReq r).2.1 ↔ Running r.context := by
  have hlog : ∀ verb uri inputBuffer sendToSlaves,
      Running (addToDbLog r.context verb uri inputBuffer sendToSlaves).1 ↔ Running r.context := fun _ _ _ _ => by
    unfold addToDbLog
    split
    · rfl
    · simp only
      split <;> rfl
  unfold endApiRequest
  split
  · rfl
  · split
    · exact hlog _ _ _ _
    · rfl

theorem handleDomain_running_iff {req : EvhttpRequest} {context : HttpHandlerContext D} {u : ApiUri} {fakeReq : Bool}
    {outcome : RewriteOutcome} {r : HandlerResult D} (hrunning : Running context)
    (h : handleDomain req context u fakeReq outcome = some (some r)) :
    Running r.context ↔ ¬ (AsksRewrite req u ∧ Forks context fakeReq ∧ outcome.fork = none) := by
  unfold handleDomain at h
  split at h
  · rename_i hrewrite
    obtain ⟨⟨ret, context'⟩, hsystem, h⟩ := Option.map_eq_some_iff.1 h
    cases h
    have hrunning' : Running { context with opTid := context.opTid + 1 } := hrunning
    rw [systemRewrite_running_iff hrunning' hsystem]
    simp only [hrewrite, true_and]
    rfl
  · rename_i hrewrite
    have hsame : ∀ {o : Option (HandlerResult D)}, SamePool context o → o.map some = some (some r) →
        Running r.context := fun {o} hpool ho => by
      obtain ⟨hthr, hexit⟩ := hpool r (by simpa using ho)
      exact ⟨hthr.trans hrunning.1, hexit.trans hrunning.2⟩
    refine iff_of_true ?_ (fun hfail => hrewrite hfail.1)
    by_cases hsystem : caseEq (bytes "system") u.domain = true
    · rw [domainHandler_system hsystem] at h
      exact hsame (handleDomainSystem_samePool _ _ _ _ (fun hno => hrewrite ⟨hsystem, hno⟩)) h
    · unfold domainHandler at h
      rw [if_neg hsystem] at h
      split at h
      · exact hsame (handleDomainRecords_samePool _ _ _ _) h
      · split at h
        · exact hsame (handleDomainSearch_samePool _ _ _ _) h
        · split at h
          · exact hsame (handleDomainLayers_samePool _ _ _) h
          · cases h

/-- **A request leaves the workers running** unless its fork fails. -/
theorem processRequest_running_iff {context context' : HttpHandlerContext D} {uri : Bytes} {req req' : EvhttpRequest}
    {fakeReq : Bool} {outcome : RewriteOutcome} {ret : Int} (hrunning : Running context)
    (h : processRequest context uri req fakeReq outcome = some (ret, context', req')) :
    Running context' ↔ ¬ ForkFails context uri req fakeReq outcome := by
  unfold processRequest at h
  unfold ForkFails
  cases hu : apiUri (uri.drop context.encodedApiBaseUri.length) with
  | none =>
    simp only [hu] at h
    cases h
    exact iff_of_true hrunning (by simp)
  | some u =>
    simp only [hu] at h
    obtain ⟨o, hhandler, h⟩ := Option.map_eq_some_iff.1 h
    have hone : (∃ u' ∈ some u, AsksRewrite req u' ∧ Forks context fakeReq ∧ outcome.fork = none) ↔
        AsksRewrite req u ∧ Forks context fakeReq ∧ outcome.fork = none := by simp
    rw [hone]
    cases o with
    | none =>
      cases h
      refine iff_of_true hrunning (fun hfail => ?_)
      unfold handleDomain at hhandler
      rw [if_pos hfail.1] at hhandler
      obtain ⟨p, -, hp⟩ := Option.map_eq_some_iff.1 hhandler
      cases hp
    | some r =>
      have hend : (endApiRequest uri fakeReq r).2.1 = context' := congrArg (fun p => p.2.1) h
      rw [← handleDomain_running_iff hrunning hhandler, ← endApiRequest_running uri fakeReq r, hend]

/-! ## The main thread -/

/-- What happens to the state of the main thread: it handles a request, a worker takes an operation, `sigchld_cb` sees the
end of a child with the dump that replaces the journal or with none, `flush_log_db` is due, the clock ticks. -/
inductive MainStep where
  | request (uri : Bytes) (req : EvhttpRequest) (fakeReq : Bool) (outcome : RewriteOutcome)
  | dequeue
  | childEnd (dump : Option Bytes)
  | flush
  | tick (now : Int)

def mainStep (context : HttpHandlerContext D) : MainStep → Option (HttpHandlerContext D)
  | .request uri req fakeReq outcome => (processRequest context uri req fakeReq outcome).map (fun r => r.2.1)
  | .dequeue => (shiftCqueue context.cqueue).map (fun r => { context with cqueue := r.1 })
  | .childEnd none => some { context with dbLog := { context.dbLog with journalRewriteProcess := none } }
  | .childEnd (some dump) => (systemRewriteAfterForkCb dump context.dbLog).map (fun dbLog => { context with dbLog })
  | .flush => some { context with dbLog := flushDbLog context.dbLog true }
  | .tick now => some { context with now }

/-- The main thread from the end of the start-up on. -/
def mainSystem (context : HttpHandlerContext D) : System (HttpHandlerContext D) MainStep where
  init := context
  legal context
    | .dequeue => context.thrWorkers = true
    | .childEnd _ => context.dbLog.journalRewriteProcess ≠ none
    | _ => True
  step := mainStep

/-- The step is a request whose fork fails. -/
def StepForkFails (context : HttpHandlerContext D) : MainStep → Prop
  | .request uri req fakeReq outcome => ForkFails context uri req fakeReq outcome
  | _ => False

theorem mainStep_running_iff {context context' : HttpHandlerContext D} {step : MainStep} (hrunning : Running context)
    (h : mainStep context step = some context') : Running context' ↔ ¬ StepForkFails context step := by
  cases step with
  | request uri req fakeReq outcome =>
    obtain ⟨⟨ret, context₁, req'⟩, hrequest, h⟩ := Option.map_eq_some_iff.1 h
    cases h
    exact processRequest_running_iff hrunning hrequest
  | dequeue =>
    obtain ⟨r, -, h⟩ := Option.map_eq_some_iff.1 h
    cases h
    exact iff_of_true hrunning id
  | childEnd dump =>
    refine iff_of_true ?_ id
    cases dump with
    | none =>
      cases h
      exact hrunning
    | some dump =>
      obtain ⟨dbLog, -, h⟩ := Option.map_eq_some_iff.1 h
      cases h
      exact hrunning
  | flush =>
    cases h
    exact iff_of_true hrunning id
  | tick now =>
    cases h
    exact iff_of_true hrunning id

/-- **The workers are running all along a run of the main thread** exactly when no request forks in vain. -/
theorem workers_running_iff {stopped context : HttpHandlerContext D} (hstart : startWorkers stopped = some context)
    {h : List (HttpHandlerContext D × MainStep)} {last : HttpHandlerContext D} (hrun : (mainSystem context).Run h last) :
    ((∀ p ∈ h, Running p.1) ∧ Running last) ↔ ∀ p ∈ h, ¬ StepForkFails p.1 p.2 :=
  hrun.law_iff_good (startWorkers_running hstart) (fun _ hrunning => hrunning)
    (fun _ _ _ hrunning _ hgood hstep => (mainStep_running_iff hrunning hstep).2 hgood)
    (fun _ _ _ hrunning _ hbad hstep hrunning' => hbad ((mainStep_running_iff hrunning hstep).1 hrunning'))

/-- A server with an open journal, before its workers are started. -/
def beforeStart : HttpHandlerContext ℚ where
  now := 60
  opTid := 0
  cqueue := ⟨fun _ => none, 15, none, none⟩
  dbLog := ⟨some (bytes "pincaster.db"), some [], 0, [], 1000, 1, none, none, 0⟩
  encodedApiBaseUri := bytes "/api/1.0/"
  shouldExit := false
  thrWorkers := false
  loopExit := false
  activeSlaves := 0
  slavesOut := []
  rewriteReplies := []

def afterStart : HttpHandlerContext ℚ := { beforeStart with thrWorkers := true }

/-- A request for a rewrite. -/
def rewriteStep (outcome : RewriteOutcome) : MainStep :=
  .request (bytes "/api/1.0/system/rewrite.json") ⟨EVHTTP_REQ_POST, [], []⟩ false outcome

theorem run_rewrite {context last : HttpHandlerContext D} {outcome : RewriteOutcome}
    (hstep : mainStep context (rewriteStep outcome) = some last) :
    (mainSystem context).Run [(context, rewriteStep outcome)] last := .snoc .init trivial hstep

/-- A rewrite that forks and has no memory for its reply. -/
theorem workers_running_rewrite : ∃ last, (mainSystem afterStart).Run [(afterStart, rewriteStep ⟨some 7, false, false⟩)] last ∧
    Running afterStart ∧ Running last := by
  have hsome : (mainStep afterStart (rewriteStep ⟨some 7, false, false⟩)).isSome = true := by decide +kernel
  obtain ⟨last, hlast⟩ := Option.isSome_iff_exists.1 hsome
  have hrun := run_rewrite hlast
  have hstart : startWorkers beforeStart = some afterStart := rfl
  have hgood : ∀ p ∈ [(afterStart, rewriteStep ⟨some 7, false, false⟩)], ¬ StepForkFails p.1 p.2 := fun p hp => by
    rw [List.mem_singleton.1 hp]
    rintro ⟨_, -, -, -, hfork⟩
    cases hfork
  obtain ⟨hstates, hrunning⟩ := (workers_running_iff hstart hrun).2 hgood
  exact ⟨last, hrun, hstates _ List.mem_cons_self, hrunning⟩

/-- **A fork that fails leaves no worker**, and the next rewrite nothing to join. -/
theorem workers_stay_stopped : (¬ ∀ (stopped context : HttpHandlerContext ℚ), startWorkers stopped = some context →
      ∀ h last, (mainSystem context).Run h last → Running last) ∧
    ∃ last, mainStep afterStart (rewriteStep ⟨none, true, true⟩) = some last ∧
      mainStep last (rewriteStep ⟨some 7, true, true⟩) = none := by
  have hsome : (mainStep afterStart (rewriteStep ⟨none, true, true⟩)).isSome = true := by decide +kernel
  have hthr : (mainStep afterStart (rewriteStep ⟨none, true, true⟩)).map (fun c => c.thrWorkers) = some false := by
    decide +kernel
  have hsecond : (mainStep afterStart (rewriteStep ⟨none, true, true⟩)).bind
      (fun c => (mainStep c (rewriteStep ⟨some 7, true, true⟩)).map (fun c => c.thrWorkers)) = none := by
    decide +kernel
  obtain ⟨last, hlast⟩ := Option.isSome_iff_exists.1 hsome
  rw [hlast] at hthr hsecond
  refine ⟨fun h => ?_, last, hlast, by simpa using hsecond⟩
  have hrunning := (h beforeStart afterStart rfl _ last (run_rewrite hlast)).1
  rw [Option.map_some, hrunning] at hthr
  cases hthr

end Pincaster
