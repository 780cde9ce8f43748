import Pincaster.ReplyPipe
import Pincaster.ServerRuns
/-!
# HttpAnswers — from the requests to what the clients are sent

The requests, the workers and the store (`ServerRuns`) with the pipe of the replies (`ReplyPipe`).  Every request over HTTP
that was queued or has started a rewrite is answered once (`requests_answered_once`), and a server that is left alone
gets there (`requests_answered`).
-/
namespace Pincaster

open Lib (Bytes bytes System)

variable {D : Type} {n : Nat}

/-! ## The whole way -/

/-- The type of the reply of a handler. -/
def OpBody.opType : OpBody D → OpType
  | .systemPing => .systemPing
  | .layersCreate _ => .layersCreate
  | .layersDelete _ => .layersDelete
  | .layersIndex => .layersIndex
  | .recordsPut _ => .recordsPut
  | .recordsGet _ _ _ => .recordsGet
  | .recordsDelete _ _ => .recordsDelete
  | .searchNearby _ _ _ => .searchNearby
  | .searchInRect _ _ _ => .searchInRect
  | .searchInKeys _ _ _ => .searchInKeys

/-- The reply as it is allocated; the request of an operation has its number. -/
def bareOpReply (op : Op D) (opReply : OpReply D) : BareOpReply where
  type := match opReply.json with
    | .error => .error
    | _ => op.body.opType
  req := op.opTid
  opTid := opReply.opTid

/-- The reply of a rewrite. -/
def rewriteOpReply (opTid : Nat) : BareOpReply := ⟨.systemRewrite, opTid, opTid⟩

/-- The server with its pipe, in which thread 0 is the main thread and the others are those of the workers; `toSend` are
the replies of the workers that no thread has allocated yet. -/
structure AnswerServer (D : Type) (n : Nat) where
  server : ReplyServer D
  pipe : ReplyPipe (n + 1)
  toSend : List BareOpReply

/-- A step of the server, of a worker that takes one of the replies to send, or of the pipe.  In a step of the server
`ptr` is the pointer for a reply that the main thread sends itself. -/
inductive AnswerStep (n : Nat) where
  | serve (i : ReplyStep) (ptr : UInt64)
  | allocate (thread : Fin n) (ptr : UInt64) (index : Nat)
  | pipe (i : PipeStep (n + 1))

def PipeStep.consumes : PipeStep n → Bool
  | .consume _ => true
  | .allocate _ _ _ | .check _ | .write _ _ | .move _ => false

/-- The main thread serves requests, purges and consumes when it is not sending a reply itself. -/
def AnswerStep.legal (s : AnswerServer D n) : AnswerStep n → Prop
  | .serve i ptr => i.Works ∨ (s.pipe.senders 0 = none ∧ s.pipe.cells ptr = none)
  | .allocate thread ptr index =>
    index < s.toSend.length ∧ s.pipe.senders thread.succ = none ∧ s.pipe.cells ptr = none
  | .pipe i => i.legal s.pipe ∧ i.allocated = [] ∧ (i.consumes = true → s.pipe.senders 0 = none)

section
variable [Dimension D] [Field D] [LinearOrder D]

/-- The reply that the main thread makes, in the handler of a rewrite. -/
def mainReply (s : ReplyServer D) : ReplyStep → Option BareOpReply
  | .request uri req fakeReq fork => (processApiRequest s.context uri req fakeReq fork).bind (fun (_, context, _) =>
      (context.rewriteReplies.drop s.context.rewriteReplies.length).head?.map rewriteOpReply)
  | .dequeue _ | .finish _ | .purge _ => none

/-- The replies that the handler of a worker makes. -/
def newReplies (env : SearchEnv D Nat) (s : ReplyServer D) : ReplyStep → List BareOpReply
  | .finish worker =>
    ((takeInflight worker s.inflight).bind (fun p => (SlabStore.workerDoWork env p.1 s.store).map
      (fun r => r.2.map (bareOpReply p.1)))).getD []
  | .request _ _ _ _ | .dequeue _ | .purge _ => []

def answerStep (env : SearchEnv D Nat) (maxQueuedReplies : Nat) (s : AnswerServer D n) :
    AnswerStep n → Option (AnswerServer D n)
  | .serve i ptr => do
    let server ← replyStep env s.server i
    let pipe ← (mainReply s.server i).elim (some s.pipe) (fun opReply =>
      pipeStep maxQueuedReplies s.pipe (.allocate 0 ptr opReply))
    some ⟨server, pipe, s.toSend ++ newReplies env s.server i⟩
  | .allocate thread ptr index => do
    let opReply ← s.toSend[index]?
    let pipe ← pipeStep maxQueuedReplies s.pipe (.allocate thread.succ ptr opReply)
    some { s with pipe, toSend := s.toSend.eraseIdx index }
  | .pipe i => (pipeStep maxQueuedReplies s.pipe i).map (fun pipe => { s with pipe })

def answerSystem (env : SearchEnv D Nat) (context : HttpHandlerContext D) (n maxQueuedReplies : Nat) :
    System (AnswerServer D n) (AnswerStep n) where
  init := ⟨(replySystem env context).init, (pipeSystem (n + 1) maxQueuedReplies).init, []⟩
  legal := AnswerStep.legal
  step := answerStep env maxQueuedReplies

end

/-- A step loses no layer. -/
def AnswerServer.KeepsLayers (s : AnswerServer D n) : AnswerStep n → Prop
  | .serve i _ => s.server.KeepsLayers i
  | .allocate _ _ _ | .pipe _ => True

/-- **Nothing is left to do.** -/
structure AnswerServer.Idle (s : AnswerServer D n) : Prop where
  queue : s.server.context.cqueue.Holds []
  inflight : s.server.inflight = []
  toSend : s.toSend = []
  senders : ∀ thread, s.pipe.senders thread = none
  input : s.pipe.input = []
  output : s.pipe.output = []

/-- The numbers of the requests whose clients were sent something. -/
def AnswerServer.sentTids (s : AnswerServer D n) : List Nat := s.pipe.sent.map (fun p => p.1.opTid)

/-- The numbers of the requests over HTTP that wait for a reply or have it: of the operations that were queued, and of the
rewrites. -/
def ReplyServer.askedTids (s : ReplyServer D) : List Nat := httpTids s.queued ++ s.context.rewriteReplies

/-! ## Accounts -/

/-- **The rewrites have numbers of their own.** -/
structure Rewrites (s : ReplyServer D) : Prop where
  nodup : s.context.rewriteReplies.Nodup
  bounded : ∀ opTid ∈ s.context.rewriteReplies, opTid ≤ s.context.opTid
  apart : ∀ op ∈ s.queued, op.opTid ∉ s.context.rewriteReplies

/-- **Every reply that was published is somewhere**, and in one place. -/
structure Routed (s : AnswerServer D n) (queue : List (Op D)) (pending : List UInt64) : Prop where
  accounts : Accounts s.server queue
  rewrites : Rewrites s.server
  pipe : InPipe s.pipe pending
  published : ((s.pipe.written ++ held s.pipe ++ s.toSend).map BareOpReply.opTid).Perm
    (s.server.published.map OpReply.opTid ++ s.server.context.rewriteReplies)

section
variable {s : ReplyServer D} {queue : List (Op D)}

/-- **No two requests have one number.** -/
theorem Rewrites.asked_nodup (h : Rewrites s) (hinv : Accounts s queue) : s.askedTids.Nodup := by
  refine List.nodup_append.2 ⟨hinv.account.nodup_iff.2 hinv.nodup, h.nodup, ?_⟩
  rintro opTid hqueued opTid' hrewrite rfl
  obtain ⟨op, hop, rfl⟩ := List.mem_map.1 hqueued
  exact h.apart op (List.mem_filter.1 hop).1 hrewrite

theorem Rewrites.same {s' : ReplyServer D} (h : Rewrites s)
    (hmain : s'.context.rewriteReplies = s.context.rewriteReplies) (hopTid : s.context.opTid ≤ s'.context.opTid)
    (hqueued : s'.queued = s.queued) : Rewrites s' := by
  refine ⟨hmain ▸ h.nodup, fun opTid hmem => ?_, fun op hop => ?_⟩
  · rw [hmain] at hmem
    exact (h.bounded opTid hmem).trans hopTid
  · rw [hmain]
    exact h.apart op (hqueued ▸ hop)

end

section
variable [Dimension D] [Field D] [LinearOrder D] {env : SearchEnv D Nat} {init : HttpHandlerContext D}
  {maxQueuedReplies : Nat}

section
variable {s s' : ReplyServer D} {queue : List (Op D)}

/-- **A request publishes nothing, or the reply of a rewrite.** -/
theorem Rewrites.request (hrewrites : Rewrites s) (hinv : Accounts s queue) {uri : Bytes} {req : EvhttpRequest}
    {fakeReq : Bool} {fork : Option Nat} (h : replyStep env s (.request uri req fakeReq fork) = some s') :
    Rewrites s' ∧ s'.context.rewriteReplies = s.context.rewriteReplies ++
      (mainReply s (.request uri req fakeReq fork)).toList.map BareOpReply.opTid := by
  obtain ⟨⟨ret, context, req'⟩, hreq, rfl⟩ := Option.map_eq_some_iff.1 h
  have hmain : mainReply s (.request uri req fakeReq fork) =
      (context.rewriteReplies.drop s.context.rewriteReplies.length).head?.map rewriteOpReply := by
    rw [mainReply, hreq, Option.bind_some]
  have hsame : context.rewriteReplies = s.context.rewriteReplies → context.rewriteReplies =
      s.context.rewriteReplies ++ (mainReply s (.request uri req fakeReq fork)).toList.map BareOpReply.opTid := by
    intro heq
    rw [hmain, heq, List.drop_length, List.head?_nil, Option.map_none, Option.toList_none, List.map_nil, List.append_nil]
  obtain ⟨status, req'', hanswered, -⟩ := processApiRequest_answered hreq
  cases hanswered with
  | refused ret hret hreq hq hsent hopTid =>
    exact ⟨hrewrites.same hsent hopTid (by simp [hq, pushed_self]), hsame hsent⟩
  | inline hasked hreq hq hsent hopTid =>
    exact ⟨hrewrites.same hsent hopTid (by simp [hq, pushed_self]), hsame hsent⟩
  | queued op hreq hpush hfake hsent hopTid =>
    refine ⟨⟨hsent ▸ hrewrites.nodup, fun opTid hmem => ?_, fun op' hop' hmem => ?_⟩, hsame hsent⟩
    · rw [hsent] at hmem
      exact (hrewrites.bounded opTid hmem).trans (hopTid.1.trans_eq hopTid.2).le
    · dsimp only at hmem hop'
      rw [hsent] at hmem
      rw [pushed_of_push hinv.holds hpush, Option.toList_some] at hop'
      rcases List.mem_append.1 hop' with hop' | hop'
      · exact hrewrites.apart op' hop' hmem
      · rw [List.mem_singleton.1 hop'] at hmem
        exact absurd (hrewrites.bounded _ hmem) (Nat.not_le.2 hopTid.1)
  | published hasked hreq hq hfake hsent hopTid =>
    have hnew : ∀ opTid ∈ s.context.rewriteReplies, opTid < context.opTid := fun opTid hmem =>
      (hrewrites.bounded opTid hmem).trans_lt hopTid
    refine ⟨⟨?_, fun opTid hmem => ?_, fun op hop hmem => ?_⟩, ?_⟩
    · dsimp only
      rw [hsent, ← List.concat_eq_append]
      exact hrewrites.nodup.concat (fun hmem => absurd (hnew _ hmem) (Nat.lt_irrefl _))
    · dsimp only at hmem ⊢
      rw [hsent] at hmem
      rcases List.mem_append.1 hmem with hmem | hmem
      · exact (hnew opTid hmem).le
      · exact (List.mem_singleton.1 hmem).le
    · dsimp only at hmem hop
      rw [hq, pushed_self, Option.toList_none, List.append_nil] at hop
      rw [hsent] at hmem
      rcases List.mem_append.1 hmem with hmem | hmem
      · exact hrewrites.apart op hop hmem
      · exact absurd ((hinv.bounded op hop).trans_lt hopTid) (Nat.not_lt.2 (List.mem_singleton.1 hmem).ge)
    · dsimp only
      rw [hmain, hsent, List.drop_left]
      rfl

theorem Rewrites.step (hrewrites : Rewrites s) (hinv : Accounts s queue) {i : ReplyStep}
    (h : replyStep env s i = some s') : Rewrites s' ∧ s'.context.rewriteReplies = s.context.rewriteReplies ++
      (mainReply s i).toList.map BareOpReply.opTid := by
  have hother : s'.context.rewriteReplies = s.context.rewriteReplies → s'.context.opTid = s.context.opTid →
      s'.queued = s.queued → mainReply s i = none → Rewrites s' ∧ s'.context.rewriteReplies =
        s.context.rewriteReplies ++ (mainReply s i).toList.map BareOpReply.opTid := by
    intro hsame hopTid hqueued hmain
    refine ⟨hrewrites.same hsame hopTid.ge hqueued, ?_⟩
    rw [hsame, hmain, Option.toList_none, List.map_nil, List.append_nil]
  cases i with
  | request uri req fakeReq fork => exact hrewrites.request hinv h
  | dequeue worker =>
    obtain ⟨q, hshift, -, -⟩ := shiftCqueue_spec hinv.holds
    simp only [replyStep, hshift, Option.bind_eq_bind, Option.bind_some] at h
    split at h
    · cases h
      exact hother rfl rfl rfl rfl
    · cases queue with
      | nil =>
        cases h
        exact hother rfl rfl rfl rfl
      | cons op queue =>
        cases h
        exact hother rfl rfl rfl rfl
  | finish worker =>
    simp only [replyStep, Option.bind_eq_bind, Option.bind_eq_some_iff] at h
    obtain ⟨p, -, r, -, h⟩ := h
    cases h
    exact hother rfl rfl rfl rfl
  | purge now =>
    obtain ⟨store, -, rfl⟩ := Option.map_eq_some_iff.1 h
    exact hother rfl rfl rfl rfl

theorem newReplies_opTid (hinv : Accounts s queue) {i : ReplyStep} (h : replyStep env s i = some s') :
    s'.published.map OpReply.opTid = s.published.map OpReply.opTid ++ (newReplies env s i).map BareOpReply.opTid := by
  have hother : s'.published = s.published → newReplies env s i = [] → s'.published.map OpReply.opTid =
      s.published.map OpReply.opTid ++ (newReplies env s i).map BareOpReply.opTid := by
    intro hsame hnone
    rw [hsame, hnone, List.map_nil, List.append_nil]
  cases i with
  | request uri req fakeReq fork =>
    obtain ⟨⟨ret, context, req'⟩, -, rfl⟩ := Option.map_eq_some_iff.1 h
    exact hother rfl rfl
  | dequeue worker =>
    obtain ⟨q, hshift, -, -⟩ := shiftCqueue_spec hinv.holds
    simp only [replyStep, hshift, Option.bind_eq_bind, Option.bind_some] at h
    split at h
    · cases h
      exact hother rfl rfl
    · cases queue with
      | nil =>
        cases h
        exact hother rfl rfl
      | cons op queue =>
        cases h
        exact hother rfl rfl
  | finish worker =>
    simp only [replyStep, Option.bind_eq_bind, Option.bind_eq_some_iff] at h
    obtain ⟨⟨op, inflight⟩, htake, ⟨store, replies⟩, hwork, h⟩ := h
    rw [← Option.some.inj h, newReplies, htake, Option.bind_some, hwork, Option.map_some, Option.getD_some,
      List.map_append, List.map_map]
    rfl
  | purge now =>
    obtain ⟨store, -, rfl⟩ := Option.map_eq_some_iff.1 h
    exact hother rfl rfl

omit [Field D] [LinearOrder D] in
theorem mainReply_of_works {i : ReplyStep} (h : i.Works) : mainReply s i = none := by
  cases i with
  | request uri req fakeReq fork => cases h
  | dequeue worker => rfl
  | finish worker => rfl
  | purge now => cases h

end

variable {s s' : AnswerServer D n} {queue : List (Op D)} {pending : List UInt64}

/-- **A step of the server** puts into the pipe what the main thread sends. -/
theorem Routed.serve (h : Routed s queue pending) {i : ReplyStep} {ptr : UInt64}
    (hlegal : AnswerStep.legal s (.serve i ptr)) (hs : answerStep env maxQueuedReplies s (.serve i ptr) = some s') :
    ∃ queue' pending', Routed s' queue' pending' := by
  simp only [answerStep, Option.bind_eq_bind, Option.bind_eq_some_iff] at hs
  obtain ⟨server, hserver, pipe, hpipe, hs⟩ := hs
  obtain ⟨queue', haccounts⟩ := h.accounts.step hserver
  obtain ⟨hrewrites, hmain⟩ := h.rewrites.step h.accounts hserver
  obtain ⟨pending', hpipe', hheld⟩ : ∃ pending', InPipe pipe pending' ∧
      (pipe.written ++ held pipe).Perm ((mainReply s.server i).toList ++ (s.pipe.written ++ held s.pipe)) := by
    cases hreply : mainReply s.server i with
    | none =>
      rw [hreply] at hpipe
      cases hpipe
      exact ⟨pending, h.pipe, .refl _⟩
    | some opReply =>
      have hfree : PipeStep.legal s.pipe (.allocate 0 ptr opReply) := hlegal.resolve_left (fun hworks => by
        rw [mainReply_of_works hworks] at hreply
        cases hreply)
      replace hpipe : pipeStep maxQueuedReplies s.pipe (.allocate 0 ptr opReply) = some pipe := by
        rwa [hreply] at hpipe
      obtain ⟨pending', hpipe'⟩ := h.pipe.step hfree hpipe
      exact ⟨pending', hpipe', h.pipe.held_step hfree hpipe⟩
  cases hs
  refine ⟨queue', pending', haccounts, hrewrites, hpipe', ?_⟩
  dsimp only
  rw [newReplies_opTid h.accounts hserver, hmain]
  -- the replies of before, that of the main thread and those of a worker
  have hall := (hheld.append_right (s.toSend ++ newReplies env s.server i)).map BareOpReply.opTid
  have hbefore := (h.published.append_right ((newReplies env s.server i).map BareOpReply.opTid)).append_left
    ((mainReply s.server i).toList.map BareOpReply.opTid)
  refine hall.trans (List.Perm.trans (.of_eq ?_) (hbefore.trans ?_))
  · simp only [List.map_append, List.append_assoc]
  · rw [List.append_assoc, List.append_assoc]
    refine (List.perm_append_comm_assoc _ _ _).trans (List.Perm.append_left _ ?_)
    refine (List.perm_append_comm_assoc _ _ _).trans ?_
    exact (List.perm_append_comm.append_left _).trans (List.perm_append_comm_assoc _ _ _)

/-- **A step loses no reply and doubles none.** -/
theorem Routed.step (h : Routed s queue pending) {i : AnswerStep n} (hlegal : i.legal s)
    (hs : answerStep env maxQueuedReplies s i = some s') : ∃ queue' pending', Routed s' queue' pending' := by
  cases i with
  | serve i ptr => exact h.serve hlegal hs
  | allocate thread ptr index =>
    obtain ⟨hindex, hfree⟩ := hlegal
    replace hfree : PipeStep.legal s.pipe (.allocate thread.succ ptr s.toSend[index]) := hfree
    simp only [answerStep, List.getElem?_eq_getElem hindex, Option.bind_eq_bind, Option.bind_some,
      Option.bind_eq_some_iff] at hs
    obtain ⟨pipe, hpipe, hs⟩ := hs
    obtain ⟨pending', hpipe'⟩ := h.pipe.step hfree hpipe
    cases hs
    refine ⟨queue, pending', h.accounts, h.rewrites, hpipe', ?_⟩
    have htaken := List.getElem_cons_eraseIdx_perm hindex
    have hheld := (h.pipe.held_step hfree hpipe).append_right (s.toSend.eraseIdx index)
    refine ((hheld.trans ?_).map _).trans h.published
    exact List.perm_middle.symm.trans (htaken.append_left _)
  | pipe i =>
    obtain ⟨pipe, hpipe, rfl⟩ := Option.map_eq_some_iff.1 hs
    obtain ⟨pending', hpipe'⟩ := h.pipe.step hlegal.1 hpipe
    have hheld := h.pipe.held_step hlegal.1 hpipe
    rw [hlegal.2.1, List.nil_append] at hheld
    exact ⟨queue, pending', h.accounts, h.rewrites, hpipe', ((hheld.append_right _).map _).trans h.published⟩

theorem exists_routed (hinit : init.cqueue.Holds []) (hnew : init.rewriteReplies = [])
    (hr : (answerSystem env init n maxQueuedReplies).Reachable s) : ∃ queue pending, Routed s queue pending := by
  refine hr.inv (fun s => ∃ queue pending, Routed s queue pending)
    ⟨[], [], ?_, ?_, inPipe_init maxQueuedReplies, ?_⟩ ?_
  · exact ⟨hinit, .refl _, .nil, fun _ hop => absurd hop List.not_mem_nil⟩
  · refine ⟨hnew ▸ .nil, fun opTid hmem => ?_, fun _ hop => absurd hop List.not_mem_nil⟩
    rw [show (answerSystem env init n maxQueuedReplies).init.server.context.rewriteReplies = [] from hnew] at hmem
    cases hmem
  · rw [show held (answerSystem env init n maxQueuedReplies).init.pipe = [] from held_eq_nil (fun _ => rfl)]
    change List.Perm [] ([] ++ init.rewriteReplies)
    rw [hnew]
    exact .refl _
  · rintro s i s' ⟨queue, pending, h⟩ hlegal hs
    exact h.step hlegal hs

/-- The server of the whole takes its own steps. -/
theorem server_run {h : List (AnswerServer D n × AnswerStep n)}
    (hr : ((answerSystem env init n maxQueuedReplies).restrict AnswerServer.KeepsLayers).Run h s) :
    ∃ h', ((replySystem env init).restrict ReplyServer.KeepsLayers).Run h' s.server := by
  induction hr with
  | init => exact ⟨[], .init⟩
  | @snoc h s s' i _ hlegal hs ih =>
    obtain ⟨h', hr'⟩ := ih
    change answerStep env maxQueuedReplies s i = some s' at hs
    cases i with
    | serve i ptr =>
      simp only [answerStep, Option.bind_eq_bind, Option.bind_eq_some_iff] at hs
      obtain ⟨server, hserver, pipe, -, hs⟩ := hs
      cases hs
      exact ⟨_, hr'.snoc ⟨trivial, hlegal.2⟩ hserver⟩
    | allocate thread ptr index =>
      simp only [answerStep, Option.bind_eq_bind, Option.bind_eq_some_iff] at hs
      obtain ⟨opReply, -, pipe, -, hs⟩ := hs
      exact ⟨h', Option.some.inj hs ▸ hr'⟩
    | pipe i =>
      obtain ⟨pipe, -, rfl⟩ := Option.map_eq_some_iff.1 hs
      exact ⟨h', hr'⟩

end

section
variable {s : AnswerServer D n} {queue : List (Op D)} {pending : List UInt64}

/-- **When nothing is left to do every request has been answered.** -/
theorem Routed.answered (h : Routed s queue pending) (hidle : s.Idle) : s.sentTids.Perm s.server.askedTids := by
  have hqueue : queue = [] := h.accounts.holds.first.1 (hidle.queue.first.2 rfl)
  have hpending : pending = [] := by
    refine Lib.no_records length_ptrBytes h.pipe.bytes ?_
    rw [hidle.input, hidle.output]
    decide
  have hwritten : s.pipe.written = s.pipe.sent.map Prod.fst := by
    refine List.map_injective_iff.2 (Option.some_injective _) ?_
    rw [h.pipe.written, hpending, List.map_nil, List.append_nil, List.map_map]
    rfl
  have hpublished := h.published
  rw [held_eq_nil hidle.senders, hidle.toSend, List.append_nil, List.append_nil, hwritten, List.map_map] at hpublished
  have haccount := h.accounts.account
  rw [hqueue, hidle.inflight, List.map_nil] at haccount
  refine hpublished.trans (List.Perm.append_right _ ?_)
  simpa [httpTids] using haccount.symm

theorem Routed.sent_sub (h : Routed s queue pending) : s.sentTids.Nodup ∧
    ∀ opTid ∈ s.sentTids, opTid ∈ s.server.askedTids := by
  obtain ⟨rest, hwritten⟩ : ∃ rest, s.pipe.written = s.pipe.sent.map Prod.fst ++ rest := by
    have heq := congrArg (List.filterMap id) h.pipe.written
    rw [List.filterMap_append, List.filterMap_map, List.filterMap_map] at heq
    refine ⟨(pending.map s.pipe.cells).filterMap id, ?_⟩
    simpa using heq
  have hsub : s.sentTids.Sublist ((s.pipe.written ++ held s.pipe ++ s.toSend).map BareOpReply.opTid) := by
    rw [hwritten, List.append_assoc, List.append_assoc, List.map_append, List.map_map]
    exact List.sublist_append_left ..
  -- what was published is a part of what was asked for
  have hasked : s.server.askedTids.Perm (s.server.published.map OpReply.opTid ++ s.server.context.rewriteReplies ++
      (httpTids (s.server.inflight.map Prod.snd) ++ httpTids queue)) := by
    refine (h.accounts.account.append_right _).trans ?_
    rw [List.append_assoc, List.append_assoc, List.append_assoc]
    refine List.Perm.append_left _ ?_
    rw [← List.append_assoc]
    exact List.perm_append_comm
  have hnodup := (List.nodup_append.1 (hasked.nodup_iff.1 (h.rewrites.asked_nodup h.accounts))).1
  refine ⟨(h.published.nodup_iff.2 hnodup).sublist hsub, fun opTid hmem => ?_⟩
  exact hasked.mem_iff.2 (List.mem_append_left _ (h.published.mem_iff.1 (hsub.subset hmem)))

end

/-! ## A server that is left alone -/

/-- The steps of the workers and of the replies: no request comes in and no purge runs. -/
def AnswerStep.Works : AnswerStep n → Prop
  | .serve i _ => i.Works
  | .allocate _ _ _ | .pipe _ => True

section
variable [Dimension D] [Field D] [LinearOrder D]

/-- The state is reached from the other one by the workers, the pipe and the consumer. -/
def Goes (env : SearchEnv D Nat) (init : HttpHandlerContext D) (n maxQueuedReplies : Nat) :
    AnswerServer D n → AnswerServer D n → Prop :=
  ((answerSystem env init n maxQueuedReplies).restrict AnswerServer.KeepsLayers).Continues AnswerStep.Works

variable {env : SearchEnv D Nat} {init : HttpHandlerContext D} {maxQueuedReplies : Nat} {s s' : AnswerServer D n}
  {queue : List (Op D)} {pending : List UInt64}

theorem Goes.pipe (env : SearchEnv D Nat) (init : HttpHandlerContext D) {i : PipeStep (n + 1)} {pipe : ReplyPipe (n + 1)}
    (hlegal : i.legal s.pipe) (hno : i.allocated = []) (hmain : i.consumes = true → s.pipe.senders 0 = none)
    (hs : pipeStep maxQueuedReplies s.pipe i = some pipe) : Goes env init n maxQueuedReplies s { s with pipe } :=
  .single (i := .pipe i) ⟨⟨hlegal, hno, hmain⟩, trivial⟩ trivial (congrArg (Option.map _) hs)

theorem Routed.goes (h : Routed s queue pending) (hgoes : Goes env init n maxQueuedReplies s s') :
    ∃ queue' pending', Routed s' queue' pending' := by
  induction hgoes with
  | refl => exact ⟨queue, pending, h⟩
  | tail _ hnext ih =>
    obtain ⟨queue', pending', h'⟩ := ih
    obtain ⟨i, hlegal, -, hs⟩ := hnext
    exact h'.step hlegal.1 hs

/-- The workers go on, and the pipe waits. -/
theorem goes_serve (maxQueuedReplies : Nat) {t t' : ReplyServer D}
    (h : ((replySystem env init).restrict ReplyServer.KeepsLayers).Continues ReplyStep.Works t t') :
    ∀ s : AnswerServer D n, s.server = t → ∃ s', Goes env init n maxQueuedReplies s s' ∧ s'.server = t' := by
  induction h with
  | refl => exact fun s hs => ⟨s, .refl, hs⟩
  | tail _ hnext ih =>
    intro s hs
    obtain ⟨s₁, hgoes, rfl⟩ := ih s hs
    obtain ⟨i, hlegal, hworks, hstep⟩ := hnext
    change replyStep env s₁.server i = some _ at hstep
    refine ⟨⟨_, s₁.pipe, s₁.toSend ++ newReplies env s₁.server i⟩,
      hgoes.tail ⟨.serve i 0, ⟨.inl hworks, hlegal.2⟩, hworks, ?_⟩, rfl⟩
    change answerStep env maxQueuedReplies s₁ (.serve i 0) = _
    simp only [answerStep, hstep, mainReply_of_works hworks, Option.elim_none, Option.bind_eq_bind, Option.bind_some]

/-- The pipe has no bytes, and the rest of the server is the same. -/
structure Flushed (s s' : AnswerServer D n) (senders : Fin (n + 1) → Option (UInt64 × Bool)) : Prop where
  server : s'.server = s.server
  toSend : s'.toSend = s.toSend
  senders : s'.pipe.senders = senders
  input : s'.pipe.input = []
  output : s'.pipe.output = []

/-- **What was written is sent**, by the main thread. -/
theorem Routed.flush (env : SearchEnv D Nat) (init : HttpHandlerContext D) (maxQueuedReplies : Nat)
    (h : Routed s queue pending) (hmain : s.pipe.senders 0 = none) :
    ∃ s', Goes env init n maxQueuedReplies s s' ∧ Flushed s s' s.pipe.senders := by
  obtain ⟨moved, hmove, hmoved, hsenders₁, houtput₁⟩ : ∃ moved,
      pipeStep maxQueuedReplies s.pipe (.move s.pipe.output.length) = some moved ∧ InPipe moved pending ∧
      moved.senders = s.pipe.senders ∧ moved.output = [] := ⟨_, rfl, h.pipe.move _, rfl, List.drop_length⟩
  obtain ⟨pipe, pending', hconsume, hpipe, hlen, hsenders, houtput, -, -⟩ := hmoved.consumed (fun _ => true) _ le_rfl
  have hbytes := hpipe.bytes
  rw [houtput, houtput₁, List.append_nil] at hbytes
  have hpending := Lib.no_records length_ptrBytes hbytes hlen
  rw [hpending, List.flatMap_nil] at hbytes
  have hgoes := Goes.pipe env init (i := .move s.pipe.output.length) le_rfl rfl (fun hno => by cases hno) hmove
  replace hconsume : pipeStep maxQueuedReplies moved (.consume (fun _ => true)) = some pipe := hconsume
  have hgoes' := Goes.pipe (s := { s with pipe := moved }) (i := .consume (fun _ => true)) env init trivial rfl
    (fun _ => hsenders₁ ▸ hmain) hconsume
  exact ⟨{ s with pipe }, hgoes.trans hgoes', rfl, rfl, hsenders.trans hsenders₁, hbytes, houtput.trans houtput₁⟩

/-- **A sender writes its reply**, when the output is empty. -/
theorem Routed.put (env : SearchEnv D Nat) (init : HttpHandlerContext D) (h : Routed s queue pending)
    (hmax : 0 < maxQueuedReplies) {thread : Fin (n + 1)} {ptr : UInt64} {checked : Bool}
    (hthread : s.pipe.senders thread = some (ptr, checked)) (houtput : s.pipe.output = []) :
    ∃ s', Goes env init n maxQueuedReplies s s' ∧ s'.server = s.server ∧ s'.toSend = s.toSend ∧
      s'.pipe.senders = Function.update s.pipe.senders thread none := by
  -- the output is short enough
  obtain ⟨s₁, hgoes₁, hserver₁, htoSend₁, hthread₁, hsenders₁⟩ : ∃ s₁, Goes env init n maxQueuedReplies s s₁ ∧
      s₁.server = s.server ∧ s₁.toSend = s.toSend ∧ s₁.pipe.senders thread = some (ptr, true) ∧
      Function.update s₁.pipe.senders thread none = Function.update s.pipe.senders thread none := by
    cases checked with
    | true => exact ⟨s, .refl, rfl, rfl, hthread, rfl⟩
    | false =>
      have hshort : ¬ s.pipe.output.length ≥ maxQueuedReplies * OP_REPLY_SIZE := by
        rw [houtput, List.length_nil, ge_iff_le, Nat.not_le]
        exact Nat.mul_pos hmax (by decide)
      have hlegal : PipeStep.legal s.pipe (.check thread) := by
        change Option.map _ _ = _
        rw [hthread]
        rfl
      have hcheck : pipeStep maxQueuedReplies s.pipe (.check thread) =
          some { s.pipe with senders := Function.update s.pipe.senders thread (some (ptr, true)) } := by
        simp only [pipeStep, hthread, Option.bind_eq_bind, Option.bind_some, if_neg hshort]
      have hsender : Function.update s.pipe.senders thread (some (ptr, true)) thread = some (ptr, true) :=
        Function.update_self ..
      exact ⟨_, Goes.pipe env init hlegal rfl (fun hno => by cases hno) hcheck, rfl, rfl, hsender,
        Function.update_idem ..⟩
  obtain ⟨queue₁, pending₁, h₁⟩ := h.goes hgoes₁
  obtain ⟨opReply, hcell, -⟩ := h₁.pipe.write hthread₁
  have hlegal : PipeStep.legal s₁.pipe (.write thread true) := by
    change Option.map _ _ = _
    rw [hthread₁]
    rfl
  have hwritten : pipeStep maxQueuedReplies s₁.pipe (.write thread true) = some { s₁.pipe with
      senders := Function.update s₁.pipe.senders thread none
      output := s₁.pipe.output ++ ptrBytes ptr
      written := s₁.pipe.written ++ [opReply] } := by
    simp only [pipeStep, hthread₁, hcell, Option.bind_eq_bind, Option.bind_some, if_true]
  have hwrite := Goes.pipe env init hlegal rfl (fun hno => by cases hno) hwritten
  exact ⟨_, hgoes₁.trans hwrite, hserver₁, htoSend₁, hsenders₁⟩

/-- **The main thread gets its reply out**, without a call of the consumer. -/
theorem Routed.put_main (env : SearchEnv D Nat) (init : HttpHandlerContext D) (h : Routed s queue pending)
    (hmax : 0 < maxQueuedReplies) : ∃ s', Goes env init n maxQueuedReplies s s' ∧ s'.server = s.server ∧
      s'.toSend = s.toSend ∧ s'.pipe.senders 0 = none := by
  cases hmain : s.pipe.senders 0 with
  | none => exact ⟨s, .refl, rfl, rfl, hmain⟩
  | some p =>
    obtain ⟨moved, hmove, hsenders, houtput⟩ : ∃ moved,
        pipeStep maxQueuedReplies s.pipe (.move s.pipe.output.length) = some moved ∧
        moved.senders = s.pipe.senders ∧ moved.output = [] := ⟨_, rfl, rfl, List.drop_length⟩
    have hgoes := Goes.pipe env init (i := .move s.pipe.output.length) le_rfl rfl (fun hno => by cases hno) hmove
    obtain ⟨queue₁, pending₁, h₁⟩ := h.goes hgoes
    obtain ⟨s', hgoes', hserver, htoSend, hsenders'⟩ :=
      h₁.put env init hmax (show moved.senders 0 = some (p.1, p.2) from hsenders ▸ hmain) houtput
    exact ⟨s', hgoes.trans hgoes', hserver, htoSend, by rw [hsenders', Function.update_self]⟩

/-- **A worker gets its reply through**, when the output is empty. -/
theorem Routed.deliver (env : SearchEnv D Nat) (init : HttpHandlerContext D) (h : Routed s queue pending)
    (hmax : 0 < maxQueuedReplies) (hmain : s.pipe.senders 0 = none) {thread : Fin (n + 1)} {ptr : UInt64}
    {checked : Bool} (hthread : s.pipe.senders thread = some (ptr, checked)) (houtput : s.pipe.output = []) :
    ∃ s', Goes env init n maxQueuedReplies s s' ∧ Flushed s s' (Function.update s.pipe.senders thread none) := by
  obtain ⟨s₁, hgoes₁, hserver₁, htoSend₁, hsenders₁⟩ := h.put env init hmax hthread houtput
  obtain ⟨queue₁, pending₁, h₁⟩ := h.goes hgoes₁
  have hmain₁ : s₁.pipe.senders 0 = none := by
    rw [hsenders₁, Function.update_apply, hmain, ite_self]
  obtain ⟨s', hgoes', hserver, htoSend, hsenders, hinput, houtput'⟩ := h₁.flush env init maxQueuedReplies hmain₁
  exact ⟨s', hgoes₁.trans hgoes', hserver.trans hserver₁, htoSend.trans htoSend₁, hsenders.trans hsenders₁, hinput,
    houtput'⟩

/-- The threads that send a reply. -/
def busy (s : AnswerServer D n) : Finset (Fin (n + 1)) :=
  Finset.univ.filter (fun thread => (s.pipe.senders thread).isSome)

/-- **All senders get their replies through.** -/
theorem Routed.deliver_all (env : SearchEnv D Nat) (init : HttpHandlerContext D) (hmax : 0 < maxQueuedReplies) :
    ∀ (k : Nat) {s : AnswerServer D n} {queue : List (Op D)} {pending : List UInt64}, Routed s queue pending →
    s.pipe.senders 0 = none → s.pipe.input = [] → s.pipe.output = [] → (busy s).card = k →
    ∃ s', Goes env init n maxQueuedReplies s s' ∧ Flushed s s' (fun _ => none)
  | 0, s, queue, pending, h, hmain, hinput, houtput, hcard => by
    refine ⟨s, .refl, rfl, rfl, funext (fun thread => ?_), hinput, houtput⟩
    by_contra hsome
    have hmem : thread ∈ busy s := Finset.mem_filter.2 ⟨Finset.mem_univ _, Option.ne_none_iff_isSome.1 hsome⟩
    rw [Finset.card_eq_zero.1 hcard] at hmem
    exact absurd hmem (Finset.notMem_empty _)
  | k + 1, s, queue, pending, h, hmain, hinput, houtput, hcard => by
    obtain ⟨thread, hmem⟩ := Finset.card_pos.1 (show 0 < (busy s).card by omega)
    obtain ⟨⟨ptr, checked⟩, hthread⟩ := Option.isSome_iff_exists.1 (Finset.mem_filter.1 hmem).2
    obtain ⟨s₁, hgoes₁, hserver₁, htoSend₁, hsenders₁, hinput₁, houtput₁⟩ :=
      h.deliver env init hmax hmain hthread houtput
    obtain ⟨queue₁, pending₁, h₁⟩ := h.goes hgoes₁
    have hmain₁ : s₁.pipe.senders 0 = none := by
      rw [hsenders₁, Function.update_apply, hmain, ite_self]
    have hbusy : busy s₁ = (busy s).erase thread := by
      ext t
      rw [Finset.mem_erase, busy, busy, Finset.mem_filter, Finset.mem_filter, hsenders₁, Function.update_apply]
      split <;> simp_all
    obtain ⟨s', hgoes', hserver, htoSend, hsenders, hinput', houtput'⟩ :=
      deliver_all env init hmax k h₁ hmain₁ hinput₁ houtput₁
        (by rw [hbusy, Finset.card_erase_of_mem hmem, hcard, Nat.add_sub_cancel])
    exact ⟨s', hgoes₁.trans hgoes', hserver.trans hserver₁, htoSend.trans htoSend₁, hsenders, hinput', houtput'⟩

/-- **The replies are sent**, one after the other. -/
theorem Routed.send_all (env : SearchEnv D Nat) (init : HttpHandlerContext D) (hmax : 0 < maxQueuedReplies)
    (hn : 0 < n) : ∀ (toSend : List BareOpReply) {s : AnswerServer D n}
    {queue : List (Op D)} {pending : List UInt64}, Routed s queue pending → s.toSend = toSend →
    s.pipe.senders = (fun _ => none) → s.pipe.input = [] → s.pipe.output = [] →
    ∃ s', Goes env init n maxQueuedReplies s s' ∧ s'.server = s.server ∧ s'.toSend = [] ∧
      s'.pipe.senders = (fun _ => none) ∧ s'.pipe.input = [] ∧ s'.pipe.output = []
  | [], s, queue, pending, h, htoSend, hsenders, hinput, houtput =>
    ⟨s, .refl, rfl, htoSend, hsenders, hinput, houtput⟩
  | opReply :: toSend, s, queue, pending, h, htoSend, hsenders, hinput, houtput => by
    -- no reply is in memory, so that any pointer is free
    have hpending : pending = [] := by
      refine Lib.no_records length_ptrBytes h.pipe.bytes ?_
      rw [hinput, houtput]
      decide
    have hfree : s.pipe.cells 0 = none := by
      rw [← Option.not_isSome_iff_eq_none, h.pipe.live, hpending, hsenders]
      simp
    obtain ⟨thread, hthread⟩ : ∃ thread : Fin n, thread = ⟨0, hn⟩ := ⟨_, rfl⟩
    obtain ⟨s₁, hallocate, hserver₁, htoSend₁, hsenders₁, houtput₁⟩ : ∃ s₁, Goes env init n maxQueuedReplies s s₁ ∧
        s₁.server = s.server ∧ s₁.toSend = toSend ∧
        s₁.pipe.senders = Function.update s.pipe.senders thread.succ (some (0, false)) ∧ s₁.pipe.output = [] := by
      have hstep : answerStep env maxQueuedReplies s (.allocate thread 0 0) = some ⟨s.server, { s.pipe with
          cells := Function.update s.pipe.cells 0 (some opReply)
          senders := Function.update s.pipe.senders thread.succ (some (0, false)) }, toSend⟩ := by
        simp only [answerStep, htoSend, List.getElem?_cons_zero, Option.bind_eq_bind, Option.bind_some, pipeStep,
          List.eraseIdx_cons_zero]
      have hlegal : AnswerStep.legal s (.allocate thread 0 0) :=
        ⟨by rw [htoSend]; exact Nat.succ_pos _, by rw [hsenders], hfree⟩
      have hgoes : Goes env init n maxQueuedReplies s _ :=
        System.Continues.single (i := .allocate thread 0 0) ⟨hlegal, trivial⟩ trivial hstep
      exact ⟨_, hgoes, rfl, rfl, rfl, houtput⟩
    have hsender : s₁.pipe.senders thread.succ = some (0, false) := by rw [hsenders₁, Function.update_self]
    have hmain₁ : s₁.pipe.senders 0 = none := by
      rw [hsenders₁, Function.update_of_ne (Fin.succ_ne_zero thread).symm, hsenders]
    obtain ⟨queue₁, pending₁, h₁⟩ := h.goes hallocate
    obtain ⟨s₂, hgoes₂, hserver₂, htoSend₂, hsenders₂, hinput₂, houtput₂⟩ :=
      h₁.deliver env init hmax hmain₁ hsender houtput₁
    obtain ⟨queue₂, pending₂, h₂⟩ := h₁.goes hgoes₂
    have hnone : s₂.pipe.senders = fun _ => none := by
      rw [hsenders₂, hsenders₁, Function.update_idem, hsenders]
      exact Function.update_eq_self_iff.2 rfl
    obtain ⟨s', hgoes', hserver', hrest⟩ := send_all env init hmax hn toSend h₂ (htoSend₂.trans htoSend₁) hnone hinput₂
      houtput₂
    exact ⟨s', hallocate.trans (hgoes₂.trans hgoes'), hserver'.trans (hserver₂.trans hserver₁), hrest⟩

end

/-! ### A rewrite and two workers -/

instance : ∀ i : ReplyStep, Decidable i.Works
  | .dequeue _ | .finish _ => .isTrue trivial
  | .request _ _ _ _ | .purge _ => .isFalse id

instance (s : AnswerServer D n) : ∀ i : AnswerStep n, Decidable (i.legal s)
  | .serve _ _ => inferInstanceAs (Decidable (_ ∨ (_ ∧ _)))
  | .allocate _ _ _ => inferInstanceAs (Decidable (_ ∧ _ ∧ _))
  | .pipe _ => inferInstanceAs (Decidable (_ ∧ _ ∧ (_ → _)))

instance (s : AnswerServer D n) : ∀ i : AnswerStep n, Decidable (s.KeepsLayers i)
  | .serve i _ => inferInstanceAs (Decidable (s.server.KeepsLayers i))
  | .allocate _ _ _ | .pipe _ => .isTrue trivial

instance {env : SearchEnv ℚ Nat} {init : HttpHandlerContext ℚ} {maxQueuedReplies : Nat} (s : AnswerServer ℚ n)
    (i : AnswerStep n) :
    Decidable (((answerSystem env init n maxQueuedReplies).restrict AnswerServer.KeepsLayers).legal s i) :=
  inferInstanceAs (Decidable (i.legal s ∧ s.KeepsLayers i))

/-- The main thread sends the reply of a rewrite, and then the steps of two workers follow, up to the operations that
both of them are at. -/
def rewriteSteps : List (AnswerStep 2) :=
  [.serve (.request (bytes "/api/1.0/system/rewrite.json") ⟨EVHTTP_REQ_POST, [], []⟩ false (some 7)) 4096,
    .pipe (.check 0), .pipe (.write 0 true)] ++
    (crossedSteps.take 7).map (fun i => .serve i 8192)

/-- The deletion is carried out first, and the three replies are sent. -/
def replySteps : List (AnswerStep 2) :=
  [.serve (.finish 1) 0, .serve (.finish 0) 0, .allocate 1 12288 1, .allocate 0 16384 1, .pipe (.check 2),
    .pipe (.check 1), .pipe (.write 2 true), .pipe (.move 11), .pipe (.consume (fun _ => true)), .pipe (.write 1 true),
    .allocate 0 4096 0, .pipe (.check 1), .pipe (.write 1 true), .pipe (.move 21), .pipe (.consume (fun _ => true))]

/-- A run in which the replies of a rewrite and of a creation are on their way, and both workers are at operations. -/
theorem exists_rewrite_run : ∃ h s,
    ((answerSystem (worldEnv .flat) freshContext 2 10).restrict AnswerServer.KeepsLayers).Run h s ∧
    h.map Prod.snd = rewriteSteps ∧ s.server.Serving ∧ s.server.context.cqueue.Holds [] ∧
    s.server.askedTids = [2, 3, 4, 1] ∧ s.sentTids = [] ∧ s.pipe.output.length = OP_REPLY_SIZE ∧ s.toSend.length = 1 ∧
    s.server.inflight.length = 2 ∧ ∀ p ∈ s.server.inflight, p.2.body.creates = false := by
  have hrun : (((answerSystem (worldEnv .flat) freshContext 2 10).restrict AnswerServer.KeepsLayers).exec rewriteSteps
      (answerSystem (worldEnv .flat) freshContext 2 10).init).any (fun s => decide (
        s.server.context.thrWorkers = true ∧ s.server.context.shouldExit = false ∧ s.server.context.loopExit = false ∧
        s.server.context.cqueue.firstElement = none ∧ s.server.askedTids = [2, 3, 4, 1] ∧ s.sentTids = [] ∧
        s.pipe.output.length = OP_REPLY_SIZE ∧ s.toSend.length = 1 ∧ s.server.inflight.length = 2 ∧
        ∀ p ∈ s.server.inflight, p.2.body.creates = false)) = true := by decide +kernel
  obtain ⟨h, s, hr, hinputs, hp⟩ := System.exists_run_of_exec hrun
  obtain ⟨hpool, hexit, hloop, hfirst, hseen⟩ := of_decide_eq_true hp
  obtain ⟨queue, pending, hrouted⟩ := exists_routed freshContext_holds rfl ⟨h, hr.of_restrict.1⟩
  obtain rfl := hrouted.accounts.holds.first.1 hfirst
  exact ⟨h, s, hr, hinputs, ⟨⟨hpool, hexit⟩, hloop⟩, hrouted.accounts.holds, hseen⟩

/-- A run at whose end nothing is left to do. -/
theorem exists_idle_run : ∃ h s, (answerSystem (worldEnv .flat) freshContext 2 10).Run h s ∧
    h.map Prod.snd = rewriteSteps ++ replySteps ∧ s.Idle ∧ s.server.queued.map Op.opTid = [2, 3, 4] ∧
    s.server.context.rewriteReplies = [1] ∧ s.pipe.sent.map Prod.snd = [[200], [404], [200], [200]] := by
  have hrun : (((answerSystem (worldEnv .flat) freshContext 2 10).restrict AnswerServer.KeepsLayers).exec
      (rewriteSteps ++ replySteps) (answerSystem (worldEnv .flat) freshContext 2 10).init).any (fun s => decide (
        s.server.context.cqueue.firstElement = none ∧ s.server.inflight.length = 0 ∧ s.toSend = [] ∧
        (∀ thread, s.pipe.senders thread = none) ∧ s.pipe.input = [] ∧ s.pipe.output = [] ∧
        s.server.queued.map Op.opTid = [2, 3, 4] ∧ s.server.context.rewriteReplies = [1] ∧
        s.pipe.sent.map Prod.snd = [[200], [404], [200], [200]])) = true := by decide +kernel
  obtain ⟨h, s, hr, hinputs, hp⟩ := System.exists_run_of_exec hrun
  obtain ⟨hfirst, hinflight, htoSend, hsenders, hinput, houtput, hseen⟩ := of_decide_eq_true hp
  obtain ⟨queue, pending, hrouted⟩ := exists_routed freshContext_holds rfl ⟨h, hr.of_restrict.1⟩
  obtain rfl := hrouted.accounts.holds.first.1 hfirst
  exact ⟨h, s, hr.of_restrict.1, hinputs, ⟨hrouted.accounts.holds, List.length_eq_zero_iff.1 hinflight, htoSend,
    hsenders, hinput, houtput⟩, hseen⟩

/-! ## Every request -/

section
variable [Dimension D] [Field D] [LinearOrder D] {env : SearchEnv D Nat} {init : HttpHandlerContext D}
  {maxQueuedReplies : Nat} {s : AnswerServer D n}

/-- **No client is answered twice, and nobody but those who asked**: all along a run of the requests, the workers, the
pipe and the consumer, what was sent is for different requests over HTTP whose operations were queued or that have started
a rewrite, one status for each; and when nothing is left to do every one of them has been answered. -/
theorem requests_answered_once (hinit : init.cqueue.Holds []) (hnew : init.rewriteReplies = [])
    (hr : (answerSystem env init n maxQueuedReplies).Reachable s) :
    s.server.askedTids.Nodup ∧ s.sentTids.Nodup ∧ (∀ opTid ∈ s.sentTids, opTid ∈ s.server.askedTids) ∧
    (∀ p ∈ s.pipe.sent, p.2.length = 1) ∧ (s.Idle → s.sentTids.Perm s.server.askedTids) := by
  obtain ⟨queue, pending, h⟩ := exists_routed hinit hnew hr
  refine ⟨h.rewrites.asked_nodup h.accounts, h.sent_sub.1, h.sent_sub.2, fun p hp => ?_, h.answered⟩
  obtain ⟨evbufferNew, hstatuses⟩ := h.pipe.answered p hp
  exact hstatuses ▸ consumed_length evbufferNew p.1

/-- Of a rewrite, a creation, and a PUT and a deletion that cross, the last is not found, and each is answered. -/
theorem requests_answered_once_rewrite : ∃ h s, (answerSystem (worldEnv .flat) freshContext 2 10).Run h s ∧
    h.map Prod.snd = rewriteSteps ++ replySteps ∧ s.Idle ∧ s.server.queued.map Op.opTid = [2, 3, 4] ∧
    s.server.context.rewriteReplies = [1] ∧ s.pipe.sent.map Prod.snd = [[200], [404], [200], [200]] ∧
    s.sentTids.Perm s.server.askedTids := by
  obtain ⟨h, s, hr, hinputs, hidle, hqueued, hrewrites, hsent⟩ := exists_idle_run
  obtain ⟨-, -, -, -, hall⟩ := requests_answered_once freshContext_holds rfl ⟨h, hr⟩
  exact ⟨h, s, hr, hinputs, hidle, hqueued, hrewrites, hsent, hall hidle⟩

variable [IsStrictOrderedRing D] [ExactDimension D]

/-- **A server that is left alone answers every request**: from every state in which it goes on serving, the workers, the
threads that send, the pipe and the consumer can go on until nothing is left to do, or until an operation that was on its way
would lose a layer; in the first case every request over HTTP whose operation was queued or that has started a rewrite has
been answered, once. -/
theorem requests_answered (hworld : WorldLayers env.toPanDbEnv) (hinit : init.cqueue.Holds [])
    (hnew : init.rewriteReplies = []) (hn : 0 < n) (hmax : 0 < maxQueuedReplies) (hserving : s.server.Serving)
    {h : List (AnswerServer D n × AnswerStep n)}
    (hr : ((answerSystem env init n maxQueuedReplies).restrict AnswerServer.KeepsLayers).Run h s) :
    ∃ queue h' s', s.server.context.cqueue.Holds queue ∧
      ((answerSystem env init n maxQueuedReplies).restrict AnswerServer.KeepsLayers).Run (h ++ h') s' ∧
      (∀ p ∈ h', p.2.Works) ∧ s'.server.queued = s.server.queued ∧
      (s'.Idle ∧ s'.sentTids.Perm s.server.askedTids ∨
        ∃ op ∈ s.server.inflight.map Prod.snd ++ queue, ¬ s'.server.store.KeepsLayers (.operation op)) := by
  obtain ⟨queue, pending, hrouted⟩ := exists_routed hinit hnew ⟨h, hr.of_restrict.1⟩
  -- the workers bring the operations to their ends
  obtain ⟨hs, hserver⟩ := server_run hr
  obtain ⟨queue', hpending⟩ := exists_pending hinit ⟨hs, hserver.of_restrict.1⟩
  obtain ⟨h₁, t, hrun, hworks, hrequests, hdrained⟩ := exists_drained hworld hinit _ hserver hpending hserving rfl
  obtain ⟨s₁, hgoes₁, rfl⟩ := goes_serve maxQueuedReplies (hserver.continues hrun hworks) s rfl
  rcases hdrained with ⟨-, hinflight, hp⟩ | hlost
  · obtain ⟨queue₁, pending₁, hrouted₁⟩ := hrouted.goes hgoes₁
    -- the reply of the main thread, the threads that send a reply, and then the replies that are still to be sent
    obtain ⟨s₂, hgoes₂, hserver₂, htoSend₂, hmain₂⟩ := hrouted₁.put_main env init hmax
    obtain ⟨queue₂, pending₂, hrouted₂⟩ := hrouted₁.goes hgoes₂
    obtain ⟨s₃, hgoes₃, hserver₃, htoSend₃, hsenders₃, hinput₃, houtput₃⟩ :=
      hrouted₂.flush env init maxQueuedReplies hmain₂
    obtain ⟨queue₃, pending₃, hrouted₃⟩ := hrouted₂.goes hgoes₃
    obtain ⟨s₄, hgoes₄, hserver₄, htoSend₄, hsenders₄, hinput₄, houtput₄⟩ :=
      Routed.deliver_all env init hmax _ hrouted₃ (hsenders₃ ▸ hmain₂) hinput₃ houtput₃ rfl
    obtain ⟨queue₄, pending₄, hrouted₄⟩ := hrouted₃.goes hgoes₄
    obtain ⟨s', hgoes', hserver', htoSend', hsenders', hinput', houtput'⟩ :=
      Routed.send_all env init hmax hn _ hrouted₄ rfl hsenders₄ hinput₄ houtput₄
    obtain ⟨queue₅, pending₅, hrouted'⟩ := hrouted₄.goes hgoes'
    have hgoes := hgoes₁.trans (hgoes₂.trans (hgoes₃.trans (hgoes₄.trans hgoes')))
    obtain ⟨h', hr', hall⟩ := hr.append hgoes
    have hsame : s'.server = s₁.server := hserver'.trans (hserver₄.trans (hserver₃.trans hserver₂))
    have hidle : s'.Idle :=
      ⟨hsame ▸ hp.holds, hsame ▸ hinflight, htoSend', fun thread => congrFun hsenders' thread, hinput', houtput'⟩
    have hasked : s'.server.askedTids = s.server.askedTids := by
      rw [hsame, ReplyServer.askedTids, hrequests.queued, hrequests.rewriteReplies, ReplyServer.askedTids]
    refine ⟨queue', h', s', hpending.holds, hr', hall, hsame ▸ hrequests.queued, .inl ⟨hidle, ?_⟩⟩
    exact hasked ▸ hrouted'.answered hidle
  · obtain ⟨h', hr', hall⟩ := hr.append hgoes₁
    exact ⟨queue', h', s₁, hpending.holds, hr', hall, hrequests.queued, .inr hlost⟩

/-- The replies of the rewrite and of the creation, the PUT and the deletion: all four clients are answered. -/
theorem requests_answered_rewrite : ∃ h s h' s',
    ((answerSystem (worldEnv .flat) freshContext 2 10).restrict AnswerServer.KeepsLayers).Run h s ∧
    h.map Prod.snd = rewriteSteps ∧ s.sentTids = [] ∧ s.server.inflight.length = 2 ∧
    ((answerSystem (worldEnv .flat) freshContext 2 10).restrict AnswerServer.KeepsLayers).Run (h ++ h') s' ∧ s'.Idle ∧
    s'.sentTids.Perm [2, 3, 4, 1] := by
  obtain ⟨h, s, hr, hinputs, hserving, hholds, hasked, hsent, -, -, hinflight, hbodies⟩ := exists_rewrite_run
  obtain ⟨queue, h', s', hq, hr', -, -, hdone⟩ :=
    requests_answered worldLayers_worldEnv freshContext_holds rfl (by decide) (by decide) hserving hr
  obtain rfl := hq.first.1 (hholds.first.2 rfl)
  rcases hdone with ⟨hidle, hperm⟩ | ⟨op, hop, hlost⟩
  · exact ⟨h, s, h', s', hr, hinputs, hsent, hinflight, hr', hidle, hasked ▸ hperm⟩
  · rw [List.append_nil] at hop
    obtain ⟨p, hp, rfl⟩ := List.mem_map.1 hop
    exact absurd (SlabStore.keepsLayers_of_creates (hbodies p hp)) hlost

end

end Pincaster
