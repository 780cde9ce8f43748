import Pincaster.QueuedOps
import Pincaster.SearchReplies
import Pincaster.Workers
/-!
# ServerRuns — the requests, the workers and the store together

Any number of workers take what the requests queue, in any order.  As long as no layer is lost, the store sees one
operation after another (`server_linearized`), no assertion of a worker fails (`workers_never_abort`), and workers that
are left alone bring every operation to its end (`workers_drain`).
-/
namespace Pincaster

open Lib (bytes System)

variable {D : Type}

/-! ## One operation -/

section
variable {α : Type}

/-- **A scan shows nodes of the tree.** -/
theorem scanFoundKeyNodes_sub {keyNodes : KeyNodeTree α} {pattern : Lib.Bytes} {wildcard : Bool} : ∀ (fuel : Nat)
    {first : Option (Key × α)} {limit : Nat}, (∀ n ∈ first, n ∈ keyNodes.nodes) →
    ∀ n ∈ scanFoundKeyNodes keyNodes pattern wildcard fuel first limit, n ∈ keyNodes.nodes
  | 0, _, _, _, n, hn => by cases hn
  | fuel + 1, none, _, _, n, hn => by cases hn
  | fuel + 1, some m, limit, hfirst, n, hn => by
    have hm : m ∈ keyNodes.nodes := hfirst m rfl
    have hnext : ∀ n ∈ keyNodes.next m, n ∈ keyNodes.nodes := fun n hn => List.mem_of_find?_eq_some hn
    rw [scanFoundKeyNodes] at hn
    split at hn
    · cases hn
    · have hshown : ∀ {p : Prop} [Decidable p], n ∈ (if p then [m] else []) → n ∈ keyNodes.nodes := by
        intro p hp hn
        split at hn
        · rwa [List.mem_singleton.1 hn]
        · cases hn
      simp only at hn
      split at hn
      · exact hshown hn
      · rcases List.mem_append.1 hn with hn | hn
        · exact hshown hn
        · exact scanFoundKeyNodes_sub fuel hnext n hn

theorem foundKeyNodes_sub {keyNodes : KeyNodeTree α} {pattern : Key} {limit : Nat} :
    ∀ n ∈ foundKeyNodes keyNodes pattern limit, n ∈ keyNodes.nodes := by
  intro n hn
  unfold foundKeyNodes at hn
  split at hn
  · cases hn
  · refine scanFoundKeyNodes_sub _ (fun m hm => ?_) n hn
    unfold firstFoundKeyNode at hm
    split at hm
    · exact List.mem_of_mem_head? hm
    · split at hm
      · exact List.mem_of_find?_eq_some hm
      · exact List.mem_of_find?_eq_some hm

end

section
variable [Field D] [LinearOrder D] {env : SearchEnv D Nat} {store : LayerStore D} {layers : Layers D} {op : Op D}

omit [Field D] [LinearOrder D] in
theorem sendOpReply_isSome {json : Option (ReplyJson D)} (h : json.isSome = true) :
    (sendOpReply op store json).isSome = true := by
  rw [sendOpReply]
  split
  · rfl
  · rwa [Option.isSome_map]

/-- A search for keys shows its answer, whatever the pattern is. -/
theorem HasMaps.search_in_keys_isSome (h : HasMaps env.toPanDbEnv store layers) {layerName pattern : Key}
    {options : SearchOptions D} (hbody : op.body = .searchInKeys layerName pattern options) (hname : CKey layerName) :
    (LayerStore.handleOp env op store).isSome = true := by
  have hop : LayerStore.handleOp env op store = LayerStore.handleOpSearchInKeys op layerName pattern options store := by
    rw [LayerStore.handleOp, hbody]
  rw [hop, LayerStore.handleOpSearchInKeys]
  cases hdb : getPanDbByLayerName store.layers layerName with
  | none => rfl
  | some db =>
    obtain ⟨-, hsound, -⟩ := h.sound hname hdb
    refine sendOpReply_isSome ?_
    simp only [LayerStore.keysReply]
    split
    · rfl
    · obtain ⟨found, hfound, -⟩ := mapM_matchOf hsound options none (foundKeyNodes db.keyNodes pattern options.limit)
        foundKeyNodes_sub
      rw [hfound]
      rfl

end

section
variable [Field D] [LinearOrder D] [IsStrictOrderedRing D] {env : SearchEnv D Nat} {store : LayerStore D}
  {layers : Layers D} {op : Op D}

/-- A search in a rectangle shows its answer, with clusters or without. -/
theorem HasMaps.search_in_rect_isSome (h : HasMaps env.toPanDbEnv store layers)
    (hreached : LayersReached env.toPanDbEnv store.layers) (hworld : WorldLayers env.toPanDbEnv) {layerName : Key}
    {rect : Rectangle2D D} {options : SearchOptions D} (hbody : op.body = .searchInRect layerName rect options)
    (hname : CKey layerName) : (LayerStore.handleOp env op store).isSome = true := by
  have hop : LayerStore.handleOp env op store =
      LayerStore.handleOpSearchInRect env op layerName rect options store := by
    rw [LayerStore.handleOp, hbody]
  rw [hop, LayerStore.handleOpSearchInRect]
  cases hlayer : layers layerName with
  | none =>
    rw [h.no_layer hname hlayer]
    rfl
  | some keyNodes =>
    obtain ⟨db, hdb, hkept, hsound, -, -, hmax⟩ := h.exists_tree hreached hworld hname hlayer
    obtain ⟨cell, htree⟩ := hkept.tree
    have hsome := findInRect_isSome htree hmax (findNearCb_safe hkept hsound options) findNearClusterCb_safe [] rect
      options.limit options.epsilon
    simp only [hdb]
    refine sendOpReply_isSome ?_
    rwa [LayerStore.searchReply, Option.isSome_map]

/-- **A worker finishes what requests queue**: no assertion of a handler fails. -/
theorem HasMaps.finished (h : HasMaps env.toPanDbEnv store layers)
    (hreached : LayersReached env.toPanDbEnv store.layers)
    (hworld : WorldLayers env.toPanDbEnv) (hasked : Asked op.body) :
    ∃ r, LayerStore.workerDoWork env op store = some r := by
  have hhandled : ∀ {r : OpResult D}, LayerStore.handleOp env op store = some r →
      ∃ r, LayerStore.workerDoWork env op store = some r := fun hr => ⟨_, congrArg (Option.map _) hr⟩
  have hsome : (LayerStore.handleOp env op store).isSome = true →
      ∃ r, LayerStore.workerDoWork env op store = some r := by
    intro hsome
    obtain ⟨r, hr⟩ := Option.isSome_iff_exists.1 hsome
    exact hhandled hr
  have hchange : op.body.mutates = true → ∃ r, LayerStore.workerDoWork env op store = some r := by
    intro hmutates
    obtain ⟨r, hr⟩ := h.change hasked.requested hmutates
    exact hhandled hr
  have hnames := hasked.names
  cases hbody : op.body with
  | layersCreate | layersDelete | recordsPut | recordsDelete => exact hchange (by rw [hbody]; rfl)
  | systemPing =>
    refine hsome ?_
    rw [LayerStore.handleOp, hbody]
    exact sendOpReply_isSome rfl
  | layersIndex =>
    obtain ⟨jsons, hwork, -⟩ := h.layers_index hreached hbody
    exact ⟨_, hwork⟩
  | recordsGet layerName key withLinks =>
    rw [hbody] at hnames
    obtain ⟨hnone, hfound⟩ := h.records_get hbody hnames
    by_cases hrecord : ∃ keyNodes keyNode, layers layerName = some keyNodes ∧ keyNodes key = some keyNode
    · obtain ⟨keyNodes, keyNode, hlayer, hkey⟩ := hrecord
      obtain ⟨record, links, hwork, -⟩ := hfound keyNodes keyNode hlayer hkey
      exact ⟨_, hwork⟩
    · refine ⟨_, hnone (fun keyNodes hlayer => ?_)⟩
      by_contra hne
      obtain ⟨keyNode, hkey⟩ := Option.ne_none_iff_exists'.1 hne
      exact hrecord ⟨keyNodes, keyNode, hlayer, hkey⟩
  | searchNearby layerName position options =>
    rw [hbody] at hnames
    obtain ⟨hnone, hfound⟩ := h.search_nearby hreached hworld hbody hnames.1 hnames.2
    cases hlayer : layers layerName with
    | none => exact ⟨_, hnone hlayer⟩
    | some keyNodes =>
      rcases hfound keyNodes hlayer with ⟨hwork, -⟩ | ⟨-, found, hwork, -⟩
      · exact ⟨_, hwork⟩
      · exact ⟨_, hwork⟩
  | searchInRect layerName rect options =>
    rw [hbody] at hnames
    exact hsome (h.search_in_rect_isSome hreached hworld hbody hnames.1)
  | searchInKeys layerName pattern options =>
    rw [hbody] at hnames
    exact hsome (h.search_in_keys_isSome hbody hnames.1)

end

/-! ## The server -/

/-- What a step gives the store. -/
def ReplyStep.storeInput (s : ReplyServer D) : ReplyStep → Option (StoreInput D)
  | .finish worker => (takeInflight worker s.inflight).map (fun p => .operation p.1)
  | .purge now => some (.purge now)
  | .request _ _ _ _ | .dequeue _ => none

/-- **A step loses no layer.** -/
def ReplyServer.KeepsLayers (s : ReplyServer D) (i : ReplyStep) : Prop :=
  ∀ input ∈ i.storeInput s, s.store.KeepsLayers input

/-- **The steps of the store** in a run of the server, in their order. -/
def storeHistory (h : List (ReplyServer D × ReplyStep)) : List (SlabStore D × StoreInput D) :=
  System.partHistory ReplyServer.store ReplyStep.storeInput h

def StoreInput.op : StoreInput D → Option (Op D)
  | .operation op => some op
  | .purge _ => none

/-- The replies of the steps of the store. -/
def repliesTo [Field D] [LinearOrder D] (env : SearchEnv D Nat) (p : SlabStore D × StoreInput D) : List (OpReply D) :=
  (p.2.op.bind (fun op => SlabStore.workerDoWork env op p.1)).elim [] Prod.snd

/-- **The workers and the event loop go on**: no rewrite has left the server without workers, and no shutdown was asked
for. -/
structure ReplyServer.Serving (s : ReplyServer D) : Prop where
  workers : Running s.context
  loop : s.context.loopExit = false

/-- **What is on its way was asked for**: in the queue and with the workers. -/
structure Pending (s : ReplyServer D) (queue : List (Op D)) : Prop where
  holds : s.context.cqueue.Holds queue
  queue : ∀ op ∈ queue, Asked op.body
  inflight : ∀ p ∈ s.inflight, Asked p.2.body

/-- What the requests have left is the same. -/
structure SameRequests (s s' : ReplyServer D) : Prop where
  queued : s'.queued = s.queued
  rewriteReplies : s'.context.rewriteReplies = s.context.rewriteReplies
  serving : s.Serving → s'.Serving

theorem SameRequests.refl (s : ReplyServer D) : SameRequests s s := ⟨rfl, rfl, id⟩

theorem SameRequests.trans {s s₁ s' : ReplyServer D} (h : SameRequests s s₁) (h' : SameRequests s₁ s') :
    SameRequests s s' :=
  ⟨h'.queued.trans h.queued, h'.rewriteReplies.trans h.rewriteReplies, fun hserving => h'.serving (h.serving hserving)⟩

/-- A worker has taken an operation, or none. -/
structure Took (s s' : ReplyServer D) (worker : Nat) (taken : Option (Op D)) : Prop where
  store : s'.store = s.store
  published : s'.published = s.published
  inflight : s'.inflight = s.inflight ++ (taken.map (fun op => (worker, op))).toList
  same : SameRequests s s'

section
variable [Dimension D] [Field D] [LinearOrder D] {env : SearchEnv D Nat} {init : HttpHandlerContext D}
  {s s' : ReplyServer D} {queue : List (Op D)}

/-! ### Steps -/

/-- **A request** leaves the queue, or one operation comes to its end. -/
theorem Pending.request (hp : Pending s queue) {uri : Lib.Bytes} {req : EvhttpRequest} {fakeReq : Bool}
    {fork : Option Nat} (h : replyStep env s (.request uri req fakeReq fork) = some s') :
    s'.store = s.store ∧ s'.published = s.published ∧ s'.inflight = s.inflight ∧
      ∃ new, s'.queued = s.queued ++ new ∧ Pending s' (queue ++ new) := by
  obtain ⟨⟨ret, context, req'⟩, hreq, rfl⟩ := Option.map_eq_some_iff.1 h
  refine ⟨rfl, rfl, rfl, _, rfl, ?_⟩
  rcases processApiRequest_asked hp.holds hreq with hq | ⟨op, hasked, hpush⟩
  · rw [hq, pushed_self, Option.toList_none, List.append_nil]
    exact ⟨hq ▸ hp.holds, hp.queue, hp.inflight⟩
  · rw [pushed_of_push hp.holds hpush, Option.toList_some]
    refine ⟨pushed_holds hpush hp.holds, fun op' hop' => ?_, hp.inflight⟩
    rcases List.mem_append.1 hop' with hop' | hop'
    · exact hp.queue op' hop'
    · rwa [List.mem_singleton.1 hop']

/-- **A dequeue** takes the first operation, unless the workers are told to exit. -/
theorem Pending.dequeue (env : SearchEnv D Nat) (hp : Pending s queue) (worker : Nat) :
    ∃ s' taken rest, replyStep env s (.dequeue worker) = some s' ∧ queue = taken.toList ++ rest ∧
      (s.Serving → taken = queue.head?) ∧ Took s s' worker taken ∧ Pending s' rest := by
  by_cases hexit : s.context.shouldExit = true
  · refine ⟨s, none, queue, if_pos hexit, rfl, fun hserving => ?_, ⟨rfl, rfl, (List.append_nil _).symm, .refl s⟩, hp⟩
    exact absurd (hserving.workers.2.symm.trans hexit) Bool.false_ne_true
  · obtain ⟨q, hshift, -, hq⟩ := shiftCqueue_spec hp.holds
    cases queue with
    | nil =>
      refine ⟨{ s with context := { s.context with cqueue := q } }, none, [], ?_, rfl, fun _ => rfl,
        ⟨rfl, rfl, (List.append_nil _).symm, ⟨rfl, rfl, fun h => ⟨h.workers, h.loop⟩⟩⟩, hq, hp.queue, hp.inflight⟩
      simp only [replyStep, if_neg hexit, hshift, Option.bind_eq_bind, Option.bind_some, List.head?_nil]
    | cons op queue =>
      obtain ⟨hop, hqueue⟩ := List.forall_mem_cons.1 hp.queue
      refine ⟨{ s with context := { s.context with cqueue := q }, inflight := s.inflight ++ [(worker, op)] }, some op,
        queue, ?_, rfl, fun _ => rfl, ⟨rfl, rfl, rfl, ⟨rfl, rfl, fun h => ⟨h.workers, h.loop⟩⟩⟩, hq, hqueue,
        fun p hmem => ?_⟩
      · simp only [replyStep, if_neg hexit, hshift, Option.bind_eq_bind, Option.bind_some, List.head?_cons]
      rcases List.mem_append.1 hmem with hmem | hmem
      · exact hp.inflight p hmem
      · rwa [List.mem_singleton.1 hmem]

/-- **A finish** gives the store one operation of a worker. -/
theorem Pending.finish (hp : Pending s queue) {worker : Nat} (h : replyStep env s (.finish worker) = some s') :
    ∃ op replies, (takeInflight worker s.inflight).map Prod.fst = some op ∧ Asked op.body ∧
      SlabStore.workerDoWork env op s.store = some (s'.store, replies) ∧ s'.published = s.published ++ replies ∧
      (s.inflight.map Prod.snd).Perm (op :: s'.inflight.map Prod.snd) ∧ SameRequests s s' ∧ Pending s' queue := by
  simp only [replyStep, Option.bind_eq_bind, Option.bind_eq_some_iff] at h
  obtain ⟨⟨op, inflight⟩, htake, ⟨store, replies⟩, hwork, h⟩ := h
  cases h
  obtain ⟨after, hbefore, hrest⟩ := takeInflight_eq_some htake
  generalize overtaken worker s.inflight = front at hbefore hrest
  have hperm : s.inflight.Perm ((worker, op) :: inflight) := by
    rw [hbefore, hrest]
    exact List.perm_middle
  have hasked := hp.inflight _ (hperm.mem_iff.2 List.mem_cons_self)
  exact ⟨op, replies, by rw [htake, Option.map_some], hasked, hwork, rfl, hperm.map Prod.snd,
    ⟨rfl, rfl, fun h => ⟨h.workers, h.loop⟩⟩, hp.holds, hp.queue,
    fun p hmem => hp.inflight p (hperm.mem_iff.2 (List.mem_cons_of_mem _ hmem))⟩

theorem Pending.purge (hp : Pending s queue) {now : Int} (h : replyStep env s (.purge now) = some s') :
    SlabStore.purgeExpiredKeys env.toPanDbEnv now s.store = some s'.store ∧ s'.published = s.published ∧
      s'.queued = s.queued ∧ s'.inflight = s.inflight ∧ Pending s' queue := by
  obtain ⟨store, hstore, rfl⟩ := Option.map_eq_some_iff.1 h
  exact ⟨hstore, rfl, rfl, rfl, hp.holds, hp.queue, hp.inflight⟩

/-- **A step keeps what is pending** of the kind that requests queue. -/
theorem Pending.step (hp : Pending s queue) {i : ReplyStep} (h : replyStep env s i = some s') :
    ∃ queue', Pending s' queue' := by
  cases i with
  | request uri req fakeReq fork =>
    obtain ⟨-, -, -, new, -, hp'⟩ := hp.request h
    exact ⟨_, hp'⟩
  | dequeue worker =>
    obtain ⟨s₁, taken, rest, hs₁, -, -, -, hp'⟩ := hp.dequeue env worker
    exact ⟨_, Option.some.inj (hs₁.symm.trans h) ▸ hp'⟩
  | finish worker =>
    obtain ⟨-, -, -, -, -, -, -, -, hp'⟩ := hp.finish h
    exact ⟨_, hp'⟩
  | purge now => exact ⟨_, (hp.purge h).2.2.2.2⟩

theorem exists_pending (hinit : init.cqueue.Holds []) (hr : (replySystem env init).Reachable s) :
    ∃ queue, Pending s queue := by
  refine hr.inv (fun s => ∃ queue, Pending s queue) ⟨[], hinit, by simp, by simp [replySystem]⟩ ?_
  rintro s i s' ⟨queue, hp⟩ - hs
  exact hp.step hs

omit [Dimension D] [Field D] [LinearOrder D] in
theorem storeInput_finish {worker : Nat} {op : Op D}
    (h : (takeInflight worker s.inflight).map Prod.fst = some op) :
    (ReplyStep.finish worker).storeInput s = some (.operation op) := by
  obtain ⟨p, htake, rfl⟩ := Option.map_eq_some_iff.1 h
  rw [ReplyStep.storeInput, htake, Option.map_some]

/-- **The steps of the store are a run of it.** -/
theorem storeHistory_run (hinit : init.cqueue.Holds []) {h : List (ReplyServer D × ReplyStep)}
    (hr : ((replySystem env init).restrict ReplyServer.KeepsLayers).Run h s) :
    ((slabStoreSystem env).restrict SlabStore.Takes).Run (storeHistory h) s.store := by
  have hreachable : ∀ {s : ReplyServer D}, ((replySystem env init).restrict ReplyServer.KeepsLayers).Reachable s →
      ∃ queue, Pending s queue := fun ⟨h, hr⟩ => exists_pending hinit ⟨h, hr.of_restrict.1⟩
  change ((slabStoreSystem env).restrict SlabStore.Takes).Run
    (System.partHistory ReplyServer.store ReplyStep.storeInput h) s.store
  refine System.Run.part ?_ ?_ ?_ hr
  · rfl
  · intro s i s' hreach hstep hi
    obtain ⟨queue, hp⟩ := hreachable hreach
    change replyStep env s i = some s' at hstep
    cases i with
    | request uri req fakeReq fork => exact (hp.request hstep).1
    | dequeue worker =>
      obtain ⟨s₁, taken, rest, hs₁, -, -, htook, -⟩ := hp.dequeue env worker
      exact Option.some.inj (hs₁.symm.trans hstep) ▸ htook.store
    | finish worker =>
      obtain ⟨op, -, hop, -⟩ := hp.finish hstep
      rw [storeInput_finish hop] at hi
      cases hi
    | purge now => cases hi
  · intro s i s' input hreach hlegal hstep hi
    obtain ⟨queue, hp⟩ := hreachable hreach
    have hkeeps : s.store.KeepsLayers input := hlegal.2 input hi
    change replyStep env s i = some s' at hstep
    cases i with
    | request uri req fakeReq fork => cases hi
    | dequeue worker => cases hi
    | finish worker =>
      obtain ⟨op, replies, hop, hasked, hwork, -⟩ := hp.finish hstep
      obtain rfl := Option.some.inj ((storeInput_finish hop).symm.trans hi)
      refine ⟨⟨trivial, hasked.requested, hkeeps⟩, ?_⟩
      change (SlabStore.workerDoWork env op s.store).map Prod.fst = some s'.store
      rw [hwork, Option.map_some]
    | purge now =>
      cases hi
      exact ⟨⟨trivial, trivial, trivial⟩, (hp.purge hstep).1⟩

/-! ### Runs -/

/-- **What has become of the operations**: they leave the queue in their order, and those that have left it are with a
worker or were given to the store, which has answered them. -/
structure Served (env : SearchEnv D Nat) (steps : List (SlabStore D × StoreInput D)) (s : ReplyServer D)
    (queue : List (Op D)) : Prop where
  pending : Pending s queue
  published : s.published = steps.flatMap (repliesTo env)
  queued : ∃ taken, s.queued = taken ++ queue ∧
    taken.Perm (steps.filterMap (fun p => p.2.op) ++ s.inflight.map Prod.snd)

omit [Dimension D] in
theorem repliesTo_operation (env : SearchEnv D Nat) {op : Op D} {store : SlabStore D}
    {p : SlabStore D × List (OpReply D)} (h : SlabStore.workerDoWork env op store = some p) :
    repliesTo env (store, .operation op) = p.2 := by
  rw [repliesTo, StoreInput.op, Option.bind_some, h]
  rfl

theorem Served.step {steps : List (SlabStore D × StoreInput D)} (hs : Served env steps s queue) {i : ReplyStep}
    (h : replyStep env s i = some s') :
    ∃ queue', Served env (steps ++ ((i.storeInput s).map (fun input => (s.store, input))).toList) s' queue' := by
  obtain ⟨hp, hpublished, taken, hqueued, hperm⟩ := hs
  cases i with
  | request uri req fakeReq fork =>
    obtain ⟨-, hpub, hinflight, new, hnew, hp'⟩ := hp.request h
    refine ⟨queue ++ new, hp', ?_, taken, by rw [hnew, hqueued, List.append_assoc], ?_⟩
    · rw [hpub, hpublished, ReplyStep.storeInput, Option.map_none, Option.toList_none, List.append_nil]
    · rw [hinflight, ReplyStep.storeInput, Option.map_none, Option.toList_none, List.append_nil]
      exact hperm
  | dequeue worker =>
    obtain ⟨s₁, op, rest, hs₁, hqueue, -, htook, hp'⟩ := hp.dequeue env worker
    obtain rfl := Option.some.inj (hs₁.symm.trans h)
    refine ⟨rest, hp', ?_, taken ++ op.toList, by rw [htook.same.queued, hqueued, hqueue, List.append_assoc], ?_⟩
    · rw [htook.published, hpublished, ReplyStep.storeInput, Option.map_none, Option.toList_none, List.append_nil]
    · rw [htook.inflight, ReplyStep.storeInput, Option.map_none, Option.toList_none, List.append_nil, List.map_append,
        ← List.append_assoc]
      refine (hperm.append_right _).trans (.of_eq (congrArg _ ?_))
      cases op <;> rfl
  | finish worker =>
    obtain ⟨op, replies, hop, -, hwork, hpub, htaken, hsame, hp'⟩ := hp.finish h
    have hinput := storeInput_finish hop
    refine ⟨queue, hp', ?_, taken, hsame.queued.trans hqueued, ?_⟩
    · rw [hpub, hpublished, hinput, Option.map_some, Option.toList_some, List.flatMap_append, List.flatMap_singleton,
        repliesTo_operation env hwork]
    · rw [hinput, Option.map_some, Option.toList_some, List.filterMap_append, List.append_assoc]
      exact hperm.trans (htaken.append_left _)
  | purge now =>
    obtain ⟨-, hpub, hqueued', hinflight, hp'⟩ := hp.purge h
    refine ⟨queue, hp', ?_, taken, hqueued'.trans hqueued, ?_⟩
    · rw [hpub, hpublished, ReplyStep.storeInput, Option.map_some, Option.toList_some, List.flatMap_append,
        List.flatMap_singleton]
      exact (List.append_nil _).symm
    · rw [hinflight, ReplyStep.storeInput, Option.map_some, Option.toList_some, List.filterMap_append]
      exact hperm.trans (.of_eq (congrArg (· ++ _) (List.append_nil _).symm))

theorem exists_served (hinit : init.cqueue.Holds []) {h : List (ReplyServer D × ReplyStep)}
    (hr : (replySystem env init).Run h s) : ∃ queue, Served env (storeHistory h) s queue := by
  induction hr with
  | init => exact ⟨[], ⟨hinit, by simp, by simp [replySystem]⟩, rfl, [], rfl, .refl _⟩
  | @snoc h s s' i hr hlegal hstep ih =>
    obtain ⟨queue, hserved⟩ := ih
    rw [storeHistory, System.partHistory_snoc]
    exact hserved.step hstep

end

section
variable [Dimension D] [Field D] [LinearOrder D] [IsStrictOrderedRing D] [ExactDimension D] {env : SearchEnv D Nat}
  {init : HttpHandlerContext D} {s : ReplyServer D}

/-- **A worker can finish what it is at**, also when that loses a layer. -/
theorem exists_finish (hworld : WorldLayers env.toPanDbEnv) (hinit : init.cqueue.Holds [])
    (hr : ((replySystem env init).restrict ReplyServer.KeepsLayers).Reachable s) {worker : Nat} {op : Op D}
    {rest : List (Nat × Op D)} (htake : takeInflight worker s.inflight = some (op, rest)) :
    ∃ s', replyStep env s (.finish worker) = some s' ∧ s'.inflight = rest := by
  obtain ⟨h, hr⟩ := hr
  obtain ⟨queue, hp⟩ := exists_pending hinit ⟨h, hr.of_restrict.1⟩
  obtain ⟨entries, hsound⟩ := sound_of_run (storeHistory_run hinit hr)
  obtain ⟨after, hbefore, -⟩ := takeInflight_eq_some htake
  have hasked : Asked op.body := hp.inflight (worker, op) (by rw [hbefore]; simp)
  obtain ⟨r, hr⟩ := hsound.maps.finished hsound.reached hworld hasked
  obtain ⟨⟨store, replies⟩, hwork⟩ := SlabStore.exists_workerDoWork hsound.holds hr
  refine ⟨{ s with inflight := rest, store, published := s.published ++ replies }, ?_, rfl⟩
  simp only [replyStep, htake, hwork, Option.bind_eq_bind, Option.bind_some]

def ReplyStep.Works : ReplyStep → Prop
  | .dequeue _ | .finish _ => True
  | .request _ _ _ _ | .purge _ => False

/-- Nothing is left of what was queued, or one of these operations would lose a layer. -/
def Drained (s : ReplyServer D) (pending : List (Op D)) (done : Prop) : Prop :=
  (done ∧ s.inflight = [] ∧ Pending s []) ∨ ∃ op ∈ pending, ¬ s.store.KeepsLayers (.operation op)

/-- One worker after another, as long as there is something to do and no layer is lost. -/
theorem exists_drained (hworld : WorldLayers env.toPanDbEnv) (hinit : init.cqueue.Holds []) : ∀ (n : Nat)
    {h : List (ReplyServer D × ReplyStep)} {s : ReplyServer D} {queue : List (Op D)},
    ((replySystem env init).restrict ReplyServer.KeepsLayers).Run h s → Pending s queue → s.Serving →
    2 * queue.length + s.inflight.length = n →
    ∃ h' s', ((replySystem env init).restrict ReplyServer.KeepsLayers).Run (h ++ h') s' ∧ (∀ p ∈ h', p.2.Works) ∧
      SameRequests s s' ∧ Drained s' (s.inflight.map Prod.snd ++ queue) (h'.length = n)
  | 0, h, s, queue, hr, hp, hserving, hn => by
    have hqueue : queue = [] := List.length_eq_zero_iff.1 (by omega)
    refine ⟨[], s, by rwa [List.append_nil], by simp, .refl s, .inl ⟨rfl, List.length_eq_zero_iff.1 (by omega), ?_⟩⟩
    rwa [hqueue] at hp
  | n + 1, h, s, queue, hr, hp, hserving, hn => by
    -- one step of a worker, and the rest
    have hnext : ∀ {i : ReplyStep} {s₁ : ReplyServer D} {queue₁ : List (Op D)}, i.Works → s.KeepsLayers i →
        replyStep env s i = some s₁ → SameRequests s s₁ → Pending s₁ queue₁ →
        (∀ op ∈ s₁.inflight.map Prod.snd ++ queue₁, op ∈ s.inflight.map Prod.snd ++ queue) →
        2 * queue₁.length + s₁.inflight.length = n →
        ∃ h' s', ((replySystem env init).restrict ReplyServer.KeepsLayers).Run (h ++ h') s' ∧
          (∀ p ∈ h', p.2.Works) ∧ SameRequests s s' ∧
          Drained s' (s.inflight.map Prod.snd ++ queue) (h'.length = n + 1) := by
      intro i s₁ queue₁ hworks hkeeps hstep hsame hp₁ hsub hn₁
      obtain ⟨h', s', hr', hall, hsame', hdrained⟩ :=
        exists_drained hworld hinit n (hr.snoc ⟨trivial, hkeeps⟩ hstep) hp₁ (hsame.serving hserving) hn₁
      refine ⟨(s, i) :: h', s', by rwa [List.append_assoc] at hr', List.forall_mem_cons.2 ⟨hworks, hall⟩,
        hsame.trans hsame', ?_⟩
      rcases hdrained with ⟨hlength, hrest⟩ | ⟨op, hop, hlost⟩
      · exact .inl ⟨by rw [List.length_cons, hlength], hrest⟩
      · exact .inr ⟨op, hsub op hop, hlost⟩
    cases hinflight : s.inflight with
    | cons p rest =>
      obtain ⟨worker, op⟩ := p
      have htake : takeInflight worker s.inflight = some (op, rest) := by rw [hinflight, takeInflight, if_pos rfl]
      by_cases hkeeps : s.store.KeepsLayers (.operation op)
      · obtain ⟨s₁, hs₁, hrest⟩ := exists_finish hworld hinit ⟨h, hr⟩ htake
        obtain ⟨op', -, hop', -, -, -, htaken, hsame, hp₁⟩ := hp.finish hs₁
        have hkeeps' : s.KeepsLayers (.finish worker) := fun input hinput => by
          have hfirst : (takeInflight worker s.inflight).map Prod.fst = some op := by rw [htake, Option.map_some]
          rw [storeInput_finish hfirst, Option.mem_some_iff] at hinput
          exact hinput ▸ hkeeps
        rw [← hinflight]
        refine hnext (i := .finish worker) trivial hkeeps' hs₁ hsame hp₁ (fun op hop => ?_) ?_
        · refine (List.mem_append.1 hop).elim (fun hop => ?_) (List.mem_append_right _)
          exact List.mem_append_left _ (htaken.mem_iff.2 (List.mem_cons_of_mem _ hop))
        · rw [hinflight, List.length_cons] at hn
          rw [hrest]
          omega
      · exact ⟨[], s, by rwa [List.append_nil], by simp, .refl s, .inr ⟨op, by simp, hkeeps⟩⟩
    | nil =>
      rw [hinflight, List.length_nil] at hn
      cases queue with
      | nil => simp at hn
      | cons op queue =>
        obtain ⟨s₁, taken, rest, hs₁, hqueue, htaken, htook, hp₁⟩ := hp.dequeue env 0
        obtain rfl : taken = some op := htaken hserving
        obtain rfl : queue = rest := (List.cons.inj hqueue).2
        have hinflight₁ : s₁.inflight = [(0, op)] := by rw [htook.inflight, hinflight]; rfl
        rw [← hinflight]
        refine hnext (i := .dequeue 0) trivial (fun _ hinput => by cases hinput) hs₁ htook.same hp₁
          (fun op' hop' => ?_) ?_
        · rw [hinflight₁] at hop'
          exact List.mem_append_right _ hop'
        · rw [hinflight₁]
          simp only [List.length_cons, List.length_nil] at hn ⊢
          omega

end

/-! ### Two workers -/

/-- A layer is created; a record of it is put while it is deleted, by two workers, and the deletion is carried out
first. -/
def crossedSteps : List ReplyStep :=
  [.request (bytes "/api/1.0/layers/x.json") ⟨EVHTTP_REQ_POST, [], []⟩ false none, .dequeue 0, .finish 0,
    .request (bytes "/api/1.0/records/x/k.json") ⟨EVHTTP_REQ_PUT, bytes "$content=Hi", []⟩ false none,
    .request (bytes "/api/1.0/records/x/k.json") ⟨EVHTTP_REQ_DELETE, [], []⟩ false none,
    .dequeue 0, .dequeue 1, .finish 1, .finish 0]

instance (s : ReplyServer D) (i : ReplyStep) : Decidable (s.KeepsLayers i) :=
  inferInstanceAs (Decidable (∀ input ∈ i.storeInput s, s.store.KeepsLayers input))

instance {env : SearchEnv ℚ Nat} {init : HttpHandlerContext ℚ} (s : ReplyServer ℚ) (i : ReplyStep) :
    Decidable (((replySystem env init).restrict ReplyServer.KeepsLayers).legal s i) :=
  inferInstanceAs (Decidable (True ∧ s.KeepsLayers i))

/-- A run in which both workers are at their operations. -/
theorem exists_inflight_run : ∃ h s, ((replySystem (worldEnv .flat) freshContext).restrict ReplyServer.KeepsLayers).Run h s ∧
    h.map Prod.snd = crossedSteps.take 7 ∧ s.Serving ∧ s.context.cqueue.Holds [] ∧ s.queued.map Op.opTid = [1, 2, 3] ∧
    s.inflight.map (fun p => (p.1, p.2.opTid)) = [(0, 2), (1, 3)] ∧ (takeInflight 1 s.inflight).isSome = true ∧
    ∀ p ∈ s.inflight, p.2.body.creates = false := by
  have hrun : (((replySystem (worldEnv .flat) freshContext).restrict ReplyServer.KeepsLayers).exec (crossedSteps.take 7)
      (replySystem (worldEnv .flat) freshContext).init).any (fun s => decide (
        s.context.thrWorkers = true ∧ s.context.shouldExit = false ∧ s.context.loopExit = false ∧
        s.context.cqueue.firstElement = none ∧ s.queued.map Op.opTid = [1, 2, 3] ∧
        s.inflight.map (fun p => (p.1, p.2.opTid)) = [(0, 2), (1, 3)] ∧ (takeInflight 1 s.inflight).isSome = true ∧
        ∀ p ∈ s.inflight, p.2.body.creates = false)) = true := by decide +kernel
  obtain ⟨h, s, hr, hinputs, hp⟩ := System.exists_run_of_exec hrun
  obtain ⟨hpool, hexit, hloop, hfirst, hqueued, hinflight, htake, hbodies⟩ := of_decide_eq_true hp
  obtain ⟨queue, hpending⟩ := exists_pending freshContext_holds ⟨h, hr.of_restrict.1⟩
  obtain rfl := hpending.holds.first.1 hfirst
  exact ⟨h, s, hr, hinputs, ⟨⟨hpool, hexit⟩, hloop⟩, hpending.holds, hqueued, hinflight, htake, hbodies⟩

/-- A run in which the deletion has overtaken the PUT: the record is there. -/
theorem exists_crossed_run : ∃ h s keyNodes,
    ((replySystem (worldEnv .flat) freshContext).restrict ReplyServer.KeepsLayers).Run h s ∧
    h.map Prod.snd = crossedSteps ∧ s.published.map OpReply.opTid = [1, 3, 2] ∧ s.inflight = [] ∧
    s.store.maps (bytes "x\x00") = some keyNodes ∧ ∃ keyNode, keyNodes (bytes "k\x00") = some keyNode := by
  have hrun : (((replySystem (worldEnv .flat) freshContext).restrict ReplyServer.KeepsLayers).exec crossedSteps
      (replySystem (worldEnv .flat) freshContext).init).any (fun s => decide (
        s.published.map OpReply.opTid = [1, 3, 2]) && s.inflight.isEmpty &&
        (s.store.maps (bytes "x\x00")).any (fun keyNodes => (keyNodes (bytes "k\x00")).isSome)) = true := by decide +kernel
  obtain ⟨h, s, hr, hinputs, hp⟩ := System.exists_run_of_exec hrun
  obtain ⟨hseen, hlayer⟩ := Bool.and_eq_true_iff.1 hp
  obtain ⟨hpublished, hinflight⟩ := Bool.and_eq_true_iff.1 hseen
  obtain ⟨keyNodes, hkeyNodes, hkey⟩ := (Option.any_eq_true _ _).1 hlayer
  exact ⟨h, s, keyNodes, hr, hinputs, of_decide_eq_true hpublished, List.isEmpty_iff.1 hinflight, hkeyNodes,
    Option.isSome_iff_exists.1 hkey⟩

/-! ### What a server does -/

section
variable [Dimension D] [Field D] [LinearOrder D] [ExactDimension D] {env : SearchEnv D Nat}
  {init : HttpHandlerContext D} {s : ReplyServer D}

variable [IsStrictOrderedRing D]

/-- **No assertion of a worker fails**, and none of a purge: in a run that has lost no layer, whatever was requested, and in
whatever order the workers took it, an operation that a worker has comes to its end. -/
theorem workers_never_abort (hworld : WorldLayers env.toPanDbEnv) (hinit : init.cqueue.Holds [])
    (hr : ((replySystem env init).restrict ReplyServer.KeepsLayers).Reachable s) :
    (∀ worker, ∃ s', replyStep env s (.dequeue worker) = some s') ∧
    (∀ worker, (takeInflight worker s.inflight).isSome → ∃ s', replyStep env s (.finish worker) = some s') ∧
    ∀ now, ∃ s', replyStep env s (.purge now) = some s' := by
  obtain ⟨h, hrun⟩ := hr
  obtain ⟨queue, hp⟩ := exists_pending hinit ⟨h, hrun.of_restrict.1⟩
  refine ⟨fun worker => ?_, fun worker hsome => ?_, fun now => ?_⟩
  · obtain ⟨s', -, -, hs', -⟩ := hp.dequeue env worker
    exact ⟨s', hs'⟩
  · obtain ⟨p, htake⟩ := Option.isSome_iff_exists.1 hsome
    obtain ⟨s', hs', -⟩ := exists_finish hworld hinit ⟨h, hrun⟩ htake
    exact ⟨s', hs'⟩
  · obtain ⟨entries, hsound⟩ := sound_of_run (storeHistory_run hinit hrun)
    obtain ⟨store, -, hstore, -⟩ := hsound.purge now
    exact ⟨_, congrArg (Option.map _) hstore⟩

theorem workers_never_abort_inflight : ∃ s,
    ((replySystem (worldEnv .flat) freshContext).restrict ReplyServer.KeepsLayers).Reachable s ∧
    s.inflight.map (fun p => (p.1, p.2.opTid)) = [(0, 2), (1, 3)] ∧
    (∃ s', replyStep (worldEnv .flat) s (.finish 1) = some s') ∧
    ∃ s', replyStep (worldEnv .flat) s (.purge 5) = some s' := by
  obtain ⟨h, s, hr, -, -, -, -, hinflight, htake, -⟩ := exists_inflight_run
  obtain ⟨-, hfinish, hpurge⟩ := workers_never_abort worldLayers_worldEnv freshContext_holds ⟨h, hr⟩
  exact ⟨s, ⟨h, hr⟩, hinflight, hfinish 1 htake, hpurge 5⟩

/-- **Workers that are left alone bring every operation to its end**, as long as that loses no layer: two steps for one in the
queue, one for one that a worker has; and then every operation that was ever queued over HTTP has its reply. -/
theorem workers_drain (hworld : WorldLayers env.toPanDbEnv) (hinit : init.cqueue.Holds []) (hserving : s.Serving)
    {h : List (ReplyServer D × ReplyStep)}
    (hr : ((replySystem env init).restrict ReplyServer.KeepsLayers).Run h s) :
    ∃ queue h' s', s.context.cqueue.Holds queue ∧
      ((replySystem env init).restrict ReplyServer.KeepsLayers).Run (h ++ h') s' ∧ (∀ p ∈ h', p.2.Works) ∧
      s'.queued = s.queued ∧
      ((h'.length = 2 * queue.length + s.inflight.length ∧ s'.inflight = [] ∧ s'.context.cqueue.Holds [] ∧
        (httpTids s.queued).Perm (s'.published.map OpReply.opTid)) ∨
      ∃ op ∈ s.inflight.map Prod.snd ++ queue, ¬ s'.store.KeepsLayers (.operation op)) := by
  obtain ⟨queue, hp⟩ := exists_pending hinit ⟨h, hr.of_restrict.1⟩
  obtain ⟨h', s', hr', hall, hsame, hdrained⟩ := exists_drained hworld hinit _ hr hp hserving rfl
  refine ⟨queue, h', s', hp.holds, hr', hall, hsame.queued, hdrained.imp_left ?_⟩
  rintro ⟨hlength, hinflight, hp'⟩
  refine ⟨hlength, hinflight, hp'.holds, ?_⟩
  obtain ⟨queue', hinv⟩ : ∃ queue', Accounts s' queue' := by
    refine hr'.of_restrict.1.inv (fun s => ∃ queue, Accounts s queue) ⟨[], hinit, .refl _, .nil, by simp [replySystem]⟩ ?_
    rintro s i s' ⟨queue, hinv⟩ - hs
    exact hinv.step hs
  have hnil : queue' = [] := hinv.holds.first.1 (hp'.holds.first.2 rfl)
  have haccount := hinv.account
  rw [hnil, hinflight, hsame.queued] at haccount
  simpa [httpTids] using haccount

theorem workers_drain_inflight : ∃ h s h' s',
    ((replySystem (worldEnv .flat) freshContext).restrict ReplyServer.KeepsLayers).Run h s ∧
    s.inflight.map (fun p => (p.1, p.2.opTid)) = [(0, 2), (1, 3)] ∧
    ((replySystem (worldEnv .flat) freshContext).restrict ReplyServer.KeepsLayers).Run (h ++ h') s' ∧ h'.length = 2 ∧
    s'.inflight = [] ∧ (httpTids s.queued).Perm (s'.published.map OpReply.opTid) := by
  obtain ⟨h, s, hr, -, hserving, hholds, -, hinflight, -, hbodies⟩ := exists_inflight_run
  obtain ⟨queue, h', s', hq, hr', -, -, hdone⟩ := workers_drain worldLayers_worldEnv freshContext_holds hserving hr
  obtain rfl := hq.first.1 (hholds.first.2 rfl)
  rcases hdone with ⟨hlength, hnone, -, hperm⟩ | ⟨op, hop, hlost⟩
  · have htwo : s.inflight.length = 2 := by rw [← List.length_map (f := fun p => (p.1, p.2.opTid)), hinflight]; rfl
    exact ⟨h, s, h', s', hr, hinflight, hr', by rw [hlength, htwo, List.length_nil], hnone, hperm⟩
  · rw [List.append_nil] at hop
    obtain ⟨p, hp, rfl⟩ := List.mem_map.1 hop
    exact absurd (SlabStore.keepsLayers_of_creates (hbodies p hp)) hlost

end

end Pincaster
