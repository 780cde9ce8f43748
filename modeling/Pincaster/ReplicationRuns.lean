import Pincaster.ReplicationMaster
import Pincaster.SlabRuns
/-!
# ReplicationRuns — what the slaves of a master were sent, over whole runs

What a step does to the journal (`HoldsItems`) and to the slaves (`SlavesInv`), and from it the law of replication along
every run whose connections miss nothing.
-/
namespace Pincaster

open Lib (Bytes bytes System)

variable {D : Type}

/-! ## The journal -/

/-- The file and the log buffer are lists of complete items. -/
structure HoldsItems (dbLog : DBLog UInt8) (file buffer : List LogItem) : Prop where
  dbLogFd : dbLog.dbLogFd = some (file.flatMap LogItem.encode)
  logBuffer : dbLog.logBuffer = buffer.flatMap LogItem.encode
  ok : ∀ item ∈ file ++ buffer, item.Ok

theorem HoldsItems.journal {dbLog : DBLog UInt8} {file buffer : List LogItem} (h : HoldsItems dbLog file buffer) :
    dbLog.journal = (file ++ buffer).flatMap LogItem.encode := by
  unfold DBLog.journal
  rw [h.dbLogFd, h.logBuffer, Option.getD_some, List.flatMap_append]

/-- A flush moves the buffer to the file, or nothing. -/
theorem HoldsItems.flush {dbLog : DBLog UInt8} {file buffer : List LogItem} (h : HoldsItems dbLog file buffer)
    (sync : Bool) : ∃ file' buffer', HoldsItems (flushDbLog dbLog sync) file' buffer' ∧
      file' ++ buffer' = file ++ buffer := by
  unfold flushDbLog
  simp only [h.dbLogFd]
  generalize (if sync = true then dbLog.logBuffer.length else 0) = toWrite
  split
  · exact ⟨file, buffer, h, rfl⟩
  · split
    · refine ⟨file ++ buffer, [], ⟨?_, rfl, ?_⟩, List.append_nil _⟩
      · simp only [h.logBuffer, List.flatMap_append]
      · rw [List.append_nil]
        exact h.ok
    · exact ⟨file, buffer, h, rfl⟩

theorem HoldsItems.flushAfterRecord {dbLog : DBLog UInt8} {file buffer : List LogItem}
    (h : HoldsItems dbLog file buffer) : ∃ file' buffer', HoldsItems (flushAfterRecord dbLog) file' buffer' ∧
      file' ++ buffer' = file ++ buffer := by
  unfold Pincaster.flushAfterRecord
  split
  · exact h.flush true
  · split
    · exact h.flush false
    · exact ⟨file, buffer, h, rfl⟩

theorem HoldsItems.add {dbLog : DBLog UInt8} {file buffer : List LogItem} (h : HoldsItems dbLog file buffer)
    {item : LogItem} (hitem : item.Ok) :
    HoldsItems { dbLog with logBuffer := dbLog.logBuffer ++ item.encode } file (buffer ++ [item]) := by
  refine ⟨h.dbLogFd, by simp [h.logBuffer], fun i hi => ?_⟩
  rw [← List.append_assoc, List.mem_append, List.mem_singleton] at hi
  rcases hi with hi | rfl
  · exact h.ok i hi
  · exact hitem

theorem HoldsItems.addTimestamp {dbLog : DBLog UInt8} {file buffer : List LogItem} (h : HoldsItems dbLog file buffer)
    {call : LogCall} (hcall : call.Ok) : ∃ buffer', HoldsItems (addTimestamp dbLog call.now) file buffer' ∧
      buffer'.filterMap LogItem.request? = buffer.filterMap LogItem.request? := by
  unfold Pincaster.addTimestamp
  simp only
  split
  · have hadd := h.add hcall.timestamp_ok
    refine ⟨_, ⟨hadd.dbLogFd, ?_, hadd.ok⟩, by simp [LogItem.request?]⟩
    rw [← hadd.logBuffer]
    simp [LogItem.encode, addTsToEvLogBuffer]
  · exact ⟨buffer, h, rfl⟩

/-- **A request within the limits is one more record of the journal**, and is what the active slaves are sent. -/
theorem addToDbLog_items (context : HttpHandlerContext D) {file buffer : List LogItem}
    (h : HoldsItems context.dbLog file buffer) {call : LogCall} (hcall : call.Ok) (hnow : context.now = call.now)
    (hsent : context.slavesOut = []) (hsend : call.sendToSlaves = true) :
    let context' := (addToDbLog context call.verb call.uri call.body call.sendToSlaves).1
    (∃ file' buffer', HoldsItems context'.dbLog file' buffer' ∧
      (file' ++ buffer').filterMap LogItem.request? =
        (file ++ buffer).filterMap LogItem.request? ++ [call.logged]) ∧
    context'.activeSlaves = context.activeSlaves ∧
    context'.slavesOut = if 0 < context.activeSlaves then (LogItem.request call.logged).encode else [] := by
  have hle : ¬ (call.uri.length > DB_LOG_MAX_URI_LEN ∨ call.body.length > DB_LOG_MAX_BODY_LEN) := by
    have := hcall.limits.1
    have := hcall.limits.2
    omega
  have hrecord : logRecord call.verb call.uri (loggedBody call.body) = (LogItem.request call.logged).encode := rfl
  obtain ⟨buffer₁, h₁, hreqs₁⟩ := h.addTimestamp hcall
  obtain ⟨file₂, buffer₂, h₂, hreqs₂⟩ := (h₁.add hcall.request_ok).flushAfterRecord
  unfold addToDbLog
  simp only [h.dbLogFd, if_neg hle, hrecord, hnow, hsent, hsend, true_and, List.nil_append]
  refine ⟨⟨file₂, buffer₂, h₂, ?_⟩, trivial⟩
  rw [hreqs₂, ← List.append_assoc, List.filterMap_append, List.filterMap_append, hreqs₁, ← List.filterMap_append]
  rfl

/-! ## What is queued to a slave -/

theorem RecordStream.add {reqs : List LoggedRequest} {stream : Bytes} (h : RecordStream reqs stream)
    {req : LoggedRequest} (hreq : (LogItem.request req).Ok) :
    RecordStream (reqs ++ [req]) (stream ++ (LogItem.request req).encode) := by
  obtain ⟨items, hok, rfl, rfl⟩ := h
  refine ⟨items ++ [.request req], fun item hitem => ?_, by simp [LogItem.request?], by simp⟩
  rcases List.mem_append.1 hitem with hitem | hitem
  · exact hok item hitem
  · rw [List.mem_singleton.1 hitem]
    exact hreq

/-- The records of a list of items are read off its bytes. -/
theorem requestRecords_items {items : List LogItem} (h : ∀ item ∈ items, item.Ok) :
    requestRecords (items.flatMap LogItem.encode) = items.filterMap LogItem.request? := by
  unfold requestRecords
  rw [scan_items _ h (Nat.lt_succ_of_le (length_le_flatMap_encode items))]
  rfl

/-- The state of a slave between two steps. -/
def ClientOk (rClient : ReplicationClient) : Prop :=
  rClient.active = true ∧ (rClient.bev.isSome = true → rClient.clientFd.isSome = true)

/-- Whether there is a connection behind an entry. -/
def hasBev (rClients : EntryPtr → Option ReplicationClient) (e : EntryPtr) : Bool :=
  ((rClients e).bind (·.bev)).isSome

/-- What sending a record leaves of one slave: its record, or its disconnection. -/
theorem sendToActiveSlave_spec (rEntry : Bytes) (activeSlaves : Nat) {rClient : ReplicationClient} (hok : ClientOk rClient)
    (hpos : rClient.bev.isSome = true → 0 < activeSlaves) :
    ∃ activeSlaves' rClient', sendToActiveSlave rEntry activeSlaves rClient = some (activeSlaves', rClient') ∧
      ClientOk rClient' ∧
      (∀ bev', rClient'.bev = some bev' → ∃ bev, rClient.bev = some bev ∧ bev'.queued = bev.queued ++ rEntry) ∧
      activeSlaves' + (if rClient.bev.isSome = true then 1 else 0) =
        activeSlaves + (if rClient'.bev.isSome = true then 1 else 0) := by
  rcases hbev : rClient.bev with _ | bev
  · refine ⟨activeSlaves, rClient, by rw [sendToActiveSlave, hbev], hok, fun bev' h => ?_, by rw [hbev]⟩
    rw [hbev] at h
    cases h
  · unfold sendToActiveSlave
    have hsome : rClient.bev.isSome = true := by rw [hbev]; rfl
    have hfd : ¬ (rClient.active = false ∨ rClient.clientFd = none) := by
      rw [hok.1]
      obtain ⟨fd, hfd⟩ := Option.isSome_iff_exists.1 (hok.2 hsome)
      rw [hfd]
      exact fun h => h.elim (fun h => nomatch h) (fun h => nomatch h)
    have hpos := hpos hsome
    simp only [hbev, if_neg hfd, if_pos hpos]
    split
    · refine ⟨_, _, rfl, ⟨hok.1, fun h => nomatch h⟩, fun bev' h => (nomatch h), ?_⟩
      rw [if_pos (show (some bev).isSome = true from rfl), if_neg (fun h => nomatch h)]
      omega
    · refine ⟨_, _, rfl, ⟨hok.1, fun _ => hok.2 hsome⟩, fun bev' h => ?_, rfl⟩
      cases h
      exact ⟨bev, rfl, by simp [Bufferevent.queued]⟩

/-- **Sending goes to every slave once.** -/
theorem foldl_sendToActiveSlavesCb (rEntry : Bytes) : ∀ (order : List (EntryPtr × ReplicationClient))
    (activeSlaves : Nat) (rClients : EntryPtr → Option ReplicationClient), (order.map Prod.fst).Nodup →
    (∀ p ∈ order, ∃ rClient, rClients p.1 = some rClient ∧ ClientOk rClient) →
    order.countP (fun p => hasBev rClients p.1) ≤ activeSlaves →
    ∃ activeSlaves' rClients', order.foldl (fun ctx p => (sendToActiveSlavesCb rEntry ctx p.1 p.2).2)
        (some (activeSlaves, rClients)) = some (activeSlaves', rClients') ∧
      (∀ e, e ∉ order.map Prod.fst → rClients' e = rClients e) ∧
      (∀ p ∈ order, ∃ rClient', rClients' p.1 = some rClient' ∧ ClientOk rClient' ∧
        ∀ bev', rClient'.bev = some bev' → ∃ rClient bev, rClients p.1 = some rClient ∧ rClient.bev = some bev ∧
          bev'.queued = bev.queued ++ rEntry) ∧
      activeSlaves' + order.countP (fun p => hasBev rClients p.1) =
        activeSlaves + order.countP (fun p => hasBev rClients' p.1)
  | [], activeSlaves, rClients, _, _, _ => ⟨activeSlaves, rClients, rfl, fun _ _ => rfl, fun _ h => (nomatch h), rfl⟩
  | p :: order, activeSlaves, rClients, hnd, hok, hcount => by
    rw [List.map_cons, List.nodup_cons] at hnd
    obtain ⟨rClient, hclient, hcok⟩ := hok p List.mem_cons_self
    have hbev : hasBev rClients p.1 = rClient.bev.isSome := by rw [hasBev, hclient, Option.bind_some]
    rw [List.countP_cons, hbev] at hcount
    obtain ⟨n₁, rClient₁, hsend, hcok₁, hqueue₁, hn₁⟩ := sendToActiveSlave_spec rEntry activeSlaves hcok
      (fun h => by
        rw [if_pos h] at hcount
        omega)
    -- the other slaves are as they were
    have hother : ∀ q ∈ order, Function.update rClients p.1 (some rClient₁) q.1 = rClients q.1 := fun q hq =>
      Function.update_of_ne (fun heq : q.1 = p.1 => hnd.1 (heq ▸ List.mem_map_of_mem hq)) _ _
    have hcongr : order.countP (fun q => hasBev (Function.update rClients p.1 (some rClient₁)) q.1) =
        order.countP (fun q => hasBev rClients q.1) :=
      List.countP_congr (fun q hq => by rw [hasBev, hasBev, hother q hq])
    obtain ⟨n₂, rClients₂, hfold, hframe, hdone, hn₂⟩ := foldl_sendToActiveSlavesCb rEntry order n₁
      (Function.update rClients p.1 (some rClient₁)) hnd.2
      (fun q hq => by
        rw [hother q hq]
        exact hok q (List.mem_cons_of_mem p hq))
      (by
        rw [hcongr]
        omega)
    have hhead := hframe p.1 hnd.1
    rw [Function.update_self] at hhead
    refine ⟨n₂, rClients₂, ?_, fun e he => ?_, fun q hq => ?_, ?_⟩
    · rw [List.foldl_cons, ← hfold]
      simp only [sendToActiveSlavesCb, hclient, hsend, Option.bind_eq_bind, Option.bind_some]
    · rw [List.map_cons, List.mem_cons, not_or] at he
      rw [hframe e he.2, Function.update_of_ne he.1]
    · rcases List.mem_cons.1 hq with rfl | hq
      · exact ⟨rClient₁, hhead, hcok₁, fun bev' h => by
          obtain ⟨bev, hb, hq⟩ := hqueue₁ bev' h
          exact ⟨rClient, bev, hclient, hb, hq⟩⟩
      · obtain ⟨rClient', h1, h2, h3⟩ := hdone q hq
        exact ⟨rClient', h1, h2, fun bev' h => by
          obtain ⟨c, bev, hc, hb, hq'⟩ := h3 bev' h
          exact ⟨c, bev, by rw [← hc, hother q hq], hb, hq'⟩⟩
    · rw [hcongr] at hn₂
      have hbev₂ : hasBev rClients₂ p.1 = rClient₁.bev.isSome := by rw [hasBev, hhead, Option.bind_some]
      rw [List.countP_cons, List.countP_cons, hbev, hbev₂]
      omega

/-! ## The slaves -/

/-- **The invariant of the slaves**: the slab is in order, its entries are the slaves, and what each connected one was
sent carries `reqs`. -/
structure SlavesInv (context : HttpHandlerContext D) (rm : ReplicationMasterContext) (reqs : List LoggedRequest)
    (live : List (EntryPtr × ReplicationClient)) : Prop where
  lists : ∃ pl fl, SlabInv ⟨rm.rClientsSlab, live⟩ pl fl
  entries : ∀ e, (rm.rClients e).isSome = true ↔ e ∈ live.map Prod.fst
  client : ∀ e rClient, rm.rClients e = some rClient → ClientOk rClient
  count : context.activeSlaves = live.countP (fun p => hasBev rm.rClients p.1)
  idle : rm.slavesInInitialDownload = 0
  stream : ∀ e rClient bev, rm.rClients e = some rClient → rClient.bev = some bev → RecordStream reqs bev.queued

variable {context : HttpHandlerContext D} {rm : ReplicationMasterContext} {reqs : List LoggedRequest}
  {live : List (EntryPtr × ReplicationClient)}

theorem SlavesInv.nodup (h : SlavesInv context rm reqs live) : (live.map Prod.fst).Nodup := by
  obtain ⟨pl, fl, hslab⟩ := h.lists
  exact hslab.slots.nodup

/-- **A record goes to every slave.** -/
theorem SlavesInv.send (h : SlavesInv context rm reqs live) {req : LoggedRequest} (hreq : (LogItem.request req).Ok) :
    ∃ context' rm', sendToActiveSlaves ⟨context, rm⟩ (LogItem.request req).encode = some ⟨context', rm'⟩ ∧
      context'.dbLog = context.dbLog ∧ SlavesInv context' rm' (reqs ++ [req]) live := by
  obtain ⟨pl, fl, hslab⟩ := h.lists
  obtain ⟨order, hperm, hnd, hforeach⟩ := hslab.foreachLaw
  have hmem : ∀ e, e ∈ order.map Prod.fst ↔ e ∈ live.map Prod.fst := fun e => (hperm.map Prod.fst).mem_iff
  obtain ⟨activeSlaves', rClients', hfold, hframe, hsent, hcount⟩ := foldl_sendToActiveSlavesCb
    (LogItem.request req).encode order context.activeSlaves rm.rClients hnd
    (fun p hp => by
      obtain ⟨rClient, hclient⟩ := Option.isSome_iff_exists.1
        ((h.entries p.1).2 ((hmem p.1).1 (List.mem_map_of_mem hp)))
      exact ⟨rClient, hclient, h.client p.1 rClient hclient⟩)
    (by rw [h.count, hperm.countP_eq])
  have hdone : ∀ e rClient', rClients' e = some rClient' → ∃ p ∈ order, p.1 = e := by
    intro e rClient' hclient
    by_contra hnone
    have he : e ∉ order.map Prod.fst := fun he => hnone (by simpa using he)
    rw [hframe e he] at hclient
    exact he ((hmem e).2 ((h.entries e).1 (by rw [hclient]; rfl)))
  refine ⟨{ context with activeSlaves := activeSlaves' }, { rm with rClients := rClients' }, ?_, rfl,
    ⟨pl, fl, hslab⟩, fun e => ?_, fun e rClient' hclient => ?_, ?_, h.idle, fun e rClient' bev' hclient hbev => ?_⟩
  · have hsend := hforeach _ (sendToActiveSlavesCb (LogItem.request req).encode) (fun _ _ _ => rfl)
      (some (context.activeSlaves, rm.rClients))
    rw [hfold] at hsend
    unfold sendToActiveSlaves
    simp only at hsend
    simp only [hsend, Option.bind_eq_bind, Option.bind_some]
  · by_cases he : e ∈ order.map Prod.fst
    · obtain ⟨p, hp, rfl⟩ := List.mem_map.1 he
      obtain ⟨rClient', hclient, -⟩ := hsent p hp
      simp only [hclient, Option.isSome_some, true_iff]
      exact (hmem p.1).1 he
    · simp only [hframe e he]
      exact h.entries e
  · obtain ⟨p, hp, rfl⟩ := hdone e rClient' hclient
    obtain ⟨rClient'', hclient', hok, -⟩ := hsent p hp
    simp only [hclient'] at hclient
    cases hclient
    exact hok
  · have hbefore := h.count
    rw [← hperm.countP_eq] at hbefore ⊢
    simp only
    omega
  · obtain ⟨p, hp, rfl⟩ := hdone e rClient' hclient
    obtain ⟨rClient'', hclient', -, hqueue⟩ := hsent p hp
    simp only [hclient'] at hclient
    cases hclient
    obtain ⟨rClient, bev, hold, hbev', hq⟩ := hqueue bev' hbev
    rw [hq]
    exact (h.stream p.1 rClient bev hold hbev').add hreq

/-- With no active slave, nobody is connected. -/
theorem SlavesInv.of_inactive (h : SlavesInv context rm reqs live) (hnone : ¬ 0 < context.activeSlaves)
    (reqs' : List LoggedRequest) : SlavesInv context rm reqs' live := by
  refine ⟨h.lists, h.entries, h.client, h.count, h.idle, fun e rClient bev hclient hbev => absurd ?_ hnone⟩
  obtain ⟨p, hp, rfl⟩ := List.mem_map.1 ((h.entries e).1 (by rw [hclient]; rfl))
  rw [h.count]
  refine List.countP_pos_iff.2 ⟨p, hp, ?_⟩
  rw [hasBev, hclient, Option.bind_some, hbev]
  rfl

/-- An entry is added to the slab. -/
theorem SlavesInv.add (h : SlavesInv context rm reqs live) {slab : Slab ReplicationClient} {e : EntryPtr}
    (hadd : addEntryToSlab true rm.rClientsSlab initReplicationClient = some (slab, some e))
    (hkeeps : KeepsPartial ⟨rm.rClientsSlab, []⟩ (.add true initReplicationClient)) (rClient : ReplicationClient) :
    (∃ pl fl, SlabInv ⟨slab, (e, initReplicationClient) :: live⟩ pl fl) ∧ e ∉ live.map Prod.fst ∧
    (∀ e', (Function.update rm.rClients e (some rClient) e').isSome = true ↔
      e' ∈ ((e, initReplicationClient) :: live).map Prod.fst) ∧
    ∀ p ∈ live, Function.update rm.rClients e (some rClient) p.1 = rm.rClients p.1 := by
  obtain ⟨pl, fl, hslab⟩ := h.lists
  obtain ⟨s', hs', hgood, -⟩ := slabStep_add hslab true initReplicationClient
  simp only [slabStep, hadd, Option.bind_eq_bind, Option.bind_some] at hs'
  cases hs'
  obtain ⟨pl', fl', hslab'⟩ := hgood hkeeps
  have hnd := hslab'.slots.nodup
  rw [List.map_cons, List.nodup_cons] at hnd
  refine ⟨⟨pl', fl', hslab'⟩, hnd.1, fun e' => ?_, fun p hp => ?_⟩
  · rw [List.map_cons, List.mem_cons]
    by_cases he : e' = e
    · subst he
      simp
    · rw [Function.update_of_ne he, h.entries e']
      exact (or_iff_right he).symm
  · refine Function.update_of_ne (fun heq => hnd.1 ?_) _ _
    exact List.mem_map.2 ⟨p, hp, heq⟩

/-- An entry is removed from the slab. -/
theorem freeReplicationClient_spec (context : HttpHandlerContext D) (rm : ReplicationMasterContext) {pl fl : List Nat}
    (hslab : SlabInv ⟨rm.rClientsSlab, live⟩ pl fl) {e : EntryPtr}
    (he : e ∈ live.map Prod.fst) : ∃ slab, freeReplicationClient ⟨context, rm⟩ e =
      some ⟨context, { rm with rClientsSlab := slab, rClients := Function.update rm.rClients e none }⟩ ∧
      ∃ pl fl, SlabInv ⟨slab, live.filter (·.1 ≠ e)⟩ pl fl := by
  obtain ⟨s', hs', pl', fl', hslab'⟩ := slabStep_remove hslab he
  unfold slabStep at hs'
  obtain ⟨⟨slab, ret⟩, hremove, heq⟩ := Option.bind_eq_some_iff.1 hs'
  cases heq
  refine ⟨slab, ?_, pl', fl', hslab'⟩
  unfold freeReplicationClient
  rw [hremove]
  rfl

/-- A slave that leaves. -/
theorem SlavesInv.leave (h : SlavesInv context rm reqs live) {e : EntryPtr} (he : hasBev rm.rClients e = true) :
    ∃ m', senderEventcb ⟨context, rm⟩ e = some m' ∧ m'.context.dbLog = context.dbLog ∧
      SlavesInv m'.context m'.rmContext reqs (live.filter (·.1 ≠ e)) := by
  obtain ⟨pl, fl, hslab⟩ := h.lists
  obtain ⟨bev, hbev⟩ := Option.isSome_iff_exists.1 he
  obtain ⟨rClient, hclient, hbev⟩ := Option.bind_eq_some_iff.1 hbev
  have hmem := (h.entries e).1 (by rw [hclient]; rfl)
  obtain ⟨p, hp, rfl⟩ := List.mem_map.1 hmem
  -- one connected slave less
  have hcount : live.countP (fun q => hasBev rm.rClients q.1) =
      (live.filter (·.1 ≠ p.1)).countP (fun q => hasBev rm.rClients q.1) + 1 := by
    obtain ⟨l₁, l₂, rfl⟩ := List.append_of_mem hp
    have hnd := h.nodup
    rw [List.map_append, List.map_cons, List.nodup_middle, List.nodup_cons, ← List.map_append] at hnd
    have hfilter : (l₁ ++ l₂).filter (·.1 ≠ p.1) = l₁ ++ l₂ := by
      refine List.filter_eq_self.2 (fun q hq => ?_)
      simp only [ne_eq, decide_eq_true_eq]
      exact fun heq => hnd.1 (heq ▸ List.mem_map_of_mem hq)
    have hsplit : (l₁ ++ p :: l₂).filter (·.1 ≠ p.1) = l₁ ++ l₂ := by
      rw [← hfilter]
      simp
    rw [hsplit, List.countP_append, List.countP_cons, if_pos he, List.countP_append, Nat.add_assoc]
  have hpos : 0 < context.activeSlaves := by
    rw [h.count, hcount]
    omega
  obtain ⟨slab, hfree, hslab'⟩ := freeReplicationClient_spec { context with
    activeSlaves := context.activeSlaves - 1 } rm hslab hmem
  have hactive : ¬ rClient.active = false := by rw [(h.client _ _ hclient).1]; decide
  refine ⟨⟨{ context with activeSlaves := context.activeSlaves - 1 },
    { rm with rClientsSlab := slab, rClients := Function.update rm.rClients p.1 none }⟩, ?_, rfl, hslab',
      fun e' => ?_, fun e' c hc => ?_, ?_, h.idle, fun e' c bev hc hb => ?_⟩
  · unfold senderEventcb
    simp only [hclient, Option.bind_eq_bind, Option.bind_some, if_neg hactive, if_pos hpos]
    exact hfree
  · simp only [List.mem_map, List.mem_filter, ne_eq, decide_not, Bool.not_eq_eq_eq_not, Bool.not_true,
      decide_eq_false_iff_not]
    by_cases heq : e' = p.1
    · subst heq
      simp only [Function.update_self, Option.isSome_none, Bool.false_eq_true, false_iff]
      rintro ⟨q, ⟨-, hne⟩, heq⟩
      exact hne heq
    · rw [Function.update_of_ne heq, h.entries e', List.mem_map]
      exact exists_congr fun q => ⟨fun ⟨hq, hqe⟩ => ⟨⟨hq, fun hqp => heq (hqe.symm.trans hqp)⟩, hqe⟩,
        fun ⟨⟨hq, _⟩, hqe⟩ => ⟨hq, hqe⟩⟩
  · simp only at hc
    by_cases heq : e' = p.1
    · rw [heq, Function.update_self] at hc
      cases hc
    · rw [Function.update_of_ne heq] at hc
      exact h.client e' c hc
  · have hcongr : (live.filter (·.1 ≠ p.1)).countP (fun q => hasBev (Function.update rm.rClients p.1 none) q.1) =
        (live.filter (·.1 ≠ p.1)).countP (fun q => hasBev rm.rClients q.1) := by
      refine List.countP_congr (fun q hq => ?_)
      have hne : q.1 ≠ p.1 := by simpa using (List.mem_filter.1 hq).2
      rw [hasBev, hasBev, Function.update_of_ne hne]
    rw [hcongr]
    simp only
    have := h.count
    omega
  · simp only at hc
    by_cases heq : e' = p.1
    · rw [heq, Function.update_self] at hc
      cases hc
    · rw [Function.update_of_ne heq] at hc
      exact h.stream e' c bev hc hb

/-- A slave whose queue changes and whose connection stays. -/
theorem SlavesInv.update (h : SlavesInv context rm reqs live) {e : EntryPtr} {rClient rClient' : ReplicationClient}
    (hclient : rm.rClients e = some rClient) (hok : ClientOk rClient') (hbev : rClient'.bev.isSome = rClient.bev.isSome)
    (hstream : ∀ bev', rClient'.bev = some bev' → RecordStream reqs bev'.queued) :
    SlavesInv context { rm with rClients := Function.update rm.rClients e (some rClient') } reqs live := by
  refine ⟨h.lists, fun e' => ?_, fun e' c hc => ?_, ?_, h.idle, fun e' c bev hc hb => ?_⟩
  · rw [← h.entries e']
    by_cases heq : e' = e
    · rw [heq, hclient]
      simp
    · simp only [Function.update_of_ne heq]
  · simp only at hc
    by_cases heq : e' = e
    · rw [heq, Function.update_self] at hc
      cases hc
      exact hok
    · rw [Function.update_of_ne heq] at hc
      exact h.client e' c hc
  · rw [h.count]
    refine List.countP_congr (fun q _ => ?_)
    simp only
    by_cases heq : q.1 = e
    · rw [hasBev, hasBev, heq, hclient, Function.update_self, Option.bind_some, Option.bind_some, hbev]
    · rw [hasBev, hasBev, Function.update_of_ne heq]
  · simp only at hc
    by_cases heq : e' = e
    · rw [heq, Function.update_self] at hc
      cases hc
      exact hstream bev hb
    · rw [Function.update_of_ne heq] at hc
      exact h.stream e' c bev hc hb

/-- **A slave that connects** is sent what the file has. -/
theorem SlavesInv.accept (h : SlavesInv context rm reqs live) {clientFd : Nat} {opened : Bool} {m' : Master D}
    (hstep : acceptcb ⟨context, rm⟩ clientFd opened = some m')
    (hkeeps : KeepsPartial ⟨rm.rClientsSlab, []⟩ (.add true initReplicationClient))
    (hfile : RecordStream reqs (EXPORTED_JOURNAL ++ context.dbLog.dbLogFd.getD [])) :
    m'.context.dbLog = context.dbLog ∧ ∃ live', SlavesInv m'.context m'.rmContext reqs live' := by
  unfold acceptcb at hstep
  simp only [h.idle] at hstep
  rw [if_neg (show (0 : Nat) ≠ UINT_MAX by decide)] at hstep
  obtain ⟨⟨slab, e⟩, hadd, hstep⟩ := Option.bind_eq_some_iff.1 hstep
  obtain ⟨e, rfl, hstep⟩ := Option.bind_eq_some_iff.1 hstep
  cases opened with
  | true =>
    simp only [if_true] at hstep
    cases hstep
    obtain ⟨hslab, hnew, hentries, hother⟩ := h.add hadd hkeeps
      ⟨some clientFd, some ⟨[], EXPORTED_JOURNAL ++ context.dbLog.dbLogFd.getD []⟩, true⟩
    refine ⟨rfl, _, hslab, hentries, fun e' c hc => ?_, ?_, rfl, fun e' c bev hc hb => ?_⟩
    · simp only at hc
      by_cases heq : e' = e
      · rw [heq, Function.update_self] at hc
        cases hc
        exact ⟨rfl, fun _ => rfl⟩
      · rw [Function.update_of_ne heq] at hc
        exact h.client e' c hc
    · rw [List.countP_cons, if_pos (by simp [hasBev])]
      simp only
      rw [h.count]
      congr 1
      exact List.countP_congr (fun q hq => by rw [hasBev, hasBev, hother q hq])
    · simp only at hc
      by_cases heq : e' = e
      · rw [heq, Function.update_self] at hc
        cases hc
        cases hb
        exact hfile
      · rw [Function.update_of_ne heq] at hc
        exact h.stream e' c bev hc hb
  | false =>
    simp only [Bool.false_eq_true, if_false] at hstep
    obtain ⟨⟨pl, fl, hslab⟩, hnew, -, -⟩ := h.add hadd hkeeps ⟨some clientFd, some ⟨[], EXPORTED_JOURNAL⟩, false⟩
    have hnone : rm.rClients e = none := by
      by_contra hsome
      exact hnew ((h.entries e).1 (Option.isSome_iff_ne_none.2 hsome))
    obtain ⟨slab', hfree, hslab'⟩ := freeReplicationClient_spec context { rm with
      rClientsSlab := slab, rClients := Function.update rm.rClients e (some ⟨some clientFd, some ⟨[], EXPORTED_JOURNAL⟩, false⟩) }
      hslab (List.mem_cons_self : e ∈ e :: live.map Prod.fst)
    rw [h.idle] at hfree
    rw [hfree] at hstep
    cases hstep
    -- the entry is gone again
    have hlive : ((e, initReplicationClient) :: live).filter (·.1 ≠ e) = live := by
      rw [List.filter_cons, if_neg (by simp)]
      refine List.filter_eq_self.2 (fun q hq => ?_)
      simp only [ne_eq, decide_eq_true_eq]
      rintro rfl
      exact hnew (List.mem_map_of_mem hq)
    have hclients : Function.update (Function.update rm.rClients e
        (some ⟨some clientFd, some ⟨[], EXPORTED_JOURNAL⟩, false⟩)) e none = rm.rClients := by
      rw [Function.update_idem, ← hnone, Function.update_eq_self]
    rw [hlive] at hslab'
    refine ⟨rfl, live, hslab', fun e' => ?_, fun e' c hc => ?_, ?_, rfl, fun e' c bev hc hb => ?_⟩
    · simp only [hclients]
      exact h.entries e'
    · simp only [hclients] at hc
      exact h.client e' c hc
    · simp only [hclients]
      exact h.count
    · simp only [hclients] at hc
      exact h.stream e' c bev hc hb

/-! ## The law of replication -/

/-- The invariant of a master. -/
def MasterInv (m : Master D) : Prop := ∃ file buffer live, HoldsItems m.context.dbLog file buffer ∧
  SlavesInv m.context m.rmContext ((file ++ buffer).filterMap LogItem.request?) live

theorem MasterInv.law {m : Master D} (h : MasterInv m) : SlaveLaw m := by
  obtain ⟨file, buffer, live, hitems, hslaves⟩ := h
  intro e rClient bev hclient hbev
  obtain ⟨items, hok, hreqs, hqueue⟩ := hslaves.stream e rClient bev hclient hbev
  exact ⟨_, hqueue, by rw [requestRecords_items hok, hitems.journal, requestRecords_items hitems.ok, hreqs]⟩

/-- **One step of the master.** -/
theorem masterStep_inv {m m' : Master D} {op : MasterOp} (h : MasterInv m) (hlegal : (masterSystem context).legal m op)
    (hall : AcceptsAll m op) (hstep : masterStep m op = some m') : MasterInv m' := by
  obtain ⟨file, buffer, live, hitems, hslaves⟩ := h
  cases op with
  | append call =>
    obtain ⟨hsend, hcall⟩ := hlegal
    simp only [masterStep, addToDbLogAndSlaves] at hstep
    by_cases hlim : LogLimits call.uri call.body
    · have hcall : call.Ok := hcall.resolve_right (fun hover => hover hlim)
      obtain ⟨⟨file', buffer', hitems', hreqs⟩, hactive, hsent⟩ := addToDbLog_items
        { m.context with now := call.now, slavesOut := [] } hitems hcall rfl rfl hsend
      simp only at hactive
      generalize addToDbLog { m.context with now := call.now, slavesOut := [] } call.verb call.uri call.body
        call.sendToSlaves = added at hstep hitems' hactive hsent
      by_cases hpos : 0 < m.context.activeSlaves
      · rw [if_pos hpos] at hsent
        rw [hsent, if_neg (LogItem.encode_ne_nil _)] at hstep
        have hslaves' : SlavesInv added.1 m.rmContext ((file ++ buffer).filterMap LogItem.request?) live :=
          ⟨hslaves.lists, hslaves.entries, hslaves.client, by rw [hactive, hslaves.count], hslaves.idle, hslaves.stream⟩
        obtain ⟨context', rm', hsend', hdbLog, hinv⟩ := hslaves'.send hcall.request_ok
        rw [hsend'] at hstep
        cases hstep
        exact ⟨file', buffer', live, hdbLog ▸ hitems', hreqs ▸ hinv⟩
      · rw [if_neg hpos] at hsent
        rw [hsent, if_pos rfl] at hstep
        cases hstep
        refine ⟨file', buffer', live, hitems', hreqs ▸ ?_⟩
        have hslaves' := hslaves.of_inactive hpos ((file ++ buffer).filterMap LogItem.request? ++ [call.logged])
        exact ⟨hslaves'.lists, hslaves'.entries, hslaves'.client, by rw [hactive, hslaves'.count], hslaves'.idle,
          hslaves'.stream⟩
    · rw [addToDbLog_over { m.context with now := call.now, slavesOut := [] } hitems.dbLogFd hlim] at hstep
      simp only [if_true] at hstep
      cases hstep
      exact ⟨file, buffer, live, hitems, hslaves.lists, hslaves.entries, hslaves.client, hslaves.count, hslaves.idle,
        hslaves.stream⟩
  | flush sync =>
    cases hstep
    obtain ⟨file', buffer', hitems', heq⟩ := hitems.flush sync
    exact ⟨file', buffer', live, hitems', heq ▸ ⟨hslaves.lists, hslaves.entries, hslaves.client, hslaves.count,
      hslaves.idle, hslaves.stream⟩⟩
  | accept clientFd opened =>
    obtain ⟨hbuffer, hkeeps⟩ := hall
    rw [hitems.logBuffer, requestRecords_items (fun i hi => hitems.ok i (List.mem_append_right _ hi))] at hbuffer
    have hfile : RecordStream ((file ++ buffer).filterMap LogItem.request?)
        (EXPORTED_JOURNAL ++ m.context.dbLog.dbLogFd.getD []) := by
      refine ⟨file, fun i hi => hitems.ok i (List.mem_append_left _ hi), ?_, by rw [hitems.dbLogFd]; rfl⟩
      rw [List.filterMap_append, hbuffer, List.append_nil]
    obtain ⟨hdbLog, live', hinv⟩ := hslaves.accept hstep hkeeps hfile
    exact ⟨file, buffer, live', hdbLog ▸ hitems, hinv⟩
  | disconnect e =>
    obtain ⟨m'', hleave, hdbLog, hinv⟩ := hslaves.leave hlegal
    have : some m'' = some m' := hleave.symm.trans hstep
    cases this
    exact ⟨file, buffer, _, hdbLog ▸ hitems, hinv⟩
  | write e n =>
    simp only [masterStep, writeOutput] at hstep
    obtain ⟨rClient, hclient, hstep⟩ := Option.bind_eq_some_iff.1 hstep
    obtain ⟨bev, hbev, hstep⟩ := Option.bind_eq_some_iff.1 hstep
    cases hstep
    have hok := hslaves.client e rClient hclient
    have hstream := hslaves.stream e rClient bev hclient hbev
    refine ⟨file, buffer, live, hitems, hslaves.update hclient ⟨hok.1, fun _ => hok.2 (by rw [hbev]; rfl)⟩
      (by rw [hbev]; rfl) (fun bev' h => ?_)⟩
    cases h
    rw [Bufferevent.queued, List.append_assoc, List.take_append_drop]
    exact hstream

/-- **A slave misses no record** along every run whose connections miss nothing. -/
theorem slave_misses_nothing {items : List LogItem} (hitems : ∀ item ∈ items, item.Ok)
    (hopen : context.dbLog.dbLogFd = some (items.flatMap LogItem.encode)) (hbuffer : context.dbLog.logBuffer = [])
    {h : List (Master D × MasterOp)} {m : Master D} (hr : (masterSystem context).Run h m)
    (hall : ∀ p ∈ h, AcceptsAll p.1 p.2) : (∀ p ∈ h, SlaveLaw p.1) ∧ SlaveLaw m := by
  have hinit : MasterInv (masterSystem context).init := by
    refine ⟨items, [], [], ⟨hopen, hbuffer, by rw [List.append_nil]; exact hitems⟩, ⟨⟨[], [], slabInv_init⟩, ?_, ?_, rfl,
      rfl, ?_⟩⟩
    · simp [masterSystem]
    · intro e rClient hclient
      cases hclient
    · intro e rClient bev hclient
      cases hclient
  obtain ⟨hh, hm⟩ := hr.inv_of_good MasterInv AcceptsAll hinit
    (fun m op m' hinv hlegal hgood hstep => masterStep_inv hinv hlegal hgood hstep) hall
  exact ⟨fun p hp => (hh p hp).law, hm.law⟩

instance (m : Master D) : ∀ op, Decidable ((masterSystem context).legal m op)
  | .append call => inferInstanceAs (Decidable (call.sendToSlaves = true ∧ (call.Ok ∨ ¬ LogLimits call.uri call.body)))
  | .flush _ | .accept _ _ => .isTrue trivial
  | .disconnect _ | .write _ _ => inferInstanceAs (Decidable (_ = true))

instance (m : Master D) : ∀ op, Decidable (AcceptsAll m op)
  | .accept _ _ => inferInstanceAs (Decidable (_ ∧ _))
  | .append _ | .flush _ | .disconnect _ | .write _ _ => .isTrue trivial

/-- What the slave behind an entry was sent. -/
def queuedTo (m : Master D) (e : EntryPtr) : Option Bytes :=
  ((m.rmContext.rClients e).bind (·.bev)).map Bufferevent.queued

/-- A request, a flush, a connection, and another request that goes to the slave. -/
theorem slave_misses_nothing_flushed : ∃ h m, (masterSystem freshContext).Run h m ∧
    h.map Prod.snd = [.append ⟨60, EVHTTP_REQ_POST, bytes "/api/1.0/layers/x.json", [], true⟩, .flush true,
      .accept 5 true, .append ⟨61, EVHTTP_REQ_POST, bytes "/api/1.0/layers/y.json", [], true⟩] ∧
    queuedTo m ⟨0, 0⟩ = some (EXPORTED_JOURNAL ++ bytes "-<@3c T>\n-<2 16:/api/1.0/layers/x.json 0:>\n" ++
      bytes "-<2 16:/api/1.0/layers/y.json 0:>\n") ∧ (∀ p ∈ h, SlaveLaw p.1) ∧ SlaveLaw m := by
  have hexec : (((masterSystem freshContext).restrict AcceptsAll).exec
      [.append ⟨60, EVHTTP_REQ_POST, bytes "/api/1.0/layers/x.json", [], true⟩, .flush true, .accept 5 true,
        .append ⟨61, EVHTTP_REQ_POST, bytes "/api/1.0/layers/y.json", [], true⟩] (masterSystem freshContext).init).any
      (fun m => queuedTo m ⟨0, 0⟩ = some (EXPORTED_JOURNAL ++
        bytes "-<@3c T>\n-<2 16:/api/1.0/layers/x.json 0:>\n" ++ bytes "-<2 16:/api/1.0/layers/y.json 0:>\n")) =
        true := by
    decide +kernel
  obtain ⟨m, hm, hqueue⟩ := (Option.any_eq_true _ _).1 hexec
  obtain ⟨h, hr, hops⟩ := Lib.System.Run.of_exec _ Lib.System.Run.init hm
  obtain ⟨hr, hgood⟩ := hr.of_restrict
  have hnone : ∀ item ∈ ([] : List LogItem), item.Ok := fun _ hitem => nomatch hitem
  exact ⟨h, m, hr, hops, of_decide_eq_true hqueue, slave_misses_nothing hnone rfl rfl hr hgood⟩

/-- **A connection between an append and its flush misses the record.** -/
theorem slave_misses_unflushed : ∃ h m, (masterSystem freshContext).Run h m ∧
    h.map Prod.snd = [.append ⟨60, EVHTTP_REQ_POST, bytes "/api/1.0/layers/x.json", [], true⟩, .accept 5 true,
      .flush true] ∧ ¬ SlaveLaw m := by
  have hexec : ((masterSystem freshContext).exec
      [.append ⟨60, EVHTTP_REQ_POST, bytes "/api/1.0/layers/x.json", [], true⟩, .accept 5 true, .flush true]
      (masterSystem freshContext).init).any (fun m => queuedTo m ⟨0, 0⟩ = some EXPORTED_JOURNAL ∧
        requestRecords m.context.dbLog.journal = [⟨2, bytes "/api/1.0/layers/x.json", []⟩]) = true := by
    decide +kernel
  obtain ⟨m, hm, heval⟩ := (Option.any_eq_true _ _).1 hexec
  obtain ⟨hqueue, hjournal⟩ := of_decide_eq_true heval
  obtain ⟨h, hr, hops⟩ := Lib.System.Run.of_exec _ Lib.System.Run.init hm
  refine ⟨h, m, hr, hops, fun hlaw => ?_⟩
  obtain ⟨bev, hbev, hqueue⟩ := Option.map_eq_some_iff.1 hqueue
  obtain ⟨rClient, hclient, hbev⟩ := Option.bind_eq_some_iff.1 hbev
  obtain ⟨l, hl, hreqs⟩ := hlaw ⟨0, 0⟩ rClient bev hclient hbev
  rw [hqueue] at hl
  have hnil : l = [] := by simpa using hl
  rw [hnil, hjournal] at hreqs
  cases hreqs

end Pincaster
