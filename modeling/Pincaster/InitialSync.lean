import Pincaster.SlabFresh
import Pincaster.ReplicationRuns
import Pincaster.JournalRewrite
import Mathlib.Data.Set.Card
/-!
# InitialSync — the slaves that download the journal, and the rewrites that would switch it

`acceptcb` queues the journal's file to a slave and calls it active before a byte of it is sent, so that
`slaves_in_initial_download` is 0 whenever a callback ends.  The number of `active_slaves` is right in every run; the
other one is right, and the end of a rewrite waits for the slaves, exactly as long as every slave finds an empty file.
-/
namespace Pincaster

open Lib (Bytes bytes System)

variable {D : Type}

/-! ## The callbacks -/

/-- The end of `acceptcb` as the source has it: the slave is counted as one in initial download, and at once as an
active one. -/
def registerSlave (m : Master D) (e : EntryPtr) : Option (Master D) := do
  let rClient ← m.rmContext.rClients e
  let slavesInInitialDownload := m.rmContext.slavesInInitialDownload + 1
  if 0 < slavesInInitialDownload then
    let slavesInInitialDownload := slavesInInitialDownload - 1
    if rClient.active = false then
      some ⟨{ m.context with activeSlaves := m.context.activeSlaves + 1 }, { m.rmContext with
        slavesInInitialDownload
        rClients := Function.update m.rmContext.rClients e (some { rClient with active := true }) }⟩
    else none
  else none

/-- `acceptcb` registers the slave it has queued the file to. -/
theorem acceptcb_register {m : Master D} {clientFd : Nat} {slab : Slab ReplicationClient} {e : EntryPtr}
    (hmax : m.rmContext.slavesInInitialDownload ≠ UINT_MAX)
    (hadd : addEntryToSlab true m.rmContext.rClientsSlab initReplicationClient = some (slab, some e)) :
    acceptcb m clientFd true = registerSlave { m with rmContext := { m.rmContext with
      rClientsSlab := slab
      rClients := Function.update m.rmContext.rClients e
        (some ⟨some clientFd, some ⟨[], EXPORTED_JOURNAL ++ m.context.dbLog.dbLogFd.getD []⟩, false⟩) } } e := by
  unfold acceptcb registerSlave
  simp only [if_neg hmax, hadd, Option.bind_eq_bind, Option.bind_some, if_true, Function.update_self,
    Function.update_idem, Nat.add_sub_cancel, if_pos (Nat.succ_pos _)]

/-- `sender_writecb`. -/
def senderWritecb (m : Master D) (e : EntryPtr) : Option (Master D) := do
  let rClient ← m.rmContext.rClients e
  let bev ← rClient.bev
  if bev.output.length ≠ 0 then some m
  else if rClient.active = true then (if 0 < m.context.activeSlaves then some m else none)
  else some m

def anySlaveInInitialDownload (m : Master D) : Bool := 0 < m.rmContext.slavesInInitialDownload

/-- The file that replaces the journal at the end of a rewrite, `none` when nothing does. -/
def rewrittenJournal (m : Master D) (parent : ParentOutcomes) (child : ChildExit) (recent : Bytes) : Option Bytes :=
  sigchldCb { parent with anySlaveInInitialDownload := anySlaveInInitialDownload m } child recent

/-- `sigchld_cb`.  `offset` is where a copy that failed has left the descriptor of the journal. -/
def rewriteDone (m : Master D) (parent : ParentOutcomes) (child : ChildExit) (offset : Nat) : Option (Master D) := do
  if child.status ≠ 0 then some m
  else
    let dbLog := { m.context.dbLog with journalRewriteProcess := none }
    let file ← dbLog.dbLogFd
    let offsetBeforeFork ← dbLog.offsetBeforeFork
    let recent := file.drop offsetBeforeFork
    match rewrittenJournal m parent child recent with
    | none => some { m with context := { m.context with dbLog := { dbLog with dbLogOffset := offset } } }
    | some file =>
      let dbLogOffset := if recent.length ≤ 0 then 0 else file.length
      some { m with context := { m.context with dbLog := { dbLog with dbLogFd := some file, dbLogOffset } } }

/-! ## The master and the rewrites -/

/-- The master, with the number of bytes of the journal that was queued to each slave when it connected. -/
structure SyncState (D : Type) where
  master : Master D
  queuedJournal : EntryPtr → Nat

inductive SyncOp where
  | append (call : LogCall)
  | flush (sync : Bool)
  | accept (clientFd : Nat) (opened : Bool)
  | disconnect (e : EntryPtr)
  | write (e : EntryPtr) (n : Nat)
  | rewrite (fork : Option Nat)
  | rewriteDone (parent : ParentOutcomes) (child : ChildExit) (offset : Nat)

/-- The entry of the slave that `acceptcb` registers. -/
def acceptedEntry (m : Master D) (opened : Bool) : Option EntryPtr :=
  if m.rmContext.slavesInInitialDownload = UINT_MAX ∨ opened = false then none
  else (addEntryToSlab true m.rmContext.rClientsSlab initReplicationClient).bind (·.2)

def queueJournal (s : SyncState D) (opened : Bool) : EntryPtr → Nat :=
  match acceptedEntry s.master opened with
  | none => s.queuedJournal
  | some e => Function.update s.queuedJournal e (s.master.context.dbLog.dbLogFd.getD []).length

def syncStep (s : SyncState D) : SyncOp → Option (SyncState D)
  | .append call => (addToDbLogAndSlaves s.master call).map ({ s with master := · })
  | .flush sync => some { s with master := { s.master with
      context := { s.master.context with dbLog := flushDbLog s.master.context.dbLog sync } } }
  | .accept clientFd opened => (acceptcb s.master clientFd opened).map (⟨·, queueJournal s opened⟩)
  | .disconnect e => (senderEventcb s.master e).map ({ s with master := · })
  | .write e n => ((writeOutput s.master e n).bind (senderWritecb · e)).map ({ s with master := · })
  | .rewrite fork => (handleSpecialOpSystemRewrite s.master.context false fork).map (fun r =>
      { s with master := { s.master with context := r.2 } })
  | .rewriteDone parent child offset => (rewriteDone s.master parent child offset).map ({ s with master := · })

/-- The master, started on a journal.  A child that ends is the one of the rewrite that is going on; where the parent
cannot go back to the end of the journal it exits, so that there is no step. -/
def syncSystem (context : HttpHandlerContext D) : System (SyncState D) SyncOp where
  init := ⟨⟨{ context with activeSlaves := 0 }, ⟨0, initSlab, fun _ => none⟩⟩, fun _ => 0⟩
  legal s
    | .append _ | .flush _ | .accept _ _ | .rewrite _ => True
    | .disconnect e | .write e _ => Connected s.master e
    | .rewriteDone parent _ _ => parent.forwarded = true ∧ s.master.context.dbLog.journalRewriteProcess ≠ none
  step := syncStep

/-! ## The law -/

/-- A connected slave that was not sent all of the journal that was queued to it. -/
def InInitialSync (s : SyncState D) (e : EntryPtr) : Prop :=
  0 < s.queuedJournal e ∧ ∃ rClient bev, s.master.rmContext.rClients e = some rClient ∧ rClient.bev = some bev ∧
    bev.written.length < EXPORTED_JOURNAL.length + s.queuedJournal e

/-- **No counter goes below 0**, when a slave leaves or drains its output and when a record is sent to all of them. -/
structure NoUnderflow (m : Master D) : Prop where
  event : ∀ e rClient, m.rmContext.rClients e = some rClient → rClient.bev.isSome = true →
    0 < if rClient.active then m.context.activeSlaves else m.rmContext.slavesInInitialDownload
  send : ∀ rEntry r, slabForeach (sendToActiveSlavesCb rEntry) m.rmContext.rClientsSlab
    (some (m.context.activeSlaves, m.rmContext.rClients)) = some r → r.2.isSome = true

/-- **The law of the initial sync**: the counter is the number of slaves that are still being sent the journal, and no
rewrite that ends now replaces the journal when there is one. -/
structure SyncLaw (s : SyncState D) : Prop where
  noUnderflow : NoUnderflow s.master
  counted : {e | InInitialSync s e}.encard = s.master.rmContext.slavesInInitialDownload
  kept : ∀ parent child recent, (rewrittenJournal s.master parent child recent).isSome = true → ∀ e, ¬ InInitialSync s e

/-- **The slave finds no journal**: the file is empty when it connects. -/
def FindsEmptyJournal (s : SyncState D) : SyncOp → Prop
  | .accept _ opened => opened = true → s.master.context.dbLog.dbLogFd.getD [] = []
  | _ => True

/-! ## The connected slaves -/

/-- The entries of the connected slaves. -/
def connected (rClients : EntryPtr → Option ReplicationClient) : Set EntryPtr := {e | hasBev rClients e = true}

theorem mem_connected {rClients : EntryPtr → Option ReplicationClient} {e : EntryPtr} :
    e ∈ connected rClients ↔ ∃ rClient, rClients e = some rClient ∧ rClient.bev.isSome = true := by
  change hasBev rClients e = true ↔ _
  unfold hasBev
  cases rClients e with
  | none => simp
  | some rClient => simp

/-- A slave whose connection stays, or that connects. -/
theorem connected_join (rClients : EntryPtr → Option ReplicationClient) (e : EntryPtr) {rClient : ReplicationClient}
    (h : rClient.bev.isSome = true) :
    connected (Function.update rClients e (some rClient)) = insert e (connected rClients) := by
  ext e'
  rw [Set.mem_insert_iff]
  by_cases he : e' = e
  · simp [connected, hasBev, he, h]
  · simp [connected, hasBev, he]

theorem connected_leave (rClients : EntryPtr → Option ReplicationClient) (e : EntryPtr)
    {rClient : Option ReplicationClient} (h : rClient.bind (·.bev) = none) :
    connected (Function.update rClients e rClient) = connected rClients \ {e} := by
  ext e'
  rw [Set.mem_sdiff, Set.mem_singleton_iff]
  by_cases he : e' = e
  · simp [connected, hasBev, he, h]
  · simp [connected, hasBev, he]

/-- One connected slave less. -/
theorem encard_connected_leave {rClients : EntryPtr → Option ReplicationClient} {e : EntryPtr} {n : Nat}
    (he : e ∈ connected rClients) (hn : (connected rClients).encard = n) {rClient : Option ReplicationClient}
    (h : rClient.bind (·.bev) = none) :
    0 < n ∧ (connected (Function.update rClients e rClient)).encard = (n - 1 : Nat) := by
  have hone := Set.encard_sdiff_singleton_add_one he
  rw [hn] at hone
  rw [connected_leave rClients e h]
  cases n with
  | zero => exact absurd hone (by simp)
  | succ n => exact ⟨Nat.succ_pos n, ENat.add_left_injective_of_ne_top ENat.one_ne_top hone⟩

/-- The counter of active slaves is right. -/
structure CountedSlaves (activeSlaves : Nat) (rClients : EntryPtr → Option ReplicationClient) : Prop where
  client : ∀ e rClient, rClients e = some rClient → ClientOk rClient
  count : (connected rClients).encard = activeSlaves

theorem CountedSlaves.pos {activeSlaves : Nat} {rClients : EntryPtr → Option ReplicationClient}
    (h : CountedSlaves activeSlaves rClients) {e : EntryPtr} (he : e ∈ connected rClients) : 0 < activeSlaves := by
  have hpos := Set.encard_pos.2 ⟨e, he⟩
  rw [h.count] at hpos
  exact_mod_cast hpos

/-- An entry whose slave is in order and stays as connected as it was. -/
theorem CountedSlaves.update {activeSlaves : Nat} {rClients : EntryPtr → Option ReplicationClient}
    (h : CountedSlaves activeSlaves rClients) {e : EntryPtr} {rClient rClient' : ReplicationClient}
    (hclient : rClients e = some rClient) (hok : ClientOk rClient') (hbev : rClient'.bev.isSome = rClient.bev.isSome) :
    CountedSlaves activeSlaves (Function.update rClients e (some rClient')) := by
  have hsame : connected (Function.update rClients e (some rClient')) = connected rClients := by
    ext e'
    by_cases he : e' = e
    · simp [connected, hasBev, he, hclient, hbev]
    · simp [connected, hasBev, he]
  refine ⟨fun e' c hc => ?_, by rw [hsame, h.count]⟩
  by_cases he : e' = e
  · rw [he, Function.update_self] at hc
    cases hc
    exact hok
  · rw [Function.update_of_ne he] at hc
    exact h.client e' c hc

/-- A slave that leaves, whether or not its entry does. -/
theorem CountedSlaves.leave {activeSlaves : Nat} {rClients : EntryPtr → Option ReplicationClient}
    (h : CountedSlaves activeSlaves rClients) {e : EntryPtr} (he : e ∈ connected rClients)
    {rClient : Option ReplicationClient} (hbev : rClient.bind (·.bev) = none) (hok : ∀ c, rClient = some c → ClientOk c) :
    CountedSlaves (activeSlaves - 1) (Function.update rClients e rClient) := by
  refine ⟨fun e' c hc => ?_, (encard_connected_leave he h.count hbev).2⟩
  by_cases he' : e' = e
  · rw [he', Function.update_self] at hc
    exact hok c hc
  · rw [Function.update_of_ne he'] at hc
    exact h.client e' c hc

/-- **What one visit of a sending leaves**: the counter is right again, and nobody has connected. -/
theorem CountedSlaves.sendOne {activeSlaves : Nat} {rClients : EntryPtr → Option ReplicationClient}
    (h : CountedSlaves activeSlaves rClients) (rEntry : Bytes) {e : EntryPtr} (he : (rClients e).isSome = true)
    (x : ReplicationClient) : ∃ activeSlaves' rClients',
      (sendToActiveSlavesCb rEntry (some (activeSlaves, rClients)) e x).2 = some (activeSlaves', rClients') ∧
      CountedSlaves activeSlaves' rClients' ∧ connected rClients' ⊆ connected rClients ∧
      ∀ e', (rClients' e').isSome = (rClients e').isSome := by
  obtain ⟨rClient, hclient⟩ := Option.isSome_iff_exists.1 he
  have hpos : rClient.bev.isSome = true → 0 < activeSlaves := fun hbev =>
    h.pos (mem_connected.2 ⟨rClient, hclient, hbev⟩)
  obtain ⟨n, rClient', hsend, hok, hqueue, hcount⟩ :=
    sendToActiveSlave_spec rEntry activeSlaves (h.client e rClient hclient) hpos
  have hcb : (sendToActiveSlavesCb rEntry (some (activeSlaves, rClients)) e x).2 =
      some (n, Function.update rClients e (some rClient')) := by
    simp only [sendToActiveSlavesCb, hclient, hsend, Option.bind_eq_bind, Option.bind_some]
  have hkept : ∀ e', (Function.update rClients e (some rClient') e').isSome = (rClients e').isSome := fun e' => by
    by_cases he' : e' = e
    · rw [he', Function.update_self, hclient]
      rfl
    · rw [Function.update_of_ne he']
  refine ⟨n, _, hcb, ?_⟩
  rcases hbev' : rClient'.bev with _ | bev'
  · have hnone : (some rClient').bind (·.bev) = none := hbev'
    refine ⟨?_, ?_, hkept⟩
    · by_cases hbev : rClient.bev.isSome = true
      · rw [if_pos hbev, hbev', Option.isSome_none, if_neg Bool.false_ne_true] at hcount
        have hn : n = activeSlaves - 1 := by omega
        subst hn
        exact h.leave (mem_connected.2 ⟨rClient, hclient, hbev⟩) hnone (fun c hc => by cases hc; exact hok)
      · rw [if_neg hbev, hbev', Option.isSome_none, if_neg Bool.false_ne_true] at hcount
        have hn : n = activeSlaves := hcount
        subst hn
        refine h.update hclient hok ?_
        rw [hbev']
        simpa using hbev
    · rw [connected_leave rClients e hnone]
      exact Set.sdiff_subset
  · obtain ⟨bev, hbev, -⟩ := hqueue bev' hbev'
    rw [hbev, hbev'] at hcount
    have hn : n = activeSlaves := Nat.add_right_cancel hcount
    subst hn
    refine ⟨h.update hclient hok (by rw [hbev, hbev']; rfl), ?_, hkept⟩
    rw [connected_join rClients e (by rw [hbev']; rfl)]
    exact Set.insert_subset (mem_connected.2 ⟨rClient, hclient, by rw [hbev]; rfl⟩) (Set.Subset.refl _)

/-- **A sending that ends has not failed**, in whatever order it visits the entries and however often. -/
theorem CountedSlaves.sendAll (rEntry : Bytes) : ∀ (order : List (EntryPtr × ReplicationClient)) {activeSlaves : Nat}
    {rClients : EntryPtr → Option ReplicationClient}, CountedSlaves activeSlaves rClients →
    (∀ p ∈ order, (rClients p.1).isSome = true) → ∃ activeSlaves' rClients',
      order.foldl (fun ctx p => (sendToActiveSlavesCb rEntry ctx p.1 p.2).2) (some (activeSlaves, rClients)) =
        some (activeSlaves', rClients') ∧
      CountedSlaves activeSlaves' rClients' ∧ connected rClients' ⊆ connected rClients ∧
      ∀ e, (rClients' e).isSome = (rClients e).isSome
  | [], activeSlaves, rClients, h, _ => ⟨activeSlaves, rClients, rfl, h, Set.Subset.refl _, fun _ => rfl⟩
  | p :: order, activeSlaves, rClients, h, hsome => by
    obtain ⟨n₁, rClients₁, hcb, h₁, hsub₁, hkept₁⟩ := h.sendOne rEntry (hsome p List.mem_cons_self) p.2
    obtain ⟨n₂, rClients₂, hfold, h₂, hsub₂, hkept₂⟩ := CountedSlaves.sendAll rEntry order h₁
      (fun q hq => (hkept₁ q.1).trans (hsome q (List.mem_cons_of_mem p hq)))
    refine ⟨n₂, rClients₂, ?_, h₂, hsub₂.trans hsub₁, fun e => (hkept₂ e).trans (hkept₁ e)⟩
    rw [List.foldl_cons, hcb, hfold]

/-! ## The invariant of the master -/

/-- **The invariant of every run**: the busy slots of the slab are the slaves, each of them active, `active_slaves` is
the number of those that are connected, and none is counted as one in initial download. -/
structure CountInv (m : Master D) (live : List (EntryPtr × ReplicationClient)) : Prop where
  nbSlots : m.rmContext.rClientsSlab.nbSlotsPerChunk = 64
  slots : Slots m.rmContext.rClientsSlab.body live
  entries : ∀ e, (m.rmContext.rClients e).isSome = true ↔ e ∈ live.map Prod.fst
  counted : CountedSlaves m.context.activeSlaves m.rmContext.rClients
  idle : m.rmContext.slavesInInitialDownload = 0

variable {m m' : Master D} {live : List (EntryPtr × ReplicationClient)}

/-- What does not touch the slaves. -/
theorem CountInv.setContext (h : CountInv m live) {context : HttpHandlerContext D}
    (hactive : context.activeSlaves = m.context.activeSlaves) : CountInv { m with context } live :=
  ⟨h.nbSlots, h.slots, h.entries, by rw [hactive]; exact h.counted, h.idle⟩

/-- A sending to the slaves that ends. -/
theorem CountInv.foreach (h : CountInv m live) {rEntry : Bytes}
    {r : Int × Option (Nat × (EntryPtr → Option ReplicationClient))}
    (hforeach : slabForeach (sendToActiveSlavesCb rEntry) m.rmContext.rClientsSlab
      (some (m.context.activeSlaves, m.rmContext.rClients)) = some r) :
    ∃ activeSlaves rClients, r.2 = some (activeSlaves, rClients) ∧ CountedSlaves activeSlaves rClients ∧
      connected rClients ⊆ connected m.rmContext.rClients ∧
      ∀ e, (rClients e).isSome = (m.rmContext.rClients e).isSome := by
  obtain ⟨order, hlive, rfl⟩ := slabForeach_visits (fun _ _ _ => rfl) h.nbSlots h.slots hforeach
  exact h.counted.sendAll rEntry order (fun p hp => (h.entries p.1).2 (List.mem_map_of_mem (hlive p hp)))

theorem CountInv.noUnderflow (h : CountInv m live) : NoUnderflow m where
  event e rClient hclient hbev := by
    rw [(h.counted.client e rClient hclient).1]
    exact h.counted.pos (mem_connected.2 ⟨rClient, hclient, hbev⟩)
  send rEntry r hforeach := by
    obtain ⟨activeSlaves, rClients, hr, -⟩ := h.foreach hforeach
    rw [hr]
    rfl

/-- A record that is sent. -/
theorem CountInv.send (h : CountInv m live) {rEntry : Bytes} (hsend : sendToActiveSlaves m rEntry = some m') :
    CountInv m' live ∧ connected m'.rmContext.rClients ⊆ connected m.rmContext.rClients := by
  unfold sendToActiveSlaves at hsend
  obtain ⟨r, hforeach, hsend⟩ := Option.bind_eq_some_iff.1 hsend
  obtain ⟨activeSlaves, rClients, hr, hcounted, hsub, hkept⟩ := h.foreach hforeach
  obtain ⟨c, hc, hsend⟩ := Option.bind_eq_some_iff.1 hsend
  rw [hr] at hc
  cases hc
  cases hsend
  exact ⟨⟨h.nbSlots, h.slots, fun e => by rw [hkept, h.entries e], hcounted, h.idle⟩, hsub⟩

theorem addToDbLog_activeSlaves (context : HttpHandlerContext D) (verb : Nat) (uri body : Bytes) (sendToSlaves : Bool) :
    (addToDbLog context verb uri body sendToSlaves).1.activeSlaves = context.activeSlaves := by
  unfold addToDbLog
  split
  · rfl
  · simp only
    split <;> rfl

theorem CountInv.append (h : CountInv m live) {call : LogCall} (hstep : addToDbLogAndSlaves m call = some m') :
    CountInv m' live ∧ connected m'.rmContext.rClients ⊆ connected m.rmContext.rClients := by
  unfold addToDbLogAndSlaves at hstep
  have hactive : (addToDbLog { m.context with now := call.now, slavesOut := [] } call.verb call.uri call.body
      call.sendToSlaves).1.activeSlaves = m.context.activeSlaves := addToDbLog_activeSlaves _ _ _ _ _
  simp only at hstep
  split at hstep
  · cases hstep
    exact ⟨h.setContext hactive, Set.Subset.refl _⟩
  · exact (h.setContext hactive).send hstep

/-- An entry is removed from the slab, and its slave is gone. -/
theorem CountInv.free {context : HttpHandlerContext D} {rm : ReplicationMasterContext} {e : EntryPtr}
    (hstep : freeReplicationClient ⟨context, rm⟩ e = some m') (hnb : rm.rClientsSlab.nbSlotsPerChunk = 64)
    (hslots : Slots rm.rClientsSlab.body live)
    (hentries : ∀ e', e' ≠ e → ((rm.rClients e').isSome = true ↔ e' ∈ live.map Prod.fst)) (he : e ∈ live.map Prod.fst)
    (hcounted : CountedSlaves context.activeSlaves (Function.update rm.rClients e none))
    (hidle : rm.slavesInInitialDownload = 0) :
    CountInv m' (live.filter (·.1 ≠ e)) ∧ m'.rmContext.rClients = Function.update rm.rClients e none := by
  unfold freeReplicationClient at hstep
  obtain ⟨⟨slab, ret⟩, hremove, hstep⟩ := Option.bind_eq_some_iff.1 hstep
  cases hstep
  obtain ⟨hnb', hslots'⟩ := removeEntryFromSlab_slots hnb hslots he hremove
  refine ⟨⟨hnb', hslots', fun e' => ?_, hcounted, hidle⟩, rfl⟩
  have hfilter : e' ∈ (live.filter (·.1 ≠ e)).map Prod.fst ↔ e' ≠ e ∧ e' ∈ live.map Prod.fst := by
    simp only [List.mem_map, List.mem_filter, decide_eq_true_eq]
    constructor
    · rintro ⟨p, ⟨hp, hne⟩, rfl⟩
      exact ⟨hne, p, hp, rfl⟩
    · rintro ⟨hne, p, hp, rfl⟩
      exact ⟨p, ⟨hp, hne⟩, rfl⟩
  rw [hfilter]
  by_cases he' : e' = e
  · simp [he']
  · simp only [Function.update_of_ne he', hentries e' he', he', ne_eq, not_false_eq_true, true_and]

/-- A slave that disconnects. -/
theorem CountInv.disconnect (h : CountInv m live) {e : EntryPtr} (he : e ∈ connected m.rmContext.rClients)
    (hstep : senderEventcb m e = some m') :
    (∃ live', CountInv m' live') ∧ connected m'.rmContext.rClients ⊆ connected m.rmContext.rClients := by
  obtain ⟨rClient, hclient, hbev⟩ := mem_connected.1 he
  have hmem := (h.entries e).1 (by rw [hclient]; rfl)
  unfold senderEventcb at hstep
  rw [hclient, Option.bind_eq_bind, Option.bind_some, (h.counted.client e rClient hclient).1,
    if_neg (fun h => nomatch h), if_pos (h.counted.pos he)] at hstep
  have hleft : CountedSlaves (m.context.activeSlaves - 1) (Function.update m.rmContext.rClients e none) :=
    h.counted.leave he rfl (fun c hc => nomatch hc)
  obtain ⟨hinv, hclients⟩ := CountInv.free hstep h.nbSlots h.slots (fun e' _ => h.entries e') hmem hleft h.idle
  refine ⟨⟨_, hinv⟩, ?_⟩
  rw [hclients, connected_leave m.rmContext.rClients e rfl]
  exact Set.sdiff_subset

/-- A slave that is sent some of its output. -/
theorem CountInv.write (h : CountInv m live) {e : EntryPtr} {n : Nat}
    (hstep : (writeOutput m e n).bind (senderWritecb · e) = some m') :
    CountInv m' live ∧ connected m'.rmContext.rClients ⊆ connected m.rmContext.rClients := by
  obtain ⟨m₁, hwrite, hstep⟩ := Option.bind_eq_some_iff.1 hstep
  have hsame : m' = m₁ := by
    unfold senderWritecb at hstep
    obtain ⟨_, -, hstep⟩ := Option.bind_eq_some_iff.1 hstep
    obtain ⟨_, -, hstep⟩ := Option.bind_eq_some_iff.1 hstep
    split at hstep
    · exact (Option.some.inj hstep).symm
    · split at hstep
      · split at hstep
        · exact (Option.some.inj hstep).symm
        · cases hstep
      · exact (Option.some.inj hstep).symm
  subst hsame
  unfold writeOutput at hwrite
  obtain ⟨rClient, hclient, hwrite⟩ := Option.bind_eq_some_iff.1 hwrite
  obtain ⟨bev, hbev, hwrite⟩ := Option.bind_eq_some_iff.1 hwrite
  cases hwrite
  have hok := h.counted.client e rClient hclient
  have hsome : rClient.bev.isSome = true := by rw [hbev]; rfl
  refine ⟨⟨h.nbSlots, h.slots, fun e' => ?_, ?_, h.idle⟩, ?_⟩
  · rw [← h.entries e']
    by_cases he' : e' = e
    · simp [he', hclient]
    · simp only [Function.update_of_ne he']
  · exact h.counted.update hclient ⟨hok.1, fun _ => hok.2 hsome⟩ (by rw [hsome]; rfl)
  · rw [connected_join m.rmContext.rClients e rfl]
    exact Set.insert_subset (mem_connected.2 ⟨rClient, hclient, hsome⟩) (Set.Subset.refl _)

/-- What `acceptcb` does when it ends. -/
theorem acceptcb_cases {clientFd : Nat} {opened : Bool} (hmax : m.rmContext.slavesInInitialDownload ≠ UINT_MAX)
    (hstep : acceptcb m clientFd opened = some m') : ∃ slab e,
      addEntryToSlab true m.rmContext.rClientsSlab initReplicationClient = some (slab, some e) ∧
      ((opened = true ∧ m' = ⟨{ m.context with activeSlaves := m.context.activeSlaves + 1 },
          { m.rmContext with
            rClientsSlab := slab
            rClients := Function.update m.rmContext.rClients e
              (some ⟨some clientFd, some ⟨[], EXPORTED_JOURNAL ++ m.context.dbLog.dbLogFd.getD []⟩, true⟩) }⟩) ∨
        (opened = false ∧ freeReplicationClient ⟨m.context, { m.rmContext with
          rClientsSlab := slab
          rClients := Function.update m.rmContext.rClients e
            (some ⟨some clientFd, some ⟨[], EXPORTED_JOURNAL⟩, false⟩) }⟩ e = some m')) := by
  unfold acceptcb at hstep
  rw [if_neg hmax] at hstep
  obtain ⟨⟨slab, e⟩, hadd, hstep⟩ := Option.bind_eq_some_iff.1 hstep
  obtain ⟨e, rfl, hstep⟩ := Option.bind_eq_some_iff.1 hstep
  refine ⟨slab, e, hadd, ?_⟩
  cases opened with
  | true =>
    cases hstep
    exact .inl ⟨rfl, rfl⟩
  | false => exact .inr ⟨rfl, hstep⟩

/-- **A slave that connects** is under a new entry. -/
theorem CountInv.accept (h : CountInv m live) {clientFd : Nat} (hstep : acceptcb m clientFd true = some m') :
    (∃ live', CountInv m' live') ∧ ∃ e, acceptedEntry m true = some e ∧
      m'.rmContext.rClients = Function.update m.rmContext.rClients e
        (some ⟨some clientFd, some ⟨[], EXPORTED_JOURNAL ++ m.context.dbLog.dbLogFd.getD []⟩, true⟩) := by
  have hmax : m.rmContext.slavesInInitialDownload ≠ UINT_MAX := by
    rw [h.idle]
    decide
  obtain ⟨slab, e, hadd, ⟨-, rfl⟩ | ⟨hfalse, -⟩⟩ := acceptcb_cases hmax hstep
  · obtain ⟨hnb, hslots⟩ := addEntryToSlab_slots h.slots hadd
    have hnew := hslots.nodup
    rw [List.map_cons, List.nodup_cons] at hnew
    have hout : e ∉ connected m.rmContext.rClients := fun he => by
      obtain ⟨rClient, hclient, -⟩ := mem_connected.1 he
      exact hnew.1 ((h.entries e).1 (by rw [hclient]; rfl))
    refine ⟨⟨_, hnb.trans h.nbSlots, hslots, fun e' => ?_, ⟨fun e' c hc => ?_, ?_⟩, h.idle⟩, e, ?_, rfl⟩
    · rw [List.map_cons, List.mem_cons]
      by_cases he' : e' = e
      · simp [he']
      · simp only [Function.update_of_ne he', h.entries e', he', false_or]
    · by_cases he' : e' = e
      · simp only [he', Function.update_self] at hc
        cases hc
        exact ⟨rfl, fun _ => rfl⟩
      · simp only [Function.update_of_ne he'] at hc
        exact h.counted.client e' c hc
    · simp only
      rw [connected_join m.rmContext.rClients e rfl, Set.encard_insert_of_notMem hout, h.counted.count]
      rfl
    · simp only [acceptedEntry, hmax, Bool.true_eq_false, or_self, if_false, hadd, Option.bind_some]
  · cases hfalse

/-- **A connection that cannot be sent the journal** leaves the slaves as they are. -/
theorem CountInv.refuse (h : CountInv m live) {clientFd : Nat} (hstep : acceptcb m clientFd false = some m') :
    (∃ live', CountInv m' live') ∧ m'.rmContext.rClients = m.rmContext.rClients := by
  have hmax : m.rmContext.slavesInInitialDownload ≠ UINT_MAX := by
    rw [h.idle]
    decide
  obtain ⟨slab, e, hadd, ⟨htrue, -⟩ | ⟨-, hfree⟩⟩ := acceptcb_cases hmax hstep
  · cases htrue
  · obtain ⟨hnb, hslots⟩ := addEntryToSlab_slots h.slots hadd
    have hnew := hslots.nodup
    rw [List.map_cons, List.nodup_cons] at hnew
    have hnone : m.rmContext.rClients e = none := by
      by_contra hsome
      exact hnew.1 ((h.entries e).1 (Option.isSome_iff_ne_none.2 hsome))
    have hback : Function.update (Function.update m.rmContext.rClients e
        (some ⟨some clientFd, some ⟨[], EXPORTED_JOURNAL⟩, false⟩)) e none = m.rmContext.rClients := by
      rw [Function.update_idem, ← hnone, Function.update_eq_self]
    obtain ⟨hinv, hclients⟩ := CountInv.free hfree (hnb.trans h.nbSlots) hslots
      (fun e' he' => by
        simp only [Function.update_of_ne he', h.entries e', List.map_cons, List.mem_cons, he', false_or])
      List.mem_cons_self (by rw [hback]; exact h.counted) h.idle
    exact ⟨⟨_, hinv⟩, hclients.trans hback⟩

/-! ## Rewrites -/

/-- **A journal is replaced only when no slave is counted as one in initial download.** -/
theorem rewrittenJournal_isSome {parent : ParentOutcomes} {child : ChildExit} {recent : Bytes}
    (h : (rewrittenJournal m parent child recent).isSome = true) : m.rmContext.slavesInInitialDownload = 0 := by
  by_contra hne
  have hany : anySlaveInInitialDownload m = true := decide_eq_true (Nat.pos_of_ne_zero hne)
  simp [rewrittenJournal, sigchldCb, systemRewriteAfterFork, hany] at h

theorem handleSpecialOpSystemRewrite_activeSlaves {context : HttpHandlerContext D} {fakeReq : Bool} {fork : Option Nat}
    {r : Int × HttpHandlerContext D} (h : handleSpecialOpSystemRewrite context fakeReq fork = some r) :
    r.2.activeSlaves = context.activeSlaves := by
  unfold handleSpecialOpSystemRewrite at h
  simp only at h
  split at h
  · cases h
    rfl
  · split at h
    · cases h
      rfl
    · cases fork with
      | none =>
        cases h
        rfl
      | some child =>
        cases h
        rfl

/-- The end of a rewrite leaves the slaves. -/
theorem CountInv.rewriteDone (h : CountInv m live) {parent : ParentOutcomes} {child : ChildExit} {offset : Nat}
    (hstep : rewriteDone m parent child offset = some m') :
    CountInv m' live ∧ m'.rmContext.rClients = m.rmContext.rClients := by
  unfold Pincaster.rewriteDone at hstep
  split at hstep
  · cases hstep
    exact ⟨h, rfl⟩
  · obtain ⟨file, -, hstep⟩ := Option.bind_eq_some_iff.1 hstep
    obtain ⟨offsetBeforeFork, -, hstep⟩ := Option.bind_eq_some_iff.1 hstep
    simp only at hstep
    split at hstep <;> cases hstep <;> exact ⟨h.setContext rfl, rfl⟩

/-! ## Steps and runs -/

/-- Nothing of a journal was queued to a connected slave. -/
def NothingQueued (s : SyncState D) : Prop := ∀ e ∈ connected s.master.rmContext.rClients, s.queuedJournal e = 0

theorem NothingQueued.of_subset {s s' : SyncState D} (h : NothingQueued s)
    (hsub : connected s'.master.rmContext.rClients ⊆ connected s.master.rmContext.rClients)
    (hqueued : s'.queuedJournal = s.queuedJournal) : NothingQueued s' := fun e he => by
  rw [hqueued]
  exact h e (hsub he)

/-- **One step**: the invariant is kept, what the slaves were queued is nothing again when the step finds an empty file,
and otherwise there is a slave that is sent the journal. -/
theorem syncStep_spec {context : HttpHandlerContext D} {s s' : SyncState D} {op : SyncOp} (h : CountInv s.master live)
    (hlegal : (syncSystem context).legal s op) (hstep : syncStep s op = some s') :
    (∃ live', CountInv s'.master live') ∧ (FindsEmptyJournal s op → NothingQueued s → NothingQueued s') ∧
      (¬ FindsEmptyJournal s op → ∃ e, InInitialSync s' e) := by
  cases op with
  | append call =>
    obtain ⟨m', happend, rfl⟩ := Option.map_eq_some_iff.1 hstep
    obtain ⟨hinv, hsub⟩ := h.append happend
    exact ⟨⟨_, hinv⟩, fun _ hq => hq.of_subset hsub rfl, fun hbad => absurd trivial hbad⟩
  | flush sync =>
    cases hstep
    exact ⟨⟨_, h.setContext rfl⟩, fun _ hq => hq.of_subset (Set.Subset.refl _) rfl, fun hbad => absurd trivial hbad⟩
  | disconnect e =>
    obtain ⟨m', hleave, rfl⟩ := Option.map_eq_some_iff.1 hstep
    obtain ⟨hinv, hsub⟩ := h.disconnect (show e ∈ connected s.master.rmContext.rClients from hlegal) hleave
    exact ⟨hinv, fun _ hq => hq.of_subset hsub rfl, fun hbad => absurd trivial hbad⟩
  | write e n =>
    obtain ⟨m', hwrite, rfl⟩ := Option.map_eq_some_iff.1 hstep
    obtain ⟨hinv, hsub⟩ := h.write hwrite
    exact ⟨⟨_, hinv⟩, fun _ hq => hq.of_subset hsub rfl, fun hbad => absurd trivial hbad⟩
  | rewrite fork =>
    obtain ⟨r, hrewrite, rfl⟩ := Option.map_eq_some_iff.1 hstep
    exact ⟨⟨_, h.setContext (handleSpecialOpSystemRewrite_activeSlaves hrewrite)⟩,
      fun _ hq => hq.of_subset (Set.Subset.refl _) rfl, fun hbad => absurd trivial hbad⟩
  | rewriteDone parent child offset =>
    obtain ⟨m', hdone, rfl⟩ := Option.map_eq_some_iff.1 hstep
    obtain ⟨hinv, hclients⟩ := h.rewriteDone hdone
    exact ⟨⟨_, hinv⟩, fun _ hq => hq.of_subset (by rw [hclients]) rfl, fun hbad => absurd trivial hbad⟩
  | accept clientFd opened =>
    obtain ⟨m', haccept, rfl⟩ := Option.map_eq_some_iff.1 hstep
    cases opened with
    | false =>
      obtain ⟨hinv, hclients⟩ := h.refuse haccept
      have hqueued : queueJournal s false = s.queuedJournal := by simp [queueJournal, acceptedEntry]
      exact ⟨hinv, fun _ hq => hq.of_subset (by rw [hclients]) hqueued, fun hbad => absurd (fun h => nomatch h) hbad⟩
    | true =>
      obtain ⟨hinv, e, hentry, hclients⟩ := h.accept haccept
      have hqueued : queueJournal s true = Function.update s.queuedJournal e
          (s.master.context.dbLog.dbLogFd.getD []).length := by rw [queueJournal, hentry]
      refine ⟨hinv, fun hempty hq e' he' => ?_, fun hbad => ⟨e, ?_⟩⟩
      · simp only [hqueued]
        by_cases heq : e' = e
        · rw [heq, Function.update_self, hempty rfl]
          rfl
        · rw [Function.update_of_ne heq]
          have hbev : (⟨some clientFd, some ⟨[], EXPORTED_JOURNAL ++ s.master.context.dbLog.dbLogFd.getD []⟩, true⟩ :
            ReplicationClient).bev.isSome = true := rfl
          rw [hclients, connected_join s.master.rmContext.rClients e hbev] at he'
          exact hq e' (he'.resolve_left heq)
      · have hpos : 0 < (s.master.context.dbLog.dbLogFd.getD []).length :=
          List.length_pos_of_ne_nil (fun hnil => hbad (fun _ => hnil))
        refine ⟨by simpa only [hqueued, Function.update_self] using hpos, _, _,
          by simp only [hclients, Function.update_self]; rfl, rfl, ?_⟩
        simp only [hqueued, Function.update_self, List.length_nil]
        omega

def SyncInv (s : SyncState D) : Prop := (∃ live, CountInv s.master live) ∧ NothingQueued s

/-- Where the counter is right, the end of a rewrite waits for the slaves. -/
theorem kept_of_counted {s : SyncState D}
    (hcount : {e | InInitialSync s e}.encard = s.master.rmContext.slavesInInitialDownload) {parent : ParentOutcomes}
    {child : ChildExit} {recent : Bytes} (h : (rewrittenJournal s.master parent child recent).isSome = true)
    (e : EntryPtr) : ¬ InInitialSync s e := by
  rw [rewrittenJournal_isSome h, Nat.cast_zero, Set.encard_eq_zero] at hcount
  exact Set.eq_empty_iff_forall_notMem.1 hcount e

theorem SyncInv.law {s : SyncState D} (h : SyncInv s) : SyncLaw s := by
  obtain ⟨⟨live, hinv⟩, hqueued⟩ := h
  have hcount : {e | InInitialSync s e}.encard = s.master.rmContext.slavesInInitialDownload := by
    rw [hinv.idle, Nat.cast_zero, Set.encard_eq_zero]
    refine Set.eq_empty_iff_forall_notMem.2 ?_
    rintro e ⟨hpos, rClient, bev, hclient, hbev, -⟩
    rw [hqueued e (mem_connected.2 ⟨rClient, hclient, by rw [hbev]; rfl⟩)] at hpos
    exact absurd hpos (Nat.lt_irrefl 0)
  exact ⟨hinv.noUnderflow, hcount, fun _ _ _ h => kept_of_counted hcount h⟩

theorem countInv_init (context : HttpHandlerContext D) : CountInv (syncSystem context).init.master [] := by
  refine ⟨rfl, slabInv_init.slots, fun e => by simp [syncSystem], ⟨fun e rClient h => (nomatch h), ?_⟩, rfl⟩
  have hnone : connected (syncSystem context).init.master.rmContext.rClients = ∅ :=
    Set.eq_empty_iff_forall_notMem.2 (fun e he => by
      obtain ⟨rClient, hclient, -⟩ := mem_connected.1 he
      cases hclient)
  rw [hnone, Set.encard_empty]
  rfl

/-- A slave that is not counted breaks the law. -/
theorem not_syncLaw_of_idle {s : SyncState D} {e : EntryPtr} (hidle : s.master.rmContext.slavesInInitialDownload = 0)
    (he : InInitialSync s e) : ¬ SyncLaw s := fun hlaw => by
  have hcount := hlaw.counted
  rw [hidle, Nat.cast_zero, Set.encard_eq_zero] at hcount
  exact Set.eq_empty_iff_forall_notMem.1 hcount e he

/-- **No counter underflows**, whatever the slaves were queued. -/
theorem sync_noUnderflow {context : HttpHandlerContext D} {s : SyncState D} (hr : (syncSystem context).Reachable s) :
    NoUnderflow s.master ∧ (connected s.master.rmContext.rClients).encard = s.master.context.activeSlaves := by
  obtain ⟨live, hinv⟩ := hr.inv (fun s => ∃ live, CountInv s.master live) ⟨[], countInv_init context⟩
    (fun s op s' hinv hlegal hstep => by
      obtain ⟨live, hinv⟩ := hinv
      exact (syncStep_spec hinv hlegal hstep).1)
  exact ⟨hinv.noUnderflow, hinv.counted.count⟩

/-- **The law of the initial sync holds along a run exactly when every slave finds an empty journal.** -/
theorem initial_sync_iff {context : HttpHandlerContext D} {h : List (SyncState D × SyncOp)} {s : SyncState D}
    (hr : (syncSystem context).Run h s) :
    ((∀ p ∈ h, SyncLaw p.1) ∧ SyncLaw s) ↔ ∀ p ∈ h, FindsEmptyJournal p.1 p.2 := by
  have hinit : SyncInv (syncSystem context).init := ⟨⟨[], countInv_init context⟩, fun _ _ => rfl⟩
  refine hr.law_iff_good hinit (fun _ => SyncInv.law) (fun s op s' hinv hlegal hgood hstep => ?_)
    (fun s op s' hinv hlegal hbad hstep hlaw => ?_)
  · obtain ⟨⟨live, hinv⟩, hqueued⟩ := hinv
    obtain ⟨hinv', hqueued', -⟩ := syncStep_spec hinv hlegal hstep
    exact ⟨hinv', hqueued' hgood hqueued⟩
  · -- the counter is 0 again, and the slave has been sent nothing yet
    obtain ⟨⟨live, hinv⟩, -⟩ := hinv
    obtain ⟨⟨live', hinv'⟩, -, hsync⟩ := syncStep_spec hinv hlegal hstep
    obtain ⟨e, he⟩ := hsync hbad
    exact not_syncLaw_of_idle hinv'.idle he hlaw

instance (context : HttpHandlerContext D) (s : SyncState D) : ∀ op, Decidable ((syncSystem context).legal s op)
  | .append _ | .flush _ | .accept _ _ | .rewrite _ => .isTrue trivial
  | .disconnect _ | .write _ _ => inferInstanceAs (Decidable (_ = true))
  | .rewriteDone _ _ _ => inferInstanceAs (Decidable (_ ∧ _))

instance (s : SyncState D) : ∀ op, Decidable (FindsEmptyJournal s op)
  | .accept _ _ => inferInstanceAs (Decidable (_ → _))
  | .append _ | .flush _ | .disconnect _ | .write _ _ | .rewrite _ | .rewriteDone _ _ _ => .isTrue trivial

/-- A parent whose operations succeed, and the child. -/
def parentDone : ParentOutcomes := ⟨true, true, true, true, true, false, true⟩

def childDone (dump : Bytes) : ChildExit := ⟨0, some dump, false⟩

/-- What `InInitialSync` reads. -/
def journalLeft (s : SyncState D) (e : EntryPtr) : Option Nat :=
  ((s.master.rmContext.rClients e).bind (·.bev)).map (fun bev =>
    EXPORTED_JOURNAL.length + s.queuedJournal e - bev.written.length)

theorem inInitialSync_of_left {s : SyncState D} {e : EntryPtr} {n : Nat} (hqueued : 0 < s.queuedJournal e)
    (hleft : journalLeft s e = some n) (hpos : 0 < n) : InInitialSync s e := by
  obtain ⟨bev, hbev, rfl⟩ := Option.map_eq_some_iff.1 hleft
  obtain ⟨rClient, hclient, hbev⟩ := Option.bind_eq_some_iff.1 hbev
  exact ⟨hqueued, rClient, bev, hclient, hbev, by omega⟩

/-- A slave connects to a new journal, gets a record, and leaves when a rewrite has ended. -/
theorem initial_sync_empty : ∃ h s, (syncSystem freshContext).Run h s ∧
    h.map Prod.snd = [.accept 5 true, .append ⟨60, EVHTTP_REQ_POST, bytes "/api/1.0/layers/x.json", [], true⟩,
      .rewrite (some 7), .write ⟨0, 0⟩ 19, .rewriteDone parentDone (childDone []) 0, .disconnect ⟨0, 0⟩] ∧
    (∀ p ∈ h, SyncLaw p.1) ∧ SyncLaw s := by
  have hexec : (((syncSystem freshContext).restrict FindsEmptyJournal).exec
      [.accept 5 true, .append ⟨60, EVHTTP_REQ_POST, bytes "/api/1.0/layers/x.json", [], true⟩, .rewrite (some 7),
        .write ⟨0, 0⟩ 19, .rewriteDone parentDone (childDone []) 0, .disconnect ⟨0, 0⟩]
      (syncSystem freshContext).init).isSome = true := by
    decide +kernel
  obtain ⟨s, hs⟩ := Option.isSome_iff_exists.1 hexec
  obtain ⟨h, hr, hops⟩ := Lib.System.Run.of_exec _ Lib.System.Run.init hs
  obtain ⟨hr, hgood⟩ := hr.of_restrict
  exact ⟨h, s, hr, hops, (initial_sync_iff hr).2 hgood⟩

/-- **The journal is switched under a slave**: a slave connects to a journal with a record, and the rewrite that ends
before it was sent a byte of it replaces the journal. -/
theorem initial_sync_switched : ∃ h s s', (syncSystem freshContext).Run h s ∧
    h.map Prod.snd = [.append ⟨60, EVHTTP_REQ_POST, bytes "/api/1.0/layers/x.json", [], true⟩, .rewrite (some 7),
      .accept 5 true] ∧
    InInitialSync s ⟨0, 0⟩ ∧ s.master.rmContext.slavesInInitialDownload = 0 ∧
    s.master.context.dbLog.dbLogFd = some (bytes "-<@3c T>\n-<2 16:/api/1.0/layers/x.json 0:>\n") ∧
    syncStep s (.rewriteDone parentDone (childDone (bytes "-<@78 T>\n-<2 16:/api/1.0/layers/x.json 0:>\n")) 0) =
      some s' ∧
    s'.master.context.dbLog.dbLogFd = some (bytes "-<@78 T>\n-<2 16:/api/1.0/layers/x.json 0:>\n") ∧
    InInitialSync s' ⟨0, 0⟩ ∧ ¬ SyncLaw s := by
  have hexec : ((syncSystem freshContext).exec
      [.append ⟨60, EVHTTP_REQ_POST, bytes "/api/1.0/layers/x.json", [], true⟩, .rewrite (some 7), .accept 5 true]
      (syncSystem freshContext).init).any (fun s =>
        0 < s.queuedJournal ⟨0, 0⟩ ∧ (journalLeft s ⟨0, 0⟩).any (0 < ·) = true ∧
        s.master.rmContext.slavesInInitialDownload = 0 ∧
        s.master.context.dbLog.dbLogFd = some (bytes "-<@3c T>\n-<2 16:/api/1.0/layers/x.json 0:>\n") ∧
        (syncStep s (.rewriteDone parentDone (childDone (bytes "-<@78 T>\n-<2 16:/api/1.0/layers/x.json 0:>\n"))
          0)).any (fun s' => 0 < s'.queuedJournal ⟨0, 0⟩ ∧ (journalLeft s' ⟨0, 0⟩).any (0 < ·) = true ∧
            s'.master.context.dbLog.dbLogFd =
              some (bytes "-<@78 T>\n-<2 16:/api/1.0/layers/x.json 0:>\n")) = true) = true := by
    decide +kernel
  obtain ⟨s, hs, heval⟩ := (Option.any_eq_true _ _).1 hexec
  obtain ⟨hqueued, hleft, hcount, hfile, hdone⟩ := of_decide_eq_true heval
  obtain ⟨s', hs', heval'⟩ := (Option.any_eq_true _ _).1 hdone
  obtain ⟨hqueued', hleft', hfile'⟩ := of_decide_eq_true heval'
  obtain ⟨n, hn, hpos⟩ := (Option.any_eq_true _ _).1 hleft
  obtain ⟨n', hn', hpos'⟩ := (Option.any_eq_true _ _).1 hleft'
  obtain ⟨h, hr, hops⟩ := Lib.System.Run.of_exec _ Lib.System.Run.init hs
  have hsync := inInitialSync_of_left hqueued hn (of_decide_eq_true hpos)
  exact ⟨h, s, s', hr, hops, hsync, hcount, hfile, hs', hfile',
    inInitialSync_of_left hqueued' hn' (of_decide_eq_true hpos'), not_syncLaw_of_idle hcount hsync⟩

end Pincaster
