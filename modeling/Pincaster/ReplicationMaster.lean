import Pincaster.ReplicationSlave
import Pincaster.SlabLaw
/-!
# ReplicationMaster — `replication_master.c`

The slaves are kept in a slab.  A slave that connects is sent the journal's file as it is; from then on every record goes
to the slaves as `add_to_db_log` writes it.  Memory is always there.
-/
namespace Pincaster

open Lib (Bytes System)

variable {D : Type}

def UINT_MAX : Nat := 2 ^ 32 - 1
def REPLICATION_MAX_LAG : Nat := 256 * 1024 * 1024

/-- A connection: what it wrote to the network, and its output buffer. -/
structure Bufferevent where
  written : Bytes
  output : Bytes

/-- Everything the connection was given. -/
def Bufferevent.queued (bev : Bufferevent) : Bytes := bev.written ++ bev.output

structure ReplicationClient where
  clientFd : Option Nat
  bev : Option Bufferevent
  active : Bool

def initReplicationClient : ReplicationClient := ⟨none, none, false⟩

/-- The slaves of the master.  `rClientsSlab` has every entry as it was added to it, `rClients` as it is. -/
structure ReplicationMasterContext where
  slavesInInitialDownload : Nat
  rClientsSlab : Slab ReplicationClient
  rClients : EntryPtr → Option ReplicationClient

/-- The main thread of a master.  The number of `active_slaves` is in `context`. -/
structure Master (D : Type) where
  context : HttpHandlerContext D
  rmContext : ReplicationMasterContext

/-! ## Sending to the slaves -/

/-- What is done with one slave, with `active_slaves`; a slave that lags too much is disconnected, and its entry stays. -/
def sendToActiveSlave (rEntry : Bytes) (activeSlaves : Nat) (rClient : ReplicationClient) :
    Option (Nat × ReplicationClient) :=
  match rClient.bev with
  | none => some (activeSlaves, rClient)
  | some bev =>
    if rClient.active = false ∨ rClient.clientFd = none then some (activeSlaves, rClient)
    else if bev.output.length + rEntry.length > REPLICATION_MAX_LAG then
      if 0 < activeSlaves then some (activeSlaves - 1, { rClient with bev := none, clientFd := none }) else none
    else some (activeSlaves, { rClient with bev := some { bev with output := bev.output ++ rEntry } })

/-- `send_to_active_slaves_cb`; its context has nothing any more once an assertion failed. -/
def sendToActiveSlavesCb (rEntry : Bytes) (contextCb : Option (Nat × (EntryPtr → Option ReplicationClient)))
    (e : EntryPtr) (_ : ReplicationClient) : Int × Option (Nat × (EntryPtr → Option ReplicationClient)) :=
  (0, do
    let (activeSlaves, rClients) ← contextCb
    let rClient ← rClients e
    let (activeSlaves, rClient) ← sendToActiveSlave rEntry activeSlaves rClient
    some (activeSlaves, Function.update rClients e (some rClient)))

def sendToActiveSlaves (m : Master D) (rEntry : Bytes) : Option (Master D) := do
  let (_, contextCb) ← slabForeach (sendToActiveSlavesCb rEntry) m.rmContext.rClientsSlab
    (some (m.context.activeSlaves, m.rmContext.rClients))
  let (activeSlaves, rClients) ← contextCb
  some ⟨{ m.context with activeSlaves }, { m.rmContext with rClients }⟩

/-- `add_to_db_log` with what it sends. -/
def addToDbLogAndSlaves (m : Master D) (call : LogCall) : Option (Master D) :=
  let context := (addToDbLog { m.context with now := call.now, slavesOut := [] } call.verb call.uri call.body
    call.sendToSlaves).1
  if context.slavesOut = [] then some { m with context } else sendToActiveSlaves { m with context } context.slavesOut

/-! ## Connections -/

def freeReplicationClient (m : Master D) (e : EntryPtr) : Option (Master D) := do
  let (rClientsSlab, _) ← removeEntryFromSlab m.rmContext.rClientsSlab e
  some { m with rmContext := { m.rmContext with rClientsSlab, rClients := Function.update m.rmContext.rClients e none } }

/-- `acceptcb`; `opened` says whether the journal could be opened and its size read. -/
def acceptcb (m : Master D) (clientFd : Nat) (opened : Bool) : Option (Master D) := do
  let rm := m.rmContext
  if rm.slavesInInitialDownload = UINT_MAX then some m
  else
    let (rClientsSlab, e) ← addEntryToSlab true rm.rClientsSlab initReplicationClient
    let e ← e
    if opened then
      let rClient := ⟨some clientFd, some ⟨[], EXPORTED_JOURNAL ++ m.context.dbLog.dbLogFd.getD []⟩, true⟩
      some ⟨{ m.context with activeSlaves := m.context.activeSlaves + 1 },
        { rm with rClientsSlab, rClients := Function.update rm.rClients e (some rClient) }⟩
    else
      let rClient := ⟨some clientFd, some ⟨[], EXPORTED_JOURNAL⟩, false⟩
      freeReplicationClient
        { m with rmContext := { rm with rClientsSlab, rClients := Function.update rm.rClients e (some rClient) } } e

/-- `sender_eventcb` at the end of a connection. -/
def senderEventcb (m : Master D) (e : EntryPtr) : Option (Master D) := do
  let rClient ← m.rmContext.rClients e
  if rClient.active = false then
    if 0 < m.rmContext.slavesInInitialDownload then
      freeReplicationClient { m with rmContext :=
        { m.rmContext with slavesInInitialDownload := m.rmContext.slavesInInitialDownload - 1 } } e
    else none
  else if 0 < m.context.activeSlaves then
    freeReplicationClient { m with context := { m.context with activeSlaves := m.context.activeSlaves - 1 } } e
  else none

/-- The network takes some bytes of the output of a slave. -/
def writeOutput (m : Master D) (e : EntryPtr) (n : Nat) : Option (Master D) := do
  let rClient ← m.rmContext.rClients e
  let bev ← rClient.bev
  let rClient := { rClient with bev := some ⟨bev.written ++ bev.output.take n, bev.output.drop n⟩ }
  some { m with rmContext := { m.rmContext with rClients := Function.update m.rmContext.rClients e (some rClient) } }

/-! ## The master -/

inductive MasterOp where
  | append (call : LogCall)
  | flush (sync : Bool)
  | accept (clientFd : Nat) (opened : Bool)
  | disconnect (e : EntryPtr)
  | write (e : EntryPtr) (n : Nat)

def masterStep (m : Master D) : MasterOp → Option (Master D)
  | .append call => addToDbLogAndSlaves m call
  | .flush sync => some { m with context := { m.context with dbLog := flushDbLog m.context.dbLog sync } }
  | .accept clientFd opened => acceptcb m clientFd opened
  | .disconnect e => senderEventcb m e
  | .write e n => writeOutput m e n

/-- There is a slave behind the entry, and it is connected. -/
def Connected (m : Master D) (e : EntryPtr) : Prop := ((m.rmContext.rClients e).bind (·.bev)).isSome = true

/-- The master, started on a journal.  Both callers of `add_to_db_log` send to slaves; a request over the limits of the
journal may be tried as well. -/
def masterSystem (context : HttpHandlerContext D) : System (Master D) MasterOp where
  init := ⟨{ context with activeSlaves := 0 }, ⟨0, initSlab, fun _ => none⟩⟩
  legal m
    | .append call => call.sendToSlaves = true ∧ (call.Ok ∨ ¬ LogLimits call.uri call.body)
    | .flush _ | .accept _ _ => True
    | .disconnect e | .write e _ => Connected m e
  step := masterStep

/-- The request records in some bytes. -/
def requestRecords (l : Bytes) : List LoggedRequest :=
  ((scan (fun _ => []) (l.length + 1) l).map (fun r => r.2.1)).getD []

/-- **The law of replication**: what a connected slave was sent has the request records of the journal, each once and in
their order. -/
def SlaveLaw (m : Master D) : Prop :=
  ∀ e rClient bev, m.rmContext.rClients e = some rClient → rClient.bev = some bev →
    ∃ l, bev.queued = EXPORTED_JOURNAL ++ l ∧ requestRecords l = requestRecords m.context.dbLog.journal

/-- **The connection misses nothing**: no request record waits in the log buffer, and the slab loses no slave. -/
def AcceptsAll (m : Master D) : MasterOp → Prop
  | .accept _ _ => requestRecords m.context.dbLog.logBuffer = [] ∧
      KeepsPartial ⟨m.rmContext.rClientsSlab, []⟩ (.add true initReplicationClient)
  | _ => True

end Pincaster
