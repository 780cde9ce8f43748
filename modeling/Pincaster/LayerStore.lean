import Pincaster.KeySearch
import Pincaster.LinkTraversal
import Pincaster.PanDbRuns
import Pincaster.PanDbSearch
/-!
# LayerStore — the operations of the workers on the layers in memory

The `handle_op_` functions of `domain_layers.c`, `domain_records.c`, `domain_search.c` and `domain_system.c`, and the purge
of `expirables.c`, with the quad-trees, the trees of keys and expirables and the memory they share.  A failed assertion
has no result.  Memory allocations succeed, and a layer's bounds and accuracies are those of `env`.
-/
namespace Pincaster

open Lib (Bytes bytes cstr RbTree)

variable {D : Type}

/-- The layers as a `slab_foreach` goes through them; the slab they stand in is that of `SlabStore`, which follows the list as
long as no layer is lost. -/
structure LayerStore (D : Type) where
  mem : Layer.Memory
  layers : List (Layer D)

/-! ## Replies -/

/-- A layer as the index shows it; the second accuracy is written from the first one, as the code has it. -/
structure LayerJson (D : Type) where
  name : Bytes
  records : Nat
  geoRecords : Nat
  type : Bytes
  distanceAccuracy : Bytes
  latitudeAccuracy : D
  longitudeAccuracy : D
  bounds : Rectangle2D D

/-- An element of what a search has found. -/
inductive MatchJson (D : Type) where
  | keyNode (distance : Option (Meters D)) (record : RecordJson D) (links : Option (List (Bytes × RecordJson D)))
  | cluster (children : Nat) (position : Position2D D) (radius : Meters D)

inductive ReplyJson (D : Type) where
  | error
  | pong
  | status (textStatus : Bytes)
  | layers (layers : List (LayerJson D))
  | record (record : RecordJson D) (links : Option (List (Bytes × RecordJson D)))
  | keys (keys : List Bytes)
  | found (found : List (MatchJson D))
  | overflow

/-- An `OpReply` as it is published. -/
structure OpReply (D : Type) where
  opTid : Nat
  json : ReplyJson D

/-- What a handler leaves: the number it returns, the store, and the replies it has sent. -/
structure OpResult (D : Type) where
  ret : Int
  store : LayerStore D
  replies : List (OpReply D)

/-- How every handler ends: nothing is sent for a fake request. -/
def sendOpReply (op : Op D) (store : LayerStore D) (json : Option (ReplyJson D)) : Option (OpResult D) :=
  if op.fakeReq then some ⟨0, store, []⟩ else json.map (fun json => ⟨0, store, [⟨op.opTid, json⟩]⟩)

/-- A handler that returns an error, without a reply. -/
def opError (ret : Int) (store : LayerStore D) : Option (OpResult D) := some ⟨ret, store, []⟩

namespace Layer

/-! ## Expirables -/

def expirableCmp (exp1 exp2 : Expirable) : Int :=
  if exp1.ts < exp2.ts then -1
  else if exp1.ts > exp2.ts then 1
  else if exp1.keyNode < exp2.keyNode then -1
  else if exp1.keyNode > exp2.keyNode then 1
  else 0

/-- `add_expirable_to_tree`; the assertion fails for an expirable that compares equal to one in the tree. -/
def addExpirableToTree (mem : Memory) (expirable : Nat) (exp : Expirable) : List Nat → Option (List Nat)
  | [] => some [expirable]
  | e :: es => do
    let scanned ← mem.expirables.cells e
    if expirableCmp exp scanned < 0 then some (expirable :: e :: es)
    else if expirableCmp exp scanned > 0 then (addExpirableToTree mem expirable exp es).map (e :: ·)
    else none

/-- `remove_expirable_from_tree`. -/
def removeExpirableFromTree (expirable : Nat) (expirables : List Nat) : List Nat := expirables.erase expirable

/-! ## Key nodes -/

/-- `get_key_node_from_key` with `create`: the memory, the layer and the key node. -/
def createKeyNode (mem : Memory) (db : Db D) (key : Key) : Memory × Db D × (Key × Nat) :=
  match hfind : db.keyNodes.find key with
  | some foundKeyNode => (mem, db, foundKeyNode)
  | none =>
    let keyNode := mem.keyNodes.brk
    ({ mem with keyNodes := mem.keyNodes.alloc ⟨none, none⟩ },
      { db with
        panDb := db.panDb.clearSlot keyNode
        keyNodes := db.keyNodes.insert keyNodeCmp_total (key, keyNode)
          ((RbTree.find_eq_none keyNodeCmp_total).1 hfind) },
      (key, keyNode))

/-- `free_key_node`. -/
def freeKeyNode (mem : Memory) (db : Db D) (keyNode : Nat) : Option (Memory × Db D) := do
  let node ← mem.keyNodes.cells keyNode
  if db.panDb.slots keyNode ≠ none then none
  match node.expirable with
  | none => some ({ mem with keyNodes := mem.keyNodes.free keyNode }, db)
  | some expirable =>
    some ({ keyNodes := mem.keyNodes.free keyNode, expirables := mem.expirables.free expirable },
      { db with expirables := removeExpirableFromTree expirable db.expirables })

/-- The keys of the nodes are read through the tree: the node at an address. -/
def Db.keyNodeAt (db : Db D) (keyNode : Nat) : Option (Key × Nat) := db.keyNodes.nodes.find? (fun n => n.2 = keyNode)

section
variable [LinearOrder D]

/-- `remove_entry_from_key_node` for a key node that has a slot, whose pointer is cleared. -/
def removeSlot (env : PanDbEnv D Nat) (db : Db D) (keyNode : Nat) : Option (Db D) :=
  if db.panDb.slots keyNode = none then some db
  else (removeEntryFromKeyNode env db.panDb keyNode).map (fun panDb => { db with panDb := panDb.clearSlot keyNode })

/-- How a record goes, in a DELETE and in a purge. -/
def dropKeyNode (env : PanDbEnv D Nat) (mem : Memory) (db : Db D) (keyNode : Nat) : Option (Memory × Db D) := do
  let db ← removeSlot env db keyNode
  freeKeyNode mem { db with keyNodes := db.keyNodes.remove (fun n => n.2 = keyNode) } keyNode

end

/-! ## Layers -/

def initDb : Db D := ⟨initPanDb, ⟨[], .nil⟩, []⟩

/-- The key nodes of `free_pan_db`: their slots are forgotten, and the nodes of the quad-tree go with it. -/
def freePanDbKeyNodes : List (Key × Nat) → Memory → Db D → Option (Memory × Db D)
  | [], mem, db => some (mem, db)
  | (_, keyNode) :: nodes, mem, db => do
    let (mem, db) ← freeKeyNode mem
      { db with panDb := db.panDb.clearSlot keyNode, keyNodes := db.keyNodes.remove (fun n => n.2 = keyNode) } keyNode
    freePanDbKeyNodes nodes mem db

def freePanDb (mem : Memory) (db : Db D) : Option Memory := (freePanDbKeyNodes db.keyNodes.nodes mem db).map Prod.fst

end Layer

/-- The first layer of the name is changed where it is. -/
def setLayer (layerName : Key) (db : Layer.Db D) : List (Layer D) → List (Layer D)
  | [] => []
  | layer :: layers =>
    if strEq layerName layer.name then { layer with panDb := db } :: layers else layer :: setLayer layerName db layers

/-- `get_pan_db_by_layer_name` with `create`: the status and the layers, of which a new one is somewhere in the slab. -/
def createPanDb (layerName : Key) (layers : List (Layer D)) : Int × List (Layer D) :=
  match getPanDbByLayerName layers layerName with
  | some _ => (0, layers)
  | none => if cstr layerName = [] then (-2, layers) else (1, layers ++ [⟨cstr layerName, Layer.initDb⟩])

namespace LayerStore

def handleOpSystemPing (op : Op D) (store : LayerStore D) : Option (OpResult D) := sendOpReply op store (some .pong)

/-! ## `domain_layers.c` -/

def handleOpLayersCreate (op : Op D) (layerName : Key) (store : LayerStore D) : Option (OpResult D) :=
  let (status, layers) := createPanDb layerName store.layers
  let textStatus := if status = 0 then bytes "existing" else if status > 0 then bytes "created" else bytes "error"
  sendOpReply op { store with layers } (some (.status textStatus))

/-- `delete_layer_by_layer_name`: 1 when there is no such layer. -/
def deleteLayerByLayerName (layerName : Key) (store : LayerStore D) : Option (Int × LayerStore D) :=
  match getPanDbByLayerName store.layers layerName with
  | none => some (1, store)
  | some db => (Layer.freePanDb store.mem db).map (fun mem =>
      (0, ⟨mem, store.layers.eraseP (fun layer => strEq layerName layer.name)⟩))

def handleOpLayersDelete (op : Op D) (layerName : Key) (store : LayerStore D) : Option (OpResult D) := do
  let (status, store) ← deleteLayerByLayerName layerName store
  if status > 0 then opError HTTP_NOTFOUND store
  else if status < 0 then opError HTTP_SERVUNAVAIL store
  else sendOpReply op store (some (.status (bytes "deleted")))

/-! ## `domain_records.c` -/

section
variable [Sub D] [LinearOrder D]

/-- The position of a PUT: one out of bounds is ignored, and one that is equal to the previous one. -/
def putPosition (env : PanDbEnv D Nat) (putOp : RecordsPutOp D) (db : Layer.Db D) (keyNode : Nat) : Option (Layer.Db D) :=
  if putOp.positionSet && positionIsInRect putOp.position env.qbounds then
    match db.panDb.slots keyNode with
    | none => (addSlot env db.panDb ⟨putOp.position, some keyNode, none⟩).map (fun panDb => { db with panDb })
    | some ptr => do
      let slot ← db.panDb.slot ptr
      if slot.position.latitude = putOp.position.latitude ∧ slot.position.longitude = putOp.position.longitude then some db
      else
        let db ← Layer.removeSlot env db keyNode
        (addSlot env db.panDb ⟨putOp.position, some keyNode, none⟩).map (fun panDb => { db with panDb })
  else some db

/-- The expirable of a PUT. -/
def putExpirable (putOp : RecordsPutOp D) (mem : Layer.Memory) (db : Layer.Db D) (keyNode : Nat) :
    Option (Layer.Memory × Layer.Db D) := do
  let node ← mem.keyNodes.cells keyNode
  if putOp.expiresAt ≠ 0 then
    match node.expirable with
    | none =>
      let exp : Layer.Expirable := ⟨putOp.expiresAt, keyNode⟩
      let expirable := mem.expirables.brk
      let mem : Layer.Memory :=
        ⟨mem.keyNodes.modify keyNode (fun node => { node with expirable := some expirable }), mem.expirables.alloc exp⟩
      let expirables ← Layer.addExpirableToTree mem expirable exp db.expirables
      some (mem, { db with expirables })
    | some expirable => do
      let exp ← mem.expirables.cells expirable
      if exp.keyNode ≠ keyNode then none
      if exp.ts ≠ putOp.expiresAt then
        let expirables := Layer.removeExpirableFromTree expirable db.expirables
        let exp := { exp with ts := putOp.expiresAt }
        let mem := { mem with expirables := mem.expirables.modify expirable (fun _ => exp) }
        let expirables ← Layer.addExpirableToTree mem expirable exp expirables
        some (mem, { db with expirables })
      else some (mem, db)
  else match node.expirable with
    | none => some (mem, db)
    | some expirable => do
      let exp ← mem.expirables.cells expirable
      if exp.keyNode ≠ keyNode then none
      some (⟨mem.keyNodes.modify keyNode (fun node => { node with expirable := none }), mem.expirables.free expirable⟩,
        { db with expirables := Layer.removeExpirableFromTree expirable db.expirables })

/-- What a PUT does with a layer. -/
def putRecord (env : PanDbEnv D Nat) (putOp : RecordsPutOp D) (mem : Layer.Memory) (db : Layer.Db D) :
    Option (Layer.Memory × Layer.Db D) := do
  let (mem, db, _, keyNode) := Layer.createKeyNode mem db putOp.key
  let db ← putPosition env putOp db keyNode
  let node ← mem.keyNodes.cells keyNode
  let properties ← putProperties node.properties putOp
  let mem := { mem with keyNodes := mem.keyNodes.modify keyNode (fun node => { node with properties }) }
  putExpirable putOp mem db keyNode

def handleOpRecordsPut (env : PanDbEnv D Nat) (op : Op D) (putOp : RecordsPutOp D) (store : LayerStore D) :
    Option (OpResult D) :=
  match getPanDbByLayerName store.layers putOp.layerName with
  | none => opError HTTP_NOTFOUND store
  | some db => do
    let (mem, db) ← putRecord env putOp store.mem db
    sendOpReply op ⟨mem, setLayer putOp.layerName db store.layers⟩ (some (.status (bytes "stored")))

def handleOpRecordsGet (op : Op D) (layerName key : Key) (withLinks : Bool) (store : LayerStore D) :
    Option (OpResult D) :=
  match getPanDbByLayerName store.layers layerName with
  | none => opError HTTP_NOTFOUND store
  | some db => match getKeyNodeFromKey db.keyNodes key with
    | (_, none) => opError HTTP_NOTFOUND store
    | (_, some keyNode) => sendOpReply op store
        ((keyNodeToJsonLinks store.mem db keyNode true withLinks).map (fun (record, links) => .record record links))

def handleOpRecordsDelete (env : PanDbEnv D Nat) (op : Op D) (layerName key : Key) (store : LayerStore D) :
    Option (OpResult D) :=
  match getPanDbByLayerName store.layers layerName with
  | none => opError HTTP_NOTFOUND store
  | some db => match getKeyNodeFromKey db.keyNodes key with
    | (_, none) => opError HTTP_NOTFOUND store
    | (_, some keyNode) => do
      let (mem, db) ← Layer.dropKeyNode env store.mem db keyNode.2
      sendOpReply op ⟨mem, setLayer layerName db store.layers⟩ (some (.status (bytes "deleted")))

end

/-! ## `domain_search.c` -/

/-- `key_node_to_json` for an element of a search. -/
def matchOf (mem : Layer.Memory) (db : Layer.Db D) (options : SearchOptions D) (distance : Option (Meters D))
    (keyNode : Key × Nat) : Option (MatchJson D) :=
  (keyNodeToJsonLinks mem db keyNode options.withProperties options.withLinks).map
    (fun (record, links) => .keyNode distance record links)

/-- `find_near_cb`; `none` is a failed assertion. -/
def findNearCb (mem : Layer.Memory) (db : Layer.Db D) (options : SearchOptions D) (found : List (MatchJson D))
    (slot : Slot D Nat) (distance : Meters D) : Option Int × List (MatchJson D) :=
  match (slot.keyNode.bind db.keyNodeAt).bind (matchOf mem db options (some distance)) with
  | none => (none, found)
  | some m => (some 0, found ++ [m])

def findNearClusterCb (found : List (MatchJson D)) (position : Position2D D) (radius : Meters D) (children : Nat) :
    Option Int × List (MatchJson D) :=
  (some 0, found ++ [.cluster children position radius])

/-- The reply to a search around a position or in a rectangle: nothing is shown of one that was stopped. -/
def searchReply (r : Option Int × List (MatchJson D)) : Option (ReplyJson D) :=
  r.1.map (fun ret => if ret ≠ 0 then .overflow else .found r.2)

/-- The reply to a search for keys. -/
def keysReply (mem : Layer.Memory) (db : Layer.Db D) (pattern : Key) (options : SearchOptions D) : Option (ReplyJson D) :=
  let shown := foundKeyNodes db.keyNodes pattern options.limit
  if options.withContent = false then some (.keys (shown.map (fun n => n.1.dropLast)))
  else (shown.mapM (matchOf mem db options none)).map .found

def handleOpSearchInKeys (op : Op D) (layerName pattern : Key) (options : SearchOptions D) (store : LayerStore D) :
    Option (OpResult D) :=
  match getPanDbByLayerName store.layers layerName with
  | none => opError HTTP_NOTFOUND store
  | some db => sendOpReply op store (keysReply store.mem db pattern options)

section
variable [Field D] [LinearOrder D]

def handleOpSearchNearby (env : SearchEnv D Nat) (op : Op D) (layerName : Key) (position : Position2D D)
    (options : SearchOptions D) (store : LayerStore D) : Option (OpResult D) :=
  match getPanDbByLayerName store.layers layerName with
  | none => opError HTTP_NOTFOUND store
  | some db => sendOpReply op store
      (searchReply (findNear env db.panDb (findNearCb store.mem db options) [] position options.radius options.limit))

def handleOpSearchInRect (env : SearchEnv D Nat) (op : Op D) (layerName : Key) (rect : Rectangle2D D)
    (options : SearchOptions D) (store : LayerStore D) : Option (OpResult D) :=
  match getPanDbByLayerName store.layers layerName with
  | none => opError HTTP_NOTFOUND store
  | some db => sendOpReply op store
      (searchReply (findInRect env db.panDb (findNearCb store.mem db options) findNearClusterCb [] rect options.limit
        options.epsilon))

end

/-! ## The index of the layers -/

/-- The text for the type of a layer. -/
def layerTypeText : LayerType → Bytes
  | .flat => bytes "flat"
  | .flatwrap => bytes "flatwrap"
  | .spherical => bytes "spherical"
  | .ellipsoidal => bytes "ellipsoidal"

/-- The text for the accuracy of the distances of a layer. -/
def accuracyText : LayerType → Accuracy → Bytes
  | .flat, _ | .flatwrap, _ => bytes "euclidean"
  | _, .vincenty => bytes "vincenty"
  | _, .hs => bytes "haversine"
  | _, .gc => bytes "great_circle"
  | _, .fast => bytes "fast"
  | _, .rhomboid => bytes "rhomboid"

/-- `add_layer_name_to_json_gen`, which asserts that a layer has no more slots than records. -/
def addLayerNameToJsonGen [LE D] (env : SearchEnv D Nat) (layer : Layer D) : Option (LayerJson D) := do
  let root ← layer.panDb.panDb.quadNode layer.panDb.panDb.root
  let nbKeyNodes := layer.panDb.keyNodes.nodes.length
  if nbKeyNodes < root.subSlots then none
  some {
    name := layer.name
    records := nbKeyNodes
    geoRecords := root.subSlots
    type := layerTypeText env.layerType
    distanceAccuracy := accuracyText env.layerType env.accuracy
    latitudeAccuracy := env.latitudeAccuracy
    longitudeAccuracy := env.latitudeAccuracy
    bounds := env.qbounds }

def handleOpLayersIndex [LE D] (env : SearchEnv D Nat) (op : Op D) (store : LayerStore D) : Option (OpResult D) :=
  sendOpReply op store ((store.layers.mapM (addLayerNameToJsonGen env)).map .layers)

/-! ## The purge -/

section
variable [LinearOrder D]

/-- `has_expired_keys`: a layer whose first expirable has expired. -/
def hasExpiredKeys (now : Int) (store : LayerStore D) : Bool := store.layers.any (fun layer =>
  (layer.panDb.expirables.head?.bind store.mem.expirables.cells).any (fun exp => now ≥ exp.ts))

/-- The loop of `purge_expired_keys_from_layer`. -/
def purgeExpiredKeysFromLayer (env : PanDbEnv D Nat) (now : Int) : Nat → Option Nat → Layer.Memory → Layer.Db D →
    Option (Layer.Memory × Layer.Db D)
  | 0, _, _, _ => none
  | _, none, mem, db => some (mem, db)
  | fuel + 1, some expirable, mem, db => do
    let exp ← mem.expirables.cells expirable
    if now < exp.ts then some (mem, db)
    else
      let next := (db.expirables.dropWhile (· ≠ expirable)).tail.head?
      let node ← mem.keyNodes.cells exp.keyNode
      if node.expirable ≠ some expirable then none
      let (mem, db) ← Layer.dropKeyNode env mem db exp.keyNode
      purgeExpiredKeysFromLayer env now fuel next mem db

/-- The `slab_foreach` over the layers. -/
def purgeLayers (env : PanDbEnv D Nat) (now : Int) : List (Layer D) → Layer.Memory → Option (LayerStore D)
  | [], mem => some ⟨mem, []⟩
  | layer :: layers, mem => do
    let (mem, db) ← purgeExpiredKeysFromLayer env now (layer.panDb.expirables.length + 1) layer.panDb.expirables.head? mem
      layer.panDb
    let store ← purgeLayers env now layers mem
    some ⟨store.mem, { layer with panDb := db } :: store.layers⟩

def purgeExpiredKeys (env : PanDbEnv D Nat) (now : Int) (store : LayerStore D) : Option (LayerStore D) :=
  if hasExpiredKeys now store then purgeLayers env now store.layers store.mem else some store

end

/-! ## The worker -/

variable [Field D] [LinearOrder D]

/-- The handler of an operation. -/
def handleOp (env : SearchEnv D Nat) (op : Op D) (store : LayerStore D) : Option (OpResult D) :=
  match op.body with
  | .systemPing => handleOpSystemPing op store
  | .layersCreate layerName => handleOpLayersCreate op layerName store
  | .layersDelete layerName => handleOpLayersDelete op layerName store
  | .layersIndex => handleOpLayersIndex env op store
  | .recordsPut putOp => handleOpRecordsPut env.toPanDbEnv op putOp store
  | .recordsGet layerName key withLinks => handleOpRecordsGet op layerName key withLinks store
  | .recordsDelete layerName key => handleOpRecordsDelete env.toPanDbEnv op layerName key store
  | .searchNearby layerName position options => handleOpSearchNearby env op layerName position options store
  | .searchInRect layerName rect options => handleOpSearchInRect env op layerName rect options store
  | .searchInKeys layerName pattern options => handleOpSearchInKeys op layerName pattern options store

/-- `worker_do_work` with an operation it has dequeued: an error is answered here, unless the request is fake. -/
def workerDoWork (env : SearchEnv D Nat) (op : Op D) (store : LayerStore D) : Option (OpResult D) :=
  (handleOp env op store).map (fun r =>
    if r.ret ≠ 0 ∧ op.fakeReq = false then { r with replies := r.replies ++ [⟨op.opTid, .error⟩] } else r)

end LayerStore

end Pincaster
