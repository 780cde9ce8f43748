import Pincaster.DomainRecords
import Pincaster.Lib.Replay
/-!
# Store — what the workers do with the layers and their records

The operations of `domain_layers.c` and `domain_records.c` on the store, and the purge of `expirables.c`.  A layer is
the map from its keys to their nodes; of the quad-tree a node keeps the position of its slot, of the tree of
expirations the time.  Every allocation succeeds, and layers all have the bounds `qbounds`.
-/
namespace Pincaster

open Lib (Bytes bytes cstr ncaseEq strtol printInt)

variable {σ D : Type} [Dimension D]

structure KeyNode (D : Type) where
  slot : Option (Position2D D)
  properties : Option SlipMap
  expirable : Option Int

/-- `get_key_node_from_key` creates a node with nothing in it. -/
def newKeyNode : KeyNode D := ⟨none, none, none⟩

abbrev KeyNodes (D : Type) := Key → Option (KeyNode D)

abbrev Layers (D : Type) := Key → Option (KeyNodes D)

/-- The properties of a record. -/
def propertiesOf (layers : Layers D) (layerName key : Key) : Option SlipMap :=
  ((layers layerName).bind (· key)).bind (·.properties)

/-! ## The properties of a PUT -/

/-- `slip_map_foreach` with a callback that may fail an assertion; nothing happens for `NULL`. -/
def slipMapForeachCb (slipMap : Option SlipMap) (cb : σ → Bytes → Bytes → Option (Int × σ)) (context : σ) : Option σ :=
  match slipMap with
  | none => some context
  | some slipMap => (slipMapForeach slipMap (fun context key value =>
      match context.bind (cb · key value) with
      | none => (1, none)
      | some (ret, context) => (ret, some context)) (some context)).join

def recordsPutMergePropertiesCb (target : SlipMap) (key value : Bytes) : Option (Int × SlipMap) :=
  match key with
  | [] => none
  | c :: _ =>
    if c = INT_PROPERTY_COMMON_PREFIX then none
    else (replaceEntryInSlipMap target key value).map (fun (target, _) => (0, target))

def INT_PROPERTY_DELETE_PREFIX : Bytes := bytes "_delete:"
def INT_PROPERTY_DELETE_ALL_PREFIX : Bytes := bytes "_delete_all"
def INT_PROPERTY_ADD_INT_PREFIX : Bytes := bytes "_add_int:"

/-- The `sizeof` of the longest number, its NUL included. -/
def sizeofNumber : Nat := (bytes "-170141183460469231731687303715884105728").length + 1

/-- `(intmax_t)` of a sum. -/
def toIntmax (n : Int) : Int := Int.bmod n (2 ^ 64)

/-- The branch of `records_put_apply_special_properties_cb` for `_delete:`. -/
def applyDelete (target : Option SlipMap) (name value : Bytes) : Option (Int × Option SlipMap) :=
  match target with
  | none => some (0, none)
  | some slipMap =>
    if value.length ≤ 0 ∨ value.head? = some 0 then some (0, target)
    else (removeEntryFromSlipMap slipMap name).map (fun (slipMap, _) => (0, some slipMap))

/-- The branch for `_delete_all`. -/
def applyDeleteAll (target : Option SlipMap) (value : Bytes) : Int × Option SlipMap :=
  if value.length ≤ 0 ∨ value.head? = some 0 then (0, target) else (0, none)

/-- The text of the number a property holds; `"0"` when there is none. -/
def numValueOf (target : Option SlipMap) (name : Bytes) : Option Bytes :=
  match target with
  | none => some (bytes "0")
  | some slipMap => (findInSlipMap slipMap name).map (fun found => found.getD (bytes "0"))

/-- The branch for `_add_int:`. -/
def applyAddInt (target : Option SlipMap) (name value : Bytes) : Option (Int × Option SlipMap) :=
  if value.length ≤ 0 ∨ value.head? = some 0 ∨ value.length ≥ sizeofNumber then some (0, target)
  else do
    let numValueS ← numValueOf target name
    if numValueS.length ≥ sizeofNumber then some (0, target)
    else
      let numValue := toIntmax ((strtol 10 numValueS).1 + (strtol 10 value).1)
      match target with
      | some slipMap =>
        (replaceEntryInSlipMap slipMap name (printInt 10 numValue)).map (fun (slipMap, _) => (0, some slipMap))
      | none => do
        match ← newSlipMap PROPERTIES_DEFAULT_SLIP_MAP_BUFFER_SIZE with
        | none => some (-1, none)
        | some slipMap =>
          (replaceEntryInSlipMap slipMap name (printInt 10 numValue)).map (fun (slipMap, _) => (0, some slipMap))

/-- A property whose name starts with one of the prefixes and goes on behind it. -/
def hasPrefix (key pre : Bytes) : Bool := key.length ≥ pre.length + 1 && ncaseEq key pre pre.length

def recordsPutApplySpecialPropertiesCb (target : Option SlipMap) (key value : Bytes) :
    Option (Int × Option SlipMap) :=
  if key.head? ≠ some INT_PROPERTY_COMMON_PREFIX then none
  else if hasPrefix key INT_PROPERTY_DELETE_PREFIX then
    applyDelete target (key.drop INT_PROPERTY_DELETE_PREFIX.length) value
  else if binvalIsEqualToConstString key INT_PROPERTY_DELETE_ALL_PREFIX then some (applyDeleteAll target value)
  else if hasPrefix key INT_PROPERTY_ADD_INT_PREFIX then
    applyAddInt target (key.drop INT_PROPERTY_ADD_INT_PREFIX.length) value
  else some (0, target)

/-- The properties a PUT leaves: the special ones are applied, then the others are merged in. -/
def putProperties (properties : Option SlipMap) (putOp : RecordsPutOp D) : Option (Option SlipMap) := do
  match ← slipMapForeachCb putOp.specialProperties recordsPutApplySpecialPropertiesCb properties with
  | none => some putOp.properties
  | some target => (slipMapForeachCb putOp.properties recordsPutMergePropertiesCb target).map some

/-! ## The position and the expiration of a PUT -/

def positionInBounds (qbounds : Rectangle2D D) (position : Position2D D) : Bool :=
  Dimension.le qbounds.edge0.latitude position.latitude && Dimension.le qbounds.edge0.longitude position.longitude &&
    Dimension.lt position.latitude qbounds.edge1.latitude && Dimension.lt position.longitude qbounds.edge1.longitude

/-- The slot a PUT leaves.  A position out of bounds is ignored, and one that is equal to the previous one keeps the
slot. -/
def putSlot (qbounds : Rectangle2D D) (slot : Option (Position2D D)) (putOp : RecordsPutOp D) :
    Option (Position2D D) :=
  if putOp.positionSet && positionInBounds qbounds putOp.position then
    match slot with
    | some previous =>
      if Dimension.eq previous.latitude putOp.position.latitude &&
          Dimension.eq previous.longitude putOp.position.longitude then slot
      else some putOp.position
    | none => some putOp.position
  else slot

/-- A PUT without an expiration removes the one there was. -/
def putExpirable (putOp : RecordsPutOp D) : Option Int := if putOp.expiresAt ≠ 0 then some putOp.expiresAt else none

/-- The node a PUT leaves of the node that was found or created. -/
def putKeyNode (qbounds : Rectangle2D D) (putOp : RecordsPutOp D) (keyNode : KeyNode D) : Option (KeyNode D) :=
  (putProperties keyNode.properties putOp).map (fun properties =>
    { slot := putSlot qbounds keyNode.slot putOp, properties, expirable := putExpirable putOp })

/-! ## The operations of the workers -/

/-- `get_pan_db_by_layer_name` with `create`: the status and the layers. -/
def registerLayer (layerName : Key) (layers : Layers D) : Int × Layers D :=
  match layers layerName with
  | some _ => (0, layers)
  | none =>
    if cstr layerName = [] then (-2, layers) else (1, Function.update layers layerName (some (fun _ => none)))

/-- The status goes to the reply only. -/
def handleOpLayersCreate (layerName : Key) (layers : Layers D) : Int × Layers D := (0, (registerLayer layerName layers).2)

def handleOpLayersDelete (layerName : Key) (layers : Layers D) : Int × Layers D :=
  match layers layerName with
  | none => (HTTP_NOTFOUND, layers)
  | some _ => (0, Function.update layers layerName none)

/-- Layers are not created automatically. -/
def handleOpRecordsPut (qbounds : Rectangle2D D) (putOp : RecordsPutOp D) (layers : Layers D) :
    Option (Int × Layers D) :=
  match layers putOp.layerName with
  | none => some (HTTP_NOTFOUND, layers)
  | some keyNodes => do
    let keyNode ← putKeyNode qbounds putOp ((keyNodes putOp.key).getD newKeyNode)
    some (0, Function.update layers putOp.layerName (some (Function.update keyNodes putOp.key (some keyNode))))

def handleOpRecordsDelete (layerName key : Key) (layers : Layers D) : Int × Layers D :=
  match layers layerName with
  | none => (HTTP_NOTFOUND, layers)
  | some keyNodes => match keyNodes key with
    | none => (HTTP_NOTFOUND, layers)
    | some _ => (0, Function.update layers layerName (some (Function.update keyNodes key none)))

/-- `worker_do_work` with an operation it has dequeued, as far as the store goes: the operations that read leave it. -/
def workerDoWork (qbounds : Rectangle2D D) (body : OpBody D) (layers : Layers D) : Option (Layers D) :=
  match body with
  | .layersCreate layerName => some (handleOpLayersCreate layerName layers).2
  | .layersDelete layerName => some (handleOpLayersDelete layerName layers).2
  | .recordsPut putOp => (handleOpRecordsPut qbounds putOp layers).map Prod.snd
  | .recordsDelete layerName key => some (handleOpRecordsDelete layerName key layers).2
  | _ => some layers

/-! ## Expiration -/

/-- A node is purged when its time has come. -/
def KeyNode.expired (now : Int) (keyNode : KeyNode D) : Bool :=
  match keyNode.expirable with
  | some ts => now ≥ ts
  | none => false

/-- `purge_expired_keys`, which goes through all layers. -/
def purgeExpiredKeys (now : Int) (layers : Layers D) : Layers D := fun layerName =>
  (layers layerName).map (fun keyNodes key => (keyNodes key).filter (fun keyNode => !keyNode.expired now))

end Pincaster
