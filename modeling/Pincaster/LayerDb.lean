import Pincaster.KeyNodes
import Pincaster.PanDb
/-!
# LayerDb — the layers in memory

A layer has its quad-tree, the tree of its keys and the tree of its expirations; key nodes and expirables are cells of two
heaps.  The `slot` of a key node is kept with the quad-tree (`PanDB.slots`), its key with the tree of the keys.
-/
namespace Pincaster

open Lib (Bytes bytes cstr Heap)

variable {D : Type}

namespace Layer

/-- A key node, less its key and its slot. -/
structure KeyNode where
  properties : Option SlipMap
  expirable : Option Nat

structure Expirable where
  ts : Int
  keyNode : Nat
  deriving DecidableEq

/-- A `PanDB`: `expirables` are the expirables of the tree in its order. -/
structure Db (D : Type) where
  panDb : PanDB D Nat
  keyNodes : KeyNodeTree Nat
  expirables : List Nat

/-- The memory the layers share: `malloc` for the key nodes and the slab of the expirables. -/
structure Memory where
  keyNodes : Heap KeyNode
  expirables : Heap Expirable

/-- The slot of a key node, and its position there. -/
def Db.position (db : Db D) (keyNode : Nat) : Option (Option (Position2D D)) :=
  match db.panDb.slots keyNode with
  | none => some none
  | some ptr => (db.panDb.slot ptr).map (fun slot => some slot.position)

end Layer

structure Layer (D : Type) where
  name : Bytes
  panDb : Layer.Db D

/-- `strcmp(s, t) == 0`. -/
def strEq (s t : Bytes) : Bool := cstr s = cstr t

/-- `get_pan_db_by_layer_name` without `create`: the first layer of the name in the order of the slab. -/
def getPanDbByLayerName (layers : List (Layer D)) (layerName : Key) : Option (Layer.Db D) :=
  (layers.find? (fun layer => strEq layerName layer.name)).map Layer.panDb

end Pincaster
