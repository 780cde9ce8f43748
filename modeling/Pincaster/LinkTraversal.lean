import Pincaster.LayerDb
import Pincaster.PntStack
import Pincaster.PutBody
/-!
# LinkTraversal — a record and the records it links to, as `utils.c` shows them

`key_node_to_json` follows the links of a record with a stack of the key nodes found so far.  The stack is gone through
while the callback pushes onto it, and a node is marked through the pointer the callback was given.
-/
namespace Pincaster

open Lib (Bytes bytes cstr)

variable {D : Type}

def INT_PROPERTY_LINK : Bytes := bytes "$link:"
def INITIAL_TRAVERSAL_STACK_SIZE : Nat := 100

structure TraversedKeyNode where
  keyNode : Key × Nat
  traversed : Bool

/-- A pointer and a flag. -/
def SIZEOF_TRAVERSED_KEY_NODE : Nat := 16

/-- What is shown of one record. -/
structure RecordJson (D : Type) where
  key : Bytes
  type : Bytes
  position : Option (Position2D D)
  expiresAt : Option Int
  properties : Option (List (Bytes × Bytes))

/-- The `pnt_stack_foreach` with `traversal_stack_is_duplicate_cb`. -/
def traversalStackIsDuplicate (linkedKey : Key) : List TraversedKeyNode → Option Bool
  | [] => some false
  | traversedKeyNode :: elements =>
    let traversedKey := traversedKeyNode.keyNode.1
    if strEq linkedKey traversedKey then if linkedKey.length = traversedKey.length then some true else none
    else traversalStackIsDuplicate linkedKey elements

structure RecordsGetPropertiesCBContext where
  json : List (Bytes × Bytes)
  traversalStack : Option (PntStack TraversedKeyNode)

/-- A property that is a link: its name goes on behind `$link:`. -/
def isLinkProperty (key : Bytes) : Bool :=
  INT_PROPERTY_LINK.length < key.length && key.take INT_PROPERTY_LINK.length = INT_PROPERTY_LINK

/-- `records_get_properties_cb`: both strings are shown, and a link to a record is pushed unless it is on the stack. -/
def recordsGetPropertiesCbLinks (keyNodes : KeyNodeTree Nat) (context : RecordsGetPropertiesCBContext)
    (key value : Bytes) : Option (Int × RecordsGetPropertiesCBContext) :=
  let context := { context with json := context.json ++ [(key, value)] }
  match context.traversalStack with
  | none => some (0, context)
  | some traversalStack =>
    if isLinkProperty key = false then some (0, context)
    else if value.length ≤ 0 ∨ value.head? = some 0 then some (0, context)
    else
      let linkedKey := value ++ [0]
      match getKeyNodeFromKey keyNodes linkedKey with
      | (_, none) => some (0, context)
      | (_, some linkedKeyNode) => do
        if ← traversalStackIsDuplicate linkedKey traversalStack.elements then some (0, context)
        else
          let (traversalStack, ret) ← pushPntStack traversalStack ⟨linkedKeyNode, false⟩
          some (if ret ≠ 0 then -1 else 0, { context with traversalStack := some traversalStack })

/-- The text for what a record has. -/
def recordType (hasSlot hasProperties : Bool) : Bytes :=
  if hasSlot then if hasProperties then bytes "point+hash" else bytes "point"
  else if hasProperties then bytes "hash" else bytes "void"

/-- The time of an expirable, which is not 0. -/
def expiresAtOf (mem : Layer.Memory) : Option Nat → Option (Option Int)
  | none => some none
  | some expirable => (mem.expirables.cells expirable).bind (fun e => if e.ts = 0 then none else some (some e.ts))

/-- `key_node_to_json_`; what `slip_map_foreach` returns is not looked at. -/
def keyNodeToJson_ (mem : Layer.Memory) (db : Layer.Db D) (keyNode : Key × Nat) (withProperties : Bool)
    (traversalStack : Option (PntStack TraversedKeyNode)) :
    Option (RecordJson D × Option (PntStack TraversedKeyNode)) := do
  let node ← mem.keyNodes.cells keyNode.2
  let position ← db.position keyNode.2
  let record : RecordJson D :=
    ⟨cstr keyNode.1, recordType position.isSome node.properties.isSome, position, none, none⟩
  if withProperties = false then some (record, traversalStack)
  else
    let record := { record with expiresAt := ← expiresAtOf mem node.expirable }
    match node.properties with
    | none => some (record, traversalStack)
    | some properties => do
      let context ← slipMapForeachCb (some properties) (recordsGetPropertiesCbLinks db.keyNodes) ⟨[], traversalStack⟩
      some ({ record with properties := some context.json }, context.traversalStack)

structure TraverseKeysNodesForeachCBContext (D : Type) where
  links : List (Bytes × RecordJson D)
  traversalStack : PntStack TraversedKeyNode
  foundJob : Bool

/-- `traverse_keys_nodes_foreach_cb`.  The mark is written through the pointer of the callback, when the pushes are done. -/
def traverseKeysNodesForeachCb (mem : Layer.Memory) (db : Layer.Db D) (withProperties : Bool)
    (context : TraverseKeysNodesForeachCBContext D) (p : ElementPtr) :
    Option (Int × TraverseKeysNodesForeachCBContext D) := do
  let traversedKeyNode ← context.traversalStack.load p
  if traversedKeyNode.traversed then some (0, context)
  else
    let (record, stack) ← keyNodeToJson_ mem db traversedKeyNode.keyNode withProperties (some context.traversalStack)
    let stack ← stack
    some (0, {
      links := context.links ++ [(traversedKeyNode.keyNode.1.dropLast, record)]
      traversalStack := stack.store p (fun e => { e with traversed := true })
      foundJob := true })

/-- The `do … while`: the stack is gone through until there is nothing to do.  A foreach visits at most the key nodes of
the layer, and so many times it is repeated. -/
def traverseLinks (mem : Layer.Memory) (db : Layer.Db D) (withProperties : Bool) : Nat →
    TraverseKeysNodesForeachCBContext D → Option (TraverseKeysNodesForeachCBContext D)
  | 0, _ => none
  | fuel + 1, context => do
    let context ← pntStackForeach TraverseKeysNodesForeachCBContext.traversalStack
      (traverseKeysNodesForeachCb mem db withProperties) (db.keyNodes.nodes.length + 1) { context with foundJob := false }
    if context.foundJob then traverseLinks mem db withProperties fuel context else some context

/-- `key_node_to_json`: the record, and what `$links` shows when links are followed. -/
def keyNodeToJsonLinks (mem : Layer.Memory) (db : Layer.Db D) (keyNode : Key × Nat) (withProperties withLinks : Bool) :
    Option (RecordJson D × Option (List (Bytes × RecordJson D))) :=
  if withLinks = false then (keyNodeToJson_ mem db keyNode withProperties none).map (fun r => (r.1, none))
  else do
    let traversalStack ← newPntStack INITIAL_TRAVERSAL_STACK_SIZE SIZEOF_TRAVERSED_KEY_NODE
    let (traversalStack, _) ← pushPntStack traversalStack ⟨keyNode, true⟩
    let (record, traversalStack) ← keyNodeToJson_ mem db keyNode withProperties (some traversalStack)
    let context ← traverseLinks mem db withProperties (db.keyNodes.nodes.length + 3) ⟨[], ← traversalStack, false⟩
    some (record, some context.links)

end Pincaster
