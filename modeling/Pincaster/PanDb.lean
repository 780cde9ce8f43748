import Pincaster.Lib.Heap
import Pincaster.Geometry
import Mathlib.Data.List.Perm.Basic
import Mathlib.Logic.Function.Basic
/-!
# PanDb — the quad-tree of `pandb.c`

Quad nodes and bucket nodes are cells of a heap, linked by their addresses.  The slab of a bucket is the set of its
entries, visited in some order by a `foreach`; a pointer to a slot is the bucket whose slab it is in and the number of
the entry.  `κ` are the key nodes.  A failed assertion and a dereference of `NULL`, of freed memory or of a node of the
other type have no result; memory allocations succeed.
-/
namespace Pincaster

open Lib (Heap)

/-- The address of a slot. -/
structure SlotPtr where
  bucket : Nat
  entry : Nat
  deriving DecidableEq, Repr

structure Slot (D κ : Type) where
  position : Position2D D
  keyNode : Option κ
  bucketNode : Option Nat

/-- A bucket node with its bucket; `next` is the number of the next entry of the slab. -/
structure BucketNode (D κ : Type) where
  parent : Option Nat
  busySlots : Nat
  entries : List (Nat × Slot D κ)
  next : Nat

structure QuadNode where
  parent : Option Nat
  subSlots : Nat
  nodes : Fin 4 → Nat

inductive Node (D κ : Type) where
  | quadNode (q : QuadNode)
  | bucketNode (b : BucketNode D κ)

def Node.parent {D κ : Type} : Node D κ → Option Nat
  | .quadNode q => q.parent
  | .bucketNode b => b.parent

/-- The tree and the `slot` fields of the key nodes. -/
structure PanDB (D κ : Type) where
  nodes : Heap (Node D κ)
  root : Nat
  slots : κ → Option SlotPtr

/-- What does not change: the bounds, the accuracies, the size of a bucket, the midpoint, and the order in which a
`foreach` visits the entries of a slab. -/
structure PanDbEnv (D κ : Type) [LE D] where
  qbounds : Rectangle2D D
  latitudeAccuracy : D
  longitudeAccuracy : D
  bucketSize : Nat
  midpoint : Midpoint D
  order : List (Nat × Slot D κ) → List (Nat × Slot D κ)
  latitude_le : qbounds.edge0.latitude ≤ qbounds.edge1.latitude
  longitude_le : qbounds.edge0.longitude ≤ qbounds.edge1.longitude
  bucketSize_pos : 0 < bucketSize
  order_perm : ∀ entries, (order entries).Perm entries

variable {D κ : Type}

def PanDB.quadNode (db : PanDB D κ) (a : Nat) : Option QuadNode :=
  match db.nodes.cells a with
  | some (.quadNode q) => some q
  | _ => none

def PanDB.bucketNode (db : PanDB D κ) (a : Nat) : Option (BucketNode D κ) :=
  match db.nodes.cells a with
  | some (.bucketNode b) => some b
  | _ => none

/-- A node that was dereferenced is written. -/
def PanDB.write (db : PanDB D κ) (a : Nat) (n : Node D κ) : PanDB D κ :=
  { db with nodes := db.nodes.modify a (fun _ => n) }

/-- The slot of a pointer. -/
def PanDB.slot (db : PanDB D κ) (ptr : SlotPtr) : Option (Slot D κ) := do
  let b ← db.bucketNode ptr.bucket
  b.entries.lookup ptr.entry

/-! ## Nodes -/

def newBucketNode (parent : Nat) : Node D κ := .bucketNode ⟨some parent, 0, [], 0⟩

/-- `new_quad_node`: the node is followed by its four buckets. -/
def newQuadNode (h : Heap (Node D κ)) : Heap (Node D κ) × Nat :=
  let quad := h.brk
  ((((((h.alloc (.quadNode ⟨none, 0, fun t => quad + 1 + t⟩)).alloc (newBucketNode quad)).alloc
    (newBucketNode quad)).alloc (newBucketNode quad)).alloc (newBucketNode quad)), quad)

/-- `free_bucket_node`, which frees every slot of the slab. -/
def freeBucketNode (db : PanDB D κ) (a : Nat) : Option (PanDB D κ) := do
  let b ← db.bucketNode a
  if b.entries.all (fun e => e.2.keyNode.isSome && e.2.bucketNode.isSome) then
    some { db with nodes := db.nodes.free a }
  else none

def freeBucketNodes : List Nat → PanDB D κ → Option (PanDB D κ)
  | [], db => some db
  | a :: nodes, db => do
    let db ← freeBucketNode db a
    freeBucketNodes nodes db

/-! ## Counters and entries -/

/-- `sub_slots++` from `parent` up to the root; the addresses bound the way. -/
def incSubSlots : Nat → Option Nat → PanDB D κ → Option (PanDB D κ)
  | _, none, db => some db
  | 0, some _, _ => none
  | fuel + 1, some a, db => do
    let q ← db.quadNode a
    incSubSlots fuel q.parent (db.write a (.quadNode { q with subSlots := q.subSlots + 1 }))

/-- `sub_slots--` from `scanned` up to the root. -/
def decSubSlots : Nat → Nat → PanDB D κ → Option (PanDB D κ)
  | 0, _, _ => none
  | fuel + 1, scanned, db => do
    let q ← db.quadNode scanned
    if q.subSlots = 0 then none
    else
      let db := db.write scanned (.quadNode { q with subSlots := q.subSlots - 1 })
      match q.parent with
      | none => some db
      | some parent => decSubSlots fuel parent db

/-- What `add_slot_to_bucket` does with the counters of the quad nodes. -/
inductive UpdateSubSlots where
  | none
  | ancestors
  | parent

def addSlotToBucket (db : PanDB D κ) (a : Nat) (slot : Slot D κ) (updateSubSlots : UpdateSubSlots) :
    Option (PanDB D κ × SlotPtr) := do
  let b ← db.bucketNode a
  let _ ← slot.keyNode
  let newSlot : SlotPtr := ⟨a, b.next⟩
  let db := db.write a (.bucketNode { b with
    busySlots := b.busySlots + 1, entries := b.entries ++ [(b.next, { slot with bucketNode := some a })]
    next := b.next + 1 })
  match updateSubSlots with
  | .none => some (db, newSlot)
  | .ancestors => (incSubSlots (db.nodes.brk + 1) b.parent db).map (fun db => (db, newSlot))
  | .parent => do
    let parent ← b.parent
    let q ← db.quadNode parent
    some (db.write parent (.quadNode { q with subSlots := q.subSlots + 1 }), newSlot)

section
variable [LinearOrder D]

/-- The child in which a position lies, with its rectangle and its part. -/
def findNodeForPosition (q : QuadNode) (qrects : Fin 4 → Rectangle2D D) (position : Position2D D) :
    Option (Nat × Rectangle2D D × Fin 4) :=
  (findPart qrects position).map (fun t => (q.nodes t, qrects t, t))

/-! ## Adding a slot -/

variable [DecidableEq κ]

/-- `scanned_slot->key_node->slot = new_slot` for a copy of a slot. -/
def relocate (db : PanDB D κ) (slot : Slot D κ) (newSlot : SlotPtr) : Option (PanDB D κ) := do
  let key ← slot.keyNode
  some { db with slots := Function.update db.slots key (some newSlot) }

/-- The `slab_foreach` with `rebalance_bucket_cb`. -/
def rebalanceBucket (quad : Nat) (qrects : Fin 4 → Rectangle2D D) : List (Nat × Slot D κ) → PanDB D κ →
    Option (PanDB D κ)
  | [], db => some db
  | (_, slot) :: entries, db => do
    let q ← db.quadNode quad
    let (target, _, _) ← findNodeForPosition q qrects slot.position
    let (db, newSlot) ← addSlotToBucket db target slot .parent
    let db ← relocate db slot newSlot
    rebalanceBucket quad qrects entries db

/-- The bucket `child` of `scanned` becomes a quad node, whose address is returned. -/
def splitBucket (env : PanDbEnv D κ) (db : PanDB D κ) (scanned child : Nat) (part : Fin 4) (qrect : Rectangle2D D) :
    Option (PanDB D κ × Nat) := do
  let b ← db.bucketNode child
  let (nodes, quad) := newQuadNode db.nodes
  let db := { db with nodes }
  let q ← db.quadNode quad
  let db := db.write quad (.quadNode { q with parent := some scanned })
  let db ← rebalanceBucket quad (getQrectsFromQbounds env.midpoint qrect) (env.order b.entries) db
  let db ← freeBucketNode db child
  let q ← db.quadNode scanned
  some (db.write scanned (.quadNode { q with nodes := Function.update q.nodes part quad }), quad)

/-- Whether a slot goes to a bucket as it is: it has room, or its rectangle is too small to be split. -/
def bucketTakes [Sub D] (env : PanDbEnv D κ) (b : BucketNode D κ) (qrect : Rectangle2D D) : Bool :=
  b.busySlots < env.bucketSize ||
    (qrect.edge1.latitude - qrect.edge0.latitude < env.latitudeAccuracy ||
      qrect.edge1.longitude - qrect.edge0.longitude < env.longitudeAccuracy)

/-- `add_slot` with the bucket for the slot at hand. -/
def addSlotAt [Sub D] (env : PanDbEnv D κ) (db : PanDB D κ) (slot : Slot D κ) (scanned child : Nat) (part : Fin 4)
    (b : BucketNode D κ) (qrect : Rectangle2D D) : Option (PanDB D κ × SlotPtr) :=
  if bucketTakes env b qrect then addSlotToBucket db child slot .ancestors
  else do
    let (db, quad) ← splitBucket env db scanned child part qrect
    let q ← db.quadNode quad
    let (target, _, _) ← findNodeForPosition q (getQrectsFromQbounds env.midpoint qrect) slot.position
    addSlotToBucket db target slot .ancestors

/-- `add_slot` from `rescan` on. -/
def addSlotScan [Sub D] (env : PanDbEnv D κ) (slot : Slot D κ) : Nat → PanDB D κ → Nat → Rectangle2D D →
    Option (PanDB D κ × SlotPtr)
  | 0, _, _, _ => none
  | fuel + 1, db, scanned, qbounds => do
    let q ← db.quadNode scanned
    let (child, qrect, part) ← findNodeForPosition q (getQrectsFromQbounds env.midpoint qbounds) slot.position
    match ← db.nodes.cells child with
    | .bucketNode b => if b.parent = some scanned then addSlotAt env db slot scanned child part b qrect else none
    | .quadNode q' => if q'.parent = some scanned then addSlotScan env slot fuel db child qrect else none

/-- `add_slot` and the update of `key_node->slot`. -/
def addSlot [Sub D] (env : PanDbEnv D κ) (db : PanDB D κ) (slot : Slot D κ) : Option (PanDB D κ) := do
  let (db, newSlot) ← addSlotScan env slot (db.nodes.brk + 1) db db.root env.qbounds
  relocate db slot newSlot

/-! ## Removing a slot -/

/-- The `do … while` over the siblings; the inner `none` is a sibling that is no bucket. -/
def busySlotsInSiblings (db : PanDB D κ) : List Nat → Nat → Option (Option Nat)
  | [], busySlots => some (some busySlots)
  | a :: nodes, busySlots => do
    match ← db.nodes.cells a with
    | .quadNode _ => some none
    | .bucketNode b => busySlotsInSiblings db nodes (busySlots + b.busySlots)

/-- The four nodes of a quad node, the last one first. -/
def QuadNode.nodesDown (q : QuadNode) : List Nat := [q.nodes 3, q.nodes 2, q.nodes 1, q.nodes 0]

/-- The `slab_foreach` with `pack_old_child_node_cb`. -/
def packOldChildNode (newNode : Nat) : List (Nat × Slot D κ) → PanDB D κ → Option (PanDB D κ)
  | [], db => some db
  | (_, slot) :: entries, db => do
    let (db, newSlot) ← addSlotToBucket db newNode slot .none
    let db ← relocate db slot newSlot
    packOldChildNode newNode entries db

def packOldChildNodes (env : PanDbEnv D κ) (newNode : Nat) : List Nat → PanDB D κ → Option (PanDB D κ)
  | [], db => some db
  | a :: nodes, db => do
    let b ← db.bucketNode a
    let db ← packOldChildNode newNode (env.order b.entries) db
    packOldChildNodes env newNode nodes db

/-- The part of a quad node that holds a node, the last one first. -/
def QuadNode.partOf (q : QuadNode) (a : Nat) : Option (Fin 4) := [3, 2, 1, 0].find? (fun t => q.nodes t = a)

/-- The quad node `scanned`, which has only buckets, becomes one bucket, whose address is returned. -/
def mergeBuckets (env : PanDbEnv D κ) (db : PanDB D κ) (scanned : Nat) (q : QuadNode) (busySlots : Nat) :
    Option (PanDB D κ × Nat) := do
  let parent ← q.parent
  let _ ← db.quadNode parent
  let newNode := db.nodes.brk
  let db := { db with nodes := db.nodes.alloc (newBucketNode parent) }
  let db ← packOldChildNodes env newNode q.nodesDown db
  let b ← db.bucketNode newNode
  if b.busySlots ≠ busySlots then none
  let p ← db.quadNode parent
  let part ← p.partOf scanned
  let db := db.write parent (.quadNode { p with nodes := Function.update p.nodes part newNode })
  if b.parent ≠ some parent then none
  let db ← freeBucketNodes q.nodesDown db
  let _ ← db.quadNode scanned
  some ({ db with nodes := db.nodes.free scanned }, newNode)

/-- Whether the bucket a slot was removed from is packed with its siblings: the bucket node from which the counters are
updated, and the tree. -/
def packSiblings (env : PanDbEnv D κ) (db : PanDB D κ) (a : Nat) (b : BucketNode D κ) :
    Option (PanDB D κ × Nat) := do
  let scanned ← b.parent
  let q ← db.quadNode scanned
  if q.parent ≠ none ∧ b.busySlots ≤ env.bucketSize / 2 then
    match ← busySlotsInSiblings db q.nodesDown 0 with
    | some busySlots =>
      if busySlots < env.bucketSize / 6 * 5 then mergeBuckets env db scanned q busySlots else some (db, a)
    | none => some (db, a)
  else some (db, a)

/-- `remove_entry_from_key_node` with `should_free_key_node` 0; the slot of the key node stays as it is. -/
def removeEntryFromKeyNode (env : PanDbEnv D κ) (db : PanDB D κ) (keyNode : κ) : Option (PanDB D κ) := do
  let ptr ← db.slots keyNode
  let slot ← db.slot ptr
  let a ← slot.bucketNode
  let b ← db.bucketNode a
  if slot.keyNode = none ∨ ptr.bucket ≠ a ∨ b.busySlots = 0 then none
  let b := { b with busySlots := b.busySlots - 1, entries := b.entries.filter (fun e => e.1 ≠ ptr.entry) }
  let (db, a) ← packSiblings env (db.write a (.bucketNode b)) a b
  let b ← db.bucketNode a
  let scanned ← b.parent
  decSubSlots (db.nodes.brk + 1) scanned db

end

/-! ## The empty tree -/

/-- `init_pan_db`. -/
def initPanDb : PanDB D κ :=
  let (nodes, root) := newQuadNode Heap.empty
  ⟨nodes, root, fun _ => none⟩

end Pincaster
