import Pincaster.PanDb
import Pincaster.PntStack
import Mathlib.Algebra.Group.Nat.Defs
import Mathlib.Algebra.Order.Field.Basic
import Mathlib.Algebra.Order.Group.Abs
/-!
# PanDbSearch — the searches of `pandb.c`

`find_near` and `find_in_rect` cut the rectangle of a search into zones and walk the quad-tree once for each of them, with
a stack of the quad nodes still to be visited.  Coordinates have an order and the operations of the code, of which nothing
is asked here.  The functions that return a number or fail an assertion on their way leave what their callback has done so
far.
-/
namespace Pincaster

variable {D κ σ τ ρ : Type}

inductive LayerType where
  | flat
  | flatwrap
  | spherical
  | ellipsoidal
  deriving DecidableEq

inductive Accuracy where
  | vincenty
  | hs
  | gc
  | fast
  | rhomboid

/-- A distance; the `sqrtf` of a square is compared by the square. -/
inductive Meters (D : Type) where
  | ofDimension (d : D)
  | sqrtf (square : D)

/-- What a search needs besides: the type of the layer and the ways to compute a distance.  `cosf` takes degrees. -/
structure SearchEnv (D κ : Type) [LE D] extends PanDbEnv D κ where
  layerType : LayerType
  accuracy : Accuracy
  cosf : D → D
  vincentyDistanceBetweenGeoidalPositions : Position2D D → Position2D D → D
  hsDistanceBetweenGeoidalPositions : Position2D D → Position2D D → D
  gcDistanceBetweenGeoidalPositions : Position2D D → Position2D D → D

/-- What a step of a search has left: `some 0` to go on, another number that is returned, `none` for a failed assertion. -/
def proceed (r : Option Int × τ) (step : τ → Option Int × τ) : Option Int × τ :=
  if r.1 = some 0 then step r.2 else r

/-- `slab_foreach` over the entries of a bucket. -/
def foreachInBucket (cb : Slot D κ → σ → Option Int × σ) : List (Nat × Slot D κ) → σ → Option Int × σ
  | [], context => (some 0, context)
  | (_, slot) :: entries, context => proceed (cb slot context) (foreachInBucket cb entries)

/-- `DEFAULT_STACK_SIZE_FOR_SEARCHES`. -/
def DEFAULT_STACK_SIZE_FOR_SEARCHES : Nat := 8

structure QuadNodeWithBounds (D : Type) where
  quadNode : Nat
  qrect : Rectangle2D D

/-- A pointer and four coordinates. -/
def SIZEOF_QUAD_NODE_WITH_BOUNDS : Nat := 24

section
variable [LinearOrder D]

/-- `rectangle2d_intersect`: the edges count. -/
def rectangle2dIntersect (r1 r2 : Rectangle2D D) : Prop :=
  ¬ (r1.edge0.longitude > r2.edge1.longitude ∨ r1.edge1.longitude < r2.edge0.longitude ∨
    r1.edge0.latitude > r2.edge1.latitude ∨ r1.edge1.latitude < r2.edge0.latitude)

instance (r1 r2 : Rectangle2D D) : Decidable (rectangle2dIntersect r1 r2) := inferInstanceAs (Decidable (¬ _))

/-! ## The walk through the tree for one zone -/

/-- What a search does at a quad node before its children, which children are clusters instead of being pushed, and what is
done with a cluster and with a slot. -/
structure ZoneVisitor (D κ σ ρ : Type) where
  enter : σ → ρ
  clusters : ρ → QuadNode → Rectangle2D D → Bool
  cluster : QuadNode → Rectangle2D D → σ → Option Int × σ
  slot : Slot D κ → σ → Option Int × σ

/-- One child of a quad node. -/
def scanChild (visitor : ZoneVisitor D κ σ ρ) (env : PanDbEnv D κ) (db : PanDB D κ) (matchingRect : Rectangle2D D)
    (entered : ρ) (child : Nat) (qrect : Rectangle2D D) (s : PntStack (QuadNodeWithBounds D) × σ) :
    Option Int × PntStack (QuadNodeWithBounds D) × σ :=
  if ¬ rectangle2dIntersect qrect matchingRect then (some 0, s)
  else match db.nodes.cells child with
    | none => (none, s)
    | some (.bucketNode b) =>
      let (ret, context) := foreachInBucket visitor.slot (env.order b.entries) s.2
      (ret, s.1, context)
    | some (.quadNode q) =>
      if visitor.clusters entered q qrect then
        let (ret, context) := visitor.cluster q qrect s.2
        (ret, s.1, context)
      else match pushPntStack s.1 ⟨child, qrect⟩ with
        | none => (none, s)
        | some (stack, _) => (some 0, stack, s.2)

/-- The `do … while` over the children. -/
def scanChildren (visitor : ZoneVisitor D κ σ ρ) (env : PanDbEnv D κ) (db : PanDB D κ) (matchingRect : Rectangle2D D)
    (entered : ρ) (q : QuadNode) (qrects : Fin 4 → Rectangle2D D) :
    List (Fin 4) → PntStack (QuadNodeWithBounds D) × σ → Option Int × PntStack (QuadNodeWithBounds D) × σ
  | [], s => (some 0, s)
  | t :: ts, s => proceed (scanChild visitor env db matchingRect entered (q.nodes t) (qrects t) s)
      (scanChildren visitor env db matchingRect entered q qrects ts)

/-- The `for (;;)` of `find_near_in_zone` and `find_in_rect_in_zone`. -/
def scanZone (visitor : ZoneVisitor D κ σ ρ) (env : PanDbEnv D κ) (db : PanDB D κ) (matchingRect : Rectangle2D D) :
    Nat → Nat → Rectangle2D D → PntStack (QuadNodeWithBounds D) × σ → Option Int × PntStack (QuadNodeWithBounds D) × σ
  | 0, _, _, s => (none, s)
  | fuel + 1, scannedNode, scannedQbounds, s =>
    match db.quadNode scannedNode with
    | none => (none, s)
    | some q =>
      proceed (scanChildren visitor env db matchingRect (visitor.enter s.2) q
        (getQrectsFromQbounds env.midpoint scannedQbounds) [0, 1, 2, 3] s) (fun s =>
        match popPntStack s.1 with
        | (stack, none) => (some 0, stack, s.2)
        | (stack, some sqnb) => scanZone visitor env db matchingRect fuel sqnb.quadNode sqnb.qrect (stack, s.2))

/-- The walk from the root; no more quad nodes come up than a tree of that height has. -/
def searchInZone (visitor : ZoneVisitor D κ σ ρ) (env : PanDbEnv D κ) (db : PanDB D κ) (matchingRect : Rectangle2D D)
    (s : PntStack (QuadNodeWithBounds D) × σ) : Option Int × PntStack (QuadNodeWithBounds D) × σ :=
  scanZone visitor env db matchingRect (4 ^ (db.nodes.brk + 1)) db.root env.qbounds s

/-- The `do … while` over the zones. -/
def searchZones (inZone : Rectangle2D D → PntStack (QuadNodeWithBounds D) × τ →
    Option Int × PntStack (QuadNodeWithBounds D) × τ) :
    List (Rectangle2D D) → PntStack (QuadNodeWithBounds D) × τ → Option Int × PntStack (QuadNodeWithBounds D) × τ
  | [], s => (some 0, s)
  | zone :: zones, s => proceed (inZone zone s) (searchZones inZone zones)

end

section
variable [Add D] [Sub D] [Neg D] [Mul D] [Div D] [Zero D] [One D] [NatCast D] [LinearOrder D]

/-- A half, and the extents of the earth, are numerals. -/
instance atLeastTwoHalves : Nat.AtLeastTwo 2 := ⟨by decide⟩

instance atLeastTwoLatitudes : Nat.AtLeastTwo 180 := ⟨by decide⟩

instance atLeastTwoLongitudes : Nat.AtLeastTwo 360 := ⟨by decide⟩

def DEG_AVG_DISTANCE : D := 40000 * 1000 / 360

def fabsf (x : D) : D := if x < 0 then -x else x

/-! ## Distances -/

/-- `compute_square_distance`, which is called for flat layers only. -/
def computeSquareDistance (env : SearchEnv D κ) (position1 position2 : Position2D D) : D :=
  let dLatitude := position2.latitude - position1.latitude
  let dLongitude := position2.longitude - position1.longitude
  if env.layerType ≠ .flat then
    let dLatitude :=
      if dLatitude > env.qbounds.edge1.latitude then dLatitude - env.qbounds.edge1.latitude + env.qbounds.edge0.latitude
      else dLatitude
    let dLongitude :=
      if dLongitude > env.qbounds.edge1.longitude then
        dLongitude - env.qbounds.edge1.longitude + env.qbounds.edge0.longitude
      else dLongitude
    dLatitude * dLatitude + dLongitude * dLongitude
  else dLatitude * dLatitude + dLongitude * dLongitude

def distanceBetweenFlatPositions (env : SearchEnv D κ) (p1 p2 : Position2D D) : Meters D :=
  .sqrtf (computeSquareDistance env p1 p2)

def rhomboidDistanceBetweenGeoidalPositions (env : SearchEnv D κ) (p1 p2 : Position2D D) : D :=
  let k := env.cosf p1.latitude
  let dx := k * (p1.longitude - p2.longitude)
  let dy := p1.latitude - p2.latitude
  DEG_AVG_DISTANCE * (fabsf dx + fabsf dy)

def geoidalDistanceToMeters (d : D) : D := d * (40000 * 1000 / 360)

/-- `cd <= distance`. -/
def Meters.le : Meters D → D → Prop
  | .ofDimension cd, distance => cd ≤ distance
  | .sqrtf square, distance => 0 ≤ distance ∧ square ≤ distance * distance

instance : ∀ (cd : Meters D) (distance : D), Decidable (cd.le distance)
  | .ofDimension cd, distance => inferInstanceAs (Decidable (cd ≤ distance))
  | .sqrtf square, distance => inferInstanceAs (Decidable (0 ≤ distance ∧ square ≤ distance * distance))

/-! ## The zones of a rectangle -/

/-- The rectangle less what lies beyond twice the bounds. -/
def clampedRect (qbounds rect : Rectangle2D D) : Rectangle2D D where
  edge0.latitude := max (qbounds.edge0.latitude * 2) rect.edge0.latitude
  edge0.longitude := max (qbounds.edge0.longitude * 2) rect.edge0.longitude
  edge1.latitude := min (qbounds.edge1.latitude * 2) rect.edge1.latitude
  edge1.longitude := min (qbounds.edge1.longitude * 2) rect.edge1.longitude

def boundedRect (qbounds rect : Rectangle2D D) : Rectangle2D D where
  edge0.latitude := max qbounds.edge0.latitude rect.edge0.latitude
  edge0.longitude := max qbounds.edge0.longitude rect.edge0.longitude
  edge1.latitude := min qbounds.edge1.latitude rect.edge1.latitude
  edge1.longitude := min qbounds.edge1.longitude rect.edge1.longitude

/-- `find_zones`: with four zones before the last test the answer is that there is one. -/
def findZones (qbounds rect_ : Rectangle2D D) : List (Rectangle2D D) :=
  let rect := clampedRect qbounds rect_
  let bounded := boundedRect qbounds rect
  let rects := [bounded]
  let rects :=
    if rect.edge0.latitude < qbounds.edge0.latitude then
      rects ++ [⟨⟨max bounded.edge1.latitude
          (rect.edge0.latitude - qbounds.edge0.latitude + qbounds.edge1.latitude), bounded.edge0.longitude⟩,
        ⟨qbounds.edge1.latitude, bounded.edge1.longitude⟩⟩]
    else rects
  let rects :=
    if rect.edge0.longitude < qbounds.edge0.longitude then
      rects ++ [⟨⟨bounded.edge0.latitude, max bounded.edge1.longitude
          (rect.edge0.longitude - qbounds.edge0.longitude + qbounds.edge1.longitude)⟩,
        ⟨bounded.edge1.latitude, qbounds.edge1.longitude⟩⟩]
    else rects
  let rects :=
    if rect.edge1.latitude > qbounds.edge1.latitude then
      rects ++ [⟨⟨qbounds.edge0.latitude, bounded.edge0.longitude⟩,
        ⟨min bounded.edge0.latitude
          (rect.edge1.latitude + qbounds.edge0.latitude - qbounds.edge1.latitude), bounded.edge1.longitude⟩⟩]
    else rects
  if rect.edge1.longitude > qbounds.edge1.longitude then
    if rects.length ≥ 4 then rects.take 1
    else rects ++ [⟨⟨bounded.edge0.latitude, qbounds.edge0.longitude⟩,
      ⟨bounded.edge1.latitude, min bounded.edge0.longitude
        (rect.edge1.longitude + qbounds.edge0.longitude - qbounds.edge1.longitude)⟩⟩]
  else rects

/-- The stack of a search; `none` is `NULL`. -/
def newSearchStack : Option (PntStack (QuadNodeWithBounds D)) :=
  newPntStack DEFAULT_STACK_SIZE_FOR_SEARCHES SIZEOF_QUAD_NODE_WITH_BOUNDS

/-! ## Searches around a position -/

/-- What changes in the context of the callbacks of a search. -/
structure SearchContext (σ : Type) where
  limit : Nat
  contextCb : σ

/-- The distance of a slot in `find_near_context_cb`. -/
def nearDistance (env : SearchEnv D κ) (position slotPosition : Position2D D) : Meters D :=
  match env.layerType with
  | .spherical | .ellipsoidal => .ofDimension (match env.accuracy with
    | .vincenty => env.vincentyDistanceBetweenGeoidalPositions position slotPosition
    | .hs => env.hsDistanceBetweenGeoidalPositions position slotPosition
    | .gc | .fast => env.gcDistanceBetweenGeoidalPositions position slotPosition
    | .rhomboid => rhomboidDistanceBetweenGeoidalPositions env position slotPosition)
  | .flat | .flatwrap => distanceBetweenFlatPositions env position slotPosition

def findNearContextCb (env : SearchEnv D κ) (cb : σ → Slot D κ → Meters D → Option Int × σ) (position : Position2D D)
    (distance : D) (slot : Slot D κ) (context : SearchContext σ) : Option Int × SearchContext σ :=
  let cd := nearDistance env position slot.position
  if cd.le distance ∧ slot.keyNode.isSome then
    let (ret, contextCb) := cb context.contextCb slot cd
    if ret ≠ some 0 then (ret, ⟨context.limit, contextCb⟩)
    else (if context.limit ≤ 1 then some 1 else some 0, ⟨context.limit - 1, contextCb⟩)
  else (some 0, context)

def nearVisitor (env : SearchEnv D κ) (cb : σ → Slot D κ → Meters D → Option Int × σ) (position : Position2D D)
    (distance : D) : ZoneVisitor D κ (SearchContext σ) Unit where
  enter _ := ()
  clusters _ _ _ := false
  cluster _ _ context := (some 0, context)
  slot := findNearContextCb env cb position distance

/-- `find_near_in_zone`, whose context is made for every zone. -/
def findNearInZone (env : SearchEnv D κ) (db : PanDB D κ) (cb : σ → Slot D κ → Meters D → Option Int × σ)
    (position : Position2D D) (distance : D) (limit : Nat) (matchingRect : Rectangle2D D)
    (s : PntStack (QuadNodeWithBounds D) × σ) : Option Int × PntStack (QuadNodeWithBounds D) × σ :=
  let (ret, stack, context) :=
    searchInZone (nearVisitor env cb position distance) env.toPanDbEnv db matchingRect (s.1, ⟨limit, s.2⟩)
  (ret, stack, context.contextCb)

/-- `dlon`.  Where `cosf` is 0 the quotient is an infinity, here a number that is beyond everything it is compared with. -/
def nearDlon (env : SearchEnv D κ) (position : Position2D D) (distance : D) : D :=
  let divisor := fabsf (env.cosf position.latitude * DEG_AVG_DISTANCE)
  let beyond :=
    fabsf position.longitude + 2 * fabsf env.qbounds.edge0.longitude + 2 * fabsf env.qbounds.edge1.longitude + 1
  if divisor = 0 then if distance > 0 then beyond else - beyond else distance / divisor

/-- The rectangle of a search.  0 divided by 0 is no number: no longitude is then less or greater, as with the bounds. -/
def nearRect (env : SearchEnv D κ) (position : Position2D D) (distance : D) : Rectangle2D D :=
  let dlat := distance / DEG_AVG_DISTANCE
  let dlon := nearDlon env position distance
  if fabsf (env.cosf position.latitude * DEG_AVG_DISTANCE) = 0 ∧ distance = 0 then
    ⟨⟨position.latitude - dlat, env.qbounds.edge0.longitude⟩, ⟨position.latitude + dlat, env.qbounds.edge1.longitude⟩⟩
  else ⟨⟨position.latitude - dlat, position.longitude - dlon⟩, ⟨position.latitude + dlat, position.longitude + dlon⟩⟩

/-- The zones of a search around a position. -/
def nearZones (env : SearchEnv D κ) (position : Position2D D) (distance : D) : List (Rectangle2D D) :=
  let rect := nearRect env position distance
  if env.layerType = .flat then [rect] else findZones env.qbounds rect

def findNear (env : SearchEnv D κ) (db : PanDB D κ) (cb : σ → Slot D κ → Meters D → Option Int × σ) (contextCb : σ)
    (position : Position2D D) (distance : D) (limit : Nat) : Option Int × σ :=
  if limit ≤ 0 then (some 0, contextCb)
  else match newSearchStack with
    | none => (some (-1), contextCb)
    | some stack =>
      let (ret, _, contextCb) := searchZones (findNearInZone env db cb position distance limit)
        (nearZones env position distance) (stack, contextCb)
      (ret, contextCb)

/-! ## Searches in a rectangle -/

def rectCenter (rect : Rectangle2D D) : Position2D D :=
  ⟨(rect.edge1.latitude + rect.edge0.latitude) / 2, (rect.edge1.longitude + rect.edge0.longitude) / 2⟩

def findInRectContextCb (env : SearchEnv D κ) (cb : σ → Slot D κ → Meters D → Option Int × σ) (rect : Rectangle2D D)
    (slot : Slot D κ) (context : SearchContext σ) : Option Int × SearchContext σ :=
  if ¬ positionIsInRect slot.position rect then (some 0, context)
  else
    let cd := match env.layerType with
      | .spherical | .ellipsoidal =>
        .ofDimension (rhomboidDistanceBetweenGeoidalPositions env (rectCenter rect) slot.position)
      | .flat | .flatwrap => distanceBetweenFlatPositions env (rectCenter rect) slot.position
    if slot.keyNode.isSome then
      if context.limit ≤ 0 then (some 1, context)
      else
        let (ret, contextCb) := cb context.contextCb slot cd
        (ret, ⟨context.limit - 1, contextCb⟩)
    else (some 0, context)

/-- `find_in_rect_cluster_context_cb`, for a quad node with the rectangle `rect`; the children are counted in 32 bits. -/
def findInRectClusterContextCb (env : SearchEnv D κ)
    (clusterCb : σ → Position2D D → Meters D → Nat → Option Int × σ) (scannedNode : QuadNode) (rect : Rectangle2D D)
    (context : SearchContext σ) : Option Int × SearchContext σ :=
  let center := rectCenter rect
  if ¬ positionIsInRect center rect then (some 0, context)
  else
    let distance := (fabsf (center.latitude - rect.edge0.latitude) + fabsf (center.longitude - rect.edge0.longitude)) / 2
    let radius : Meters D := match env.layerType with
      | .spherical | .ellipsoidal => .ofDimension (geoidalDistanceToMeters distance)
      | .flat | .flatwrap => .ofDimension distance
    let (ret, contextCb) := clusterCb context.contextCb center radius (scannedNode.subSlots % 2 ^ 32)
    if ret ≠ some 0 then (ret, ⟨context.limit, contextCb⟩)
    else (if context.limit ≤ 1 then some 1 else some 0, ⟨context.limit - 1, contextCb⟩)

/-- A quad node with more slots than a quarter of the limit is shown as one cluster when it is small. -/
def inRectVisitor (env : SearchEnv D κ) (cb : σ → Slot D κ → Meters D → Option Int × σ)
    (clusterCb : σ → Position2D D → Meters D → Nat → Option Int × σ) (rect : Rectangle2D D) (epsilon : D) :
    ZoneVisitor D κ (SearchContext σ) Nat where
  enter context := if epsilon > 0 then context.limit / 4 else 0
  clusters maxNbSlotsWithoutClustering q qrect :=
    epsilon > 0 ∧ q.subSlots > maxNbSlotsWithoutClustering ∧
      fabsf (qrect.edge1.latitude - qrect.edge0.latitude) < epsilon ∧
      fabsf (qrect.edge1.longitude - qrect.edge0.longitude) < epsilon
  cluster := findInRectClusterContextCb env clusterCb
  slot := findInRectContextCb env cb rect

/-- `find_in_rect_in_zone`, which is called with the zone as the rectangle. -/
def findInRectInZone (env : SearchEnv D κ) (db : PanDB D κ) (cb : σ → Slot D κ → Meters D → Option Int × σ)
    (clusterCb : σ → Position2D D → Meters D → Nat → Option Int × σ) (limit : Nat) (epsilon : D)
    (matchingRect : Rectangle2D D) (s : PntStack (QuadNodeWithBounds D) × σ) :
    Option Int × PntStack (QuadNodeWithBounds D) × σ :=
  let (ret, stack, context) := searchInZone (inRectVisitor env cb clusterCb matchingRect epsilon) env.toPanDbEnv db
    matchingRect (s.1, ⟨limit, s.2⟩)
  (ret, stack, context.contextCb)

/-- The zones of a search in a rectangle; edges the wrong way around are those of a rectangle beyond the bounds. -/
def inRectZones (env : SearchEnv D κ) (rect : Rectangle2D D) : List (Rectangle2D D) :=
  if env.layerType = .flat then [rect]
  else
    let latitude1 :=
      if rect.edge0.latitude > rect.edge1.latitude then
        rect.edge1.latitude + (env.qbounds.edge1.latitude - env.qbounds.edge0.latitude)
      else rect.edge1.latitude
    let longitude1 :=
      if rect.edge0.longitude > rect.edge1.longitude then
        rect.edge1.longitude + (env.qbounds.edge1.longitude - env.qbounds.edge0.longitude)
      else rect.edge1.longitude
    findZones env.qbounds ⟨rect.edge0, ⟨latitude1, longitude1⟩⟩

def findInRect (env : SearchEnv D κ) (db : PanDB D κ) (cb : σ → Slot D κ → Meters D → Option Int × σ)
    (clusterCb : σ → Position2D D → Meters D → Nat → Option Int × σ) (contextCb : σ) (rect : Rectangle2D D) (limit : Nat)
    (epsilon : D) : Option Int × σ :=
  if limit ≤ 0 then (some 0, contextCb)
  else match newSearchStack with
    | none => (some (-1), contextCb)
    | some stack =>
      let (ret, _, contextCb) := searchZones (findInRectInZone env db cb clusterCb limit epsilon) (inRectZones env rect)
        (stack, contextCb)
      (ret, contextCb)

end

/-- With exact coordinates. -/
@[simp] theorem fabsf_eq_abs [Field D] [LinearOrder D] [IsStrictOrderedRing D] (x : D) : fabsf x = |x| := by
  unfold fabsf
  split
  · rename_i h
    exact (abs_of_neg h).symm
  · rename_i h
    exact (abs_of_nonneg (not_lt.1 h)).symm

end Pincaster
