import Pincaster.CrowdedTree
import Mathlib.Tactic.Ring
/-!
# RectScan — a search in a rectangle against a scan of all slots

Without clusters `find_in_rect` reports what a scan of all slots would, up to its limit, as long as its stack has room
for the quad nodes that wait (`find_in_rect_scan_iff`).  It has room in a tree that is not too deep
(`zoneFits_of_quadsWithin`).
-/
namespace Pincaster

variable {D κ : Type} [Field D] [LinearOrder D] [IsStrictOrderedRing D]

/-! ## One zone -/

/-- A rectangle that is searched as it is: any one of a flat layer, and one inside the bounds otherwise. -/
def Unwrapped (env : SearchEnv D κ) (rect : Rectangle2D D) : Prop :=
  env.layerType = .flat ∨ rect.Ordered ∧
    (env.qbounds.edge0.latitude ≤ rect.edge0.latitude ∧ rect.edge1.latitude ≤ env.qbounds.edge1.latitude) ∧
    env.qbounds.edge0.longitude ≤ rect.edge0.longitude ∧ rect.edge1.longitude ≤ env.qbounds.edge1.longitude

theorem findZones_inside {rect : Rectangle2D D}
    (hlat : (worldBounds : Rectangle2D D).edge0.latitude ≤ rect.edge0.latitude ∧
      rect.edge1.latitude ≤ (worldBounds : Rectangle2D D).edge1.latitude)
    (hlon : (worldBounds : Rectangle2D D).edge0.longitude ≤ rect.edge0.longitude ∧
      rect.edge1.longitude ≤ (worldBounds : Rectangle2D D).edge1.longitude) : findZones worldBounds rect = [rect] := by
  obtain ⟨hlow, hhigh⟩ := hlat
  obtain ⟨hleft, hright⟩ := hlon
  have hclamped : clampedRect worldBounds rect = rect := by
    simp only [worldBounds] at hlow hhigh hleft hright
    simp only [clampedRect, worldBounds]
    rw [max_eq_right (by linarith), max_eq_right (by linarith), min_eq_right (by linarith), min_eq_right (by linarith)]
  have hbounded : boundedRect worldBounds rect = rect := by
    rw [boundedRect, max_eq_right hlow, max_eq_right hleft, min_eq_right hhigh, min_eq_right hright]
  rw [findZones, hclamped, hbounded]
  simp only [if_neg (not_lt.2 hlow), if_neg (not_lt.2 hleft), gt_iff_lt, if_neg (not_lt.2 hhigh),
    if_neg (not_lt.2 hright)]

theorem Unwrapped.inRectZones {env : SearchEnv D κ} {rect : Rectangle2D D} (h : Unwrapped env rect)
    (hbounds : env.qbounds = worldBounds) : inRectZones env rect = [rect] := by
  unfold Pincaster.inRectZones
  split
  · rfl
  · rename_i hflat
    obtain ⟨hrect, hlat, hlon⟩ := h.resolve_left hflat
    rw [hbounds] at hlat hlon ⊢
    simp only [gt_iff_lt, if_neg (not_lt.2 hrect.latitude), if_neg (not_lt.2 hrect.longitude)]
    exact findZones_inside hlat hlon

/-! ## The scan -/

section
variable {env : SearchEnv D κ} {db : PanDB D κ} {rect : Rectangle2D D} {limit : Nat} {epsilon : D}

/-- **`find_in_rect` agrees with a scan** of all slots: it reports each slot of the rectangle once and nothing else, and
returns 0, when there are not more than the limit, and another value when there are more. -/
def RectScan (env : SearchEnv D κ) (db : PanDB D κ)
    (clusterCb : List κ → Position2D D → Meters D → Nat → Option Int × List κ) (rect : Rectangle2D D) (limit : Nat)
    (epsilon : D) : Prop :=
  ((inRectSlots db rect).ncard ≤ limit →
    (findInRect env db logCb clusterCb [] rect limit epsilon).1 = some 0 ∧
    (findInRect env db logCb clusterCb [] rect limit epsilon).2.Nodup ∧
    ∀ k, k ∈ (findInRect env db logCb clusterCb [] rect limit epsilon).2 ↔
      ∃ position, db.position k = some position ∧ positionIsInRect position rect) ∧
  (limit < (inRectSlots db rect).ncard →
    ∃ ret, (findInRect env db logCb clusterCb [] rect limit epsilon).1 = some ret ∧ ret ≠ 0)

omit [IsStrictOrderedRing D] in
theorem zonesResult_one {ζ : Type} (keys : ζ → List κ) (fits : ζ → Bool) (stops : Nat → Bool) (limit : Nat) (zone : ζ) :
    zonesResult keys fits stops limit [zone] [] =
      zoneStep (keys zone) (fits zone) (stops (keys zone).length) limit [] :=
  proceed_pure _

omit [Field D] [IsStrictOrderedRing D] in
theorem length_rectKeys_le {pos : κ → Option (Position2D D)} {cell : Nat → Rectangle2D D}
    (h : Stable env.toPanDbEnv db pos cell) (rect : Rectangle2D D) :
    (rectKeys env db rect).length ≤ (inRectSlots db rect).ncard := by
  classical
  have hkeys := rectKeys_spec h rect
  have hfinite : (inRectSlots db rect).Finite :=
    (finite_storedKeys h).subset (fun k ⟨p, hp, _⟩ => mem_storedKeys hp)
  rw [← List.toFinset_card_of_nodup hkeys.nodup, ← Set.ncard_coe_finset]
  exact Set.ncard_le_ncard (fun k hk => hkeys.sound k (List.mem_toFinset.1 hk)) hfinite

/-- **The one zone of such a rectangle.** -/
theorem findInRect_unwrapped {pos : κ → Option (Position2D D)} {cell : Nat → Rectangle2D D}
    (h : Stable env.toPanDbEnv db pos cell) (hbounds : env.qbounds = worldBounds) (hrect : Unwrapped env rect)
    (hlimit : 0 < limit) (clusterCb : List κ → Position2D D → Meters D → Nat → Option Int × List κ)
    (hepsilon : epsilon ≤ 0) : findInRect env db logCb clusterCb [] rect limit epsilon =
      zoneStep (rectKeys env db rect) (zoneFits env db rect) (decide (limit < (rectKeys env db rect).length)) limit
        [] := by
  rw [findInRect_eq (ascending_of_stable h) clusterCb rect hlimit hepsilon, hrect.inRectZones hbounds, zonesResult_one]

/-- **A search in a rectangle agrees with a scan** exactly when the stack has room for the quad nodes that wait, or more
slots than the limit come up before it has none. -/
theorem find_in_rect_scan_iff [DecidableEq κ] (hr : (panDbSystem env.toPanDbEnv).Reachable db)
    (hbounds : env.qbounds = worldBounds) (hrect : Unwrapped env rect) (hlimit : 0 < limit)
    (clusterCb : List κ → Position2D D → Meters D → Nat → Option Int × List κ) (hepsilon : epsilon ≤ 0) :
    RectScan env db clusterCb rect limit epsilon ↔
      zoneFits env db rect = true ∨ limit < (rectKeys env db rect).length := by
  obtain ⟨pos, cell, h⟩ := panDb_reachable_stable hr
  have hkeys := rectKeys_spec h rect
  have hle := length_rectKeys_le h rect
  rw [RectScan, findInRect_unwrapped h hbounds hrect hlimit clusterCb hepsilon, zoneStep]
  by_cases hstops : limit < (rectKeys env db rect).length
  · rw [decide_eq_true hstops, if_pos rfl]
    refine iff_of_true ⟨fun hfew => absurd hfew (by omega), fun _ => ⟨1, rfl, by decide⟩⟩ (.inr hstops)
  · rw [decide_eq_false hstops, if_neg Bool.false_ne_true, List.nil_append, or_iff_left hstops]
    cases hfits : zoneFits env db rect with
    | false =>
      refine iff_of_false (fun hscan => ?_) Bool.false_ne_true
      obtain ⟨hall, hmore⟩ := hscan
      by_cases hfew : (inRectSlots db rect).ncard ≤ limit
      · exact absurd (hall hfew).1 (by simp)
      · obtain ⟨ret, hret, -⟩ := hmore (not_le.1 hfew)
        exact absurd hret (by simp)
    | true =>
      have hlen := hkeys.length hfits
      exact iff_of_true ⟨fun _ => ⟨rfl, hkeys.nodup, fun k => hkeys.mem_iff hfits⟩, fun hmore => by omega⟩ rfl

end

/-- Fifty-one slots of one bucket, which is split, and two of another. -/
def splitSlots : List (PanDbOp ℚ Nat) :=
  (List.range 51).map (fun i => .addSlot i ⟨i, 10 + i⟩) ++ [.addSlot 51 ⟨-10, -10⟩, .addSlot 52 ⟨-5, -30⟩]

/-- A search with as many slots as the limit, and with one more. -/
theorem find_in_rect_scan_edge : ∃ db, (panDbSystem (worldEnv .flat).toPanDbEnv).Reachable db ∧
    (inRectSlots db ⟨⟨-10, -30⟩, ⟨48, 100⟩⟩).ncard = 50 ∧
    RectScan (worldEnv .flat) db (fun log _ _ _ => (some 0, log)) ⟨⟨-10, -30⟩, ⟨48, 100⟩⟩ 50 (-1) ∧
    RectScan (worldEnv .flat) db (fun log _ _ _ => (some 0, log)) ⟨⟨-10, -30⟩, ⟨48, 100⟩⟩ 49 (-1) := by
  obtain ⟨db, hr, hp⟩ := reached_of_exec .flat splitSlots (fun db =>
    zoneFits (worldEnv .flat) db ⟨⟨-10, -30⟩, ⟨48, 100⟩⟩ &&
      decide ((rectKeys (worldEnv .flat) db ⟨⟨-10, -30⟩, ⟨48, 100⟩⟩).length = 50)) (by decide +kernel)
  obtain ⟨hfits, hfifty⟩ := Bool.and_eq_true_iff.1 hp
  obtain ⟨pos, cell, h⟩ := panDb_reachable_stable hr
  refine ⟨db, hr, ((rectKeys_spec h _).length hfits).symm.trans (of_decide_eq_true hfifty),
    (find_in_rect_scan_iff hr rfl (.inl rfl) (by decide) _ (by norm_num)).2 (.inl hfits),
    (find_in_rect_scan_iff hr rfl (.inl rfl) (by decide) _ (by norm_num)).2 (.inr ?_)⟩
  rw [of_decide_eq_true hfifty]
  decide

/-! ## Whether the stack has room -/

section
variable {D κ : Type}

theorem append_full_right {a b : Trace D κ} (h : b.fits = false) : (a.append b).fits = false := by
  cases ha : a.fits with
  | true => rw [Trace.append_of_fits ha, h]
  | false => rw [Trace.append_of_full ha, ha]

theorem append_fits {a b : Trace D κ} (ha : a.fits = true) (hb : b.fits = true) : (a.append b).fits = true := by
  rw [Trace.append_of_fits ha, hb]

theorem pendingTrace_cons_full {trace : Nat → Fin 4 → Trace D κ} {height : Nat} {t : Fin 4} {ts : List (Fin 4)}
    (h : (trace (height + ts.length) t).fits = false) : (pendingTrace trace height (t :: ts)).fits = false := by
  rw [pendingTrace, Trace.append_of_full h, h]

theorem pendingTrace_snoc_full {trace : Nat → Fin 4 → Trace D κ} {height : Nat} {t : Fin 4}
    (h : (trace height t).fits = false) : ∀ ts : List (Fin 4), (pendingTrace trace height (ts ++ [t])).fits = false
  | [] => pendingTrace_cons_full h
  | u :: ts => by
    rw [List.cons_append, pendingTrace]
    exact append_full_right (pendingTrace_snoc_full h ts)

theorem pendingTrace_fits {trace : Nat → Fin 4 → Trace D κ} {height : Nat} : ∀ {ts : List (Fin 4)},
    (∀ t ∈ ts, ∀ n < ts.length, (trace (height + n) t).fits = true) → (pendingTrace trace height ts).fits = true
  | [], _ => rfl
  | t :: ts, h => by
    rw [pendingTrace]
    refine append_fits (h t List.mem_cons_self _ (by simp)) (pendingTrace_fits (fun u hu n hn => ?_))
    exact h u (List.mem_cons_of_mem t hu) n (by rw [List.length_cons]; omega)

variable [LinearOrder D] {env : PanDbEnv D κ} {db : PanDB D κ} {zone : Rectangle2D D}

theorem childrenTrace_fits {q : QuadNode} {qrects : Fin 4 → Rectangle2D D} : ∀ {height : Nat} {ts : List (Fin 4)},
    (∀ t ∈ ts, ∃ n, db.nodes.cells (q.nodes t) = some n) →
    ((∃ t ∈ ts, isPending db zone (q.nodes t) (qrects t) = true) → height + ts.length ≤ SEARCH_STACK_ROOM) →
    (childrenTrace env db zone q qrects height ts).fits = true
  | _, [], _, _ => rfl
  | height, t :: ts, hnodes, hroom => by
    have hrest : ∀ u ∈ ts, ∃ n, db.nodes.cells (q.nodes u) = some n := fun u hu => hnodes u (List.mem_cons_of_mem t hu)
    rw [childrenTrace]
    split
    · rename_i hpending
      have hle := hroom ⟨t, List.mem_cons_self, hpending⟩
      rw [List.length_cons] at hle
      rw [if_pos (by omega)]
      exact childrenTrace_fits hrest (fun _ => by omega)
    · refine append_fits ?_ (childrenTrace_fits hrest (fun hsome => ?_))
      · obtain ⟨n, hn⟩ := hnodes t List.mem_cons_self
        unfold childTrace
        split
        · rfl
        · rw [hn]
          cases n <;> rfl
      · obtain ⟨u, hu, hpending⟩ := hsome
        have hle := hroom ⟨u, List.mem_cons_of_mem t hu, hpending⟩
        rw [List.length_cons] at hle
        omega

/-- **The stack has room below a node** of a tree that is not too deep. -/
theorem nodeTrace_fits {pos : κ → Option (Position2D D)} {cell : Nat → Rectangle2D D} (h : Stable env db pos cell)
    (hmax : QuadsWithin env db 56) (zone : Rectangle2D D) : ∀ (fuel : Nat) {height depth node : Nat}
    {rect : Rectangle2D D} {q : QuadNode}, NodeAt env db depth node rect → db.quadNode node = some q →
    height ≤ 3 * depth → db.nodes.brk < node + fuel → (nodeTrace env db zone fuel height node rect).fits = true
  | 0, _, _, node, _, q, _, hq, _, hfuel => by
    have hlt := Lib.Heap.lt_brk (quadNode_eq_some.1 hq)
    omega
  | fuel + 1, height, depth, node, rect, q, hnode, hq, hheight, hfuel => by
    have hchild : ∀ t, NodeAt env db (depth + 1) (q.nodes t) (getQrectsFromQbounds env.midpoint rect t) :=
      fun t => hnode.child t hq
    have hquad : ∀ t, isPending db zone (q.nodes t) (getQrectsFromQbounds env.midpoint rect t) = true →
        ∃ q', db.quadNode (q.nodes t) = some q' := fun t ht => by
      rw [isPending, Bool.and_eq_true] at ht
      exact Option.isSome_iff_exists.1 ht.2
    rw [nodeTrace, hq]
    refine append_fits (childrenTrace_fits (fun t _ => (hchild t).exists_node h) ?_) (pendingTrace_fits ?_)
    · rintro ⟨t, -, ht⟩
      obtain ⟨q', hq'⟩ := hquad t ht
      have hdeep := hmax _ _ _ _ (hchild t) hq'
      simp only [List.length_cons, List.length_nil]
      rw [SEARCH_STACK_ROOM]
      omega
    · intro t ht n hn
      rw [List.mem_reverse, List.mem_filter] at ht
      obtain ⟨q', hq'⟩ := hquad t ht.2
      have hlt := ((h.shape.child _ _ _ (shape_of_cells (quadNode_eq_some.1 hq))) t).1
      have hle := List.length_filter_le (fun t => isPending db zone (q.nodes t)
        (getQrectsFromQbounds env.midpoint rect t)) [0, 1, 2, 3]
      rw [List.length_reverse] at hn
      simp only [List.length_cons, List.length_nil] at hle
      exact nodeTrace_fits h hmax zone fuel (hchild t) hq' (by omega) (by omega)

end

omit [IsStrictOrderedRing D] in
/-- **The stack has room in a tree whose quad nodes are at most 56 levels down.** -/
theorem zoneFits_of_quadsWithin [DecidableEq κ] {env : SearchEnv D κ} {db : PanDB D κ}
    (hr : (panDbSystem env.toPanDbEnv).Reachable db) (hmax : QuadsWithin env.toPanDbEnv db 56) (zone : Rectangle2D D) :
    zoneFits env db zone = true := by
  obtain ⟨pos, cell, h⟩ := panDb_reachable_stable hr
  obtain ⟨nodes, hroot⟩ := h.shape.rootNode
  obtain ⟨q, hq, -⟩ := quadNode_of_shape hroot
  exact nodeTrace_fits h hmax zone _ .root (quadNode_eq_some.2 hq) (Nat.zero_le _) (by omega)

/-! ## A tree that is too deep -/

theorem le_halfway {lo hi : ℚ} (h : lo ≤ hi) : lo ≤ (lo + hi) / 2 := by linarith

theorem halfway_le {lo hi : ℚ} (h : lo ≤ hi) : (lo + hi) / 2 ≤ hi := by linarith

def halfway : Midpoint ℚ := ⟨fun lo hi => (lo + hi) / 2, le_halfway, halfway_le⟩

theorem exactMidpoint_halfway : ExactMidpoint halfway := fun _ _ => rfl

theorem worldBounds_le : (worldBounds : Rectangle2D ℚ).edge0.latitude ≤ worldBounds.edge1.latitude ∧
    (worldBounds : Rectangle2D ℚ).edge0.longitude ≤ worldBounds.edge1.longitude := by
  norm_num [worldBounds]

theorem bucketSize_fifty : 0 < 50 := Nat.succ_pos 49

theorem slots_perm {κ : Type} (entries : List (Nat × Slot ℚ κ)) : entries.Perm entries := .refl entries

/-- The layers of the program, with an accuracy that is far smaller. -/
def fineEnv (κ : Type) : SearchEnv ℚ κ where
  qbounds := worldBounds
  latitudeAccuracy := 1 / 2 ^ 60
  longitudeAccuracy := 1 / 2 ^ 60
  bucketSize := 50
  midpoint := halfway
  order := fun entries => entries
  latitude_le := worldBounds_le.1
  longitude_le := worldBounds_le.2
  bucketSize_pos := bucketSize_fifty
  order_perm := slots_perm
  layerType := .flat
  accuracy := .fast
  cosf := fun _ => 1
  vincentyDistanceBetweenGeoidalPositions := fun _ _ => 0
  hsDistanceBetweenGeoidalPositions := fun _ _ => 0
  gcDistanceBetweenGeoidalPositions := fun _ _ => 0

/-- The cells south-east of the point where the equator meets the meridian. -/
def cornerCell (i : Nat) : Rectangle2D ℚ := ⟨⟨-(90 / 2 ^ i), 0⟩, ⟨0, 180 / 2 ^ i⟩⟩

/-- A quarter of such a cell. -/
def cornerPart (i : Nat) (t : Fin 4) : Rectangle2D ℚ := getQrectsFromQbounds halfway (cornerCell i) t

theorem cornerCell_zero : getQrectsFromQbounds halfway worldBounds 0 = cornerCell 0 := by
  change (⟨⟨-90, (-180 + 180) / 2⟩, ⟨(-90 + 90) / 2, 180⟩⟩ : Rectangle2D ℚ) = cornerCell 0
  norm_num [cornerCell]

theorem cornerPart_three (i : Nat) : cornerPart i 3 = cornerCell (i + 1) := by
  change (⟨⟨(-(90 / 2 ^ i) + 0) / 2, 0⟩, ⟨0, (0 + 180 / 2 ^ i) / 2⟩⟩ : Rectangle2D ℚ) = cornerCell (i + 1)
  rw [cornerCell, pow_succ]
  congr 2 <;> ring

theorem isInRect_cornerPart (i : Nat) (t : Fin 4) : positionIsInRect (cornerPart i t).edge0 (cornerPart i t) := by
  obtain ⟨hlat, hlon⟩ := extent_getQrects exactMidpoint_halfway (cornerCell i) t
  have hpos : (0 : ℚ) < 2 ^ i := by positivity
  have hheight : (0 : ℚ) < (cornerCell i).edge1.latitude - (cornerCell i).edge0.latitude := by
    simp only [cornerCell]
    have := div_pos (show (0 : ℚ) < 90 by norm_num) hpos
    linarith
  have hwidth : (0 : ℚ) < (cornerCell i).edge1.longitude - (cornerCell i).edge0.longitude := by
    simp only [cornerCell]
    have := div_pos (show (0 : ℚ) < 180 by norm_num) hpos
    linarith
  rw [← hlat] at hheight
  rw [← hlon] at hwidth
  unfold cornerPart
  exact ⟨le_rfl, le_rfl, by linarith, by linarith⟩

theorem ordered_cornerCell (i : Nat) : (cornerCell i).Ordered := by
  have hpos : (0 : ℚ) < 2 ^ i := by positivity
  refine ⟨?_, ?_⟩
  · exact neg_nonpos.2 (by positivity)
  · exact le_of_lt (div_pos (by norm_num) hpos)

theorem isInRect_cornerCell (i : Nat) (t : Fin 4) : positionIsInRect (cornerPart i t).edge0 (cornerCell i) :=
  isInRect_of_getQrects (ordered_cornerCell i) (isInRect_cornerPart i t)

theorem isInRect_world_of_corner {i : Nat} {position : Position2D ℚ} (h : positionIsInRect position (cornerCell i)) :
    positionIsInRect position worldBounds := by
  obtain ⟨hlow, hleft, hhigh, hright⟩ := h
  have hone : (1 : ℚ) ≤ 2 ^ i := one_le_pow₀ (by norm_num)
  have hlat : (90 : ℚ) / 2 ^ i ≤ 90 := div_le_self (by norm_num) hone
  have hlon : (180 : ℚ) / 2 ^ i ≤ 180 := div_le_self (by norm_num) hone
  simp only [cornerCell] at hlow hleft hhigh hright
  refine ⟨?_, ?_, ?_, ?_⟩ <;> simp only [worldBounds] <;> linarith

/-- A level, a quarter, and the number of a slot. -/
abbrev CornerKey : Type := Nat × Fin 4 × Nat

def cornerPosition (k : CornerKey) : Position2D ℚ := (cornerPart k.1 k.2.1).edge0

/-- Some slots in each quarter of the first cells. -/
def cornerKeys (levels slots : Nat) : Finset CornerKey := Finset.range levels ×ˢ Finset.univ ×ˢ Finset.range slots

theorem mem_cornerKeys {levels slots i j : Nat} {t : Fin 4} :
    (i, t, j) ∈ cornerKeys levels slots ↔ i < levels ∧ j < slots := by
  simp only [cornerKeys, Finset.mem_product, Finset.mem_range, Finset.mem_univ, true_and]

/-- A tree with these slots. -/
def CornerTree (levels slots : Nat) (db : PanDB ℚ CornerKey) : Prop :=
  (panDbSystem (fineEnv CornerKey).toPanDbEnv).Reachable db ∧
    db.position = fun k => if k ∈ cornerKeys levels slots then some (cornerPosition k) else none

section
variable {levels slots : Nat} {db : PanDB ℚ CornerKey}

theorem CornerTree.position_eq (h : CornerTree levels slots db) (k : CornerKey) :
    db.position k = if k ∈ cornerKeys levels slots then some (cornerPosition k) else none := congrFun h.2 k

theorem CornerTree.finite (h : CornerTree levels slots db) (rect : Rectangle2D ℚ) :
    (keysIn db.position rect).Finite := by
  refine (Finset.finite_toSet (cornerKeys levels slots)).subset (fun k ⟨p, hp, _⟩ => ?_)
  rw [Finset.mem_coe]
  by_contra hk
  rw [h.position_eq, if_neg hk] at hp
  cases hp

theorem CornerTree.many (h : CornerTree levels slots db) {rect : Rectangle2D ℚ} {i : Nat} (hi : i < levels) (t : Fin 4)
    (hin : positionIsInRect (cornerPart i t).edge0 rect) : slots ≤ (keysIn db.position rect).ncard := by
  have himage : (fun j => ((i, t, j) : CornerKey)) '' (Finset.range slots : Set Nat) ⊆ keysIn db.position rect := by
    rintro k ⟨j, hj, rfl⟩
    have hmem : ((i, t, j) : CornerKey) ∈ cornerKeys levels slots := mem_cornerKeys.2 ⟨hi, Finset.mem_range.1 hj⟩
    exact ⟨_, (h.position_eq _).trans (if_pos hmem), hin⟩
  have hinj : Function.Injective (fun j => ((i, t, j) : CornerKey)) := fun j j' h => by simpa using h
  calc slots = ((fun j => ((i, t, j) : CornerKey)) '' (Finset.range slots : Set Nat)).ncard := by
        rw [Set.ncard_image_of_injective _ hinj, Set.ncard_coe_finset, Finset.card_range]
    _ ≤ (keysIn db.position rect).ncard := Set.ncard_le_ncard himage (h.finite rect)

/-- The nodes along the corner, and their quarters, are quad nodes. -/
theorem CornerTree.quadNode (h : CornerTree levels slots db) (hslots : 109 < slots) {depth x : Nat}
    {rect : Rectangle2D ℚ} (hnode : NodeAt (fineEnv CornerKey).toPanDbEnv db depth x rect) (hdepth : depth ≤ 59)
    {i : Nat} (hi : i < levels)
    (t : Fin 4) (hin : positionIsInRect (cornerPart i t).edge0 rect) : (db.quadNode x).isSome = true := by
  obtain ⟨hlat, hlon⟩ := hnode.extent exactMidpoint_halfway
  have hpow : (0 : ℚ) < 2 ^ depth := by positivity
  have hle : (2 : ℚ) ^ depth ≤ 2 ^ 60 := pow_le_pow_right₀ one_le_two (by omega)
  have hone : (2 : ℚ) ^ depth * (1 / 2 ^ 60) ≤ 1 := by
    rw [mul_one_div]
    exact (div_le_one (by positivity)).2 hle
  refine hnode.quadNode_of_lt exactMidpoint_halfway ?_ h.1 ⟨?_, ?_⟩ ?_
  · norm_num [fineEnv, worldBounds, Rectangle2D.height]
  · refine le_of_mul_le_mul_left (hone.trans ?_) hpow
    rw [hlat]
    norm_num [fineEnv, worldBounds]
  · refine le_of_mul_le_mul_left (hone.trans ?_) hpow
    rw [hlon]
    norm_num [fineEnv, worldBounds]
  · have hmany := h.many hi t hin
    change 50 + depth < _
    omega

/-- The quarters of a node along the corner wait. -/
theorem CornerTree.pending (h : CornerTree levels slots db) (hslots : 109 < slots) {i x : Nat} {q : QuadNode}
    (hi : i < 58) (hlevels : i < levels) (hnode : NodeAt (fineEnv CornerKey).toPanDbEnv db (i + 1) x (cornerCell i))
    (hq : db.quadNode x = some q) (t : Fin 4) : isPending db worldBounds (q.nodes t) (cornerPart i t) = true := by
  have hin := isInRect_cornerPart i t
  have hquad := h.quadNode hslots (hnode.child t hq) (by omega) hlevels t hin
  rw [isPending, hquad, Bool.and_true, decide_eq_true_eq]
  exact intersect_of_isInRect hin (isInRect_world_of_corner (isInRect_cornerCell i t))

/-- **The walk along the corner has no room**: three quarters of each cell wait. -/
theorem CornerTree.nodeTrace_full (h : CornerTree 58 slots db) (hslots : 109 < slots) : ∀ (n : Nat) {i : Nat},
    i + n = 57 → ∀ {fuel height x : Nat}, NodeAt (fineEnv CornerKey).toPanDbEnv db (i + 1) x (cornerCell i) →
    3 * i ≤ height →
    (nodeTrace (fineEnv CornerKey).toPanDbEnv db worldBounds fuel height x (cornerCell i)).fits = false
  | _, _, _, 0, _, _, _, _ => rfl
  | n, i, hn, fuel + 1, height, x, hnode, hheight => by
    have hquad := h.quadNode hslots hnode (by omega) (show i < 58 by omega) 0 (isInRect_cornerCell i 0)
    obtain ⟨q, hq⟩ := Option.isSome_iff_exists.1 hquad
    have hpending := h.pending hslots (show i < 58 by omega) (by omega) hnode hq
    rw [nodeTrace, hq]
    change (Trace.append _ _).fits = false
    cases n with
    | zero =>
      -- the first quarter finds no room
      have hfull : (childrenTrace (fineEnv CornerKey).toPanDbEnv db worldBounds q (cornerPart i) height
          [0, 1, 2, 3]).fits = false := by
        rw [childrenTrace, if_pos (hpending 0), if_neg (by rw [SEARCH_STACK_ROOM]; omega)]
      rw [show getQrectsFromQbounds (fineEnv CornerKey).toPanDbEnv.midpoint (cornerCell i) = cornerPart i from rfl,
        Trace.append_of_full hfull, hfull]
    | succ n =>
      refine append_full_right ?_
      rw [show getQrectsFromQbounds (fineEnv CornerKey).toPanDbEnv.midpoint (cornerCell i) = cornerPart i from rfl,
        List.filter_eq_self.2 (fun t _ => hpending t)]
      refine pendingTrace_cons_full ?_
      have hchild := hnode.child 3 hq
      rw [show getQrectsFromQbounds (fineEnv CornerKey).toPanDbEnv.midpoint (cornerCell i) 3 = cornerCell (i + 1) from
        cornerPart_three i] at hchild
      rw [cornerPart_three]
      refine CornerTree.nodeTrace_full h hslots n (by omega) hchild ?_
      simp only [List.length_cons, List.length_nil]
      omega

/-- The search in the whole world runs out of room. -/
theorem CornerTree.zoneFits (h : CornerTree 58 slots db) (hslots : 109 < slots) :
    zoneFits (fineEnv CornerKey) db worldBounds = false := by
  obtain ⟨pos, cell, hs⟩ := panDb_reachable_stable h.1
  obtain ⟨nodes, hroot⟩ := hs.shape.rootNode
  obtain ⟨q, hq, -⟩ := quadNode_of_shape hroot
  have hpart : getQrectsFromQbounds halfway worldBounds 0 = cornerCell 0 := cornerCell_zero
  have hroot' : NodeAt (fineEnv CornerKey).toPanDbEnv db 0 db.root worldBounds := .root
  have hnode : NodeAt (fineEnv CornerKey).toPanDbEnv db 1 (q.nodes 0) (cornerCell 0) :=
    hpart ▸ hroot'.child 0 (quadNode_eq_some.2 hq)
  have hin := isInRect_cornerCell 0 0
  have hpending : isPending db worldBounds (q.nodes 0) (getQrectsFromQbounds halfway worldBounds 0) = true := by
    rw [hpart, isPending, h.quadNode hslots hnode (by omega) (show 0 < 58 by omega) 0 hin, Bool.and_true,
      decide_eq_true_eq]
    exact intersect_of_isInRect hin (isInRect_world_of_corner hin)
  change (nodeTrace (fineEnv CornerKey).toPanDbEnv db worldBounds (db.nodes.brk + 1) 0 db.root worldBounds).fits = false
  rw [nodeTrace, quadNode_eq_some.2 hq]
  refine append_full_right ?_
  change (pendingTrace _ 0 ([0, 1, 2, 3].filter (fun t => isPending db worldBounds (q.nodes t)
    (getQrectsFromQbounds halfway worldBounds t))).reverse).fits = false
  rw [List.filter_cons_of_pos (by exact hpending), List.reverse_cons]
  refine pendingTrace_snoc_full ?_ _
  change (nodeTrace _ db worldBounds _ 0 (q.nodes 0) (getQrectsFromQbounds halfway worldBounds 0)).fits = false
  rw [hpart]
  exact h.nodeTrace_full hslots 57 rfl hnode (Nat.zero_le _)

theorem CornerTree.ncard_le (h : CornerTree levels slots db) (rect : Rectangle2D ℚ) :
    (inRectSlots db rect).ncard ≤ levels * (4 * slots) := by
  have hsub : inRectSlots db rect ⊆ (cornerKeys levels slots : Set CornerKey) := fun k ⟨p, hp, _⟩ => by
    rw [Finset.mem_coe]
    by_contra hk
    rw [h.position_eq, if_neg hk] at hp
    cases hp
  calc (inRectSlots db rect).ncard ≤ (cornerKeys levels slots : Set CornerKey).ncard :=
        Set.ncard_le_ncard hsub (Finset.finite_toSet _)
    _ = levels * (4 * slots) := by
        rw [Set.ncard_coe_finset, cornerKeys, Finset.card_product, Finset.card_product, Finset.card_range,
          Finset.card_range, Finset.card_univ, Fintype.card_fin]

end

/-- **The search of a deep tree is no scan**: the stack has no room, with fewer slots than the limit. -/
theorem find_in_rect_scan_overflow : ∃ db, CornerTree 58 110 db ∧
    ¬ RectScan (fineEnv CornerKey) db (fun log _ _ _ => (some 0, log)) worldBounds (58 * (4 * 110)) (-1) := by
  have hin : ∀ k, positionIsInRect (cornerPosition k) (fineEnv CornerKey).qbounds := fun k =>
    isInRect_world_of_corner (isInRect_cornerCell k.1 k.2.1)
  obtain ⟨db, hr, hposition⟩ := exists_reachable (fineEnv CornerKey).toPanDbEnv cornerPosition hin (cornerKeys 58 110)
  have htree : CornerTree 58 110 db := ⟨hr, hposition⟩
  refine ⟨db, htree, fun hscan => ?_⟩
  obtain ⟨pos, cell, h⟩ := panDb_reachable_stable hr
  have hle := htree.ncard_le worldBounds
  have hkeys : (rectKeys (fineEnv CornerKey) db worldBounds).length ≤ 58 * (4 * 110) :=
    (length_rectKeys_le h worldBounds).trans hle
  have hret := (hscan.1 hle).1
  rw [findInRect_unwrapped h rfl (.inl rfl) (by norm_num) _ (by norm_num), zoneStep,
    decide_eq_false (Nat.not_lt.2 hkeys), if_neg Bool.false_ne_true, htree.zoneFits (by norm_num),
    if_neg Bool.false_ne_true] at hret
  cases hret

end Pincaster
