import Pincaster.Lib.Binary32
import Pincaster.SearchLaws
import Mathlib.Tactic.Positivity
/-!
# SearchClusters — rectangle searches with clusters

A search with clusters reports the key nodes of slots, and cells with many slots as a whole.  A cell whose centre, as it is
computed, does not lie in it is passed over.  On a flat layer what a search has reported when it comes to its end covers
every slot of the rectangle that is in no such cell, once (`clustered_search_covers`).  The coordinates are any numbers,
rounded ones too; with exact ones no cell is passed over.
-/
namespace Pincaster

open Lib (Binary32)

variable {D κ : Type}

/-! ## Reports -/

/-- What the callbacks of a search have been called with. -/
structure Report (D κ : Type) where
  keys : List κ
  clusters : List (Position2D D × Meters D × Nat)

def reportCb (report : Report D κ) (slot : Slot D κ) (_ : Meters D) : Option Int × Report D κ :=
  (some 0, { report with keys := report.keys ++ slot.keyNode.toList })

def reportClusterCb (report : Report D κ) (center : Position2D D) (radius : Meters D) (children : Nat) :
    Option Int × Report D κ :=
  (some 0, { report with clusters := report.clusters ++ [(center, radius, children)] })

section
variable [Add D] [Sub D] [Neg D] [Div D] [Zero D] [NatCast D] [LinearOrder D]

/-- The cluster of a rectangle of a flat layer with some slots. -/
def clusterOf (rect : Rectangle2D D) (children : Nat) : Position2D D × Meters D × Nat :=
  (rectCenter rect, .ofDimension ((fabsf ((rectCenter rect).latitude - rect.edge0.latitude) +
    fabsf ((rectCenter rect).longitude - rect.edge0.longitude)) / 2), children)

/-- The centre of a rectangle, as it is computed, lies in it. -/
def Centred (rect : Rectangle2D D) : Prop := positionIsInRect (rectCenter rect) rect

instance (rect : Rectangle2D D) : Decidable (Centred rect) := inferInstanceAs (Decidable (positionIsInRect _ _))

/-- The sides of a rectangle are shorter than `epsilon`. -/
def SmallCell (epsilon : D) (rect : Rectangle2D D) : Prop :=
  fabsf (rect.edge1.latitude - rect.edge0.latitude) < epsilon ∧
    fabsf (rect.edge1.longitude - rect.edge0.longitude) < epsilon

end

/-! ## What is covered -/

section
variable [LinearOrder D] {env : PanDbEnv D κ} {db : PanDB D κ} {pos : κ → Option (Position2D D)} {zone : Rectangle2D D}
  {region region' : Position2D D → Prop} {keys keys' : List κ} {cells cells' : List (QuadNode × Rectangle2D D)}

/-- **The slots of a region that lie in a zone are covered**: by their key nodes, or by the cells of quad nodes, and by one
of these only. -/
structure Covers (env : PanDbEnv D κ) (db : PanDB D κ) (pos : κ → Option (Position2D D)) (zone : Rectangle2D D)
    (region : Position2D D → Prop) (keys : List κ) (cells : List (QuadNode × Rectangle2D D)) : Prop where
  nodup : keys.Nodup
  key : ∀ k ∈ keys, ∃ p, pos k = some p ∧ region p ∧ positionIsInRect p zone ∧ ∀ c ∈ cells, ¬ positionIsInRect p c.2
  cell : ∀ c ∈ cells, (∃ a, db.quadNode a = some c.1 ∧ CellOf env db a c.2) ∧ ∀ p, positionIsInRect p c.2 → region p
  disjoint : cells.Pairwise (fun c c' => ∀ p, positionIsInRect p c.2 → ¬ positionIsInRect p c'.2)
  all : ∀ k p, pos k = some p → region p → positionIsInRect p zone → k ∈ keys ∨ ∃ c ∈ cells, positionIsInRect p c.2

theorem Covers.empty (h : ∀ k p, pos k = some p → region p → ¬ positionIsInRect p zone) :
    Covers env db pos zone region [] [] :=
  ⟨List.nodup_nil, fun _ hk => absurd hk List.not_mem_nil, fun _ hc => absurd hc List.not_mem_nil, List.Pairwise.nil,
    fun k p hp hregion hzone => absurd hzone (h k p hp hregion)⟩

/-- Two regions that share no position. -/
theorem Covers.append (h : Covers env db pos zone region keys cells) (h' : Covers env db pos zone region' keys' cells')
    (hdisjoint : ∀ p, region p → ¬ region' p) :
    Covers env db pos zone (fun p => region p ∨ region' p) (keys ++ keys') (cells ++ cells') := by
  refine ⟨?_, fun k hk => ?_, fun c hc => ?_, ?_, fun k p hp hregion hzone => ?_⟩
  · refine List.nodup_append.2 ⟨h.nodup, h'.nodup, fun k hk k' hk' heq => ?_⟩
    obtain ⟨p, hp, hregion, -⟩ := h.key k hk
    obtain ⟨p', hp', hregion', -⟩ := h'.key k' hk'
    rw [heq, hp', Option.some.injEq] at hp
    exact hdisjoint p hregion (hp ▸ hregion')
  · rcases List.mem_append.1 hk with hk | hk
    · obtain ⟨p, hp, hregion, hzone, hno⟩ := h.key k hk
      refine ⟨p, hp, .inl hregion, hzone, fun c hc hin => ?_⟩
      rcases List.mem_append.1 hc with hc | hc
      · exact hno c hc hin
      · exact hdisjoint p hregion ((h'.cell c hc).2 p hin)
    · obtain ⟨p, hp, hregion, hzone, hno⟩ := h'.key k hk
      refine ⟨p, hp, .inr hregion, hzone, fun c hc hin => ?_⟩
      rcases List.mem_append.1 hc with hc | hc
      · exact hdisjoint p ((h.cell c hc).2 p hin) hregion
      · exact hno c hc hin
  · rcases List.mem_append.1 hc with hc | hc
    · exact ⟨(h.cell c hc).1, fun p hp => .inl ((h.cell c hc).2 p hp)⟩
    · exact ⟨(h'.cell c hc).1, fun p hp => .inr ((h'.cell c hc).2 p hp)⟩
  · refine List.pairwise_append.2 ⟨h.disjoint, h'.disjoint, fun c hc c' hc' p hin hin' => ?_⟩
    exact hdisjoint p ((h.cell c hc).2 p hin) ((h'.cell c' hc').2 p hin')
  · rcases hregion with hregion | hregion
    · rcases h.all k p hp hregion hzone with hk | ⟨c, hc, hin⟩
      · exact .inl (List.mem_append_left _ hk)
      · exact .inr ⟨c, List.mem_append_left _ hc, hin⟩
    · rcases h'.all k p hp hregion hzone with hk | ⟨c, hc, hin⟩
      · exact .inl (List.mem_append_right _ hk)
      · exact .inr ⟨c, List.mem_append_right _ hc, hin⟩

theorem Covers.congr (h : Covers env db pos zone region keys cells) (hregion : ∀ p, region p ↔ region' p) :
    Covers env db pos zone region' keys cells := by
  rwa [← funext (fun p => propext (hregion p))]

end

/-! ## The children of a cluster -/

section
variable [LinearOrder D] {env : PanDbEnv D κ} {db : PanDB D κ} {pos : κ → Option (Position2D D)}
  {cell : Nat → Rectangle2D D}

/-- A bucket that shares a position with a node is below it. -/
theorem CellBelow.below_of_isInRect {env : PanDbEnv D κ} {r a x : Nat} {top rect rect' : Rectangle2D D}
    (h : CellBelow env db r top a rect) (htop : top.Ordered) {b : BucketNode D κ} (hb : db.bucketNode x = some b)
    (hx : CellBelow env db r top x rect') {position : Position2D D} (hin : positionIsInRect position rect)
    (hin' : positionIsInRect position rect') : CellBelow env db a rect x rect' := by
  induction h with
  | refl => exact hx
  | @child r a top rect q t hq hbelow ih =>
    cases hx with
    | refl =>
      rw [quadNode_eq_some, bucketNode_eq_some.1 hb] at hq
      cases hq
    | @child _ _ _ _ q' u hq' hbelow' =>
      rw [hq, Option.some.injEq] at hq'
      subst hq'
      have hto := fun v => ordered_getQrects env.midpoint htop v
      have htu := getQrects_disjoint (hbelow.isInRect (hto t) hin) (hbelow'.isInRect (hto u) hin')
      subst htu
      exact ih (hto t) hbelow' hin

theorem cell_of_cellBelow {env : PanDbEnv D κ} (h : Stable env db pos cell) {r x : Nat} {top rect : Rectangle2D D}
    (hbelow : CellBelow env db r top x rect) (htop : top = cell r) : rect = cell x := by
  induction hbelow with
  | refl => exact htop
  | @child r x top rect q t hq _ ih =>
    obtain ⟨-, -, hrect, -⟩ := h.shape.child r _ _ (shape_of_cells (quadNode_eq_some.1 hq)) t
    exact ih (by rw [htop, hrect])

/-- **A quad node counts the slots in its cell.** -/
theorem ncard_inRectSlots {env : PanDbEnv D κ} (h : Stable env db pos cell) {a : Nat} {q : QuadNode}
    {rect : Rectangle2D D} (hq : db.quadNode a = some q) (hcell : CellOf env db a rect) :
    (inRectSlots db rect).ncard = q.subSlots := by
  classical
  have hrect : rect = cell a := cell_of_cellBelow h hcell h.shape.rootCell.symm
  have hbrk := Lib.Heap.lt_brk (quadNode_eq_some.1 hq)
  obtain ⟨hlen, hnodup, hbelow⟩ := slotsBelow_spec h (db.nodes.brk + 1) a _ (by omega) (quadNode_eq_some.1 hq)
  have himage : db.slots '' inRectSlots db rect =
      ((((db.slotsBelow (db.nodes.brk + 1) a).map Prod.fst).map some).toFinset : Set (Option SlotPtr)) := by
    ext o
    simp only [Set.mem_image, Finset.mem_coe, List.mem_toFinset, List.map_map, List.mem_map, Function.comp]
    constructor
    · rintro ⟨k, ⟨p, hp, hin⟩, rfl⟩
      obtain ⟨ptr, b, slot, hslot, hb, hmem, -, -, hin'⟩ := exists_slot h (position_of_stable h ▸ hp)
      have hx := hcell.below_of_isInRect ⟨env.latitude_le, env.longitude_le⟩ hb
        (cellOf_of_stable h _ _ (bucketNode_eq_some.1 hb)) hin hin'
      exact ⟨_, mem_slotsBelow h hx hb hmem (db.nodes.brk + 1) (by omega), hslot.symm⟩
    · rintro ⟨⟨ptr, slot⟩, hmem, rfl⟩
      obtain ⟨hslot, hin⟩ := hbelow _ hmem
      obtain ⟨-, k, hk, hback⟩ := (law_of_stable h).slot_back ptr slot hslot
      refine ⟨k, ⟨slot.position, ?_, hrect ▸ hin⟩, hback⟩
      rw [PanDB.position, hback, Option.bind_some, hslot]
      rfl
  have hinj : Set.InjOn db.slots (inRectSlots db rect) := by
    rintro k ⟨p, hp, -⟩ k' ⟨p', hp', -⟩ heq
    obtain ⟨ptr, -, -, hslot, -⟩ := exists_slot h (position_of_stable h ▸ hp)
    exact h.located.key_unique (fun hf => hf) (fun hf => hf) hslot (heq ▸ hslot)
  rw [← hinj.ncard_image, himage, Set.ncard_coe_finset,
    List.toFinset_card_of_nodup (hnodup.map (Option.some_injective _)), List.length_map, List.length_map, hlen]
  rfl

end

/-! ## A walk with clusters -/

section
variable [Add D] [Sub D] [Neg D] [Mul D] [Div D] [Zero D] [NatCast D] [LinearOrder D]

/-- What a part of a walk reports: of the quad nodes that are not entered, those whose centre lies in them. -/
def Reports (env : PanDbEnv D κ) (db : PanDB D κ) (pos : κ → Option (Position2D D)) (zone : Rectangle2D D) (epsilon : D)
    (region : Position2D D → Prop) (report report' : Report D κ) : Prop :=
  ∃ keys cells, report'.keys = report.keys ++ keys ∧
    report'.clusters = report.clusters ++
      (cells.filter (fun c => Centred c.2)).map (fun c => clusterOf c.2 (c.1.subSlots % 2 ^ 32)) ∧
    (∀ c ∈ cells, 0 < c.1.subSlots ∧ SmallCell epsilon c.2) ∧ Covers env db pos zone region keys cells

section
variable {env : SearchEnv D κ} {db : PanDB D κ} {pos : κ → Option (Position2D D)} {cell : Nat → Rectangle2D D}
  {zone : Rectangle2D D} {region region' : Position2D D → Prop} {epsilon : D}

omit [Mul D] in
theorem Reports.refl (h : ∀ k p, pos k = some p → region p → ¬ positionIsInRect p zone) (report : Report D κ) :
    Reports env.toPanDbEnv db pos zone epsilon region report report :=
  ⟨[], [], (List.append_nil _).symm, (List.append_nil _).symm, fun _ hc => absurd hc List.not_mem_nil, .empty h⟩

omit [Mul D] in
theorem Reports.trans {r r' r'' : Report D κ} (h : Reports env.toPanDbEnv db pos zone epsilon region r r')
    (h' : Reports env.toPanDbEnv db pos zone epsilon region' r' r'') (hdisjoint : ∀ p, region p → ¬ region' p) :
    Reports env.toPanDbEnv db pos zone epsilon (fun p => region p ∨ region' p) r r'' := by
  obtain ⟨keys, cells, hkeys, hclusters, hsmall, hcovers⟩ := h
  obtain ⟨keys', cells', hkeys', hclusters', hsmall', hcovers'⟩ := h'
  exact ⟨keys ++ keys', cells ++ cells', by rw [hkeys', hkeys, List.append_assoc],
    by rw [hclusters', hclusters, List.filter_append, List.map_append, List.append_assoc],
    List.forall_mem_append.2 ⟨hsmall, hsmall'⟩, hcovers.append hcovers' hdisjoint⟩

omit [Mul D] in
theorem Reports.congr {r r' : Report D κ} (h : Reports env.toPanDbEnv db pos zone epsilon region r r')
    (hregion : ∀ p, region p ↔ region' p) : Reports env.toPanDbEnv db pos zone epsilon region' r r' := by
  obtain ⟨keys, cells, hkeys, hclusters, hsmall, hcovers⟩ := h
  exact ⟨keys, cells, hkeys, hclusters, hsmall, hcovers.congr hregion⟩

/-- Some slots that are gone through to the end. -/
theorem runSlots_report : ∀ (slots : List (Slot D κ)) (context context' : SearchContext (Report D κ)),
    runSlots (findInRectContextCb env reportCb zone) slots context = (some 0, context') →
    context'.contextCb.keys = context.contextCb.keys ++ keysOf (isInRect zone) slots ∧
      context'.contextCb.clusters = context.contextCb.clusters
  | [], context, context', h => by
    cases h
    exact ⟨(List.append_nil _).symm, rfl⟩
  | slot :: slots, context, context', h => by
    rw [runSlots, findInRectContextCb] at h
    by_cases hin : isInRect zone slot = true
    · rw [if_neg (not_not.2 (of_decide_eq_true hin))] at h
      rw [keysOf_cons_pos hin]
      cases hkey : slot.keyNode with
      | none =>
        simp only [hkey, Option.isSome_none, Bool.false_eq_true, if_false] at h
        rw [proceed_zero] at h
        exact runSlots_report slots context context' h
      | some k =>
        simp only [hkey, Option.isSome_some, if_true] at h
        by_cases hlimit : context.limit ≤ 0
        · rw [if_pos hlimit, proceed_of_ne (by simp)] at h
          cases h
        · rw [if_neg hlimit] at h
          simp only [reportCb, hkey] at h
          rw [proceed_zero] at h
          obtain ⟨hkeys, hclusters⟩ := runSlots_report slots _ context' h
          exact ⟨by rw [hkeys, List.append_assoc], hclusters⟩
    · rw [keysOf_cons_neg hin]
      rw [if_pos (fun h => hin (decide_eq_true h)), proceed_zero] at h
      exact runSlots_report slots context context' h

/-- The slots of a bucket. -/
theorem bucket_reports (h : Stable env.toPanDbEnv db pos cell) {x : Nat} {b : BucketNode D κ}
    (hb : db.bucketNode x = some b) (hmeet : rectangle2dIntersect (cell x) zone)
    {context context' : SearchContext (Report D κ)}
    (hrun : foreachInBucket (findInRectContextCb env reportCb zone) (env.order b.entries) context = (some 0, context')) :
    Reports env.toPanDbEnv db pos zone epsilon (fun p => positionIsInRect p (cell x)) context.contextCb
      context'.contextCb := by
  have hspec := bucket_spec h hb hmeet
  rw [foreachInBucket_eq] at hrun
  obtain ⟨hkeys, hclusters⟩ := runSlots_report _ _ _ hrun
  refine ⟨_, [], hkeys, hclusters.trans (List.append_nil _).symm, fun _ hc => absurd hc List.not_mem_nil,
    hspec.nodup_keysOf _, fun k hk => ?_,
    fun _ hc => absurd hc List.not_mem_nil, List.Pairwise.nil, fun k p hp hin hzone => .inl ?_⟩
  · obtain ⟨s, hs, hkey⟩ := List.mem_filterMap.1 hk
    obtain ⟨hmem, hzone⟩ := List.mem_filter.1 hs
    obtain ⟨k', _, _, _, hk', hpos, -, -, ⟨-, rfl⟩, -, hin⟩ := hspec.slot s hmem
    rw [hkey, Option.some.injEq] at hk'
    exact ⟨s.position, hk' ▸ hpos, hin, of_decide_eq_true hzone, fun _ hc => absurd hc List.not_mem_nil⟩
  · obtain ⟨ptr, b', slot, -, hb', hmem, hkey, rfl, hin'⟩ := exists_slot h hp
    have hx : ptr.bucket = x :=
      (cellOf_of_stable h _ _ (bucketNode_eq_some.1 hb')).unique ⟨env.latitude_le, env.longitude_le⟩ hb' hin'
        (cellOf_of_stable h _ _ (bucketNode_eq_some.1 hb)) hb hin
    rw [hx] at hb'
    exact List.mem_filterMap.2 ⟨slot, List.mem_filter.2 ⟨hspec.all rfl x _ b' ⟨rfl, rfl⟩ hb' hmeet slot
      (List.mem_map_of_mem hmem), decide_eq_true hzone⟩, hkey⟩

/-- **A quad node that is not entered**: it is reported as a cluster when its centre lies in it. -/
theorem cluster_reports (h : Stable env.toPanDbEnv db pos cell) (hflat : env.layerType = .flat)
    {x : Nat} {q : QuadNode} (hq : db.quadNode x = some q) (hslots : 0 < q.subSlots) (hsmall : SmallCell epsilon (cell x))
    {context context' : SearchContext (Report D κ)}
    (hrun : findInRectClusterContextCb env reportClusterCb q (cell x) context = (some 0, context')) :
    Reports env.toPanDbEnv db pos zone epsilon (fun p => positionIsInRect p (cell x)) context.contextCb
      context'.contextCb := by
  have hclusters : context'.contextCb.clusters = context.contextCb.clusters ++
      ([(q, cell x)].filter (fun c => Centred c.2)).map (fun c => clusterOf c.2 (c.1.subSlots % 2 ^ 32)) ∧
      context'.contextCb.keys = context.contextCb.keys := by
    rw [findInRectClusterContextCb] at hrun
    by_cases hcenter : positionIsInRect (rectCenter (cell x)) (cell x)
    · rw [if_neg (not_not.2 hcenter)] at hrun
      simp only [hflat, reportClusterCb, ne_eq, not_true_eq_false, if_false] at hrun
      obtain ⟨-, rfl⟩ := Prod.mk.inj hrun
      rw [List.filter_cons_of_pos (by exact decide_eq_true (show Centred (cell x) from hcenter))]
      exact ⟨rfl, rfl⟩
    · rw [if_pos hcenter] at hrun
      obtain ⟨-, rfl⟩ := Prod.mk.inj hrun
      rw [List.filter_cons_of_neg (by exact ne_true_of_eq_false (decide_eq_false (show ¬ Centred (cell x) from hcenter)))]
      exact ⟨(List.append_nil _).symm, rfl⟩
  exact ⟨[], [(q, cell x)], hclusters.2.trans (List.append_nil _).symm, hclusters.1,
    List.forall_mem_singleton.2 ⟨hslots, hsmall⟩, List.nodup_nil, fun _ hk => absurd hk List.not_mem_nil,
    List.forall_mem_singleton.2 ⟨⟨x, hq, cellOf_of_stable h _ _ (quadNode_eq_some.1 hq)⟩, fun _ hp => hp⟩,
    List.pairwise_singleton _ _, fun k p _ hp _ => .inr ⟨_, List.mem_singleton_self _, hp⟩⟩

/-- A child that is not pushed. -/
theorem visitChild_reports (h : Stable env.toPanDbEnv db pos cell) (hflat : env.layerType = .flat)
    {x entered : Nat}
    (hpush : isPushed (inRectVisitor env reportCb reportClusterCb zone epsilon) db zone entered x (cell x) = false)
    {context context' : SearchContext (Report D κ)}
    (hrun : visitChild (inRectVisitor env reportCb reportClusterCb zone epsilon) env.toPanDbEnv db zone x (cell x) context =
      (some 0, context')) :
    Reports env.toPanDbEnv db pos zone epsilon (fun p => positionIsInRect p (cell x)) context.contextCb
      context'.contextCb := by
  unfold visitChild at hrun
  by_cases hmeet : rectangle2dIntersect (cell x) zone
  · rw [if_neg (not_not.2 hmeet)] at hrun
    cases hcell : db.nodes.cells x with
    | none =>
      rw [hcell] at hrun
      cases hrun
    | some n =>
      rw [hcell] at hrun
      cases n with
      | bucketNode b => exact bucket_reports h (bucketNode_eq_some.2 hcell) hmeet hrun
      | quadNode q =>
        rw [isPushed, decide_eq_true hmeet, hcell, Bool.true_and, Bool.not_eq_false'] at hpush
        obtain ⟨-, hslots, hsmall⟩ := of_decide_eq_true hpush
        exact cluster_reports h hflat (quadNode_eq_some.2 hcell) (by omega) hsmall hrun
  · rw [if_pos hmeet] at hrun
    cases hrun
    exact .refl (fun k p _ hin hzone => hmeet (intersect_of_isInRect hin hzone)) _

/-- The children that are not pushed. -/
theorem walkChildren_reports (h : Stable env.toPanDbEnv db pos cell)
    (hflat : env.layerType = .flat) {a : Nat} {q : QuadNode} (hq : db.quadNode a = some q) (entered : Nat) :
    ∀ (ts : List (Fin 4)) (height : Nat) (context context' : SearchContext (Report D κ)), ts.Nodup →
      walkChildren (inRectVisitor env reportCb reportClusterCb zone epsilon) env.toPanDbEnv db zone entered q
        (getQrectsFromQbounds env.midpoint (cell a)) height ts context = (some 0, context') →
      Reports env.toPanDbEnv db pos zone epsilon (fun p => ∃ t ∈ ts,
        isPushed (inRectVisitor env reportCb reportClusterCb zone epsilon) db zone entered (q.nodes t)
          (getQrectsFromQbounds env.midpoint (cell a) t) = false ∧
        positionIsInRect p (getQrectsFromQbounds env.midpoint (cell a) t)) context.contextCb context'.contextCb
  | [], _, context, context', _, hrun => by
    cases hrun
    exact .refl (fun k p _ hin => by simp at hin) _
  | t :: ts, height, context, context', hnodup, hrun => by
    obtain ⟨hnot, hnodup⟩ := List.nodup_cons.1 hnodup
    obtain ⟨-, -, hrect, -⟩ := h.shape.child a _ _ (shape_of_cells (quadNode_eq_some.1 hq)) t
    rw [walkChildren] at hrun
    cases hpush : isPushed (inRectVisitor env reportCb reportClusterCb zone epsilon) db zone entered (q.nodes t)
        (getQrectsFromQbounds env.midpoint (cell a) t) with
    | true =>
      rw [if_pos hpush] at hrun
      split at hrun
      · refine (walkChildren_reports h hflat hq entered ts (height + 1) context context' hnodup hrun).congr (fun p => ?_)
        simp only [List.mem_cons, or_and_right, exists_or, exists_eq_left, hpush, Bool.true_eq_false, false_and, false_or]
      · cases hrun
    | false =>
      rw [if_neg (by rw [hpush]; exact Bool.false_ne_true)] at hrun
      obtain ⟨c, hvisit, hrest⟩ := of_proceed_eq hrun
      rw [← hrect] at hvisit hpush
      refine ((visitChild_reports h hflat hpush hvisit).trans
        (walkChildren_reports h hflat hq entered ts height c context' hnodup hrest) ?_).congr (fun p => ?_)
      · rintro p hin ⟨u, hu, -, hin'⟩
        rw [hrect] at hin
        exact hnot (getQrects_disjoint hin hin' ▸ hu)
      · rw [hrect] at hpush ⊢
        simp only [List.mem_cons, or_and_right, exists_or, exists_eq_left, hpush, true_and]

omit [Mul D] in
/-- The children that are pushed. -/
theorem walkPushed_reports {qrects : Fin 4 → Rectangle2D D}
    {walk : Nat → Fin 4 → SearchContext (Report D κ) → Option Int × SearchContext (Report D κ)}
    (hdisjoint : ∀ t u p, positionIsInRect p (qrects t) → positionIsInRect p (qrects u) → t = u) (height : Nat) :
    ∀ (ts : List (Fin 4)) (context context' : SearchContext (Report D κ)), ts.Nodup →
      (∀ t ∈ ts, ∀ height c c', walk height t c = (some 0, c') →
        Reports env.toPanDbEnv db pos zone epsilon (fun p => positionIsInRect p (qrects t)) c.contextCb c'.contextCb) →
      walkPushed walk height ts context = (some 0, context') →
      Reports env.toPanDbEnv db pos zone epsilon (fun p => ∃ t ∈ ts, positionIsInRect p (qrects t)) context.contextCb
        context'.contextCb
  | [], context, context', _, _, hrun => by
    cases hrun
    exact .refl (fun k p _ hin => by simp at hin) _
  | t :: ts, context, context', hnodup, hwalk, hrun => by
    obtain ⟨hnot, hnodup⟩ := List.nodup_cons.1 hnodup
    obtain ⟨c, hone, hrest⟩ := of_proceed_eq hrun
    refine ((hwalk t List.mem_cons_self _ context c hone).trans (walkPushed_reports hdisjoint height ts c context' hnodup
      (fun u hu => hwalk u (List.mem_cons_of_mem _ hu)) hrest) ?_).congr (fun p => ?_)
    · rintro p hin ⟨u, hu, hin'⟩
      exact hnot (hdisjoint t u p hin hin' ▸ hu)
    · simp only [List.mem_cons, or_and_right, exists_or, exists_eq_left]

/-- **A walk with clusters covers the cell of its node**: by induction on the addresses from the node on. -/
theorem walkNode_reports (h : Stable env.toPanDbEnv db pos cell) (hflat : env.layerType = .flat) :
    ∀ (fuel height a : Nat) (context context' : SearchContext (Report D κ)),
      walkNode (inRectVisitor env reportCb reportClusterCb zone epsilon) env.toPanDbEnv db zone fuel height a (cell a)
        context = (some 0, context') →
      Reports env.toPanDbEnv db pos zone epsilon (fun p => positionIsInRect p (cell a)) context.contextCb context'.contextCb
  | 0, _, _, _, _, hrun => by cases hrun
  | fuel + 1, height, a, context, context', hrun => by
    rw [walkNode] at hrun
    cases hq : db.quadNode a with
    | none =>
      rw [hq] at hrun
      cases hrun
    | some q =>
      rw [hq] at hrun
      obtain ⟨c, hchildren, hpushed⟩ := of_proceed_eq hrun
      have hall : ∀ t : Fin 4, t ∈ ([0, 1, 2, 3] : List (Fin 4)) := by decide
      have hordered := h.shape.ordered a _ (shape_of_cells (quadNode_eq_some.1 hq))
      set pushed := fun t => isPushed (inRectVisitor env reportCb reportClusterCb zone epsilon) db zone
        ((inRectVisitor env reportCb reportClusterCb zone epsilon).enter context) (q.nodes t)
        (getQrectsFromQbounds env.midpoint (cell a) t) with hpush
      have hmem : ∀ t, t ∈ (([0, 1, 2, 3] : List (Fin 4)).filter pushed).reverse ↔ pushed t = true := fun t => by
        rw [List.mem_reverse, List.mem_filter]
        exact and_iff_right (hall t)
      have hleft := walkChildren_reports h hflat hq _ _ height context c (by decide) hchildren
      have hright := walkPushed_reports (fun t u p => getQrects_disjoint) height _ c context'
        (List.nodup_reverse.2 (List.Nodup.filter _ (by decide))) (fun t _ height c c' hwalk => by
          obtain ⟨-, -, hrect, -⟩ := h.shape.child a _ _ (shape_of_cells (quadNode_eq_some.1 hq)) t
          rw [← hrect] at hwalk ⊢
          exact walkNode_reports h hflat fuel height (q.nodes t) c c' hwalk) hpushed
      refine (hleft.trans hright ?_).congr (fun p => ?_)
      · rintro p ⟨t, -, hno, hin⟩ ⟨u, hu, hin'⟩
        rw [getQrects_disjoint hin hin'] at hno
        exact absurd (hno.symm.trans ((hmem u).1 hu)) (by simp)
      · constructor
        · rintro (⟨t, -, -, hin⟩ | ⟨t, -, hin⟩) <;> exact isInRect_of_getQrects hordered hin
        · intro hin
          obtain ⟨t, ht⟩ := exists_getQrects env.midpoint hin
          cases hp : pushed t with
          | true => exact .inr ⟨t, (hmem t).2 hp, ht⟩
          | false => exact .inl ⟨t, hall t, hp, ht⟩

end

end

/-- With exact coordinates the centre of a cell that has slots lies in it. -/
theorem centred_of_exact [Field D] [LinearOrder D] [IsStrictOrderedRing D] {env : PanDbEnv D κ} {db : PanDB D κ}
    {pos : κ → Option (Position2D D)} {cell : Nat → Rectangle2D D} (h : Stable env db pos cell) {a : Nat} {q : QuadNode}
    {rect : Rectangle2D D} (hq : db.quadNode a = some q) (hcell : CellOf env db a rect) (hslots : 0 < q.subSlots) :
    Centred rect := by
  have hrect : rect = cell a := cell_of_cellBelow h hcell h.shape.rootCell.symm
  have hbrk := Lib.Heap.lt_brk (quadNode_eq_some.1 hq)
  obtain ⟨hlen, -, hin⟩ := slotsBelow_spec h (db.nodes.brk + 1) a _ (by omega) (quadNode_eq_some.1 hq)
  obtain ⟨y, hy⟩ := List.exists_mem_of_length_pos (hlen.symm ▸ hslots : 0 < (db.slotsBelow (db.nodes.brk + 1) a).length)
  obtain ⟨-, h1, h2, h3, h4⟩ := hin y hy
  rw [← hrect] at h1 h2 h3 h4
  refine ⟨?_, ?_, ?_, ?_⟩ <;> simp only [rectCenter] <;> linarith

/-! ## The law -/

section
variable [Add D] [Sub D] [Neg D] [Mul D] [Div D] [Zero D] [NatCast D] [LinearOrder D] {env : SearchEnv D κ} {db : PanDB D κ}

/-- A search of a flat layer that has come to its end has covered the rectangle. -/
theorem findInRect_covers {pos : κ → Option (Position2D D)} {cell : Nat → Rectangle2D D}
    (h : Stable env.toPanDbEnv db pos cell) (hflat : env.layerType = .flat) {rect : Rectangle2D D} {limit : Nat}
    (hlimit : 0 < limit) {epsilon : D}
    (hret : (findInRect env db reportCb reportClusterCb ⟨[], []⟩ rect limit epsilon).1 = some 0) :
    Reports env.toPanDbEnv db pos rect epsilon (fun p => positionIsInRect p env.qbounds) ⟨[], []⟩
      (findInRect env db reportCb reportClusterCb ⟨[], []⟩ rect limit epsilon).2 := by
  rw [findInRect_flat (ascending_of_stable h) hflat _ _ _ _ hlimit, ← h.shape.rootCell] at hret ⊢
  generalize hwalk : walkNode (inRectVisitor env reportCb reportClusterCb rect epsilon) env.toPanDbEnv db rect
    (db.nodes.brk + 1) 0 db.root (cell db.root) ⟨limit, ⟨[], []⟩⟩ = r at hret ⊢
  obtain ⟨ret, context⟩ := r
  obtain rfl : ret = some 0 := hret
  exact walkNode_reports h hflat _ 0 db.root _ _ hwalk

/-- **A search with clusters** on a flat layer that comes to its end covers every slot of the rectangle, by its key node, by
one cluster or by one small cell that is passed over because its centre does not lie in it.  The cells share no position,
and the children of a cluster are the slots in its cell. -/
theorem clustered_search_covers [DecidableEq κ] (hr : (panDbSystem env.toPanDbEnv).Reachable db)
    (hflat : env.layerType = .flat)
    (hslots : (storedKeys db).ncard < 2 ^ 32) (rect : Rectangle2D D) {limit : Nat} (hlimit : 0 < limit) (epsilon : D)
    {report : Report D κ}
    (hret : findInRect env db reportCb reportClusterCb ⟨[], []⟩ rect limit epsilon = (some 0, report)) :
    ∃ shown skipped : List (Rectangle2D D),
      report.clusters = shown.map (fun c => clusterOf c (inRectSlots db c).ncard) ∧
      (∀ c ∈ shown ++ skipped, (∃ a q, db.quadNode a = some q ∧ CellOf env.toPanDbEnv db a c) ∧ SmallCell epsilon c) ∧
      (∀ c ∈ skipped, ¬ Centred c) ∧
      (shown ++ skipped).Pairwise (fun c c' => ∀ p, positionIsInRect p c → ¬ positionIsInRect p c') ∧
      report.keys.Nodup ∧
      (∀ k ∈ report.keys, ∃ p, db.position k = some p ∧ positionIsInRect p rect ∧
        ∀ c ∈ shown ++ skipped, ¬ positionIsInRect p c) ∧
      (∀ k p, db.position k = some p → positionIsInRect p rect →
        (k ∈ report.keys ∧ ∀ c ∈ shown ++ skipped, ¬ positionIsInRect p c) ∨
        (k ∉ report.keys ∧ ∃! c, c ∈ shown ++ skipped ∧ positionIsInRect p c)) ∧
      ((∀ a q c, db.quadNode a = some q → CellOf env.toPanDbEnv db a c → SmallCell epsilon c → 0 < q.subSlots →
        Centred c) → skipped = []) := by
  obtain ⟨pos, cell, h⟩ := panDb_reachable_stable hr
  obtain ⟨keys, cells, hkeys, hclusters, hsmall, hcovers⟩ := findInRect_covers h hflat hlimit (congrArg Prod.fst hret)
  simp only [hret, List.nil_append] at hkeys hclusters hcovers
  rw [← position_of_stable h] at hcovers
  subst hkeys
  set shown := cells.filter (fun c => Centred c.2) with hshown
  set skipped := cells.filter (fun c => !decide (Centred c.2)) with hskipped
  have hperm : (shown ++ skipped).Perm cells := List.filter_append_perm _ _
  have hmem : ∀ c ∈ shown.map Prod.snd ++ skipped.map Prod.snd, ∃ q, (q, c) ∈ cells := by
    intro c hc
    rw [← List.map_append] at hc
    obtain ⟨⟨q, c'⟩, hc', rfl⟩ := List.mem_map.1 hc
    exact ⟨q, hperm.mem_iff.1 hc'⟩
  have hin : ∀ c ∈ cells, c.2 ∈ shown.map Prod.snd ++ skipped.map Prod.snd := by
    intro c hc
    rw [← List.map_append]
    exact List.mem_map_of_mem (hperm.mem_iff.2 hc)
  have hcover : ∀ p, (∃ c ∈ shown.map Prod.snd ++ skipped.map Prod.snd, positionIsInRect p c) ↔
      ∃ c ∈ cells, positionIsInRect p c.2 := by
    refine fun p => ⟨?_, ?_⟩
    · rintro ⟨c, hc, hp⟩
      obtain ⟨q, hq⟩ := hmem c hc
      exact ⟨(q, c), hq, hp⟩
    · rintro ⟨c, hc, hp⟩
      exact ⟨c.2, hin c hc, hp⟩
  have hdisjoint : (shown.map Prod.snd ++ skipped.map Prod.snd).Pairwise
      (fun c c' => ∀ p, positionIsInRect p c → ¬ positionIsInRect p c') := by
    rw [← List.map_append]
    refine (hperm.map Prod.snd).symm.pairwise (List.pairwise_map.2 hcovers.disjoint) ?_
    exact fun h p hc' hc => h p hc hc'
  have hsymm : Std.Symm (fun c c' : Rectangle2D D => ∀ p, positionIsInRect p c → ¬ positionIsInRect p c') :=
    ⟨fun c c' h p hc' hc => h p hc hc'⟩
  have hkey : ∀ k ∈ report.keys, ∃ p, db.position k = some p ∧ positionIsInRect p rect ∧
      ∀ c ∈ shown.map Prod.snd ++ skipped.map Prod.snd, ¬ positionIsInRect p c := by
    intro k hk
    obtain ⟨p, hp, -, hrect, hno⟩ := hcovers.key k hk
    refine ⟨p, hp, hrect, fun c hc => ?_⟩
    obtain ⟨q, hq⟩ := hmem c hc
    exact hno (q, c) hq
  refine ⟨shown.map Prod.snd, skipped.map Prod.snd, ?_, fun c hc => ?_, fun c hc => ?_, hdisjoint, hcovers.nodup, hkey,
    fun k p hp hrect => ?_, fun hcentred => ?_⟩
  · rw [hclusters, List.map_map]
    refine List.map_congr_left (fun c hc => ?_)
    obtain ⟨⟨a, hq, hcell⟩, -⟩ := hcovers.cell c (List.mem_filter.1 hc).1
    have hcard := ncard_inRectSlots h hq hcell
    have hsub : inRectSlots db c.2 ⊆ storedKeys db := by
      rintro k ⟨p, hp, -⟩
      exact mem_storedKeys hp
    have hle := Set.ncard_le_ncard hsub (finite_storedKeys h)
    rw [Function.comp, hcard, Nat.mod_eq_of_lt (by omega)]
  · obtain ⟨q, hq⟩ := hmem c hc
    obtain ⟨⟨a, ha, hcell⟩, -⟩ := hcovers.cell _ hq
    exact ⟨⟨a, q, ha, hcell⟩, (hsmall _ hq).2⟩
  · obtain ⟨c', hc', rfl⟩ := List.mem_map.1 hc
    have hno := (List.mem_filter.1 hc').2
    simpa using hno
  · have hbounds := isInRect_qbounds h hp
    by_cases hk : k ∈ report.keys
    · obtain ⟨p', hp', -, hno⟩ := hkey k hk
      rw [hp, Option.some.injEq] at hp'
      exact .inl ⟨hk, hp' ▸ hno⟩
    · obtain ⟨c, hc, hcin⟩ := (hcover p).2 ((hcovers.all k p hp hbounds hrect).resolve_left hk)
      refine .inr ⟨hk, c, ⟨hc, hcin⟩, fun c' hc'' => ?_⟩
      obtain ⟨hc', hcin'⟩ := hc''
      by_contra hne
      exact hdisjoint.forall hc' hc hne p hcin' hcin
  · -- a cell that is passed over has slots
    rw [List.map_eq_nil_iff, hskipped, List.filter_eq_nil_iff]
    intro c hc
    obtain ⟨⟨a, ha, hcell⟩, -⟩ := hcovers.cell c hc
    obtain ⟨hpos, hsides⟩ := hsmall c hc
    simpa using hcentred a c.1 c.2 ha hcell hsides hpos

end

/-- A quarter with one slot more than a bucket has, shown as one cluster, and a slot elsewhere: with exact coordinates no
cell is passed over. -/
theorem clustered_search_covers_quarter : ∃ (db : PanDB ℚ Nat) (report : Report ℚ Nat) (shown : List (Rectangle2D ℚ)),
    (panDbSystem (worldEnv .flat).toPanDbEnv).Reachable db ∧
    findInRect (worldEnv .flat) db reportCb reportClusterCb ⟨[], []⟩ (worldEnv .flat).qbounds 60 200 = (some 0, report) ∧
    report.keys = [51] ∧ report.clusters = shown.map (fun c => clusterOf c (inRectSlots db c).ncard) ∧
    shown.length = 1 ∧ ∀ k p, db.position k = some p → positionIsInRect p (worldEnv .flat).qbounds →
      (k ∈ report.keys ∧ ∀ c ∈ shown, ¬ positionIsInRect p c) ∨
      (k ∉ report.keys ∧ ∃! c, c ∈ shown ∧ positionIsInRect p c) := by
  obtain ⟨db, hr, hp⟩ := reached_of_exec .flat
    ((List.range 51).map (fun k => .addSlot k ⟨k, k⟩) ++ [.addSlot 51 ⟨-10, -10⟩]) (fun db =>
      (findInRect (worldEnv .flat) db reportCb reportClusterCb ⟨[], []⟩ (worldEnv .flat).qbounds 60 200).1 = some 0 &&
      (findInRect (worldEnv .flat) db reportCb reportClusterCb ⟨[], []⟩ (worldEnv .flat).qbounds 60 200).2.keys = [51] &&
      (findInRect (worldEnv .flat) db reportCb reportClusterCb ⟨[], []⟩ (worldEnv .flat).qbounds 60
        200).2.clusters.length = 1 &&
      (db.quadNode db.root).any (fun q => q.subSlots = 52)) (by decide +kernel)
  simp only [Bool.and_eq_true, decide_eq_true_eq] at hp
  obtain ⟨⟨⟨hret, hkeys⟩, hlength⟩, hroot⟩ := hp
  obtain ⟨pos, cell, h⟩ := panDb_reachable_stable hr
  obtain ⟨q, hq, hcount⟩ := (Option.any_eq_true _ _).1 hroot
  have hcard : (storedKeys db).ncard < 2 ^ 32 := by
    rw [ncard_storedKeys h hq, of_decide_eq_true hcount]
    decide
  obtain ⟨shown, skipped, hclusters, -, -, -, -, -, hcovered, hcentred⟩ := clustered_search_covers hr rfl hcard
    (worldEnv .flat).qbounds (show 0 < 60 by decide) 200 (Prod.ext hret rfl)
  obtain rfl := hcentred (fun a q c hq hcell _ hslots => centred_of_exact h hq hcell hslots)
  rw [hclusters, List.length_map] at hlength
  rw [List.append_nil] at hcovered
  exact ⟨db, _, shown, hr, Prod.ext hret rfl, hkeys, hclusters, hlength, hcovered⟩

/-! ## Rounded coordinates -/

/-- The layers of a program that is compiled with a `BUCKET_SIZE` of 1, with a fine accuracy. -/
def roundedEnv : SearchEnv Binary32 Nat where
  qbounds := ⟨⟨.round (-90), .round (-180)⟩, ⟨.round 90, .round 180⟩⟩
  latitudeAccuracy := .round (1 / 100000)
  longitudeAccuracy := .round (1 / 100000)
  bucketSize := 1
  midpoint := ⟨Binary32.halfSum, Binary32.le_halfSum, Binary32.halfSum_le⟩
  order := fun entries => entries
  latitude_le := by decide +kernel
  longitude_le := by decide +kernel
  bucketSize_pos := by decide
  order_perm := fun entries => List.Perm.refl entries
  layerType := .flat
  accuracy := .fast
  cosf := fun _ => .round 1
  vincentyDistanceBetweenGeoidalPositions := fun _ _ => .round 0
  hsDistanceBetweenGeoidalPositions := fun _ _ => .round 0
  gcDistanceBetweenGeoidalPositions := fun _ _ => .round 0

/-- Its cell becomes as narrow as coordinates near it can be, and the centre of that is the upper edge. -/
def edgePosition : Position2D Binary32 := ⟨.round 10, .round (15000008 / 100000)⟩

/-- **Slots that are nowhere in the result**: they are all in a cell that is passed over. -/
theorem clustered_search_skips : ∃ db p, (panDbSystem roundedEnv.toPanDbEnv).Reachable db ∧
    (storedKeys db).ncard < 2 ^ 32 ∧ db.position 0 = some p ∧ positionIsInRect p roundedEnv.qbounds ∧
    findInRect roundedEnv db reportCb reportClusterCb ⟨[], []⟩ roundedEnv.qbounds 60 (.round (2 / 100000)) =
      (some 0, ⟨[], []⟩) ∧
    ¬ ∃ cells : List (Rectangle2D Binary32),
      (⟨[], []⟩ : Report Binary32 Nat).clusters = cells.map (fun c => clusterOf c (inRectSlots db c).ncard) ∧
      ∀ k p, db.position k = some p → positionIsInRect p roundedEnv.qbounds →
        k ∈ (⟨[], []⟩ : Report Binary32 Nat).keys ∨ ∃ c ∈ cells, positionIsInRect p c := by
  have hdec : ((panDbSystem roundedEnv.toPanDbEnv).exec ((List.range 25).map (fun k => .addSlot k edgePosition))
      initPanDb).any (fun db =>
        (findInRect roundedEnv db reportCb reportClusterCb ⟨[], []⟩ roundedEnv.qbounds 60 (.round (2 / 100000))).1 =
          some 0 &&
        (findInRect roundedEnv db reportCb reportClusterCb ⟨[], []⟩ roundedEnv.qbounds 60
          (.round (2 / 100000))).2.keys = [] &&
        (findInRect roundedEnv db reportCb reportClusterCb ⟨[], []⟩ roundedEnv.qbounds 60
          (.round (2 / 100000))).2.clusters.length = 0 &&
        (db.position 0).any (fun p => positionIsInRect p roundedEnv.qbounds) &&
        (db.quadNode db.root).any (fun q => q.subSlots = 25)) = true := by decide +kernel
  obtain ⟨db, hdb, hp⟩ := (Option.any_eq_true _ _).1 hdec
  obtain ⟨hist, hr, -⟩ := Lib.System.Run.of_exec _ Lib.System.Run.init hdb
  simp only [Bool.and_eq_true, decide_eq_true_eq, List.length_eq_zero_iff] at hp
  obtain ⟨⟨⟨⟨hret, hkeys⟩, hclusters⟩, hposition⟩, hroot⟩ := hp
  obtain ⟨p, hposition, hin⟩ := (Option.any_eq_true _ _).1 hposition
  obtain ⟨q, hq, hcount⟩ := (Option.any_eq_true _ _).1 hroot
  obtain ⟨pos, cell, h⟩ := panDb_reachable_stable ⟨hist, hr⟩
  refine ⟨db, p, ⟨hist, hr⟩, ?_, hposition, of_decide_eq_true hin, Prod.ext hret ?_, ?_⟩
  · rw [ncard_storedKeys h hq, of_decide_eq_true hcount]
    decide
  · generalize (findInRect roundedEnv db reportCb reportClusterCb ⟨[], []⟩ roundedEnv.qbounds 60
      (.round (2 / 100000))).2 = report at hkeys hclusters
    obtain ⟨keys, clusters⟩ := report
    obtain rfl : keys = [] := hkeys
    obtain rfl : clusters = [] := hclusters
    rfl
  · rintro ⟨cells, hcells, hall⟩
    obtain rfl : cells = [] := List.map_eq_nil_iff.1 hcells.symm
    rcases hall 0 p hposition (of_decide_eq_true hin) with hk | ⟨c, hc, -⟩
    · cases hk
    · cases hc

end Pincaster
