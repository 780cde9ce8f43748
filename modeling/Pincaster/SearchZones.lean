import Pincaster.SearchTrace
/-!
# SearchZones — the searches without clusters, zone after zone

A search is observed by a callback that notes the key nodes it is called for and returns 0, as the callbacks of the
requests do.  What a zone adds is told by its trace, and a search is the zones until one returns (`findNear_eq`,
`findInRect_eq`).
-/
namespace Pincaster

variable {D κ σ : Type}

/-- The callback that notes the key node of its slot. -/
def logCb (log : List κ) (slot : Slot D κ) (_ : Meters D) : Option Int × List κ := (some 0, log ++ slot.keyNode.toList)

/-- The key nodes of the slots with a property. -/
def keysOf (p : Slot D κ → Bool) (slots : List (Slot D κ)) : List κ := (slots.filter p).filterMap Slot.keyNode

theorem keysOf_cons_pos {p : Slot D κ → Bool} {slot : Slot D κ} (h : p slot = true) (slots : List (Slot D κ)) :
    keysOf p (slot :: slots) = slot.keyNode.toList ++ keysOf p slots := by
  rw [keysOf, List.filter_cons_of_pos h, List.filterMap_cons, keysOf]
  cases slot.keyNode <;> rfl

theorem keysOf_cons_neg {p : Slot D κ → Bool} {slot : Slot D κ} (h : p slot ≠ true) (slots : List (Slot D κ)) :
    keysOf p (slot :: slots) = keysOf p slots := by
  rw [keysOf, List.filter_cons_of_neg h, keysOf]

/-! ## One zone -/

/-- What one zone leaves: it returns 1 when the limit is reached. -/
def zoneStep (keys : List κ) (fits stops : Bool) (limit : Nat) (log : List κ) : Option Int × List κ :=
  if stops then (some 1, log ++ keys.take limit) else (if fits then some 0 else none, log ++ keys)

/-- The zones, one after the other. -/
def zonesResult {ζ : Type} (keys : ζ → List κ) (fits : ζ → Bool) (stops : Nat → Bool) (limit : Nat) :
    List ζ → List κ → Option Int × List κ
  | [], log => (some 0, log)
  | zone :: zones, log => proceed (zoneStep (keys zone) (fits zone) (stops (keys zone).length) limit log)
      (zonesResult keys fits stops limit zones)

variable [Add D] [Sub D] [Neg D] [Mul D] [Div D] [Zero D] [One D] [NatCast D] [LinearOrder D] {env : SearchEnv D κ}
  {db : PanDB D κ}

/-- The slots `find_near` reports. -/
def isNear (env : SearchEnv D κ) (position : Position2D D) (distance : D) (slot : Slot D κ) : Bool :=
  (nearDistance env position slot.position).le distance

/-- The slots `find_in_rect` reports. -/
def isInRect (rect : Rectangle2D D) (slot : Slot D κ) : Bool := positionIsInRect slot.position rect

/-- The key nodes of the slots near a position that a walk through a zone comes to. -/
def nearKeys (env : SearchEnv D κ) (db : PanDB D κ) (position : Position2D D) (distance : D) (zone : Rectangle2D D) :
    List κ := keysOf (isNear env position distance) (zoneTrace env.toPanDbEnv db zone).slots

/-- The key nodes of the slots in a zone that a walk through it comes to. -/
def rectKeys (env : SearchEnv D κ) (db : PanDB D κ) (zone : Rectangle2D D) : List κ :=
  keysOf (isInRect zone) (zoneTrace env.toPanDbEnv db zone).slots

/-- Whether the stack has room in a zone. -/
def zoneFits (env : SearchEnv D κ) (db : PanDB D κ) (zone : Rectangle2D D) : Bool :=
  (zoneTrace env.toPanDbEnv db zone).fits

omit [One D] in
/-- `find_near_context_cb` along some slots: 1 is returned when the last key node of the limit has been noted. -/
theorem runSlots_near (env : SearchEnv D κ) (position : Position2D D) (distance : D) :
    ∀ (slots : List (Slot D κ)) (limit : Nat) (log : List κ),
    0 < limit → ∃ limit', runSlots (findNearContextCb env logCb position distance) slots ⟨limit, log⟩ =
      if limit ≤ (keysOf (isNear env position distance) slots).length then
        (some 1, ⟨limit', log ++ (keysOf (isNear env position distance) slots).take limit⟩)
      else (some 0, ⟨limit', log ++ keysOf (isNear env position distance) slots⟩)
  | [], limit, log, hlimit => ⟨limit, by
    rw [runSlots, keysOf, List.filter_nil, List.filterMap_nil, List.length_nil, if_neg (by omega), List.append_nil]⟩
  | slot :: slots, limit, log, hlimit => by
    rw [runSlots, findNearContextCb]
    by_cases hnear : isNear env position distance slot = true
    · have hle : (nearDistance env position slot.position).le distance := of_decide_eq_true hnear
      cases hkey : slot.keyNode with
      | none =>
        have hkeys : keysOf (isNear env position distance) (slot :: slots) = keysOf (isNear env position distance) slots := by
          rw [keysOf_cons_pos hnear, hkey]
          rfl
        obtain ⟨limit', hrun⟩ := runSlots_near env position distance slots limit log hlimit
        refine ⟨limit', ?_⟩
        rw [hkeys]
        simp only [Option.isSome_none, Bool.false_eq_true, and_false, if_false]
        rw [proceed_zero]
        exact hrun
      | some k =>
        have hkeys : keysOf (isNear env position distance) (slot :: slots) =
            k :: keysOf (isNear env position distance) slots := by
          rw [keysOf_cons_pos hnear, hkey]
          rfl
        rw [hkeys, List.length_cons]
        simp only [hle, Option.isSome_some, and_self, if_true, logCb, hkey, Option.toList_some, ne_eq,
          not_true_eq_false, if_false]
        by_cases hlast : limit ≤ 1
        · obtain rfl : limit = 1 := by omega
          refine ⟨0, ?_⟩
          rw [if_pos le_rfl, proceed_of_ne (by simp), if_pos (by omega), List.take_succ_cons, List.take_zero]
        · obtain ⟨limit', hrun⟩ := runSlots_near env position distance slots (limit - 1) (log ++ [k]) (by omega)
          obtain ⟨l, rfl⟩ : ∃ l, limit = l + 1 := ⟨limit - 1, by omega⟩
          refine ⟨limit', ?_⟩
          rw [if_neg hlast, proceed_zero]
          simp only [Nat.add_sub_cancel, List.append_assoc, List.singleton_append] at hrun ⊢
          rw [hrun]
          simp only [Nat.add_le_add_iff_right, List.take_succ_cons]
    · obtain ⟨limit', hrun⟩ := runSlots_near env position distance slots limit log hlimit
      refine ⟨limit', ?_⟩
      have hle : ¬ (nearDistance env position slot.position).le distance := fun h => hnear (decide_eq_true h)
      rw [keysOf_cons_neg hnear]
      simp only [hle, false_and, if_false]
      rw [proceed_zero]
      exact hrun

omit [One D] in
/-- `find_in_rect_context_cb` along some slots: 1 is returned when there is one more than the limit. -/
theorem runSlots_inRect (env : SearchEnv D κ) (rect : Rectangle2D D) :
    ∀ (slots : List (Slot D κ)) (limit : Nat) (log : List κ),
    ∃ limit', runSlots (findInRectContextCb env logCb rect) slots ⟨limit, log⟩ =
      if limit < (keysOf (isInRect rect) slots).length then
        (some 1, ⟨limit', log ++ (keysOf (isInRect rect) slots).take limit⟩)
      else (some 0, ⟨limit', log ++ keysOf (isInRect rect) slots⟩)
  | [], limit, log => ⟨limit, by
    rw [runSlots, keysOf, List.filter_nil, List.filterMap_nil, List.length_nil, if_neg (by omega), List.append_nil]⟩
  | slot :: slots, limit, log => by
    rw [runSlots, findInRectContextCb]
    by_cases hin : isInRect rect slot = true
    · rw [if_neg (not_not.2 (of_decide_eq_true hin))]
      cases hkey : slot.keyNode with
      | none =>
        have hkeys : keysOf (isInRect rect) (slot :: slots) = keysOf (isInRect rect) slots := by
          rw [keysOf_cons_pos hin, hkey]
          rfl
        obtain ⟨limit', hrun⟩ := runSlots_inRect env rect slots limit log
        refine ⟨limit', ?_⟩
        rw [hkeys]
        simp only [Option.isSome_none, Bool.false_eq_true, if_false]
        rw [proceed_zero]
        exact hrun
      | some k =>
        have hkeys : keysOf (isInRect rect) (slot :: slots) = k :: keysOf (isInRect rect) slots := by
          rw [keysOf_cons_pos hin, hkey]
          rfl
        rw [hkeys, List.length_cons]
        simp only [Option.isSome_some, if_true, logCb, hkey, Option.toList_some]
        cases limit with
        | zero =>
          refine ⟨0, ?_⟩
          rw [if_pos le_rfl, proceed_of_ne (by simp), if_pos (by omega), List.take_zero, List.append_nil]
        | succ limit =>
          obtain ⟨limit', hrun⟩ := runSlots_inRect env rect slots limit (log ++ [k])
          refine ⟨limit', ?_⟩
          rw [if_neg (by omega), proceed_zero]
          simp only [Nat.add_sub_cancel, List.append_assoc, List.singleton_append] at hrun ⊢
          rw [hrun]
          simp only [Nat.add_lt_add_iff_right, List.take_succ_cons]
    · obtain ⟨limit', hrun⟩ := runSlots_inRect env rect slots limit log
      refine ⟨limit', ?_⟩
      rw [keysOf_cons_neg hin, if_pos (fun h => hin (decide_eq_true h)), proceed_zero]
      exact hrun

omit [Add D] [Sub D] [Neg D] [Mul D] [Div D] [Zero D] [One D] [NatCast D] in
/-- What a walk leaves when its callback notes key nodes up to a limit. -/
theorem searchInZone_noted {ρ : Type} (visitor : ZoneVisitor D κ (SearchContext (List κ)) ρ) (zone : Rectangle2D D)
    (keys : List κ) (stops : Bool) (hasc : Ascending db)
    (hno : ∀ entered q qrect, visitor.clusters entered q qrect = false) {limit : Nat} {log : List κ} (hslots : ∃ limit',
      runSlots visitor.slot (zoneTrace env.toPanDbEnv db zone).slots ⟨limit, log⟩ =
        if stops then (some 1, ⟨limit', log ++ keys.take limit⟩) else (some 0, ⟨limit', log ++ keys⟩))
    {s : PntStack (QuadNodeWithBounds D)} (hs : SearchStack s) (hnil : s.elements = []) :
    ∃ s' limit', searchInZone visitor env.toPanDbEnv db zone (s, ⟨limit, log⟩) =
        ((zoneStep keys (zoneFits env db zone) stops limit log).1, s', ⟨limit',
          (zoneStep keys (zoneFits env db zone) stops limit log).2⟩) ∧
      ((zoneStep keys (zoneFits env db zone) stops limit log).1 = some 0 → SearchStack s' ∧ s'.elements = []) := by
  obtain ⟨limit', hslots⟩ := hslots
  obtain ⟨s', hrun, hend⟩ := searchInZone_eq visitor env.toPanDbEnv zone hasc hs hnil
    (⟨limit, log⟩ : SearchContext (List κ))
  rw [walkNode_eq hno] at hrun hend
  have hnode : nodeTrace env.toPanDbEnv db zone (db.nodes.brk + 1) 0 db.root env.qbounds =
    zoneTrace env.toPanDbEnv db zone := rfl
  rw [hnode, runTrace, hslots] at hrun hend
  refine ⟨s', limit', ?_⟩
  cases stops with
  | true =>
    rw [if_pos rfl, proceed_of_ne (by simp)] at hrun hend
    rw [zoneStep, if_pos rfl]
    exact ⟨hrun, hend⟩
  | false =>
    rw [if_neg Bool.false_ne_true, proceed_zero] at hrun hend
    rw [zoneStep, if_neg Bool.false_ne_true]
    exact ⟨hrun, hend⟩

/-! ## All zones -/

omit [Add D] [Sub D] [Neg D] [Mul D] [Div D] [Zero D] [One D] [NatCast D] [LinearOrder D] in
/-- The zones, when each of them is known. -/
theorem searchZones_eq {inZone : Rectangle2D D → PntStack (QuadNodeWithBounds D) × List κ →
      Option Int × PntStack (QuadNodeWithBounds D) × List κ} {keys : Rectangle2D D → List κ} {fits : Rectangle2D D → Bool}
    (stops : Nat → Bool) {limit : Nat}
    (hzone : ∀ zone s log, SearchStack s → s.elements = [] →
      ∃ s', inZone zone (s, log) = ((zoneStep (keys zone) (fits zone) (stops (keys zone).length) limit log).1, s',
          (zoneStep (keys zone) (fits zone) (stops (keys zone).length) limit log).2) ∧
        ((zoneStep (keys zone) (fits zone) (stops (keys zone).length) limit log).1 = some 0 →
          SearchStack s' ∧ s'.elements = [])) :
    ∀ (zones : List (Rectangle2D D)) (s : PntStack (QuadNodeWithBounds D)) (log : List κ), SearchStack s →
      s.elements = [] → ∃ s', searchZones inZone zones (s, log) =
        ((zonesResult keys fits stops limit zones log).1, s', (zonesResult keys fits stops limit zones log).2)
  | [], s, log, _, _ => ⟨s, rfl⟩
  | zone :: zones, s, log, hs, hnil => by
    obtain ⟨s₁, hrun, hend⟩ := hzone zone s log hs hnil
    rw [searchZones, zonesResult, hrun]
    generalize zoneStep (keys zone) (fits zone) (stops (keys zone).length) limit log = r at hend
    by_cases hret : r.1 = some 0
    · obtain ⟨hs₁, hnil₁⟩ := hend hret
      obtain ⟨s', hrest⟩ := searchZones_eq stops hzone zones s₁ r.2 hs₁ hnil₁
      refine ⟨s', ?_⟩
      rw [proceed, if_pos hret, proceed, if_pos hret]
      exact hrest
    · exact ⟨s₁, by rw [proceed_of_ne (r := (r.1, s₁, r.2)) hret, proceed_of_ne hret]⟩

/-- **`find_near`**, zone after zone. -/
theorem findNear_eq (hasc : Ascending db) (position : Position2D D) (distance : D) {limit : Nat} (hlimit : 0 < limit) :
    findNear env db logCb [] position distance limit = zonesResult (nearKeys env db position distance) (zoneFits env db)
      (fun n => limit ≤ n) limit (nearZones env position distance) [] := by
  obtain ⟨s, hnew, hs, hnil⟩ := newSearchStack_spec (D := D)
  have hzone : ∀ zone s (log : List κ), SearchStack s → s.elements = [] →
      ∃ s', findNearInZone env db logCb position distance limit zone (s, log) =
        ((zoneStep (nearKeys env db position distance zone) (zoneFits env db zone)
            (decide (limit ≤ (nearKeys env db position distance zone).length)) limit log).1, s',
          (zoneStep (nearKeys env db position distance zone) (zoneFits env db zone)
            (decide (limit ≤ (nearKeys env db position distance zone).length)) limit log).2) ∧
        ((zoneStep (nearKeys env db position distance zone) (zoneFits env db zone)
            (decide (limit ≤ (nearKeys env db position distance zone).length)) limit log).1 = some 0 →
          SearchStack s' ∧ s'.elements = []) := by
    intro zone s log hs hnil
    obtain ⟨s', limit', hrun, hend⟩ := searchInZone_noted (nearVisitor env logCb position distance) zone
      (nearKeys env db position distance zone) (decide (limit ≤ (nearKeys env db position distance zone).length)) hasc
      (fun _ _ _ => rfl)
      (by
        obtain ⟨limit', hslots⟩ := runSlots_near env position distance
          (zoneTrace env.toPanDbEnv db zone).slots limit log hlimit
        simp only [decide_eq_true_eq]
        exact ⟨limit', hslots⟩) hs hnil
    refine ⟨s', ?_, hend⟩
    simp only [findNearInZone, hrun]
  obtain ⟨s', hrun⟩ := searchZones_eq (fun n => decide (limit ≤ n)) hzone (nearZones env position distance) s [] hs
    hnil
  rw [findNear, if_neg (by omega), hnew]
  simp only [hrun]

omit [One D] in
/-- **`find_in_rect`** without clusters, zone after zone. -/
theorem findInRect_eq (hasc : Ascending db)
    (clusterCb : List κ → Position2D D → Meters D → Nat → Option Int × List κ) (rect : Rectangle2D D) {limit : Nat}
    (hlimit : 0 < limit) {epsilon : D} (hepsilon : epsilon ≤ 0) :
    findInRect env db logCb clusterCb [] rect limit epsilon = zonesResult (rectKeys env db) (zoneFits env db)
      (fun n => limit < n) limit (inRectZones env rect) [] := by
  obtain ⟨s, hnew, hs, hnil⟩ := newSearchStack_spec (D := D)
  have hzone : ∀ zone s (log : List κ), SearchStack s → s.elements = [] →
      ∃ s', findInRectInZone env db logCb clusterCb limit epsilon zone (s, log) =
        ((zoneStep (rectKeys env db zone) (zoneFits env db zone) (decide (limit < (rectKeys env db zone).length)) limit
            log).1, s',
          (zoneStep (rectKeys env db zone) (zoneFits env db zone) (decide (limit < (rectKeys env db zone).length)) limit
            log).2) ∧
        ((zoneStep (rectKeys env db zone) (zoneFits env db zone) (decide (limit < (rectKeys env db zone).length)) limit
            log).1 = some 0 → SearchStack s' ∧ s'.elements = []) := by
    intro zone s log hs hnil
    obtain ⟨s', limit', hrun, hend⟩ := searchInZone_noted (inRectVisitor env logCb clusterCb zone epsilon) zone
      (rectKeys env db zone) (decide (limit < (rectKeys env db zone).length)) hasc
      (fun _ _ _ => decide_eq_false (fun h => absurd h.1 (not_lt.2 hepsilon)))
      (by
        obtain ⟨limit', hslots⟩ := runSlots_inRect env zone
          (zoneTrace env.toPanDbEnv db zone).slots limit log
        simp only [decide_eq_true_eq]
        exact ⟨limit', hslots⟩) hs hnil
    refine ⟨s', ?_, hend⟩
    simp only [findInRectInZone, hrun]
  obtain ⟨s', hrun⟩ := searchZones_eq (fun n => decide (limit < n)) hzone (inRectZones env rect) s [] hs hnil
  rw [findInRect, if_neg (by omega), hnew]
  simp only [hrun]

omit [One D] in
/-- **`find_in_rect`** on a flat layer: one walk. -/
theorem findInRect_flat {σ : Type} (hasc : Ascending db) (hflat : env.layerType = .flat)
    (cb : σ → Slot D κ → Meters D → Option Int × σ) (clusterCb : σ → Position2D D → Meters D → Nat → Option Int × σ)
    (contextCb : σ) (rect : Rectangle2D D) {limit : Nat} (hlimit : 0 < limit) (epsilon : D) :
    findInRect env db cb clusterCb contextCb rect limit epsilon =
      ((walkNode (inRectVisitor env cb clusterCb rect epsilon) env.toPanDbEnv db rect (db.nodes.brk + 1) 0 db.root
        env.qbounds ⟨limit, contextCb⟩).1, (walkNode (inRectVisitor env cb clusterCb rect epsilon) env.toPanDbEnv db rect
        (db.nodes.brk + 1) 0 db.root env.qbounds ⟨limit, contextCb⟩).2.contextCb) := by
  obtain ⟨s, hnew, hs, hnil⟩ := newSearchStack_spec (D := D)
  obtain ⟨s', hrun, -⟩ := searchInZone_eq (inRectVisitor env cb clusterCb rect epsilon) env.toPanDbEnv rect hasc hs hnil
    (⟨limit, contextCb⟩ : SearchContext σ)
  rw [findInRect, if_neg (by omega), hnew]
  simp only [inRectZones, if_pos hflat, searchZones, findInRectInZone, hrun]
  rw [proceed_pure]

end Pincaster
