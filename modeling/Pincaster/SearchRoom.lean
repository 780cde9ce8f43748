import Pincaster.RectScan
import Pincaster.SearchCallbacks
/-!
# SearchRoom — no assertion of a search fails

In a tree that is not too deep the stack has room for the quad nodes that wait, whatever the callbacks return; so a
search whose callbacks fail no assertion fails none (`findNear_isSome`, `findInRect_isSome`).
-/
namespace Pincaster

variable {D κ σ τ ρ : Type}

theorem proceed_isSome {r : Option Int × τ} {step : τ → Option Int × τ} (h : r.1.isSome = true)
    (hstep : ∀ c, (step c).1.isSome = true) : (proceed r step).1.isSome = true := by
  unfold proceed
  split
  · exact hstep r.2
  · exact h

theorem foreachInBucket_isSome {cb : Slot D κ → σ → Option Int × σ} : ∀ {entries : List (Nat × Slot D κ)},
    (∀ e ∈ entries, ∀ c, (cb e.2 c).1.isSome = true) → ∀ c, (foreachInBucket cb entries c).1.isSome = true
  | [], _, _ => rfl
  | _ :: _, h, c => proceed_isSome (h _ List.mem_cons_self c)
      (foreachInBucket_isSome (fun e he => h e (List.mem_cons_of_mem _ he)))

theorem walkPushed_isSome {walk : Nat → Fin 4 → σ → Option Int × σ} {height : Nat} : ∀ {ts : List (Fin 4)},
    (∀ t ∈ ts, ∀ n < ts.length, ∀ c, (walk (height + n) t c).1.isSome = true) →
    ∀ c, (walkPushed walk height ts c).1.isSome = true
  | [], _, _ => rfl
  | t :: ts, h, c => by
    refine proceed_isSome (h t List.mem_cons_self _ (by simp) c) (walkPushed_isSome (fun u hu n hn => ?_))
    exact h u (List.mem_cons_of_mem t hu) n (by rw [List.length_cons]; omega)

section
variable [LinearOrder D]

/-- A visitor no assertion of which fails for the slots of a tree. -/
structure ZoneVisitor.Safe (visitor : ZoneVisitor D κ σ ρ) (db : PanDB D κ) : Prop where
  slot : ∀ slot, InBuckets db slot → ∀ c, (visitor.slot slot c).1.isSome = true
  cluster : ∀ q qrect c, (visitor.cluster q qrect c).1.isSome = true

variable {visitor : ZoneVisitor D κ σ ρ} {env : PanDbEnv D κ} {db : PanDB D κ} {zone : Rectangle2D D}

theorem visitChild_isSome (hsafe : visitor.Safe db) {child : Nat} {n : Node D κ}
    (hn : db.nodes.cells child = some n) (qrect : Rectangle2D D) (c : σ) :
    (visitChild visitor env db zone child qrect c).1.isSome = true := by
  unfold visitChild
  split
  · rfl
  · rw [hn]
    cases n with
    | bucketNode b =>
      refine foreachInBucket_isSome (fun e he => hsafe.slot e.2 ⟨child, b, bucketNode_eq_some.2 hn, ?_⟩) c
      exact List.mem_map_of_mem ((env.order_perm b.entries).mem_iff.1 he)
    | quadNode q => exact hsafe.cluster q qrect c

theorem isPushed_quadNode {entered : ρ} {child : Nat} {qrect : Rectangle2D D}
    (h : isPushed visitor db zone entered child qrect = true) : ∃ q, db.quadNode child = some q := by
  rw [isPushed, Bool.and_eq_true] at h
  obtain ⟨-, hquad⟩ := h
  split at hquad
  · rename_i q hcell
    exact ⟨q, quadNode_eq_some.2 hcell⟩
  · cases hquad

theorem walkChildren_isSome (hsafe : visitor.Safe db) (entered : ρ) {q : QuadNode} {qrects : Fin 4 → Rectangle2D D} :
    ∀ {height : Nat} {ts : List (Fin 4)}, (∀ t ∈ ts, ∃ n, db.nodes.cells (q.nodes t) = some n) →
    ((∃ t ∈ ts, isPushed visitor db zone entered (q.nodes t) (qrects t) = true) →
      height + ts.length ≤ SEARCH_STACK_ROOM) →
    ∀ c, (walkChildren visitor env db zone entered q qrects height ts c).1.isSome = true
  | _, [], _, _, _ => rfl
  | height, t :: ts, hnodes, hroom, c => by
    obtain ⟨⟨n, hn⟩, hrest⟩ := List.forall_mem_cons.1 hnodes
    rw [walkChildren]
    split
    · rename_i hpush
      have hle := hroom ⟨t, List.mem_cons_self, hpush⟩
      rw [List.length_cons] at hle
      rw [if_pos (by omega)]
      exact walkChildren_isSome hsafe entered hrest (fun _ => by omega) c
    · refine proceed_isSome (visitChild_isSome hsafe hn _ c) (walkChildren_isSome hsafe entered hrest (fun hsome => ?_))
      obtain ⟨u, hu, hpush⟩ := hsome
      have hle := hroom ⟨u, List.mem_cons_of_mem t hu, hpush⟩
      rw [List.length_cons] at hle
      omega

/-- **The stack has room below a node** of a tree that is not too deep, with clusters or without. -/
theorem walkNode_isSome {pos : κ → Option (Position2D D)} {cell : Nat → Rectangle2D D} (h : Stable env db pos cell)
    (hmax : QuadsWithin env db 56) (hsafe : visitor.Safe db) : ∀ (fuel : Nat) {height depth node : Nat}
    {rect : Rectangle2D D} {q : QuadNode}, NodeAt env db depth node rect → db.quadNode node = some q →
    height ≤ 3 * depth → db.nodes.brk < node + fuel →
    ∀ c, (walkNode visitor env db zone fuel height node rect c).1.isSome = true
  | 0, _, _, node, _, q, _, hq, _, hfuel, _ => by
    have hlt := Lib.Heap.lt_brk (quadNode_eq_some.1 hq)
    omega
  | fuel + 1, height, depth, node, rect, q, hnode, hq, hheight, hfuel, c => by
    have hchild : ∀ t, NodeAt env db (depth + 1) (q.nodes t) (getQrectsFromQbounds env.midpoint rect t) :=
      fun t => hnode.child t hq
    rw [walkNode, hq]
    refine proceed_isSome (walkChildren_isSome hsafe _ (fun t _ => (hchild t).exists_node h) ?_ c)
      (walkPushed_isSome ?_)
    · rintro ⟨t, -, ht⟩
      obtain ⟨q', hq'⟩ := isPushed_quadNode ht
      have hdeep := hmax _ _ _ _ (hchild t) hq'
      simp only [List.length_cons, List.length_nil]
      rw [SEARCH_STACK_ROOM]
      omega
    · intro t ht n hn c'
      rw [List.mem_reverse, List.mem_filter] at ht
      obtain ⟨q', hq'⟩ := isPushed_quadNode ht.2
      have hlt := ((h.shape.child _ _ _ (shape_of_cells (quadNode_eq_some.1 hq))) t).1
      have hle := List.length_filter_le (fun t => isPushed visitor db zone (visitor.enter c) (q.nodes t)
        (getQrectsFromQbounds env.midpoint rect t)) [0, 1, 2, 3]
      rw [List.length_reverse] at hn
      simp only [List.length_cons, List.length_nil] at hle
      exact walkNode_isSome h hmax hsafe fuel (hchild t) hq' (by omega) (by omega) c'

/-- A walk from the root, with an empty stack. -/
theorem searchInZone_isSome {pos : κ → Option (Position2D D)} {cell : Nat → Rectangle2D D} (h : Stable env db pos cell)
    (hmax : QuadsWithin env db 56) (hsafe : visitor.Safe db) {s : PntStack (QuadNodeWithBounds D)}
    (hs : SearchStack s) (hnil : s.elements = []) (c : σ) :
    (searchInZone visitor env db zone (s, c)).1.isSome = true ∧
      ((searchInZone visitor env db zone (s, c)).1 = some 0 →
        SearchStack (searchInZone visitor env db zone (s, c)).2.1 ∧
        (searchInZone visitor env db zone (s, c)).2.1.elements = []) := by
  obtain ⟨nodes, hroot⟩ := h.shape.rootNode
  obtain ⟨q, hq, -⟩ := quadNode_of_shape hroot
  have hwalk : (walkNode visitor env db zone (db.nodes.brk + 1) 0 db.root env.qbounds c).1.isSome = true :=
    walkNode_isSome h hmax hsafe (db.nodes.brk + 1) .root (quadNode_eq_some.2 hq) (Nat.zero_le _) (by omega) c
  obtain ⟨s', hrun, hend⟩ := searchInZone_eq visitor env zone (ascending_of_stable h) hs hnil c
  rw [hrun]
  exact ⟨hwalk, hend⟩

omit [LinearOrder D] in
theorem searchZones_isSome {inZone : Rectangle2D D → PntStack (QuadNodeWithBounds D) × σ →
    Option Int × PntStack (QuadNodeWithBounds D) × σ}
    (hzone : ∀ zone s c, SearchStack s → s.elements = [] → (inZone zone (s, c)).1.isSome = true ∧
      ((inZone zone (s, c)).1 = some 0 →
        SearchStack (inZone zone (s, c)).2.1 ∧ (inZone zone (s, c)).2.1.elements = [])) :
    ∀ (zones : List (Rectangle2D D)) {s : PntStack (QuadNodeWithBounds D)} (c : σ), SearchStack s → s.elements = [] →
    (searchZones inZone zones (s, c)).1.isSome = true
  | [], _, _, _, _ => rfl
  | zone :: zones, s, c, hs, hnil => by
    obtain ⟨hsome, hend⟩ := hzone zone s c hs hnil
    rw [searchZones, proceed]
    split
    · rename_i hret
      obtain ⟨hs', hnil'⟩ := hend hret
      exact searchZones_isSome hzone zones _ hs' hnil'
    · exact hsome

end

section
variable [Field D] [LinearOrder D] {env : SearchEnv D κ} {db : PanDB D κ} {pos : κ → Option (Position2D D)}
  {cell : Nat → Rectangle2D D} {cb : σ → Slot D κ → Meters D → Option Int × σ}

/-- A callback for slots no assertion of which fails for those of a tree. -/
def CbSafe (db : PanDB D κ) (cb : σ → Slot D κ → Meters D → Option Int × σ) : Prop :=
  ∀ slot, InBuckets db slot → ∀ c distance, (cb c slot distance).1.isSome = true

omit [Field D] [LinearOrder D] in
theorem counted_isSome {r : Option Int × σ} (h : r.1.isSome = true) (limit : Nat) :
    (if r.1 ≠ some 0 then (r.1, (⟨limit, r.2⟩ : SearchContext σ))
      else (if limit ≤ 1 then some 1 else some 0, ⟨limit - 1, r.2⟩)).1.isSome = true := by
  split
  · exact h
  · dsimp only
    split <;> rfl

theorem nearVisitor_safe (hcb : CbSafe db cb) (position : Position2D D) (distance : D) :
    (nearVisitor env cb position distance).Safe db := by
  refine ⟨fun slot hslot c => ?_, fun _ _ _ => rfl⟩
  have hsome := hcb slot hslot c.contextCb (nearDistance env position slot.position)
  change (findNearContextCb env cb position distance slot c).1.isSome = true
  simp only [findNearContextCb]
  split
  · exact counted_isSome hsome c.limit
  · rfl

/-- **No assertion of `find_near` fails** in a tree that is not too deep. -/
theorem findNear_isSome (h : Stable env.toPanDbEnv db pos cell) (hmax : QuadsWithin env.toPanDbEnv db 56)
    (hcb : CbSafe db cb) (c : σ) (position : Position2D D) (distance : D) (limit : Nat) :
    (findNear env db cb c position distance limit).1.isSome = true := by
  obtain ⟨s, hnew, hs, hnil⟩ := newSearchStack_spec (D := D)
  unfold findNear
  rw [hnew]
  split
  · rfl
  · refine searchZones_isSome (fun zone s c hs hnil => ?_) (nearZones env position distance) c hs hnil
    exact searchInZone_isSome h hmax (nearVisitor_safe hcb position distance) hs hnil (⟨limit, c⟩ : SearchContext σ)

theorem inRectVisitor_safe (hcb : CbSafe db cb) {clusterCb : σ → Position2D D → Meters D → Nat → Option Int × σ}
    (hcluster : ∀ c position radius children, (clusterCb c position radius children).1.isSome = true)
    (rect : Rectangle2D D) (epsilon : D) : (inRectVisitor env cb clusterCb rect epsilon).Safe db := by
  refine ⟨fun slot hslot c => ?_, fun q qrect c => ?_⟩
  · have hsome := hcb slot hslot c.contextCb (inRectDistance env rect slot.position)
    change (findInRectContextCb env cb rect slot c).1.isSome = true
    simp only [findInRectContextCb]
    split
    · rfl
    · split
      · split
        · rfl
        · exact hsome
      · rfl
  · change (findInRectClusterContextCb env clusterCb q qrect c).1.isSome = true
    simp only [findInRectClusterContextCb]
    split
    · rfl
    · exact counted_isSome (hcluster c.contextCb (rectCenter qrect) _ (q.subSlots % 2 ^ 32)) c.limit

/-- **No assertion of `find_in_rect` fails** in a tree that is not too deep. -/
theorem findInRect_isSome (h : Stable env.toPanDbEnv db pos cell) (hmax : QuadsWithin env.toPanDbEnv db 56)
    (hcb : CbSafe db cb) {clusterCb : σ → Position2D D → Meters D → Nat → Option Int × σ}
    (hcluster : ∀ c position radius children, (clusterCb c position radius children).1.isSome = true) (c : σ)
    (rect : Rectangle2D D) (limit : Nat) (epsilon : D) :
    (findInRect env db cb clusterCb c rect limit epsilon).1.isSome = true := by
  obtain ⟨s, hnew, hs, hnil⟩ := newSearchStack_spec (D := D)
  unfold findInRect
  rw [hnew]
  split
  · rfl
  · refine searchZones_isSome (fun zone s c hs hnil => ?_) (inRectZones env rect) c hs hnil
    exact searchInZone_isSome h hmax (inRectVisitor_safe hcb hcluster zone epsilon) hs hnil
      (⟨limit, c⟩ : SearchContext σ)

end

end Pincaster
