import Pincaster.SearchLaws
/-!
# SearchCallbacks — a search does the same with callbacks that do the same

What a search does depends on its callbacks only through what they return.  Two callbacks that return the same for the
slots of the tree, and keep their contexts related, leave related contexts (`findNear_alike`, `findInRect_alike`).
-/
namespace Pincaster

variable {D κ σ σ' τ τ' ρ : Type}

/-! ## Steps -/

/-- A step and another one that return the same and leave related contexts. -/
def Alike (R : τ → τ' → Prop) (r : Option Int × τ) (r' : Option Int × τ') : Prop := r.1 = r'.1 ∧ R r.2 r'.2

theorem Alike.proceed {R : τ → τ' → Prop} {r : Option Int × τ} {r' : Option Int × τ'} (h : Alike R r r')
    {step : τ → Option Int × τ} {step' : τ' → Option Int × τ'}
    (hstep : ∀ {c c'}, R c c' → Alike R (step c) (step' c')) : Alike R (proceed r step) (proceed r' step') := by
  obtain ⟨hret, hr⟩ := h
  by_cases hzero : r.1 = some 0
  · rw [Pincaster.proceed, if_pos hzero, Pincaster.proceed, if_pos (hret.symm.trans hzero)]
    exact hstep hr
  · rw [proceed_of_ne hzero, proceed_of_ne (fun h => hzero (hret.trans h))]
    exact ⟨hret, hr⟩

/-- Some slots, one after the other. -/
theorem foreachInBucket_alike {R : σ → σ' → Prop} {cb : Slot D κ → σ → Option Int × σ}
    {cb' : Slot D κ → σ' → Option Int × σ'} : ∀ {entries : List (Nat × Slot D κ)},
    (∀ e ∈ entries, ∀ {c c'}, R c c' → Alike R (cb e.2 c) (cb' e.2 c')) → ∀ {c : σ} {c' : σ'}, R c c' →
    Alike R (foreachInBucket cb entries c) (foreachInBucket cb' entries c')
  | [], _, _, _, hc => ⟨rfl, hc⟩
  | (_, _) :: _, h, _, _, hc => (h _ List.mem_cons_self hc).proceed
      (fun hc => foreachInBucket_alike (fun e he => h e (List.mem_cons_of_mem _ he)) hc)

section
variable [LinearOrder D]

/-! ## One zone -/

/-- Visitors that do the same with the slots in question. -/
structure ZoneVisitor.Alike (slots : Slot D κ → Prop) (R : σ → σ' → Prop) (visitor : ZoneVisitor D κ σ ρ)
    (visitor' : ZoneVisitor D κ σ' ρ) : Prop where
  enter : ∀ {c c'}, R c c' → visitor.enter c = visitor'.enter c'
  clusters : visitor.clusters = visitor'.clusters
  cluster : ∀ entered q qrect, visitor.clusters entered q qrect = true → ∀ {c c'}, R c c' →
    Pincaster.Alike R (visitor.cluster q qrect c) (visitor'.cluster q qrect c')
  slot : ∀ slot, slots slot → ∀ {c c'}, R c c' → Pincaster.Alike R (visitor.slot slot c) (visitor'.slot slot c')

/-- The slots in the buckets of a tree. -/
def InBuckets (db : PanDB D κ) (slot : Slot D κ) : Prop :=
  ∃ x b, db.bucketNode x = some b ∧ slot ∈ b.entries.map Prod.snd

/-- The stacks are equal and the contexts related. -/
def Scanned (R : σ → σ' → Prop) (s : PntStack (QuadNodeWithBounds D) × σ) (s' : PntStack (QuadNodeWithBounds D) × σ') :
    Prop := s.1 = s'.1 ∧ R s.2 s'.2

variable {env : PanDbEnv D κ} {db : PanDB D κ} {zone : Rectangle2D D} {R : σ → σ' → Prop}
  {visitor : ZoneVisitor D κ σ ρ}
  {visitor' : ZoneVisitor D κ σ' ρ} {s : PntStack (QuadNodeWithBounds D) × σ}
  {s' : PntStack (QuadNodeWithBounds D) × σ'}

theorem scanChild_alike (h : visitor.Alike (InBuckets db) R visitor') (entered : ρ) (child : Nat)
    (qrect : Rectangle2D D)
    (hs : Scanned R s s') : Alike (Scanned R) (scanChild visitor env db zone entered child qrect s)
      (scanChild visitor' env db zone entered child qrect s') := by
  obtain ⟨stack, c⟩ := s
  obtain ⟨stack', c'⟩ := s'
  obtain ⟨hstack, hc⟩ := hs
  simp only at hstack hc
  subst hstack
  unfold scanChild
  split
  · exact ⟨rfl, rfl, hc⟩
  · cases hcell : db.nodes.cells child with
    | none => exact ⟨rfl, rfl, hc⟩
    | some node =>
      cases node with
      | bucketNode b =>
        have hslots : ∀ e ∈ env.order b.entries, InBuckets db e.2 := fun e he =>
          ⟨child, b, bucketNode_eq_some.2 hcell, List.mem_map_of_mem ((env.order_perm b.entries).mem_iff.1 he)⟩
        obtain ⟨hret, hleft⟩ := foreachInBucket_alike (fun e he _ _ hc => h.slot e.2 (hslots e he) hc) hc
        exact ⟨hret, rfl, hleft⟩
      | quadNode q =>
        simp only [← h.clusters]
        split
        · rename_i hcluster
          obtain ⟨hret, hleft⟩ := h.cluster entered q qrect hcluster hc
          exact ⟨hret, rfl, hleft⟩
        · cases pushPntStack stack ⟨child, qrect⟩ with
          | none => exact ⟨rfl, rfl, hc⟩
          | some p => exact ⟨rfl, rfl, hc⟩

theorem scanChildren_alike (h : visitor.Alike (InBuckets db) R visitor') (entered : ρ) (q : QuadNode)
    (qrects : Fin 4 → Rectangle2D D) : ∀ (ts : List (Fin 4)) {s : PntStack (QuadNodeWithBounds D) × σ}
    {s' : PntStack (QuadNodeWithBounds D) × σ'}, Scanned R s s' →
    Alike (Scanned R) (scanChildren visitor env db zone entered q qrects ts s)
      (scanChildren visitor' env db zone entered q qrects ts s')
  | [], _, _, hs => ⟨rfl, hs⟩
  | t :: ts, _, _, hs => (scanChild_alike h entered (q.nodes t) (qrects t) hs).proceed
      (fun hs => scanChildren_alike h entered q qrects ts hs)

theorem scanZone_alike (h : visitor.Alike (InBuckets db) R visitor') : ∀ (fuel node : Nat) (rect : Rectangle2D D)
    {s : PntStack (QuadNodeWithBounds D) × σ} {s' : PntStack (QuadNodeWithBounds D) × σ'}, Scanned R s s' →
    Alike (Scanned R) (scanZone visitor env db zone fuel node rect s) (scanZone visitor' env db zone fuel node rect s')
  | 0, _, _, _, _, hs => ⟨rfl, hs⟩
  | fuel + 1, node, rect, s, s', hs => by
    rw [scanZone, scanZone, h.enter hs.2]
    cases db.quadNode node with
    | none => exact ⟨rfl, hs⟩
    | some q =>
      refine (scanChildren_alike h (visitor'.enter s'.2) q _ [0, 1, 2, 3] hs).proceed (fun {c c'} hc => ?_)
      obtain ⟨stack, context⟩ := c
      obtain ⟨stack', context'⟩ := c'
      obtain ⟨hstack, hcontext⟩ := hc
      simp only at hstack hcontext
      subst hstack
      rcases popPntStack stack with ⟨rest, - | sqnb⟩
      · exact ⟨rfl, rfl, hcontext⟩
      · exact scanZone_alike h fuel sqnb.quadNode sqnb.qrect ⟨rfl, hcontext⟩

/-- **One zone.** -/
theorem searchInZone_alike (h : visitor.Alike (InBuckets db) R visitor') (hs : Scanned R s s') :
    Alike (Scanned R) (searchInZone visitor env db zone s) (searchInZone visitor' env db zone s') :=
  scanZone_alike h _ _ _ hs

omit [LinearOrder D] in
/-- All zones. -/
theorem searchZones_alike {inZone : Rectangle2D D → PntStack (QuadNodeWithBounds D) × σ →
      Option Int × PntStack (QuadNodeWithBounds D) × σ}
        {inZone' : Rectangle2D D → PntStack (QuadNodeWithBounds D) × σ' →
      Option Int × PntStack (QuadNodeWithBounds D) × σ'} : ∀ {zones : List (Rectangle2D D)},
    (∀ zone ∈ zones, ∀ {s s'}, Scanned R s s' → Alike (Scanned R) (inZone zone s) (inZone' zone s')) →
    ∀ {s s'}, Scanned R s s' → Alike (Scanned R) (searchZones inZone zones s) (searchZones inZone' zones s')
  | [], _, _, _, hs => ⟨rfl, hs⟩
  | zone :: _, h, _, _, hs => (h zone List.mem_cons_self hs).proceed
      (fun hs => searchZones_alike (fun zone hzone => h zone (List.mem_cons_of_mem _ hzone)) hs)

end

/-! ## Searches -/

/-- The limits are equal and the contexts of the callbacks related. -/
def SearchContext.Alike (R : σ → σ' → Prop) (c : SearchContext σ) (c' : SearchContext σ') : Prop :=
  c.limit = c'.limit ∧ R c.contextCb c'.contextCb

/-- A callback has been called, and what it returns is looked at. -/
theorem counted_alike {R : σ → σ' → Prop} {r : Option Int × σ} {r' : Option Int × σ'} (h : Alike R r r') (limit : Nat) :
    Alike (SearchContext.Alike R)
      (if r.1 ≠ some 0 then (r.1, ⟨limit, r.2⟩) else (if limit ≤ 1 then some 1 else some 0, ⟨limit - 1, r.2⟩))
      (if r'.1 ≠ some 0 then (r'.1, ⟨limit, r'.2⟩) else (if limit ≤ 1 then some 1 else some 0, ⟨limit - 1, r'.2⟩)) := by
  obtain ⟨hret, hr⟩ := h
  rw [hret]
  split
  · exact ⟨rfl, rfl, hr⟩
  · exact ⟨rfl, rfl, hr⟩

section
variable [Field D] [LinearOrder D] {env : SearchEnv D κ} {db : PanDB D κ} {R : σ → σ' → Prop}
  {cb : σ → Slot D κ → Meters D → Option Int × σ} {cb' : σ' → Slot D κ → Meters D → Option Int × σ'}

theorem findNearContextCb_alike {position : Position2D D} {distance : D} {slot : Slot D κ}
    (hcb : ∀ {c c'}, R c c' → Alike R (cb c slot (nearDistance env position slot.position))
      (cb' c' slot (nearDistance env position slot.position)))
    {c : SearchContext σ} {c' : SearchContext σ'} (hc : c.Alike R c') :
    Alike (SearchContext.Alike R) (findNearContextCb env cb position distance slot c)
      (findNearContextCb env cb' position distance slot c') := by
  obtain ⟨hlimit, hcontext⟩ := hc
  unfold findNearContextCb
  simp only [hlimit]
  split
  · exact counted_alike (hcb hcontext) c'.limit
  · exact ⟨rfl, hlimit, hcontext⟩

/-- The distance that `find_in_rect` computes for a slot. -/
def inRectDistance (env : SearchEnv D κ) (rect : Rectangle2D D) (slotPosition : Position2D D) : Meters D :=
  match env.layerType with
  | .spherical | .ellipsoidal =>
    .ofDimension (rhomboidDistanceBetweenGeoidalPositions env (rectCenter rect) slotPosition)
  | .flat | .flatwrap => distanceBetweenFlatPositions env (rectCenter rect) slotPosition

theorem findInRectContextCb_alike {rect : Rectangle2D D} {slot : Slot D κ}
    (hcb : ∀ {c c'}, R c c' → Alike R (cb c slot (inRectDistance env rect slot.position))
      (cb' c' slot (inRectDistance env rect slot.position)))
    {c : SearchContext σ} {c' : SearchContext σ'} (hc : c.Alike R c') :
    Alike (SearchContext.Alike R) (findInRectContextCb env cb rect slot c)
      (findInRectContextCb env cb' rect slot c') := by
  obtain ⟨hlimit, hcontext⟩ := hc
  obtain ⟨hret, hleft⟩ := hcb hcontext
  unfold findInRectContextCb
  simp only [hlimit]
  split
  · exact ⟨rfl, hlimit, hcontext⟩
  · split
    · split
      · exact ⟨rfl, hlimit, hcontext⟩
      · exact ⟨hret, rfl, hleft⟩
    · exact ⟨rfl, hlimit, hcontext⟩

theorem findInRectClusterContextCb_alike {clusterCb : σ → Position2D D → Meters D → Nat → Option Int × σ}
    {clusterCb' : σ' → Position2D D → Meters D → Nat → Option Int × σ'}
    (hcluster : ∀ position radius children {c c'}, R c c' → Alike R (clusterCb c position radius children)
      (clusterCb' c' position radius children)) (q : QuadNode) (rect : Rectangle2D D)
    {c : SearchContext σ} {c' : SearchContext σ'} (hc : c.Alike R c') :
    Alike (SearchContext.Alike R) (findInRectClusterContextCb env clusterCb q rect c)
      (findInRectClusterContextCb env clusterCb' q rect c') := by
  obtain ⟨hlimit, hcontext⟩ := hc
  unfold findInRectClusterContextCb
  simp only [hlimit]
  split
  · exact ⟨rfl, hlimit, hcontext⟩
  · exact counted_alike (hcluster (rectCenter rect) _ (q.subSlots % 2 ^ 32) hcontext) c'.limit

/-- The slots of a tree, for callbacks that need their distances. -/
def CbAlike (db : PanDB D κ) (distanceOf : Position2D D → Meters D) (R : σ → σ' → Prop)
    (cb : σ → Slot D κ → Meters D → Option Int × σ) (cb' : σ' → Slot D κ → Meters D → Option Int × σ') : Prop :=
  ∀ slot, InBuckets db slot → ∀ {c c'}, R c c' →
    Alike R (cb c slot (distanceOf slot.position)) (cb' c' slot (distanceOf slot.position))

theorem findNearInZone_alike {position : Position2D D} (hcb : CbAlike db (nearDistance env position) R cb cb')
    (distance : D) (limit : Nat) (zone : Rectangle2D D) {s : PntStack (QuadNodeWithBounds D) × σ}
    {s' : PntStack (QuadNodeWithBounds D) × σ'} (hs : Scanned R s s') :
    Alike (Scanned R) (findNearInZone env db cb position distance limit zone s)
      (findNearInZone env db cb' position distance limit zone s') := by
  have hvisitor : (nearVisitor env cb position distance).Alike (InBuckets db) (SearchContext.Alike R)
      (nearVisitor env cb' position distance) :=
    ⟨fun _ => rfl, rfl, fun _ _ _ _ _ _ hc => ⟨rfl, hc⟩, fun slot hslot _ _ hc =>
      findNearContextCb_alike (fun hc => hcb slot hslot hc) hc⟩
  have hscanned : Scanned (SearchContext.Alike R) (s.1, (⟨limit, s.2⟩ : SearchContext σ))
      (s'.1, (⟨limit, s'.2⟩ : SearchContext σ')) := ⟨hs.1, rfl, hs.2⟩
  obtain ⟨hret, hstack, -, hleft⟩ : Alike (Scanned (SearchContext.Alike R))
      (searchInZone (nearVisitor env cb position distance) env.toPanDbEnv db zone (s.1, ⟨limit, s.2⟩))
      (searchInZone (nearVisitor env cb' position distance) env.toPanDbEnv db zone (s'.1, ⟨limit, s'.2⟩)) :=
    searchInZone_alike hvisitor hscanned
  exact ⟨hret, hstack, hleft⟩

/-- **`find_near` with two callbacks.** -/
theorem findNear_alike {position : Position2D D} (hcb : CbAlike db (nearDistance env position) R cb cb') (distance : D)
    (limit : Nat) {c : σ} {c' : σ'} (hc : R c c') :
    Alike R (findNear env db cb c position distance limit) (findNear env db cb' c' position distance limit) := by
  unfold findNear
  split
  · exact ⟨rfl, hc⟩
  · cases (newSearchStack : Option (PntStack (QuadNodeWithBounds D))) with
    | none => exact ⟨rfl, hc⟩
    | some stack =>
      have hscanned : Scanned R (stack, c) (stack, c') := ⟨rfl, hc⟩
      obtain ⟨hret, -, hleft⟩ := searchZones_alike
        (fun zone (_ : zone ∈ nearZones env position distance) _ _ hs =>
          findNearInZone_alike hcb distance limit zone hs)
        hscanned
      exact ⟨hret, hleft⟩

theorem findInRectInZone_alike {clusterCb : σ → Position2D D → Meters D → Nat → Option Int × σ}
    {clusterCb' : σ' → Position2D D → Meters D → Nat → Option Int × σ'} {zone : Rectangle2D D}
    (hcb : CbAlike db (inRectDistance env zone) R cb cb')
    (limit : Nat) {epsilon : D} (hcluster : 0 < epsilon → ∀ position radius children {c c'}, R c c' →
      Alike R (clusterCb c position radius children) (clusterCb' c' position radius children))
        {s : PntStack (QuadNodeWithBounds D) × σ}
    {s' : PntStack (QuadNodeWithBounds D) × σ'} (hs : Scanned R s s') :
    Alike (Scanned R) (findInRectInZone env db cb clusterCb limit epsilon zone s)
      (findInRectInZone env db cb' clusterCb' limit epsilon zone s') := by
  have hvisitor : (inRectVisitor env cb clusterCb zone epsilon).Alike (InBuckets db) (SearchContext.Alike R)
      (inRectVisitor env cb' clusterCb' zone epsilon) :=
    ⟨fun hc => by simp only [inRectVisitor, hc.1], rfl,
      fun entered q qrect hclusters _ _ hc =>
        findInRectClusterContextCb_alike (hcluster (of_decide_eq_true hclusters).1) q qrect hc,
      fun slot hslot _ _ hc => findInRectContextCb_alike (fun hc => hcb slot hslot hc) hc⟩
  have hscanned : Scanned (SearchContext.Alike R) (s.1, (⟨limit, s.2⟩ : SearchContext σ))
      (s'.1, (⟨limit, s'.2⟩ : SearchContext σ')) := ⟨hs.1, rfl, hs.2⟩
  obtain ⟨hret, hstack, -, hleft⟩ : Alike (Scanned (SearchContext.Alike R))
      (searchInZone (inRectVisitor env cb clusterCb zone epsilon) env.toPanDbEnv db zone (s.1, ⟨limit, s.2⟩))
      (searchInZone (inRectVisitor env cb' clusterCb' zone epsilon) env.toPanDbEnv db zone (s'.1, ⟨limit, s'.2⟩)) :=
    searchInZone_alike hvisitor hscanned
  exact ⟨hret, hstack, hleft⟩

/-- **`find_in_rect` with two callbacks for the slots and two for the clusters.** -/
theorem findInRect_alike {clusterCb : σ → Position2D D → Meters D → Nat → Option Int × σ}
    {clusterCb' : σ' → Position2D D → Meters D → Nat → Option Int × σ'} {rect : Rectangle2D D}
    (hcb : ∀ zone ∈ inRectZones env rect, CbAlike db (inRectDistance env zone) R cb cb')
    (limit : Nat) {epsilon : D} (hcluster : 0 < epsilon → ∀ position radius children {c c'}, R c c' →
      Alike R (clusterCb c position radius children) (clusterCb' c' position radius children)) {c : σ} {c' : σ'}
        (hc : R c c') :
    Alike R (findInRect env db cb clusterCb c rect limit epsilon)
      (findInRect env db cb' clusterCb' c' rect limit epsilon) := by
  unfold findInRect
  split
  · exact ⟨rfl, hc⟩
  · cases (newSearchStack : Option (PntStack (QuadNodeWithBounds D))) with
    | none => exact ⟨rfl, hc⟩
    | some stack =>
      have hscanned : Scanned R (stack, c) (stack, c') := ⟨rfl, hc⟩
      obtain ⟨hret, -, hleft⟩ := searchZones_alike (fun zone (hzone : zone ∈ inRectZones env rect) _ _ hs =>
        findInRectInZone_alike (hcb zone hzone) limit hcluster hs) hscanned
      exact ⟨hret, hleft⟩

end

end Pincaster
