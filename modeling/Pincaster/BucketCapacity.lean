import Pincaster.SearchClusters
/-!
# BucketCapacity — how many slots a bucket holds

The bucket size is the largest number of items of a node.  An insertion splits a full bucket once and adds its slot to a
quarter without a look at it, so that a bucket has too many slots as soon as all slots of a full one share the quarter
of a new one (`bucket_capacity_iff`).
-/
namespace Pincaster

variable {D κ : Type} [LinearOrder D]

/-! ## The slots in a cell -/

/-- The key nodes whose position is in a rectangle. -/
def keysIn (pos : κ → Option (Position2D D)) (rect : Rectangle2D D) : Set κ :=
  {k | ∃ position, pos k = some position ∧ positionIsInRect position rect}

section
variable {pos : κ → Option (Position2D D)} {rect : Rectangle2D D} {k : κ} {position : Position2D D}

theorem not_mem_keysIn (hk : pos k = none) : k ∉ keysIn pos rect := by
  rintro ⟨p, hp, -⟩
  rw [hk] at hp
  cases hp

variable [DecidableEq κ]

theorem keysIn_update (hk : pos k = none) : keysIn (Function.update pos k (some position)) rect =
    if positionIsInRect position rect then insert k (keysIn pos rect) else keysIn pos rect := by
  ext k'
  by_cases hkk : k' = k
  · subst hkk
    have hnot : k' ∉ keysIn pos rect := not_mem_keysIn hk
    split_ifs with hin
    · exact iff_of_true ⟨position, Function.update_self .., hin⟩ (Set.mem_insert _ _)
    · refine iff_of_false ?_ hnot
      rintro ⟨p, hp, hpin⟩
      rw [Function.update_self, Option.some.injEq] at hp
      exact hin (hp ▸ hpin)
  · have hsame : k' ∈ keysIn (Function.update pos k (some position)) rect ↔ k' ∈ keysIn pos rect := by
      change (∃ p, Function.update pos k _ k' = some p ∧ _) ↔ _
      rw [Function.update_of_ne hkk]
      rfl
    split_ifs
    · rw [hsame, Set.mem_insert_iff, or_iff_right hkk]
    · exact hsame

theorem keysIn_clear : keysIn (Function.update pos k none) rect ⊆ keysIn pos rect := by
  rintro k' ⟨p, hp, hin⟩
  by_cases hkk : k' = k
  · rw [hkk, Function.update_self] at hp
    cases hp
  · rw [Function.update_of_ne hkk] at hp
    exact ⟨p, hp, hin⟩

end

section
variable {env : PanDbEnv D κ} {db : PanDB D κ} {pos : κ → Option (Position2D D)} {cell : Nat → Rectangle2D D}

theorem finite_keysIn (h : Stable env db pos cell) (rect : Rectangle2D D) : (keysIn pos rect).Finite :=
  (finite_storedKeys h).subset (fun _ ⟨_, hp, _⟩ => mem_storedKeys (position_of_stable h ▸ hp))

theorem keysIn_part (hrect : (rect : Rectangle2D D).Ordered) (t : Fin 4) :
    keysIn pos (getQrectsFromQbounds env.midpoint rect t) ⊆ keysIn pos rect := by
  rintro k ⟨p, hp, hin⟩
  exact ⟨p, hp, isInRect_of_getQrects hrect hin⟩

/-- A position is in the cell of one bucket only. -/
theorem bucket_unique (h : Stable env db pos cell) {position : Position2D D} {x y : Nat} {b c : BucketNode D κ}
    (hb : db.bucketNode x = some b) (hc : db.bucketNode y = some c) (hx : positionIsInRect position (cell x))
    (hy : positionIsInRect position (cell y)) : x = y :=
  (cellOf_of_stable h _ _ (bucketNode_eq_some.1 hb)).unique ⟨env.latitude_le, env.longitude_le⟩ hb hx
    (cellOf_of_stable h _ _ (bucketNode_eq_some.1 hc)) hc hy

/-- The entries of a bucket are the slots in its cell. -/
theorem mem_keysIn_iff (h : Stable env db pos cell) {x : Nat} {b : BucketNode D κ} (hb : db.bucketNode x = some b)
    {k : κ} : k ∈ keysIn pos (cell x) ↔ ∃ e ∈ b.entries, e.2.keyNode = some k ∧ pos k = some e.2.position ∧
      db.slots k = some ⟨x, e.1⟩ := by
  constructor
  · rintro ⟨p, hp, hin⟩
    obtain ⟨ptr, b', slot, hslot, hb', hmem, hkey, hpos, hin'⟩ := exists_slot h hp
    obtain rfl : ptr.bucket = x := bucket_unique h hb' hb hin' hin
    rw [hb, Option.some.injEq] at hb'
    subst hb'
    exact ⟨_, hmem, hkey, hpos ▸ hp, hslot⟩
  · rintro ⟨e, he, -, hp, -⟩
    exact ⟨_, hp, (h.located.entry hb e he).1⟩

/-- **A bucket counts the slots in its cell.** -/
theorem ncard_keysIn (h : Stable env db pos cell) {x : Nat} {b : BucketNode D κ} (hb : db.bucketNode x = some b) :
    (keysIn pos (cell x)).ncard = b.busySlots := by
  classical
  have hwf := h.located.wellFormed hb
  have himage : db.slots '' keysIn pos (cell x) =
      (((b.entries.map Prod.fst).map (fun n => some (⟨x, n⟩ : SlotPtr))).toFinset : Set (Option SlotPtr)) := by
    ext o
    simp only [Set.mem_image, mem_keysIn_iff h hb, Finset.mem_coe, List.mem_toFinset, List.map_map, List.mem_map,
      Function.comp]
    constructor
    · rintro ⟨k, ⟨e, he, -, -, hslot⟩, rfl⟩
      exact ⟨e, he, hslot.symm⟩
    · rintro ⟨e, he, rfl⟩
      obtain ⟨-, -, k, hk, -, hpos, hslot⟩ := h.located.entry hb e he
      exact ⟨k, ⟨e, he, hk, hpos, hslot (fun hf => hf)⟩, hslot (fun hf => hf)⟩
  have hinj : Set.InjOn db.slots (keysIn pos (cell x)) := by
    intro k hk k' _ heq
    obtain ⟨e, -, -, -, hslot⟩ := (mem_keysIn_iff h hb).1 hk
    exact h.located.key_unique (fun hf => hf) (fun hf => hf) hslot (heq ▸ hslot)
  have hptr : Function.Injective (fun n => some (⟨x, n⟩ : SlotPtr)) := fun m n hmn => by simpa using hmn
  rw [← hinj.ncard_image, himage, Set.ncard_coe_finset, List.toFinset_card_of_nodup (hwf.nodup.map hptr),
    List.length_map, List.length_map, hwf.busySlots]

end

/-! ## The bound -/

variable [Sub D]

/-- The rectangle is at least as high and as wide as the accuracies. -/
def AtLeastAccuracy (env : PanDbEnv D κ) (rect : Rectangle2D D) : Prop :=
  env.latitudeAccuracy ≤ rect.edge1.latitude - rect.edge0.latitude ∧
    env.longitudeAccuracy ≤ rect.edge1.longitude - rect.edge0.longitude

instance (env : PanDbEnv D κ) (rect : Rectangle2D D) : Decidable (AtLeastAccuracy env rect) :=
  inferInstanceAs (Decidable (_ ∧ _))

/-- **The capacity of the buckets**: one whose cell can be split holds at most `bucket_size` slots. -/
def BucketCapacity (env : PanDbEnv D κ) (db : PanDB D κ) : Prop :=
  ∀ x b rect, db.bucketNode x = some b → CellOf env db x rect → AtLeastAccuracy env rect → b.busySlots ≤ env.bucketSize

/-- An addition that splits a bucket finds one of its slots outside of the quarter of the new one, or the quarter is too
small to be split. -/
def SpreadOut (env : PanDbEnv D κ) (db : PanDB D κ) : PanDbOp D κ → Prop
  | .addSlot _ position => ∀ x b rect t, db.bucketNode x = some b → CellOf env db x rect →
      bucketTakes env b rect = false → positionIsInRect position (getQrectsFromQbounds env.midpoint rect t) →
      AtLeastAccuracy env (getQrectsFromQbounds env.midpoint rect t) →
      ∃ e ∈ b.entries, ¬ positionIsInRect e.2.position (getQrectsFromQbounds env.midpoint rect t)
  | .removeEntry _ => True

variable {env : PanDbEnv D κ} {db db' : PanDB D κ} {pos : κ → Option (Position2D D)} {cell cell' : Nat → Rectangle2D D}

theorem bucketTakes_eq_false {b : BucketNode D κ} {rect : Rectangle2D D} :
    bucketTakes env b rect = false ↔ env.bucketSize ≤ b.busySlots ∧ AtLeastAccuracy env rect := by
  unfold bucketTakes AtLeastAccuracy
  simp only [Bool.or_eq_false_iff, decide_eq_false_iff_not, not_lt]

/-- The capacity, by the cells of the invariant. -/
theorem bucketCapacity_iff (h : Stable env db pos cell) : BucketCapacity env db ↔
    ∀ x b, db.bucketNode x = some b → AtLeastAccuracy env (cell x) → (keysIn pos (cell x)).ncard ≤ env.bucketSize := by
  constructor
  · intro hcap x b hb hbig
    rw [ncard_keysIn h hb]
    exact hcap x b _ hb (cellOf_of_stable h _ _ (bucketNode_eq_some.1 hb)) hbig
  · intro hcap x b rect hb hcell hbig
    obtain rfl := cell_of_cellBelow h hcell h.shape.rootCell.symm
    exact ncard_keysIn h hb ▸ hcap x b hb hbig

/-- **A removal keeps the capacity.** -/
theorem RemovedFrom.capacity [DecidableEq κ] {k : κ} (h : Stable env db pos cell) (hcap : BucketCapacity env db)
    (h' : Stable env (db'.clearSlot k) (Function.update pos k none) cell') (hrem : RemovedFrom env db db' cell cell') :
    BucketCapacity env (db'.clearSlot k) := by
  rw [bucketCapacity_iff h'] at *
  intro x b hb hbig
  rcases hrem x b hb with ⟨hcell, hold⟩ | hfew
  · obtain ⟨c, hc⟩ := Option.isSome_iff_exists.1 hold
    rw [hcell] at hbig ⊢
    exact (Set.ncard_le_ncard keysIn_clear (finite_keysIn h _)).trans ((bucketCapacity_iff h).1 hcap x c hc hbig)
  · exact (ncard_keysIn h' hb).trans_le hfew

variable [DecidableEq κ] {k : κ} {position : Position2D D} {child : Nat} {b : BucketNode D κ}

/-- A bucket that stays as it is and is not the one at hand has no slot more. -/
theorem AddedAt.other (h : Stable env db pos cell) (hcap : BucketCapacity env db) (hk : pos k = none)
    (hb : db.bucketNode child = some b) (hin : positionIsInRect position (cell child)) {x : Nat} (hne : x ≠ child)
    (hold : (db.bucketNode x).isSome) (hbig : AtLeastAccuracy env (cell x)) :
    (keysIn (Function.update pos k (some position)) (cell x)).ncard ≤ env.bucketSize := by
  obtain ⟨c, hc⟩ := Option.isSome_iff_exists.1 hold
  rw [keysIn_update hk, if_neg (fun hx => hne (bucket_unique h hc hb hx hin))]
  exact (bucketCapacity_iff h).1 hcap x c hc hbig

/-- **An addition to the bucket at hand keeps the capacity.** -/
theorem AddedAt.capacity_of_takes (h : Stable env db pos cell) (hcap : BucketCapacity env db) (hk : pos k = none)
    (hb : db.bucketNode child = some b) (hin : positionIsInRect position (cell child))
    (h' : Stable env db' (Function.update pos k (some position)) cell') (hadd : AddedAt env db db' cell cell' child b)
    (htakes : bucketTakes env b (cell child) = true) : BucketCapacity env db' := by
  rw [bucketCapacity_iff h']
  intro x c hc hbig
  obtain ⟨hcell, hold⟩ := hadd.taken htakes x c hc
  rw [hcell] at hbig ⊢
  by_cases hx : x = child
  · have hroom : b.busySlots < env.bucketSize := by
      by_contra hfull
      exact absurd (bucketTakes_eq_false.2 ⟨not_lt.1 hfull, hx ▸ hbig⟩) (by rw [htakes]; simp)
    rw [hx, keysIn_update hk, if_pos hin, Set.ncard_insert_of_notMem (not_mem_keysIn hk) (finite_keysIn h _),
      ncard_keysIn h hb]
    exact hroom
  · exact AddedAt.other h hcap hk hb hin hx hold hbig

/-- **A split keeps the capacity** exactly when a slot of the full bucket is outside of the quarter of the new one. -/
theorem AddedAt.capacity_of_splits (h : Stable env db pos cell) (hcap : BucketCapacity env db) (hk : pos k = none)
    (hb : db.bucketNode child = some b) (hin : positionIsInRect position (cell child))
    (h' : Stable env db' (Function.update pos k (some position)) cell') (hadd : AddedAt env db db' cell cell' child b)
    (htakes : bucketTakes env b (cell child) = false) : BucketCapacity env db' ↔
      ∀ t, positionIsInRect position (getQrectsFromQbounds env.midpoint (cell child) t) →
        AtLeastAccuracy env (getQrectsFromQbounds env.midpoint (cell child) t) →
        ∃ e ∈ b.entries, ¬ positionIsInRect e.2.position (getQrectsFromQbounds env.midpoint (cell child) t) := by
  obtain ⟨hfull, hbigcell⟩ := bucketTakes_eq_false.1 htakes
  obtain ⟨hbuckets, hquarters⟩ := hadd.split htakes
  have hordered := h.shape.ordered _ _ (shape_of_cells (bucketNode_eq_some.1 hb))
  have hcount := ncard_keysIn h hb
  have hle := (bucketCapacity_iff h).1 hcap child b hb hbigcell
  have hsub : ∀ t, keysIn pos (getQrectsFromQbounds env.midpoint (cell child) t) ⊆ keysIn pos (cell child) :=
    fun t => keysIn_part hordered t
  have hinsert : ∀ t, positionIsInRect position (getQrectsFromQbounds env.midpoint (cell child) t) →
      (keysIn (Function.update pos k (some position)) (getQrectsFromQbounds env.midpoint (cell child) t)).ncard =
        (keysIn pos (getQrectsFromQbounds env.midpoint (cell child) t)).ncard + 1 := fun t hint => by
    rw [keysIn_update hk, if_pos hint, Set.ncard_insert_of_notMem (not_mem_keysIn hk) (finite_keysIn h _)]
  rw [bucketCapacity_iff h']
  constructor
  · intro hcap' t hint hbig
    by_contra hall
    push Not at hall
    -- every slot of the full bucket goes to the quarter of the new one
    obtain ⟨x, c, hc, hcell⟩ := hquarters t
    have hmore := hcap' x c hc (hcell ▸ hbig)
    have hsame : keysIn pos (getQrectsFromQbounds env.midpoint (cell child) t) = keysIn pos (cell child) := by
      refine Set.Subset.antisymm (hsub t) (fun k' hk' => ?_)
      obtain ⟨e, he, -, hp, -⟩ := (mem_keysIn_iff h hb).1 hk'
      exact ⟨_, hp, hall e he⟩
    rw [hcell, hinsert t hint, hsame, hcount] at hmore
    omega
  · intro hspread x c hc hbig
    rcases hbuckets x c hc with ⟨hne, hcell, hold⟩ | ⟨t, hcell⟩
    · rw [hcell] at hbig ⊢
      exact AddedAt.other h hcap hk hb hin hne hold hbig
    · rw [hcell] at hbig ⊢
      by_cases hint : positionIsInRect position (getQrectsFromQbounds env.midpoint (cell child) t)
      · obtain ⟨e, he, hout⟩ := hspread t hint hbig
        obtain ⟨-, -, k', hk', -, hp, hslot⟩ := h.located.entry hb e he
        have hssub : keysIn pos (getQrectsFromQbounds env.midpoint (cell child) t) ⊂ keysIn pos (cell child) := by
          refine (Set.ssubset_iff_of_subset (hsub t)).2
            ⟨k', (mem_keysIn_iff h hb).2 ⟨e, he, hk', hp, hslot (fun hf => hf)⟩, ?_⟩
          rintro ⟨p, hp', hpin⟩
          rw [hp, Option.some.injEq] at hp'
          exact hout (hp' ▸ hpin)
        have hlt := Set.ncard_lt_ncard hssub (finite_keysIn h _)
        rw [hinsert t hint]
        omega
      · rw [keysIn_update hk, if_neg hint]
        exact (Set.ncard_le_ncard (hsub t) (finite_keysIn h _)).trans hle

/-! ## Runs -/

omit [LinearOrder D] [Sub D] [DecidableEq κ] in
theorem initPanDb_busySlots {x : Nat} {b : BucketNode D κ} (hb : (initPanDb : PanDB D κ).bucketNode x = some b) :
    b.busySlots = 0 := by
  rw [bucketNode_initPanDb hb]

/-- **An operation keeps the capacity exactly when it finds the slots spread out.** -/
theorem panDbSystem_capacity_iff (h : Stable env db pos cell) (hcap : BucketCapacity env db) : ∀ (op : PanDbOp D κ),
    (panDbSystem env).legal db op → (panDbSystem env).step db op = some db' →
    (BucketCapacity env db' ↔ SpreadOut env db op)
  | .addSlot k position, hlegal, hstep => by
    have hk := (h.located.slots_eq_none (fun hf => hf)).1 hlegal.1
    obtain ⟨db₁, cell', hadd, h', child, b, hb, hin, hat, -⟩ := addSlot_spec h
      (show (⟨position, some k, none⟩ : Slot D κ).keyNode = some k from rfl) hk hlegal.2
    obtain rfl : db₁ = db' := Option.some.inj (hadd.symm.trans hstep)
    -- the bucket at hand is the only one a quarter of which has the position
    have hchild : ∀ x c rect t, db.bucketNode x = some c → CellOf env db x rect →
        positionIsInRect position (getQrectsFromQbounds env.midpoint rect t) → c = b ∧ rect = cell child := by
      intro x c rect t hc hrect hint
      obtain rfl := cell_of_cellBelow h hrect h.shape.rootCell.symm
      have hordered := h.shape.ordered _ _ (shape_of_cells (bucketNode_eq_some.1 hc))
      obtain rfl := bucket_unique h hc hb (isInRect_of_getQrects hordered hint) hin
      exact ⟨Option.some.inj (hc.symm.trans hb), rfl⟩
    cases htakes : bucketTakes env b (cell child) with
    | true =>
      refine iff_of_true (hat.capacity_of_takes h hcap hk hb hin h' htakes) ?_
      intro x c rect t hc hrect hno hint
      obtain ⟨rfl, rfl⟩ := hchild x c rect t hc hrect hint
      exact absurd (htakes.symm.trans hno) (by simp)
    | false =>
      rw [hat.capacity_of_splits h hcap hk hb hin h' htakes]
      constructor
      · intro hspread x c rect t hc hrect _ hint hbig
        obtain ⟨rfl, rfl⟩ := hchild x c rect t hc hrect hint
        exact hspread t hint hbig
      · intro hspread t hint hbig
        exact hspread child b _ t hb (cellOf_of_stable h _ _ (bucketNode_eq_some.1 hb)) htakes hint hbig
  | .removeEntry k, hlegal, hstep => by
    obtain ⟨db₁, cell', hrem, h', hremoved, -⟩ := removeEntryFromKeyNode_spec h hlegal
    have hdb : db₁.clearSlot k = db' := by
      refine Option.some.inj (Eq.trans ?_ hstep)
      change _ = (removeEntryFromKeyNode env db k).map _
      rw [hrem]
      rfl
    subst hdb
    exact iff_of_true (hremoved.capacity h hcap h') trivial

/-- The invariant of a tree with the capacity. -/
def StableInCapacity (env : PanDbEnv D κ) (db : PanDB D κ) : Prop :=
  (∃ pos cell, Stable env db pos cell) ∧ BucketCapacity env db

omit [DecidableEq κ] in
theorem initPanDb_inCapacity (env : PanDbEnv D κ) : StableInCapacity env (initPanDb : PanDB D κ) := by
  refine ⟨⟨_, _, initPanDb_stable env⟩, fun x b rect hb _ _ => ?_⟩
  rw [initPanDb_busySlots hb]
  exact Nat.zero_le _

/-- No bucket has more slots than the bucket size. -/
def fewSlots (env : PanDbEnv D κ) (db : PanDB D κ) : Bool :=
  (List.range db.nodes.brk).all (fun x => (db.bucketNode x).all (fun b => b.busySlots ≤ env.bucketSize))

omit [DecidableEq κ] in
theorem bucketCapacity_of_fewSlots (h : fewSlots env db = true) : BucketCapacity env db := by
  intro x b rect hb _ _
  have hx := List.all_eq_true.1 h x (List.mem_range.2 (Lib.Heap.lt_brk (bucketNode_eq_some.1 hb)))
  rw [hb] at hx
  exact of_decide_eq_true hx

/-- Buckets of fifty slots on whole degrees. -/
def degreesEnv : PanDbEnv Int Nat :=
  { squareEnv with
    qbounds := ⟨⟨-90, -180⟩, ⟨90, 180⟩⟩
    bucketSize := 50
    latitude_le := by decide
    longitude_le := by decide
    bucketSize_pos := Nat.succ_pos 49 }

end Pincaster
