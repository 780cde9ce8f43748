import Pincaster.SearchDepth
/-!
# CrowdedTree — how many slots a bucket holds at most

An insertion splits a bucket once, so that a quarter may have one slot more than the bucket that was split.  A bucket
some levels below the root has at most that many slots more than the bucket size.
-/
namespace Pincaster

variable {D κ : Type} [Field D] [LinearOrder D] [IsStrictOrderedRing D]

/-! ## The bound -/

section
variable {env : PanDbEnv D κ} {db db' : PanDB D κ} {pos : κ → Option (Position2D D)} {cell cell' : Nat → Rectangle2D D}

def Rectangle2D.height (rect : Rectangle2D D) : D := rect.edge1.latitude - rect.edge0.latitude

/-- A cell some levels down, by its height. -/
def HalvedTo (env : PanDbEnv D κ) (depth : Nat) (rect : Rectangle2D D) : Prop :=
  2 ^ depth * rect.height = env.qbounds.height

theorem HalvedTo.unique (hpos : 0 < env.qbounds.height) {depth depth' : Nat} {rect : Rectangle2D D}
    (h : HalvedTo env depth rect) (h' : HalvedTo env depth' rect) : depth = depth' := by
  have hne : rect.height ≠ 0 := by
    intro hzero
    rw [HalvedTo, hzero, mul_zero] at h
    exact hpos.ne h
  have hpow : (2 : D) ^ depth = 2 ^ depth' := mul_right_cancel₀ hne (h.trans h'.symm)
  exact Nat.pow_right_injective le_rfl (by exact_mod_cast hpow)

theorem HalvedTo.part (hm : ExactMidpoint env.midpoint) {depth : Nat} {rect : Rectangle2D D}
    (h : HalvedTo env depth rect) (t : Fin 4) : HalvedTo env (depth + 1) (getQrectsFromQbounds env.midpoint rect t) := by
  rw [HalvedTo, pow_succ, mul_assoc]
  exact (congrArg (2 ^ depth * ·) (extent_getQrects hm rect t).1).trans h

theorem exists_halvedTo (hm : ExactMidpoint env.midpoint) (h : Stable env db pos cell) {x : Nat} {n : Node D κ}
    (hx : db.nodes.cells x = some n) : ∃ depth, HalvedTo env depth (cell x) := by
  obtain ⟨depth, hnode⟩ := (cellOf_of_stable h x n hx).exists_nodeAt .root
  exact ⟨depth, (hnode.extent hm).1⟩

/-- **A bucket has at most as many slots more than the bucket size as it is levels below the root**, while its cell can
be split. -/
def Crowded (env : PanDbEnv D κ) (db : PanDB D κ) (pos : κ → Option (Position2D D)) (cell : Nat → Rectangle2D D) :
    Prop :=
  ∀ x b depth, db.bucketNode x = some b → AtLeastAccuracy env (cell x) → HalvedTo env depth (cell x) →
    (keysIn pos (cell x)).ncard ≤ env.bucketSize + depth

variable [DecidableEq κ]

/-- **An operation keeps the bound.** -/
theorem panDbSystem_crowded (hm : ExactMidpoint env.midpoint) (hpos : 0 < env.qbounds.height)
    (h : Stable env db pos cell) (hcrowd : Crowded env db pos cell) : ∀ op, (panDbSystem env).legal db op →
      (panDbSystem env).step db op = some db' →
    ∃ pos' cell', Stable env db' pos' cell' ∧ Crowded env db' pos' cell'
  | .addSlot k position, hlegal, hstep => by
    have hk := (h.located.slots_eq_none (fun hf => hf)).1 hlegal.1
    obtain ⟨db₁, cell', hadd, h', child, b, hb, hin, hat, -⟩ := addSlot_spec h
      (show (⟨position, some k, none⟩ : Slot D κ).keyNode = some k from rfl) hk hlegal.2
    obtain rfl : db₁ = db' := Option.some.inj (hadd.symm.trans hstep)
    refine ⟨_, cell', h', fun x c depth hc hbig hdepth => ?_⟩
    have hother : ∀ y, y ≠ child → (db.bucketNode y).isSome → AtLeastAccuracy env (cell y) →
        HalvedTo env depth (cell y) →
        (keysIn (Function.update pos k (some position)) (cell y)).ncard ≤ env.bucketSize + depth := by
      intro y hne hold hbig hdepth
      obtain ⟨c, hc⟩ := Option.isSome_iff_exists.1 hold
      rw [keysIn_update hk, if_neg (fun hy => hne (bucket_unique h hc hb hy hin))]
      exact hcrowd y c depth hc hbig hdepth
    cases htakes : bucketTakes env b (cell child) with
    | true =>
      obtain ⟨hcell, hold⟩ := hat.taken htakes x c hc
      rw [hcell] at hbig hdepth ⊢
      by_cases hx : x = child
      · subst hx
        have hroom : b.busySlots < env.bucketSize := by
          by_contra hfull
          exact absurd (bucketTakes_eq_false.2 ⟨not_lt.1 hfull, hbig⟩) (by rw [htakes]; simp)
        rw [keysIn_update hk, if_pos hin, Set.ncard_insert_of_notMem (not_mem_keysIn hk) (finite_keysIn h _),
          ncard_keysIn h hb]
        omega
      · exact hother x hx hold hbig hdepth
    | false =>
      obtain ⟨hfull, hbigcell⟩ := bucketTakes_eq_false.1 htakes
      rcases (hat.split htakes).1 x c hc with ⟨hne, hcell, hold⟩ | ⟨t, hcell⟩
      · rw [hcell] at hbig hdepth ⊢
        exact hother x hne hold hbig hdepth
      · rw [hcell] at hbig hdepth ⊢
        -- a quarter of the bucket that is split has its slots at most, and the new one
        obtain ⟨d, hd⟩ := exists_halvedTo hm h (bucketNode_eq_some.1 hb)
        obtain rfl := hdepth.unique hpos (hd.part hm t)
        have hordered := h.shape.ordered _ _ (shape_of_cells (bucketNode_eq_some.1 hb))
        have hle : (keysIn pos (getQrectsFromQbounds env.midpoint (cell child) t)).ncard ≤ (keysIn pos (cell child)).ncard :=
          Set.ncard_le_ncard (keysIn_part hordered t) (finite_keysIn h _)
        have hold := hcrowd child b d hb hbigcell hd
        rw [keysIn_update hk]
        split_ifs with hint
        · have hinsert := Set.ncard_insert_le k (keysIn pos (getQrectsFromQbounds env.midpoint (cell child) t))
          omega
        · omega
  | .removeEntry k, hlegal, hstep => by
    obtain ⟨db₁, cell', hrem, h', hremoved, -⟩ := removeEntryFromKeyNode_spec h hlegal
    have hdb : db₁.clearSlot k = db' := by
      refine Option.some.inj (Eq.trans ?_ hstep)
      change _ = (removeEntryFromKeyNode env db k).map _
      rw [hrem]
      rfl
    subst hdb
    refine ⟨_, cell', h', fun x b depth hb hbig hdepth => ?_⟩
    rcases hremoved x b hb with ⟨hcell, hold⟩ | hfew
    · obtain ⟨c, hc⟩ := Option.isSome_iff_exists.1 hold
      rw [hcell] at hbig hdepth ⊢
      exact (Set.ncard_le_ncard keysIn_clear (finite_keysIn h _)).trans (hcrowd x c depth hc hbig hdepth)
    · rw [ncard_keysIn h' hb]
      omega

/-- **The bound holds in every run.** -/
theorem reachable_crowded (hm : ExactMidpoint env.midpoint) (hpos : 0 < env.qbounds.height)
    (hr : (panDbSystem env).Reachable db) : ∃ pos cell, Stable env db pos cell ∧ Crowded env db pos cell := by
  refine hr.inv (fun db => ∃ pos cell, Stable env db pos cell ∧ Crowded env db pos cell)
    ⟨_, _, initPanDb_stable env, fun x b depth hb _ _ => ?_⟩ ?_
  · rw [ncard_keysIn (initPanDb_stable env) hb, initPanDb_busySlots hb]
    exact Nat.zero_le _
  · rintro s op s' ⟨pos, cell, hs, hcrowd⟩ hlegal hstep
    exact panDbSystem_crowded hm hpos hs hcrowd op hlegal hstep

omit [Field D] [IsStrictOrderedRing D] [DecidableEq κ] in
theorem NodeAt.exists_node (h : Stable env db pos cell) {depth x : Nat} {rect : Rectangle2D D}
    (hnode : NodeAt env db depth x rect) : ∃ n, db.nodes.cells x = some n := by
  cases hnode with
  | root =>
    obtain ⟨nodes, hroot⟩ := h.shape.rootNode
    obtain ⟨q, hq, -⟩ := quadNode_of_shape hroot
    exact ⟨_, hq⟩
  | child t _ hq =>
    obtain ⟨-, -, -, s, hs, -⟩ := h.shape.child _ _ _ (shape_of_cells (quadNode_eq_some.1 hq)) t
    obtain ⟨n, hn, -⟩ := Option.map_eq_some_iff.1 hs
    exact ⟨n, hn⟩

/-- **A node with more slots in its cell is a quad node.** -/
theorem NodeAt.quadNode_of_lt (hm : ExactMidpoint env.midpoint) (hpos : 0 < env.qbounds.height)
    (hr : (panDbSystem env).Reachable db) {depth x : Nat} {rect : Rectangle2D D} (hnode : NodeAt env db depth x rect)
    (hbig : AtLeastAccuracy env rect) (hmany : env.bucketSize + depth < (keysIn db.position rect).ncard) :
    (db.quadNode x).isSome = true := by
  obtain ⟨pos, cell, h, hcrowd⟩ := reachable_crowded hm hpos hr
  obtain rfl := cell_of_cellBelow h hnode.cellOf h.shape.rootCell.symm
  rw [position_of_stable h] at hmany
  obtain ⟨n, hn⟩ := hnode.exists_node h
  cases n with
  | quadNode q =>
    rw [quadNode_eq_some.2 hn]
    rfl
  | bucketNode b =>
    have hle := hcrowd x b depth (bucketNode_eq_some.2 hn) hbig (hnode.extent hm).1
    omega

end

/-! ## Trees with given slots -/

section
variable [DecidableEq κ] {env : PanDbEnv D κ}

omit [IsStrictOrderedRing D] in
/-- **A run adds whatever slots inside the bounds are wanted.** -/
theorem exists_reachable (env : PanDbEnv D κ) (f : κ → Position2D D) (hin : ∀ k, positionIsInRect (f k) env.qbounds)
    (keys : Finset κ) : ∃ db, (panDbSystem env).Reachable db ∧
      db.position = fun k => if k ∈ keys then some (f k) else none := by
  induction keys using Finset.induction_on with
  | empty =>
    refine ⟨initPanDb, ⟨[], .init⟩, ?_⟩
    rw [position_of_stable (initPanDb_stable env)]
    simp
  | insert k keys hk ih =>
    obtain ⟨db, ⟨hist, hrun⟩, hposition⟩ := ih
    obtain ⟨pos, cell, h⟩ := panDb_reachable_stable ⟨hist, hrun⟩
    have hpos : pos k = none := by
      rw [← position_of_stable h, hposition]
      exact if_neg hk
    obtain ⟨db', cell', hadd, h', -⟩ := addSlot_spec h
      (show (⟨f k, some k, none⟩ : Slot D κ).keyNode = some k from rfl) hpos (hin k)
    have hlegal : (panDbSystem env).legal db (.addSlot k (f k)) :=
      ⟨(h.located.slots_eq_none (fun hf => hf)).2 hpos, hin k⟩
    refine ⟨db', ⟨_, hrun.snoc hlegal hadd⟩, ?_⟩
    rw [position_of_stable h', ← position_of_stable h, hposition]
    funext k'
    by_cases hkk : k' = k
    · rw [hkk, Function.update_self, if_pos (Finset.mem_insert_self k keys)]
    · rw [Function.update_of_ne hkk]
      simp [hkk]

end

end Pincaster
