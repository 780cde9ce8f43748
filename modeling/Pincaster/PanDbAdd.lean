import Pincaster.PanDbSplit
/-!
# PanDbAdd — `add_slot`

A slot goes down the tree to the bucket in whose cell it lies, which is split when it is full.
-/
namespace Pincaster

variable {D κ : Type} [LinearOrder D] [DecidableEq κ] {env : PanDbEnv D κ} {pos : κ → Option (Position2D D)}
  {cell : Nat → Rectangle2D D}

/-- The invariant between two operations. -/
abbrev Stable (env : PanDbEnv D κ) (db : PanDB D κ) (pos : κ → Option (Position2D D)) (cell : Nat → Rectangle2D D) :
    Prop := Tree env db pos cell none (fun _ => False) (fun _ => False) (fun _ => 0)

/-- **A slot is added to the bucket in whose cell it lies**, and every ancestor counts it. -/
theorem Tree.addAncestors {db : PanDB D κ} (h : Stable env db pos cell) {t : Nat} {bt : BucketNode D κ}
    {slot : Slot D κ} {k : κ} (ht : db.bucketNode t = some bt) (hk : slot.keyNode = some k) (hpos : pos k = none)
    (hin : positionIsInRect slot.position (cell t)) :
    ∃ db' newSlot, addSlotToBucket db t slot .ancestors = some (db', newSlot) ∧
      ∃ db'', relocate db' slot newSlot = some db'' ∧
        Stable env db'' (Function.update pos k (some slot.position)) cell ∧
        (∀ x, (db''.bucketNode x).isSome = (db.bucketNode x).isSome) ∧ db''.shape = db.shape ∧ db''.root = db.root := by
  have hnone := (h.located.slots_eq_none (fun hf => hf)).2 hpos
  have hloc := h.located.add ht hk (fun hf => hf) hin (fun hf => hf)
    (fun a b hb e he hkey => absurd hkey (h.located.keyNode_ne hnone hb he))
  have hstale : (fun p => False ∨ db.slots k = some p) = fun _ => False := by
    funext p
    simp [hnone]
  rw [hstale] at hloc
  have hcell := bucketNode_eq_some.1 ht
  have hshape := h.shape.write_bucket (c := bt.add t slot) ht rfl
  have hcount := (h.counted.write_bucket h.shape (c := bt.add t slot) ht rfl (d := 1)
    (by simp [BucketNode.add])).congr (o := offAt bt.parent (-1)) (fun x => by
      rw [if_pos (by simp)]
      simp only [offAt]
      split_ifs <;> omega)
  obtain ⟨db', hinc, hsame, hcounted⟩ := incSubSlots_spec (db.nodes.brk + 1) bt.parent _ hshape hcount (fun x hx => by
    obtain ⟨hlt, q, hq⟩ := h.shape.parent_quad hcell hx
    have := Lib.Heap.lt_brk hcell
    exact ⟨by omega, q, quadNode_write_bucket ht hq⟩)
  have hbuckets := hsame.buckets
  rw [bucketNode_write ht] at hbuckets
  have hsame' := hsame.shape.trans (shape_write hcell (n := .bucketNode (bt.add t slot)) rfl)
  refine ⟨db', ⟨t, bt.next⟩, ?_, _, relocate_eq hk _ _, ⟨?_, ?_, hcounted⟩, fun x => ?_, hsame', hsame.root⟩
  · rw [addSlotToBucket_ancestors ht hk, hinc]
    rfl
  · have hs := hsame.shape
    have hr := hsame.root
    change Shape env db'.shape db'.root cell none
    rw [hs, hr]
    exact hshape
  · have hs := hsame.slots
    change Located db'.bucketNode (Function.update db'.slots k _) _ cell _ _
    rw [hbuckets, hs]
    exact hloc
  · change (db'.bucketNode x).isSome = _
    rw [hbuckets]
    by_cases hx : x = t
    · rw [hx, Function.update_self, ht]
      rfl
    · rw [Function.update_of_ne hx]

/-- **What an addition does to the buckets**: they stay when the one at hand takes the slot, and the one at hand gives
way to its four quarters when it is split. -/
structure AddedAt [Sub D] (env : PanDbEnv D κ) (db db' : PanDB D κ) (cell cell' : Nat → Rectangle2D D) (child : Nat)
    (b : BucketNode D κ) : Prop where
  taken : bucketTakes env b (cell child) = true → ∀ x b', db'.bucketNode x = some b' →
    cell' x = cell x ∧ (db.bucketNode x).isSome
  split : bucketTakes env b (cell child) = false → (∀ x b', db'.bucketNode x = some b' →
    x ≠ child ∧ cell' x = cell x ∧ (db.bucketNode x).isSome ∨
      ∃ t, cell' x = getQrectsFromQbounds env.midpoint (cell child) t) ∧
    ∀ t, ∃ x b', db'.bucketNode x = some b' ∧ cell' x = getQrectsFromQbounds env.midpoint (cell child) t

/-- **`add_slot` ends in the bucket at hand**, or in a quarter of it. -/
theorem addSlotAt_spec [Sub D] {db : PanDB D κ} (h : Stable env db pos cell) {scanned : Nat} {q : QuadNode}
    {part : Fin 4} {b : BucketNode D κ} {slot : Slot D κ} {k : κ} (hq : db.nodes.cells scanned = some (.quadNode q))
    (hb : db.bucketNode (q.nodes part) = some b) (hk : slot.keyNode = some k) (hpos : pos k = none)
    (hin : positionIsInRect slot.position (cell (q.nodes part))) :
    ∃ db' newSlot, addSlotAt env db slot scanned (q.nodes part) part b (cell (q.nodes part)) = some (db', newSlot) ∧
      ∃ db'' cell', relocate db' slot newSlot = some db'' ∧
        Stable env db'' (Function.update pos k (some slot.position)) cell' ∧
        AddedAt env db db'' cell cell' (q.nodes part) b ∧
        QuadsKept db db'' cell cell' (fun rect => rect = cell (q.nodes part) ∧ bucketTakes env b rect = false) := by
  rw [addSlotAt]
  split
  · rename_i htakes
    obtain ⟨db', newSlot, hadd, db'', hrel, h'', hsome, hshape, hroot⟩ := h.addAncestors hb hk hpos hin
    refine ⟨db', newSlot, hadd, db'', cell, hrel, h'', ⟨fun _ x b' hx => ⟨rfl, by rw [← hsome, hx]; rfl⟩, fun hno => ?_⟩,
      (QuadsKept.refl db cell _).congr rfl rfl hshape hroot⟩
    rw [htakes] at hno
    cases hno
  · rename_i htakes
    obtain ⟨db₁, cell₁, q₁, hsplit, h₁, -, hq₁, hcell₁, hparts, hbuckets, hquads⟩ :=
      splitBucket_spec h hq hb
    obtain ⟨t, ht, hint⟩ := findPart_spec env.midpoint hin
    obtain ⟨bt, hbt, -⟩ := bucketNode_of_shape (hparts t)
    have hquarter : ∀ t, cell₁ (q₁.nodes t) = getQrectsFromQbounds env.midpoint (cell (q.nodes part)) t := fun t => by
      rw [← hcell₁]
      exact (h₁.shape.child _ _ _ (shape_of_cells hq₁) t).2.2.1
    obtain ⟨db', newSlot, hadd, db'', hrel, h'', hsome, hshape, hroot⟩ :=
      h₁.addAncestors hbt hk hpos (by rw [hquarter]; exact hint)
    refine ⟨db', newSlot, ?_, db'', cell₁, hrel, h'', ⟨fun hyes => absurd hyes htakes, fun _ => ⟨fun x b' hx => ?_,
      fun t => ?_⟩⟩, QuadsKept.congr ⟨hquads.root, fun x p nodes hx => ?_⟩ rfl rfl hshape hroot⟩
    · rw [hsplit]
      simp only [Option.bind_eq_bind, Option.bind_some, quadNode_eq_some.2 hq₁, findNodeForPosition, ht,
        Option.map_some]
      exact hadd
    · obtain ⟨b₁, hb₁⟩ := Option.isSome_iff_exists.1 (show (db₁.bucketNode x).isSome by rw [← hsome, hx]; rfl)
      rcases hbuckets x b₁ hb₁ with ⟨hne, hold, hcell⟩ | ⟨t, rfl⟩
      · exact .inl ⟨hne, hcell, by rw [hold]; rfl⟩
      · exact .inr ⟨t, hquarter t⟩
    · obtain ⟨bt', hbt', -⟩ := bucketNode_of_shape (hparts t)
      obtain ⟨b'', hb''⟩ := Option.isSome_iff_exists.1 (show (db''.bucketNode (q₁.nodes t)).isSome by
        rw [hsome, hbt']
        rfl)
      exact ⟨_, b'', hb'', hquarter t⟩
    · exact (hquads.quad x p nodes hx).imp_right (fun hnew => ⟨hnew, by
        rw [hnew]
        simpa using htakes⟩)

/-- **The way down**: nodes are younger the deeper they are, so it ends in a bucket. -/
theorem addSlotScan_spec [Sub D] {slot : Slot D κ} {k : κ} (hk : slot.keyNode = some k) (hpos : pos k = none)
    {db : PanDB D κ} (h : Stable env db pos cell) : ∀ (fuel scanned : Nat) (q : QuadNode),
    db.nodes.cells scanned = some (.quadNode q) → positionIsInRect slot.position (cell scanned) →
    db.nodes.brk < fuel + scanned →
    ∃ db' newSlot, addSlotScan env slot fuel db scanned (cell scanned) = some (db', newSlot) ∧
      ∃ db'' cell', relocate db' slot newSlot = some db'' ∧
        Stable env db'' (Function.update pos k (some slot.position)) cell' ∧
        ∃ child b, db.bucketNode child = some b ∧ positionIsInRect slot.position (cell child) ∧
          AddedAt env db db'' cell cell' child b ∧
          QuadsKept db db'' cell cell' (fun rect => rect = cell child ∧ bucketTakes env b rect = false)
  | 0, scanned, q, hq, _, hfuel => by
    have := Lib.Heap.lt_brk hq
    omega
  | fuel + 1, scanned, q, hq, hin, hfuel => by
    obtain ⟨t, ht, hint⟩ := findPart_spec env.midpoint hin
    obtain ⟨hlt, -, hct, s, hs, hsp⟩ := h.shape.child _ _ _ (shape_of_cells hq) t
    obtain ⟨n, hn, rfl⟩ := Option.map_eq_some_iff.1 hs
    rw [← hct] at hint
    rw [addSlotScan]
    simp only [quadNode_eq_some.2 hq, findNodeForPosition, ht, Option.bind_eq_bind, Option.bind_some, Option.map_some,
      hn]
    cases n with
    | bucketNode b =>
      have hp : b.parent = some scanned := hsp
      simp only [hp, if_true, ← hct]
      obtain ⟨db', newSlot, hadd, db'', cell', hrel, h'', hat⟩ :=
        addSlotAt_spec h hq (bucketNode_eq_some.2 hn) hk hpos hint
      exact ⟨db', newSlot, hadd, db'', cell', hrel, h'', _, b, bucketNode_eq_some.2 hn, hint, hat⟩
    | quadNode q' =>
      have hp : q'.parent = some scanned := hsp
      simp only [hp, if_true, ← hct]
      exact addSlotScan_spec hk hpos h fuel _ q' hn hint (by omega)

/-- **`add_slot` keeps the invariant** and puts the key node where the slot is. -/
theorem addSlot_spec [Sub D] {db : PanDB D κ} (h : Stable env db pos cell) {slot : Slot D κ} {k : κ}
    (hk : slot.keyNode = some k) (hpos : pos k = none) (hin : positionIsInRect slot.position env.qbounds) :
    ∃ db' cell', addSlot env db slot = some db' ∧
      Stable env db' (Function.update pos k (some slot.position)) cell' ∧
      ∃ child b, db.bucketNode child = some b ∧ positionIsInRect slot.position (cell child) ∧
        AddedAt env db db' cell cell' child b ∧
        QuadsKept db db' cell cell' (fun rect => rect = cell child ∧ bucketTakes env b rect = false) := by
  obtain ⟨nodes, hr⟩ := h.shape.rootNode
  obtain ⟨q, hq, -, -⟩ := quadNode_of_shape hr
  rw [← h.shape.rootCell] at hin
  obtain ⟨db₁, newSlot, hscan, db', cell', hrel, h'⟩ := addSlotScan_spec hk hpos h (db.nodes.brk + 1) db.root q hq hin
    (by omega)
  refine ⟨db', cell', ?_, h'⟩
  rw [addSlot, ← h.shape.rootCell, hscan]
  exact hrel

end Pincaster
