import Pincaster.PanDbSlots
/-!
# PanDbTree — what splitting and packing have in common

Both build a node that hangs off the tree, copy slots to it, and put it in the place of an old node, which is freed with
what is below it.
-/
namespace Pincaster

variable {D κ : Type} [LinearOrder D]

/-- **The invariant of a tree**, while one node hangs off it, some slots are stale, some key nodes are gone and the
counters are off. -/
structure Tree (env : PanDbEnv D κ) (db : PanDB D κ) (pos : κ → Option (Position2D D)) (cell : Nat → Rectangle2D D)
    (loose : Option Nat) (stale : SlotPtr → Prop) (gone : κ → Prop) (off : Nat → Int) : Prop where
  shape : Shape env db.shape db.root cell loose
  located : Located db.bucketNode db.slots pos cell stale gone
  counted : Counted db off

variable {env : PanDbEnv D κ} {pos : κ → Option (Position2D D)} {cell : Nat → Rectangle2D D} {stale : SlotPtr → Prop}
  {gone : κ → Prop}

omit [LinearOrder D] in
theorem bucketNode_write {db : PanDB D κ} {a : Nat} {b : BucketNode D κ} (h : db.bucketNode a = some b)
    (b' : BucketNode D κ) : (db.write a (.bucketNode b')).bucketNode = Function.update db.bucketNode a (some b') := by
  funext x
  by_cases hx : x = a
  · subst hx
    rw [Function.update_self]
    exact bucketNode_eq_some.2 (cells_write_self (bucketNode_eq_some.1 h) _)
  · rw [Function.update_of_ne hx]
    unfold PanDB.bucketNode
    rw [cells_write_of_ne hx]

omit [LinearOrder D] in
theorem weight_of_bucketNode {db : PanDB D κ} {a : Nat} {b : BucketNode D κ} (h : db.bucketNode a = some b) :
    db.weight a = b.busySlots := weight_of_cells (bucketNode_eq_some.1 h)

/-- A bucket that counts `d` more makes its parent count `d` less. -/
theorem Counted.write_bucket {db : PanDB D κ} {loose : Option Nat} {off : Nat → Int}
    (hshape : Shape env db.shape db.root cell loose) (h : Counted db off) {x : Nat} {b c : BucketNode D κ}
    (hx : db.bucketNode x = some b) (hp : c.parent = b.parent) {d : Int}
    (hd : (c.busySlots : Int) - b.busySlots = d) :
    Counted (db.write x (.bucketNode c)) (fun a => off a - if some x ≠ loose then offAt b.parent d a else 0) := by
  have hcell := bucketNode_eq_some.1 hx
  have hw := h.write hshape hcell (n := .bucketNode c) (by simp [Node.shape, hp]) hd
  refine hw.congr_quad (fun a q ha => ?_)
  have hne : a ≠ x := by
    rintro rfl
    rw [cells_write_self hcell] at ha
    cases ha
  have h0 : offAt (some x) d a = 0 := if_neg (fun he => hne (Option.some.inj he))
  simp only [h0, Node.parent]
  omega

theorem Shape.write_bucket {db : PanDB D κ} {loose : Option Nat} (h : Shape env db.shape db.root cell loose) {x : Nat}
    {b c : BucketNode D κ} (hx : db.bucketNode x = some b) (hp : c.parent = b.parent) :
    Shape env (db.write x (.bucketNode c)).shape (db.write x (.bucketNode c)).root cell loose := by
  rw [shape_write (bucketNode_eq_some.1 hx) (by simp [Node.shape, hp])]
  exact h

/-! ## `add_slot_to_bucket` -/

section
omit [LinearOrder D]

theorem addSlotToBucket_none {db : PanDB D κ} {a : Nat} {b : BucketNode D κ} {slot : Slot D κ} {k : κ}
    (hb : db.bucketNode a = some b) (hk : slot.keyNode = some k) :
    addSlotToBucket db a slot .none = some (db.write a (.bucketNode (b.add a slot)), ⟨a, b.next⟩) := by
  obtain ⟨position, keyNode, bucketNode⟩ := slot
  cases hk
  rw [addSlotToBucket, hb]
  rfl

theorem quadNode_write_bucket {db : PanDB D κ} {a p : Nat} {b c : BucketNode D κ} {q : QuadNode}
    (hb : db.bucketNode a = some b) (hq : db.nodes.cells p = some (.quadNode q)) :
    (db.write a (.bucketNode c)).nodes.cells p = some (.quadNode q) := by
  have hne : p ≠ a := by
    rintro rfl
    rw [bucketNode_eq_some, hq] at hb
    cases hb
  rw [cells_write_of_ne hne, hq]

theorem addSlotToBucket_parent {db : PanDB D κ} {a p : Nat} {b : BucketNode D κ} {q : QuadNode} {slot : Slot D κ}
    {k : κ} (hb : db.bucketNode a = some b) (hk : slot.keyNode = some k) (hp : b.parent = some p)
    (hq : db.nodes.cells p = some (.quadNode q)) :
    addSlotToBucket db a slot .parent = some ((db.write a (.bucketNode (b.add a slot))).write p
      (.quadNode { q with subSlots := q.subSlots + 1 }), ⟨a, b.next⟩) := by
  have hq' := quadNode_eq_some.2 (quadNode_write_bucket (c := b.add a slot) hb hq)
  obtain ⟨position, keyNode, bucketNode⟩ := slot
  obtain ⟨parent, busySlots, entries, next⟩ := b
  cases hk
  cases hp
  rw [addSlotToBucket, hb]
  change ((db.write a (.bucketNode (BucketNode.add ⟨some p, busySlots, entries, next⟩ a
    ⟨position, some k, bucketNode⟩))).quadNode p).bind _ = _
  rw [hq']
  rfl

theorem addSlotToBucket_ancestors {db : PanDB D κ} {a : Nat} {b : BucketNode D κ} {slot : Slot D κ} {k : κ}
    (hb : db.bucketNode a = some b) (hk : slot.keyNode = some k) :
    addSlotToBucket db a slot .ancestors = (incSubSlots (db.nodes.brk + 1) b.parent
      (db.write a (.bucketNode (b.add a slot)))).map (fun db => (db, ⟨a, b.next⟩)) := by
  obtain ⟨position, keyNode, bucketNode⟩ := slot
  cases hk
  rw [addSlotToBucket, hb]
  rfl

theorem relocate_eq [DecidableEq κ] {slot : Slot D κ} {k : κ} (hk : slot.keyNode = some k) (db : PanDB D κ)
    (ptr : SlotPtr) : relocate db slot ptr = some { db with slots := Function.update db.slots k (some ptr) } := by
  rw [relocate, hk]
  rfl

/-- A node of the shape of a bucket is a bucket. -/
theorem bucketNode_of_shape {db : PanDB D κ} {a : Nat} {p : Option Nat} (h : db.shape a = some ⟨p, none⟩) :
    ∃ b, db.bucketNode a = some b ∧ b.parent = p := by
  obtain ⟨n, hn, hs⟩ := Option.map_eq_some_iff.1 h
  cases n with
  | quadNode q => simp [Node.shape] at hs
  | bucketNode b =>
    rw [Node.shape, NodeShape.mk.injEq] at hs
    exact ⟨b, bucketNode_eq_some.2 hn, hs.1⟩

end

/-- A pointer is missing exactly where there is no position. -/
theorem Located.slots_eq_none {buckets : Nat → Option (BucketNode D κ)} {slots : κ → Option SlotPtr}
    (h : Located buckets slots pos cell stale gone) {k : κ} (hk : ¬ gone k) : slots k = none ↔ pos k = none := by
  constructor
  · exact h.nowhere hk
  · intro hp
    by_contra hs
    obtain ⟨ptr, hs⟩ := Option.ne_none_iff_exists'.1 hs
    obtain ⟨b, slot, hb, hm, hkey, -⟩ := h.key hk hs
    obtain ⟨-, -, k', hk', -, hpk, -⟩ := h.entry hb _ hm
    rw [hkey, Option.some.injEq] at hk'
    rw [← hk', hp] at hpk
    cases hpk

/-! ## The new node takes the place of the old one -/

/-- The node `new`, which hangs off the tree, is put in the place of the child `old` of `p`, which dies with all that is
below it. -/
structure Link (shape shape' : Nat → Option NodeShape) (cell : Nat → Rectangle2D D) (dead : Nat → Prop)
    [DecidablePred dead] (new p old : Nat) (part : Fin 4) (pp : Option Nat) (nodes : Fin 4 → Nat) : Prop where
  parent : shape p = some ⟨pp, some nodes⟩
  old_eq : nodes part = old
  hangs : ∃ s, shape new = some s ∧ s.parent = some p
  cell_eq : cell new = cell old
  lt_new : p < new
  old_le : ∀ x, dead x → old ≤ x
  dead_iff : ∀ x s, shape x = some s → (dead x ↔ x = old ∨ ∃ y, s.parent = some y ∧ dead y)
  shape_eq : ∀ x, shape' x = if dead x then none else
    if x = p then some ⟨pp, some (Function.update nodes part new)⟩ else shape x

section
variable {shape shape' : Nat → Option NodeShape} {root new p old : Nat} {part : Fin 4} {pp : Option Nat}
  {nodes : Fin 4 → Nat} {dead : Nat → Prop} [DecidablePred dead]

theorem Link.old_child (l : Link shape shape' cell dead new p old part pp nodes)
    (h : Shape env shape root cell (some new)) : p < old ∧ old ≠ new ∧
      cell old = getQrectsFromQbounds env.midpoint (cell p) part ∧ ∃ s, shape old = some s ∧ s.parent = some p := by
  obtain ⟨h1, h2, h3, h4⟩ := h.child p pp nodes l.parent part
  rw [l.old_eq] at h1 h2 h3 h4
  exact ⟨h1, fun he => h2 (by rw [he]), h3, h4⟩

theorem Link.parent_live (l : Link shape shape' cell dead new p old part pp nodes)
    (h : Shape env shape root cell (some new)) : ¬ dead p := fun hd => by
  have := l.old_le p hd
  have := (l.old_child h).1
  omega

omit [LinearOrder D] in
/-- A child of a live node that is not the old node is live. -/
theorem Link.child_live (l : Link shape shape' cell dead new p old part pp nodes) {a x : Nat} {s : NodeShape}
    (hx : shape x = some s) (ha : s.parent = some a) (hd : ¬ dead a) (hne : x ≠ old) : ¬ dead x := by
  intro hdx
  rcases (l.dead_iff x s hx).1 hdx with he | ⟨y, hy, hdy⟩
  · exact hne he
  · rw [ha, Option.some.injEq] at hy
    exact hd (hy ▸ hdy)

theorem Link.new_live (l : Link shape shape' cell dead new p old part pp nodes)
    (h : Shape env shape root cell (some new)) : ¬ dead new := by
  obtain ⟨s, hs, hp⟩ := l.hangs
  exact l.child_live hs hp (l.parent_live h) (l.old_child h).2.1.symm

omit [LinearOrder D] in
/-- A node keeps its parent. -/
theorem Link.back (l : Link shape shape' cell dead new p old part pp nodes) {x : Nat} {s' : NodeShape}
    (hx : shape' x = some s') : ¬ dead x ∧ ∃ s, shape x = some s ∧ s.parent = s'.parent := by
  rw [l.shape_eq] at hx
  by_cases hd : dead x
  · rw [if_pos hd] at hx
    cases hx
  · rw [if_neg hd] at hx
    by_cases hxp : x = p
    · subst hxp
      rw [if_pos rfl, Option.some.injEq] at hx
      exact ⟨hd, _, l.parent, by rw [← hx]⟩
    · rw [if_neg hxp] at hx
      exact ⟨hd, s', hx, rfl⟩

omit [LinearOrder D] in
theorem Link.forth (l : Link shape shape' cell dead new p old part pp nodes) {x : Nat} {s : NodeShape}
    (hx : shape x = some s) (hd : ¬ dead x) : ∃ s', shape' x = some s' ∧ s'.parent = s.parent := by
  rw [l.shape_eq, if_neg hd]
  by_cases hxp : x = p
  · subst hxp
    rw [l.parent, Option.some.injEq] at hx
    exact ⟨_, if_pos rfl, by rw [← hx]⟩
  · exact ⟨s, by rw [if_neg hxp, hx], rfl⟩

omit [LinearOrder D] in
/-- A quad node keeps its children, but for the parent of the new node. -/
theorem Link.quad (l : Link shape shape' cell dead new p old part pp nodes) {a : Nat} {q : Option Nat}
    {nodes' : Fin 4 → Nat} (ha : shape' a = some ⟨q, some nodes'⟩) :
    (a = p ∧ nodes' = Function.update nodes part new) ∨ (a ≠ p ∧ ¬ dead a ∧ shape a = some ⟨q, some nodes'⟩) := by
  have hd := (l.back ha).1
  rw [l.shape_eq, if_neg hd] at ha
  by_cases hap : a = p
  · subst hap
    rw [if_pos rfl, Option.some.injEq, NodeShape.mk.injEq, Option.some.injEq] at ha
    exact .inl ⟨rfl, ha.2.symm⟩
  · rw [if_neg hap] at ha
    exact .inr ⟨hap, hd, ha⟩

theorem Link.parent' (l : Link shape shape' cell dead new p old part pp nodes)
    (h : Shape env shape root cell (some new)) : shape' p = some ⟨pp, some (Function.update nodes part new)⟩ := by
  rw [l.shape_eq, if_neg (l.parent_live h), if_pos rfl]

/-- The root is still there. -/
theorem Link.root_live (l : Link shape shape' cell dead new p old part pp nodes)
    (h : Shape env shape root cell (some new)) : ∃ nodes', shape' root = some ⟨none, some nodes'⟩ := by
  obtain ⟨rnodes, hr⟩ := h.rootNode
  obtain ⟨-, -, -, s, hs, hp⟩ := l.old_child h
  have hd : ¬ dead root := by
    intro hd
    rcases (l.dead_iff root _ hr).1 hd with he | ⟨y, hy, -⟩
    · rw [← he, hr, Option.some.injEq] at hs
      rw [← hs] at hp
      cases hp
    · cases hy
  rw [l.shape_eq, if_neg hd]
  by_cases hrp : root = p
  · subst hrp
    have hp := l.parent
    rw [hr, Option.some.injEq, NodeShape.mk.injEq] at hp
    exact ⟨_, by rw [if_pos rfl, hp.1]⟩
  · exact ⟨rnodes, by rw [if_neg hrp, hr]⟩

/-- The children of a quad node are there and point to it. -/
theorem Link.child (l : Link shape shape' cell dead new p old part pp nodes)
    (h : Shape env shape root cell (some new)) {a : Nat} {q : Option Nat} {nodes' : Fin 4 → Nat}
    (ha : shape' a = some ⟨q, some nodes'⟩) (t : Fin 4) : a < nodes' t ∧
      cell (nodes' t) = getQrectsFromQbounds env.midpoint (cell a) t ∧
      ∃ s, shape' (nodes' t) = some s ∧ s.parent = some a := by
  obtain ⟨-, -, hcell, s, hs, hp⟩ := l.old_child h
  rcases l.quad ha with ⟨rfl, rfl⟩ | ⟨hap, hd, hs'⟩
  · by_cases ht : t = part
    · subst ht
      obtain ⟨sn, hsn, hpn⟩ := l.hangs
      obtain ⟨s', hs', hsp⟩ := l.forth hsn (l.new_live h)
      rw [Function.update_self]
      exact ⟨l.lt_new, by rw [l.cell_eq, hcell], s', hs', hsp.trans hpn⟩
    · obtain ⟨h1, -, h3, s₁, hs₁, hp₁⟩ := h.child a pp nodes l.parent t
      have hne : nodes t ≠ old := fun he => ht (h.injective a _ _ l.parent (he.trans l.old_eq.symm))
      obtain ⟨s', hs', hsp⟩ := l.forth hs₁ (l.child_live hs₁ hp₁ (l.parent_live h) hne)
      rw [Function.update_of_ne ht]
      exact ⟨h1, h3, s', hs', hsp.trans hp₁⟩
  · obtain ⟨h1, -, h3, s₁, hs₁, hp₁⟩ := h.child a q nodes' hs' t
    have hne : nodes' t ≠ old := by
      intro he
      rw [he, hs, Option.some.injEq] at hs₁
      rw [hs₁, hp₁, Option.some.injEq] at hp
      exact hap hp
    obtain ⟨s', hs', hsp⟩ := l.forth hs₁ (l.child_live hs₁ hp₁ hd hne)
    exact ⟨h1, h3, s', hs', hsp.trans hp₁⟩

theorem Link.injective (l : Link shape shape' cell dead new p old part pp nodes)
    (h : Shape env shape root cell (some new)) {a : Nat} {q : Option Nat} {nodes' : Fin 4 → Nat}
    (ha : shape' a = some ⟨q, some nodes'⟩) : Function.Injective nodes' := by
  rcases l.quad ha with ⟨rfl, rfl⟩ | ⟨-, -, hs⟩
  · have hne : ∀ t, nodes t ≠ new := fun t he => (h.child a pp nodes l.parent t).2.1 (by rw [he])
    intro t u htu
    by_cases ht : t = part <;> by_cases hu : u = part
    · rw [ht, hu]
    · rw [ht, Function.update_self, Function.update_of_ne hu] at htu
      exact absurd htu.symm (hne u)
    · rw [hu, Function.update_self, Function.update_of_ne ht] at htu
      exact absurd htu (hne t)
    · rw [Function.update_of_ne ht, Function.update_of_ne hu] at htu
      exact h.injective a _ _ l.parent htu
  · exact h.injective a q nodes' hs

/-- A node is a child of its parent. -/
theorem Link.held (l : Link shape shape' cell dead new p old part pp nodes)
    (h : Shape env shape root cell (some new)) {a y : Nat} {s' : NodeShape} (ha : shape' a = some s')
    (hy : s'.parent = some y) : ∃ p' nodes' t, shape' y = some ⟨p', some nodes'⟩ ∧ nodes' t = a := by
  obtain ⟨hd, s, hs, hsp⟩ := l.back ha
  rw [← hsp] at hy
  by_cases han : a = new
  · subst han
    obtain ⟨sn, hsn, hpn⟩ := l.hangs
    rw [hsn, Option.some.injEq] at hs
    rw [← hs, hpn, Option.some.injEq] at hy
    exact ⟨pp, _, part, hy ▸ l.parent' h, Function.update_self ..⟩
  · obtain ⟨p', nodes', t, hyn, ht⟩ := h.held a s y hs hy (fun he => han (Option.some.inj he))
    have hdy : ¬ dead y := fun hdy => hd ((l.dead_iff a s hs).2 (.inr ⟨y, hy, hdy⟩))
    by_cases hyp : y = p
    · subst hyp
      have hpar := l.parent
      rw [hyn, Option.some.injEq, NodeShape.mk.injEq, Option.some.injEq] at hpar
      have htp : t ≠ part := fun he =>
        hd ((l.dead_iff a s hs).2 (.inl (by rw [← ht, hpar.2, he, l.old_eq])))
      exact ⟨pp, _, t, l.parent' h, by rw [Function.update_of_ne htp, ← hpar.2, ht]⟩
    · exact ⟨p', nodes', t, by rw [l.shape_eq, if_neg hdy, if_neg hyp, hyn], ht⟩

theorem Shape.link (h : Shape env shape root cell (some new))
    (l : Link shape shape' cell dead new p old part pp nodes) : Shape env shape' root cell none where
  rootNode := l.root_live h
  rootCell := h.rootCell
  ordered a s' ha := by
    obtain ⟨-, s, hs, -⟩ := l.back ha
    exact h.ordered a s hs
  eq_root a s' ha hnone := by
    obtain ⟨-, s, hs, hsp⟩ := l.back ha
    exact h.eq_root a s hs (hsp.trans hnone)
  child a q nodes' ha t := by
    obtain ⟨h1, h2, h3⟩ := l.child h ha t
    exact ⟨h1, by simp, h2, h3⟩
  injective a q nodes' ha := l.injective h ha
  held a s' y ha hy _ := l.held h ha hy

end

/-- **The invariant of the tree with the new node in it.**  Its parent counts what the old node counted. -/
theorem Tree.link {db db' : PanDB D κ} {new p : Nat} {part : Fin 4} {q : QuadNode} {dead : Nat → Prop}
    [DecidablePred dead] {off : Nat → Int} (h : Tree env db pos cell (some new) stale gone off)
    (hp : db.nodes.cells p = some (.quadNode q))
    (l : Link db.shape db'.shape cell dead new p (q.nodes part) part q.parent q.nodes)
    (hcells : ∀ x, db'.nodes.cells x = if dead x then none else
      if x = p then some (.quadNode { q with nodes := Function.update q.nodes part new }) else db.nodes.cells x)
    (hstale : ∀ a b, db.bucketNode a = some b → ∀ e ∈ b.entries, (stale ⟨a, e.1⟩ ↔ dead a))
    (hroot : db'.root = db.root) (hslots : db'.slots = db.slots) :
    Tree env db' pos cell none (fun _ => False) gone
      (fun a => off a + if a = p then (db.weight (q.nodes part) : Int) - db.weight new else 0) := by
  have hbuckets : ∀ a, db'.bucketNode a = if dead a then none else db.bucketNode a := by
    intro a
    unfold PanDB.bucketNode
    rw [hcells]
    by_cases hd : dead a
    · rw [if_pos hd, if_pos hd]
    · rw [if_neg hd, if_neg hd]
      by_cases hap : a = p
      · rw [if_pos hap, hap, hp]
      · rw [if_neg hap]
  have hweight : ∀ a, ¬ dead a → db'.weight a = db.weight a := by
    intro a hd
    unfold PanDB.weight
    rw [hcells, if_neg hd]
    by_cases hap : a = p
    · rw [if_pos hap, hap, hp]
      rfl
    · rw [if_neg hap]
  refine ⟨hroot ▸ h.shape.link l, hslots ▸ h.located.free dead hbuckets hstale, ?_⟩
  intro a q' ha
  have hlive : ∀ t, ¬ dead (q'.nodes t) := by
    intro t
    obtain ⟨-, -, s, hs, -⟩ := l.child h.shape (shape_of_cells ha) t
    exact (l.back hs).1
  have hd := (l.back (shape_of_cells ha)).1
  have hsum : ∑ t, (db'.weight (q'.nodes t) : Int) = ∑ t, (db.weight (q'.nodes t) : Int) :=
    Finset.sum_congr rfl (fun t _ => by rw [hweight _ (hlive t)])
  rw [hsum]
  rw [hcells, if_neg hd] at ha
  by_cases hap : a = p
  · subst hap
    rw [if_pos rfl, Option.some.injEq, Node.quadNode.injEq] at ha
    subst ha
    have hq := h.counted a q hp
    have hupdate : ∑ t, (db.weight (Function.update q.nodes part new t) : Int) =
        ∑ t, (db.weight (q.nodes t) : Int) + (db.weight new - db.weight (q.nodes part)) := by
      have hfun : (fun t => (db.weight (Function.update q.nodes part new t) : Int)) =
          Function.update (fun t => (db.weight (q.nodes t) : Int)) part (db.weight new) := by
        funext t
        by_cases ht : t = part
        · subst ht
          rw [Function.update_self, Function.update_self]
        · rw [Function.update_of_ne ht, Function.update_of_ne ht]
      rw [hfun, Finset.sum_update_of_mem (Finset.mem_univ _),
        ← Finset.add_sum_erase _ _ (Finset.mem_univ part), Finset.sdiff_singleton_eq_erase]
      omega
    simp only [if_true]
    rw [hupdate]
    omega
  · rw [if_neg hap] at ha
    have := h.counted a q' ha
    simp only [if_neg hap]
    omega

end Pincaster
