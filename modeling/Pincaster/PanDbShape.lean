import Pincaster.PanDb
import Mathlib.Algebra.BigOperators.Fin
/-!
# PanDbShape — the tree of a heap, and its counters

The shape of a tree is what its nodes hold but for their counters and entries.  `Shape` says that parents and children
point to each other and gives every node its cell; one node may hang off the tree while it is built.  `Counted` says by
how much a quad node counts more than its children: writing a counter moves the difference to the parent.
-/
namespace Pincaster

open Lib (Heap)

variable {D κ : Type}

/-! ## Shapes -/

/-- A node without its counters and entries; `nodes` are those of a quad node. -/
structure NodeShape where
  parent : Option Nat
  nodes : Option (Fin 4 → Nat)

def Node.shape : Node D κ → NodeShape
  | .quadNode q => ⟨q.parent, some q.nodes⟩
  | .bucketNode b => ⟨b.parent, none⟩

def PanDB.shape (db : PanDB D κ) (a : Nat) : Option NodeShape := (db.nodes.cells a).map Node.shape

/-- What a node counts. -/
def Node.weight : Node D κ → Nat
  | .quadNode q => q.subSlots
  | .bucketNode b => b.busySlots

def PanDB.weight (db : PanDB D κ) (a : Nat) : Nat :=
  match db.nodes.cells a with
  | some n => n.weight
  | none => 0

@[simp] theorem Node.shape_parent (n : Node D κ) : n.shape.parent = n.parent := by cases n <;> rfl

theorem shape_of_cells {db : PanDB D κ} {a : Nat} {n : Node D κ} (h : db.nodes.cells a = some n) :
    db.shape a = some n.shape := by rw [PanDB.shape, h]; rfl

theorem weight_of_cells {db : PanDB D κ} {a : Nat} {n : Node D κ} (h : db.nodes.cells a = some n) :
    db.weight a = n.weight := by rw [PanDB.weight, h]

theorem quadNode_eq_some {db : PanDB D κ} {a : Nat} {q : QuadNode} :
    db.quadNode a = some q ↔ db.nodes.cells a = some (.quadNode q) := by
  unfold PanDB.quadNode
  split <;> simp_all

theorem bucketNode_eq_some {db : PanDB D κ} {a : Nat} {b : BucketNode D κ} :
    db.bucketNode a = some b ↔ db.nodes.cells a = some (.bucketNode b) := by
  unfold PanDB.bucketNode
  split <;> simp_all

/-- A node whose shape has children is a quad node. -/
theorem quadNode_of_shape {db : PanDB D κ} {a : Nat} {p : Option Nat} {nodes : Fin 4 → Nat}
    (h : db.shape a = some ⟨p, some nodes⟩) :
    ∃ q, db.nodes.cells a = some (.quadNode q) ∧ q.parent = p ∧ q.nodes = nodes := by
  obtain ⟨n, hn, hs⟩ := Option.map_eq_some_iff.1 h
  cases n with
  | quadNode q =>
    cases hs
    exact ⟨q, hn, rfl, rfl⟩
  | bucketNode b => cases hs

/-! ### Writing -/

theorem cells_write (db : PanDB D κ) (a : Nat) (n : Node D κ) (b : Nat) :
    (db.write a n).nodes.cells b = if b = a then (db.nodes.cells b).map (fun _ => n) else db.nodes.cells b := rfl

theorem cells_write_self {db : PanDB D κ} {a : Nat} {m : Node D κ} (h : db.nodes.cells a = some m) (n : Node D κ) :
    (db.write a n).nodes.cells a = some n := by rw [cells_write, if_pos rfl, h]; rfl

theorem cells_write_of_ne {a b : Nat} (h : b ≠ a) (db : PanDB D κ) (n : Node D κ) :
    (db.write a n).nodes.cells b = db.nodes.cells b := by rw [cells_write, if_neg h]

/-- A write that keeps the shape of the node keeps the shape of the tree. -/
theorem shape_write {db : PanDB D κ} {a : Nat} {m n : Node D κ} (h : db.nodes.cells a = some m)
    (hs : n.shape = m.shape) : (db.write a n).shape = db.shape := by
  funext b
  by_cases hb : b = a
  · subst hb
    rw [shape_of_cells (cells_write_self h n), shape_of_cells h, hs]
  · rw [PanDB.shape, cells_write_of_ne hb, PanDB.shape]

theorem weight_write {db : PanDB D κ} {a : Nat} {m n : Node D κ} (h : db.nodes.cells a = some m) (b : Nat) :
    ((db.write a n).weight b : Int) = db.weight b + if b = a then (n.weight : Int) - m.weight else 0 := by
  by_cases hb : b = a
  · subst hb
    rw [weight_of_cells (cells_write_self h n), weight_of_cells h, if_pos rfl]
    omega
  · rw [PanDB.weight, cells_write_of_ne hb, if_neg hb, PanDB.weight]
    omega

/-! ## Trees -/

variable [LinearOrder D]

/-- **Parents and children point to each other**, but for one node that hangs off the tree.  A child is younger than its
parent, and its cell is a quarter of its parent's. -/
structure Shape (env : PanDbEnv D κ) (shape : Nat → Option NodeShape) (root : Nat) (cell : Nat → Rectangle2D D)
    (loose : Option Nat) : Prop where
  rootNode : ∃ nodes, shape root = some ⟨none, some nodes⟩
  rootCell : cell root = env.qbounds
  ordered : ∀ a s, shape a = some s → (cell a).Ordered
  eq_root : ∀ a s, shape a = some s → s.parent = none → a = root
  child : ∀ a p nodes, shape a = some ⟨p, some nodes⟩ → ∀ t, a < nodes t ∧ some (nodes t) ≠ loose ∧
    cell (nodes t) = getQrectsFromQbounds env.midpoint (cell a) t ∧ ∃ s, shape (nodes t) = some s ∧ s.parent = some a
  injective : ∀ a p nodes, shape a = some ⟨p, some nodes⟩ → Function.Injective nodes
  held : ∀ a s p, shape a = some s → s.parent = some p → some a ≠ loose →
    ∃ p' nodes t, shape p = some ⟨p', some nodes⟩ ∧ nodes t = a

theorem Shape.child_iff {env : PanDbEnv D κ} {shape : Nat → Option NodeShape} {root : Nat} {cell : Nat → Rectangle2D D}
    {loose : Option Nat} (h : Shape env shape root cell loose) {a x : Nat} {p : Option Nat} {nodes : Fin 4 → Nat}
    {s : NodeShape} (ha : shape a = some ⟨p, some nodes⟩) (hx : shape x = some s) :
    (∃ t, nodes t = x) ↔ s.parent = some a ∧ some x ≠ loose := by
  constructor
  · rintro ⟨t, rfl⟩
    obtain ⟨-, hloose, -, s', hs', hp⟩ := h.child a p nodes ha t
    rw [hx, Option.some.injEq] at hs'
    exact ⟨hs' ▸ hp, hloose⟩
  · rintro ⟨hp, hloose⟩
    obtain ⟨p', nodes', t, ha', ht⟩ := h.held x s a hx hp hloose
    rw [ha, Option.some.injEq, NodeShape.mk.injEq, Option.some.injEq] at ha'
    exact ⟨t, ha'.2 ▸ ht⟩

theorem Shape.parent_lt {env : PanDbEnv D κ} {shape : Nat → Option NodeShape} {root : Nat} {cell : Nat → Rectangle2D D}
    {loose : Option Nat} (h : Shape env shape root cell loose) {x p : Nat} {s : NodeShape} (hx : shape x = some s)
    (hp : s.parent = some p) (hloose : some x ≠ loose) : p < x := by
  obtain ⟨p', nodes, t, ha, rfl⟩ := h.held x s p hx hp hloose
  exact (h.child p p' nodes ha t).1

/-- The parent of a node is an older quad node. -/
theorem Shape.parent_quad {env : PanDbEnv D κ} {db : PanDB D κ} {cell : Nat → Rectangle2D D}
    (h : Shape env db.shape db.root cell none) {x p : Nat} {n : Node D κ} (hx : db.nodes.cells x = some n)
    (hp : n.parent = some p) : p < x ∧ ∃ q, db.nodes.cells p = some (.quadNode q) := by
  have hs := shape_of_cells hx
  have hp' : n.shape.parent = some p := by rw [Node.shape_parent, hp]
  obtain ⟨p', nodes, t, hps, -⟩ := h.held x _ p hs hp' (by simp)
  obtain ⟨q, hq, -⟩ := quadNode_of_shape hps
  exact ⟨h.parent_lt hs hp' (by simp), q, hq⟩

/-! ## Counters -/

omit [LinearOrder D] in
/-- **A quad node counts what its children count, and `off` more.** -/
def Counted (db : PanDB D κ) (off : Nat → Int) : Prop := ∀ a q, db.nodes.cells a = some (.quadNode q) →
  (q.subSlots : Int) = ∑ t, (db.weight (q.nodes t) : Int) + off a

/-- The difference is at one node. -/
def offAt (a : Option Nat) (d : Int) : Nat → Int := fun x => if some x = a then d else 0

/-- The children that are the node written count `d` more. -/
theorem Shape.sum_child {env : PanDbEnv D κ} {shape : Nat → Option NodeShape} {root : Nat} {cell : Nat → Rectangle2D D}
    {loose : Option Nat} (h : Shape env shape root cell loose) {a x : Nat} {p : Option Nat} {nodes : Fin 4 → Nat}
    {s : NodeShape} (ha : shape a = some ⟨p, some nodes⟩) (hx : shape x = some s) (d : Int) :
    (∑ t, if nodes t = x then d else 0) = if some x ≠ loose then offAt s.parent d a else 0 := by
  by_cases hc : ∃ t, nodes t = x
  · obtain ⟨t, ht⟩ := hc
    obtain ⟨hp, hl⟩ := (h.child_iff ha hx).1 ⟨t, ht⟩
    have heq : ∀ u, (nodes u = x) ↔ u = t := fun u =>
      ⟨fun hu => h.injective a _ _ ha (hu.trans ht.symm), fun hu => hu ▸ ht⟩
    rw [if_pos hl, offAt, hp, if_pos rfl]
    simp only [heq, Finset.sum_ite_eq', Finset.mem_univ, if_true]
  · have hnone : ∀ u, nodes u ≠ x := fun u hu => hc ⟨u, hu⟩
    simp only [hnone, if_false, Finset.sum_const_zero]
    split
    · rename_i hl
      exact (if_neg (fun hp => hc ((h.child_iff ha hx).2 ⟨hp.symm, hl⟩))).symm
    · rfl

/-- **A node that counts `d` more has that difference to its children, and its parent the opposite one.** -/
theorem Counted.write {env : PanDbEnv D κ} {db : PanDB D κ} {cell : Nat → Rectangle2D D} {loose : Option Nat}
    {off : Nat → Int} (hshape : Shape env db.shape db.root cell loose) (h : Counted db off) {x : Nat} {m n : Node D κ}
    (hx : db.nodes.cells x = some m) (hs : n.shape = m.shape) {d : Int} (hd : (n.weight : Int) - m.weight = d) :
    Counted (db.write x n) (fun a =>
      off a + offAt (some x) d a - if some x ≠ loose then offAt m.parent d a else 0) := by
  intro a q ha
  have hqs : db.shape a = some ⟨q.parent, some q.nodes⟩ := by
    rw [← shape_write hx hs]
    exact shape_of_cells ha
  have hchild := hshape.sum_child hqs (shape_of_cells hx) d
  have hsum : (∑ t, ((db.write x n).weight (q.nodes t) : Int)) = (∑ t, (db.weight (q.nodes t) : Int)) +
      ∑ t, if q.nodes t = x then d else 0 := by
    rw [← Finset.sum_add_distrib, ← hd]
    exact Finset.sum_congr rfl (fun t _ => weight_write hx _)
  rw [Node.shape_parent] at hchild
  rw [hsum, hchild]
  beta_reduce
  by_cases hax : a = x
  · subst hax
    rw [cells_write_self hx, Option.some.injEq] at ha
    subst ha
    cases m with
    | bucketNode b => simp [Node.shape] at hs
    | quadNode q' =>
      have := h a q' hx
      have hnodes : q.nodes = q'.nodes := by
        simp only [Node.shape, NodeShape.mk.injEq, Option.some.injEq] at hs
        exact hs.2
      have ha0 : offAt (some a) d a = d := if_pos rfl
      simp only [Node.weight] at hd
      rw [hnodes]
      omega
  · rw [cells_write_of_ne hax] at ha
    have := h a q ha
    have ha0 : offAt (some x) d a = 0 := if_neg (fun he => hax (Option.some.inj he))
    omega

/-- A node of the tree takes the difference to its parent. -/
theorem Counted.write_up {env : PanDbEnv D κ} {db : PanDB D κ} {cell : Nat → Rectangle2D D} {d : Int} {x : Nat}
    {m n : Node D κ} (hshape : Shape env db.shape db.root cell none) (h : Counted db (offAt (some x) (-d)))
    (hx : db.nodes.cells x = some m) (hs : n.shape = m.shape) (hd : (n.weight : Int) - m.weight = d) :
    Counted (db.write x n) (offAt m.parent (-d)) := by
  have heq : ∀ a, offAt (some x) (-d) a + offAt (some x) d a - offAt m.parent d a = offAt m.parent (-d) a := by
    intro a
    simp only [offAt]
    split_ifs <;> omega
  intro a q ha
  have := h.write hshape hx hs hd a q ha
  beta_reduce at this
  rw [if_pos (by simp), heq] at this
  exact this

omit [LinearOrder D] in
/-- Only the quad nodes matter. -/
theorem Counted.congr_quad {db : PanDB D κ} {off o : Nat → Int} (h : Counted db off)
    (he : ∀ a q, db.nodes.cells a = some (.quadNode q) → off a = o a) : Counted db o :=
  fun a q ha => he a q ha ▸ h a q ha

omit [LinearOrder D] in
theorem Counted.congr {db : PanDB D κ} {off o : Nat → Int} (h : Counted db off) (he : ∀ a, off a = o a) :
    Counted db o := fun a q ha => he a ▸ h a q ha

/-! ## The way up -/

omit [LinearOrder D] in
/-- Two trees that differ in the counters of their quad nodes only. -/
structure SameButCounts (db db' : PanDB D κ) : Prop where
  shape : db'.shape = db.shape
  root : db'.root = db.root
  slots : db'.slots = db.slots
  brk : db'.nodes.brk = db.nodes.brk
  buckets : db'.bucketNode = db.bucketNode

omit [LinearOrder D] in
theorem SameButCounts.refl (db : PanDB D κ) : SameButCounts db db := ⟨rfl, rfl, rfl, rfl, rfl⟩

omit [LinearOrder D] in
theorem SameButCounts.trans {db db' db'' : PanDB D κ} (h : SameButCounts db db') (h' : SameButCounts db' db'') :
    SameButCounts db db'' :=
  ⟨h'.shape.trans h.shape, h'.root.trans h.root, h'.slots.trans h.slots, h'.brk.trans h.brk, h'.buckets.trans h.buckets⟩

omit [LinearOrder D] in
theorem SameButCounts.write {db : PanDB D κ} {a : Nat} {q q' : QuadNode} (ha : db.nodes.cells a = some (.quadNode q))
    (hp : q'.parent = q.parent) (hn : q'.nodes = q.nodes) : SameButCounts db (db.write a (.quadNode q')) := by
  refine ⟨shape_write ha (by simp [Node.shape, hp, hn]), rfl, rfl, rfl, funext (fun b => ?_)⟩
  by_cases hb : b = a
  · subst hb
    unfold PanDB.bucketNode
    rw [cells_write_self ha, ha]
  · unfold PanDB.bucketNode
    rw [cells_write_of_ne hb]

omit [LinearOrder D] in
/-- **Every quad node is an old one in its old cell**, or one in a cell that is `new`. -/
structure QuadsKept (db db' : PanDB D κ) (cell cell' : Nat → Rectangle2D D) (new : Rectangle2D D → Prop) : Prop where
  root : db'.root = db.root
  quad : ∀ x p nodes, db'.shape x = some ⟨p, some nodes⟩ →
    (cell' x = cell x ∧ ∃ p nodes, db.shape x = some ⟨p, some nodes⟩) ∨ new (cell' x)

omit [LinearOrder D] in
/-- Trees of one shape have the same quad nodes. -/
theorem QuadsKept.congr {db₁ db₁' db db' : PanDB D κ} {cell cell' : Nat → Rectangle2D D} {new : Rectangle2D D → Prop}
    (h : QuadsKept db db' cell cell' new) (hshape : db₁.shape = db.shape) (hroot : db₁.root = db.root)
    (hshape' : db₁'.shape = db'.shape) (hroot' : db₁'.root = db'.root) : QuadsKept db₁ db₁' cell cell' new :=
  ⟨by rw [hroot', hroot, h.root], fun x p nodes hx => by
    rw [hshape]
    exact h.quad x p nodes (hshape' ▸ hx)⟩

omit [LinearOrder D] in
theorem QuadsKept.refl (db : PanDB D κ) (cell : Nat → Rectangle2D D) (new : Rectangle2D D → Prop) :
    QuadsKept db db cell cell new := ⟨rfl, fun _ p nodes hx => .inl ⟨rfl, p, nodes, hx⟩⟩

/-- **Counting one more all the way up** makes up for a child that counts one more. -/
theorem incSubSlots_spec {env : PanDbEnv D κ} {cell : Nat → Rectangle2D D} : ∀ (fuel : Nat) (a : Option Nat)
    (db : PanDB D κ), Shape env db.shape db.root cell none → Counted db (offAt a (-1)) →
      (∀ x, a = some x → x < fuel ∧ ∃ q, db.nodes.cells x = some (.quadNode q)) →
      ∃ db', incSubSlots fuel a db = some db' ∧ SameButCounts db db' ∧ Counted db' (fun _ => 0)
  | fuel, none, db, _, hc, _ => ⟨db, by cases fuel <;> rfl, .refl db, hc.congr (fun x => by simp [offAt])⟩
  | 0, some x, _, _, _, ha => absurd (ha x rfl).1 (by omega)
  | fuel + 1, some x, db, hshape, hc, ha => by
    obtain ⟨hlt, q, hq⟩ := ha x rfl
    have hsame : SameButCounts db (db.write x (.quadNode { q with subSlots := q.subSlots + 1 })) := .write hq rfl rfl
    have hw := hc.write_up hshape hq (n := .quadNode { q with subSlots := q.subSlots + 1 }) rfl (by simp [Node.weight])
    obtain ⟨db', hinc, hsame', hc'⟩ := incSubSlots_spec fuel q.parent _ (hsame.shape ▸ hshape) hw (fun y hy => by
      obtain ⟨hlt', q', hq'⟩ := hshape.parent_quad hq hy
      obtain ⟨q'', hq'', -⟩ := quadNode_of_shape (hsame.shape ▸ shape_of_cells hq')
      exact ⟨by omega, q'', hq''⟩)
    exact ⟨db', by rw [incSubSlots, quadNode_eq_some.2 hq]; exact hinc, hsame.trans hsame', hc'⟩

/-- **Counting one less all the way up** makes up for a child that counts one less. -/
theorem decSubSlots_spec {env : PanDbEnv D κ} {cell : Nat → Rectangle2D D} : ∀ (fuel x : Nat) (db : PanDB D κ),
    Shape env db.shape db.root cell none → Counted db (offAt (some x) 1) → x < fuel →
      (∃ q, db.nodes.cells x = some (.quadNode q)) →
      ∃ db', decSubSlots fuel x db = some db' ∧ SameButCounts db db' ∧ Counted db' (fun _ => 0)
  | 0, _, _, _, _, h, _ => by omega
  | fuel + 1, x, db, hshape, hc, hlt, hex => by
    obtain ⟨⟨parent, subSlots, nodes⟩, hq⟩ := hex
    have hpos : 0 < subSlots := by
      have := hc x _ hq
      rw [offAt, if_pos rfl, ← Nat.cast_sum] at this
      simp only at this
      omega
    have hsame : SameButCounts db (db.write x (.quadNode ⟨parent, subSlots - 1, nodes⟩)) := .write hq rfl rfl
    have hw := hc.write_up (d := -1) hshape hq (n := .quadNode ⟨parent, subSlots - 1, nodes⟩) rfl
      (by simp only [Node.weight]; omega)
    rw [decSubSlots, quadNode_eq_some.2 hq]
    simp only [Option.bind_eq_bind, Option.bind_some, if_neg (show subSlots ≠ 0 by omega)]
    cases parent with
    | none => exact ⟨_, rfl, hsame, hw.congr (fun y => by simp [offAt, Node.parent])⟩
    | some y =>
      obtain ⟨hlt', q', hq'⟩ := hshape.parent_quad hq rfl
      obtain ⟨q'', hq'', -⟩ := quadNode_of_shape (hsame.shape ▸ shape_of_cells hq')
      obtain ⟨db', hdec, hsame', hc'⟩ := decSubSlots_spec fuel y _ (hsame.shape ▸ hshape) hw (by omega) ⟨q'', hq''⟩
      exact ⟨db', hdec, hsame.trans hsame', hc'⟩

end Pincaster
