import Pincaster.PanDbTree
/-!
# PanDbSplit — a full bucket becomes a quad node

A quad node with four empty buckets is allocated below the parent of the full bucket, hangs off the tree while the slots
are copied to its buckets, and takes the place of the full one.
-/
namespace Pincaster

variable {D κ : Type}

/-! ## Cells -/

/-- The heap after `new_quad_node`, with the parent set. -/
def PanDB.withQuad (db : PanDB D κ) (parent : Nat) : PanDB D κ :=
  let (nodes, quad) := newQuadNode db.nodes
  { db with nodes }.write quad (.quadNode ⟨some parent, 0, fun t => quad + 1 + t⟩)

theorem cells_withQuad (db : PanDB D κ) (parent x : Nat) : (db.withQuad parent).nodes.cells x =
    if x = db.nodes.brk then some (.quadNode ⟨some parent, 0, fun t => db.nodes.brk + 1 + t⟩)
    else if db.nodes.brk < x ∧ x < db.nodes.brk + 5 then some (newBucketNode db.nodes.brk) else db.nodes.cells x := by
  simp only [PanDB.withQuad, newQuadNode, PanDB.write, Lib.Heap.cells_modify, Lib.Heap.cells_alloc, Lib.Heap.brk_alloc]
  split_ifs <;> first | rfl | omega

/-- A node of the tree with the new nodes is the quad node, one of its buckets, or an old node. -/
theorem shape_withQuad {db : PanDB D κ} {parent x : Nat} {s : NodeShape} (h : (db.withQuad parent).shape x = some s) :
    (x = db.nodes.brk ∧ s = ⟨some parent, some (fun t => db.nodes.brk + 1 + t)⟩) ∨
      (∃ t : Fin 4, x = db.nodes.brk + 1 + t ∧ s = ⟨some db.nodes.brk, none⟩) ∨
      (x < db.nodes.brk ∧ db.shape x = some s) := by
  rw [PanDB.shape, cells_withQuad] at h
  by_cases h1 : x = db.nodes.brk
  · rw [if_pos h1] at h
    exact .inl ⟨h1, (Option.some.inj h).symm⟩
  · rw [if_neg h1] at h
    by_cases h2 : db.nodes.brk < x ∧ x < db.nodes.brk + 5
    · rw [if_pos h2] at h
      exact .inr (.inl ⟨⟨x - (db.nodes.brk + 1), by omega⟩, by simp only; omega, (Option.some.inj h).symm⟩)
    · rw [if_neg h2] at h
      obtain ⟨n, hn, -⟩ := Option.map_eq_some_iff.1 h
      exact .inr (.inr ⟨Lib.Heap.lt_brk hn, h⟩)

theorem shape_withQuad_lt (db : PanDB D κ) (parent : Nat) {x : Nat} (hx : x < db.nodes.brk) :
    (db.withQuad parent).shape x = db.shape x := by
  rw [PanDB.shape, cells_withQuad, if_neg (by omega), if_neg (by omega), PanDB.shape]

theorem shape_withQuad_quad (db : PanDB D κ) (parent : Nat) : (db.withQuad parent).shape db.nodes.brk =
    some ⟨some parent, some (fun t => db.nodes.brk + 1 + t)⟩ := by
  rw [PanDB.shape, cells_withQuad, if_pos rfl]
  rfl

theorem shape_withQuad_part (db : PanDB D κ) (parent : Nat) (t : Fin 4) :
    (db.withQuad parent).shape (db.nodes.brk + 1 + t) = some ⟨some db.nodes.brk, none⟩ := by
  have ht := t.isLt
  rw [PanDB.shape, cells_withQuad, if_neg (by omega), if_pos (by omega)]
  rfl

theorem lt_brk_of_shape {db : PanDB D κ} {x : Nat} {s : NodeShape} (h : db.shape x = some s) : x < db.nodes.brk := by
  obtain ⟨n, hn, -⟩ := Option.map_eq_some_iff.1 h
  exact Lib.Heap.lt_brk hn

theorem bucketNode_withQuad (db : PanDB D κ) (parent x : Nat) : (db.withQuad parent).bucketNode x =
    if db.nodes.brk < x ∧ x < db.nodes.brk + 5 then some ⟨some db.nodes.brk, 0, [], 0⟩ else db.bucketNode x := by
  unfold PanDB.bucketNode
  rw [cells_withQuad]
  by_cases h1 : x = db.nodes.brk
  · rw [if_pos h1, if_neg (by omega), h1, db.nodes.fresh _ (Nat.le_refl _)]
  · rw [if_neg h1]
    by_cases h2 : db.nodes.brk < x ∧ x < db.nodes.brk + 5
    · rw [if_pos h2, if_pos h2]
      rfl
    · rw [if_neg h2, if_neg h2]

theorem weight_withQuad_lt (db : PanDB D κ) (parent : Nat) {x : Nat} (hx : x < db.nodes.brk) :
    (db.withQuad parent).weight x = db.weight x := by
  rw [PanDB.weight, cells_withQuad, if_neg (by omega), if_neg (by omega), PanDB.weight]

variable [LinearOrder D]

/-- The cells of the nodes, with the new quad node and its quarters. -/
def cellsWithQuad (m : Midpoint D) (cell : Nat → Rectangle2D D) (quad : Nat) (rect : Rectangle2D D) (x : Nat) :
    Rectangle2D D :=
  if x = quad then rect
  else if h : quad < x ∧ x < quad + 5 then getQrectsFromQbounds m rect ⟨x - (quad + 1), by omega⟩ else cell x

theorem cellsWithQuad_quad (m : Midpoint D) (cell : Nat → Rectangle2D D) (quad : Nat) (rect : Rectangle2D D) :
    cellsWithQuad m cell quad rect quad = rect := if_pos rfl

theorem cellsWithQuad_part (m : Midpoint D) (cell : Nat → Rectangle2D D) (quad : Nat) (rect : Rectangle2D D)
    (t : Fin 4) : cellsWithQuad m cell quad rect (quad + 1 + t) = getQrectsFromQbounds m rect t := by
  have ht := t.isLt
  rw [cellsWithQuad, if_neg (by omega), dif_pos (by omega)]
  congr 1
  exact Fin.ext (by simp)

theorem cellsWithQuad_lt (m : Midpoint D) (cell : Nat → Rectangle2D D) {quad x : Nat} (rect : Rectangle2D D)
    (h : x < quad) : cellsWithQuad m cell quad rect x = cell x := by
  rw [cellsWithQuad, if_neg (by omega), dif_neg (by omega)]

variable {env : PanDbEnv D κ} {pos : κ → Option (Position2D D)} {cell : Nat → Rectangle2D D}

/-- **The new quad node hangs off the tree.** -/
theorem Shape.withQuad {db : PanDB D κ} (h : Shape env db.shape db.root cell none) {parent : Nat} {q : QuadNode}
    (hp : db.nodes.cells parent = some (.quadNode q)) {rect : Rectangle2D D} (hrect : rect.Ordered) :
    Shape env (db.withQuad parent).shape (db.withQuad parent).root
      (cellsWithQuad env.midpoint cell db.nodes.brk rect) (some db.nodes.brk) := by
  have hroot : (db.withQuad parent).root = db.root := rfl
  obtain ⟨rnodes, hr⟩ := h.rootNode
  have hps := shape_of_cells hp
  have hplt := lt_brk_of_shape hps
  rw [hroot]
  refine ⟨⟨rnodes, ?_⟩, ?_, ?_, ?_, ?_, ?_, ?_⟩
  · rw [shape_withQuad_lt db parent (lt_brk_of_shape hr), hr]
  · rw [cellsWithQuad_lt _ _ _ (lt_brk_of_shape hr), h.rootCell]
  · intro a s ha
    rcases shape_withQuad ha with ⟨rfl, -⟩ | ⟨t, rfl, -⟩ | ⟨hlt, hs⟩
    · rw [cellsWithQuad_quad]
      exact hrect
    · rw [cellsWithQuad_part]
      exact ordered_getQrects _ hrect t
    · rw [cellsWithQuad_lt _ _ _ hlt]
      exact h.ordered a s hs
  · intro a s ha hnone
    rcases shape_withQuad ha with ⟨-, rfl⟩ | ⟨t, -, rfl⟩ | ⟨-, hs⟩
    · cases hnone
    · cases hnone
    · exact h.eq_root a s hs hnone
  · intro a p nodes ha t
    rcases shape_withQuad ha with ⟨rfl, heq⟩ | ⟨u, -, heq⟩ | ⟨hlt, hs⟩
    · rw [NodeShape.mk.injEq, Option.some.injEq] at heq
      rw [heq.2]
      beta_reduce
      exact ⟨by omega, by simp; omega, by rw [cellsWithQuad_part, cellsWithQuad_quad], _,
        shape_withQuad_part db parent t, rfl⟩
    · cases heq
    · obtain ⟨h1, -, h3, s, hst, hsp⟩ := h.child a p nodes hs t
      have hlt' := lt_brk_of_shape hst
      refine ⟨h1, by simp; omega, ?_, s, by rw [shape_withQuad_lt db parent hlt', hst], hsp⟩
      rw [cellsWithQuad_lt _ _ _ hlt', cellsWithQuad_lt _ _ _ hlt, h3]
  · intro a p nodes ha
    rcases shape_withQuad ha with ⟨-, heq⟩ | ⟨u, -, heq⟩ | ⟨-, hs⟩
    · rw [NodeShape.mk.injEq, Option.some.injEq] at heq
      rw [heq.2]
      intro t u htu
      exact Fin.ext (by simpa using htu)
    · cases heq
    · exact h.injective a p nodes hs
  · intro a s p ha hp hne
    rcases shape_withQuad ha with ⟨rfl, -⟩ | ⟨t, rfl, rfl⟩ | ⟨-, hs⟩
    · exact absurd rfl hne
    · cases hp
      exact ⟨_, _, t, shape_withQuad_quad db parent, rfl⟩
    · obtain ⟨p', nodes, t, hps, ht⟩ := h.held a s p hs hp (by simp)
      exact ⟨p', nodes, t, by rw [shape_withQuad_lt db parent (lt_brk_of_shape hps), hps], ht⟩

/-- **A tree with a new quad node off it.** -/
theorem Tree.withQuad {db : PanDB D κ} (h : Tree env db pos cell none (fun _ => False) (fun _ => False) (fun _ => 0))
    {parent : Nat} {q : QuadNode} (hp : db.nodes.cells parent = some (.quadNode q)) {rect : Rectangle2D D}
    (hrect : rect.Ordered) : Tree env (db.withQuad parent) pos (cellsWithQuad env.midpoint cell db.nodes.brk rect)
      (some db.nodes.brk) (fun _ => False) (fun _ => False) (fun _ => 0) := by
  refine ⟨h.shape.withQuad hp hrect, h.located.grow ?_ ?_, ?_⟩
  · intro a b hb
    have hlt := Lib.Heap.lt_brk (bucketNode_eq_some.1 hb)
    exact ⟨by rw [bucketNode_withQuad, if_neg (by omega), hb], cellsWithQuad_lt _ _ _ hlt⟩
  · intro a b hb
    rw [bucketNode_withQuad] at hb
    split at hb
    · cases hb
      exact .inr ⟨rfl, rfl⟩
    · exact .inl hb
  · intro a q' ha
    rcases shape_withQuad (shape_of_cells ha) with ⟨rfl, -⟩ | ⟨t, -, heq⟩ | ⟨hlt, hs⟩
    · rw [cells_withQuad, if_pos rfl, Option.some.injEq, Node.quadNode.injEq] at ha
      subst ha
      have hzero : ∀ t : Fin 4, (db.withQuad parent).weight (db.nodes.brk + 1 + t) = 0 := by
        intro t
        have ht := t.isLt
        rw [PanDB.weight, cells_withQuad, if_neg (by omega), if_pos (by omega)]
        rfl
      simp [hzero]
    · simp [Node.shape] at heq
    · rw [cells_withQuad, if_neg (by omega), if_neg (by omega)] at ha
      have hw : ∀ t, (db.withQuad parent).weight (q'.nodes t) = db.weight (q'.nodes t) := by
        intro t
        obtain ⟨-, -, -, s, hst, -⟩ := h.shape.child a _ _ hs t
        exact weight_withQuad_lt db parent (lt_brk_of_shape hst)
      simp only [hw]
      exact h.counted a q' ha

/-! ## The slots are copied -/

variable [DecidableEq κ] {stale : SlotPtr → Prop} {gone : κ → Prop} {off : Nat → Int}

/-- **One slot is copied to a bucket of the quad node** that hangs off the tree. -/
theorem Tree.addParent {db : PanDB D κ} {quad a t : Nat} {q : QuadNode} {b bt : BucketNode D κ} {e : Nat × Slot D κ}
    (h : Tree env db pos cell (some quad) stale gone off) (hq : db.nodes.cells quad = some (.quadNode q))
    (hb : db.bucketNode a = some b) (he : e ∈ b.entries) (hst : ¬ stale ⟨a, e.1⟩) (ht : db.bucketNode t = some bt)
    (hp : bt.parent = some quad) (hin : positionIsInRect e.2.position (cell t)) (hfresh : ¬ stale ⟨t, bt.next⟩) :
    ∃ db' newSlot, addSlotToBucket db t e.2 .parent = some (db', newSlot) ∧ ∃ db'', relocate db' e.2 newSlot = some db'' ∧
      Tree env db'' pos cell (some quad) (fun p => stale p ∨ p = ⟨a, e.1⟩) gone off ∧ db''.shape = db.shape ∧
      db''.root = db.root ∧ db''.nodes.cells quad = some (.quadNode { q with subSlots := q.subSlots + 1 }) ∧
      ∀ x, x ≠ quad → x ≠ t → db''.nodes.cells x = db.nodes.cells x := by
  obtain ⟨k, hk, -, hloc⟩ := h.located.move hb he hst ht hin hfresh
  have hq' := quadNode_write_bucket (c := bt.add t e.2) ht hq
  have htq : t ≠ quad := by
    rintro rfl
    rw [bucketNode_eq_some, hq] at ht
    cases ht
  have hshape := h.shape.write_bucket (c := bt.add t e.2) ht rfl
  have hsame : SameButCounts _ (PanDB.write _ _ (.quadNode { q with subSlots := q.subSlots + 1 })) := .write hq' rfl rfl
  have hbuckets := hsame.buckets
  rw [bucketNode_write ht] at hbuckets
  refine ⟨_, _, addSlotToBucket_parent ht hk hp hq, _, relocate_eq hk _ _, ⟨?_, ?_, ?_⟩, ?_, rfl, ?_, ?_⟩
  · exact (congrArg (Shape env · db.root cell (some quad)) hsame.shape).mpr hshape
  · exact (congrArg (Located · _ pos cell _ gone) hbuckets).mpr hloc
  · have h1 := h.counted.write_bucket h.shape (c := bt.add t e.2) ht rfl (d := 1) (by simp [BucketNode.add])
    have h2 := h1.write hshape hq' (n := .quadNode { q with subSlots := q.subSlots + 1 }) rfl
      (d := 1) (by simp [Node.weight])
    refine Counted.congr h2 (fun x => ?_)
    rw [if_pos (by simpa using htq), if_neg (by simp), hp]
    omega
  · exact hsame.shape.trans (shape_write (bucketNode_eq_some.1 ht) rfl)
  · exact cells_write_self hq' _
  · intro x hx hxt
    exact (cells_write_of_ne hx _ _).trans (cells_write_of_ne hxt _ _)

/-- **All slots of a bucket are copied.** -/
theorem rebalanceBucket_spec {quad a : Nat} {b : BucketNode D κ} (hlt : a < quad) : ∀ (entries : List (Nat × Slot D κ))
    (db : PanDB D κ) (stale : SlotPtr → Prop) (q : QuadNode), Tree env db pos cell (some quad) stale gone off →
    db.nodes.cells quad = some (.quadNode q) → (∀ t, cell (q.nodes t) = getQrectsFromQbounds env.midpoint (cell a) t) →
    (∀ t, db.shape (q.nodes t) = some ⟨some quad, none⟩) → db.bucketNode a = some b →
    (∀ e ∈ entries, e ∈ b.entries ∧ ¬ stale ⟨a, e.1⟩) → (entries.map Prod.fst).Nodup →
    (∀ p, stale p → p.bucket = a) →
    ∃ db', rebalanceBucket quad (getQrectsFromQbounds env.midpoint (cell a)) entries db = some db' ∧
      Tree env db' pos cell (some quad) (fun p => stale p ∨ ∃ e ∈ entries, p = ⟨a, e.1⟩) gone off ∧
      db'.shape = db.shape ∧ db'.root = db.root ∧
      db'.nodes.cells quad = some (.quadNode { q with subSlots := q.subSlots + entries.length }) ∧
      ∀ x, x < quad → db'.nodes.cells x = db.nodes.cells x
  | [], db, stale, q, h, hq, _, _, _, _, _, _ => ⟨db, rfl, by simpa using h, rfl, rfl, hq, fun _ _ => rfl⟩
  | e :: entries, db, stale, q, h, hq, hcell, hparts, hb, hentries, hnodup, hstale => by
    obtain ⟨he, hst⟩ := hentries e (by simp)
    obtain ⟨hin, -⟩ := h.located.entry hb e he
    obtain ⟨t, ht, hint⟩ := findPart_spec env.midpoint hin
    obtain ⟨bt, hbt, hp⟩ := bucketNode_of_shape (hparts t)
    have hchild : ∀ u, quad < q.nodes u := fun u => (h.shape.child quad _ _ (shape_of_cells hq) u).1
    have hfresh : ¬ stale ⟨q.nodes t, bt.next⟩ := fun hs => by
      have h1 := hstale _ hs
      have h2 := hchild t
      simp only at h1
      omega
    obtain ⟨db₁, newSlot, hadd, db₂, hrel, h₂, hshape, hroot, hq₂, hframe⟩ :=
      h.addParent hq hb he hst hbt hp (by rw [hcell]; exact hint) hfresh
    have hframe' : ∀ x, x < quad → db₂.nodes.cells x = db.nodes.cells x := fun x hx => by
      have := hchild t
      exact hframe x (by omega) (by omega)
    rw [List.map_cons, List.nodup_cons] at hnodup
    obtain ⟨db', hreb, h', hshape', hroot', hq', hframe''⟩ := rebalanceBucket_spec hlt entries db₂ _ _ h₂ hq₂ hcell
      (by rw [hshape]; exact hparts) (by rw [bucketNode_eq_some, hframe' a hlt, ← bucketNode_eq_some]; exact hb)
      (fun e' he' => ⟨(hentries e' (by simp [he'])).1, fun hs => by
        rcases hs with hs | hs
        · exact (hentries e' (by simp [he'])).2 hs
        · rw [SlotPtr.mk.injEq] at hs
          exact hnodup.1 (hs.2 ▸ List.mem_map_of_mem he')⟩)
      hnodup.2 (fun p hs => hs.elim (hstale p) (fun hs => hs ▸ rfl))
    refine ⟨db', ?_, ?_, hshape'.trans hshape, hroot'.trans hroot, ?_, fun x hx => (hframe'' x hx).trans (hframe' x hx)⟩
    · rw [rebalanceBucket, quadNode_eq_some.2 hq]
      simp only [findNodeForPosition, ht, Option.bind_eq_bind, Option.bind_some, Option.map_some, hadd, hrel]
      exact hreb
    · have heq : (fun p => (stale p ∨ p = ⟨a, e.1⟩) ∨ ∃ e' ∈ entries, p = ⟨a, e'.1⟩) =
          fun p => stale p ∨ ∃ e' ∈ e :: entries, p = ⟨a, e'.1⟩ := by
        funext p
        simp only [List.mem_cons, exists_eq_or_imp, or_assoc]
      exact heq ▸ h'
    · rw [hq', List.length_cons, Nat.add_right_comm, Nat.add_assoc]

/-! ## The split -/

omit [DecidableEq κ] in
/-- A bucket of the tree can be freed. -/
theorem freeBucketNode_spec {db : PanDB D κ} {stale : SlotPtr → Prop} {loose : Option Nat}
    (h : Tree env db pos cell loose stale gone off) {a : Nat} {b : BucketNode D κ} (hb : db.bucketNode a = some b) :
    freeBucketNode db a = some { db with nodes := db.nodes.free a } := by
  have hall : b.entries.all (fun e => e.2.keyNode.isSome && e.2.bucketNode.isSome) = true := by
    rw [List.all_eq_true]
    intro e he
    obtain ⟨-, hbn, k, hk, -⟩ := h.located.entry hb e he
    rw [hk, hbn]
    rfl
  rw [freeBucketNode, hb]
  exact if_pos hall

omit [LinearOrder D] [DecidableEq κ] in
theorem quadNode_newQuadNode (db : PanDB D κ) : ({ db with nodes := (newQuadNode db.nodes).1 } : PanDB D κ).quadNode
    db.nodes.brk = some ⟨none, 0, fun t => db.nodes.brk + 1 + t⟩ := by
  rw [quadNode_eq_some]
  simp only [newQuadNode, Lib.Heap.cells_alloc, Lib.Heap.brk_alloc]
  rw [if_neg (by omega), if_neg (by omega), if_neg (by omega), if_neg (by omega), if_pos trivial]

omit [DecidableEq κ] in
/-- No node is below a bucket. -/
theorem Shape.parent_ne_bucket {db : PanDB D κ} {loose : Option Nat} (h : Shape env db.shape db.root cell loose)
    {a x : Nat} {p : Option Nat} {s : NodeShape} (ha : db.shape a = some ⟨p, none⟩) (hx : db.shape x = some s)
    (hne : some x ≠ loose) : s.parent ≠ some a := by
  intro hp
  obtain ⟨p', nodes, t, ha', -⟩ := h.held x s a hx hp hne
  rw [ha] at ha'
  simp at ha'

/-- **A split keeps the invariant**, and puts a quad node with four buckets in the place of the full bucket. -/
theorem splitBucket_spec {db : PanDB D κ} (h : Tree env db pos cell none (fun _ => False) (fun _ => False) (fun _ => 0))
    {scanned : Nat} {q : QuadNode} {part : Fin 4} {b : BucketNode D κ}
    (hq : db.nodes.cells scanned = some (.quadNode q)) (hb : db.bucketNode (q.nodes part) = some b) :
    ∃ db' cell' q', splitBucket env db scanned (q.nodes part) part (cell (q.nodes part)) = some (db', db.nodes.brk) ∧
      Tree env db' pos cell' none (fun _ => False) (fun _ => False) (fun _ => 0) ∧ db'.root = db.root ∧
      db'.nodes.cells db.nodes.brk = some (.quadNode q') ∧ cell' db.nodes.brk = cell (q.nodes part) ∧
      (∀ t, db'.shape (q'.nodes t) = some ⟨some db.nodes.brk, none⟩) ∧
      (∀ x b', db'.bucketNode x = some b' → x ≠ q.nodes part ∧ db.bucketNode x = some b' ∧ cell' x = cell x ∨
        ∃ t, x = q'.nodes t) ∧
      QuadsKept db db' cell cell' (fun rect => rect = cell (q.nodes part)) := by
  have hqs := shape_of_cells hq
  obtain ⟨hsc, -, -, -⟩ := h.shape.child scanned _ _ hqs part
  have hbcell := bucketNode_eq_some.1 hb
  have hclt := Lib.Heap.lt_brk hbcell
  have hordered := h.shape.ordered _ _ (shape_of_cells hbcell)
  have h₁ := h.withQuad hq hordered
  have hb₁ : (db.withQuad scanned).bucketNode (q.nodes part) = some b := by
    rw [bucketNode_withQuad, if_neg (by omega), hb]
  have hcell : cellsWithQuad env.midpoint cell db.nodes.brk (cell (q.nodes part)) (q.nodes part) =
      cell (q.nodes part) := cellsWithQuad_lt _ _ _ hclt
  have hperm := env.order_perm b.entries
  obtain ⟨db₂, hreb, h₂, hshape₂, hroot₂, hquad₂, hframe₂⟩ := rebalanceBucket_spec hclt (env.order b.entries) _ _ _ h₁
    (by rw [cells_withQuad, if_pos rfl])
    (fun t => by rw [hcell, cellsWithQuad_part]) (fun t => shape_withQuad_part db scanned t) hb₁
    (fun e he => ⟨hperm.mem_iff.1 he, fun hf => hf⟩)
    ((hperm.map Prod.fst).nodup_iff.2 (h.located.wellFormed hb).nodup) (fun _ hf => hf.elim)
  rw [hcell] at hreb
  have hold : ∀ x, x < db.nodes.brk → db₂.nodes.cells x = db.nodes.cells x := fun x hx => by
    rw [hframe₂ x hx, cells_withQuad, if_neg (by omega), if_neg (by omega)]
  have hb₂ : db₂.bucketNode (q.nodes part) = some b := by rw [bucketNode_eq_some, hold _ hclt, hbcell]
  have hq₂ : db₂.nodes.cells scanned = some (.quadNode q) := by rw [hold _ (by omega), hq]
  -- the full bucket dies alone
  have hcells : ∀ x, (({ db₂ with nodes := db₂.nodes.free (q.nodes part) } : PanDB D κ).write scanned
      (.quadNode { q with nodes := Function.update q.nodes part db.nodes.brk })).nodes.cells x =
      if x = q.nodes part then none else if x = scanned then
        some (.quadNode { q with nodes := Function.update q.nodes part db.nodes.brk }) else db₂.nodes.cells x := by
    intro x
    rw [cells_write, Lib.Heap.cells_free]
    by_cases hx : x = scanned
    · subst hx
      rw [if_pos rfl, if_neg (by omega), if_neg (by omega), hq₂, if_pos rfl]
      rfl
    · rw [if_neg hx, if_neg hx]
  have hlink : Link db₂.shape (({ db₂ with nodes := db₂.nodes.free (q.nodes part) } : PanDB D κ).write scanned
      (.quadNode { q with nodes := Function.update q.nodes part db.nodes.brk })).shape
      (cellsWithQuad env.midpoint cell db.nodes.brk (cell (q.nodes part))) (fun x => x = q.nodes part) db.nodes.brk
      scanned (q.nodes part) part q.parent q.nodes := by
    refine ⟨shape_of_cells hq₂, rfl, ⟨_, by rw [hshape₂]; exact shape_withQuad_quad db scanned, rfl⟩, ?_, by omega,
      fun x hx => hx ▸ Nat.le_refl _, ?_, ?_⟩
    · rw [cellsWithQuad_quad, hcell]
    · intro x s hx
      refine ⟨.inl, fun hor => hor.resolve_right ?_⟩
      rintro ⟨y, hy, rfl⟩
      by_cases hxq : x = db.nodes.brk
      · rw [hxq, hshape₂, shape_withQuad_quad, Option.some.injEq] at hx
        rw [← hx, Option.some.injEq] at hy
        omega
      · exact h₂.shape.parent_ne_bucket (shape_of_cells (bucketNode_eq_some.1 hb₂)) hx (by simpa using hxq) hy
    · intro x
      rw [PanDB.shape, hcells]
      split_ifs <;> rfl
  have hlinked := h₂.link hq₂ hlink hcells (fun a b' hb' e he => by
    constructor
    · rintro (hf | ⟨e', -, heq⟩)
      · exact hf.elim
      · exact congrArg SlotPtr.bucket heq
    · intro ha
      subst ha
      rw [hb₂, Option.some.injEq] at hb'
      exact .inr ⟨e, hperm.mem_iff.2 (hb' ▸ he), rfl⟩) rfl rfl
  refine ⟨_, _, ⟨some scanned, 0 + (env.order b.entries).length, fun t => db.nodes.brk + 1 + t⟩, ?_,
    ⟨hlinked.shape, hlinked.located, hlinked.counted.congr (fun x => ?_)⟩, hroot₂, ?_, cellsWithQuad_quad _ _ _ _, ?_,
    ?_, hroot₂, fun x p nodes hx => ?_⟩
  · simp only [splitBucket, hb, Option.bind_eq_bind, Option.bind_some]
    change (PanDB.quadNode _ db.nodes.brk).bind _ = _
    rw [quadNode_newQuadNode]
    change (rebalanceBucket db.nodes.brk _ _ (db.withQuad scanned)).bind _ = _
    rw [hreb]
    change (freeBucketNode db₂ _).bind _ = _
    rw [freeBucketNode_spec h₂ hb₂]
    change (PanDB.quadNode _ scanned).bind _ = _
    rw [quadNode_eq_some.2 (show ({ db₂ with nodes := db₂.nodes.free (q.nodes part) } : PanDB D κ).nodes.cells
      scanned = _ by rw [Lib.Heap.cells_free, if_neg (by omega), hq₂])]
    rfl
  · rw [weight_of_bucketNode hb₂, weight_of_cells hquad₂, (h.located.wellFormed hb).busySlots]
    simp [Node.weight, hperm.length_eq]
  · rw [hcells, if_neg (by omega), if_neg (by omega)]
    exact hquad₂
  · intro t
    change PanDB.shape _ (db.nodes.brk + 1 + t) = _
    rw [hlink.shape_eq, if_neg (by omega), if_neg (by omega), hshape₂]
    exact shape_withQuad_part db scanned t
  · intro x b' hx
    rw [bucketNode_eq_some, hcells] at hx
    split_ifs at hx with hdead hparent
    · cases hx
    · by_cases hlt : x < db.nodes.brk
      · exact .inl ⟨hdead, by rw [bucketNode_eq_some, ← hold x hlt, hx], cellsWithQuad_lt _ _ _ hlt⟩
      · have hs := shape_of_cells hx
        rw [hshape₂] at hs
        rcases shape_withQuad hs with ⟨-, hs⟩ | ⟨t, rfl, -⟩ | ⟨hlt', -⟩
        · simp [Node.shape] at hs
        · exact .inr ⟨t, rfl⟩
        · exact absurd hlt' hlt
  · rw [hlink.shape_eq] at hx
    split_ifs at hx with hdead hparent
    · rw [hparent]
      exact .inl ⟨cellsWithQuad_lt _ _ _ (by omega), _, _, hqs⟩
    · rw [hshape₂] at hx
      rcases shape_withQuad hx with ⟨rfl, -⟩ | ⟨t, -, hs⟩ | ⟨hlt, hs⟩
      · exact .inr (cellsWithQuad_quad _ _ _ _)
      · simp at hs
      · exact .inl ⟨cellsWithQuad_lt _ _ _ hlt, p, nodes, hs⟩

end Pincaster
