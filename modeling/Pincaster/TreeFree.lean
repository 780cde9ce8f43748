import Pincaster.Lib.TreeWalk
import Pincaster.PanDbRuns
import Pincaster.PntStack
/-!
# TreeFree — the end of a quad-tree in `free_pan_db`

The nodes are visited with a stack; a bucket is freed at once, and a quad node goes to a second stack that is freed at
the end.  Every node below the root is freed, once (`free_pan_db_frees_all`).
-/
namespace Pincaster

open Lib (Reach TreeOf Visiting visiting_root)

variable {D κ : Type}

/-! ## The model -/

def SIZEOF_PNT : Nat := 8
def INITIAL_FREE_STACK_SIZE : Nat := 8

structure FreeContext (D κ : Type) where
  db : PanDB D κ
  stackInspect : PntStack Nat
  stackQuadNodesToDelete : PntStack Nat

/-- The `do … while` over the children of `scanned_node`.  The pointer to a bucket that was freed is set to `NULL`; no
one reads it again. -/
def freeChildren (scannedNode : Nat) : List (Fin 4) → FreeContext D κ → Option (FreeContext D κ)
  | [], c => some c
  | t :: ts, c => do
    let q ← c.db.quadNode scannedNode
    match ← c.db.nodes.cells (q.nodes t) with
    | .bucketNode _ =>
      let db ← freeBucketNode c.db (q.nodes t)
      freeChildren scannedNode ts { c with db }
    | .quadNode _ =>
      let (stackInspect, _) ← pushPntStack c.stackInspect (q.nodes t)
      let (stackQuadNodesToDelete, _) ← pushPntStack c.stackQuadNodesToDelete (q.nodes t)
      freeChildren scannedNode ts { c with stackInspect, stackQuadNodesToDelete }

/-- The `for` loop. -/
def freeScan : Nat → Nat → FreeContext D κ → Option (FreeContext D κ)
  | 0, _, _ => none
  | fuel + 1, scannedNode, c => do
    let c ← freeChildren scannedNode (List.finRange 4) c
    match popPntStack c.stackInspect with
    | (stackInspect, none) => some { c with stackInspect }
    | (stackInspect, some qn) => freeScan fuel qn { c with stackInspect }

/-- The `while` loop with `free_quad_node`. -/
def freeQuadNodes : Nat → PntStack Nat → PanDB D κ → Option (PanDB D κ)
  | 0, _, _ => none
  | fuel + 1, stackQuadNodesToDelete, db =>
    match popPntStack stackQuadNodesToDelete with
    | (_, none) => some db
    | (stackQuadNodesToDelete, some qn) => do
      let _ ← db.quadNode qn
      freeQuadNodes fuel stackQuadNodesToDelete { db with nodes := db.nodes.free qn }

/-- `free_pan_db` from the first stack on: the root is a part of the `PanDB`, and stays. -/
def freePanDbNodes (db : PanDB D κ) : Option (PanDB D κ) := do
  let stackInspect ← newPntStack INITIAL_FREE_STACK_SIZE SIZEOF_PNT
  let stackQuadNodesToDelete ← newPntStack INITIAL_FREE_STACK_SIZE SIZEOF_PNT
  let c ← freeScan (db.nodes.brk + 1) db.root ⟨db, stackInspect, stackQuadNodesToDelete⟩
  freeQuadNodes (db.nodes.brk + 1) c.stackQuadNodesToDelete c.db

/-! ## Stacks of pointers -/

/-- **A stack of pointers**, whose storage is doubled and halved. -/
structure PointerStack (s : PntStack Nat) : Prop where
  elementSize : s.elementSize = SIZEOF_PNT
  sizes : ∃ k, s.stackSize = 4096 * 2 ^ k ∧ s.lowDepth = 2048 * 2 ^ k
  depth : s.depth ≤ s.stackSize

theorem newPointerStack : ∃ s : PntStack Nat, newPntStack INITIAL_FREE_STACK_SIZE SIZEOF_PNT = some s ∧
    s.elements = [] ∧ PointerStack s := ⟨_, rfl, rfl, rfl, ⟨0, rfl, rfl⟩, Nat.zero_le _⟩

theorem PointerStack.shrink {s : PntStack Nat} (h : PointerStack s) :
    PointerStack (shrinkPntStack s) ∧ (shrinkPntStack s).elements = s.elements := by
  obtain ⟨k, hsize, hlow⟩ := h.sizes
  unfold shrinkPntStack
  split
  · exact ⟨h, rfl⟩
  · rename_i hlarge
    split
    · exact ⟨⟨h.elementSize, ⟨k, hsize, hlow⟩, h.depth⟩, rfl⟩
    · rename_i hdepth
      split
      · exact ⟨⟨h.elementSize, ⟨k, hsize, hlow⟩, h.depth⟩, rfl⟩
      · refine ⟨⟨h.elementSize, ?_, Nat.le_of_not_lt hdepth⟩, rfl⟩
        -- a storage of one chunk is not halved
        cases k with
        | zero =>
          rw [hsize] at hlarge
          exact absurd (.inl (by decide)) hlarge
        | succ k =>
          rw [Nat.pow_succ] at hlow
          refine ⟨k, ?_, ?_⟩
          · simp only [hlow]
            omega
          · simp only [hlow]
            omega

/-- **A push succeeds.** -/
theorem PointerStack.push {s : PntStack Nat} (h : PointerStack s) (x : Nat) : ∃ s', pushPntStack s x = some (s', 0) ∧
    PointerStack s' ∧ s'.elements = s.elements ++ [x] := by
  obtain ⟨k, hsize, hlow⟩ := h.sizes
  have hdepth : (s.elements ++ [x]).length * s.elementSize = s.depth + 8 := by
    rw [PntStack.depth, h.elementSize, SIZEOF_PNT, List.length_append, List.length_singleton]
    omega
  have hold : s.depth = s.elements.length * 8 := by rw [PntStack.depth, h.elementSize, SIZEOF_PNT]
  have hle := h.depth
  unfold pushPntStack
  by_cases hlt : s.depth < s.stackSize
  · have hfits : (s.elements ++ [x]).length * s.elementSize ≤ s.stackSize := by
      rw [hdepth]
      omega
    have hpushed : PointerStack { s with elements := s.elements ++ [x] } := ⟨h.elementSize, ⟨k, hsize, hlow⟩, hfits⟩
    rw [if_pos hlt]
    exact ⟨_, if_pos hfits, hpushed.shrink.1, hpushed.shrink.2⟩
  · rw [if_neg hlt]
    refine ⟨_, rfl, ⟨h.elementSize, ⟨k + 1, ?_, ?_⟩, ?_⟩, rfl⟩
    · simp only [hsize, Nat.pow_succ]
      omega
    · simp only [hsize, Nat.pow_succ]
      omega
    · change (s.elements ++ [x]).length * s.elementSize ≤ s.stackSize * 2
      rw [hdepth]
      have := Nat.two_pow_pos k
      omega

theorem PointerStack.pop {s : PntStack Nat} (h : PointerStack s) : PointerStack (popPntStack s).1 := by
  refine ⟨h.elementSize, h.sizes, le_trans ?_ h.depth⟩
  exact Nat.mul_le_mul_right _ (by rw [popPntStack, List.length_dropLast]; omega)

/-! ## The walk -/

/-- The children of a quad node that are quad nodes. -/
def PanDB.quadChildren (db : PanDB D κ) (a : Nat) : List Nat :=
  ((db.quadNode a).elim [] (fun q => (List.finRange 4).map q.nodes)).filter (fun x => (db.quadNode x).isSome)

theorem mem_quadChildren {db : PanDB D κ} {a x : Nat} : x ∈ db.quadChildren a ↔
    ∃ q, db.quadNode a = some q ∧ (∃ t, q.nodes t = x) ∧ (db.quadNode x).isSome = true := by
  unfold PanDB.quadChildren
  rw [List.mem_filter]
  cases hq : db.quadNode a with
  | none => simp
  | some q => simp

theorem quadNode_or_bucketNode {db : PanDB D κ} {a : Nat} {n : Node D κ} (h : db.nodes.cells a = some n) :
    (∃ q, n = .quadNode q ∧ db.quadNode a = some q ∧ db.bucketNode a = none) ∨
      ∃ b, n = .bucketNode b ∧ db.bucketNode a = some b ∧ db.quadNode a = none := by
  cases n with
  | quadNode q => exact .inl ⟨q, rfl, by rw [PanDB.quadNode, h], by rw [PanDB.bucketNode, h]⟩
  | bucketNode b => exact .inr ⟨b, rfl, by rw [PanDB.bucketNode, h], by rw [PanDB.quadNode, h]⟩

section
variable [LinearOrder D] {env : PanDbEnv D κ} {pos : κ → Option (Position2D D)} {cell : Nat → Rectangle2D D}
  {db₀ : PanDB D κ}

/-- The children of a quad node are allocated, each once. -/
theorem child_cells (h : Stable env db₀ pos cell) {a : Nat} {q : QuadNode} (hq : db₀.quadNode a = some q) (t : Fin 4) :
    ∃ n, db₀.nodes.cells (q.nodes t) = some n ∧ n.parent = some a := by
  obtain ⟨-, -, -, s, hs, hp⟩ := h.shape.child a _ _ (shape_of_cells (quadNode_eq_some.1 hq)) t
  obtain ⟨n, hn, rfl⟩ := Option.map_eq_some_iff.1 hs
  exact ⟨n, hn, by rw [← Node.shape_parent, hp]⟩

theorem child_injective (h : Stable env db₀ pos cell) {a : Nat} {q : QuadNode} (hq : db₀.quadNode a = some q) :
    Function.Injective q.nodes := h.shape.injective a _ _ (shape_of_cells (quadNode_eq_some.1 hq))

/-- A node has one parent. -/
theorem parent_unique (h : Stable env db₀ pos cell) {a a' x : Nat} {q q' : QuadNode} (hq : db₀.quadNode a = some q)
    (hq' : db₀.quadNode a' = some q') (hx : ∃ t, q.nodes t = x) (hx' : ∃ t, q'.nodes t = x) : a = a' := by
  obtain ⟨t, rfl⟩ := hx
  obtain ⟨t', ht'⟩ := hx'
  obtain ⟨n, hn, hp⟩ := child_cells h hq t
  obtain ⟨n', hn', hp'⟩ := child_cells h hq' t'
  rw [ht', hn, Option.some.injEq] at hn'
  rw [hn', hp', Option.some.injEq] at hp
  exact hp.symm

/-- **The quad nodes are a tree.** -/
theorem quadChildren_tree (h : Stable env db₀ pos cell) : TreeOf db₀.quadChildren db₀.root where
  nodup a := by
    refine List.Nodup.filter _ ?_
    cases hq : db₀.quadNode a with
    | none => exact List.nodup_nil
    | some q => exact (List.nodup_finRange 4).map (child_injective h hq)
  parent a a' x hx hx' := by
    obtain ⟨q, hq, ht, -⟩ := mem_quadChildren.1 hx
    obtain ⟨q', hq', ht', -⟩ := mem_quadChildren.1 hx'
    exact parent_unique h hq hq' ht ht'
  root a ha := by
    obtain ⟨q, hq, ⟨t, ht⟩, -⟩ := mem_quadChildren.1 ha
    obtain ⟨n, hn, hp⟩ := child_cells h hq t
    obtain ⟨nodes, hr⟩ := h.shape.rootNode
    obtain ⟨q', hq', hp', -⟩ := quadNode_of_shape hr
    rw [ht, hq', Option.some.injEq] at hn
    rw [← hn, Node.parent, hp'] at hp
    cases hp

/-- Every quad node is reached from the root. -/
theorem quadNode_reached (h : Stable env db₀ pos cell) : ∀ (a : Nat) {q : QuadNode}, db₀.quadNode a = some q →
    Reach db₀.quadChildren db₀.root a := by
  intro a
  induction a using Nat.strong_induction_on with
  | _ a ih =>
    intro q hq
    have hcell := quadNode_eq_some.1 hq
    cases hp : q.parent with
    | none =>
      have ha := h.shape.eq_root a _ (shape_of_cells hcell) hp
      rw [ha]
      exact .refl
    | some p =>
      obtain ⟨hlt, q', hq'⟩ := h.shape.parent_quad hcell hp
      obtain ⟨t, ht⟩ := (h.shape.child_iff (shape_of_cells hq') (shape_of_cells hcell)).2 ⟨hp, by simp⟩
      have hparent := quadNode_eq_some.2 hq'
      exact (ih p hlt hparent).tail (mem_quadChildren.2 ⟨q', hparent, ⟨t, ht⟩, by rw [hq]; rfl⟩)

/-! ### The children of one node -/

/-- What is left of a tree when the buckets below some nodes have been freed. -/
structure Left (db₀ : PanDB D κ) (freed : Nat → Prop) (db : PanDB D κ) : Prop where
  root : db.root = db₀.root
  gone : ∀ a, freed a → db.nodes.cells a = none
  kept : ∀ a, ¬ freed a → db.nodes.cells a = db₀.nodes.cells a

/-- **The children of a node**: the buckets are freed, and the quad nodes are pushed. -/
theorem freeChildren_spec (h : Stable env db₀ pos cell) {a : Nat} {q : QuadNode} (hq : db₀.quadNode a = some q) :
    ∀ (ts : List (Fin 4)) {c : FreeContext D κ} {freed : Nat → Prop}, ts.Nodup → Left db₀ freed c.db →
    (∀ x, freed x → (db₀.bucketNode x).isSome = true ∧ ∀ t ∈ ts, q.nodes t ≠ x) → PointerStack c.stackInspect →
    PointerStack c.stackQuadNodesToDelete → ∃ c', freeChildren a ts c = some c' ∧
      Left db₀ (fun x => freed x ∨ (db₀.bucketNode x).isSome = true ∧ ∃ t ∈ ts, q.nodes t = x) c'.db ∧
      PointerStack c'.stackInspect ∧ PointerStack c'.stackQuadNodesToDelete ∧
      c'.stackInspect.elements = c.stackInspect.elements ++ (ts.map q.nodes).filter (fun x => (db₀.quadNode x).isSome) ∧
      c'.stackQuadNodesToDelete.elements =
        c.stackQuadNodesToDelete.elements ++ (ts.map q.nodes).filter (fun x => (db₀.quadNode x).isSome)
  | [], c, freed, _, hleft, _, hinspect, hdelete => by
    refine ⟨c, rfl, ⟨hleft.root, fun x hx => ?_, fun x hx => hleft.kept x (fun hf => hx (.inl hf))⟩, hinspect, hdelete,
      (List.append_nil _).symm, (List.append_nil _).symm⟩
    exact hleft.gone x (hx.resolve_right (fun hx => by simp at hx))
  | t :: ts, c, freed, hnodup, hleft, hfreed, hinspect, hdelete => by
    obtain ⟨ht, hnodup⟩ := List.nodup_cons.1 hnodup
    have hkeptQuad : ∀ {x q}, db₀.quadNode x = some q → c.db.nodes.cells x = some (.quadNode q) := fun {x q} hx => by
      have hcell := quadNode_eq_some.1 hx
      rw [hleft.kept x (fun hf => ?_), hcell]
      have hb := (hfreed x hf).1
      rw [PanDB.bucketNode, hcell] at hb
      cases hb
    have hscanned : c.db.quadNode a = some q := quadNode_eq_some.2 (hkeptQuad hq)
    obtain ⟨n, hn, -⟩ := child_cells h hq t
    have hcell : c.db.nodes.cells (q.nodes t) = some n := by
      rw [hleft.kept _ (fun hf => (hfreed _ hf).2 t List.mem_cons_self rfl), hn]
    have hother : ∀ t' ∈ ts, q.nodes t' ≠ q.nodes t := fun t' ht' heq => ht (child_injective h hq heq ▸ ht')
    rcases quadNode_or_bucketNode hn with ⟨q', rfl, hq', hb⟩ | ⟨b, rfl, hb, hq'⟩
    · obtain ⟨inspect, hpush, hinspect', helements⟩ := hinspect.push (q.nodes t)
      obtain ⟨delete, hpush', hdelete', helements'⟩ := hdelete.push (q.nodes t)
      obtain ⟨c', hc', hleft', hinspect'', hdelete'', hend, hend'⟩ := freeChildren_spec h hq ts
        (c := { c with stackInspect := inspect, stackQuadNodesToDelete := delete }) hnodup hleft
        (fun x hx => ⟨(hfreed x hx).1, fun t' ht' => (hfreed x hx).2 t' (List.mem_cons_of_mem _ ht')⟩)
        hinspect' hdelete'
      refine ⟨c', ?_, ?_, hinspect'', hdelete'', ?_, ?_⟩
      · rw [freeChildren]
        simp only [hscanned, hcell, hpush, hpush', Option.bind_eq_bind, Option.bind_some, hc']
      · convert hleft' using 1
        funext x
        refine propext (or_congr_right (and_congr_right (fun hbucket => ?_)))
        simp only [List.exists_mem_cons_iff]
        refine or_iff_right (fun heq => ?_)
        rw [← heq, hb] at hbucket
        cases hbucket
      · rw [hend, helements, List.append_assoc, List.map_cons, List.filter_cons_of_pos (by rw [hq']; rfl)]
        rfl
      · rw [hend', helements', List.append_assoc, List.map_cons, List.filter_cons_of_pos (by rw [hq']; rfl)]
        rfl
    · have hbucket : c.db.bucketNode (q.nodes t) = some b := bucketNode_eq_some.2 hcell
      have hall : b.entries.all (fun e => e.2.keyNode.isSome && e.2.bucketNode.isSome) = true := by
        rw [List.all_eq_true]
        intro e he
        obtain ⟨-, hbn, k, hk, -⟩ := h.located.entry hb e he
        rw [hk, hbn]
        rfl
      have hfree : freeBucketNode c.db (q.nodes t) = some { c.db with nodes := c.db.nodes.free (q.nodes t) } := by
        rw [freeBucketNode, hbucket]
        exact if_pos hall
      have hleft₁ : Left db₀ (fun x => freed x ∨ x = q.nodes t) { c.db with nodes := c.db.nodes.free (q.nodes t) } := by
        refine ⟨hleft.root, fun x hx => ?_, fun x hx => ?_⟩
        · rw [Lib.Heap.cells_free]
          split_ifs with heq
          · rfl
          · exact hleft.gone x (hx.resolve_right heq)
        · rw [Lib.Heap.cells_free, if_neg (fun heq => hx (.inr heq))]
          exact hleft.kept x (fun hf => hx (.inl hf))
      have hfreed₁ : ∀ x, (freed x ∨ x = q.nodes t) →
          (db₀.bucketNode x).isSome = true ∧ ∀ t' ∈ ts, q.nodes t' ≠ x := by
        rintro x (hx | rfl)
        · exact ⟨(hfreed x hx).1, fun t' ht' => (hfreed x hx).2 t' (List.mem_cons_of_mem _ ht')⟩
        · exact ⟨by rw [hb]; rfl, hother⟩
      obtain ⟨c', hc', hleft', hinspect', hdelete', hend, hend'⟩ := freeChildren_spec h hq ts
        (c := { c with db := { c.db with nodes := c.db.nodes.free (q.nodes t) } })
        hnodup hleft₁ hfreed₁ hinspect hdelete
      have hskip : ((t :: ts).map q.nodes).filter (fun x => (db₀.quadNode x).isSome) =
          (ts.map q.nodes).filter (fun x => (db₀.quadNode x).isSome) := by
        rw [List.map_cons, List.filter_cons_of_neg (by rw [hq']; exact Bool.false_ne_true)]
      refine ⟨c', ?_, ?_, hinspect', hdelete', by rw [hskip, hend], by rw [hskip, hend']⟩
      · rw [freeChildren]
        simp only [hscanned, hcell, hfree, Option.bind_eq_bind, Option.bind_some, hc']
      · convert hleft' using 1
        funext x
        simp only [List.exists_mem_cons_iff, or_assoc]
        refine propext (or_congr_right ⟨?_, ?_⟩)
        · rintro ⟨hx, heq | hrest⟩
          · exact .inl heq.symm
          · exact .inr ⟨hx, hrest⟩
        · rintro (rfl | ⟨hx, hrest⟩)
          · exact ⟨by rw [hb]; rfl, .inl rfl⟩
          · exact ⟨hx, .inr hrest⟩

/-! ### The whole walk -/

/-- The buckets below some nodes. -/
def BucketsOf (db₀ : PanDB D κ) (seen : List Nat) (x : Nat) : Prop :=
  (db₀.bucketNode x).isSome = true ∧ ∃ a ∈ seen, ∃ q, db₀.quadNode a = some q ∧ ∃ t, q.nodes t = x

/-- **A walk through the tree**, at the node `a`. -/
structure Walking (db₀ : PanDB D κ) (seen : List Nat) (a : Nat) (c : FreeContext D κ) : Prop where
  visiting : Visiting db₀.quadChildren db₀.root seen (a :: c.stackInspect.elements)
  quads : ∀ x ∈ seen ++ a :: c.stackInspect.elements, (db₀.quadNode x).isSome = true
  left : Left db₀ (BucketsOf db₀ seen) c.db
  inspect : PointerStack c.stackInspect
  delete : PointerStack c.stackQuadNodesToDelete
  all : (db₀.root :: c.stackQuadNodesToDelete.elements).Perm (seen ++ a :: c.stackInspect.elements)

/-- **One node is scanned.** -/
theorem Walking.scan (h : Stable env db₀ pos cell) {seen : List Nat} {a : Nat} {c : FreeContext D κ}
    (hw : Walking db₀ seen a c) : ∃ c', freeChildren a (List.finRange 4) c = some c' ∧
      Visiting db₀.quadChildren db₀.root (seen ++ [a]) c'.stackInspect.elements ∧
      (∀ x ∈ seen ++ [a] ++ c'.stackInspect.elements, (db₀.quadNode x).isSome = true) ∧
      Left db₀ (BucketsOf db₀ (seen ++ [a])) c'.db ∧ PointerStack c'.stackInspect ∧
      PointerStack c'.stackQuadNodesToDelete ∧
      (db₀.root :: c'.stackQuadNodesToDelete.elements).Perm (seen ++ [a] ++ c'.stackInspect.elements) := by
  obtain ⟨q, hq⟩ := Option.isSome_iff_exists.1 (hw.quads a (by simp))
  have ha : a ∉ seen := fun hmem => by
    have hnodup := hw.visiting.nodup
    rw [List.nodup_append] at hnodup
    exact hnodup.2.2 a hmem a List.mem_cons_self rfl
  have hfreed : ∀ x, BucketsOf db₀ seen x →
      (db₀.bucketNode x).isSome = true ∧ ∀ t ∈ List.finRange 4, q.nodes t ≠ x := by
    rintro x ⟨hx, a', ha', q', hq', ht'⟩
    refine ⟨hx, fun t _ heq => ha ?_⟩
    rw [parent_unique h hq hq' ⟨t, heq⟩ ht']
    exact ha'
  obtain ⟨c', hc', hleft, hinspect, hdelete, hend, hend'⟩ :=
    freeChildren_spec h hq (List.finRange 4) (List.nodup_finRange 4) hw.left hfreed hw.inspect hw.delete
  have hchildren : ((List.finRange 4).map q.nodes).filter (fun x => (db₀.quadNode x).isSome) = db₀.quadChildren a := by
    rw [PanDB.quadChildren, hq]
    rfl
  rw [hchildren] at hend hend'
  refine ⟨c', hc', ?_, ?_, ?_, hinspect, hdelete, ?_⟩
  · rw [hend]
    exact hw.visiting.step (quadChildren_tree h) (.refl _)
  · intro x hx
    rw [hend, ← List.append_assoc, List.append_assoc seen, List.singleton_append] at hx
    rcases List.mem_append.1 hx with hx | hx
    · exact hw.quads x hx
    · obtain ⟨-, -, -, hsome⟩ := mem_quadChildren.1 hx
      exact hsome
  · convert hleft using 1
    funext x
    refine propext ⟨?_, ?_⟩
    · rintro ⟨hx, a', ha', q', hq', ht'⟩
      rcases List.mem_append.1 ha' with ha' | ha'
      · exact .inl ⟨hx, a', ha', q', hq', ht'⟩
      · rw [List.mem_singleton.1 ha', hq, Option.some.injEq] at hq'
        obtain ⟨t, ht⟩ := ht'
        exact .inr ⟨hx, t, List.mem_finRange t, by rw [hq', ht]⟩
    · rintro (⟨hx, a', ha', q', hq', ht'⟩ | ⟨hx, t, -, ht⟩)
      · exact ⟨hx, a', List.mem_append_left _ ha', q', hq', ht'⟩
      · exact ⟨hx, a, by simp, q, hq, t, ht⟩
  · rw [hend, hend', ← List.append_assoc, List.append_assoc seen, List.singleton_append, ← List.cons_append]
    exact hw.all.append_right _

omit [LinearOrder D] in
/-- There are not more quad nodes than addresses. -/
theorem length_quads {l : List Nat} (hnodup : l.Nodup) (hquads : ∀ x ∈ l, (db₀.quadNode x).isSome = true) :
    l.length ≤ db₀.nodes.brk := by
  have hsub : l ⊆ List.range db₀.nodes.brk := fun x hx => by
    obtain ⟨q, hq⟩ := Option.isSome_iff_exists.1 (hquads x hx)
    exact List.mem_range.2 (Lib.Heap.lt_brk (quadNode_eq_some.1 hq))
  have hlength := (List.subperm_of_subset hnodup hsub).length_le
  rwa [List.length_range] at hlength

/-- **The walk comes to its end**, and has freed every bucket. -/
theorem freeScan_spec (h : Stable env db₀ pos cell) : ∀ (fuel : Nat) {seen : List Nat} {a : Nat} {c : FreeContext D κ},
    Walking db₀ seen a c → db₀.nodes.brk < seen.length + fuel → ∃ c' seen', freeScan fuel a c = some c' ∧
      Visiting db₀.quadChildren db₀.root seen' [] ∧ (∀ x ∈ seen', (db₀.quadNode x).isSome = true) ∧
      Left db₀ (BucketsOf db₀ seen') c'.db ∧ PointerStack c'.stackQuadNodesToDelete ∧
      (db₀.root :: c'.stackQuadNodesToDelete.elements).Perm seen'
  | 0, seen, a, c, hw, hfuel => by
    have hlength := length_quads hw.visiting.nodup hw.quads
    rw [List.length_append] at hlength
    omega
  | fuel + 1, seen, a, c, hw, hfuel => by
    obtain ⟨c', hc', hvisiting, hquads, hleft, hinspect, hdelete, hall⟩ := hw.scan h
    rw [freeScan, hc']
    simp only [Option.bind_eq_bind, Option.bind_some, popPntStack]
    cases hlast : c'.stackInspect.elements.getLast? with
    | none =>
      have hnil := List.getLast?_eq_none_iff.1 hlast
      rw [hnil] at hvisiting hquads hall
      rw [List.append_nil] at hquads hall
      exact ⟨_, seen ++ [a], rfl, hvisiting, hquads, hleft, hdelete, hall⟩
    | some qn =>
      have hsplit : c'.stackInspect.elements = c'.stackInspect.elements.dropLast ++ [qn] :=
        (List.dropLast_append_getLast? qn hlast).symm
      have hperm : c'.stackInspect.elements.Perm (qn :: c'.stackInspect.elements.dropLast) := by
        refine (List.Perm.of_eq hsplit).trans ?_
        exact List.perm_append_singleton qn _
      have hmem : (seen ++ [a] ++ c'.stackInspect.elements).Perm
          (seen ++ [a] ++ qn :: c'.stackInspect.elements.dropLast) := hperm.append_left _
      refine freeScan_spec h fuel ⟨hvisiting.perm hperm, fun x hx => hquads x (hmem.mem_iff.2 hx), hleft, ?_, hdelete,
        hall.trans hmem⟩ ?_
      · exact hinspect.pop
      · rw [List.length_append, List.length_singleton]
        omega

omit [LinearOrder D] in
/-- **The quad nodes of a stack are freed**, each once. -/
theorem freeQuadNodes_spec : ∀ (fuel : Nat) (s : PntStack Nat) (db : PanDB D κ), s.elements.Nodup →
    (∀ x ∈ s.elements, (db.quadNode x).isSome = true) → s.elements.length < fuel →
    ∃ db', freeQuadNodes fuel s db = some db' ∧
      ∀ x, db'.nodes.cells x = if x ∈ s.elements then none else db.nodes.cells x
  | 0, _, _, _, _, hfuel => by omega
  | fuel + 1, s, db, hnodup, hquads, hfuel => by
    rw [freeQuadNodes]
    simp only [popPntStack]
    cases hlast : s.elements.getLast? with
    | none =>
      have hnil := List.getLast?_eq_none_iff.1 hlast
      exact ⟨db, rfl, fun x => by rw [hnil, if_neg List.not_mem_nil]⟩
    | some qn =>
      have hsplit : s.elements = s.elements.dropLast ++ [qn] := (List.dropLast_append_getLast? qn hlast).symm
      rw [hsplit] at hnodup
      obtain ⟨hnodup', -, hdisj⟩ := List.nodup_append.1 hnodup
      have hqn : qn ∉ s.elements.dropLast := fun hmem => hdisj qn hmem qn (List.mem_singleton_self qn) rfl
      have hin : ∀ x ∈ s.elements.dropLast, x ∈ s.elements := fun x hx => List.dropLast_subset _ hx
      obtain ⟨q, hq⟩ := Option.isSome_iff_exists.1 (hquads qn (List.mem_of_getLast? hlast))
      have hother : ∀ x ∈ s.elements.dropLast,
          (({ db with nodes := db.nodes.free qn } : PanDB D κ).quadNode x).isSome = true := by
        intro x hx
        obtain ⟨q', hq'⟩ := Option.isSome_iff_exists.1 (hquads x (hin x hx))
        have hcell : (db.nodes.free qn).cells x = some (.quadNode q') := by
          rw [Lib.Heap.cells_free, if_neg (fun heq : x = qn => hqn (heq ▸ hx)), quadNode_eq_some.1 hq']
        rw [quadNode_eq_some.2 hcell]
        rfl
      obtain ⟨db', hdb', hcells⟩ := freeQuadNodes_spec fuel { s with elements := s.elements.dropLast }
        { db with nodes := db.nodes.free qn } hnodup' hother
        (by rw [List.length_dropLast]; have := List.length_pos_of_mem (List.mem_of_getLast? hlast); omega)
      refine ⟨db', by simp only [hq, Option.bind_eq_bind, Option.bind_some, hdb'], fun x => ?_⟩
      rw [hcells, Lib.Heap.cells_free]
      by_cases hx : x = qn
      · rw [hx, if_neg hqn, if_pos rfl, if_pos (List.mem_of_getLast? hlast)]
      · have hiff : x ∈ s.elements ↔ x ∈ s.elements.dropLast := by
          conv_lhs => rw [hsplit]
          rw [List.mem_append, List.mem_singleton, or_iff_left hx]
        rw [if_neg hx]
        exact if_congr hiff.symm rfl rfl

/-- **The end of a tree**: every node below the root is freed, and none twice. -/
theorem freePanDbNodes_spec (h : Stable env db₀ pos cell) : ∃ db', freePanDbNodes db₀ = some db' ∧
    ∀ a, db'.nodes.cells a ≠ none ↔ a = db₀.root := by
  obtain ⟨inspect, hnew, hnil, hinspect⟩ := newPointerStack
  obtain ⟨nodes, hshape⟩ := h.shape.rootNode
  obtain ⟨q, hq, -⟩ := quadNode_of_shape hshape
  have hroot : db₀.quadNode db₀.root = some q := quadNode_eq_some.2 hq
  have hw : Walking db₀ [] db₀.root ⟨db₀, inspect, inspect⟩ := by
    refine ⟨?_, ?_, ⟨rfl, ?_, fun _ _ => rfl⟩, hinspect, hinspect, .refl _⟩
    · rw [hnil]
      exact visiting_root _ _
    · intro x hx
      rw [hnil] at hx
      rw [List.mem_singleton.1 hx, hroot]
      rfl
    · rintro x ⟨-, a, ha, -⟩
      cases ha
  obtain ⟨c, seen, hc, hvisiting, hquads, hleft, hdelete, hall⟩ := freeScan_spec h (db₀.nodes.brk + 1) hw (by simp)
  have hseen : ∀ x, x ∈ seen ↔ (db₀.quadNode x).isSome = true := fun x => by
    refine ⟨hquads x, fun hx => ?_⟩
    obtain ⟨q', hq'⟩ := Option.isSome_iff_exists.1 hx
    exact hvisiting.all (quadNode_reached h x hq')
  have hnodup : seen.Nodup := by
    have := hvisiting.nodup
    rwa [List.append_nil] at this
  have hdeleted := hall.nodup_iff.2 hnodup
  have hquad : ∀ x, (db₀.quadNode x).isSome = true → c.db.nodes.cells x = db₀.nodes.cells x := fun x hx => by
    refine hleft.kept x (fun hb => ?_)
    obtain ⟨q', hq'⟩ := Option.isSome_iff_exists.1 hx
    have hbucket := hb.1
    rw [PanDB.bucketNode, quadNode_eq_some.1 hq'] at hbucket
    cases hbucket
  obtain ⟨db', hdb', hcells⟩ := freeQuadNodes_spec (db₀.nodes.brk + 1) c.stackQuadNodesToDelete c.db
    (List.nodup_cons.1 hdeleted).2 (fun x hx => by
      have hx' := (hseen x).1 (hall.mem_iff.1 (List.mem_cons_of_mem _ hx))
      obtain ⟨q', hq'⟩ := Option.isSome_iff_exists.1 hx'
      rw [quadNode_eq_some.2 ((hquad x hx').trans (quadNode_eq_some.1 hq'))]
      rfl) (by
      have hlength := length_quads hnodup hquads
      rw [← hall.length_eq, List.length_cons] at hlength
      omega)
  refine ⟨db', ?_, fun a => ⟨fun ha => ?_, ?_⟩⟩
  · simp only [freePanDbNodes, hnew, hc, Option.bind_eq_bind, Option.bind_some, hdb']
  · rw [hcells] at ha
    split_ifs at ha with hmem
    · exact absurd rfl ha
    · by_contra hne
      have hnot : a ∉ seen := fun hs => by
        rcases List.mem_cons.1 (hall.mem_iff.2 hs) with heq | hs
        · exact hne heq
        · exact hmem hs
      -- a node that was not visited is a bucket of the tree, and so it was freed
      by_cases hb : BucketsOf db₀ seen a
      · exact ha (hleft.gone a hb)
      · rw [hleft.kept a hb] at ha
        obtain ⟨n, hn⟩ := Option.ne_none_iff_exists'.1 ha
        rcases quadNode_or_bucketNode hn with ⟨q', rfl, hq', -⟩ | ⟨b, rfl, hbucket, -⟩
        · exact hnot ((hseen a).2 (by rw [hq']; rfl))
        · refine hb ⟨by rw [hbucket]; rfl, ?_⟩
          cases hp : b.parent with
          | none =>
            have heq := h.shape.eq_root a _ (shape_of_cells hn) hp
            exact absurd heq hne
          | some p =>
            obtain ⟨-, q', hq'⟩ := h.shape.parent_quad hn hp
            obtain ⟨t, ht⟩ := (h.shape.child_iff (shape_of_cells hq') (shape_of_cells hn)).2 ⟨hp, by simp⟩
            have hparent := quadNode_eq_some.2 hq'
            exact ⟨p, (hseen p).2 (by rw [hparent]; rfl), q', hparent, t, ht⟩
  · rintro rfl
    rw [hcells, if_neg (List.nodup_cons.1 hdeleted).1, hquad _ (by rw [hroot]; rfl), hq]
    exact Option.some_ne_none _

end

/-- **`free_pan_db` leaves nothing of a quad-tree**: in every state of a run no assertion fails and nothing is freed
twice, and the root alone is left, which is no allocation of its own. -/
theorem free_pan_db_frees_all [Sub D] [LinearOrder D] [DecidableEq κ] {env : PanDbEnv D κ} {db : PanDB D κ}
    (hr : (panDbSystem env).Reachable db) :
    ∃ db', freePanDbNodes db = some db' ∧ ∀ a, db'.nodes.cells a ≠ none ↔ a = db.root := by
  obtain ⟨pos, cell, h⟩ := panDb_reachable_stable hr
  exact freePanDbNodes_spec h

theorem free_pan_db_frees_all_split : ∃ db q db', (panDbSystem squareEnv).Reachable db ∧
    db.quadNode db.root = some q ∧ (∃ t, (db.quadNode (q.nodes t)).isSome = true) ∧ freePanDbNodes db = some db' ∧
    ∀ a, db'.nodes.cells a ≠ none ↔ a = db.root := by
  have hrun : ((panDbSystem squareEnv).exec (splitAndMerge.take 7) (panDbSystem squareEnv).init).any (fun db =>
      (db.quadNode db.root).any (fun q =>
        (List.finRange 4).any (fun t => (db.quadNode (q.nodes t)).isSome))) = true := by
    decide +kernel
  obtain ⟨db, hdb, hq⟩ := (Option.any_eq_true _ _).1 hrun
  obtain ⟨q, hq, ht⟩ := (Option.any_eq_true _ _).1 hq
  obtain ⟨t, -, ht⟩ := List.any_eq_true.1 ht
  obtain ⟨hist, hr, -⟩ := Lib.System.Run.of_exec _ Lib.System.Run.init hdb
  obtain ⟨db', hfree, hcells⟩ := free_pan_db_frees_all ⟨hist, hr⟩
  exact ⟨db, q, db', ⟨hist, hr⟩, hq, ⟨t, ht⟩, hfree, hcells⟩

end Pincaster
