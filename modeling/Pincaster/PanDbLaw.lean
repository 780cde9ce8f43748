import Pincaster.PanDbRemove
/-!
# PanDbLaw — the law of the quad-tree

What the tree is for, read off the heap from the root: the cell of every node, the slots below it, and how slots, key
nodes, buckets and counters agree.
-/
namespace Pincaster

variable {D κ : Type}

/-! ## What is below a node -/

/-- The slots of the buckets below a node, with their addresses. -/
def PanDB.slotsBelow (db : PanDB D κ) : Nat → Nat → List (SlotPtr × Slot D κ)
  | 0, _ => []
  | fuel + 1, a =>
    match db.nodes.cells a with
    | some (.bucketNode b) => b.entries.map (fun e => (⟨a, e.1⟩, e.2))
    | some (.quadNode q) => (List.finRange 4).flatMap (fun t => db.slotsBelow fuel (q.nodes t))
    | none => []

/-- All slots below a node: addresses grow on the way down, and are below `brk`. -/
def PanDB.subSlots (db : PanDB D κ) (a : Nat) : List (SlotPtr × Slot D κ) := db.slotsBelow (db.nodes.brk + 1) a

variable [LinearOrder D]

/-- `x` is at or below `a`, and `rect'` is its cell where `rect` is that of `a`. -/
inductive CellBelow (env : PanDbEnv D κ) (db : PanDB D κ) : Nat → Rectangle2D D → Nat → Rectangle2D D → Prop
  | refl (a : Nat) (rect : Rectangle2D D) : CellBelow env db a rect a rect
  | child {a x : Nat} {rect rect' : Rectangle2D D} {q : QuadNode} (t : Fin 4) : db.quadNode a = some q →
      CellBelow env db (q.nodes t) (getQrectsFromQbounds env.midpoint rect t) x rect' → CellBelow env db a rect x rect'

/-- The cell of a node of the tree. -/
def CellOf (env : PanDbEnv D κ) (db : PanDB D κ) (x : Nat) (rect : Rectangle2D D) : Prop :=
  CellBelow env db db.root env.qbounds x rect

theorem CellBelow.snoc {env : PanDbEnv D κ} {db : PanDB D κ} {a x : Nat} {rect rect' : Rectangle2D D} {q : QuadNode}
    (h : CellBelow env db a rect x rect') (hq : db.quadNode x = some q) (t : Fin 4) :
    CellBelow env db a rect (q.nodes t) (getQrectsFromQbounds env.midpoint rect' t) := by
  induction h with
  | refl a rect => exact .child t hq (.refl _ _)
  | child u hu _ ih => exact .child u hu (ih hq)

/-- A cell lies in those above it. -/
theorem CellBelow.isInRect {env : PanDbEnv D κ} {db : PanDB D κ} {a x : Nat} {rect rect' : Rectangle2D D}
    (h : CellBelow env db a rect x rect') (hrect : rect.Ordered) {position : Position2D D}
    (hin : positionIsInRect position rect') : positionIsInRect position rect := by
  induction h with
  | refl a rect => exact hin
  | child t _ _ ih => exact isInRect_of_getQrects hrect (ih (ordered_getQrects _ hrect t) hin)

/-- **The buckets below a node share no position.** -/
theorem CellBelow.unique {env : PanDbEnv D κ} {db : PanDB D κ} {a x : Nat} {rect rect' : Rectangle2D D}
    (h : CellBelow env db a rect x rect') (hrect : rect.Ordered) {position : Position2D D} {b : BucketNode D κ}
    (hb : db.bucketNode x = some b) (hin : positionIsInRect position rect') {y : Nat} {rect'' : Rectangle2D D}
    {b' : BucketNode D κ} (h' : CellBelow env db a rect y rect'') (hb' : db.bucketNode y = some b')
    (hin' : positionIsInRect position rect'') : x = y := by
  induction h with
  | refl a rect =>
    cases h' with
    | refl => rfl
    | child t hq _ =>
      rw [quadNode_eq_some, bucketNode_eq_some.1 hb] at hq
      cases hq
  | @child a x rect rect' q t hq hbelow ih =>
    cases h' with
    | refl =>
      rw [quadNode_eq_some, bucketNode_eq_some.1 hb'] at hq
      cases hq
    | @child _ _ _ _ q' u hq' hbelow' =>
      rw [hq, Option.some.injEq] at hq'
      subst hq'
      have hto := fun v => ordered_getQrects env.midpoint hrect v
      have htu := getQrects_disjoint (hbelow.isInRect (hto t) hin) (hbelow'.isInRect (hto u) hin')
      subst htu
      exact ih (hto t) hb hin hbelow'

/-! ## The law -/

/-- **The law of a tree.** -/
structure PanDbLaw (env : PanDbEnv D κ) (db : PanDB D κ) : Prop where
  /-- A slot lies in the cell of its bucket, which is the only bucket whose cell has its position. -/
  slot_in_cell : ∀ ptr slot, db.slot ptr = some slot →
    (∃ rect, CellOf env db ptr.bucket rect ∧ positionIsInRect slot.position rect) ∧
    ∀ a b rect, db.bucketNode a = some b → CellOf env db a rect → positionIsInRect slot.position rect → a = ptr.bucket
  /-- A slot points to its bucket and to a key node that points to it. -/
  slot_back : ∀ ptr slot, db.slot ptr = some slot →
    slot.bucketNode = some ptr.bucket ∧ ∃ k, slot.keyNode = some k ∧ db.slots k = some ptr
  /-- The slot of a key node points to it. -/
  key_back : ∀ k ptr, db.slots k = some ptr → ∃ slot, db.slot ptr = some slot ∧ slot.keyNode = some k
  /-- A bucket counts its slots. -/
  busySlots : ∀ a b, db.bucketNode a = some b → (b.entries.map Prod.fst).Nodup ∧ b.busySlots = b.entries.length
  /-- A quad node counts the slots below it, none of them twice. -/
  subSlots : ∀ a q, db.quadNode a = some q →
    ((db.subSlots a).map Prod.fst).Nodup ∧ q.subSlots = (db.subSlots a).length
  /-- The root counts the key nodes that have a slot. -/
  root : ∃ q, db.quadNode db.root = some q ∧ q.parent = none ∧
    ∃ keys : List κ, keys.Nodup ∧ (∀ k, k ∈ keys ↔ db.slots k ≠ none) ∧ q.subSlots = keys.length
  /-- Every child of a quad node points to it. -/
  child_parent : ∀ a q, db.quadNode a = some q → ∀ t, ∃ n, db.nodes.cells (q.nodes t) = some n ∧ n.parent = some a

variable {env : PanDbEnv D κ} {pos : κ → Option (Position2D D)} {cell : Nat → Rectangle2D D} {db : PanDB D κ}

theorem slot_eq_some (h : Stable env db pos cell) {ptr : SlotPtr} {slot : Slot D κ} : db.slot ptr = some slot ↔
    ∃ b, db.bucketNode ptr.bucket = some b ∧ (ptr.entry, slot) ∈ b.entries := by
  constructor
  · intro hs
    obtain ⟨b, hb, hl⟩ := Option.bind_eq_some_iff.1 hs
    obtain ⟨l₁, l₂, heq, -⟩ := List.lookup_eq_some_iff.1 hl
    exact ⟨b, hb, by rw [heq]; simp⟩
  · rintro ⟨b, hb, hm⟩
    rw [PanDB.slot, hb]
    exact (h.located.wellFormed hb).lookup hm

/-- **Every node is below the root**, and the cells read off the tree are those of the invariant. -/
theorem cellOf_of_stable (h : Stable env db pos cell) : ∀ (a : Nat) (n : Node D κ), db.nodes.cells a = some n →
    CellOf env db a (cell a) := by
  intro a
  induction a using Nat.strong_induction_on with
  | _ a ih =>
    intro n hn
    cases hp : n.parent with
    | none =>
      have ha := h.shape.eq_root a _ (shape_of_cells hn) (by rw [Node.shape_parent, hp])
      subst ha
      rw [h.shape.rootCell]
      exact .refl _ _
    | some p =>
      obtain ⟨hlt, q, hq⟩ := h.shape.parent_quad hn hp
      obtain ⟨t, rfl⟩ := (h.shape.child_iff (shape_of_cells hq) (shape_of_cells hn)).2
        ⟨by rw [Node.shape_parent, hp], by simp⟩
      obtain ⟨-, -, hcell, -⟩ := h.shape.child _ _ _ (shape_of_cells hq) t
      have hbelow : CellOf env db _ _ := (ih p hlt _ hq).snoc (quadNode_eq_some.2 hq) t
      rwa [hcell]

/-- **The slots below a node**: there are as many as it counts, none twice, and they lie in its cell. -/
theorem slotsBelow_spec (h : Stable env db pos cell) : ∀ (fuel a : Nat) (n : Node D κ), db.nodes.brk < fuel + a →
    db.nodes.cells a = some n → (db.slotsBelow fuel a).length = n.weight ∧
      ((db.slotsBelow fuel a).map Prod.fst).Nodup ∧
      ∀ x ∈ db.slotsBelow fuel a, db.slot x.1 = some x.2 ∧ positionIsInRect x.2.position (cell a)
  | 0, a, n, hfuel, hn => by
    have := Lib.Heap.lt_brk hn
    omega
  | fuel + 1, a, .bucketNode b, hfuel, hn => by
    have hb := bucketNode_eq_some.2 hn
    have hwf := h.located.wellFormed hb
    have heq : db.slotsBelow (fuel + 1) a = b.entries.map (fun e => (⟨a, e.1⟩, e.2)) := by
      rw [PanDB.slotsBelow, hn]
    rw [heq]
    refine ⟨by rw [List.length_map, Node.weight, hwf.busySlots], ?_, ?_⟩
    · have hmap : (b.entries.map (fun e => ((⟨a, e.1⟩ : SlotPtr), e.2))).map Prod.fst =
          (b.entries.map Prod.fst).map (fun n => (⟨a, n⟩ : SlotPtr)) := by
        rw [List.map_map, List.map_map]
        rfl
      rw [hmap]
      exact hwf.nodup.map (fun m n hmn => by simpa using hmn)
    · intro x hx
      obtain ⟨e, he, rfl⟩ := List.mem_map.1 hx
      exact ⟨(slot_eq_some h).2 ⟨b, hb, he⟩, (h.located.entry hb e he).1⟩
  | fuel + 1, a, .quadNode q, hfuel, hn => by
    have hs := shape_of_cells hn
    have hordered := h.shape.ordered _ _ hs
    have hsub : ∀ t, ∃ m, db.nodes.cells (q.nodes t) = some m ∧
        cell (q.nodes t) = getQrectsFromQbounds env.midpoint (cell a) t ∧ db.nodes.brk < fuel + q.nodes t := fun t => by
      obtain ⟨hlt, -, hcell, s, hst, -⟩ := h.shape.child a _ _ hs t
      obtain ⟨m, hm, -⟩ := Option.map_eq_some_iff.1 hst
      exact ⟨m, hm, hcell, by omega⟩
    have heq : db.slotsBelow (fuel + 1) a = (List.finRange 4).flatMap (fun t => db.slotsBelow fuel (q.nodes t)) := by
      rw [PanDB.slotsBelow, hn]
    have ih : ∀ t, (db.slotsBelow fuel (q.nodes t)).length = db.weight (q.nodes t) ∧
        ((db.slotsBelow fuel (q.nodes t)).map Prod.fst).Nodup ∧ ∀ x ∈ db.slotsBelow fuel (q.nodes t),
          db.slot x.1 = some x.2 ∧ positionIsInRect x.2.position (getQrectsFromQbounds env.midpoint (cell a) t) := by
      intro t
      obtain ⟨m, hm, hcell, hlt⟩ := hsub t
      rw [weight_of_cells hm, ← hcell]
      exact slotsBelow_spec h fuel _ m hlt hm
    rw [heq]
    refine ⟨?_, ?_, ?_⟩
    · have hcount := h.counted a q hn
      rw [Int.add_zero, ← Nat.cast_sum, Nat.cast_inj] at hcount
      rw [List.length_flatMap, Node.weight, hcount, Fin.sum_univ_def]
      exact congrArg List.sum (List.map_congr_left (fun t _ => (ih t).1))
    · rw [List.map_flatMap, List.nodup_flatMap]
      refine ⟨fun t _ => (ih t).2.1, (List.nodup_finRange 4).imp (fun {t u} htu => ?_)⟩
      intro ptr ht hu
      obtain ⟨x, hx, rfl⟩ := List.mem_map.1 ht
      obtain ⟨y, hy, hxy⟩ := List.mem_map.1 hu
      obtain ⟨hsx, hinx⟩ := (ih t).2.2 x hx
      obtain ⟨hsy, hiny⟩ := (ih u).2.2 y hy
      rw [hxy, hsx, Option.some.injEq] at hsy
      rw [← hsy] at hiny
      exact htu (getQrects_disjoint hinx hiny)
    · intro x hx
      obtain ⟨t, -, hx⟩ := List.mem_flatMap.1 hx
      obtain ⟨hsx, hinx⟩ := (ih t).2.2 x hx
      exact ⟨hsx, isInRect_of_getQrects hordered hinx⟩

/-- The slots of the buckets below a node are all there. -/
theorem mem_slotsBelow (h : Stable env db pos cell) {a x : Nat} {rect rect' : Rectangle2D D}
    (hbelow : CellBelow env db a rect x rect') {b : BucketNode D κ} (hb : db.bucketNode x = some b)
    {e : Nat × Slot D κ} (he : e ∈ b.entries) : ∀ fuel, db.nodes.brk < fuel + a →
    ((⟨x, e.1⟩, e.2) : SlotPtr × Slot D κ) ∈ db.slotsBelow fuel a := by
  induction hbelow with
  | refl a rect =>
    intro fuel hfuel
    have hlt := Lib.Heap.lt_brk (bucketNode_eq_some.1 hb)
    cases fuel with
    | zero => omega
    | succ fuel =>
      rw [PanDB.slotsBelow, bucketNode_eq_some.1 hb]
      exact List.mem_map.2 ⟨e, he, rfl⟩
  | @child a x rect rect' q t hq _ ih =>
    intro fuel hfuel
    have hcell := quadNode_eq_some.1 hq
    have hlt := Lib.Heap.lt_brk hcell
    obtain ⟨hchild, -⟩ := h.shape.child a _ _ (shape_of_cells hcell) t
    cases fuel with
    | zero => omega
    | succ fuel =>
      rw [PanDB.slotsBelow, hcell]
      exact List.mem_flatMap.2 ⟨t, List.mem_finRange t, ih hb fuel (by omega)⟩

/-- **The root has all slots.** -/
theorem mem_subSlots_root (h : Stable env db pos cell) {ptr : SlotPtr} {slot : Slot D κ} :
    (ptr, slot) ∈ db.subSlots db.root ↔ db.slot ptr = some slot := by
  obtain ⟨nodes, hr⟩ := h.shape.rootNode
  obtain ⟨q, hq, -, -⟩ := quadNode_of_shape hr
  constructor
  · intro hm
    exact ((slotsBelow_spec h _ _ _ (by omega) hq).2.2 _ hm).1
  · intro hs
    obtain ⟨b, hb, hm⟩ := (slot_eq_some h).1 hs
    exact mem_slotsBelow h (cellOf_of_stable h _ _ (bucketNode_eq_some.1 hb)) hb hm _ (by omega)

/-- The key nodes of the slots of a tree. -/
theorem root_keys (h : Stable env db pos cell) : ∃ keys : List κ, keys.Nodup ∧ (∀ k, k ∈ keys ↔ db.slots k ≠ none) ∧
    keys.length = (db.subSlots db.root).length := by
  obtain ⟨nodes, hr⟩ := h.shape.rootNode
  obtain ⟨q, hq, -, -⟩ := quadNode_of_shape hr
  obtain ⟨-, hnodup, -⟩ := slotsBelow_spec h (db.nodes.brk + 1) _ _ (by omega) hq
  have hkey : ∀ x ∈ db.subSlots db.root, ∃ k, x.2.keyNode = some k ∧ db.slots k = some x.1 := by
    intro x hx
    obtain ⟨b, hb, hm⟩ := (slot_eq_some h).1 ((mem_subSlots_root h).1 hx)
    obtain ⟨-, -, k, hk, -, -, hs⟩ := h.located.entry hb _ hm
    exact ⟨k, hk, hs (fun hf => hf)⟩
  have hall : ∀ (l : List (SlotPtr × Slot D κ)), (∀ x ∈ l, ∃ k, x.2.keyNode = some k ∧ db.slots k = some x.1) →
      (l.map Prod.fst).Nodup → ∃ keys : List κ, keys.Nodup ∧ keys.map db.slots = l.map (fun x => some x.1) := by
    intro l
    induction l with
    | nil => exact fun _ _ => ⟨[], List.nodup_nil, rfl⟩
    | cons x l ih =>
      intro hl hnd
      obtain ⟨hnot, hnd⟩ := List.nodup_cons.1 hnd
      obtain ⟨k, -, hk⟩ := hl x (by simp)
      obtain ⟨keys, hkeys, hmap⟩ := ih (fun y hy => hl y (by simp [hy])) hnd
      refine ⟨k :: keys, List.nodup_cons.2 ⟨fun hm => hnot ?_, hkeys⟩, by rw [List.map_cons, List.map_cons, hk, hmap]⟩
      have hmem : db.slots k ∈ keys.map db.slots := List.mem_map_of_mem hm
      rw [hmap, hk] at hmem
      obtain ⟨y, hy, hyx⟩ := List.mem_map.1 hmem
      exact List.mem_map.2 ⟨y, hy, Option.some.inj hyx⟩
  obtain ⟨keys, hkeys, hmap⟩ := hall _ hkey hnodup
  refine ⟨keys, hkeys, fun k => ⟨fun hm => ?_, fun hs => ?_⟩, ?_⟩
  · have hmem : db.slots k ∈ keys.map db.slots := List.mem_map_of_mem hm
    rw [hmap] at hmem
    obtain ⟨x, -, hx⟩ := List.mem_map.1 hmem
    rw [← hx]
    simp
  · obtain ⟨ptr, hs⟩ := Option.ne_none_iff_exists'.1 hs
    obtain ⟨b, slot, hb, hm, -, -⟩ := h.located.key (fun hf => hf) hs
    have hmem : some ptr ∈ keys.map db.slots := by
      rw [hmap]
      exact List.mem_map.2 ⟨(ptr, slot), (mem_subSlots_root h).2 ((slot_eq_some h).2 ⟨b, hb, hm⟩), rfl⟩
    obtain ⟨k', hk', hs'⟩ := List.mem_map.1 hmem
    have hkk := h.located.key_unique (fun hf => hf) (fun hf => hf) hs hs'
    exact hkk ▸ hk'
  · have hlen := congrArg List.length hmap
    simpa using hlen

/-- **The invariant gives the law.** -/
theorem law_of_stable (h : Stable env db pos cell) : PanDbLaw env db where
  slot_in_cell ptr slot hs := by
    obtain ⟨b, hb, hm⟩ := (slot_eq_some h).1 hs
    obtain ⟨hin, -⟩ := h.located.entry hb _ hm
    have hcell := cellOf_of_stable h _ _ (bucketNode_eq_some.1 hb)
    refine ⟨⟨_, hcell, hin⟩, fun a b' rect hb' ha hin' => ?_⟩
    exact (CellBelow.unique hcell ⟨env.latitude_le, env.longitude_le⟩ hb hin ha hb' hin').symm
  slot_back ptr slot hs := by
    obtain ⟨b, hb, hm⟩ := (slot_eq_some h).1 hs
    obtain ⟨-, hbn, k, hk, -, -, hsk⟩ := h.located.entry hb _ hm
    exact ⟨hbn, k, hk, hsk (fun hf => hf)⟩
  key_back k ptr hs := by
    obtain ⟨b, slot, hb, hm, hk, -⟩ := h.located.key (fun hf => hf) hs
    exact ⟨slot, (slot_eq_some h).2 ⟨b, hb, hm⟩, hk⟩
  busySlots a b hb := ⟨(h.located.wellFormed hb).nodup, (h.located.wellFormed hb).busySlots⟩
  subSlots a q hq := by
    obtain ⟨hlen, hnodup, -⟩ := slotsBelow_spec h (db.nodes.brk + 1) a _ (by omega) (quadNode_eq_some.1 hq)
    exact ⟨hnodup, hlen.symm⟩
  root := by
    obtain ⟨nodes, hr⟩ := h.shape.rootNode
    obtain ⟨q, hq, hp, -⟩ := quadNode_of_shape hr
    obtain ⟨keys, hkeys, hmem, hlen⟩ := root_keys h
    obtain ⟨hw, -⟩ := slotsBelow_spec h (db.nodes.brk + 1) db.root _ (by omega) hq
    exact ⟨q, quadNode_eq_some.2 hq, hp, keys, hkeys, hmem, by rw [hlen]; exact hw.symm⟩
  child_parent a q hq t := by
    obtain ⟨-, -, -, s, hs, hp⟩ := h.shape.child a _ _ (shape_of_cells (quadNode_eq_some.1 hq)) t
    obtain ⟨n, hn, rfl⟩ := Option.map_eq_some_iff.1 hs
    exact ⟨n, hn, by rw [← Node.shape_parent, hp]⟩

end Pincaster
