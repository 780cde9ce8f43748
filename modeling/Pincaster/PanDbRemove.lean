import Pincaster.PanDbAdd
/-!
# PanDbRemove — `remove_entry_from_key_node`

A slot is freed; when its bucket and the sibling buckets hold few slots, they are packed into one bucket that takes the
place of their parent.
-/
namespace Pincaster

variable {D κ : Type}

/-! ## Buckets are freed -/

theorem freeBucketNodes_spec : ∀ (as : List Nat) (db : PanDB D κ), as.Nodup →
    (∀ a ∈ as, ∃ b, db.bucketNode a = some b ∧
      b.entries.all (fun e => e.2.keyNode.isSome && e.2.bucketNode.isSome) = true) →
    ∃ db', freeBucketNodes as db = some db' ∧ db'.root = db.root ∧ db'.slots = db.slots ∧
      ∀ x, db'.nodes.cells x = if x ∈ as then none else db.nodes.cells x
  | [], db, _, _ => ⟨db, rfl, rfl, rfl, fun x => by simp⟩
  | a :: as, db, hnodup, hbuckets => by
    obtain ⟨hnot, hnodup⟩ := List.nodup_cons.1 hnodup
    obtain ⟨b, hb, hall⟩ := hbuckets a (by simp)
    have hfree : freeBucketNode db a = some { db with nodes := db.nodes.free a } := by
      rw [freeBucketNode, hb]
      exact if_pos hall
    have hother : ∀ x, x ≠ a → ({ db with nodes := db.nodes.free a } : PanDB D κ).bucketNode x = db.bucketNode x := by
      intro x hx
      unfold PanDB.bucketNode
      rw [Lib.Heap.cells_free, if_neg hx]
    obtain ⟨db', hdb', hroot, hslots, hcells⟩ := freeBucketNodes_spec as { db with nodes := db.nodes.free a } hnodup
      (fun x hx => by
        obtain ⟨bx, hbx, hallx⟩ := hbuckets x (by simp [hx])
        exact ⟨bx, by rw [hother x (fun he => hnot (he ▸ hx)), hbx], hallx⟩)
    refine ⟨db', by rw [freeBucketNodes, hfree]; exact hdb', hroot, hslots, fun x => ?_⟩
    rw [hcells, Lib.Heap.cells_free]
    by_cases hx : x = a
    · subst hx
      rw [if_neg hnot, if_pos rfl, if_pos (by simp)]
    · simp only [List.mem_cons, hx, false_or, if_false]

/-- The siblings are counted when all of them are buckets. -/
theorem busySlotsInSiblings_spec {db : PanDB D κ} : ∀ (as : List Nat) (busySlots : Nat),
    (∀ a ∈ as, ∃ n, db.nodes.cells a = some n) →
    busySlotsInSiblings db as busySlots = some none ∨ ((∀ a ∈ as, ∃ b, db.bucketNode a = some b) ∧
      busySlotsInSiblings db as busySlots = some (some (busySlots + (as.map db.weight).sum)))
  | [], busySlots, _ => .inr ⟨by simp, by simp [busySlotsInSiblings]⟩
  | a :: as, busySlots, hcells => by
    obtain ⟨n, hn⟩ := hcells a (by simp)
    cases n with
    | quadNode q =>
      left
      rw [busySlotsInSiblings, hn]
      rfl
    | bucketNode b =>
      have hb := bucketNode_eq_some.2 hn
      have hstep : busySlotsInSiblings db (a :: as) busySlots =
          busySlotsInSiblings db as (busySlots + b.busySlots) := by
        rw [busySlotsInSiblings, hn]
        rfl
      rw [hstep]
      rcases busySlotsInSiblings_spec as (busySlots + b.busySlots) (fun x hx => hcells x (by simp [hx])) with h | ⟨hall, h⟩
      · exact .inl h
      · refine .inr ⟨?_, ?_⟩
        · intro x hx
          rcases List.mem_cons.1 hx with rfl | hx
          · exact ⟨b, hb⟩
          · exact hall x hx
        · rw [h, List.map_cons, List.sum_cons, weight_of_bucketNode hb, Nat.add_assoc]

theorem QuadNode.partOf_eq {q : QuadNode} (hinj : Function.Injective q.nodes) (t : Fin 4) :
    q.partOf (q.nodes t) = some t := by
  have hall : ∀ u : Fin 4, q.nodes u = q.nodes t ↔ u = t := fun u => ⟨fun h => hinj h, fun h => by rw [h]⟩
  simp only [QuadNode.partOf, hall]
  match t with
  | 0 | 1 | 2 | 3 => rfl

theorem QuadNode.mem_nodesDown {q : QuadNode} {a : Nat} : a ∈ q.nodesDown ↔ ∃ t, q.nodes t = a := by
  constructor
  · intro h
    simp only [QuadNode.nodesDown, List.mem_cons, List.not_mem_nil, or_false] at h
    rcases h with h | h | h | h
    · exact ⟨3, h.symm⟩
    · exact ⟨2, h.symm⟩
    · exact ⟨1, h.symm⟩
    · exact ⟨0, h.symm⟩
  · rintro ⟨t, rfl⟩
    match t with
    | 0 | 1 | 2 | 3 => simp [QuadNode.nodesDown]

theorem QuadNode.nodup_nodesDown {q : QuadNode} (hinj : Function.Injective q.nodes) : q.nodesDown.Nodup := by
  have hmap : q.nodesDown = [3, 2, 1, 0].map q.nodes := rfl
  rw [hmap]
  exact List.Nodup.map hinj (by decide)

variable [LinearOrder D]

/-! ## A bucket is allocated -/

/-- The heap with an empty bucket below `parent`. -/
def PanDB.withBucket (db : PanDB D κ) (parent : Nat) : PanDB D κ :=
  { db with nodes := db.nodes.alloc (newBucketNode parent) }

omit [LinearOrder D] in
theorem cells_withBucket (db : PanDB D κ) (parent x : Nat) : (db.withBucket parent).nodes.cells x =
    if x = db.nodes.brk then some (newBucketNode parent) else db.nodes.cells x := rfl

omit [LinearOrder D] in
theorem shape_withBucket (db : PanDB D κ) (parent x : Nat) : (db.withBucket parent).shape x =
    if x = db.nodes.brk then some ⟨some parent, none⟩ else db.shape x := by
  rw [PanDB.shape, cells_withBucket]
  split_ifs <;> rfl

omit [LinearOrder D] in
theorem bucketNode_withBucket (db : PanDB D κ) (parent x : Nat) : (db.withBucket parent).bucketNode x =
    if x = db.nodes.brk then some ⟨some parent, 0, [], 0⟩ else db.bucketNode x := by
  unfold PanDB.bucketNode
  rw [cells_withBucket]
  split_ifs <;> rfl

variable {env : PanDbEnv D κ} {pos : κ → Option (Position2D D)} {cell : Nat → Rectangle2D D} {gone : κ → Prop}
  {off : Nat → Int}

/-- **A tree with an empty bucket off it**, for the cell of an old node. -/
theorem Tree.withBucket {db : PanDB D κ} (h : Tree env db pos cell none (fun _ => False) gone off) (parent : Nat)
    {rect : Rectangle2D D} (hrect : rect.Ordered) : Tree env (db.withBucket parent) pos
      (Function.update cell db.nodes.brk rect) (some db.nodes.brk) (fun _ => False) gone off := by
  have hlt : ∀ {x s}, db.shape x = some s → x ≠ db.nodes.brk := fun hs => by
    have := lt_brk_of_shape hs
    omega
  obtain ⟨rnodes, hr⟩ := h.shape.rootNode
  have hquad : ∀ {a p nodes}, (db.withBucket parent).shape a = some ⟨p, some nodes⟩ →
      db.shape a = some ⟨p, some nodes⟩ := by
    intro a p nodes ha
    rw [shape_withBucket] at ha
    split at ha
    · simp at ha
    · exact ha
  refine ⟨⟨⟨rnodes, ?_⟩, ?_, ?_, ?_, ?_, ?_, ?_⟩, h.located.grow ?_ ?_, ?_⟩
  · change (db.withBucket parent).shape db.root = _
    rw [shape_withBucket, if_neg (hlt hr), hr]
  · change Function.update cell db.nodes.brk rect db.root = _
    rw [Function.update_of_ne (hlt hr), h.shape.rootCell]
  · intro a s ha
    rw [shape_withBucket] at ha
    split at ha
    · rename_i he
      rw [he, Function.update_self]
      exact hrect
    · rename_i he
      rw [Function.update_of_ne he]
      exact h.shape.ordered a s ha
  · intro a s ha hnone
    rw [shape_withBucket] at ha
    split at ha
    · cases ha
      cases hnone
    · exact h.shape.eq_root a s ha hnone
  · intro a p nodes ha t
    have ha' := hquad ha
    obtain ⟨h1, -, h3, s, hs, hsp⟩ := h.shape.child a p nodes ha' t
    refine ⟨h1, fun he => hlt hs (Option.some.inj he), ?_, s, ?_, hsp⟩
    · rw [Function.update_of_ne (hlt hs), Function.update_of_ne (hlt ha'), h3]
    · rw [shape_withBucket, if_neg (hlt hs), hs]
  · intro a p nodes ha
    exact h.shape.injective a p nodes (hquad ha)
  · intro a s p ha hp hne
    rw [shape_withBucket, if_neg (fun he => hne (by rw [he]))] at ha
    obtain ⟨p', nodes, t, hps, ht⟩ := h.shape.held a s p ha hp (by simp)
    exact ⟨p', nodes, t, by rw [shape_withBucket, if_neg (hlt hps), hps], ht⟩
  · intro a b hb
    have hne := hlt (shape_of_cells (bucketNode_eq_some.1 hb))
    exact ⟨by rw [bucketNode_withBucket, if_neg hne, hb], Function.update_of_ne hne ..⟩
  · intro a b hb
    rw [bucketNode_withBucket] at hb
    split at hb
    · cases hb
      exact .inr ⟨rfl, rfl⟩
    · exact .inl hb
  · intro a q ha
    have hs := hquad (shape_of_cells ha)
    have hw : ∀ t, (db.withBucket parent).weight (q.nodes t) = db.weight (q.nodes t) := by
      intro t
      obtain ⟨-, -, -, s, hst, -⟩ := h.shape.child a _ _ hs t
      rw [PanDB.weight, cells_withBucket, if_neg (hlt hst), PanDB.weight]
    rw [cells_withBucket, if_neg (hlt hs)] at ha
    simp only [hw]
    exact h.counted a q ha

/-! ## The slots are packed -/

variable [DecidableEq κ]

/-- **One slot is copied to the bucket** that hangs off the tree. -/
theorem Tree.addNone {db : PanDB D κ} {stale : SlotPtr → Prop} {a t : Nat} {b bt : BucketNode D κ}
    {e : Nat × Slot D κ} (h : Tree env db pos cell (some t) stale gone off) (hb : db.bucketNode a = some b)
    (he : e ∈ b.entries) (hst : ¬ stale ⟨a, e.1⟩) (ht : db.bucketNode t = some bt)
    (hin : positionIsInRect e.2.position (cell t)) (hfresh : ¬ stale ⟨t, bt.next⟩) :
    ∃ db' newSlot, addSlotToBucket db t e.2 .none = some (db', newSlot) ∧ ∃ db'', relocate db' e.2 newSlot = some db'' ∧
      Tree env db'' pos cell (some t) (fun p => stale p ∨ p = ⟨a, e.1⟩) gone off ∧ db''.shape = db.shape ∧
      db''.root = db.root ∧ db''.bucketNode t = some (bt.add t e.2) ∧
      ∀ x, x ≠ t → db''.nodes.cells x = db.nodes.cells x := by
  obtain ⟨k, hk, -, hloc⟩ := h.located.move hb he hst ht hin hfresh
  refine ⟨_, _, addSlotToBucket_none ht hk, _, relocate_eq hk _ _, ⟨?_, ?_, ?_⟩, ?_, rfl, ?_, ?_⟩
  · exact h.shape.write_bucket (c := bt.add t e.2) ht rfl
  · exact (congrArg (Located · _ pos cell _ gone) (bucketNode_write ht _)).mpr hloc
  · refine (h.counted.write_bucket h.shape (c := bt.add t e.2) ht rfl (d := 1) (by simp [BucketNode.add])).congr
      (fun x => ?_)
    rw [if_neg (by simp)]
    omega
  · exact shape_write (bucketNode_eq_some.1 ht) rfl
  · exact (congrFun (bucketNode_write ht _) t).trans (Function.update_self ..)
  · exact fun x hx => cells_write_of_ne hx _ _

/-- **All slots of a bucket are copied.** -/
theorem packOldChildNode_spec {new a : Nat} {b : BucketNode D κ} (hlt : a < new)
    (hin : ∀ e ∈ b.entries, positionIsInRect e.2.position (cell new)) : ∀ (entries : List (Nat × Slot D κ))
    (db : PanDB D κ) (stale : SlotPtr → Prop) (bn : BucketNode D κ), Tree env db pos cell (some new) stale gone off →
    db.bucketNode new = some bn → db.bucketNode a = some b → (∀ e ∈ entries, e ∈ b.entries ∧ ¬ stale ⟨a, e.1⟩) →
    (entries.map Prod.fst).Nodup → (∀ p, stale p → p.bucket < new) →
    ∃ db' bn', packOldChildNode new entries db = some db' ∧
      Tree env db' pos cell (some new) (fun p => stale p ∨ ∃ e ∈ entries, p = ⟨a, e.1⟩) gone off ∧
      db'.shape = db.shape ∧ db'.root = db.root ∧ db'.bucketNode new = some bn' ∧ bn'.parent = bn.parent ∧
      bn'.busySlots = bn.busySlots + entries.length ∧ ∀ x, x < new → db'.nodes.cells x = db.nodes.cells x
  | [], db, stale, bn, h, hn, _, _, _, _ =>
    ⟨db, bn, rfl, by simpa using h, rfl, rfl, hn, rfl, rfl, fun _ _ => rfl⟩
  | e :: entries, db, stale, bn, h, hn, hb, hentries, hnodup, hstale => by
    obtain ⟨he, hst⟩ := hentries e (by simp)
    have hfresh : ¬ stale ⟨new, bn.next⟩ := fun hs => absurd (hstale _ hs) (by simp)
    obtain ⟨db₁, newSlot, hadd, db₂, hrel, h₂, hshape, hroot, hn₂, hframe⟩ :=
      h.addNone hb he hst hn (hin e he) hfresh
    rw [List.map_cons, List.nodup_cons] at hnodup
    have ha : a ≠ new := by omega
    obtain ⟨db', bn', hpack, h', hshape', hroot', hn', hp', hbusy, hframe'⟩ := packOldChildNode_spec hlt hin entries db₂
      _ _ h₂ hn₂ (by rw [bucketNode_eq_some, hframe a ha, ← bucketNode_eq_some]; exact hb)
      (fun e' he' => ⟨(hentries e' (by simp [he'])).1, fun hs => by
        rcases hs with hs | hs
        · exact (hentries e' (by simp [he'])).2 hs
        · rw [SlotPtr.mk.injEq] at hs
          exact hnodup.1 (hs.2 ▸ List.mem_map_of_mem he')⟩)
      hnodup.2 (fun p hs => hs.elim (hstale p) (fun hs => by rw [hs]; exact hlt))
    refine ⟨db', bn', ?_, ?_, hshape'.trans hshape, hroot'.trans hroot, hn', hp', ?_, fun x hx => ?_⟩
    · rw [packOldChildNode]
      simp only [Option.bind_eq_bind, hadd, Option.bind_some, hrel]
      exact hpack
    · have heq : (fun p => (stale p ∨ p = ⟨a, e.1⟩) ∨ ∃ e' ∈ entries, p = ⟨a, e'.1⟩) =
          fun p => stale p ∨ ∃ e' ∈ e :: entries, p = ⟨a, e'.1⟩ := by
        funext p
        simp only [List.mem_cons, exists_eq_or_imp, or_assoc]
      exact heq ▸ h'
    · have hone : (bn.add new e.2).busySlots = bn.busySlots + 1 := rfl
      rw [hbusy, List.length_cons, hone]
      omega
    · have hxn : x ≠ new := by omega
      rw [hframe' x hx, hframe x hxn]

/-- **All slots of some buckets are copied**, and the new bucket counts them. -/
theorem packOldChildNodes_spec {new : Nat} : ∀ (as : List Nat) (db : PanDB D κ) (stale : SlotPtr → Prop)
    (bn : BucketNode D κ), Tree env db pos cell (some new) stale gone off → db.bucketNode new = some bn → as.Nodup →
    (∀ a ∈ as, a < new ∧ ∃ b, db.bucketNode a = some b ∧
      (∀ e ∈ b.entries, positionIsInRect e.2.position (cell new) ∧ ¬ stale ⟨a, e.1⟩)) →
    (∀ p, stale p → p.bucket < new) →
    ∃ db' bn', packOldChildNodes env new as db = some db' ∧
      Tree env db' pos cell (some new) (fun p => stale p ∨ (p.bucket ∈ as ∧ ∃ b, db.bucketNode p.bucket = some b ∧
        ∃ e ∈ b.entries, p = ⟨p.bucket, e.1⟩)) gone off ∧
      db'.shape = db.shape ∧ db'.root = db.root ∧ db'.bucketNode new = some bn' ∧ bn'.parent = bn.parent ∧
      bn'.busySlots = bn.busySlots + (as.map db.weight).sum ∧ ∀ x, x < new → db'.nodes.cells x = db.nodes.cells x
  | [], db, stale, bn, h, hn, _, _, _ => ⟨db, bn, rfl, by simpa using h, rfl, rfl, hn, rfl, by simp, fun _ _ => rfl⟩
  | a :: as, db, stale, bn, h, hn, hnodup, has, hstale => by
    obtain ⟨hnot, hnodup⟩ := List.nodup_cons.1 hnodup
    obtain ⟨hlt, b, hb, hentries⟩ := has a (by simp)
    have hperm := env.order_perm b.entries
    have hwf := h.located.wellFormed hb
    obtain ⟨db₁, bn₁, hpack, h₁, hshape, hroot, hn₁, hp₁, hbusy₁, hframe⟩ := packOldChildNode_spec hlt
      (fun e he => (hentries e he).1) (env.order b.entries) db stale bn h hn hb
      (fun e he => ⟨hperm.mem_iff.1 he, (hentries e (hperm.mem_iff.1 he)).2⟩)
      ((hperm.map Prod.fst).nodup_iff.2 hwf.nodup) hstale
    have hsame : ∀ x, x < new → db₁.bucketNode x = db.bucketNode x := fun x hx => by
      unfold PanDB.bucketNode
      rw [hframe x hx]
    obtain ⟨db', bn', hpacks, h', hshape', hroot', hn', hp', hbusy', hframe'⟩ := packOldChildNodes_spec as db₁ _ bn₁ h₁
      hn₁ hnodup
      (fun x hx => by
        obtain ⟨hxlt, bx, hbx, hxe⟩ := has x (by simp [hx])
        refine ⟨hxlt, bx, by rw [hsame x hxlt, hbx], fun e he => ⟨(hxe e he).1, ?_⟩⟩
        rintro (hs | ⟨e', -, heq⟩)
        · exact (hxe e he).2 hs
        · rw [SlotPtr.mk.injEq] at heq
          exact hnot (heq.1 ▸ hx))
      (fun p hs => hs.elim (hstale p) (fun ⟨e, _, he⟩ => by rw [he]; exact hlt))
    refine ⟨db', bn', ?_, ?_, hshape'.trans hshape, hroot'.trans hroot, hn', hp'.trans hp₁, ?_, fun x hx =>
      (hframe' x hx).trans (hframe x hx)⟩
    · rw [packOldChildNodes]
      simp only [Option.bind_eq_bind, hb, Option.bind_some, hpack]
      exact hpacks
    · have heq : (fun p => (stale p ∨ ∃ e ∈ env.order b.entries, p = ⟨a, e.1⟩) ∨ (p.bucket ∈ as ∧
          ∃ b', db₁.bucketNode p.bucket = some b' ∧ ∃ e ∈ b'.entries, p = ⟨p.bucket, e.1⟩)) =
          fun p => stale p ∨ (p.bucket ∈ a :: as ∧ ∃ b', db.bucketNode p.bucket = some b' ∧
            ∃ e ∈ b'.entries, p = ⟨p.bucket, e.1⟩) := by
        funext p
        have hb₁ : p.bucket ∈ as → db₁.bucketNode p.bucket = db.bucketNode p.bucket := fun hm =>
          hsame _ (has _ (by simp [hm])).1
        refine propext ⟨?_, ?_⟩
        · rintro ((hs | ⟨e, he, rfl⟩) | ⟨hm, hx⟩)
          · exact .inl hs
          · exact .inr ⟨by simp, b, hb, e, hperm.mem_iff.1 he, rfl⟩
          · exact .inr ⟨by simp [hm], by rw [← hb₁ hm]; exact hx⟩
        · rintro (hs | ⟨hm, b', hb', e, he, hpe⟩)
          · exact .inl (.inl hs)
          · rcases List.mem_cons.1 hm with hpa | hm
            · rw [hpa, hb, Option.some.injEq] at hb'
              subst hb'
              rw [hpa] at hpe
              exact .inl (.inr ⟨e, hperm.mem_iff.2 he, hpe⟩)
            · exact .inr ⟨hm, b', by rw [hb₁ hm]; exact hb', e, he, hpe⟩
      exact heq ▸ h'
    · have hw : as.map db₁.weight = as.map db.weight := List.map_congr_left (fun x hx => by
        rw [PanDB.weight, hframe x (has x (by simp [hx])).1, PanDB.weight])
      rw [hbusy', hbusy₁, hperm.length_eq, hw, List.map_cons, List.sum_cons, weight_of_bucketNode hb, hwf.busySlots]
      omega

/-! ## The merge -/

/-- **A merge keeps the invariant**, and puts one bucket in the place of a quad node that counts one slot too many. -/
theorem mergeBuckets_spec {db : PanDB D κ} {scanned parent : Nat} {q : QuadNode}
    (h : Tree env db pos cell none (fun _ => False) gone (offAt (some scanned) 1))
    (hq : db.nodes.cells scanned = some (.quadNode q)) (hqp : q.parent = some parent)
    (hbuckets : ∀ a ∈ q.nodesDown, ∃ b, db.bucketNode a = some b) :
    ∃ db' cell' b', mergeBuckets env db scanned q (q.nodesDown.map db.weight).sum = some (db', db.nodes.brk) ∧
      Tree env db' pos cell' none (fun _ => False) gone (offAt (some parent) 1) ∧
      db'.bucketNode db.nodes.brk = some b' ∧ b'.parent = some parent ∧
      b'.busySlots = (q.nodesDown.map db.weight).sum ∧
      (∀ x c, x ≠ db.nodes.brk → db'.bucketNode x = some c → cell' x = cell x ∧ (db.bucketNode x).isSome) ∧
      QuadsKept db db' cell cell' (fun _ => False) := by
  have hqs := shape_of_cells hq
  have hinj := h.shape.injective _ _ _ hqs
  obtain ⟨hplt, p, hp⟩ := h.shape.parent_quad hq hqp
  have hps := shape_of_cells hp
  obtain ⟨part, hpart⟩ := (h.shape.child_iff hps hqs).2 ⟨by rw [← hqp]; rfl, by simp⟩
  have hslt := Lib.Heap.lt_brk hq
  have hchild : ∀ t, scanned < q.nodes t ∧ q.nodes t < db.nodes.brk ∧
      cell (q.nodes t) = getQrectsFromQbounds env.midpoint (cell scanned) t := fun t => by
    obtain ⟨h1, -, h3, s, hs, -⟩ := h.shape.child _ _ _ hqs t
    exact ⟨h1, lt_brk_of_shape hs, h3⟩
  have hordered := h.shape.ordered _ _ hqs
  have h₁ := h.withBucket parent hordered
  have hlow : ∀ x, x < db.nodes.brk → (db.withBucket parent).nodes.cells x = db.nodes.cells x := fun x hx => by
    rw [cells_withBucket, if_neg (by omega)]
  have hblow : ∀ x, x < db.nodes.brk → (db.withBucket parent).bucketNode x = db.bucketNode x := fun x hx => by
    rw [bucketNode_withBucket, if_neg (by omega)]
  obtain ⟨db₂, bn, hpack, h₂, hshape₂, hroot₂, hbn, hbnp, hbusy, hframe₂⟩ := packOldChildNodes_spec q.nodesDown _ _
    ⟨some parent, 0, [], 0⟩ h₁ (by rw [bucketNode_withBucket, if_pos rfl]) (QuadNode.nodup_nodesDown hinj)
    (fun a ha => by
      obtain ⟨b, hb⟩ := hbuckets a ha
      obtain ⟨t, rfl⟩ := QuadNode.mem_nodesDown.1 ha
      obtain ⟨-, hlt, hcell⟩ := hchild t
      refine ⟨hlt, b, by rw [hblow _ hlt, hb], fun e he => ⟨?_, fun hf => hf⟩⟩
      obtain ⟨hin, -⟩ := h.located.entry hb e he
      rw [hcell] at hin
      rw [Function.update_self]
      exact isInRect_of_getQrects hordered hin)
    (fun _ hf => hf.elim)
  have hold : ∀ x, x < db.nodes.brk → db₂.nodes.cells x = db.nodes.cells x := fun x hx => by
    rw [hframe₂ x hx, hlow x hx]
  have hbold : ∀ x, x < db.nodes.brk → db₂.bucketNode x = db.bucketNode x := fun x hx => by
    unfold PanDB.bucketNode
    rw [hold x hx]
  have hbuckets₂ : ∀ a ∈ q.nodesDown, ∃ b, db₂.bucketNode a = some b := fun a ha => by
    obtain ⟨b, hb⟩ := hbuckets a ha
    exact ⟨b, by rw [hbold a (Lib.Heap.lt_brk (bucketNode_eq_some.1 hb)), hb]⟩
  have hweights : q.nodesDown.map (db.withBucket parent).weight = q.nodesDown.map db.weight :=
    List.map_congr_left (fun a ha => by
      obtain ⟨b, hb⟩ := hbuckets a ha
      rw [PanDB.weight, hlow a (Lib.Heap.lt_brk (bucketNode_eq_some.1 hb)), PanDB.weight])
  rw [hweights, Nat.zero_add] at hbusy
  have hp₂ : db₂.nodes.cells parent = some (.quadNode p) := by rw [hold _ (by omega), hp]
  have hq₂ : db₂.nodes.cells scanned = some (.quadNode q) := by rw [hold _ hslt, hq]
  -- the parent is written first, then the buckets and the quad node are freed
  let p' : QuadNode := { p with nodes := Function.update p.nodes part db.nodes.brk }
  have hwrite : ∀ x, (db₂.write parent (.quadNode p')).nodes.cells x =
      if x = parent then some (.quadNode p') else db₂.nodes.cells x := by
    intro x
    rw [cells_write]
    by_cases hx : x = parent
    · subst hx
      rw [if_pos rfl, if_pos rfl, hp₂]
      rfl
    · rw [if_neg hx, if_neg hx]
  have hne : ∀ a ∈ q.nodesDown, a ≠ parent ∧ a ≠ scanned := fun a ha => by
    obtain ⟨t, rfl⟩ := QuadNode.mem_nodesDown.1 ha
    have := (hchild t).1
    omega
  obtain ⟨db₃, hfree, hroot₃, hslots₃, hcells₃⟩ := freeBucketNodes_spec q.nodesDown (db₂.write parent (.quadNode p'))
    (QuadNode.nodup_nodesDown hinj) (fun a ha => by
      obtain ⟨b, hb⟩ := hbuckets₂ a ha
      refine ⟨b, ?_, ?_⟩
      · rw [bucketNode_eq_some, hwrite, if_neg (hne a ha).1, ← bucketNode_eq_some, hb]
      · rw [List.all_eq_true]
        intro e he
        obtain ⟨-, hbn, k, hk, -⟩ := h₂.located.entry hb e he
        rw [hk, hbn]
        rfl)
  have hcells : ∀ x, ({ db₃ with nodes := db₃.nodes.free scanned } : PanDB D κ).nodes.cells x =
      if x = scanned ∨ x ∈ q.nodesDown then none else
        if x = parent then some (.quadNode p') else db₂.nodes.cells x := by
    intro x
    rw [Lib.Heap.cells_free, hcells₃, hwrite]
    by_cases hx : x = scanned
    · rw [if_pos hx, if_pos (.inl hx)]
    · simp only [hx, if_false, false_or]
  have hlink : Link db₂.shape ({ db₃ with nodes := db₃.nodes.free scanned } : PanDB D κ).shape
      (Function.update cell db.nodes.brk (cell scanned)) (fun x => x = scanned ∨ x ∈ q.nodesDown) db.nodes.brk parent
      scanned part p.parent p.nodes := by
    have hnewshape : db₂.shape db.nodes.brk = some ⟨some parent, none⟩ := by
      rw [hshape₂, shape_withBucket, if_pos rfl]
    refine ⟨shape_of_cells hp₂, hpart, ⟨_, hnewshape, rfl⟩, ?_, by omega, ?_, ?_, ?_⟩
    · rw [Function.update_self, Function.update_of_ne (by omega)]
    · rintro x (rfl | hx)
      · exact Nat.le_refl _
      · obtain ⟨t, rfl⟩ := QuadNode.mem_nodesDown.1 hx
        exact Nat.le_of_lt (hchild t).1
    · intro x s hx
      constructor
      · rintro (rfl | hxd)
        · exact .inl rfl
        · obtain ⟨t, rfl⟩ := QuadNode.mem_nodesDown.1 hxd
          obtain ⟨-, -, -, s', hs', hsp'⟩ := h₂.shape.child _ _ _ (shape_of_cells hq₂) t
          rw [hx, Option.some.injEq] at hs'
          exact .inr ⟨scanned, hs' ▸ hsp', .inl rfl⟩
      · rintro (rfl | ⟨y, hy, hyd⟩)
        · exact .inl rfl
        · have hxn : x ≠ db.nodes.brk := by
            rintro rfl
            rw [hnewshape, Option.some.injEq] at hx
            rw [← hx, Option.some.injEq] at hy
            subst hy
            rcases hyd with he | hm
            · omega
            · exact (hne _ hm).1 rfl
          rcases hyd with rfl | hm
          · obtain ⟨t, ht⟩ := (h₂.shape.child_iff (shape_of_cells hq₂) hx).2 ⟨hy, by simpa using hxn⟩
            exact .inr (QuadNode.mem_nodesDown.2 ⟨t, ht⟩)
          · obtain ⟨b, hb⟩ := hbuckets₂ y hm
            exact absurd hy (h₂.shape.parent_ne_bucket (shape_of_cells (bucketNode_eq_some.1 hb)) hx (by simpa using hxn))
    · intro x
      rw [PanDB.shape, hcells]
      split_ifs <;> rfl
  have hdead : scanned = p.nodes part := hpart.symm
  subst hdead
  have hlinked := h₂.link hp₂ hlink hcells (fun a b hb e he => by
    constructor
    · rintro (hf | ⟨hm, -⟩)
      · exact hf.elim
      · exact .inr hm
    · rintro (rfl | hm)
      · rw [bucketNode_eq_some, hq₂] at hb
        simp at hb
      · obtain ⟨b', hb'⟩ := hbuckets a hm
        have hlt := Lib.Heap.lt_brk (bucketNode_eq_some.1 hb')
        have hsame : (db.withBucket parent).bucketNode a = some b := by rw [hblow a hlt, ← hbold a hlt, hb]
        exact .inr ⟨hm, b, hsame, e, he, rfl⟩) (hroot₃.trans rfl) hslots₃
  have hnlive : ¬ (db.nodes.brk = p.nodes part ∨ db.nodes.brk ∈ q.nodesDown) := by
    rintro (he | hm)
    · omega
    · obtain ⟨t, ht⟩ := QuadNode.mem_nodesDown.1 hm
      have := (hchild t).2.1
      omega
  refine ⟨_, _, bn, ?_, ⟨hlinked.shape, hlinked.located, hlinked.counted.congr_quad (fun x qx hx => ?_)⟩, ?_, hbnp,
    hbusy, ?_, hroot₃.trans hroot₂, fun x px nodes hx => ?_⟩
  · rw [mergeBuckets, hqp]
    simp only [Option.bind_eq_bind, Option.bind_some, quadNode_eq_some.2 hp]
    change (packOldChildNodes env db.nodes.brk q.nodesDown (db.withBucket parent)).bind _ = _
    rw [hpack]
    simp only [Option.bind_some, hbn, hbusy, ne_eq, not_true, if_false, quadNode_eq_some.2 hp₂, hbnp]
    rw [QuadNode.partOf_eq (h.shape.injective _ _ _ hps)]
    simp only [Option.bind_some]
    change (freeBucketNodes q.nodesDown (db₂.write parent (.quadNode p'))).bind _ = _
    rw [hfree]
    have hq₃ : db₃.quadNode (p.nodes part) = some q := by
      rw [quadNode_eq_some, hcells₃, if_neg (fun hm => (hne _ hm).2 rfl), hwrite, if_neg (by omega), hq₂]
    simp only [Option.bind_some, hq₃]
  · have hx' : x ≠ p.nodes part := by
      rintro rfl
      rw [hcells, if_pos (.inl rfl)] at hx
      cases hx
    have hzero : offAt (some (p.nodes part)) 1 x = 0 := if_neg (fun he => hx' (Option.some.inj he))
    rw [hzero, offAt]
    by_cases hxp : x = parent
    · have hsum := h.counted _ _ hq
      rw [offAt, if_pos rfl, Fin.sum_univ_four] at hsum
      have hlist : ((q.nodesDown.map db.weight).sum : Int) = db.weight (q.nodes 3) + db.weight (q.nodes 2) +
          db.weight (q.nodes 1) + db.weight (q.nodes 0) := by
        simp only [QuadNode.nodesDown, List.map_cons, List.map_nil, List.sum_cons, List.sum_nil]
        omega
      rw [if_pos hxp, if_pos (by rw [hxp]), weight_of_cells hq₂, weight_of_bucketNode hbn, hbusy, hlist]
      simp only [Node.weight]
      omega
    · rw [if_neg hxp, if_neg (fun he => hxp (Option.some.inj he)), Int.add_zero]
  · rw [bucketNode_eq_some, hcells, if_neg hnlive, if_neg (by omega), ← bucketNode_eq_some]
    exact hbn
  · intro x c hx hc
    rw [bucketNode_eq_some, hcells] at hc
    split_ifs at hc with hdead hparent
    · simp [p'] at hc
    · have hs := shape_of_cells hc
      rw [hshape₂, shape_withBucket, if_neg hx] at hs
      have hlt := lt_brk_of_shape hs
      rw [hold x hlt, ← bucketNode_eq_some] at hc
      exact ⟨Function.update_of_ne hx .., by rw [hc]; rfl⟩
  · rw [hlink.shape_eq] at hx
    split_ifs at hx with hdead hparent
    · rw [hparent]
      exact .inl ⟨Function.update_of_ne (by omega) .., _, _, hps⟩
    · rw [hshape₂, shape_withBucket] at hx
      split_ifs at hx with hnew
      · simp at hx
      · exact .inl ⟨Function.update_of_ne hnew .., px, nodes, hx⟩

/-- **What a removal does to the buckets**: they stay, but for one that is packed with its siblings and has room. -/
def RemovedFrom (env : PanDbEnv D κ) (db db' : PanDB D κ) (cell cell' : Nat → Rectangle2D D) : Prop :=
  ∀ x b, db'.bucketNode x = some b → cell' x = cell x ∧ (db.bucketNode x).isSome ∨ b.busySlots ≤ env.bucketSize

/-- **Packed or not**, the bucket returned is one below which one slot is missing from the counters. -/
theorem packSiblings_spec {db : PanDB D κ} {a scanned : Nat} {b : BucketNode D κ}
    (h : Tree env db pos cell none (fun _ => False) gone (offAt (some scanned) 1)) (hb : db.bucketNode a = some b)
    (hp : b.parent = some scanned) :
    ∃ db' cell' a' b' scanned', packSiblings env db a b = some (db', a') ∧ db'.bucketNode a' = some b' ∧
      b'.parent = some scanned' ∧ Tree env db' pos cell' none (fun _ => False) gone (offAt (some scanned') 1) ∧
      RemovedFrom env db db' cell cell' ∧ QuadsKept db db' cell cell' (fun _ => False) := by
  obtain ⟨-, q, hq⟩ := h.shape.parent_quad (bucketNode_eq_some.1 hb) hp
  have hsame : ∃ db' cell' a' b' scanned', some (db, a) = some (db', a') ∧ db'.bucketNode a' = some b' ∧
      b'.parent = some scanned' ∧ Tree env db' pos cell' none (fun _ => False) gone (offAt (some scanned') 1) ∧
      RemovedFrom env db db' cell cell' ∧ QuadsKept db db' cell cell' (fun _ => False) :=
    ⟨db, cell, a, b, scanned, rfl, hb, hp, h, fun x c hc => .inl ⟨rfl, by rw [hc]; rfl⟩, .refl db cell _⟩
  rw [packSiblings, hp]
  simp only [Option.bind_eq_bind, Option.bind_some, quadNode_eq_some.2 hq]
  split
  · rename_i hcond
    obtain ⟨parent, hqp⟩ := Option.ne_none_iff_exists'.1 hcond.1
    rcases busySlotsInSiblings_spec q.nodesDown 0 (fun x hx => by
      obtain ⟨t, rfl⟩ := QuadNode.mem_nodesDown.1 hx
      obtain ⟨-, -, -, s, hs, -⟩ := h.shape.child _ _ _ (shape_of_cells hq) t
      obtain ⟨n, hn, -⟩ := Option.map_eq_some_iff.1 hs
      exact ⟨n, hn⟩) with hnone | ⟨hall, hsome⟩
    · rw [hnone]
      exact hsame
    · rw [hsome, Nat.zero_add]
      simp only [Option.bind_some]
      split
      · rename_i hfew
        obtain ⟨db', cell', b', hmerge, h', hb', hp', hbusy, hothers, hquads⟩ := mergeBuckets_spec h hq hqp hall
        refine ⟨db', cell', _, b', parent, hmerge, hb', hp', h', fun x c hc => ?_, hquads⟩
        by_cases hx : x = db.nodes.brk
        · rw [hx, hb', Option.some.injEq] at hc
          rw [← hc, hbusy]
          omega
        · exact .inl (hothers x c hx hc)
      · exact hsame
  · exact hsame

/-- **`remove_entry_from_key_node` keeps the invariant**; its caller clears the pointer of the key node. -/
theorem removeEntryFromKeyNode_spec {db : PanDB D κ} (h : Stable env db pos cell) {k : κ} (hk : db.slots k ≠ none) :
    ∃ db' cell', removeEntryFromKeyNode env db k = some db' ∧
      Stable env { db' with slots := Function.update db'.slots k none } (Function.update pos k none) cell' ∧
      RemovedFrom env db db' cell cell' ∧ QuadsKept db db' cell cell' (fun _ => False) := by
  obtain ⟨⟨a, n⟩, hptr⟩ := Option.ne_none_iff_exists'.1 hk
  obtain ⟨b, slot, hb, hm, hkey, -⟩ := h.located.key (fun hf => hf) hptr
  simp only at hb hm
  obtain ⟨-, hbn, -⟩ := h.located.entry hb _ hm
  simp only at hbn
  have hwf := h.located.wellFormed hb
  have hpos : 0 < b.busySlots := by
    rw [hwf.busySlots]
    exact List.length_pos_of_mem hm
  obtain ⟨scanned, hp⟩ : ∃ scanned, b.parent = some scanned := by
    cases hbp : b.parent with
    | some scanned => exact ⟨scanned, rfl⟩
    | none =>
      have hs := shape_of_cells (bucketNode_eq_some.1 hb)
      have hroot := h.shape.eq_root a _ hs hbp
      obtain ⟨nodes, hr⟩ := h.shape.rootNode
      rw [← hroot, hs] at hr
      simp [Node.shape] at hr
  -- the slot is freed
  have h₁ : Tree env (db.write a (.bucketNode (b.remove n))) pos cell none (fun _ => False) (fun k' => k' = k)
      (offAt (some scanned) 1) := by
    refine ⟨h.shape.write_bucket hb rfl, ?_, ?_⟩
    · exact (congrArg (Located · _ pos cell _ _) (bucketNode_write hb _)).mpr (h.located.remove hb hm hptr)
    · refine (h.counted.write_bucket h.shape (c := b.remove n) hb rfl (d := -1) ?_).congr (fun x => ?_)
      · simp only [BucketNode.remove]
        omega
      · rw [if_pos (by simp), hp]
        simp only [offAt]
        split_ifs <;> omega
  have hb₁ : (db.write a (.bucketNode (b.remove n))).bucketNode a = some (b.remove n) := by
    rw [bucketNode_write hb, Function.update_self]
  obtain ⟨db₂, cell₂, a₂, b₂, scanned₂, hpack, hb₂, hp₂, h₂, hremoved, hquads⟩ :=
    packSiblings_spec h₁ hb₁ hp
  obtain ⟨hlt, q, hq⟩ := h₂.shape.parent_quad (bucketNode_eq_some.1 hb₂) hp₂
  have hbrk := Lib.Heap.lt_brk hq
  obtain ⟨db', hdec, hsame, hcounted⟩ := decSubSlots_spec (db₂.nodes.brk + 1) scanned₂ db₂ h₂.shape h₂.counted (by omega)
    ⟨q, hq⟩
  have hshape₁ := shape_write (bucketNode_eq_some.1 hb) (n := .bucketNode (b.remove n)) rfl
  refine ⟨db', cell₂, ?_, ⟨?_, ?_, hcounted⟩, fun x c hc => ?_, hquads.congr hshape₁.symm rfl hsame.shape hsame.root⟩
  · have hslot : db.slot ⟨a, n⟩ = some slot := by
      rw [PanDB.slot, hb]
      exact hwf.lookup hm
    rw [removeEntryFromKeyNode, hptr]
    simp only [Option.bind_eq_bind, Option.bind_some, hslot, hbn, hb, hkey]
    rw [if_neg (by simp; omega)]
    change (packSiblings env (db.write a (.bucketNode (b.remove n))) a (b.remove n)).bind _ = _
    rw [hpack]
    simp only [Option.bind_some, hb₂, hp₂]
    exact hdec
  · have hs := hsame.shape
    have hr := hsame.root
    change Shape env db'.shape db'.root cell₂ none
    rw [hs, hr]
    exact h₂.shape
  · have hs := hsame.slots
    have hbk := hsame.buckets
    change Located db'.bucketNode (Function.update db'.slots k none) _ cell₂ _ _
    rw [hbk, hs]
    exact h₂.located.clear
  · rw [hsame.buckets] at hc
    rcases hremoved x c hc with ⟨hcell, hsome⟩ | hfew
    · rw [bucketNode_write hb] at hsome
      refine .inl ⟨hcell, ?_⟩
      by_cases hx : x = a
      · rw [hx, hb]
        rfl
      · rwa [Function.update_of_ne hx] at hsome
    · exact .inr hfew

end Pincaster
