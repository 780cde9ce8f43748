import Pincaster.LayerRecords
/-!
# LayerPurge — the records that go

A DELETE, a purge and the end of a layer free key nodes with their expirables.  The purge of a layer goes through its
expirables as long as they have expired: the record of each one goes, and no other one.
-/
namespace Pincaster

open Lib (Heap RbTree)

variable {D : Type}

namespace Layer

/-! ## Freeing a key node -/

/-- A key node and its expirable are freed. -/
structure Freed (mem : Memory) (db : Db D) (a : Nat) (mem' : Memory) (db' : Db D) : Prop where
  keyNodes : db'.keyNodes = db.keyNodes.remove (fun n => n.2 = a)
  expirables : db'.expirables = db.expirables.filter (fun e => mem.expirableOf a ≠ some (some e))
  nodes : ∀ a', mem'.keyNodes.cells a' = if a' = a then none else mem.keyNodes.cells a'
  cells : ∀ e, mem'.expirables.cells e =
    if mem.expirableOf a = some (some e) then none else mem.expirables.cells e
  keyNodesBrk : mem'.keyNodes.brk = mem.keyNodes.brk
  expirablesBrk : mem'.expirables.brk = mem.expirables.brk

section
variable {mem mem' : Memory} {db db' : Db D} {a : Nat}

/-- **`free_key_node`** of a key node that is no more in the tree and has no slot. -/
theorem Indexed.freeKeyNode_spec (h : Indexed mem db) (ha : a ∈ db.addrs) (panDb : PanDB D Nat)
    (hslot : panDb.slots a = none) : ∃ mem' db',
      freeKeyNode mem { db with panDb, keyNodes := db.keyNodes.remove (fun n => n.2 = a) } a = some (mem', db') ∧
      db'.panDb = panDb ∧ Freed mem db a mem' db' := by
  obtain ⟨node, hnode⟩ := h.node_at ha
  have hof : mem.expirableOf a = some node.expirable := congrArg (Option.map KeyNode.expirable) hnode
  unfold freeKeyNode
  simp only [hnode, Option.bind_eq_bind, Option.bind_some]
  rw [if_neg (not_not.2 hslot)]
  cases hexp : node.expirable with
  | none =>
    have hnone : ∀ e, mem.expirableOf a ≠ some (some e) := fun e => by
      rw [hof, hexp]
      simp
    refine ⟨_, _, rfl, rfl, rfl, ?_, fun _ => rfl, fun e => (if_neg (hnone e)).symm, rfl, rfl⟩
    exact (List.filter_eq_self.2 (fun e _ => decide_eq_true (hnone e))).symm
  | some e =>
    have hsome : ∀ e', mem.expirableOf a = some (some e') ↔ e' = e := fun e' => by
      rw [hof, hexp, Option.some.injEq, Option.some.injEq, eq_comm]
    refine ⟨_, _, rfl, rfl, rfl, ?_, fun _ => rfl, fun e' => ?_, rfl, rfl⟩
    · rw [removeExpirableFromTree, h.nodup_expirables.erase_eq_filter]
      refine List.filter_congr (fun e' _ => ?_)
      rw [bne, beq_eq_decide, ← decide_not]
      exact decide_eq_decide.2 (not_congr (hsome e')).symm
    · rw [Heap.cells_free]
      exact if_congr (hsome e').symm rfl rfl

theorem Freed.mem_nodes (hfreed : Freed mem db a mem' db') {n : Key × Nat} :
    n ∈ db'.keyNodes.nodes ↔ n ∈ db.keyNodes.nodes ∧ n.2 ≠ a := by
  rw [hfreed.keyNodes, RbTree.mem_remove, decide_eq_false_iff_not]

theorem Freed.mem_addrs (hfreed : Freed mem db a mem' db') {a' : Nat} : a' ∈ db'.addrs ↔ a' ∈ db.addrs ∧ a' ≠ a := by
  rw [Db.addrs, List.mem_map, Db.addrs, List.mem_map]
  constructor
  · rintro ⟨n, hn, rfl⟩
    obtain ⟨hold, hne⟩ := hfreed.mem_nodes.1 hn
    exact ⟨⟨n, hold, rfl⟩, hne⟩
  · rintro ⟨⟨n, hn, rfl⟩, hne⟩
    exact ⟨n, hfreed.mem_nodes.2 ⟨hn, hne⟩, rfl⟩

theorem Freed.mem_expirables (hfreed : Freed mem db a mem' db') {e : Nat} :
    e ∈ db'.expirables ↔ e ∈ db.expirables ∧ mem.expirableOf a ≠ some (some e) := by
  rw [hfreed.expirables, List.mem_filter, decide_eq_true_eq]

theorem Freed.expirableOf (hfreed : Freed mem db a mem' db') {a' : Nat} (hne : a' ≠ a) :
    mem'.expirableOf a' = mem.expirableOf a' := by
  rw [Memory.expirableOf, hfreed.nodes, if_neg hne]
  rfl

/-- **The other key nodes keep their expirables.** -/
theorem Freed.indexed (hfreed : Freed mem db a mem' db') (h : Indexed mem db) (ha : a ∈ db.addrs) :
    Indexed mem' db' := by
  have hcells : ∀ e ∈ db'.expirables, mem'.expirables.cells e = mem.expirables.cells e := fun e he => by
    rw [hfreed.cells, if_neg (hfreed.mem_expirables.1 he).2]
  refine ⟨?_, ?_, ?_, ?_, ?_⟩
  · rw [Db.addrs, hfreed.keyNodes]
    exact h.nodup.sublist (List.filter_sublist.map Prod.snd)
  · intro a' ha'
    obtain ⟨hold, hne⟩ := hfreed.mem_addrs.1 ha'
    rw [hfreed.expirableOf hne]
    exact h.node a' hold
  · intro a' ha' e he
    obtain ⟨hold, hne⟩ := hfreed.mem_addrs.1 ha'
    rw [hfreed.expirableOf hne] at he
    obtain ⟨hmem, hts⟩ := h.back a' hold e he
    have hmem' : e ∈ db'.expirables := hfreed.mem_expirables.2 ⟨hmem, fun hae => hne (h.unique hold ha he hae)⟩
    rw [hcells e hmem']
    exact ⟨hmem', hts⟩
  · intro e he
    obtain ⟨hmem, hnot⟩ := hfreed.mem_expirables.1 he
    obtain ⟨a', ha', hae⟩ := h.entry e hmem
    have hne : a' ≠ a := fun haa => hnot (haa ▸ hae)
    exact ⟨a', hfreed.mem_addrs.2 ⟨ha', hne⟩, (hfreed.expirableOf hne).trans hae⟩
  · refine (h.ordered.sublist (hfreed.expirables ▸ List.filter_sublist)).imp_of_mem
      (fun {e e'} he he' hbefore x x' hx hx' => ?_)
    exact hbefore x x' (hcells e he ▸ hx) (hcells e' he' ▸ hx')

theorem Freed.step (hfreed : Freed mem db a mem' db') (h : Indexed mem db) (ha : a ∈ db.addrs) :
    Step mem db mem' db' := by
  refine ⟨fun a' ha' _ => ?_, fun e he _ => ?_, fun a' ha' => .inl (hfreed.mem_addrs.1 ha').1,
    fun e he => .inl (hfreed.mem_expirables.1 he).1, hfreed.keyNodesBrk.ge, hfreed.expirablesBrk.ge⟩
  · rw [hfreed.nodes, if_neg (fun haa : a' = a => ha' (haa ▸ ha))]
  · rw [hfreed.cells, if_neg (fun hae => he (h.back a ha e hae).1)]

/-- The records of the other key nodes. -/
theorem Freed.recordAt (hfreed : Freed mem db a mem' db') (h : Indexed mem db) (ha : a ∈ db.addrs) {a' : Nat}
    (ha' : a' ∈ db.addrs) (hne : a' ≠ a) (hpos : db'.panDb.position a' = db.panDb.position a') :
    recordAt mem' db' a' = recordAt mem db a' := by
  refine recordAt_congr hpos ?_ (fun e he => ?_)
  · rw [hfreed.nodes, if_neg hne]
  · rw [hfreed.cells, if_neg (fun hae => hne (h.unique ha' ha he hae))]

/-- **The record of a key is gone, and no other one.** -/
theorem records_remove {key : Key} (hn : (key, a) ∈ db.keyNodes.nodes)
    (hnodes : db'.keyNodes = db.keyNodes.remove (fun n => n.2 = a)) (hnodup : db.addrs.Nodup)
    (hother : ∀ a' ∈ db.addrs, a' ≠ a → Layer.recordAt mem' db' a' = Layer.recordAt mem db a') :
    records mem' db' = Function.update (records mem db) key none := by
  have hmem : ∀ n, n ∈ db'.keyNodes.nodes ↔ n ∈ db.keyNodes.nodes ∧ n.2 ≠ a := fun n => by
    rw [hnodes, RbTree.mem_remove, decide_eq_false_iff_not]
  funext k
  by_cases hk : k = key
  · rw [hk, Function.update_self, records_eq_none]
    intro n hn' hkey
    obtain ⟨hold, hne⟩ := (hmem n).1 hn'
    exact hne (congrArg Prod.snd (node_unique hold hn hkey))
  · rw [Function.update_of_ne hk, records, records]
    have hfind : db'.keyNodes.find k = db.keyNodes.find k := by
      refine Option.ext (fun n => ?_)
      rw [RbTree.find_eq_some keyNodeCmp_total, RbTree.find_eq_some keyNodeCmp_total, hmem]
      refine and_congr_left (fun hkey => and_iff_left_of_imp (fun hold heq => hk ?_))
      rw [← hkey, key_unique hnodup hold hn heq]
    rw [hfind]
    cases hfound : db.keyNodes.find k with
    | none => rfl
    | some n =>
      obtain ⟨hold, hkey⟩ := (RbTree.find_eq_some keyNodeCmp_total).1 hfound
      refine congrArg some (hother n.2 (Layer.mem_addrs hold) (fun heq => hk ?_))
      rw [← hkey, key_unique hnodup hold hn heq]

end

/-! ## A record goes -/

section
variable [LinearOrder D] {env : PanDbEnv D Nat} {mem : Memory} {db : Db D}

/-- **How a record goes**, in a DELETE and in a purge. -/
theorem dropKeyNode_spec (h : Kept env mem db) {n : Key × Nat} (hn : n ∈ db.keyNodes.nodes) :
    ∃ mem' db', dropKeyNode env mem db n.2 = some (mem', db') ∧ Kept env mem' db' ∧ Step mem db mem' db' ∧
      Freed mem db n.2 mem' db' ∧ records mem' db' = Function.update (records mem db) n.1 none ∧
      ∀ a' ∈ db'.addrs, recordAt mem' db' a' = recordAt mem db a' := by
  have ha := mem_addrs hn
  obtain ⟨panDb, hrem, h₁, hposition⟩ := removeSlot_spec h n.2
  obtain ⟨cell, htree⟩ := h₁.tree
  have hslot : panDb.slots n.2 = none := (slots_eq_none_iff htree).2 (by
    rw [hposition, Function.update_self])
  obtain ⟨mem', db', hfree, rfl, hfreed⟩ := h.toIndexed.freeKeyNode_spec ha panDb hslot
  have hother : ∀ a' ∈ db.addrs, a' ≠ n.2 → recordAt mem' db' a' = recordAt mem db a' := fun a' ha' hne =>
    hfreed.recordAt h.toIndexed ha ha' hne (by rw [hposition, Function.update_of_ne hne])
  unfold dropKeyNode
  rw [hrem]
  refine ⟨mem', db', hfree, ⟨hfreed.indexed h.toIndexed ha, ⟨cell, htree⟩, fun a' ha' => ?_⟩,
    hfreed.step h.toIndexed ha, hfreed, records_remove hn hfreed.keyNodes h.nodup hother, fun a' ha' => ?_⟩
  · exact hfreed.mem_addrs.2 ⟨h₁.slots a' ha', fun haa => ha' (haa ▸ hslot)⟩
  · exact hother a' (hfreed.mem_addrs.1 ha').1 (hfreed.mem_addrs.1 ha').2

/-! ## The purge of a layer -/

omit [LinearOrder D] in
/-- The time of a record is that of an expirable. -/
theorem expirable_eq_some (h : Indexed mem db) {a : Nat} (ha : a ∈ db.addrs) (ts : Int) :
    (recordAt mem db a).expirable = some ts ↔ ∃ e ∈ db.expirables, mem.expirables.cells e = some ⟨ts, a⟩ := by
  obtain ⟨o, ho⟩ := h.node a ha
  rw [recordAt_expirable ho, Option.bind_eq_some_iff]
  constructor
  · rintro ⟨e, rfl, hts⟩
    obtain ⟨he, ts', hcell, -⟩ := h.back a ha e ho
    rw [hcell, Option.map_some, Option.some.injEq] at hts
    exact ⟨e, he, hts ▸ hcell⟩
  · rintro ⟨e, he, hcell⟩
    obtain ⟨a', -, ts', hae, hcell', -⟩ := h.cells he
    rw [hcell, Option.some.injEq, Expirable.mk.injEq] at hcell'
    rw [← hcell'.2, ho, Option.some.injEq] at hae
    exact ⟨e, hae, by rw [hcell]; rfl⟩

/-- The key nodes that a purge leaves. -/
def unexpired (now : Int) (mem : Memory) (db : Db D) (n : Key × Nat) : Bool := !(recordAt mem db n.2).expired now

omit [LinearOrder D] in
/-- A key node has expired when its expirable has. -/
theorem unexpired_iff (h : Indexed mem db) {now : Int} {n : Key × Nat} (hn : n ∈ db.keyNodes.nodes) :
    unexpired now mem db n = true ↔ ∀ e ∈ db.expirables, ∀ ts, mem.expirables.cells e = some ⟨ts, n.2⟩ → now < ts := by
  have hts := expirable_eq_some h (mem_addrs hn)
  rw [unexpired, KeyNode.expired]
  split
  · rename_i ts hexp
    obtain ⟨e, he, hcell⟩ := (hts ts).1 hexp
    constructor
    · intro hnow e' he' ts' hcell'
      have hsame := (hts ts').2 ⟨e', he', hcell'⟩
      rw [hexp, Option.some.injEq] at hsame
      simp only [ge_iff_le, Bool.not_eq_true', decide_eq_false_iff_not] at hnow
      omega
    · intro hall
      have := hall e he ts hcell
      simp only [ge_iff_le, Bool.not_eq_true', decide_eq_false_iff_not]
      omega
  · rename_i hexp
    exact ⟨fun _ e he ts hcell => absurd ((hts ts).2 ⟨e, he, hcell⟩) (by rw [hexp]; simp), fun _ => rfl⟩

/-- What a purge leaves of a layer. -/
structure Purged (now : Int) (mem : Memory) (db : Db D) (mem' : Memory) (db' : Db D) : Prop where
  nodes : db'.keyNodes.nodes = db.keyNodes.nodes.filter (unexpired now mem db)
  cells : ∀ a ∈ db'.addrs, mem'.keyNodes.cells a = mem.keyNodes.cells a
  records : ∀ a ∈ db'.addrs, recordAt mem' db' a = recordAt mem db a

omit [LinearOrder D] in
/-- A layer whose expirables have not expired. -/
theorem Purged.refl (h : Indexed mem db) {now : Int}
    (hnow : ∀ e ∈ db.expirables, ∀ exp, mem.expirables.cells e = some exp → now < exp.ts) : Purged now mem db mem db :=
  ⟨(List.filter_eq_self.2 (fun _ hn => (unexpired_iff h hn).2 (fun e he _ hcell => hnow e he _ hcell))).symm,
    fun _ _ => rfl, fun _ _ => rfl⟩

omit [LinearOrder D] in
theorem Purged.addrs {mem' : Memory} {db' : Db D} {now : Int} (hpurged : Purged now mem db mem' db') {a : Nat}
    (ha : a ∈ db'.addrs) : a ∈ db.addrs := by
  rw [Db.addrs, hpurged.nodes] at ha
  exact (List.filter_sublist.map Prod.snd).subset ha

omit [LinearOrder D] in
/-- **An expired key node goes first**, then those of the rest. -/
theorem Freed.purged {mem₁ mem' : Memory} {db₁ db' : Db D} {now : Int} {n : Key × Nat}
    (hfreed : Freed mem db n.2 mem₁ db₁) (hnodup : db.addrs.Nodup) (hn : n ∈ db.keyNodes.nodes)
    (hrecord : ∀ a ∈ db₁.addrs, Layer.recordAt mem₁ db₁ a = Layer.recordAt mem db a)
    (hexpired : unexpired now mem db n = false) (hpurged : Purged now mem₁ db₁ mem' db') :
    Purged now mem db mem' db' := by
  refine ⟨?_, fun a ha => ?_, fun a ha => ?_⟩
  · rw [hpurged.nodes, hfreed.keyNodes, RbTree.remove, List.filter_filter]
    refine List.filter_congr (fun m hm => ?_)
    by_cases heq : m.2 = n.2
    · rw [decide_eq_true heq, Bool.not_true, Bool.and_false, key_unique hnodup hm hn heq, hexpired]
    · rw [decide_eq_false heq, Bool.not_false, Bool.and_true, unexpired, unexpired,
        hrecord m.2 (hfreed.mem_addrs.2 ⟨Layer.mem_addrs hm, heq⟩)]
  · rw [hpurged.cells a ha, hfreed.nodes, if_neg (hfreed.mem_addrs.1 (hpurged.addrs ha)).2]
  · rw [hpurged.records a ha, hrecord a (hpurged.addrs ha)]

omit [LinearOrder D] in
/-- **The records that a purge leaves.** -/
theorem Purged.records_eq {mem' : Memory} {db' : Db D} {now : Int} (hpurged : Purged now mem db mem' db') (key : Key) :
    Layer.records mem' db' key = (Layer.records mem db key).filter (fun keyNode => !keyNode.expired now) := by
  have hmem : ∀ n, n ∈ db'.keyNodes.nodes ↔ n ∈ db.keyNodes.nodes ∧ unexpired now mem db n = true := fun n => by
    rw [hpurged.nodes, List.mem_filter]
  cases hfind : db.keyNodes.find key with
  | none =>
    have hold := (RbTree.find_eq_none keyNodeCmp_total).1 hfind
    rw [records_eq_none.2 hold, records_eq_none.2 (fun n hn => hold n ((hmem n).1 hn).1)]
    rfl
  | some n =>
    obtain ⟨hn, rfl⟩ := (RbTree.find_eq_some keyNodeCmp_total).1 hfind
    rw [records_eq_some (a := n.2) hn]
    cases hleft : unexpired now mem db n with
    | true =>
      have hn' := (hmem n).2 ⟨hn, hleft⟩
      rw [records_eq_some (a := n.2) hn', hpurged.records n.2 (mem_addrs hn'), Option.filter_some]
      exact (if_pos hleft).symm
    | false =>
      rw [Option.filter_some, records_eq_none.2 (fun m hm hkey => ?_)]
      · exact (if_neg (by rw [← unexpired, hleft]; exact Bool.false_ne_true)).symm
      · obtain ⟨hold, hleft'⟩ := (hmem m).1 hm
        rw [node_unique hold hn hkey, hleft] at hleft'
        exact Bool.false_ne_true hleft'

omit [LinearOrder D] in
/-- Other layers are purged first. -/
theorem Purged.before {mem₁ mem' : Memory} {db' : Db D} {now : Int} (hpurged : Purged now mem₁ db mem' db')
    (h : Indexed mem db) (hsame : Same mem mem₁ db) : Purged now mem db mem' db' := by
  refine ⟨hpurged.nodes.trans (List.filter_congr (fun n hn => ?_)), fun a ha => ?_, fun a ha => ?_⟩
  · rw [unexpired, unexpired, hsame.recordAt h (mem_addrs hn)]
  · rw [hpurged.cells a ha, hsame.nodes a (hpurged.addrs ha)]
  · rw [hpurged.records a ha, hsame.recordAt h (hpurged.addrs ha)]

omit [LinearOrder D] in
/-- Other layers are purged next. -/
theorem Purged.after {mem₁ mem' : Memory} {db' : Db D} {now : Int} (hpurged : Purged now mem db mem₁ db')
    (h : Indexed mem₁ db') (hsame : Same mem₁ mem' db') : Purged now mem db mem' db' :=
  ⟨hpurged.nodes, fun a ha => (hsame.nodes a ha).trans (hpurged.cells a ha),
    fun a ha => (hsame.recordAt h ha).trans (hpurged.records a ha)⟩

omit [LinearOrder D] in
/-- **When the first expirable has not expired, none has.** -/
theorem Indexed.unexpired (h : Indexed mem db) {now : Int}
    (hhead : ∀ exp, db.expirables.head?.bind mem.expirables.cells = some exp → now < exp.ts) :
    ∀ e ∈ db.expirables, ∀ exp, mem.expirables.cells e = some exp → now < exp.ts := by
  intro e he exp hexp
  have hord := h.ordered
  cases hexps : db.expirables with
  | nil => exact absurd (hexps ▸ he) List.not_mem_nil
  | cons first rest =>
    have hfirst : first ∈ db.expirables := hexps ▸ List.mem_cons_self
    obtain ⟨a, -, ts, -, hcell, -⟩ := h.cells hfirst
    have hnow := hhead ⟨ts, a⟩ (by rw [hexps]; exact hcell)
    rw [hexps] at he hord
    rcases List.mem_cons.1 he with rfl | he
    · rw [hcell, Option.some.injEq] at hexp
      exact hexp ▸ hnow
    · have := expirableCmp_neg.1 ((List.pairwise_cons.1 hord).1 e he _ _ hcell hexp)
      dsimp only at this hnow
      omega

/-- **The loop of the purge** stops at the first expirable that has not expired. -/
theorem purgeExpiredKeysFromLayer_spec (now : Int) : ∀ (fuel : Nat) {mem : Memory} {db : Db D}, Kept env mem db →
    db.expirables.length < fuel → ∃ mem' db',
      LayerStore.purgeExpiredKeysFromLayer env now fuel db.expirables.head? mem db = some (mem', db') ∧
      Kept env mem' db' ∧ Step mem db mem' db' ∧ Purged now mem db mem' db'
  | 0, _, _, _, hfuel => absurd hfuel (Nat.not_lt_zero _)
  | fuel + 1, mem, db, h, hfuel => by
    cases hexps : db.expirables with
    | nil =>
      exact ⟨mem, db, rfl, h, .refl mem db,
        .refl h.toIndexed (by simp [hexps])⟩
    | cons e rest =>
      have he : e ∈ db.expirables := hexps ▸ List.mem_cons_self
      obtain ⟨a, ha, ts, hof, hcell, -⟩ := h.toIndexed.cells he
      have hnodup := h.toIndexed.nodup_expirables
      rw [hexps, List.nodup_cons] at hnodup
      rw [List.head?_cons, LayerStore.purgeExpiredKeysFromLayer, hcell]
      simp only [Option.bind_eq_bind, Option.bind_some]
      by_cases hlt : now < ts
      · rw [if_pos hlt]
        refine ⟨mem, db, rfl, h, .refl mem db, .refl h.toIndexed (h.toIndexed.unexpired (fun exp hexp => ?_))⟩
        rw [hexps, List.head?_cons, Option.bind_some, hcell, Option.some.injEq] at hexp
        exact hexp ▸ hlt
      · rw [if_neg hlt]
        obtain ⟨n, hn, rfl⟩ := List.mem_map.1 ha
        obtain ⟨node, hnode⟩ := h.toIndexed.node_at ha
        have hnodeExp : node.expirable = some e := by
          rw [Memory.expirableOf, hnode, Option.map_some, Option.some.injEq] at hof
          exact hof
        obtain ⟨mem₁, db₁, hdrop, h₁, hstep₁, hfreed, -, hrecord₁⟩ := dropKeyNode_spec h hn
        have hrest : db₁.expirables = rest := by
          rw [hfreed.expirables, hexps, List.filter_cons_of_neg (by simp [hof])]
          refine List.filter_eq_self.2 (fun e' he' => decide_eq_true (fun hae => ?_))
          rw [hof, Option.some.injEq, Option.some.injEq] at hae
          exact hnodup.1 (hae ▸ he')
        have hnext : (List.dropWhile (fun x => decide (x ≠ e)) (e :: rest)).tail.head? = db₁.expirables.head? := by
          rw [List.dropWhile_cons_of_neg (by simp), List.tail_cons, hrest]
        obtain ⟨mem', db', hpurge, h', hstep', hpurged⟩ := purgeExpiredKeysFromLayer_spec now fuel h₁ (by
          rw [hexps, List.length_cons] at hfuel
          rw [hrest]
          omega)
        simp only [hnode, Option.bind_some]
        rw [if_neg (not_not.2 hnodeExp), hexps, hnext]
        simp only [hdrop, Option.bind_some, hpurge]
        refine ⟨mem', db', rfl, h', hstep₁.trans hstep', hfreed.purged h.nodup hn hrecord₁ ?_ hpurged⟩
        rw [← Bool.not_eq_true, unexpired_iff h.toIndexed hn]
        exact fun hall => hlt (hall e he ts hcell)

/-- **A purged key node is gone**: from the keys, the quad-tree, the expirables and the memory of the layer. -/
theorem Purged.gone {mem' : Memory} {db' : Db D} {now : Int} (hpurged : Purged now mem db mem' db') (h : Indexed mem db)
    (h' : Kept env mem' db') {n : Key × Nat} (hn : n ∈ db.keyNodes.nodes) (hexpired : unexpired now mem db n = false) :
    n.2 ∉ db'.addrs ∧ db'.panDb.slots n.2 = none ∧
      (∀ ptr slot, db'.panDb.slot ptr = some slot → slot.keyNode ≠ some n.2) ∧
      ∀ e, mem.expirableOf n.2 = some (some e) → e ∉ db'.expirables := by
  have hgone : n.2 ∉ db'.addrs := by
    intro ha
    rw [Db.addrs, hpurged.nodes] at ha
    obtain ⟨m, hm, heq⟩ := List.mem_map.1 ha
    obtain ⟨hold, hleft⟩ := List.mem_filter.1 hm
    rw [key_unique h.nodup hold hn heq, hexpired] at hleft
    exact Bool.false_ne_true hleft
  have hslots : db'.panDb.slots n.2 = none := by
    by_contra hsome
    exact hgone (h'.slots _ hsome)
  obtain ⟨cell, htree⟩ := h'.tree
  refine ⟨hgone, hslots, fun ptr slot hslot hkey => ?_, fun e he hmem => ?_⟩
  · obtain ⟨b, hb, hentry⟩ := (slot_eq_some htree).1 hslot
    obtain ⟨-, -, k, hk, -, -, hptr⟩ := htree.located.entry hb _ hentry
    rw [hkey, Option.some.injEq] at hk
    rw [← hk, hslots] at hptr
    exact Option.some_ne_none _ (hptr (fun hf => hf)).symm
  · obtain ⟨a, ha, hae⟩ := h'.entry e hmem
    have hof : mem.expirableOf a = some (some e) :=
      (congrArg (Option.map KeyNode.expirable) (hpurged.cells a ha)).symm.trans hae
    exact hgone (h.unique (hpurged.addrs ha) (mem_addrs hn) hof he ▸ ha)

end

/-! ## The end of a layer -/

/-- **All key nodes of a layer are freed.** -/
theorem freePanDbKeyNodes_spec : ∀ (nodes : List (Key × Nat)) {mem : Memory} {db : Db D}, Indexed mem db →
    db.keyNodes.nodes = nodes → ∃ mem' db', freePanDbKeyNodes nodes mem db = some (mem', db') ∧ Step mem db mem' db'
  | [], mem, db, _, _ => ⟨mem, db, rfl, .refl mem db⟩
  | (key, a) :: nodes, mem, db, h, hnodes => by
    have ha : a ∈ db.addrs := mem_addrs (n := (key, a)) (hnodes ▸ List.mem_cons_self)
    obtain ⟨mem₁, db₁, hfree, -, hfreed⟩ := h.freeKeyNode_spec ha (db.panDb.clearSlot a)
      (Function.update_self ..)
    have hrest : db₁.keyNodes.nodes = nodes := by
      have hnodup := h.nodup
      rw [Db.addrs, hnodes, List.map_cons, List.nodup_cons] at hnodup
      have hremove : (db.keyNodes.remove (fun n => n.2 = a)).nodes = db.keyNodes.nodes.filter (fun n =>
        !decide (n.2 = a)) := rfl
      rw [hfreed.keyNodes, hremove, hnodes, List.filter_cons_of_neg (by simp)]
      refine List.filter_eq_self.2 (fun n hn => ?_)
      rw [Bool.not_eq_true', decide_eq_false_iff_not]
      exact fun heq => hnodup.1 (List.mem_map.2 ⟨n, hn, heq⟩)
    obtain ⟨mem', db', hfree', hstep'⟩ := freePanDbKeyNodes_spec nodes (hfreed.indexed h ha) hrest
    rw [freePanDbKeyNodes, hfree]
    exact ⟨mem', db', hfree', (hfreed.step h ha).trans hstep'⟩

end Layer

end Pincaster
