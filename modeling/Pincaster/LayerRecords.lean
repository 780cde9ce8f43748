import Pincaster.ExpirableIndex
import Pincaster.Store
/-!
# LayerRecords — the operations on a layer, by its records

A record of a layer is what its quad-tree, its key nodes and its expirables say of one key.  Each operation changes one
record, keeps the three indexes in step (`Kept`), and leaves the memory of the other layers alone (`Step`).
-/
namespace Pincaster

open Lib (Heap RbTree)

variable {D : Type}

namespace Layer

/-! ## Records -/

/-- The record of a key node. -/
def recordAt (mem : Memory) (db : Db D) (a : Nat) : Pincaster.KeyNode D where
  slot := db.panDb.position a
  properties := (mem.keyNodes.cells a).bind KeyNode.properties
  expirable := (mem.expirableOf a).join.bind (fun e => (mem.expirables.cells e).map Expirable.ts)

/-- The records of a layer. -/
def records (mem : Memory) (db : Db D) : KeyNodes D := fun key =>
  (db.keyNodes.find key).map (fun n => recordAt mem db n.2)

/-- What an operation on a layer leaves alone: the memory of the others. -/
structure Step (mem : Memory) (db : Db D) (mem' : Memory) (db' : Db D) : Prop where
  keyNodes : ∀ a, a ∉ db.addrs → a < mem.keyNodes.brk → mem'.keyNodes.cells a = mem.keyNodes.cells a
  expirables : ∀ e, e ∉ db.expirables → e < mem.expirables.brk → mem'.expirables.cells e = mem.expirables.cells e
  addrs : ∀ a ∈ db'.addrs, a ∈ db.addrs ∨ mem.keyNodes.brk ≤ a
  entries : ∀ e ∈ db'.expirables, e ∈ db.expirables ∨ mem.expirables.brk ≤ e
  keyNodesBrk : mem.keyNodes.brk ≤ mem'.keyNodes.brk
  expirablesBrk : mem.expirables.brk ≤ mem'.expirables.brk

section
variable {mem mem₁ mem' : Memory} {db db₁ db' : Db D}

theorem Step.refl (mem : Memory) (db : Db D) : Step mem db mem db :=
  ⟨fun _ _ _ => rfl, fun _ _ _ => rfl, fun _ h => .inl h, fun _ h => .inl h, Nat.le_refl _, Nat.le_refl _⟩

theorem Step.trans (h : Step mem db mem₁ db₁) (h' : Step mem₁ db₁ mem' db') : Step mem db mem' db' := by
  refine ⟨fun a ha hlt => ?_, fun e he hlt => ?_, fun a ha => ?_, fun e he => ?_, h.keyNodesBrk.trans h'.keyNodesBrk,
    h.expirablesBrk.trans h'.expirablesBrk⟩
  · have hnot : a ∉ db₁.addrs := fun hmem => (h.addrs a hmem).elim ha (fun hle => absurd hlt (by omega))
    exact (h'.keyNodes a hnot (Nat.lt_of_lt_of_le hlt h.keyNodesBrk)).trans (h.keyNodes a ha hlt)
  · have hnot : e ∉ db₁.expirables := fun hmem => (h.entries e hmem).elim he (fun hle => absurd hlt (by omega))
    exact (h'.expirables e hnot (Nat.lt_of_lt_of_le hlt h.expirablesBrk)).trans (h.expirables e he hlt)
  · rcases h'.addrs a ha with hmem | hle
    · exact h.addrs a hmem
    · exact .inr (h.keyNodesBrk.trans hle)
  · rcases h'.entries e he with hmem | hle
    · exact h.entries e hmem
    · exact .inr (h.expirablesBrk.trans hle)

/-- Nothing but the quad-tree changes. -/
theorem Step.of_panDb (hnodes : db'.keyNodes = db.keyNodes) (hexp : db'.expirables = db.expirables) :
    Step mem db mem db' :=
  ⟨fun _ _ _ => rfl, fun _ _ _ => rfl, fun a h => .inl (by rwa [Db.addrs, hnodes] at h), fun e h => .inl (hexp ▸ h),
    Nat.le_refl _, Nat.le_refl _⟩

theorem mem_addrs {n : Key × Nat} (h : n ∈ db.keyNodes.nodes) : n.2 ∈ db.addrs := List.mem_map_of_mem h

/-- The key of an address. -/
theorem key_unique (h : db.addrs.Nodup) {m n : Key × Nat} (hm : m ∈ db.keyNodes.nodes) (hn : n ∈ db.keyNodes.nodes)
    (heq : m.2 = n.2) : m = n := List.inj_on_of_nodup_map h hm hn heq

/-- The key node of a key. -/
theorem node_unique {m n : Key × Nat} (hm : m ∈ db.keyNodes.nodes) (hn : n ∈ db.keyNodes.nodes) (heq : m.1 = n.1) :
    m = n := by
  have hfound := (RbTree.find_eq_some keyNodeCmp_total).2 ⟨hm, heq⟩
  rw [(RbTree.find_eq_some keyNodeCmp_total).2 ⟨hn, rfl⟩, Option.some.injEq] at hfound
  exact hfound.symm

theorem records_eq_some {key : Key} {a : Nat} (h : (key, a) ∈ db.keyNodes.nodes) :
    records mem db key = some (recordAt mem db a) := by
  rw [records, (RbTree.find_eq_some keyNodeCmp_total).2 ⟨h, rfl⟩]
  rfl

theorem records_eq_none {key : Key} : records mem db key = none ↔ ∀ n ∈ db.keyNodes.nodes, n.1 ≠ key := by
  rw [records, Option.map_eq_none_iff]
  exact RbTree.find_eq_none keyNodeCmp_total

/-- **The record of one key node changes.** -/
theorem records_change {key : Key} {a : Nat} (hnodup : db.addrs.Nodup) (hn : (key, a) ∈ db.keyNodes.nodes)
    (hnodes : db'.keyNodes = db.keyNodes)
    (hother : ∀ a' ∈ db.addrs, a' ≠ a → recordAt mem' db' a' = recordAt mem db a') :
    records mem' db' = Function.update (records mem db) key (some (recordAt mem' db' a)) := by
  funext k
  by_cases hk : k = key
  · rw [hk, Function.update_self]
    exact records_eq_some (hnodes ▸ hn)
  · rw [Function.update_of_ne hk, records, records, hnodes]
    cases hfind : db.keyNodes.find k with
    | none => rfl
    | some n =>
      obtain ⟨hmem, hkey⟩ := (RbTree.find_eq_some keyNodeCmp_total).1 hfind
      have hne : n.2 ≠ a := fun heq => hk (hkey ▸ congrArg Prod.fst (key_unique hnodup hmem hn heq))
      exact congrArg some (hother n.2 (mem_addrs hmem) hne)

/-- A record depends on its position, its key node and its expirable. -/
theorem recordAt_congr {a : Nat} (hpos : db'.panDb.position a = db.panDb.position a)
    (hcell : mem'.keyNodes.cells a = mem.keyNodes.cells a)
    (hexp : ∀ e, mem.expirableOf a = some (some e) → mem'.expirables.cells e = mem.expirables.cells e) :
    recordAt mem' db' a = recordAt mem db a := by
  have hof : mem'.expirableOf a = mem.expirableOf a := congrArg (Option.map KeyNode.expirable) hcell
  rw [recordAt, recordAt, hpos, hcell, hof]
  congr 1
  cases he : mem.expirableOf a with
  | none => rfl
  | some o =>
    cases o with
    | none => rfl
    | some e => exact congrArg (Option.map Expirable.ts) (hexp e he)

theorem recordAt_of_records {f : KeyNodes D} {key : Key} {a : Nat} {record : Pincaster.KeyNode D}
    (hn : (key, a) ∈ db.keyNodes.nodes) (h : records mem db = Function.update f key (some record)) :
    recordAt mem db a = record := by
  have hself := congrFun h key
  rwa [records_eq_some hn, Function.update_self, Option.some.injEq] at hself

/-- **The position of one record changes.** -/
theorem records_position (mem : Memory) {panDb : PanDB D Nat} {key : Key} {a : Nat} {slot : Option (Position2D D)}
    (hnodup : db.addrs.Nodup) (hn : (key, a) ∈ db.keyNodes.nodes)
    (hposition : panDb.position = Function.update db.panDb.position a slot) :
    records mem { db with panDb } =
      Function.update (records mem db) key (some { recordAt mem db a with slot }) := by
  have hother : ∀ a' ∈ db.addrs, a' ≠ a → recordAt mem { db with panDb } a' = recordAt mem db a' := fun a' _ hne =>
    recordAt_congr (by rw [hposition, Function.update_of_ne hne]) rfl (fun _ _ => rfl)
  have hnodes : ({ db with panDb } : Db D).keyNodes = db.keyNodes := rfl
  refine (records_change hnodup hn hnodes hother).trans ?_
  rw [recordAt, hposition, Function.update_self]
  rfl

end

/-! ## The indexes of a layer -/

variable [LinearOrder D]

/-- **The three indexes of a layer are in step.** -/
structure Kept (env : PanDbEnv D Nat) (mem : Memory) (db : Db D) : Prop extends Indexed mem db where
  tree : ∃ cell, Stable env db.panDb db.panDb.position cell
  slots : ∀ a, db.panDb.slots a ≠ none → a ∈ db.addrs

variable {env : PanDbEnv D Nat} {mem mem' : Memory} {db db' : Db D}

theorem initDb_kept (env : PanDbEnv D Nat) (mem : Memory) : Kept env mem (initDb : Db D) := by
  refine ⟨⟨List.nodup_nil, ?_, ?_, ?_, List.Pairwise.nil⟩, ?_, ?_⟩
  · exact fun a ha => absurd ha List.not_mem_nil
  · exact fun a ha => absurd ha List.not_mem_nil
  · exact fun e he => absurd he List.not_mem_nil
  · have h := initPanDb_stable (κ := Nat) env
    exact ⟨_, (position_of_stable h).symm ▸ h⟩
  · exact fun a ha => absurd rfl ha

/-- The key nodes and the expirables of a layer are left alone. -/
structure Same (mem mem' : Memory) (db : Db D) : Prop where
  nodes : ∀ a ∈ db.addrs, mem'.keyNodes.cells a = mem.keyNodes.cells a
  expirables : ∀ e ∈ db.expirables, mem'.expirables.cells e = mem.expirables.cells e

omit [LinearOrder D] in
theorem Same.refl (mem : Memory) (db : Db D) : Same mem mem db := ⟨fun _ _ => rfl, fun _ _ => rfl⟩

omit [LinearOrder D] in
theorem Same.trans {mem₁ : Memory} (h : Same mem mem₁ db) (h' : Same mem₁ mem' db) : Same mem mem' db :=
  ⟨fun a ha => (h'.nodes a ha).trans (h.nodes a ha), fun e he => (h'.expirables e he).trans (h.expirables e he)⟩

omit [LinearOrder D] in
theorem Same.indexed (hsame : Same mem mem' db) (h : Indexed mem db) : Indexed mem' db :=
  h.congr rfl rfl (fun a ha => congrArg (Option.map KeyNode.expirable) (hsame.nodes a ha)) hsame.expirables

theorem Same.kept (hsame : Same mem mem' db) (h : Kept env mem db) : Kept env mem' db :=
  ⟨hsame.indexed h.toIndexed, h.tree, h.slots⟩

omit [LinearOrder D] in
theorem Same.recordAt (hsame : Same mem mem' db) (h : Indexed mem db) {a : Nat} (ha : a ∈ db.addrs) :
    recordAt mem' db a = recordAt mem db a :=
  recordAt_congr rfl (hsame.nodes a ha) (fun e he => hsame.expirables e (h.back a ha e he).1)

omit [LinearOrder D] in
theorem Same.records (hsame : Same mem mem' db) (h : Indexed mem db) : records mem' db = records mem db := by
  funext k
  rw [Layer.records, Layer.records]
  cases hfind : db.keyNodes.find k with
  | none => rfl
  | some n =>
    obtain ⟨hmem, -⟩ := (RbTree.find_eq_some keyNodeCmp_total).1 hfind
    exact congrArg some (hsame.recordAt h (mem_addrs hmem))

omit [LinearOrder D] in
/-- **An operation on one layer leaves another one as it is.** -/
theorem Step.same {other : Db D} (hstep : Step mem db mem' db') (hdb : Indexed mem db) (h : Indexed mem other)
    (hapart : ∀ a ∈ other.addrs, a ∉ db.addrs) : Same mem mem' other := by
  refine ⟨fun a ha => hstep.keyNodes a (hapart a ha) (h.lt_brk ha), fun e he => ?_⟩
  refine hstep.expirables e (fun hmem => ?_) (h.entry_lt_brk he)
  obtain ⟨a, ha, ts, -, hts, -⟩ := h.cells he
  obtain ⟨a', ha', ts', -, hts', -⟩ := hdb.cells hmem
  rw [hts, Option.some.injEq, Expirable.mk.injEq] at hts'
  exact hapart a ha (hts'.2 ▸ ha')

/-! ## Operations -/

/-- **A key node is found or created.** -/
theorem createKeyNode_spec (h : Kept env mem db) (key : Key) : ∃ mem' db' a,
    createKeyNode mem db key = (mem', db', (key, a)) ∧ Kept env mem' db' ∧ Step mem db mem' db' ∧
    (key, a) ∈ db'.keyNodes.nodes ∧
    records mem' db' = Function.update (records mem db) key (some ((records mem db key).getD newKeyNode)) := by
  unfold createKeyNode
  split
  · rename_i n hfind
    obtain ⟨hmem, rfl⟩ := (RbTree.find_eq_some keyNodeCmp_total).1 hfind
    refine ⟨mem, db, n.2, rfl, h, .refl mem db, hmem, ?_⟩
    rw [records_eq_some (a := n.2) hmem, Option.getD_some, ← records_eq_some hmem, Function.update_eq_self]
  · rename_i hfind
    have hnone := (RbTree.find_eq_none keyNodeCmp_total).1 hfind
    have hfresh : mem.keyNodes.brk ∉ db.addrs := fun hmem => absurd (h.toIndexed.lt_brk hmem) (lt_irrefl _)
    have hslot : db.panDb.slots mem.keyNodes.brk = none := by
      by_contra hsome
      exact hfresh (h.slots _ hsome)
    have hclear : db.panDb.clearSlot mem.keyNodes.brk = db.panDb := by
      rw [PanDB.clearSlot, ← hslot, Function.update_eq_self]
    dsimp only
    rw [hclear]
    generalize hdb' :
      ({ db with keyNodes := db.keyNodes.insert keyNodeCmp_total (key, mem.keyNodes.brk) hnone } : Db D) = db'
    have hnodes : ∀ n, n ∈ db'.keyNodes.nodes ↔ n = (key, mem.keyNodes.brk) ∨ n ∈ db.keyNodes.nodes := fun n => by
      rw [← hdb']
      exact RbTree.mem_insert (h := hnone) keyNodeCmp_total
    have hperm : db'.addrs.Perm (mem.keyNodes.brk :: db.addrs) := by
      rw [← hdb']
      exact (RbTree.place_perm (key, mem.keyNodes.brk) db.keyNodes.nodes).map Prod.snd
    have hpanDb : db'.panDb = db.panDb := by rw [← hdb']
    have hexp : db'.expirables = db.expirables := by rw [← hdb']
    refine ⟨{ mem with keyNodes := mem.keyNodes.alloc ⟨none, none⟩ }, db', mem.keyNodes.brk, rfl, ?_, ?_,
      (hnodes _).2 (.inl rfl), ?_⟩
    · refine ⟨h.toIndexed.create hfresh hperm hexp, hpanDb ▸ h.tree, fun a ha => ?_⟩
      rw [hpanDb] at ha
      exact hperm.mem_iff.2 (List.mem_cons_of_mem _ (h.slots a ha))
    · refine ⟨fun a _ hlt => ?_, fun _ _ _ => rfl, fun a ha => ?_, fun e he => .inl (hexp ▸ he), Nat.le_succ _,
        Nat.le_refl _⟩
      · exact if_neg (by omega)
      · exact (List.mem_cons.1 (hperm.mem_iff.1 ha)).elim (fun heq => .inr heq.ge) .inl
    · funext k
      by_cases hk : k = key
      · rw [hk, Function.update_self, records_eq_some ((hnodes _).2 (.inl rfl)), records_eq_none.2 hnone,
          Option.getD_none, recordAt, hpanDb, PanDB.position, hslot]
        simp [Memory.expirableOf, newKeyNode]
      · rw [Function.update_of_ne hk, records, records]
        have hfind : db'.keyNodes.find k = db.keyNodes.find k := by
          refine Option.ext (fun n => ?_)
          rw [RbTree.find_eq_some keyNodeCmp_total, RbTree.find_eq_some keyNodeCmp_total, hnodes]
          refine and_congr_left (fun hkey => or_iff_right (fun heq => hk ?_))
          rw [← hkey, heq]
        rw [hfind]
        cases hn : db.keyNodes.find k with
        | none => rfl
        | some n =>
          obtain ⟨hmem, -⟩ := (RbTree.find_eq_some keyNodeCmp_total).1 hn
          refine congrArg some (recordAt_congr (by rw [hpanDb]) (if_neg ?_) (fun _ _ => rfl))
          exact fun heq => hfresh (heq ▸ mem_addrs hmem)

theorem slots_eq_none_iff {panDb : PanDB D Nat} {cell : Nat → Rectangle2D D} (h : Stable env panDb panDb.position cell)
    {a : Nat} : panDb.slots a = none ↔ panDb.position a = none := h.located.slots_eq_none (fun hf => hf)

/-- A quad-tree with the positions of key nodes. -/
theorem Kept.of_positions {panDb : PanDB D Nat} {pos : Nat → Option (Position2D D)} {cell : Nat → Rectangle2D D}
    (h : Indexed mem db) (htree : Stable env panDb pos cell) (hpos : ∀ a, pos a ≠ none → a ∈ db.addrs) :
    Kept env mem { db with panDb } ∧ panDb.position = pos := by
  have hposition := position_of_stable htree
  refine ⟨⟨h.congr rfl rfl (fun _ _ => rfl) (fun _ _ => rfl), ⟨cell, hposition.symm ▸ htree⟩, fun a ha => ?_⟩,
    hposition⟩
  exact hpos a (fun hnone => ha ((htree.located.slots_eq_none (fun hf => hf)).2 hnone))

theorem Kept.position_addrs (h : Kept env mem db) {a : Nat} (ha : db.panDb.position a ≠ none) : a ∈ db.addrs := by
  obtain ⟨cell, htree⟩ := h.tree
  exact h.slots a (fun hnone => ha ((slots_eq_none_iff htree).1 hnone))

variable [Sub D]

omit [Sub D] in
/-- **A slot is removed, if there is one.** -/
theorem removeSlot_spec (h : Kept env mem db) (a : Nat) : ∃ panDb, removeSlot env db a = some { db with panDb } ∧
    Kept env mem { db with panDb } ∧ panDb.position = Function.update db.panDb.position a none := by
  obtain ⟨cell, htree⟩ := h.tree
  unfold removeSlot
  split
  · rename_i hnone
    refine ⟨db.panDb, rfl, h, ?_⟩
    rw [← (slots_eq_none_iff htree).1 hnone, Function.update_eq_self]
  · rename_i hsome
    obtain ⟨panDb, cell', hrem, h', -⟩ := removeEntryFromKeyNode_spec htree hsome
    obtain ⟨hkept, hposition⟩ := Kept.of_positions h.toIndexed h' (fun a' ha' => by
      by_cases haa : a' = a
      · rw [haa, Function.update_self] at ha'
        exact absurd rfl ha'
      · rw [Function.update_of_ne haa] at ha'
        exact h.position_addrs ha')
    rw [hrem]
    exact ⟨_, rfl, hkept, hposition⟩

/-- **A slot is added.** -/
theorem addSlot_kept (h : Kept env mem db) {a : Nat} (ha : a ∈ db.addrs) (hnone : db.panDb.position a = none)
    {position : Position2D D} (hin : positionIsInRect position env.qbounds) :
    ∃ panDb, addSlot env db.panDb ⟨position, some a, none⟩ = some panDb ∧ Kept env mem { db with panDb } ∧
      panDb.position = Function.update db.panDb.position a (some position) := by
  obtain ⟨cell, htree⟩ := h.tree
  obtain ⟨panDb, cell', hadd, h', -⟩ := addSlot_spec htree
    (show (⟨position, some a, none⟩ : Slot D Nat).keyNode = some a from rfl) hnone hin
  obtain ⟨hkept, hposition⟩ := Kept.of_positions h.toIndexed h' (fun a' ha' => by
    by_cases haa : a' = a
    · exact haa ▸ ha
    · rw [Function.update_of_ne haa] at ha'
      exact h.position_addrs ha')
  exact ⟨panDb, hadd, hkept, hposition⟩

/-- The position that a PUT leaves. -/
def putSlotOf (env : PanDbEnv D Nat) (putOp : RecordsPutOp D) (slot : Option (Position2D D)) : Option (Position2D D) :=
  if putOp.positionSet && positionIsInRect putOp.position env.qbounds then some putOp.position else slot

end Layer

open Layer in
/-- **The position of a PUT.** -/
theorem putPosition_spec [LinearOrder D] [Sub D] {env : PanDbEnv D Nat} {mem : Memory} {db : Db D} (h : Kept env mem db)
    {a : Nat} (ha : a ∈ db.addrs) (putOp : RecordsPutOp D) :
    ∃ panDb, LayerStore.putPosition env putOp db a = some { db with panDb } ∧ Kept env mem { db with panDb } ∧
      panDb.position = Function.update db.panDb.position a (putSlotOf env putOp (db.panDb.position a)) := by
  obtain ⟨cell, htree⟩ := h.tree
  unfold LayerStore.putPosition putSlotOf
  split
  · rename_i hset
    have hin : positionIsInRect putOp.position env.qbounds := by
      rw [Bool.and_eq_true] at hset
      exact of_decide_eq_true hset.2
    cases hslots : db.panDb.slots a with
    | none =>
      obtain ⟨panDb, hadd, hkept, hposition⟩ := addSlot_kept h ha ((slots_eq_none_iff htree).1 hslots) hin
      rw [hadd]
      exact ⟨panDb, rfl, hkept, hposition⟩
    | some ptr =>
      obtain ⟨b, slot, hb, hmem, hkey, -⟩ := htree.located.key (fun hf => hf) hslots
      obtain ⟨-, -, k, hk, -, hpos, -⟩ := htree.located.entry hb _ hmem
      rw [hkey, Option.some.injEq] at hk
      subst hk
      simp only [(slot_eq_some htree).2 ⟨b, hb, hmem⟩, Option.bind_eq_bind, Option.bind_some]
      split
      · rename_i hsame
        refine ⟨db.panDb, rfl, h, ?_⟩
        have heq : slot.position = putOp.position := by
          obtain ⟨hlat, hlon⟩ := hsame
          cases hp : slot.position
          cases hq : putOp.position
          rw [hp, hq] at hlat hlon
          exact congrArg₂ Position2D.mk hlat hlon
        rw [← heq, ← hpos, Function.update_eq_self]
      · obtain ⟨panDb₁, hrem, hkept₁, hposition₁⟩ := removeSlot_spec h a
        obtain ⟨panDb, hadd, hkept, hposition⟩ := addSlot_kept hkept₁ ha (by
          rw [hposition₁, Function.update_self]) hin
        rw [hrem]
        simp only [Option.bind_some, hadd]
        refine ⟨panDb, rfl, hkept, ?_⟩
        rw [hposition, hposition₁, Function.update_idem]
  · rw [Function.update_eq_self]
    exact ⟨db.panDb, rfl, h, rfl⟩

/-! ## The expirable of a PUT -/

namespace Layer

variable [LinearOrder D] {env : PanDbEnv D Nat} {mem mem' : Memory} {db db' : Db D}

/-- **The expirable of one record changes.** -/
theorem Kept.setExpirable (h : Kept env mem db) (mem' : Memory) {key : Key} {a : Nat}
    (hn : (key, a) ∈ db.keyNodes.nodes) {l : List Nat} {o : Option Nat}
    (hnodes : ∀ a', a' ≠ a → mem'.keyNodes.cells a' = mem.keyNodes.cells a')
    (hproperties : (mem'.keyNodes.cells a).bind KeyNode.properties = (mem.keyNodes.cells a).bind KeyNode.properties)
    (hself : mem'.expirableOf a = some o)
    (hcells : ∀ e ∈ db.expirables, mem.expirableOf a ≠ some (some e) →
      mem'.expirables.cells e = mem.expirables.cells e)
    (hnew : ∀ e, o = some e → ∃ ts, mem'.expirables.cells e = some ⟨ts, a⟩ ∧ ts ≠ 0)
    (hmem : ∀ e, e ∈ l ↔ e ∈ db.expirables ∧ mem.expirableOf a ≠ some (some e) ∨ o = some e)
    (hord : l.Pairwise (Before mem')) :
    Kept env mem' { db with expirables := l } ∧
      records mem' { db with expirables := l } = Function.update (records mem db) key
        (some { recordAt mem db a with
          expirable := o.bind (fun e => (mem'.expirables.cells e).map Expirable.ts) }) := by
  have ha := mem_addrs hn
  have hother : ∀ a' ∈ db.addrs, a' ≠ a → mem'.expirableOf a' = mem.expirableOf a' := fun a' _ hne =>
    congrArg (Option.map KeyNode.expirable) (hnodes a' hne)
  have hkept : Kept env mem' { db with expirables := l } :=
    ⟨h.toIndexed.replace rfl rfl hother hcells hself hnew ha hmem hord, h.tree, h.slots⟩
  have hrecord : ∀ a' ∈ db.addrs, a' ≠ a → recordAt mem' { db with expirables := l } a' = recordAt mem db a' := by
    intro a' ha' hne
    refine recordAt_congr rfl (hnodes a' hne) (fun e he => hcells e (h.back a' ha' e he).1 (fun hae => hne ?_))
    exact h.toIndexed.unique ha' ha he hae
  refine ⟨hkept, (records_change h.nodup hn rfl hrecord).trans ?_⟩
  rw [recordAt, hproperties, hself]
  rfl

omit [LinearOrder D] in
/-- The time of a record. -/
theorem recordAt_expirable {a : Nat} {o : Option Nat} (ho : mem.expirableOf a = some o) :
    (recordAt mem db a).expirable = o.bind (fun e => (mem.expirables.cells e).map Expirable.ts) := by
  rw [recordAt, ho]
  rfl

omit [LinearOrder D] in
theorem update_recordAt {key : Key} {a : Nat} (hn : (key, a) ∈ db.keyNodes.nodes) {ts : Option Int}
    (hts : (recordAt mem db a).expirable = ts) :
    records mem db = Function.update (records mem db) key (some { recordAt mem db a with expirable := ts }) := by
  subst hts
  rw [← records_eq_some hn, Function.update_eq_self]

/-- The expirable of a key node is freed. -/
theorem Kept.clearExpirable (h : Kept env mem db) {key : Key} {a e : Nat} (hn : (key, a) ∈ db.keyNodes.nodes)
    (he : mem.expirableOf a = some (some e)) :
    let mem' : Memory :=
      ⟨mem.keyNodes.modify a (fun node => { node with expirable := none }), mem.expirables.free e⟩
    let db' := { db with expirables := removeExpirableFromTree e db.expirables }
    Kept env mem' db' ∧ Step mem db mem' db' ∧
      records mem' db' = Function.update (records mem db) key (some { recordAt mem db a with expirable := none }) := by
  intro mem' db'
  have ha := mem_addrs hn
  obtain ⟨node, hnode⟩ := h.toIndexed.node_at ha
  have hmemE := (h.back a ha e he).1
  have hcellA : mem'.keyNodes.cells a = some { node with expirable := none } := by
    rw [Lib.Heap.cells_modify, if_pos rfl, hnode, Option.map_some]
  have hcells : ∀ e' ∈ db.expirables, mem.expirableOf a ≠ some (some e') →
      mem'.expirables.cells e' = mem.expirables.cells e' := fun e' _ hne =>
    if_neg (fun heq : e' = e => hne (heq ▸ he))
  have hmem : ∀ e', e' ∈ removeExpirableFromTree e db.expirables ↔
      e' ∈ db.expirables ∧ mem.expirableOf a ≠ some (some e') ∨ none = some e' := fun e' => by
    rw [h.toIndexed.mem_erase he]
    simp
  obtain ⟨hkept, hrecords⟩ := h.setExpirable mem' hn (o := none) (fun a' hne => if_neg hne)
    (by rw [hcellA, hnode]; rfl) (congrArg (Option.map KeyNode.expirable) hcellA) hcells
    (fun _ hnone => by cases hnone) hmem
    (h.toIndexed.before List.erase_sublist (fun e' he' => ((h.toIndexed.mem_erase he).1 he').2) hcells)
  refine ⟨hkept, ⟨fun a' ha' _ => if_neg ?_, fun e' he' _ => if_neg ?_, fun _ => .inl, fun e' he' => .inl ?_,
    Nat.le_refl _, Nat.le_refl _⟩, hrecords⟩
  · rintro rfl
    exact ha' ha
  · rintro rfl
    exact he' hmemE
  · exact List.mem_of_mem_erase he'

/-- A key node without an expirable gets one. -/
theorem Kept.newExpirable (h : Kept env mem db) {key : Key} {a : Nat} (hn : (key, a) ∈ db.keyNodes.nodes)
    (hnone : mem.expirableOf a = some none) {ts : Int} (hts : ts ≠ 0) :
    let mem' : Memory :=
      ⟨mem.keyNodes.modify a (fun node => { node with expirable := some mem.expirables.brk }),
        mem.expirables.alloc ⟨ts, a⟩⟩
    ∃ mem₁ db', (do
      let expirables ← addExpirableToTree mem' mem.expirables.brk ⟨ts, a⟩ db.expirables
      some (mem', { db with expirables })) = some (mem₁, db') ∧ Kept env mem₁ db' ∧ Step mem db mem₁ db' ∧
      records mem₁ db' =
        Function.update (records mem db) key (some { recordAt mem db a with expirable := some ts }) := by
  intro mem'
  have ha := mem_addrs hn
  obtain ⟨node, hnode⟩ := h.toIndexed.node_at ha
  have hcellA : mem'.keyNodes.cells a = some { node with expirable := some mem.expirables.brk } := by
    rw [Lib.Heap.cells_modify, if_pos rfl, hnode, Option.map_some]
  have hcellE : mem'.expirables.cells mem.expirables.brk = some ⟨ts, a⟩ := if_pos rfl
  have hnot : ∀ e', mem.expirableOf a ≠ some (some e') := fun e' => by
    rw [hnone]
    simp
  have hcells : ∀ e' ∈ db.expirables, mem.expirableOf a ≠ some (some e') →
      mem'.expirables.cells e' = mem.expirables.cells e' := fun e' he' _ =>
    if_neg (h.toIndexed.entry_lt_brk he').ne
  obtain ⟨l, hadd, hperm, hord⟩ := h.toIndexed.add (.refl _) (fun e' _ => hnot e') hcells hcellE
  have hmem : ∀ e', e' ∈ l ↔ e' ∈ db.expirables ∧ mem.expirableOf a ≠ some (some e') ∨
      some mem.expirables.brk = some e' := fun e' => by
    rw [hperm.mem_iff, List.mem_cons, and_iff_left (hnot e'), Option.some.injEq, or_comm, eq_comm]
  obtain ⟨hkept, hrecords⟩ := h.setExpirable mem' hn (fun a' hne => if_neg hne)
    (by rw [hcellA, hnode]; rfl) (congrArg (Option.map KeyNode.expirable) hcellA) hcells
    (fun e' he' => ⟨ts, by rw [← Option.some.inj he', hcellE], hts⟩) hmem hord
  rw [hadd]
  refine ⟨mem', { db with expirables := l }, rfl, hkept, ⟨fun a' ha' _ => if_neg ?_, fun e' _ hlt => if_neg hlt.ne,
    fun _ => .inl, fun e' he' => ?_, Nat.le_refl _, Nat.le_succ _⟩, ?_⟩
  · rintro rfl
    exact ha' ha
  · exact (List.mem_cons.1 (hperm.mem_iff.1 he')).elim (fun heq => .inr heq.ge) .inl
  · rw [hrecords, Option.bind_some, hcellE]
    rfl

/-- The time of an expirable changes, and its place with it. -/
theorem Kept.changeExpirable (h : Kept env mem db) {key : Key} {a e : Nat} (hn : (key, a) ∈ db.keyNodes.nodes)
    (he : mem.expirableOf a = some (some e)) {ts : Int} (hts : ts ≠ 0) :
    let mem' : Memory := { mem with expirables := mem.expirables.modify e (fun _ => ⟨ts, a⟩) }
    ∃ mem₁ db', (do
      let expirables ← addExpirableToTree mem' e ⟨ts, a⟩ (removeExpirableFromTree e db.expirables)
      some (mem', { db with expirables })) = some (mem₁, db') ∧ Kept env mem₁ db' ∧ Step mem db mem₁ db' ∧
      records mem₁ db' =
        Function.update (records mem db) key (some { recordAt mem db a with expirable := some ts }) := by
  intro mem'
  have ha := mem_addrs hn
  obtain ⟨hmemE, ts₀, hcell, -⟩ := h.back a ha e he
  have hcellE : mem'.expirables.cells e = some ⟨ts, a⟩ := by
    rw [Lib.Heap.cells_modify, if_pos rfl, hcell, Option.map_some]
  have hcells : ∀ e' ∈ db.expirables, mem.expirableOf a ≠ some (some e') →
      mem'.expirables.cells e' = mem.expirables.cells e' := fun e' _ hne =>
    if_neg (fun heq : e' = e => hne (heq ▸ he))
  obtain ⟨l, hadd, hperm, hord⟩ := h.toIndexed.add List.erase_sublist
    (fun e' he' => ((h.toIndexed.mem_erase he).1 he').2) hcells hcellE
  have hmem : ∀ e', e' ∈ l ↔ e' ∈ db.expirables ∧ mem.expirableOf a ≠ some (some e') ∨ some e = some e' := fun e' => by
    rw [hperm.mem_iff, List.mem_cons, ← removeExpirableFromTree, h.toIndexed.mem_erase he, Option.some.injEq, or_comm,
      eq_comm (a := e)]
  obtain ⟨hkept, hrecords⟩ := h.setExpirable mem' hn (fun _ _ => rfl) rfl he hcells
    (fun e' he' => ⟨ts, by rw [← Option.some.inj he', hcellE], hts⟩) hmem hord
  rw [removeExpirableFromTree, hadd]
  refine ⟨mem', { db with expirables := l }, rfl, hkept, ⟨fun _ _ _ => rfl, fun e' he' _ => if_neg ?_, fun _ => .inl,
    fun e' he' => .inl ?_, Nat.le_refl _, Nat.le_refl _⟩, ?_⟩
  · rintro rfl
    exact he' hmemE
  · exact (List.mem_cons.1 (hperm.mem_iff.1 he')).elim (fun heq => heq ▸ hmemE) List.mem_of_mem_erase
  · rw [hrecords, Option.bind_some, hcellE]
    rfl

end Layer

open Layer in
/-- **The expiration of a PUT.** -/
theorem putExpirable_spec [LinearOrder D] {env : PanDbEnv D Nat} {mem : Memory} {db : Db D} (h : Kept env mem db)
    {key : Key} {a : Nat} (hn : (key, a) ∈ db.keyNodes.nodes) (putOp : RecordsPutOp D) :
    ∃ mem' db', LayerStore.putExpirable putOp mem db a = some (mem', db') ∧ Kept env mem' db' ∧ Step mem db mem' db' ∧
      records mem' db' =
        Function.update (records mem db) key (some { recordAt mem db a with expirable := putExpirable putOp }) := by
  have ha := mem_addrs hn
  obtain ⟨node, hnode⟩ := h.toIndexed.node_at ha
  have hof : mem.expirableOf a = some node.expirable := congrArg (Option.map Layer.KeyNode.expirable) hnode
  unfold LayerStore.putExpirable Pincaster.putExpirable
  simp only [hnode, Option.bind_eq_bind, Option.bind_some]
  by_cases hts : putOp.expiresAt = 0
  · rw [if_neg (not_not.2 hts), if_neg (not_not.2 hts)]
    cases hexp : node.expirable with
    | none => exact ⟨mem, db, rfl, h, .refl mem db, update_recordAt hn (recordAt_expirable (hexp ▸ hof))⟩
    | some e =>
      obtain ⟨he, ts, hcell, -⟩ := h.back a ha e (hexp ▸ hof)
      simp only [hcell, Option.bind_some]
      rw [if_neg (not_not.2 rfl)]
      exact ⟨_, _, rfl, h.clearExpirable hn (hexp ▸ hof)⟩
  · rw [if_pos hts, if_pos hts]
    cases hexp : node.expirable with
    | none => exact h.newExpirable hn (hexp ▸ hof) hts
    | some e =>
      obtain ⟨he, ts, hcell, -⟩ := h.back a ha e (hexp ▸ hof)
      simp only [hcell, Option.bind_some]
      rw [if_neg (not_not.2 rfl)]
      split
      · exact h.changeExpirable hn (hexp ▸ hof) hts
      · rename_i hsame
        refine ⟨mem, db, rfl, h, .refl mem db, update_recordAt hn ?_⟩
        rw [recordAt_expirable (hexp ▸ hof), Option.bind_some, hcell]
        exact congrArg some (not_not.1 hsame)

/-! ## A PUT -/

namespace Layer

/-- The record that a PUT leaves of the one there was; none when an assertion fails. -/
def putRecordOf [LinearOrder D] (env : PanDbEnv D Nat) (putOp : RecordsPutOp D)
    (record : Pincaster.KeyNode D) : Option (Pincaster.KeyNode D) :=
  (putProperties record.properties putOp).map (fun properties =>
    { slot := putSlotOf env putOp record.slot, properties, expirable := putExpirable putOp })

variable [LinearOrder D] {env : PanDbEnv D Nat} {mem : Memory} {db : Db D}

/-- **The properties of one record change.** -/
theorem Kept.setProperties (h : Kept env mem db) {key : Key} {a : Nat} (hn : (key, a) ∈ db.keyNodes.nodes)
    (properties : Option SlipMap) :
    let mem' : Memory := { mem with keyNodes := mem.keyNodes.modify a (fun node => { node with properties }) }
    Kept env mem' db ∧ Step mem db mem' db ∧
      records mem' db = Function.update (records mem db) key (some { recordAt mem db a with properties }) := by
  intro mem'
  have ha := mem_addrs hn
  obtain ⟨node, hnode⟩ := h.toIndexed.node_at ha
  have hcell : mem'.keyNodes.cells a = some { node with properties } := by
    rw [Heap.cells_modify, if_pos rfl, hnode, Option.map_some]
  have hcells : ∀ a', a' ≠ a → mem'.keyNodes.cells a' = mem.keyNodes.cells a' := fun a' hne => if_neg hne
  have hof : ∀ a', mem'.expirableOf a' = mem.expirableOf a' := fun a' => by
    by_cases haa : a' = a
    · rw [haa, Memory.expirableOf, Memory.expirableOf, hcell, hnode]
      rfl
    · exact congrArg (Option.map KeyNode.expirable) (hcells a' haa)
  refine ⟨⟨h.toIndexed.congr rfl rfl (fun a' _ => hof a') (fun _ _ => rfl), h.tree, h.slots⟩,
    ⟨fun a' ha' _ => hcells a' (fun haa => ha' (haa ▸ ha)), fun _ _ _ => rfl, fun _ => .inl, fun _ => .inl,
      Nat.le_refl _, Nat.le_refl _⟩, ?_⟩
  refine (records_change h.nodup hn rfl (fun a' _ hne => recordAt_congr rfl (hcells a' hne) (fun _ _ => rfl))).trans ?_
  rw [recordAt, hof, hcell]
  rfl

end Layer

open Layer in
/-- **A PUT** changes the record of its key alone, and no assertion fails but those of the properties. -/
theorem putRecord_spec [LinearOrder D] [Sub D] {env : PanDbEnv D Nat} {mem : Memory} {db : Db D} (h : Kept env mem db)
    (putOp : RecordsPutOp D) {o : Option (Pincaster.KeyNode D)}
    (ho : putRecordOf env putOp ((records mem db putOp.key).getD newKeyNode) = o) :
    (o = none → LayerStore.putRecord env putOp mem db = none) ∧
    ∀ record, o = some record → ∃ mem' db', LayerStore.putRecord env putOp mem db = some (mem', db') ∧
      Kept env mem' db' ∧ Step mem db mem' db' ∧
      records mem' db' = Function.update (records mem db) putOp.key (some record) := by
  subst ho
  obtain ⟨mem₁, db₁, a, hcreate, h₁, hstep₁, hn₁, hrecords₁⟩ := createKeyNode_spec h putOp.key
  generalize (records mem db putOp.key).getD newKeyNode = record at hrecords₁ ⊢
  have hrecord := recordAt_of_records hn₁ hrecords₁
  obtain ⟨panDb, hput, h₂, hposition⟩ := putPosition_spec h₁ (mem_addrs hn₁) putOp
  obtain ⟨node, hnode⟩ := h₁.toIndexed.node_at (mem_addrs hn₁)
  have hproperties : node.properties = record.properties := by
    rw [← hrecord, recordAt, hnode]
    rfl
  unfold LayerStore.putRecord putRecordOf
  simp only [hcreate, hput, hnode, hproperties, Option.bind_eq_bind, Option.bind_some]
  cases putProperties record.properties putOp with
  | none => exact ⟨fun _ => rfl, fun _ hnone => by cases hnone⟩
  | some properties =>
    refine ⟨fun hnone => absurd hnone (Option.some_ne_none _), fun record' hrecord' => ?_⟩
    obtain ⟨h₃, hstep₃, hrecords₃⟩ := h₂.setProperties hn₁ properties
    obtain ⟨mem', db', hput', h', hstep', hrecords'⟩ := putExpirable_spec h₃ hn₁ putOp
    have hstep₂ : Step mem₁ db₁ mem₁ { db₁ with panDb } := .of_panDb rfl rfl
    refine ⟨mem', db', hput', h', hstep₁.trans (hstep₂.trans (hstep₃.trans hstep')), ?_⟩
    have hrecords₂ := records_position mem₁ h₁.nodup hn₁ hposition
    rw [hrecords', recordAt_of_records (by exact hn₁) hrecords₃, hrecords₃,
      recordAt_of_records (by exact hn₁) hrecords₂, hrecords₂, hrecords₁, Function.update_idem,
      Function.update_idem, Function.update_idem, ← hrecord', ← hrecord]
    rfl

end Pincaster
