import Pincaster.LayerStore
/-!
# ExpirableIndex — the expirables of a layer and the key nodes that have them

The tree of the expirables is in the order of their times and key nodes.  Each expirable points to a key node of the
layer, which points back to it; no two of them compare equal, so that an insertion never meets one that does.
-/
namespace Pincaster

open Lib (TotalCmp Heap)

variable {D : Type}

namespace Layer

/-! ## The order -/

theorem expirableCmp_neg {x y : Expirable} :
    expirableCmp x y < 0 ↔ x.ts < y.ts ∨ x.ts = y.ts ∧ x.keyNode < y.keyNode := by
  unfold expirableCmp
  split_ifs <;> omega

theorem expirableCmp_pos {x y : Expirable} :
    0 < expirableCmp x y ↔ y.ts < x.ts ∨ x.ts = y.ts ∧ y.keyNode < x.keyNode := by
  unfold expirableCmp
  split_ifs <;> omega

theorem expirableCmp_total : TotalCmp expirableCmp := by
  refine ⟨fun x y => ?_, fun x y => ?_, fun x y z => ?_⟩
  · have heq : x = y ↔ x.ts = y.ts ∧ x.keyNode = y.keyNode := by
      cases x
      cases y
      exact Iff.of_eq (Expirable.mk.injEq ..)
    have hneg := expirableCmp_neg (x := x) (y := y)
    have hpos := expirableCmp_pos (x := x) (y := y)
    rw [heq]
    omega
  · rw [expirableCmp_neg, expirableCmp_pos]
    omega
  · rw [expirableCmp_neg, expirableCmp_neg, expirableCmp_neg]
    omega

/-- An expirable comes before another one in the tree. -/
def Before (mem : Memory) (e e' : Nat) : Prop :=
  ∀ x x', mem.expirables.cells e = some x → mem.expirables.cells e' = some x' → expirableCmp x x' < 0

/-- **An expirable that compares equal to none is inserted in its place.** -/
theorem addExpirableToTree_spec {mem : Memory} {e : Nat} {exp : Expirable} (he : mem.expirables.cells e = some exp) :
    ∀ l : List Nat, (∀ e' ∈ l, ∃ x, mem.expirables.cells e' = some x ∧ expirableCmp exp x ≠ 0) → l.Pairwise (Before mem) →
    ∃ l', addExpirableToTree mem e exp l = some l' ∧ l'.Perm (e :: l) ∧ l'.Pairwise (Before mem)
  | [], _, _ => ⟨[e], rfl, .refl _, List.pairwise_singleton _ _⟩
  | a :: l, hcells, hord => by
    obtain ⟨⟨x, hx, hne⟩, hrest⟩ := List.forall_mem_cons.1 hcells
    obtain ⟨ha, hord⟩ := List.pairwise_cons.1 hord
    rw [addExpirableToTree, hx]
    simp only [Option.bind_eq_bind, Option.bind_some]
    by_cases hlt : expirableCmp exp x < 0
    · rw [if_pos hlt]
      refine ⟨e :: a :: l, rfl, .refl _, .cons (List.forall_mem_cons.2 ⟨?_, fun b hb => ?_⟩) (.cons ha hord)⟩
      · intro y y' hy hy'
        rw [he, Option.some.injEq] at hy
        rw [hx, Option.some.injEq] at hy'
        exact hy ▸ hy' ▸ hlt
      · intro y y' hy hy'
        rw [he, Option.some.injEq] at hy
        exact expirableCmp_total.trans _ _ _ (hy ▸ hlt) (ha b hb x y' hx hy')
    · rw [if_neg hlt, if_pos (by omega)]
      obtain ⟨l', hadd, hperm, hord'⟩ := addExpirableToTree_spec he l hrest hord
      rw [hadd]
      refine ⟨a :: l', rfl, (hperm.cons a).trans (.swap e a l), .cons (fun b hb => ?_) hord'⟩
      rcases List.mem_cons.1 (hperm.mem_iff.1 hb) with rfl | hb
      · intro y y' hy hy'
        rw [hx, Option.some.injEq] at hy
        rw [he, Option.some.injEq] at hy'
        exact hy ▸ hy' ▸ (expirableCmp_total.neg_iff _ _).2 (by omega)
      · exact ha b hb

/-! ## The index -/

/-- The addresses of the key nodes of a layer. -/
def Db.addrs (db : Db D) : List Nat := db.keyNodes.nodes.map Prod.snd

/-- The expirable of a key node; the outer `none` is an address without a key node. -/
def Memory.expirableOf (mem : Memory) (a : Nat) : Option (Option Nat) := (mem.keyNodes.cells a).map KeyNode.expirable

/-- **The expirables of a layer are those of its key nodes.** -/
structure Indexed (mem : Memory) (db : Db D) : Prop where
  nodup : db.addrs.Nodup
  node : ∀ a ∈ db.addrs, ∃ o, mem.expirableOf a = some o
  back : ∀ a ∈ db.addrs, ∀ e, mem.expirableOf a = some (some e) →
    e ∈ db.expirables ∧ ∃ ts, mem.expirables.cells e = some ⟨ts, a⟩ ∧ ts ≠ 0
  entry : ∀ e ∈ db.expirables, ∃ a ∈ db.addrs, mem.expirableOf a = some (some e)
  ordered : db.expirables.Pairwise (Before mem)

section
variable {mem mem' : Memory} {db db' : Db D}

theorem Indexed.cells (h : Indexed mem db) {e : Nat} (he : e ∈ db.expirables) : ∃ a ∈ db.addrs, ∃ ts,
    mem.expirableOf a = some (some e) ∧ mem.expirables.cells e = some ⟨ts, a⟩ ∧ ts ≠ 0 := by
  obtain ⟨a, ha, hof⟩ := h.entry e he
  obtain ⟨-, ts, hts, hne⟩ := h.back a ha e hof
  exact ⟨a, ha, ts, hof, hts, hne⟩

theorem Indexed.nodup_expirables (h : Indexed mem db) : db.expirables.Nodup := by
  refine h.ordered.imp_of_mem (fun {e e'} he _ hbefore heq => ?_)
  subst heq
  obtain ⟨a, -, ts, -, hts, -⟩ := h.cells he
  have hlt := hbefore _ _ hts hts
  rw [expirableCmp_total.self] at hlt
  exact absurd hlt (lt_irrefl 0)

/-- An expirable is that of one key node. -/
theorem Indexed.unique (h : Indexed mem db) {a a' e : Nat} (ha : a ∈ db.addrs) (ha' : a' ∈ db.addrs)
    (he : mem.expirableOf a = some (some e)) (he' : mem.expirableOf a' = some (some e)) : a = a' := by
  obtain ⟨-, ts, hts, -⟩ := h.back a ha e he
  obtain ⟨-, ts', hts', -⟩ := h.back a' ha' e he'
  rw [hts, Option.some.injEq, Expirable.mk.injEq] at hts'
  exact hts'.2

theorem Indexed.lt_brk (h : Indexed mem db) {a : Nat} (ha : a ∈ db.addrs) : a < mem.keyNodes.brk := by
  obtain ⟨o, ho⟩ := h.node a ha
  obtain ⟨node, hnode, -⟩ := Option.map_eq_some_iff.1 ho
  exact Heap.lt_brk hnode

theorem Indexed.entry_lt_brk (h : Indexed mem db) {e : Nat} (he : e ∈ db.expirables) : e < mem.expirables.brk := by
  obtain ⟨a, -, ts, -, hts, -⟩ := h.cells he
  exact Heap.lt_brk hts

theorem Indexed.node_at (h : Indexed mem db) {a : Nat} (ha : a ∈ db.addrs) : ∃ node, mem.keyNodes.cells a = some node := by
  obtain ⟨o, ho⟩ := h.node a ha
  obtain ⟨node, hnode, -⟩ := Option.map_eq_some_iff.1 ho
  exact ⟨node, hnode⟩

/-- The index depends on the addresses, the expirables and their cells only. -/
theorem Indexed.congr (h : Indexed mem db) (haddrs : db'.addrs = db.addrs) (hexp : db'.expirables = db.expirables)
    (hof : ∀ a ∈ db.addrs, mem'.expirableOf a = mem.expirableOf a)
    (hcells : ∀ e ∈ db.expirables, mem'.expirables.cells e = mem.expirables.cells e) : Indexed mem' db' := by
  refine ⟨haddrs ▸ h.nodup, ?_, ?_, ?_, ?_⟩
  · intro a ha
    rw [haddrs] at ha
    rw [hof a ha]
    exact h.node a ha
  · intro a ha e he
    rw [haddrs] at ha
    rw [hof a ha] at he
    obtain ⟨hmem, hts⟩ := h.back a ha e he
    rw [hexp, hcells e hmem]
    exact ⟨hmem, hts⟩
  · intro e he
    rw [hexp] at he
    obtain ⟨a, ha, hae⟩ := h.entry e he
    exact ⟨a, haddrs ▸ ha, (hof a ha).trans hae⟩
  · rw [hexp]
    refine h.ordered.imp_of_mem (fun {e e'} he he' hbefore x x' hx hx' => ?_)
    exact hbefore x x' (hcells e he ▸ hx) (hcells e' he' ▸ hx')

/-- A new key node has no expirable. -/
theorem Indexed.create (h : Indexed mem db) (hfresh : mem.keyNodes.brk ∉ db.addrs)
    (haddrs : db'.addrs.Perm (mem.keyNodes.brk :: db.addrs)) (hexp : db'.expirables = db.expirables) :
    Indexed { mem with keyNodes := mem.keyNodes.alloc ⟨none, none⟩ } db' := by
  have hof : ∀ a, Memory.expirableOf { mem with keyNodes := mem.keyNodes.alloc ⟨none, none⟩ } a =
      if a = mem.keyNodes.brk then some none else mem.expirableOf a := fun a => by
    rw [Memory.expirableOf, Heap.cells_alloc]
    split_ifs <;> rfl
  have hold : ∀ a ∈ db.addrs, Memory.expirableOf { mem with keyNodes := mem.keyNodes.alloc ⟨none, none⟩ } a =
      mem.expirableOf a := fun a ha => by
    rw [hof, if_neg]
    rintro rfl
    exact hfresh ha
  refine ⟨haddrs.nodup_iff.2 (List.nodup_cons.2 ⟨hfresh, h.nodup⟩), ?_, ?_, ?_, hexp ▸ h.ordered⟩
  · intro a ha
    rcases List.mem_cons.1 (haddrs.mem_iff.1 ha) with rfl | ha
    · exact ⟨none, (hof _).trans (if_pos rfl)⟩
    · rw [hold a ha]
      exact h.node a ha
  · intro a ha e he
    rcases List.mem_cons.1 (haddrs.mem_iff.1 ha) with rfl | ha
    · rw [hof, if_pos rfl] at he
      cases he
    · rw [hold a ha] at he
      rw [hexp]
      exact h.back a ha e he
  · intro e he
    rw [hexp] at he
    obtain ⟨a, ha, hae⟩ := h.entry e he
    exact ⟨a, haddrs.mem_iff.2 (List.mem_cons_of_mem _ ha), (hold a ha).trans hae⟩

/-- **The expirable of one key node changes.** -/
theorem Indexed.replace (h : Indexed mem db) {a : Nat} {l : List Nat} (haddrs : db'.addrs = db.addrs)
    (hexp : db'.expirables = l) (hother : ∀ a' ∈ db.addrs, a' ≠ a → mem'.expirableOf a' = mem.expirableOf a')
    (hcells : ∀ e ∈ db.expirables, mem.expirableOf a ≠ some (some e) →
      mem'.expirables.cells e = mem.expirables.cells e)
    {o : Option Nat} (hself : mem'.expirableOf a = some o)
    (hnew : ∀ e, o = some e → ∃ ts, mem'.expirables.cells e = some ⟨ts, a⟩ ∧ ts ≠ 0) (ha : a ∈ db.addrs)
    (hmem : ∀ e, e ∈ l ↔ e ∈ db.expirables ∧ mem.expirableOf a ≠ some (some e) ∨ o = some e)
    (hord : l.Pairwise (Before mem')) : Indexed mem' db' := by
  refine ⟨haddrs ▸ h.nodup, ?_, ?_, ?_, hexp ▸ hord⟩
  · intro a' ha'
    rw [haddrs] at ha'
    by_cases haa : a' = a
    · exact ⟨o, haa ▸ hself⟩
    · rw [hother a' ha' haa]
      exact h.node a' ha'
  · intro a' ha' e he
    rw [haddrs] at ha'
    rw [hexp]
    by_cases haa : a' = a
    · subst haa
      rw [hself, Option.some.injEq] at he
      exact ⟨(hmem e).2 (.inr he), hnew e he⟩
    · rw [hother a' ha' haa] at he
      obtain ⟨hold, hts⟩ := h.back a' ha' e he
      have hnot : mem.expirableOf a ≠ some (some e) := fun hae => haa (h.unique ha' ha he hae)
      rw [hcells e hold hnot]
      exact ⟨(hmem e).2 (.inl ⟨hold, hnot⟩), hts⟩
  · intro e he
    rw [hexp] at he
    rw [haddrs]
    rcases (hmem e).1 he with ⟨hold, hnot⟩ | hnew
    · obtain ⟨a', ha', hae⟩ := h.entry e hold
      have hne : a' ≠ a := fun haa => hnot (haa ▸ hae)
      exact ⟨a', ha', (hother a' ha' hne).trans hae⟩
    · exact ⟨a, ha, hself.trans (congrArg some hnew)⟩

/-- The expirables of the other key nodes keep their order. -/
theorem Indexed.before (h : Indexed mem db) {a : Nat} {l : List Nat} (hl : l.Sublist db.expirables)
    (hnot : ∀ e ∈ l, mem.expirableOf a ≠ some (some e))
    (hcells : ∀ e ∈ db.expirables, mem.expirableOf a ≠ some (some e) →
      mem'.expirables.cells e = mem.expirables.cells e) : l.Pairwise (Before mem') :=
  (h.ordered.sublist hl).imp_of_mem (fun {e e'} he he' hbefore x x' hx hx' =>
    hbefore x x' (hcells e (hl.subset he) (hnot e he) ▸ hx) (hcells e' (hl.subset he') (hnot e' he') ▸ hx'))

/-- An expirable of a key node compares different from those of the others. -/
theorem Indexed.cmp_ne (h : Indexed mem db) {a : Nat} {ts : Int} {e : Nat} (he : e ∈ db.expirables)
    (hnot : mem.expirableOf a ≠ some (some e)) :
    ∃ x, mem.expirables.cells e = some x ∧ expirableCmp ⟨ts, a⟩ x ≠ 0 := by
  obtain ⟨a', ha', ts', hof, hts', -⟩ := h.cells he
  refine ⟨_, hts', fun hzero => hnot ?_⟩
  have heq := (expirableCmp_total.eq_zero _ _).1 hzero
  rw [Expirable.mk.injEq] at heq
  exact heq.2 ▸ hof

/-- **An expirable of a key node is inserted** where the others are those of other key nodes. -/
theorem Indexed.add (h : Indexed mem db) {a e : Nat} {ts : Int} {l : List Nat} (hl : l.Sublist db.expirables)
    (hnot : ∀ e' ∈ l, mem.expirableOf a ≠ some (some e'))
    (hcells : ∀ e' ∈ db.expirables, mem.expirableOf a ≠ some (some e') →
      mem'.expirables.cells e' = mem.expirables.cells e')
    (he : mem'.expirables.cells e = some ⟨ts, a⟩) :
    ∃ l', addExpirableToTree mem' e ⟨ts, a⟩ l = some l' ∧ l'.Perm (e :: l) ∧ l'.Pairwise (Before mem') := by
  refine addExpirableToTree_spec he l (fun e' he' => ?_) (h.before hl hnot hcells)
  rw [hcells e' (hl.subset he') (hnot e' he')]
  exact h.cmp_ne (hl.subset he') (hnot e' he')

/-- Without the expirable of a key node. -/
theorem Indexed.mem_erase (h : Indexed mem db) {a e : Nat} (he : mem.expirableOf a = some (some e)) {e' : Nat} :
    e' ∈ removeExpirableFromTree e db.expirables ↔ e' ∈ db.expirables ∧ mem.expirableOf a ≠ some (some e') := by
  rw [removeExpirableFromTree, h.nodup_expirables.mem_erase_iff, he, and_comm]
  simp only [ne_eq, Option.some.injEq, eq_comm]

end

end Layer

end Pincaster
