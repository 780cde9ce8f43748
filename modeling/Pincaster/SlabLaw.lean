import Pincaster.SlabForeach
import Pincaster.Lib.Runs
import Mathlib.Tactic.ByContra
/-!
# SlabLaw — when no entry of a slab is lost

A run adds and removes entries, and `live` holds those added and not yet removed.  The law is that a `foreach` visits
each of them once and nothing else.  The add that fills the last free slot of the first partial chunk sets
`first_partial_chunk` to `NULL`, so it loses every partial chunk linked behind that one; `KeepsPartial` is the
condition that no add does so, and a run keeps the law exactly when each of its steps meets it.
-/
namespace Pincaster

open Lib (Heap Chain System)

variable {α σ : Type}

/-! ## The slots and the live entries -/

/-- **The busy slots are the live entries**, each one's header naming its chunk. -/
structure Slots (body : Nat → Option (BitmapType × (Nat → Option (SlabSlot α)))) (live : List (EntryPtr × α)) :
    Prop where
  owned : ∀ a b i, body a = some b → i < 64 → b.1.getLsbD i = false →
    ∃ x, b.2 i = some ⟨some a, x⟩ ∧ ((⟨a, i⟩ : EntryPtr), x) ∈ live
  busy : ∀ e x, (e, x) ∈ live → e.bit < 64 ∧ ∃ b, body e.chunk = some b ∧ b.1.getLsbD e.bit = false
  nodup : (live.map Prod.fst).Nodup

/-- **Partial chunks have a free slot and a busy one, full chunks no free one.** -/
structure Kinds (body : Nat → Option (BitmapType × (Nat → Option (SlabSlot α)))) (pl fl : List Nat) : Prop where
  free : ∀ a ∈ pl, ∀ b, body a = some b → b.1 ≠ 0
  used : ∀ a ∈ pl, ∀ b, body a = some b → b.1 ≠ ~~~0#64
  full : ∀ a ∈ fl, ∀ b, body a = some b → b.1 = 0

variable {body : Nat → Option (BitmapType × (Nat → Option (SlabSlot α)))} {live : List (EntryPtr × α)}

theorem Slots.written (h : Slots body live) {a : Nat} {b : BitmapType × (Nat → Option (SlabSlot α))}
    (hb : body a = some b) : Written b := fun i hi hbit => by
  obtain ⟨x, hx, _⟩ := h.owned a b i hb hi hbit
  rw [hx]; rfl

theorem eq_of_mem_nodup {e : EntryPtr} {x y : α} (h : (live.map Prod.fst).Nodup) (hx : (e, x) ∈ live)
    (hy : (e, y) ∈ live) : x = y :=
  congrArg Prod.snd (List.inj_on_of_nodup_map h hx hy rfl)

/-- A chunk that has a busy slot has a live entry. -/
theorem Slots.exists_live (h : Slots body live) {a : Nat} {b : BitmapType × (Nat → Option (SlabSlot α))}
    (hb : body a = some b) (hne : b.1 ≠ ~~~0#64) : ∃ p ∈ live, p.1.chunk = a := by
  rw [Ne, bitmap_eq_ones_iff] at hne
  push Not at hne
  obtain ⟨i, hi, hbit⟩ := hne
  obtain ⟨x, _, hx⟩ := h.owned a b i hb hi (by simpa using hbit)
  exact ⟨_, hx, rfl⟩

/-- **A free slot is taken.** -/
theorem Slots.take (h : Slots body live) {a bit : Nat} {b : BitmapType × (Nat → Option (SlabSlot α))} (x : α)
    (hb : body a = some b) (hi : bit < 64) (hbit : b.1.getLsbD bit = true)
    {body' : Nat → Option (BitmapType × (Nat → Option (SlabSlot α)))}
    (hb' : ∀ c, body' c = if c = a then
      some (b.1 &&& ~~~(1#64 <<< bit), Function.update b.2 bit (some ⟨some a, x⟩)) else body c) :
    Slots body' ((⟨a, bit⟩, x) :: live) where
  owned c d i hd hi' hfree := by
    rw [hb'] at hd
    split at hd
    · rename_i hca
      subst hca
      cases hd
      by_cases hib : i = bit
      · subst hib
        exact ⟨x, by simp, List.mem_cons_self⟩
      · rw [getLsbD_clear _ _ _ hi'] at hfree
        obtain ⟨y, hy, hm⟩ := h.owned c b i hb hi' (by simpa [hib] using hfree)
        exact ⟨y, by simp [Function.update_of_ne hib, hy], List.mem_cons_of_mem _ hm⟩
    · obtain ⟨y, hy, hm⟩ := h.owned c d i hd hi' hfree
      exact ⟨y, hy, List.mem_cons_of_mem _ hm⟩
  busy e y he := by
    rcases List.mem_cons.1 he with he | he
    · cases he
      exact ⟨hi, _, by rw [hb', if_pos rfl], by rw [getLsbD_clear _ _ _ hi]; simp⟩
    · obtain ⟨hlt, d, hd, hfree⟩ := h.busy e y he
      refine ⟨hlt, ?_⟩
      by_cases hea : e.chunk = a
      · rw [hea, hb] at hd
        cases hd
        exact ⟨_, by rw [hb', if_pos hea], by rw [getLsbD_clear _ _ _ hlt, hfree]; rfl⟩
      · exact ⟨d, by rw [hb', if_neg hea, hd], hfree⟩
  nodup := by
    rw [List.map_cons, List.nodup_cons]
    refine ⟨fun hm => ?_, h.nodup⟩
    obtain ⟨⟨e, y⟩, he, heq⟩ := List.mem_map.1 hm
    obtain ⟨_, d, hd, hfree⟩ := h.busy e y he
    cases heq
    rw [hb] at hd
    cases hd
    rw [hbit] at hfree
    cases hfree

/-- **A busy slot is released.** -/
theorem Slots.release (h : Slots body live) {e : EntryPtr} {b : BitmapType × (Nat → Option (SlabSlot α))}
    (hb : body e.chunk = some b) {body' : Nat → Option (BitmapType × (Nat → Option (SlabSlot α)))}
    {slots : Nat → Option (SlabSlot α)} (hs : ∀ i, i ≠ e.bit → slots i = b.2 i)
    (hb' : ∀ c, body' c = if c = e.chunk then some (b.1 ||| (1#64 <<< e.bit), slots) else body c) :
    Slots body' (live.filter (·.1 ≠ e)) where
  owned c d i hd hi hfree := by
    rw [hb'] at hd
    split at hd
    · rename_i hca
      cases hd
      rw [getLsbD_set _ _ _ hi] at hfree
      have hib : i ≠ e.bit := by
        intro hib; rw [hib] at hfree; simp at hfree
      obtain ⟨y, hy, hm⟩ := h.owned c b i (hca ▸ hb) hi (by simpa [hib] using hfree)
      refine ⟨y, (hs i hib).trans hy, List.mem_filter.2 ⟨hm, ?_⟩⟩
      simp only [ne_eq, decide_eq_true_eq]
      exact fun hee => hib (congrArg EntryPtr.bit hee)
    · rename_i hca
      obtain ⟨y, hy, hm⟩ := h.owned c d i hd hi hfree
      refine ⟨y, hy, List.mem_filter.2 ⟨hm, ?_⟩⟩
      simp only [ne_eq, decide_eq_true_eq]
      exact fun hee => hca (congrArg EntryPtr.chunk hee)
  busy e' y he := by
    obtain ⟨he, hne⟩ := List.mem_filter.1 he
    simp only [ne_eq, decide_eq_true_eq] at hne
    obtain ⟨hlt, d, hd, hfree⟩ := h.busy e' y he
    refine ⟨hlt, ?_⟩
    by_cases hca : e'.chunk = e.chunk
    · rw [hca, hb] at hd
      cases hd
      refine ⟨_, by rw [hb', if_pos hca], ?_⟩
      have hbb : e'.bit ≠ e.bit := fun hbb => hne (by cases e'; cases e; simp_all)
      rw [getLsbD_set _ _ _ hlt, hfree]
      simp [hbb]
    · exact ⟨d, by rw [hb', if_neg hca, hd], hfree⟩
  nodup := h.nodup.sublist (List.filter_sublist.map _)

/-- A chunk with no busy slot is not the chunk of a live entry. -/
theorem Slots.drop (h : Slots body live) {a : Nat} {slots : Nat → Option (SlabSlot α)}
    (ha : body a = some (~~~0#64, slots)) {body' : Nat → Option (BitmapType × (Nat → Option (SlabSlot α)))}
    (hb' : ∀ c, body' c = if c = a then none else body c) : Slots body' live where
  owned c d i hd hi hfree := by
    rw [hb'] at hd
    split at hd
    · cases hd
    · exact h.owned c d i hd hi hfree
  busy e y he := by
    obtain ⟨hlt, d, hd, hfree⟩ := h.busy e y he
    refine ⟨hlt, d, ?_, hfree⟩
    rw [hb', if_neg, hd]
    intro hea
    rw [hea, ha] at hd
    cases hd
    rw [(bitmap_eq_ones_iff _).1 rfl e.bit hlt] at hfree
    cases hfree
  nodup := h.nodup

/-! ## Steps -/

/-- A slab and the entries added to it and not yet removed. -/
structure SlabRun (α : Type) where
  slab : Slab α
  live : List (EntryPtr × α)

inductive SlabOp (α : Type) where
  | add (malloc : Bool) (entry : α)
  | remove (entry : EntryPtr)

def slabStep (s : SlabRun α) : SlabOp α → Option (SlabRun α)
  | .add malloc x => do
    let (slab, e) ← addEntryToSlab malloc s.slab x
    some ⟨slab, match e with | some e => (e, x) :: s.live | none => s.live⟩
  | .remove e => do
    let (slab, _) ← removeEntryFromSlab s.slab e
    some ⟨slab, s.live.filter (·.1 ≠ e)⟩

/-- Any entry may be added; only a live one is removed. -/
def slabSystem (α : Type) : System (SlabRun α) (SlabOp α) where
  init := ⟨initSlab, []⟩
  legal s
    | .add _ _ => True
    | .remove e => e ∈ s.live.map Prod.fst
  step := slabStep

/-- **The add does not lose a chunk**: when it fills the last free slot of the first partial chunk, no other partial
chunk is linked behind it. -/
def KeepsPartial (s : SlabRun α) : SlabOp α → Prop
  | .remove _ => True
  | .add _ _ => ∀ a c, s.slab.firstPartialChunk = some a → s.slab.chunks.cells a = some c →
      c.bitmap &&& ~~~(1#64 <<< (ffsl c.bitmap - 1)) = 0 → c.next = none

instance (s : SlabRun α) : ∀ op, Decidable (KeepsPartial s op)
  | .remove _ => .isTrue trivial
  | .add _ _ => decidable_of_iff (∀ a ∈ s.slab.firstPartialChunk, ∀ c ∈ s.slab.chunks.cells a,
      c.bitmap &&& ~~~(1#64 <<< (ffsl c.bitmap - 1)) = 0 → c.next = none)
    ⟨fun h a c ha hc => h a ha c hc, fun h a ha c hc => h a c ha hc⟩

structure SlabInv (s : SlabRun α) (pl fl : List Nat) : Prop where
  nbSlots : s.slab.nbSlotsPerChunk = 64
  lists : Lists s.slab pl fl
  slots : Slots s.slab.body s.live
  kinds : Kinds s.slab.body pl fl

/-- A write of the bitmap and the slots of a chunk leaves every link. -/
theorem storeChunk_body {s : Slab α} {a : Nat} {b : BitmapType × (Nat → Option (SlabSlot α))} (hb : s.body a = some b)
    (bitmap : BitmapType) (f : (Nat → Option (SlabSlot α)) → Nat → Option (SlabSlot α)) :
    ∃ s', s.storeChunk a (fun x => { x with bitmap, slots := f x.slots }) = some s' ∧
      s'.nbSlotsPerChunk = s.nbSlotsPerChunk ∧ s'.firstPartialChunk = s.firstPartialChunk ∧
      (∀ pl fl, Lists s pl fl → Lists s' pl fl) ∧ s'.nx = s.nx ∧
      ∀ c, s'.body c = if c = a then some (bitmap, f b.2) else s.body c := by
  obtain ⟨c, hc⟩ := Slab.cells_of_body (s := s) (a := a) (by rw [hb]; rfl)
  rw [Slab.body_of_cells hc, Option.some.injEq] at hb
  subst hb
  refine ⟨_, storeChunk_of_cells hc _, rfl, rfl, ?_, ?_, ?_⟩
  · intro pl fl h
    have hl : ∀ d, (s.chunks.modify a (fun x => { x with bitmap, slots := f x.slots })).cells d =
        if d = a then some { c with bitmap, slots := f c.slots } else s.chunks.cells d := by
      intro d
      by_cases hd : d = a <;> simp [hd, hc]
    refine ⟨h.partialChain.congr (fun d _ => ?_), h.fullChain.congr (fun d _ => ?_), h.nodup, fun d => ?_⟩
    · by_cases hd : d = a <;> simp [Slab.nx, Slab.pv, hd, hc]
    · by_cases hd : d = a <;> simp [Slab.nx, Slab.pv, hd, hc]
    · rw [← h.allocated d]
      by_cases hd : d = a <;> simp [Slab.body, hd, hc]
  · funext d
    by_cases hd : d = a <;> simp [Slab.nx, hd, hc]
  · intro d
    by_cases hd : d = a <;> simp [Slab.body, hd, hc]

/-- What the add does once it has a chunk `a` with a free slot: the slot `bit` of it holds the entry, and the chunk
has moved to the full list when `bitmap` has no free slot left. -/
structure Added (s s' : Slab α) (a bit : Nat) (b : BitmapType × (Nat → Option (SlabSlot α))) (x : α) : Prop where
  nbSlots : s'.nbSlotsPerChunk = s.nbSlotsPerChunk
  lt : bit < 64
  free : b.1.getLsbD bit = true
  body : ∀ c, s'.body c = if c = a then
    some (b.1 &&& ~~~(1#64 <<< bit), Function.update b.2 bit (some ⟨some a, x⟩)) else s.body c
  bit_eq : bit = ffsl b.1 - 1

theorem addEntryToChunk_spec {s : Slab α} {a : Nat} {pl fl : List Nat} (hl : Lists s (a :: pl) fl)
    {b : BitmapType × (Nat → Option (SlabSlot α))} (hb : s.body a = some b) (hfree : b.1 ≠ 0) (x : α) :
    ∃ s' bit, addEntryToChunk s a x = some (s', some ⟨a, bit⟩) ∧ Added s s' a bit b x ∧
      (b.1 &&& ~~~(1#64 <<< bit) ≠ 0 → Lists s' (a :: pl) fl) ∧
      (b.1 &&& ~~~(1#64 <<< bit) = 0 → s'.firstPartialChunk = none ∧
        Chain s'.nx s'.pv none s'.firstFullChunk (a :: fl)) := by
  obtain ⟨hne, hlt, hbit⟩ := ffsl_spec b.1 hfree
  obtain ⟨c, hc⟩ := Slab.cells_of_body (s := s) (a := a) (by rw [hb]; rfl)
  have hcb : c.bitmap = b.1 := by
    rw [Slab.body_of_cells hc, Option.some.injEq] at hb
    rw [← hb]
  obtain ⟨s₁, h₁, nb₁, fp₁, hl₁, nx₁, body₁⟩ := storeChunk_body hb (b.1 &&& ~~~(1#64 <<< (ffsl b.1 - 1)))
    (fun slots => Function.update slots (ffsl b.1 - 1) (some ⟨some a, x⟩))
  have hl₁ := hl₁ _ _ hl
  by_cases hfull : b.1 &&& ~~~(1#64 <<< (ffsl b.1 - 1)) = 0
  · obtain ⟨s₂, h₂, nb₂, _, body₂, fp₂, ch₂, _⟩ := moveToFull_spec hl₁
    refine ⟨s₂, ffsl b.1 - 1, ?_, ⟨nb₂.trans nb₁, hlt, hbit, fun d => (body₂ d).trans (body₁ d), rfl⟩,
      fun h => absurd hfull h, fun _ => ⟨fp₂, ch₂⟩⟩
    simp only [addEntryToChunk, hc, hcb, Option.bind_eq_bind, Option.bind_some, if_neg hne, h₁, if_pos hfull, h₂]
  · refine ⟨s₁, ffsl b.1 - 1, ?_, ⟨nb₁, hlt, hbit, body₁, rfl⟩, fun _ => hl₁, fun h => absurd h hfull⟩
    simp only [addEntryToChunk, hc, hcb, Option.bind_eq_bind, Option.bind_some, if_neg hne, h₁, if_neg hfull]

/-! ## The law -/

/-- **A `foreach` visits each live entry once** and nothing else, whatever the callback does with its context. -/
def ForeachLaw (s : SlabRun α) : Prop :=
  ∃ order : List (EntryPtr × α), order.Perm s.live ∧ (order.map Prod.fst).Nodup ∧
    ∀ (σ : Type) (cb : σ → EntryPtr → α → Int × σ), (∀ ctx e x, (cb ctx e x).1 = 0) → ∀ ctx,
      slabForeach cb s.slab ctx = some (0, order.foldl (fun ctx p => (cb ctx p.1 p.2).2) ctx)

/-- **A chunk with a live entry is in one of the two lists, once**, the partial chunks having a free slot and the full
ones none. -/
def ChunkLaw (s : SlabRun α) : Prop :=
  ∃ pl fl : List Nat, Chain s.slab.nx s.slab.pv none s.slab.firstPartialChunk pl ∧
    Chain s.slab.nx s.slab.pv none s.slab.firstFullChunk fl ∧ (pl ++ fl).Nodup ∧
    (∀ p ∈ s.live, p.1.chunk ∈ pl ++ fl) ∧ (∀ a ∈ pl, ∃ b, s.slab.body a = some b ∧ b.1 ≠ 0) ∧
    (∀ a ∈ fl, ∃ b, s.slab.body a = some b ∧ b.1 = 0)

theorem Slots.perm_visits {s : SlabRun α} {pl fl : List Nat} (hl : Lists s.slab pl fl)
    (hs : Slots s.slab.body s.live) : (visits s.slab (pl ++ fl)).Perm s.live := by
  refine (List.perm_ext_iff_of_nodup (nodup_visits hl.nodup).of_map hs.nodup.of_map).2 (fun ⟨e, x⟩ => ?_)
  rw [mem_visits]
  constructor
  · rintro ⟨_, b, hb, he⟩
    obtain ⟨_, hlt, hfree, slot, hslot, rfl⟩ := mem_entriesOf.1 he
    obtain ⟨y, hy, hm⟩ := hs.owned e.chunk b e.bit hb hlt hfree
    rw [hslot, Option.some.injEq] at hy
    rw [hy]
    exact hm
  · intro he
    obtain ⟨hlt, b, hb, hfree⟩ := hs.busy e x he
    refine ⟨(hl.allocated _).1 (by rw [hb]; rfl), b, hb, mem_entriesOf.2 ⟨rfl, hlt, hfree, ?_⟩⟩
    obtain ⟨y, hy, hm⟩ := hs.owned e.chunk b e.bit hb hlt hfree
    exact ⟨_, hy, eq_of_mem_nodup hs.nodup hm he⟩

/-- A `foreach` goes through the live entries until its callback stops it. -/
theorem SlabInv.foreach {s : SlabRun α} {pl fl : List Nat} (h : SlabInv s pl fl) (cb : σ → EntryPtr → α → Int × σ)
    (ctx : σ) : slabForeach cb s.slab ctx = some (foreachList cb (visits s.slab (pl ++ fl)) ctx) := by
  refine slabForeach_eq cb h.nbSlots h.lists.partialChain h.lists.fullChain h.lists.nodup (fun a ha => ?_) ctx
  obtain ⟨b, hb⟩ := Option.isSome_iff_exists.1 ((h.lists.allocated a).2 ha)
  exact ⟨b, hb, h.slots.written hb⟩

theorem SlabInv.foreachLaw {s : SlabRun α} {pl fl : List Nat} (h : SlabInv s pl fl) : ForeachLaw s :=
  ⟨visits s.slab (pl ++ fl), h.slots.perm_visits h.lists, nodup_visits h.lists.nodup,
    fun σ cb hcb ctx => by rw [h.foreach cb ctx, foreachList_eq_foldl hcb]⟩

theorem SlabInv.chunkLaw {s : SlabRun α} {pl fl : List Nat} (h : SlabInv s pl fl) : ChunkLaw s := by
  have hal : ∀ a ∈ pl ++ fl, ∃ b, s.slab.body a = some b := fun a ha =>
    Option.isSome_iff_exists.1 ((h.lists.allocated a).2 ha)
  refine ⟨pl, fl, h.lists.partialChain, h.lists.fullChain, h.lists.nodup, fun p hp => ?_, fun a ha => ?_,
    fun a ha => ?_⟩
  · obtain ⟨_, b, hb, _⟩ := h.slots.busy p.1 p.2 hp
    exact (h.lists.allocated _).1 (by rw [hb]; rfl)
  · obtain ⟨b, hb⟩ := hal a (List.mem_append_left _ ha)
    exact ⟨b, hb, h.kinds.free a ha b hb⟩
  · obtain ⟨b, hb⟩ := hal a (List.mem_append_right _ ha)
    exact ⟨b, hb, h.kinds.full a ha b hb⟩

/-- **The partial chunks behind a lost head are not visited**: with `first_partial_chunk` at `NULL` and a live entry in
a chunk that is not full, neither law holds. -/
theorem not_laws_of_lost {s : SlabRun α} {fl : List Nat} {p : EntryPtr × α} (hnb : s.slab.nbSlotsPerChunk = 64)
    (hp : s.slab.firstPartialChunk = none) (hf : Chain s.slab.nx s.slab.pv none s.slab.firstFullChunk fl)
    (hnd : fl.Nodup) (hfl : ∀ a ∈ fl, (s.slab.body a).isSome) (hs : Slots s.slab.body s.live) (hlive : p ∈ s.live)
    (hlost : p.1.chunk ∉ fl) : ¬ ForeachLaw s ∧ ¬ ChunkLaw s := by
  constructor
  · rintro ⟨order, hperm, _, hvis⟩
    have h1 := hvis (List (EntryPtr × α)) (fun ctx e x => (0, ctx ++ [(e, x)])) (fun _ _ _ => rfl) []
    rw [slabForeach_eq _ hnb (show Chain _ _ none _ [] from hp) hf (by simpa using hnd) (fun a ha => ?_),
      foreachList_eq_foldl (fun _ _ _ => rfl)] at h1
    · simp only [Option.some.injEq, Prod.mk.injEq, true_and, List.nil_append] at h1
      have hid : ∀ (l l₀ : List (EntryPtr × α)), l.foldl (fun ctx p => ctx ++ [(p.1, p.2)]) l₀ = l₀ ++ l := by
        intro l
        induction l with
        | nil => simp
        | cons a l ih => intro l₀; simp [ih]
      rw [hid, hid, List.nil_append, List.nil_append] at h1
      have hv : (p.1, p.2) ∈ visits s.slab fl := h1 ▸ hperm.mem_iff.2 hlive
      exact hlost (mem_visits.1 hv).1
    · obtain ⟨b, hb⟩ := Option.isSome_iff_exists.1 (hfl a (by simpa using ha))
      exact ⟨b, hb, hs.written hb⟩
  · rintro ⟨pl', fl', hp', hf', _, hin, _⟩
    rw [hp] at hp'
    have hpl : pl' = [] := hp'.unique (Chain.nil_iff.2 rfl : Chain s.slab.nx s.slab.pv none none [])
    rw [hpl, hf'.unique hf, List.nil_append] at hin
    exact hlost (hin p hlive)

/-! ## What a step keeps -/

theorem slabInv_init : SlabInv (α := α) ⟨initSlab, []⟩ [] [] where
  nbSlots := rfl
  lists := ⟨rfl, rfl, List.nodup_nil, fun a => by simp [initSlab, Slab.body]⟩
  slots := ⟨fun a b i hb => by simp [initSlab, Slab.body] at hb, fun e x he => by simp at he, by simp⟩
  kinds := ⟨by simp, by simp, by simp⟩

theorem clear_ne_ones (b : BitmapType) {bit : Nat} (h : bit < 64) : b &&& ~~~(1#64 <<< bit) ≠ ~~~0#64 := by
  intro e
  have := (bitmap_eq_ones_iff _).1 e bit h
  rw [getLsbD_clear _ _ _ h] at this
  simp at this

theorem set_ne_zero (b : BitmapType) {bit : Nat} (h : bit < 64) : b ||| (1#64 <<< bit) ≠ 0 := by
  intro e
  have := (bitmap_eq_zero_iff _).1 e bit h
  rw [getLsbD_set _ _ _ h] at this
  simp at this

/-- **An entry is added to the first partial chunk**: when that fills it, the run keeps its laws exactly when no other
chunk is behind it. -/
theorem addEntryToChunk_inv {s : Slab α} {live : List (EntryPtr × α)} {a : Nat} {pl fl : List Nat}
    (hnb : s.nbSlotsPerChunk = 64) (hl : Lists s (a :: pl) fl) (hs : Slots s.body live)
    {b : BitmapType × (Nat → Option (SlabSlot α))} (hb : s.body a = some b) (hfree : b.1 ≠ 0)
    (hkp : Kinds s.body pl fl) (x : α) :
    ∃ s' bit, addEntryToChunk s a x = some (s', some ⟨a, bit⟩) ∧ bit = ffsl b.1 - 1 ∧
      ((b.1 &&& ~~~(1#64 <<< bit) = 0 → pl = []) →
        ∃ pl' fl', SlabInv ⟨s', (⟨a, bit⟩, x) :: live⟩ pl' fl') ∧
      (b.1 &&& ~~~(1#64 <<< bit) = 0 → pl ≠ [] →
        ¬ ForeachLaw ⟨s', (⟨a, bit⟩, x) :: live⟩ ∧ ¬ ChunkLaw ⟨s', (⟨a, bit⟩, x) :: live⟩) := by
  obtain ⟨s', bit, h, added, hpart, hfull⟩ := addEntryToChunk_spec hl hb hfree x
  have hslots := hs.take x hb added.lt added.free added.body
  have hnd := hl.nodup
  rw [List.cons_append, List.nodup_cons] at hnd
  have hapl : a ∉ pl := fun e => hnd.1 (List.mem_append_left _ e)
  have hafl : a ∉ fl := fun e => hnd.1 (List.mem_append_right _ e)
  have hbody_ne : ∀ c, c ≠ a → s'.body c = s.body c := fun c hc => by rw [added.body, if_neg hc]
  have hbody_a := added.body a
  rw [if_pos rfl] at hbody_a
  have hfl : ∀ c ∈ fl, ∀ d, s'.body c = some d → d.1 = 0 := fun c hc d hd =>
    hkp.full c hc d (by rw [← hbody_ne c (fun e => hafl (e ▸ hc)), hd])
  refine ⟨s', bit, h, added.bit_eq, fun hpl => ?_, fun hz hne => ?_⟩
  · by_cases hz : b.1 &&& ~~~(1#64 <<< bit) = 0
    · -- the chunk got full and was alone in the partial list
      obtain ⟨hfp, hch⟩ := hfull hz
      have hpl := hpl hz
      subst hpl
      refine ⟨[], a :: fl, added.nbSlots.trans hnb, ⟨hfp, hch, hl.nodup, fun c => ?_⟩, hslots,
        by simp, by simp, fun c hc d hd => ?_⟩
      · by_cases hca : c = a
        · simp [hca, hbody_a]
        · rw [hbody_ne c hca, hl.allocated]
          rfl
      · rcases List.mem_cons.1 hc with rfl | hc
        · rw [hbody_a] at hd
          cases hd
          exact hz
        · exact hfl c hc d hd
    · refine ⟨a :: pl, fl, added.nbSlots.trans hnb, hpart hz, hslots, fun c hc d hd => ?_, fun c hc d hd => ?_, hfl⟩
      · rcases List.mem_cons.1 hc with rfl | hc
        · rw [hbody_a] at hd
          cases hd
          exact hz
        · exact hkp.free c hc d (by rw [← hbody_ne c (fun e => hapl (e ▸ hc)), hd])
      · rcases List.mem_cons.1 hc with rfl | hc
        · rw [hbody_a] at hd
          cases hd
          exact clear_ne_ones b.1 added.lt
        · exact hkp.used c hc d (by rw [← hbody_ne c (fun e => hapl (e ▸ hc)), hd])
  · obtain ⟨hfp, hch⟩ := hfull hz
    obtain ⟨d, pl', rfl⟩ := List.exists_cons_of_ne_nil hne
    have hda : d ≠ a := fun e => hapl (by simp [e])
    obtain ⟨bd, hbd⟩ := Option.isSome_iff_exists.1 ((hl.allocated d).2 (by simp))
    obtain ⟨p, hp, hpd⟩ := hs.exists_live hbd (hkp.used d (by simp) bd hbd)
    refine not_laws_of_lost (p := p) (added.nbSlots.trans hnb) hfp hch ?_ ?_ hslots
      (List.mem_cons_of_mem _ hp) ?_
    · exact List.nodup_cons.2 ⟨hafl, (List.nodup_append.1 hnd.2).2.1⟩
    · intro c hc
      show (s'.body c).isSome
      rcases List.mem_cons.1 hc with rfl | hc
      · rw [hbody_a]; rfl
      · rw [hbody_ne c (fun e => hafl (e ▸ hc))]
        exact (hl.allocated c).2 (by simp [hc])
    · rw [hpd, List.mem_cons, not_or]
      refine ⟨hda, fun hdf => ?_⟩
      exact (List.nodup_append.1 hnd.2).2.2 d (by simp) d hdf rfl

end Pincaster
