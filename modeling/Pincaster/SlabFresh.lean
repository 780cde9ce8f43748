import Pincaster.SlabRuns
/-!
# SlabFresh — the slots of a slab, whatever became of its lists

The lists of a slab may have lost chunks.  The slots still hold the entries that were added and not removed: an entry
that is added gets a slot that held none, an entry that is removed leaves the others, and a `foreach` visits entries of
the slab only.
-/
namespace Pincaster

open Lib (Heap)

variable {α σ : Type}

/-! ## What changes the links only -/

/-- The bitmaps and the slots are the same. -/
structure SameSlots (s s' : Slab α) : Prop where
  nbSlots : s'.nbSlotsPerChunk = s.nbSlotsPerChunk
  body : s'.body = s.body

theorem SameSlots.refl (s : Slab α) : SameSlots s s := ⟨rfl, rfl⟩

theorem SameSlots.trans {s₁ s₂ s₃ : Slab α} (h₁ : SameSlots s₁ s₂) (h₂ : SameSlots s₂ s₃) : SameSlots s₁ s₃ :=
  ⟨h₂.nbSlots.trans h₁.nbSlots, h₂.body.trans h₁.body⟩

/-- A store that leaves the bitmap and the slots. -/
def LinksOnly (f : SlabChunk α → SlabChunk α) : Prop := ∀ c, (f c).bitmap = c.bitmap ∧ (f c).slots = c.slots

theorem Slab.storeChunk_links {s s' : Slab α} {a : Nat} {f : SlabChunk α → SlabChunk α} (hf : LinksOnly f)
    (h : s.storeChunk a f = some s') : SameSlots s s' := by
  unfold Slab.storeChunk at h
  obtain ⟨chunks, hstore, h⟩ := Option.bind_eq_some_iff.1 h
  cases h
  unfold Heap.store at hstore
  split at hstore
  · rename_i hsome
    cases hstore
    obtain ⟨c, hc⟩ := Option.isSome_iff_exists.1 hsome
    refine ⟨rfl, funext fun b => ?_⟩
    by_cases hb : b = a
    · subst hb
      simp [Slab.body, hc, (hf c).1, (hf c).2]
    · simp [Slab.body, hb]
  · cases hstore

theorem Slab.storePtr_links {s s' : Slab α} {a : Option Nat} {f : SlabChunk α → SlabChunk α} (hf : LinksOnly f)
    (h : s.storePtr a f = some s') : SameSlots s s' := by
  cases a with
  | none =>
    cases h
    exact .refl s
  | some a => exact Slab.storeChunk_links hf h

theorem unlinkNeighbours_links {s s' : Slab α} {a : Nat} (h : unlinkNeighbours s a = some s') : SameSlots s s' := by
  unfold unlinkNeighbours at h
  obtain ⟨c, -, h⟩ := Option.bind_eq_some_iff.1 h
  obtain ⟨s₁, h₁, h⟩ := Option.bind_eq_some_iff.1 h
  obtain ⟨c₁, -, h₂⟩ := Option.bind_eq_some_iff.1 h
  have hnext : LinksOnly (fun x : SlabChunk α => { x with next := c.next }) := fun _ => ⟨rfl, rfl⟩
  have hprevious : LinksOnly (fun x : SlabChunk α => { x with previous := c₁.previous }) := fun _ => ⟨rfl, rfl⟩
  exact (Slab.storePtr_links hnext h₁).trans (Slab.storePtr_links hprevious h₂)

theorem linkFront_links {s s' : Slab α} {a : Nat} {head : Option Nat} (h : linkFront s a head = some s') :
    SameSlots s s' := by
  unfold linkFront at h
  obtain ⟨s₁, h₁, h₂⟩ := Option.bind_eq_some_iff.1 h
  have hfront : LinksOnly (fun x : SlabChunk α => { x with next := head, previous := none }) := fun _ => ⟨rfl, rfl⟩
  have hprevious : LinksOnly (fun x : SlabChunk α => { x with previous := some a }) := fun _ => ⟨rfl, rfl⟩
  exact (Slab.storeChunk_links hfront h₁).trans (Slab.storePtr_links hprevious h₂)

theorem takeFromPartial_links {s s' : Slab α} {a : Nat} (h : takeFromPartial s a = some s') : SameSlots s s' := by
  unfold takeFromPartial at h
  obtain ⟨s₁, h₁, h⟩ := Option.bind_eq_some_iff.1 h
  obtain ⟨c, -, h⟩ := Option.bind_eq_some_iff.1 h
  refine (unlinkNeighbours_links h₁).trans ?_
  split at h
  · split at h <;> cases h
    exact ⟨rfl, rfl⟩
  · cases h
    exact .refl _

theorem takeFromFull_links {s s' : Slab α} {a : Nat} (h : takeFromFull s a = some s') : SameSlots s s' := by
  unfold takeFromFull at h
  obtain ⟨s₁, h₁, h⟩ := Option.bind_eq_some_iff.1 h
  obtain ⟨c, -, h⟩ := Option.bind_eq_some_iff.1 h
  refine (unlinkNeighbours_links h₁).trans ?_
  split at h
  · split at h <;> cases h
    exact ⟨rfl, rfl⟩
  · cases h
    exact .refl _

theorem moveToFull_links {s s' : Slab α} {a : Nat} (h : moveToFull s a = some s') : SameSlots s s' := by
  unfold moveToFull at h
  obtain ⟨s₁, h₁, h⟩ := Option.bind_eq_some_iff.1 h
  obtain ⟨s₂, h₂, h⟩ := Option.bind_eq_some_iff.1 h
  cases h
  exact ((takeFromPartial_links h₁).trans (linkFront_links h₂)).trans ⟨rfl, rfl⟩

theorem moveToPartial_links {s s' : Slab α} {a : Nat} (h : moveToPartial s a = some s') : SameSlots s s' := by
  unfold moveToPartial at h
  obtain ⟨s₁, h₁, h⟩ := Option.bind_eq_some_iff.1 h
  obtain ⟨s₂, h₂, h⟩ := Option.bind_eq_some_iff.1 h
  cases h
  exact ((takeFromFull_links h₁).trans (linkFront_links h₂)).trans ⟨rfl, rfl⟩

/-- A chunk that is freed is gone, the others stay. -/
theorem freeChunk_body {s s' : Slab α} {a : Nat} (h : freeChunk s a = some s') :
    s'.nbSlotsPerChunk = s.nbSlotsPerChunk ∧ ∀ b, s'.body b = if b = a then none else s.body b := by
  unfold freeChunk at h
  obtain ⟨s₁, h₁, h⟩ := Option.bind_eq_some_iff.1 h
  obtain ⟨c, -, h⟩ := Option.bind_eq_some_iff.1 h
  cases h
  refine ⟨(unlinkNeighbours_links h₁).nbSlots, fun b => ?_⟩
  rw [← (unlinkNeighbours_links h₁).body]
  exact Slab.body_free rfl b

/-! ## Adding and removing -/

variable {live : List (EntryPtr × α)}

theorem addEntryToChunk_slots {s s' : Slab α} {a : Nat} {x : α} {e : EntryPtr} (hs : Slots s.body live)
    (h : addEntryToChunk s a x = some (s', some e)) :
    s'.nbSlotsPerChunk = s.nbSlotsPerChunk ∧ Slots s'.body ((e, x) :: live) := by
  unfold addEntryToChunk at h
  obtain ⟨c, hc, h⟩ := Option.bind_eq_some_iff.1 h
  have hbody := Slab.body_of_cells hc
  simp only [Option.bind_eq_bind] at h
  split at h
  · cases h
  rename_i hffsl
  have hne : c.bitmap ≠ 0 := fun hz => hffsl (by rw [hz]; decide)
  obtain ⟨-, hlt, hbit⟩ := ffsl_spec c.bitmap hne
  obtain ⟨s₁, h₁, nb₁, -, -, -, body₁⟩ := storeChunk_body hbody (c.bitmap &&& ~~~(1#64 <<< (ffsl c.bitmap - 1)))
    (fun slots => Function.update slots (ffsl c.bitmap - 1) (some ⟨some a, x⟩))
  have hslots₁ := hs.take x hbody hlt hbit body₁
  rw [h₁, Option.bind_some] at h
  split at h
  · obtain ⟨s₂, h₂, h⟩ := Option.bind_eq_some_iff.1 h
    cases h
    have hsame := moveToFull_links h₂
    exact ⟨hsame.nbSlots.trans nb₁, hsame.body ▸ hslots₁⟩
  · cases h
    exact ⟨nb₁, hslots₁⟩

/-- **An entry that is added gets a slot of its own.** -/
theorem addEntryToSlab_slots {s s' : Slab α} {malloc : Bool} {x : α} {e : EntryPtr} (hs : Slots s.body live)
    (h : addEntryToSlab malloc s x = some (s', some e)) :
    s'.nbSlotsPerChunk = s.nbSlotsPerChunk ∧ Slots s'.body ((e, x) :: live) := by
  unfold addEntryToSlab at h
  split at h
  · exact addEntryToChunk_slots hs h
  · split at h
    · obtain ⟨hnb, hslots⟩ := addEntryToChunk_slots (hs.newChunk (some s.chunks.brk)) h
      exact ⟨hnb, hslots⟩
    · cases h

/-- **An entry that is removed leaves the others.** -/
theorem removeEntryFromSlab_slots {s s' : Slab α} {e : EntryPtr} {ret : Int} (hnb : s.nbSlotsPerChunk = 64)
    (hs : Slots s.body live) (he : e ∈ live.map Prod.fst) (h : removeEntryFromSlab s e = some (s', ret)) :
    s'.nbSlotsPerChunk = 64 ∧ Slots s'.body (live.filter (·.1 ≠ e)) := by
  obtain ⟨⟨e, x⟩, hx, rfl⟩ := List.mem_map.1 he
  obtain ⟨hlt, b, hb, hfree⟩ := hs.busy e x hx
  obtain ⟨s₁, h₁, nb₁, -, -, -, body₁⟩ := storeChunk_body hb (b.1 ||| (1#64 <<< e.bit)) (clearHeader e.bit)
  have hslots₁ : Slots s₁.body (live.filter (·.1 ≠ e)) := hs.release hb (fun i hi => if_neg hi) body₁
  rw [removeEntryFromSlab_eq hnb hs he hb h₁] at h
  obtain ⟨s₂, h₂, h⟩ := Option.bind_eq_some_iff.1 h
  have hsame : SameSlots s₁ s₂ := by
    split at h₂
    · exact moveToPartial_links h₂
    · cases h₂
      exact .refl s₁
  obtain ⟨s₃, h₃, h⟩ := Option.map_eq_some_iff.1 h
  cases h
  have hslots₂ : Slots s₂.body (live.filter (·.1 ≠ e)) := hsame.body ▸ hslots₁
  have hnb₂ : s₂.nbSlotsPerChunk = 64 := hsame.nbSlots.trans (nb₁.trans hnb)
  split at h₃
  · rename_i hones
    split at h₃
    · cases h₃
    · obtain ⟨nb₃, body₃⟩ := freeChunk_body h₃
      have hempty : s₂.body e.chunk = some (~~~0#64, clearHeader e.bit b.2) := by
        rw [hsame.body, body₁, if_pos rfl, hones]
      exact ⟨nb₃.trans hnb₂, hslots₂.drop hempty body₃⟩
  · cases h₃
    exact ⟨hnb₂, hslots₂⟩

/-! ## Visiting -/

theorem foreachSlot_visits {cb : σ → EntryPtr → α → Int × σ} (hcb : ∀ ctx e x, (cb ctx e x).1 = 0) {s : Slab α}
    (hs : Slots s.body live) {a : Nat} {b : BitmapType × (Nat → Option (SlabSlot α))} (hb : s.body a = some b) :
    ∀ (n i : Nat) (ctx : σ), i + n = 64 → ∃ l : List (EntryPtr × α), (∀ p ∈ l, p ∈ live) ∧
      foreachSlot cb a b.2 n i (b.1 >>> i) ctx = some (0, l.foldl (fun ctx p => (cb ctx p.1 p.2).2) ctx) := by
  intro n i ctx hi
  have heq := foreachSlot_eq cb a b (hs.written hb) n i ctx hi
  rw [foreachList_eq_foldl hcb] at heq
  refine ⟨_, fun p hp => ?_, heq⟩
  obtain ⟨j, hj, hp⟩ := List.mem_filterMap.1 hp
  rw [List.mem_range'_1] at hj
  split at hp
  · cases hp
  · rename_i hbit
    obtain ⟨slot, hslot, rfl⟩ := Option.map_eq_some_iff.1 hp
    obtain ⟨x, hx, hmem⟩ := hs.owned a b j hb (by omega) (by simpa using hbit)
    rw [hslot, Option.some.injEq] at hx
    subst hx
    exact hmem

theorem foreachChunk_visits {cb : σ → EntryPtr → α → Int × σ} (hcb : ∀ ctx e x, (cb ctx e x).1 = 0) {s : Slab α}
    (hnb : s.nbSlotsPerChunk = 64) (hs : Slots s.body live) : ∀ (fuel : Nat) (chunk : Option Nat) (ctx : σ)
    (r : Int × σ), foreachChunk cb s fuel chunk ctx = some r → ∃ l : List (EntryPtr × α), (∀ p ∈ l, p ∈ live) ∧
      r = (0, l.foldl (fun ctx p => (cb ctx p.1 p.2).2) ctx) := by
  intro fuel
  induction fuel with
  | zero =>
    intro chunk ctx r h
    cases chunk with
    | none =>
      cases h
      exact ⟨[], fun _ h => (nomatch h), rfl⟩
    | some a => cases h
  | succ fuel ih =>
    intro chunk ctx r h
    cases chunk with
    | none =>
      cases h
      exact ⟨[], fun _ h => (nomatch h), rfl⟩
    | some a =>
      rw [foreachChunk] at h
      obtain ⟨c, hc, h⟩ := Option.bind_eq_some_iff.1 h
      obtain ⟨l₁, hl₁, hslots⟩ := foreachSlot_visits hcb hs (Slab.body_of_cells hc) 64 0 ctx rfl
      rw [BitVec.ushiftRight_zero] at hslots
      simp only [hnb, hslots, Option.bind_eq_bind, Option.bind_some, if_true] at h
      obtain ⟨l₂, hl₂, rfl⟩ := ih _ _ _ h
      refine ⟨l₁ ++ l₂, fun p hp => (List.mem_append.1 hp).elim (hl₁ p) (hl₂ p), ?_⟩
      rw [List.foldl_append]

/-- **A `foreach` visits entries of the slab only**, one after another. -/
theorem slabForeach_visits {cb : σ → EntryPtr → α → Int × σ} (hcb : ∀ ctx e x, (cb ctx e x).1 = 0) {s : Slab α}
    (hnb : s.nbSlotsPerChunk = 64) (hs : Slots s.body live) {ctx : σ} {r : Int × σ}
    (h : slabForeach cb s ctx = some r) : ∃ l : List (EntryPtr × α), (∀ p ∈ l, p ∈ live) ∧
      r = (0, l.foldl (fun ctx p => (cb ctx p.1 p.2).2) ctx) := by
  unfold slabForeach at h
  obtain ⟨r₁, h₁, h⟩ := Option.bind_eq_some_iff.1 h
  obtain ⟨l₁, hl₁, rfl⟩ := foreachChunk_visits hcb hnb hs _ _ _ _ h₁
  simp only [if_true] at h
  obtain ⟨l₂, hl₂, rfl⟩ := foreachChunk_visits hcb hnb hs _ _ _ _ h
  refine ⟨l₁ ++ l₂, fun p hp => (List.mem_append.1 hp).elim (hl₁ p) (hl₂ p), ?_⟩
  rw [List.foldl_append]

end Pincaster
