import Pincaster.SlabRuns
/-!
# SlabEntries — the entries of a slab that has lost none

A slab that has lost no chunk holds its entries in the order of a `foreach` (`Slab.Holds`).  An add and a removal change
them as they should, up to their order, and a write through the address of an entry changes nothing but its data.
-/
namespace Pincaster

open Lib (Heap Chain)

variable {α σ : Type}

/-- The entries that a `foreach` goes through, with their addresses. -/
def Slab.entries (slab : Slab α) : Option (List (EntryPtr × α)) :=
  (slabForeach (fun entries e x => (0, entries ++ [(e, x)])) slab []).map Prod.snd

/-- The data of a chunk where `f` has other data for a slot. -/
def SlabChunk.write (f : EntryPtr → Option α) (chunk : Nat) (c : SlabChunk α) : SlabChunk α :=
  { c with slots := fun i => (c.slots i).map (fun slot => { slot with data := (f ⟨chunk, i⟩).getD slot.data }) }

/-- Entries are written in place, through their addresses. -/
def Slab.write (f : EntryPtr → Option α) (slab : Slab α) : Slab α :=
  { slab with chunks := slab.chunks.mapCells (SlabChunk.write f) }

/-! ## Writes -/

section
variable (f : EntryPtr → Option α) (s : Slab α)

@[simp] theorem Slab.nx_write : (s.write f).nx = s.nx := by
  funext a
  rw [Slab.nx, Slab.nx, Slab.write, Heap.cells_mapCells]
  cases s.chunks.cells a <;> rfl

@[simp] theorem Slab.pv_write : (s.write f).pv = s.pv := by
  funext a
  rw [Slab.pv, Slab.pv, Slab.write, Heap.cells_mapCells]
  cases s.chunks.cells a <;> rfl

theorem Slab.body_write (a : Nat) : (s.write f).body a = (s.body a).map (fun b =>
    (b.1, fun i => (b.2 i).map (fun slot => { slot with data := (f ⟨a, i⟩).getD slot.data }))) := by
  rw [Slab.body, Slab.body, Slab.write, Heap.cells_mapCells]
  cases s.chunks.cells a <;> rfl

end

variable {f : EntryPtr → Option α} {s : Slab α}

/-- A chunk of a written slab is one of the slab. -/
theorem Slab.body_of_write {a : Nat} {b' : BitmapType × (Nat → Option (SlabSlot α))}
    (hb : (s.write f).body a = some b') : ∃ b, s.body a = some b ∧ b'.1 = b.1 ∧
      ∀ i, b'.2 i = (b.2 i).map (fun slot => { slot with data := (f ⟨a, i⟩).getD slot.data }) := by
  rw [Slab.body_write] at hb
  obtain ⟨b, hold, rfl⟩ := Option.map_eq_some_iff.1 hb
  exact ⟨b, hold, rfl, fun _ => rfl⟩

theorem Lists.write {pl fl : List Nat} (h : Lists s pl fl) (f : EntryPtr → Option α) : Lists (s.write f) pl fl := by
  refine ⟨?_, ?_, h.nodup, fun a => ?_⟩
  · rw [Slab.nx_write, Slab.pv_write]
    exact h.partialChain
  · rw [Slab.nx_write, Slab.pv_write]
    exact h.fullChain
  · rw [Slab.body_write, Option.isSome_map]
    exact h.allocated a

/-- What a write leaves of an entry. -/
def rewritten (f : EntryPtr → Option α) (p : EntryPtr × α) : EntryPtr × α := (p.1, (f p.1).getD p.2)

theorem map_fst_rewritten (f : EntryPtr → Option α) (live : List (EntryPtr × α)) :
    (live.map (rewritten f)).map Prod.fst = live.map Prod.fst := by rw [List.map_map]; rfl

theorem Slots.write {live : List (EntryPtr × α)} (h : Slots s.body live) (f : EntryPtr → Option α) :
    Slots (s.write f).body (live.map (rewritten f)) where
  owned a b' i hb hi hfree := by
    obtain ⟨b, hb, hbit, hslots⟩ := Slab.body_of_write hb
    obtain ⟨x, hx, hmem⟩ := h.owned a b i hb hi (hbit ▸ hfree)
    exact ⟨(f ⟨a, i⟩).getD x, by rw [hslots, hx, Option.map_some], List.mem_map.2 ⟨_, hmem, rfl⟩⟩
  busy e x he := by
    obtain ⟨p, hp, hpe⟩ := List.mem_map.1 he
    cases hpe
    obtain ⟨hlt, b, hb, hfree⟩ := h.busy p.1 p.2 hp
    exact ⟨hlt, _, (Slab.body_write f s p.1.chunk).trans (congrArg _ hb), hfree⟩
  nodup := by
    rw [map_fst_rewritten]
    exact h.nodup

theorem Kinds.write {pl fl : List Nat} (h : Kinds s.body pl fl) (f : EntryPtr → Option α) :
    Kinds (s.write f).body pl fl := by
  have hold : ∀ {a : Nat} {b' : BitmapType × (Nat → Option (SlabSlot α))}, (s.write f).body a = some b' →
      ∃ b, s.body a = some b ∧ b'.1 = b.1 := fun hb => by
    obtain ⟨b, hb, hbit, -⟩ := Slab.body_of_write hb
    exact ⟨b, hb, hbit⟩
  refine ⟨fun a ha b' hb => ?_, fun a ha b' hb => ?_, fun a ha b' hb => ?_⟩
  all_goals obtain ⟨b, hb, hbit⟩ := hold hb
  · exact hbit ▸ h.free a ha b hb
  · exact hbit ▸ h.used a ha b hb
  · exact hbit ▸ h.full a ha b hb

/-- **A write keeps the order of the entries.** -/
theorem visits_write (l : List Nat) (f : EntryPtr → Option α) : visits (s.write f) l = (visits s l).map (rewritten f) := by
  rw [visits, visits, List.map_flatMap]
  congr 1
  funext a
  rw [Slab.body_write]
  cases s.body a with
  | none => rfl
  | some b =>
    rw [Option.map_some]
    simp only [entriesOf, List.map_filterMap]
    congr 1
    funext i
    split
    · rfl
    · cases b.2 i <;> rfl

/-- A write of the data that is there. -/
theorem Slab.write_eq_self (hf : ∀ e a b slot, s.body a = some b → b.2 e.bit = some slot → e.chunk = a →
    ∀ x, f e = some x → x = slot.data) : s.write f = s := by
  have hchunks : s.chunks.mapCells (SlabChunk.write f) = s.chunks := by
    refine Heap.mapCells_eq_self (fun a c hc => ?_)
    have hslots : (c.write f a).slots = c.slots := by
      funext i
      change (c.slots i).map _ = c.slots i
      cases hslot : c.slots i with
      | none => rfl
      | some slot =>
        rw [Option.map_some]
        cases hx : f ⟨a, i⟩ with
        | none => rfl
        | some x => rw [Option.getD_some, hf ⟨a, i⟩ a _ slot (Slab.body_of_cells hc) hslot rfl x hx]
    exact congrArg (fun slots => ({ c with slots } : SlabChunk α)) hslots
  rw [Slab.write, hchunks]

/-! ## What a slab holds -/

/-- **The entries of a slab that has lost none**, in the order of a `foreach`. -/
def Slab.Holds (slab : Slab α) (entries : List (EntryPtr × α)) : Prop :=
  ∃ live pl fl, SlabInv ⟨slab, live⟩ pl fl ∧ visits slab (pl ++ fl) = entries

theorem holds_init : (initSlab : Slab α).Holds [] := ⟨[], [], [], slabInv_init, rfl⟩

section
variable {entries : List (EntryPtr × α)}

/-- **A `foreach` goes through the entries** until its callback stops it. -/
theorem Slab.Holds.foreach (h : s.Holds entries) (cb : σ → EntryPtr → α → Int × σ) (ctx : σ) :
    slabForeach cb s ctx = some (foreachList cb entries ctx) := by
  obtain ⟨live, pl, fl, hinv, rfl⟩ := h
  exact hinv.foreach cb ctx

theorem Slab.Holds.entries_eq (h : s.Holds entries) : s.entries = some entries := by
  have hfold : ∀ (l found : List (EntryPtr × α)),
      l.foldl (fun found p => found ++ [(p.1, p.2)]) found = found ++ l := by
    intro l
    induction l with
    | nil => exact fun found => (List.append_nil found).symm
    | cons p l ih => exact fun found => by rw [List.foldl_cons, ih, List.append_assoc, List.singleton_append]
  rw [Slab.entries, h.foreach, foreachList_eq_foldl (fun _ _ _ => rfl), hfold, Option.map_some, List.nil_append]

theorem Slab.Holds.nodup (h : s.Holds entries) : (entries.map Prod.fst).Nodup := by
  obtain ⟨live, pl, fl, hinv, rfl⟩ := h
  exact nodup_visits hinv.lists.nodup

theorem Slab.Holds.write (h : s.Holds entries) (f : EntryPtr → Option α) :
    (s.write f).Holds (entries.map (rewritten f)) := by
  obtain ⟨live, pl, fl, hinv, rfl⟩ := h
  exact ⟨live.map (rewritten f), pl, fl,
    ⟨hinv.nbSlots, hinv.lists.write f, hinv.slots.write f, hinv.kinds.write f⟩, visits_write _ f⟩

/-- The entries are written as they are. -/
theorem Slab.Holds.write_self (h : s.Holds entries) (hf : ∀ e x, f e = some x → (e, x) ∈ entries) : s.write f = s := by
  obtain ⟨live, pl, fl, hinv, rfl⟩ := h
  refine Slab.write_eq_self (fun e a b slot hb hslot ha x hx => ?_)
  subst ha
  obtain ⟨-, b', hb', hmem⟩ := mem_visits.1 (hf e x hx)
  obtain ⟨-, -, -, slot', hslot', rfl⟩ := mem_entriesOf.1 hmem
  rw [hb, Option.some.injEq] at hb'
  subst hb'
  rw [hslot, Option.some.injEq] at hslot'
  rw [hslot']

/-- An add with memory has an address. -/
theorem addEntryToSlab_true {x : α} {r : Slab α × Option EntryPtr} (h : addEntryToSlab true s x = some r) :
    ∃ e, r.2 = some e := by
  have hchunk : ∀ {s : Slab α} {a : Nat}, addEntryToChunk s a x = some r → ∃ e, r.2 = some e := by
    intro s a h
    obtain ⟨c, -, h⟩ := Option.bind_eq_some_iff.1 h
    split at h
    · cases h
    · simp only at h
      split at h
      · obtain ⟨s₁, -, h⟩ := Option.bind_eq_some_iff.1 h
        obtain ⟨s₂, -, h⟩ := Option.bind_eq_some_iff.1 h
        cases h
        exact ⟨_, rfl⟩
      · obtain ⟨s₁, -, h⟩ := Option.bind_eq_some_iff.1 h
        cases h
        exact ⟨_, rfl⟩
  unfold addEntryToSlab at h
  split at h
  · exact hchunk h
  · rw [if_pos rfl] at h
    exact hchunk h

/-- An add succeeds, also one that loses a chunk. -/
theorem Slab.Holds.exists_add (h : s.Holds entries) (x : α) : ∃ r, addEntryToSlab true s x = some r := by
  obtain ⟨live, pl, fl, hinv, -⟩ := h
  obtain ⟨run', hstep, -⟩ := slabStep_add hinv true x
  obtain ⟨r, hadd, -⟩ := Option.bind_eq_some_iff.1 hstep
  exact ⟨r, hadd⟩

/-- **An add that loses no chunk** adds its entry. -/
theorem Slab.Holds.add (h : s.Holds entries) {x : α} (hkeeps : KeepsPartial ⟨s, []⟩ (.add true x)) :
    ∃ s' e entries', addEntryToSlab true s x = some (s', some e) ∧ s'.Holds entries' ∧
      entries'.Perm ((e, x) :: entries) := by
  obtain ⟨live, pl, fl, hinv, rfl⟩ := h
  obtain ⟨run', hstep, hkept, -⟩ := slabStep_add hinv true x
  obtain ⟨⟨s', e⟩, hadd, hrun'⟩ := Option.bind_eq_some_iff.1 hstep
  obtain ⟨e, rfl⟩ := addEntryToSlab_true hadd
  cases hrun'
  obtain ⟨pl', fl', hinv'⟩ := hkept hkeeps
  refine ⟨s', e, _, hadd, ⟨_, pl', fl', hinv', rfl⟩, ?_⟩
  exact (hinv'.slots.perm_visits hinv'.lists).trans ((hinv.slots.perm_visits hinv.lists).symm.cons _)

/-- The removal of an entry succeeds. -/
theorem SlabInv.remove_ret {live : List (EntryPtr × α)} {pl fl : List Nat} (h : SlabInv ⟨s, live⟩ pl fl) {e : EntryPtr}
    (he : e ∈ live.map Prod.fst) {r : Slab α × Int} (hr : removeEntryFromSlab s e = some r) : r.2 = 0 := by
  obtain ⟨⟨e, x⟩, hx, rfl⟩ := List.mem_map.1 he
  obtain ⟨-, b, hb, -⟩ := h.slots.busy e x hx
  obtain ⟨s₁, h₁, -⟩ := storeChunk_body hb (b.1 ||| (1#64 <<< e.bit)) (clearHeader e.bit)
  rw [removeEntryFromSlab_eq h.nbSlots h.slots he hb h₁] at hr
  obtain ⟨s₂, -, hr⟩ := Option.bind_eq_some_iff.1 hr
  obtain ⟨s₃, -, rfl⟩ := Option.map_eq_some_iff.1 hr
  rfl

/-- **A removal** removes its entry. -/
theorem Slab.Holds.remove (h : s.Holds entries) {e : EntryPtr} (he : e ∈ entries.map Prod.fst) :
    ∃ s' entries', removeEntryFromSlab s e = some (s', 0) ∧ s'.Holds entries' ∧
      entries'.Perm (entries.filter (·.1 ≠ e)) := by
  obtain ⟨live, pl, fl, hinv, rfl⟩ := h
  have hperm := hinv.slots.perm_visits hinv.lists
  have hlive : e ∈ live.map Prod.fst := (hperm.map Prod.fst).mem_iff.1 he
  obtain ⟨run', hstep, pl', fl', hinv'⟩ := slabStep_remove hinv hlive
  obtain ⟨⟨s', ret⟩, hremove, hrun'⟩ := Option.bind_eq_some_iff.1 hstep
  obtain rfl : ret = 0 := hinv.remove_ret hlive hremove
  cases hrun'
  refine ⟨s', _, hremove, ⟨_, pl', fl', hinv', rfl⟩, ?_⟩
  exact (hinv'.slots.perm_visits hinv'.lists).trans ((hperm.filter _).symm)

end

end Pincaster
