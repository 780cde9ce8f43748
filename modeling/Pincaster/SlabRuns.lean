import Pincaster.SlabLaw
/-!
# SlabRuns — the slab law over whole runs

What an add and a remove do to the invariant of `SlabLaw`, and from it the law: it holds all along a run exactly when
no add of the run loses a chunk (`foreach_law_iff_keepsPartial`).
-/
namespace Pincaster

open Lib (Heap Chain System)

variable {α : Type}

/-- A chunk that `malloc` just returned has every slot free. -/
theorem newSlabChunk_lists {s : Slab α} {fl : List Nat} (hl : Lists s [] fl) :
    Lists { s with chunks := s.chunks.alloc newSlabChunk, firstPartialChunk := some s.chunks.brk } [s.chunks.brk] fl
    := by
  have hbrk : s.body s.chunks.brk = none := by simp [Slab.body, s.chunks.fresh _ (Nat.le_refl _)]
  have hfl : s.chunks.brk ∉ fl := fun e => by
    have := (hl.allocated s.chunks.brk).2 (by simpa using e)
    rw [hbrk] at this
    cases this
  refine ⟨⟨rfl, ?_, ?_⟩, hl.fullChain.congr (fun a ha => ?_), List.nodup_cons.2 ⟨hfl, hl.nodup⟩, fun a => ?_⟩
  · simp [Slab.pv, newSlabChunk]
  · simp [Slab.nx, newSlabChunk]
  · have hne : a ≠ s.chunks.brk := fun e => hfl (e ▸ ha)
    simp [Slab.nx, Slab.pv, hne]
  · by_cases ha : a = s.chunks.brk
    · subst ha
      simp [Slab.body]
    · have := hl.allocated a
      simpa [Slab.body, ha] using this

/-- What the run of an add has to know of the first partial chunk. -/
theorem keepsPartial_iff {s : SlabRun α} {a : Nat} {pl fl : List Nat} (hl : Lists s.slab (a :: pl) fl)
    {b : BitmapType × (Nat → Option (SlabSlot α))} (hb : s.slab.body a = some b) (m : Bool) (x : α) :
    KeepsPartial s (.add m x) ↔ (b.1 &&& ~~~(1#64 <<< (ffsl b.1 - 1)) = 0 → pl = []) := by
  obtain ⟨c, hc⟩ := Slab.cells_of_body (s := s.slab) (a := a) (by rw [hb]; rfl)
  have hcb := hb
  rw [Slab.body_of_cells hc, Option.some.injEq] at hcb
  have hnx : c.next = pl.head? := by
    rw [← Slab.nx_of_cells hc]
    exact hl.partialChain.2.2.head_eq
  constructor
  · intro h hz
    have := h a c hl.partialChain.1 hc (by rw [← hcb] at hz; exact hz)
    rw [hnx] at this
    exact List.head?_eq_none_iff.1 this
  · intro h a' c' ha' hc' hz
    rw [hl.partialChain.1, Option.some.injEq] at ha'
    subst ha'
    rw [hc, Option.some.injEq] at hc'
    subst hc'
    rw [hnx, h (by rw [← hcb]; exact hz)]
    rfl

/-- A new chunk has no busy slot. -/
theorem Slots.newChunk {s : Slab α} {live : List (EntryPtr × α)} (h : Slots s.body live) (head : Option Nat) :
    Slots ({ s with chunks := s.chunks.alloc newSlabChunk, firstPartialChunk := head } : Slab α).body live := by
  have hbrk : s.body s.chunks.brk = none := by simp [Slab.body, s.chunks.fresh _ (Nat.le_refl _)]
  have hbody : ∀ c, ({ s with chunks := s.chunks.alloc newSlabChunk, firstPartialChunk := head } : Slab α).body c =
      if c = s.chunks.brk then some (~~~0#64, fun _ => none) else s.body c := fun c => by
    by_cases hc : c = s.chunks.brk <;> simp [Slab.body, hc, newSlabChunk]
  refine ⟨fun a b i hab hi hfree => ?_, fun e y he => ?_, h.nodup⟩
  · rw [hbody] at hab
    split at hab
    · cases hab
      rw [(bitmap_eq_ones_iff _).1 rfl i hi] at hfree
      cases hfree
    · exact h.owned a b i hab hi hfree
  · obtain ⟨hlt, b, hb, hfree⟩ := h.busy e y he
    have hold : e.chunk ≠ s.chunks.brk := fun heq => by
      rw [heq, hbrk] at hb
      cases hb
    exact ⟨hlt, b, by rw [hbody, if_neg hold]; exact hb, hfree⟩

/-- **An add always has a result**; it keeps the invariant when it loses no chunk, and breaks both laws otherwise. -/
theorem slabStep_add {s : SlabRun α} {pl fl : List Nat} (h : SlabInv s pl fl) (m : Bool) (x : α) :
    ∃ s', slabStep s (.add m x) = some s' ∧ (KeepsPartial s (.add m x) → ∃ pl' fl', SlabInv s' pl' fl') ∧
      (¬ KeepsPartial s (.add m x) → ¬ ForeachLaw s' ∧ ¬ ChunkLaw s') := by
  cases pl with
  | cons a pl =>
    have hfp := h.lists.partialChain.1
    obtain ⟨b, hb⟩ := Option.isSome_iff_exists.1 ((h.lists.allocated a).2 (by simp))
    obtain ⟨s', bit, hs', rfl, hgood, hbad⟩ := addEntryToChunk_inv h.nbSlots h.lists h.slots hb
      (h.kinds.free a (by simp) b hb) ⟨fun c hc => h.kinds.free c (List.mem_cons_of_mem _ hc),
        fun c hc => h.kinds.used c (List.mem_cons_of_mem _ hc), h.kinds.full⟩ x
    refine ⟨⟨s', (⟨a, ffsl b.1 - 1⟩, x) :: s.live⟩, by simp [slabStep, addEntryToSlab, hfp, hs'], ?_⟩
    rw [keepsPartial_iff h.lists hb]
    exact ⟨hgood, fun hk => by
      rw [Classical.not_imp] at hk
      exact hbad hk.1 hk.2⟩
  | nil =>
    have hfp : s.slab.firstPartialChunk = none := h.lists.partialChain
    have hk : KeepsPartial s (.add m x) := fun a c ha => by rw [hfp] at ha; cases ha
    cases m with
    | false =>
      exact ⟨⟨s.slab, s.live⟩, by simp [slabStep, addEntryToSlab, hfp], fun _ => ⟨[], fl, h⟩, fun hk' => absurd hk hk'⟩
    | true =>
      obtain ⟨s₁, hs₁⟩ : ∃ s₁ : Slab α, s₁ = { s.slab with
          chunks := s.slab.chunks.alloc newSlabChunk, firstPartialChunk := some s.slab.chunks.brk } := ⟨_, rfl⟩
      have hl₁ : Lists s₁ [s.slab.chunks.brk] fl := hs₁ ▸ newSlabChunk_lists h.lists
      have hbody : ∀ c, s₁.body c = if c = s.slab.chunks.brk then some (~~~0#64, fun _ => none) else s.slab.body c := by
        intro c
        by_cases hc : c = s.slab.chunks.brk <;> simp [hs₁, Slab.body, hc, newSlabChunk]
      have hslots₁ : Slots s₁.body s.live := hs₁ ▸ h.slots.newChunk _
      have hkinds₁ : Kinds s₁.body [] fl := ⟨by simp, by simp, fun c hc d hd => by
        have hne : c ≠ s.slab.chunks.brk := fun e =>
          (List.nodup_cons.1 (show (s.slab.chunks.brk :: fl).Nodup from hl₁.nodup)).1 (e ▸ hc)
        rw [hbody, if_neg hne] at hd
        exact h.kinds.full c hc d hd⟩
      obtain ⟨s', bit, hs', _, hgood, _⟩ := addEntryToChunk_inv (by rw [hs₁]; exact h.nbSlots) hl₁ hslots₁
        (by rw [hbody, if_pos rfl]) (b := (~~~0#64, fun _ => none)) (show ~~~0#64 ≠ 0 by decide) hkinds₁ x
      refine ⟨⟨s', (⟨s.slab.chunks.brk, bit⟩, x) :: s.live⟩, ?_, fun _ => hgood (fun _ => rfl),
        fun hk' => absurd hk hk'⟩
      simp [slabStep, addEntryToSlab, hfp, ← hs₁, hs']

theorem scanSlots_eq (a i : Nat) : ∀ (n bit : Nat), bit ≤ i → i < bit + n → scanSlots a ⟨a, i⟩ n bit = some i
  | 0, _, h1, h2 => by omega
  | n + 1, bit, h1, h2 => by
    rw [scanSlots]
    by_cases h : bit = i
    · subst h
      simp
    · rw [if_neg (by simp [h])]
      exact scanSlots_eq a i n (bit + 1) (by omega) (by omega)

/-- The header of a removed entry is cleared. -/
def clearHeader (bit : Nat) (slots : Nat → Option (SlabSlot α)) : Nat → Option (SlabSlot α) :=
  fun i => if i = bit then (slots i).map ({ · with slabChunk := none }) else slots i

/-- `remove_entry_from_slab` on a live entry, up to what it does to the lists. -/
theorem removeEntryFromSlab_eq {s : Slab α} {live : List (EntryPtr × α)} {e : EntryPtr} (hnb : s.nbSlotsPerChunk = 64)
    (hs : Slots s.body live) (he : e ∈ live.map Prod.fst) {b : BitmapType × (Nat → Option (SlabSlot α))}
    (hb : s.body e.chunk = some b) {s₁ : Slab α} (h₁ : s.storeChunk e.chunk (fun x => { x with
      bitmap := b.1 ||| (1#64 <<< e.bit), slots := clearHeader e.bit x.slots }) = some s₁) :
    removeEntryFromSlab s e = (if b.1 = 0 then moveToPartial s₁ e.chunk else some s₁).bind (fun s₂ =>
      (if b.1 ||| (1#64 <<< e.bit) = ~~~0#64 then (if b.1 = 0 then none else freeChunk s₂ e.chunk) else some s₂).map
        (fun s₃ => (s₃, 0))) := by
  obtain ⟨⟨e, x⟩, hx, rfl⟩ := List.mem_map.1 he
  obtain ⟨hlt, b', hb', hfree⟩ := hs.busy e x hx
  rw [hb, Option.some.injEq] at hb'
  subst hb'
  obtain ⟨y, hy, _⟩ := hs.owned e.chunk b e.bit hb hlt hfree
  obtain ⟨c, hc⟩ := Slab.cells_of_body (s := s) (a := e.chunk) (by rw [hb]; rfl)
  rw [Slab.body_of_cells hc, Option.some.injEq] at hb
  subst hb
  have hscan : scanSlots e.chunk e 64 0 = some e.bit := scanSlots_eq e.chunk e.bit 64 0 (by omega) (by omega)
  have hslot : c.slots e.bit = some ⟨some e.chunk, y⟩ := hy
  have hstore : s.storeChunk e.chunk (fun x => { x with
      bitmap := c.bitmap ||| (1#64 <<< e.bit), slots := fun i =>
        if i = e.bit then (x.slots i).map ({ · with slabChunk := none }) else x.slots i }) = some s₁ := h₁
  simp only [removeEntryFromSlab, hc, Option.bind_eq_bind, Option.bind_some, hslot, hnb, hscan, hstore]
  split <;> split <;> simp [Option.map_eq_bind]

/-- **A removal of a live entry has a result and keeps the invariant.** -/
theorem slabStep_remove {s : SlabRun α} {pl fl : List Nat} (h : SlabInv s pl fl) {e : EntryPtr}
    (he : e ∈ s.live.map Prod.fst) : ∃ s', slabStep s (.remove e) = some s' ∧ ∃ pl' fl', SlabInv s' pl' fl' := by
  obtain ⟨⟨e, x⟩, hx, rfl⟩ := List.mem_map.1 he
  obtain ⟨hlt, b, hb, hfree⟩ := h.slots.busy e x hx
  obtain ⟨s₁, h₁, nb₁, fp₁, hl₁, _, body₁⟩ := storeChunk_body hb (b.1 ||| (1#64 <<< e.bit)) (clearHeader e.bit)
  have hl₁ := hl₁ _ _ h.lists
  have heq := removeEntryFromSlab_eq h.nbSlots h.slots he hb h₁
  have hslots₁ : Slots s₁.body (s.live.filter (·.1 ≠ e)) :=
    h.slots.release hb (fun i hi => if_neg hi) body₁
  have hbody_ne : ∀ c, c ≠ e.chunk → s₁.body c = s.slab.body c := fun c hc => by rw [body₁, if_neg hc]
  have hbody_e := body₁ e.chunk
  rw [if_pos rfl] at hbody_e
  have hmem : e.chunk ∈ pl ++ fl := (h.lists.allocated _).1 (by rw [hb]; rfl)
  have hnd := List.nodup_append.1 h.lists.nodup
  by_cases hfull : b.1 = 0
  · -- a full chunk goes back to the partial list
    have hfl : e.chunk ∈ fl := (List.mem_append.1 hmem).resolve_left (fun hp => h.kinds.free _ hp b hb hfull)
    have hpl : e.chunk ∉ pl := fun hp => hnd.2.2 _ hp _ hfl rfl
    have hones : b.1 ||| (1#64 <<< e.bit) ≠ ~~~0#64 := by
      obtain ⟨j, hj, hne⟩ : ∃ j < 64, j ≠ e.bit := ⟨if e.bit = 0 then 1 else 0, by split <;> omega, by split <;> omega⟩
      intro ho
      have := (bitmap_eq_ones_iff _).1 ho j hj
      rw [getLsbD_set _ _ _ hj, hfull] at this
      simp [hne] at this
    obtain ⟨l₁, l₂, rfl⟩ := List.append_of_mem hfl
    obtain ⟨s₂, h₂, hl₂, nb₂, _, body₂⟩ := moveToPartial_spec hl₁
    have hbody₂ : s₂.body = s₁.body := funext body₂
    rw [if_pos hfull, h₂, Option.bind_some, if_neg hones, Option.map_some] at heq
    refine ⟨⟨s₂, _⟩, by simp only [slabStep, heq, Option.bind_eq_bind, Option.bind_some],
      e.chunk :: pl, l₁ ++ l₂, nb₂.trans (nb₁.trans h.nbSlots), hl₂, hbody₂ ▸ hslots₁, ?_, ?_, ?_⟩
    · intro c hc d hd
      rw [body₂] at hd
      rcases List.mem_cons.1 hc with rfl | hc
      · rw [hbody_e] at hd
        cases hd
        exact set_ne_zero b.1 hlt
      · exact h.kinds.free c hc d (by rw [← hbody_ne c (fun e' => hpl (e' ▸ hc)), hd])
    · intro c hc d hd
      rw [body₂] at hd
      rcases List.mem_cons.1 hc with rfl | hc
      · rw [hbody_e] at hd
        cases hd
        exact hones
      · exact h.kinds.used c hc d (by rw [← hbody_ne c (fun e' => hpl (e' ▸ hc)), hd])
    · intro c hc d hd
      rw [body₂] at hd
      have hne : c ≠ e.chunk := fun e' => by
        subst e'
        exact (nodup_rotate (q := []) (by simpa using hnd.2.1)).2.2 hc
      exact h.kinds.full c (by simp only [List.mem_append, List.mem_cons] at hc ⊢; tauto) d
        (by rw [← hbody_ne c hne, hd])
  · have hpl : e.chunk ∈ pl := (List.mem_append.1 hmem).resolve_right (fun hf => hfull (h.kinds.full _ hf b hb))
    have hfl : e.chunk ∉ fl := fun hf => hnd.2.2 _ hpl _ hf rfl
    have hkfull : ∀ c ∈ fl, ∀ d, s₁.body c = some d → d.1 = 0 := fun c hc d hd =>
      h.kinds.full c hc d (by rw [← hbody_ne c (fun e' => hfl (e' ▸ hc)), hd])
    by_cases hones : b.1 ||| (1#64 <<< e.bit) = ~~~0#64
    · -- an empty chunk is freed
      obtain ⟨l₁, l₂, rfl⟩ := List.append_of_mem hpl
      obtain ⟨s₂, h₂, hl₂, nb₂, body₂⟩ := freeChunk_spec hl₁
      have hne : ∀ c ∈ l₁ ++ l₂, c ≠ e.chunk ∧ c ∈ l₁ ++ e.chunk :: l₂ := fun c hc => by
        refine ⟨fun e' => ?_, by simp only [List.mem_append, List.mem_cons] at hc ⊢; tauto⟩
        subst e'
        exact (nodup_rotate (q := []) (by simpa using hnd.1)).2.2 hc
      have hold : ∀ c ∈ l₁ ++ l₂, ∀ d, s₂.body c = some d → s.slab.body c = some d := fun c hc d hd => by
        rw [body₂, if_neg (hne c hc).1, hbody_ne c (hne c hc).1] at hd
        exact hd
      rw [if_neg hfull, Option.bind_some, if_pos hones, if_neg hfull, h₂, Option.map_some] at heq
      refine ⟨⟨s₂, _⟩, by simp only [slabStep, heq, Option.bind_eq_bind, Option.bind_some], l₁ ++ l₂, fl, nb₂.trans (nb₁.trans h.nbSlots), hl₂,
        hslots₁.drop (by rw [hbody_e, hones]) body₂, fun c hc d hd => ?_, fun c hc d hd => ?_, fun c hc d hd => ?_⟩
      · exact h.kinds.free c (hne c hc).2 d (hold c hc d hd)
      · exact h.kinds.used c (hne c hc).2 d (hold c hc d hd)
      · have hce : c ≠ e.chunk := fun e' => hfl (e' ▸ hc)
        rw [body₂, if_neg hce] at hd
        exact hkfull c hc d hd
    · rw [if_neg hfull, Option.bind_some, if_neg hones, Option.map_some] at heq
      refine ⟨⟨s₁, _⟩, by simp only [slabStep, heq, Option.bind_eq_bind, Option.bind_some], pl, fl, nb₁.trans h.nbSlots, hl₁, hslots₁,
        fun c hc d hd => ?_, fun c hc d hd => ?_, hkfull⟩
      · rw [body₁] at hd
        split at hd
        · cases hd
          exact set_ne_zero b.1 hlt
        · exact h.kinds.free c hc d hd
      · rw [body₁] at hd
        split at hd
        · cases hd
          exact hones
        · exact h.kinds.used c hc d hd

/-- **One legal step**: it has a result, keeps the invariant when it loses no chunk and breaks both laws otherwise. -/
theorem slabStep_spec {s : SlabRun α} {pl fl : List Nat} (h : SlabInv s pl fl) {i : SlabOp α}
    (hi : (slabSystem α).legal s i) :
    ∃ s', slabStep s i = some s' ∧ (KeepsPartial s i → ∃ pl' fl', SlabInv s' pl' fl') ∧
      (¬ KeepsPartial s i → ¬ ForeachLaw s' ∧ ¬ ChunkLaw s') := by
  cases i with
  | add m x => exact slabStep_add h m x
  | remove e =>
    obtain ⟨s', hs', hinv⟩ := slabStep_remove h hi
    exact ⟨s', hs', fun _ => hinv, fun hk => absurd trivial hk⟩

/-- **The law of the slab holds all along a run exactly when no add of the run loses a chunk**, read through a
`foreach` as well as through the two lists; and a run of such steps always goes on. -/
theorem foreach_law_iff_keepsPartial {h : List (SlabRun α × SlabOp α)} {s : SlabRun α}
    (hr : (slabSystem α).Run h s) :
    (((∀ p ∈ h, ForeachLaw p.1) ∧ ForeachLaw s) ↔ ∀ p ∈ h, KeepsPartial p.1 p.2) ∧
    (((∀ p ∈ h, ChunkLaw p.1) ∧ ChunkLaw s) ↔ ∀ p ∈ h, KeepsPartial p.1 p.2) ∧
    ((∀ p ∈ h, KeepsPartial p.1 p.2) → ∀ i, (slabSystem α).legal s i → ((slabSystem α).step s i).isSome) := by
  have hstep : ∀ s i s', (∃ pl fl, SlabInv s pl fl) → (slabSystem α).legal s i → KeepsPartial s i →
      (slabSystem α).step s i = some s' → ∃ pl fl, SlabInv s' pl fl := by
    rintro s i s' ⟨pl, fl, hinv⟩ hi hk hs'
    obtain ⟨s'', hs'', hgood, _⟩ := slabStep_spec hinv hi
    rw [show (slabSystem α).step s i = slabStep s i from rfl, hs'', Option.some.injEq] at hs'
    subst hs'
    exact hgood hk
  have hbad : ∀ s i s', (∃ pl fl, SlabInv s pl fl) → (slabSystem α).legal s i → ¬ KeepsPartial s i →
      (slabSystem α).step s i = some s' → ¬ ForeachLaw s' ∧ ¬ ChunkLaw s' := by
    rintro s i s' ⟨pl, fl, hinv⟩ hi hk hs'
    obtain ⟨s'', hs'', _, hlost⟩ := slabStep_spec hinv hi
    rw [show (slabSystem α).step s i = slabStep s i from rfl, hs'', Option.some.injEq] at hs'
    subst hs'
    exact hlost hk
  have h0 : ∃ pl fl, SlabInv (slabSystem α).init pl fl := ⟨[], [], slabInv_init⟩
  refine ⟨hr.law_iff_good h0 (fun s ⟨_, _, hi⟩ => hi.foreachLaw) hstep
      (fun s i s' hi hl hk hs => (hbad s i s' hi hl hk hs).1),
    hr.law_iff_good h0 (fun s ⟨_, _, hi⟩ => hi.chunkLaw) hstep
      (fun s i s' hi hl hk hs => (hbad s i s' hi hl hk hs).2), fun hk i hi => ?_⟩
  obtain ⟨_, _, hinv⟩ := (hr.inv_of_good _ _ h0 hstep hk).2
  obtain ⟨s', hs', _⟩ := slabStep_spec hinv hi
  rw [show (slabSystem α).step s i = slabStep s i from rfl, hs']
  rfl

instance (s : SlabRun α) (i : SlabOp α) : Decidable ((slabSystem α).legal s i) :=
  match i with
  | .add _ _ => .isTrue trivial
  | .remove e => inferInstanceAs (Decidable (e ∈ s.live.map Prod.fst))

/-- A run that adds an entry and removes it again. -/
theorem foreach_law_add_remove : ∃ h s, (slabSystem Nat).Run h s ∧
    h.map Prod.snd = [SlabOp.add true 7, SlabOp.remove ⟨0, 0⟩] ∧ ForeachLaw s := by
  obtain ⟨s₁, h₁⟩ : ∃ s₁, (slabSystem Nat).step (slabSystem Nat).init (SlabOp.add true 7) = some s₁ := ⟨_, rfl⟩
  obtain ⟨s₂, h₂⟩ : ∃ s₂, (slabSystem Nat).step s₁ (SlabOp.remove ⟨0, 0⟩) = some s₂ := by
    cases h₁; exact ⟨_, rfl⟩
  have hl : (slabSystem Nat).legal s₁ (SlabOp.remove ⟨0, 0⟩) := by
    cases h₁
    decide
  have hr := (Lib.System.Run.init.snoc trivial h₁).snoc hl h₂
  refine ⟨_, s₂, hr, rfl, ((foreach_law_iff_keepsPartial hr).1.2 (fun p hp => ?_)).2⟩
  rcases List.mem_append.1 hp with hp | hp
  · rw [List.nil_append] at hp
    rw [List.mem_singleton.1 hp]
    exact fun a c ha => by cases ha
  · rw [List.mem_singleton.1 hp]
    trivial

/-- 65 adds, the removal of the first entry, which moves the full chunk in front of the partial one, and one more
add, which fills it again. -/
def lostOps : List (SlabOp Nat) :=
  (List.range 65).map (.add true) ++ [.remove ⟨0, 0⟩, .add true 65]

set_option maxRecDepth 100000 in
theorem lostOps_exec : (((slabSystem Nat).exec lostOps (slabSystem Nat).init).bind (fun s =>
    (slabForeach (fun (n : Nat) _ _ => (0, n + 1)) s.slab 0).map (fun r => (r, s.live.length)))) =
      some ((0, 64), 65) := by decide +kernel

/-- **After that add the entry of the second chunk is live and no longer visited.** -/
theorem foreach_loses_entry : ∃ h s, (slabSystem Nat).Run h s ∧ h.map Prod.snd = lostOps ∧ s.live.length = 65 ∧
    slabForeach (fun (n : Nat) _ _ => (0, n + 1)) s.slab 0 = some (0, 64) ∧ ¬ ForeachLaw s := by
  obtain ⟨s, hs, hv⟩ := Option.bind_eq_some_iff.1 lostOps_exec
  obtain ⟨r, hr, heq⟩ := Option.map_eq_some_iff.1 hv
  obtain ⟨rfl, hlen⟩ := Prod.mk.inj heq
  obtain ⟨h, hrun, hops⟩ := Lib.System.Run.of_exec lostOps Lib.System.Run.init hs
  refine ⟨h, s, hrun, hops, hlen, hr, ?_⟩
  rintro ⟨order, hperm, _, hvis⟩
  have hcount := hvis Nat (fun n _ _ => (0, n + 1)) (fun _ _ _ => rfl) 0
  have hfold : ∀ (l : List (EntryPtr × Nat)) (n : Nat), l.foldl (fun n _ => n + 1) n = n + l.length := by
    intro l
    induction l with
    | nil => simp
    | cons a l ih => intro n; simp [ih]; omega
  rw [hr] at hcount
  simp only [hfold, Option.some.injEq, Prod.mk.injEq, true_and, hperm.length_eq, hlen] at hcount
  omega

end Pincaster
