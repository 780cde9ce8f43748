import Pincaster.PanDbShape
/-!
# PanDbSlots — the slots of a tree and its key nodes

Slots and key nodes point to each other.  While a bucket is split or packed, the slots that were copied are stale: their
key nodes point to the copies.  A key node whose slot was freed is gone until its pointer is cleared.
-/
namespace Pincaster

variable {D κ : Type}

/-! ## Buckets -/

/-- **A bucket counts its entries**, which have numbers of their own. -/
structure BucketNode.WellFormed (b : BucketNode D κ) : Prop where
  busySlots : b.busySlots = b.entries.length
  nodup : (b.entries.map Prod.fst).Nodup
  lt_next : ∀ e ∈ b.entries, e.1 < b.next

/-- A bucket with one more slot. -/
def BucketNode.add (b : BucketNode D κ) (a : Nat) (slot : Slot D κ) : BucketNode D κ :=
  { b with
    busySlots := b.busySlots + 1, entries := b.entries ++ [(b.next, { slot with bucketNode := some a })]
    next := b.next + 1 }

/-- A bucket with one slot less. -/
def BucketNode.remove (b : BucketNode D κ) (entry : Nat) : BucketNode D κ :=
  { b with busySlots := b.busySlots - 1, entries := b.entries.filter (fun e => e.1 ≠ entry) }

theorem BucketNode.WellFormed.add {b : BucketNode D κ} (h : b.WellFormed) (a : Nat) (slot : Slot D κ) :
    (b.add a slot).WellFormed := by
  refine ⟨by simp [BucketNode.add, h.busySlots], ?_, ?_⟩
  · simp only [BucketNode.add, List.map_append, List.map_cons, List.map_nil]
    refine List.Nodup.append h.nodup (List.nodup_singleton _) ?_
    intro n hn hn'
    obtain ⟨e, he, rfl⟩ := List.mem_map.1 hn
    rw [List.mem_singleton] at hn'
    exact absurd (h.lt_next e he) (by omega)
  · intro e he
    simp only [BucketNode.add, List.mem_append, List.mem_singleton] at he ⊢
    rcases he with he | rfl
    · have := h.lt_next e he
      omega
    · simp

/-- Two entries of one number are one entry. -/
theorem BucketNode.WellFormed.unique {b : BucketNode D κ} (h : b.WellFormed) {e e' : Nat × Slot D κ}
    (he : e ∈ b.entries) (he' : e' ∈ b.entries) (heq : e.1 = e'.1) : e = e' :=
  List.inj_on_of_nodup_map h.nodup he he' heq

theorem BucketNode.WellFormed.lookup {b : BucketNode D κ} (h : b.WellFormed) {n : Nat} {slot : Slot D κ}
    (he : (n, slot) ∈ b.entries) : b.entries.lookup n = some slot := by
  cases hl : b.entries.lookup n with
  | none =>
    have := List.lookup_eq_none_iff.1 hl (n, slot) he
    simp at this
  | some slot' =>
    obtain ⟨l₁, l₂, heq, -⟩ := List.lookup_eq_some_iff.1 hl
    have he' : (n, slot') ∈ b.entries := by simp [heq]
    cases h.unique he he' rfl
    rfl

theorem BucketNode.WellFormed.remove {b : BucketNode D κ} (h : b.WellFormed) {n : Nat} {slot : Slot D κ}
    (he : (n, slot) ∈ b.entries) : (b.remove n).WellFormed := by
  obtain ⟨l₁, l₂, heq⟩ := List.append_of_mem he
  have hne : ∀ e ∈ l₁ ++ l₂, e.1 ≠ n := by
    intro e hm hn
    have hnodup := h.nodup
    rw [heq, List.map_append, List.map_cons, List.nodup_middle, List.nodup_cons] at hnodup
    have hmem : e.1 ∈ (l₁ ++ l₂).map Prod.fst := List.mem_map_of_mem hm
    exact hnodup.1 (by rw [← List.map_append, ← hn]; exact hmem)
  have hfilter : b.entries.filter (fun e => e.1 ≠ n) = l₁ ++ l₂ := by
    rw [heq, List.filter_append, List.filter_cons, if_neg (by simp), ← List.filter_append]
    exact List.filter_eq_self.2 (fun e hm => by simpa using hne e hm)
  refine ⟨?_, h.nodup.sublist (List.filter_sublist.map _), fun e hm => h.lt_next e (List.mem_of_mem_filter hm)⟩
  have hlen := h.busySlots
  simp only [BucketNode.remove]
  rw [hfilter, hlen, heq]
  simp

/-! ## Slots and key nodes -/

section
variable [LinearOrder D]

/-- **Every slot lies in the cell of its bucket, and slots and key nodes point to each other**, but for the stale slots
and the key nodes that are gone.  `pos` is where the key nodes are. -/
structure Located (buckets : Nat → Option (BucketNode D κ)) (slots : κ → Option SlotPtr)
    (pos : κ → Option (Position2D D)) (cell : Nat → Rectangle2D D) (stale : SlotPtr → Prop) (gone : κ → Prop) :
    Prop where
  wellFormed : ∀ {a b}, buckets a = some b → b.WellFormed
  entry : ∀ {a b}, buckets a = some b → ∀ e ∈ b.entries, positionIsInRect e.2.position (cell a) ∧
    e.2.bucketNode = some a ∧ ∃ k, e.2.keyNode = some k ∧ ¬ gone k ∧ pos k = some e.2.position ∧
      (¬ stale ⟨a, e.1⟩ → slots k = some ⟨a, e.1⟩)
  key : ∀ {k ptr}, ¬ gone k → slots k = some ptr → ∃ b slot, buckets ptr.bucket = some b ∧
    (ptr.entry, slot) ∈ b.entries ∧ slot.keyNode = some k ∧ ¬ stale ptr
  nowhere : ∀ {k}, ¬ gone k → slots k = none → pos k = none

variable {buckets : Nat → Option (BucketNode D κ)} {slots : κ → Option SlotPtr} {pos : κ → Option (Position2D D)}
  {cell : Nat → Rectangle2D D} {stale : SlotPtr → Prop} {gone : κ → Prop}

/-- A pointer is that of one key node. -/
theorem Located.key_unique (h : Located buckets slots pos cell stale gone) {k k' : κ} {ptr : SlotPtr} (hk : ¬ gone k)
    (hk' : ¬ gone k') (hs : slots k = some ptr) (hs' : slots k' = some ptr) : k = k' := by
  obtain ⟨b, slot, hb, hm, hkey, -⟩ := h.key hk hs
  obtain ⟨b', slot', hb', hm', hkey', -⟩ := h.key hk' hs'
  rw [hb, Option.some.injEq] at hb'
  subst hb'
  cases (h.wellFormed hb).unique hm hm' rfl
  rw [hkey, Option.some.injEq] at hkey'
  exact hkey'

variable [DecidableEq κ]

/-- **A slot is added** for a key node, whose position is set; the slot it had becomes stale. -/
theorem Located.add (h : Located buckets slots pos cell stale gone) {t : Nat} {bt : BucketNode D κ} {slot : Slot D κ}
    {k : κ} (ht : buckets t = some bt) (hk : slot.keyNode = some k) (hgone : ¬ gone k)
    (hin : positionIsInRect slot.position (cell t)) (hfresh : ¬ stale ⟨t, bt.next⟩)
    (hpos : ∀ a b, buckets a = some b → ∀ e ∈ b.entries, e.2.keyNode = some k → e.2.position = slot.position) :
    Located (Function.update buckets t (some (bt.add t slot))) (Function.update slots k (some ⟨t, bt.next⟩))
      (Function.update pos k (some slot.position)) cell (fun p => stale p ∨ slots k = some p) gone := by
  have hbt := h.wellFormed ht
  have hold : ∀ {a b}, buckets a = some b → ∀ e ∈ b.entries, positionIsInRect e.2.position (cell a) ∧
      e.2.bucketNode = some a ∧ ∃ k', e.2.keyNode = some k' ∧ ¬ gone k' ∧
        Function.update pos k (some slot.position) k' = some e.2.position ∧ (¬ (stale ⟨a, e.1⟩ ∨
        slots k = some ⟨a, e.1⟩) → Function.update slots k (some ⟨t, bt.next⟩) k' = some ⟨a, e.1⟩) := by
    intro a b hb e he
    obtain ⟨hp, hbn, k', hk', hg', hpk, hs⟩ := h.entry hb e he
    refine ⟨hp, hbn, k', hk', hg', ?_, fun hn => ?_⟩
    · by_cases hkk : k' = k
      · subst hkk
        rw [Function.update_self, hpos a b hb e he hk']
      · rw [Function.update_of_ne hkk, hpk]
    · rw [not_or] at hn
      have hne : k' ≠ k := fun heq => hn.2 (by rw [← heq]; exact hs hn.1)
      rw [Function.update_of_ne hne, hs hn.1]
  refine ⟨?_, ?_, ?_, ?_⟩
  · intro a b hb
    by_cases ha : a = t
    · subst ha
      rw [Function.update_self, Option.some.injEq] at hb
      exact hb ▸ hbt.add a slot
    · rw [Function.update_of_ne ha] at hb
      exact h.wellFormed hb
  · intro a b hb e he
    by_cases ha : a = t
    · subst ha
      rw [Function.update_self, Option.some.injEq] at hb
      subst hb
      rcases List.mem_append.1 he with he | he
      · exact hold ht e he
      · rw [List.mem_singleton] at he
        subst he
        exact ⟨hin, rfl, k, hk, hgone, Function.update_self .., fun _ => Function.update_self ..⟩
    · rw [Function.update_of_ne ha] at hb
      exact hold hb e he
  · intro k' ptr hg' hs
    by_cases hkk : k' = k
    · subst hkk
      rw [Function.update_self, Option.some.injEq] at hs
      subst hs
      refine ⟨_, { slot with bucketNode := some t }, Function.update_self .., by simp [BucketNode.add], hk, ?_⟩
      rintro (hst | hst)
      · exact hfresh hst
      · obtain ⟨b, slot', hb, hm, -, -⟩ := h.key hgone hst
        rw [ht, Option.some.injEq] at hb
        subst hb
        exact absurd (hbt.lt_next _ hm) (by simp)
    · rw [Function.update_of_ne hkk] at hs
      obtain ⟨b, slot', hb, hm, hk', hst⟩ := h.key hg' hs
      have hnot : ¬ (stale ptr ∨ slots k = some ptr) := by
        rintro (hst' | hst')
        · exact hst hst'
        · exact hkk (h.key_unique hg' hgone hs hst')
      by_cases ha : ptr.bucket = t
      · rw [ha, ht, Option.some.injEq] at hb
        subst hb
        exact ⟨bt.add t slot, slot', by rw [ha, Function.update_self], List.mem_append_left _ hm, hk', hnot⟩
      · exact ⟨b, slot', by rw [Function.update_of_ne ha]; exact hb, hm, hk', hnot⟩
  · intro k' hg' hs
    have hkk : k' ≠ k := by
      rintro rfl
      rw [Function.update_self] at hs
      cases hs
    rw [Function.update_of_ne hkk] at hs ⊢
    exact h.nowhere hg' hs

/-- **A slot is copied to another bucket**, and becomes stale. -/
theorem Located.move (h : Located buckets slots pos cell stale gone) {a t : Nat} {b bt : BucketNode D κ}
    {e : Nat × Slot D κ} (hb : buckets a = some b) (he : e ∈ b.entries) (hst : ¬ stale ⟨a, e.1⟩)
    (ht : buckets t = some bt) (hin : positionIsInRect e.2.position (cell t)) (hfresh : ¬ stale ⟨t, bt.next⟩) :
    ∃ k, e.2.keyNode = some k ∧ ¬ gone k ∧ Located (Function.update buckets t (some (bt.add t e.2)))
      (Function.update slots k (some ⟨t, bt.next⟩)) pos cell (fun p => stale p ∨ p = ⟨a, e.1⟩) gone := by
  obtain ⟨-, -, k, hk, hgone, hpk, hs⟩ := h.entry hb e he
  have hadd := h.add ht hk hgone hin hfresh (fun a' b' hb' e' he' hk' => by
    obtain ⟨-, -, k', hk'', -, hpk', -⟩ := h.entry hb' e' he'
    rw [hk', Option.some.injEq] at hk''
    rw [← hk'', hpk, Option.some.injEq] at hpk'
    exact hpk'.symm)
  have hstale : (fun p => stale p ∨ slots k = some p) = fun p => stale p ∨ p = ⟨a, e.1⟩ := by
    funext p
    rw [hs hst, Option.some.injEq, eq_comm (a := (⟨a, e.1⟩ : SlotPtr))]
  have hsame : Function.update pos k (some e.2.position) = pos := by rw [← hpk, Function.update_eq_self]
  rw [hstale, hsame] at hadd
  exact ⟨k, hk, hgone, hadd⟩

omit [DecidableEq κ] in
/-- No slot is that of a key node without a pointer. -/
theorem Located.keyNode_ne (h : Located buckets slots pos cell (fun _ => False) gone) {k : κ} (hk : slots k = none)
    {a : Nat} {b : BucketNode D κ} (hb : buckets a = some b) {e : Nat × Slot D κ} (he : e ∈ b.entries) :
    e.2.keyNode ≠ some k := by
  intro hkey
  obtain ⟨-, -, k', hk', -, -, hs⟩ := h.entry hb e he
  rw [hkey, Option.some.injEq] at hk'
  rw [← hk', hk] at hs
  cases hs (fun hf => hf)

omit [DecidableEq κ] in
/-- **A slot is freed**: its key node is gone. -/
theorem Located.remove (h : Located buckets slots pos cell (fun _ => False) (fun _ => False)) {a n : Nat}
    {b : BucketNode D κ} {slot : Slot D κ} {k : κ} (hb : buckets a = some b) (he : (n, slot) ∈ b.entries)
    (hs : slots k = some ⟨a, n⟩) :
    Located (Function.update buckets a (some (b.remove n))) slots pos cell (fun _ => False) (fun k' => k' = k) := by
  have hold : ∀ {a' b'}, buckets a' = some b' → ∀ e ∈ b'.entries, (⟨a', e.1⟩ : SlotPtr) ≠ ⟨a, n⟩ →
      positionIsInRect e.2.position (cell a') ∧ e.2.bucketNode = some a' ∧ ∃ k', e.2.keyNode = some k' ∧
        ¬ k' = k ∧ pos k' = some e.2.position ∧ (¬ False → slots k' = some ⟨a', e.1⟩) := by
    intro a' b' hb' e he' hne
    obtain ⟨hp, hbn, k', hk', -, hpk, hs'⟩ := h.entry hb' e he'
    refine ⟨hp, hbn, k', hk', fun hkk => ?_, hpk, hs'⟩
    rw [hkk, hs, Option.some.injEq] at hs'
    exact hne (hs' (by simp)).symm
  refine ⟨?_, ?_, ?_, fun _ hnone => h.nowhere (fun hf => hf) hnone⟩
  · intro a' b' hb'
    by_cases ha : a' = a
    · subst ha
      rw [Function.update_self, Option.some.injEq] at hb'
      exact hb' ▸ (h.wellFormed hb).remove he
    · rw [Function.update_of_ne ha] at hb'
      exact h.wellFormed hb'
  · intro a' b' hb' e he'
    by_cases ha : a' = a
    · subst ha
      rw [Function.update_self, Option.some.injEq] at hb'
      subst hb'
      obtain ⟨he', hne⟩ := List.mem_filter.1 he'
      exact hold hb e he' (by simpa using hne)
    · rw [Function.update_of_ne ha] at hb'
      exact hold hb' e he' (by simp [ha])
  · intro k' ptr hk' hs'
    obtain ⟨b', slot', hb', hm, hkey, -⟩ := h.key (fun hf => hf) hs'
    by_cases ha : ptr.bucket = a
    · rw [ha, hb, Option.some.injEq] at hb'
      subst hb'
      refine ⟨_, slot', by rw [ha, Function.update_self], List.mem_filter.2 ⟨hm, ?_⟩, hkey, fun hf => hf⟩
      have hne : ptr.entry ≠ n := fun hn => hk' (h.key_unique (fun hf => hf) (fun hf => hf) hs' (by
        rw [hs, ← ha, ← hn]))
      simpa using hne
    · exact ⟨b', slot', by rw [Function.update_of_ne ha]; exact hb', hm, hkey, fun hf => hf⟩

/-- The pointer of a key node that is gone is cleared. -/
theorem Located.clear {k : κ} (h : Located buckets slots pos cell (fun _ => False) (fun k' => k' = k)) :
    Located buckets (Function.update slots k none) (Function.update pos k none) cell (fun _ => False)
      (fun _ => False) := by
  refine ⟨h.wellFormed, ?_, ?_, ?_⟩
  · intro a b hb e he
    obtain ⟨hp, hbn, k', hk', hne, hpk, hs⟩ := h.entry hb e he
    exact ⟨hp, hbn, k', hk', fun hf => hf, by rw [Function.update_of_ne hne, hpk],
      fun hf => by rw [Function.update_of_ne hne, hs hf]⟩
  · intro k' ptr _ hs
    have hne : k' ≠ k := by
      rintro rfl
      rw [Function.update_self] at hs
      cases hs
    rw [Function.update_of_ne hne] at hs
    exact h.key hne hs
  · intro k' _ hs
    by_cases hne : k' = k
    · rw [hne, Function.update_self]
    · rw [Function.update_of_ne hne] at hs ⊢
      exact h.nowhere hne hs

omit [DecidableEq κ] in
/-- **The buckets of the stale slots are freed.** -/
theorem Located.free (h : Located buckets slots pos cell stale gone) {buckets' : Nat → Option (BucketNode D κ)}
    (dead : Nat → Prop) [DecidablePred dead] (hbuckets : ∀ a, buckets' a = if dead a then none else buckets a)
    (hstale : ∀ a b, buckets a = some b → ∀ e ∈ b.entries, (stale ⟨a, e.1⟩ ↔ dead a)) :
    Located buckets' slots pos cell (fun _ => False) gone := by
  have hlive : ∀ {a b}, buckets' a = some b → buckets a = some b ∧ ¬ dead a := by
    intro a b hb
    rw [hbuckets] at hb
    by_cases hd : dead a
    · rw [if_pos hd] at hb
      cases hb
    · rw [if_neg hd] at hb
      exact ⟨hb, hd⟩
  refine ⟨fun hb => h.wellFormed (hlive hb).1, ?_, ?_, h.nowhere⟩
  · intro a b hb e he
    obtain ⟨hb, hd⟩ := hlive hb
    obtain ⟨hp, hbn, k, hk, hgone, hpk, hs⟩ := h.entry hb e he
    exact ⟨hp, hbn, k, hk, hgone, hpk, fun _ => hs (fun hst => hd ((hstale a b hb e he).1 hst))⟩
  · intro k ptr hgone hs
    obtain ⟨b, slot, hb, hm, hk, hst⟩ := h.key hgone hs
    have hd : ¬ dead ptr.bucket := fun hd => hst ((hstale _ b hb _ hm).2 hd)
    exact ⟨b, slot, by rw [hbuckets, if_neg hd, hb], hm, hk, fun hf => hf⟩

omit [DecidableEq κ] in
/-- Empty buckets are allocated. -/
theorem Located.grow (h : Located buckets slots pos cell stale gone) {buckets' : Nat → Option (BucketNode D κ)}
    {cell' : Nat → Rectangle2D D} (hold : ∀ a b, buckets a = some b → buckets' a = some b ∧ cell' a = cell a)
    (hnew : ∀ a b, buckets' a = some b → buckets a = some b ∨ (b.busySlots = 0 ∧ b.entries = [])) :
    Located buckets' slots pos cell' stale gone := by
  refine ⟨?_, ?_, ?_, h.nowhere⟩
  · intro a b hb
    rcases hnew a b hb with hb | ⟨h0, he⟩
    · exact h.wellFormed hb
    · exact ⟨by rw [h0, he]; rfl, by rw [he]; exact List.nodup_nil, by simp [he]⟩
  · intro a b hb e he
    rcases hnew a b hb with hb | ⟨-, hnil⟩
    · rw [(hold a b hb).2]
      exact h.entry hb e he
    · rw [hnil] at he
      cases he
  · intro k ptr hgone hs
    obtain ⟨b, slot, hb, hm, hk, hst⟩ := h.key hgone hs
    exact ⟨b, slot, (hold _ b hb).1, hm, hk, hst⟩

end

end Pincaster
