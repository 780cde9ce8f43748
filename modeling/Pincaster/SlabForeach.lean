import Pincaster.SlabLinks
import Mathlib.Data.List.Perm.Basic
import Mathlib.Data.Finset.Card
/-!
# SlabForeach — what a `foreach` of a slab visits

The bits of a bitmap as `ffsl`, the stores and the loop over the slots read them, and the entries a `foreach` visits:
those of the chunks of the two lists, whatever other chunks there are (`slabForeach_eq`).
-/
namespace Pincaster

open Lib (Heap Chain)

variable {α σ : Type}

/-! ## Bits -/

theorem getLsbD_clear (b : BitmapType) (i j : Nat) (hj : j < 64) :
    (b &&& ~~~(1#64 <<< i)).getLsbD j = (b.getLsbD j && decide (j ≠ i)) := by
  rw [BitVec.getLsbD_and, BitVec.getLsbD_not, BitVec.getLsbD_shiftLeft]
  rcases Nat.lt_trichotomy j i with h | rfl | h
  · simp [hj, h, Nat.ne_of_lt h]
  · simp [hj]
  · have h1 : (1#64).getLsbD (j - i) = false := by
      rw [BitVec.getLsbD_one]; simp; omega
    simp [hj, h1, Nat.ne_of_gt h]

theorem getLsbD_set (b : BitmapType) (i j : Nat) (hj : j < 64) :
    (b ||| (1#64 <<< i)).getLsbD j = (b.getLsbD j || decide (j = i)) := by
  rw [BitVec.getLsbD_or, BitVec.getLsbD_shiftLeft]
  rcases Nat.lt_trichotomy j i with h | rfl | h
  · simp [h, Nat.ne_of_lt h]
  · simp [hj]
  · have h1 : (1#64).getLsbD (j - i) = false := by
      rw [BitVec.getLsbD_one]; simp; omega
    simp [h1, Nat.ne_of_gt h]

theorem bitmap_eq_zero_iff (b : BitmapType) : b = 0 ↔ ∀ i < 64, b.getLsbD i = false := by
  constructor
  · rintro rfl i _; simp
  · intro h; exact BitVec.eq_of_getLsbD_eq (fun i hi => by rw [h i hi]; simp)

theorem bitmap_eq_ones_iff (b : BitmapType) : b = ~~~0#64 ↔ ∀ i < 64, b.getLsbD i = true := by
  constructor
  · rintro rfl i hi
    rw [BitVec.getLsbD_not, BitVec.getLsbD_zero]
    simp [hi]
  · intro h
    refine BitVec.eq_of_getLsbD_eq (fun i hi => ?_)
    rw [h i hi, BitVec.getLsbD_not, BitVec.getLsbD_zero]
    simp [hi]

/-- `ffsl` finds a set bit when there is one. -/
theorem ffsl_spec (b : BitmapType) (hb : b ≠ 0) : ffsl b ≠ 0 ∧ ffsl b - 1 < 64 ∧ b.getLsbD (ffsl b - 1) = true := by
  unfold ffsl
  cases hf : (List.range 64).find? (fun i => b.getLsbD i) with
  | none =>
    refine absurd ((bitmap_eq_zero_iff b).2 (fun i hi => ?_)) hb
    simpa using List.find?_eq_none.1 hf i (List.mem_range.2 hi)
  | some i =>
    have h1 := List.find?_some hf
    have h2 := List.mem_range.1 (List.mem_of_find?_eq_some hf)
    exact ⟨by simp, by simpa using h2, by simpa using h1⟩

theorem and_one_eq_zero_iff (b : BitmapType) (i : Nat) (hi : i < 64) :
    (b >>> i) &&& 1#64 = 0#64 ↔ b.getLsbD i = false := by
  rw [show (0#64 : BitmapType) = 0 from rfl, bitmap_eq_zero_iff]
  constructor
  · intro h; simpa [hi] using h 0 (by omega)
  · intro h j hj
    rw [BitVec.getLsbD_and, BitVec.getLsbD_one, BitVec.getLsbD_ushiftRight]
    by_cases h0 : j = 0
    · subst h0; simp [h]
    · simp [h0]

/-! ## What a `foreach` visits -/

/-- The entries of a chunk, in the order of its slots. -/
def entriesOf (a : Nat) (b : BitmapType × (Nat → Option (SlabSlot α))) : List (EntryPtr × α) :=
  (List.range' 0 64).filterMap
    (fun i => if b.1.getLsbD i then none else (b.2 i).map (fun s => (⟨a, i⟩, s.data)))

def visits (s : Slab α) (l : List Nat) : List (EntryPtr × α) :=
  l.flatMap (fun a => match s.body a with | some b => entriesOf a b | none => [])

/-- Every busy slot of the chunk was written. -/
def Written (b : BitmapType × (Nat → Option (SlabSlot α))) : Prop :=
  ∀ i < 64, b.1.getLsbD i = false → (b.2 i).isSome

/-- A loop over a list with a callback that stops it by a result other than 0. -/
def foreachList (cb : σ → EntryPtr → α → Int × σ) : List (EntryPtr × α) → σ → Int × σ
  | [], ctx => (0, ctx)
  | p :: l, ctx => if (cb ctx p.1 p.2).1 = 0 then foreachList cb l (cb ctx p.1 p.2).2 else cb ctx p.1 p.2

theorem foreachList_append (cb : σ → EntryPtr → α → Int × σ) (l' : List (EntryPtr × α)) :
    ∀ (l : List (EntryPtr × α)) (ctx : σ), foreachList cb (l ++ l') ctx =
      if (foreachList cb l ctx).1 = 0 then foreachList cb l' (foreachList cb l ctx).2 else foreachList cb l ctx
  | [], _ => rfl
  | p :: l, ctx => by
    rw [List.cons_append, foreachList, foreachList, foreachList_append cb l' l]
    split <;> rfl

/-- A callback that never stops the loop is folded over the list. -/
theorem foreachList_eq_foldl {cb : σ → EntryPtr → α → Int × σ} (hcb : ∀ ctx e x, (cb ctx e x).1 = 0) :
    ∀ (l : List (EntryPtr × α)) (ctx : σ),
      foreachList cb l ctx = (0, l.foldl (fun ctx p => (cb ctx p.1 p.2).2) ctx)
  | [], _ => rfl
  | p :: l, ctx => by rw [foreachList, if_pos (hcb _ _ _), foreachList_eq_foldl hcb l, List.foldl_cons]

theorem foreachSlot_eq (cb : σ → EntryPtr → α → Int × σ) (a : Nat)
    (b : BitmapType × (Nat → Option (SlabSlot α))) (hb : Written b) : ∀ (n i : Nat) (ctx : σ), i + n = 64 →
    foreachSlot cb a b.2 n i (b.1 >>> i) ctx =
      some (foreachList cb ((List.range' i n).filterMap (fun i => if b.1.getLsbD i then none else
        (b.2 i).map (fun s => ((⟨a, i⟩ : EntryPtr), s.data)))) ctx)
  | 0, i, ctx, _ => rfl
  | n + 1, i, ctx, hi => by
    have ih := fun ctx => foreachSlot_eq cb a b hb n (i + 1) ctx (by omega)
    rw [BitVec.shiftRight_add] at ih
    rw [foreachSlot, List.range'_succ]
    by_cases hbit : b.1.getLsbD i = false
    · rw [if_pos ((and_one_eq_zero_iff b.1 i (by omega)).2 hbit)]
      obtain ⟨slot, hslot⟩ := Option.isSome_iff_exists.1 (hb i (by omega) hbit)
      simp only [hslot, Option.bind_eq_bind, Option.bind_some, ih, List.filterMap_cons, hbit, Bool.false_eq_true,
        if_false, Option.map_some, foreachList]
      split <;> rfl
    · rw [if_neg (fun h => hbit ((and_one_eq_zero_iff b.1 i (by omega)).1 h)), ih]
      rw [Bool.not_eq_false] at hbit
      simp [hbit]

/-- **The loop over a list of chunks visits the entries of its chunks.** -/
theorem foreachChunk_eq (cb : σ → EntryPtr → α → Int × σ) {s : Slab α}
    (hnb : s.nbSlotsPerChunk = 64) : ∀ (l : List Nat) (fuel : Nat) (p hd : Option Nat) (ctx : σ),
    Chain s.nx s.pv p hd l → l.length ≤ fuel → (∀ a ∈ l, ∃ b, s.body a = some b ∧ Written b) →
    foreachChunk cb s fuel hd ctx = some (foreachList cb (visits s l) ctx)
  | [], fuel, _, hd, ctx, h, _, _ => by
    rw [Chain.nil_iff.1 h]
    cases fuel <;> rfl
  | a :: l, 0, _, _, _, _, hf, _ => by simp at hf
  | a :: l, fuel + 1, p, hd, ctx, h, hf, hb => by
    obtain ⟨h1, _, h3⟩ := h
    obtain ⟨b, hab, hw⟩ := hb a List.mem_cons_self
    obtain ⟨c, hc⟩ := Slab.cells_of_body (s := s) (a := a) (by rw [hab]; rfl)
    have hcb' : (c.bitmap, c.slots) = b := by rw [Slab.body_of_cells hc] at hab; exact Option.some.inj hab
    subst hcb'
    have hslots := foreachSlot_eq cb a (c.bitmap, c.slots) hw 64 0 ctx rfl
    rw [BitVec.ushiftRight_zero] at hslots
    rw [Slab.nx_of_cells hc] at h3
    have hsplit : visits s (a :: l) = entriesOf a (c.bitmap, c.slots) ++ visits s l := by
      simp only [visits, List.flatMap_cons, hab]
    rw [h1, foreachChunk, hsplit, foreachList_append]
    simp only [hc, hnb, Option.bind_eq_bind, Option.bind_some, hslots]
    change (if (foreachList cb (entriesOf a (c.bitmap, c.slots)) ctx).1 = 0 then _ else _) = _
    split
    · exact foreachChunk_eq cb hnb l fuel (some a) c.next _ h3 (by simpa using hf)
        (fun d hd => hb d (List.mem_cons_of_mem a hd))
    · rfl

theorem length_le_brk {s : Slab α} {l : List Nat} (hl : l.Nodup) (hb : ∀ a ∈ l, (s.body a).isSome) :
    l.length ≤ s.chunks.brk := by
  have hsub : l.toFinset ⊆ Finset.range s.chunks.brk := by
    intro a ha
    obtain ⟨c, hc⟩ := Slab.cells_of_body (hb a (List.mem_toFinset.1 ha))
    exact Finset.mem_range.2 (Heap.lt_brk hc)
  calc l.length = l.toFinset.card := (List.toFinset_card_of_nodup hl).symm
    _ ≤ (Finset.range s.chunks.brk).card := Finset.card_le_card hsub
    _ = s.chunks.brk := Finset.card_range _

/-- **A `foreach` visits the entries of the chunks of the two lists**, whatever other chunks there are. -/
theorem slabForeach_eq (cb : σ → EntryPtr → α → Int × σ) {s : Slab α}
    (hnb : s.nbSlotsPerChunk = 64) {pl fl : List Nat} (hp : Chain s.nx s.pv none s.firstPartialChunk pl)
    (hf : Chain s.nx s.pv none s.firstFullChunk fl) (hnd : (pl ++ fl).Nodup)
    (hb : ∀ a ∈ pl ++ fl, ∃ b, s.body a = some b ∧ Written b) (ctx : σ) :
    slabForeach cb s ctx = some (foreachList cb (visits s (pl ++ fl)) ctx) := by
  have hsome : ∀ a ∈ pl ++ fl, (s.body a).isSome := fun a ha => by
    obtain ⟨b, h, _⟩ := hb a ha
    rw [h]; rfl
  obtain ⟨hndp, hndf, _⟩ := List.nodup_append.1 hnd
  have h1 := fun ctx => foreachChunk_eq cb hnb pl s.chunks.brk none _ ctx hp
    (length_le_brk hndp (fun a ha => hsome a (List.mem_append_left _ ha)))
    (fun a ha => hb a (List.mem_append_left _ ha))
  have h2 := fun ctx => foreachChunk_eq cb hnb fl s.chunks.brk none _ ctx hf
    (length_le_brk hndf (fun a ha => hsome a (List.mem_append_right _ ha)))
    (fun a ha => hb a (List.mem_append_right _ ha))
  have hsplit : visits s (pl ++ fl) = visits s pl ++ visits s fl := List.flatMap_append
  rw [hsplit, foreachList_append]
  simp only [slabForeach, h1, Option.bind_eq_bind, Option.bind_some]
  split
  · exact h2 _
  · rfl

theorem mem_entriesOf {a : Nat} {b : BitmapType × (Nat → Option (SlabSlot α))} {e : EntryPtr} {x : α} :
    (e, x) ∈ entriesOf a b ↔ e.chunk = a ∧ e.bit < 64 ∧ b.1.getLsbD e.bit = false ∧
      ∃ slot, b.2 e.bit = some slot ∧ slot.data = x := by
  simp only [entriesOf, List.mem_filterMap, List.mem_range'_1, Nat.zero_le, Nat.zero_add, true_and]
  constructor
  · rintro ⟨i, hi, he⟩
    split at he
    · cases he
    · rename_i hbit
      obtain ⟨slot, hs, heq⟩ := Option.map_eq_some_iff.1 he
      cases heq
      exact ⟨rfl, hi, by simpa using hbit, slot, hs, rfl⟩
  · rintro ⟨rfl, hi, hbit, slot, hs, rfl⟩
    exact ⟨e.bit, hi, by simp [hbit, hs]⟩

theorem nodup_entriesOf (a : Nat) (b : BitmapType × (Nat → Option (SlabSlot α))) :
    ((entriesOf a b).map Prod.fst).Nodup := by
  unfold entriesOf
  rw [List.map_filterMap]
  refine List.Nodup.filterMap (fun i j e hi hj => ?_) (List.nodup_range' : (List.range' _ _ 1).Nodup)
  simp only [Option.mem_def, Option.map_eq_some_iff] at hi hj
  obtain ⟨p, hp, rfl⟩ := hi
  obtain ⟨q, hq, hpq⟩ := hj
  split at hp
  · cases hp
  split at hq
  · cases hq
  obtain ⟨_, _, rfl⟩ := Option.map_eq_some_iff.1 hp
  obtain ⟨_, _, rfl⟩ := Option.map_eq_some_iff.1 hq
  exact (congrArg EntryPtr.bit hpq).symm

theorem mem_visits {s : Slab α} {l : List Nat} {e : EntryPtr} {x : α} :
    (e, x) ∈ visits s l ↔ e.chunk ∈ l ∧ ∃ b, s.body e.chunk = some b ∧ (e, x) ∈ entriesOf e.chunk b := by
  simp only [visits, List.mem_flatMap]
  constructor
  · rintro ⟨a, ha, he⟩
    cases hb : s.body a with
    | none => simp [hb] at he
    | some b =>
      simp only [hb] at he
      have hea := (mem_entriesOf.1 he).1
      subst hea
      exact ⟨ha, b, hb, he⟩
  · rintro ⟨ha, b, hb, he⟩
    exact ⟨e.chunk, ha, by simp only [hb]; exact he⟩

theorem nodup_visits {s : Slab α} : ∀ {l : List Nat}, l.Nodup → ((visits s l).map Prod.fst).Nodup
  | [], _ => by simp [visits]
  | a :: l, h => by
    obtain ⟨ha, hl⟩ := List.nodup_cons.1 h
    have hsplit : visits s (a :: l) = (match s.body a with | some b => entriesOf a b | none => []) ++ visits s l := rfl
    rw [hsplit, List.map_append, List.nodup_append]
    refine ⟨?_, nodup_visits hl, ?_⟩
    · cases s.body a with
      | none => simp
      | some b => exact nodup_entriesOf a b
    · intro e he e' he' hee
      subst hee
      obtain ⟨p, hp, rfl⟩ := List.mem_map.1 he
      obtain ⟨q, hq, hpq⟩ := List.mem_map.1 he'
      have h1 : p.1.chunk = a := by
        cases hb : s.body a with
        | none => simp [hb] at hp
        | some b => simp only [hb] at hp; exact (mem_entriesOf.1 hp).1
      have h2 := (mem_visits.1 hq).1
      rw [hpq, h1] at h2
      exact ha h2

end Pincaster
