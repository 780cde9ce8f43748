import Pincaster.Slab
import Pincaster.Lib.Chain
/-!
# SlabLinks — what each list operation of a slab does to the links

The links of a chunk are read through `nx` and `pv`, everything else of it through `body`.  Every operation on the
lists has one lemma here that says where the chains go and that no body changes; nothing after this module unfolds
one.
-/
namespace Pincaster

open Lib (Heap Chain)

variable {α : Type}

def Slab.nx (slab : Slab α) (a : Nat) : Option Nat := (slab.chunks.cells a).bind (·.next)

def Slab.pv (slab : Slab α) (a : Nat) : Option Nat := (slab.chunks.cells a).bind (·.previous)

/-- A chunk without its links: the bitmap and the slots. -/
def Slab.body (slab : Slab α) (a : Nat) : Option (BitmapType × (Nat → Option (SlabSlot α))) :=
  (slab.chunks.cells a).map (fun c => (c.bitmap, c.slots))

theorem Slab.nx_of_cells {slab : Slab α} {a : Nat} {c : SlabChunk α} (h : slab.chunks.cells a = some c) :
    slab.nx a = c.next := by simp [Slab.nx, h]

theorem Slab.pv_of_cells {slab : Slab α} {a : Nat} {c : SlabChunk α} (h : slab.chunks.cells a = some c) :
    slab.pv a = c.previous := by simp [Slab.pv, h]

theorem Slab.body_of_cells {slab : Slab α} {a : Nat} {c : SlabChunk α} (h : slab.chunks.cells a = some c) :
    slab.body a = some (c.bitmap, c.slots) := by simp [Slab.body, h]

theorem Slab.cells_of_body {s : Slab α} {a : Nat} (h : (s.body a).isSome) :
    ∃ c, s.chunks.cells a = some c := by
  unfold Slab.body at h
  rw [Option.isSome_map] at h
  exact Option.isSome_iff_exists.1 h

/-- `s'` is `s` with its chunks relinked. -/
structure Relinked (s s' : Slab α) (nx' pv' : Nat → Option Nat) : Prop where
  nbSlots : s'.nbSlotsPerChunk = s.nbSlotsPerChunk
  firstPartial : s'.firstPartialChunk = s.firstPartialChunk
  firstFull : s'.firstFullChunk = s.firstFullChunk
  brk : s'.chunks.brk = s.chunks.brk
  body : ∀ b, s'.body b = s.body b
  next : ∀ b, s'.nx b = nx' b
  previous : ∀ b, s'.pv b = pv' b

theorem storeChunk_of_cells {s : Slab α} {a : Nat} {c : SlabChunk α} (hc : s.chunks.cells a = some c)
    (f : SlabChunk α → SlabChunk α) : s.storeChunk a f = some { s with chunks := s.chunks.modify a f } := by
  simp [Slab.storeChunk, Heap.store_of_cells hc]

theorem storeChunk_next {s : Slab α} {a : Nat} (h : (s.body a).isSome) (n : Option Nat) :
    ∃ s', s.storeChunk a (fun x => { x with next := n }) = some s' ∧
      Relinked s s' (fun b => if b = a then n else s.nx b) s.pv := by
  obtain ⟨c, hc⟩ := Slab.cells_of_body h
  refine ⟨_, storeChunk_of_cells hc _, rfl, rfl, rfl, rfl, ?_, ?_, ?_⟩ <;>
    (intro b; by_cases hb : b = a <;> simp [Slab.body, Slab.nx, Slab.pv, hb, hc])

theorem storeChunk_previous {s : Slab α} {a : Nat} (h : (s.body a).isSome) (p : Option Nat) :
    ∃ s', s.storeChunk a (fun x => { x with previous := p }) = some s' ∧
      Relinked s s' s.nx (fun b => if b = a then p else s.pv b) := by
  obtain ⟨c, hc⟩ := Slab.cells_of_body h
  refine ⟨_, storeChunk_of_cells hc _, rfl, rfl, rfl, rfl, ?_, ?_, ?_⟩ <;>
    (intro b; by_cases hb : b = a <;> simp [Slab.body, Slab.nx, Slab.pv, hb, hc])

theorem storeChunk_both {s : Slab α} {a : Nat} (h : (s.body a).isSome) (n p : Option Nat) :
    ∃ s', s.storeChunk a (fun x => { x with next := n, previous := p }) = some s' ∧
      Relinked s s' (fun b => if b = a then n else s.nx b) (fun b => if b = a then p else s.pv b) := by
  obtain ⟨c, hc⟩ := Slab.cells_of_body h
  refine ⟨_, storeChunk_of_cells hc _, rfl, rfl, rfl, rfl, ?_, ?_, ?_⟩ <;>
    (intro b; by_cases hb : b = a <;> simp [Slab.body, Slab.nx, Slab.pv, hb, hc])

theorem Relinked.refl (s : Slab α) : Relinked s s s.nx s.pv :=
  ⟨rfl, rfl, rfl, rfl, fun _ => rfl, fun _ => rfl, fun _ => rfl⟩

theorem Relinked.trans {s₁ s₂ s₃ : Slab α} {n₁ p₁ n₂ p₂ : Nat → Option Nat} (h₁ : Relinked s₁ s₂ n₁ p₁)
    (h₂ : Relinked s₂ s₃ n₂ p₂) : Relinked s₁ s₃ n₂ p₂ :=
  ⟨h₂.nbSlots.trans h₁.nbSlots, h₂.firstPartial.trans h₁.firstPartial, h₂.firstFull.trans h₁.firstFull,
    h₂.brk.trans h₁.brk, fun b => (h₂.body b).trans (h₁.body b), h₂.next, h₂.previous⟩

theorem Relinked.congr {s s' : Slab α} {n p n' p' : Nat → Option Nat} (h : Relinked s s' n p)
    (hn : ∀ b, n b = n' b) (hp : ∀ b, p b = p' b) : Relinked s s' n' p' :=
  { h with next := fun b => (h.next b).trans (hn b), previous := fun b => (h.previous b).trans (hp b) }

/-- **The neighbours of `a` are joined over it**: `nx` of the one before it is its `nx`, `pv` of the one after it its
`pv`. -/
theorem unlinkNeighbours_spec {s : Slab α} {a : Nat} (ha : (s.body a).isSome)
    (hp : ∀ p, s.pv a = some p → p ≠ a ∧ (s.body p).isSome) (hn : ∀ n, s.nx a = some n → n ≠ a ∧ (s.body n).isSome) :
    ∃ s', unlinkNeighbours s a = some s' ∧ Relinked s s' (fun b => if s.pv a = some b then s.nx a else s.nx b)
      (fun b => if s.nx a = some b then s.pv a else s.pv b) := by
  obtain ⟨c, hc⟩ := Slab.cells_of_body ha
  -- the first write: `chunk->previous->next = chunk->next`
  obtain ⟨s₁, h₁, r₁⟩ : ∃ s₁, s.storePtr c.previous (fun x => { x with next := c.next }) = some s₁ ∧
      Relinked s s₁ (fun b => if s.pv a = some b then s.nx a else s.nx b) s.pv := by
    rw [Slab.pv_of_cells hc, Slab.nx_of_cells hc]
    cases hcp : c.previous with
    | none => exact ⟨s, rfl, (Relinked.refl s).congr (by simp) (fun _ => rfl)⟩
    | some p =>
      obtain ⟨s₁, h, r⟩ := storeChunk_next (hp p (by rw [Slab.pv_of_cells hc, hcp])).2 c.next
      exact ⟨s₁, h, r.congr (fun b => by simp [eq_comm]) (fun _ => rfl)⟩
  have hna : s₁.nx a = s.nx a := by
    rw [r₁.next, if_neg]
    intro e
    exact (hp a e).1 rfl
  have hpa : s₁.pv a = s.pv a := r₁.previous a
  obtain ⟨c₁, hc₁⟩ := Slab.cells_of_body (s := s₁) (by rw [r₁.body]; exact ha)
  rw [Slab.nx_of_cells hc₁] at hna
  rw [Slab.pv_of_cells hc₁] at hpa
  -- the second: `chunk->next->previous = chunk->previous`
  obtain ⟨s₂, h₂, r₂⟩ : ∃ s₂, s₁.storePtr c₁.next (fun x => { x with previous := c₁.previous }) = some s₂ ∧
      Relinked s₁ s₂ s₁.nx (fun b => if s.nx a = some b then s.pv a else s.pv b) := by
    rw [hna, hpa]
    cases hcn : s.nx a with
    | none => exact ⟨s₁, rfl, (Relinked.refl s₁).congr (fun _ => rfl) (fun b => by simp [r₁.previous])⟩
    | some n =>
      obtain ⟨s₂, h, r⟩ := storeChunk_previous (s := s₁) (by rw [r₁.body]; exact (hn n hcn).2) (s.pv a)
      exact ⟨s₂, h, r.congr (fun _ => rfl) (fun b => by simp [r₁.previous, eq_comm])⟩
  refine ⟨s₂, ?_, r₁.trans (r₂.congr r₁.next (fun _ => rfl))⟩
  simp only [unlinkNeighbours, hc, Option.bind_eq_bind, Option.bind_some, h₁, hc₁, h₂]

/-- **The chunk is put in front of the list that starts at `head`.** -/
theorem linkFront_spec {s : Slab α} {a : Nat} {head : Option Nat} (ha : (s.body a).isSome)
    (hh : ∀ b, head = some b → b ≠ a ∧ (s.body b).isSome) :
    ∃ s', linkFront s a head = some s' ∧ Relinked s s' (fun b => if b = a then head else s.nx b)
      (fun b => if b = a then none else if head = some b then some a else s.pv b) := by
  obtain ⟨s₁, h₁, r₁⟩ := storeChunk_both ha head none
  cases head with
  | none => exact ⟨s₁, by simp [linkFront, h₁, Slab.storePtr], r₁.congr (fun _ => rfl) (fun b => by simp)⟩
  | some b =>
    obtain ⟨hba, hb⟩ := hh b rfl
    obtain ⟨s₂, h₂, r₂⟩ := storeChunk_previous (s := s₁) (a := b) (by rw [r₁.body]; exact hb) (some a)
    refine ⟨s₂, by simp [linkFront, h₁, h₂, Slab.storePtr], r₁.trans (r₂.congr r₁.next (fun d => ?_))⟩
    rw [r₁.previous]
    by_cases hd : d = b
    · subst hd; simp [hba]
    · simp [hd, Ne.symm hd]

/-! ## The two lists -/

/-- The chunks of the slab are those of its two lists, each once. -/
structure Lists (s : Slab α) (pl fl : List Nat) : Prop where
  partialChain : Chain s.nx s.pv none s.firstPartialChunk pl
  fullChain : Chain s.nx s.pv none s.firstFullChunk fl
  nodup : (pl ++ fl).Nodup
  allocated : ∀ a, (s.body a).isSome ↔ a ∈ pl ++ fl

/-- Around a chunk of a chain, its neighbours are other chunks of it. -/
theorem neighbours_mem {s : Slab α} {hd : Option Nat} {l₁ l₂ : List Nat} {a : Nat}
    (h : Chain s.nx s.pv none hd (l₁ ++ a :: l₂)) (hnd : (l₁ ++ a :: l₂).Nodup) :
    (∀ p, s.pv a = some p → p ≠ a ∧ p ∈ l₁) ∧ (∀ n, s.nx a = some n → n ≠ a ∧ n ∈ l₂) := by
  rw [List.nodup_append] at hnd
  refine ⟨fun p hp => ?_, fun n hn => ?_⟩
  · rw [h.previous_eq, Option.or_none] at hp
    have hm := List.mem_of_getLast? hp
    exact ⟨hnd.2.2 p hm a List.mem_cons_self, hm⟩
  · rw [h.next_eq] at hn
    have hm := List.mem_of_mem_head? hn
    exact ⟨fun e => (List.nodup_cons.1 hnd.2.1).1 (e ▸ hm), hm⟩

/-- **A chunk of either list is unlinked**: its list is joined over it, the other list is as it was. -/
theorem unlink_lists {s : Slab α} {hd hd' : Option Nat} {l₁ l₂ l' : List Nat} {a : Nat}
    (h : Chain s.nx s.pv none hd (l₁ ++ a :: l₂)) (h' : Chain s.nx s.pv none hd' l')
    (hnd : (l₁ ++ a :: l₂ ++ l').Nodup) (hal : ∀ b ∈ l₁ ++ a :: l₂, (s.body b).isSome) :
    ∃ s', unlinkNeighbours s a = some s' ∧ s'.nbSlotsPerChunk = s.nbSlotsPerChunk ∧
      s'.firstPartialChunk = s.firstPartialChunk ∧ s'.firstFullChunk = s.firstFullChunk ∧
      s'.chunks.brk = s.chunks.brk ∧ (∀ b, s'.body b = s.body b) ∧ s'.nx a = s.nx a ∧ s'.pv a = s.pv a ∧
      Chain s'.nx s'.pv none (if l₁ = [] then s.nx a else hd) (l₁ ++ l₂) ∧ Chain s'.nx s'.pv none hd' l' := by
  obtain ⟨hnd₁, hnd₂, hdis⟩ := List.nodup_append.1 hnd
  obtain ⟨hp, hn⟩ := neighbours_mem h hnd₁
  obtain ⟨s', hs', r⟩ := unlinkNeighbours_spec (s := s) (a := a) (hal a (by simp))
    (fun p e => ⟨(hp p e).1, hal p (List.mem_append_left _ (hp p e).2)⟩)
    (fun n e => ⟨(hn n e).1, hal n (List.mem_append_right _ (List.mem_cons_of_mem _ (hn n e).2))⟩)
  refine ⟨s', hs', r.nbSlots, r.firstPartial, r.firstFull, r.brk, r.body, ?_, ?_, ?_, ?_⟩
  · rw [r.next, if_neg (fun e => (hp a e).1 rfl)]
  · rw [r.previous, if_neg (fun e => (hn a e).1 rfl)]
  · exact h.unlink hnd₁ (fun b e => by cases e) (fun b _ => r.next b) (fun b _ => r.previous b)
  · refine h'.congr (fun b hb => ⟨?_, ?_⟩)
    · rw [r.next, if_neg (fun e => hdis b (List.mem_append_left _ (hp b e).2) b hb rfl)]
    · rw [r.previous,
        if_neg (fun e => hdis b (List.mem_append_right _ (List.mem_cons_of_mem _ (hn b e).2)) b hb rfl)]

/-- **A chunk that is in no list is put in front of one**, and the other list is as it was. -/
theorem linkFront_lists {s : Slab α} {hd hd' : Option Nat} {l l' : List Nat} {a : Nat}
    (h : Chain s.nx s.pv none hd l) (h' : Chain s.nx s.pv none hd' l') (hnd : (l ++ l').Nodup) (ha : a ∉ l ++ l')
    (haa : (s.body a).isSome) (hal : ∀ b ∈ l, (s.body b).isSome) :
    ∃ s', linkFront s a hd = some s' ∧ s'.nbSlotsPerChunk = s.nbSlotsPerChunk ∧
      s'.firstPartialChunk = s.firstPartialChunk ∧ s'.firstFullChunk = s.firstFullChunk ∧
      s'.chunks.brk = s.chunks.brk ∧ (∀ b, s'.body b = s.body b) ∧
      Chain s'.nx s'.pv none (some a) (a :: l) ∧ Chain s'.nx s'.pv none hd' l' := by
  obtain ⟨hnd₁, hnd₂, hdis⟩ := List.nodup_append.1 hnd
  have hmem : ∀ b, hd = some b → b ∈ l := fun b e => List.mem_of_mem_head? (h.head_eq ▸ e)
  have hal' : ∀ b ∈ l, b ≠ a := fun b hb e => ha (List.mem_append_left _ (e ▸ hb))
  obtain ⟨s', hs', r⟩ := linkFront_spec haa
    (show ∀ b, hd = some b → _ from fun b e => ⟨hal' b (hmem b e), hal b (hmem b e)⟩)
  refine ⟨s', hs', r.nbSlots, r.firstPartial, r.firstFull, r.brk, r.body, ?_, ?_⟩
  · refine h.push hnd₁ (fun e => ha (List.mem_append_left _ e)) (by rw [r.next, if_pos rfl])
      (by rw [r.previous, if_pos rfl]) (fun b hb => by rw [r.next, if_neg (hal' b hb)])
      (fun b hb => by rw [r.previous, if_neg (hal' b hb)])
  · refine h'.congr (fun b hb => ?_)
    have hba : b ≠ a := fun e => ha (List.mem_append_right _ (e ▸ hb))
    refine ⟨by rw [r.next, if_neg hba], ?_⟩
    rw [r.previous, if_neg hba, if_neg (fun e => hdis b (hmem b e) b hb rfl)]

theorem nodup_rotate {l r q : List Nat} {a : Nat} (h : (l ++ a :: r ++ q).Nodup) :
    (q ++ (l ++ r)).Nodup ∧ a ∉ q ++ (l ++ r) ∧ a ∉ l ++ r := by
  have hp : (l ++ a :: r ++ q).Perm (a :: (q ++ (l ++ r))) :=
    (List.perm_append_comm.trans (List.Perm.append_left q List.perm_middle)).trans List.perm_middle
  obtain ⟨h1, h2⟩ := List.nodup_cons.1 (hp.nodup_iff.1 h)
  exact ⟨h2, h1, fun e => h1 (List.mem_append_right q e)⟩

/-- **A chunk leaves the full list**: the head moves exactly when the chunk was the head. -/
theorem takeFromFull_spec {s : Slab α} {pl l₁ l₂ : List Nat} {a : Nat} (h : Lists s pl (l₁ ++ a :: l₂)) :
    ∃ s', takeFromFull s a = some s' ∧ s'.nbSlotsPerChunk = s.nbSlotsPerChunk ∧ s'.chunks.brk = s.chunks.brk ∧
      s'.firstPartialChunk = s.firstPartialChunk ∧ (∀ b, s'.body b = s.body b) ∧
      Chain s'.nx s'.pv none s'.firstFullChunk (l₁ ++ l₂) ∧ Chain s'.nx s'.pv none s.firstPartialChunk pl := by
  have hnd : (l₁ ++ a :: l₂ ++ pl).Nodup := List.perm_append_comm.nodup_iff.1 h.nodup
  have hal : ∀ b ∈ l₁ ++ a :: l₂, (s.body b).isSome := fun b hb => (h.allocated b).2 (List.mem_append_right _ hb)
  obtain ⟨s₁, h₁, nb₁, fp₁, ff₁, brk₁, body₁, nx₁, pv₁, chF, chP⟩ := unlink_lists h.fullChain h.partialChain hnd hal
  obtain ⟨c, hc⟩ := Slab.cells_of_body (s := s₁) (a := a) (by rw [body₁]; exact hal a (by simp))
  rw [Slab.nx_of_cells hc] at nx₁
  rw [Slab.pv_of_cells hc] at pv₁
  simp only [takeFromFull, h₁, hc, Option.bind_eq_bind, Option.bind_some, ff₁, nx₁, pv₁]
  cases l₁ with
  | nil =>
    rw [if_pos h.fullChain.1, if_pos h.fullChain.2.1]
    exact ⟨_, rfl, nb₁, brk₁, fp₁, body₁, chF, chP⟩
  | cons b l₁ =>
    have hba : b ≠ a := fun e => (List.nodup_cons.1 (List.nodup_append.1 hnd).1).1 (by simp [e])
    rw [if_neg (by rw [h.fullChain.1]; exact fun e => hba (Option.some.inj e))]
    exact ⟨s₁, rfl, nb₁, brk₁, fp₁, body₁, by rw [ff₁]; exact chF, chP⟩

/-- **A full chunk that got a free slot** goes to the front of the partial list. -/
theorem moveToPartial_spec {s : Slab α} {pl l₁ l₂ : List Nat} {a : Nat} (h : Lists s pl (l₁ ++ a :: l₂)) :
    ∃ s', moveToPartial s a = some s' ∧ Lists s' (a :: pl) (l₁ ++ l₂) ∧
      s'.nbSlotsPerChunk = s.nbSlotsPerChunk ∧ s'.chunks.brk = s.chunks.brk ∧ ∀ b, s'.body b = s.body b := by
  have hnd : (l₁ ++ a :: l₂ ++ pl).Nodup := List.perm_append_comm.nodup_iff.1 h.nodup
  have hal : ∀ b ∈ pl ++ (l₁ ++ a :: l₂), (s.body b).isSome := fun b hb => (h.allocated b).2 hb
  obtain ⟨hndr, har, _⟩ := nodup_rotate hnd
  obtain ⟨s₁, h₁, nb₁, brk₁, fp₁, body₁, chF₁, chP₁⟩ := takeFromFull_spec h
  obtain ⟨s₂, h₂, nb₂, fp₂, ff₂, brk₂, body₂, chP₂, chF₂⟩ :=
    linkFront_lists (s := s₁) (a := a) chP₁ chF₁ hndr har (by rw [body₁]; exact hal a (by simp))
      (fun b hb => by rw [body₁]; exact hal b (List.mem_append_left _ hb))
  refine ⟨{ s₂ with firstPartialChunk := some a }, ?_, ⟨chP₂, ?_, List.nodup_cons.2 ⟨har, hndr⟩, fun b => ?_⟩,
    nb₂.trans nb₁, brk₂.trans brk₁, fun b => (body₂ b).trans (body₁ b)⟩
  · simp only [moveToPartial, h₁, fp₁, h₂, Option.bind_eq_bind, Option.bind_some]
  · show Chain s₂.nx s₂.pv none s₂.firstFullChunk (l₁ ++ l₂)
    rw [ff₂]
    exact chF₂
  · show (s₂.body b).isSome ↔ _
    rw [body₂, body₁, h.allocated b]
    simp only [List.mem_append, List.mem_cons]
    tauto

/-- **The first partial chunk got full**: it goes to the front of the full list, and the partial list is dropped.  The
rest of it, `pl`, is still a chain, from the `next` field the chunk had. -/
theorem moveToFull_spec {s : Slab α} {pl fl : List Nat} {a : Nat} (h : Lists s (a :: pl) fl) :
    ∃ s', moveToFull s a = some s' ∧ s'.nbSlotsPerChunk = s.nbSlotsPerChunk ∧ s'.chunks.brk = s.chunks.brk ∧
      (∀ b, s'.body b = s.body b) ∧ s'.firstPartialChunk = none ∧ Chain s'.nx s'.pv none s'.firstFullChunk (a :: fl) ∧
      Chain s'.nx s'.pv none (s.nx a) pl := by
  have hal : ∀ b ∈ a :: pl ++ fl, (s.body b).isSome := fun b hb => (h.allocated b).2 hb
  obtain ⟨hndr, har, _⟩ := nodup_rotate (l := []) h.nodup
  obtain ⟨s₁, h₁, nb₁, fp₁, ff₁, brk₁, body₁, nx₁, pv₁, chP₁, chF₁⟩ :=
    unlink_lists (show Chain s.nx s.pv none _ ([] ++ a :: pl) from h.partialChain) h.fullChain h.nodup
      (fun b hb => hal b (List.mem_append_left _ hb))
  obtain ⟨c, hc⟩ := Slab.cells_of_body (s := s₁) (a := a) (by rw [body₁]; exact hal a (by simp))
  rw [Slab.pv_of_cells hc] at pv₁
  rw [← ff₁] at chF₁
  have ht : takeFromPartial s a = some { s₁ with firstPartialChunk := none } := by
    simp only [takeFromPartial, h₁, hc, Option.bind_eq_bind, Option.bind_some, fp₁, pv₁]
    rw [if_pos h.partialChain.1, if_pos h.partialChain.2.1]
  obtain ⟨s₂, h₂, nb₂, fp₂, ff₂, brk₂, body₂, chF₂, chP₂⟩ :=
    linkFront_lists (s := { s₁ with firstPartialChunk := none }) (a := a) chF₁ chP₁ hndr har
      ((body₁ a).symm ▸ hal a (by simp)) (fun b hb => (body₁ b).symm ▸ hal b (List.mem_append_right _ hb))
  refine ⟨{ s₂ with firstFullChunk := some a }, ?_, nb₂.trans nb₁, brk₂.trans brk₁,
    fun b => (body₂ b).trans (body₁ b), fp₂, chF₂, ?_⟩
  · simp only [moveToFull, ht, h₂, Option.bind_eq_bind, Option.bind_some]
  · rw [if_pos rfl] at chP₂
    exact chP₂

theorem Slab.links_free {s t : Slab α} {a b : Nat} (ht : t.chunks = s.chunks.free a) (hb : b ≠ a) :
    t.nx b = s.nx b ∧ t.pv b = s.pv b := by
  simp [Slab.nx, Slab.pv, ht, hb]

theorem Slab.body_free {s t : Slab α} {a : Nat} (ht : t.chunks = s.chunks.free a) (b : Nat) :
    t.body b = if b = a then none else s.body b := by
  by_cases hb : b = a <;> simp [Slab.body, ht, hb]

/-- **An empty chunk leaves the partial list** and is freed. -/
theorem freeChunk_spec {s : Slab α} {l₁ l₂ fl : List Nat} {a : Nat} (h : Lists s (l₁ ++ a :: l₂) fl) :
    ∃ s', freeChunk s a = some s' ∧ Lists s' (l₁ ++ l₂) fl ∧ s'.nbSlotsPerChunk = s.nbSlotsPerChunk ∧
      ∀ b, s'.body b = if b = a then none else s.body b := by
  have hal : ∀ b ∈ l₁ ++ a :: l₂, (s.body b).isSome := fun b hb => (h.allocated b).2 (List.mem_append_left _ hb)
  obtain ⟨hndr, har, _⟩ := nodup_rotate h.nodup
  obtain ⟨s₁, h₁, nb₁, fp₁, ff₁, brk₁, body₁, nx₁, pv₁, chP, chF⟩ := unlink_lists h.partialChain h.fullChain h.nodup hal
  obtain ⟨c, hc⟩ := Slab.cells_of_body (s := s₁) (a := a) (by rw [body₁]; exact hal a (by simp))
  rw [Slab.nx_of_cells hc] at nx₁
  have hne : ∀ {l : List Nat}, a ∉ l → ∀ b ∈ l, b ≠ a := fun hl b hb e => hl (e ▸ hb)
  have hal' : a ∉ l₁ ++ l₂ ∧ a ∉ fl := by
    rw [List.mem_append, not_or] at har
    exact ⟨har.2, har.1⟩
  -- `first_partial_chunk` after the two `if`s
  have hfp : (if s₁.firstPartialChunk = some a then c.next else s₁.firstPartialChunk)
      = if l₁ = [] then s.nx a else s.firstPartialChunk := by
    rw [fp₁, nx₁]
    cases l₁ with
    | nil => rw [if_pos h.partialChain.1, if_pos rfl]
    | cons b l₁ =>
      have hba : b ≠ a := fun e => hal'.1 (by simp [e])
      rw [if_neg (by rw [h.partialChain.1]; exact fun e => hba (Option.some.inj e)), if_neg (by simp)]
  refine ⟨{ s₁ with firstPartialChunk := if l₁ = [] then s.nx a else s.firstPartialChunk, chunks := s₁.chunks.free a },
    by simp only [freeChunk, h₁, hc, Option.bind_eq_bind, Option.bind_some, hfp], ⟨?_, ?_, ?_, ?_⟩, nb₁,
    fun b => by rw [Slab.body_free (s := s₁) rfl, body₁]⟩
  · exact chP.congr (fun b hb => Slab.links_free (s := s₁) rfl (hne hal'.1 b hb))
  · show Chain _ _ none s₁.firstFullChunk _
    rw [ff₁]
    exact chF.congr (fun b hb => Slab.links_free (s := s₁) rfl (hne hal'.2 b hb))
  · exact List.perm_append_comm.nodup_iff.1 hndr
  · intro b
    rw [Slab.body_free (s := s₁) rfl, body₁]
    by_cases hb : b = a
    · subst hb
      simp only [if_true, Option.isSome_none, Bool.false_eq_true, List.mem_append, false_iff, not_or]
      rw [List.mem_append, not_or] at hal'
      exact hal'
    · rw [if_neg hb, h.allocated b]
      simp only [List.mem_append, List.mem_cons, hb, false_or]

end Pincaster
