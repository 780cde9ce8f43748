import Pincaster.SlipMapScan
/-!
# SlipMapLaws — what a removal, a replacement and a search do to the slots of a slip map

A removal gives the bytes of a slot to the slot in front of it, or starts the map over; a replacement writes over the
old value, or gives the slot up for another one; a `foreach` reads the bindings in the order of their slots.
-/
namespace Pincaster

open Lib (Bytes readAt writeAt get16 put16 resize be16)

variable {σ : Type}

/-! ## Removing -/

/-- The slots after the removal of the slot `t`, which has `before` in front of it and `after` behind. -/
inductive Removed (before : List Tile) (t : Tile) (after : List Tile) : List Tile → Prop
  | sole : before = [] → after = [] → Removed before t after [⟨[], [], t.body⟩]
  | first : before = [] → after ≠ [] → Removed before t after after
  | behind {q : List Tile} {p : Tile} : before = q ++ [p] →
      Removed before t after (q ++ ⟨p.key, p.value, p.free ++ (List.replicate 6 0 ++ t.body)⟩ :: after)

/-- A slot in front of which nothing stands: the map starts over, or the slots behind move to the front. -/
theorem removeFirst {s : SlipMap} {t : Tile} {after : List Tile} (hmap : s.map = tilesBytes (t :: after))
    (hsize : s.sizeofMap = s.map.length) (hmax : s.map.length ≤ 0xffff) {next : Nat} (hnext : next = t.bytes.length) :
    ∃ s' ts', Removed [] t after ts' ∧ s'.map = tilesBytes ts' ∧ s'.sizeofMap = s'.map.length ∧
      s'.map.length ≤ s.map.length ∧
      (if next = s.sizeofMap then (initSlipMap s).bind (fun slipMap => some (slipMap, (1 : Int)))
      else if next ≤ s.sizeofMap then
        (readAt s.map next (s.sizeofMap - next)).bind (fun data => (writeAt s.map 0 data).bind (fun map =>
          some (⟨s.sizeofMap - next, resize map (s.sizeofMap - next)⟩, 1)))
      else none) = some (s', 1) := by
  have hlen := t.length_bytes
  have htot : s.sizeofMap = t.bytes.length + (tilesBytes after).length := by rw [hsize, hmap]; simp
  by_cases hafter : after = []
  · subst hafter
    have htot' : s.sizeofMap = t.bytes.length := by simpa using htot
    rw [if_pos (by omega)]
    have h0 := Lib.put16_mid (p := []) (m := be16 t.free.length)
      (q := be16 t.key.length ++ be16 t.value.length ++ t.body) (o := 0) (s.sizeofMap - 6) rfl (by omega) rfl
    have h2 := Lib.writeAt_mid (p := be16 (s.sizeofMap - 6)) (m := be16 t.key.length ++ be16 t.value.length)
      (q := t.body) (o := 2) [0, 0, 0, 0] rfl rfl
    have hb : t.body.length = s.sizeofMap - 6 := by simp only [Tile.body, List.length_append]; omega
    have hbytes : s.map = [] ++ (be16 t.free.length ++ (be16 t.key.length ++ be16 t.value.length ++ t.body)) := by
      rw [hmap]; simp [Tile.bytes]
    have hnew : be16 (s.sizeofMap - 6) ++ ([0, 0, 0, 0] ++ t.body) = tilesBytes [⟨[], [], t.body⟩] := by
      simp only [tilesBytes_cons, tilesBytes_nil, List.append_nil, Tile.bytes, hb]
      rfl
    refine ⟨⟨s.sizeofMap, tilesBytes [⟨[], [], t.body⟩]⟩, _, .sole rfl rfl, rfl, ?_, ?_, ?_⟩
    · simp; omega
    · rw [← hsize]; simp; omega
    · rw [initSlipMap, if_pos (by omega), hbytes, h0]
      simp only [Option.bind_eq_bind, Option.bind_some]
      rw [List.nil_append, List.append_assoc] at *
      rw [h2, hnew]
      rfl
  · have hpos : 0 < (tilesBytes after).length := by
      have := length_le_tilesBytes after
      have := List.length_pos_of_ne_nil hafter
      omega
    rw [if_neg (by omega), if_pos (by omega)]
    have hread := Lib.readAt_mid (p := t.bytes) (m := tilesBytes after) (q := []) (o := next)
      (n := s.sizeofMap - next) hnext (by omega)
    obtain ⟨x, y, hxy, hx, _⟩ := exists_cut (l := s.map) (n := (tilesBytes after).length) (by omega)
    have hwrite := Lib.writeAt_mid (p := []) (m := x) (q := y) (o := 0) (tilesBytes after) rfl hx.symm
    rw [List.nil_append, List.nil_append, ← hxy] at hwrite
    have hmap' : s.map = t.bytes ++ (tilesBytes after ++ []) := by rw [hmap]; simp
    refine ⟨⟨s.sizeofMap - next, tilesBytes after⟩, _, .first rfl hafter, rfl, by simp; omega, by simp; omega, ?_⟩
    rw [← hmap'] at hread
    rw [hread, Option.bind_some, hwrite, Option.bind_some, Lib.resize_le (by omega)]

/-- A slot behind another one: its bytes become free bytes of that one. -/
theorem removeBehind {s : SlipMap} {q after : List Tile} {p t : Tile} (hmap : s.map = tilesBytes (q ++ p :: t :: after))
    (hmax : s.map.length ≤ 0xffff) {prev pnt : Nat} (hprev : prev = (tilesBytes q).length)
    (hpnt : pnt = (tilesBytes (q ++ [p])).length) :
    ((get16 s.map prev).bind (fun previousSlotFree =>
      (put16 s.map prev (previousSlotFree + 6 + t.key.length + t.value.length + t.free.length)).bind (fun map =>
        (writeAt map pnt [0, 0, 0, 0, 0, 0]).bind (fun map => some (({ s with map } : SlipMap), (1 : Int)))))) =
      some (⟨s.sizeofMap, tilesBytes (q ++ ⟨p.key, p.value, p.free ++ (List.replicate 6 0 ++ t.body)⟩ :: after)⟩, 1)
    := by
  have hp := p.length_bytes
  have ht := t.length_bytes
  have htot : s.map.length = (tilesBytes q).length + (p.bytes.length + (t.bytes.length + (tilesBytes after).length)) := by
    rw [hmap]; simp only [tilesBytes_append, tilesBytes_cons, List.length_append]
  have hbytes : s.map = tilesBytes q ++ (be16 p.free.length ++ (be16 p.key.length ++ (be16 p.value.length ++ p.body)
      ++ (t.bytes ++ tilesBytes after))) := by
    rw [hmap]; simp [Tile.bytes]
  have hget := Lib.get16_be16 (p := tilesBytes q) (o := prev) (q := be16 p.key.length ++
    (be16 p.value.length ++ p.body) ++ (t.bytes ++ tilesBytes after)) p.free.length hprev (by omega)
  have hput := Lib.put16_mid (p := tilesBytes q) (o := prev) (m := be16 p.free.length) (q := be16 p.key.length ++
    (be16 p.value.length ++ p.body) ++ (t.bytes ++ tilesBytes after))
    (p.free.length + 6 + t.key.length + t.value.length + t.free.length) hprev (by omega) rfl
  obtain ⟨n, hn⟩ : ∃ n, n = p.free.length + 6 + t.key.length + t.value.length + t.free.length := ⟨_, rfl⟩
  rw [← hn] at hput
  have hwrite := Lib.writeAt_mid (p := tilesBytes q ++ (be16 n ++ (be16 p.key.length ++
      (be16 p.value.length ++ p.body)))) (o := pnt)
    (m := be16 t.free.length ++ be16 t.key.length ++ be16 t.value.length) (q := t.body ++ tilesBytes after)
    [0, 0, 0, 0, 0, 0] (by rw [hpnt]; simp [Tile.bytes]) rfl
  simp only [List.append_assoc, Tile.bytes] at hget hput hwrite hbytes
  rw [hbytes, hget]
  simp only [Option.bind_some, ← hn, hput, hwrite]
  have hfree : (p.free ++ (List.replicate 6 (0 : UInt8) ++ t.body)).length = n := by
    simp only [List.length_append, List.length_replicate, Tile.body]
    omega
  rw [tilesBytes_append, tilesBytes_cons, Tile.bytes]
  simp only [hfree]
  simp only [Tile.body, List.append_assoc]
  rfl

theorem removeScan_spec {s : SlipMap} (hsize : s.sizeofMap = s.map.length) (hmax : s.map.length ≤ 0xffff)
    {key : Bytes} (hkey : key ≠ []) : ∀ (rest pre : List Tile) (fuel pnt : Nat) (prev : Option Nat),
    s.map = tilesBytes (pre ++ rest) → pnt = (tilesBytes pre).length →
    prev = pre.getLast?.map (fun _ => (tilesBytes pre.dropLast).length) →
    (∀ t ∈ rest, t.key = [] → t.value = []) → rest.length < fuel →
    ((∀ t ∈ rest, t.key ≠ key) ∧ removeScan s key fuel pnt prev = some (s, 0)) ∨
    ∃ l₁ t l₂ s' ts', rest = l₁ ++ t :: l₂ ∧ t.key = key ∧ removeScan s key fuel pnt prev = some (s', 1) ∧
      Removed (pre ++ l₁) t l₂ ts' ∧ s'.map = tilesBytes ts' ∧ s'.sizeofMap = s'.map.length ∧
      s'.map.length ≤ s.map.length
  | _, _, 0, _, _, _, _, _, _, h => by omega
  | [], pre, fuel + 1, pnt, prev, hmap, hpnt, _, _, _ => by
    refine .inl ⟨by simp, ?_⟩
    rw [removeScan, if_neg (by rw [hsize, hmap, hpnt, List.append_nil]; omega)]
  | t :: rest, pre, fuel + 1, pnt, prev, hmap, hpnt, hprev, hempty, hfuel => by
    have hfit : t.Fits := fits_of_mem (by rw [← hmap]; exact hmax) (show t ∈ pre ++ t :: rest by simp)
    have hlen := t.length_bytes
    have hmap' : s.map = tilesBytes pre ++ (t.bytes ++ tilesBytes rest) := by rw [hmap]; simp
    have hlt : pnt < s.sizeofMap := by
      rw [hsize, hmap', hpnt]
      simp only [List.length_append]
      omega
    have hheader := readHeader_tile (p := tilesBytes pre) (q := tilesBytes rest) hpnt hfit
    have hsame := sameKey_tile (p := tilesBytes pre) (q := tilesBytes rest) (o := pnt + 6) t key
      (by rw [hpnt])
    rw [← hmap'] at hheader hsame
    have hnone : ¬ (t.key.length ≤ 0 ∧ t.value.length ≠ 0) := fun ⟨h1, h2⟩ => by
      have := hempty t List.mem_cons_self (List.eq_nil_of_length_eq_zero (by omega))
      rw [this] at h2
      exact h2 rfl
    rw [removeScan, if_pos hlt, hheader]
    simp only [Option.bind_eq_bind, Option.bind_some, hsame, if_neg hnone]
    by_cases htk : t.key = key
    · -- the slot of the key
      rw [if_pos (by simpa using htk)]
      rcases List.eq_nil_or_concat pre with rfl | ⟨q, p, rfl⟩
      · rw [hprev]
        simp only [List.getLast?_nil, Option.map_none]
        obtain ⟨s', ts', hrem, h1, h2, h3, heq⟩ := removeFirst
          (show s.map = tilesBytes (t :: rest) by rw [hmap]; rfl) hsize hmax
          (show pnt + 6 + t.key.length + t.value.length + t.free.length = t.bytes.length by rw [hpnt]; simp)
        exact .inr ⟨[], t, rest, s', ts', rfl, htk, heq, hrem, h1, h2, h3⟩
      · rw [hprev]
        simp only [List.concat_eq_append, List.getLast?_concat, Option.map_some, List.dropLast_concat]
        have heq := removeBehind (show s.map = tilesBytes (q ++ p :: t :: rest) by rw [hmap]; simp) hmax
          rfl (show pnt = (tilesBytes (q ++ [p])).length by rw [hpnt]; simp)
        refine .inr ⟨[], t, rest, _, _, rfl, htk, heq, .behind (by simp), rfl, ?_, ?_⟩ <;>
          simp [hsize, hmap, Tile.body] <;> omega
    · rw [if_neg (by simpa using htk)]
      rcases removeScan_spec hsize hmax hkey rest (pre ++ [t]) fuel
          (pnt + 6 + t.key.length + t.value.length + t.free.length) (some pnt) (by rw [hmap]; simp)
          (by simp [hpnt]; omega) (by simp [hpnt]) (fun u hu => hempty u (List.mem_cons_of_mem t hu))
          (by simp at hfuel; omega) with ⟨h1, h2⟩ | ⟨l₁, u, l₂, s', ts', h1, h2, h3, h4, h5⟩
      · exact .inl ⟨List.forall_mem_cons.2 ⟨htk, h1⟩, h2⟩
      · exact .inr ⟨t :: l₁, u, l₂, s', ts', by rw [h1]; rfl, h2, h3, by simpa using h4, h5⟩

theorem mem_keys {ts : List Tile} {key : Bytes} (hkey : key ≠ []) :
    key ∈ (entries ts).map Prod.fst ↔ ∃ t ∈ ts, t.key = key := by
  simp only [entries, List.mem_map, List.mem_filterMap]
  constructor
  · rintro ⟨p, ⟨t, ht, hp⟩, rfl⟩
    split at hp
    · cases hp
    · cases hp
      exact ⟨t, ht, rfl⟩
  · rintro ⟨t, ht, rfl⟩
    exact ⟨(t.key, t.value), ⟨t, ht, by rw [if_neg hkey]⟩, rfl⟩

/-- A map that has a slot with a key has no empty slot. -/
theorem Tiled.keys_ne_nil {s : SlipMap} {ts : List Tile} (h : Tiled s ts) {t : Tile} (ht : t ∈ ts) (hk : t.key ≠ []) :
    ∀ u ∈ ts, u.key ≠ [] := fun u hu hnil => by
  obtain ⟨rfl, _⟩ := h.empty u hu hnil
  rw [List.mem_singleton.1 ht] at hk
  exact hk hnil

/-- The slot that a removal gives up. -/
theorem removeEntryFromSlipMap_slot {s : SlipMap} {ts : List Tile} (h : Tiled s ts) {key : Bytes}
    (hk : 0 < key.length ∧ key.length ≤ 0xffff) :
    (key ∉ (entries ts).map Prod.fst ∧ removeEntryFromSlipMap s key = some (s, 0)) ∨
    ∃ before t after s' ts', ts = before ++ t :: after ∧ t.key = key ∧ Removed before t after ts' ∧
      removeEntryFromSlipMap s key = some (s', 1) ∧ Tiled s' ts' ∧
      (entries ts).Perm ((key, t.value) :: entries ts') := by
  have hkey : key ≠ [] := List.ne_nil_of_length_pos hk.1
  have hcount := length_le_tilesBytes ts
  have hsz : s.sizeofMap = (tilesBytes ts).length := by rw [h.size, h.map]
  rw [removeEntryFromSlipMap, if_pos hk, mem_keys hkey]
  rcases removeScan_spec h.size h.max hkey ts [] (s.sizeofMap + 1) 0 none (by rw [h.map]; rfl) rfl rfl
    (fun t ht hnil => (h.empty t ht hnil).2) (by omega) with ⟨h1, h2⟩ | ⟨l₁, t, l₂, s', ts', rfl, rfl, h3, h4, h5, h6, h7⟩
  · exact .inl ⟨fun ⟨t, ht, htk⟩ => h1 t ht htk, h2⟩
  · have hkeys := h.keys_ne_nil (t := t) (by simp) hkey
    have hmax : s'.map.length ≤ 0xffff := Nat.le_trans h7 h.max
    have hperm₀ : (entries (l₁ ++ t :: l₂)).Perm ((t.key, t.value) :: entries (l₁ ++ l₂)) := by
      rw [entries_append, entries_cons _ _ hkey, entries_append]
      exact List.perm_middle
    have hnodup : ((entries (l₁ ++ l₂)).map Prod.fst).Nodup := by
      have := h.nodup
      rw [(hperm₀.map Prod.fst).nodup_iff] at this
      exact (List.nodup_cons.1 this).2
    rw [List.nil_append] at h4
    refine .inr ⟨l₁, t, l₂, s', ts', rfl, rfl, h4, h3, ?_⟩
    cases h4 with
    | sole hb ha =>
      subst hb ha
      refine ⟨⟨h5, h6, hmax, by simp, fun u hu _ => ?_, by simp [entries]⟩, by simpa [entries] using hperm₀⟩
      rw [List.mem_singleton.1 hu]
      exact ⟨rfl, rfl⟩
    | first hb ha =>
      subst hb
      exact ⟨tiled_of_keys h5 h6 hmax ha (fun u hu => hkeys u (by simp [hu])) (by simpa using hnodup),
        by simpa using hperm₀⟩
    | @behind q p hb =>
      subst hb
      have hp : p.key ≠ [] := hkeys p (by simp)
      have hentries : entries (q ++ ⟨p.key, p.value, p.free ++ (List.replicate 6 0 ++ t.body)⟩ :: l₂) =
          entries (q ++ [p] ++ l₂) := by
        rw [entries_append, entries_cons _ _ (by exact hp), List.append_assoc, entries_append, List.singleton_append,
          entries_cons _ _ hp]
      refine ⟨tiled_of_keys h5 h6 hmax (by simp) (fun u hu => ?_) (by rw [hentries]; exact hnodup),
        by rw [hentries]; exact hperm₀⟩
      simp only [List.mem_append, List.mem_cons] at hu
      rcases hu with hu | rfl | hu
      · exact hkeys u (by simp [hu])
      · exact hp
      · exact hkeys u (by simp [hu])

/-- **`remove_entry_from_slip_map`**: 1 when the key was bound, and then all the other bindings are left. -/
theorem removeEntryFromSlipMap_spec {s : SlipMap} {ts : List Tile} (h : Tiled s ts) {key : Bytes}
    (hk : 0 < key.length ∧ key.length ≤ 0xffff) :
    (key ∉ (entries ts).map Prod.fst ∧ removeEntryFromSlipMap s key = some (s, 0)) ∨
    ∃ s' ts' value, removeEntryFromSlipMap s key = some (s', 1) ∧ Tiled s' ts' ∧
      (entries ts).Perm ((key, value) :: entries ts') :=
  (removeEntryFromSlipMap_slot h hk).imp_right (fun ⟨_, t, _, s', ts', _, _, _, hrem, htiled, hperm⟩ =>
    ⟨s', ts', t.value, hrem, htiled, hperm⟩)

/-! ## Replacing -/

theorem not_mem_of_perm_cons {es es' : List (Bytes × Bytes)} {key v₀ : Bytes} (h : es.Perm ((key, v₀) :: es'))
    (hnodup : (es.map Prod.fst).Nodup) : key ∉ es'.map Prod.fst ∧ (es'.map Prod.fst).Nodup := by
  rw [(h.map Prod.fst).nodup_iff] at hnodup
  exact List.nodup_cons.1 hnodup

theorem mem_of_perm_cons {es es' : List (Bytes × Bytes)} {key v₀ k v : Bytes} (h : es.Perm ((key, v₀) :: es'))
    (hnodup : (es.map Prod.fst).Nodup) : (k, v) ∈ es' ↔ k ≠ key ∧ (k, v) ∈ es := by
  have hkey := (not_mem_of_perm_cons h hnodup).1
  rw [h.mem_iff, List.mem_cons, Prod.mk.injEq]
  constructor
  · intro hm
    refine ⟨?_, .inr hm⟩
    rintro rfl
    exact hkey (List.mem_map.2 ⟨_, hm, rfl⟩)
  · rintro ⟨hne, ⟨rfl, _⟩ | hm⟩
    · exact absurd rfl hne
    · exact hm

/-- The map after a replacement: tiled, and only the given key is bound anew. -/
def Replaced (s' : SlipMap) (ts : List Tile) (key value : Bytes) : Prop :=
  ∃ ts', Tiled s' ts' ∧ ∀ k v, (k, v) ∈ entries ts' ↔ k = key ∧ v = value ∨ k ≠ key ∧ (k, v) ∈ entries ts

/-- The bindings after a replacement that finds no room. -/
def Dropped (s' : SlipMap) (ts : List Tile) (key : Bytes) : Prop :=
  ∃ ts', Tiled s' ts' ∧ ∀ k v, (k, v) ∈ entries ts' ↔ k ≠ key ∧ (k, v) ∈ entries ts

theorem dropped_of_new {s : SlipMap} {ts : List Tile} {key : Bytes} (h : Tiled s ts)
    (hnew : key ∉ (entries ts).map Prod.fst) : Dropped s ts key :=
  ⟨ts, h, fun k v => ⟨fun hm => ⟨by rintro rfl; exact hnew (List.mem_map.2 ⟨_, hm, rfl⟩), hm⟩, And.right⟩⟩

theorem replaced_of_inserted {s' : SlipMap} {ts : List Tile} {key value : Bytes} (h : Inserted s' ts key value)
    (hnew : key ∉ (entries ts).map Prod.fst) : Replaced s' ts key value := by
  obtain ⟨ts', htiled, hperm⟩ := h
  refine ⟨ts', htiled, fun k v => ?_⟩
  rw [hperm.mem_iff, List.mem_cons, Prod.mk.injEq]
  refine or_congr_right ⟨fun hm => ⟨?_, hm⟩, And.right⟩
  rintro rfl
  exact hnew (List.mem_map.2 ⟨_, hm, rfl⟩)

/-- The value is written over the old value and the free bytes behind it. -/
theorem replaceInPlace {p q : Bytes} (value : Bytes) {t : Tile} {pnt : Nat} (hpnt : pnt = p.length) (hfit : t.Fits)
    (hroom : value.length ≤ t.value.length + t.free.length) (sizeofMap : Nat) :
    (writeAt (p ++ (t.bytes ++ q)) (pnt + 6 + t.key.length) value).bind (fun map =>
      (put16 map pnt (t.value.length + t.free.length - value.length)).bind (fun map =>
        (put16 map (pnt + 4) value.length).bind (fun map => some ((⟨sizeofMap, map⟩ : SlipMap), (0 : Int))))) =
      some (⟨sizeofMap, p ++ (Tile.bytes ⟨t.key, value, (t.value ++ t.free).drop value.length⟩ ++ q)⟩, 0) := by
  have hlen := t.length_bytes
  unfold Tile.Fits at hfit
  obtain ⟨x, y, hxy, hx, hy⟩ := exists_cut (l := t.value ++ t.free) (n := value.length) (by simpa using hroom)
  have hylen : y.length = t.value.length + t.free.length - value.length := by rw [hy]; simp
  have hbytes : t.bytes = be16 t.free.length ++ (be16 t.key.length ++ (be16 t.value.length ++ (t.key ++ (x ++ y)))) := by
    rw [Tile.bytes, Tile.body, hxy]
  have hwrite := Lib.writeAt_mid (p := p ++ be16 t.free.length ++ be16 t.key.length ++ be16 t.value.length ++ t.key)
    (m := x) (q := y ++ q) (o := pnt + 6 + t.key.length) value (by simp [hpnt]; omega) hx.symm
  have h0 := Lib.put16_mid (p := p) (m := be16 t.free.length) (q := be16 t.key.length ++
    (be16 t.value.length ++ (t.key ++ (value ++ (y ++ q))))) (o := pnt) y.length hpnt (by omega) rfl
  have h4 := Lib.put16_mid (p := p ++ be16 y.length ++ be16 t.key.length) (m := be16 t.value.length)
    (q := t.key ++ (value ++ (y ++ q))) (o := pnt + 4) value.length (by simp [hpnt]) (by omega) rfl
  simp only [List.append_assoc] at hwrite h0 h4
  rw [hbytes, ← hylen, ← hy]
  simp only [List.append_assoc, hwrite, Option.bind_some, h0, h4, Tile.bytes, Tile.body]

theorem replaceScan_spec {s : SlipMap} {ts : List Tile} (h : Tiled s ts) {key value : Bytes}
    (hk : 0 < key.length ∧ key.length ≤ 0xffff ∧ value.length ≤ 0xffff) : ∀ (rest pre : List Tile) (fuel pnt : Nat),
    ts = pre ++ rest → pnt = (tilesBytes pre).length → (∀ t ∈ pre, t.key ≠ key) → rest.length < fuel →
    ∃ s' ret, replaceScan s key value (6 + key.length + value.length) fuel pnt = some (s', ret) ∧
      (ret = 0 ∧ Replaced s' ts key value ∨ ret = -1 ∧ Dropped s' ts key)
  | _, _, 0, _, _, _, _, h => by omega
  | [], pre, fuel + 1, pnt, hts, hpnt, hpre, _ => by
    have hnew : key ∉ (entries ts).map Prod.fst := by
      rw [mem_keys (List.ne_nil_of_length_pos hk.1), hts, List.append_nil]
      exact fun ⟨t, ht, htk⟩ => hpre t ht htk
    obtain ⟨s', ret, hadd, hret⟩ := addEntryToSlipMap_spec h hk hnew
    refine ⟨s', ret, ?_, hret.imp (fun ⟨h0, hins⟩ => ⟨h0, replaced_of_inserted hins hnew⟩)
      (fun ⟨hneg, hsame⟩ => ⟨hneg, hsame ▸ dropped_of_new h hnew⟩)⟩
    rw [replaceScan, if_neg (by rw [h.size, h.map, hts, hpnt, List.append_nil]; omega), hadd]
  | t :: rest, pre, fuel + 1, pnt, hts, hpnt, hpre, hfuel => by
    have hkey : key ≠ [] := List.ne_nil_of_length_pos hk.1
    have hmem : t ∈ ts := by rw [hts]; simp
    have hmap : s.map = tilesBytes pre ++ (t.bytes ++ tilesBytes rest) := by rw [h.map, hts]; simp
    have hfit : t.Fits := fits_of_mem (by rw [← h.map]; exact h.max) hmem
    have hlen := t.length_bytes
    have htot : s.sizeofMap = (tilesBytes pre).length + (t.bytes.length + (tilesBytes rest).length) := by
      rw [h.size, hmap]; simp only [List.length_append]
    have hheader := readHeader_tile (p := tilesBytes pre) (q := tilesBytes rest) hpnt hfit
    have hsame := sameKey_tile (p := tilesBytes pre) (q := tilesBytes rest) (o := pnt + 6) t key (by rw [hpnt])
    rw [← hmap] at hheader hsame
    have hnone : ¬ (t.key.length ≤ 0 ∧ t.value.length ≠ 0) := fun ⟨h1, h2⟩ => by
      have := (h.empty t hmem (List.eq_nil_of_length_eq_zero (by omega))).2
      rw [this] at h2
      exact h2 rfl
    rw [replaceScan, if_pos (by omega), hheader]
    simp only [Option.bind_eq_bind, Option.bind_some, hsame, if_neg hnone]
    by_cases htk : t.key = key
    · rw [if_pos (by simpa using htk)]
      have hperm : (entries ts).Perm ((key, t.value) :: entries (pre ++ rest)) := by
        rw [hts, entries_append, entries_cons _ _ (by rw [htk]; exact hkey), entries_append, htk]
        exact List.perm_middle
      by_cases hroom : 6 + key.length + value.length > 6 + t.key.length + t.value.length + t.free.length
      · -- the value does not fit: the slot is given up for another one
        rw [if_pos hroom]
        rcases removeEntryFromSlipMap_spec h ⟨hk.1, hk.2.1⟩ with ⟨hno, _⟩ | ⟨s₁, ts₁, v₀, hrem, htiled, hperm₁⟩
        · exact absurd ((mem_keys hkey).2 ⟨t, hmem, htk⟩) hno
        · have hnew := (not_mem_of_perm_cons hperm₁ h.nodup).1
          obtain ⟨s₂, ret, hadd, hret⟩ := addEntryToSlipMap_spec htiled hk hnew
          refine ⟨s₂, ret, by rw [hrem]; simpa using hadd, hret.imp (fun ⟨h0, hins⟩ => ⟨h0, ?_⟩)
            (fun ⟨hneg, hsame⟩ => ⟨hneg, ts₁, hsame ▸ htiled, fun k v => mem_of_perm_cons hperm₁ h.nodup⟩)⟩
          obtain ⟨ts₂, htiled₂, hmem₂⟩ := replaced_of_inserted hins hnew
          refine ⟨ts₂, htiled₂, fun k v => ?_⟩
          rw [hmem₂, mem_of_perm_cons hperm₁ h.nodup]
          tauto
      · rw [if_neg hroom]
        have hin := replaceInPlace (p := tilesBytes pre) (q := tilesBytes rest) value hpnt hfit
          (by rw [htk] at hroom; omega) s.sizeofMap
        rw [← hmap] at hin
        have hsub : 6 + t.key.length + t.value.length + t.free.length - (6 + key.length + value.length) =
            t.value.length + t.free.length - value.length := by rw [htk]; omega
        rw [hsub, hin]
        refine ⟨_, 0, rfl, .inl ⟨rfl, pre ++ ⟨t.key, value, (t.value ++ t.free).drop value.length⟩ :: rest, ?_, ?_⟩⟩
        · have hkeys := h.keys_ne_nil hmem (by rw [htk]; exact hkey)
          have hlen' : (tilesBytes (pre ++ ⟨t.key, value, (t.value ++ t.free).drop value.length⟩ :: rest)).length =
              s.sizeofMap := by
            rw [htot]
            simp only [tilesBytes_append, tilesBytes_cons, List.length_append, Tile.length_bytes, List.length_drop]
            rw [htk] at hroom hlen ⊢
            omega
          have hents : (entries (pre ++ ⟨t.key, value, (t.value ++ t.free).drop value.length⟩ :: rest)).map Prod.fst =
              (entries ts).map Prod.fst := by
            rw [hts, entries_append, entries_append, entries_cons _ _ (by exact hkeys t hmem),
              entries_cons _ _ (hkeys t hmem)]
            simp
          refine tiled_of_keys (by simp) ?_ ?_ (by simp) (fun u hu => ?_) (by rw [hents]; exact h.nodup)
          · simpa using hlen'.symm
          · have hmax := h.max
            rw [← h.size, ← hlen'] at hmax
            simpa using hmax
          · simp only [List.mem_append, List.mem_cons] at hu
            rcases hu with hu | rfl | hu
            · exact hkeys u (by rw [hts]; simp [hu])
            · exact hkeys t hmem
            · exact hkeys u (by rw [hts]; simp [hu])
        · intro k v
          have hperm' : (entries (pre ++ ⟨t.key, value, (t.value ++ t.free).drop value.length⟩ :: rest)).Perm
              ((key, value) :: entries (pre ++ rest)) := by
            rw [entries_append, entries_cons _ _ (by rw [htk]; exact hkey), entries_append, htk]
            exact List.perm_middle
          rw [hperm'.mem_iff, List.mem_cons, Prod.mk.injEq, mem_of_perm_cons hperm h.nodup]
    · rw [if_neg (by simpa using htk)]
      exact replaceScan_spec h hk rest (pre ++ [t]) fuel _ (by rw [hts]; simp) (by simp [hpnt])
        (fun u hu => (List.mem_append.1 hu).elim (hpre u) (fun hu => by rw [List.mem_singleton.1 hu]; exact htk))
        (by simp at hfuel; omega)

/-- **`replace_entry_in_slip_map`**: it has a result, and binds exactly the given key when that is 0; else it has removed
the key. -/
theorem replaceEntryInSlipMap_spec {s : SlipMap} {ts : List Tile} (h : Tiled s ts) {key value : Bytes}
    (hk : 0 < key.length ∧ key.length ≤ 0xffff ∧ value.length ≤ 0xffff) :
    ∃ s' ret, replaceEntryInSlipMap s key value = some (s', ret) ∧
      (ret = 0 ∧ Replaced s' ts key value ∨ ret = -1 ∧ Dropped s' ts key) := by
  have hcount := length_le_tilesBytes ts
  rw [replaceEntryInSlipMap, if_pos hk]
  exact replaceScan_spec h hk ts [] (s.sizeofMap + 1) 0 rfl rfl (by simp) (by rw [h.size, h.map]; omega)

/-! ## Reading -/

/-- The callback over a list of bindings, until it returns something else than 0. -/
def visitEntries (cb : σ → Bytes → Bytes → Int × σ) : List (Bytes × Bytes) → σ → σ
  | [], context => context
  | (key, value) :: es, context =>
    let (ret, context) := cb context key value
    if ret ≠ 0 then context else visitEntries cb es context

theorem visitEntries_eq_foldl (cb : σ → Bytes → Bytes → Int × σ) (hcb : ∀ c k v, (cb c k v).1 = 0) :
    ∀ (es : List (Bytes × Bytes)) (context : σ),
      visitEntries cb es context = es.foldl (fun c p => (cb c p.1 p.2).2) context
  | [], _ => rfl
  | (k, v) :: es, context => by
    simp only [visitEntries, hcb, ne_eq, not_true_eq_false, if_false, List.foldl_cons]
    exact visitEntries_eq_foldl cb hcb es _

theorem foreachScan_spec {s : SlipMap} {ts : List Tile} (h : Tiled s ts) (cb : σ → Bytes → Bytes → Int × σ) :
    ∀ (rest pre : List Tile) (fuel pnt : Nat) (context : σ), ts = pre ++ rest → pnt = (tilesBytes pre).length →
    rest.length < fuel → foreachScan s cb fuel pnt context = some (visitEntries cb (entries rest) context)
  | _, _, 0, _, _, _, _, h => by omega
  | [], pre, fuel + 1, pnt, context, hts, hpnt, _ => by
    rw [foreachScan, if_neg (by rw [h.size, h.map, hts, hpnt, List.append_nil]; omega)]
    rfl
  | t :: rest, pre, fuel + 1, pnt, context, hts, hpnt, hfuel => by
    have hmem : t ∈ ts := by rw [hts]; simp
    have hmap : s.map = tilesBytes pre ++ (t.bytes ++ tilesBytes rest) := by rw [h.map, hts]; simp
    have hfit : t.Fits := fits_of_mem (by rw [← h.map]; exact h.max) hmem
    have hlen := t.length_bytes
    have hlt : pnt < s.sizeofMap := by
      rw [h.size, hmap, hpnt]
      simp only [List.length_append]
      omega
    have hheader := readHeader_tile (p := tilesBytes pre) (q := tilesBytes rest) hpnt hfit
    have hkey := readAt_key (p := tilesBytes pre) (q := tilesBytes rest) (o := pnt + 6) t (by rw [hpnt])
    have hvalue := readAt_value (p := tilesBytes pre) (q := tilesBytes rest) (o := pnt + 6 + t.key.length) t
      (by rw [hpnt])
    rw [← hmap] at hheader hkey hvalue
    have ih := fun context => foreachScan_spec h cb rest (pre ++ [t]) fuel
      (pnt + 6 + t.key.length + t.value.length + t.free.length) context (by rw [hts]; simp) (by simp [hpnt]; omega)
      (by simp at hfuel; omega)
    rw [foreachScan, if_pos hlt, hheader]
    simp only [Option.bind_eq_bind, Option.bind_some, hkey, hvalue, ih]
    by_cases hnil : t.key = []
    · have hv := (h.empty t hmem hnil).2
      rw [if_pos (by rw [hnil]; exact Nat.le_refl 0), if_pos (by rw [hv]; rfl)]
      simp [entries, hnil]
    · have := List.length_pos_of_ne_nil hnil
      rw [if_neg (by omega), entries_cons _ _ hnil, visitEntries]
      rcases cb context t.key t.value with ⟨ret, context'⟩
      by_cases hret : ret ≠ 0
      · simp only [if_pos hret]
      · simp only [if_neg hret]

/-- **`slip_map_foreach` visits the bindings, each once.** -/
theorem slipMapForeach_spec {s : SlipMap} {ts : List Tile} (h : Tiled s ts) (cb : σ → Bytes → Bytes → Int × σ)
    (context : σ) : slipMapForeach s cb context = some (visitEntries cb (entries ts) context) :=
  foreachScan_spec h cb ts [] (s.sizeofMap + 1) 0 context rfl rfl (by
    have := length_le_tilesBytes ts
    rw [h.size, h.map]
    omega)

theorem visitEntries_find (key : Bytes) : ∀ es : List (Bytes × Bytes),
    visitEntries (findInSlipMapCb key) es none = (es.find? (fun p => p.1 = key)).map Prod.snd
  | [] => rfl
  | (k, v) :: es => by
    rw [visitEntries, findInSlipMapCb, List.find?_cons]
    by_cases hk : k = key
    · simp [hk]
    · have hne : ¬ (k.length = key.length ∧ k = key) := fun e => hk e.2
      simp only [if_neg hne, decide_eq_false hk, ne_eq, not_true_eq_false, if_false]
      exact visitEntries_find key es

theorem find_eq_some_iff {es : List (Bytes × Bytes)} (hnodup : (es.map Prod.fst).Nodup) {key value : Bytes} :
    (es.find? (fun p => p.1 = key)).map Prod.snd = some value ↔ (key, value) ∈ es := by
  constructor
  · intro h
    obtain ⟨⟨k, v⟩, hp, rfl⟩ := Option.map_eq_some_iff.1 h
    have hk : k = key := by simpa using List.find?_some hp
    subst hk
    exact List.mem_of_find?_eq_some hp
  · intro h
    cases hf : es.find? (fun p => p.1 = key) with
    | none => simpa using List.find?_eq_none.1 hf _ h
    | some p =>
      have hk : p.1 = key := by simpa using List.find?_some hf
      have heq := List.inj_on_of_nodup_map hnodup (List.mem_of_find?_eq_some hf) h hk
      rw [heq]
      rfl

end Pincaster
