import Pincaster.SlipMapTiles
/-!
# SlipMapScan — what each operation of a slip map does to its slots

One lemma for each scan of `slipmap.c`, by induction on the slots that are left, and one for each operation: from a
tiled map it has a result, and the map is tiled again.
-/
namespace Pincaster

open Lib (Bytes readAt writeAt get16 put16 resize be16)

/-! ## Adding -/

/-- How the scan for free space ends when no slot is empty. -/
inductive AddResult (pre rest : List Tile) (key value : Bytes) (required : Nat) : AddScan → Prop
  | stored {l₁ l₂ : List Tile} {t : Tile} : rest = l₁ ++ t :: l₂ → required ≤ t.free.length →
      AddResult pre rest key value required
        (.stored (tilesBytes (pre ++ l₁ ++ ⟨t.key, t.value, []⟩ :: ⟨key, value, t.free.drop required⟩ :: l₂)))
  | exhausted {l : List Tile} {t : Tile} : rest = l ++ [t] → t.free.length < required →
      AddResult pre rest key value required
        (.exhausted (some (tilesBytes (pre ++ l)).length) t.free.length t.key.length required)

theorem addScan_spec (key value : Bytes) {size : Nat} {map : Bytes} (hs : size = map.length)
    (hmax : map.length ≤ 0xffff) : ∀ (rest pre : List Tile) (t : Tile) (fuel pnt : Nat) (last : Option Nat)
    (sf skl required : Nat), map = tilesBytes (pre ++ t :: rest) → pnt = (tilesBytes pre).length →
    (∀ u ∈ t :: rest, u.key ≠ []) → rest.length + 1 < fuel → required = 6 + key.length + value.length →
    ∃ r, addScan size map key value fuel pnt last sf skl required = some r ∧
      AddResult pre (t :: rest) key value required r
  | _, _, _, 0, _, _, _, _, _, _, _, _, h, _ => by omega
  | rest, pre, t, fuel + 1, pnt, last, sf, skl, required, hmap, hpnt, hkeys, hfuel, hreq => by
    have hfit : t.Fits := fits_of_mem (by rw [← hmap]; exact hmax) (show t ∈ pre ++ t :: rest by simp)
    have hkey : 0 < t.key.length := List.length_pos_of_ne_nil (hkeys t List.mem_cons_self)
    have hlen := t.length_bytes
    have hmap' : map = tilesBytes pre ++ (t.bytes ++ tilesBytes rest) := by rw [hmap]; simp
    have hlt : pnt < size := by
      rw [hs, hmap', hpnt]
      simp only [List.length_append]
      omega
    have hheader : readHeader map pnt = some ⟨t.free.length, t.key.length, t.value.length⟩ := by
      rw [hmap']
      exact readHeader_tile hpnt hfit
    have hk : ¬ t.key.length ≤ 0 := by omega
    rw [addScan, if_pos hlt, hheader]
    simp only [Option.bind_eq_bind, Option.bind_some, hk, if_false, false_and]
    by_cases hroom : t.free.length ≥ required
    · rw [if_pos hroom]
      have hput := zeroFree_tile (p := tilesBytes pre) (q := tilesBytes rest) t hpnt
      have hup := updateMapSlot_room (p := tilesBytes pre ++ Tile.bytes ⟨t.key, t.value, []⟩)
        (q := tilesBytes rest) (o := pnt + 6 + t.key.length + t.value.length) t.free key value
        (by simp [hpnt]; omega) (by omega) (by unfold Tile.Fits at hfit; omega)
      simp only [List.append_assoc] at hup
      refine ⟨_, ?_, @AddResult.stored _ _ _ _ _ [] _ _ rfl hroom⟩
      rw [hmap', hput]
      simp only [Option.bind_some, hreq, hup, tilesBytes_append, tilesBytes_cons, List.append_nil]
    · rw [if_neg hroom]
      cases rest with
      | nil =>
        refine ⟨_, ?_, .exhausted (l := []) rfl (by omega)⟩
        have hend : ¬ pnt + 6 + t.key.length + t.value.length + t.free.length < size := by
          rw [hs, hmap', hpnt]
          simp only [List.length_append, tilesBytes_nil, List.length_nil]
          omega
        obtain ⟨fuel, rfl⟩ : ∃ f, fuel = f + 1 := ⟨fuel - 1, by simp at hfuel; omega⟩
        rw [addScan, if_neg hend, List.append_nil, hpnt]
      | cons u rest =>
        obtain ⟨r, hr, hres⟩ := addScan_spec key value hs hmax rest (pre ++ [t]) u fuel
          (pnt + 6 + t.key.length + t.value.length + t.free.length) (some pnt) t.free.length t.key.length required
          (by rw [hmap]; simp) (by simp [hpnt]; omega) (fun v hv => hkeys v (List.mem_cons_of_mem t hv))
          (by simp at hfuel; omega) hreq
        refine ⟨r, hr, ?_⟩
        cases hres with
        | @stored l₁ l₂ v heq hv =>
          have hstored := @AddResult.stored pre (t :: u :: rest) key value required (t :: l₁) l₂ v (by rw [heq]; rfl) hv
          simpa using hstored
        | @exhausted l v heq hv =>
          have hexhausted := @AddResult.exhausted pre (t :: u :: rest) key value required (t :: l) v (by rw [heq]; rfl) hv
          simpa using hexhausted

theorem length_le_tilesBytes (ts : List Tile) : ts.length ≤ (tilesBytes ts).length := by
  induction ts with
  | nil => simp
  | cons t ts ih =>
    simp only [tilesBytes_cons, List.length_append, List.length_cons, Tile.length_bytes]
    omega

theorem tiled_of_keys {s : SlipMap} {ts : List Tile} (hmap : s.map = tilesBytes ts) (hsize : s.sizeofMap = s.map.length)
    (hmax : s.map.length ≤ 0xffff) (hne : ts ≠ []) (hkeys : ∀ t ∈ ts, t.key ≠ [])
    (hnodup : ((entries ts).map Prod.fst).Nodup) : Tiled s ts :=
  ⟨hmap, hsize, hmax, hne, fun t ht h => absurd h (hkeys t ht), hnodup⟩

/-- The map after a new binding: tiled, with the bindings it had and the new one. -/
def Inserted (s' : SlipMap) (ts : List Tile) (key value : Bytes) : Prop :=
  ∃ ts', Tiled s' ts' ∧ (entries ts').Perm ((key, value) :: entries ts)

theorem nodup_of_perm_cons {es es' : List (Bytes × Bytes)} {key value : Bytes} (h : es'.Perm ((key, value) :: es))
    (hnodup : (es.map Prod.fst).Nodup) (hkey : key ∉ es.map Prod.fst) : (es'.map Prod.fst).Nodup := by
  rw [(h.map Prod.fst).nodup_iff]
  exact List.nodup_cons.2 ⟨hkey, hnodup⟩

/-- The slot of the entry behind the slot `t`, whose free bytes it takes. -/
theorem inserted_behind {s' : SlipMap} {l r : List Tile} {t : Tile} {key value free free' : Bytes}
    (hmap : s'.map = tilesBytes (l ++ ⟨t.key, t.value, free⟩ :: ⟨key, value, free'⟩ :: r))
    (hsize : s'.sizeofMap = s'.map.length) (hmax : s'.map.length ≤ 0xffff)
    (hkeys : ∀ u ∈ l ++ t :: r, u.key ≠ []) (hkey : key ≠ [])
    (hnodup : ((entries (l ++ t :: r)).map Prod.fst).Nodup)
    (hnew : key ∉ (entries (l ++ t :: r)).map Prod.fst) : Inserted s' (l ++ t :: r) key value := by
  have htkey : t.key ≠ [] := hkeys t (by simp)
  have hperm : (entries (l ++ ⟨t.key, t.value, free⟩ :: ⟨key, value, free'⟩ :: r)).Perm
      ((key, value) :: entries (l ++ t :: r)) := by
    rw [entries_append, entries_append, entries_cons _ _ (by exact htkey), entries_cons _ _ (by exact hkey),
      entries_cons _ _ htkey]
    exact (List.Perm.append_left _ (List.Perm.swap _ _ _)).trans List.perm_middle
  refine ⟨_, tiled_of_keys hmap hsize hmax (by simp) (fun u hu => ?_) (nodup_of_perm_cons hperm hnodup hnew), hperm⟩
  simp only [List.mem_append, List.mem_cons] at hu
  rcases hu with hu | rfl | rfl | hu
  · exact hkeys u (by simp [hu])
  · exact htkey
  · exact hkey
  · exact hkeys u (by simp [hu])

/-- The map was enlarged: its last slot has more free bytes. -/
theorem grow_last {l : List Tile} {t : Tile} (size wanted : Nat)
    (hsize : size = (tilesBytes (l ++ [t])).length + wanted - t.free.length) (hw : t.free.length ≤ wanted)
    (hmax : size ≤ 0xffff) : ∃ t', t'.key = t.key ∧ t'.value = t.value ∧ t'.free.length = wanted ∧
      put16 (resize (tilesBytes (l ++ [t])) size) (tilesBytes l).length wanted = some (tilesBytes (l ++ [t'])) ∧
      (tilesBytes (l ++ [t'])).length = size := by
  have hlen : t.bytes.length = 6 + t.key.length + t.value.length + t.free.length := t.length_bytes
  have htot : (tilesBytes (l ++ [t])).length = (tilesBytes l).length + t.bytes.length := by simp
  refine ⟨⟨t.key, t.value, t.free ++ List.replicate (wanted - t.free.length) 0⟩, rfl, rfl, by simp; omega, ?_, ?_⟩
  · have hput := putFree_tile (p := tilesBytes l) (q := []) (o := (tilesBytes l).length) t
      (t.free ++ List.replicate (wanted - t.free.length) 0) rfl (by simp; omega)
    rw [show (t.free ++ List.replicate (wanted - t.free.length) (0 : UInt8)).length = wanted by simp; omega] at hput
    rw [Lib.resize_ge (by omega), show size - (tilesBytes (l ++ [t])).length = wanted - t.free.length by omega]
    simpa [Tile.bytes, Tile.body] using hput
  · simp only [tilesBytes_append, tilesBytes_cons, tilesBytes_nil, List.append_nil, List.length_append,
      Tile.length_bytes, List.length_replicate]
    omega

/-- **`add_entry_to_slip_map` on a map none of whose slots is empty.** -/
theorem addEntry_keys {s : SlipMap} {ts : List Tile} (h : Tiled s ts) (hkeys : ∀ t ∈ ts, t.key ≠ [])
    {key value : Bytes} (hk : 0 < key.length ∧ key.length ≤ 0xffff ∧ value.length ≤ 0xffff)
    (hnew : key ∉ (entries ts).map Prod.fst) :
    ∃ s' ret, addEntryToSlipMap s key value = some (s', ret) ∧
      (ret = 0 ∧ Inserted s' ts key value ∨ ret = -1 ∧ s' = s ∧ ∃ l u, ts = l ++ [u] ∧
        0xffff + u.free.length < s.sizeofMap + (6 + key.length + value.length)) := by
  obtain ⟨t, rest, rfl⟩ := List.exists_cons_of_ne_nil h.ne
  have hkey : key ≠ [] := List.ne_nil_of_length_pos hk.1
  have hcount := length_le_tilesBytes (t :: rest)
  have hsz : s.sizeofMap = (tilesBytes (t :: rest)).length := by rw [h.size, h.map]
  obtain ⟨r, hr, hres⟩ := addScan_spec key value h.size h.max rest [] t (s.sizeofMap + 1) 0 none 0 0
    (6 + key.length + value.length) (by rw [h.map]; rfl) rfl hkeys
    (by rw [List.length_cons] at hcount; omega) rfl
  rw [addEntryToSlipMap, if_pos hk, addRetry, hr]
  simp only [Option.bind_eq_bind, Option.bind_some]
  cases hres with
  | @stored l₁ l₂ u heq hroom =>
    refine ⟨⟨s.sizeofMap, _⟩, 0, rfl, .inl ⟨rfl, ?_⟩⟩
    have hlen : (tilesBytes ([] ++ l₁ ++ ⟨u.key, u.value, []⟩ ::
        ⟨key, value, u.free.drop (6 + key.length + value.length)⟩ :: l₂)).length = (tilesBytes (t :: rest)).length := by
      rw [heq]
      simp only [List.nil_append, tilesBytes_append, tilesBytes_cons, List.length_append, Tile.length_bytes,
        List.length_drop, List.length_nil]
      omega
    rw [heq] at hkeys hnew ⊢
    exact inserted_behind (by rw [List.nil_append]) (by rw [hlen]; exact hsz) (by rw [hlen, ← h.map]; exact h.max)
      hkeys hkey (by rw [← heq]; exact h.nodup) hnew
  | @exhausted l u heq hroom =>
    have hu : u.key ≠ [] := hkeys u (by rw [heq]; simp)
    have hul : ¬ u.key.length ≤ 0 := by have := List.length_pos_of_ne_nil hu; omega
    simp only [if_neg hul, hroom, if_true, Option.bind_some]
    by_cases hbig : s.sizeofMap + (6 + key.length + value.length) - u.free.length > 0xffff
    · rw [if_pos hbig]
      exact ⟨s, -1, rfl, .inr ⟨rfl, rfl, l, u, heq, by omega⟩⟩
    · rw [if_neg hbig]
      obtain ⟨size, hsize⟩ : ∃ n, n = s.sizeofMap + (6 + key.length + value.length) - u.free.length := ⟨_, rfl⟩
      rw [← hsize] at hbig ⊢
      obtain ⟨u', hu'k, hu'v, hu'f, hput, hlen⟩ := grow_last (l := l) (t := u) size
        (6 + key.length + value.length) (by rw [← heq, ← hsz]; exact hsize) (by omega) (by omega)
      have hmap : s.map = tilesBytes (l ++ [u]) := by rw [h.map, heq]
      have hlt : (tilesBytes l).length < size := by
        rw [← hlen]
        simp only [tilesBytes_append, tilesBytes_cons, List.length_append, Tile.length_bytes]
        omega
      rw [hmap, List.nil_append, hput]
      simp only [Option.bind_some, if_pos hlt]
      have hcount' := length_le_tilesBytes (l ++ [u'])
      -- the second scan starts at the enlarged slot, which has room
      obtain ⟨r', hr', hres'⟩ := addScan_spec key value hlen.symm
        (by omega) [] l u' (size + 1) (tilesBytes l).length none u.free.length u.key.length
        (6 + key.length + value.length) rfl rfl (by simp [hu'k, hu]) (by simp at hcount' ⊢; omega) rfl
      rw [addRetry, hr']
      simp only [Option.bind_eq_bind, Option.bind_some]
      cases hres' with
      | @stored l₁ l₂ v heq' hroom' =>
        have hl₁ : l₁ = [] ∧ u' = v ∧ l₂ = [] := by
          cases l₁ with
          | nil => simpa using heq'
          | cons a l₁ => simp at heq'
        obtain ⟨rfl, rfl, rfl⟩ := hl₁
        refine ⟨⟨size, _⟩, 0, rfl, .inl ⟨rfl, ?_⟩⟩
        have hlen' : (tilesBytes (l ++ [] ++ [⟨u'.key, u'.value, []⟩,
            ⟨key, value, u'.free.drop (6 + key.length + value.length)⟩])).length = size := by
          rw [← hlen]
          simp only [List.append_nil, tilesBytes_append, tilesBytes_cons, List.length_append, Tile.length_bytes,
            List.length_drop, List.length_nil, tilesBytes_nil]
          omega
        rw [heq] at hkeys hnew ⊢
        exact inserted_behind (r := []) (t := u) (by rw [hu'k, hu'v, List.append_nil]) hlen'.symm (by
            show (tilesBytes _).length ≤ _
            omega) hkeys hkey (by rw [← heq]; exact h.nodup) hnew
      | @exhausted l₁ v heq' hroom' =>
        have hv : v = u' := by
          have := congrArg List.getLast? heq'
          simpa using this.symm
        rw [hv] at hroom'
        omega

/-- The scan of a map whose only slot is empty. -/
theorem addScan_empty (key value : Bytes) {size fuel : Nat} {free : Bytes} (hf : 2 ≤ fuel)
    (hs : size = (tilesBytes [⟨[], [], free⟩]).length) (hmax : size ≤ 0xffff) (last : Option Nat) (sf skl : Nat) :
    addScan size (tilesBytes [⟨[], [], free⟩]) key value fuel 0 last sf skl (6 + key.length + value.length) =
      some (if key.length + value.length ≤ free.length then
        .stored (tilesBytes [⟨key, value, free.drop (key.length + value.length)⟩])
      else .exhausted (some 0) free.length 0 (key.length + value.length)) := by
  obtain ⟨fuel, rfl⟩ : ∃ f, fuel = f + 2 := ⟨fuel - 2, by omega⟩
  have hlen : size = 6 + free.length := by rw [hs]; simp
  have hbytes : tilesBytes [⟨[], [], free⟩] = [] ++ (Tile.bytes ⟨[], [], free⟩ ++ []) := by simp
  have hheader : readHeader (tilesBytes [⟨[], [], free⟩]) 0 = some ⟨free.length, 0, 0⟩ := by
    rw [hbytes]
    exact readHeader_tile rfl (by rw [Tile.Fits, Tile.length_bytes]; simp; omega)
  rw [addScan, if_pos (by omega), hheader]
  have h6 : ¬ 6 + key.length + value.length < 6 := by omega
  have hsub : 6 + key.length + value.length - 6 = key.length + value.length := by omega
  simp only [Option.bind_eq_bind, Option.bind_some, Nat.le_refl, if_true, true_and, h6, false_or, ne_eq,
    not_true_eq_false, if_false, hsub, ge_iff_le]
  by_cases hroom : key.length + value.length ≤ free.length
  · have hup := updateMapSlot_room (p := []) (q := []) (o := 0) (Tile.bytes ⟨[], [], free⟩) key value rfl (by simp; omega) (by simp; omega)
    have hdrop : (Tile.bytes ⟨[], [], free⟩).drop (6 + key.length + value.length) =
        free.drop (key.length + value.length) := by
      rw [show 6 + key.length + value.length = 6 + (key.length + value.length) by omega, ← List.drop_drop]
      rfl
    have hnum : (Tile.bytes ⟨[], [], free⟩).length - (6 + key.length + value.length) =
        free.length - key.length - value.length := by simp; omega
    rw [hdrop, hnum, List.nil_append, List.nil_append, List.append_nil, List.append_nil] at hup
    rw [if_pos hroom, if_pos hroom, if_pos hroom, tilesBytes_cons, tilesBytes_nil, List.append_nil, hup]
    simp
  · rw [if_neg hroom, if_neg hroom, if_neg hroom, addScan, if_neg (by omega)]

/-- **`add_entry_to_slip_map` on an empty map.** -/
theorem addEntry_empty {s : SlipMap} {free : Bytes} (h : Tiled s [⟨[], [], free⟩]) {key value : Bytes}
    (hk : 0 < key.length ∧ key.length ≤ 0xffff ∧ value.length ≤ 0xffff) :
    ∃ s' ret, addEntryToSlipMap s key value = some (s', ret) ∧
      (ret = 0 ∧ Inserted s' [⟨[], [], free⟩] key value ∨
        ret = -1 ∧ s' = s ∧ free.length < key.length + value.length ∧ 0xffff < 12 + key.length + value.length) := by
  have hkey : key ≠ [] := List.ne_nil_of_length_pos hk.1
  have hsz : s.sizeofMap = (tilesBytes [⟨[], [], free⟩]).length := by rw [h.size, h.map]
  have hsize : s.sizeofMap = 6 + free.length := by rw [hsz]; simp
  have hmax : s.sizeofMap ≤ 0xffff := by rw [h.size]; exact h.max
  have hins : ∀ {s' : SlipMap} {free' : Bytes}, s'.map = tilesBytes [⟨key, value, free'⟩] →
      s'.sizeofMap = s'.map.length → s'.map.length ≤ 0xffff → Inserted s' [⟨[], [], free⟩] key value := by
    intro s' free' hmap hsize hmax
    refine ⟨_, tiled_of_keys hmap hsize hmax (by simp) (by simpa using hkey) ?_, ?_⟩ <;>
      simp [entries, hkey]
  rw [addEntryToSlipMap, if_pos hk, addRetry, h.map, addScan_empty key value (by omega) hsz hmax]
  simp only [Option.bind_eq_bind, Option.bind_some]
  by_cases hroom : key.length + value.length ≤ free.length
  · rw [if_pos hroom]
    refine ⟨⟨s.sizeofMap, _⟩, 0, rfl, .inl ⟨rfl, hins rfl ?_ ?_⟩⟩ <;>
      (simp; omega)
  · rw [if_neg hroom]
    simp only [Nat.le_refl, if_true, Option.bind_some]
    rw [if_pos (by omega)]
    by_cases hbig : s.sizeofMap + (key.length + value.length + 6) - free.length > 0xffff
    · rw [if_pos hbig]
      exact ⟨s, -1, rfl, .inr ⟨rfl, rfl, by omega, by omega⟩⟩
    · rw [if_neg hbig]
      obtain ⟨size, hnew⟩ : ∃ n, n = s.sizeofMap + (key.length + value.length + 6) - free.length := ⟨_, rfl⟩
      rw [← hnew] at hbig ⊢
      obtain ⟨⟨k', v', free'⟩, hk', hv', hf', hput, hlen⟩ := grow_last (l := []) (t := ⟨[], [], free⟩) size
        (key.length + value.length + 6) (by rw [List.nil_append, ← hsz]; exact hnew) (by simp; omega)
        (by omega)
      simp only at hk' hv' hf'
      subst hk' hv'
      rw [List.nil_append, List.nil_append, tilesBytes_nil, List.length_nil] at hput
      rw [List.nil_append] at hlen
      rw [hput]
      simp only [Option.bind_some]
      rw [if_pos (by omega), show key.length + value.length + 6 = 6 + key.length + value.length by omega, addRetry,
        addScan_empty key value (show 2 ≤ size + 1 by omega) hlen.symm (by omega)]
      simp only [Option.bind_eq_bind, Option.bind_some]
      rw [if_pos (by omega)]
      refine ⟨⟨size, _⟩, 0, rfl, .inl ⟨rfl, hins rfl ?_ ?_⟩⟩ <;>
        (simp; omega)

/-- **`add_entry_to_slip_map`**: with a key that is not bound, the binding is stored or the map is left as it was. -/
theorem addEntryToSlipMap_spec {s : SlipMap} {ts : List Tile} (h : Tiled s ts) {key value : Bytes}
    (hk : 0 < key.length ∧ key.length ≤ 0xffff ∧ value.length ≤ 0xffff) (hnew : key ∉ (entries ts).map Prod.fst) :
    ∃ s' ret, addEntryToSlipMap s key value = some (s', ret) ∧
      (ret = 0 ∧ Inserted s' ts key value ∨ ret = -1 ∧ s' = s) := by
  by_cases hkeys : ∀ t ∈ ts, t.key ≠ []
  · obtain ⟨s', ret, hadd, hret⟩ := addEntry_keys h hkeys hk hnew
    exact ⟨s', ret, hadd, hret.imp_right (fun hneg => ⟨hneg.1, hneg.2.1⟩)⟩
  · push Not at hkeys
    obtain ⟨⟨k, v, free⟩, ht, rfl⟩ := hkeys
    obtain ⟨rfl, rfl⟩ := h.empty _ ht rfl
    obtain ⟨s', ret, hadd, hret⟩ := addEntry_empty h hk
    exact ⟨s', ret, hadd, hret.imp_right (fun hneg => ⟨hneg.1, hneg.2.1⟩)⟩

end Pincaster
