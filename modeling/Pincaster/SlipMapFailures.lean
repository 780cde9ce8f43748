import Pincaster.PutBody
/-!
# SlipMapFailures — replacements that find no room

`realloc` may fail where a map has to grow.  A replacement whose value does not fit in the slot of its key gives that
slot up first, so that a failure behind it has lost the old binding (`replace_intact_iff`).
-/
namespace Pincaster

open Lib (Bytes readAt writeAt get16 put16 resize System)

/-! ## The operations where `realloc` may fail -/

/-- `add_entry_to_slip_map` from `retry` on; `alloc` says whether `realloc` succeeds. -/
def addRetryAlloc (alloc : Bool) (key value : Bytes) : Nat → SlipMap → Nat → Nat → Nat → Nat → Option (SlipMap × Int)
  | 0, _, _, _, _, _ => none
  | retries + 1, slipMap, pnt, slotFree, scannedKeyLen, requiredSpace => do
    match ← addScan slipMap.sizeofMap slipMap.map key value (slipMap.sizeofMap + 1) pnt none slotFree
        scannedKeyLen requiredSpace with
    | .stored map => some ({ slipMap with map }, 0)
    | .exhausted slotFreePnt slotFree scannedKeyLen requiredSpace =>
      let requiredSpace := if scannedKeyLen ≤ 0 then requiredSpace + 6 else requiredSpace
      let slotFreePnt ← slotFreePnt
      let lastSlotWantedFree := requiredSpace
      if slotFree < lastSlotWantedFree then
        let sizeofNewMap := slipMap.sizeofMap + lastSlotWantedFree - slotFree
        if sizeofNewMap > 0xffff then some (slipMap, -1)
        else if ¬ alloc then some (slipMap, -1)
        else do
          let slotFreePnt := if scannedKeyLen ≤ 0 then 0 else slotFreePnt
          let map ← put16 (resize slipMap.map sizeofNewMap) slotFreePnt lastSlotWantedFree
          if slotFreePnt < sizeofNewMap then
            addRetryAlloc alloc key value retries ⟨sizeofNewMap, map⟩ slotFreePnt slotFree scannedKeyLen requiredSpace
          else none
      else none

def addEntryAlloc (alloc : Bool) (slipMap : SlipMap) (key value : Bytes) : Option (SlipMap × Int) :=
  if 0 < key.length ∧ key.length ≤ 0xffff ∧ value.length ≤ 0xffff then
    addRetryAlloc alloc key value 2 slipMap 0 0 0 (6 + key.length + value.length)
  else none

def replaceScanAlloc (alloc : Bool) (slipMap : SlipMap) (key value : Bytes) (requiredSpace : Nat) :
    Nat → Nat → Option (SlipMap × Int)
  | 0, _ => none
  | fuel + 1, pnt =>
    if pnt < slipMap.sizeofMap then do
      let h ← readHeader slipMap.map pnt
      let same ← sameKey slipMap.map (pnt + 6) h.scannedKeyLen key
      let room := 6 + h.scannedKeyLen + h.scannedValueLen + h.slotFree
      if h.scannedKeyLen ≤ 0 ∧ h.scannedValueLen ≠ 0 then none
      else if same then
        if requiredSpace > room then do
          let (slipMap, ret) ← removeEntryFromSlipMap slipMap key
          if ret < 0 then some (slipMap, -1) else addEntryAlloc alloc slipMap key value
        else do
          let map ← writeAt slipMap.map (pnt + 6 + h.scannedKeyLen) value
          let map ← put16 map pnt (room - requiredSpace)
          let map ← put16 map (pnt + 4) value.length
          some ({ slipMap with map }, 0)
      else replaceScanAlloc alloc slipMap key value requiredSpace fuel (pnt + room)
    else addEntryAlloc alloc slipMap key value

/-- `replace_entry_in_slip_map`. -/
def replaceEntryAlloc (alloc : Bool) (slipMap : SlipMap) (key value : Bytes) : Option (SlipMap × Int) :=
  if 0 < key.length ∧ key.length ≤ 0xffff ∧ value.length ≤ 0xffff then
    replaceScanAlloc alloc slipMap key value (6 + key.length + value.length) (slipMap.sizeofMap + 1) 0
  else none

/-! ## What `realloc` changes -/

theorem addRetryAlloc_true (key value : Bytes) : ∀ (retries : Nat) (slipMap : SlipMap) (pnt slotFree scannedKeyLen
    requiredSpace : Nat), addRetryAlloc true key value retries slipMap pnt slotFree scannedKeyLen requiredSpace =
      addRetry key value retries slipMap pnt slotFree scannedKeyLen requiredSpace
  | 0, _, _, _, _, _ => rfl
  | retries + 1, slipMap, pnt, slotFree, scannedKeyLen, requiredSpace => by
    have hrest := funext fun s => funext fun pnt => funext fun free => funext fun len => funext fun required =>
      addRetryAlloc_true key value retries s pnt free len required
    rw [addRetryAlloc, hrest]
    rfl

theorem addEntryAlloc_true (slipMap : SlipMap) (key value : Bytes) :
    addEntryAlloc true slipMap key value = addEntryToSlipMap slipMap key value := by
  unfold addEntryAlloc addEntryToSlipMap
  rw [addRetryAlloc_true]

/-- A scan that stores nothing has met no slot with room. -/
theorem addScan_noRoom (key value : Bytes) {size : Nat} {map : Bytes} (hs : size = map.length)
    (hmax : map.length ≤ 0xffff) {slotFreePnt : Option Nat} {slotFree scannedKeyLen requiredSpace : Nat} :
    ∀ (rest pre : List Tile) (t : Tile) (fuel pnt : Nat) (last : Option Nat) (sf skl required : Nat),
      map = tilesBytes (pre ++ t :: rest) → pnt = (tilesBytes pre).length → (∀ u ∈ t :: rest, u.key ≠ []) →
      addScan size map key value fuel pnt last sf skl required =
        some (.exhausted slotFreePnt slotFree scannedKeyLen requiredSpace) →
      ∀ u ∈ t :: rest, u.free.length < required
  | _, _, _, 0, _, _, _, _, _, _, _, _, h => by cases h
  | rest, pre, t, fuel + 1, pnt, last, sf, skl, required, hmap, hpnt, hkeys, h => by
    have hfit : t.Fits := fits_of_mem (by rw [← hmap]; exact hmax) (show t ∈ pre ++ t :: rest by simp)
    have hkey : 0 < t.key.length := List.length_pos_of_ne_nil (hkeys t List.mem_cons_self)
    have hmap' : map = tilesBytes pre ++ (t.bytes ++ tilesBytes rest) := by rw [hmap]; simp
    have hlt : pnt < size := by
      have hlen := t.length_bytes
      rw [hs, hmap', hpnt]
      simp only [List.length_append]
      omega
    have hheader : readHeader map pnt = some ⟨t.free.length, t.key.length, t.value.length⟩ := by
      rw [hmap']
      exact readHeader_tile hpnt hfit
    rw [addScan, if_pos hlt, hheader] at h
    simp only [Option.bind_eq_bind, Option.bind_some, show ¬ t.key.length ≤ 0 by omega, if_false, false_and] at h
    have hroom : ¬ t.free.length ≥ required := fun hroom => by
      rw [if_pos hroom] at h
      obtain ⟨map₁, -, h⟩ := Option.bind_eq_some_iff.1 h
      obtain ⟨map₂, -, h⟩ := Option.bind_eq_some_iff.1 h
      cases h
    rw [if_neg hroom] at h
    refine List.forall_mem_cons.2 ⟨by omega, ?_⟩
    cases rest with
    | nil => exact fun _ hu => absurd hu List.not_mem_nil
    | cons u rest =>
      exact addScan_noRoom key value hs hmax rest (pre ++ [t]) u fuel _ _ _ _ required (by rw [hmap]; simp)
        (by simp [hpnt]; omega) (fun v hv => hkeys v (List.mem_cons_of_mem t hv)) h

/-! ## When an addition finds room -/

/-- **There is room for an entry**: behind the entry of a slot, in an empty map, or, when `realloc` succeeds, at the end of
the map.  A map that was empty is given six bytes too many. -/
inductive HasRoom (alloc : Bool) (key value : Bytes) : List Tile → Prop
  | slot {ts : List Tile} {t : Tile} : t ∈ ts → t.key ≠ [] → 6 + key.length + value.length ≤ t.free.length →
      HasRoom alloc key value ts
  | empty {free : Bytes} : key.length + value.length ≤ free.length → HasRoom alloc key value [⟨[], [], free⟩]
  | longer {l : List Tile} {t : Tile} : alloc = true → t.key ≠ [] →
      (tilesBytes (l ++ [t])).length + (6 + key.length + value.length) ≤ 0xffff + t.free.length →
      HasRoom alloc key value (l ++ [t])
  | startOver {free : Bytes} : alloc = true → 12 + key.length + value.length ≤ 0xffff →
      HasRoom alloc key value [⟨[], [], free⟩]

section
variable {s : SlipMap} {ts : List Tile} {key value : Bytes}

theorem hasRoom_keys_iff {alloc : Bool} {l : List Tile} {t : Tile} (hkeys : ∀ u ∈ l ++ [t], u.key ≠ []) :
    HasRoom alloc key value (l ++ [t]) ↔ (∃ u ∈ l ++ [t], 6 + key.length + value.length ≤ u.free.length) ∨
      alloc = true ∧ (tilesBytes (l ++ [t])).length + (6 + key.length + value.length) ≤ 0xffff + t.free.length := by
  constructor
  · generalize hts : l ++ [t] = ts at hkeys ⊢
    rintro (⟨hu, -, hroom⟩ | hroom | ⟨halloc, -, hroom⟩ | ⟨halloc, hroom⟩)
    · exact .inl ⟨_, hu, hroom⟩
    · exact absurd rfl (hkeys _ (List.mem_singleton.2 rfl))
    · obtain rfl := (List.append_inj' hts rfl).2 |> List.singleton_inj.1
      exact .inr ⟨halloc, hroom⟩
    · exact absurd rfl (hkeys _ (List.mem_singleton.2 rfl))
  · rintro (⟨u, hu, hroom⟩ | ⟨halloc, hroom⟩)
    · exact .slot hu (hkeys u hu) hroom
    · exact .longer halloc (hkeys t (by simp)) hroom

theorem hasRoom_empty_iff {alloc : Bool} {free : Bytes} : HasRoom alloc key value [⟨[], [], free⟩] ↔
    key.length + value.length ≤ free.length ∨ alloc = true ∧ 12 + key.length + value.length ≤ 0xffff := by
  constructor
  · generalize hts : [(⟨[], [], free⟩ : Tile)] = ts
    rintro (⟨hu, hkey, -⟩ | hroom | @⟨l, t, halloc, hkey, hroom⟩ | ⟨halloc, hroom⟩)
    · rw [← hts, List.mem_singleton] at hu
      exact absurd (hu ▸ rfl) hkey
    · obtain ⟨⟩ := hts
      exact .inl hroom
    · have ht : t ∈ [(⟨[], [], free⟩ : Tile)] := by rw [hts]; simp
      rw [List.mem_singleton] at ht
      exact absurd (ht ▸ rfl) hkey
    · exact .inr ⟨halloc, hroom⟩
  · rintro (hroom | ⟨halloc, hroom⟩)
    · exact .empty hroom
    · exact .startOver halloc hroom

/-- What an addition leaves: the binding when there is room, else the map as it was. -/
def EntryAdded (alloc : Bool) (s : SlipMap) (ts : List Tile) (key value : Bytes) : Prop :=
  ∃ s' ret, addEntryAlloc alloc s key value = some (s', ret) ∧
    (ret = 0 ∧ HasRoom alloc key value ts ∧ Inserted s' ts key value ∨
      ret = -1 ∧ ¬ HasRoom alloc key value ts ∧ s' = s)

theorem addEntryAlloc_keys (alloc : Bool) (h : Tiled s ts) (hkeys : ∀ t ∈ ts, t.key ≠ [])
    (hk : 0 < key.length ∧ key.length ≤ 0xffff ∧ value.length ≤ 0xffff) (hnew : key ∉ (entries ts).map Prod.fst) :
    EntryAdded alloc s ts key value := by
  obtain ⟨t, rest, rfl⟩ := List.exists_cons_of_ne_nil h.ne
  obtain ⟨l, u, hlast⟩ : ∃ l u, t :: rest = l ++ [u] :=
    ⟨_, _, (List.dropLast_append_getLast (List.cons_ne_nil t rest)).symm⟩
  have hcount := length_le_tilesBytes (t :: rest)
  have hsz : s.sizeofMap = (tilesBytes (t :: rest)).length := by rw [h.size, h.map]
  have hsize : s.sizeofMap = (tilesBytes (l ++ [u])).length := by rw [hsz, hlast]
  have hroom : HasRoom alloc key value (l ++ [u]) ↔ _ := hasRoom_keys_iff (hlast ▸ hkeys)
  rw [← hlast, ← hsz] at hroom
  obtain ⟨r, hr, hres⟩ := addScan_spec key value h.size h.max rest [] t (s.sizeofMap + 1) 0 none 0 0
    (6 + key.length + value.length) (by rw [h.map]; rfl) rfl hkeys
    (by rw [List.length_cons] at hcount; omega) rfl
  obtain ⟨s₀, ret, hadd, hret⟩ := addEntry_keys h hkeys hk hnew
  unfold EntryAdded
  cases hres with
  | @stored l₁ l₂ v heq hv =>
    have hstored : ∀ alloc, addEntryAlloc alloc s key value = some ({ s with map := _ }, 0) := fun alloc => by
      rw [addEntryAlloc, if_pos hk, addRetryAlloc, hr]
      rfl
    have hsame := (addEntryAlloc_true s key value).symm.trans (hstored true)
    rw [hadd, Option.some.injEq, Prod.mk.injEq] at hsame
    obtain ⟨rfl, rfl⟩ := hsame
    refine ⟨_, 0, hstored alloc, .inl ⟨rfl, hroom.2 (.inl ⟨v, by rw [heq]; simp, hv⟩), ?_⟩⟩
    exact (hret.resolve_right (fun hneg => nomatch hneg.1)).2
  | @exhausted l₁ v heq hv =>
    obtain ⟨rfl, hvu⟩ := List.append_inj' (heq.symm.trans hlast) rfl
    obtain rfl := List.singleton_inj.1 hvu
    have hno := addScan_noRoom key value h.size h.max rest [] t _ _ _ _ _ _ (by rw [h.map]; rfl) rfl hkeys hr
    have hnoSlot : ¬ ∃ w ∈ t :: rest, 6 + key.length + value.length ≤ w.free.length := fun ⟨w, hw, hfree⟩ => by
      have := hno w hw
      omega
    rw [or_iff_right hnoSlot] at hroom
    have hv' : ¬ v.key.length ≤ 0 := by
      have := List.length_pos_of_ne_nil (hkeys v (by rw [hlast]; simp))
      omega
    by_cases hbig : s.sizeofMap + (6 + key.length + value.length) - v.free.length > 0xffff
    · refine ⟨s, -1, ?_, .inr ⟨rfl, fun hyes => ?_, rfl⟩⟩
      · rw [addEntryAlloc, if_pos hk, addRetryAlloc, hr]
        simp only [Option.bind_eq_bind, Option.bind_some, if_neg hv', hv, if_true, if_pos hbig]
      · have := (hroom.1 hyes).2
        omega
    · cases alloc with
      | false =>
        refine ⟨s, -1, ?_, .inr ⟨rfl, fun hyes => ?_, rfl⟩⟩
        · rw [addEntryAlloc, if_pos hk, addRetryAlloc, hr]
          simp only [Option.bind_eq_bind, Option.bind_some, if_neg hv', hv, if_true, if_neg hbig, Bool.false_eq_true,
            not_false_eq_true]
        · exact nomatch (hroom.1 hyes).1
      | true =>
        refine ⟨s₀, ret, by rw [addEntryAlloc_true, hadd], .inl ?_⟩
        rcases hret with ⟨hzero, hins⟩ | ⟨-, -, l', u', hlast', hbig'⟩
        · exact ⟨hzero, hroom.2 ⟨rfl, by omega⟩, hins⟩
        · obtain ⟨-, hu⟩ := List.append_inj' (hlast'.symm.trans hlast) rfl
          obtain rfl := List.singleton_inj.1 hu
          omega

theorem addEntryAlloc_empty (alloc : Bool) {free : Bytes} (h : Tiled s [⟨[], [], free⟩])
    (hk : 0 < key.length ∧ key.length ≤ 0xffff ∧ value.length ≤ 0xffff) :
    EntryAdded alloc s [⟨[], [], free⟩] key value := by
  have hsz : s.sizeofMap = (tilesBytes [⟨[], [], free⟩]).length := by rw [h.size, h.map]
  have hsize : s.sizeofMap = 6 + free.length := by rw [hsz]; simp
  have hmax : s.sizeofMap ≤ 0xffff := by rw [h.size]; exact h.max
  have hroom : HasRoom alloc key value [⟨[], [], free⟩] ↔ _ := hasRoom_empty_iff
  have hscan := addScan_empty key value (show 2 ≤ s.sizeofMap + 1 by omega) hsz hmax none 0 0
  obtain ⟨s₀, ret, hadd, hret⟩ := addEntry_empty h hk
  unfold EntryAdded
  by_cases hfits : key.length + value.length ≤ free.length
  · rw [if_pos hfits] at hscan
    have hstored : ∀ alloc, addEntryAlloc alloc s key value = some ({ s with map := _ }, 0) := fun alloc => by
      rw [addEntryAlloc, if_pos hk, addRetryAlloc, h.map, hscan]
      rfl
    have hsame := (addEntryAlloc_true s key value).symm.trans (hstored true)
    rw [hadd, Option.some.injEq, Prod.mk.injEq] at hsame
    obtain ⟨rfl, rfl⟩ := hsame
    exact ⟨_, 0, hstored alloc, .inl ⟨rfl, hroom.2 (.inl hfits), (hret.resolve_right (fun hneg => nomatch hneg.1)).2⟩⟩
  · rw [if_neg hfits] at hscan
    rw [or_iff_right hfits] at hroom
    by_cases hbig : s.sizeofMap + (key.length + value.length + 6) - free.length > 0xffff
    · refine ⟨s, -1, ?_, .inr ⟨rfl, fun hyes => ?_, rfl⟩⟩
      · rw [addEntryAlloc, if_pos hk, addRetryAlloc, h.map, hscan]
        simp only [Option.bind_eq_bind, Option.bind_some, Nat.le_refl, if_true,
          if_pos (show free.length < key.length + value.length + 6 by omega), if_pos hbig]
      · have := (hroom.1 hyes).2
        omega
    · cases alloc with
      | false =>
        refine ⟨s, -1, ?_, .inr ⟨rfl, fun hyes => Bool.false_ne_true (hroom.1 hyes).1, rfl⟩⟩
        rw [addEntryAlloc, if_pos hk, addRetryAlloc, h.map, hscan]
        simp only [Option.bind_eq_bind, Option.bind_some, Nat.le_refl, if_true,
          if_pos (show free.length < key.length + value.length + 6 by omega), if_neg hbig, Bool.false_eq_true,
          not_false_eq_true]
      | true =>
        refine ⟨s₀, ret, by rw [addEntryAlloc_true, hadd], .inl ?_⟩
        rcases hret with ⟨hzero, hins⟩ | ⟨-, -, -, hbig'⟩
        · exact ⟨hzero, hroom.2 ⟨rfl, by omega⟩, hins⟩
        · omega

/-- **An addition stores the entry exactly when there is room.** -/
theorem addEntryAlloc_spec (alloc : Bool) (h : Tiled s ts)
    (hk : 0 < key.length ∧ key.length ≤ 0xffff ∧ value.length ≤ 0xffff) (hnew : key ∉ (entries ts).map Prod.fst) :
    EntryAdded alloc s ts key value := by
  by_cases hkeys : ∀ t ∈ ts, t.key ≠ []
  · exact addEntryAlloc_keys alloc h hkeys hk hnew
  · push Not at hkeys
    obtain ⟨⟨k, v, free⟩, ht, rfl⟩ := hkeys
    obtain ⟨rfl, rfl⟩ := h.empty _ ht rfl
    exact addEntryAlloc_empty alloc h hk

/-! ## A replacement -/

/-- The value over the old one of the slot at `pnt`, which has `room` bytes. -/
def storeInPlace (s : SlipMap) (key value : Bytes) (pnt room : Nat) : Option (SlipMap × Int) := do
  let map ← writeAt s.map (pnt + 6 + key.length) value
  let map ← put16 map pnt (room - (6 + key.length + value.length))
  let map ← put16 map (pnt + 4) value.length
  some ({ s with map }, 0)

theorem storeInPlace_ret {s s' : SlipMap} {key value : Bytes} {pnt room : Nat} {ret : Int}
    (h : storeInPlace s key value pnt room = some (s', ret)) : ret = 0 := by
  obtain ⟨map₁, -, h⟩ := Option.bind_eq_some_iff.1 h
  obtain ⟨map₂, -, h⟩ := Option.bind_eq_some_iff.1 h
  obtain ⟨map₃, -, h⟩ := Option.bind_eq_some_iff.1 h
  cases h
  rfl

/-- The slot of the key is given up for another one. -/
def moveEntry (alloc : Bool) (s : SlipMap) (key value : Bytes) : Option (SlipMap × Int) := do
  let (slipMap, ret) ← removeEntryFromSlipMap s key
  if ret < 0 then some (slipMap, -1) else addEntryAlloc alloc slipMap key value

/-- The scan of a replacement at one slot. -/
theorem replaceScanAlloc_slot (alloc : Bool) (h : Tiled s ts) {pre rest : List Tile} {t : Tile} {fuel pnt : Nat}
    (hts : ts = pre ++ t :: rest) (hpnt : pnt = (tilesBytes pre).length) :
    replaceScanAlloc alloc s key value (6 + key.length + value.length) (fuel + 1) pnt =
      if t.key = key then
        if 6 + key.length + value.length > t.bytes.length then moveEntry alloc s key value
        else storeInPlace s key value pnt t.bytes.length
      else replaceScanAlloc alloc s key value (6 + key.length + value.length) fuel (tilesBytes (pre ++ [t])).length := by
  have hmem : t ∈ ts := by rw [hts]; simp
  have hmap : s.map = tilesBytes pre ++ (t.bytes ++ tilesBytes rest) := by rw [h.map, hts]; simp
  have hfit : t.Fits := fits_of_mem (by rw [← h.map]; exact h.max) hmem
  have hlen := t.length_bytes
  have htot : s.sizeofMap = (tilesBytes pre).length + (t.bytes.length + (tilesBytes rest).length) := by
    rw [h.size, hmap]; simp only [List.length_append]
  have hheader := readHeader_tile (p := tilesBytes pre) (q := tilesBytes rest) hpnt hfit
  have hsame := sameKey_tile (p := tilesBytes pre) (q := tilesBytes rest) (o := pnt + 6) t key (by rw [hpnt])
  rw [← hmap] at hheader hsame
  have hnone : ¬ (t.key.length ≤ 0 ∧ t.value.length ≠ 0) := fun ⟨h1, h2⟩ => by
    have := (h.empty t hmem (List.eq_nil_of_length_eq_zero (by omega))).2
    rw [this] at h2
    exact h2 rfl
  have hnext : pnt + t.bytes.length = (tilesBytes (pre ++ [t])).length := by
    rw [tilesBytes_append, List.length_append, hpnt, tilesBytes_cons, tilesBytes_nil, List.append_nil]
  rw [replaceScanAlloc, if_pos (by omega), hheader]
  simp only [Option.bind_eq_bind, Option.bind_some, hsame, if_neg hnone, decide_eq_true_eq, ← hlen, hnext]
  by_cases htk : t.key = key
  · rw [if_pos htk, if_pos htk, htk]
    rfl
  · rw [if_neg htk, if_neg htk]

/-- The scan of a replacement meets no slot of the key. -/
theorem replaceScanAlloc_unbound (alloc : Bool) (h : Tiled s ts) : ∀ (rest pre : List Tile) (fuel pnt : Nat),
    ts = pre ++ rest → pnt = (tilesBytes pre).length → (∀ t ∈ rest, t.key ≠ key) → rest.length < fuel →
    replaceScanAlloc alloc s key value (6 + key.length + value.length) fuel pnt = addEntryAlloc alloc s key value
  | _, _, 0, _, _, _, _, h => by omega
  | [], pre, fuel + 1, pnt, hts, hpnt, _, _ => by
    rw [replaceScanAlloc, if_neg (by rw [h.size, h.map, hts, hpnt, List.append_nil]; omega)]
  | t :: rest, pre, fuel + 1, pnt, hts, hpnt, hrest, hfuel => by
    rw [replaceScanAlloc_slot alloc h hts hpnt, if_neg (hrest t List.mem_cons_self)]
    exact replaceScanAlloc_unbound alloc h rest (pre ++ [t]) fuel _ (by rw [hts]; simp) rfl
      (fun u hu => hrest u (List.mem_cons_of_mem t hu)) (by simp at hfuel; omega)

/-- The scan of a replacement meets the slot of the key. -/
theorem replaceScanAlloc_bound (alloc : Bool) (h : Tiled s ts) {t : Tile} {after : List Tile} (htk : t.key = key) :
    ∀ (before pre : List Tile) (fuel pnt : Nat), ts = pre ++ (before ++ t :: after) → pnt = (tilesBytes pre).length →
      (∀ u ∈ before, u.key ≠ key) → before.length < fuel →
      replaceScanAlloc alloc s key value (6 + key.length + value.length) fuel pnt =
        if 6 + key.length + value.length > t.bytes.length then moveEntry alloc s key value
        else storeInPlace s key value (tilesBytes (pre ++ before)).length t.bytes.length
  | _, _, 0, _, _, _, _, h => by omega
  | [], pre, fuel + 1, pnt, hts, hpnt, _, _ => by
    rw [replaceScanAlloc_slot alloc h (by simpa using hts) hpnt, if_pos htk, List.append_nil, hpnt]
  | u :: before, pre, fuel + 1, pnt, hts, hpnt, hbefore, hfuel => by
    have hrest := replaceScanAlloc_bound alloc h htk before (pre ++ [u]) fuel _
      (by rw [hts, List.append_assoc]; rfl) rfl (fun v hv => hbefore v (List.mem_cons_of_mem u hv))
      (by simp at hfuel; omega)
    rw [replaceScanAlloc_slot alloc h (show ts = pre ++ u :: (before ++ t :: after) by rw [hts]; rfl) hpnt,
      if_neg (hbefore u List.mem_cons_self), hrest, List.append_assoc, List.singleton_append]

theorem replaceScanAlloc_true (s : SlipMap) (key value : Bytes) (requiredSpace : Nat) : ∀ fuel pnt : Nat,
    replaceScanAlloc true s key value requiredSpace fuel pnt = replaceScan s key value requiredSpace fuel pnt
  | 0, _ => rfl
  | fuel + 1, pnt => by
    simp only [replaceScanAlloc, replaceScan, addEntryAlloc_true, replaceScanAlloc_true s key value requiredSpace fuel]

/-- **Where `realloc` succeeds it is the replacement that knows nothing of failures.** -/
theorem replaceEntryAlloc_true (s : SlipMap) (key value : Bytes) :
    replaceEntryAlloc true s key value = replaceEntryInSlipMap s key value := by
  unfold replaceEntryAlloc replaceEntryInSlipMap
  rw [replaceScanAlloc_true]

/-- A key that is bound has one slot. -/
theorem Tiled.slot_unique (h : Tiled s ts) (hkey : key ≠ []) {before after before' after' : List Tile} {t t' : Tile}
    (hts : ts = before ++ t :: after) (htk : t.key = key) (hts' : ts = before' ++ t' :: after') (htk' : t'.key = key) :
    before = before' ∧ t = t' ∧ after = after' := by
  have hmem : t ∈ ts := by rw [hts]; simp
  have hmem' : t' ∈ ts := by rw [hts']; simp
  have hkeys := h.keys_ne_nil hmem (htk ▸ hkey)
  have hfst : ∀ us : List Tile, (∀ u ∈ us, u.key ≠ []) → (entries us).map Prod.fst = us.map Tile.key := fun us => by
    induction us with
    | nil => exact fun _ => rfl
    | cons u us ih =>
      intro hus
      rw [entries_cons _ _ (hus u List.mem_cons_self), List.map_cons, List.map_cons,
        ih (fun v hv => hus v (List.mem_cons_of_mem u hv))]
  have hnodup : (ts.map Tile.key).Nodup := by
    rw [← hfst ts hkeys]
    exact h.nodup
  obtain rfl : t = t' := List.inj_on_of_nodup_map hnodup hmem hmem' (htk.trans htk'.symm)
  have hts₀ := hnodup.of_map
  rw [hts] at hts₀
  have hno := (List.nodup_middle.1 hts₀).notMem
  simp only [List.mem_append, not_or] at hno
  obtain ⟨hb, -, ha⟩ := (List.append_cons_inj_of_notMem hno.1 hno.2).1 (hts.symm.trans hts')
  exact ⟨hb, rfl, ha⟩

/-! ## What a replacement leaves -/

/-- **A replacement that returns 0**: the key is not bound and there is room for the entry, the value fits in the slot of
the key, or there is room once that slot is given up. -/
inductive Replaceable (alloc : Bool) (key value : Bytes) (ts : List Tile) : Prop
  | unbound : (∀ t ∈ ts, t.key ≠ key) → HasRoom alloc key value ts → Replaceable alloc key value ts
  | inPlace {before after : List Tile} {t : Tile} : ts = before ++ t :: after → t.key = key →
      value.length ≤ t.value.length + t.free.length → Replaceable alloc key value ts
  | moved {before after ts' : List Tile} {t : Tile} : ts = before ++ t :: after → t.key = key →
      Removed before t after ts' → HasRoom alloc key value ts' → Replaceable alloc key value ts

theorem removed_unique {before after ts₁ ts₂ : List Tile} {t : Tile} (h₁ : Removed before t after ts₁)
    (h₂ : Removed before t after ts₂) : ts₁ = ts₂ := by
  cases h₁ <;> cases h₂ <;> simp_all

/-- **A replacement where `realloc` may fail** binds the key when it returns 0, and else has removed it. -/
theorem replaceEntryAlloc_spec (alloc : Bool) (h : Tiled s ts)
    (hk : 0 < key.length ∧ key.length ≤ 0xffff ∧ value.length ≤ 0xffff) :
    ∃ s' ret, replaceEntryAlloc alloc s key value = some (s', ret) ∧
      (ret = 0 ∧ Replaceable alloc key value ts ∧ Replaced s' ts key value ∨
        ret = -1 ∧ ¬ Replaceable alloc key value ts ∧ Dropped s' ts key) := by
  have hkey : key ≠ [] := List.ne_nil_of_length_pos hk.1
  have hcount := length_le_tilesBytes ts
  have hfuel : ts.length < s.sizeofMap + 1 := by rw [h.size, h.map]; omega
  rw [replaceEntryAlloc, if_pos hk]
  rcases removeEntryFromSlipMap_slot h ⟨hk.1, hk.2.1⟩ with
    ⟨hno, -⟩ | ⟨before, t, after, s₁, ts₁, hts, htk, hremoved, hrem, htiled, hperm⟩
  · have hunbound : ∀ t ∈ ts, t.key ≠ key := fun t ht htk => hno ((mem_keys hkey).2 ⟨t, ht, htk⟩)
    obtain ⟨s', ret, hadd, hret⟩ := addEntryAlloc_spec alloc h hk hno
    refine ⟨s', ret, (replaceScanAlloc_unbound alloc h ts [] _ 0 rfl rfl hunbound hfuel).trans hadd, ?_⟩
    rcases hret with ⟨hzero, hroom, hins⟩ | ⟨hneg, hnoRoom, rfl⟩
    · exact .inl ⟨hzero, .unbound hunbound hroom, replaced_of_inserted hins hno⟩
    · refine .inr ⟨hneg, ?_, dropped_of_new h hno⟩
      rintro (⟨-, hroom⟩ | ⟨hts, htk, -⟩ | ⟨hts, htk, -, -⟩)
      · exact hnoRoom hroom
      · exact hunbound _ (by rw [hts]; simp) htk
      · exact hunbound _ (by rw [hts]; simp) htk
  · have hbefore : ∀ u ∈ before, u.key ≠ key := fun u hu huk => by
      obtain ⟨l, r, rfl⟩ := List.append_of_mem hu
      have huniq := h.slot_unique hkey hts htk (show ts = l ++ u :: (r ++ t :: after) by rw [hts]; simp) huk
      have := congrArg List.length huniq.1
      simp at this
    have hbound : t ∈ ts := by rw [hts]; simp
    have hscan : ∀ alloc, replaceScanAlloc alloc s key value (6 + key.length + value.length) (s.sizeofMap + 1) 0 = _ :=
      fun alloc => replaceScanAlloc_bound alloc h htk before [] _ 0 hts rfl hbefore
        (by rw [hts, List.length_append] at hfuel; omega)
    have hlen := t.length_bytes
    by_cases hroom : 6 + key.length + value.length > t.bytes.length
    · -- the slot is given up for another one
      have hnew := (not_mem_of_perm_cons hperm h.nodup).1
      obtain ⟨s₂, ret, hadd, hret⟩ := addEntryAlloc_spec alloc htiled hk hnew
      refine ⟨s₂, ret, ?_, ?_⟩
      · rw [hscan alloc, if_pos hroom, moveEntry, hrem]
        simpa using hadd
      rcases hret with ⟨hzero, hyes, hins⟩ | ⟨hneg, hnoRoom, rfl⟩
      · refine .inl ⟨hzero, .moved hts htk hremoved hyes, ?_⟩
        obtain ⟨ts₂, htiled₂, hmem₂⟩ := replaced_of_inserted hins hnew
        refine ⟨ts₂, htiled₂, fun k v => ?_⟩
        rw [hmem₂, mem_of_perm_cons hperm h.nodup]
        tauto
      · refine .inr ⟨hneg, ?_, ts₁, htiled, fun k v => mem_of_perm_cons hperm h.nodup⟩
        rintro (⟨hunbound, -⟩ | ⟨hts', htk', hfits⟩ | ⟨hts', htk', hremoved', hyes⟩)
        · exact hunbound t hbound htk
        · obtain ⟨-, rfl, -⟩ := h.slot_unique hkey hts htk hts' htk'
          rw [htk] at hlen
          omega
        · obtain ⟨rfl, rfl, rfl⟩ := h.slot_unique hkey hts htk hts' htk'
          exact hnoRoom (removed_unique hremoved hremoved' ▸ hyes)
    · have hsame : replaceScanAlloc alloc s key value (6 + key.length + value.length) (s.sizeofMap + 1) 0 =
          replaceEntryInSlipMap s key value := by
        rw [← replaceEntryAlloc_true, replaceEntryAlloc, if_pos hk, hscan alloc, hscan true, if_neg hroom, if_neg hroom]
      obtain ⟨s', ret, hrep, hret⟩ := replaceEntryInSlipMap_spec h hk
      refine ⟨s', ret, hsame.trans hrep, ?_⟩
      have hfits : Replaceable alloc key value ts := .inPlace hts htk (by rw [htk] at hlen; omega)
      have hstore : storeInPlace s key value (tilesBytes ([] ++ before)).length t.bytes.length = some (s', ret) := by
        rw [← hrep, ← hsame, hscan alloc, if_neg hroom]
      have hzero := storeInPlace_ret hstore
      exact .inl ⟨hzero, hfits, (hret.resolve_right (fun hneg => absurd (hzero.symm.trans hneg.1) (by decide))).2⟩

/-! ## Every run -/

/-- An operation that changes a map; `alloc` says whether `realloc` succeeds. -/
inductive SlipChange where
  | replace (alloc : Bool) (key value : Bytes)
  | remove (key : Bytes)

def slipChange (slipMap : SlipMap) : SlipChange → Option SlipMap
  | .replace alloc key value => (replaceEntryAlloc alloc slipMap key value).map Prod.fst
  | .remove key => (removeEntryFromSlipMap slipMap key).map Prod.fst

/-- Every sequence of operations, failed ones among them. -/
def slipChangeSystem (slip : SlipMap) : System SlipMap SlipChange where
  init := slip
  legal _ _ := True
  step := slipChange

theorem slipChange_tiled {s s' : SlipMap} {ts : List Tile} (h : Tiled s ts) {change : SlipChange}
    (hs : slipChange s change = some s') : ∃ ts', Tiled s' ts' := by
  cases change with
  | replace alloc key value =>
    obtain ⟨⟨s₁, ret⟩, hrep, rfl⟩ := Option.map_eq_some_iff.1 hs
    by_cases hk : 0 < key.length ∧ key.length ≤ 0xffff ∧ value.length ≤ 0xffff
    · obtain ⟨s₂, ret', hrep', hret⟩ := replaceEntryAlloc_spec alloc h hk
      obtain ⟨rfl, rfl⟩ := Prod.mk.inj (Option.some.inj (hrep.symm.trans hrep'))
      rcases hret with ⟨-, -, ts', htiled, -⟩ | ⟨-, -, ts', htiled, -⟩
      · exact ⟨ts', htiled⟩
      · exact ⟨ts', htiled⟩
    · rw [replaceEntryAlloc, if_neg hk] at hrep
      cases hrep
  | remove key =>
    obtain ⟨⟨s₁, ret⟩, hrem, rfl⟩ := Option.map_eq_some_iff.1 hs
    by_cases hk : 0 < key.length ∧ key.length ≤ 0xffff
    · rcases removeEntryFromSlipMap_spec h hk with ⟨-, hrem'⟩ | ⟨s₂, ts', value, hrem', htiled, -⟩
      · obtain ⟨rfl, -⟩ := Prod.mk.inj (Option.some.inj (hrem.symm.trans hrem'))
        exact ⟨ts, h⟩
      · obtain ⟨rfl, -⟩ := Prod.mk.inj (Option.some.inj (hrem.symm.trans hrem'))
        exact ⟨ts', htiled⟩
    · rw [removeEntryFromSlipMap, if_neg hk] at hrem
      cases hrem

/-- **A failed replacement leaves the bindings as they were** exactly when the key had none; and a replacement of a bound
key fails exactly when the value fits neither in the slot of the key nor, once that is given up, anywhere else. -/
theorem replace_intact_iff {slip : SlipMap} (hnew : newSlipMap 32 = some (some slip))
    {h : List (SlipMap × SlipChange)} {s : SlipMap} (hr : (slipChangeSystem slip).Run h s) :
    ∃ ts, Tiled s ts ∧ ∀ (alloc : Bool) (key value : Bytes),
      (∀ s' ret, replaceEntryAlloc alloc s key value = some (s', ret) → ret ≠ 0 →
        ∀ p, p ∈ visited (some s') ↔ p ∈ visited (some s)) ↔
      (KeyLen key → value.length ≤ 0xffff → (∀ t ∈ ts, t.key ≠ key) ∨ Replaceable alloc key value ts) := by
  obtain ⟨ts, htiled⟩ := hr.inv (fun s => ∃ ts, Tiled s ts) ((newSlipMap_spec hnew).imp (fun _ href => href.1))
    (fun _ _ _ ⟨_, htiled⟩ _ hs => slipChange_tiled htiled hs)
  refine ⟨ts, htiled, fun alloc key value => ?_⟩
  by_cases hk : 0 < key.length ∧ key.length ≤ 0xffff ∧ value.length ≤ 0xffff
  · obtain ⟨s', ret, hrep, hret⟩ := replaceEntryAlloc_spec alloc htiled hk
    have hkey : key ≠ [] := List.ne_nil_of_length_pos hk.1
    constructor
    · intro hintact _ _
      rcases hret with ⟨-, hyes, -⟩ | ⟨hneg, -, ts', htiled', hmem⟩
      · exact .inr hyes
      · refine .inl (fun t ht htk => ?_)
        have hsame := hintact s' ret hrep (by omega)
        simp only [visited_tiled htiled, visited_tiled htiled'] at hsame
        obtain ⟨p, hp, hpk⟩ := List.mem_map.1 ((mem_keys hkey).2 ⟨t, ht, htk⟩)
        exact ((hmem p.1 p.2).1 ((hsame p).2 hp)).1 hpk
    · intro hcond s'' ret'' hrep'' hfail
      obtain ⟨rfl, rfl⟩ := Prod.mk.inj (Option.some.inj (hrep.symm.trans hrep''))
      rcases hret with ⟨hzero, -, -⟩ | ⟨-, hno, ts', htiled', hmem⟩
      · exact absurd hzero hfail
      · have hunbound := (hcond ⟨hk.1, hk.2.1⟩ hk.2.2).resolve_right hno
        rintro ⟨k, v⟩
        rw [visited_tiled htiled, visited_tiled htiled', hmem]
        refine ⟨And.right, fun hp => ⟨?_, hp⟩⟩
        rintro rfl
        obtain ⟨t, ht, htk⟩ := (mem_keys hkey).1 (List.mem_map.2 ⟨_, hp, rfl⟩)
        exact hunbound t ht htk
  · refine iff_of_true (fun s' ret hrep => ?_) (fun hkey hvalue => absurd ⟨hkey.1, hkey.2, hvalue⟩ hk)
    rw [replaceEntryAlloc, if_neg hk] at hrep
    cases hrep

end

/-- The map with the one binding of `a` to `1`. -/
def slipA : SlipMap := ⟨24, tilesBytes [⟨[97], [49], List.replicate 16 0⟩]⟩

theorem slipA_tiled : Tiled slipA [⟨[97], [49], List.replicate 16 0⟩] :=
  tiled_of_keys rfl rfl (by decide) (by decide) (by decide) (by decide)

theorem slipA_reached : ∃ slip, newSlipMap 32 = some (some slip) ∧
    (slipChangeSystem slip).Run [(slip, .replace true [97] [49])] slipA := by
  obtain ⟨slip, hnew⟩ : ∃ slip, newSlipMap 32 = some (some slip) := ⟨_, rfl⟩
  have hstep : (newSlipMap 32).join.bind (slipChange · (.replace true [97] [49])) = some slipA := by decide +kernel
  rw [hnew, Option.join_some, Option.bind_some] at hstep
  have hrun : (slipChangeSystem slip).Run ([] ++ [(slip, .replace true [97] [49])]) slipA := .snoc .init trivial hstep
  exact ⟨slip, hnew, hrun⟩

/-- A value of 30 bytes finds room. -/
theorem replace_intact_a : (replaceEntryAlloc true slipA [97] (List.replicate 30 50)).map Prod.snd = some 0 ∧
    ∀ s' ret, replaceEntryAlloc true slipA [97] (List.replicate 30 50) = some (s', ret) → ret ≠ 0 →
      ∀ p, p ∈ visited (some s') ↔ p ∈ visited (some slipA) := by
  obtain ⟨slip, hnew, hrun⟩ := slipA_reached
  obtain ⟨ts, htiled, hiff⟩ := replace_intact_iff hnew hrun
  have hzero : (replaceEntryAlloc true slipA [97] (List.replicate 30 50)).map Prod.snd = some 0 := by decide +kernel
  refine ⟨hzero, (hiff true [97] (List.replicate 30 50)).2 (fun _ _ => .inr ?_)⟩
  obtain ⟨s', ret, hrep, hret⟩ := replaceEntryAlloc_spec true htiled
    (show 0 < [(97 : UInt8)].length ∧ [(97 : UInt8)].length ≤ 0xffff ∧ (List.replicate 30 (50 : UInt8)).length ≤ 0xffff by
      decide)
  rw [hrep, Option.map_some, Option.some.injEq] at hzero
  exact (hret.resolve_right (fun hneg => absurd (hzero.symm.trans hneg.1) (by decide))).2.1

/-- **A value of 65535 bytes finds none**: the replacement returns -1, and the old binding is gone. -/
theorem replace_loses_binding : ¬ ∀ slip, newSlipMap 32 = some (some slip) → ∀ h s, (slipChangeSystem slip).Run h s →
    ∀ alloc key value s' ret, replaceEntryAlloc alloc s key value = some (s', ret) → ret ≠ 0 →
      ∀ p, p ∈ visited (some s') ↔ p ∈ visited (some s) := by
  intro hall
  obtain ⟨slip, hnew, hrun⟩ := slipA_reached
  have hlen : (List.replicate 65535 (0 : UInt8)).length = 65535 := List.length_replicate
  have hk : 0 < [(97 : UInt8)].length ∧ [(97 : UInt8)].length ≤ 0xffff ∧
      (List.replicate 65535 (0 : UInt8)).length ≤ 0xffff := ⟨by decide, by decide, by rw [hlen]⟩
  have hno : ¬ Replaceable true [97] (List.replicate 65535 0) [⟨[97], [49], List.replicate 16 0⟩] := by
    rintro (⟨hunbound, -⟩ | ⟨hts, htk, hfits⟩ | ⟨hts, htk, hremoved, hroom⟩)
    · exact hunbound _ (List.mem_singleton.2 rfl) rfl
    · obtain ⟨rfl, rfl, rfl⟩ := slipA_tiled.slot_unique (by decide) (show _ = [] ++ _ :: [] from rfl) rfl hts htk
      rw [hlen] at hfits
      exact absurd hfits (by decide)
    · obtain ⟨rfl, rfl, rfl⟩ := slipA_tiled.slot_unique (by decide) (show _ = [] ++ _ :: [] from rfl) rfl hts htk
      obtain rfl := removed_unique hremoved (.sole rfl rfl)
      rw [hasRoom_empty_iff, hlen] at hroom
      revert hroom
      decide
  obtain ⟨s', ret, hrep, hret⟩ := replaceEntryAlloc_spec true slipA_tiled hk
  rcases hret with ⟨-, hyes, -⟩ | ⟨hneg, -, ts', htiled', hmem⟩
  · exact hno hyes
  · have hsame := hall slip hnew _ slipA hrun true _ _ s' ret hrep (by omega) ([97], [49])
    rw [visited_tiled htiled', visited_tiled slipA_tiled] at hsame
    exact ((hmem _ _).1 (hsame.2 (by decide))).1 rfl

end Pincaster
