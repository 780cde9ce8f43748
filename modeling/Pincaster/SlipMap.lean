import Pincaster.Lib.Buffer
/-!
# SlipMap — `slipmap.c`

A slip map is one allocation of `sizeof_map` bytes, tiled by slots: a header of three 16-bit fields (the free bytes at
the end of the slot, the length of the key, the length of the value), the key, the value and the free bytes.  An access
outside the allocation, a header field that would be truncated and a failed assertion have no result.  Memory
allocations succeed.
-/
namespace Pincaster

open Lib (Bytes readAt writeAt get16 put16 resize)

variable {σ : Type}

structure SlipMap where
  sizeofMap : Nat
  map : Bytes
  deriving DecidableEq, Repr

/-- The three fields in front of a slot: `slot_free`, `scanned_key_len` and `scanned_value_len`. -/
structure SlotHeader where
  slotFree : Nat
  scannedKeyLen : Nat
  scannedValueLen : Nat

def readHeader (map : Bytes) (pnt : Nat) : Option SlotHeader := do
  some ⟨← get16 map pnt, ← get16 map (pnt + 2), ← get16 map (pnt + 4)⟩

/-- `scanned_key_len == key_len && memcmp(pnt, key, key_len) == 0`. -/
def sameKey (map : Bytes) (pnt scannedKeyLen : Nat) (key : Bytes) : Option Bool :=
  if scannedKeyLen = key.length then (readAt map pnt key.length).map (fun k => k = key) else some false

def initSlipMap (slipMap : SlipMap) : Option SlipMap :=
  if slipMap.sizeofMap ≥ 6 then do
    let map ← put16 slipMap.map 0 (slipMap.sizeofMap - 6)
    let map ← writeAt map 2 [0, 0, 0, 0]
    some { slipMap with map }
  else none

/-- `sizeof *slip_map`. -/
def sizeofSlipMap : Nat := 8

/-- The inner `none` is `NULL`. -/
def newSlipMap (bufferSize : Nat) : Option (Option SlipMap) :=
  let bufferSize := if bufferSize < sizeofSlipMap + 6 then sizeofSlipMap + 6 else bufferSize
  let sizeofMap := bufferSize - sizeofSlipMap
  if sizeofMap > 0xffff + 6 then some none
  else (initSlipMap ⟨sizeofMap, List.replicate sizeofMap 0⟩).map some

def updateMapSlot (map : Bytes) (pnt newSlotFree : Nat) (key value : Bytes) : Option Bytes := do
  let map ← put16 map pnt newSlotFree
  let map ← put16 map (pnt + 2) key.length
  let map ← put16 map (pnt + 4) value.length
  let map ← writeAt map (pnt + 6) key
  writeAt map (pnt + 6 + key.length) value

/-! ## Adding -/

/-- How the scan of `add_entry_to_slip_map` ends: the entry is stored, or `while` is left with the last slot scanned
and the `required_space` it has by then. -/
inductive AddScan where
  | stored (map : Bytes)
  | exhausted (slotFreePnt : Option Nat) (slotFree scannedKeyLen requiredSpace : Nat)

def addScan (sizeofMap : Nat) (map key value : Bytes) :
    Nat → Nat → Option Nat → Nat → Nat → Nat → Option AddScan
  | 0, _, _, _, _, _ => none
  | fuel + 1, pnt, slotFreePnt, slotFree, scannedKeyLen, requiredSpace =>
    if pnt < sizeofMap then do
      let h ← readHeader map pnt
      let required := if h.scannedKeyLen ≤ 0 then requiredSpace - 6 else requiredSpace
      if h.scannedKeyLen ≤ 0 ∧ (requiredSpace < 6 ∨ h.scannedValueLen ≠ 0) then none
      else if h.scannedKeyLen ≤ 0 ∧ h.slotFree ≥ required then
        -- the empty slot becomes the slot of the entry
        if h.slotFree ≥ key.length + value.length then do
          let map ← updateMapSlot map pnt (h.slotFree - key.length - value.length) key value
          some (.stored map)
        else none
      else if h.slotFree ≥ required then do
        -- the entry takes the free bytes at the end of the slot
        let map ← put16 map pnt 0
        let map ← updateMapSlot map (pnt + 6 + h.scannedKeyLen + h.scannedValueLen) (h.slotFree - required) key value
        some (.stored map)
      else
        addScan sizeofMap map key value fuel (pnt + 6 + h.scannedKeyLen + h.scannedValueLen + h.slotFree)
          (some pnt) h.slotFree h.scannedKeyLen required
    else some (.exhausted slotFreePnt slotFree scannedKeyLen requiredSpace)

/-- `add_entry_to_slip_map` from `retry` on; the first argument bounds the number of retries. -/
def addRetry (key value : Bytes) : Nat → SlipMap → Nat → Nat → Nat → Nat → Option (SlipMap × Int)
  | 0, _, _, _, _, _ => none
  | retries + 1, slipMap, pnt, slotFree, scannedKeyLen, requiredSpace => do
    match ← addScan slipMap.sizeofMap slipMap.map key value (slipMap.sizeofMap + 1) pnt none slotFree
        scannedKeyLen requiredSpace with
    | .stored map => some ({ slipMap with map }, 0)
    | .exhausted slotFreePnt slotFree scannedKeyLen requiredSpace =>
      let requiredSpace := if scannedKeyLen ≤ 0 then requiredSpace + 6 else requiredSpace
      let slotFreePnt ← slotFreePnt
      let lastSlotWantedFree := requiredSpace
      if slotFree < lastSlotWantedFree then
        let sizeofNewMap := slipMap.sizeofMap + lastSlotWantedFree - slotFree
        if sizeofNewMap > 0xffff then some (slipMap, -1)
        else do
          let slotFreePnt := if scannedKeyLen ≤ 0 then 0 else slotFreePnt
          let map ← put16 (resize slipMap.map sizeofNewMap) slotFreePnt lastSlotWantedFree
          if slotFreePnt < sizeofNewMap then
            addRetry key value retries ⟨sizeofNewMap, map⟩ slotFreePnt slotFree scannedKeyLen requiredSpace
          else none
      else none

def addEntryToSlipMap (slipMap : SlipMap) (key value : Bytes) : Option (SlipMap × Int) :=
  if 0 < key.length ∧ key.length ≤ 0xffff ∧ value.length ≤ 0xffff then
    addRetry key value 2 slipMap 0 0 0 (6 + key.length + value.length)
  else none

/-! ## Removing -/

def removeScan (slipMap : SlipMap) (key : Bytes) : Nat → Nat → Option Nat → Option (SlipMap × Int)
  | 0, _, _ => none
  | fuel + 1, pnt, previousSlot =>
    if pnt < slipMap.sizeofMap then do
      let h ← readHeader slipMap.map pnt
      let same ← sameKey slipMap.map (pnt + 6) h.scannedKeyLen key
      let next := pnt + 6 + h.scannedKeyLen + h.scannedValueLen + h.slotFree
      if h.scannedKeyLen ≤ 0 ∧ h.scannedValueLen ≠ 0 then none
      else if same then
        match previousSlot with
        | none =>
          let shift := next
          if shift = slipMap.sizeofMap then do
            let slipMap ← initSlipMap slipMap
            some (slipMap, 1)
          else if shift ≤ slipMap.sizeofMap then do
            let sizeofMap := slipMap.sizeofMap - shift
            let map ← writeAt slipMap.map 0 (← readAt slipMap.map next sizeofMap)
            some (⟨sizeofMap, resize map sizeofMap⟩, 1)
          else none
        | some previousSlot => do
          let previousSlotFree ← get16 slipMap.map previousSlot
          let newSlotFree := previousSlotFree + 6 + h.scannedKeyLen + h.scannedValueLen + h.slotFree
          let map ← put16 slipMap.map previousSlot newSlotFree
          let map ← writeAt map pnt [0, 0, 0, 0, 0, 0]
          some ({ slipMap with map }, 1)
      else removeScan slipMap key fuel next (some pnt)
    else some (slipMap, 0)

def removeEntryFromSlipMap (slipMap : SlipMap) (key : Bytes) : Option (SlipMap × Int) :=
  if 0 < key.length ∧ key.length ≤ 0xffff then removeScan slipMap key (slipMap.sizeofMap + 1) 0 none else none

/-! ## Replacing -/

def replaceScan (slipMap : SlipMap) (key value : Bytes) (requiredSpace : Nat) : Nat → Nat → Option (SlipMap × Int)
  | 0, _ => none
  | fuel + 1, pnt =>
    if pnt < slipMap.sizeofMap then do
      let h ← readHeader slipMap.map pnt
      let same ← sameKey slipMap.map (pnt + 6) h.scannedKeyLen key
      let room := 6 + h.scannedKeyLen + h.scannedValueLen + h.slotFree
      if h.scannedKeyLen ≤ 0 ∧ h.scannedValueLen ≠ 0 then none
      else if same then
        if requiredSpace > room then do
          let (slipMap, ret) ← removeEntryFromSlipMap slipMap key
          if ret < 0 then some (slipMap, -1) else addEntryToSlipMap slipMap key value
        else do
          let map ← writeAt slipMap.map (pnt + 6 + h.scannedKeyLen) value
          let map ← put16 map pnt (room - requiredSpace)
          let map ← put16 map (pnt + 4) value.length
          some ({ slipMap with map }, 0)
      else replaceScan slipMap key value requiredSpace fuel (pnt + room)
    else addEntryToSlipMap slipMap key value

def replaceEntryInSlipMap (slipMap : SlipMap) (key value : Bytes) : Option (SlipMap × Int) :=
  if 0 < key.length ∧ key.length ≤ 0xffff ∧ value.length ≤ 0xffff then
    replaceScan slipMap key value (6 + key.length + value.length) (slipMap.sizeofMap + 1) 0
  else none

/-! ## Reading -/

def foreachScan (slipMap : SlipMap) (cb : σ → Bytes → Bytes → Int × σ) : Nat → Nat → σ → Option σ
  | 0, _, _ => none
  | fuel + 1, pnt, context =>
    if pnt < slipMap.sizeofMap then do
      let h ← readHeader slipMap.map pnt
      let scannedKey ← readAt slipMap.map (pnt + 6) h.scannedKeyLen
      let scannedValue ← readAt slipMap.map (pnt + 6 + h.scannedKeyLen) h.scannedValueLen
      let next := pnt + 6 + h.scannedKeyLen + h.scannedValueLen + h.slotFree
      if h.scannedKeyLen ≤ 0 then
        if h.scannedValueLen = 0 then foreachScan slipMap cb fuel next context else none
      else
        let (ret, context) := cb context scannedKey scannedValue
        if ret ≠ 0 then some context else foreachScan slipMap cb fuel next context
    else some context

/-- `slip_map_foreach` on a map that is there; the number it returns is always 0. -/
def slipMapForeach (slipMap : SlipMap) (cb : σ → Bytes → Bytes → Int × σ) (context : σ) : Option σ :=
  foreachScan slipMap cb (slipMap.sizeofMap + 1) 0 context

def findInSlipMapCb (key : Bytes) (context : Option Bytes) (scannedKey value : Bytes) : Int × Option Bytes :=
  if scannedKey.length = key.length ∧ scannedKey = key then (1, some value) else (0, context)

/-- The value found; `none` stands for the 0 of `find_in_slip_map`. -/
def findInSlipMap (slipMap : SlipMap) (key : Bytes) : Option (Option Bytes) :=
  slipMapForeach slipMap (findInSlipMapCb key) none

end Pincaster
