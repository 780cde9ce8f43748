import Pincaster.SlipMapLaws
import Pincaster.Lib.Runs
/-!
# SlipMapRuns — a slip map is a finite map

The law over every run of operations on a new map: the slots tile the allocation, no access or header field is out of
bounds, and the bindings of the slots are those of the finite map that the operations describe (`slip_map_refines`).
-/
namespace Pincaster

open Lib (Bytes System)

/-- A slip map and the finite map its operations describe. -/
structure SlipRun where
  slip : SlipMap
  binds : Bytes → Option Bytes

inductive SlipOp where
  | replace (key value : Bytes)
  | remove (key : Bytes)
  | find (key : Bytes)
  | foreach

def slipStep (s : SlipRun) : SlipOp → Option SlipRun
  | .replace key value => do
    let (slip, _) ← replaceEntryInSlipMap s.slip key value
    some ⟨slip, fun k => if k = key then some value else s.binds k⟩
  | .remove key => do
    let (slip, _) ← removeEntryFromSlipMap s.slip key
    some ⟨slip, fun k => if k = key then none else s.binds k⟩
  | .find key => do
    let _ ← findInSlipMap s.slip key
    some s
  | .foreach => do
    slipMapForeach s.slip (fun _ _ _ => (0, ())) ()
    some s

def KeyLen (key : Bytes) : Prop := 0 < key.length ∧ key.length ≤ 0xffff

instance (key : Bytes) : Decidable (KeyLen key) := inferInstanceAs (Decidable (_ ∧ _))

/-- Keys of 1 to 65535 bytes, values of at most 65535, and no replacement that fails for want of space. -/
def slipSystem (slip : SlipMap) : System SlipRun SlipOp where
  init := ⟨slip, fun _ => none⟩
  legal s
    | .replace key value => KeyLen key ∧ value.length ≤ 0xffff ∧
      (replaceEntryInSlipMap s.slip key value).all (fun r => r.2 = 0) = true
    | .remove key => KeyLen key
    | .find key => KeyLen key
    | .foreach => True
  step := slipStep

instance (slip : SlipMap) (s : SlipRun) (i : SlipOp) : Decidable ((slipSystem slip).legal s i) :=
  match i with
  | .replace _ _ => inferInstanceAs (Decidable (_ ∧ _ ∧ _))
  | .remove key => inferInstanceAs (Decidable (KeyLen key))
  | .find key => inferInstanceAs (Decidable (KeyLen key))
  | .foreach => .isTrue trivial

/-- **The bindings of the slots are those of the finite map.** -/
def Refines (s : SlipRun) (ts : List Tile) : Prop :=
  Tiled s.slip ts ∧ ∀ k v, s.binds k = some v ↔ (k, v) ∈ entries ts

theorem newSlipMap_spec {slip : SlipMap} (h : newSlipMap 32 = some (some slip)) :
    ∃ ts, Refines ⟨slip, fun _ => none⟩ ts := by
  have heq : slip = ⟨24, tilesBytes [⟨[], [], List.replicate 18 0⟩]⟩ := by
    have h32 : newSlipMap 32 = some (some ⟨24, tilesBytes [⟨[], [], List.replicate 18 0⟩]⟩) := by decide
    rw [h, Option.some.injEq, Option.some.injEq] at h32
    exact h32
  subst heq
  refine ⟨[⟨[], [], List.replicate 18 0⟩], ⟨rfl, rfl, by decide, by simp, fun t ht _ => ?_, by simp [entries]⟩,
    fun k v => by simp [entries]⟩
  rw [List.mem_singleton.1 ht]
  exact ⟨rfl, rfl⟩

theorem Refines.find {s : SlipRun} {ts : List Tile} (h : Refines s ts) (key : Bytes) :
    findInSlipMap s.slip key = some (s.binds key) := by
  rw [findInSlipMap, slipMapForeach_spec h.1, visitEntries_find, Option.some.injEq]
  refine Option.ext (fun v => ?_)
  rw [find_eq_some_iff h.1.nodup, h.2]

theorem Refines.remove {s : SlipRun} {ts : List Tile} (h : Refines s ts) {key : Bytes} (hk : KeyLen key) :
    ∃ slip ts', removeEntryFromSlipMap s.slip key = some (slip, if (s.binds key).isSome then 1 else 0) ∧
      Refines ⟨slip, fun k => if k = key then none else s.binds k⟩ ts' := by
  rcases removeEntryFromSlipMap_spec h.1 hk with ⟨hno, hrem⟩ | ⟨slip, ts', v₀, hrem, htiled, hperm⟩
  · have hnone : s.binds key = none := Option.eq_none_iff_forall_ne_some.2 (fun v hv =>
      hno (List.mem_map.2 ⟨_, (h.2 key v).1 hv, rfl⟩))
    refine ⟨s.slip, ts, by rw [hrem, hnone]; rfl, h.1, fun k v => ?_⟩
    rw [← h.2]
    by_cases hkk : k = key
    · simp [hkk, hnone]
    · simp [hkk]
  · have hsome : s.binds key = some v₀ := (h.2 _ _).2 (hperm.mem_iff.2 List.mem_cons_self)
    refine ⟨slip, ts', by rw [hrem, hsome]; rfl, htiled, fun k v => ?_⟩
    rw [mem_of_perm_cons hperm h.1.nodup, ← h.2]
    by_cases hkk : k = key <;> simp [hkk]

theorem Refines.replace {s : SlipRun} {ts : List Tile} (h : Refines s ts) {key value : Bytes} (hk : KeyLen key)
    (hv : value.length ≤ 0xffff) : ∃ slip ret, replaceEntryInSlipMap s.slip key value = some (slip, ret) ∧
      (ret = 0 ∨ ret = -1) ∧
      ∃ ts', Refines ⟨slip, fun k => if k = key then if ret = 0 then some value else none else s.binds k⟩ ts' := by
  obtain ⟨slip, ret, hrep, ⟨rfl, ts', htiled, hmem⟩ | ⟨rfl, ts', htiled, hmem⟩⟩ :=
    replaceEntryInSlipMap_spec h.1 ⟨hk.1, hk.2, hv⟩
  · refine ⟨slip, 0, hrep, .inl rfl, ts', htiled, fun k v => ?_⟩
    rw [hmem, ← h.2]
    by_cases hkk : k = key <;> simp [hkk, eq_comm]
  · refine ⟨slip, -1, hrep, .inr rfl, ts', htiled, fun k v => ?_⟩
    rw [hmem, ← h.2]
    by_cases hkk : k = key <;> simp [hkk]

/-- **One legal operation** has a result and keeps the refinement. -/
theorem slipStep_spec {slip : SlipMap} {s : SlipRun} {ts : List Tile} (h : Refines s ts) {i : SlipOp}
    (hi : (slipSystem slip).legal s i) : ∃ s' ts', slipStep s i = some s' ∧ Refines s' ts' := by
  cases i with
  | replace key value =>
    obtain ⟨hk, hv, hzero⟩ := hi
    obtain ⟨slip', ret, hrep, _, ts', href⟩ := h.replace hk hv
    rw [hrep] at hzero
    obtain rfl : ret = 0 := by simpa using hzero
    exact ⟨_, ts', by simp [slipStep, hrep], href⟩
  | remove key =>
    obtain ⟨slip', ts', hrem, href⟩ := h.remove hi
    exact ⟨_, ts', by simp [slipStep, hrem], href⟩
  | find key => exact ⟨s, ts, by simp [slipStep, h.find], h⟩
  | foreach => exact ⟨s, ts, by simp [slipStep, slipMapForeach_spec h.1], h⟩

/-- **A slip map refines a finite map**, in every state of every run: its slots tile the allocation, their bindings are
those of the finite map, each visited once by a `foreach`; a search returns the bound value, a removal 1 exactly when
the key is bound, and every further operation has a result. -/
theorem slip_map_refines {slip : SlipMap} (hnew : newSlipMap 32 = some (some slip)) {h : List (SlipRun × SlipOp)}
    {s : SlipRun} (hr : (slipSystem slip).Run h s) :
    (∃ ts, Tiled s.slip ts ∧ (∀ k v, s.binds k = some v ↔ (k, v) ∈ entries ts) ∧
      ∀ (σ : Type) (cb : σ → Bytes → Bytes → Int × σ), (∀ c k v, (cb c k v).1 = 0) → ∀ context,
        slipMapForeach s.slip cb context = some ((entries ts).foldl (fun c p => (cb c p.1 p.2).2) context)) ∧
    (∀ key, findInSlipMap s.slip key = some (s.binds key)) ∧
    (∀ key, KeyLen key → ∃ slip', removeEntryFromSlipMap s.slip key =
      some (slip', if (s.binds key).isSome then 1 else 0)) ∧
    (∀ i, (slipSystem slip).legal s i → ((slipSystem slip).step s i).isSome) := by
  obtain ⟨ts, hts⟩ := hr.inv (fun s => ∃ ts, Refines s ts) (newSlipMap_spec hnew) (by
    rintro s i s' ⟨ts, hts⟩ hi hs
    obtain ⟨s'', ts', hs'', hts'⟩ := slipStep_spec hts hi
    rw [show (slipSystem slip).step s i = slipStep s i from rfl, hs'', Option.some.injEq] at hs
    exact ⟨ts', hs ▸ hts'⟩)
  refine ⟨⟨ts, hts.1, hts.2, fun σ cb hcb context => ?_⟩, hts.find, fun key hk => ?_, fun i hi => ?_⟩
  · rw [slipMapForeach_spec hts.1, visitEntries_eq_foldl cb hcb]
  · obtain ⟨slip', _, hrem, _⟩ := hts.remove hk
    exact ⟨slip', hrem⟩
  · obtain ⟨s', _, hs', _⟩ := slipStep_spec hts hi
    rw [show (slipSystem slip).step s i = slipStep s i from rfl, hs']
    rfl

/-- The map of a record after its first property outgrew it and was removed again, with a second one behind. -/
theorem slip_map_refines_grown : ∃ slip, newSlipMap 32 = some (some slip) ∧ ∃ h s, (slipSystem slip).Run h s ∧
    h.map Prod.snd = [.replace [97] (List.replicate 9 1), .replace [98] [2], .replace [97] (List.replicate 30 3),
      .remove [97]] ∧
    findInSlipMap s.slip [98] = some (s.binds [98]) := by
  obtain ⟨slip, hnew⟩ : ∃ slip, newSlipMap 32 = some (some slip) := ⟨_, rfl⟩
  obtain ⟨s, hs⟩ : ∃ s, (slipSystem slip).exec [.replace [97] (List.replicate 9 1), .replace [98] [2],
      .replace [97] (List.replicate 30 3), .remove [97]] (slipSystem slip).init = some s := by
    cases hnew
    exact Option.isSome_iff_exists.1 (by decide +kernel)
  obtain ⟨h, hr, hops⟩ := Lib.System.Run.of_exec _ Lib.System.Run.init hs
  exact ⟨slip, hnew, h, s, hr, hops, (slip_map_refines hnew hr).2.1 [98]⟩

end Pincaster
