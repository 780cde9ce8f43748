import Mathlib.Algebra.Order.BigOperators.Group.List
import Mathlib.Algebra.Order.Group.Nat
import Mathlib.Algebra.GroupWithZero.Nat
import Pincaster.PutProperties
/-!
# PropertyMaps — a PUT leaves property maps in order, whatever its body

No assertion of the workers fails for the operation of a body that was parsed, and the map it leaves is again one that the
functions of `slipmap.c` understand (`putProperties_wellFormed`).
-/
namespace Pincaster

open Lib (Bytes bytes printInt strtol unbound walk)

variable {σ D : Type}

/-! ## Maps in order -/

/-- **A property map in order**: `NULL`, or tiled by its slots. -/
def WellFormed (m : Option SlipMap) : Prop := ∃ binds, Holds m binds

theorem wellFormed_none : WellFormed none := ⟨unbound, rfl⟩

theorem WellFormed.keyLen {m : Option SlipMap} (h : WellFormed m) {p : Bytes × Bytes} (hp : p ∈ visited m) :
    KeyLen p.1 ∧ p.2.length ≤ 0xffff := by
  obtain ⟨binds, h⟩ := h
  exact h.keyLen hp

theorem WellFormed.foreach {m : Option SlipMap} (h : WellFormed m) (cb : σ → Bytes → Bytes → Option (Int × σ))
    (context : σ) : slipMapForeachCb m cb context = (walk cb (visited m) context).map Prod.snd := by
  obtain ⟨binds, h⟩ := h
  exact h.foreach cb context

/-- The bytes of a pair. -/
def pairLength (p : Bytes × Bytes) : Nat := p.1.length + p.2.length

theorem pairLength_mk (key value : Bytes) : pairLength (key, value) = key.length + value.length := rfl

theorem sum_entries_le : ∀ ts : List Tile, ((entries ts).map pairLength).sum ≤ (tilesBytes ts).length
  | [] => Nat.le_refl 0
  | t :: ts => by
    have ih := sum_entries_le ts
    have hlen := t.length_bytes
    rw [tilesBytes_cons, List.length_append]
    by_cases hkey : t.key = []
    · rw [show entries (t :: ts) = entries ts by simp [entries, hkey]]
      omega
    · rw [show entries (t :: ts) = (t.key, t.value) :: entries ts by simp [entries, hkey], List.map_cons, List.sum_cons,
        pairLength_mk]
      omega

/-- **All the pairs of a map** have at most 65535 bytes. -/
theorem WellFormed.sum_le {m : Option SlipMap} (h : WellFormed m) : ((visited m).map pairLength).sum ≤ 0xffff := by
  obtain ⟨binds, h⟩ := h
  cases m with
  | none => exact Nat.zero_le _
  | some slip =>
    obtain ⟨ts, htiled, -⟩ := h
    rw [visited_tiled htiled]
    have hmax := htiled.max
    rw [htiled.map] at hmax
    exact (sum_entries_le ts).trans hmax

theorem WellFormed.pairLength_le {m : Option SlipMap} (h : WellFormed m) {p : Bytes × Bytes} (hp : p ∈ visited m) :
    pairLength p ≤ 0xffff :=
  (List.single_le_sum (fun _ _ => Nat.zero_le _) _ (List.mem_map_of_mem hp)).trans h.sum_le

/-- A replacement, also one that fails. -/
theorem WellFormed.replace {slip : SlipMap} (h : WellFormed (some slip)) {key value : Bytes} (hkey : KeyLen key)
    (hvalue : value.length ≤ 0xffff) : ∃ slip' ret, replaceEntryInSlipMap slip key value = some (slip', ret) ∧
      WellFormed (some slip') ∧ ∀ p ∈ visited (some slip'), p ∈ visited (some slip) ∨ p = (key, value) := by
  obtain ⟨binds, ts, href⟩ := h
  obtain ⟨slip', ret, hrep, -, ts', href'⟩ := href.replace hkey hvalue
  have hholds : Holds (some slip) binds := ⟨ts, href⟩
  have hholds' : Holds (some slip') _ := ⟨ts', href'⟩
  refine ⟨slip', ret, hrep, ⟨_, hholds'⟩, fun ⟨k, v⟩ hp => ?_⟩
  have hbind := hholds'.mem_visited.1 hp
  split at hbind
  · rename_i hk
    split at hbind
    · obtain rfl := Option.some.inj hbind
      exact .inr (by rw [hk])
    · cases hbind
  · exact .inl (hholds.mem_visited.2 hbind)

theorem WellFormed.mapOrNew {m : Option SlipMap} (h : WellFormed m) :
    ∃ slip, Pincaster.mapOrNew m = some slip ∧ WellFormed (some slip) ∧ visited (some slip) = visited m := by
  cases m with
  | some slip => exact ⟨slip, rfl, h, rfl⟩
  | none =>
    obtain ⟨slip, hslip, hholds⟩ := Holds.mapOrNew (show Holds none unbound from rfl)
    refine ⟨slip, hslip, ⟨_, hholds⟩, List.eq_nil_iff_forall_not_mem.2 (fun ⟨k, v⟩ hp => ?_)⟩
    cases hholds.mem_visited.1 hp

/-- **A property is put**, when its name and its value are not too long. -/
theorem WellFormed.putProperty {m : Option SlipMap} (h : WellFormed m) {key value : Bytes} (hkey : KeyLen key)
    (hvalue : value.length ≤ 0xffff) : ∃ slip, Pincaster.putProperty m key value = some (some slip) ∧
      WellFormed (some slip) ∧ ∀ p ∈ visited (some slip), p ∈ visited m ∨ p = (key, value) := by
  obtain ⟨slip, hslip, hwf, hvisited⟩ := h.mapOrNew
  obtain ⟨slip', ret, hrep, hwf', hmem⟩ := hwf.replace hkey hvalue
  refine ⟨slip', ?_, hwf', fun p hp => hvisited ▸ hmem p hp⟩
  rw [putProperty_eq, hslip, Option.bind_some, hrep]
  rfl

theorem keyLen_of_putProperty {m : Option SlipMap} {key value : Bytes} {r : Option SlipMap}
    (h : Pincaster.putProperty m key value = some r) : KeyLen key ∧ value.length ≤ 0xffff := by
  rw [putProperty_eq] at h
  obtain ⟨slip, -, h⟩ := Option.bind_eq_some_iff.1 h
  obtain ⟨r', hrep, -⟩ := Option.map_eq_some_iff.1 h
  unfold replaceEntryInSlipMap at hrep
  split at hrep
  · rename_i hlen
    exact ⟨⟨hlen.1, hlen.2.1⟩, hlen.2.2⟩
  · cases hrep

/-! ## The operation of a PUT -/

/-- **The maps of an operation are in order**, the ordinary properties in one, the special ones in the other. -/
structure PutOpOk (putOp : RecordsPutOp D) : Prop where
  properties : WellFormed putOp.properties
  ordinary : ∀ p ∈ visited putOp.properties, p.1.head? ≠ some INT_PROPERTY_COMMON_PREFIX
  specials : WellFormed putOp.specialProperties
  special : ∀ p ∈ visited putOp.specialProperties, p.1.head? = some INT_PROPERTY_COMMON_PREFIX

theorem recordsPutOp_ok (layerName key : Key) [Dimension D] : PutOpOk (recordsPutOp layerName key : RecordsPutOp D) :=
  ⟨wellFormed_none, fun _ hp => absurd hp List.not_mem_nil, wellFormed_none, fun _ hp => absurd hp List.not_mem_nil⟩

section
variable [Dimension D]

/-- What the two branches of the parser that set fields leave alone. -/
structure SameMaps (putOp putOp' : RecordsPutOp D) : Prop where
  layerName : putOp'.layerName = putOp.layerName
  key : putOp'.key = putOp.key
  properties : putOp'.properties = putOp.properties
  specials : putOp'.specialProperties = putOp.specialProperties

omit [Dimension D] in
theorem PutOpOk.same {putOp putOp' : RecordsPutOp D} (h : PutOpOk putOp) (hsame : SameMaps putOp putOp') :
    PutOpOk putOp' := by
  obtain ⟨-, -, hprops, hspecials⟩ := hsame
  exact ⟨hprops ▸ h.properties, hprops ▸ h.ordinary, hspecials ▸ h.specials, hspecials ▸ h.special⟩

theorem parsePosition_same (putOp : RecordsPutOp D) (value : Bytes) : SameMaps putOp (parsePosition putOp value).2 := by
  unfold parsePosition
  simp only
  repeat' split
  all_goals exact ⟨rfl, rfl, rfl, rfl⟩

omit [Dimension D] in
theorem sameMaps_expiresAt (putOp : RecordsPutOp D) (expiresAt : Int) : SameMaps putOp { putOp with expiresAt } :=
  ⟨rfl, rfl, rfl, rfl⟩

omit [Dimension D] in
theorem parseExpiresAt_same (putOp : RecordsPutOp D) (value : Bytes) :
    SameMaps putOp (parseExpiresAt putOp value).2 := by
  unfold parseExpiresAt
  simp only
  split
  · exact sameMaps_expiresAt putOp 0
  · exact sameMaps_expiresAt putOp _

/-- **One pair of a body**: when the parser has a result, the maps are in order again. -/
theorem recordsPutOptParseCb_ok {putOp putOp' : RecordsPutOp D} {key value : Bytes} {ret : Int} (h : PutOpOk putOp)
    (hcb : recordsPutOptParseCb putOp key value = some (ret, putOp')) :
    PutOpOk putOp' ∧ putOp'.layerName = putOp.layerName ∧ putOp'.key = putOp.key := by
  unfold recordsPutOptParseCb at hcb
  split at hcb
  · obtain rfl : (parsePosition putOp value).2 = putOp' := congrArg Prod.snd (Option.some.inj hcb)
    have hsame := parsePosition_same putOp value
    exact ⟨h.same hsame, hsame.layerName, hsame.key⟩
  · split at hcb
    · obtain rfl : (parseExpiresAt putOp value).2 = putOp' := congrArg Prod.snd (Option.some.inj hcb)
      have hsame := parseExpiresAt_same putOp value
      exact ⟨h.same hsame, hsame.layerName, hsame.key⟩
    · cases key with
      | nil => cases hcb
      | cons c key =>
        simp only at hcb
        split at hcb
        · rename_i hc
          obtain ⟨r, hput, hcb⟩ := Option.map_eq_some_iff.1 hcb
          obtain ⟨hkey, hvalue⟩ := keyLen_of_putProperty hput
          obtain ⟨slip, hput', hwf, hmem⟩ := h.specials.putProperty hkey hvalue
          obtain rfl := Option.some.inj (hput.symm.trans hput')
          cases hcb
          refine ⟨⟨h.properties, h.ordinary, hwf, fun p hp => ?_⟩, rfl, rfl⟩
          rcases hmem p hp with hp | rfl
          · exact h.special p hp
          · exact congrArg some hc
        · rename_i hc
          obtain ⟨r, hput, hcb⟩ := Option.map_eq_some_iff.1 hcb
          obtain ⟨hkey, hvalue⟩ := keyLen_of_putProperty hput
          obtain ⟨slip, hput', hwf, hmem⟩ := h.properties.putProperty hkey hvalue
          obtain rfl := Option.some.inj (hput.symm.trans hput')
          cases hcb
          refine ⟨⟨hwf, fun p hp => ?_, h.specials, h.special⟩, rfl, rfl⟩
          rcases hmem p hp with hp | rfl
          · exact h.ordinary p hp
          · exact fun heq => hc (Option.some.inj heq)

/-- The parser has a result for a name and a value that are not too long, and a status only for a field it cannot read. -/
theorem recordsPutOptParseCb_isSome {putOp : RecordsPutOp D} {key value : Bytes} (h : PutOpOk putOp) (hkey : KeyLen key)
    (hvalue : value.length ≤ 0xffff) : ∃ ret putOp', recordsPutOptParseCb putOp key value = some (ret, putOp') ∧
      (IsProperty key → ret = 0) := by
  unfold recordsPutOptParseCb IsProperty
  split
  · rename_i hloc
    exact ⟨_, _, rfl, fun hprop => by rw [hprop.1] at hloc; cases hloc⟩
  · split
    · rename_i hexpires
      exact ⟨_, _, rfl, fun hprop => by rw [hprop.2] at hexpires; cases hexpires⟩
    · cases key with
      | nil => exact absurd hkey.1 (Nat.lt_irrefl 0)
      | cons c key =>
        simp only
        split
        · obtain ⟨slip, hput, -⟩ := h.specials.putProperty hkey hvalue
          rw [hput]
          exact ⟨_, _, rfl, fun _ => rfl⟩
        · obtain ⟨slip, hput, -⟩ := h.properties.putProperty hkey hvalue
          rw [hput]
          exact ⟨_, _, rfl, fun _ => rfl⟩

omit [Dimension D] in
/-- What every call of the callback keeps holds of the context of a query. -/
theorem queryParseLoop_inv {cb : σ → Bytes → Bytes → Option (Int × σ)} (Inv : σ → Prop)
    (hcb : ∀ context key value ret context', Inv context → cb context key value = some (ret, context') → Inv context') :
    ∀ (fuel : Nat) (part : Bytes) (buffers : QueryBuffers) (context : σ) {ret : Int} {context' : σ}, Inv context →
      queryParseLoop cb fuel part buffers context = some (ret, context') → Inv context'
  | 0, _, _, _, _, _, _, h => by cases h
  | fuel + 1, part, buffers, context, ret, context', hinv, h => by
    rw [queryParseLoop] at h
    obtain ⟨_ | p, -, h⟩ := Option.bind_eq_some_iff.1 h
    · cases h
      exact hinv
    · obtain ⟨⟨ret₁, context₁⟩, hcall, h⟩ := Option.bind_eq_some_iff.1 h
      have hinv₁ := hcb _ _ _ _ _ hinv hcall
      simp only at h
      split at h
      · cases h
        exact hinv₁
      · split at h
        · cases h
          exact hinv₁
        · exact queryParseLoop_inv Inv hcb fuel _ _ _ hinv₁ h

omit [Dimension D] in
theorem queryParse_inv {cb : σ → Bytes → Bytes → Option (Int × σ)} (Inv : σ → Prop)
    (hcb : ∀ context key value ret context', Inv context → cb context key value = some (ret, context') → Inv context')
    {query : Bytes} {context context' : σ} {ret : Int} (hinv : Inv context)
    (h : queryParse query cb context = some (ret, context')) : Inv context' := by
  unfold queryParse at h
  split at h
  · cases h
    exact hinv
  · split at h
    · cases h
      exact hinv
    · exact queryParseLoop_inv Inv hcb _ _ _ _ hinv h

/-- **The operation of any body that is parsed has its maps in order.** -/
theorem queryParse_putOp {query : Bytes} {layerName key : Key} {ret : Int} {putOp : RecordsPutOp D}
    (h : queryParse query recordsPutOptParseCb (recordsPutOp layerName key) = some (ret, putOp)) :
    PutOpOk putOp ∧ putOp.layerName = layerName ∧ putOp.key = key := by
  refine queryParse_inv (fun putOp : RecordsPutOp D => PutOpOk putOp ∧ putOp.layerName = layerName ∧ putOp.key = key)
    (fun putOp k v ret putOp' hinv hcb => ?_) ⟨recordsPutOp_ok layerName key, rfl, rfl⟩ h
  obtain ⟨hok, hlayer, hkey⟩ := recordsPutOptParseCb_ok hinv.1 hcb
  exact ⟨hok, hlayer.trans hinv.2.1, hkey.trans hinv.2.2⟩

/-! ## What the worker does with it -/

theorem isIntmax_toIntmax (n : Int) : Lib.IsIntmax (toIntmax n) := by
  unfold Lib.IsIntmax toIntmax
  have hlo := Int.le_bmod (x := n) (m := 2 ^ 64) (by decide)
  have hhi := Int.bmod_lt (x := n) (m := 2 ^ 64) (by decide)
  omega

omit [Dimension D] in
theorem WellFormed.applyDelete {target : Option SlipMap} (h : WellFormed target) {name : Bytes} (hname : KeyLen name)
    (value : Bytes) : ∃ ret target', Pincaster.applyDelete target name value = some (ret, target') ∧
      WellFormed target' := by
  cases target with
  | none => exact ⟨0, none, rfl, h⟩
  | some slip =>
    unfold Pincaster.applyDelete
    simp only
    split
    · exact ⟨0, _, rfl, h⟩
    · obtain ⟨binds, ts, href⟩ := h
      obtain ⟨slip', ts', hrem, href'⟩ := href.remove hname
      rw [hrem]
      exact ⟨0, some slip', rfl, _, ts', href'⟩

omit [Dimension D] in
theorem WellFormed.applyAddInt {target : Option SlipMap} (h : WellFormed target) {name : Bytes} (hname : KeyLen name)
    (value : Bytes) : ∃ ret target', Pincaster.applyAddInt target name value = some (ret, target') ∧
      WellFormed target' := by
  obtain ⟨binds, hholds⟩ := h
  unfold Pincaster.applyAddInt
  split
  · exact ⟨0, target, rfl, binds, hholds⟩
  · rw [numValueOf_holds hholds]
    simp only [Option.bind_eq_bind, Option.bind_some]
    split
    · exact ⟨0, target, rfl, binds, hholds⟩
    · have hshort : (printInt 10 (toIntmax ((strtol 10 ((binds name).getD (bytes "0"))).1 + (strtol 10 value).1))).length ≤
          0xffff := (Lib.length_printInt_le (isIntmax_toIntmax _)).trans (by decide)
      cases target with
      | none =>
        obtain ⟨slip, hnew⟩ : ∃ slip, newSlipMap PROPERTIES_DEFAULT_SLIP_MAP_BUFFER_SIZE = some (some slip) := ⟨_, rfl⟩
        obtain ⟨slip', ret, hrep, hwf, -⟩ := WellFormed.replace ⟨_, newSlipMap_spec hnew⟩ hname hshort
        simp only [hnew, Option.bind_some, hrep, Option.map_some]
        exact ⟨0, some slip', rfl, hwf⟩
      | some slip =>
        obtain ⟨slip', ret, hrep, hwf, -⟩ := WellFormed.replace ⟨binds, hholds⟩ hname hshort
        simp only [hrep, Option.map_some]
        exact ⟨0, some slip', rfl, hwf⟩

omit [Dimension D] in
theorem keyLen_drop {key pre : Bytes} (hkey : KeyLen key) (h : hasPrefix key pre = true) : KeyLen (key.drop pre.length) := by
  have hlen := (hasPrefix_ncaseEq h).1
  have hmax := hkey.2
  unfold KeyLen
  rw [List.length_drop]
  omega

omit [Dimension D] in
/-- One special property keeps the map of the record in order. -/
theorem recordsPutApplySpecialPropertiesCb_wellFormed {target : Option SlipMap} (h : WellFormed target)
    {key value : Bytes} (hkey : KeyLen key) (hhead : key.head? = some INT_PROPERTY_COMMON_PREFIX) :
    ∃ ret target', recordsPutApplySpecialPropertiesCb target key value = some (ret, target') ∧ WellFormed target' := by
  unfold recordsPutApplySpecialPropertiesCb
  rw [if_neg (fun hne => hne hhead)]
  split
  · rename_i hdelete
    exact h.applyDelete (keyLen_drop hkey hdelete) value
  · split
    · unfold applyDeleteAll
      split
      · exact ⟨0, target, rfl, h⟩
      · exact ⟨0, none, rfl, wellFormed_none⟩
    · split
      · rename_i hadd
        exact h.applyAddInt (keyLen_drop hkey hadd) value
      · exact ⟨0, target, rfl, h⟩

omit [Dimension D] in
/-- One ordinary property that is merged in. -/
theorem recordsPutMergePropertiesCb_wellFormed {target : SlipMap} (h : WellFormed (some target)) {key value : Bytes}
    (hkey : KeyLen key) (hvalue : value.length ≤ 0xffff) (hhead : key.head? ≠ some INT_PROPERTY_COMMON_PREFIX) :
    ∃ ret target', recordsPutMergePropertiesCb target key value = some (ret, target') ∧ WellFormed (some target') := by
  obtain ⟨c, rest, rfl⟩ := List.exists_cons_of_ne_nil (List.ne_nil_of_length_pos hkey.1)
  obtain ⟨slip', ret, hrep, hwf, -⟩ := h.replace hkey hvalue
  rw [recordsPutMergePropertiesCb, if_neg (fun hc => hhead (congrArg some hc)), hrep]
  exact ⟨0, slip', rfl, hwf⟩

omit [Dimension D] in
/-- **A PUT leaves the properties in order**, and fails no assertion. -/
theorem putProperties_wellFormed {properties : Option SlipMap} (h : WellFormed properties) {putOp : RecordsPutOp D}
    (hop : PutOpOk putOp) :
    ∃ properties', putProperties properties putOp = some properties' ∧ WellFormed properties' := by
  unfold putProperties
  rw [hop.specials.foreach]
  obtain ⟨ret, target, hwalk, htarget⟩ := Lib.walk_inv WellFormed (visited putOp.specialProperties) (fun p hp m hm => by
    exact recordsPutApplySpecialPropertiesCb_wellFormed hm (hop.specials.keyLen hp).1 (hop.special p hp)) properties h
  rw [hwalk]
  simp only [Option.map_some, Option.bind_eq_bind, Option.bind_some]
  cases target with
  | none => exact ⟨putOp.properties, rfl, hop.properties⟩
  | some target =>
    simp only
    rw [hop.properties.foreach]
    obtain ⟨ret', target', hwalk', htarget'⟩ := Lib.walk_inv (fun m => WellFormed (some m)) (visited putOp.properties)
      (fun p hp m hm => recordsPutMergePropertiesCb_wellFormed hm (hop.properties.keyLen hp).1 (hop.properties.keyLen hp).2
        (hop.ordinary p hp)) target htarget
    rw [hwalk']
    exact ⟨some target', rfl, htarget'⟩

end

end Pincaster
