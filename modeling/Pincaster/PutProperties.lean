import Pincaster.PutBody
import Pincaster.Lib.Numeral
/-!
# PutProperties — what a PUT does to the properties of its record

A body of ordinary properties, deletions and additions is parsed into two maps, the special one is applied to the map of
the record and the other one merged into it.  The map that is left is the one before without the deletions, with the sums
of the additions, overridden by the properties: exactly when the values that are added can be read, as they are clamped to
64 bits before the sum (`put_updates_properties_iff`).
-/
namespace Pincaster

open Lib (Bytes bytes cstr tolower ncaseEq assign unbound walk Along Numeral IsIntmax saturate strtol printInt)

variable {D : Type} [Dimension D]

/-! ## Names -/

/-- **A text that starts with a word**, in any case, has its letters. -/
theorem take_of_ncaseEq {key word : Bytes} (hword : (0 : UInt8) ∉ word) (h : ncaseEq key word word.length = true) :
    (key.take word.length).map tolower = word.map tolower := by
  have heq : (cstr (key.take word.length)).map tolower = word.map tolower := by
    simpa [ncaseEq, Lib.cstr_of_not_mem hword] using h
  have hpre : cstr (key.take word.length) <+: key.take word.length := List.takeWhile_prefix _
  have hlen := congrArg List.length heq
  rw [List.length_map, List.length_map] at hlen
  rwa [hpre.eq_of_length_le (by rw [hlen, List.length_take]; omega)] at heq

/-- Words a text starts with agree. -/
theorem ncaseEq_agree {key s t : Bytes} (hs : (0 : UInt8) ∉ s) (ht : (0 : UInt8) ∉ t)
    (h : ncaseEq key s s.length = true) (h' : ncaseEq key t t.length = true) :
    (s.map tolower).take t.length = (t.map tolower).take s.length := by
  rw [← take_of_ncaseEq hs h, ← take_of_ncaseEq ht h', ← List.map_take, ← List.map_take, List.take_take, List.take_take,
    Nat.min_comm]

theorem tolower_eq_prefix : ∀ c : UInt8, tolower c = INT_PROPERTY_COMMON_PREFIX → c = INT_PROPERTY_COMMON_PREFIX := by
  decide +kernel

/-- A name without the prefix of the special ones. -/
def ordinary (key : Bytes) : Bool := key.head? ≠ some INT_PROPERTY_COMMON_PREFIX

theorem not_ordinary {key word : Bytes} (hword : (0 : UInt8) ∉ word) (hhead : word.head? = some INT_PROPERTY_COMMON_PREFIX)
    (h : ncaseEq key word word.length = true) : ordinary key = false := by
  have heq := congrArg List.head? (take_of_ncaseEq hword h)
  obtain ⟨w, rfl⟩ : ∃ w, word = INT_PROPERTY_COMMON_PREFIX :: w := by
    cases word with
    | nil => cases hhead
    | cons c w => exact ⟨w, by rw [List.head?_cons, Option.some.injEq] at hhead; rw [hhead]⟩
  cases key with
  | nil => cases heq
  | cons c key =>
    simp only [List.length_cons, List.take_succ_cons, List.map_cons, List.head?_cons, Option.some.injEq] at heq
    have hc := tolower_eq_prefix c (heq.trans (by decide))
    simp [ordinary, hc]

/-! ## Bodies -/

/-- `_delete:d` with a value that is not empty and does not start with a NUL. -/
def Deletion (p : Bytes × Bytes) : Prop :=
  hasPrefix p.1 INT_PROPERTY_DELETE_PREFIX = true ∧ p.2 ≠ [] ∧ p.2.head? ≠ some 0

/-- `_add_int:a` with a short numeric value. -/
def Addition (p : Bytes × Bytes) : Prop :=
  hasPrefix p.1 INT_PROPERTY_ADD_INT_PREFIX = true ∧ p.2.length < sizeofNumber ∧ ∃ n, Numeral p.2 n

/-- `_delete_all=1`. -/
def DeletionOfAll (p : Bytes × Bytes) : Prop :=
  binvalIsEqualToConstString p.1 INT_PROPERTY_DELETE_ALL_PREFIX = true ∧ p.2 = bytes "1"

/-- What stands behind the prefix of a deletion or an addition. -/
def specialTarget (p : Bytes × Bytes) : Bytes :=
  if hasPrefix p.1 INT_PROPERTY_DELETE_PREFIX then p.1.drop INT_PROPERTY_DELETE_PREFIX.length
  else p.1.drop INT_PROPERTY_ADD_INT_PREFIX.length

def ordinaryPairs (pairs : List (Bytes × Bytes)) : List (Bytes × Bytes) := pairs.filter (fun p => ordinary p.1)

def specialPairs (pairs : List (Bytes × Bytes)) : List (Bytes × Bytes) := pairs.filter (fun p => !ordinary p.1)

/-- The integer a property holds: 0 when there is none. -/
def IntegerAt (binds : Bytes → Option Bytes) (name : Bytes) (n : Int) : Prop :=
  binds name = none ∧ n = 0 ∨ IsIntmax n ∧ binds name = some (printInt 10 n)

/-- **Ordinary properties, deletions and additions**, of distinct targets, and no sum overflows. -/
structure UpdateBody (binds : Bytes → Option Bytes) (pairs : List (Bytes × Bytes)) : Prop where
  kinds : ∀ p ∈ pairs, ordinary p.1 = true ∨ Deletion p ∨ Addition p
  targets : ((specialPairs pairs).map specialTarget).Nodup
  sums : ∀ p ∈ pairs, Addition p → ∃ n v, IntegerAt binds (specialTarget p) n ∧ Numeral p.2 v ∧ IsIntmax (n + v)

/-- `_delete_all=1` is the only special pair. -/
def DeleteAllBody (pairs : List (Bytes × Bytes)) : Prop := ∃ p, specialPairs pairs = [p] ∧ DeletionOfAll p

/-- **What a PUT leaves of the properties**: those without the deletions, with the sums, overridden by the ordinary ones
of the body, the last pair of a name. -/
structure UpdateLaw (binds : Bytes → Option Bytes) (pairs : List (Bytes × Bytes)) (binds' : Bytes → Option Bytes) :
    Prop where
  named : ∀ name value, assign unbound (ordinaryPairs pairs) name = some value → binds' name = some value
  deleted : ∀ p ∈ pairs, Deletion p → specialTarget p ∉ (ordinaryPairs pairs).map Prod.fst →
    binds' (specialTarget p) = none
  added : ∀ p ∈ pairs, Addition p → specialTarget p ∉ (ordinaryPairs pairs).map Prod.fst →
    ∀ n v, IntegerAt binds (specialTarget p) n → Numeral p.2 v → binds' (specialTarget p) = some (printInt 10 (n + v))
  kept : ∀ name, name ∉ (ordinaryPairs pairs).map Prod.fst → (∀ p ∈ specialPairs pairs, specialTarget p ≠ name) →
    binds' name = binds name

/-- What is added to a property that the body does not name is an `intmax_t`. -/
def AddendsFit (pairs : List (Bytes × Bytes)) : Prop :=
  ∀ p ∈ pairs, Addition p → specialTarget p ∉ (ordinaryPairs pairs).map Prod.fst → ∀ v, Numeral p.2 v → IsIntmax v

/-! ## Parsing -/

theorem binval_ncaseEq {bv s : Bytes} (h : binvalIsEqualToConstString bv s = true) : ncaseEq bv s s.length = true := by
  simp only [binvalIsEqualToConstString, Bool.and_eq_true] at h
  exact h.2

theorem hasPrefix_ncaseEq {key pre : Bytes} (h : hasPrefix key pre = true) :
    pre.length < key.length ∧ ncaseEq key pre pre.length = true := by
  simp only [hasPrefix, ge_iff_le, Bool.and_eq_true, decide_eq_true_eq] at h
  exact ⟨by omega, h.2⟩

/-- Neither a position nor an expiration. -/
def IsProperty (key : Bytes) : Prop :=
  binvalIsEqualToConstString key INT_PROPERTY_POSITION = false ∧
    binvalIsEqualToConstString key INT_PROPERTY_EXPIRES_AT = false

theorem isProperty_of_ordinary {key : Bytes} (h : ordinary key = true) : IsProperty key := by
  constructor
  all_goals
    rw [Bool.eq_false_iff]
    intro hb
    rw [not_ordinary (by decide) (by decide) (binval_ncaseEq hb)] at h
    cases h

theorem isProperty_of_word {key word : Bytes} (hword : (0 : UInt8) ∉ word) (h : ncaseEq key word word.length = true)
    (hposition : (word.map tolower).take 4 ≠ (INT_PROPERTY_POSITION.map tolower).take word.length)
    (hexpires : (word.map tolower).take 11 ≠ (INT_PROPERTY_EXPIRES_AT.map tolower).take word.length) :
    IsProperty key := by
  constructor
  · rw [Bool.eq_false_iff]
    exact fun hb => hposition (ncaseEq_agree hword (by decide) h (binval_ncaseEq hb))
  · rw [Bool.eq_false_iff]
    exact fun hb => hexpires (ncaseEq_agree hword (by decide) h (binval_ncaseEq hb))

theorem Deletion.special {p : Bytes × Bytes} (h : Deletion p) : ordinary p.1 = false ∧ IsProperty p.1 :=
  have hword := (hasPrefix_ncaseEq h.1).2
  ⟨not_ordinary (by decide) (by decide) hword, isProperty_of_word (by decide) hword (by decide) (by decide)⟩

theorem Addition.special {p : Bytes × Bytes} (h : Addition p) : ordinary p.1 = false ∧ IsProperty p.1 :=
  have hword := (hasPrefix_ncaseEq h.1).2
  ⟨not_ordinary (by decide) (by decide) hword, isProperty_of_word (by decide) hword (by decide) (by decide)⟩

theorem DeletionOfAll.special {p : Bytes × Bytes} (h : DeletionOfAll p) : ordinary p.1 = false ∧ IsProperty p.1 :=
  have hword := binval_ncaseEq h.1
  ⟨not_ordinary (by decide) (by decide) hword, isProperty_of_word (by decide) hword (by decide) (by decide)⟩

/-- The replacement the parser makes for a pair succeeds. -/
def ParseStored (putOp : RecordsPutOp D) (key value : Bytes) : Prop :=
  Stored (if ordinary key then putOp.properties else putOp.specialProperties) key value

instance (putOp : RecordsPutOp D) (key value : Bytes) : Decidable (ParseStored putOp key value) :=
  inferInstanceAs (Decidable (Stored _ _ _))

/-- **The maps the parser fills.** -/
structure Parsed (layerName key : Key) (pairs : List (Bytes × Bytes)) (putOp : RecordsPutOp D) : Prop where
  layer : putOp.layerName = layerName
  key : putOp.key = key
  properties : Holds putOp.properties (assign unbound (ordinaryPairs pairs))
  specials : Holds putOp.specialProperties (assign unbound (specialPairs pairs))

theorem recordsPutOptParseCb_ordinary {putOp : RecordsPutOp D} {key value : Bytes} {slip : SlipMap}
    (hprop : IsProperty key) (hord : ordinary key = true) (hkey : key ≠ [])
    (hput : putProperty putOp.properties key value = some (some slip)) :
    recordsPutOptParseCb putOp key value = some (0, { putOp with properties := some slip }) := by
  obtain ⟨c, rest, rfl⟩ := List.exists_cons_of_ne_nil hkey
  have hc : ¬ c = INT_PROPERTY_COMMON_PREFIX := by simpa [ordinary] using hord
  rw [recordsPutOptParseCb, hprop.1, hprop.2]
  simp only [Bool.false_eq_true, if_false, hc, hput, Option.map_some]

theorem recordsPutOptParseCb_none {putOp : RecordsPutOp D} {key value : Bytes} (hprop : IsProperty key)
    (hord : ordinary key = true) (hkey : key ≠ []) (hput : putProperty putOp.properties key value = none) :
    recordsPutOptParseCb putOp key value = none := by
  obtain ⟨c, rest, rfl⟩ := List.exists_cons_of_ne_nil hkey
  have hc : ¬ c = INT_PROPERTY_COMMON_PREFIX := by simpa [ordinary] using hord
  rw [recordsPutOptParseCb, hprop.1, hprop.2]
  simp only [Bool.false_eq_true, if_false, hc, hput, Option.map_none]

theorem recordsPutOptParseCb_special {putOp : RecordsPutOp D} {key value : Bytes} {slip : SlipMap}
    (hprop : IsProperty key) (hord : ordinary key = false) (hkey : key ≠ [])
    (hput : putProperty putOp.specialProperties key value = some (some slip)) :
    recordsPutOptParseCb putOp key value = some (0, { putOp with specialProperties := some slip }) := by
  obtain ⟨c, rest, rfl⟩ := List.exists_cons_of_ne_nil hkey
  have hc : c = INT_PROPERTY_COMMON_PREFIX := by simpa [ordinary] using hord
  rw [recordsPutOptParseCb, hprop.1, hprop.2]
  simp only [Bool.false_eq_true, if_false, hc, if_true]
  rw [← hc, hput]
  rfl

theorem ordinaryPairs_snoc (pre : List (Bytes × Bytes)) (p : Bytes × Bytes) :
    ordinaryPairs (pre ++ [p]) = if ordinary p.1 then ordinaryPairs pre ++ [p] else ordinaryPairs pre := by
  cases h : ordinary p.1 <;> simp [ordinaryPairs, h]

theorem specialPairs_snoc (pre : List (Bytes × Bytes)) (p : Bytes × Bytes) :
    specialPairs (pre ++ [p]) = if ordinary p.1 then specialPairs pre else specialPairs pre ++ [p] := by
  cases h : ordinary p.1 <;> simp [specialPairs, h]

theorem recordsPutOptParseCb_stored {layerName k : Key} {pre : List (Bytes × Bytes)} {putOp : RecordsPutOp D}
    (h : Parsed layerName k pre putOp) {key value : Bytes} (hprop : IsProperty key) (hs : ParseStored putOp key value) :
    ∃ putOp', recordsPutOptParseCb putOp key value = some (0, putOp') ∧
      Parsed layerName k (pre ++ [(key, value)]) putOp' := by
  have hkey : key ≠ [] := List.ne_nil_of_length_pos hs.keyLen.1.1
  unfold ParseStored at hs
  cases hord : ordinary key with
  | true =>
    rw [hord, if_pos rfl] at hs
    obtain ⟨slip, hput, hholds⟩ := putProperty_stored h.properties hs
    refine ⟨_, recordsPutOptParseCb_ordinary hprop hord hkey hput, h.layer, h.key, ?_, ?_⟩
    · rw [ordinaryPairs_snoc, if_pos hord, Lib.assign_snoc]
      exact hholds
    · rw [specialPairs_snoc, if_pos hord]
      exact h.specials
  | false =>
    rw [hord, if_neg Bool.false_ne_true] at hs
    obtain ⟨slip, hput, hholds⟩ := putProperty_stored h.specials hs
    refine ⟨_, recordsPutOptParseCb_special hprop hord hkey hput, h.layer, h.key, ?_, ?_⟩
    · rw [ordinaryPairs_snoc, if_neg (by simp [hord])]
      exact h.properties
    · rw [specialPairs_snoc, if_neg (by simp [hord]), Lib.assign_snoc]
      exact hholds

/-- **A body of properties is parsed** into the map of the ordinary ones and the map of the special ones. -/
theorem queryParse_properties {body : Bytes} {pairs : List (Bytes × Bytes)} (layerName key : Key)
    (hbody : queryParse body collect [] = some (0, pairs)) (hprops : ∀ p ∈ pairs, IsProperty p.1)
    (hparse : Along recordsPutOptParseCb ParseStored pairs (recordsPutOp layerName key : RecordsPutOp D)) :
    ∃ putOp : RecordsPutOp D, queryParse body recordsPutOptParseCb (recordsPutOp layerName key) = some (0, putOp) ∧
      Parsed layerName key pairs putOp := by
  obtain ⟨putOp, hwalk, hparsed⟩ := Lib.walk_of_along (Parsed layerName key) pairs
    (fun pre k v post context hall hinv hok =>
      recordsPutOptParseCb_stored hinv (hprops (k, v) (by rw [hall]; simp)) hok)
    pairs [] (recordsPutOp layerName key) rfl ⟨rfl, rfl, rfl, rfl⟩ hparse
  exact ⟨putOp, by rw [queryParse_walk hbody, hwalk]; rfl, hparsed⟩

/-! ## The special properties -/

/-- The replacement of `_add_int:` succeeds. -/
def SpecialStored (target : Option SlipMap) (key value : Bytes) : Prop :=
  hasPrefix key INT_PROPERTY_ADD_INT_PREFIX = true →
    match numValueOf target (key.drop INT_PROPERTY_ADD_INT_PREFIX.length) with
    | none => False
    | some numValueS => Stored target (key.drop INT_PROPERTY_ADD_INT_PREFIX.length)
        (printInt 10 (toIntmax ((strtol 10 numValueS).1 + (strtol 10 value).1)))

instance (target : Option SlipMap) (key value : Bytes) : Decidable (SpecialStored target key value) :=
  have : Decidable (match numValueOf target (key.drop INT_PROPERTY_ADD_INT_PREFIX.length) with
    | none => False
    | some numValueS => Stored target (key.drop INT_PROPERTY_ADD_INT_PREFIX.length)
        (printInt 10 (toIntmax ((strtol 10 numValueS).1 + (strtol 10 value).1)))) :=
    match numValueOf target (key.drop INT_PROPERTY_ADD_INT_PREFIX.length) with
    | none => .isFalse id
    | some _ => inferInstanceAs (Decidable (Stored _ _ _))
  inferInstanceAs (Decidable (_ → _))

/-- **What some special pairs have done** to the map of the record. -/
structure Applied (binds : Bytes → Option Bytes) (specials : List (Bytes × Bytes)) (binds' : Bytes → Option Bytes) :
    Prop where
  deleted : ∀ p ∈ specials, Deletion p → binds' (specialTarget p) = none
  added : ∀ p ∈ specials, Addition p → ∀ n v, IntegerAt binds (specialTarget p) n → Numeral p.2 v →
    binds' (specialTarget p) = some (printInt 10 (n + saturate v))
  kept : ∀ name, (∀ p ∈ specials, specialTarget p ≠ name) → binds' name = binds name

theorem Applied.snoc {binds binds' : Bytes → Option Bytes} {specials : List (Bytes × Bytes)} {p : Bytes × Bytes}
    {bound : Option Bytes} (h : Applied binds specials binds') (hnew : ∀ q ∈ specials, specialTarget q ≠ specialTarget p)
    (hdeleted : Deletion p → bound = none)
    (hadded : Addition p → ∀ n v, IntegerAt binds (specialTarget p) n → Numeral p.2 v →
      bound = some (printInt 10 (n + saturate v))) :
    Applied binds (specials ++ [p]) (Function.update binds' (specialTarget p) bound) := by
  refine ⟨fun q hq hd => ?_, fun q hq ha n v hn hv => ?_, fun name hname => ?_⟩
  · rcases List.mem_append.1 hq with hq | hq
    · rw [Function.update_of_ne (hnew q hq)]
      exact h.deleted q hq hd
    · obtain rfl := List.mem_singleton.1 hq
      rw [Function.update_self]
      exact hdeleted hd
  · rcases List.mem_append.1 hq with hq | hq
    · rw [Function.update_of_ne (hnew q hq)]
      exact h.added q hq ha n v hn hv
    · obtain rfl := List.mem_singleton.1 hq
      rw [Function.update_self]
      exact hadded ha n v hn hv
  · rw [Function.update_of_ne (hname p (by simp)).symm]
    exact h.kept name (fun q hq => hname q (List.mem_append_left _ hq))

theorem deletion_excludes_addition {key : Bytes} (h : hasPrefix key INT_PROPERTY_ADD_INT_PREFIX = true) :
    hasPrefix key INT_PROPERTY_DELETE_PREFIX = false ∧
      binvalIsEqualToConstString key INT_PROPERTY_DELETE_ALL_PREFIX = false := by
  have hword := (hasPrefix_ncaseEq h).2
  constructor
  · rw [Bool.eq_false_iff]
    exact fun hd => absurd (ncaseEq_agree (by decide) (by decide) hword (hasPrefix_ncaseEq hd).2) (by decide)
  · rw [Bool.eq_false_iff]
    exact fun hd => absurd (ncaseEq_agree (by decide) (by decide) hword (binval_ncaseEq hd)) (by decide)

theorem toIntmax_of_isIntmax {n : Int} (h : IsIntmax n) : toIntmax n = n := by
  obtain ⟨hlo, hhi⟩ := h
  unfold toIntmax
  rw [Int.bmod_eq_of_le] <;> omega

theorem numValueOf_holds {target : Option SlipMap} {binds : Bytes → Option Bytes} (h : Holds target binds)
    (name : Bytes) : numValueOf target name = some ((binds name).getD (bytes "0")) := by
  cases target with
  | none =>
    obtain rfl : binds = unbound := h
    rfl
  | some slip =>
    obtain ⟨ts, href⟩ := h
    rw [numValueOf, href.find, Option.map_some]

/-- The number of an addition is read, whatever the property holds. -/
theorem IntegerAt.strtol {binds : Bytes → Option Bytes} {name : Bytes} {n : Int} (h : IntegerAt binds name n) :
    (Lib.strtol 10 ((binds name).getD (bytes "0"))).1 = n ∧ ((binds name).getD (bytes "0")).length < sizeofNumber := by
  rcases h with ⟨hnone, rfl⟩ | ⟨hn, hsome⟩
  · rw [hnone]
    decide +kernel
  · rw [hsome, Option.getD_some, Lib.strtol_numeral (Lib.numeral_printInt n), Lib.saturate_of_isIntmax hn]
    exact ⟨rfl, Nat.lt_of_le_of_lt (Lib.length_printInt_le hn) (by decide)⟩

theorem isIntmax_of_saturate {v : Int} (h : saturate v = v) : IsIntmax v := by
  rw [← h]
  unfold IsIntmax saturate
  omega

/-- A sum that does not overflow does not when its second summand is clamped, as the first one is in range. -/
theorem isIntmax_add_saturate {n v : Int} (hn : IsIntmax n) (h : IsIntmax (n + v)) : IsIntmax (n + saturate v) := by
  unfold IsIntmax at *
  unfold saturate
  omega

theorem IntegerAt.isIntmax {binds : Bytes → Option Bytes} {name : Bytes} {n : Int} (h : IntegerAt binds name n) :
    IsIntmax n := by
  rcases h with ⟨-, rfl⟩ | ⟨hn, -⟩
  · decide
  · exact hn

theorem applyDelete_holds {target : Option SlipMap} {binds : Bytes → Option Bytes} (h : Holds target binds)
    {name value : Bytes} (hname : KeyLen name) (hvalue : value ≠ [] ∧ value.head? ≠ some 0) :
    ∃ target', applyDelete target name value = some (0, target') ∧
      Holds target' (Function.update binds name none) := by
  have hguard : ¬ (value.length ≤ 0 ∨ value.head? = some 0) := by
    rintro (hlen | hhead)
    · exact hvalue.1 (List.eq_nil_of_length_eq_zero (by omega))
    · exact hvalue.2 hhead
  cases target with
  | none =>
    obtain rfl : binds = unbound := h
    exact ⟨none, rfl, Function.update_eq_self_iff.2 rfl⟩
  | some slip =>
    obtain ⟨ts, href⟩ := h
    obtain ⟨slip', ts', hrem, href'⟩ := href.remove hname
    refine ⟨some slip', by rw [applyDelete, if_neg hguard, hrem]; rfl, ts', ?_⟩
    rwa [show Function.update binds name none = fun k => if k = name then none else binds k from
      funext (fun k => by rw [Function.update_apply])]

theorem applyAddInt_holds {target : Option SlipMap} {binds : Bytes → Option Bytes} (h : Holds target binds)
    {name value : Bytes} {n v : Int} (hn : IntegerAt binds name n) (hv : Numeral value v)
    (hshort : value.length < sizeofNumber) (hsum : IsIntmax (n + saturate v))
    (hs : Stored target name (printInt 10 (n + saturate v))) :
    ∃ target', applyAddInt target name value = some (0, target') ∧
      Holds target' (Function.update binds name (some (printInt 10 (n + saturate v)))) := by
  have hguard : ¬ (value.length ≤ 0 ∨ value.head? = some 0 ∨ value.length ≥ sizeofNumber) := by
    rintro (hlen | hhead | hlong)
    · exact hv.ne_nil (List.eq_nil_of_length_eq_zero (by omega))
    · exact hv.head_ne_zero hhead
    · omega
  obtain ⟨slip, slip', hslip, hrep, hholds⟩ := h.stored hs
  refine ⟨some slip', ?_, hholds⟩
  rw [applyAddInt, if_neg hguard, numValueOf_holds h, Option.bind_eq_bind, Option.bind_some,
    if_neg (by have := hn.strtol.2; omega), hn.strtol.1, Lib.strtol_numeral hv]
  simp only []
  rw [toIntmax_of_isIntmax hsum]
  cases target with
  | none =>
    obtain ⟨slip₀, hnew⟩ : ∃ slip₀, newSlipMap PROPERTIES_DEFAULT_SLIP_MAP_BUFFER_SIZE = some (some slip₀) := ⟨_, rfl⟩
    rw [mapOrNew, hnew, Option.join_some, Option.some.injEq] at hslip
    subst hslip
    simp [hnew, hrep]
  | some slip₀ =>
    obtain rfl : slip₀ = slip := Option.some.inj hslip
    simp [hrep]

/-- **One special pair** does to the map of the record what it says. -/
theorem recordsPutApplySpecialPropertiesCb_applied {binds : Bytes → Option Bytes} {pre : List (Bytes × Bytes)}
    {p : Bytes × Bytes} {target : Option SlipMap}
    (h : ∃ binds', Holds target binds' ∧ Applied binds pre binds')
    (hnew : ∀ q ∈ pre, specialTarget q ≠ specialTarget p) (hkind : Deletion p ∨ Addition p) (hlen : p.1.length ≤ 0xffff)
    (hsum : Addition p → ∃ n v, IntegerAt binds (specialTarget p) n ∧ Numeral p.2 v ∧ IsIntmax (n + saturate v))
    (hs : SpecialStored target p.1 p.2) :
    ∃ target', recordsPutApplySpecialPropertiesCb target p.1 p.2 = some (0, target') ∧
      ∃ binds', Holds target' binds' ∧ Applied binds (pre ++ [p]) binds' := by
  obtain ⟨binds', hholds, happlied⟩ := h
  unfold recordsPutApplySpecialPropertiesCb
  rcases hkind with hd | ha
  · have hhead : p.1.head? = some INT_PROPERTY_COMMON_PREFIX := by simpa [ordinary] using hd.special.1
    have hpre := (hasPrefix_ncaseEq hd.1).1
    have htarget : specialTarget p = p.1.drop INT_PROPERTY_DELETE_PREFIX.length := if_pos hd.1
    have hname : KeyLen (specialTarget p) := by
      rw [htarget, KeyLen, List.length_drop]
      omega
    obtain ⟨target', happly, hholds'⟩ := applyDelete_holds hholds hname hd.2
    rw [if_neg (fun e => e hhead), if_pos hd.1, ← htarget, happly]
    refine ⟨target', rfl, _, hholds', happlied.snoc hnew (fun _ => rfl) (fun ha => ?_)⟩
    have hno := (deletion_excludes_addition ha.1).1
    rw [hd.1] at hno
    cases hno
  · have hhead : p.1.head? = some INT_PROPERTY_COMMON_PREFIX := by simpa [ordinary] using ha.special.1
    obtain ⟨hnodel, hnoall⟩ := deletion_excludes_addition ha.1
    have htarget : specialTarget p = p.1.drop INT_PROPERTY_ADD_INT_PREFIX.length := if_neg (by simp [hnodel])
    obtain ⟨n, v, hn, hv, hmax⟩ := hsum ha
    -- no pair before this one has touched the property
    have hn' : IntegerAt binds' (specialTarget p) n := by
      unfold IntegerAt
      rw [happlied.kept _ hnew]
      exact hn
    have hstored : Stored target (specialTarget p) (printInt 10 (n + saturate v)) := by
      have hs := hs ha.1
      rw [← htarget, numValueOf_holds hholds] at hs
      simp only [hn'.strtol.1, Lib.strtol_numeral hv, toIntmax_of_isIntmax hmax] at hs
      exact hs
    obtain ⟨target', happly, hholds'⟩ := applyAddInt_holds hholds hn' hv ha.2.1 hmax hstored
    rw [if_neg (fun e => e hhead), hnodel, hnoall, if_neg Bool.false_ne_true, if_neg Bool.false_ne_true, if_pos ha.1,
      ← htarget, happly]
    refine ⟨target', rfl, _, hholds', happlied.snoc hnew (fun hd => ?_) (fun _ n' v' hn₁ hv₁ => ?_)⟩
    · rw [hd.1] at hnodel
      cases hnodel
    · have hsame : n' + saturate v' = n + saturate v := by
        have h₁ := congrArg Prod.fst ((Lib.strtol_numeral hv).symm.trans (Lib.strtol_numeral hv₁))
        have h₂ := hn₁.strtol.1.symm.trans hn.strtol.1
        simp only at h₁
        omega
      rw [hsame]

/-- **The special properties** are applied one after the other. -/
theorem slipMapForeachCb_specials {binds : Bytes → Option Bytes} {properties specials : Option SlipMap}
    {pairs : List (Bytes × Bytes)} (hM : Holds properties binds) (hbody : UpdateBody binds pairs)
    (hspecials : Holds specials (assign unbound (specialPairs pairs)))
    (halong : Along recordsPutApplySpecialPropertiesCb SpecialStored (visited specials) properties) :
    ∃ target binds', slipMapForeachCb specials recordsPutApplySpecialPropertiesCb properties = some target ∧
      Holds target binds' ∧ Applied binds (visited specials) binds' ∧
      ∀ p, p ∈ visited specials ↔ p ∈ specialPairs pairs := by
  have hkeys : ((specialPairs pairs).map Prod.fst).Nodup := by
    have htargets := hbody.targets.of_map specialTarget
    refine List.Nodup.map_on (fun p hp q hq hpq => ?_) htargets
    exact List.inj_on_of_nodup_map hbody.targets hp hq (by simp only [specialTarget, hpq])
  have hmem : ∀ p, p ∈ visited specials ↔ p ∈ specialPairs pairs := fun p => by
    rw [hspecials.mem_visited, Lib.assign_eq_some hkeys]
  have hperm : (visited specials).Perm (specialPairs pairs) :=
    (List.perm_ext_iff_of_nodup (hspecials.nodup.of_map Prod.fst) (hkeys.of_map Prod.fst)).2 hmem
  have hnodup : ((visited specials).map specialTarget).Nodup := (hperm.map _).nodup_iff.2 hbody.targets
  obtain ⟨target, hwalk, binds', hholds, happlied⟩ := Lib.walk_of_along
    (fun pre target => ∃ binds', Holds target binds' ∧ Applied binds pre binds') (visited specials)
    (fun pre k v post target hall hinv hs => by
      have hin : (k, v) ∈ visited specials := by rw [hall]; simp
      have hspecial := (hmem _).1 hin
      obtain ⟨hpairs, hord⟩ := List.mem_filter.1 hspecial
      refine recordsPutApplySpecialPropertiesCb_applied (p := (k, v)) hinv (fun q hq heq => ?_)
        ((hbody.kinds _ hpairs).resolve_left (by simpa using hord)) (hspecials.keyLen hin).1.2
        (fun ha => ?_) hs
      · rw [hall, List.map_append, List.map_cons, List.nodup_append] at hnodup
        exact hnodup.2.2 _ (List.mem_map_of_mem hq) _ List.mem_cons_self heq
      · obtain ⟨n, v, hn, hv, hsum⟩ := hbody.sums _ hpairs ha
        exact ⟨n, v, hn, hv, isIntmax_add_saturate hn.isIntmax hsum⟩)
    (visited specials) [] properties rfl
    ⟨binds, hM, ⟨by simp, by simp, fun _ _ => rfl⟩⟩ halong
  exact ⟨target, binds', by rw [hspecials.foreach, hwalk, Option.map_some], hholds, happlied, hmem⟩

/-! ## Merging -/

/-- The replacement that merges a property in succeeds. -/
def MergeStored (target : SlipMap) (key value : Bytes) : Prop := Stored (some target) key value

instance (target : SlipMap) (key value : Bytes) : Decidable (MergeStored target key value) :=
  inferInstanceAs (Decidable (Stored _ _ _))

theorem recordsPutMergePropertiesCb_eq {target : SlipMap} {key value : Bytes} (hkey : key ≠ [])
    (hord : ordinary key = true) : recordsPutMergePropertiesCb target key value =
      (replaceEntryInSlipMap target key value).map (fun r => (0, r.1)) := by
  obtain ⟨c, rest, rfl⟩ := List.exists_cons_of_ne_nil hkey
  have hc : ¬ c = INT_PROPERTY_COMMON_PREFIX := by simpa [ordinary] using hord
  simp only [recordsPutMergePropertiesCb, hc, if_false]

/-- **The ordinary properties** are written into the map. -/
theorem slipMapForeachCb_merge {binds : Bytes → Option Bytes} {target : SlipMap} {properties : Option SlipMap}
    {pairs : List (Bytes × Bytes)} (hM : Holds (some target) binds)
    (hproperties : Holds properties (assign unbound (ordinaryPairs pairs)))
    (halong : Along recordsPutMergePropertiesCb MergeStored (visited properties) target) :
    ∃ target', slipMapForeachCb properties recordsPutMergePropertiesCb target = some target' ∧
      Holds (some target') (assign binds (ordinaryPairs pairs)) := by
  have hord : ∀ p ∈ visited properties, ordinary p.1 = true := fun p hp =>
    (List.mem_filter.1 (Lib.mem_of_assign (hproperties.mem_visited.1 hp))).2
  obtain ⟨target', hwalk, hholds⟩ := Lib.walk_of_along
    (fun pre target => Holds (some target) (assign binds pre)) (visited properties)
    (fun pre k v post target hall hinv hs => by
      obtain ⟨slip, slip', hslip, hrep, hholds⟩ := Holds.stored hinv hs
      obtain rfl : target = slip := Option.some.inj hslip
      refine ⟨slip', ?_, by rwa [Lib.assign_snoc]⟩
      rw [recordsPutMergePropertiesCb_eq (List.ne_nil_of_length_pos hs.keyLen.1.1) (hord (k, v) (by rw [hall]; simp)),
        hrep, Option.map_some])
    (visited properties) [] target rfl hM halong
  refine ⟨target', by rw [hproperties.foreach, hwalk, Option.map_some], ?_⟩
  have heq : assign binds (ordinaryPairs pairs) = assign binds (visited properties) := funext (fun k => by
    rw [Lib.assign_eq_or, hproperties.eq_assign, ← Lib.assign_eq_or])
  rw [heq]
  exact hholds

/-! ## The PUT -/

/-- **Every update of the map of the record succeeds.** -/
def UpdatesSucceed (properties : Option SlipMap) (putOp : RecordsPutOp D) : Prop :=
  Along recordsPutApplySpecialPropertiesCb SpecialStored (visited putOp.specialProperties) properties ∧
    match slipMapForeachCb putOp.specialProperties recordsPutApplySpecialPropertiesCb properties with
    | some (some target) => Along recordsPutMergePropertiesCb MergeStored (visited putOp.properties) target
    | _ => True

instance (properties : Option SlipMap) (putOp : RecordsPutOp D) : Decidable (UpdatesSucceed properties putOp) :=
  have : Decidable (match slipMapForeachCb putOp.specialProperties recordsPutApplySpecialPropertiesCb properties with
    | some (some target) => Along recordsPutMergePropertiesCb MergeStored (visited putOp.properties) target
    | _ => True) :=
    match slipMapForeachCb putOp.specialProperties recordsPutApplySpecialPropertiesCb properties with
    | some (some _) => Lib.decidableAlong _ _
    | none => .isTrue trivial
    | some none => .isTrue trivial
  inferInstanceAs (Decidable (_ ∧ _))

omit [Dimension D] in
/-- What is left after the special properties is overridden by the ordinary ones. -/
theorem putProperties_merge {binds : Bytes → Option Bytes} {layerName key : Key} {pairs : List (Bytes × Bytes)}
    {properties target : Option SlipMap} {putOp : RecordsPutOp D} (hparsed : Parsed layerName key pairs putOp)
    (hspecial : slipMapForeachCb putOp.specialProperties recordsPutApplySpecialPropertiesCb properties = some target)
    (hM : Holds target binds) (hs : UpdatesSucceed properties putOp) :
    ∃ properties', putProperties properties putOp = some properties' ∧
      Holds properties' (assign binds (ordinaryPairs pairs)) := by
  have hmerge := hs.2
  rw [hspecial] at hmerge
  rw [putProperties, hspecial, Option.bind_eq_bind, Option.bind_some]
  cases target with
  | none =>
    obtain rfl : binds = unbound := hM
    exact ⟨putOp.properties, rfl, hparsed.properties⟩
  | some target =>
    obtain ⟨target', hforeach, hholds⟩ := slipMapForeachCb_merge hM hparsed.properties hmerge
    exact ⟨some target', by simp only [hforeach, Option.map_some], hholds⟩

/-- **What the special pairs have done is what the body says** exactly when the values that are added are not clamped. -/
theorem updateLaw_iff_of_applied {binds binds' : Bytes → Option Bytes} {pairs specials : List (Bytes × Bytes)}
    (hbody : UpdateBody binds pairs) (happlied : Applied binds specials binds')
    (hmem : ∀ p, p ∈ specials ↔ p ∈ specialPairs pairs) :
    UpdateLaw binds pairs (assign binds' (ordinaryPairs pairs)) ↔ AddendsFit pairs := by
  have hin : ∀ p ∈ pairs, ordinary p.1 = false → p ∈ specials := fun p hp hord =>
    (hmem p).2 (List.mem_filter.2 ⟨hp, by simpa using hord⟩)
  constructor
  · intro hlaw p hp ha hnot v hv
    obtain ⟨n, -, hn, -, -⟩ := hbody.sums p hp ha
    have hsum := hlaw.added p hp ha hnot n v hn hv
    rw [Lib.assign_of_not_mem _ _ hnot, happlied.added p (hin p hp ha.special.1) ha n v hn hv, Option.some.injEq] at hsum
    have heq : n + saturate v = n + v :=
      (Lib.numeral_printInt (n + saturate v)).unique (hsum ▸ Lib.numeral_printInt (n + v))
    exact isIntmax_of_saturate (by omega)
  · refine fun hfit => ⟨fun name value h => ?_, fun p hp hd hnot => ?_, fun p hp ha hnot n v hn hv => ?_,
      fun name hnot hother => ?_⟩
    · rw [Lib.assign_eq_or, h, Option.some_or]
    · rw [Lib.assign_of_not_mem _ _ hnot]
      exact happlied.deleted p (hin p hp hd.special.1) hd
    · have hsum := happlied.added p (hin p hp ha.special.1) ha n v hn hv
      rw [Lib.saturate_of_isIntmax (hfit p hp ha hnot v hv)] at hsum
      rw [Lib.assign_of_not_mem _ _ hnot, hsum]
    · rw [Lib.assign_of_not_mem _ _ hnot]
      exact happlied.kept name (fun p hp => hother p ((hmem p).1 hp))

/-- `_delete_all=1` frees the map. -/
theorem slipMapForeachCb_deleteAll {properties specials : Option SlipMap} {pairs : List (Bytes × Bytes)}
    (hbody : DeleteAllBody pairs) (hspecials : Holds specials (assign unbound (specialPairs pairs))) :
    slipMapForeachCb specials recordsPutApplySpecialPropertiesCb properties = some none := by
  obtain ⟨p, hpairs, hall⟩ := hbody
  have hvisited : visited specials = [p] := by
    have hmem : ∀ q, q ∈ visited specials ↔ q = p := fun q => by
      rw [hspecials.mem_visited, hpairs, Lib.assign_eq_some (by simp), List.mem_singleton]
    exact List.perm_singleton.1 ((List.perm_ext_iff_of_nodup (hspecials.nodup.of_map Prod.fst)
      (List.nodup_singleton p)).2 (fun q => by rw [hmem, List.mem_singleton]))
  have hhead : p.1.head? = some INT_PROPERTY_COMMON_PREFIX := by simpa [ordinary] using hall.special.1
  have hnodel : hasPrefix p.1 INT_PROPERTY_DELETE_PREFIX = false := by
    rw [Bool.eq_false_iff]
    exact fun hd => absurd (ncaseEq_agree (by decide) (by decide) (binval_ncaseEq hall.1) (hasPrefix_ncaseEq hd).2)
      (by decide)
  have hcb : recordsPutApplySpecialPropertiesCb properties p.1 p.2 = some (0, none) := by
    rw [recordsPutApplySpecialPropertiesCb, if_neg (fun e => e hhead), hnodel, if_neg Bool.false_ne_true, if_pos hall.1,
      hall.2]
    cases properties <;> rfl
  rw [hspecials.foreach, hvisited]
  simp only [walk, hcb, Option.bind_eq_bind, Option.bind_some, ne_eq, not_true_eq_false, if_false, Option.map_some]

theorem UpdateBody.isProperty {binds : Bytes → Option Bytes} {pairs : List (Bytes × Bytes)} (h : UpdateBody binds pairs) :
    ∀ p ∈ pairs, IsProperty p.1 := fun p hp => by
  rcases h.kinds p hp with hord | hd | ha
  · exact isProperty_of_ordinary hord
  · exact hd.special.2
  · exact ha.special.2

theorem DeleteAllBody.isProperty {pairs : List (Bytes × Bytes)} (h : DeleteAllBody pairs) :
    ∀ p ∈ pairs, IsProperty p.1 := fun p hp => by
  obtain ⟨q, hq, hall⟩ := h
  cases hord : ordinary p.1 with
  | true => exact isProperty_of_ordinary hord
  | false =>
    have hmem : p ∈ specialPairs pairs := List.mem_filter.2 ⟨hp, by simp [hord]⟩
    rw [hq, List.mem_singleton] at hmem
    exact hmem ▸ hall.special.2

/-- **What a PUT leaves in the record**: what the special properties have left, overridden by the ordinary ones. -/
theorem handleOpRecordsPut_updates (qbounds : Rectangle2D D) {layers : Layers D} {keyNodes : KeyNodes D}
    {layerName key : Key} {binds : Bytes → Option Bytes} {body : Bytes} {pairs : List (Bytes × Bytes)}
    (hlayer : layers layerName = some keyNodes) (hM : Holds ((keyNodes key).getD newKeyNode).properties binds)
    (hbody : queryParse (body ++ [0]) collect [] = some (0, pairs))
    (hkind : UpdateBody binds pairs ∨ DeleteAllBody pairs)
    (hparse : Along recordsPutOptParseCb ParseStored pairs (recordsPutOp layerName key : RecordsPutOp D))
    (hupdates : ∀ putOp : RecordsPutOp D,
      queryParse (body ++ [0]) recordsPutOptParseCb (recordsPutOp layerName key) = some (0, putOp) →
        UpdatesSucceed ((keyNodes key).getD newKeyNode).properties putOp) :
    ∃ (putOp : RecordsPutOp D) (keyNode : KeyNode D) (binds' : Bytes → Option Bytes),
      queryParse (body ++ [0]) recordsPutOptParseCb (recordsPutOp layerName key) = some (0, putOp) ∧
      handleOpRecordsPut qbounds putOp layers =
        some (0, Function.update layers layerName (some (Function.update keyNodes key (some keyNode)))) ∧
      Holds keyNode.properties (assign binds' (ordinaryPairs pairs)) ∧
      (UpdateBody binds pairs → ∃ specials, Applied binds specials binds' ∧ ∀ p, p ∈ specials ↔ p ∈ specialPairs pairs) ∧
      (DeleteAllBody pairs → binds' = unbound) := by
  have hprops : ∀ p ∈ pairs, IsProperty p.1 := hkind.elim UpdateBody.isProperty DeleteAllBody.isProperty
  obtain ⟨putOp, hput, hparsed⟩ := queryParse_properties layerName key hbody hprops hparse
  have hsucceed := hupdates putOp hput
  -- what the special properties leave, whichever kind the body is of
  obtain ⟨target, binds', hspecial, hholds, hupdate, hall⟩ : ∃ target binds',
      slipMapForeachCb putOp.specialProperties recordsPutApplySpecialPropertiesCb
        ((keyNodes key).getD newKeyNode).properties = some target ∧ Holds target binds' ∧
      (UpdateBody binds pairs → ∃ specials, Applied binds specials binds' ∧
        ∀ p, p ∈ specials ↔ p ∈ specialPairs pairs) ∧
      (DeleteAllBody pairs → binds' = unbound) := by
    by_cases hdel : DeleteAllBody pairs
    · refine ⟨none, unbound, slipMapForeachCb_deleteAll hdel hparsed.specials, rfl, fun hup => ?_, fun _ => rfl⟩
      obtain ⟨p, hp, hdel⟩ := hdel
      have hmem : p ∈ pairs ∧ (!ordinary p.1) = true := List.mem_filter.1 (hp ▸ List.mem_singleton_self p)
      rcases hup.kinds p hmem.1 with hord | hd | ha
      · simp [hord] at hmem
      · exact absurd (ncaseEq_agree (by decide) (by decide) (binval_ncaseEq hdel.1) (hasPrefix_ncaseEq hd.1).2) (by decide)
      · exact absurd (ncaseEq_agree (by decide) (by decide) (binval_ncaseEq hdel.1) (hasPrefix_ncaseEq ha.1).2) (by decide)
    · obtain ⟨target, binds', hspecial, hholds, happlied, hmem⟩ :=
        slipMapForeachCb_specials hM (hkind.resolve_right hdel) hparsed.specials hsucceed.1
      exact ⟨target, binds', hspecial, hholds, fun _ => ⟨_, happlied, hmem⟩, fun h => absurd h hdel⟩
  obtain ⟨properties', hproperties, hholds'⟩ := putProperties_merge hparsed hspecial hholds hsucceed
  have hlayer' : layers putOp.layerName = some keyNodes := by rw [hparsed.layer, hlayer]
  have hop := handleOpRecordsPut_eq qbounds hlayer' (by rw [hparsed.key, hproperties])
  rw [hparsed.layer, hparsed.key] at hop
  exact ⟨putOp, ⟨putSlot qbounds ((keyNodes key).getD newKeyNode).slot putOp, properties', putExpirable putOp⟩,
    binds', hput, hop, hholds', hupdate, hall⟩

/-- A layer with one record of the properties of `m`. -/
def recordWith (m : Option SlipMap) : KeyNodes ℚ := Function.update (fun _ => none) (bytes "k") (some ⟨none, m, none⟩)

def layerWith (m : Option SlipMap) : Layers ℚ := Function.update (fun _ => none) (bytes "l") (some (recordWith m))

theorem recordWith_properties (m : Option SlipMap) : ((recordWith m (bytes "k")).getD newKeyNode).properties = m := by
  rw [recordWith, Function.update_self, Option.getD_some]

theorem layerWith_record (m : Option SlipMap) : layerWith m (bytes "l") = some (recordWith m) := Function.update_self ..

theorem numeral_of_printInt {text : Bytes} {n : Int} (h : text = printInt 10 n) : Numeral text n :=
  h ▸ Lib.numeral_printInt n

end Pincaster
