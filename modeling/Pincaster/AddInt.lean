import Pincaster.Serving
import Mathlib.Algebra.Ring.Int.Defs
/-!
# AddInt — what `_add_int` adds

The operands are admitted by the lengths of their texts and read into 64 bits.  A request adds exactly when both fit, or
their excesses cancel, and the sum fits, and the map of the record has room for its text (`add_int_exact_iff`).
-/
namespace Pincaster

open Lib (Bytes bytes Numeral IsIntmax saturate strtol printInt walk Along unbound)

variable {D : Type}

/-! ## Sums -/

/-- **Both operands and the sum fit**, or the excesses of the operands over opposite bounds cancel. -/
def ExactSum (n d : Int) : Prop :=
  IsIntmax n ∧ IsIntmax d ∧ IsIntmax (n + d) ∨ ¬ IsIntmax n ∧ ¬ IsIntmax d ∧ n + d = -1

/-- The number that is printed. -/
def addedValue (n d : Int) : Int := toIntmax (saturate n + saturate d)

/-- **The saturated operands have the sum of the operands exactly then**; a sum that wraps is never the first one. -/
theorem addedValue_eq_iff (n d : Int) : addedValue n d = n + d ∨ addedValue n d = n ↔ ExactSum n d := by
  unfold addedValue toIntmax ExactSum IsIntmax saturate
  rw [Int.bmod_def]
  split <;> omega

theorem ExactSum.addedValue {n d : Int} (h : ExactSum n d) : addedValue n d = n + d := by
  unfold ExactSum IsIntmax at h
  unfold Pincaster.addedValue toIntmax saturate
  rw [Int.bmod_def]
  split <;> omega

/-! ## One request -/

/-- The text `find_in_slip_map` finds. -/
def textOf (m : Option SlipMap) (name : Bytes) : Option Bytes :=
  m.bind (fun slipMap => (findInSlipMap slipMap name).join)

theorem textOf_holds {m : Option SlipMap} {binds : Bytes → Option Bytes} (h : Holds m binds) (name : Bytes) :
    textOf m name = binds name := by
  cases m with
  | none =>
    obtain rfl : binds = unbound := h
    rfl
  | some slip =>
    obtain ⟨ts, href⟩ := h
    rw [textOf, Option.bind_some, href.find, Option.join_some]

/-- **A parsed request that adds `d`** to a property, whose value the code admits. -/
structure AddIntOp (layerName key : Key) (name : Bytes) (putOp : RecordsPutOp D) (d : Int) : Prop where
  layer : putOp.layerName = layerName
  key : putOp.key = key
  properties : putOp.properties = none
  special : ∃ k value, Holds putOp.specialProperties (Function.update unbound k (some value)) ∧
    hasPrefix k INT_PROPERTY_ADD_INT_PREFIX = true ∧ k.drop INT_PROPERTY_ADD_INT_PREFIX.length = name ∧
    Numeral value d ∧ value.length < sizeofNumber

/-- The request leaves the exact sum, or the text that was there. -/
def AddsExactly [Dimension D] (qbounds : Rectangle2D D) (name : Bytes) (layers : Layers D) (putOp : RecordsPutOp D)
    (d : Int) : Prop :=
  ∀ text n, textOf (propertiesOf layers putOp.layerName putOp.key) name = some text → Numeral text n →
    ∃ layers' text', handleOpRecordsPut qbounds putOp layers = some (0, layers') ∧
      textOf (propertiesOf layers' putOp.layerName putOp.key) name = some text' ∧ (Numeral text' (n + d) ∨ text' = text)

/-- The text that is there is too long to be a number, or the sum is exact and the map has room for it. -/
def SumFits (name : Bytes) (layers : Layers D) (putOp : RecordsPutOp D) (d : Int) : Prop :=
  ∀ text n, textOf (propertiesOf layers putOp.layerName putOp.key) name = some text → Numeral text n →
    sizeofNumber ≤ text.length ∨
      ExactSum n d ∧ Stored (propertiesOf layers putOp.layerName putOp.key) name (printInt 10 (n + d))

/-- The text an addition leaves: none when there is no room for it. -/
def addedText (target : Option SlipMap) (name text : Bytes) (n d : Int) : Option Bytes :=
  if sizeofNumber ≤ text.length then some text
  else if Stored target name (printInt 10 (addedValue n d)) then some (printInt 10 (addedValue n d)) else none

/-- **`_add_int:` on a property that holds an integer.** -/
theorem applyAddInt_text {target : SlipMap} {binds : Bytes → Option Bytes} (h : Holds (some target) binds)
    {name text value : Bytes} {n d : Int} (hname : KeyLen name) (htext : binds name = some text) (hn : Numeral text n)
    (hd : Numeral value d) (hshort : value.length < sizeofNumber) : ∃ target' binds',
    applyAddInt (some target) name value = some (0, some target') ∧ Holds (some target') binds' ∧
      binds' name = addedText (some target) name text n d := by
  have hguard : ¬ (value.length ≤ 0 ∨ value.head? = some 0 ∨ value.length ≥ sizeofNumber) := by
    rintro (hlen | hhead | hlong)
    · exact hd.ne_nil (List.eq_nil_of_length_eq_zero (by omega))
    · exact hd.head_ne_zero hhead
    · omega
  unfold applyAddInt addedText
  rw [if_neg hguard, numValueOf_holds h, htext, Option.getD_some]
  simp only [Option.bind_eq_bind, Option.bind_some]
  by_cases hlong : sizeofNumber ≤ text.length
  · rw [if_pos hlong, if_pos hlong]
    exact ⟨target, binds, rfl, h, htext⟩
  · rw [if_neg hlong, if_neg hlong, Lib.strtol_numeral hn, Lib.strtol_numeral hd]
    have hsum : (printInt 10 (addedValue n d)).length ≤ 0xffff :=
      (Lib.length_printInt_le (isIntmax_toIntmax _)).trans (by decide)
    obtain ⟨ts, href⟩ := h
    obtain ⟨target', ret, hrep, -, ts', href'⟩ := href.replace hname hsum
    have hstored : Stored (some target) name (printInt 10 (addedValue n d)) ↔ ret = 0 := by
      simp [Stored, mapOrNew, hrep]
    refine ⟨target', _, by rw [← addedValue, hrep]; rfl, ⟨ts', href'⟩, ?_⟩
    simp only [if_true, hstored]

/-- **One request** on a record with the property. -/
theorem putProperties_addInt {properties : Option SlipMap} {binds : Bytes → Option Bytes} (h : Holds properties binds)
    {layerName key : Key} {name text : Bytes} {putOp : RecordsPutOp D} {n d : Int}
    (hop : AddIntOp layerName key name putOp d) (htext : binds name = some text) (hn : Numeral text n) :
    ∃ target' binds', putProperties properties putOp = some (some target') ∧ Holds (some target') binds' ∧
      binds' name = addedText properties name text n d := by
  obtain ⟨k, value, hspecial, hstart, rfl, hd, hshort⟩ := hop.special
  have hvisited : visited putOp.specialProperties = [(k, value)] := by
    have hmem : ∀ p, p ∈ visited putOp.specialProperties ↔ p = (k, value) := by
      rintro ⟨k', v'⟩
      rw [hspecial.mem_visited, Function.update_apply, Prod.mk.injEq]
      split
      · rename_i hk
        simp [hk, eq_comm]
      · rename_i hk
        simp [hk, unbound]
    exact List.perm_singleton.1 ((List.perm_ext_iff_of_nodup (List.Nodup.of_map _ hspecial.nodup)
      (List.nodup_singleton _)).2 (fun p => by rw [hmem, List.mem_singleton]))
  have hkey : KeyLen k := (hspecial.keyLen (show (k, value) ∈ visited putOp.specialProperties by simp [hvisited])).1
  cases properties with
  | none =>
    obtain rfl : binds = unbound := h
    cases htext
  | some target =>
    obtain ⟨target', binds', happly, hholds, hbound⟩ := applyAddInt_text h (keyLen_drop hkey hstart) htext hn hd hshort
    have hhead : k.head? = some INT_PROPERTY_COMMON_PREFIX := by
      simpa [ordinary] using not_ordinary (by decide) (by decide) (hasPrefix_ncaseEq hstart).2
    obtain ⟨hnodel, hnoall⟩ := deletion_excludes_addition hstart
    have hcb : recordsPutApplySpecialPropertiesCb (some target) k value = some (0, some target') := by
      rw [recordsPutApplySpecialPropertiesCb, if_neg (fun e => e hhead), hnodel, hnoall, if_neg Bool.false_ne_true,
        if_neg Bool.false_ne_true, if_pos hstart, happly]
    refine ⟨target', binds', ?_, hholds, hbound⟩
    rw [putProperties, hspecial.foreach, hvisited, hop.properties]
    simp only [walk, hcb]
    rfl

/-- The properties the worker leaves. -/
theorem handleOpRecordsPut_addInt [Dimension D] (qbounds : Rectangle2D D) {layers : Layers D} {layerName key : Key}
    {name text : Bytes} {putOp : RecordsPutOp D} {n d : Int} (hop : AddIntOp layerName key name putOp d)
    (hwf : WellFormed (propertiesOf layers layerName key))
    (htext : textOf (propertiesOf layers layerName key) name = some text) (hn : Numeral text n) :
    ∃ layers', handleOpRecordsPut qbounds putOp layers = some (0, layers') ∧
      WellFormed (propertiesOf layers' layerName key) ∧
      textOf (propertiesOf layers' layerName key) name =
        addedText (propertiesOf layers layerName key) name text n d := by
  obtain ⟨binds, hholds⟩ := hwf
  obtain ⟨keyNodes, keyNode, hlayer, hkey⟩ : ∃ keyNodes keyNode, layers layerName = some keyNodes ∧
      keyNodes key = some keyNode := by
    cases hlayer : layers layerName with
    | none => simp [propertiesOf, hlayer, textOf] at htext
    | some keyNodes =>
      cases hkey : keyNodes key with
      | none => simp [propertiesOf, hlayer, hkey, textOf] at htext
      | some keyNode => exact ⟨keyNodes, keyNode, rfl, hkey⟩
  have hproperties : propertiesOf layers layerName key = keyNode.properties := by simp [propertiesOf, hlayer, hkey]
  rw [hproperties] at hholds htext ⊢
  rw [textOf_holds hholds] at htext
  obtain ⟨target', binds', hput, hholds', hbound⟩ := putProperties_addInt hholds hop htext hn
  have heq := handleOpRecordsPut_eq qbounds (show layers putOp.layerName = some keyNodes by
    rw [hop.layer, hlayer]) (show putProperties ((keyNodes putOp.key).getD newKeyNode).properties putOp = _ by
    rw [hop.key, hkey, Option.getD_some, hput])
  refine ⟨_, heq, ?_⟩
  rw [propertiesOf, hop.layer, hop.key, Function.update_self, Option.bind_some, Function.update_self, Option.bind_some]
  exact ⟨⟨binds', hholds'⟩, by rw [textOf_holds hholds', hbound]⟩

/-! ## Sequences -/

/-- The record has its properties in order, and an integer in one of them. -/
structure HasInteger (layers : Layers D) (layerName key : Key) (name : Bytes) (n : Int) : Prop where
  properties : WellFormed (propertiesOf layers layerName key)
  integer : ∃ text, textOf (propertiesOf layers layerName key) name = some text ∧ Numeral text n

/-- **One request adds exactly just when its sum fits.** -/
theorem addsExactly_iff [Dimension D] (qbounds : Rectangle2D D) {layers : Layers D} {layerName key : Key} {name : Bytes}
    {putOp : RecordsPutOp D} {n d : Int} (hop : AddIntOp layerName key name putOp d)
    (h : HasInteger layers layerName key name n) :
    (AddsExactly qbounds name layers putOp d ↔ SumFits name layers putOp d) ∧
    (AddsExactly qbounds name layers putOp d → ∃ layers', handleOpRecordsPut qbounds putOp layers = some (0, layers') ∧
      ∃ n', HasInteger layers' layerName key name n') := by
  obtain ⟨hwf, text, htext, hn⟩ := h
  obtain ⟨layers', hput, hwf', htext'⟩ := handleOpRecordsPut_addInt qbounds hop hwf htext hn
  have hlaw : AddsExactly qbounds name layers putOp d ↔
      ∃ text', addedText (propertiesOf layers layerName key) name text n d = some text' ∧
        (Numeral text' (n + d) ∨ text' = text) := by
    unfold AddsExactly
    rw [hop.layer, hop.key]
    constructor
    · intro h
      obtain ⟨layers₁, text', hput₁, htext₁, hsum⟩ := h text n htext hn
      obtain ⟨-, rfl⟩ := Prod.mk.inj (Option.some.inj (hput.symm.trans hput₁))
      exact ⟨text', htext'.symm.trans htext₁, hsum⟩
    · rintro ⟨text', htext₁, hsum⟩ text₀ n₀ htext₀ hn₀
      obtain rfl := Option.some.inj (htext.symm.trans htext₀)
      obtain rfl := hn.unique hn₀
      exact ⟨layers', text', hput, htext'.trans htext₁, hsum⟩
  have hfits : SumFits name layers putOp d ↔ sizeofNumber ≤ text.length ∨
      ExactSum n d ∧ Stored (propertiesOf layers layerName key) name (printInt 10 (n + d)) := by
    unfold SumFits
    rw [hop.layer, hop.key]
    refine ⟨fun h => h text n htext hn, fun h text₀ n₀ htext₀ hn₀ => ?_⟩
    obtain rfl := Option.some.inj (htext.symm.trans htext₀)
    obtain rfl := hn.unique hn₀
    exact h
  rw [hlaw, hfits]
  unfold addedText
  by_cases hlong : sizeofNumber ≤ text.length
  · rw [if_pos hlong]
    exact ⟨⟨fun _ => .inl hlong, fun _ => ⟨text, rfl, .inr rfl⟩⟩, fun _ => ⟨layers', hput, n, hwf', text, by
      rw [htext', addedText, if_pos hlong], hn⟩⟩
  · rw [if_neg hlong]
    refine ⟨?_, ?_⟩
    · constructor
      · rintro ⟨text', hstored, hsum⟩
        split at hstored
        · rename_i hroom
          obtain rfl := Option.some.inj hstored
          have hexact : ExactSum n d := by
            refine (addedValue_eq_iff n d).1 (hsum.imp (Lib.numeral_printInt _).unique fun h => ?_)
            rw [← h] at hn
            exact (Lib.numeral_printInt _).unique hn
          exact .inr ⟨hexact, hexact.addedValue ▸ hroom⟩
        · cases hstored
      · rintro (h | ⟨hexact, hroom⟩)
        · exact absurd h hlong
        · rw [hexact.addedValue, if_pos hroom]
          exact ⟨_, rfl, .inl (Lib.numeral_printInt _)⟩
    · rintro ⟨text', hstored, hsum⟩
      refine ⟨layers', hput, addedValue n d, hwf', printInt 10 (addedValue n d), ?_, Lib.numeral_printInt _⟩
      rw [htext', addedText, if_neg hlong]
      split at hstored
      · rename_i hroom
        rw [if_pos hroom]
      · cases hstored

theorem ExactSum.isIntmax {n d : Int} (h : ExactSum n d) : IsIntmax (n + d) := by
  obtain ⟨-, -, h⟩ | ⟨-, -, h⟩ := h
  · exact h
  · rw [h]
    decide

/-- A text that is too long stays, any other one is the sum so far. -/
def SumSoFar (text : Bytes) (total : Int) (text' : Bytes) : Prop :=
  sizeofNumber ≤ text.length ∧ text' = text ∨ text'.length < sizeofNumber ∧ Numeral text' total

/-- **One request whose sum fits.** -/
theorem SumFits.sumSoFar {layers : Layers D} {layerName key : Key} {name text text' : Bytes} {putOp : RecordsPutOp D}
    {n m d : Int} (h : SumFits name layers putOp d) (hop : AddIntOp layerName key name putOp d) (hn : Numeral text n)
    (htext' : textOf (propertiesOf layers layerName key) name = some text') (hinv : SumSoFar text m text') :
    ∃ m' text'', Numeral text' m' ∧ addedText (propertiesOf layers layerName key) name text' m' d = some text'' ∧
      SumSoFar text (m + d) text'' := by
  rcases hinv with ⟨hlong, rfl⟩ | ⟨hshort, hm⟩
  · exact ⟨n, text', hn, if_pos hlong, .inl ⟨hlong, rfl⟩⟩
  · unfold SumFits at h
    rw [hop.layer, hop.key] at h
    obtain ⟨hexact, hroom⟩ := (h text' m htext' hm).resolve_left (Nat.not_le.2 hshort)
    refine ⟨m, printInt 10 (m + d), hm, ?_, .inr ⟨?_, Lib.numeral_printInt _⟩⟩
    · rw [addedText, if_neg (Nat.not_le.2 hshort), hexact.addedValue, if_pos hroom]
    · exact Nat.lt_of_le_of_lt (Lib.length_printInt_le hexact.isIntmax) (by decide)

/-- **A sequence of requests adds exactly just when every sum along it fits**; what it leaves is the total, or the text
there was. -/
theorem add_int_exact_iff [Dimension D] (qbounds : Rectangle2D D) {layerName key : Key} {name text : Bytes} {n : Int}
    {ops : List (RecordsPutOp D × Int)} (hops : ∀ p ∈ ops, AddIntOp layerName key name p.1 p.2) {layers : Layers D}
    (hwf : WellFormed (propertiesOf layers layerName key)) (hn : Numeral text n)
    (htext : textOf (propertiesOf layers layerName key) name = some text) :
    (Along (fun layers putOp _ => handleOpRecordsPut qbounds putOp layers) (AddsExactly qbounds name) ops layers ↔
      Along (fun layers putOp _ => handleOpRecordsPut qbounds putOp layers) (SumFits name) ops layers) ∧
    (Along (fun layers putOp _ => handleOpRecordsPut qbounds putOp layers) (SumFits name) ops layers →
      ∃ layers' text',
        walk (fun layers putOp _ => handleOpRecordsPut qbounds putOp layers) ops layers = some (0, layers') ∧
        textOf (propertiesOf layers' layerName key) name = some text' ∧
        (Numeral text' (n + (ops.map Prod.snd).sum) ∨ text' = text)) := by
  constructor
  · refine Lib.along_congr (fun layers => ∃ n, HasInteger layers layerName key name n) ops (fun p hp layers hinv => ?_)
      layers ⟨n, hwf, text, htext, hn⟩
    obtain ⟨n, hinv⟩ := hinv
    obtain ⟨hiff, hnext⟩ := addsExactly_iff qbounds (hops p hp) hinv
    refine ⟨hiff, fun hok => ?_⟩
    obtain ⟨layers', hput, hinv'⟩ := hnext hok
    exact ⟨0, layers', hput, hinv'⟩
  · intro halong
    refine (Lib.walk_of_along (fun pre layers => WellFormed (propertiesOf layers layerName key) ∧
        ∃ text', textOf (propertiesOf layers layerName key) name = some text' ∧
          SumSoFar text (n + (pre.map Prod.snd).sum) text')
      ops (fun pre putOp d post layers hall hinv hok => ?_) ops [] layers rfl ⟨hwf, text, htext, ?_⟩ halong).elim ?_
    · have hop := hops (putOp, d) (by rw [hall]; simp)
      obtain ⟨hwf, text', htext', hinv⟩ := hinv
      obtain ⟨m, text'', hm, hadded, hinv'⟩ := SumFits.sumSoFar hok hop hn htext' hinv
      obtain ⟨layers', hput, hwf', htext''⟩ := handleOpRecordsPut_addInt qbounds hop hwf htext' hm
      refine ⟨layers', hput, hwf', text'', htext''.trans hadded, ?_⟩
      rw [List.map_append, List.sum_append, List.map_singleton, List.sum_singleton, ← add_assoc]
      exact hinv'
    · rw [List.map_nil, List.sum_nil, add_zero]
      exact (Nat.lt_or_ge text.length sizeofNumber).elim (fun h => .inr ⟨h, hn⟩) (fun h => .inl ⟨h, rfl⟩)
    · rintro layers' ⟨hwalk, -, text', htext', hlaw⟩
      exact ⟨layers', text', hwalk, htext', hlaw.elim (fun h => .inr h.2) (fun h => .inl h.2)⟩

/-! ## A sum that is clamped -/

/-- **A body with one addition is parsed** into such a request. -/
theorem queryParse_addInt [Dimension D] {body k value : Bytes} {d : Int} (layerName key : Key)
    (hbody : queryParse (body ++ [0]) collect [] = some (0, [(k, value)]))
    (hstart : hasPrefix k INT_PROPERTY_ADD_INT_PREFIX = true) (hd : Numeral value d)
    (hshort : value.length < sizeofNumber) (hs : Stored none k value) : ∃ putOp : RecordsPutOp D,
    queryParse (body ++ [0]) recordsPutOptParseCb (recordsPutOp layerName key) = some (0, putOp) ∧
      AddIntOp layerName key (k.drop INT_PROPERTY_ADD_INT_PREFIX.length) putOp d := by
  have hadd : Addition (k, value) := ⟨hstart, hshort, d, hd⟩
  have hne : k ≠ [] := List.ne_nil_of_length_pos hs.keyLen.1.1
  obtain ⟨slip, hput, hholds⟩ := putProperty_stored (show Holds none unbound from rfl) hs
  have hcb : recordsPutOptParseCb (recordsPutOp layerName key : RecordsPutOp D) k value =
      some (0, { recordsPutOp layerName key with specialProperties := some slip }) :=
    recordsPutOptParseCb_special hadd.special.2 hadd.special.1 hne hput
  exact ⟨_, by rw [queryParse_walk hbody, walk, hcb]; rfl, rfl, rfl, rfl, k, value, hholds, hstart, rfl, hd, hshort⟩

/-- A layer with one record, which has one property. -/
theorem oneProperty {name text : Bytes} (hs : Stored none name text) : ∃ layers : Layers ℚ,
    WellFormed (propertiesOf layers (bytes "l") (bytes "k")) ∧
      textOf (propertiesOf layers (bytes "l") (bytes "k")) name = some text ∧
      propertiesOf layers (bytes "l") (bytes "k") = (putProperty none name text).join := by
  have hholds := (show Holds none unbound from rfl).put hs
  have hproperties : propertiesOf (Function.update (fun _ => none) (bytes "l") (some (Function.update (fun _ => none)
      (bytes "k") (some ⟨none, (putProperty none name text).join, none⟩))) : Layers ℚ) (bytes "l") (bytes "k") =
      (putProperty none name text).join := by
    rw [propertiesOf, Function.update_self, Option.bind_some, Function.update_self, Option.bind_some]
  refine ⟨_, hproperties ▸ ⟨_, hholds⟩, ?_, hproperties⟩
  rw [hproperties, textOf_holds hholds, Function.update_self]

/-- A request on a property that holds 5. -/
theorem add_int_once : ∃ (putOp : RecordsPutOp ℚ) (layers layers' : Layers ℚ) (text' : Bytes),
    queryParse (bytes "_add_int:n=7" ++ [0]) recordsPutOptParseCb (recordsPutOp (bytes "l") (bytes "k")) =
        some (0, putOp) ∧
      textOf (propertiesOf layers (bytes "l") (bytes "k")) (bytes "n") = some (bytes "5") ∧
      walk (fun layers putOp (_ : Int) => handleOpRecordsPut ⟨⟨-180, -180⟩, ⟨180, 180⟩⟩ putOp layers) [(putOp, 7)]
        layers = some (0, layers') ∧
      textOf (propertiesOf layers' (bytes "l") (bytes "k")) (bytes "n") = some text' ∧
      (Numeral text' 12 ∨ text' = bytes "5") := by
  have hfive : Stored none (bytes "n") (bytes "5") := by decide +kernel
  obtain ⟨layers, hwf, htext, hproperties⟩ := oneProperty hfive
  have hn : Numeral (bytes "5") 5 := numeral_of_printInt (by decide +kernel)
  obtain ⟨putOp, hparse, hop⟩ := queryParse_addInt (D := ℚ) (bytes "l") (bytes "k")
    (show queryParse (bytes "_add_int:n=7" ++ [0]) collect [] = some (0, [(bytes "_add_int:n", bytes "7")]) by
      decide +kernel)
    (by decide +kernel) (numeral_of_printInt (show bytes "7" = printInt 10 7 by decide +kernel)) (by decide +kernel)
    (by decide +kernel)
  rw [show (bytes "_add_int:n").drop INT_PROPERTY_ADD_INT_PREFIX.length = bytes "n" by decide +kernel] at hop
  have hops : ∀ p ∈ [(putOp, (7 : Int))], AddIntOp (bytes "l") (bytes "k") (bytes "n") p.1 p.2 := by simpa using hop
  have hfits : SumFits (bytes "n") layers putOp 7 := by
    unfold SumFits
    rw [hop.layer, hop.key]
    intro text n htext' hn'
    obtain rfl := Option.some.inj (htext.symm.trans htext')
    obtain rfl := hn.unique hn'
    refine .inr ⟨by unfold ExactSum; decide, ?_⟩
    rw [hproperties]
    decide +kernel
  obtain ⟨layers₁, hput, -⟩ := handleOpRecordsPut_addInt ⟨⟨-180, -180⟩, ⟨180, 180⟩⟩ hop hwf htext hn
  obtain ⟨layers', text', hwalk, htext', hsum⟩ :=
    (add_int_exact_iff ⟨⟨-180, -180⟩, ⟨180, 180⟩⟩ hops hwf hn htext).2 ⟨hfits, by simp only [hput]; trivial⟩
  exact ⟨putOp, layers, layers', text', hparse, htext, hwalk, htext', hsum⟩

/-- **A sum that is clamped**: the value added is the first one out of the range of `intmax_t`. -/
theorem add_int_clamped : ∃ (putOp : RecordsPutOp ℚ) (layers layers' : Layers ℚ),
    queryParse (bytes "_add_int:n=9223372036854775808" ++ [0]) recordsPutOptParseCb
        (recordsPutOp (bytes "l") (bytes "k")) = some (0, putOp) ∧
      AddIntOp (bytes "l") (bytes "k") (bytes "n") putOp 9223372036854775808 ∧
      WellFormed (propertiesOf layers (bytes "l") (bytes "k")) ∧
      textOf (propertiesOf layers (bytes "l") (bytes "k")) (bytes "n") = some (bytes "0") ∧ Numeral (bytes "0") 0 ∧
      handleOpRecordsPut ⟨⟨-180, -180⟩, ⟨180, 180⟩⟩ putOp layers = some (0, layers') ∧
      textOf (propertiesOf layers' (bytes "l") (bytes "k")) (bytes "n") = some (bytes "9223372036854775807") ∧
      ¬ AddsExactly ⟨⟨-180, -180⟩, ⟨180, 180⟩⟩ (bytes "n") layers putOp 9223372036854775808 := by
  have hzero : Stored none (bytes "n") (bytes "0") := by decide +kernel
  obtain ⟨layers, hwf, htext, hproperties⟩ := oneProperty hzero
  have hn : Numeral (bytes "0") 0 := numeral_of_printInt (by decide +kernel)
  have hd : Numeral (bytes "9223372036854775808") 9223372036854775808 := numeral_of_printInt (by decide +kernel)
  obtain ⟨putOp, hparse, hop⟩ := queryParse_addInt (D := ℚ) (bytes "l") (bytes "k")
    (show queryParse (bytes "_add_int:n=9223372036854775808" ++ [0]) collect [] =
      some (0, [(bytes "_add_int:n", bytes "9223372036854775808")]) by decide +kernel)
    (by decide +kernel) hd (by decide +kernel) (by decide +kernel)
  rw [show (bytes "_add_int:n").drop INT_PROPERTY_ADD_INT_PREFIX.length = bytes "n" by decide +kernel] at hop
  obtain ⟨layers', hput, -, htext'⟩ := handleOpRecordsPut_addInt ⟨⟨-180, -180⟩, ⟨180, 180⟩⟩ hop hwf htext hn
  have hadded : addedText (propertiesOf layers (bytes "l") (bytes "k")) (bytes "n") (bytes "0") 0 9223372036854775808 =
      some (bytes "9223372036854775807") := by
    rw [hproperties]
    unfold addedText
    decide +kernel
  refine ⟨putOp, layers, layers', hparse, hop, hwf, htext, hn, hput, htext'.trans hadded, fun hlaw => ?_⟩
  have hfits := (addsExactly_iff _ hop ⟨hwf, _, htext, hn⟩).1.1 hlaw
  unfold SumFits at hfits
  rw [hop.layer, hop.key] at hfits
  rcases hfits _ _ htext hn with hlong | ⟨hexact, -⟩
  · exact absurd hlong (by decide)
  · exact absurd hexact (by unfold ExactSum; decide)

end Pincaster
