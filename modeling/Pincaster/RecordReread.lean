import Pincaster.DumpJournal
import Pincaster.LinkTraversal
import Pincaster.PutFrame
import Pincaster.PutStored
/-!
# RecordReread — a dumped record, put again

The PUT of a dumped record reads the names of the properties anew: `_loc` and `_expires_at` are fields there, the other
names that start with an underscore are special properties, and only what is left makes a map again.  Of every field the
last pair counts (`walk_fields`), which is that of the dump when the record has the field.
-/
namespace Pincaster

open Lib (Bytes bytes cstr walk)

variable {D : Type}

/-! ## The last pair of a field -/

/-- The value of the last pair with a name. -/
def lastNamed (names : Bytes × Bytes → Bool) (ps : List (Bytes × Bytes)) : Option Bytes :=
  ((ps.filter names).getLast?).map Prod.snd

theorem lastNamed_append (names : Bytes × Bytes → Bool) (ps qs : List (Bytes × Bytes)) :
    lastNamed names (ps ++ qs) = (lastNamed names qs).or (lastNamed names ps) := by
  unfold lastNamed
  rw [List.filter_append, List.getLast?_append]
  cases (qs.filter names).getLast? <;> rfl

theorem lastNamed_cons (names : Bytes × Bytes → Bool) (p : Bytes × Bytes) (ps : List (Bytes × Bytes)) :
    lastNamed names (p :: ps) = (lastNamed names ps).or (if names p then some p.2 else none) := by
  rw [← List.singleton_append, lastNamed_append]
  cases h : names p <;> simp [lastNamed, h]

/-- A name that is special, and of no field. -/
def isSpecial (p : Bytes × Bytes) : Bool := !ordinary p.1 && !namesPosition p && !namesExpiration p

theorem ordinary_of_field {p : Bytes × Bytes} (h : namesPosition p = true ∨ namesExpiration p = true) :
    ordinary p.1 = false := by
  rcases h with h | h
  · exact not_ordinary (by decide) (by decide) (binval_ncaseEq h)
  · exact not_ordinary (by decide) (by decide) (binval_ncaseEq h)

/-! ## What the parser makes of the pairs -/

section
variable [Dimension D]

/-- The position that a value is read as. -/
def valuePosition (value : Bytes) : Position2D D := (parsePosition (recordsPutOp [] []) value).2.position

theorem parsePosition_snd (putOp : RecordsPutOp D) {value : Bytes} (h : (parsePosition putOp value).1 = 0) :
    (parsePosition putOp value).2 = { putOp with position := valuePosition value, positionSet := true } := by
  have hfail : ((-1 : Int) = 0) → False := by decide
  unfold valuePosition parsePosition at *
  simp only at *
  repeat' split
  all_goals simp_all

/-- **What the pairs of a body leave of an operation**: of each field the last pair, and the other pairs in their maps. -/
structure FieldsRead (ps : List (Bytes × Bytes)) (putOp putOp' : RecordsPutOp D) : Prop where
  layerName : putOp'.layerName = putOp.layerName
  key : putOp'.key = putOp.key
  positionSet : putOp'.positionSet = ((lastNamed namesPosition ps).isSome || putOp.positionSet)
  position : putOp'.position = ((lastNamed namesPosition ps).map valuePosition).getD putOp.position
  expiresAt : putOp'.expiresAt = ((lastNamed namesExpiration ps).map valueTime).getD putOp.expiresAt
  properties : replaceAll (ps.filter (fun p => ordinary p.1)) putOp.properties = some putOp'.properties
  specials : replaceAll (ps.filter isSpecial) putOp.specialProperties = some putOp'.specialProperties

theorem replaceAll_append : ∀ (ps qs : List (Bytes × Bytes)) (m : Option SlipMap),
    replaceAll (ps ++ qs) m = (replaceAll ps m).bind (replaceAll qs)
  | [], _, _ => rfl
  | (key, value) :: ps, qs, m => by
    rw [List.cons_append, replaceAll, replaceAll]
    simp only [Option.bind_eq_bind, Option.bind_assoc]
    exact congrArg _ (funext fun slip => congrArg _ (funext fun r => replaceAll_append ps qs (some r.1)))

/-- One replacement. -/
theorem replaceAll_singleton (key value : Bytes) (m : Option SlipMap) :
    replaceAll [(key, value)] m = putProperty m key value := by
  rw [putProperty_eq, replaceAll]
  simp only [replaceAll, Option.bind_eq_bind]
  exact congrArg _ (funext fun slip => by cases replaceEntryInSlipMap slip key value <;> rfl)

theorem FieldsRead.trans {ps qs : List (Bytes × Bytes)} {a b c : RecordsPutOp D} (h : FieldsRead ps a b)
    (h' : FieldsRead qs b c) : FieldsRead (ps ++ qs) a c := by
  refine ⟨h'.layerName.trans h.layerName, h'.key.trans h.key, ?_, ?_, ?_, ?_, ?_⟩
  · rw [h'.positionSet, h.positionSet, lastNamed_append]
    cases lastNamed namesPosition qs <;> rfl
  · rw [h'.position, h.position, lastNamed_append]
    cases lastNamed namesPosition qs <;> rfl
  · rw [h'.expiresAt, h.expiresAt, lastNamed_append]
    cases lastNamed namesExpiration qs <;> rfl
  · rw [List.filter_append, replaceAll_append, h.properties, Option.bind_some, h'.properties]
  · rw [List.filter_append, replaceAll_append, h.specials, Option.bind_some, h'.specials]

/-- **One pair.** -/
theorem recordsPutOptParseCb_fields {putOp putOp' : RecordsPutOp D} {p : Bytes × Bytes}
    (hcb : recordsPutOptParseCb putOp p.1 p.2 = some (0, putOp')) : FieldsRead [p] putOp putOp' := by
  have hposition : ∀ names : Bytes × Bytes → Bool, lastNamed names [p] = if names p then some p.2 else none := fun names =>
    (lastNamed_cons names p []).trans (Option.none_or)
  have hfilter : ∀ keep : Bytes × Bytes → Bool, [p].filter keep = if keep p then [p] else [] := fun keep => by
    cases h : keep p <;> simp [h]
  unfold recordsPutOptParseCb at hcb
  split at hcb
  · rename_i hloc
    have hloc : namesPosition p = true := hloc
    have hexpires := namesExpiration_of_position hloc
    have hordinary := ordinary_of_field (.inl hloc)
    have hspecial : isSpecial p = false := by simp [isSpecial, hloc]
    have hret := congrArg Prod.fst (Option.some.inj hcb)
    have hop := congrArg Prod.snd (Option.some.inj hcb)
    rw [parsePosition_snd putOp hret] at hop
    subst hop
    refine ⟨rfl, rfl, ?_, ?_, ?_, ?_, ?_⟩
    all_goals simp [hposition, hfilter, hloc, hexpires, hordinary, hspecial, replaceAll]
  · rename_i hloc
    have hloc : namesPosition p = false := Bool.eq_false_iff.2 hloc
    split at hcb
    · rename_i hexpires
      have hexpires : namesExpiration p = true := hexpires
      have hordinary := ordinary_of_field (.inr hexpires)
      have hspecial : isSpecial p = false := by simp [isSpecial, hexpires]
      have hop := congrArg Prod.snd (Option.some.inj hcb)
      rw [parseExpiresAt_snd] at hop
      subst hop
      refine ⟨rfl, rfl, ?_, ?_, ?_, ?_, ?_⟩
      all_goals simp [hposition, hfilter, hloc, hexpires, hordinary, hspecial, replaceAll]
    · rename_i hexpires
      have hexpires : namesExpiration p = false := Bool.eq_false_iff.2 hexpires
      obtain ⟨key, value⟩ := p
      cases key with
      | nil => cases hcb
      | cons c key =>
        simp only at hcb
        split at hcb
        · rename_i hc
          have hordinary : ordinary (c :: key) = false := by simp [ordinary, hc]
          have hspecial : isSpecial (c :: key, value) = true := by simp [isSpecial, hordinary, hloc, hexpires]
          obtain ⟨r, hput, hcb⟩ := Option.map_eq_some_iff.1 hcb
          cases r with
          | none => cases hcb
          | some slipMap =>
            cases hcb
            refine ⟨rfl, rfl, ?_, ?_, ?_, ?_, ?_⟩
            all_goals simp [hposition, hfilter, hloc, hexpires, hordinary, hspecial, replaceAll_singleton, hput, replaceAll]
        · rename_i hc
          have hordinary : ordinary (c :: key) = true := by simp [ordinary, hc]
          have hspecial : isSpecial (c :: key, value) = false := by simp [isSpecial, hordinary]
          obtain ⟨r, hput, hcb⟩ := Option.map_eq_some_iff.1 hcb
          cases r with
          | none => cases hcb
          | some slipMap =>
            cases hcb
            refine ⟨rfl, rfl, ?_, ?_, ?_, ?_, ?_⟩
            all_goals simp [hposition, hfilter, hloc, hexpires, hordinary, hspecial, replaceAll_singleton, hput, replaceAll]

/-- **The pairs of a body**, one after the other. -/
theorem walk_fields : ∀ {ps : List (Bytes × Bytes)} {putOp putOp' : RecordsPutOp D},
    walk recordsPutOptParseCb ps putOp = some (0, putOp') → FieldsRead ps putOp putOp'
  | [], putOp, putOp', h => by
    obtain rfl : putOp = putOp' := congrArg Prod.snd (Option.some.inj h)
    exact ⟨rfl, rfl, rfl, rfl, rfl, rfl, rfl⟩
  | p :: ps, putOp, putOp', h => by
    rw [walk] at h
    obtain ⟨⟨ret, putOp₁⟩, hcb, hrest⟩ := Option.bind_eq_some_iff.1 h
    dsimp only at hrest
    split at hrest
    · rename_i hret
      exact absurd (congrArg Prod.fst (Option.some.inj hrest)) hret
    · rename_i hret
      rw [not_not.1 hret] at hcb
      exact (recordsPutOptParseCb_fields hcb).trans (walk_fields hrest)

end

/-! ## The pairs of a dumped record -/

/-- The pairs as the parser sees them when it reads the dump. -/
def reread (ps : List (Bytes × Bytes)) : List (Bytes × Bytes) := ps.filterMap parsed

theorem readBack_walk {σ : Type} {cb : σ → Bytes → Bytes → Option (Int × σ)} : ∀ {ps : List (Bytes × Bytes)}
    {context context' : σ}, readBack cb ps context = some (0, context') → walk cb (reread ps) context = some (0, context')
  | [], _, _, h => h
  | p :: ps, context, context', h => by
    rw [readBack] at h
    cases hq : parsed p with
    | none =>
      rw [hq] at h
      cases h
    | some q =>
      rw [hq] at h
      obtain ⟨⟨ret, context₁⟩, hcb, hrest⟩ := Option.bind_eq_some_iff.1 h
      dsimp only at hrest
      split at hrest
      · cases hrest
      · rename_i hret
        rw [reread, List.filterMap_cons, hq, walk]
        simp only [hcb, Option.bind_eq_bind, Option.bind_some, if_neg hret]
        exact readBack_walk hrest

section
variable {context : DumpContext D}

theorem namesPosition_position (value : Bytes) : namesPosition (INT_PROPERTY_POSITION, value) = true :=
  have h : binvalIsEqualToConstString INT_PROPERTY_POSITION INT_PROPERTY_POSITION = true := by decide
  h

theorem namesExpiration_expiresAt (value : Bytes) : namesExpiration (INT_PROPERTY_EXPIRES_AT, value) = true :=
  have h : binvalIsEqualToConstString INT_PROPERTY_EXPIRES_AT INT_PROPERTY_EXPIRES_AT = true := by decide
  h

theorem namesPosition_expiresAt (value : Bytes) : namesPosition (INT_PROPERTY_EXPIRES_AT, value) = false :=
  have h : binvalIsEqualToConstString INT_PROPERTY_EXPIRES_AT INT_PROPERTY_POSITION = false := by decide
  h

/-- The fields are read as they are written. -/
theorem reread_fieldPairs [Dimension D] (hprint : ∀ d, PrintedNumber D (context.printDouble d)) (record : DumpedRecord D) :
    reread (fieldPairs context record) = fieldPairs context record := by
  have hposition : ∀ position : Position2D D, parsed (INT_PROPERTY_POSITION, positionText context position) =
      some (INT_PROPERTY_POSITION, positionText context position) := fun position => by
    refine parsed_field (by decide) ?_
    unfold positionText
    simp only [List.mem_append, List.mem_cons, not_or]
    exact ⟨(hprint _).not_mem.2.1, by decide, (hprint _).not_mem.2.1⟩
  have hexpires : ∀ ts, parsed (INT_PROPERTY_EXPIRES_AT, expiresAtText ts) =
      some (INT_PROPERTY_EXPIRES_AT, expiresAtText ts) := fun ts => by
    have hdigit : ∀ c ∈ expiresAtText ts, Lib.isDigitOf 10 c = true := Lib.isDigitOf_printNat (by omega) (by omega) _
    exact parsed_field (by decide) (fun h => absurd (hdigit 43 h) (by decide))
  unfold reread fieldPairs
  cases record.position <;> cases record.expiresAt <;> simp [hposition, hexpires]

variable (context) in
/-- The last pairs of the fields are those of the record. -/
theorem lastNamed_fieldPairs (record : DumpedRecord D) :
    lastNamed namesPosition (fieldPairs context record) = record.position.map (positionText context) ∧
    lastNamed namesExpiration (fieldPairs context record) = record.expiresAt.map expiresAtText := by
  have hexpiration : ∀ value, namesExpiration (INT_PROPERTY_POSITION, value) = false := fun value =>
    namesExpiration_of_position (namesPosition_position value)
  unfold fieldPairs lastNamed
  cases record.position <;> cases record.expiresAt <;>
    simp [namesPosition_position, namesPosition_expiresAt, namesExpiration_expiresAt, hexpiration]

variable (context) in
/-- The fields go to no map. -/
theorem filter_fieldPairs (record : DumpedRecord D) :
    (fieldPairs context record).filter (fun p => ordinary p.1) = [] ∧ (fieldPairs context record).filter isSpecial = [] := by
  have hfield : ∀ p ∈ fieldPairs context record, namesPosition p = true ∨ namesExpiration p = true := fun p hp => by
    rcases List.mem_append.1 hp with hp | hp
    · obtain ⟨position, -, rfl⟩ := List.mem_map.1 hp
      exact .inl (namesPosition_position _)
    · obtain ⟨ts, -, rfl⟩ := List.mem_map.1 hp
      exact .inr (namesExpiration_expiresAt _)
  refine ⟨List.filter_eq_nil_iff.2 (fun p hp => ?_), List.filter_eq_nil_iff.2 (fun p hp => ?_)⟩
  · rw [ordinary_of_field (hfield p hp)]
    exact Bool.false_ne_true
  · rcases hfield p hp with h | h <;> simp [isSpecial, h]

end

/-! ## Properties that make a map -/

/-- What a special property does to whether there is a map: `_delete_all` drops it, `_add_int:` makes one. -/
def mapEffect (p : Bytes × Bytes) : Option Bool :=
  if hasPrefix p.1 INT_PROPERTY_DELETE_PREFIX then none
  else if binvalIsEqualToConstString p.1 INT_PROPERTY_DELETE_ALL_PREFIX then
    if p.2.length ≤ 0 ∨ p.2.head? = some 0 then none else some false
  else if hasPrefix p.1 INT_PROPERTY_ADD_INT_PREFIX then
    if p.2.length ≤ 0 ∨ p.2.head? = some 0 ∨ p.2.length ≥ sizeofNumber then none else some true
  else none

/-- **The properties make a map for a record that has none**: one of them is ordinary, or the last special one with an effect,
in the order of their map, is an addition. -/
def MakesMap (ps : List (Bytes × Bytes)) : Prop :=
  (∃ p ∈ ps, ordinary p.1 = true) ∨
    ((visited (replaceAll (ps.filter isSpecial) none).join).filterMap mapEffect).getLast? = some true

instance (ps : List (Bytes × Bytes)) : Decidable (MakesMap ps) := inferInstanceAs (Decidable (_ ∨ _))

theorem replaceAll_isSome : ∀ {ps : List (Bytes × Bytes)} {m m' : Option SlipMap}, replaceAll ps m = some m' →
    m'.isSome = (m.isSome || !ps.isEmpty)
  | [], m, m', h => by
    cases h
    simp
  | (key, value) :: ps, m, m', h => by
    rw [replaceAll] at h
    obtain ⟨slip, -, h⟩ := Option.bind_eq_some_iff.1 h
    obtain ⟨r, -, h⟩ := Option.bind_eq_some_iff.1 h
    rw [replaceAll_isSome h]
    simp

theorem applyDelete_isSome {target target' : Option SlipMap} {name value : Bytes} {ret : Int}
    (h : applyDelete target name value = some (ret, target')) : ret = 0 ∧ target'.isSome = target.isSome := by
  unfold applyDelete at h
  split at h
  · cases h
    exact ⟨rfl, rfl⟩
  · split at h
    · cases h
      exact ⟨rfl, rfl⟩
    · obtain ⟨r, -, h⟩ := Option.map_eq_some_iff.1 h
      cases h
      exact ⟨rfl, rfl⟩

/-- An addition with an effect leaves a map, also when it finds none. -/
theorem applyAddInt_isSome {target target' : Option SlipMap} {name value : Bytes} {ret : Int}
    (h : applyAddInt target name value = some (ret, target')) : ret = 0 ∧ target'.isSome =
      (if value.length ≤ 0 ∨ value.head? = some 0 ∨ value.length ≥ sizeofNumber then none else some true).getD
        target.isSome := by
  obtain ⟨empty, hnew⟩ : ∃ empty, newSlipMap PROPERTIES_DEFAULT_SLIP_MAP_BUFFER_SIZE = some (some empty) := ⟨_, rfl⟩
  have hzero : ¬ (bytes "0").length ≥ sizeofNumber := by decide
  unfold applyAddInt at h
  split at h
  · rename_i hbad
    cases h
    exact ⟨rfl, by rw [if_pos hbad, Option.getD_none]⟩
  · rename_i hgood
    rw [if_neg hgood, Option.getD_some]
    obtain ⟨num, hnum, h⟩ := Option.bind_eq_some_iff.1 h
    cases target with
    | none =>
      obtain rfl := Option.some.inj hnum
      simp only [if_neg hzero, hnew, Option.bind_eq_bind, Option.bind_some] at h
      obtain ⟨r, -, h⟩ := Option.map_eq_some_iff.1 h
      cases h
      exact ⟨rfl, rfl⟩
    | some slipMap =>
      simp only at h
      split at h
      · cases h
        exact ⟨rfl, rfl⟩
      · obtain ⟨r, -, h⟩ := Option.map_eq_some_iff.1 h
        cases h
        exact ⟨rfl, rfl⟩

/-- **One special property.** -/
theorem recordsPutApplySpecialPropertiesCb_effect {target target' : Option SlipMap} {p : Bytes × Bytes} {ret : Int}
    (h : recordsPutApplySpecialPropertiesCb target p.1 p.2 = some (ret, target')) :
    ret = 0 ∧ target'.isSome = (mapEffect p).getD target.isSome := by
  unfold recordsPutApplySpecialPropertiesCb at h
  unfold mapEffect
  split at h
  · cases h
  · split at h
    · rename_i hdelete
      rw [if_pos hdelete, Option.getD_none]
      exact applyDelete_isSome h
    · rename_i hdelete
      rw [if_neg hdelete]
      split at h
      · rename_i hall
        rw [if_pos hall]
        unfold applyDeleteAll at h
        split at h
        · rename_i hbad
          cases h
          exact ⟨rfl, by rw [if_pos hbad, Option.getD_none]⟩
        · rename_i hgood
          cases h
          exact ⟨rfl, by rw [if_neg hgood, Option.getD_some]; rfl⟩
      · rename_i hall
        rw [if_neg hall]
        split at h
        · rename_i hadd
          rw [if_pos hadd]
          exact applyAddInt_isSome h
        · rename_i hadd
          cases h
          exact ⟨rfl, by rw [if_neg hadd, Option.getD_none]⟩

/-- **The special properties**, one after the other. -/
theorem walk_specials : ∀ {ps : List (Bytes × Bytes)} {target : Option SlipMap} {r : Int × Option SlipMap},
    walk recordsPutApplySpecialPropertiesCb ps target = some r →
      r.2.isSome = ((ps.filterMap mapEffect).getLast?).getD target.isSome
  | [], target, r, h => by
    cases h
    rfl
  | p :: ps, target, r, h => by
    rw [walk] at h
    obtain ⟨⟨ret, target'⟩, hcb, hrest⟩ := Option.bind_eq_some_iff.1 h
    obtain ⟨rfl, heffect⟩ := recordsPutApplySpecialPropertiesCb_effect hcb
    simp only [ne_eq, not_true_eq_false, if_false] at hrest
    rw [walk_specials hrest, heffect, List.filterMap_cons]
    cases mapEffect p with
    | none => rfl
    | some b => rw [List.getLast?_cons, Option.getD_some, Option.getD_some]

section
variable [Dimension D]

/-- **A record that had no properties gets a map** exactly when the pairs make one. -/
theorem putProperties_makesMap {ps : List (Bytes × Bytes)} {layerName key : Key} {putOp : RecordsPutOp D}
    (hop : PutOpOk putOp) (hread : FieldsRead ps (recordsPutOp layerName key) putOp) {properties : Option SlipMap}
    (h : putProperties none putOp = some properties) : properties.isSome = true ↔ MakesMap ps := by
  have hordinary := replaceAll_isSome hread.properties
  have hspecials : (replaceAll (ps.filter isSpecial) none).join = putOp.specialProperties := by
    rw [show (none : Option SlipMap) = (recordsPutOp layerName key : RecordsPutOp D).specialProperties from rfl,
      hread.specials, Option.join_some]
  have hsome : (putOp.properties.isSome = true ↔ ∃ p ∈ ps, ordinary p.1 = true) := by
    rw [hordinary]
    simp [recordsPutOp]
  unfold putProperties at h
  rw [hop.specials.foreach] at h
  obtain ⟨target, htarget, h⟩ := Option.bind_eq_some_iff.1 h
  obtain ⟨r, hwalk, rfl⟩ := Option.map_eq_some_iff.1 htarget
  have hlast := walk_specials hwalk
  unfold MakesMap
  rw [hspecials, ← hsome]
  rcases r with ⟨ret, _ | target⟩
  · cases h
    refine (or_iff_left (fun heffect => ?_)).symm
    rw [heffect] at hlast
    cases hlast
  · obtain ⟨target', -, rfl⟩ := Option.map_eq_some_iff.1 h
    refine iff_of_true rfl (.inr ?_)
    simp only [Option.isSome_some, Option.isSome_none] at hlast
    cases hgetLast : ((visited putOp.specialProperties).filterMap mapEffect).getLast? with
    | none =>
      rw [hgetLast] at hlast
      cases hlast
    | some b =>
      rw [hgetLast, Option.getD_some] at hlast
      rw [← hlast]

/-! ## The record that comes back -/

omit [Dimension D] in
/-- What a GET shows of a record without its properties: the type, the position and the expiration. -/
def KeyNode.shown (keyNode : KeyNode D) : Bytes × Option (Position2D D) × Option Int :=
  (recordType keyNode.slot.isSome keyNode.properties.isSome, keyNode.slot, keyNode.expirable)

omit [Dimension D] in
theorem KeyNode.shown_eq {keyNode keyNode' : KeyNode D} : keyNode.shown = keyNode'.shown ↔ keyNode.slot = keyNode'.slot ∧
    keyNode.expirable = keyNode'.expirable ∧ (keyNode.properties.isSome = keyNode'.properties.isSome) := by
  have htype : ∀ slot a b, recordType slot a = recordType slot b ↔ a = b := by decide
  unfold KeyNode.shown
  rw [Prod.mk.injEq, Prod.mk.injEq]
  refine ⟨fun ⟨h, hslot, hexpirable⟩ => ⟨hslot, hexpirable, ?_⟩, fun ⟨hslot, hexpirable, h⟩ => ⟨?_, hslot, hexpirable⟩⟩
  · rw [hslot] at h
    exact (htype _ _ _).1 h
  · rw [hslot, h]

/-- **A record as a PUT leaves it**: its position is within the bounds, its expiration a time other than 0. -/
structure KeyNode.Kept (qbounds : Rectangle2D D) (keyNode : KeyNode D) : Prop where
  slot : ∀ position ∈ keyNode.slot, positionInBounds qbounds position = true
  expirable : ∀ ts ∈ keyNode.expirable, ts ≠ 0 ∧ Lib.IsIntmax ts

/-- **A record whose fields and whose map come back**: its position is printed and read without a loss; where it has no
position or no expiration, no property is read as one; and its properties make a map again. -/
structure FieldsBack (qbounds : Rectangle2D D) (context : DumpContext D) (keyNode : KeyNode D) : Prop where
  position : ∀ position ∈ keyNode.slot, valuePosition (positionText context position) = position
  noPosition : keyNode.slot = none → ∀ value ∈ lastNamed namesPosition (reread (visited keyNode.properties)),
    positionInBounds qbounds (valuePosition value) = false
  noExpiration : keyNode.expirable = none → ∀ value ∈ lastNamed namesExpiration (reread (visited keyNode.properties)),
    valueTime value = 0
  map : keyNode.properties.isSome = true → MakesMap (reread (visited keyNode.properties))

omit [Dimension D] in
/-- **The expiration is read again.** -/
theorem valueTime_expiresAtText {ts : Int} (h : Lib.IsIntmax ts) : valueTime (expiresAtText ts) = ts := by
  have hread := congrArg (fun r => r.2.expiresAt) (parseExpiresAt_expiresAtText ts (recordsPutOp [] [] : RecordsPutOp ℚ))
  rw [parseExpiresAt_snd] at hread
  simp only at hread
  rw [hread]
  unfold toTimeT
  rw [Int.toNat_of_nonneg (by omega)]
  unfold Lib.IsIntmax at h
  have := Int.emod_bmod ts (2 ^ 64)
  push_cast at this ⊢
  rw [this, Int.bmod_eq_of_le (by omega) (by omega)]

variable {qbounds : Rectangle2D D} {context : DumpContext D} {keyNode : KeyNode D} {putOp : RecordsPutOp D}
  {ps : List (Bytes × Bytes)} {layerName key : Key}

/-- The slot of a new record. -/
theorem putSlot_none (hread : FieldsRead ps (recordsPutOp layerName key) putOp) :
    putSlot qbounds none putOp = (((lastNamed namesPosition ps).map valuePosition).filter (positionInBounds qbounds)) := by
  unfold putSlot
  rw [hread.positionSet, hread.position]
  cases lastNamed namesPosition ps with
  | none => rfl
  | some value =>
    simp only [Option.isSome_some, Bool.true_or, Bool.true_and, Option.map_some, Option.getD_some, Option.filter_some]

/-- The expiration of a new record. -/
theorem putExpirable_new (hread : FieldsRead ps (recordsPutOp layerName key) putOp) :
    putExpirable putOp = ((lastNamed namesExpiration ps).map valueTime).filter (fun ts => decide (ts ≠ 0)) := by
  unfold putExpirable
  rw [hread.expiresAt]
  cases lastNamed namesExpiration ps with
  | none => rfl
  | some value =>
    simp only [Option.map_some, Option.getD_some, Option.filter_some, decide_eq_true_eq]

omit [Dimension D] in
/-- A field comes back when its text is read as the value, and when no text is read where it has none. -/
theorem field_back {α : Type} (text : α → Bytes) (read : Bytes → α) (keep : α → Bool) {stored : Option α}
    (hkeep : ∀ a ∈ stored, keep a = true) (last : Option Bytes) :
    (((stored.map text).or last).map read).filter keep = stored ↔
      (∀ a ∈ stored, read (text a) = a) ∧ (stored = none → ∀ value ∈ last, keep (read value) = false) := by
  cases stored with
  | none => cases last <;> simp [Option.filter_some]
  | some a =>
    have ha := hkeep a rfl
    simp only [Option.map_some, Option.some_or, Option.filter_some, Option.mem_some_iff, forall_eq', reduceCtorEq,
      false_implies, and_true]
    constructor
    · intro h
      split at h
      · exact Option.some.inj h
      · cases h
    · intro h
      rw [h, if_pos ha]

/-- **A dumped record that is put again shows what it showed** exactly when its fields and its map come back. -/
theorem putKeyNode_back (hprint : ∀ d, PrintedNumber D (context.printDouble d)) (hkept : keyNode.Kept qbounds)
    {record : DumpedRecord D} (hrecord : record = dumpedRecord key keyNode) (hop : PutOpOk putOp) {name : Key}
    (hread : readBack recordsPutOptParseCb (record.properties ++ fieldPairs context record) (recordsPutOp layerName name) =
      some (0, putOp)) : ∃ node, putKeyNode qbounds putOp newKeyNode = some node ∧
      (node.shown = keyNode.shown ↔ FieldsBack qbounds context keyNode) := by
  subst hrecord
  obtain ⟨properties, hproperties, -⟩ := putProperties_wellFormed wellFormed_none hop
  have hfields := walk_fields (readBack_walk hread)
  have hpairs : reread ((dumpedRecord key keyNode).properties ++ fieldPairs context (dumpedRecord key keyNode)) =
      reread (visited keyNode.properties) ++ fieldPairs context (dumpedRecord key keyNode) := by
    rw [reread, List.filterMap_append]
    exact congrArg _ (reread_fieldPairs hprint _)
  rw [hpairs] at hfields
  obtain ⟨hposition, hexpiration⟩ := lastNamed_fieldPairs context (dumpedRecord key keyNode)
  obtain ⟨hordinary, hspecial⟩ := filter_fieldPairs context (dumpedRecord key keyNode)
  refine ⟨⟨putSlot qbounds none putOp, properties, putExpirable putOp⟩, ?_, ?_⟩
  · unfold putKeyNode newKeyNode
    rw [hproperties]
    rfl
  rw [KeyNode.shown_eq]
  -- each part on its own
  have hslot : putSlot qbounds none putOp = keyNode.slot ↔
      (∀ position ∈ keyNode.slot, valuePosition (positionText context position) = position) ∧
      (keyNode.slot = none → ∀ value ∈ lastNamed namesPosition (reread (visited keyNode.properties)),
        positionInBounds qbounds (valuePosition value) = false) := by
    rw [putSlot_none hfields, lastNamed_append, hposition]
    exact field_back (positionText context) valuePosition (positionInBounds qbounds) hkept.slot _
  have hexpirable : putExpirable putOp = keyNode.expirable ↔ (keyNode.expirable = none →
      ∀ value ∈ lastNamed namesExpiration (reread (visited keyNode.properties)), valueTime value = 0) := by
    have hback := field_back expiresAtText valueTime (fun ts => decide (ts ≠ 0))
      (fun ts hts => by simpa using (hkept.expirable ts hts).1)
      (lastNamed namesExpiration (reread (visited keyNode.properties)))
    rw [putExpirable_new hfields, lastNamed_append, hexpiration]
    refine hback.trans ?_
    rw [and_iff_right (fun ts hts => valueTime_expiresAtText (hkept.expirable ts hts).2)]
    simp
  have hmap : properties.isSome = keyNode.properties.isSome ↔
      (keyNode.properties.isSome = true → MakesMap (reread (visited keyNode.properties))) := by
    have hmakes := putProperties_makesMap hop hfields hproperties
    have hsame : MakesMap (reread (visited keyNode.properties) ++ fieldPairs context (dumpedRecord key keyNode)) ↔
        MakesMap (reread (visited keyNode.properties)) := by
      unfold MakesMap
      rw [List.filter_append, hspecial, List.append_nil]
      refine or_congr_left ?_
      have hno := List.filter_eq_nil_iff.1 hordinary
      simp only [List.mem_append, or_and_right, exists_or]
      exact or_iff_left (fun ⟨p, hp, h⟩ => hno p hp h)
    rw [hsame] at hmakes
    cases hkeyNode : keyNode.properties with
    | none =>
      rw [hkeyNode] at hmakes
      have hempty : ¬ MakesMap (reread (visited none)) := by decide
      simpa using mt hmakes.1 hempty
    | some slipMap =>
      rw [hkeyNode] at hmakes
      simpa using hmakes
  simp only [hslot, hexpirable, hmap]
  exact ⟨fun ⟨⟨h₁, h₂⟩, h₃, h₄⟩ => ⟨h₁, h₂, h₃, h₄⟩, fun h => ⟨⟨h.position, h.noPosition⟩, h.noExpiration, h.map⟩⟩

end

end Pincaster
