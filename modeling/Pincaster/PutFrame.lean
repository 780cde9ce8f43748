import Pincaster.BodyAssertions
import Pincaster.StoreRuns
/-!
# PutFrame — what a PUT leaves alone

A PUT changes one record, of which it leaves the position when its body names none.  The expiration is another matter:
the operation starts without one, so that a body that names none removes that of the record.
-/
namespace Pincaster

open Lib (Bytes bytes cstr strtoul System walk)

variable {D : Type}

/-! ## What the body names -/

/-- The pairs that a body gives to the parser's callback. -/
def namedPairs (body : Bytes) : List (Bytes × Bytes) := (bodyPairs body).map decodedPair

/-- A pair for the position. -/
def namesPosition (p : Bytes × Bytes) : Bool := binvalIsEqualToConstString p.1 INT_PROPERTY_POSITION

/-- A pair for the expiration. -/
def namesExpiration (p : Bytes × Bytes) : Bool := binvalIsEqualToConstString p.1 INT_PROPERTY_EXPIRES_AT

/-- The time that a value is read as; it is 0 for an empty value. -/
def valueTime (value : Bytes) : Int :=
  if skipSpaces (cstr value) = [] then 0 else toTimeT (strtoul 10 (skipSpaces (cstr value))).1

/-- The names of the two fields are different. -/
theorem namesExpiration_of_position {p : Bytes × Bytes} (h : namesPosition p = true) : namesExpiration p = false := by
  by_contra hexpires
  unfold namesPosition at h
  unfold namesExpiration at hexpires
  unfold binvalIsEqualToConstString at h hexpires
  simp only [Bool.not_eq_false, Bool.and_eq_true, decide_eq_true_eq] at h hexpires
  exact absurd (h.1.symm.trans hexpires.1) (by decide)

/-- What one pair leaves of the fields of an operation. -/
structure PairStep (p : Bytes × Bytes) (putOp putOp' : RecordsPutOp D) : Prop where
  layerName : putOp'.layerName = putOp.layerName
  key : putOp'.key = putOp.key
  positionSet : namesPosition p = false → putOp'.positionSet = putOp.positionSet
  expiresAt : putOp'.expiresAt = if namesExpiration p = true then valueTime p.2 else putOp.expiresAt

theorem parsePosition_step [Dimension D] (putOp : RecordsPutOp D) {p : Bytes × Bytes} (h : namesPosition p = true) :
    PairStep p putOp (parsePosition putOp p.2).2 := by
  have hexpires : (parsePosition putOp p.2).2.expiresAt = putOp.expiresAt := by
    unfold parsePosition
    simp only
    repeat' split
    all_goals rfl
  refine ⟨(parsePosition_same putOp p.2).layerName, (parsePosition_same putOp p.2).key,
    fun hno => absurd (h.symm.trans hno) (by decide), ?_⟩
  rw [hexpires, namesExpiration_of_position h, if_neg Bool.false_ne_true]

theorem parseExpiresAt_snd (putOp : RecordsPutOp D) (value : Bytes) :
    (parseExpiresAt putOp value).2 = { putOp with expiresAt := valueTime value } := by
  unfold parseExpiresAt valueTime
  generalize skipSpaces (cstr value) = svalue
  by_cases hempty : svalue = []
  · simp only [if_pos hempty]
  · simp only [if_neg hempty]

theorem parseExpiresAt_step (putOp : RecordsPutOp D) {p : Bytes × Bytes} (h : namesExpiration p = true) :
    PairStep p putOp (parseExpiresAt putOp p.2).2 := by
  rw [parseExpiresAt_snd]
  exact ⟨rfl, rfl, fun _ => rfl, (if_pos h).symm⟩

/-- **What one pair does to an operation.** -/
theorem recordsPutOptParseCb_step [Dimension D] {putOp putOp' : RecordsPutOp D} {p : Bytes × Bytes} {ret : Int}
    (hcb : recordsPutOptParseCb putOp p.1 p.2 = some (ret, putOp')) : PairStep p putOp putOp' := by
  unfold recordsPutOptParseCb at hcb
  split at hcb
  · rename_i hloc
    obtain rfl : (parsePosition putOp p.2).2 = putOp' := congrArg Prod.snd (Option.some.inj hcb)
    exact parsePosition_step putOp hloc
  · rename_i hloc
    split at hcb
    · rename_i hexpires
      obtain rfl : (parseExpiresAt putOp p.2).2 = putOp' := congrArg Prod.snd (Option.some.inj hcb)
      exact parseExpiresAt_step putOp hexpires
    · rename_i hexpires
      have hkept : putOp'.expiresAt = putOp.expiresAt →
          putOp'.expiresAt = if namesExpiration p = true then valueTime p.2 else putOp.expiresAt := fun h => by
        rw [namesExpiration, if_neg hexpires, h]
      split at hcb
      · cases hcb
      · split at hcb
        · obtain ⟨r, -, hr⟩ := Option.map_eq_some_iff.1 hcb
          split at hr
          · cases hr
            exact ⟨rfl, rfl, fun _ => rfl, hkept rfl⟩
          · cases hr
            exact ⟨rfl, rfl, fun _ => rfl, hkept rfl⟩
        · obtain ⟨r, -, hr⟩ := Option.map_eq_some_iff.1 hcb
          split at hr
          · cases hr
            exact ⟨rfl, rfl, fun _ => rfl, hkept rfl⟩
          · cases hr
            exact ⟨rfl, rfl, fun _ => rfl, hkept rfl⟩

/-- What the pairs of a body leave of the fields of an operation. -/
structure BodyStep (ps : List (Bytes × Bytes)) (putOp putOp' : RecordsPutOp D) : Prop where
  layerName : putOp'.layerName = putOp.layerName
  key : putOp'.key = putOp.key
  positionSet : (∀ p ∈ ps, namesPosition p = false) → putOp'.positionSet = putOp.positionSet
  unnamed : (∀ p ∈ ps, namesExpiration p = false) → putOp'.expiresAt = putOp.expiresAt
  named : (∃ p ∈ ps, namesExpiration p = true) → ∃ p ∈ ps, namesExpiration p = true ∧ putOp'.expiresAt = valueTime p.2

/-- **The pairs of a body**, one after the other. -/
theorem walk_step [Dimension D] : ∀ {ps : List (Bytes × Bytes)} {putOp putOp' : RecordsPutOp D},
    walk recordsPutOptParseCb ps putOp = some (0, putOp') → BodyStep ps putOp putOp'
  | [], putOp, putOp', h => by
    obtain rfl : putOp = putOp' := congrArg Prod.snd (Option.some.inj h)
    exact ⟨rfl, rfl, fun _ => rfl, fun _ => rfl, fun ⟨p, hp, _⟩ => absurd hp List.not_mem_nil⟩
  | p :: ps, putOp, putOp', h => by
    rw [walk] at h
    obtain ⟨⟨ret, putOp₁⟩, hcb, hrest⟩ := Option.bind_eq_some_iff.1 h
    have hpair := recordsPutOptParseCb_step hcb
    dsimp only at hrest
    split at hrest
    · rename_i hret
      exact absurd (congrArg Prod.fst (Option.some.inj hrest)) hret
    · have hps := walk_step hrest
      refine ⟨hps.layerName.trans hpair.layerName, hps.key.trans hpair.key, fun hno => ?_, fun hno => ?_,
        fun hsome => ?_⟩
      · obtain ⟨hp, hno⟩ := List.forall_mem_cons.1 hno
        exact (hps.positionSet hno).trans (hpair.positionSet hp)
      · obtain ⟨hp, hno⟩ := List.forall_mem_cons.1 hno
        rw [hps.unnamed hno, hpair.expiresAt, hp, if_neg Bool.false_ne_true]
      · by_cases hrest : ∃ q ∈ ps, namesExpiration q = true
        · obtain ⟨q, hq, hnames, htime⟩ := hps.named hrest
          exact ⟨q, List.mem_cons_of_mem _ hq, hnames, htime⟩
        · have hno : ∀ q ∈ ps, namesExpiration q = false := fun q hq =>
            Bool.eq_false_iff.2 (fun hnames => hrest ⟨q, hq, hnames⟩)
          obtain ⟨q, hq, hnames⟩ := hsome
          rcases List.mem_cons.1 hq with rfl | hq
          · refine ⟨q, List.mem_cons_self, hnames, ?_⟩
            rw [hps.unnamed hno, hpair.expiresAt, if_pos hnames]
          · exact absurd (hno q hq) (by rw [hnames]; decide)

/-- **An accepted body**, from the operation the parser starts with. -/
theorem queryParse_step [Dimension D] {layerName key : Key} {body : Bytes} {putOp : RecordsPutOp D}
    (h : queryParse (body ++ [0]) recordsPutOptParseCb (recordsPutOp layerName key) = some (0, putOp)) :
    BodyStep (namedPairs body) (recordsPutOp layerName key) putOp := by
  obtain ⟨status, hparse⟩ := queryParse_pairs body
  rw [hparse] at h
  obtain ⟨⟨ret, putOp'⟩, hwalk, heq⟩ := Option.map_eq_some_iff.1 h
  obtain ⟨hret, rfl⟩ := Prod.mk.inj heq
  refine walk_step (hwalk.trans ?_)
  dsimp only at hret
  split at hret
  · cases hret
  · rename_i hzero
    rw [not_not.1 hzero]

theorem isIntmax_valueTime (value : Bytes) : Lib.IsIntmax (valueTime value) := by
  unfold valueTime
  split
  · decide
  · exact isIntmax_toIntmax _

/-- **The expiration of any body that is parsed is a time.** -/
theorem queryParse_time [Dimension D] {query : Bytes} {layerName key : Key} {ret : Int} {putOp : RecordsPutOp D}
    (h : queryParse query recordsPutOptParseCb (recordsPutOp layerName key) = some (ret, putOp)) :
    Lib.IsIntmax putOp.expiresAt := by
  have hstart : Lib.IsIntmax (recordsPutOp layerName key : RecordsPutOp D).expiresAt :=
    have hzero : Lib.IsIntmax 0 := by decide
    hzero
  refine queryParse_inv (fun putOp : RecordsPutOp D => Lib.IsIntmax putOp.expiresAt)
    (fun putOp name value ret putOp' htime hcb => ?_) hstart h
  rw [(recordsPutOptParseCb_step (p := (name, value)) hcb).expiresAt]
  split
  · exact isIntmax_valueTime value
  · exact htime

/-! ## What a PUT leaves alone -/

/-- The record of a name in a layer of a name. -/
def recordOf (layers : Layers D) (layerName key : Key) : Option (KeyNode D) := (layers layerName).bind (· key)

theorem recordOf_update (layers : Layers D) (layerName : Key) (keyNodes : Option (KeyNodes D)) (name key : Key) :
    recordOf (Function.update layers layerName keyNodes) name key =
      if name = layerName then keyNodes.bind (· key) else recordOf layers name key := by
  unfold recordOf
  rw [Function.update_apply]
  split <;> rfl

/-- **A PUT changes what its body names**: the position of the record, its expiration, which an empty value or a zero
removes, and no other record. -/
structure ChangesNamed (layerName key : Key) (ps : List (Bytes × Bytes)) (layers layers' : Layers D)
    (old new : KeyNode D) : Prop where
  position : (∀ p ∈ ps, namesPosition p = false) → new.slot = old.slot
  expiration : (∀ p ∈ ps, namesExpiration p = false) → new.expirable = old.expirable
  removal : old.expirable ≠ none → new.expirable = none → ∃ p ∈ ps, namesExpiration p = true ∧ valueTime p.2 = 0
  others : ∀ name k, ¬ (strEq name layerName = true ∧ k = key) → recordOf layers' name k = recordOf layers name k

section
variable [LinearOrder D] {env : PanDbEnv D Nat} {putOp : RecordsPutOp D} {layers layers' : Layers D}
  {keyNodes : KeyNodes D}

/-- **What a PUT does with the records**: one gets its fields from the operation. -/
theorem putIntoLayer_records (hlayer : layers putOp.layerName = some keyNodes)
    (hcongr : ∀ name, strEq name putOp.layerName = true → layers name = layers putOp.layerName)
    (hput : putIntoLayer env putOp layers = some layers') : ∃ new : KeyNode D,
      recordOf layers' putOp.layerName putOp.key = some new ∧
      new.slot = Layer.putSlotOf env putOp ((keyNodes putOp.key).getD newKeyNode).slot ∧
      new.expirable = putExpirable putOp ∧
      ∀ name k, ¬ (strEq name putOp.layerName = true ∧ k = putOp.key) →
        recordOf layers' name k = recordOf layers name k := by
  unfold putIntoLayer at hput
  rw [hlayer] at hput
  obtain ⟨new, hnew, rfl⟩ := Option.map_eq_some_iff.1 hput
  obtain ⟨properties, -, hfields⟩ := Option.map_eq_some_iff.1 hnew
  refine ⟨new, ?_, by rw [← hfields], by rw [← hfields], fun name k hother => ?_⟩
  · rw [recordOf, setKeyNodes, if_pos (strEq_iff.2 rfl), Option.bind_some, Function.update_self]
  · rw [recordOf, setKeyNodes, recordOf]
    by_cases hname : strEq name putOp.layerName = true
    · have hk : k ≠ putOp.key := fun hk => hother ⟨hname, hk⟩
      rw [if_pos hname, hcongr name hname, hlayer, Option.bind_some, Option.bind_some, Function.update_of_ne hk]
    · rw [if_neg hname]

end

/-- **A PUT changes only what it names, exactly when it names an expiration or there was none.** -/
theorem put_changes_named_iff [Dimension D] [Field D] [LinearOrder D] {env : SearchEnv D Nat}
    {h : List (LayerStore D × StoreInput D)} {store store' : LayerStore D} (hr : (storeSystem env).Run h store)
    {layerName key : Key} {body : Bytes} {putOp : RecordsPutOp D}
    (hbody : queryParse (body ++ [0]) recordsPutOptParseCb (recordsPutOp layerName key) = some (0, putOp))
    {fakeReq : Bool} {opTid : Nat} {keyNodes : KeyNodes D} (hlayer : store.keyNodes layerName = some keyNodes)
    (hs : storeStep env store (.operation ⟨fakeReq, opTid, .recordsPut putOp⟩) = some store') :
    (∃ new, recordOf store'.keyNodes layerName key = some new ∧ ChangesNamed layerName key (namedPairs body)
      store.keyNodes store'.keyNodes ((keyNodes key).getD newKeyNode) new) ↔
    (∃ p ∈ namedPairs body, namesExpiration p = true) ∨ ((keyNodes key).getD newKeyNode).expirable = none := by
  obtain ⟨hkept, -⟩ := run_kept hr
  obtain ⟨r, hop, rfl⟩ := workerDoWork_store hs
  obtain ⟨-, hstep⟩ := handleOp_spec hkept hop
  have hstart := queryParse_step hbody
  have hname : putOp.layerName = layerName := hstart.layerName
  have hkey : putOp.key = key := hstart.key
  subst hname hkey
  obtain ⟨new, hnew, hslot, hexpirable, hothers⟩ :=
    putIntoLayer_records hlayer (fun name hname => keyNodes_congr_name store hname) hstep
  generalize (keyNodes putOp.key).getD newKeyNode = old at hslot ⊢
  constructor
  · rintro ⟨new', hnew', hnamed⟩
    obtain rfl := Option.some.inj (hnew.symm.trans hnew')
    by_cases hnames : ∃ p ∈ namedPairs body, namesExpiration p = true
    · exact .inl hnames
    · have hno : ∀ p ∈ namedPairs body, namesExpiration p = false := fun p hp =>
        Bool.eq_false_iff.2 (fun hp' => hnames ⟨p, hp, hp'⟩)
      have hzero : putOp.expiresAt = 0 := hstart.unnamed hno
      rw [← hnamed.expiration hno, hexpirable, putExpirable, if_neg (not_not.2 hzero)]
      exact .inr rfl
  · intro hcond
    refine ⟨new, hnew, ?_, ?_, ?_, hothers⟩
    · intro hno
      have hset : putOp.positionSet = false := hstart.positionSet hno
      rw [hslot, Layer.putSlotOf, hset, Bool.false_and, if_neg Bool.false_ne_true]
    · intro hno
      have hzero : putOp.expiresAt = 0 := hstart.unnamed hno
      have hnone : old.expirable = none := by
        refine hcond.resolve_left (fun hsome => ?_)
        obtain ⟨p, hp, hp'⟩ := hsome
        rw [hno p hp] at hp'
        cases hp'
      rw [hnone, hexpirable, putExpirable, if_neg (not_not.2 hzero)]
    · intro hold hnone
      obtain ⟨p, hp, hp', htime⟩ := hstart.named (hcond.resolve_right hold)
      refine ⟨p, hp, hp', htime ▸ ?_⟩
      by_contra hne
      rw [hexpirable, putExpirable, if_pos hne] at hnone
      cases hnone

/-! Records that expire, and the PUTs that come next. -/

/-- What is computed of the store after some inputs, and of a PUT with a body. -/
def putAfter (inputs : List (StoreInput ℚ)) (body : Bytes) (p : LayerStore ℚ → LayerStore ℚ → Bool) : Bool :=
  ((storeSystem (worldEnv .flat)).exec inputs emptyStore).any (fun store =>
    (queryParse (body ++ [0]) recordsPutOptParseCb (recordsPutOp (bytes "l\x00") (bytes "k\x00"))).any (fun r =>
      r.1 = 0 && (storeStep (worldEnv .flat) store (.operation ⟨true, 0, .recordsPut r.2⟩)).any (p store)))

theorem run_of_putAfter {inputs : List (StoreInput ℚ)} {body : Bytes} {p : LayerStore ℚ → LayerStore ℚ → Bool}
    (hp : putAfter inputs body p = true) : ∃ h store store' putOp, (storeSystem (worldEnv .flat)).Run h store ∧
      queryParse (body ++ [0]) recordsPutOptParseCb (recordsPutOp (bytes "l\x00") (bytes "k\x00")) = some (0, putOp) ∧
      storeStep (worldEnv .flat) store (.operation ⟨true, 0, .recordsPut putOp⟩) = some store' ∧
      p store store' = true := by
  obtain ⟨store, hstore, hp⟩ := (Option.any_eq_true _ _).1 hp
  obtain ⟨⟨ret, putOp⟩, hparse, hp⟩ := (Option.any_eq_true _ _).1 hp
  rw [Bool.and_eq_true, decide_eq_true_eq] at hp
  obtain ⟨hret, hp⟩ := hp
  obtain ⟨store', hstep, hp⟩ := (Option.any_eq_true _ _).1 hp
  obtain ⟨h, hr, -⟩ := System.Run.of_exec _ System.Run.init hstore
  exact ⟨h, store, store', putOp, hr, hret ▸ hparse, hstep, hp⟩

/-- A record that expires at 5 and another that expires at 9, both with a position. -/
def placedInputs : List (StoreInput ℚ) :=
  [.operation ⟨true, 0, .layersCreate (bytes "l\x00")⟩,
    .operation ⟨true, 0, .recordsPut ⟨bytes "l\x00", bytes "k\x00", ⟨48, 2⟩, true, none, none, 5⟩⟩,
    .operation ⟨true, 0, .recordsPut ⟨bytes "l\x00", bytes "j\x00", ⟨10, 20⟩, true, none, none, 9⟩⟩]

/-- A PUT of a property and of an empty time: the expiration is gone, the position and the other record are as before. -/
theorem put_changes_named_empty : ∃ h store store' putOp old new, (storeSystem (worldEnv .flat)).Run h store ∧
    queryParse (bytes "a=b&_expires_at=" ++ [0]) recordsPutOptParseCb (recordsPutOp (bytes "l\x00") (bytes "k\x00")) =
      some (0, putOp) ∧
    storeStep (worldEnv .flat) store (.operation ⟨true, 0, .recordsPut putOp⟩) = some store' ∧
    old.slot.map Position2D.latitude = some 48 ∧ old.expirable = some 5 ∧ new.slot = old.slot ∧ new.expirable = none ∧
    (recordOf store'.keyNodes (bytes "l\x00") (bytes "j\x00")).map KeyNode.expirable = some (some 9) ∧
    ChangesNamed (bytes "l\x00") (bytes "k\x00") (namedPairs (bytes "a=b&_expires_at=")) store.keyNodes store'.keyNodes
      old new := by
  have hcheck : putAfter placedInputs (bytes "a=b&_expires_at=") (fun store store' =>
      ((recordOf store.keyNodes (bytes "l\x00") (bytes "k\x00")).any (fun old =>
          old.slot.map Position2D.latitude = some 48 && old.expirable = some 5) &&
        (recordOf store'.keyNodes (bytes "l\x00") (bytes "k\x00")).any (fun new => new.expirable = none)) &&
      (recordOf store'.keyNodes (bytes "l\x00") (bytes "j\x00")).map KeyNode.expirable = some (some 9)) = true := by
    decide +kernel
  obtain ⟨h, store, store', putOp, hr, hparse, hstep, hp⟩ := run_of_putAfter hcheck
  simp only [Bool.and_eq_true, Option.any_eq_true, decide_eq_true_eq] at hp
  obtain ⟨⟨⟨old, hold, hslot, hfive⟩, new, hnew, hnone⟩, hother⟩ := hp
  obtain ⟨keyNodes, hlayer, hkey⟩ := Option.bind_eq_some_iff.1 hold
  obtain ⟨new', hnew', hnamed⟩ := (put_changes_named_iff hr hparse hlayer hstep).2 (.inl (by decide +kernel))
  obtain rfl := Option.some.inj (hnew'.symm.trans hnew)
  rw [hkey, Option.getD_some] at hnamed
  exact ⟨h, store, store', putOp, old, new', hr, hparse, hstep, hslot, hfive,
    hnamed.position (by decide +kernel), hnone, hother, hnamed⟩

/-- **A PUT that names no expiration removes it.** -/
theorem put_removes_expiration : ∃ h store store' putOp old new, (storeSystem (worldEnv .flat)).Run h store ∧
    queryParse (bytes "a=b" ++ [0]) recordsPutOptParseCb (recordsPutOp (bytes "l\x00") (bytes "k\x00")) =
      some (0, putOp) ∧
    storeStep (worldEnv .flat) store (.operation ⟨true, 0, .recordsPut putOp⟩) = some store' ∧
    recordOf store.keyNodes (bytes "l\x00") (bytes "k\x00") = some old ∧
    recordOf store'.keyNodes (bytes "l\x00") (bytes "k\x00") = some new ∧
    (∀ p ∈ namedPairs (bytes "a=b"), namesExpiration p = false) ∧ old.expirable = some 5 ∧ new.expirable = none ∧
    ¬ ChangesNamed (bytes "l\x00") (bytes "k\x00") (namedPairs (bytes "a=b")) store.keyNodes store'.keyNodes old
      new := by
  have hcheck : putAfter (expiringInputs.take 2) (bytes "a=b") (fun store store' =>
      (recordOf store.keyNodes (bytes "l\x00") (bytes "k\x00")).map KeyNode.expirable = some (some 5) &&
        (recordOf store'.keyNodes (bytes "l\x00") (bytes "k\x00")).map KeyNode.expirable = some none) = true := by
    decide +kernel
  obtain ⟨h, store, store', putOp, hr, hparse, hstep, hp⟩ := run_of_putAfter hcheck
  rw [Bool.and_eq_true, decide_eq_true_eq, decide_eq_true_eq] at hp
  obtain ⟨old, hold, hfive⟩ := Option.map_eq_some_iff.1 hp.1
  obtain ⟨new, hnew, hnone⟩ := Option.map_eq_some_iff.1 hp.2
  have hno : ∀ p ∈ namedPairs (bytes "a=b"), namesExpiration p = false := by decide +kernel
  refine ⟨h, store, store', putOp, old, new, hr, hparse, hstep, hold, hnew, hno, hfive, hnone, fun hnamed => ?_⟩
  have hkept := hnamed.expiration hno
  rw [hfive, hnone] at hkept
  cases hkept

end Pincaster
