import Pincaster.Lib.Simulation
import Pincaster.LinkReach
import Pincaster.Serving
import Pincaster.StoreLaws
import Pincaster.StoreRuns
/-!
# StoreRefine — the store in memory refines the maps

With names as requests give them, the layers in memory with their quad-trees, key nodes and expirables (`LayerStore`)
take the steps of the maps from names to records (`Store`), and no others (`store_simulation`); and they can take every
change of the maps (`HasMaps.change`).
-/
namespace Pincaster

open Lib (Bytes bytes cstr System)

variable {D : Type}

/-! ## Names -/

/-- A key that `new_key_from_c_string` has made. -/
def CKey (key : Key) : Prop := cstr key ++ [0] = key

instance (key : Key) : Decidable (CKey key) := inferInstanceAs (Decidable (_ = _))

theorem CKey.of_nul {name : Bytes} (h : (0 : UInt8) ∉ name) : CKey (name ++ [0]) := by
  rw [CKey, cstr_storedKey h]

theorem CKey.strEq {s t : Key} (hs : CKey s) (ht : CKey t) : strEq s t = true ↔ s = t := by
  refine ⟨fun h => ?_, fun h => h ▸ strEq_iff.2 rfl⟩
  rw [CKey] at hs ht
  rw [← hs, ← ht, strEq_iff.1 h]

/-- **An operation as a request queues it.** -/
structure Requested (body : OpBody D) : Prop where
  ok : BodyOk body
  layer : body.mutates = true → CKey body.layer

/-- The layers by the names that requests give them. -/
def named (layers : Layers D) : Layers D := fun layerName => if CKey layerName then layers layerName else none

theorem named_of_cKey {layers : Layers D} {layerName : Key} (h : CKey layerName) :
    named layers layerName = layers layerName := if_pos h

/-- The records of one layer change. -/
theorem named_setKeyNodes (layers : Layers D) {layerName : Key} (h : CKey layerName) (keyNodes : Option (KeyNodes D)) :
    named (setKeyNodes layerName keyNodes layers) = Function.update (named layers) layerName keyNodes := by
  funext name
  by_cases hname : CKey name
  · rw [named_of_cKey hname, setKeyNodes, Function.update_apply]
    by_cases heq : name = layerName
    · rw [if_pos heq, if_pos ((hname.strEq h).2 heq)]
    · rw [if_neg heq, if_neg (fun hs => heq ((hname.strEq h).1 hs)), named_of_cKey hname]
  · have hne : name ≠ layerName := fun heq => hname (heq ▸ h)
    rw [Function.update_of_ne hne, named, named, if_neg hname, if_neg hname]

/-- Where a layer is missing, taking it away changes nothing. -/
theorem named_unchanged {layers : Layers D} {layerName : Key} (h : CKey layerName) (hl : layers layerName = none) :
    Function.update (named layers) layerName none = named layers :=
  Function.update_eq_self_iff.2 ((named_of_cKey h).trans hl).symm

theorem named_purge (now : Int) (layers : Layers D) :
    named (purgeExpiredKeys now layers) = purgeExpiredKeys now (named layers) := by
  funext name
  rw [named, purgeExpiredKeys, purgeExpiredKeys, named]
  split_ifs <;> rfl

/-- **The maps of a store in memory.** -/
def LayerStore.maps (store : LayerStore D) : Layers D := named store.keyNodes

/-! ## Operations -/

section
variable [LinearOrder D] [Dimension D] [ExactDimension D] {env : PanDbEnv D Nat}

theorem positionInBounds_eq (qbounds : Rectangle2D D) (position : Position2D D) :
    positionInBounds qbounds position = decide (positionIsInRect position qbounds) := by
  rw [Bool.eq_iff_iff, decide_eq_true_eq]
  simp only [positionInBounds, positionIsInRect, ExactDimension.lt_eq, ExactDimension.le_eq, Bool.and_eq_true,
    decide_eq_true_eq, and_assoc]

/-- An equal position is put again. -/
theorem putSlot_eq (putOp : RecordsPutOp D) (slot : Option (Position2D D)) :
    putSlot env.qbounds slot putOp = Layer.putSlotOf env putOp slot := by
  unfold putSlot Layer.putSlotOf
  rw [positionInBounds_eq]
  split
  · cases slot with
    | none => rfl
    | some previous =>
      simp only [ExactDimension.eq_eq, Bool.and_eq_true, decide_eq_true_eq]
      split
      · rename_i hsame
        obtain ⟨hlat, hlon⟩ := hsame
        cases previous
        cases hp : putOp.position
        rw [hp] at hlat hlon
        exact congrArg some (congrArg₂ Position2D.mk hlat hlon)
      · rfl
  · rfl

theorem putKeyNode_eq (putOp : RecordsPutOp D) (keyNode : KeyNode D) :
    putKeyNode env.qbounds putOp keyNode = Layer.putRecordOf env putOp keyNode := by
  rw [putKeyNode, Layer.putRecordOf, putSlot_eq]

/-- **The maps follow the layers in memory.** -/
theorem workerDoWork_named (env : PanDbEnv D Nat) {body : OpBody D} (h : Requested body) (layers : Layers D) :
    workerDoWork env.qbounds body (named layers) = (stepLayers env body layers).map named := by
  cases body with
  | layersCreate layerName =>
    have hname : CKey layerName := h.layer rfl
    rw [workerDoWork, handleOpLayersCreate, registerLayer, named_of_cKey hname, stepLayers, addLayer, Option.map_some,
      Option.some.injEq]
    cases layers layerName with
    | some keyNodes => rfl
    | none =>
      split_ifs
      · rfl
      · exact (named_setKeyNodes layers hname _).symm
  | layersDelete layerName =>
    have hname : CKey layerName := h.layer rfl
    rw [workerDoWork, handleOpLayersDelete, named_of_cKey hname, stepLayers, Option.map_some, Option.some.injEq,
      named_setKeyNodes layers hname]
    cases hl : layers layerName with
    | some keyNodes => rfl
    | none => exact (named_unchanged hname hl).symm
  | recordsPut putOp =>
    have hname : CKey putOp.layerName := h.layer rfl
    rw [workerDoWork, handleOpRecordsPut, named_of_cKey hname, stepLayers, putIntoLayer]
    cases layers putOp.layerName with
    | none => rfl
    | some keyNodes =>
      simp only [putKeyNode_eq]
      cases Layer.putRecordOf env putOp ((keyNodes putOp.key).getD newKeyNode) with
      | none => rfl
      | some record => exact congrArg some (named_setKeyNodes layers hname _).symm
  | recordsDelete layerName key =>
    have hname : CKey layerName := h.layer rfl
    rw [workerDoWork, handleOpRecordsDelete, named_of_cKey hname, stepLayers, deleteFromLayer, Option.map_some,
      Option.some.injEq]
    cases hl : layers layerName with
    | none => rfl
    | some keyNodes =>
      simp only [named_setKeyNodes layers hname]
      cases hk : keyNodes key with
      | some keyNode => rfl
      | none =>
        have hlayer : named layers layerName = some keyNodes := (named_of_cKey hname).trans hl
        rw [← hk, Function.update_eq_self, ← hlayer, Function.update_eq_self, hk]
  | systemPing | layersIndex | recordsGet | searchNearby | searchInRect | searchInKeys => rfl

end

/-! ## Runs -/

def StoreInput.Requested : StoreInput D → Prop
  | .operation op => Pincaster.Requested op.body
  | .purge _ => True

/-- An input that may change the store. -/
def StoreInput.Changes : StoreInput D → Prop
  | .operation op => op.body.mutates = true
  | .purge _ => True

section
variable [Dimension D]

def layersStep (qbounds : Rectangle2D D) (layers : Layers D) : StoreInput D → Option (Layers D)
  | .operation op => workerDoWork qbounds op.body layers
  | .purge now => some (purgeExpiredKeys now layers)

/-- The maps, with the inputs of the store in memory. -/
def layersSystem (qbounds : Rectangle2D D) : System (Layers D) (StoreInput D) where
  init _ := none
  legal _ input := input.Requested
  step := layersStep qbounds

theorem layersSystem_storeOk {qbounds : Rectangle2D D} {layers : Layers D}
    (hr : (layersSystem qbounds).Reachable layers) : StoreOk layers := by
  refine hr.inv StoreOk storeOk_empty (fun layers input layers' hok hlegal hstep => ?_)
  cases input with
  | operation op =>
    obtain ⟨layers₁, hwork, hok'⟩ := hok.work qbounds hlegal.ok
    exact Option.some.inj (hwork.symm.trans hstep) ▸ hok'
  | purge now => exact Option.some.inj hstep ▸ hok.purge now

end

/-- A store in memory next to its maps. -/
def HasMaps [LinearOrder D] (env : PanDbEnv D Nat) (store : LayerStore D) (layers : Layers D) : Prop :=
  store.Kept env ∧ StoreOk layers ∧ layers = store.maps

theorem hasMaps_empty [LinearOrder D] (env : PanDbEnv D Nat) :
    HasMaps env (emptyStore : LayerStore D) (fun _ => none) := by
  refine ⟨emptyStore_kept _, storeOk_empty, funext (fun name => ?_)⟩
  rw [LayerStore.maps, named]
  split_ifs <;> rfl

/-- **A purge in memory is one of the maps.** -/
theorem HasMaps.purge [LinearOrder D] {env : PanDbEnv D Nat} {store : LayerStore D} {layers : Layers D}
    (h : HasMaps env store layers) (now : Int) :
    ∃ store', LayerStore.purgeExpiredKeys env now store = some store' ∧
      HasMaps env store' (purgeExpiredKeys now layers) := by
  obtain ⟨hkept, hok, rfl⟩ := h
  obtain ⟨store', hpurge, hkept', hall⟩ := purgeExpiredKeys_spec now hkept
  have hkeyNodes : store'.keyNodes = purgeExpiredKeys now store.keyNodes := keyNodes_purged hall
  refine ⟨store', hpurge, hkept', hok.purge now, ?_⟩
  rw [LayerStore.maps, LayerStore.maps, hkeyNodes, named_purge]

section
variable [Field D] [LinearOrder D]

/-- **A change has a result in memory**: no assertion fails for an operation that a request has queued. -/
theorem HasMaps.change {env : SearchEnv D Nat} {store : LayerStore D} {layers : Layers D}
    (h : HasMaps env.toPanDbEnv store layers) {op : Op D}
    (hreq : Requested op.body) (hmutates : op.body.mutates = true) :
    ∃ r, LayerStore.handleOp env op store = some r := by
  obtain ⟨hkept, hok, rfl⟩ := h
  rw [← Option.ne_none_iff_exists']
  intro hnone
  have hfails : storeStep env store (.operation op) = none := by
    rw [storeStep, LayerStore.workerDoWork, hnone]
    rfl
  obtain ⟨putOp, keyNodes, hbody, hlayer, hput⟩ := (storeStep_eq_none hkept hmutates).1 hfails
  obtain ⟨hput', -⟩ : PutOpOk putOp ∧ RecordKeys putOp.layerName putOp.key := by
    have hok := hreq.ok
    rwa [hbody] at hok
  have hname : CKey putOp.layerName := by
    have hname := hreq.layer hmutates
    rwa [hbody] at hname
  have hwf : WellFormed ((keyNodes putOp.key).getD newKeyNode).properties := by
    cases hk : keyNodes putOp.key with
    | none => exact wellFormed_none
    | some keyNode => exact (hok.record ((named_of_cKey hname).trans hlayer) hk).2
  obtain ⟨properties, hsome, -⟩ := putProperties_wellFormed hwf hput'
  rw [hput] at hsome
  cases hsome

variable [Dimension D] [ExactDimension D]

/-- **An operation in memory is one on the maps.** -/
theorem HasMaps.operation {env : SearchEnv D Nat} {store : LayerStore D} {layers : Layers D}
    (h : HasMaps env.toPanDbEnv store layers) {op : Op D}
    (hreq : Requested op.body) {r : OpResult D} (hr : LayerStore.handleOp env op store = some r) :
    workerDoWork env.qbounds op.body layers = some r.store.maps ∧ HasMaps env.toPanDbEnv r.store r.store.maps := by
  obtain ⟨hkept, hok, rfl⟩ := h
  obtain ⟨hkept', hstep⟩ := handleOp_spec hkept hr
  have hwork : workerDoWork env.qbounds op.body store.maps = some r.store.maps :=
    (workerDoWork_named env.toPanDbEnv hreq store.keyNodes).trans (by rw [hstep]; rfl)
  obtain ⟨layers', hwork', hok'⟩ := hok.work env.qbounds hreq.ok
  rw [hwork, Option.some.injEq] at hwork'
  exact ⟨hwork, hkept', hwork' ▸ hok', rfl⟩

/-- **The store in memory takes the steps of the maps.** -/
theorem store_simulation (env : SearchEnv D Nat) :
    System.Simulation ((storeSystem env).restrict (fun _ input => input.Requested)) (layersSystem env.qbounds)
      (HasMaps env.toPanDbEnv) id where
  init := hasMaps_empty env.toPanDbEnv
  step {store layers input store'} hrel hlegal hs := by
    refine ⟨hlegal.2, ?_⟩
    cases input with
    | operation op =>
      obtain ⟨r, hr, rfl⟩ := workerDoWork_store hs
      obtain ⟨hwork, hrel'⟩ := hrel.operation hlegal.2 hr
      exact ⟨_, hwork, hrel'⟩
    | purge now =>
      obtain ⟨store₁, hpurge, hrel'⟩ := hrel.purge now
      exact ⟨_, rfl, Option.some.inj (hpurge.symm.trans hs) ▸ hrel'⟩

end

theorem recordNames_lk : RecordNames (bytes "l") (bytes "k") := by
  constructor <;> decide

theorem requested_expiring : ∀ input ∈ expiringInputs, StoreInput.Requested input := by
  have hname : CKey (bytes "l\x00") := by decide
  have hlayer : bytes "l\x00" = bytes "l" ++ [0] := by decide
  have hkey : bytes "k\x00" = bytes "k" ++ [0] := by decide
  have hput : ∀ expiresAt, Requested (expiringPut expiresAt).body := fun expiresAt =>
    ⟨⟨⟨wellFormed_none, fun _ hp => absurd hp List.not_mem_nil, wellFormed_none,
      fun _ hp => absurd hp List.not_mem_nil⟩, bytes "l", bytes "k", hlayer, hkey, recordNames_lk⟩,
      fun _ => hname⟩
  intro input hinput
  rcases List.mem_cons.1 hinput with rfl | hinput
  · exact ⟨⟨bytes "l", hlayer, by constructor <;> decide⟩, fun _ => hname⟩
  rcases List.mem_cons.1 hinput with rfl | hinput
  · exact hput 5
  rcases List.mem_cons.1 hinput with rfl | hinput
  · trivial
  · rw [List.mem_singleton.1 hinput]
    exact hput 7

/-- A run of a store with one layer and one record. -/
theorem exists_expiring_run : ∃ h store keyNodes keyNode,
    ((storeSystem (worldEnv .flat)).restrict (fun _ input => input.Requested)).Run h store ∧
    h.map Prod.snd = expiringInputs ∧ store.maps (bytes "l\x00") = some keyNodes ∧
    keyNodes (bytes "k\x00") = some keyNode := by
  have hrun : ((storeSystem (worldEnv .flat)).exec expiringInputs emptyStore).any
      (fun store => ((store.keyNodes (bytes "l\x00")).bind
        (fun keyNodes => keyNodes (bytes "k\x00"))).isSome) = true := by
    decide
  obtain ⟨store, hstore, hsome⟩ := (Option.any_eq_true _ _).1 hrun
  obtain ⟨h, hr, hinputs⟩ := System.Run.of_exec _ System.Run.init hstore
  rw [List.map_nil, List.nil_append] at hinputs
  have hrequested : ∀ p ∈ h, StoreInput.Requested p.2 := fun p hp =>
    requested_expiring p.2 (hinputs ▸ List.mem_map_of_mem hp)
  obtain ⟨keyNode, hkeyNode⟩ := Option.isSome_iff_exists.1 hsome
  obtain ⟨keyNodes, hkeyNodes, hkeyNode⟩ := Option.bind_eq_some_iff.1 hkeyNode
  have hname : CKey (bytes "l\x00") := by decide
  exact ⟨h, store, keyNodes, keyNode, hr.restrict hrequested, hinputs, (named_of_cKey hname).trans hkeyNodes, hkeyNode⟩

/-- A PUT of a record of the layer `l`. -/
def dishPut (name : Bytes) (position : Option (Position2D ℚ)) (properties : Option SlipMap) (expiresAt : Int) : Op ℚ :=
  ⟨true, 0, .recordsPut
    ⟨bytes "l\x00", name ++ [0], position.getD ⟨0, 0⟩, position.isSome, properties, none, expiresAt⟩⟩

/-- Four records, of every type but one, and one of them expires. -/
def dishInputs : List (StoreInput ℚ) :=
  [.operation ⟨true, 0, .layersCreate (bytes "l\x00")⟩,
    .operation (dishPut (bytes "abde") (some ⟨10, 12⟩) none 9),
    .operation (dishPut (bytes "far") (some ⟨-45, 120⟩) none 0),
    .operation (dishPut (bytes "abcd") (some ⟨10, 10⟩) (putProperty none (bytes "price") (bytes "7")).join 0),
    .operation (dishPut (bytes "abce") none none 0)]

theorem requested_dishes : ∀ input ∈ dishInputs, StoreInput.Requested input := by
  have hname : CKey (bytes "l\x00") := by decide
  have hlayer : bytes "l\x00" = bytes "l" ++ [0] := by decide
  have hprice : Stored none (bytes "price") (bytes "7") := by decide +kernel
  have hput : ∀ {name : Bytes} {position : Option (Position2D ℚ)} {properties : Option SlipMap} {expiresAt : Int},
      RecordNames (bytes "l") name → WellFormed properties →
      (∀ p ∈ visited properties, p.1.head? ≠ some INT_PROPERTY_COMMON_PREFIX) →
      Requested (dishPut name position properties expiresAt).body :=
    fun hnames hwf hord => ⟨⟨⟨hwf, hord, wellFormed_none, fun _ hp => absurd hp List.not_mem_nil⟩,
      bytes "l", _, hlayer, rfl, hnames⟩, fun _ => hname⟩
  have hbare : ∀ p ∈ visited none, p.1.head? ≠ some INT_PROPERTY_COMMON_PREFIX := fun _ hp =>
    absurd hp List.not_mem_nil
  intro input hinput
  rcases List.mem_cons.1 hinput with rfl | hinput
  · exact ⟨⟨bytes "l", hlayer, by constructor <;> decide⟩, fun _ => hname⟩
  rcases List.mem_cons.1 hinput with rfl | hinput
  · exact hput (by constructor <;> decide) wellFormed_none hbare
  rcases List.mem_cons.1 hinput with rfl | hinput
  · exact hput (by constructor <;> decide) wellFormed_none hbare
  rcases List.mem_cons.1 hinput with rfl | hinput
  · exact hput (by constructor <;> decide) ⟨_, (show Holds none Lib.unbound from rfl).put hprice⟩ (by decide +kernel)
  · rw [List.mem_singleton.1 hinput]
    exact hput (by constructor <;> decide) wellFormed_none hbare

/-- A run of a store with these records, in the order of their keys. -/
theorem exists_dishes_run : ∃ h store db,
    ((storeSystem (worldEnv .flat)).restrict (fun _ input => input.Requested)).Run h store ∧
    h.map Prod.snd = dishInputs ∧ getPanDbByLayerName store.layers (bytes "l\x00") = some db ∧
    db.keyNodes.nodes.map Prod.fst = [bytes "abcd\x00", bytes "abce\x00", bytes "abde\x00", bytes "far\x00"] ∧
    db.keyNodes.nodes.map (fun n => (Layer.recordAt store.mem db n.2).slot.map (fun p => (p.latitude, p.longitude))) =
      [some (10, 10), none, some (10, 12), some (-45, 120)] := by
  have hrun : ((storeSystem (worldEnv .flat)).exec dishInputs emptyStore).any
      (fun store => (getPanDbByLayerName store.layers (bytes "l\x00")).any (fun db => decide (
        db.keyNodes.nodes.map Prod.fst = [bytes "abcd\x00", bytes "abce\x00", bytes "abde\x00", bytes "far\x00"] ∧
        db.keyNodes.nodes.map (fun n => (Layer.recordAt store.mem db n.2).slot.map (fun p => (p.latitude, p.longitude))) =
          [some (10, 10), none, some (10, 12), some (-45, 120)]))) = true := by
    decide +kernel
  obtain ⟨store, hstore, hsome⟩ := (Option.any_eq_true _ _).1 hrun
  obtain ⟨db, hdb, hnodes⟩ := (Option.any_eq_true _ _).1 hsome
  obtain ⟨h, hr, hinputs⟩ := System.Run.of_exec _ System.Run.init hstore
  rw [List.map_nil, List.nil_append] at hinputs
  have hrequested : ∀ p ∈ h, StoreInput.Requested p.2 := fun p hp =>
    requested_dishes p.2 (hinputs ▸ List.mem_map_of_mem hp)
  exact ⟨h, store, db, hr.restrict hrequested, hinputs, hdb, of_decide_eq_true hnodes⟩

end Pincaster
