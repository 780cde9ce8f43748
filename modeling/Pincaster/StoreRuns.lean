import Pincaster.SearchLaws
import Pincaster.StoreRecords
/-!
# StoreRuns — runs of the store in memory

The workers take one operation after the other, and the purge may come at any time.  In every state of a run the
expirables of a layer are those of its records, with the times of their last PUTs.
-/
namespace Pincaster

open Lib (Bytes bytes cstr Heap System)

variable {D : Type}

/-- What happens to a store: an operation or a purge. -/
inductive StoreInput (D : Type) where
  | operation (op : Op D)
  | purge (now : Int)

def emptyStore : LayerStore D := ⟨⟨Heap.empty, Heap.empty⟩, []⟩

section
variable [Field D] [LinearOrder D]

def storeStep (env : SearchEnv D Nat) (store : LayerStore D) : StoreInput D → Option (LayerStore D)
  | .operation op => (LayerStore.workerDoWork env op store).map OpResult.store
  | .purge now => LayerStore.purgeExpiredKeys env.toPanDbEnv now store

def storeSystem (env : SearchEnv D Nat) : System (LayerStore D) (StoreInput D) where
  init := emptyStore
  legal _ _ := True
  step := storeStep env

end

/-- The time that an input puts for a record. -/
def StoreInput.expiresAt (layerName key : Key) : StoreInput D → Option Int
  | .operation op => match op.body with
    | .recordsPut putOp =>
      if strEq layerName putOp.layerName ∧ key = putOp.key then some putOp.expiresAt else none
    | _ => none
  | .purge _ => none

/-- The time of the last PUT of a record. -/
def lastExpiresAt (layerName key : Key) (h : List (LayerStore D × StoreInput D)) : Option Int :=
  h.reverse.findSome? (fun p => p.2.expiresAt layerName key)

theorem lastExpiresAt_snoc (layerName key : Key) (h : List (LayerStore D × StoreInput D))
    (p : LayerStore D × StoreInput D) :
    lastExpiresAt layerName key (h ++ [p]) = (p.2.expiresAt layerName key).or (lastExpiresAt layerName key h) := by
  rw [lastExpiresAt, List.reverse_append, List.reverse_singleton, List.singleton_append, List.findSome?_cons]
  cases p.2.expiresAt layerName key <;> rfl

/-- Some of the records of a store. -/
def Below (layers' layers : Layers D) : Prop :=
  ∀ layerName keyNodes' key keyNode, layers' layerName = some keyNodes' → keyNodes' key = some keyNode →
    ∃ keyNodes, layers layerName = some keyNodes ∧ keyNodes key = some keyNode

theorem Below.refl (layers : Layers D) : Below layers layers := fun _ keyNodes _ _ hl hk => ⟨keyNodes, hl, hk⟩

/-- One layer gets some of its records. -/
theorem Below.setKeyNodes {layers : Layers D} {layerName : Key} {keyNodes' : Option (KeyNodes D)}
    (h : ∀ name, strEq name layerName = true → ∀ records, keyNodes' = some records → ∀ key keyNode,
      records key = some keyNode → ∃ keyNodes, layers name = some keyNodes ∧ keyNodes key = some keyNode) :
    Below (setKeyNodes layerName keyNodes' layers) layers := by
  intro name records key keyNode hl hk
  rw [Pincaster.setKeyNodes] at hl
  split at hl
  · rename_i hname
    exact h name hname records hl key keyNode hk
  · exact ⟨records, hl, hk⟩

/-- The records that a purge leaves. -/
theorem below_purge (now : Int) (layers : Layers D) : Below (purgeExpiredKeys now layers) layers := by
  intro layerName records key keyNode hl hk
  obtain ⟨keyNodes, hold, rfl⟩ := Option.map_eq_some_iff.1 hl
  exact ⟨keyNodes, hold, (Option.filter_eq_some_iff.1 hk).1⟩

/-- The records of a store expire when their last PUTs say. -/
def LastPuts (h : List (LayerStore D × StoreInput D)) (layers : Layers D) : Prop :=
  ∀ layerName keyNodes key keyNode, layers layerName = some keyNodes → keyNodes key = some keyNode →
    ∃ ts, lastExpiresAt layerName key h = some ts ∧ keyNode.expirable = if ts ≠ 0 then some ts else none

section
variable [LinearOrder D] {env : PanDbEnv D Nat} {h : List (LayerStore D × StoreInput D)} {layers layers' : Layers D}

omit [LinearOrder D] in
/-- An input that puts nothing and leaves some of the records. -/
theorem LastPuts.of_kept (hputs : LastPuts h layers) {p : LayerStore D × StoreInput D}
    (hp : ∀ layerName key, p.2.expiresAt layerName key = none)
    (hkept : Below layers' layers) : LastPuts (h ++ [p]) layers' := by
  intro layerName keyNodes' key keyNode hl hk
  obtain ⟨keyNodes, hl', hk'⟩ := hkept layerName keyNodes' key keyNode hl hk
  rw [lastExpiresAt_snoc, hp, Option.none_or]
  exact hputs layerName keyNodes key keyNode hl' hk'

omit [LinearOrder D] in
/-- A PUT that found no layer. -/
theorem LastPuts.of_absent (hputs : LastPuts h layers) {store : LayerStore D} {op : Op D} {putOp : RecordsPutOp D}
    (hbody : op.body = .recordsPut putOp)
    (habsent : ∀ layerName, strEq layerName putOp.layerName = true → layers layerName = none) :
    LastPuts (h ++ [(store, .operation op)]) layers := by
  intro layerName keyNodes key keyNode hl hk
  rw [lastExpiresAt_snoc, StoreInput.expiresAt, hbody]
  dsimp only
  rw [if_neg, Option.none_or]
  · exact hputs layerName keyNodes key keyNode hl hk
  · rintro ⟨hname, -⟩
    rw [habsent layerName hname] at hl
    cases hl

/-- **A PUT sets the time of its record.** -/
theorem LastPuts.put (hputs : LastPuts h layers) {store : LayerStore D} {op : Op D} {putOp : RecordsPutOp D}
    (hbody : op.body = .recordsPut putOp)
    (hcongr : ∀ layerName, strEq layerName putOp.layerName = true → layers layerName = layers putOp.layerName)
    (hput : putIntoLayer env putOp layers = some layers') : LastPuts (h ++ [(store, .operation op)]) layers' := by
  unfold putIntoLayer at hput
  cases hlayer : layers putOp.layerName with
  | none =>
    rw [hlayer, Option.some.injEq] at hput
    exact hput ▸ hputs.of_absent hbody (fun layerName hname => (hcongr layerName hname).trans hlayer)
  | some keyNodes =>
    rw [hlayer] at hput
    obtain ⟨record, hrecord, rfl⟩ := Option.map_eq_some_iff.1 hput
    intro layerName keyNodes' key keyNode hl hk
    rw [lastExpiresAt_snoc, StoreInput.expiresAt, hbody]
    dsimp only
    rw [setKeyNodes] at hl
    by_cases hname : strEq layerName putOp.layerName = true
    · rw [if_pos hname, Option.some.injEq] at hl
      subst hl
      by_cases hkey : key = putOp.key
      · rw [if_pos ⟨hname, hkey⟩, Option.some_or]
        rw [hkey, Function.update_self, Option.some.injEq] at hk
        obtain ⟨properties, -, hrec⟩ := Option.map_eq_some_iff.1 hrecord
        exact ⟨_, rfl, by rw [← hk, ← hrec, putExpirable]⟩
      · rw [if_neg (fun hboth => hkey hboth.2), Option.none_or]
        rw [Function.update_of_ne hkey] at hk
        exact hputs layerName keyNodes key keyNode ((hcongr layerName hname).trans hlayer) hk
    · rw [if_neg (fun hboth => hname hboth.1), Option.none_or]
      rw [if_neg hname] at hl
      exact hputs layerName keyNodes' key keyNode hl hk

/-- **An operation sets the time of the record that it puts, and of no other one.** -/
theorem LastPuts.step (hputs : LastPuts h layers) {store : LayerStore D} {op : Op D}
    (hcongr : ∀ s t, strEq s t = true → layers s = layers t) (hstep : stepLayers env op.body layers = some layers') :
    LastPuts (h ++ [(store, .operation op)]) layers' := by
  have hother : (∀ putOp, op.body ≠ .recordsPut putOp) → Below layers' layers →
      LastPuts (h ++ [(store, .operation op)]) layers' := by
    intro hnot hbelow
    refine hputs.of_kept (fun layerName key => ?_) hbelow
    rw [StoreInput.expiresAt]
    split
    · rename_i putOp hbody
      exact absurd hbody (hnot putOp)
    · rfl
  cases hbody : op.body with
  | recordsPut putOp =>
    rw [hbody] at hstep
    exact hputs.put hbody (fun layerName hname => hcongr _ _ hname) hstep
  | layersCreate layerName =>
    rw [hbody] at hstep hother
    refine hother (fun _ hput => by cases hput) (Option.some.inj hstep ▸ ?_)
    unfold addLayer
    split
    · exact .refl layers
    · split
      · exact .refl layers
      · refine .setKeyNodes (fun _ _ records hrecords key keyNode hk => ?_)
        rw [← Option.some.inj hrecords] at hk
        cases hk
  | layersDelete layerName =>
    rw [hbody] at hstep hother
    exact hother (fun _ hput => by cases hput) (Option.some.inj hstep ▸ .setKeyNodes (fun _ _ _ hnone => by cases hnone))
  | recordsDelete layerName key =>
    rw [hbody] at hstep hother
    refine hother (fun _ hput => by cases hput) (Option.some.inj hstep ▸ ?_)
    unfold deleteFromLayer
    split
    · exact .refl layers
    · rename_i keyNodes hlayer
      refine .setKeyNodes (fun name hname records hrecords key' keyNode hk => ?_)
      refine ⟨keyNodes, (hcongr _ _ hname).trans hlayer, ?_⟩
      rw [← Option.some.inj hrecords] at hk
      by_cases hkey : key' = key
      · rw [hkey, Function.update_self] at hk
        cases hk
      · rwa [Function.update_of_ne hkey] at hk
  | _ =>
    rw [hbody] at hstep hother
    exact hother (fun _ hput => by cases hput) (Option.some.inj hstep ▸ .refl layers)

end

/-! ## Runs -/

section
variable [Field D] [LinearOrder D] {env : SearchEnv D Nat} {h : List (LayerStore D × StoreInput D)} {store : LayerStore D}

omit [Field D] in
theorem emptyStore_kept (env : PanDbEnv D Nat) : (emptyStore : LayerStore D).Kept env :=
  ⟨fun _ hl => absurd hl List.not_mem_nil, .nil⟩

omit [Field D] [LinearOrder D] in
/-- Layers are found by their names. -/
theorem keyNodes_congr_name (store : LayerStore D) {s t : Key} (hst : strEq s t = true) :
    store.keyNodes s = store.keyNodes t := by
  rw [LayerStore.keyNodes, LayerStore.keyNodes, getPanDbByLayerName, getPanDbByLayerName]
  simp only [strEq, strEq_iff.1 hst]

theorem workerDoWork_store {op : Op D} {store' : LayerStore D}
    (hs : (LayerStore.workerDoWork env op store).map OpResult.store = some store') :
    ∃ r, LayerStore.handleOp env op store = some r ∧ r.store = store' := by
  rw [LayerStore.workerDoWork, Option.map_map] at hs
  obtain ⟨r, hr, rfl⟩ := Option.map_eq_some_iff.1 hs
  refine ⟨r, hr, ?_⟩
  rw [Function.comp_apply]
  split_ifs <;> rfl

/-- **What every run keeps.** -/
theorem run_kept (hr : (storeSystem env).Run h store) : store.Kept env.toPanDbEnv ∧ LastPuts h store.keyNodes := by
  induction hr with
  | init =>
    exact ⟨emptyStore_kept _, fun layerName keyNodes key keyNode hl _ => by cases hl⟩
  | @snoc h store store' input _ _ hs ih =>
    obtain ⟨hkept, hputs⟩ := ih
    cases input with
    | operation op =>
      obtain ⟨r, hr, rfl⟩ := workerDoWork_store hs
      obtain ⟨hkept', hstep⟩ := handleOp_spec hkept hr
      exact ⟨hkept', hputs.step (fun s t hst => keyNodes_congr_name store hst) hstep⟩
    | purge now =>
      obtain ⟨store₁, hpurge, hkept', hall⟩ := purgeExpiredKeys_spec now hkept
      have heq : store₁ = store' := Option.some.inj (hpurge.symm.trans hs)
      subst heq
      have hkeyNodes : store₁.keyNodes = purgeExpiredKeys now store.keyNodes := keyNodes_purged hall
      exact ⟨hkept', hputs.of_kept (fun _ _ => rfl) (hkeyNodes ▸ below_purge now _)⟩

omit [Field D] in
/-- A layer of the store is found by its name. -/
theorem getPanDb_of_mem {env : PanDbEnv D Nat} (hkept : store.Kept env) {layer : Layer D} (hl : layer ∈ store.layers) :
    getPanDbByLayerName store.layers layer.name = some layer.panDb := by
  obtain ⟨pre, post, hsplit⟩ := List.append_of_mem hl
  obtain ⟨mem, layers⟩ := store
  subst hsplit
  obtain ⟨-, -, hapart⟩ := LayerStore.kept_middle.1 hkept
  rw [getPanDb_middle hapart, if_pos (strEq_iff.2 rfl)]

end

/-! ## The expirables -/

/-- **The expirables of a layer and its records with an expiration are in bijection.** -/
structure ExpirableBijection (mem : Layer.Memory) (db : Layer.Db D) : Prop where
  nodup : db.expirables.Nodup
  entry : ∀ n ∈ db.keyNodes.nodes, ∃ o, mem.expirableOf n.2 = some o ∧ ∀ e, o = some e → e ∈ db.expirables
  record : ∀ e ∈ db.expirables, ∃! n, n ∈ db.keyNodes.nodes ∧ mem.expirableOf n.2 = some (some e)

theorem Layer.Indexed.bijection {mem : Layer.Memory} {db : Layer.Db D} (h : Layer.Indexed mem db) :
    ExpirableBijection mem db := by
  refine ⟨h.nodup_expirables, fun n hn => ?_, fun e he => ?_⟩
  · obtain ⟨o, ho⟩ := h.node n.2 (Layer.mem_addrs hn)
    exact ⟨o, ho, fun e he => (h.back n.2 (Layer.mem_addrs hn) e (he ▸ ho)).1⟩
  · obtain ⟨a, ha, hof⟩ := h.entry e he
    obtain ⟨n, hn, rfl⟩ := List.mem_map.1 ha
    refine ⟨n, ⟨hn, hof⟩, fun m hm => ?_⟩
    exact Layer.key_unique h.nodup hm.1 hn (h.unique (Layer.mem_addrs hm.1) ha hm.2 hof)

/-- What is left of a key node and its record in a layer after a purge. -/
structure PurgeOutcome (now : Int) (mem : Layer.Memory) (db : Layer.Db D) (mem' : Layer.Memory) (db' : Layer.Db D) :
    Prop where
  subset : ∀ n ∈ db'.keyNodes.nodes, n ∈ db.keyNodes.nodes
  kept : ∀ n ∈ db.keyNodes.nodes, (∀ ts, (Layer.recordAt mem db n.2).expirable = some ts → now < ts) →
    n ∈ db'.keyNodes.nodes ∧ Layer.recordAt mem' db' n.2 = Layer.recordAt mem db n.2
  gone : ∀ n ∈ db.keyNodes.nodes, ∀ ts, (Layer.recordAt mem db n.2).expirable = some ts → ts ≤ now →
    (∀ m ∈ db'.keyNodes.nodes, m.1 ≠ n.1) ∧ db'.panDb.slots n.2 = none ∧
    (∀ ptr slot, db'.panDb.slot ptr = some slot → slot.keyNode ≠ some n.2) ∧
    ∀ e, mem.expirableOf n.2 = some (some e) → e ∉ db'.expirables

theorem Layer.Purged.outcome [LinearOrder D] {env : PanDbEnv D Nat} {now : Int} {mem mem' : Layer.Memory}
    {db db' : Layer.Db D} (hpurged : Layer.Purged now mem db mem' db') (h : Layer.Indexed mem db)
    (h' : Layer.Kept env mem' db') : PurgeOutcome now mem db mem' db' := by
  have hmem : ∀ n, n ∈ db'.keyNodes.nodes ↔ n ∈ db.keyNodes.nodes ∧ Layer.unexpired now mem db n = true := fun n => by
    rw [hpurged.nodes, List.mem_filter]
  refine ⟨fun n hn => ((hmem n).1 hn).1, fun n hn hleft => ?_, fun n hn ts hts hle => ?_⟩
  · have hn' : n ∈ db'.keyNodes.nodes := by
      refine (hmem n).2 ⟨hn, ?_⟩
      rw [Layer.unexpired, KeyNode.expired]
      split
      · rename_i ts hts
        have := hleft ts hts
        simp only [ge_iff_le, Bool.not_eq_true', decide_eq_false_iff_not]
        omega
      · rfl
    exact ⟨hn', hpurged.records n.2 (Layer.mem_addrs hn')⟩
  · have hexpired : Layer.unexpired now mem db n = false := by
      rw [Layer.unexpired, KeyNode.expired, hts]
      simpa using hle
    obtain ⟨hgone, hrest⟩ := hpurged.gone h h' hn hexpired
    refine ⟨fun m hm hkey => ?_, hrest⟩
    obtain ⟨hm', hleft⟩ := (hmem m).1 hm
    rw [Layer.node_unique hm' hn hkey, hexpired] at hleft
    exact Bool.false_ne_true hleft

section
variable [Field D] [LinearOrder D] {env : SearchEnv D Nat} {h : List (LayerStore D × StoreInput D)} {store : LayerStore D}

/-- **A change fails where the properties of a PUT do**: no other assertion fails. -/
theorem storeStep_eq_none (hkept : store.Kept env.toPanDbEnv) {op : Op D} (hmutates : op.body.mutates = true) :
    storeStep env store (.operation op) = none ↔ ∃ putOp keyNodes, op.body = .recordsPut putOp ∧
      store.keyNodes putOp.layerName = some keyNodes ∧
      putProperties ((keyNodes putOp.key).getD newKeyNode).properties putOp = none := by
  rw [storeStep, Option.map_eq_none_iff, LayerStore.workerDoWork, Option.map_eq_none_iff, LayerStore.handleOp]
  cases hbody : op.body with
  | recordsPut putOp =>
    obtain ⟨hnone, hsome⟩ := handleOpRecordsPut_spec hkept op putOp rfl
    have hfails : LayerStore.handleOpRecordsPut env.toPanDbEnv op putOp store = none ↔
        putIntoLayer env.toPanDbEnv putOp store.keyNodes = none := by
      refine ⟨fun hfail => ?_, hnone⟩
      cases ho : putIntoLayer env.toPanDbEnv putOp store.keyNodes with
      | none => rfl
      | some layers =>
        obtain ⟨r, hr, -⟩ := hsome layers ho
        rw [hfail] at hr
        cases hr
    refine hfails.trans ?_
    unfold putIntoLayer Layer.putRecordOf
    constructor
    · intro ho
      split at ho
      · cases ho
      · rename_i keyNodes hlayer
        rw [Option.map_map, Option.map_eq_none_iff] at ho
        exact ⟨putOp, keyNodes, rfl, hlayer, ho⟩
    · rintro ⟨putOp', keyNodes, hput, hlayer, hfail⟩
      rw [OpBody.recordsPut.injEq] at hput
      subst hput
      simp only [hlayer, hfail, Option.map_none]
  | layersCreate layerName =>
    obtain ⟨r, hr, -⟩ := handleOpLayersCreate_spec hkept op layerName
    simp [hr]
  | layersDelete layerName =>
    obtain ⟨r, hr, -⟩ := handleOpLayersDelete_spec hkept op layerName
    simp [hr]
  | recordsDelete layerName key =>
    obtain ⟨r, hr, -⟩ := handleOpRecordsDelete_spec hkept op layerName key
    simp [hr]
  | _ =>
    rw [hbody] at hmutates
    cases hmutates

/-- **The expiration index.** In every state of a run the expirables of a layer are in bijection with its records that
have one, and carry the time of the last PUT; no assertion fails but those of the properties of a PUT; and a purge
leaves the records without expiration and those whose time has not come. -/
theorem expiration_index (hr : (storeSystem env).Run h store) :
    (∀ layer ∈ store.layers, ExpirableBijection store.mem layer.panDb ∧
      ∀ n ∈ layer.panDb.keyNodes.nodes, ∀ e, store.mem.expirableOf n.2 = some (some e) →
        ∃ ts, store.mem.expirables.cells e = some ⟨ts, n.2⟩ ∧ ts ≠ 0 ∧ lastExpiresAt layer.name n.1 h = some ts) ∧
    (∀ op : Op D, op.body.mutates = true → (storeStep env store (.operation op) = none ↔
      ∃ putOp keyNodes, op.body = .recordsPut putOp ∧ store.keyNodes putOp.layerName = some keyNodes ∧
        putProperties ((keyNodes putOp.key).getD newKeyNode).properties putOp = none)) ∧
    ∀ now, ∃ store', storeStep env store (.purge now) = some store' ∧
      List.Forall₂ (fun l l' => l'.name = l.name ∧ PurgeOutcome now store.mem l.panDb store'.mem l'.panDb)
        store.layers store'.layers := by
  obtain ⟨hkept, hputs⟩ := run_kept hr
  refine ⟨fun layer hl => ⟨(hkept.dbs layer hl).toIndexed.bijection, fun n hn e he => ?_⟩,
    fun op hmutates => storeStep_eq_none hkept hmutates, fun now => ?_⟩
  · obtain ⟨-, ts, hcell, hne⟩ := (hkept.dbs layer hl).back n.2 (Layer.mem_addrs hn) e he
    obtain ⟨ts', hlast, hexp⟩ := hputs layer.name _ n.1 _ (keyNodes_eq_some (getPanDb_of_mem hkept hl))
      (Layer.records_eq_some (a := n.2) hn)
    refine ⟨ts, hcell, hne, hlast.trans (congrArg some ?_)⟩
    rw [Layer.recordAt_expirable he, Option.bind_some, hcell, Option.map_some] at hexp
    split_ifs at hexp
    exact (Option.some.inj hexp).symm
  · obtain ⟨store', hpurge, hkept', hall⟩ := purgeExpiredKeys_spec now hkept
    refine ⟨store', hpurge, ?_⟩
    obtain ⟨hlength, hlayers⟩ := List.forall₂_iff_zip.1 hall
    refine List.forall₂_iff_zip.2 ⟨hlength, fun {l l'} hmem => ?_⟩
    obtain ⟨hl, hl'⟩ := List.of_mem_zip hmem
    obtain ⟨hname, hpurged⟩ := hlayers hmem
    exact ⟨hname, hpurged.outcome (hkept.dbs l hl).toIndexed (hkept'.dbs l' hl')⟩

end

instance {env : SearchEnv ℚ Nat} (store : LayerStore ℚ) (input : StoreInput ℚ) :
    Decidable ((storeSystem env).legal store input) := inferInstanceAs (Decidable True)

/-- A PUT of a record without properties. -/
def expiringPut (expiresAt : Int) : Op ℚ :=
  ⟨true, 0, .recordsPut ⟨bytes "l\x00", bytes "k\x00", ⟨0, 0⟩, false, none, none, expiresAt⟩⟩

/-- A record that expires at 5 is put again to expire at 7. -/
def expiringInputs : List (StoreInput ℚ) :=
  [.operation ⟨true, 0, .layersCreate (bytes "l\x00")⟩, .operation (expiringPut 5), .purge 3,
    .operation (expiringPut 7)]

theorem expiration_index_twice : ∃ h store, (storeSystem (worldEnv .flat)).Run h store ∧
    h.map Prod.snd = expiringInputs ∧
    (∃ layer ∈ store.layers, layer.panDb.expirables = [0] ∧ ExpirableBijection store.mem layer.panDb) ∧
    ∃ store', storeStep (worldEnv .flat) store (.purge 6) = some store' := by
  have hrun : (((storeSystem (worldEnv .flat)).exec expiringInputs emptyStore).any (fun store =>
      store.layers.any (fun layer => layer.panDb.expirables = [0]))) = true := by decide
  obtain ⟨store, hstore, hlayers⟩ := (Option.any_eq_true _ _).1 hrun
  obtain ⟨layer, hl, hexp⟩ := List.any_eq_true.1 hlayers
  obtain ⟨h, hr, hinputs⟩ := System.Run.of_exec _ System.Run.init hstore
  obtain ⟨hindex, -, hpurge⟩ := expiration_index hr
  obtain ⟨store', hstore', -⟩ := hpurge 6
  exact ⟨h, store, hr, hinputs, ⟨layer, hl, of_decide_eq_true hexp, (hindex layer hl).1⟩, store', hstore'⟩

end Pincaster
