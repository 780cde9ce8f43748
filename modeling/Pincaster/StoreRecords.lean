import Pincaster.LayerPurge
import Pincaster.Lib.Runs
/-!
# StoreRecords — the store in memory, by the records of its layers

What the workers do with the layers in memory (`LayerStore`) is, on the maps from keys to records, one update for each
operation (`stepLayers`), whatever the quad-trees and the expirables do on the way.  A purge is a filter.
-/
namespace Pincaster

open Lib (Bytes bytes cstr Heap System)

variable {D : Type}

/-! ## The maps of a store -/

/-- The records of the layers. -/
def LayerStore.keyNodes (store : LayerStore D) : Layers D := fun layerName =>
  (getPanDbByLayerName store.layers layerName).map (Layer.records store.mem)

/-- The records of a layer are set. -/
def setKeyNodes (layerName : Key) (keyNodes : Option (KeyNodes D)) (layers : Layers D) : Layers D := fun name =>
  if strEq name layerName then keyNodes else layers name

/-- A layer is created, unless there is one or the name is empty. -/
def addLayer (layerName : Key) (layers : Layers D) : Layers D :=
  match layers layerName with
  | some _ => layers
  | none => if cstr layerName = [] then layers else setKeyNodes layerName (some (fun _ => none)) layers

/-- A record is put into a layer, if there is one. -/
def putIntoLayer [LinearOrder D] (env : PanDbEnv D Nat) (putOp : RecordsPutOp D) (layers : Layers D) :
    Option (Layers D) :=
  match layers putOp.layerName with
  | none => some layers
  | some keyNodes => (Layer.putRecordOf env putOp ((keyNodes putOp.key).getD newKeyNode)).map (fun record =>
      setKeyNodes putOp.layerName (some (Function.update keyNodes putOp.key (some record))) layers)

/-- A record of a layer is deleted. -/
def deleteFromLayer (layerName key : Key) (layers : Layers D) : Layers D :=
  match layers layerName with
  | none => layers
  | some keyNodes => setKeyNodes layerName (some (Function.update keyNodes key none)) layers

/-- **What an operation does with the records.** -/
def stepLayers [LinearOrder D] (env : PanDbEnv D Nat) (body : OpBody D) (layers : Layers D) : Option (Layers D) :=
  match body with
  | .layersCreate layerName => some (addLayer layerName layers)
  | .layersDelete layerName => some (setKeyNodes layerName none layers)
  | .recordsPut putOp => putIntoLayer env putOp layers
  | .recordsDelete layerName key => some (deleteFromLayer layerName key layers)
  | _ => some layers

/-! ## The layers of a store -/

theorem strEq_iff {s t : Bytes} : strEq s t = true ↔ cstr s = cstr t := decide_eq_true_iff

theorem strEq_eq_false {s t : Bytes} : strEq s t = false ↔ cstr s ≠ cstr t := decide_eq_false_iff_not

/-- A name is equal to that of a layer when it is equal to one that is. -/
theorem strEq_congr {s t : Bytes} (h : strEq s t = true) (name : Bytes) : strEq name t = strEq name s := by
  rw [strEq, strEq, strEq_iff.1 h]

/-- Two layers of a store: their names and their key nodes are different. -/
def Layer.Apart (l l' : Layer D) : Prop := cstr l.name ≠ cstr l'.name ∧ ∀ a ∈ l.panDb.addrs, a ∉ l'.panDb.addrs

theorem Layer.Apart.symm {l l' : Layer D} (h : Layer.Apart l l') : Layer.Apart l' l :=
  ⟨h.1.symm, fun a ha ha' => h.2 a ha' ha⟩

/-- **The indexes of the layers are in step, and the layers are apart.** -/
structure LayerStore.Kept [LinearOrder D] (env : PanDbEnv D Nat) (store : LayerStore D) : Prop where
  dbs : ∀ l ∈ store.layers, Layer.Kept env store.mem l.panDb
  apart : store.layers.Pairwise Layer.Apart

section
variable {layers pre post : List (Layer D)} {layer : Layer D} {layerName : Key}

/-- The layer of a name and those around it. -/
theorem getPanDb_split {db : Layer.Db D} (h : getPanDbByLayerName layers layerName = some db) :
    ∃ pre layer post, layers = pre ++ layer :: post ∧ layer.panDb = db ∧ strEq layerName layer.name = true ∧
      ∀ l ∈ pre, strEq layerName l.name = false := by
  obtain ⟨layer, hfind, hdb⟩ := Option.map_eq_some_iff.1 h
  obtain ⟨hname, pre, post, hlayers, hpre⟩ := List.find?_eq_some_iff_append.1 hfind
  refine ⟨pre, layer, post, hlayers, hdb, hname, fun l hl => ?_⟩
  rw [← Bool.not_eq_true']
  exact hpre l hl

theorem setLayer_split (hname : strEq layerName layer.name = true)
    (db : Layer.Db D) : ∀ {pre : List (Layer D)}, (∀ l ∈ pre, strEq layerName l.name = false) →
    setLayer layerName db (pre ++ layer :: post) = pre ++ { layer with panDb := db } :: post
  | [], _ => by rw [List.nil_append, setLayer, if_pos hname, List.nil_append]
  | l :: pre, hpre => by
    obtain ⟨hl, hpre⟩ := List.forall_mem_cons.1 hpre
    rw [List.cons_append, setLayer, if_neg (by rw [hl]; exact Bool.false_ne_true), setLayer_split hname db hpre,
      List.cons_append]

/-- **The layer of a name is found between the others.** -/
theorem getPanDb_middle (hapart : ∀ l ∈ pre ++ post, Layer.Apart layer l) (name : Key) :
    getPanDbByLayerName (pre ++ layer :: post) name =
      if strEq name layer.name then some layer.panDb else getPanDbByLayerName (pre ++ post) name := by
  rw [getPanDbByLayerName, getPanDbByLayerName, List.find?_append, List.find?_append]
  split
  · rename_i hname
    have hpre : pre.find? (fun l => strEq name l.name) = none := List.find?_eq_none.2 (fun l hl hl' =>
      (hapart l (List.mem_append_left _ hl)).1 ((strEq_iff.1 hname).symm.trans (strEq_iff.1 hl')))
    rw [hpre, Option.none_or, List.find?_cons, hname]
    rfl
  · rename_i hname
    rw [List.find?_cons, Bool.eq_false_iff.2 hname]

end

/-! ## What becomes of the other layers -/

section
variable [LinearOrder D] {env : PanDbEnv D Nat} {mem mem' : Layer.Memory} {pre post : List (Layer D)} {layer : Layer D}

/-- A layer and those around it. -/
theorem LayerStore.kept_middle : LayerStore.Kept env ⟨mem, pre ++ layer :: post⟩ ↔
    Layer.Kept env mem layer.panDb ∧ LayerStore.Kept env ⟨mem, pre ++ post⟩ ∧
      ∀ l ∈ pre ++ post, Layer.Apart layer l := by
  have hperm : (pre ++ layer :: post).Perm (layer :: (pre ++ post)) := List.perm_middle
  constructor
  · intro h
    have hapart := h.apart
    rw [List.pairwise_middle Layer.Apart.symm, List.pairwise_cons] at hapart
    exact ⟨h.dbs layer (by simp), ⟨fun l hl => h.dbs l (hperm.mem_iff.2 (List.mem_cons_of_mem _ hl)), hapart.2⟩,
      hapart.1⟩
  · rintro ⟨hlayer, h, hapart⟩
    refine ⟨fun l hl => ?_, ?_⟩
    · rcases List.mem_cons.1 (hperm.mem_iff.1 hl) with rfl | hl
      · exact hlayer
      · exact h.dbs l hl
    · rw [List.pairwise_middle Layer.Apart.symm]
      exact .cons hapart h.apart

/-- **An operation on one layer leaves the others.** -/
theorem LayerStore.Kept.frame (h : LayerStore.Kept env ⟨mem, pre ++ layer :: post⟩) {db' : Layer.Db D}
    (hstep : Layer.Step mem layer.panDb mem' db') : LayerStore.Kept env ⟨mem', pre ++ post⟩ ∧
      ∀ l ∈ pre ++ post, Layer.records mem' l.panDb = Layer.records mem l.panDb := by
  obtain ⟨hlayer, hothers, hapart⟩ := LayerStore.kept_middle.1 h
  have hsame (l : Layer D) (hl : l ∈ pre ++ post) :=
    hstep.same hlayer.toIndexed (hothers.dbs l hl).toIndexed (hapart l hl).symm.2
  exact ⟨⟨fun l hl => (hsame l hl).kept (hothers.dbs l hl), hothers.apart⟩,
    fun l hl => (hsame l hl).records (hothers.dbs l hl).toIndexed⟩

omit [LinearOrder D] in
/-- The records of the layers that stay. -/
theorem keyNodes_congr {layers : List (Layer D)}
    (h : ∀ l ∈ layers, Layer.records mem' l.panDb = Layer.records mem l.panDb) :
    LayerStore.keyNodes ⟨mem', layers⟩ = LayerStore.keyNodes ⟨mem, layers⟩ := by
  funext name
  rw [LayerStore.keyNodes, LayerStore.keyNodes, getPanDbByLayerName, Option.map_map, Option.map_map]
  cases hfind : layers.find? (fun l => strEq name l.name) with
  | none => rfl
  | some l => exact congrArg some (h l (List.mem_of_find?_eq_some hfind))

omit [LinearOrder D] in
/-- The records of one layer and of those around it. -/
theorem keyNodes_middle (hapart : ∀ l ∈ pre ++ post, Layer.Apart layer l) {layerName : Key}
    (hname : strEq layerName layer.name = true) : LayerStore.keyNodes ⟨mem, pre ++ layer :: post⟩ =
      setKeyNodes layerName (some (Layer.records mem layer.panDb)) (LayerStore.keyNodes ⟨mem, pre ++ post⟩) := by
  funext name
  rw [LayerStore.keyNodes, getPanDb_middle hapart, setKeyNodes, strEq_congr hname]
  split_ifs <;> rfl

omit [LinearOrder D] in
theorem setKeyNodes_idem (layerName : Key) (keyNodes keyNodes' : Option (KeyNodes D)) (layers : Layers D) :
    setKeyNodes layerName keyNodes' (setKeyNodes layerName keyNodes layers) =
      setKeyNodes layerName keyNodes' layers := by
  funext name
  rw [setKeyNodes, setKeyNodes, setKeyNodes]
  split_ifs <;> rfl

/-- **One layer changes.** -/
theorem LayerStore.Kept.set (h : LayerStore.Kept env ⟨mem, pre ++ layer :: post⟩) {db' : Layer.Db D}
    (hkept : Layer.Kept env mem' db') (hstep : Layer.Step mem layer.panDb mem' db') {layerName : Key}
    (hname : strEq layerName layer.name = true) :
    LayerStore.Kept env ⟨mem', pre ++ { layer with panDb := db' } :: post⟩ ∧
      LayerStore.keyNodes ⟨mem', pre ++ { layer with panDb := db' } :: post⟩ =
        setKeyNodes layerName (some (Layer.records mem' db')) (LayerStore.keyNodes ⟨mem, pre ++ layer :: post⟩) := by
  obtain ⟨hothers, hrecords⟩ := h.frame hstep
  obtain ⟨hlayer, hold, hapart⟩ := LayerStore.kept_middle.1 h
  have hapart' : ∀ l ∈ pre ++ post, Layer.Apart { layer with panDb := db' } l := by
    refine fun l hl => ⟨(hapart l hl).1, fun a ha ha' => ?_⟩
    rcases hstep.addrs a ha with hmem | hle
    · exact (hapart l hl).2 a hmem ha'
    · exact absurd ((hold.dbs l hl).toIndexed.lt_brk ha') (Nat.not_lt.2 hle)
  refine ⟨LayerStore.kept_middle.2 ⟨hkept, hothers, hapart'⟩, ?_⟩
  rw [keyNodes_middle hapart' hname, keyNodes_middle hapart hname, keyNodes_congr hrecords, setKeyNodes_idem]

/-- **A layer goes.** -/
theorem LayerStore.Kept.erase (h : LayerStore.Kept env ⟨mem, pre ++ layer :: post⟩) {layerName : Key}
    (hname : strEq layerName layer.name = true) : ∃ mem', Layer.freePanDb mem layer.panDb = some mem' ∧
      LayerStore.Kept env ⟨mem', pre ++ post⟩ ∧ LayerStore.keyNodes ⟨mem', pre ++ post⟩ =
        setKeyNodes layerName none (LayerStore.keyNodes ⟨mem, pre ++ layer :: post⟩) := by
  obtain ⟨hlayer, hold, hapart⟩ := LayerStore.kept_middle.1 h
  obtain ⟨mem', db', hfree, hstep⟩ := Layer.freePanDbKeyNodes_spec _ hlayer.toIndexed rfl
  obtain ⟨hothers, hrecords⟩ := h.frame hstep
  refine ⟨mem', by rw [Layer.freePanDb, hfree]; rfl, hothers, ?_⟩
  rw [keyNodes_middle hapart hname, setKeyNodes_idem, keyNodes_congr hrecords]
  funext name
  rw [setKeyNodes]
  split
  · rename_i heq
    rw [LayerStore.keyNodes, Option.map_eq_none_iff, getPanDbByLayerName, Option.map_eq_none_iff, List.find?_eq_none]
    intro l hl hl'
    exact (hapart l hl).1 ((strEq_iff.1 hname).symm.trans ((strEq_iff.1 heq).symm.trans (strEq_iff.1 hl')))
  · rfl

/-- **A layer comes.** -/
theorem LayerStore.Kept.create {store : LayerStore D} (h : store.Kept env) {layerName : Key}
    (hnone : getPanDbByLayerName store.layers layerName = none) :
    LayerStore.Kept env { store with layers := store.layers ++ [⟨cstr layerName, Layer.initDb⟩] } ∧
      LayerStore.keyNodes { store with layers := store.layers ++ [⟨cstr layerName, Layer.initDb⟩] } =
        setKeyNodes layerName (some (fun _ => none)) store.keyNodes := by
  have hfind := List.find?_eq_none.1 (Option.map_eq_none_iff.1 hnone)
  have hcstr : cstr (cstr layerName) = cstr layerName := Lib.cstr_of_not_mem (Lib.zero_not_mem_cstr layerName)
  have hapart : ∀ l ∈ store.layers ++ [], Layer.Apart ⟨cstr layerName, Layer.initDb⟩ l := by
    intro l hl
    rw [List.append_nil] at hl
    refine ⟨fun heq => hfind l hl (strEq_iff.2 ?_), fun a ha => absurd ha List.not_mem_nil⟩
    rw [← heq, hcstr]
  refine ⟨LayerStore.kept_middle.2 ⟨Layer.initDb_kept env store.mem, by rw [List.append_nil]; exact h, hapart⟩, ?_⟩
  rw [keyNodes_middle hapart (strEq_iff.2 hcstr.symm), List.append_nil]
  rfl

/-! ## The purge -/

/-- What a purge leaves of a layer of the store. -/
def PurgedLayer (now : Int) (mem mem' : Layer.Memory) (l l' : Layer D) : Prop :=
  l'.name = l.name ∧ Layer.Purged now mem l.panDb mem' l'.panDb

omit [LinearOrder D] in
theorem PurgedLayer.apart {now : Int} {l l' other other' : Layer D} (h : PurgedLayer now mem mem' l l')
    (h' : PurgedLayer now mem mem' other other') (hapart : Layer.Apart l other) : Layer.Apart l' other' := by
  refine ⟨?_, fun a ha ha' => hapart.2 a (h.2.addrs ha) (h'.2.addrs ha')⟩
  rw [h.1, h'.1]
  exact hapart.1

omit [LinearOrder D] in
theorem exists_purgedLayer {now : Int} {layers layers' : List (Layer D)}
    (h : List.Forall₂ (PurgedLayer now mem mem') layers layers') {l' : Layer D} (hl : l' ∈ layers') :
    ∃ l ∈ layers, PurgedLayer now mem mem' l l' := by
  induction h with
  | nil => cases hl
  | @cons l m ls ms hlm _ ih =>
    rcases List.mem_cons.1 hl with rfl | hl
    · exact ⟨l, List.mem_cons_self, hlm⟩
    · obtain ⟨l₁, hmem, hrel⟩ := ih hl
      exact ⟨l₁, List.mem_cons_of_mem _ hmem, hrel⟩

/-- **The layers are purged one after the other.** -/
theorem purgeLayers_spec (now : Int) : ∀ {layers : List (Layer D)} {mem : Layer.Memory},
    LayerStore.Kept env ⟨mem, layers⟩ → ∃ store', LayerStore.purgeLayers env now layers mem = some store' ∧
      store'.Kept env ∧ List.Forall₂ (PurgedLayer now mem store'.mem) layers store'.layers ∧
      ∀ other : Layer.Db D, Layer.Indexed mem other → (∀ l ∈ layers, ∀ a ∈ other.addrs, a ∉ l.panDb.addrs) →
        Layer.Same mem store'.mem other
  | [], mem, h => ⟨⟨mem, []⟩, rfl, h, .nil, fun other _ _ => .refl mem other⟩
  | layer :: layers, mem, h => by
    have h₀ : LayerStore.Kept env ⟨mem, [] ++ layer :: layers⟩ := h
    obtain ⟨hlayer, hrest, hapart⟩ := LayerStore.kept_middle.1 h₀
    obtain ⟨mem₁, db₁, hpurge, h₁, hstep₁, hpurged₁⟩ :=
      Layer.purgeExpiredKeysFromLayer_spec now (layer.panDb.expirables.length + 1) hlayer (Nat.lt_succ_self _)
    have hsame₁ (l : Layer D) (hl : l ∈ layers) : Layer.Same mem mem₁ l.panDb :=
      hstep₁.same hlayer.toIndexed (hrest.dbs l hl).toIndexed (hapart l hl).symm.2
    have hrest₁ : LayerStore.Kept env ⟨mem₁, layers⟩ :=
      ⟨fun l hl => (hsame₁ l hl).kept (hrest.dbs l hl), hrest.apart⟩
    obtain ⟨store', hpurge', h', hall, hframe⟩ := purgeLayers_spec now hrest₁
    have hsame' : Layer.Same mem₁ store'.mem db₁ :=
      hframe db₁ h₁.toIndexed (fun l hl a ha => (hapart l hl).2 a (hpurged₁.addrs ha))
    have hpurged : PurgedLayer now mem store'.mem layer { layer with panDb := db₁ } :=
      ⟨rfl, hpurged₁.after h₁.toIndexed hsame'⟩
    have hall' : List.Forall₂ (PurgedLayer now mem store'.mem) layers store'.layers := by
      have hmem : ∀ l ∈ layers, Layer.Indexed mem l.panDb ∧ Layer.Same mem mem₁ l.panDb := fun l hl =>
        ⟨(hrest.dbs l hl).toIndexed, hsame₁ l hl⟩
      refine ((List.forall₂_and_left _ _).2 ⟨hmem, hall⟩).imp ?_
      rintro l l' ⟨⟨hindexed, hsame⟩, hname, hlater⟩
      exact ⟨hname, hlater.before hindexed hsame⟩
    rw [LayerStore.purgeLayers, hpurge]
    simp only [Option.bind_eq_bind, Option.bind_some, hpurge']
    refine ⟨_, rfl, ⟨?_, .cons (fun l' hl' => ?_) h'.apart⟩, .cons hpurged hall', fun other hother hout => ?_⟩
    · exact List.forall_mem_cons.2 ⟨hsame'.kept h₁, h'.dbs⟩
    · obtain ⟨l, hl, hlater⟩ := exists_purgedLayer hall' hl'
      exact hpurged.apart hlater (hapart l hl)
    · obtain ⟨hhead, htail⟩ := List.forall_mem_cons.1 hout
      have hsame := hstep₁.same hlayer.toIndexed hother hhead
      exact hsame.trans (hframe other (hsame.indexed hother) htail)

omit [LinearOrder D] in
/-- **The records that a purge leaves in a store.** -/
theorem keyNodes_purged {now : Int} {layers layers' : List (Layer D)}
    (h : List.Forall₂ (PurgedLayer now mem mem') layers layers') :
    LayerStore.keyNodes ⟨mem', layers'⟩ = purgeExpiredKeys now (LayerStore.keyNodes ⟨mem, layers⟩) := by
  funext name
  rw [purgeExpiredKeys, LayerStore.keyNodes, LayerStore.keyNodes, getPanDbByLayerName, getPanDbByLayerName]
  induction h with
  | nil => rfl
  | @cons l l' ls ls' hl _ ih =>
    rw [List.find?_cons, List.find?_cons, hl.1]
    split
    · exact congrArg some (funext hl.2.records_eq)
    · exact ih

/-- **`purge_expired_keys`** never fails, and leaves the records that have not expired. -/
theorem purgeExpiredKeys_spec (now : Int) {store : LayerStore D} (h : store.Kept env) :
    ∃ store', LayerStore.purgeExpiredKeys env now store = some store' ∧ store'.Kept env ∧
      List.Forall₂ (PurgedLayer now store.mem store'.mem) store.layers store'.layers := by
  unfold LayerStore.purgeExpiredKeys
  split
  · have h₀ : LayerStore.Kept env ⟨store.mem, store.layers⟩ := h
    obtain ⟨store', hpurge, h', hall, -⟩ := purgeLayers_spec now h₀
    exact ⟨store', hpurge, h', hall⟩
  · rename_i hnone
    refine ⟨store, rfl, h, List.forall₂_same.2 (fun l hl => ⟨rfl, .refl (h.dbs l hl).toIndexed ?_⟩)⟩
    refine (h.dbs l hl).toIndexed.unexpired (fun exp hexp => ?_)
    by_contra hle
    refine hnone (List.any_eq_true.2 ⟨l, hl, ?_⟩)
    rw [hexp, Option.any_some, decide_eq_true_eq]
    omega

end

/-! ## The operations -/

theorem sendOpReply_store {op : Op D} {store : LayerStore D} {json : Option (ReplyJson D)} {r : OpResult D}
    (h : sendOpReply op store json = some r) : r.store = store := by
  unfold sendOpReply at h
  split at h
  · rw [Option.some.injEq] at h
    rw [← h]
  · obtain ⟨json, -, rfl⟩ := Option.map_eq_some_iff.1 h
    rfl

/-- A status is always sent. -/
theorem sendOpReply_some (op : Op D) (store : LayerStore D) (json : ReplyJson D) :
    ∃ r, sendOpReply op store (some json) = some r ∧ r.store = store := by
  unfold sendOpReply
  split
  · exact ⟨_, rfl, rfl⟩
  · exact ⟨_, rfl, rfl⟩

theorem opError_store {ret : Int} {store : LayerStore D} {r : OpResult D} (h : opError ret store = some r) :
    r.store = store := by
  rw [opError, Option.some.injEq] at h
  rw [← h]

section
variable [LinearOrder D] {env : PanDbEnv D Nat} {store : LayerStore D} {op : Op D} {r : OpResult D}

omit [LinearOrder D] in
theorem keyNodes_eq_none {layerName : Key} (h : getPanDbByLayerName store.layers layerName = none) :
    store.keyNodes layerName = none := by
  rw [LayerStore.keyNodes, h, Option.map_none]

omit [LinearOrder D] in
theorem keyNodes_eq_some {layerName : Key} {db : Layer.Db D}
    (h : getPanDbByLayerName store.layers layerName = some db) :
    store.keyNodes layerName = some (Layer.records store.mem db) := by
  rw [LayerStore.keyNodes, h, Option.map_some]

/-- **`handle_op_layers_create`** -/
theorem handleOpLayersCreate_spec (h : store.Kept env) (op : Op D) (layerName : Key) :
    ∃ r, LayerStore.handleOpLayersCreate op layerName store = some r ∧ r.store.Kept env ∧
      r.store.keyNodes = addLayer layerName store.keyNodes := by
  unfold LayerStore.handleOpLayersCreate createPanDb addLayer
  cases hdb : getPanDbByLayerName store.layers layerName with
  | some db =>
    obtain ⟨r, hr, hstore⟩ := sendOpReply_some op store (.status (bytes "existing"))
    rw [keyNodes_eq_some hdb]
    exact ⟨r, hr, hstore ▸ h, congrArg _ hstore⟩
  | none =>
    rw [keyNodes_eq_none hdb]
    by_cases hempty : cstr layerName = []
    · simp only [if_pos hempty]
      obtain ⟨r, hr, hstore⟩ := sendOpReply_some op store (.status (bytes "error"))
      exact ⟨r, hr, hstore ▸ h, congrArg _ hstore⟩
    · simp only [if_neg hempty]
      obtain ⟨hkept, hkeyNodes⟩ := h.create hdb
      obtain ⟨r, hr, hstore⟩ := sendOpReply_some op
        { store with layers := store.layers ++ [⟨cstr layerName, Layer.initDb⟩] } (.status (bytes "created"))
      exact ⟨r, hr, hstore ▸ hkept, hstore ▸ hkeyNodes⟩

omit [LinearOrder D] in
/-- The records of a layer are set to what they are. -/
theorem setKeyNodes_self (layerName : Key) :
    setKeyNodes layerName (store.keyNodes layerName) store.keyNodes = store.keyNodes := by
  funext name
  rw [setKeyNodes]
  split
  · rename_i hname
    rw [LayerStore.keyNodes, LayerStore.keyNodes, getPanDbByLayerName, getPanDbByLayerName]
    simp only [strEq, strEq_iff.1 hname]
  · rfl

/-- **One layer changes**, found by its name. -/
theorem LayerStore.Kept.setLayer (h : store.Kept env) {layerName : Key} {db db' : Layer.Db D} {mem' : Layer.Memory}
    (hdb : getPanDbByLayerName store.layers layerName = some db) (hkept : Layer.Kept env mem' db')
    (hstep : Layer.Step store.mem db mem' db') :
    LayerStore.Kept env ⟨mem', setLayer layerName db' store.layers⟩ ∧
      LayerStore.keyNodes ⟨mem', Pincaster.setLayer layerName db' store.layers⟩ =
        setKeyNodes layerName (some (Layer.records mem' db')) store.keyNodes := by
  obtain ⟨pre, layer, post, hlayers, rfl, hname, hpre⟩ := getPanDb_split hdb
  obtain ⟨mem, layers⟩ := store
  subst hlayers
  rw [setLayer_split hname db' hpre]
  exact h.set hkept hstep hname

/-- **`handle_op_layers_delete`** -/
theorem handleOpLayersDelete_spec (h : store.Kept env) (op : Op D) (layerName : Key) :
    ∃ r, LayerStore.handleOpLayersDelete op layerName store = some r ∧ r.store.Kept env ∧
      r.store.keyNodes = setKeyNodes layerName none store.keyNodes := by
  unfold LayerStore.handleOpLayersDelete LayerStore.deleteLayerByLayerName
  cases hdb : getPanDbByLayerName store.layers layerName with
  | none =>
    rw [← keyNodes_eq_none hdb, setKeyNodes_self]
    exact ⟨_, rfl, h, rfl⟩
  | some db =>
    obtain ⟨pre, layer, post, hlayers, rfl, hname, hpre⟩ := getPanDb_split hdb
    obtain ⟨mem, layers⟩ := store
    subst hlayers
    obtain ⟨mem', hfree, hkept, hkeyNodes⟩ := h.erase hname
    have herase : (pre ++ layer :: post).eraseP (fun layer => strEq layerName layer.name) = pre ++ post := by
      rw [List.eraseP_append_right _ (fun l hl => by rw [hpre l hl]; exact Bool.false_ne_true), List.eraseP_cons, hname]
      rfl
    simp only [hfree, Option.map_some, herase, Option.bind_eq_bind, Option.bind_some]
    obtain ⟨r, hr, hstore⟩ := sendOpReply_some op ⟨mem', pre ++ post⟩ (.status (bytes "deleted"))
    exact ⟨r, hr, hstore ▸ hkept, hstore ▸ hkeyNodes⟩

/-- **`handle_op_records_put`** fails where the properties do. -/
theorem handleOpRecordsPut_spec [Sub D] (h : store.Kept env) (op : Op D) (putOp : RecordsPutOp D)
    {o : Option (Layers D)} (ho : putIntoLayer env putOp store.keyNodes = o) :
    (o = none → LayerStore.handleOpRecordsPut env op putOp store = none) ∧
    ∀ layers, o = some layers → ∃ r, LayerStore.handleOpRecordsPut env op putOp store = some r ∧ r.store.Kept env ∧
      r.store.keyNodes = layers := by
  unfold putIntoLayer at ho
  unfold LayerStore.handleOpRecordsPut
  cases hdb : getPanDbByLayerName store.layers putOp.layerName with
  | none =>
    rw [keyNodes_eq_none hdb] at ho
    subst ho
    refine ⟨fun hnone => absurd hnone (Option.some_ne_none _), fun layers hlayers => ⟨_, rfl, h, ?_⟩⟩
    exact Option.some.inj hlayers
  | some db =>
    rw [keyNodes_eq_some hdb] at ho
    obtain ⟨pre, layer, post, hsplit, rfl, -, -⟩ := getPanDb_split hdb
    obtain ⟨hnone, hsome⟩ := putRecord_spec (h.dbs layer (by rw [hsplit]; simp)) putOp rfl
    subst ho
    constructor
    · intro hfailed
      dsimp only
      rw [hnone (Option.map_eq_none_iff.1 hfailed)]
      rfl
    · intro layers hlayers
      obtain ⟨record, hrecord, rfl⟩ := Option.map_eq_some_iff.1 hlayers
      obtain ⟨mem', db', hput, hkept, hstep, hrecords⟩ := hsome record hrecord
      obtain ⟨hkept', hkeyNodes⟩ := h.setLayer hdb hkept hstep
      obtain ⟨r, hr, hstore⟩ := sendOpReply_some op ⟨mem', setLayer putOp.layerName db' store.layers⟩
        (.status (bytes "stored"))
      refine ⟨r, ?_, hstore ▸ hkept', ?_⟩
      · simp only [hput, Option.bind_eq_bind, Option.bind_some]
        exact hr
      · rw [hstore, hkeyNodes, hrecords]

/-- **`handle_op_records_delete`** -/
theorem handleOpRecordsDelete_spec [Sub D] (h : store.Kept env) (op : Op D) (layerName key : Key) :
    ∃ r, LayerStore.handleOpRecordsDelete env op layerName key store = some r ∧ r.store.Kept env ∧
      r.store.keyNodes = deleteFromLayer layerName key store.keyNodes := by
  unfold LayerStore.handleOpRecordsDelete getKeyNodeFromKey deleteFromLayer
  cases hdb : getPanDbByLayerName store.layers layerName with
  | none =>
    rw [keyNodes_eq_none hdb]
    exact ⟨_, rfl, h, rfl⟩
  | some db =>
    rw [keyNodes_eq_some hdb]
    obtain ⟨pre, layer, post, hsplit, rfl, -, -⟩ := getPanDb_split hdb
    have hlayer := h.dbs layer (by rw [hsplit]; simp)
    cases hfind : layer.panDb.keyNodes.find key with
    | none =>
      have hnone : Layer.records store.mem layer.panDb key = none := by
        rw [Layer.records, hfind, Option.map_none]
      refine ⟨⟨HTTP_NOTFOUND, store, []⟩, by simp only [hfind, opError], h, ?_⟩
      dsimp only
      rw [← hnone, Function.update_eq_self, ← keyNodes_eq_some hdb, setKeyNodes_self]
    | some n =>
      obtain ⟨hn, rfl⟩ := (Lib.RbTree.find_eq_some keyNodeCmp_total).1 hfind
      obtain ⟨mem', db', hdrop, hkept, hstep, -, hrecords, -⟩ := Layer.dropKeyNode_spec hlayer hn
      obtain ⟨hkept', hkeyNodes⟩ := h.setLayer hdb hkept hstep
      obtain ⟨r, hr, hstore⟩ := sendOpReply_some op ⟨mem', setLayer layerName db' store.layers⟩
        (.status (bytes "deleted"))
      refine ⟨r, ?_, hstore ▸ hkept', ?_⟩
      · simp only [hfind, hdrop, Option.bind_eq_bind, Option.bind_some]
        exact hr
      · rw [hstore, hkeyNodes, hrecords]

end

/-- A handler that only reads. -/
theorem read_store {op : Op D} {store : LayerStore D} {o : Option (Layer.Db D)}
    {json : Layer.Db D → Option (ReplyJson D)} {r : OpResult D}
    (hr : (match o with
      | none => opError HTTP_NOTFOUND store
      | some db => sendOpReply op store (json db)) = some r) : r.store = store := by
  cases o with
  | none => exact opError_store hr
  | some db => exact sendOpReply_store hr

theorem handleOpRecordsGet_store [LinearOrder D] {op : Op D} {store : LayerStore D} {layerName key : Key}
    {withLinks : Bool} {r : OpResult D}
    (hr : LayerStore.handleOpRecordsGet op layerName key withLinks store = some r) : r.store = store := by
  unfold LayerStore.handleOpRecordsGet at hr
  split at hr
  · exact opError_store hr
  · split at hr
    · exact opError_store hr
    · exact sendOpReply_store hr

/-- **Every operation follows the maps, and keeps the indexes of every layer in step.** -/
theorem handleOp_spec [Field D] [LinearOrder D] {env : SearchEnv D Nat} {op : Op D} {store : LayerStore D}
    {r : OpResult D} (h : store.Kept env.toPanDbEnv) (hr : LayerStore.handleOp env op store = some r) :
    r.store.Kept env.toPanDbEnv ∧ stepLayers env.toPanDbEnv op.body store.keyNodes = some r.store.keyNodes := by
  have hread : r.store = store → stepLayers env.toPanDbEnv op.body store.keyNodes = some store.keyNodes →
      r.store.Kept env.toPanDbEnv ∧ stepLayers env.toPanDbEnv op.body store.keyNodes = some r.store.keyNodes := by
    intro hstore hstep
    rw [hstore]
    exact ⟨h, hstep⟩
  unfold LayerStore.handleOp at hr
  cases hbody : op.body with
  | systemPing =>
    rw [hbody] at hr hread
    exact hread (sendOpReply_store hr) rfl
  | layersIndex =>
    rw [hbody] at hr hread
    exact hread (sendOpReply_store hr) rfl
  | layersCreate layerName =>
    rw [hbody] at hr
    obtain ⟨r', hr', hkept, hkeyNodes⟩ := handleOpLayersCreate_spec h op layerName
    rw [← Option.some.inj (hr'.symm.trans hr)]
    exact ⟨hkept, congrArg some hkeyNodes.symm⟩
  | layersDelete layerName =>
    rw [hbody] at hr
    obtain ⟨r', hr', hkept, hkeyNodes⟩ := handleOpLayersDelete_spec h op layerName
    rw [← Option.some.inj (hr'.symm.trans hr)]
    exact ⟨hkept, congrArg some hkeyNodes.symm⟩
  | recordsPut putOp =>
    rw [hbody] at hr
    change LayerStore.handleOpRecordsPut env.toPanDbEnv op putOp store = some r at hr
    change _ ∧ putIntoLayer env.toPanDbEnv putOp store.keyNodes = _
    obtain ⟨hnone, hsome⟩ := handleOpRecordsPut_spec h op putOp rfl
    cases ho : putIntoLayer env.toPanDbEnv putOp store.keyNodes with
    | none =>
      rw [hnone ho] at hr
      cases hr
    | some layers =>
      obtain ⟨r', hr', hkept, hkeyNodes⟩ := hsome layers ho
      rw [hr, Option.some.injEq] at hr'
      rw [hr', hkeyNodes]
      exact ⟨hkept, rfl⟩
  | recordsGet layerName key withLinks =>
    rw [hbody] at hr hread
    exact hread (handleOpRecordsGet_store hr) rfl
  | recordsDelete layerName key =>
    rw [hbody] at hr
    obtain ⟨r', hr', hkept, hkeyNodes⟩ := handleOpRecordsDelete_spec h op layerName key
    rw [← Option.some.inj (hr'.symm.trans hr)]
    exact ⟨hkept, congrArg some hkeyNodes.symm⟩
  | searchNearby layerName position options =>
    rw [hbody] at hr hread
    exact hread (read_store hr) rfl
  | searchInRect layerName rect options =>
    rw [hbody] at hr hread
    exact hread (read_store hr) rfl
  | searchInKeys layerName pattern options =>
    rw [hbody] at hr hread
    exact hread (read_store hr) rfl

end Pincaster
