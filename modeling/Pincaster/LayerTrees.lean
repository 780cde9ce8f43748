import Pincaster.SearchLaws
import Pincaster.StoreRefine
/-!
# LayerTrees — the quad-trees of the layers are runs of the quad-tree

What the operations of the store and the purge do with the quad-tree of a layer are `add_slot` and
`remove_entry_from_key_node`, for key nodes without and with a slot and for positions inside the bounds.  So what is
said of the states of the quad-tree system holds of every layer of the store (`run_layers`).
-/
namespace Pincaster

open Lib (bytes Heap RbTree System)

variable {D : Type}

/-- A state that another one leads to. -/
theorem reachable_step {σ ι : Type} {S : System σ ι} {s s' : σ} {i : ι} (hr : S.Reachable s) (hlegal : S.legal s i)
    (hstep : S.step s i = some s') : S.Reachable s' := by
  obtain ⟨h, hr⟩ := hr
  exact ⟨_, hr.snoc hlegal hstep⟩

/-! ## One layer -/

namespace Layer

/-- What a function does with a layer leads from trees of the system to trees of the system. -/
def TreeStep [Sub D] [LinearOrder D] (env : PanDbEnv D Nat) (db db' : Db D) : Prop :=
  (panDbSystem env).Reachable db.panDb → (panDbSystem env).Reachable db'.panDb

section
variable [Sub D] [LinearOrder D] {env : PanDbEnv D Nat} {mem mem' : Memory} {db db' : Db D} {keyNode : Nat}

theorem TreeStep.trans {db₁ : Db D} (h : TreeStep env db db₁) (h' : TreeStep env db₁ db') : TreeStep env db db' :=
  fun hr => h' (h hr)

theorem TreeStep.of_eq (h : db'.panDb = db.panDb) : TreeStep env db db' := fun hr => h.symm ▸ hr

theorem removeSlot_tree (h : removeSlot env db keyNode = some db') : TreeStep env db db' := by
  intro hr
  unfold removeSlot at h
  split at h
  · rw [← Option.some.inj h]
    exact hr
  · rename_i hslot
    obtain ⟨panDb, hremove, rfl⟩ := Option.map_eq_some_iff.1 h
    have hstep : (panDbSystem env).step db.panDb (.removeEntry keyNode) = some (panDb.clearSlot keyNode) := by
      change (removeEntryFromKeyNode env db.panDb keyNode).map _ = _
      rw [hremove, Option.map_some]
    exact reachable_step (i := .removeEntry keyNode) hr hslot hstep

theorem addSlot_tree {panDb : PanDB D Nat} {position : Position2D D} (hslot : db.panDb.slots keyNode = none)
    (hin : positionIsInRect position env.qbounds)
    (h : addSlot env db.panDb ⟨position, some keyNode, none⟩ = some panDb) :
    TreeStep env db { db with panDb } :=
  fun hr => reachable_step (i := .addSlot keyNode position) hr ⟨hslot, hin⟩ h

omit [Sub D] [LinearOrder D] in
/-- Freeing a key node does nothing to the tree. -/
theorem freeKeyNode_panDb (h : freeKeyNode mem db keyNode = some (mem', db')) : db'.panDb = db.panDb := by
  unfold freeKeyNode at h
  obtain ⟨node, -, h⟩ := Option.bind_eq_some_iff.1 h
  cases hexp : node.expirable with
  | none =>
    simp only [hexp] at h
    split_ifs at h
    · cases h
    · cases h
      rfl
  | some expirable =>
    simp only [hexp] at h
    split_ifs at h
    · cases h
    · cases h
      rfl

theorem dropKeyNode_tree (h : dropKeyNode env mem db keyNode = some (mem', db')) : TreeStep env db db' := by
  obtain ⟨db₁, hslot, hfree⟩ := Option.bind_eq_some_iff.1 h
  have hpanDb := freeKeyNode_panDb hfree
  exact (removeSlot_tree hslot).trans (.of_eq (show db'.panDb = db₁.panDb from hpanDb))

/-- A new key node has an address without a slot. -/
theorem createKeyNode_tree (hkept : Kept env mem db) (key : Key) : TreeStep env db (createKeyNode mem db key).2.1 := by
  refine .of_eq ?_
  unfold createKeyNode
  split
  · rfl
  · have hslot : db.panDb.slots mem.keyNodes.brk = none := by
      by_contra hsome
      exact absurd (hkept.toIndexed.lt_brk (hkept.slots _ hsome)) (lt_irrefl _)
    change db.panDb.clearSlot mem.keyNodes.brk = db.panDb
    rw [PanDB.clearSlot, ← hslot, Function.update_eq_self]

end

end Layer

section
variable [Field D] [LinearOrder D] {env : PanDbEnv D Nat} {mem mem' : Layer.Memory} {db db' : Layer.Db D}

open Layer

theorem putPosition_tree {putOp : RecordsPutOp D} {keyNode : Nat}
    (h : LayerStore.putPosition env putOp db keyNode = some db') : TreeStep env db db' := by
  unfold LayerStore.putPosition at h
  split at h
  · rename_i hset
    rw [Bool.and_eq_true, decide_eq_true_eq] at hset
    split at h
    · rename_i hslot
      obtain ⟨panDb, hadd, rfl⟩ := Option.map_eq_some_iff.1 h
      exact addSlot_tree hslot hset.2 hadd
    · obtain ⟨slot, -, h⟩ := Option.bind_eq_some_iff.1 h
      split at h
      · rw [← Option.some.inj h]
        exact .of_eq rfl
      · obtain ⟨db₁, hremove, h⟩ := Option.bind_eq_some_iff.1 h
        obtain ⟨panDb, hadd, rfl⟩ := Option.map_eq_some_iff.1 h
        refine (removeSlot_tree hremove).trans (addSlot_tree ?_ hset.2 hadd)
        -- the pointer of the key node has just been cleared
        unfold removeSlot at hremove
        split at hremove
        · rename_i hnone
          rw [← Option.some.inj hremove]
          exact hnone
        · obtain ⟨panDb₁, -, rfl⟩ := Option.map_eq_some_iff.1 hremove
          exact Function.update_self _ _ _
  · rw [← Option.some.inj h]
    exact .of_eq rfl

omit [Field D] [LinearOrder D] in
/-- The expirables are no part of the tree. -/
theorem putExpirable_panDb {putOp : RecordsPutOp D} {keyNode : Nat}
    (h : LayerStore.putExpirable putOp mem db keyNode = some (mem', db')) : db'.panDb = db.panDb := by
  unfold LayerStore.putExpirable at h
  obtain ⟨node, -, h⟩ := Option.bind_eq_some_iff.1 h
  cases hexp : node.expirable with
  | none =>
    simp only [hexp] at h
    split_ifs at h
    · obtain ⟨expirables, -, h⟩ := Option.bind_eq_some_iff.1 h
      cases h
      rfl
    · cases h
      rfl
  | some expirable =>
    simp only [hexp] at h
    split_ifs at h
    · obtain ⟨exp, -, h⟩ := Option.bind_eq_some_iff.1 h
      by_cases hkey : exp.keyNode ≠ keyNode
      · rw [if_pos hkey] at h
        cases h
      · rw [if_neg hkey] at h
        split_ifs at h
        · obtain ⟨expirables, -, h⟩ := Option.bind_eq_some_iff.1 h
          cases h
          rfl
        · cases h
          rfl
    · obtain ⟨exp, -, h⟩ := Option.bind_eq_some_iff.1 h
      by_cases hkey : exp.keyNode ≠ keyNode
      · rw [if_pos hkey] at h
        cases h
      · rw [if_neg hkey] at h
        cases h
        rfl

theorem putRecord_tree {putOp : RecordsPutOp D} (hkept : Kept env mem db)
    (h : LayerStore.putRecord env putOp mem db = some (mem', db')) : TreeStep env db db' := by
  have hcreate := createKeyNode_tree hkept putOp.key
  unfold LayerStore.putRecord at h
  generalize createKeyNode mem db putOp.key = created at h hcreate
  obtain ⟨mem₁, db₁, key, keyNode⟩ := created
  obtain ⟨db₂, hposition, h⟩ := Option.bind_eq_some_iff.1 h
  obtain ⟨node, -, h⟩ := Option.bind_eq_some_iff.1 h
  obtain ⟨properties, -, h⟩ := Option.bind_eq_some_iff.1 h
  exact (hcreate.trans (putPosition_tree hposition)).trans (.of_eq (putExpirable_panDb h))

theorem purgeExpiredKeysFromLayer_tree (now : Int) : ∀ (fuel : Nat) {next : Option Nat} {mem mem' : Layer.Memory}
    {db db' : Layer.Db D}, LayerStore.purgeExpiredKeysFromLayer env now fuel next mem db = some (mem', db') →
    TreeStep env db db'
  | 0, _, _, _, _, _, h => by cases h
  | _ + 1, none, _, _, _, _, h => by
    cases h
    exact .of_eq rfl
  | fuel + 1, some expirable, _, _, _, _, h => by
    rw [LayerStore.purgeExpiredKeysFromLayer] at h
    obtain ⟨exp, -, h⟩ := Option.bind_eq_some_iff.1 h
    split at h
    · cases h
      exact .of_eq rfl
    · obtain ⟨node, -, h⟩ := Option.bind_eq_some_iff.1 h
      split at h
      · cases h
      · obtain ⟨-, -, h⟩ := Option.bind_eq_some_iff.1 h
        obtain ⟨⟨mem₁, db₁⟩, hdrop, h⟩ := Option.bind_eq_some_iff.1 h
        exact (dropKeyNode_tree hdrop).trans (purgeExpiredKeysFromLayer_tree now fuel h)

/-! ## The store -/

/-- A layer with the name of a layer, whose quad-tree is a state of the quad-tree system. -/
structure LayerReached (env : PanDbEnv D Nat) (layer : Layer D) : Prop where
  ne_nil : layer.name ≠ []
  nul : (0 : UInt8) ∉ layer.name
  tree : (panDbSystem env).Reachable layer.panDb.panDb

theorem LayerReached.step {layer : Layer D} (h : LayerReached env layer) (hstep : TreeStep env layer.panDb db') :
    LayerReached env { layer with panDb := db' } := ⟨h.ne_nil, h.nul, hstep h.tree⟩

def LayersReached (env : PanDbEnv D Nat) (layers : List (Layer D)) : Prop := ∀ layer ∈ layers, LayerReached env layer

theorem LayersReached.setLayer {layers : List (Layer D)} (h : LayersReached env layers) {layerName : Key}
    (hdb : getPanDbByLayerName layers layerName = some db) (hstep : TreeStep env db db') :
    LayersReached env (setLayer layerName db' layers) := by
  obtain ⟨pre, layer, post, rfl, rfl, hname, hpre⟩ := getPanDb_split hdb
  rw [setLayer_split hname db' hpre]
  intro l hl
  rcases List.mem_append.1 hl with hl | hl
  · exact h l (List.mem_append_left _ hl)
  · rcases List.mem_cons.1 hl with rfl | hl
    · exact (h layer (by simp)).step hstep
    · exact h l (List.mem_append_right _ (List.mem_cons_of_mem _ hl))

theorem purgeLayers_tree (now : Int) : ∀ {layers : List (Layer D)} {mem : Layer.Memory} {store' : LayerStore D},
    LayerStore.purgeLayers env now layers mem = some store' → LayersReached env layers →
    LayersReached env store'.layers
  | [], _, _, h, _ => by
    cases h
    exact fun _ hl => absurd hl List.not_mem_nil
  | layer :: layers, mem, store', h, hall => by
    obtain ⟨⟨mem₁, db₁⟩, hpurge, h⟩ := Option.bind_eq_some_iff.1 h
    obtain ⟨store₁, hrest, h⟩ := Option.bind_eq_some_iff.1 h
    cases h
    obtain ⟨hlayer, hall⟩ := List.forall_mem_cons.1 hall
    exact List.forall_mem_cons.2
      ⟨hlayer.step (purgeExpiredKeysFromLayer_tree now _ hpurge), purgeLayers_tree now hrest hall⟩

theorem purgeExpiredKeys_layers {now : Int} {store store' : LayerStore D}
    (h : LayerStore.purgeExpiredKeys env now store = some store') (hall : LayersReached env store.layers) :
    LayersReached env store'.layers := by
  unfold LayerStore.purgeExpiredKeys at h
  split at h
  · exact purgeLayers_tree now h hall
  · rw [← Option.some.inj h]
    exact hall

theorem sendOpReply_layers {op : Op D} {store : LayerStore D} {json : Option (ReplyJson D)} {r : OpResult D}
    (h : sendOpReply op store json = some r) (hstore : LayersReached env store.layers) :
    LayersReached env r.store.layers := (sendOpReply_store h).symm ▸ hstore

theorem opError_layers {ret : Int} {store : LayerStore D} {r : OpResult D}
    (h : opError ret store = some r) (hstore : LayersReached env store.layers) :
    LayersReached env r.store.layers := (opError_store h).symm ▸ hstore

/-- **An operation of the store.** -/
theorem handleOp_trees {env : SearchEnv D Nat} {store : LayerStore D} (hkept : store.Kept env.toPanDbEnv)
    (htrees : LayersReached env.toPanDbEnv store.layers) {op : Op D} {r : OpResult D}
    (hr : LayerStore.handleOp env op store = some r) : LayersReached env.toPanDbEnv r.store.layers := by
  unfold LayerStore.handleOp at hr
  split at hr
  · exact sendOpReply_layers hr htrees
  · rename_i layerName _
    unfold LayerStore.handleOpLayersCreate createPanDb at hr
    refine sendOpReply_layers hr ?_
    split
    · exact htrees
    · split_ifs with hempty
      · exact htrees
      · refine fun layer hl => (List.mem_append.1 hl).elim (htrees layer) (fun hl => ?_)
        rw [List.mem_singleton.1 hl]
        exact ⟨hempty, Lib.zero_not_mem_cstr layerName, ⟨[], .init⟩⟩
  · rename_i layerName _
    obtain ⟨⟨status, store'⟩, hdelete, hr⟩ := Option.bind_eq_some_iff.1 hr
    have htrees' : LayersReached env.toPanDbEnv store'.layers := by
      unfold LayerStore.deleteLayerByLayerName at hdelete
      split at hdelete
      · cases hdelete
        exact htrees
      · obtain ⟨mem, -, hmem⟩ := Option.map_eq_some_iff.1 hdelete
        cases hmem
        exact fun layer hl => htrees layer (List.mem_of_mem_eraseP hl)
    simp only at hr
    split_ifs at hr
    · exact opError_layers hr htrees'
    · exact opError_layers hr htrees'
    · exact sendOpReply_layers hr htrees'
  · exact sendOpReply_layers hr htrees
  · rename_i putOp _
    unfold LayerStore.handleOpRecordsPut at hr
    split at hr
    · exact opError_layers hr htrees
    · rename_i db hdb
      obtain ⟨⟨mem, db'⟩, hput, hreply⟩ := Option.bind_eq_some_iff.1 hr
      obtain ⟨pre, layer, post, hlayers, rfl, -, -⟩ := getPanDb_split hdb
      have hlayer := hkept.dbs layer (by rw [hlayers]; simp)
      exact sendOpReply_layers hreply (htrees.setLayer hdb (putRecord_tree hlayer hput))
  · unfold LayerStore.handleOpRecordsGet at hr
    split at hr
    · exact opError_layers hr htrees
    · split at hr
      · exact opError_layers hr htrees
      · exact sendOpReply_layers hr htrees
  · unfold LayerStore.handleOpRecordsDelete at hr
    split at hr
    · exact opError_layers hr htrees
    · rename_i db hdb
      split at hr
      · exact opError_layers hr htrees
      · obtain ⟨⟨mem, db'⟩, hdrop, hr⟩ := Option.bind_eq_some_iff.1 hr
        exact sendOpReply_layers hr (htrees.setLayer hdb (dropKeyNode_tree hdrop))
  · unfold LayerStore.handleOpSearchNearby at hr
    split at hr
    · exact opError_layers hr htrees
    · exact sendOpReply_layers hr htrees
  · unfold LayerStore.handleOpSearchInRect at hr
    split at hr
    · exact opError_layers hr htrees
    · exact sendOpReply_layers hr htrees
  · unfold LayerStore.handleOpSearchInKeys at hr
    split at hr
    · exact opError_layers hr htrees
    · exact sendOpReply_layers hr htrees

theorem run_layers {env : SearchEnv D Nat} {h : List (LayerStore D × StoreInput D)} {store : LayerStore D}
    (hr : (storeSystem env).Run h store) : LayersReached env.toPanDbEnv store.layers := by
  induction hr with
  | init => exact fun _ hl => absurd hl List.not_mem_nil
  | @snoc h store store' input hr _ hs ih =>
    obtain ⟨hkept, -⟩ := run_kept hr
    cases input with
    | operation op =>
      obtain ⟨r, hr, rfl⟩ := workerDoWork_store hs
      exact handleOp_trees hkept ih hr
    | purge now => exact purgeExpiredKeys_layers hs ih

/-- **The quad-tree of a layer** is a state of the quad-tree system in every state of a run of the store, and its slots
are those of the records of the layer that have a position. -/
theorem layer_trees {env : SearchEnv D Nat} {h : List (LayerStore D × StoreInput D)} {store : LayerStore D}
    (hr : (storeSystem env).Run h store) {layer : Layer D} (hl : layer ∈ store.layers) :
    (panDbSystem env.toPanDbEnv).Reachable layer.panDb.panDb ∧ PanDbLaw env.toPanDbEnv layer.panDb.panDb ∧
      ∀ a position, layer.panDb.panDb.position a = some position ↔ ∃ key keyNodes record,
        (key, a) ∈ layer.panDb.keyNodes.nodes ∧ store.keyNodes layer.name = some keyNodes ∧
        keyNodes key = some record ∧ record.slot = some position := by
  obtain ⟨hkept, -⟩ := run_kept hr
  have hreached := (run_layers hr layer hl).tree
  have hlayer := hkept.dbs layer hl
  have hkeyNodes := keyNodes_eq_some (getPanDb_of_mem hkept hl)
  obtain ⟨cell, htree⟩ := hlayer.tree
  refine ⟨hreached, law_of_stable htree, fun a position => ⟨fun hpos => ?_, ?_⟩⟩
  · have ha := hlayer.position_addrs (a := a) (by rw [hpos]; exact Option.some_ne_none _)
    obtain ⟨n, hn, rfl⟩ := List.mem_map.1 ha
    exact ⟨n.1, _, _, hn, hkeyNodes, records_eq_some hn, hpos⟩
  · rintro ⟨key, keyNodes, record, hn, hfound, hrecord, hslot⟩
    rw [hkeyNodes, Option.some.injEq] at hfound
    rw [← hfound, records_eq_some hn, Option.some.injEq] at hrecord
    rw [← hrecord] at hslot
    exact hslot

end

theorem layer_trees_expiring : ∃ h store layer, (storeSystem (worldEnv .flat)).Run h store ∧ layer ∈ store.layers ∧
    layer.panDb.keyNodes.nodes ≠ [] ∧
    (panDbSystem (worldEnv .flat).toPanDbEnv).Reachable layer.panDb.panDb := by
  obtain ⟨h, store, keyNodes, keyNode, hr, -, hlayer, hkey⟩ := exists_expiring_run
  have hname : CKey (bytes "l\x00") := by decide
  rw [LayerStore.maps, named_of_cKey hname] at hlayer
  obtain ⟨db, hdb, rfl⟩ := Option.map_eq_some_iff.1 hlayer
  obtain ⟨n, hfind, -⟩ := Option.map_eq_some_iff.1 hkey
  obtain ⟨pre, layer, post, hlayers, rfl, -, -⟩ := getPanDb_split hdb
  have hl : layer ∈ store.layers := by rw [hlayers]; simp
  exact ⟨h, store, layer, hr.of_restrict.1, hl,
    List.ne_nil_of_mem ((RbTree.find_eq_some keyNodeCmp_total).1 hfind).1, (layer_trees hr.of_restrict.1 hl).1⟩

end Pincaster
