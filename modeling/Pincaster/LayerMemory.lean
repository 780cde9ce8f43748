import Pincaster.LayerTrees
/-!
# LayerMemory — whose the memory of the layers is

Key nodes and expirables are allocated and freed one by one.  An operation leaves no cell without a layer
(`handleOp_owned`), nor does a purge (`purgeExpiredKeys_owned`).
-/
namespace Pincaster

open Lib (bytes Heap RbTree)

variable {D : Type}

namespace Layer

/-! ## One layer -/

/-- **What a function does with a layer leaks nothing**: a cell that is allocated then is one of the layer, or it was
allocated before and not one of the layer. -/
structure NoLeak (mem : Memory) (db : Db D) (mem' : Memory) (db' : Db D) : Prop where
  keyNodes : ∀ a, mem'.keyNodes.cells a ≠ none → a ∈ db'.addrs ∨ mem.keyNodes.cells a ≠ none ∧ a ∉ db.addrs
  expirables : ∀ e, mem'.expirables.cells e ≠ none →
    e ∈ db'.expirables ∨ mem.expirables.cells e ≠ none ∧ e ∉ db.expirables

section
variable {mem mem₁ mem' : Memory} {db db₁ db' : Db D} {keyNode : Nat}

theorem NoLeak.trans (h : NoLeak mem db mem₁ db₁) (h' : NoLeak mem₁ db₁ mem' db') : NoLeak mem db mem' db' := by
  refine ⟨fun a ha => ?_, fun e he => ?_⟩
  · rcases h'.keyNodes a ha with hmem | ⟨hlive, hno⟩
    · exact .inl hmem
    · exact .inr ((h.keyNodes a hlive).resolve_left hno)
  · rcases h'.expirables e he with hmem | ⟨hlive, hno⟩
    · exact .inl hmem
    · exact .inr ((h.expirables e hlive).resolve_left hno)

/-- Nothing is allocated, and the layer keeps what it has. -/
theorem NoLeak.of_sub (hkeyNodes : ∀ a, mem'.keyNodes.cells a ≠ none → mem.keyNodes.cells a ≠ none)
    (hexpirables : ∀ e, mem'.expirables.cells e ≠ none → mem.expirables.cells e ≠ none)
    (haddrs : ∀ a ∈ db.addrs, mem'.keyNodes.cells a ≠ none → a ∈ db'.addrs)
    (hentries : ∀ e ∈ db.expirables, mem'.expirables.cells e ≠ none → e ∈ db'.expirables) : NoLeak mem db mem' db' := by
  refine ⟨fun a ha => ?_, fun e he => ?_⟩
  · by_cases hmem : a ∈ db.addrs
    · exact .inl (haddrs a hmem ha)
    · exact .inr ⟨hkeyNodes a ha, hmem⟩
  · by_cases hmem : e ∈ db.expirables
    · exact .inl (hentries e hmem he)
    · exact .inr ⟨hexpirables e he, hmem⟩

/-- The memory stays. -/
theorem NoLeak.of_eq (haddrs : db'.keyNodes = db.keyNodes) (hentries : db'.expirables = db.expirables) :
    NoLeak mem db mem db' :=
  .of_sub (fun _ h => h) (fun _ h => h) (fun a ha _ => by rwa [Db.addrs, haddrs]) (fun e he _ => by rwa [hentries])

theorem ne_none_of_modify {β : Type} {h : Heap β} {a b : Nat} {f : β → β} (hne : (h.modify a f).cells b ≠ none) :
    h.cells b ≠ none := by
  rw [Heap.cells_modify] at hne
  split at hne
  · exact fun hnone => hne (by rw [hnone, Option.map_none])
  · exact hne

theorem ne_none_of_free {β : Type} {h : Heap β} {a b : Nat} (hne : (h.free a).cells b ≠ none) :
    b ≠ a ∧ h.cells b ≠ none := by
  rw [Heap.cells_free] at hne
  split at hne
  · exact absurd rfl hne
  · rename_i hba
    exact ⟨hba, hne⟩

theorem ne_none_of_alloc {β : Type} {h : Heap β} {v : β} {b : Nat} (hne : (h.alloc v).cells b ≠ none) :
    b = h.brk ∨ h.cells b ≠ none := by
  rw [Heap.cells_alloc] at hne
  split at hne
  · rename_i hb
    exact .inl hb
  · exact .inr hne

/-- A key node is changed. -/
theorem NoLeak.modify (mem : Memory) (db : Db D) (a : Nat) (f : KeyNode → KeyNode) :
    NoLeak mem db { mem with keyNodes := mem.keyNodes.modify a f } db :=
  .of_sub (fun _ h => ne_none_of_modify h) (fun _ h => h) (fun _ ha _ => ha) (fun _ he _ => he)

theorem createKeyNode_noLeak (mem : Memory) (db : Db D) (key : Key) :
    NoLeak mem db (createKeyNode mem db key).1 (createKeyNode mem db key).2.1 := by
  unfold createKeyNode
  split
  · exact .of_eq rfl rfl
  · rename_i hfind
    have hmem : ∀ a, a ∈ (db.keyNodes.insert keyNodeCmp_total (key, mem.keyNodes.brk)
        ((RbTree.find_eq_none keyNodeCmp_total).1 hfind)).nodes.map Prod.snd ↔ a = mem.keyNodes.brk ∨ a ∈ db.addrs := by
      intro a
      simp only [Db.addrs, List.mem_map, RbTree.mem_insert]
      constructor
      · rintro ⟨n, rfl | hn, rfl⟩
        · exact .inl rfl
        · exact .inr ⟨n, hn, rfl⟩
      · rintro (rfl | ⟨n, hn, rfl⟩)
        · exact ⟨_, .inl rfl, rfl⟩
        · exact ⟨n, .inr hn, rfl⟩
    refine ⟨fun a ha => ?_, fun e he => ?_⟩
    · rcases ne_none_of_alloc ha with rfl | hlive
      · exact .inl ((hmem _).2 (.inl rfl))
      · by_cases haddr : a ∈ db.addrs
        · exact .inl ((hmem a).2 (.inr haddr))
        · exact .inr ⟨hlive, haddr⟩
    · by_cases hentry : e ∈ db.expirables
      · exact .inl hentry
      · exact .inr ⟨he, hentry⟩

/-- **`free_key_node`**: the key node goes with its expirable. -/
theorem freeKeyNode_noLeak (panDb : PanDB D Nat) (h : freeKeyNode mem
      { db with panDb, keyNodes := db.keyNodes.remove (fun n => n.2 = keyNode) } keyNode = some (mem', db')) :
    NoLeak mem db mem' db' := by
  have haddrs : ∀ a ∈ db.addrs, a ≠ keyNode → a ∈ (db.keyNodes.remove (fun n => n.2 = keyNode)).nodes.map Prod.snd := by
    intro a ha hne
    obtain ⟨n, hn, rfl⟩ := List.mem_map.1 ha
    exact List.mem_map.2 ⟨n, RbTree.mem_remove.2 ⟨hn, decide_eq_false hne⟩, rfl⟩
  unfold freeKeyNode at h
  obtain ⟨node, -, h⟩ := Option.bind_eq_some_iff.1 h
  cases hexp : node.expirable with
  | none =>
    simp only [hexp] at h
    split_ifs at h
    · cases h
    · cases h
      exact .of_sub (fun _ ha => (ne_none_of_free ha).2) (fun _ he => he)
        (fun a ha hne => haddrs a ha (ne_none_of_free hne).1) (fun _ he _ => he)
  | some expirable =>
    simp only [hexp] at h
    split_ifs at h
    · cases h
    · cases h
      exact .of_sub (fun _ ha => (ne_none_of_free ha).2) (fun _ he => (ne_none_of_free he).2)
        (fun a ha hne => haddrs a ha (ne_none_of_free hne).1)
        (fun e he hne => (List.mem_erase_of_ne (ne_none_of_free hne).1).2 he)

section
variable [LinearOrder D] {env : PanDbEnv D Nat}

/-- The slot of a key node is no memory of its layer. -/
theorem removeSlot_eq (h : removeSlot env db keyNode = some db') :
    db'.keyNodes = db.keyNodes ∧ db'.expirables = db.expirables := by
  unfold removeSlot at h
  split at h
  · rw [← Option.some.inj h]
    exact ⟨rfl, rfl⟩
  · obtain ⟨panDb, -, rfl⟩ := Option.map_eq_some_iff.1 h
    exact ⟨rfl, rfl⟩

theorem dropKeyNode_noLeak (h : dropKeyNode env mem db keyNode = some (mem', db')) : NoLeak mem db mem' db' := by
  obtain ⟨db₁, hslot, hfree⟩ := Option.bind_eq_some_iff.1 h
  obtain ⟨hnodes, hexpirables⟩ := removeSlot_eq hslot
  exact (NoLeak.of_eq hnodes hexpirables).trans (freeKeyNode_noLeak db₁.panDb hfree)

end

/-- The expirables of a tree and the one that was added. -/
theorem addExpirableToTree_perm {expirable : Nat} {exp : Expirable} : ∀ {l l' : List Nat},
    addExpirableToTree mem expirable exp l = some l' → l'.Perm (expirable :: l)
  | [], _, h => by
    cases h
    exact .refl _
  | e :: l, l', h => by
    obtain ⟨scanned, -, h⟩ := Option.bind_eq_some_iff.1 h
    split at h
    · cases h
      exact .refl _
    · split at h
      · obtain ⟨l₁, hl₁, rfl⟩ := Option.map_eq_some_iff.1 h
        exact ((addExpirableToTree_perm hl₁).cons e).trans (.swap _ _ _)
      · cases h

/-- A new expirable is allocated and added. -/
theorem NoLeak.addExpirable {exp : Expirable} {expirables : List Nat} {mem₁ : Memory} (f : KeyNode → KeyNode)
    (h : addExpirableToTree mem₁ mem.expirables.brk exp db.expirables = some expirables) :
    NoLeak mem db ⟨mem.keyNodes.modify keyNode f, mem.expirables.alloc exp⟩ { db with expirables } := by
  have hperm := addExpirableToTree_perm h
  refine ⟨fun a ha => ?_, fun e he => ?_⟩
  · by_cases haddr : a ∈ db.addrs
    · exact .inl haddr
    · exact .inr ⟨ne_none_of_modify ha, haddr⟩
  · rcases ne_none_of_alloc he with rfl | hlive
    · exact .inl (hperm.mem_iff.2 List.mem_cons_self)
    · by_cases hentry : e ∈ db.expirables
      · exact .inl (hperm.mem_iff.2 (List.mem_cons_of_mem _ hentry))
      · exact .inr ⟨hlive, hentry⟩

/-- **All that a layer has is freed.** -/
theorem freePanDbKeyNodes_noLeak : ∀ (nodes : List (Key × Nat)) {mem mem' : Memory} {db db' : Db D}, Indexed mem db →
    db.keyNodes.nodes = nodes → freePanDbKeyNodes nodes mem db = some (mem', db') →
    NoLeak mem db mem' db' ∧ db'.addrs = [] ∧ db'.expirables = []
  | [], mem, mem', db, db', h, hnodes, hfree => by
    cases hfree
    have haddrs : db.addrs = [] := by rw [Db.addrs, hnodes, List.map_nil]
    refine ⟨.of_eq rfl rfl, haddrs, List.eq_nil_iff_forall_not_mem.2 (fun e he => ?_)⟩
    obtain ⟨a, ha, -⟩ := h.entry e he
    rw [haddrs] at ha
    cases ha
  | (key, a) :: nodes, mem, mem', db, db', h, hnodes, hfree => by
    have ha : a ∈ db.addrs := mem_addrs (n := (key, a)) (hnodes ▸ List.mem_cons_self)
    obtain ⟨mem₁, db₁, hfree₁, -, hfreed⟩ := h.freeKeyNode_spec ha (db.panDb.clearSlot a) (Function.update_self ..)
    have hrest : db₁.keyNodes.nodes = nodes := by
      have hnodup := h.nodup
      rw [Db.addrs, hnodes, List.map_cons, List.nodup_cons] at hnodup
      have hremove : (db.keyNodes.remove (fun n => n.2 = a)).nodes = db.keyNodes.nodes.filter (fun n =>
        !decide (n.2 = a)) := rfl
      rw [hfreed.keyNodes, hremove, hnodes, List.filter_cons_of_neg (by simp)]
      refine List.filter_eq_self.2 (fun n hn => ?_)
      rw [Bool.not_eq_true', decide_eq_false_iff_not]
      exact fun heq => hnodup.1 (List.mem_map.2 ⟨n, hn, heq⟩)
    rw [freePanDbKeyNodes, hfree₁] at hfree
    obtain ⟨hleak, hend⟩ := freePanDbKeyNodes_noLeak nodes (hfreed.indexed h ha) hrest hfree
    exact ⟨(freeKeyNode_noLeak _ hfree₁).trans hleak, hend⟩

end

end Layer

section
variable {mem mem' : Layer.Memory} {db db' : Layer.Db D}

open Layer

theorem putExpirable_noLeak {putOp : RecordsPutOp D} {keyNode : Nat}
    (h : LayerStore.putExpirable putOp mem db keyNode = some (mem', db')) : NoLeak mem db mem' db' := by
  unfold LayerStore.putExpirable at h
  obtain ⟨node, -, h⟩ := Option.bind_eq_some_iff.1 h
  cases hexp : node.expirable with
  | none =>
    simp only [hexp] at h
    split_ifs at h
    · obtain ⟨expirables, hadd, h⟩ := Option.bind_eq_some_iff.1 h
      cases h
      exact .addExpirable _ hadd
    · cases h
      exact .of_eq rfl rfl
  | some expirable =>
    simp only [hexp] at h
    split_ifs at h
    · obtain ⟨exp, -, h⟩ := Option.bind_eq_some_iff.1 h
      by_cases hkey : exp.keyNode ≠ keyNode
      · rw [if_pos hkey] at h
        cases h
      · rw [if_neg hkey] at h
        split_ifs at h
        · obtain ⟨expirables, hadd, h⟩ := Option.bind_eq_some_iff.1 h
          cases h
          -- the expirable is taken out of the tree and put back in another place
          refine .of_sub (fun _ ha => ha) (fun _ he => ne_none_of_modify he) (fun _ ha _ => ha) (fun e he _ => ?_)
          refine (addExpirableToTree_perm hadd).mem_iff.2 ?_
          by_cases heq : e = expirable
          · exact heq ▸ List.mem_cons_self
          · exact List.mem_cons_of_mem _ ((List.mem_erase_of_ne heq).2 he)
        · cases h
          exact .of_eq rfl rfl
    · obtain ⟨exp, -, h⟩ := Option.bind_eq_some_iff.1 h
      by_cases hkey : exp.keyNode ≠ keyNode
      · rw [if_pos hkey] at h
        cases h
      · rw [if_neg hkey] at h
        cases h
        exact .of_sub (fun _ ha => ne_none_of_modify ha) (fun _ he => (ne_none_of_free he).2) (fun _ ha _ => ha)
          (fun e he hne => (List.mem_erase_of_ne (ne_none_of_free hne).1).2 he)

section
variable [Field D] [LinearOrder D] {env : PanDbEnv D Nat}

theorem putPosition_eq {putOp : RecordsPutOp D} {keyNode : Nat}
    (h : LayerStore.putPosition env putOp db keyNode = some db') :
    db'.keyNodes = db.keyNodes ∧ db'.expirables = db.expirables := by
  unfold LayerStore.putPosition at h
  split at h
  · split at h
    · obtain ⟨panDb, -, rfl⟩ := Option.map_eq_some_iff.1 h
      exact ⟨rfl, rfl⟩
    · obtain ⟨slot, -, h⟩ := Option.bind_eq_some_iff.1 h
      split at h
      · rw [← Option.some.inj h]
        exact ⟨rfl, rfl⟩
      · obtain ⟨db₁, hremove, h⟩ := Option.bind_eq_some_iff.1 h
        obtain ⟨panDb, -, rfl⟩ := Option.map_eq_some_iff.1 h
        obtain ⟨hnodes, hexpirables⟩ := removeSlot_eq hremove
        exact ⟨hnodes, hexpirables⟩
  · rw [← Option.some.inj h]
    exact ⟨rfl, rfl⟩

theorem putRecord_noLeak {putOp : RecordsPutOp D} (h : LayerStore.putRecord env putOp mem db = some (mem', db')) :
    NoLeak mem db mem' db' := by
  have hcreate := createKeyNode_noLeak mem db putOp.key
  unfold LayerStore.putRecord at h
  generalize createKeyNode mem db putOp.key = created at h hcreate
  obtain ⟨mem₁, db₁, key, keyNode⟩ := created
  obtain ⟨db₂, hposition, h⟩ := Option.bind_eq_some_iff.1 h
  obtain ⟨node, -, h⟩ := Option.bind_eq_some_iff.1 h
  obtain ⟨properties, -, h⟩ := Option.bind_eq_some_iff.1 h
  obtain ⟨hnodes, hexpirables⟩ := putPosition_eq hposition
  exact ((hcreate.trans (.of_eq hnodes hexpirables)).trans (.modify _ _ _ _)).trans (putExpirable_noLeak h)

omit [Field D] in
theorem purgeExpiredKeysFromLayer_noLeak (now : Int) : ∀ (fuel : Nat) {next : Option Nat} {mem mem' : Layer.Memory}
    {db db' : Layer.Db D}, LayerStore.purgeExpiredKeysFromLayer env now fuel next mem db = some (mem', db') →
    NoLeak mem db mem' db'
  | 0, _, _, _, _, _, h => by cases h
  | _ + 1, none, _, _, _, _, h => by
    cases h
    exact .of_eq rfl rfl
  | fuel + 1, some expirable, _, _, _, _, h => by
    rw [LayerStore.purgeExpiredKeysFromLayer] at h
    obtain ⟨exp, -, h⟩ := Option.bind_eq_some_iff.1 h
    split at h
    · cases h
      exact .of_eq rfl rfl
    · obtain ⟨node, -, h⟩ := Option.bind_eq_some_iff.1 h
      split at h
      · cases h
      · obtain ⟨-, -, h⟩ := Option.bind_eq_some_iff.1 h
        obtain ⟨⟨mem₁, db₁⟩, hdrop, h⟩ := Option.bind_eq_some_iff.1 h
        exact (dropKeyNode_noLeak hdrop).trans (purgeExpiredKeysFromLayer_noLeak now fuel h)

end

end

/-! ## The store -/

/-- **What is allocated belongs to a layer.** -/
structure LayerStore.Owned (store : LayerStore D) : Prop where
  keyNodes : ∀ a, store.mem.keyNodes.cells a ≠ none → ∃ layer ∈ store.layers, a ∈ layer.panDb.addrs
  expirables : ∀ e, store.mem.expirables.cells e ≠ none → ∃ layer ∈ store.layers, e ∈ layer.panDb.expirables

theorem exists_other {pre post : List (Layer D)} {layer : Layer D} {P : Layer D → Prop}
    (h : ∃ l ∈ pre ++ layer :: post, P l) (hno : ¬ P layer) : ∃ l ∈ pre ++ post, P l := by
  obtain ⟨l, hl, hP⟩ := h
  rcases List.mem_append.1 hl with hl | hl
  · exact ⟨l, List.mem_append_left _ hl, hP⟩
  · rcases List.mem_cons.1 hl with rfl | hl
    · exact absurd hP hno
    · exact ⟨l, List.mem_append_right _ hl, hP⟩

/-- **One layer changes.** -/
theorem LayerStore.Owned.replace {mem mem' : Layer.Memory} {pre post : List (Layer D)} {layer layer' : Layer D}
    (h : LayerStore.Owned ⟨mem, pre ++ layer :: post⟩) (hleak : Layer.NoLeak mem layer.panDb mem' layer'.panDb) :
    LayerStore.Owned ⟨mem', pre ++ layer' :: post⟩ := by
  have hothers : ∀ {P : Layer D → Prop}, (∃ l ∈ pre ++ post, P l) → ∃ l ∈ pre ++ layer' :: post, P l := by
    rintro P ⟨l, hl, hP⟩
    refine ⟨l, ?_, hP⟩
    rcases List.mem_append.1 hl with hl | hl
    · exact List.mem_append_left _ hl
    · exact List.mem_append_right _ (List.mem_cons_of_mem _ hl)
  refine ⟨fun a ha => ?_, fun e he => ?_⟩
  · rcases hleak.keyNodes a ha with hmem | ⟨hlive, hno⟩
    · exact ⟨layer', by simp, hmem⟩
    · exact hothers (exists_other (h.keyNodes a hlive) hno)
  · rcases hleak.expirables e he with hmem | ⟨hlive, hno⟩
    · exact ⟨layer', by simp, hmem⟩
    · exact hothers (exists_other (h.expirables e hlive) hno)

/-- **A layer goes**, with what it has. -/
theorem LayerStore.Owned.erase {mem mem' : Layer.Memory} {pre post : List (Layer D)} {layer : Layer D}
    {db' : Layer.Db D} (h : LayerStore.Owned ⟨mem, pre ++ layer :: post⟩)
    (hleak : Layer.NoLeak mem layer.panDb mem' db') (haddrs : db'.addrs = []) (hexpirables : db'.expirables = []) :
    LayerStore.Owned ⟨mem', pre ++ post⟩ := by
  have howned : LayerStore.Owned ⟨mem', pre ++ { layer with panDb := db' } :: post⟩ := h.replace hleak
  refine ⟨fun a ha => exists_other (howned.keyNodes a ha) ?_, fun e he => exists_other (howned.expirables e he) ?_⟩
  · rw [haddrs]
    exact List.not_mem_nil
  · rw [hexpirables]
    exact List.not_mem_nil

theorem LayerStore.Owned.setLayer {store : LayerStore D} (h : store.Owned) {layerName : Key} {db db' : Layer.Db D}
    {mem' : Layer.Memory} (hdb : getPanDbByLayerName store.layers layerName = some db)
    (hleak : Layer.NoLeak store.mem db mem' db') : LayerStore.Owned ⟨mem', setLayer layerName db' store.layers⟩ := by
  obtain ⟨pre, layer, post, hlayers, rfl, hname, hpre⟩ := getPanDb_split hdb
  have howned : LayerStore.Owned ⟨store.mem, pre ++ layer :: post⟩ := hlayers ▸ h
  rw [hlayers, setLayer_split hname db' hpre]
  exact howned.replace hleak

theorem sendOpReply_owned {op : Op D} {store : LayerStore D} {json : Option (ReplyJson D)} {r : OpResult D}
    (h : sendOpReply op store json = some r) (hstore : store.Owned) : r.store.Owned :=
  (sendOpReply_store h).symm ▸ hstore

theorem opError_owned {ret : Int} {store : LayerStore D} {r : OpResult D} (h : opError ret store = some r)
    (hstore : store.Owned) : r.store.Owned := (opError_store h).symm ▸ hstore

section
variable [Field D] [LinearOrder D] {env : PanDbEnv D Nat}

omit [Field D] in
theorem purgeLayers_owned (now : Int) : ∀ {layers pre : List (Layer D)} {mem : Layer.Memory} {store' : LayerStore D},
    LayerStore.purgeLayers env now layers mem = some store' → LayerStore.Owned ⟨mem, pre ++ layers⟩ →
    LayerStore.Owned ⟨store'.mem, pre ++ store'.layers⟩
  | [], _, _, _, h, howned => by
    cases h
    exact howned
  | layer :: layers, pre, mem, store', h, howned => by
    obtain ⟨⟨mem₁, db₁⟩, hpurge, h⟩ := Option.bind_eq_some_iff.1 h
    obtain ⟨store₁, hrest, h⟩ := Option.bind_eq_some_iff.1 h
    cases h
    have hleak := purgeExpiredKeysFromLayer_noLeak now _ hpurge
    have hone : LayerStore.Owned ⟨mem₁, (pre ++ [{ layer with panDb := db₁ }]) ++ layers⟩ := by
      rw [List.append_assoc, List.singleton_append]
      exact howned.replace hleak
    have hall := purgeLayers_owned now hrest hone
    rwa [List.append_assoc, List.singleton_append] at hall

omit [Field D] in
theorem purgeExpiredKeys_owned {now : Int} {store store' : LayerStore D}
    (h : LayerStore.purgeExpiredKeys env now store = some store') (howned : store.Owned) : store'.Owned := by
  unfold LayerStore.purgeExpiredKeys at h
  split at h
  · have hpurged : LayerStore.Owned ⟨store'.mem, [] ++ store'.layers⟩ := purgeLayers_owned now h howned
    exact hpurged
  · rw [← Option.some.inj h]
    exact howned

/-- **An operation of the store leaks nothing.** -/
theorem handleOp_owned {env : SearchEnv D Nat} {store : LayerStore D} (hkept : store.Kept env.toPanDbEnv)
    (howned : store.Owned) {op : Op D} {r : OpResult D} (hr : LayerStore.handleOp env op store = some r) :
    r.store.Owned := by
  unfold LayerStore.handleOp at hr
  split at hr
  · exact sendOpReply_owned hr howned
  · rename_i layerName _
    unfold LayerStore.handleOpLayersCreate createPanDb at hr
    refine sendOpReply_owned hr ?_
    split
    · exact howned
    · split_ifs
      · exact howned
      · refine ⟨fun a ha => ?_, fun e he => ?_⟩
        · obtain ⟨layer, hl, hmem⟩ := howned.keyNodes a ha
          exact ⟨layer, List.mem_append_left _ hl, hmem⟩
        · obtain ⟨layer, hl, hmem⟩ := howned.expirables e he
          exact ⟨layer, List.mem_append_left _ hl, hmem⟩
  · rename_i layerName _
    obtain ⟨⟨status, store'⟩, hdelete, hr⟩ := Option.bind_eq_some_iff.1 hr
    have howned' : store'.Owned := by
      unfold LayerStore.deleteLayerByLayerName at hdelete
      split at hdelete
      · cases hdelete
        exact howned
      · rename_i db hdb
        obtain ⟨mem, hfree, hmem⟩ := Option.map_eq_some_iff.1 hdelete
        cases hmem
        obtain ⟨⟨mem', db'⟩, hnodes, rfl⟩ := Option.map_eq_some_iff.1 hfree
        obtain ⟨pre, layer, post, hlayers, rfl, hname, hpre⟩ := getPanDb_split hdb
        have hlayer := hkept.dbs layer (by rw [hlayers]; simp)
        obtain ⟨hleak, haddrs, hexpirables⟩ := Layer.freePanDbKeyNodes_noLeak _ hlayer.toIndexed rfl hnodes
        have herase : store.layers.eraseP (fun layer => strEq layerName layer.name) = pre ++ post := by
          rw [hlayers, List.eraseP_append_right _ (fun l hl => by rw [hpre l hl]; exact Bool.false_ne_true)]
          exact congrArg (pre ++ ·) (List.eraseP_cons_of_pos hname)
        have hsplit : LayerStore.Owned ⟨store.mem, pre ++ layer :: post⟩ := hlayers ▸ howned
        rw [herase]
        exact hsplit.erase hleak haddrs hexpirables
    simp only at hr
    split_ifs at hr
    · exact opError_owned hr howned'
    · exact opError_owned hr howned'
    · exact sendOpReply_owned hr howned'
  · exact sendOpReply_owned hr howned
  · rename_i putOp _
    unfold LayerStore.handleOpRecordsPut at hr
    split at hr
    · exact opError_owned hr howned
    · rename_i db hdb
      obtain ⟨⟨mem, db'⟩, hput, hreply⟩ := Option.bind_eq_some_iff.1 hr
      exact sendOpReply_owned hreply (howned.setLayer hdb (putRecord_noLeak hput))
  · unfold LayerStore.handleOpRecordsGet at hr
    split at hr
    · exact opError_owned hr howned
    · split at hr
      · exact opError_owned hr howned
      · exact sendOpReply_owned hr howned
  · unfold LayerStore.handleOpRecordsDelete at hr
    split at hr
    · exact opError_owned hr howned
    · rename_i db hdb
      split at hr
      · exact opError_owned hr howned
      · obtain ⟨⟨mem, db'⟩, hdrop, hr⟩ := Option.bind_eq_some_iff.1 hr
        exact sendOpReply_owned hr (howned.setLayer hdb (Layer.dropKeyNode_noLeak hdrop))
  · unfold LayerStore.handleOpSearchNearby at hr
    split at hr
    · exact opError_owned hr howned
    · exact sendOpReply_owned hr howned
  · unfold LayerStore.handleOpSearchInRect at hr
    split at hr
    · exact opError_owned hr howned
    · exact sendOpReply_owned hr howned
  · unfold LayerStore.handleOpSearchInKeys at hr
    split at hr
    · exact opError_owned hr howned
    · exact sendOpReply_owned hr howned

omit [Field D] in
/-- The expirables of two layers are different, as their key nodes are. -/
theorem expirables_apart {env : SearchEnv D Nat} {store : LayerStore D} (hkept : store.Kept env.toPanDbEnv)
    {l l' : Layer D} (hl : l ∈ store.layers) (hl' : l' ∈ store.layers) (hapart : Layer.Apart l l') :
    List.Disjoint l.panDb.expirables l'.panDb.expirables := by
  intro e he he'
  obtain ⟨a, ha, ts, -, hcell, -⟩ := (hkept.dbs l hl).toIndexed.cells he
  obtain ⟨a', ha', ts', -, hcell', -⟩ := (hkept.dbs l' hl').toIndexed.cells he'
  have heq : (⟨ts, a⟩ : Layer.Expirable) = ⟨ts', a'⟩ := Option.some.inj (hcell.symm.trans hcell')
  cases heq
  exact hapart.2 a ha ha'

end

end Pincaster
