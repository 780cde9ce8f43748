import Pincaster.ShownRecords
import Pincaster.SlabStore
/-!
# StoreReads — the answers of a store are those of its maps

A GET shows the record that the maps hold, a search for keys the first keys with the prefix, and the index counts the
records of every layer.
-/
namespace Pincaster

open Lib (Bytes bytes cstr System)

variable {D : Type}

/-- An operation is answered and leaves the store as it is; nothing is sent for a fake request. -/
def answered (op : Op D) (store : LayerStore D) (ret : Int) (json : ReplyJson D) : OpResult D :=
  ⟨ret, store, if op.fakeReq then [] else [⟨op.opTid, json⟩]⟩

/-- What a search shows of a record. -/
def ShowsMatch (keyNodes : KeyNodes D) (options : SearchOptions D) (distance : Option (Meters D)) (key : Key)
    (m : MatchJson D) : Prop :=
  ∃ record links, m = .keyNode distance record links ∧
    Shows keyNodes key options.withProperties options.withLinks record links

/-- A layer of the maps as the index shows it. -/
structure ShowsLayer [LE D] (env : SearchEnv D Nat) (keyNodes : KeyNodes D) (json : LayerJson D) : Prop where
  records : json.records = {key | (keyNodes key).isSome}.ncard
  geoRecords : json.geoRecords = {key | ∃ record, keyNodes key = some record ∧ record.slot.isSome}.ncard
  bounds : json.bounds = env.qbounds

section
variable [LinearOrder D]

/-! ## The layer of a request -/

section
variable {env : PanDbEnv D Nat} {store : LayerStore D} {layers : Layers D} {layerName : Key}

/-- **A layer of a store with maps** has nothing that dangles. -/
theorem HasMaps.sound (h : HasMaps env store layers) (hname : CKey layerName) {db : Layer.Db D}
    (hdb : getPanDbByLayerName store.layers layerName = some db) :
    Layer.Kept env store.mem db ∧ db.Sound store.mem ∧ layers layerName = some (Layer.records store.mem db) := by
  obtain ⟨hkept, hok, rfl⟩ := h
  obtain ⟨pre, layer, post, hlayers, rfl, -, -⟩ := getPanDb_split hdb
  have hlayer := hkept.dbs layer (by rw [hlayers]; simp)
  have hmaps : store.maps layerName = some (Layer.records store.mem layer.panDb) :=
    (named_of_cKey hname).trans (keyNodes_eq_some hdb)
  refine ⟨hlayer, ⟨fun n hn => ?_, fun n hn => ?_, fun n hn => ?_⟩, hmaps⟩
  · obtain ⟨⟨layerName', name, -, hkey, hnames⟩, -⟩ := hok.record hmaps (Layer.records_eq_some (a := n.2) hn)
    exact ⟨name, hnames.key_ne_nil, hnames.key_nul, hkey⟩
  · obtain ⟨node, hnode⟩ := hlayer.toIndexed.node_at (Layer.mem_addrs hn)
    obtain ⟨-, binds, hholds⟩ := hok.record hmaps (Layer.records_eq_some (a := n.2) hn)
    rw [Layer.recordAt_properties hnode] at hholds
    refine ⟨node, binds, hnode, hholds, ?_⟩
    cases hexp : node.expirable with
    | none => rfl
    | some e =>
      have hof : store.mem.expirableOf n.2 = some (some e) := by
        rw [Layer.Memory.expirableOf, hnode, Option.map_some, hexp]
      obtain ⟨-, ts, hcell, hne⟩ := hlayer.back n.2 (Layer.mem_addrs hn) e hof
      rw [expiresAtOf, hcell, Option.bind_some, if_neg hne]
      rfl
  · obtain ⟨cell, htree⟩ := hlayer.tree
    unfold Layer.Db.position
    split
    · rfl
    · rename_i ptr hslot
      obtain ⟨b, slot, hb, hm, -⟩ := htree.located.key (fun hf => hf) hslot
      rw [(slot_eq_some htree).2 ⟨b, hb, hm⟩]
      rfl

omit [LinearOrder D] in
theorem maps_eq_none (hname : CKey layerName) (hdb : getPanDbByLayerName store.layers layerName = none) :
    store.maps layerName = none := (named_of_cKey hname).trans (keyNodes_eq_none hdb)

/-- A layer that the maps do not have is not found. -/
theorem HasMaps.no_layer (h : HasMaps env store layers) (hname : CKey layerName)
    (hnone : layers layerName = none) : getPanDbByLayerName store.layers layerName = none := by
  cases hdb : getPanDbByLayerName store.layers layerName with
  | none => rfl
  | some db =>
    obtain ⟨-, -, hmaps⟩ := h.sound hname hdb
    rw [hnone] at hmaps
    cases hmaps

/-- A layer of the maps is found. -/
theorem HasMaps.exists_layer (h : HasMaps env store layers) (hname : CKey layerName) {keyNodes : KeyNodes D}
    (hsome : layers layerName = some keyNodes) : ∃ db, getPanDbByLayerName store.layers layerName = some db ∧
      Layer.Kept env store.mem db ∧ db.Sound store.mem ∧ keyNodes = Layer.records store.mem db := by
  cases hdb : getPanDbByLayerName store.layers layerName with
  | none =>
    rw [h.2.2, maps_eq_none hname hdb] at hsome
    cases hsome
  | some db =>
    obtain ⟨hkept, hsound, hmaps⟩ := h.sound hname hdb
    exact ⟨db, rfl, hkept, hsound, Option.some.inj (hsome.symm.trans hmaps)⟩

end

/-! ## GET -/

section
variable [Field D] {env : SearchEnv D Nat} {store : LayerStore D} {layers : Layers D} {layerName : Key} {op : Op D}

/-- A reply is sent, unless the request is fake. -/
theorem workerDoWork_reply {json : ReplyJson D}
    (h : LayerStore.handleOp env op store = sendOpReply op store (some json)) :
    LayerStore.workerDoWork env op store = some (answered op store 0 json) := by
  rw [LayerStore.workerDoWork, h, sendOpReply, answered]
  cases op.fakeReq <;> rfl

/-- An error is answered by the worker. -/
theorem workerDoWork_error {ret : Int} (hret : ret ≠ 0) (h : LayerStore.handleOp env op store = opError ret store) :
    LayerStore.workerDoWork env op store = some (answered op store ret .error) := by
  rw [LayerStore.workerDoWork, h, opError, answered, Option.map_some]
  cases hfake : op.fakeReq with
  | true => simp
  | false => simp [hret]

/-- **A GET** shows the record of the maps, with its links. -/
theorem HasMaps.records_get (h : HasMaps env.toPanDbEnv store layers) {key : Key} {withLinks : Bool}
    (hbody : op.body = .recordsGet layerName key withLinks) (hname : CKey layerName) :
    ((∀ keyNodes, layers layerName = some keyNodes → keyNodes key = none) →
      LayerStore.workerDoWork env op store = some (answered op store HTTP_NOTFOUND .error)) ∧
    ∀ keyNodes keyNode, layers layerName = some keyNodes → keyNodes key = some keyNode → ∃ record links,
      LayerStore.workerDoWork env op store = some (answered op store 0 (.record record links)) ∧
      Shows keyNodes key true withLinks record links := by
  have hop : LayerStore.handleOp env op store = LayerStore.handleOpRecordsGet op layerName key withLinks store := by
    rw [LayerStore.handleOp, hbody]
  rw [LayerStore.handleOpRecordsGet] at hop
  refine ⟨fun hnone => ?_, fun keyNodes keyNode hlayer hkey => ?_⟩
  · cases hdb : getPanDbByLayerName store.layers layerName with
    | none =>
      rw [hdb] at hop
      exact workerDoWork_error (by decide) hop
    | some db =>
      obtain ⟨-, -, hmaps⟩ := h.sound hname hdb
      have hfind : db.keyNodes.find key = none := Option.map_eq_none_iff.1 (hnone _ hmaps)
      simp only [hdb, getKeyNodeFromKey, hfind] at hop
      exact workerDoWork_error (by decide) hop
  · obtain ⟨db, hdb, -, hsound, rfl⟩ := h.exists_layer hname hlayer
    obtain ⟨n, hfind, -⟩ := Option.map_eq_some_iff.1 hkey
    obtain ⟨hn, rfl⟩ := (Lib.RbTree.find_eq_some keyNodeCmp_total).1 hfind
    obtain ⟨record, links, hjson, hshows⟩ := keyNodeToJsonLinks_shown hsound hn true withLinks
    simp only [hdb, getKeyNodeFromKey, hfind, hjson, Option.map_some] at hop
    exact ⟨record, links, workerDoWork_reply hop, hshows⟩

/-! ## Keys -/

omit [Field D] [LinearOrder D] in
/-- The elements of a search that need no callback. -/
theorem mapM_matchOf {mem : Layer.Memory} {db : Layer.Db D} (hsound : db.Sound mem) (options : SearchOptions D)
    (distance : Option (Meters D)) : ∀ nodes : List (Key × Nat), (∀ n ∈ nodes, n ∈ db.keyNodes.nodes) →
    ∃ found, nodes.mapM (LayerStore.matchOf mem db options distance) = some found ∧
      List.Forall₂ (ShowsMatch (Layer.records mem db) options distance) (nodes.map Prod.fst) found
  | [], _ => ⟨[], rfl, .nil⟩
  | n :: nodes, hnodes => by
    obtain ⟨hn, hnodes⟩ := List.forall_mem_cons.1 hnodes
    obtain ⟨record, links, hjson, hshows⟩ :=
      keyNodeToJsonLinks_shown hsound hn options.withProperties options.withLinks
    obtain ⟨found, hfound, hall⟩ := mapM_matchOf hsound options distance nodes hnodes
    have hmatch : LayerStore.matchOf mem db options distance n = some (.keyNode distance record links) := by
      rw [LayerStore.matchOf, hjson, Option.map_some]
    refine ⟨_ :: found, ?_, .cons ⟨record, links, rfl, hshows⟩ hall⟩
    rw [List.mapM_cons, hmatch, Option.bind_eq_bind, Option.bind_some, hfound]
    rfl

/-- The keys of the maps, in their order. -/
structure KeysInOrder (keyNodes : KeyNodes D) (p : Bytes) (keys : List Key) : Prop where
  ordered : keys.Pairwise (fun key key' => keyNodeCmp key key' < 0)
  mem_iff : ∀ key, key ∈ keys ↔ (keyNodes key).isSome = true ∧ p.isPrefixOf key = true

omit [Field D] [LinearOrder D] in
theorem keysInOrder_records (mem : Layer.Memory) (db : Layer.Db D) (p : Bytes) :
    KeysInOrder (Layer.records mem db) p ((db.keyNodes.nodes.filter (fun n => p.isPrefixOf n.1)).map Prod.fst) := by
  refine ⟨List.Pairwise.map Prod.fst (fun _ _ h => h) (db.keyNodes.ordered.filter _), fun key => ?_⟩
  simp only [List.mem_map, List.mem_filter]
  constructor
  · rintro ⟨n, ⟨hn, hp⟩, rfl⟩
    rw [Layer.records_eq_some (a := n.2) hn]
    exact ⟨rfl, hp⟩
  · rintro ⟨hsome, hp⟩
    rw [Layer.records, Option.isSome_map] at hsome
    obtain ⟨n, hn⟩ := Option.isSome_iff_exists.1 hsome
    obtain ⟨hmem, rfl⟩ := (Lib.RbTree.find_eq_some keyNodeCmp_total).1 hn
    exact ⟨n, ⟨hmem, hp⟩, rfl⟩

omit [Field D] [LinearOrder D] in
/-- The reply to a search for a prefix, without content and with it. -/
theorem keysReply_wildcard (mem : Layer.Memory) {db : Layer.Db D} (hkeys : ∀ n ∈ db.keyNodes.nodes, StoredKey n.1)
    (p : Bytes) {options : SearchOptions D} (hlimit : 1 ≤ options.limit) {shown : List (Key × Nat)}
    (hshown : shown = (db.keyNodes.nodes.filter (fun n => p.isPrefixOf n.1)).take options.limit) :
    (options.withContent = false →
      LayerStore.keysReply mem db (p ++ [42, 0]) options = some (.keys (shown.map (fun n => n.1.dropLast)))) ∧
    (options.withContent = true → db.Sound mem → ∃ found,
      List.Forall₂ (ShowsMatch (Layer.records mem db) options none) (shown.map Prod.fst) found ∧
        LayerStore.keysReply mem db (p ++ [42, 0]) options = some (.found found)) := by
  have hreply : LayerStore.keysReply mem db (p ++ [42, 0]) options =
      if options.withContent = false then some (.keys (shown.map (fun n => n.1.dropLast)))
      else (shown.mapM (LayerStore.matchOf mem db options none)).map .found := by
    rw [LayerStore.keysReply, foundKeyNodes_wildcard hkeys p hlimit, hshown]
  refine ⟨fun hcontent => by rw [hreply, if_pos hcontent], fun hcontent hsound => ?_⟩
  obtain ⟨found, hfound, hall⟩ := mapM_matchOf hsound options none shown
    (fun n hn => (List.mem_filter.1 (List.mem_of_mem_take (hshown ▸ hn))).1)
  exact ⟨found, hall, by rw [hreply, if_neg (by rw [hcontent]; decide), hfound, Option.map_some]⟩

/-- **A search for a prefix** shows the first keys of the maps that have it. -/
theorem HasMaps.search_prefix (h : HasMaps env.toPanDbEnv store layers) {p : Bytes} {options : SearchOptions D}
    (hbody : op.body = .searchInKeys layerName (p ++ [42, 0]) options) (hname : CKey layerName)
    (hlimit : 1 ≤ options.limit) :
    (layers layerName = none →
      LayerStore.workerDoWork env op store = some (answered op store HTTP_NOTFOUND .error)) ∧
    ∀ keyNodes, layers layerName = some keyNodes → ∃ keys, KeysInOrder keyNodes p keys ∧
      if options.withContent then
        ∃ found, List.Forall₂ (ShowsMatch keyNodes options none) (keys.take options.limit) found ∧
          LayerStore.workerDoWork env op store = some (answered op store 0 (.found found))
      else LayerStore.workerDoWork env op store =
        some (answered op store 0 (.keys ((keys.take options.limit).map List.dropLast))) := by
  have hop : LayerStore.handleOp env op store =
      LayerStore.handleOpSearchInKeys op layerName (p ++ [42, 0]) options store := by
    rw [LayerStore.handleOp, hbody]
  rw [LayerStore.handleOpSearchInKeys] at hop
  refine ⟨fun hnone => ?_, fun keyNodes hlayer => ?_⟩
  · rw [h.no_layer hname hnone] at hop
    exact workerDoWork_error (by decide) hop
  · obtain ⟨db, hdb, -, hsound, rfl⟩ := h.exists_layer hname hlayer
    obtain ⟨hbare, hshow⟩ := keysReply_wildcard store.mem hsound.stored p hlimit rfl
    simp only [hdb] at hop
    refine ⟨_, keysInOrder_records store.mem db p, ?_⟩
    rw [← List.map_take]
    cases hcontent : options.withContent with
    | false =>
      rw [if_neg Bool.false_ne_true, List.map_map]
      rw [hbare hcontent] at hop
      exact workerDoWork_reply hop
    | true =>
      rw [if_pos rfl]
      obtain ⟨found, hall, hreply⟩ := hshow hcontent hsound
      rw [hreply] at hop
      exact ⟨found, hall, workerDoWork_reply hop⟩

omit [Field D] [LinearOrder D] in
/-- **A search for a prefix** lists the first stored keys that start with it, in their order: their names, or with content
each of their records as the layer has it. -/
theorem LayerStore.prefix_search (op : Op D) {layerName : Key} (options : SearchOptions D) {store : LayerStore D}
    {db : Layer.Db D} (hdb : getPanDbByLayerName store.layers layerName = some db)
    (hkeys : ∀ n ∈ db.keyNodes.nodes, StoredKey n.1) {p : Bytes} (hp : (0 : UInt8) ∉ p) (hlimit : 1 ≤ options.limit)
    (hfake : op.fakeReq = false) :
    Lib.TotalCmp keyNodeCmp ∧ ∃ shown : List (Key × Nat),
      shown = (db.keyNodes.nodes.filter (fun n => p.isPrefixOf n.1.dropLast)).take options.limit ∧
      shown.Pairwise (fun m n => keyNodeCmp m.1 n.1 < 0) ∧
      (options.withContent = false → LayerStore.handleOpSearchInKeys op layerName (p ++ [42, 0]) options store =
        some ⟨0, store, [⟨op.opTid, .keys (shown.map (fun n => n.1.dropLast))⟩]⟩) ∧
      (options.withContent = true → db.Sound store.mem → ∃ found,
        List.Forall₂ (ShowsMatch (Layer.records store.mem db) options none) (shown.map Prod.fst) found ∧
        LayerStore.handleOpSearchInKeys op layerName (p ++ [42, 0]) options store =
          some ⟨0, store, [⟨op.opTid, .found found⟩]⟩) := by
  have hnames : db.keyNodes.nodes.filter (fun n => p.isPrefixOf n.1.dropLast) =
      db.keyNodes.nodes.filter (fun n => p.isPrefixOf n.1) :=
    List.filter_congr (fun n hn => ((hkeys n hn).isPrefixOf hp).symm)
  obtain ⟨hbare, hshow⟩ := keysReply_wildcard store.mem hkeys p hlimit rfl
  have hsend : ∀ {json}, LayerStore.keysReply store.mem db (p ++ [42, 0]) options = some json →
      LayerStore.handleOpSearchInKeys op layerName (p ++ [42, 0]) options store = some ⟨0, store, [⟨op.opTid, json⟩]⟩ :=
    fun hreply => by
      simp only [LayerStore.handleOpSearchInKeys, hdb, sendOpReply, hfake, Bool.false_eq_true, if_false, hreply,
        Option.map_some]
  refine ⟨keyNodeCmp_total, _, rfl, ?_, fun hcontent => ?_, fun hcontent hsound => ?_⟩
  · exact (db.keyNodes.ordered.sublist List.filter_sublist).sublist (List.take_sublist _ _)
  · rw [hnames]
    exact hsend (hbare hcontent)
  · rw [hnames]
    obtain ⟨found, hall, hreply⟩ := hshow hcontent hsound
    exact ⟨found, hall, hsend hreply⟩

/-- Two of three keys with the prefix, without content and with it. -/
theorem LayerStore.prefix_search_ab : ∃ h store db, (storeSystem (worldEnv .flat)).Run h store ∧
    getPanDbByLayerName store.layers (bytes "l\x00") = some db ∧
    LayerStore.handleOpSearchInKeys ⟨false, 7, .systemPing⟩ (bytes "l\x00") (bytes "ab" ++ [42, 0])
      ⟨0, 2, 0, true, false, false⟩ store = some ⟨0, store, [⟨7, .keys [bytes "abcd", bytes "abce"]⟩]⟩ ∧
    ∃ m m', ShowsMatch (Layer.records store.mem db) ⟨0, 2, 0, true, true, true⟩ none (bytes "abcd\x00") m ∧
      ShowsMatch (Layer.records store.mem db) ⟨0, 2, 0, true, true, true⟩ none (bytes "abce\x00") m' ∧
      LayerStore.handleOpSearchInKeys ⟨false, 8, .systemPing⟩ (bytes "l\x00") (bytes "ab" ++ [42, 0])
        ⟨0, 2, 0, true, true, true⟩ store = some ⟨0, store, [⟨8, .found [m, m']⟩]⟩ := by
  obtain ⟨h, store, db, hr, -, hdb, hkeys, -⟩ := exists_dishes_run
  obtain ⟨-, layers, -, -, hmaps⟩ := (store_simulation (worldEnv .flat)).run hr
  obtain ⟨-, hsound, -⟩ := hmaps.sound (show CKey (bytes "l\x00") by decide) hdb
  have hshown : ((db.keyNodes.nodes.filter (fun n => (bytes "ab").isPrefixOf n.1.dropLast)).take 2).map Prod.fst =
      [bytes "abcd\x00", bytes "abce\x00"] := by
    have hmap := List.filter_map (f := Prod.fst) (p := fun key : Key => (bytes "ab").isPrefixOf key.dropLast)
      (l := db.keyNodes.nodes)
    rw [hkeys] at hmap
    rw [List.map_take]
    exact (congrArg (List.take 2) hmap.symm).trans (by decide +kernel)
  obtain ⟨-, shown, rfl, -, hbare, -⟩ := prefix_search ⟨false, 7, .systemPing⟩
    ⟨0, 2, 0, true, false, false⟩ hdb hsound.stored (show (0 : UInt8) ∉ bytes "ab" by decide) (by decide) rfl
  obtain ⟨-, shown, rfl, -, -, hshow⟩ := prefix_search ⟨false, 8, .systemPing⟩
    ⟨0, 2, 0, true, true, true⟩ hdb hsound.stored (show (0 : UInt8) ∉ bytes "ab" by decide) (by decide) rfl
  obtain ⟨found, hall, hfound⟩ := hshow rfl hsound
  rw [hshown] at hall
  cases hall with
  | cons hm hall =>
    cases hall with
    | cons hm' hall =>
      cases hall
      refine ⟨h, store, db, hr.of_restrict.1, hdb, ?_, _, _, hm, hm', hfound⟩
      have hnames : ((db.keyNodes.nodes.filter (fun n => (bytes "ab").isPrefixOf n.1.dropLast)).take 2).map
          (fun n => n.1.dropLast) = [bytes "abcd", bytes "abce"] := by
        rw [show (fun n : Key × Nat => n.1.dropLast) = List.dropLast ∘ Prod.fst from rfl, ← List.map_map, hshown]
        decide
      rw [← hnames]
      exact hbare rfl

/-- **A search without a star** shows nothing. -/
theorem HasMaps.search_exact (h : HasMaps env.toPanDbEnv store layers) {name : Bytes} {options : SearchOptions D}
    (hbody : op.body = .searchInKeys layerName (name ++ [0]) options) (hname : CKey layerName) (hne : name ≠ [])
    (hnul : (0 : UInt8) ∉ name) (hstar : name.getLast? ≠ some 42) :
    (layers layerName = none →
      LayerStore.workerDoWork env op store = some (answered op store HTTP_NOTFOUND .error)) ∧
    ∀ keyNodes, layers layerName = some keyNodes → LayerStore.workerDoWork env op store =
      some (answered op store 0 (if options.withContent then .found [] else .keys [])) := by
  have hop : LayerStore.handleOp env op store =
      LayerStore.handleOpSearchInKeys op layerName (name ++ [0]) options store := by
    rw [LayerStore.handleOp, hbody]
  rw [LayerStore.handleOpSearchInKeys] at hop
  refine ⟨fun hnone => ?_, fun keyNodes hlayer => ?_⟩
  · rw [h.no_layer hname hnone] at hop
    exact workerDoWork_error (by decide) hop
  · obtain ⟨db, hdb, -, hsound, rfl⟩ := h.exists_layer hname hlayer
    simp only [hdb, LayerStore.keysReply, foundKeyNodes_exact hsound.stored hne hnul hstar] at hop
    cases hcontent : options.withContent with
    | false =>
      rw [hcontent, if_pos rfl] at hop
      exact workerDoWork_reply hop
    | true =>
      rw [hcontent, if_neg (by decide)] at hop
      exact workerDoWork_reply hop

/-! ## The index of the layers -/

omit [Field D] [LinearOrder D] in
/-- A `mapM` none of whose steps fails. -/
theorem mapM_eq_some {α β : Type} {f : α → Option β} : ∀ {l : List α}, (∀ a ∈ l, (f a).isSome) →
    ∃ l', l.mapM f = some l' ∧ l.map f = l'.map some
  | [], _ => ⟨[], rfl, rfl⟩
  | a :: l, h => by
    obtain ⟨ha, h⟩ := List.forall_mem_cons.1 h
    obtain ⟨b, hb⟩ := Option.isSome_iff_exists.1 ha
    obtain ⟨l', hl', hmap⟩ := mapM_eq_some h
    refine ⟨b :: l', ?_, by rw [List.map_cons, List.map_cons, hb, hmap]⟩
    rw [List.mapM_cons, hb, Option.bind_eq_bind, Option.bind_some, hl']
    rfl

omit [Field D] [LinearOrder D] in
theorem ncard_keys {keys : List Key} (h : keys.Nodup) : {key | key ∈ keys}.ncard = keys.length := by
  rw [← List.coe_toFinset, Set.ncard_coe_finset, List.toFinset_card_of_nodup h]

omit [Field D] [LinearOrder D] in
/-- The keys of a tree are different. -/
theorem nodup_keys (db : Layer.Db D) : (db.keyNodes.nodes.map Prod.fst).Nodup := by
  have hord : (db.keyNodes.nodes.map Prod.fst).Pairwise (fun a b => keyNodeCmp a b < 0) :=
    List.Pairwise.map Prod.fst (fun _ _ h => h) db.keyNodes.ordered
  refine hord.imp (fun {a b} hlt heq => ?_)
  rw [heq, keyNodeCmp_total.self] at hlt
  exact absurd hlt (lt_irrefl 0)

omit [Field D] [LinearOrder D] in
/-- The records of a layer, counted. -/
theorem ncard_records (mem : Layer.Memory) (db : Layer.Db D) :
    {key | (Layer.records mem db key).isSome}.ncard = db.keyNodes.nodes.length := by
  have hkeys : {key | (Layer.records mem db key).isSome} = {key | key ∈ db.keyNodes.nodes.map Prod.fst} := by
    refine Set.ext (fun key => ?_)
    change (Layer.records mem db key).isSome = true ↔ key ∈ db.keyNodes.nodes.map Prod.fst
    rw [Layer.records, Option.isSome_map, Option.isSome_iff_exists, List.mem_map]
    exact exists_congr (fun n => Lib.RbTree.find_eq_some keyNodeCmp_total)
  rw [hkeys, ncard_keys (nodup_keys db), List.length_map]

omit [Field D] in
/-- The records of a layer that have a position, counted: they are the key nodes that have a slot. -/
theorem ncard_geoRecords {env : PanDbEnv D Nat} {mem : Layer.Memory} {db : Layer.Db D} (h : Layer.Kept env mem db)
    {addrs : List Nat} (hnodup : addrs.Nodup) (hslots : ∀ a, a ∈ addrs ↔ db.panDb.slots a ≠ none) :
    {key | ∃ record, Layer.records mem db key = some record ∧ record.slot.isSome}.ncard = addrs.length ∧
      addrs.length ≤ db.keyNodes.nodes.length := by
  obtain ⟨cell, htree⟩ := h.tree
  set geo := db.keyNodes.nodes.filter (fun n => db.panDb.slots n.2 ≠ none) with hgeo
  have hmem : ∀ n, n ∈ geo ↔ n ∈ db.keyNodes.nodes ∧ db.panDb.slots n.2 ≠ none := fun n => by
    rw [hgeo, List.mem_filter, decide_eq_true_eq]
  have hperm : (geo.map Prod.snd).Perm addrs := by
    refine (List.perm_ext_iff_of_nodup (h.nodup.sublist (List.filter_sublist.map Prod.snd)) hnodup).2 (fun a => ?_)
    rw [hslots, List.mem_map]
    constructor
    · rintro ⟨n, hn, rfl⟩
      exact ((hmem n).1 hn).2
    · intro ha
      obtain ⟨n, hn, rfl⟩ := List.mem_map.1 (h.slots a ha)
      exact ⟨n, (hmem n).2 ⟨hn, ha⟩, rfl⟩
  have hlength : geo.length = addrs.length := by rw [← hperm.length_eq, List.length_map]
  have hslot : ∀ a, (Layer.recordAt mem db a).slot.isSome = true ↔ db.panDb.slots a ≠ none := fun a => by
    rw [Option.isSome_iff_ne_none]
    exact not_congr (Layer.slots_eq_none_iff htree).symm
  have hkeys : {key | ∃ record, Layer.records mem db key = some record ∧ record.slot.isSome} =
      {key | key ∈ geo.map Prod.fst} := by
    refine Set.ext (fun key => ?_)
    change (∃ record, _ ∧ _) ↔ key ∈ geo.map Prod.fst
    rw [List.mem_map]
    constructor
    · rintro ⟨record, hrecord, hsome⟩
      obtain ⟨n, hfind, rfl⟩ := Option.map_eq_some_iff.1 hrecord
      obtain ⟨hn, rfl⟩ := (Lib.RbTree.find_eq_some keyNodeCmp_total).1 hfind
      exact ⟨n, (hmem n).2 ⟨hn, (hslot n.2).1 hsome⟩, rfl⟩
    · rintro ⟨n, hn, rfl⟩
      obtain ⟨hn, hsome⟩ := (hmem n).1 hn
      exact ⟨_, Layer.records_eq_some (a := n.2) hn, (hslot n.2).2 hsome⟩
  rw [hkeys, ncard_keys ((nodup_keys db).sublist (List.filter_sublist.map Prod.fst)), List.length_map, hlength]
  exact ⟨rfl, hlength ▸ List.length_filter_le _ _⟩

omit [Field D] in
/-- **A layer is shown**: its assertion holds, and its counts are those of its records. -/
theorem addLayerNameToJsonGen_spec {layer : Layer D} (hkept : Layer.Kept env.toPanDbEnv store.mem layer.panDb) :
    ∃ json, LayerStore.addLayerNameToJsonGen env layer = some json ∧ json.name = layer.name ∧
      ShowsLayer env (Layer.records store.mem layer.panDb) json := by
  obtain ⟨cell, htree⟩ := hkept.tree
  obtain ⟨q, hq, -, addrs, haddrs, hslots, hcount⟩ := (law_of_stable htree).root
  obtain ⟨hgeo, hle⟩ := ncard_geoRecords hkept haddrs hslots
  have hno : ¬ layer.panDb.keyNodes.nodes.length < q.subSlots := by omega
  unfold LayerStore.addLayerNameToJsonGen
  simp only [hq, Option.bind_eq_bind, Option.bind_some, if_neg hno]
  exact ⟨_, rfl, rfl, (ncard_records _ _).symm, by rw [hgeo, hcount], rfl⟩

/-- **The index** shows every layer of the maps once, with its counts. -/
theorem HasMaps.layers_index (h : HasMaps env.toPanDbEnv store layers)
    (hreached : LayersReached env.toPanDbEnv store.layers) (hbody : op.body = .layersIndex) :
    ∃ jsons, LayerStore.workerDoWork env op store = some (answered op store 0 (.layers jsons)) ∧
      (jsons.map LayerJson.name).Nodup ∧
      (∀ json ∈ jsons, ∃ keyNodes, layers (json.name ++ [0]) = some keyNodes ∧ ShowsLayer env keyNodes json) ∧
      ∀ layerName keyNodes, layers layerName = some keyNodes → ∃ json ∈ jsons, layerName = json.name ++ [0] := by
  obtain ⟨hkept, -, rfl⟩ := h
  have hshown := fun layer (hl : layer ∈ store.layers) => addLayerNameToJsonGen_spec (hkept.dbs layer hl)
  obtain ⟨jsons, hjsons, hmap⟩ := mapM_eq_some (f := LayerStore.addLayerNameToJsonGen env) (fun layer hl => by
    obtain ⟨json, hjson, -⟩ := hshown layer hl
    rw [hjson]
    rfl)
  have hop : LayerStore.handleOp env op store = sendOpReply op store (some (.layers jsons)) := by
    rw [LayerStore.handleOp, hbody, LayerStore.handleOpLayersIndex, hjsons, Option.map_some]
  have hlayer : ∀ layer ∈ store.layers, CKey (layer.name ++ [0]) ∧
      store.maps (layer.name ++ [0]) = some (Layer.records store.mem layer.panDb) := fun layer hl => by
    have hname : CKey (layer.name ++ [0]) := .of_nul (hreached layer hl).nul
    refine ⟨hname, ?_⟩
    have hsame : strEq (layer.name ++ [0]) layer.name = true := by
      rw [strEq_iff, cstr_storedKey (hreached layer hl).nul, Lib.cstr_of_not_mem (hreached layer hl).nul]
    rw [LayerStore.maps, named_of_cKey hname, keyNodes_congr_name store hsame]
    exact keyNodes_eq_some (getPanDb_of_mem hkept hl)
  have hjson : ∀ json, json ∈ jsons ↔ ∃ layer ∈ store.layers, LayerStore.addLayerNameToJsonGen env layer = some json :=
    fun json => by
      rw [← List.mem_map, hmap, List.mem_map]
      exact ⟨fun hj => ⟨json, hj, rfl⟩, fun h => h.elim (fun j hj => Option.some.inj hj.2 ▸ hj.1)⟩
  refine ⟨jsons, workerDoWork_reply hop, ?_, fun json hj => ?_, fun layerName keyNodes hmaps => ?_⟩
  · have hnames : jsons.map (fun json => some json.name) = store.layers.map (fun layer => some layer.name) := by
      calc jsons.map (fun json => some json.name) = (jsons.map some).map (Option.map LayerJson.name) := by
            rw [List.map_map]
            rfl
        _ = store.layers.map (fun layer => (LayerStore.addLayerNameToJsonGen env layer).map LayerJson.name) := by
            rw [← hmap, List.map_map]
            rfl
        _ = store.layers.map (fun layer => some layer.name) := List.map_congr_left (fun layer hl => by
            obtain ⟨json, hgen, hname, -⟩ := hshown layer hl
            rw [hgen, Option.map_some, hname])
    have hnodup : (store.layers.map (fun layer => some layer.name)).Nodup :=
      List.pairwise_map.2 (hkept.apart.imp (fun hapart heq => hapart.1 (congrArg cstr (Option.some.inj heq))))
    rw [← hnames] at hnodup
    refine List.Nodup.of_map some ?_
    rwa [List.map_map]
  · obtain ⟨layer, hl, hgen⟩ := (hjson json).1 hj
    obtain ⟨json', hgen', hname, hshows⟩ := hshown layer hl
    rw [hgen, Option.some.injEq] at hgen'
    subst hgen'
    rw [hname]
    exact ⟨_, (hlayer layer hl).2, hshows⟩
  · have hname : CKey layerName := by
      by_contra hno
      rw [LayerStore.maps, named, if_neg hno] at hmaps
      cases hmaps
    rw [LayerStore.maps, named_of_cKey hname, LayerStore.keyNodes] at hmaps
    obtain ⟨db, hdb, -⟩ := Option.map_eq_some_iff.1 hmaps
    obtain ⟨pre, layer, post, hlayers, -, hsame, -⟩ := getPanDb_split hdb
    have hl : layer ∈ store.layers := by rw [hlayers]; simp
    obtain ⟨json, hgen, hjsonName, -⟩ := hshown layer hl
    refine ⟨json, (hjson json).2 ⟨layer, hl, hgen⟩, ?_⟩
    have hlayerName : cstr layer.name = layer.name := Lib.cstr_of_not_mem (hreached layer hl).nul
    rw [CKey, strEq_iff.1 hsame, hlayerName] at hname
    rw [hjsonName, hname]

end

end

/-! ## Runs -/

/-- **An operation that changes nothing** is answered as from the layers in a list. -/
theorem SlabStore.Sound.read [Field D] [LinearOrder D] {env : SearchEnv D Nat} {store : SlabStore D} {op : Op D}
    {entries : List (EntryPtr × Layer D)} (h : store.Sound env.toPanDbEnv entries) (hread : op.body.mutates = false)
    {ret : Int} {json : ReplyJson D} (hr : LayerStore.workerDoWork env op (seen store.mem entries) =
      some (answered op (seen store.mem entries) ret json)) :
    SlabStore.workerDoWork env op store = some (store, replyTo op json) :=
  SlabStore.workerDoWork_read h.holds hread hr rfl

section
variable [Field D] [LinearOrder D] [Dimension D] [ExactDimension D] {env : SearchEnv D Nat}
  {h : List (SlabStore D × StoreInput D)} {store : SlabStore D} {op : Op D} {layerName : Key}

/-- **A GET in a state of a run** that has lost no layer shows the record that the maps hold: its type, its position, its
expiration and its properties, and with links every record that can be reached from it; where the maps have no record it is
not found. -/
theorem records_get_shows (hr : ((slabStoreSystem env).restrict SlabStore.Takes).Run h store) {key : Key}
    {withLinks : Bool} (hbody : op.body = .recordsGet layerName key withLinks) (hname : CKey layerName) :
    ((∀ keyNodes, store.maps layerName = some keyNodes → keyNodes key = none) →
      SlabStore.workerDoWork env op store = some (store, SlabStore.replyTo op .error)) ∧
    ∀ keyNodes keyNode, store.maps layerName = some keyNodes → keyNodes key = some keyNode → ∃ record links,
      SlabStore.workerDoWork env op store = some (store, SlabStore.replyTo op (.record record links)) ∧
      Shows keyNodes key true withLinks record links := by
  obtain ⟨entries, hsound⟩ := sound_of_run hr
  have hread : op.body.mutates = false := by rw [hbody]; rfl
  obtain ⟨hnone, hsome⟩ := hsound.maps.records_get hbody hname
  rw [hsound.maps_eq]
  refine ⟨fun habsent => hsound.read hread (hnone habsent), fun keyNodes keyNode hlayer hkey => ?_⟩
  obtain ⟨record, links, hreply, hshows⟩ := hsome keyNodes keyNode hlayer hkey
  exact ⟨record, links, hsound.read hread hreply, hshows⟩

theorem records_get_shows_slab : ∃ h store keyNodes record links,
    ((slabStoreSystem (worldEnv .flat)).restrict SlabStore.Takes).Run h store ∧
    store.maps (bytes "l\x00") = some keyNodes ∧
    SlabStore.workerDoWork (worldEnv .flat) ⟨false, 1, .recordsGet (bytes "l\x00") (bytes "abde\x00") true⟩ store =
      some (store, [⟨1, .record record links⟩]) ∧
    Shows keyNodes (bytes "abde\x00") true true record links ∧
    SlabStore.workerDoWork (worldEnv .flat) ⟨false, 2, .recordsGet (bytes "m\x00") (bytes "abde\x00") true⟩ store =
      some (store, [⟨2, .error⟩]) := by
  obtain ⟨h, store, keyNodes, hr, -, hgone, hlayer, keyNode, hkey⟩ := exists_slab_run
  have hbody : ∀ opTid layerName, (⟨false, opTid, .recordsGet layerName (bytes "abde\x00") true⟩ : Op ℚ).body =
    .recordsGet layerName (bytes "abde\x00") true := fun _ _ => rfl
  obtain ⟨record, links, hreply, hshows⟩ :=
    (records_get_shows hr (hbody 1 (bytes "l\x00")) (by decide)).2 keyNodes keyNode hlayer hkey
  have hnone : ∀ keyNodes, store.maps (bytes "m\x00") = some keyNodes → keyNodes (bytes "abde\x00") = none :=
    fun keyNodes hm => absurd (hgone.symm.trans hm) (by simp)
  exact ⟨h, store, keyNodes, record, links, hr, hlayer, hreply, hshows,
    (records_get_shows hr (hbody 2 (bytes "m\x00")) (by decide)).1 hnone⟩

/-- **A search for keys in a state of a run** that has lost no layer shows, in the order of the keys, the first ones of the
maps that have the prefix before the star, as many as the limit says; without a star it shows nothing. -/
theorem search_in_keys_shows (hr : ((slabStoreSystem env).restrict SlabStore.Takes).Run h store)
    {name : Bytes} {options : SearchOptions D} (hbody : op.body = .searchInKeys layerName (name ++ [0]) options)
    (hname : CKey layerName) (hne : name ≠ []) (hnul : (0 : UInt8) ∉ name) (hlimit : 1 ≤ options.limit) :
    (store.maps layerName = none →
      SlabStore.workerDoWork env op store = some (store, SlabStore.replyTo op .error)) ∧
    ∀ keyNodes, store.maps layerName = some keyNodes → ∃ shown : List Key,
      (∀ p, name = p ++ [42] → ∃ keys, KeysInOrder keyNodes p keys ∧ shown = keys.take options.limit) ∧
      (name.getLast? ≠ some 42 → shown = []) ∧
      if options.withContent then
        ∃ found, List.Forall₂ (ShowsMatch keyNodes options none) shown found ∧
          SlabStore.workerDoWork env op store = some (store, SlabStore.replyTo op (.found found))
      else SlabStore.workerDoWork env op store =
        some (store, SlabStore.replyTo op (.keys (shown.map List.dropLast))) := by
  obtain ⟨entries, hsound⟩ := sound_of_run hr
  have hread : op.body.mutates = false := by rw [hbody]; rfl
  rw [hsound.maps_eq]
  by_cases hstar : name.getLast? = some 42
  · obtain ⟨p, rfl⟩ := List.getLast?_eq_some_iff.1 hstar
    rw [List.append_assoc, List.singleton_append] at hbody
    obtain ⟨hnone, hsome⟩ := hsound.maps.search_prefix hbody hname hlimit
    refine ⟨fun habsent => hsound.read hread (hnone habsent), fun keyNodes hlayer => ?_⟩
    obtain ⟨keys, hkeys, hreply⟩ := hsome keyNodes hlayer
    refine ⟨_, fun p' hp => ⟨keys, ?_, rfl⟩, fun hno => absurd hstar hno, ?_⟩
    · rwa [← List.append_cancel_right hp]
    · cases hcontent : options.withContent with
      | false =>
        rw [hcontent] at hreply
        exact hsound.read hread hreply
      | true =>
        rw [hcontent] at hreply
        obtain ⟨found, hfound, hreply⟩ := hreply
        exact ⟨found, hfound, hsound.read hread hreply⟩
  · obtain ⟨hnone, hsome⟩ := hsound.maps.search_exact hbody hname hne hnul hstar
    refine ⟨fun habsent => hsound.read hread (hnone habsent),
      fun keyNodes hlayer => ⟨[], fun p hp => absurd ?_ hstar, fun _ => rfl, ?_⟩⟩
    · rw [hp, List.getLast?_concat]
    · have hreply := hsome keyNodes hlayer
      cases hcontent : options.withContent with
      | false =>
        rw [hcontent] at hreply
        exact hsound.read hread hreply
      | true =>
        rw [hcontent] at hreply
        exact ⟨[], .nil, hsound.read hread hreply⟩

theorem search_in_keys_shows_star : ∃ h store keyNodes keys,
    ((slabStoreSystem (worldEnv .flat)).restrict SlabStore.Takes).Run h store ∧
    store.maps (bytes "l\x00") = some keyNodes ∧ KeysInOrder keyNodes (bytes "ab") keys ∧
    SlabStore.workerDoWork (worldEnv .flat)
        ⟨false, 1, .searchInKeys (bytes "l\x00") (bytes "ab*" ++ [0]) ⟨0, 2, 0, false, false, false⟩⟩ store =
      some (store, [⟨1, .keys ((keys.take 2).map List.dropLast)⟩]) := by
  obtain ⟨h, store, keyNodes, hr, -, -, hlayer, -⟩ := exists_slab_run
  have hbody : (⟨false, 1, .searchInKeys (bytes "l\x00") (bytes "ab*" ++ [0]) ⟨0, 2, 0, false, false, false⟩⟩ :
      Op ℚ).body =
    .searchInKeys (bytes "l\x00") (bytes "ab*" ++ [0]) ⟨0, 2, 0, false, false, false⟩ := rfl
  have hname : CKey (bytes "l\x00") := by decide
  obtain ⟨shown, hstar, -, hreply⟩ :=
    (search_in_keys_shows hr hbody hname (by decide) (by decide) (by decide)).2 keyNodes hlayer
  obtain ⟨keys, hkeys, rfl⟩ := hstar (bytes "ab") (by decide)
  exact ⟨h, store, keyNodes, keys, hr, hlayer, hkeys, hreply⟩

/-- **The index in a state of a run** that has lost no layer never fails its assertion: it shows every layer of the maps
once, with the number of its records and of those that have a position. -/
theorem layers_index_shows (hr : ((slabStoreSystem env).restrict SlabStore.Takes).Run h store)
    (hbody : op.body = .layersIndex) :
    ∃ jsons, SlabStore.workerDoWork env op store = some (store, SlabStore.replyTo op (.layers jsons)) ∧
      (jsons.map LayerJson.name).Nodup ∧
      (∀ json ∈ jsons, ∃ keyNodes, store.maps (json.name ++ [0]) = some keyNodes ∧ ShowsLayer env keyNodes json) ∧
      ∀ layerName keyNodes, store.maps layerName = some keyNodes → ∃ json ∈ jsons, layerName = json.name ++ [0] := by
  obtain ⟨entries, hsound⟩ := sound_of_run hr
  obtain ⟨jsons, hreply, hnodup, hjsons, hlayers⟩ := hsound.maps.layers_index hsound.reached hbody
  rw [hsound.maps_eq]
  exact ⟨jsons, hsound.read (by rw [hbody]; rfl) hreply, hnodup, hjsons, hlayers⟩

theorem layers_index_shows_slab : ∃ h store jsons json,
    ((slabStoreSystem (worldEnv .flat)).restrict SlabStore.Takes).Run h store ∧
    SlabStore.workerDoWork (worldEnv .flat) ⟨false, 1, .layersIndex⟩ store = some (store, [⟨1, .layers jsons⟩]) ∧
    json ∈ jsons ∧ bytes "l\x00" = json.name ++ [0] ∧ ∀ json ∈ jsons, bytes "m\x00" ≠ json.name ++ [0] := by
  obtain ⟨h, store, keyNodes, hr, -, hgone, hlayer, -⟩ := exists_slab_run
  have hbody : (⟨false, 1, .layersIndex⟩ : Op ℚ).body = .layersIndex := rfl
  obtain ⟨jsons, hreply, -, hjsons, hall⟩ := layers_index_shows hr hbody
  obtain ⟨json, hjson, hname⟩ := hall _ keyNodes hlayer
  refine ⟨h, store, jsons, json, hr, hreply, hjson, hname, fun json' hjson' hm => ?_⟩
  obtain ⟨keyNodes', hkeyNodes', -⟩ := hjsons json' hjson'
  rw [← hm, hgone] at hkeyNodes'
  cases hkeyNodes'

end

end Pincaster
