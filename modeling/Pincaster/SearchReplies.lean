import Pincaster.SearchClusters
import Pincaster.SearchRoom
import Pincaster.StoreReads
/-!
# SearchReplies — what the searches for positions show of the maps

The callbacks of the requests show the records whose slots they are called for.  So a search around a position or in a
rectangle shows the records of the maps that the search of the quad-tree finds (`search_nearby_shows`,
`search_in_rect_shows`), with clusters or without (`search_in_rect_clusters`).
-/
namespace Pincaster

open Lib (Bytes bytes cstr System)

variable {D : Type}

/-- The records of a layer whose positions have a property. -/
def keysAt (keyNodes : KeyNodes D) (P : Position2D D → Prop) : Set Key :=
  {key | ∃ record position, keyNodes key = some record ∧ record.slot = some position ∧ P position}

/-- A record is shown with a distance of its position. -/
def ShowsAt (keyNodes : KeyNodes D) (options : SearchOptions D) (distances : Position2D D → Meters D → Prop) (key : Key)
    (m : MatchJson D) : Prop :=
  ∃ record position distance, keyNodes key = some record ∧ record.slot = some position ∧ distances position distance ∧
    ShowsMatch keyNodes options (some distance) key m

/-- A cluster as it is shown. -/
def clusterJson (c : Position2D D × Meters D × Nat) : MatchJson D := .cluster c.2.2 c.1 c.2.1

/-- **The layers of the program**: their bounds and midpoints, and an accuracy that keeps the trees from getting too
deep. -/
structure WorldLayers [Field D] [LinearOrder D] (env : PanDbEnv D Nat) : Prop where
  midpoint : ExactMidpoint env.midpoint
  bounds : env.qbounds = worldBounds
  accuracy : 180 < 2 ^ 57 * env.latitudeAccuracy

theorem worldLayers_worldEnv {layerType : LayerType} : WorldLayers (worldEnv layerType).toPanDbEnv := by
  refine ⟨fun _ _ => rfl, rfl, ?_⟩
  norm_num [worldEnv]

/-! ## Keys and addresses -/

/-- Keys, and the addresses of their key nodes. -/
def NodesOf (db : Layer.Db D) (keys : List Key) (addrs : List Nat) : Prop :=
  List.Forall₂ (fun key a => (key, a) ∈ db.keyNodes.nodes) keys addrs

section
variable [LinearOrder D] {env : PanDbEnv D Nat} {mem : Layer.Memory} {db : Layer.Db D} {keys : List Key}
  {addrs : List Nat}

omit [LinearOrder D] in
theorem NodesOf.exists_addr (h : NodesOf db keys addrs) {key : Key} (hkey : key ∈ keys) :
    ∃ a ∈ addrs, (key, a) ∈ db.keyNodes.nodes := by
  induction h with
  | nil => cases hkey
  | @cons k a keys addrs hnode _ ih =>
    rcases List.mem_cons.1 hkey with rfl | hkey
    · exact ⟨a, List.mem_cons_self, hnode⟩
    · obtain ⟨a', ha', hnode'⟩ := ih hkey
      exact ⟨a', List.mem_cons_of_mem a ha', hnode'⟩

omit [LinearOrder D] in
theorem NodesOf.exists_key (h : NodesOf db keys addrs) {a : Nat} (ha : a ∈ addrs) :
    ∃ key ∈ keys, (key, a) ∈ db.keyNodes.nodes := by
  induction h with
  | nil => cases ha
  | @cons k a' keys addrs hnode _ ih =>
    rcases List.mem_cons.1 ha with rfl | ha
    · exact ⟨k, List.mem_cons_self, hnode⟩
    · obtain ⟨key, hkey, hnode'⟩ := ih ha
      exact ⟨key, List.mem_cons_of_mem k hkey, hnode'⟩

omit [LinearOrder D] in
theorem NodesOf.append {keys' : List Key} {addrs' : List Nat} (h : NodesOf db keys addrs)
    (h' : NodesOf db keys' addrs') :
    NodesOf db (keys ++ keys') (addrs ++ addrs') := List.rel_append h h'

/-- An address is that of one key. -/
theorem key_of_addr (hkept : Layer.Kept env mem db) {m n : Key × Nat} (hm : m ∈ db.keyNodes.nodes)
    (hn : n ∈ db.keyNodes.nodes) (heq : m.2 = n.2) : m = n := List.inj_on_of_nodup_map hkept.nodup hm hn heq

theorem NodesOf.mem_iff (hkept : Layer.Kept env mem db) (h : NodesOf db keys addrs) {n : Key × Nat}
    (hn : n ∈ db.keyNodes.nodes) : n.1 ∈ keys ↔ n.2 ∈ addrs := by
  constructor
  · intro hkey
    obtain ⟨a, ha, hnode⟩ := h.exists_addr hkey
    rwa [← congrArg Prod.snd (keyNode_unique hnode hn rfl)]
  · intro ha
    obtain ⟨key, hkey, hnode⟩ := h.exists_key ha
    rwa [← congrArg Prod.fst (key_of_addr hkept hnode hn rfl)]

theorem NodesOf.nodup (hkept : Layer.Kept env mem db) (h : NodesOf db keys addrs) (hnodup : addrs.Nodup) :
    keys.Nodup := by
  induction h with
  | nil => exact List.nodup_nil
  | @cons key a keys addrs hnode hrest ih =>
    obtain ⟨hnot, hnodup⟩ := List.nodup_cons.1 hnodup
    have hrest : NodesOf db keys addrs := hrest
    exact List.nodup_cons.2 ⟨fun hkey => hnot ((hrest.mem_iff hkept hnode).1 hkey), ih hnodup⟩

/-! ## Records with positions -/

omit [LinearOrder D] in
theorem mem_keysAt {n : Key × Nat} (hn : n ∈ db.keyNodes.nodes) {P : Position2D D → Prop} :
    n.1 ∈ keysAt (Layer.records mem db) P ↔ ∃ p, db.panDb.position n.2 = some p ∧ P p := by
  constructor
  · rintro ⟨record, p, hrecord, hslot, hp⟩
    rw [Layer.records_eq_some (a := n.2) hn, Option.some.injEq] at hrecord
    rw [← hrecord] at hslot
    exact ⟨p, hslot, hp⟩
  · rintro ⟨p, hpos, hp⟩
    exact ⟨_, p, Layer.records_eq_some (a := n.2) hn, hpos, hp⟩

omit [LinearOrder D] in
theorem exists_node_of_keysAt {P : Position2D D → Prop} {key : Key} (h : key ∈ keysAt (Layer.records mem db) P) :
    ∃ a p, (key, a) ∈ db.keyNodes.nodes ∧ db.panDb.position a = some p ∧ P p := by
  obtain ⟨record, p, hrecord, hslot, hp⟩ := h
  obtain ⟨n, hfind, rfl⟩ := Option.map_eq_some_iff.1 hrecord
  obtain ⟨hn, rfl⟩ := (Lib.RbTree.find_eq_some keyNodeCmp_total).1 hfind
  exact ⟨n.2, p, hn, hslot, hp⟩

theorem exists_node_of_position (hkept : Layer.Kept env mem db) {a : Nat} {p : Position2D D}
    (hpos : db.panDb.position a = some p) : ∃ key, (key, a) ∈ db.keyNodes.nodes := by
  obtain ⟨n, hn, rfl⟩ := List.mem_map.1 (hkept.position_addrs (a := a) (by rw [hpos]; exact Option.some_ne_none _))
  exact ⟨n.1, hn⟩

/-- The records with a property are as many as the slots. -/
theorem ncard_keysAt (hkept : Layer.Kept env mem db) (P : Position2D D → Prop) :
    (keysAt (Layer.records mem db) P).ncard = {a | ∃ p, db.panDb.position a = some p ∧ P p}.ncard := by
  symm
  refine Set.ncard_congr (fun a ha => (exists_node_of_position hkept ha.choose_spec.1).choose) ?_ ?_ ?_
  · intro a ha
    exact (mem_keysAt (exists_node_of_position hkept ha.choose_spec.1).choose_spec).2 ha
  · intro a b ha hb heq
    have hnode := (exists_node_of_position hkept ha.choose_spec.1).choose_spec
    have hnode' := (exists_node_of_position hkept hb.choose_spec.1).choose_spec
    exact congrArg Prod.snd (keyNode_unique hnode hnode' heq)
  · intro key hkey
    obtain ⟨a, p, hnode, hpos, hp⟩ := exists_node_of_keysAt hkey
    have ha : ∃ p, db.panDb.position a = some p ∧ P p := ⟨p, hpos, hp⟩
    have hspec := (exists_node_of_position hkept ha.choose_spec.1).choose_spec
    exact ⟨a, ha, congrArg Prod.fst (key_of_addr hkept hspec hnode rfl)⟩

/-! ## What the callbacks show -/

/-- The key nodes that a search has come to, and what is shown of them. -/
def ShownSlots (mem : Layer.Memory) (db : Layer.Db D) (options : SearchOptions D)
    (distances : Position2D D → Meters D → Prop) (addrs : List Nat) (found : List (MatchJson D)) : Prop :=
  ∃ keys, NodesOf db keys addrs ∧ List.Forall₂ (ShowsAt (Layer.records mem db) options distances) keys found

/-- The slots of the buckets are those of key nodes of the layer. -/
theorem inBuckets_node (hkept : Layer.Kept env mem db) {slot : Slot D Nat} (h : InBuckets db.panDb slot) :
    ∃ n ∈ db.keyNodes.nodes, slot.keyNode = some n.2 ∧ db.keyNodeAt n.2 = some n ∧
      db.panDb.position n.2 = some slot.position := by
  obtain ⟨x, b, hb, hslot⟩ := h
  obtain ⟨cell, htree⟩ := hkept.tree
  obtain ⟨e, he, rfl⟩ := List.mem_map.1 hslot
  obtain ⟨-, -, a, ha, -, hpos, -⟩ := htree.located.entry hb e he
  obtain ⟨key, hnode⟩ := exists_node_of_position hkept hpos
  refine ⟨(key, a), hnode, ha, ?_, hpos⟩
  cases hfind : db.keyNodeAt a with
  | none => exact absurd (List.find?_eq_none.1 hfind _ hnode) (by simp)
  | some m =>
    have hm : m.2 = a := by simpa using List.find?_some hfind
    rw [key_of_addr hkept (List.mem_of_find?_eq_some hfind) hnode hm]

/-- **`find_near_cb`** shows the record of its slot. -/
theorem findNearCb_shows (hkept : Layer.Kept env mem db) (hsound : db.Sound mem) (options : SearchOptions D)
    {slot : Slot D Nat} (h : InBuckets db.panDb slot) (distance : Meters D) :
    ∃ n m, n ∈ db.keyNodes.nodes ∧ slot.keyNode = some n.2 ∧ db.panDb.position n.2 = some slot.position ∧
      ShowsMatch (Layer.records mem db) options (some distance) n.1 m ∧
      ∀ found, LayerStore.findNearCb mem db options found slot distance = (some 0, found ++ [m]) := by
  obtain ⟨n, hn, hkey, hat, hpos⟩ := inBuckets_node hkept h
  obtain ⟨record, links, hjson, hshows⟩ :=
    keyNodeToJsonLinks_shown hsound hn options.withProperties options.withLinks
  refine ⟨n, .keyNode (some distance) record links, hn, hkey, hpos, ⟨record, links, rfl, hshows⟩, fun found => ?_⟩
  have hmatch : LayerStore.matchOf mem db options (some distance) n = some (.keyNode (some distance) record links) := by
    rw [LayerStore.matchOf, hjson, Option.map_some]
  rw [LayerStore.findNearCb, hkey, Option.bind_some, hat, Option.bind_some, hmatch]

theorem findNearCb_safe (hkept : Layer.Kept env mem db) (hsound : db.Sound mem) (options : SearchOptions D) :
    CbSafe db.panDb (LayerStore.findNearCb mem db options) := by
  intro slot hslot found distance
  obtain ⟨n, m, -, -, -, -, hcb⟩ := findNearCb_shows hkept hsound options hslot distance
  rw [hcb found]
  rfl

/-- One more slot is shown. -/
theorem findNearCb_shown (hkept : Layer.Kept env mem db) (hsound : db.Sound mem) (options : SearchOptions D)
    {distances : Position2D D → Meters D → Prop} {slot : Slot D Nat} (hslot : InBuckets db.panDb slot)
    {distance : Meters D} (hdistance : distances slot.position distance) {addrs : List Nat} {found : List (MatchJson D)}
    (h : ShownSlots mem db options distances addrs found) :
    ∃ m, (∀ found, LayerStore.findNearCb mem db options found slot distance = (some 0, found ++ [m])) ∧
      ShownSlots mem db options distances (addrs ++ slot.keyNode.toList) (found ++ [m]) := by
  obtain ⟨n, m, hn, hkey, hpos, hshows, hcb⟩ := findNearCb_shows hkept hsound options hslot distance
  obtain ⟨keys, hnodes, hall⟩ := h
  refine ⟨m, hcb, keys ++ [n.1], ?_, List.rel_append hall (.cons ?_ .nil)⟩
  · rw [hkey]
    exact hnodes.append (.cons hn .nil)
  · exact ⟨_, slot.position, distance, Layer.records_eq_some (a := n.2) hn, hpos, hdistance, hshows⟩

/-- **The log of a search, and the reply.** -/
theorem findNearCb_alike (hkept : Layer.Kept env mem db) (hsound : db.Sound mem) (options : SearchOptions D)
    {distances : Position2D D → Meters D → Prop} {distanceOf : Position2D D → Meters D}
    (hdistance : ∀ p, distances p (distanceOf p)) :
    CbAlike db.panDb distanceOf (ShownSlots mem db options distances) logCb
      (LayerStore.findNearCb mem db options) := by
  intro slot hslot addrs found h
  obtain ⟨m, hcb, hshown⟩ := findNearCb_shown hkept hsound options hslot (hdistance slot.position) h
  rw [hcb]
  exact ⟨rfl, hshown⟩

end

/-! ## Zones -/

/-- What is shown of a zone: some records, each once, and all that have to be. -/
structure ZoneShown (some all : Set Key) (keys : List Key) : Prop where
  nodup : keys.Nodup
  sound : ∀ key ∈ keys, key ∈ some
  complete : ∀ key ∈ all, key ∈ keys

section
variable [LinearOrder D] {env : PanDbEnv D Nat} {mem : Layer.Memory} {db : Layer.Db D} {keys : List Key}
  {addrs : List Nat}

/-- The key of a key node. -/
def keyOf (db : Layer.Db D) (a : Nat) : Key := ((db.keyNodeAt a).map Prod.fst).getD []

theorem keyOf_eq (hkept : Layer.Kept env mem db) {n : Key × Nat} (hn : n ∈ db.keyNodes.nodes) : keyOf db n.2 = n.1 := by
  cases hfind : db.keyNodeAt n.2 with
  | none => exact absurd (List.find?_eq_none.1 hfind _ hn) (by simp)
  | some m =>
    have hm : m.2 = n.2 := by simpa using List.find?_some hfind
    rw [keyOf, hfind, key_of_addr hkept (List.mem_of_find?_eq_some hfind) hn hm]
    rfl

theorem NodesOf.eq_map (hkept : Layer.Kept env mem db) (h : NodesOf db keys addrs) : keys = addrs.map (keyOf db) := by
  induction h with
  | nil => rfl
  | @cons key a keys addrs hnode _ ih =>
    have hkey : keyOf db a = key := keyOf_eq hkept hnode
    rw [List.map_cons, hkey, ← ih]

/-- The keys of some of the addresses. -/
theorem NodesOf.sub (hkept : Layer.Kept env mem db) (h : NodesOf db keys addrs) {addrs' : List Nat}
    (hsub : ∀ a ∈ addrs', a ∈ addrs) : NodesOf db (addrs'.map (keyOf db)) addrs' := by
  refine List.forall₂_map_left_iff.2 (List.forall₂_same.2 (fun a ha => ?_))
  obtain ⟨key, -, hnode⟩ := h.exists_key (hsub a ha)
  have hkey : keyOf db a = key := keyOf_eq hkept hnode
  exact hkey ▸ hnode

/-- **The key nodes that are noted in a zone**, in the maps. -/
theorem NodesOf.zoneShown (hkept : Layer.Kept env mem db) (h : NodesOf db keys addrs) {slots : Set Nat} {fits : Bool}
    (hnotes : Notes slots fits addrs) (hfits : fits = true) {P Q : Position2D D → Prop}
    (hsound : ∀ a ∈ slots, ∃ p, db.panDb.position a = some p ∧ P p)
    (hall : ∀ a p, db.panDb.position a = some p → Q p → a ∈ slots) :
    ZoneShown (keysAt (Layer.records mem db) P) (keysAt (Layer.records mem db) Q) keys := by
  refine ⟨h.nodup hkept hnotes.nodup, fun key hkey => ?_, fun key hkey => ?_⟩
  · obtain ⟨a, ha, hnode⟩ := h.exists_addr hkey
    exact (mem_keysAt hnode).2 (hsound a (hnotes.sound a ha))
  · obtain ⟨a, p, hnode, hpos, hq⟩ := exists_node_of_keysAt hkey
    exact (h.mem_iff hkept hnode).2 (hnotes.all hfits a (hall a p hpos hq))

/-- **All zones.** -/
theorem ShownSlots.zones (hkept : Layer.Kept env mem db) {options : SearchOptions D}
    {distances : Position2D D → Meters D → Prop} {zones : List (Rectangle2D D)} {addrsOf : Rectangle2D D → List Nat}
    {found : List (MatchJson D)} (h : ShownSlots mem db options distances (zones.flatMap addrsOf) found) :
    ∃ shown : Rectangle2D D → List Key,
      List.Forall₂ (ShowsAt (Layer.records mem db) options distances) (zones.flatMap shown) found ∧
      ∀ zone ∈ zones, NodesOf db (shown zone) (addrsOf zone) := by
  obtain ⟨keys, hnodes, hall⟩ := h
  refine ⟨fun zone => (addrsOf zone).map (keyOf db), ?_, fun zone hzone => hnodes.sub hkept (fun a ha => ?_)⟩
  · rwa [← List.map_flatMap, ← hnodes.eq_map hkept]
  · exact List.mem_flatMap.2 ⟨zone, hzone, ha⟩

end

/-! ## Replies -/

section
variable [Field D] [LinearOrder D] [IsStrictOrderedRing D] {env : SearchEnv D Nat} {store : LayerStore D}
  {layers : Layers D} {layerName : Key} {op : Op D}

/-- The layer of a request, whose quad-tree is not too deep. -/
theorem HasMaps.exists_tree (h : HasMaps env.toPanDbEnv store layers)
    (hreached : LayersReached env.toPanDbEnv store.layers) (hworld : WorldLayers env.toPanDbEnv)
    (hname : CKey layerName)
    {keyNodes : KeyNodes D} (hsome : layers layerName = some keyNodes) :
    ∃ db, getPanDbByLayerName store.layers layerName = some db ∧ Layer.Kept env.toPanDbEnv store.mem db ∧
      db.Sound store.mem ∧ keyNodes = Layer.records store.mem db ∧
      (panDbSystem env.toPanDbEnv).Reachable db.panDb ∧ QuadsWithin env.toPanDbEnv db.panDb 56 := by
  obtain ⟨db, hdb, hkept, hsound, hrecords⟩ := h.exists_layer hname hsome
  obtain ⟨pre, layer, post, hlayers, rfl, -, -⟩ := getPanDb_split hdb
  have hr := (hreached layer (by rw [hlayers]; simp)).tree
  exact ⟨_, hdb, hkept, hsound, hrecords, hr, quadsWithin_of_accuracy hworld.midpoint hworld.bounds hr hworld.accuracy⟩

omit [Field D] [LinearOrder D] [IsStrictOrderedRing D] in
/-- A search that has come to its end, or was stopped. -/
theorem searchReply_eq {r : Option Int × List (MatchJson D)} (h : r.1.isSome = true) :
    r.1 = some 0 ∧ LayerStore.searchReply r = some (.found r.2) ∨
    r.1 ≠ some 0 ∧ LayerStore.searchReply r = some .overflow := by
  obtain ⟨ret, hret⟩ := Option.isSome_iff_exists.1 h
  unfold LayerStore.searchReply
  rw [hret, Option.map_some]
  by_cases hzero : ret = 0
  · exact .inl ⟨by rw [hzero], by rw [if_neg (not_not.2 hzero)]⟩
  · exact .inr ⟨fun heq => hzero (Option.some.inj heq), by rw [if_pos hzero]⟩

omit [Field D] [LinearOrder D] [IsStrictOrderedRing D] in
/-- A zone in which a search was stopped. -/
theorem exists_stopped {keys : Rectangle2D D → List Nat} {fits : Rectangle2D D → Bool} {stops : Nat → Bool}
    {limit : Nat}
    {zones : List (Rectangle2D D)} (hret : (zonesResult keys fits stops limit zones []).1 ≠ some 0)
    (hfits : ∀ zone, fits zone = true) : ∃ zone ∈ zones, stops (keys zone).length = true := by
  by_contra hno
  refine hret ((zonesResult_ret zones []).2 (fun zone hzone => ⟨hfits zone, ?_⟩))
  rw [← Bool.not_eq_true]
  exact fun hstops => hno ⟨zone, hzone, hstops⟩

/-- **A search around a position** shows records within the distance, and every one of them that lies in a zone; it is
stopped only when there are as many as the limit. -/
theorem HasMaps.search_nearby (h : HasMaps env.toPanDbEnv store layers)
    (hreached : LayersReached env.toPanDbEnv store.layers) (hworld : WorldLayers env.toPanDbEnv)
    {position : Position2D D} {options : SearchOptions D} (hbody : op.body = .searchNearby layerName position options)
    (hname : CKey layerName) (hlimit : 1 ≤ options.limit) :
    (layers layerName = none →
      LayerStore.workerDoWork env op store = some (answered op store HTTP_NOTFOUND .error)) ∧
    ∀ keyNodes, layers layerName = some keyNodes →
      (LayerStore.workerDoWork env op store = some (answered op store 0 .overflow) ∧
        options.limit ≤ (keysAt keyNodes (fun p => (nearDistance env position p).le options.radius)).ncard) ∨
      ∃ shown found, LayerStore.workerDoWork env op store = some (answered op store 0 (.found found)) ∧
        List.Forall₂ (ShowsAt keyNodes options (fun p distance => distance = nearDistance env position p))
          ((nearZones env position options.radius).flatMap shown) found ∧
        ∀ zone ∈ nearZones env position options.radius,
          ZoneShown (keysAt keyNodes (fun p => (nearDistance env position p).le options.radius))
            (keysAt keyNodes (fun p => (nearDistance env position p).le options.radius ∧ positionIsInRect p zone))
            (shown zone) ∧ (shown zone).length < options.limit := by
  have hop : LayerStore.handleOp env op store =
      LayerStore.handleOpSearchNearby env op layerName position options store := by
    rw [LayerStore.handleOp, hbody]
  rw [LayerStore.handleOpSearchNearby] at hop
  refine ⟨fun hnone => ?_, fun keyNodes hlayer => ?_⟩
  · rw [h.no_layer hname hnone] at hop
    exact workerDoWork_error (by decide) hop
  obtain ⟨db, hdb, hkept, hsound, rfl, hr, hmax⟩ := h.exists_tree hreached hworld hname hlayer
  obtain ⟨cell, htree⟩ := hkept.tree
  have hnotes := fun zone => nearKeys_spec htree position options.radius zone
  have hfits := fun zone => zoneFits_of_quadsWithin hr hmax zone
  have hslots : ∀ zone, ∀ a ∈ nearSlots env db.panDb position options.radius zone,
      ∃ p, db.panDb.position a = some p ∧ (nearDistance env position p).le options.radius :=
    fun zone a hslot => hslot.imp (fun p h => ⟨h.1, h.2.1⟩)
  have hcb : CbAlike db.panDb (nearDistance env position)
      (ShownSlots store.mem db options (fun p distance => distance = nearDistance env position p)) logCb
      (LayerStore.findNearCb store.mem db options) := findNearCb_alike hkept hsound options (fun _ => rfl)
  have halike := findNear_alike hcb options.radius options.limit (show ShownSlots _ _ _ _ [] [] from ⟨[], .nil, .nil⟩)
  have hsome := findNear_isSome htree hmax (findNearCb_safe hkept hsound options) []
    position options.radius options.limit
  simp only [hdb] at hop
  generalize findNear env db.panDb (LayerStore.findNearCb store.mem db options) [] position options.radius
    options.limit = r at hop halike hsome
  obtain ⟨hret, hshown⟩ := halike
  rw [findNear_eq (ascending_of_stable htree) position options.radius hlimit] at hret hshown
  rcases searchReply_eq hsome with ⟨hzero, hreply⟩ | ⟨hstopped, hreply⟩
  · rw [hreply] at hop
    have hgone := (zonesResult_ret _ _).1 (hret.trans hzero)
    rw [zonesResult_all (fun n hn => (Nat.not_le.1 (of_decide_eq_false hn)).le) hgone] at hshown
    obtain ⟨shown, hall, hnodes⟩ := hshown.zones hkept
    refine .inr ⟨shown, r.2, workerDoWork_reply hop, hall, fun zone hzone => ⟨?_, ?_⟩⟩
    · exact (hnodes zone hzone).zoneShown hkept (hnotes zone) (hfits zone) (hslots zone)
        (fun a p hp hq => ⟨p, hp, hq.1, touches_of_isInRect htree hp hq.2⟩)
    · rw [(hnodes zone hzone).length_eq]
      exact Nat.not_le.1 (of_decide_eq_false (hgone zone hzone).2)
  · rw [hreply] at hop
    obtain ⟨zone, -, hstops⟩ := exists_stopped (fun hzero => hstopped (hret.symm.trans hzero)) hfits
    refine .inl ⟨workerDoWork_reply hop, (of_decide_eq_true hstops).trans ?_⟩
    rw [(hnotes zone).length (hfits zone), ncard_keysAt hkept]
    exact Set.ncard_le_ncard (hslots zone)
      ((finite_storedKeys htree).subset (fun a hslot => hslot.elim (fun p h => mem_storedKeys h.1)))

omit [Field D] [LinearOrder D] [IsStrictOrderedRing D] in
theorem findNearClusterCb_safe (found : List (MatchJson D)) (position : Position2D D) (radius : Meters D)
    (children : Nat) : (LayerStore.findNearClusterCb found position radius children).1.isSome = true := rfl

/-- **A search in a rectangle** without clusters shows the records of each of its zones; it is stopped exactly when a
zone has more of them than the limit. -/
theorem HasMaps.search_in_rect (h : HasMaps env.toPanDbEnv store layers)
    (hreached : LayersReached env.toPanDbEnv store.layers) (hworld : WorldLayers env.toPanDbEnv) {rect : Rectangle2D D}
    {options : SearchOptions D} (hbody : op.body = .searchInRect layerName rect options) (hname : CKey layerName)
    (hlimit : 1 ≤ options.limit) (hepsilon : options.epsilon ≤ 0) :
    (layers layerName = none →
      LayerStore.workerDoWork env op store = some (answered op store HTTP_NOTFOUND .error)) ∧
    ∀ keyNodes, layers layerName = some keyNodes →
      (LayerStore.workerDoWork env op store = some (answered op store 0 .overflow) ∧
        ∃ zone ∈ inRectZones env rect, options.limit < (keysAt keyNodes (fun p => positionIsInRect p zone)).ncard) ∨
      ∃ shown found, LayerStore.workerDoWork env op store = some (answered op store 0 (.found found)) ∧
        List.Forall₂ (ShowsAt keyNodes options
            (fun p distance => ∃ zone ∈ inRectZones env rect, distance = inRectDistance env zone p))
          ((inRectZones env rect).flatMap shown) found ∧
        ∀ zone ∈ inRectZones env rect, ZoneShown (keysAt keyNodes (fun p => positionIsInRect p zone))
          (keysAt keyNodes (fun p => positionIsInRect p zone)) (shown zone) ∧ (shown zone).length ≤ options.limit := by
  have hop : LayerStore.handleOp env op store =
      LayerStore.handleOpSearchInRect env op layerName rect options store := by
    rw [LayerStore.handleOp, hbody]
  rw [LayerStore.handleOpSearchInRect] at hop
  refine ⟨fun hnone => ?_, fun keyNodes hlayer => ?_⟩
  · rw [h.no_layer hname hnone] at hop
    exact workerDoWork_error (by decide) hop
  obtain ⟨db, hdb, hkept, hsound, rfl, hr, hmax⟩ := h.exists_tree hreached hworld hname hlayer
  obtain ⟨cell, htree⟩ := hkept.tree
  have hnotes : ∀ zone, Notes (inRectSlots db.panDb zone) (zoneFits env db.panDb zone) (rectKeys env db.panDb zone) :=
    fun zone => rectKeys_spec htree zone
  have hfits := fun zone => zoneFits_of_quadsWithin hr hmax zone
  have hcb : ∀ zone ∈ inRectZones env rect, CbAlike db.panDb (inRectDistance env zone) (ShownSlots store.mem db options
      (fun p distance => ∃ zone ∈ inRectZones env rect, distance = inRectDistance env zone p)) logCb
      (LayerStore.findNearCb store.mem db options) :=
    fun zone hzone => findNearCb_alike hkept hsound options (fun _ => ⟨zone, hzone, rfl⟩)
  have halike : Alike _ (findInRect env db.panDb logCb (fun log _ _ _ => (some 0, log)) []
      rect options.limit options.epsilon)
      (findInRect env db.panDb (LayerStore.findNearCb store.mem db options) LayerStore.findNearClusterCb [] rect
        options.limit options.epsilon) :=
    findInRect_alike hcb options.limit (fun hpos => absurd hpos (not_lt.2 hepsilon)) ⟨[], .nil, .nil⟩
  have hsome := findInRect_isSome htree hmax (findNearCb_safe hkept hsound options) findNearClusterCb_safe [] rect
    options.limit options.epsilon
  simp only [hdb] at hop
  generalize findInRect env db.panDb (LayerStore.findNearCb store.mem db options) LayerStore.findNearClusterCb [] rect
    options.limit options.epsilon = r at hop halike hsome
  obtain ⟨hret, hshown⟩ := halike
  rw [findInRect_eq (ascending_of_stable htree) _ rect hlimit hepsilon] at hret hshown
  rcases searchReply_eq hsome with ⟨hzero, hreply⟩ | ⟨hstopped, hreply⟩
  · rw [hreply] at hop
    have hgone := (zonesResult_ret _ _).1 (hret.trans hzero)
    rw [zonesResult_all (fun n hn => Nat.not_lt.1 (of_decide_eq_false hn)) hgone] at hshown
    obtain ⟨shown, hall, hnodes⟩ := hshown.zones hkept
    refine .inr ⟨shown, r.2, workerDoWork_reply hop, hall, fun zone hzone => ⟨?_, ?_⟩⟩
    · exact (hnodes zone hzone).zoneShown hkept (hnotes zone) (hfits zone) (fun a ha => ha)
        (fun a p hp hq => ⟨p, hp, hq⟩)
    · rw [(hnodes zone hzone).length_eq]
      exact Nat.not_lt.1 (of_decide_eq_false (hgone zone hzone).2)
  · rw [hreply] at hop
    obtain ⟨zone, hzone, hstops⟩ := exists_stopped (fun hzero => hstopped (hret.symm.trans hzero)) hfits
    refine .inl ⟨workerDoWork_reply hop, zone, hzone, (of_decide_eq_true hstops).trans_le ?_⟩
    rw [(hnotes zone).length (hfits zone), ncard_keysAt hkept]
    exact le_of_eq rfl

/-! ## Clusters -/

/-- What a search has reported, and what is shown of it. -/
def ShownReport (mem : Layer.Memory) (db : Layer.Db D) (options : SearchOptions D)
    (distances : Position2D D → Meters D → Prop) (report : Report D Nat) (found : List (MatchJson D)) : Prop :=
  ∃ records, ShownSlots mem db options distances report.keys records ∧
    found.Perm (records ++ report.clusters.map clusterJson)

omit [Field D] [IsStrictOrderedRing D] in
theorem findNearCb_reported {env : PanDbEnv D Nat} {mem : Layer.Memory} {db : Layer.Db D}
    (hkept : Layer.Kept env mem db)
    (hsound : db.Sound mem) (options : SearchOptions D) {distances : Position2D D → Meters D → Prop}
    {distanceOf : Position2D D → Meters D} (hdistance : ∀ p, distances p (distanceOf p)) :
    CbAlike db.panDb distanceOf (ShownReport mem db options distances) reportCb
      (LayerStore.findNearCb mem db options) := by
  intro slot hslot report found h
  obtain ⟨records, hshown, hperm⟩ := h
  obtain ⟨m, hcb, hshown'⟩ := findNearCb_shown hkept hsound options hslot (hdistance slot.position) hshown
  rw [hcb]
  refine ⟨rfl, records ++ [m], hshown', ?_⟩
  change (found ++ [m]).Perm (records ++ [m] ++ report.clusters.map clusterJson)
  have hright : (found ++ [m]).Perm (records ++ report.clusters.map clusterJson ++ [m]) := hperm.append_right _
  rw [List.append_assoc] at hright ⊢
  exact hright.trans (List.perm_append_comm.append_left _)

omit [Field D] [IsStrictOrderedRing D] [LinearOrder D] in
theorem findNearClusterCb_reported {mem : Layer.Memory} {db : Layer.Db D} {options : SearchOptions D}
    {distances : Position2D D → Meters D → Prop} (position : Position2D D) (radius : Meters D) (children : Nat)
    {report : Report D Nat} {found : List (MatchJson D)} (h : ShownReport mem db options distances report found) :
    Alike (ShownReport mem db options distances) (reportClusterCb report position radius children)
      (LayerStore.findNearClusterCb found position radius children) := by
  obtain ⟨records, hshown, hperm⟩ := h
  refine ⟨rfl, records, hshown, ?_⟩
  change (found ++ [clusterJson (position, radius, children)]).Perm
    (records ++ (report.clusters ++ [(position, radius, children)]).map clusterJson)
  rw [List.map_append, ← List.append_assoc]
  exact hperm.append_right _

/-- A search of a flat layer that has come to its end has covered the rectangle; with exact coordinates every cell that is
not entered is a cluster. -/
theorem findInRect_clusters {db : PanDB D Nat} {pos : Nat → Option (Position2D D)} {cell : Nat → Rectangle2D D}
    (h : Stable env.toPanDbEnv db pos cell) (hflat : env.layerType = .flat) {rect : Rectangle2D D} {limit : Nat}
    (hlimit : 0 < limit) {epsilon : D}
    (hret : (findInRect env db reportCb reportClusterCb ⟨[], []⟩ rect limit epsilon).1 = some 0) :
    ∃ cells, (findInRect env db reportCb reportClusterCb ⟨[], []⟩ rect limit epsilon).2.clusters =
        cells.map (fun c => clusterOf c.2 (c.1.subSlots % 2 ^ 32)) ∧
      Covers env.toPanDbEnv db pos rect (fun p => positionIsInRect p env.qbounds)
        (findInRect env db reportCb reportClusterCb ⟨[], []⟩ rect limit epsilon).2.keys cells := by
  obtain ⟨keys, cells, hkeys, hclusters, hsmall, hcovers⟩ := findInRect_covers h hflat hlimit hret
  rw [List.nil_append] at hkeys hclusters
  have hcentred : cells.filter (fun c => Centred c.2) = cells := by
    refine List.filter_eq_self.2 (fun c hc => decide_eq_true ?_)
    obtain ⟨⟨a, hq, hcell⟩, -⟩ := hcovers.cell c hc
    exact centred_of_exact h hq hcell (hsmall c hc).1
  rw [hcentred] at hclusters
  exact ⟨cells, hclusters, hkeys ▸ hcovers⟩

/-- **A search with clusters** in a rectangle of a flat layer shows every record of the rectangle, by itself or in one
cluster; the children of a cluster are the records in its cell, counted in 32 bits. -/
theorem HasMaps.search_in_rect_flat (h : HasMaps env.toPanDbEnv store layers)
    (hreached : LayersReached env.toPanDbEnv store.layers) (hworld : WorldLayers env.toPanDbEnv)
    (hflat : env.layerType = .flat) {rect : Rectangle2D D} {options : SearchOptions D}
    (hbody : op.body = .searchInRect layerName rect options) (hname : CKey layerName) (hlimit : 1 ≤ options.limit)
    {keyNodes : KeyNodes D} (hlayer : layers layerName = some keyNodes) :
    LayerStore.workerDoWork env op store = some (answered op store 0 .overflow) ∨
    ∃ (keys : List Key) (records : List (MatchJson D)) (cells : List (Rectangle2D D)) (found : List (MatchJson D)),
      LayerStore.workerDoWork env op store = some (answered op store 0 (.found found)) ∧
      found.Perm (records ++ cells.map (fun c =>
        clusterJson (clusterOf c ((keysAt keyNodes (fun p => positionIsInRect p c)).ncard % 2 ^ 32)))) ∧
      List.Forall₂ (ShowsAt keyNodes options (fun p distance => distance = inRectDistance env rect p)) keys records ∧
      cells.Pairwise (fun c c' => ∀ p, positionIsInRect p c → ¬ positionIsInRect p c') ∧
      ZoneShown (keysAt keyNodes (fun p => positionIsInRect p rect ∧ ∀ c ∈ cells, ¬ positionIsInRect p c))
        (keysAt keyNodes (fun p => positionIsInRect p rect ∧ ∀ c ∈ cells, ¬ positionIsInRect p c)) keys := by
  have hop : LayerStore.handleOp env op store =
      LayerStore.handleOpSearchInRect env op layerName rect options store := by
    rw [LayerStore.handleOp, hbody]
  rw [LayerStore.handleOpSearchInRect] at hop
  obtain ⟨db, hdb, hkept, hsound, rfl, hr, hmax⟩ := h.exists_tree hreached hworld hname hlayer
  obtain ⟨cell, htree⟩ := hkept.tree
  have hzones : inRectZones env rect = [rect] := if_pos hflat
  have hcb : ∀ zone ∈ inRectZones env rect, CbAlike db.panDb (inRectDistance env zone) (ShownReport store.mem db options
      (fun p distance => distance = inRectDistance env rect p)) reportCb
        (LayerStore.findNearCb store.mem db options) := by
    rw [hzones]
    refine List.forall_mem_singleton.2 (findNearCb_reported hkept hsound options (fun _ => rfl))
  have halike : Alike _ (findInRect env db.panDb reportCb reportClusterCb ⟨[], []⟩ rect options.limit options.epsilon)
      (findInRect env db.panDb (LayerStore.findNearCb store.mem db options) LayerStore.findNearClusterCb [] rect
        options.limit options.epsilon) :=
    findInRect_alike hcb options.limit
      (fun _ position radius children _ _ hc => findNearClusterCb_reported position radius children hc)
      ⟨[], ⟨[], .nil, .nil⟩, .refl _⟩
  have hsome := findInRect_isSome htree hmax (findNearCb_safe hkept hsound options) findNearClusterCb_safe [] rect
    options.limit options.epsilon
  simp only [hdb] at hop
  generalize findInRect env db.panDb (LayerStore.findNearCb store.mem db options) LayerStore.findNearClusterCb [] rect
    options.limit options.epsilon = r at hop halike hsome
  obtain ⟨hret, hshown⟩ := halike
  rcases searchReply_eq hsome with ⟨hzero, hreply⟩ | ⟨-, hreply⟩
  · rw [hreply] at hop
    obtain ⟨cells, hclusters, hcovers⟩ := findInRect_clusters htree hflat hlimit (hret.trans hzero)
    obtain ⟨records, ⟨keys, hnodes, hall⟩, hperm⟩ := hshown
    refine .inr ⟨keys, records, cells.map Prod.snd, r.2, workerDoWork_reply hop, ?_, hall,
      List.pairwise_map.2 hcovers.disjoint, ?_⟩
    · rw [hclusters, List.map_map] at hperm
      rw [List.map_map]
      convert hperm using 2
      refine List.map_congr_left (fun c hc => ?_)
      obtain ⟨⟨a, hq, hcell⟩, -⟩ := hcovers.cell c hc
      have hcard := ncard_inRectSlots htree hq hcell
      rw [Function.comp, Function.comp, ncard_keysAt hkept, ← hcard]
      rfl
    · refine ⟨hnodes.nodup hkept hcovers.nodup, fun key hkey => ?_, fun key hkey => ?_⟩
      · obtain ⟨a, ha, hnode⟩ := hnodes.exists_addr hkey
        obtain ⟨p, hp, -, hin, hno⟩ := hcovers.key a ha
        exact (mem_keysAt hnode).2 ⟨p, hp, hin, List.forall_mem_map.2 hno⟩
      · obtain ⟨a, p, hnode, hp, hin, hno⟩ := exists_node_of_keysAt hkey
        refine (hnodes.mem_iff hkept hnode).2 ((hcovers.all a p hp (isInRect_qbounds htree hp) hin).resolve_right ?_)
        rintro ⟨c, hc, hcin⟩
        exact hno c.2 (List.mem_map_of_mem hc) hcin
  · rw [hreply] at hop
    exact .inl (workerDoWork_reply hop)

end

/-! ## Runs -/

section
variable [Field D] [LinearOrder D] [IsStrictOrderedRing D] [Dimension D] [ExactDimension D] {env : SearchEnv D Nat}
  {h : List (SlabStore D × StoreInput D)} {store : SlabStore D} {op : Op D} {layerName : Key}

/-- **A search around a position in a state of a run** that has lost no layer shows current records of the layer within the
distance, each with that distance, at most once in a zone and less often than the limit, and every one of them whose position
is in a zone; it is stopped only when as many as the limit are within the distance. -/
theorem search_nearby_shows (hr : ((slabStoreSystem env).restrict SlabStore.Takes).Run h store)
    (hworld : WorldLayers env.toPanDbEnv) {position : Position2D D} {options : SearchOptions D}
    (hbody : op.body = .searchNearby layerName position options) (hname : CKey layerName) (hlimit : 1 ≤ options.limit) :
    (store.maps layerName = none →
      SlabStore.workerDoWork env op store = some (store, SlabStore.replyTo op .error)) ∧
    ∀ keyNodes, store.maps layerName = some keyNodes →
      (SlabStore.workerDoWork env op store = some (store, SlabStore.replyTo op .overflow) ∧
        options.limit ≤ (keysAt keyNodes (fun p => (nearDistance env position p).le options.radius)).ncard) ∨
      ∃ shown found, SlabStore.workerDoWork env op store = some (store, SlabStore.replyTo op (.found found)) ∧
        List.Forall₂ (ShowsAt keyNodes options (fun p distance => distance = nearDistance env position p))
          ((nearZones env position options.radius).flatMap shown) found ∧
        ∀ zone ∈ nearZones env position options.radius,
          ZoneShown (keysAt keyNodes (fun p => (nearDistance env position p).le options.radius))
            (keysAt keyNodes (fun p => (nearDistance env position p).le options.radius ∧ positionIsInRect p zone))
            (shown zone) ∧ (shown zone).length < options.limit := by
  obtain ⟨entries, hsound⟩ := sound_of_run hr
  have hread : op.body.mutates = false := by rw [hbody]; rfl
  obtain ⟨hnone, hsome⟩ := hsound.maps.search_nearby hsound.reached hworld hbody hname hlimit
  rw [hsound.maps_eq]
  refine ⟨fun habsent => hsound.read hread (hnone habsent), fun keyNodes hlayer => ?_⟩
  rcases hsome keyNodes hlayer with ⟨hreply, hmany⟩ | ⟨shown, found, hreply, hshown⟩
  · exact .inl ⟨hsound.read hread hreply, hmany⟩
  · exact .inr ⟨shown, found, hsound.read hread hreply, hshown⟩

/-- What a search has shown: the children of a cluster, and `none` for a record. -/
def shownChildren (r : Option (SlabStore ℚ × List (OpReply ℚ))) : Option (List (Option Nat)) :=
  match r with
  | some (_, [⟨_, .found found⟩]) => some (found.map (fun m => match m with
      | .cluster children _ _ => some children
      | .keyNode _ _ _ => none))
  | _ => none

/-- The reply of an operation that has shown something. -/
theorem reply_of_shown {env : SearchEnv ℚ Nat} {op : Op ℚ} {store : SlabStore ℚ} {json : ReplyJson ℚ}
    {l : List (Option Nat)} (hfake : op.fakeReq = false)
    (hreply : SlabStore.workerDoWork env op store = some (store, SlabStore.replyTo op json))
    (hshown : shownChildren (SlabStore.workerDoWork env op store) = some l) :
    ∃ found, json = .found found ∧ found.length = l.length := by
  rw [hreply, SlabStore.replyTo, hfake] at hshown
  cases json with
  | found found =>
    refine ⟨found, rfl, ?_⟩
    rw [← Option.some.inj hshown, List.length_map]
  | _ => cases hshown

/-- One record lies at the distance itself, and one is further away. -/
theorem search_nearby_shows_edge : ∃ h store keyNodes shown found,
    ((slabStoreSystem (worldEnv .flat)).restrict SlabStore.Takes).Run h store ∧
    store.maps (bytes "l\x00") = some keyNodes ∧ found.length = 2 ∧
    SlabStore.workerDoWork (worldEnv .flat)
        ⟨false, 1, .searchNearby (bytes "l\x00") ⟨10, 10⟩ ⟨2, 10, 0, false, false, false⟩⟩ store =
      some (store, [⟨1, .found found⟩]) ∧
    List.Forall₂ (ShowsAt keyNodes ⟨2, 10, 0, false, false, false⟩
        (fun p distance => distance = nearDistance (worldEnv .flat) ⟨10, 10⟩ p))
      ((nearZones (worldEnv .flat) ⟨10, 10⟩ 2).flatMap shown) found := by
  have hbody : (⟨false, 1, .searchNearby (bytes "l\x00") ⟨10, 10⟩ ⟨2, 10, 0, false, false, false⟩⟩ : Op ℚ).body =
    .searchNearby (bytes "l\x00") ⟨10, 10⟩ ⟨2, 10, 0, false, false, false⟩ := rfl
  have hname : CKey (bytes "l\x00") := by decide
  have hrun : (((slabStoreSystem (worldEnv .flat)).restrict (fun store input => store.KeepsLayers input)).exec slabInputs
      emptySlabStore).any (fun store => (store.maps (bytes "l\x00")).isSome &&
        decide (shownChildren (SlabStore.workerDoWork (worldEnv .flat) ⟨false, 1, .searchNearby (bytes "l\x00") ⟨10, 10⟩
          ⟨2, 10, 0, false, false, false⟩⟩ store) = some [none, none])) = true := by
    decide +kernel
  obtain ⟨h, store, hr, -, hp⟩ := slab_run_of hrun
  obtain ⟨hsome, hshown⟩ := Bool.and_eq_true_iff.1 hp
  obtain ⟨keyNodes, hlayer⟩ := Option.isSome_iff_exists.1 hsome
  rcases (search_nearby_shows hr worldLayers_worldEnv hbody hname (by decide)).2 keyNodes hlayer with
    ⟨hreply, -⟩ | ⟨shown, found, hreply, hall, -⟩
  · obtain ⟨found, hfound, -⟩ := reply_of_shown rfl hreply (of_decide_eq_true hshown)
    cases hfound
  · obtain ⟨found', hfound, hlength⟩ := reply_of_shown rfl hreply (of_decide_eq_true hshown)
    cases hfound
    exact ⟨h, store, keyNodes, shown, found, hr, hlayer, hlength, hreply, hall⟩

/-- **A search in a rectangle in a state of a run** that has lost no layer, without clusters, shows in every zone of the
rectangle the current records that lie in it, each once; it is stopped exactly when a zone has more of them than the limit. -/
theorem search_in_rect_shows (hr : ((slabStoreSystem env).restrict SlabStore.Takes).Run h store)
    (hworld : WorldLayers env.toPanDbEnv) {rect : Rectangle2D D} {options : SearchOptions D}
    (hbody : op.body = .searchInRect layerName rect options) (hname : CKey layerName) (hlimit : 1 ≤ options.limit)
    (hepsilon : options.epsilon ≤ 0) :
    (store.maps layerName = none →
      SlabStore.workerDoWork env op store = some (store, SlabStore.replyTo op .error)) ∧
    ∀ keyNodes, store.maps layerName = some keyNodes →
      (SlabStore.workerDoWork env op store = some (store, SlabStore.replyTo op .overflow) ∧
        ∃ zone ∈ inRectZones env rect, options.limit < (keysAt keyNodes (fun p => positionIsInRect p zone)).ncard) ∨
      ∃ shown found, SlabStore.workerDoWork env op store = some (store, SlabStore.replyTo op (.found found)) ∧
        List.Forall₂ (ShowsAt keyNodes options
            (fun p distance => ∃ zone ∈ inRectZones env rect, distance = inRectDistance env zone p))
          ((inRectZones env rect).flatMap shown) found ∧
        ∀ zone ∈ inRectZones env rect, ZoneShown (keysAt keyNodes (fun p => positionIsInRect p zone))
          (keysAt keyNodes (fun p => positionIsInRect p zone)) (shown zone) ∧ (shown zone).length ≤ options.limit := by
  obtain ⟨entries, hsound⟩ := sound_of_run hr
  have hread : op.body.mutates = false := by rw [hbody]; rfl
  obtain ⟨hnone, hsome⟩ := hsound.maps.search_in_rect hsound.reached hworld hbody hname hlimit hepsilon
  rw [hsound.maps_eq]
  refine ⟨fun habsent => hsound.read hread (hnone habsent), fun keyNodes hlayer => ?_⟩
  rcases hsome keyNodes hlayer with ⟨hreply, hmany⟩ | ⟨shown, found, hreply, hshown⟩
  · exact .inl ⟨hsound.read hread hreply, hmany⟩
  · exact .inr ⟨shown, found, hsound.read hread hreply, hshown⟩

/-- Two records, as many as the limit: one on a lower edge of the rectangle is shown, one on an upper edge is not. -/
theorem search_in_rect_shows_edge : ∃ h store keyNodes shown found,
    ((slabStoreSystem (worldEnv .flat)).restrict SlabStore.Takes).Run h store ∧
    store.maps (bytes "l\x00") = some keyNodes ∧ found.length = 2 ∧
    SlabStore.workerDoWork (worldEnv .flat)
        ⟨false, 1, .searchInRect (bytes "l\x00") ⟨⟨-90, 10⟩, ⟨11, 120⟩⟩ ⟨0, 2, 0, false, false, false⟩⟩ store =
      some (store, [⟨1, .found found⟩]) ∧
    List.Forall₂ (ShowsAt keyNodes ⟨0, 2, 0, false, false, false⟩ (fun p distance =>
        ∃ zone ∈ inRectZones (worldEnv .flat) ⟨⟨-90, 10⟩, ⟨11, 120⟩⟩, distance = inRectDistance (worldEnv .flat) zone p))
      ((inRectZones (worldEnv .flat) ⟨⟨-90, 10⟩, ⟨11, 120⟩⟩).flatMap shown) found := by
  have hbody : (⟨false, 1, .searchInRect (bytes "l\x00") ⟨⟨-90, 10⟩, ⟨11, 120⟩⟩ ⟨0, 2, 0, false, false, false⟩⟩ :
      Op ℚ).body = .searchInRect (bytes "l\x00") ⟨⟨-90, 10⟩, ⟨11, 120⟩⟩ ⟨0, 2, 0, false, false, false⟩ := rfl
  have hname : CKey (bytes "l\x00") := by decide
  have hrun : (((slabStoreSystem (worldEnv .flat)).restrict (fun store input => store.KeepsLayers input)).exec slabInputs
      emptySlabStore).any (fun store => (store.maps (bytes "l\x00")).isSome &&
        decide (shownChildren (SlabStore.workerDoWork (worldEnv .flat) ⟨false, 1, .searchInRect (bytes "l\x00")
          ⟨⟨-90, 10⟩, ⟨11, 120⟩⟩ ⟨0, 2, 0, false, false, false⟩⟩ store) = some [none, none])) = true := by
    decide +kernel
  obtain ⟨h, store, hr, -, hp⟩ := slab_run_of hrun
  obtain ⟨hsome, hshown⟩ := Bool.and_eq_true_iff.1 hp
  obtain ⟨keyNodes, hlayer⟩ := Option.isSome_iff_exists.1 hsome
  rcases (search_in_rect_shows hr worldLayers_worldEnv hbody hname (by decide) le_rfl).2 keyNodes hlayer with
    ⟨hreply, -⟩ | ⟨shown, found, hreply, hall, -⟩
  · obtain ⟨found, hfound, -⟩ := reply_of_shown rfl hreply (of_decide_eq_true hshown)
    cases hfound
  · obtain ⟨found', hfound, hlength⟩ := reply_of_shown rfl hreply (of_decide_eq_true hshown)
    cases hfound
    exact ⟨h, store, keyNodes, shown, found, hr, hlayer, hlength, hreply, hall⟩

/-- **A search with clusters in a state of a run** that has lost no layer, in a rectangle of a flat layer, shows every current
record of the rectangle, by itself or in one cluster, unless it is stopped: the cells of the clusters share no position, a
record is shown by itself exactly when it is in none of them, and the children of a cluster are the records in its cell,
counted in 32 bits. -/
theorem search_in_rect_clusters (hr : ((slabStoreSystem env).restrict SlabStore.Takes).Run h store)
    (hworld : WorldLayers env.toPanDbEnv) (hflat : env.layerType = .flat) {rect : Rectangle2D D}
    {options : SearchOptions D} (hbody : op.body = .searchInRect layerName rect options) (hname : CKey layerName)
    (hlimit : 1 ≤ options.limit) {keyNodes : KeyNodes D} (hlayer : store.maps layerName = some keyNodes) :
    SlabStore.workerDoWork env op store = some (store, SlabStore.replyTo op .overflow) ∨
    ∃ (keys : List Key) (records : List (MatchJson D)) (cells : List (Rectangle2D D)) (found : List (MatchJson D)),
      SlabStore.workerDoWork env op store = some (store, SlabStore.replyTo op (.found found)) ∧
      found.Perm (records ++ cells.map (fun c =>
        clusterJson (clusterOf c ((keysAt keyNodes (fun p => positionIsInRect p c)).ncard % 2 ^ 32)))) ∧
      List.Forall₂ (ShowsAt keyNodes options (fun p distance => distance = inRectDistance env rect p)) keys records ∧
      cells.Pairwise (fun c c' => ∀ p, positionIsInRect p c → ¬ positionIsInRect p c') ∧
      ZoneShown (keysAt keyNodes (fun p => positionIsInRect p rect ∧ ∀ c ∈ cells, ¬ positionIsInRect p c))
        (keysAt keyNodes (fun p => positionIsInRect p rect ∧ ∀ c ∈ cells, ¬ positionIsInRect p c)) keys := by
  obtain ⟨entries, hsound⟩ := sound_of_run hr
  have hread : op.body.mutates = false := by rw [hbody]; rfl
  rw [hsound.maps_eq] at hlayer
  rcases hsound.maps.search_in_rect_flat hsound.reached hworld hflat hbody hname hlimit hlayer with
    hreply | ⟨keys, records, cells, found, hreply, hfound⟩
  · exact .inl (hsound.read hread hreply)
  · exact .inr ⟨keys, records, cells, found, hsound.read hread hreply, hfound⟩

end

theorem latitudes_le : (-90 : ℚ) ≤ 90 := by norm_num

theorem longitudes_le : (-180 : ℚ) ≤ 180 := by norm_num

theorem entries_perm (entries : List (Nat × Slot ℚ Nat)) : entries.Perm entries := .refl entries

/-- Buckets of one slot, so that two records make a cell of their own. -/
def denseEnv : SearchEnv ℚ Nat :=
  { worldEnv .flat with
    bucketSize := 1
    latitude_le := latitudes_le
    longitude_le := longitudes_le
    bucketSize_pos := Nat.one_pos
    order_perm := entries_perm }

theorem worldLayers_denseEnv : WorldLayers denseEnv.toPanDbEnv := by
  refine ⟨fun _ _ => rfl, rfl, ?_⟩
  norm_num [denseEnv, worldEnv]

/-- Two records are shown as a cluster, and a third one by itself. -/
theorem search_in_rect_clusters_two : ∃ (h : List (SlabStore ℚ × StoreInput ℚ)) (store : SlabStore ℚ)
    (keyNodes : KeyNodes ℚ) (keys : List Key) (records : List (MatchJson ℚ)) (cells : List (Rectangle2D ℚ))
    (found : List (MatchJson ℚ)), ((slabStoreSystem denseEnv).restrict SlabStore.Takes).Run h store ∧
    store.maps (bytes "l\x00") = some keyNodes ∧
    SlabStore.workerDoWork denseEnv
        ⟨false, 1, .searchInRect (bytes "l\x00") worldBounds ⟨0, 7, 200, false, false, false⟩⟩ store =
      some (store, [⟨1, .found found⟩]) ∧ found.length = 2 ∧
    found.Perm (records ++ cells.map (fun c =>
      clusterJson (clusterOf c ((keysAt keyNodes (fun p => positionIsInRect p c)).ncard % 2 ^ 32)))) ∧
    List.Forall₂ (ShowsAt keyNodes ⟨0, 7, 200, false, false, false⟩
      (fun p distance => distance = inRectDistance denseEnv worldBounds p)) keys records := by
  have hbody : (⟨false, 1, .searchInRect (bytes "l\x00") worldBounds ⟨0, 7, 200, false, false, false⟩⟩ : Op ℚ).body =
    .searchInRect (bytes "l\x00") worldBounds ⟨0, 7, 200, false, false, false⟩ := rfl
  have hname : CKey (bytes "l\x00") := by decide
  have hrun : (((slabStoreSystem denseEnv).restrict (fun store input => store.KeepsLayers input)).exec slabInputs
      emptySlabStore).any (fun store => (store.maps (bytes "l\x00")).isSome &&
        decide (shownChildren (SlabStore.workerDoWork denseEnv ⟨false, 1, .searchInRect (bytes "l\x00") worldBounds
          ⟨0, 7, 200, false, false, false⟩⟩ store) = some [none, some 2])) = true := by
    decide +kernel
  obtain ⟨h, store, hr, -, hp⟩ := slab_run_of hrun
  obtain ⟨hsome, hshown⟩ := Bool.and_eq_true_iff.1 hp
  obtain ⟨keyNodes, hlayer⟩ := Option.isSome_iff_exists.1 hsome
  rcases search_in_rect_clusters hr worldLayers_denseEnv rfl hbody hname (by decide) hlayer with
    hreply | ⟨keys, records, cells, found, hreply, hperm, hall, -⟩
  · obtain ⟨found, hfound, -⟩ := reply_of_shown rfl hreply (of_decide_eq_true hshown)
    cases hfound
  · obtain ⟨found', hfound, hlength⟩ := reply_of_shown rfl hreply (of_decide_eq_true hshown)
    cases hfound
    exact ⟨h, store, keyNodes, keys, records, cells, found, hr, hlayer, hreply, hlength, hperm, hall⟩

end Pincaster
