import Pincaster.DumpReplay
import Pincaster.Lib.Covering
import Pincaster.QueuedOps
/-!
# DumpRestored — what a store becomes when it is dumped and replayed

The keys of the records are decoded once more, and no key comes back longer than it was.  So the same keys come back only
when each comes back as it was (`Lib.eq_of_covers`), and then each record is the one of its own PUT (`dump_restored_iff`).
-/
namespace Pincaster

open Lib (Bytes bytes cstr System)

variable {D : Type}

/-! ## What is shown of a store -/

/-- The layers, their keys, and what a GET shows of each record without its properties. -/
def Layers.shown (layers : Layers D) (layerName : Key) :
    Option (Key → Option (Bytes × Option (Position2D D) × Option Int)) :=
  (layers layerName).map (fun keyNodes key => (keyNodes key).map KeyNode.shown)

theorem Layers.shown_eq {layers layers' : Layers D} : layers'.shown = layers.shown ↔
    (∀ name, layers' name ≠ none ↔ layers name ≠ none) ∧
    ∀ name key, (recordOf layers' name key).map KeyNode.shown = (recordOf layers name key).map KeyNode.shown := by
  have hname : ∀ name, layers'.shown name = layers.shown name ↔ (layers' name ≠ none ↔ layers name ≠ none) ∧
      ∀ key, (recordOf layers' name key).map KeyNode.shown = (recordOf layers name key).map KeyNode.shown := by
    intro name
    unfold Layers.shown recordOf
    cases layers' name <;> cases layers name <;> simp [funext_iff]
  rw [funext_iff]
  simp only [hname, forall_and]

section
variable [Dimension D]

/-- **The records of a store are kept**: they are as PUTs leave them. -/
def StoreKept (qbounds : Rectangle2D D) (layers : Layers D) : Prop :=
  ∀ name key, ∀ keyNode ∈ recordOf layers name key, keyNode.Kept qbounds

variable {qbounds : Rectangle2D D}

theorem KeyNode.Kept.put {keyNode node : KeyNode D} (h : keyNode.Kept qbounds) {putOp : RecordsPutOp D}
    (htime : Lib.IsIntmax putOp.expiresAt) (hput : putKeyNode qbounds putOp keyNode = some node) : node.Kept qbounds := by
  obtain ⟨properties, -, rfl⟩ := Option.map_eq_some_iff.1 hput
  refine ⟨fun position hposition => ?_, fun ts hts => ?_⟩
  · dsimp only at hposition
    unfold putSlot at hposition
    split at hposition
    · rename_i hset
      have hbounds := (Bool.and_eq_true_iff.1 hset).2
      split at hposition
      · rename_i previous hprevious
        split at hposition
        · exact h.slot position (hprevious ▸ hposition)
        · exact Option.some.inj hposition ▸ hbounds
      · exact Option.some.inj hposition ▸ hbounds
    · exact h.slot position hposition
  · dsimp only at hts
    unfold putExpirable at hts
    split at hts
    · rename_i hne
      obtain rfl := Option.some.inj hts
      exact ⟨hne, htime⟩
    · cases hts

/-- **A record after an operation** is one of those before, or what a PUT leaves of one. -/
theorem workerDoWork_record {body : OpBody D} {layers layers' : Layers D}
    (h : workerDoWork qbounds body layers = some layers') {name key : Key} {node : KeyNode D}
    (hnode : recordOf layers' name key = some node) : recordOf layers name key = some node ∨
      ∃ putOp, body = .recordsPut putOp ∧
        putKeyNode qbounds putOp ((recordOf layers name key).getD newKeyNode) = some node := by
  cases body with
  | layersCreate layerName =>
    obtain rfl := Option.some.inj h
    unfold handleOpLayersCreate registerLayer at hnode
    split at hnode
    · exact .inl hnode
    · split at hnode
      · exact .inl hnode
      · rw [recordOf_update] at hnode
        split at hnode
        · cases hnode
        · exact .inl hnode
  | layersDelete layerName =>
    obtain rfl := Option.some.inj h
    unfold handleOpLayersDelete at hnode
    split at hnode
    · exact .inl hnode
    · rw [recordOf_update] at hnode
      split at hnode
      · cases hnode
      · exact .inl hnode
  | recordsPut putOp =>
    obtain ⟨r, hput, rfl⟩ := Option.map_eq_some_iff.1 h
    unfold handleOpRecordsPut at hput
    split at hput
    · cases hput
      exact .inl hnode
    · rename_i keyNodes hlayer
      obtain ⟨new, hnew, hput⟩ := Option.bind_eq_some_iff.1 hput
      cases hput
      rw [recordOf_update] at hnode
      split at hnode
      · rename_i hname
        have hold : ∀ key, recordOf layers name key = keyNodes key := fun key => by rw [recordOf, hname, hlayer]; rfl
        rw [Option.bind_some, Function.update_apply] at hnode
        rw [hold]
        split at hnode
        · rename_i hkey
          exact .inr ⟨putOp, rfl, hkey ▸ hnew.trans hnode⟩
        · exact .inl hnode
      · exact .inl hnode
  | recordsDelete layerName key' =>
    obtain rfl := Option.some.inj h
    unfold handleOpRecordsDelete at hnode
    split at hnode
    · exact .inl hnode
    · rename_i keyNodes hlayer
      split at hnode
      · exact .inl hnode
      · rw [recordOf_update] at hnode
        split at hnode
        · rename_i hname
          rw [Option.bind_some, Function.update_apply] at hnode
          split at hnode
          · cases hnode
          · exact .inl (by rw [recordOf, hname, hlayer]; exact hnode)
        · exact .inl hnode
  | systemPing | layersIndex | recordsGet | searchNearby | searchInRect | searchInKeys =>
    obtain rfl := Option.some.inj h
    exact .inl hnode

/-- A record with nothing in it. -/
theorem kept_newKeyNode : (newKeyNode : KeyNode D).Kept qbounds where
  slot _ h := by cases h
  expirable _ h := by cases h

theorem storeKept_empty : StoreKept qbounds (fun _ => none : Layers D) := by
  intro name key keyNode h
  cases h

theorem storeKept_serving (qbounds : Rectangle2D D) : ServingKeeps qbounds (NamesOk (D := D)) (StoreKept qbounds) where
  request hq h := (processApiRequest_asked hq h).imp id (fun ⟨op, hop, hpush⟩ => ⟨op, hop.names, hpush⟩)
  work {body layers layers'} hasked hkept h name key node hnode := by
    rcases workerDoWork_record h hnode with hold | ⟨putOp, rfl, hput⟩
    · exact hkept name key node hold
    · refine KeyNode.Kept.put ?_ hasked.2 hput
      cases hold : recordOf layers name key with
      | none => exact kept_newKeyNode
      | some old => exact hkept name key old hold
  purge now {layers} hkept name key node hnode := by
    refine hkept name key node ?_
    unfold recordOf purgeExpiredKeys at hnode
    unfold recordOf
    cases hlayer : layers name with
    | none =>
      rw [hlayer] at hnode
      cases hnode
    | some keyNodes =>
      rw [hlayer] at hnode
      exact (Option.filter_eq_some_iff.1 hnode).1

/-! ## A dump of a whole store -/

omit [Dimension D] in
/-- **The layers that the slab goes through are those of a store**, each once, with all its records, each once.  A layer that the
slab has lost is none of the store: no request finds it. -/
structure DumpsStore (layers : Layers D) (order : List (DumpedLayer D)) : Prop where
  dumped : ∀ layer ∈ order, DumpedFrom layers layer
  names : (order.map DumpedLayer.name).Nodup
  keys : ∀ layer ∈ order, (layer.records.map DumpedRecord.key).Nodup
  all : ∀ layerName, layers layerName ≠ none → ∃ layer ∈ order, layer.name = cstr layerName

/-- What a layer of the slab has of a store in order. -/
structure DumpedWhole (layers : Layers D) (layer : DumpedLayer D) : Prop where
  name : LayerName layer.name
  there : layers (layer.name ++ [0]) ≠ none
  record : ∀ record ∈ layer.records, ∃ keyNode, recordOf layers (layer.name ++ [0]) (record.key ++ [0]) = some keyNode ∧
    record = dumpedRecord (record.key ++ [0]) keyNode
  key : ∀ key, ∀ keyNode ∈ recordOf layers (layer.name ++ [0]) key, dumpedRecord key keyNode ∈ layer.records ∧
    key = cstr key ++ [0]

omit [Dimension D] in
theorem DumpedFrom.whole {layers : Layers D} {layer : DumpedLayer D} (h : DumpedFrom layers layer)
    (hok : StoreOk layers) : DumpedWhole layers layer := by
  obtain ⟨layerName, keyNodes, hl, hname, hrecords⟩ := h
  obtain ⟨name, rfl, hlayer⟩ := hok.layer hl
  rw [cstr_snoc hlayer.nul] at hname
  have hkey : ∀ {key keyNode}, keyNodes key = some keyNode → key = cstr key ++ [0] := fun hk => by
    obtain ⟨⟨layerName, recordKey, hlayerName, rfl, hnames⟩, -⟩ := hok.record hl hk
    rw [cstr_snoc hnames.key_nul]
  have hrecordOf : ∀ key, recordOf layers (layer.name ++ [0]) key = keyNodes key := fun key => by
    rw [recordOf, hname, hl, Option.bind_some]
  refine ⟨hname ▸ hlayer, ?_, fun record hmem => ?_, fun key keyNode hk => ?_⟩
  · rw [hname, hl]
    exact Option.some_ne_none keyNodes
  · obtain ⟨key, keyNode, hk, rfl⟩ := (hrecords record).1 hmem
    have hsame : (dumpedRecord key keyNode).key ++ [0] = key := (hkey hk).symm
    exact ⟨keyNode, by rw [hrecordOf, hsame, hk], by rw [hsame]⟩
  · rw [hrecordOf] at hk
    exact ⟨(hrecords _).2 ⟨key, keyNode, hk, rfl⟩, hkey hk⟩

section
variable {context : DumpContext D} {layers layers' : Layers D} {order : List (DumpedLayer D)} {parts : List (DumpPart D)}

omit [Dimension D] in
/-- A key of a dump is one of a record. -/
theorem mem_dumpKeys {p : Bytes × Bytes} : p ∈ (dumpParts order).filterMap DumpPart.key ↔
    ∃ layer ∈ order, ∃ record ∈ layer.records, p = (layer.name, record.key) := by
  rw [(dumpParts_names order).2]
  simp only [List.mem_flatMap, List.mem_map, eq_comm]

omit [Dimension D] in
/-- The keys of a dump are all different. -/
theorem DumpsStore.nodup (h : DumpsStore layers order) : ((dumpParts order).filterMap DumpPart.key).Nodup := by
  rw [(dumpParts_names order).2, List.nodup_flatMap]
  refine ⟨fun layer hlayer => ?_, (List.pairwise_map.1 h.names).imp (fun hne p hp hp' => ?_)⟩
  · have hkeys := (h.keys layer hlayer).map (Prod.mk_right_injective layer.name)
    rw [List.map_map] at hkeys
    exact hkeys
  · obtain ⟨record, -, rfl⟩ := List.mem_map.1 hp
    obtain ⟨record', -, heq⟩ := List.mem_map.1 hp'
    exact hne (congrArg Prod.fst heq).symm

omit [Dimension D] in
theorem DumpsStore.whole (h : DumpsStore layers order) (hok : StoreOk layers) {layer : DumpedLayer D}
    (hlayer : layer ∈ order) : DumpedWhole layers layer := (h.dumped layer hlayer).whole hok

omit [Dimension D] in
/-- A layer of a store is dumped. -/
theorem DumpsStore.layer (h : DumpsStore layers order) (hok : StoreOk layers) {layerName : Key}
    (hl : layers layerName ≠ none) : ∃ layer ∈ order, layerName = layer.name ++ [0] := by
  obtain ⟨keyNodes, hkeyNodes⟩ := Option.ne_none_iff_exists'.1 hl
  obtain ⟨name, rfl, hname⟩ := hok.layer hkeyNodes
  obtain ⟨layer, hlayer, heq⟩ := h.all _ hl
  exact ⟨layer, hlayer, by rw [heq, cstr_snoc hname.nul]⟩

omit [Dimension D] in
/-- A record of a store is dumped. -/
theorem DumpsStore.record (h : DumpsStore layers order) (hok : StoreOk layers) {name key : Key} {keyNode : KeyNode D}
    (hk : keyNode ∈ recordOf layers name key) :
    ∃ layer ∈ order, name = layer.name ++ [0] ∧ dumpedRecord key keyNode ∈ layer.records ∧ key = cstr key ++ [0] := by
  have hl : layers name ≠ none := fun hnone => by
    rw [recordOf, hnone] at hk
    cases hk
  obtain ⟨layer, hlayer, rfl⟩ := h.layer hok hl
  exact ⟨layer, hlayer, rfl, (h.whole hok hlayer).key key keyNode hk⟩

omit [Dimension D] in
/-- The layers that are created have names. -/
theorem DumpsStore.created (h : DumpsStore layers order) (hok : StoreOk layers) (hparts : parts <+: dumpParts order) :
    ∀ layer, .create layer ∈ parts → LayerName layer.name := by
  intro layer hmem
  obtain ⟨layer', hlayer, heq | ⟨record, -, heq⟩⟩ := mem_dumpParts.1 (hparts.subset hmem)
  · cases heq
    exact (h.whole hok hlayer).name
  · cases heq

/-- **A dump that makes all layers and all keys again** was replayed as a whole, and every key came back as it was. -/
theorem restored_covers (hok : StoreOk layers) (hdumps : DumpsStore layers order) (hparts : parts <+: dumpParts order)
    (hrestored : parts.foldlM (restorePart qbounds context) (fun _ => none) = some layers')
    (hshown : layers'.shown = layers.shown) : parts = dumpParts order ∧
      ∀ p ∈ (dumpParts order).filterMap DumpPart.key, rereadName p = some p := by
  obtain ⟨hlayers, hrecords⟩ := Layers.shown_eq.1 hshown
  have hcreate := hdumps.created hok hparts
  have hfilter : parts.filterMap DumpPart.restored = (parts.filterMap DumpPart.key).filterMap rereadName :=
    (List.filterMap_filterMap).symm
  -- every layer is created, and every key is put
  have hnames : ∀ name ∈ order.map DumpedLayer.name, name ∈ parts.filterMap DumpPart.name := by
    intro name hname
    obtain ⟨layer, hlayer, rfl⟩ := List.mem_map.1 hname
    have hthere := (restoreParts_layers hcreate hrestored _).1 ((hlayers _).2 (hdumps.whole hok hlayer).there)
    obtain ⟨layer', hmem, heq⟩ := hthere.resolve_left (fun h => h rfl)
    exact List.mem_filterMap.2 ⟨_, hmem, congrArg some (List.append_cancel_right heq).symm⟩
  have hkeys : ∀ p ∈ (dumpParts order).filterMap DumpPart.key, p ∈ (parts.filterMap DumpPart.key).filterMap rereadName := by
    intro p hp
    obtain ⟨layer, hlayer, record, hrecord, rfl⟩ := mem_dumpKeys.1 hp
    obtain ⟨keyNode, hkeyNode, -⟩ := (hdumps.whole hok hlayer).record record hrecord
    have hsame := hrecords (layer.name ++ [0]) (record.key ++ [0])
    rw [hkeyNode] at hsame
    obtain ⟨node, hnode, -⟩ := Option.map_eq_some_iff.1 hsame
    have hne : recordOf layers' (layer.name ++ [0]) (record.key ++ [0]) ≠ none := by
      rw [hnode]
      exact Option.some_ne_none node
    obtain ⟨p, hp, hname, hkey⟩ := restoreParts_records hcreate hrestored hne
    rw [List.append_cancel_right hname, List.append_cancel_right hkey, ← hfilter]
    exact hp
  -- so that nothing of the dump is left out
  have hnamesLe := (hdumps.names.subperm hnames).length_le
  have hkeysLe := (hdumps.nodup.subperm hkeys).length_le.trans (List.length_filterMap_le _ _)
  rw [List.length_map] at hnamesLe
  have hall : parts = dumpParts order := by
    refine hparts.eq_of_length (le_antisymm hparts.length_le ?_)
    rw [length_parts, length_parts parts, (dumpParts_names order).1, List.length_map]
    omega
  subst hall
  refine ⟨rfl, Lib.eq_of_covers (fun p => p.2.length) hdumps.nodup (fun p hp q hq => ?_) hkeys⟩
  obtain ⟨layer, hlayer, record, hrecord, rfl⟩ := mem_dumpKeys.1 hp
  obtain ⟨stem, hstem, rfl⟩ := Option.map_eq_some_iff.1 hq
  have hdumpable := (hdumps.dumped layer hlayer).dumpable hok
  obtain ⟨hle, hsame⟩ := rereadKey_length (hdumpable.names record hrecord).key_mark hstem
  exact ⟨hle, fun hlength => by rw [hsame hlength]⟩

/-- **What is made of a whole dump whose keys come back**: it shows what the store showed exactly when every record keeps its
fields and its map. -/
theorem restored_shown (hprint : ∀ d, PrintedNumber D (context.printDouble d)) (hok : StoreOk layers)
    (hkept : StoreKept qbounds layers) (hdumps : DumpsStore layers order)
    (hkeys : ∀ p ∈ (dumpParts order).filterMap DumpPart.key, rereadName p = some p)
    (hrestored : (dumpParts order).foldlM (restorePart qbounds context) (fun _ => none) = some layers') :
    layers'.shown = layers.shown ↔
      ∀ name key, ∀ keyNode ∈ recordOf layers name key, FieldsBack qbounds context keyNode := by
  have hcreate := hdumps.created hok List.prefix_rfl
  have hfilter : (dumpParts order).filterMap DumpPart.restored = (dumpParts order).filterMap DumpPart.key := by
    have hsame := List.filterMap_congr hkeys
    rw [List.filterMap_some, List.filterMap_filterMap] at hsame
    exact hsame
  -- the layers
  have hlayers : ∀ name, layers' name ≠ none ↔ layers name ≠ none := by
    intro name
    rw [restoreParts_layers hcreate hrestored name]
    constructor
    · rintro (h | ⟨layer, hmem, rfl⟩)
      · exact absurd rfl h
      · obtain ⟨layer', hlayer, heq | ⟨record, -, heq⟩⟩ := mem_dumpParts.1 hmem
        · cases heq
          exact (hdumps.whole hok hlayer).there
        · cases heq
    · intro h
      obtain ⟨layer, hlayer, rfl⟩ := hdumps.layer hok h
      exact .inr ⟨layer, mem_dumpParts.2 ⟨layer, hlayer, .inl rfl⟩, rfl⟩
  -- a key that the store has not
  have hnone : ∀ name key, recordOf layers name key = none → recordOf layers' name key = none := by
    intro name key h
    by_contra hne
    obtain ⟨p, hp, rfl, rfl⟩ := restoreParts_records hcreate hrestored hne
    obtain ⟨layer, hlayer, record, hrecord, rfl⟩ := mem_dumpKeys.1 (hfilter ▸ hp)
    obtain ⟨keyNode, hkeyNode, -⟩ := (hdumps.whole hok hlayer).record record hrecord
    rw [hkeyNode] at h
    cases h
  -- a key that it has
  have hsome : ∀ name key, ∀ keyNode ∈ recordOf layers name key, ∃ node, recordOf layers' name key = some node ∧
      (node.shown = keyNode.shown ↔ FieldsBack qbounds context keyNode) := by
    intro name key keyNode hk
    obtain ⟨layer, hlayer, rfl, hrecord, hkey⟩ := hdumps.record hok hk
    obtain ⟨before, after, hsplit, hbefore⟩ := dumpParts_split hlayer hrecord
    obtain ⟨putOp, stem, hop, hstem, hput⟩ := restoreParts_put hsplit hbefore hcreate (hfilter ▸ hdumps.nodup)
      (fun _ _ => rfl) hrestored
    have hsame := hkeys _ (mem_dumpKeys.2 ⟨layer, hlayer, _, hrecord, rfl⟩)
    rw [rereadName, hstem, Option.map_some, Option.some.injEq, Prod.mk.injEq] at hsame
    obtain rfl : stem = cstr key := hsame.2
    obtain ⟨stem', -, hread⟩ := restoredOp_eq_some.1 hop
    have hnames := ((hdumps.dumped layer hlayer).dumpable hok).names _ hrecord
    have hputOp := (restoredOp_ok hprint hnames hop).1
    obtain ⟨node, hnode, hiff⟩ := putKeyNode_back hprint (hkept _ _ keyNode hk) rfl hputOp hread
    rw [← hkey, hnode] at hput
    exact ⟨node, hput, hiff⟩
  rw [Layers.shown_eq, and_iff_right hlayers]
  refine forall_congr' (fun name => forall_congr' (fun key => ?_))
  cases hk : recordOf layers name key with
  | none => simp [hnone name key hk]
  | some keyNode =>
    obtain ⟨node, hnode, hiff⟩ := hsome name key keyNode hk
    rw [hnode, Option.map_some, Option.map_some, Option.some.injEq, hiff]
    simp

/-! ## Replaying the dump -/

/-- The record of a part, if it has one, can be read again. -/
def DumpPart.Readable : DumpPart D → Prop
  | .create _ => True
  | .put _ record => RecordReadable D record

variable {encodedPublicBaseUri : Bytes} {part : DumpPart D}

theorem DumpsStore.accepted (hdumps : DumpsStore layers order) (hok : StoreOk layers)
    (hprint : ∀ d, PrintedNumber D (context.printDouble d)) (hpart : part ∈ dumpParts order) (h : part.Readable) :
    ∃ body, part.body context = some body ∧ BodyOk body ∧
      AcceptedAs D context.encodedApiBaseUri encodedPublicBaseUri (part.request context) body := by
  obtain ⟨layer, hlayer, rfl | ⟨record, hrecord, rfl⟩⟩ := mem_dumpParts.1 hpart
  · have hname := (hdumps.whole hok hlayer).name
    exact ⟨_, rfl, ⟨layer.name, rfl, hname⟩, layerRequest_as context hname⟩
  · have hdumpable := (hdumps.dumped layer hlayer).dumpable hok
    have hnames := hdumpable.names record hrecord
    obtain ⟨putOp, hop⟩ := RecordReadable.restored hprint h (hdumpable.pairLength_le hrecord) layer
    exact ⟨_, congrArg (Option.map OpBody.recordsPut) hop, restoredOp_ok hprint hnames hop,
      recordRequest_as hprint hnames hop⟩

theorem DumpsStore.refused (hdumps : DumpsStore layers order) (hok : StoreOk layers)
    (hprint : ∀ d, PrintedNumber D (context.printDouble d)) (hpart : part ∈ dumpParts order) (h : ¬ part.Readable) :
    RefusedForEver D context.encodedApiBaseUri encodedPublicBaseUri (part.request context) := by
  obtain ⟨layer, hlayer, rfl | ⟨record, hrecord, rfl⟩⟩ := mem_dumpParts.1 hpart
  · exact absurd trivial h
  · have hdumpable := (hdumps.dumped layer hlayer).dumpable hok
    exact recordRequest_refused hprint (hdumpable.names record hrecord) (hdumpable.pairLength_le hrecord) h

/-- **A replay that comes back** has read every record, and the store is that of the parts. -/
theorem DumpsStore.replayed (hdumps : DumpsStore layers order) (hok : StoreOk layers)
    (hprint : ∀ d, PrintedNumber D (context.printDouble d)) (hparts : parts <+: dumpParts order) {main : HttpHandlerContext D}
    (hidle : Idle context.encodedApiBaseUri main (fun _ => none)) {tries : Nat} {r : HttpHandlerContext D × Layers D}
    (h : replayRequests encodedPublicBaseUri qbounds tries (parts.map (DumpPart.request context)) main (fun _ => none) =
      some (.done r)) :
    (∀ part ∈ parts, part.Readable) ∧ parts.foldlM (restorePart qbounds context) (fun _ => none) = some r.2 := by
  have haccepted : ∀ part ∈ parts, part.Readable → ∃ body, part.body context = some body ∧ BodyOk body ∧
      AcceptedAs D context.encodedApiBaseUri encodedPublicBaseUri (part.request context) body :=
    fun part hpart hread => hdumps.accepted hok hprint (hparts.subset hpart) hread
  have hrefused : ∀ part ∈ parts, ¬ part.Readable →
      RefusedForEver D context.encodedApiBaseUri encodedPublicBaseUri (part.request context) :=
    fun part hpart hread => hdumps.refused hok hprint (hparts.subset hpart) hread
  have hreadable : ∀ part ∈ parts, part.Readable := by
    have hcases : ∀ request ∈ parts.map (DumpPart.request context),
        AcceptedAtOnce D context.encodedApiBaseUri encodedPublicBaseUri request ∨
          RefusedForEver D context.encodedApiBaseUri encodedPublicBaseUri request := by
      intro request hrequest
      obtain ⟨part, hpart, rfl⟩ := List.mem_map.1 hrequest
      by_cases hread : part.Readable
      · obtain ⟨body, -, hbody, haccept⟩ := haccepted part hpart hread
        exact .inl ⟨body, hbody, haccept⟩
      · exact .inr (hrefused part hpart hread)
    intro part hpart
    by_contra hread
    have hwaits := (replayRequests_spec qbounds hcases hidle).2
      ⟨_, List.mem_map_of_mem hpart, hrefused part hpart hread⟩ tries
    rw [h] at hwaits
    cases hwaits
  refine ⟨hreadable, ?_⟩
  rcases Nat.eq_zero_or_pos tries with rfl | htries
  · cases parts with
    | nil =>
      cases h
      rfl
    | cons part parts => cases h
  · obtain ⟨main', layers', hrestored, hreplay⟩ := replayRequests_parts htries
      (fun part hpart => haccepted part hpart (hreadable part hpart)) hidle
    rw [h] at hreplay
    cases hreplay
    exact hrestored

/-- **A record that comes back**: under its key, not refused, and with its fields and its map. -/
structure RecordBack (qbounds : Rectangle2D D) (context : DumpContext D) (recordKey : Key) (keyNode : KeyNode D) : Prop
    extends FieldsBack qbounds context keyNode where
  key : rereadKey (cstr recordKey) = some (cstr recordKey)
  readable : ∀ p ∈ visited keyNode.properties, PairReadable D p

def RecordsBack (qbounds : Rectangle2D D) (context : DumpContext D) (store : Layers D) : Prop :=
  ∀ name key, ∀ keyNode ∈ recordOf store name key, RecordBack qbounds context key keyNode

theorem RecordsBack.rereadName (h : RecordsBack qbounds context layers) (hok : StoreOk layers)
    (hdumps : DumpsStore layers order) : ∀ p ∈ (dumpParts order).filterMap DumpPart.key, rereadName p = some p := by
  intro p hp
  obtain ⟨layer, hlayer, record, hrecord, rfl⟩ := mem_dumpKeys.1 hp
  obtain ⟨keyNode, hkeyNode, hsame⟩ := (hdumps.whole hok hlayer).record record hrecord
  have hkey := (h _ _ keyNode hkeyNode).key
  have hname : cstr (record.key ++ [0]) = record.key := (congrArg DumpedRecord.key hsame).symm
  rw [hname] at hkey
  rw [Pincaster.rereadName, hkey, Option.map_some]

theorem RecordsBack.partReadable (h : RecordsBack qbounds context layers) (hok : StoreOk layers)
    (hdumps : DumpsStore layers order) (hpart : part ∈ dumpParts order) : part.Readable := by
  obtain ⟨layer, hlayer, rfl | ⟨record, hrecord, rfl⟩⟩ := mem_dumpParts.1 hpart
  · trivial
  · obtain ⟨keyNode, hkeyNode, hsame⟩ := (hdumps.whole hok hlayer).record record hrecord
    have hback := h _ _ keyNode hkeyNode
    generalize record.key ++ [0] = key at hback hsame
    subst hsame
    exact ⟨by rw [dumpedRecord, hback.key]; rfl, hback.readable⟩

/-- **A store comes back**: after some number of tries the replay is through, and its store shows the same. -/
def ComesBack (encodedPublicBaseUri : Bytes) (qbounds : Rectangle2D D) (requests : List LoggedRequest)
    (main : HttpHandlerContext D) (store : Layers D) : Prop :=
  ∃ tries main' layers', replayRequests encodedPublicBaseUri qbounds tries requests main (fun _ => none) =
    some (.done (main', layers')) ∧ layers'.shown = store.shown

/-- **The requests of a dump, up to one of them, bring the store back** exactly when they are all of it and the records come
back. -/
theorem comesBack_parts (hok : StoreOk layers) (hkept : StoreKept qbounds layers) (hdumps : DumpsStore layers order)
    (hprint : ∀ d, PrintedNumber D (context.printDouble d)) (hparts : parts <+: dumpParts order) {main : HttpHandlerContext D}
    (hidle : Idle context.encodedApiBaseUri main (fun _ => none)) :
    ComesBack encodedPublicBaseUri qbounds (parts.map (DumpPart.request context)) main layers ↔
      parts = dumpParts order ∧ RecordsBack qbounds context layers := by
  constructor
  · rintro ⟨tries, main', layers', hreplay, hshown⟩
    obtain ⟨hreadable, hrestored⟩ := hdumps.replayed hok hprint hparts hidle hreplay
    obtain ⟨rfl, hkeys⟩ := restored_covers hok hdumps hparts hrestored hshown
    refine ⟨rfl, fun name key keyNode hk => ⟨?_, ?_, ?_⟩⟩
    · exact (restored_shown hprint hok hkept hdumps hkeys hrestored).1 hshown name key keyNode hk
    · obtain ⟨layer, hlayer, -, hrecord, -⟩ := hdumps.record hok hk
      have hsame := hkeys _ (mem_dumpKeys.2 ⟨layer, hlayer, _, hrecord, rfl⟩)
      obtain ⟨stem, hstem, heq⟩ := Option.map_eq_some_iff.1 hsame
      rw [Prod.mk.injEq] at heq
      exact hstem.trans (congrArg some heq.2)
    · obtain ⟨layer, hlayer, -, hrecord, -⟩ := hdumps.record hok hk
      exact (hreadable _ (mem_dumpParts.2 ⟨layer, hlayer, .inr ⟨_, hrecord, rfl⟩⟩)).2
  · rintro ⟨rfl, hback⟩
    obtain ⟨main', layers', hrestored, hreplay⟩ := replayRequests_parts Nat.one_pos
      (fun part hpart => hdumps.accepted hok hprint hpart (hback.partReadable hok hdumps hpart)) hidle
    exact ⟨1, main', layers', hreplay, (restored_shown hprint hok hkept hdumps (hback.rereadName hok hdumps) hrestored).2
      (fun name key keyNode hk => (hback name key keyNode hk).toFieldsBack)⟩

end

end

/-! ## The journal of a rewrite, replayed into an empty store -/

section
variable [Dimension D]

/-- **The journal of a rewrite, read**: the requests that are read as a whole are some parts of the dump from its start on. -/
theorem dump_replayed {context : DumpContext D} (hcontext : DumpContextOk context) {layersSlab : Slab (DumpedLayer D)}
    {live order : List (EntryPtr × DumpedLayer D)} (hvisits : Visits layersSlab live order)
    (hdumpable : ∀ layer ∈ order.map Prod.snd, Dumpable layer) {outcomes : List Outcome} {tmpFile : Option Bytes}
    {child : ChildExit} (hchild : rewriteChild context layersSlab outcomes tmpFile = some child)
    (hok : child.anyFailed = false) {dump : Bytes} (hfile : child.tmpFile = some dump) {dbLog : DBLog UInt8}
    (hname : dbLog.dbLogFileName ≠ none) (memory : Nat → Nat → UInt8) (stack : Nat → Bytes) :
    ∃ res parts more dbLog', replayLogBy (limitedRead memory) stack (openDbLog dbLog dump).1 =
        some (res, parts.map (DumpPart.request context) ++ more, dbLog') ∧
      parts <+: dumpParts (order.map Prod.snd) ∧ (parts = dumpParts (order.map Prod.snd) ↔
        wholeItems (dumpItems context (order.map Prod.snd)) 0 = dumpItems context (order.map Prod.snd)) ∧
      (¬ ReadingGoesOn (dumpItems context (order.map Prod.snd)) 0 → more = []) := by
  obtain ⟨child', hchild', -, -, hdump⟩ := rewriteChild_spec context hvisits outcomes tmpFile
  obtain rfl := Option.some.inj (hchild.symm.trans hchild')
  have hdumped := Option.some.inj (hfile.symm.trans (hdump hok))
  rw [completeDump_eq] at hdumped
  generalize order.map Prod.snd = layers at *
  have hitems := dumpItems_ok hcontext hdumpable
  obtain ⟨res, more, dbLog', hreplay, hend⟩ := replayLimited_spec memory stack hname hitems
  have hread := (wholeItems_initial (dumpItems context layers) 0).filterMap LogItem.request?
  rw [dumpItems_parts] at hread
  obtain ⟨parts, hparts, hrequests⟩ := List.prefix_map_iff.1 hread
  rw [← hdumped, hrequests] at hreplay
  refine ⟨res, parts, more, dbLog', hreplay, hparts, ⟨?_, fun hall => ?_⟩, hend⟩
  · rintro rfl
    refine wholeItems_eq_self hitems ?_
    rw [hrequests, dumpItems_parts]
  · rw [hall, dumpItems_parts] at hrequests
    refine hparts.eq_of_length ?_
    rw [← List.length_map, ← hrequests, List.length_map]

/-- **A store that comes back from its dump**: every request of the dump is read as a whole, and the records come back. -/
structure Restorable (qbounds : Rectangle2D D) (context : DumpContext D) (store : Layers D) (order : List (DumpedLayer D)) :
    Prop where
  whole : wholeItems (dumpItems context order) 0 = dumpItems context order
  records : RecordsBack qbounds context store

end

/-! ## Three records that come back, and one that does not -/

instance (a b : Position2D ℚ) : Decidable (a = b) :=
  decidable_of_iff (a.latitude = b.latitude ∧ a.longitude = b.longitude) (by
    cases a
    cases b
    simp)

instance (qbounds : Rectangle2D ℚ) (context : DumpContext ℚ) (recordKey : Key) (keyNode : KeyNode ℚ) :
    Decidable (RecordBack qbounds context recordKey keyNode) :=
  decidable_of_iff
    (((∀ position ∈ keyNode.slot, valuePosition (positionText context position) = position) ∧
      (keyNode.slot = none → ∀ value ∈ lastNamed namesPosition (reread (visited keyNode.properties)),
        positionInBounds qbounds (valuePosition value) = false) ∧
      (keyNode.expirable = none → ∀ value ∈ lastNamed namesExpiration (reread (visited keyNode.properties)),
        valueTime value = 0) ∧
      (keyNode.properties.isSome = true → MakesMap (reread (visited keyNode.properties)))) ∧
      rereadKey (cstr recordKey) = some (cstr recordKey) ∧ ∀ p ∈ visited keyNode.properties, PairReadable ℚ p)
    ⟨fun h => ⟨⟨h.1.1, h.1.2.1, h.1.2.2.1, h.1.2.2.2⟩, h.2.1, h.2.2⟩,
      fun h => ⟨⟨h.position, h.noPosition, h.noExpiration, h.map⟩, h.key, h.readable⟩⟩

/-- The only layer that is dumped. -/
theorem dumpsStore_storeOf {records : List (Key × KeyNode ℚ)} (hnodup : (records.map (fun p => cstr p.1)).Nodup) :
    DumpsStore (storeOf records) [dumpedRecords records] where
  dumped layer hlayer := by
    obtain rfl := List.mem_singleton.1 hlayer
    exact dumpedFrom_storeOf (List.Nodup.of_map cstr (by rwa [List.map_map]))
  names := List.nodup_singleton _
  keys layer hlayer := by
    obtain rfl := List.mem_singleton.1 hlayer
    rw [dumpedRecords, List.map_map]
    exact hnodup
  all layerName h := by
    refine ⟨_, List.mem_singleton_self _, ?_⟩
    have hname : layerName = layerX := by
      by_contra hne
      exact h (Function.update_of_ne hne ..)
    rw [hname]
    exact (cstr_snoc (s := bytes "x") (by decide)).symm

theorem recordOf_storeOf {records : List (Key × KeyNode ℚ)} {name key : Key} {keyNode : KeyNode ℚ}
    (h : keyNode ∈ recordOf (storeOf records) name key) : (key, keyNode) ∈ records := by
  obtain ⟨keyNodes, hlayer, hkey⟩ := Option.bind_eq_some_iff.1 h
  unfold storeOf at hlayer
  rw [Function.update_apply] at hlayer
  split at hlayer
  · obtain rfl := Option.some.inj hlayer
    obtain ⟨before, after, rfl, -⟩ := List.lookup_eq_some_iff.1 hkey
    simp
  · cases hlayer

/-- One position is printed. -/
def dumpContextP : DumpContext ℚ :=
  ⟨bytes "/api/1.0/", 60, fun d => if d = 3 / 2 then bytes "1.500000" else bytes "0.000000"⟩

theorem dumpContextP_ok : DumpContextOk dumpContextP where
  clock := by decide
  base := by decide
  length := by decide
  print d := by
    have hprinted : ∀ text ∈ [bytes "1.500000", bytes "0.000000"], text ≠ [] ∧
        (∀ c ∈ text, (48 ≤ c ∧ c ≤ 57) ∨ c = 45 ∨ c = 46) ∧ text.length ≤ 400 ∧
        (Dimension.strtod text : Option (ℚ × Bytes)).isSome = true := by decide +kernel
    have hmem : dumpContextP.printDouble d ∈ [bytes "1.500000", bytes "0.000000"] := by
      unfold dumpContextP
      dsimp only
      split <;> simp
    obtain ⟨hne, hdigits, hshort, hreads⟩ := hprinted _ hmem
    exact ⟨hne, hdigits, hshort, hreads⟩

/-- A key with a percent sign and one digit, with all fields; a record with nothing; and one with a property that is called
like a field, whose value is that of no expiration. -/
def edgePuts : List XPut :=
  [⟨bytes "a%254", bytes "a%4", bytes "_loc=1.5,0&_expires_at=99&c=d"⟩, ⟨bytes "b", bytes "b", []⟩,
    ⟨bytes "n", bytes "n", bytes "_add_int:_expires_at=0&_add_int:n=1"⟩]

end Pincaster
