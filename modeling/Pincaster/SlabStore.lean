import Pincaster.LayerMemory
import Pincaster.LayerSlab
/-!
# SlabStore — runs of the store with its layers in their slab

As long as no input loses a layer, the slab has the layers of the maps, in some order: the store takes the steps of the
maps (`store_refines_maps`), and nothing of its memory leaks or dangles (`store_owns_memory`).
-/
namespace Pincaster

open Lib (Bytes bytes cstr Heap RbTree System)

variable {D : Type}

section
variable [Field D] [LinearOrder D]

def slabStoreStep (env : SearchEnv D Nat) (store : SlabStore D) : StoreInput D → Option (SlabStore D)
  | .operation op => (SlabStore.workerDoWork env op store).map Prod.fst
  | .purge now => SlabStore.purgeExpiredKeys env.toPanDbEnv now store

def slabStoreSystem (env : SearchEnv D Nat) : System (SlabStore D) (StoreInput D) where
  init := emptySlabStore
  legal _ _ := True
  step := slabStoreStep env

end

/-- **An input that a request has queued, or a purge, which loses no layer.** -/
def SlabStore.Takes (store : SlabStore D) (input : StoreInput D) : Prop := input.Requested ∧ store.KeepsLayers input

/-! ## The order of the layers -/

section
variable [LinearOrder D] {env : PanDbEnv D Nat} {mem : Layer.Memory} {layers layers' : List (Layer D)}

/-- **Where a layer is in the slab does not matter.** -/
theorem LayerStore.Kept.perm (h : LayerStore.Kept env ⟨mem, layers⟩) (hperm : layers'.Perm layers) :
    LayerStore.Kept env ⟨mem, layers'⟩ :=
  ⟨fun l hl => h.dbs l (hperm.mem_iff.1 hl), (hperm.pairwise_iff Layer.Apart.symm).2 h.apart⟩

theorem getPanDb_perm (h : LayerStore.Kept env ⟨mem, layers⟩) (hperm : layers'.Perm layers) (layerName : Key) :
    getPanDbByLayerName layers' layerName = getPanDbByLayerName layers layerName := by
  have h' := h.perm hperm
  cases hfound : layers.find? (fun layer => strEq layerName layer.name) with
  | none =>
    have hnone : layers'.find? (fun layer => strEq layerName layer.name) = none :=
      List.find?_eq_none.2 (fun layer hl => List.find?_eq_none.1 hfound layer (hperm.mem_iff.1 hl))
    rw [getPanDbByLayerName, getPanDbByLayerName, hfound, hnone]
  | some layer =>
    have hname : strEq layerName layer.name = true := (List.find?_eq_some_iff_append.1 hfound).1
    obtain ⟨pre, post, rfl⟩ := List.append_of_mem (hperm.mem_iff.2 (List.mem_of_find?_eq_some hfound))
    rw [getPanDb_middle (LayerStore.kept_middle.1 h').2.2, if_pos hname, getPanDbByLayerName, hfound, Option.map_some]

theorem maps_perm (h : LayerStore.Kept env ⟨mem, layers⟩) (hperm : layers'.Perm layers) :
    LayerStore.maps ⟨mem, layers'⟩ = LayerStore.maps ⟨mem, layers⟩ := by
  have hkeyNodes : LayerStore.keyNodes ⟨mem, layers'⟩ = LayerStore.keyNodes ⟨mem, layers⟩ := funext (fun layerName => by
    rw [LayerStore.keyNodes, LayerStore.keyNodes, getPanDb_perm h hperm])
  rw [LayerStore.maps, LayerStore.maps, hkeyNodes]

theorem HasMaps.perm {maps : Layers D} (h : HasMaps env ⟨mem, layers⟩ maps) (hperm : layers'.Perm layers) :
    HasMaps env ⟨mem, layers'⟩ maps := ⟨h.1.perm hperm, h.2.1, h.2.2.trans (maps_perm h.1 hperm).symm⟩

omit [LinearOrder D] in
theorem LayerStore.Owned.perm (h : LayerStore.Owned ⟨mem, layers⟩) (hperm : layers'.Perm layers) :
    LayerStore.Owned ⟨mem, layers'⟩ := by
  refine ⟨fun a ha => ?_, fun e he => ?_⟩
  · obtain ⟨layer, hl, hmem⟩ := h.keyNodes a ha
    exact ⟨layer, hperm.mem_iff.2 hl, hmem⟩
  · obtain ⟨layer, hl, hmem⟩ := h.expirables e he
    exact ⟨layer, hperm.mem_iff.2 hl, hmem⟩

end

/-! ## The invariant -/

/-- The maps of a store, as a `slab_foreach` finds its layers. -/
def SlabStore.maps (store : SlabStore D) : Layers D :=
  (store.layersSlab.entries.map (fun entries => (seen store.mem entries).maps)).getD (fun _ => none)

/-- **A store that has lost no layer**: its entries are the layers of the maps, and the memory is theirs. -/
structure SlabStore.Sound [Field D] [LinearOrder D] (env : PanDbEnv D Nat) (store : SlabStore D)
    (entries : List (EntryPtr × Layer D)) : Prop where
  holds : store.layersSlab.Holds entries
  maps : HasMaps env (seen store.mem entries) (seen store.mem entries).maps
  reached : LayersReached env (entries.map Prod.snd)
  owned : (seen store.mem entries).Owned

section
variable [Field D] [LinearOrder D] {env : PanDbEnv D Nat} {store : SlabStore D} {entries : List (EntryPtr × Layer D)}

theorem SlabStore.Sound.maps_eq (h : store.Sound env entries) : store.maps = (seen store.mem entries).maps := by
  rw [SlabStore.maps, h.holds.entries_eq, Option.map_some, Option.getD_some]

theorem emptySlabStore_sound (env : PanDbEnv D Nat) : (emptySlabStore : SlabStore D).Sound env [] where
  holds := holds_init
  maps := (hasMaps_empty env).2.2 ▸ hasMaps_empty env
  reached := fun _ hl => absurd hl List.not_mem_nil
  owned := ⟨fun _ ha => absurd rfl ha, fun _ he => absurd rfl he⟩

theorem emptySlabStore_maps (env : PanDbEnv D Nat) : (emptySlabStore : SlabStore D).maps = fun _ => none :=
  (emptySlabStore_sound env).maps_eq.trans (hasMaps_empty env).2.2.symm

/-- The entries of another slab, in another order. -/
theorem SlabStore.Sound.of_perm {slab' : Slab (Layer D)} {entries' : List (EntryPtr × Layer D)} {left : LayerStore D}
    (hholds : slab'.Holds entries') (hmaps : HasMaps env left left.maps) (hreached : LayersReached env left.layers)
    (howned : left.Owned) (hperm : (entries'.map Prod.snd).Perm left.layers) :
    SlabStore.Sound env ⟨left.mem, slab'⟩ entries' ∧ (⟨left.mem, slab'⟩ : SlabStore D).maps = left.maps := by
  have heq : (seen left.mem entries').maps = left.maps := maps_perm hmaps.1 hperm
  have hsound : SlabStore.Sound env ⟨left.mem, slab'⟩ entries' :=
    ⟨hholds, heq.symm ▸ hmaps.perm hperm, fun l hl => hreached l (hperm.mem_iff.1 hl), howned.perm hperm⟩
  exact ⟨hsound, hsound.maps_eq.trans heq⟩

/-- **A purge is one of the maps.** -/
theorem SlabStore.Sound.purge (h : store.Sound env entries) (now : Int) :
    ∃ store' entries', SlabStore.purgeExpiredKeys env now store = some store' ∧ store'.Sound env entries' ∧
      store'.maps = Pincaster.purgeExpiredKeys now store.maps := by
  obtain ⟨left, hpurge, hmaps⟩ := h.maps.purge now
  obtain ⟨slab', entries', hstep, hholds, hlayers⟩ := SlabStore.purgeExpiredKeys_spec h.holds hpurge
  obtain ⟨hsound, heq⟩ := SlabStore.Sound.of_perm hholds (hmaps.2.2 ▸ hmaps)
    (purgeExpiredKeys_layers hpurge h.reached) (purgeExpiredKeys_owned hpurge h.owned) (.of_eq hlayers)
  exact ⟨_, entries', hstep, hsound, by rw [heq, ← hmaps.2.2, h.maps_eq]⟩

end

section
variable [Field D] [LinearOrder D] {env : SearchEnv D Nat} {store : SlabStore D} {entries : List (EntryPtr × Layer D)}
  {op : Op D}

/-- A worker works on the layers that it sees. -/
theorem SlabStore.workerDoWork_seen (h : store.layersSlab.Holds entries) {p : SlabStore D × List (OpReply D)}
    (hp : SlabStore.workerDoWork env op store = some p) :
    ∃ r, LayerStore.workerDoWork env op (seen store.mem entries) = some r := by
  obtain ⟨entries', hentries, hp⟩ := Option.bind_eq_some_iff.1 hp
  obtain rfl := Option.some.inj (h.entries_eq.symm.trans hentries)
  obtain ⟨r, hr, -⟩ := Option.bind_eq_some_iff.1 hp
  exact ⟨r, hr⟩

variable [Dimension D] [ExactDimension D]

/-- **An operation is one on the maps.** -/
theorem SlabStore.Sound.operation (h : store.Sound env.toPanDbEnv entries)
    (htakes : store.Takes (.operation op)) {r : OpResult D}
    (hr : LayerStore.workerDoWork env op (seen store.mem entries) = some r) :
    ∃ store' entries', SlabStore.workerDoWork env op store = some (store', r.replies) ∧
      store'.Sound env.toPanDbEnv entries' ∧ Pincaster.workerDoWork env.qbounds op.body store.maps = some store'.maps := by
  obtain ⟨slab', entries', hstep, hholds, hperm⟩ := SlabStore.workerDoWork_spec h.holds htakes.2 hr
  obtain ⟨r', hr', hstore⟩ := workerDoWork_store (congrArg (Option.map OpResult.store) hr)
  obtain ⟨hwork, hmaps⟩ := h.maps.operation htakes.1 hr'
  have hreached := handleOp_trees h.maps.1 h.reached hr'
  have howned := handleOp_owned h.maps.1 h.owned hr'
  rw [hstore] at hwork hmaps hreached howned
  obtain ⟨hsound, heq⟩ := SlabStore.Sound.of_perm hholds hmaps hreached howned hperm
  exact ⟨_, entries', hstep, hsound, by rw [h.maps_eq, hwork, heq]⟩

/-- **The store takes the steps of the maps.** -/
theorem slabStore_simulation (env : SearchEnv D Nat) :
    System.Simulation ((slabStoreSystem env).restrict SlabStore.Takes) (layersSystem env.qbounds)
      (fun store layers => (∃ entries, store.Sound env.toPanDbEnv entries) ∧ layers = store.maps) id where
  init := ⟨⟨[], emptySlabStore_sound _⟩, (emptySlabStore_maps env.toPanDbEnv).symm⟩
  step {store layers input store'} hrel hlegal hs := by
    obtain ⟨⟨entries, hsound⟩, rfl⟩ := hrel
    refine ⟨hlegal.2.1, ?_⟩
    cases input with
    | operation op =>
      obtain ⟨p, hp, rfl⟩ := Option.map_eq_some_iff.1 hs
      obtain ⟨r, hr⟩ := SlabStore.workerDoWork_seen hsound.holds hp
      obtain ⟨store₁, entries', hstep, hsound', hwork⟩ := hsound.operation hlegal.2 hr
      obtain rfl := Option.some.inj (hstep.symm.trans hp)
      exact ⟨_, hwork, ⟨entries', hsound'⟩, rfl⟩
    | purge now =>
      obtain ⟨store₁, entries', hstep, hsound', hpurge⟩ := hsound.purge now
      obtain rfl := Option.some.inj (hstep.symm.trans hs)
      exact ⟨_, congrArg some hpurge.symm, ⟨entries', hsound'⟩, rfl⟩

theorem sound_of_run {h : List (SlabStore D × StoreInput D)}
    (hr : ((slabStoreSystem env).restrict SlabStore.Takes).Run h store) :
    ∃ entries, store.Sound env.toPanDbEnv entries := by
  obtain ⟨-, -, -, -, hsound, -⟩ := (slabStore_simulation env).run hr
  exact hsound

/-- A run of changes of the maps is taken in memory up to the first input that loses a layer. -/
theorem exists_slabStore_run (env : SearchEnv D Nat) {h : List (Layers D × StoreInput D)} {layers : Layers D}
    (hr : ((layersSystem env.qbounds).restrict (fun _ input => input.Changes)).Run h layers) :
    (∃ h' store, ((slabStoreSystem env).restrict SlabStore.Takes).Run h' store ∧ h'.map Prod.snd = h.map Prod.snd ∧
      store.maps = layers) ∨
    ∃ h' store input, ((slabStoreSystem env).restrict SlabStore.Takes).Run h' store ∧
      (h'.map Prod.snd ++ [input]) <+: h.map Prod.snd ∧ ¬ store.KeepsLayers input := by
  induction hr with
  | init =>
    exact .inl ⟨[], emptySlabStore, .init, rfl, emptySlabStore_maps env.toPanDbEnv⟩
  | @snoc h layers layers' input _ hlegal hs ih =>
    rcases ih with ⟨h', store, hr', hinputs, rfl⟩ | ⟨h', store, bad, hr', hprefix, hlost⟩
    · by_cases hkeeps : store.KeepsLayers input
      · obtain ⟨entries, hsound⟩ := sound_of_run hr'
        have htakes : store.Takes input := ⟨hlegal.1, hkeeps⟩
        obtain ⟨store', hstep, hmaps⟩ : ∃ store', slabStoreStep env store input = some store' ∧
            layersStep env.qbounds store.maps input = some store'.maps := by
          cases input with
          | operation op =>
            obtain ⟨r', hr'⟩ := hsound.maps.change (show Requested op.body from htakes.1) hlegal.2
            have hwork : LayerStore.workerDoWork env op (SlabStore.seen store.mem entries) = some _ :=
              congrArg (Option.map _) hr'
            obtain ⟨store', -, hstep, -, hmaps⟩ := hsound.operation htakes hwork
            exact ⟨store', congrArg (Option.map Prod.fst) hstep, hmaps⟩
          | purge now =>
            obtain ⟨store', -, hstep, -, hmaps⟩ := hsound.purge now
            exact ⟨store', hstep, congrArg some hmaps.symm⟩
        refine .inl ⟨_, store', hr'.snoc ⟨trivial, htakes⟩ hstep, ?_, ?_⟩
        · rw [List.map_append, List.map_append, hinputs]
          rfl
        · exact Option.some.inj (hmaps.symm.trans hs)
      · refine .inr ⟨h', store, input, hr', ?_, hkeeps⟩
        rw [List.map_append, hinputs]
        exact List.prefix_rfl
    · refine .inr ⟨h', store, bad, hr', hprefix.trans ?_, hlost⟩
      rw [List.map_append]
      exact List.prefix_append _ _

/-! ## What holds in every run -/

/-- **The store in memory refines the maps**, as long as no input loses a layer: a run in memory is one of the maps, with the
same inputs and the same records in its end; and a run of changes of the maps is one in memory, unless the store comes to an
input that loses a layer. -/
theorem store_refines_maps (env : SearchEnv D Nat) :
    (∀ h store, ((slabStoreSystem env).restrict SlabStore.Takes).Run h store →
      ∃ h', (layersSystem env.qbounds).Run h' store.maps ∧ h'.map Prod.snd = h.map Prod.snd) ∧
    ∀ h layers, ((layersSystem env.qbounds).restrict (fun _ input => input.Changes)).Run h layers →
      (∃ h' store, ((slabStoreSystem env).restrict SlabStore.Takes).Run h' store ∧
        h'.map Prod.snd = h.map Prod.snd ∧ store.maps = layers) ∨
      ∃ h' store input, ((slabStoreSystem env).restrict SlabStore.Takes).Run h' store ∧
        (h'.map Prod.snd ++ [input]) <+: h.map Prod.snd ∧ ¬ store.KeepsLayers input := by
  refine ⟨fun h store hr => ?_, fun h layers hr => exists_slabStore_run env hr⟩
  obtain ⟨h', layers, hr', hinputs, -, rfl⟩ := (slabStore_simulation env).run hr
  exact ⟨h', hr', hinputs⟩

/-- **No memory leaks and none dangles**, as long as no input loses a layer.  In every state of a run the key nodes and the
expirables that are allocated are those of the layers; no two layers share one; and the expirables of a layer are those its
key nodes point to. -/
theorem store_owns_memory {h : List (SlabStore D × StoreInput D)}
    (hr : ((slabStoreSystem env).restrict SlabStore.Takes).Run h store) :
    ∃ entries, store.layersSlab.entries = some entries ∧
    (∀ a, store.mem.keyNodes.cells a ≠ none ↔ ∃ p ∈ entries, a ∈ p.2.panDb.addrs) ∧
    (∀ e, store.mem.expirables.cells e ≠ none ↔ ∃ p ∈ entries, e ∈ p.2.panDb.expirables) ∧
    (entries.flatMap (fun p => p.2.panDb.addrs)).Nodup ∧ (entries.flatMap (fun p => p.2.panDb.expirables)).Nodup ∧
    ∀ p ∈ entries, ∀ e, e ∈ p.2.panDb.expirables ↔
      ∃ a ∈ p.2.panDb.addrs, store.mem.expirableOf a = some (some e) := by
  obtain ⟨entries, hsound⟩ := sound_of_run hr
  have hkept := hsound.maps.1
  have hdb : ∀ p ∈ entries, Layer.Kept env.toPanDbEnv store.mem p.2.panDb := fun p hp =>
    hkept.dbs p.2 (List.mem_map_of_mem hp)
  have hapart : entries.Pairwise (fun p p' => Layer.Apart p.2 p'.2) := List.pairwise_map.1 hkept.apart
  refine ⟨entries, hsound.holds.entries_eq, fun a => ⟨fun ha => ?_, ?_⟩, fun e => ⟨fun he => ?_, ?_⟩, ?_, ?_,
    fun p hp e => ⟨(hdb p hp).entry e, ?_⟩⟩
  · obtain ⟨layer, hl, hmem⟩ := hsound.owned.keyNodes a ha
    obtain ⟨p, hp, rfl⟩ := List.mem_map.1 hl
    exact ⟨p, hp, hmem⟩
  · rintro ⟨p, hp, ha⟩
    obtain ⟨node, hnode⟩ := (hdb p hp).toIndexed.node_at ha
    exact (show store.mem.keyNodes.cells a = some node from hnode) ▸ Option.some_ne_none node
  · obtain ⟨layer, hl, hmem⟩ := hsound.owned.expirables e he
    obtain ⟨p, hp, rfl⟩ := List.mem_map.1 hl
    exact ⟨p, hp, hmem⟩
  · rintro ⟨p, hp, he⟩
    obtain ⟨a, ha, ts, hof, hcell, hne⟩ := (hdb p hp).toIndexed.cells he
    rw [hcell]
    exact Option.some_ne_none _
  · exact List.nodup_flatMap.2 ⟨fun p hp => (hdb p hp).nodup, hapart.imp (fun hapart a ha ha' => hapart.2 a ha ha')⟩
  · refine List.nodup_flatMap.2 ⟨fun p hp => (hdb p hp).toIndexed.nodup_expirables, ?_⟩
    exact hapart.imp_of_mem (fun {p p'} hp hp' hapart =>
      expirables_apart hkept (List.mem_map_of_mem hp) (List.mem_map_of_mem hp') hapart)
  · rintro ⟨a, ha, hof⟩
    exact ((hdb p hp).back a ha e hof).1

end

/-! ## A run with two layers -/

instance {env : SearchEnv ℚ Nat} (store : SlabStore ℚ) (input : StoreInput ℚ) :
    Decidable (((slabStoreSystem env).restrict (fun store input => store.KeepsLayers input)).legal store input) :=
  inferInstanceAs (Decidable (True ∧ store.KeepsLayers input))

/-- A layer that is deleted again stands in front of the one with the records. -/
def slabInputs : List (StoreInput ℚ) :=
  .operation ⟨true, 0, .layersCreate (bytes "m\x00")⟩ :: dishInputs ++
    [.operation ⟨true, 0, .layersDelete (bytes "m\x00")⟩, .purge 3]

theorem requested_slabInputs : ∀ input ∈ slabInputs, StoreInput.Requested input := by
  have hname : CKey (bytes "m\x00") := by decide
  intro input hinput
  rcases List.mem_append.1 hinput with hinput | hinput
  · rcases List.mem_cons.1 hinput with rfl | hinput
    · exact ⟨⟨bytes "m", by decide, by constructor <;> decide⟩, fun _ => hname⟩
    · exact requested_dishes input hinput
  · rcases List.mem_cons.1 hinput with rfl | hinput
    · exact ⟨trivial, fun _ => hname⟩
    · rw [List.mem_singleton.1 hinput]
      trivial

/-- What is seen of the store at the end of these inputs is seen at the end of a run. -/
theorem slab_run_of {env : SearchEnv ℚ Nat} {p : SlabStore ℚ → Bool} (hp : (((slabStoreSystem env).restrict
      (fun store input => store.KeepsLayers input)).exec slabInputs emptySlabStore).any p = true) :
    ∃ h store, ((slabStoreSystem env).restrict SlabStore.Takes).Run h store ∧ h.map Prod.snd = slabInputs ∧
      p store = true := by
  obtain ⟨store, hstore, hp⟩ := (Option.any_eq_true _ _).1 hp
  obtain ⟨h, hr, hinputs⟩ := System.Run.of_exec _ System.Run.init hstore
  rw [List.map_nil, List.nil_append] at hinputs
  obtain ⟨hr, hkeeps⟩ := hr.of_restrict
  have htakes : ∀ p ∈ h, SlabStore.Takes p.1 p.2 := fun p hp =>
    ⟨requested_slabInputs p.2 (hinputs ▸ List.mem_map_of_mem hp), hkeeps p hp⟩
  exact ⟨h, store, hr.restrict htakes, hinputs, hp⟩

/-- **A run in which a layer keeps its records where they are**: the other layer has gone. -/
theorem exists_slab_run : ∃ h store keyNodes, ((slabStoreSystem (worldEnv .flat)).restrict SlabStore.Takes).Run h store ∧
    h.map Prod.snd = slabInputs ∧ store.maps (bytes "m\x00") = none ∧ store.maps (bytes "l\x00") = some keyNodes ∧
    ∃ keyNode, keyNodes (bytes "abde\x00") = some keyNode := by
  have hrun : (((slabStoreSystem (worldEnv .flat)).restrict (fun store input => store.KeepsLayers input)).exec slabInputs
      emptySlabStore).any (fun store => (store.maps (bytes "m\x00")).isNone &&
        (store.maps (bytes "l\x00")).any (fun keyNodes => (keyNodes (bytes "abde\x00")).isSome)) = true := by
    decide +kernel
  obtain ⟨h, store, hr, hinputs, hp⟩ := slab_run_of hrun
  obtain ⟨hnone, hlayer⟩ := Bool.and_eq_true_iff.1 hp
  obtain ⟨keyNodes, hkeyNodes, hkey⟩ := (Option.any_eq_true _ _).1 hlayer
  exact ⟨h, store, keyNodes, hr, hinputs, Option.isNone_iff_eq_none.1 hnone, hkeyNodes,
    Option.isSome_iff_exists.1 hkey⟩

theorem store_refines_maps_slab : ∃ h layers, (layersSystem (worldEnv .flat).qbounds).Run h layers ∧
    h.map Prod.snd = slabInputs ∧ layers (bytes "m\x00") = none ∧ layers (bytes "l\x00") ≠ none := by
  obtain ⟨h, store, keyNodes, hr, hinputs, hgone, hlayer, -⟩ := exists_slab_run
  obtain ⟨h', hr', hinputs'⟩ := (store_refines_maps (worldEnv .flat)).1 h store hr
  exact ⟨h', store.maps, hr', hinputs'.trans hinputs, hgone, hlayer ▸ Option.some_ne_none keyNodes⟩

theorem store_owns_memory_slab : ∃ h store entries,
    ((slabStoreSystem (worldEnv .flat)).restrict SlabStore.Takes).Run h store ∧
    store.layersSlab.entries = some entries ∧ entries ≠ [] ∧
    ∀ a, store.mem.keyNodes.cells a ≠ none ↔ ∃ p ∈ entries, a ∈ p.2.panDb.addrs := by
  obtain ⟨h, store, keyNodes, hr, -, -, hlayer, -⟩ := exists_slab_run
  obtain ⟨entries, hentries, howns, -⟩ := store_owns_memory hr
  refine ⟨h, store, entries, hr, hentries, ?_, howns⟩
  rintro rfl
  rw [SlabStore.maps, hentries, Option.map_some, Option.getD_some, LayerStore.maps, named] at hlayer
  split_ifs at hlayer
  cases hlayer

end Pincaster
