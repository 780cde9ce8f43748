import Pincaster.SlabEntries
import Pincaster.StoreRuns
/-!
# LayerSlab — the store with its layers in their slab

`layers_slab` has the layers as its entries.  A handler goes through them with `slab_foreach`, in the order of the slab, and
changes them in place; a new layer is an entry that is added, a deleted one an entry that is removed.  As long as no layer
is lost, the slab has the layers that `LayerStore` has in a list, in some order (`workerDoWork_spec`).
-/
namespace Pincaster

open Lib (Heap cstr)

variable {D : Type}

structure SlabStore (D : Type) where
  mem : Layer.Memory
  layersSlab : Slab (Layer D)

def emptySlabStore : SlabStore D := ⟨⟨Heap.empty, Heap.empty⟩, initSlab⟩

/-- `get_layer_by_layer_name_cb`. -/
def getLayerByLayerNameCb (layerName : Key) (found : Option (Layer D)) (_ : EntryPtr) (layer : Layer D) :
    Int × Option (Layer D) :=
  if strEq layerName layer.name then (1, some layer) else (0, found)

namespace SlabStore

/-- The layers as a `slab_foreach` goes through them. -/
def seen (mem : Layer.Memory) (entries : List (EntryPtr × Layer D)) : LayerStore D := ⟨mem, entries.map Prod.snd⟩

/-- What is done to the slab itself: `register_new_layer` for a name that is new, and the end of
`delete_layer_by_layer_name` for the first layer of the name. -/
def slabOp (entries : List (EntryPtr × Layer D)) : OpBody D → Option (SlabOp (Layer D))
  | .layersCreate layerName =>
    if (getPanDbByLayerName (entries.map Prod.snd) layerName).isSome ∨ cstr layerName = [] then none
    else some (.add true ⟨cstr layerName, Layer.initDb⟩)
  | .layersDelete layerName => (entries.find? (fun p => strEq layerName p.2.name)).map (fun p => .remove p.1)
  | _ => none

/-- The slab afterwards and what its function has returned; the layers that stay are written where they are. -/
def changeSlab (slab : Slab (Layer D)) (entries : List (EntryPtr × Layer D)) (layers : List (Layer D)) :
    Option (SlabOp (Layer D)) → Option (Slab (Layer D) × Int)
  | some (.add malloc layer) => (addEntryToSlab malloc slab layer).map (fun r => (r.1, 0))
  | some (.remove entry) => removeEntryFromSlab slab entry
  | none => some (slab.write (fun e => ((entries.map Prod.fst).zip layers).lookup e), 0)

/-- A reply of the worker, none for a fake request. -/
def replyTo (op : Op D) (json : ReplyJson D) : List (OpReply D) := if op.fakeReq then [] else [⟨op.opTid, json⟩]

section
variable [Field D] [LinearOrder D]

/-- `worker_do_work`: the handlers of `LayerStore`, on the layers of the slab. -/
def workerDoWork (env : SearchEnv D Nat) (op : Op D) (store : SlabStore D) : Option (SlabStore D × List (OpReply D)) := do
  let entries ← store.layersSlab.entries
  let r ← LayerStore.workerDoWork env op (seen store.mem entries)
  let (layersSlab, ret) ← changeSlab store.layersSlab entries r.store.layers (slabOp entries op.body)
  -- the handler of a deletion returns an error for a layer that is not in its slab
  some (⟨r.store.mem, layersSlab⟩, if ret = 0 then r.replies else replyTo op .error)

end

def purgeExpiredKeys [LinearOrder D] (env : PanDbEnv D Nat) (now : Int) (store : SlabStore D) :
    Option (SlabStore D) := do
  let entries ← store.layersSlab.entries
  let left ← LayerStore.purgeExpiredKeys env now (seen store.mem entries)
  let (layersSlab, _) ← changeSlab store.layersSlab entries left.layers none
  some ⟨left.mem, layersSlab⟩

/-- **An input loses no layer**: the layer that it adds does not fill the first chunk that has room before others that have
room, too. -/
def KeepsLayers (store : SlabStore D) : StoreInput D → Prop
  | .operation op => ∀ entries ∈ store.layersSlab.entries, ∀ o ∈ slabOp entries op.body,
      KeepsPartial ⟨store.layersSlab, entries⟩ o
  | .purge _ => True

end SlabStore

/-- The operation that adds a layer. -/
def OpBody.creates : OpBody D → Bool
  | .layersCreate _ => true
  | _ => false

namespace SlabStore

/-- **Only a creation loses a layer.** -/
theorem keepsLayers_of_creates {store : SlabStore D} {op : Op D} (h : op.body.creates = false) :
    store.KeepsLayers (.operation op) := by
  intro entries _ o ho
  unfold slabOp at ho
  split at ho
  · rename_i layerName hbody
    rw [hbody] at h
    cases h
  · obtain ⟨p, -, rfl⟩ := Option.map_eq_some_iff.1 ho
    trivial
  · cases ho

instance (store : SlabStore D) : ∀ input, Decidable (store.KeepsLayers input)
  | .operation op => inferInstanceAs (Decidable (∀ entries ∈ store.layersSlab.entries,
      ∀ o ∈ slabOp entries op.body, KeepsPartial ⟨store.layersSlab, entries⟩ o))
  | .purge _ => .isTrue trivial

end SlabStore

/-! ## Layers found by their names -/

/-- **The first layer of a name** is where the callback stops. -/
theorem getLayerByLayerName_foreach {slab : Slab (Layer D)} {entries : List (EntryPtr × Layer D)}
    (h : slab.Holds entries) (layerName : Key) :
    (slabForeach (getLayerByLayerNameCb layerName) slab none).map (fun r => r.2.map Layer.panDb) =
      some (getPanDbByLayerName (entries.map Prod.snd) layerName) := by
  rw [h.foreach, Option.map_some, Option.some.injEq, getPanDbByLayerName]
  congr 1
  clear h
  induction entries with
  | nil => rfl
  | cons p entries ih =>
    rw [foreachList, getLayerByLayerNameCb, List.map_cons, List.find?_cons]
    cases strEq layerName p.2.name with
    | true => rfl
    | false => exact ih

/-! ## What the handlers do to the list of the layers -/

section
variable {store : LayerStore D}

theorem length_setLayer (layerName : Key) (db : Layer.Db D) :
    ∀ layers : List (Layer D), (setLayer layerName db layers).length = layers.length
  | [] => rfl
  | layer :: layers => by
    rw [setLayer]
    split
    · rfl
    · rw [List.length_cons, List.length_cons, length_setLayer layerName db layers]

theorem length_purgeLayers [LinearOrder D] {env : PanDbEnv D Nat} {now : Int} : ∀ {layers : List (Layer D)}
    {mem : Layer.Memory} {store' : LayerStore D}, LayerStore.purgeLayers env now layers mem = some store' →
    store'.layers.length = layers.length
  | [], mem, store', h => by
    cases h
    rfl
  | layer :: layers, mem, store', h => by
    obtain ⟨⟨mem₁, db₁⟩, -, h⟩ := Option.bind_eq_some_iff.1 h
    obtain ⟨store₁, hrest, h⟩ := Option.bind_eq_some_iff.1 h
    cases h
    rw [List.length_cons, List.length_cons, length_purgeLayers hrest]

theorem length_purgeExpiredKeys [LinearOrder D] {env : PanDbEnv D Nat} {now : Int} {store' : LayerStore D}
    (h : LayerStore.purgeExpiredKeys env now store = some store') : store'.layers.length = store.layers.length := by
  unfold LayerStore.purgeExpiredKeys at h
  split at h
  · exact length_purgeLayers h
  · rw [← Option.some.inj h]

/-- The list of the layers after an operation: it has a new layer at its end, it has lost the first one of a name, or it
has its layers in their places. -/
inductive LayersAfter (body : OpBody D) (layers layers' : List (Layer D)) : Prop
  | created (layerName : Key) (hbody : body = .layersCreate layerName) (hlayers : layers' = (createPanDb layerName layers).2)
  | deleted (layerName : Key) (hbody : body = .layersDelete layerName)
      (hlayers : layers' = layers.eraseP (fun layer => strEq layerName layer.name))
  | changed (hother : ∀ entries : List (EntryPtr × Layer D), SlabStore.slabOp entries body = none)
      (hlength : layers'.length = layers.length)

variable [Field D] [LinearOrder D] {env : SearchEnv D Nat} {op : Op D}

theorem handleOp_layersAfter {r : OpResult D} (hr : LayerStore.handleOp env op store = some r) :
    LayersAfter op.body store.layers r.store.layers := by
  have hsame : r.store = store → (∀ entries : List (EntryPtr × Layer D), SlabStore.slabOp entries op.body = none) →
      LayersAfter op.body store.layers r.store.layers := fun hstore hother => .changed hother (by rw [hstore])
  unfold LayerStore.handleOp at hr
  cases hbody : op.body with
  | systemPing =>
    rw [hbody] at hr hsame
    exact hsame (sendOpReply_store hr) (fun _ => rfl)
  | layersCreate layerName =>
    rw [hbody] at hr
    exact .created layerName rfl (congrArg LayerStore.layers (sendOpReply_store hr))
  | layersDelete layerName =>
    rw [hbody] at hr
    obtain ⟨⟨status, store'⟩, hdelete, hr⟩ := Option.bind_eq_some_iff.1 hr
    have hlayers : store'.layers = store.layers.eraseP (fun layer => strEq layerName layer.name) := by
      unfold LayerStore.deleteLayerByLayerName at hdelete
      split at hdelete
      · rename_i hnone
        cases hdelete
        refine (List.eraseP_of_forall_not (fun layer hl hname => ?_)).symm
        exact absurd hname (List.find?_eq_none.1 (Option.map_eq_none_iff.1 hnone) layer hl)
      · obtain ⟨mem, -, hmem⟩ := Option.map_eq_some_iff.1 hdelete
        cases hmem
        rfl
    refine .deleted layerName rfl ?_
    simp only at hr
    split_ifs at hr
    · rw [opError_store hr, hlayers]
    · rw [opError_store hr, hlayers]
    · rw [sendOpReply_store hr, hlayers]
  | layersIndex =>
    rw [hbody] at hr hsame
    exact hsame (sendOpReply_store hr) (fun _ => rfl)
  | recordsPut putOp =>
    rw [hbody] at hr hsame
    simp only at hr
    unfold LayerStore.handleOpRecordsPut at hr
    split at hr
    · exact hsame (opError_store hr) (fun _ => rfl)
    · obtain ⟨⟨mem, db⟩, -, hr⟩ := Option.bind_eq_some_iff.1 hr
      exact .changed (fun _ => rfl) (by rw [sendOpReply_store hr]; exact length_setLayer _ _ _)
  | recordsGet layerName key withLinks =>
    rw [hbody] at hr hsame
    simp only at hr
    unfold LayerStore.handleOpRecordsGet at hr
    split at hr
    · exact hsame (opError_store hr) (fun _ => rfl)
    · split at hr
      · exact hsame (opError_store hr) (fun _ => rfl)
      · exact hsame (sendOpReply_store hr) (fun _ => rfl)
  | recordsDelete layerName key =>
    rw [hbody] at hr hsame
    simp only at hr
    unfold LayerStore.handleOpRecordsDelete at hr
    split at hr
    · exact hsame (opError_store hr) (fun _ => rfl)
    · split at hr
      · exact hsame (opError_store hr) (fun _ => rfl)
      · obtain ⟨⟨mem, db⟩, -, hr⟩ := Option.bind_eq_some_iff.1 hr
        exact .changed (fun _ => rfl) (by rw [sendOpReply_store hr]; exact length_setLayer _ _ _)
  | searchNearby layerName position options =>
    rw [hbody] at hr hsame
    simp only at hr
    unfold LayerStore.handleOpSearchNearby at hr
    split at hr
    · exact hsame (opError_store hr) (fun _ => rfl)
    · exact hsame (sendOpReply_store hr) (fun _ => rfl)
  | searchInRect layerName rect options =>
    rw [hbody] at hr hsame
    simp only at hr
    unfold LayerStore.handleOpSearchInRect at hr
    split at hr
    · exact hsame (opError_store hr) (fun _ => rfl)
    · exact hsame (sendOpReply_store hr) (fun _ => rfl)
  | searchInKeys layerName pattern options =>
    rw [hbody] at hr hsame
    simp only at hr
    unfold LayerStore.handleOpSearchInKeys at hr
    split at hr
    · exact hsame (opError_store hr) (fun _ => rfl)
    · exact hsame (sendOpReply_store hr) (fun _ => rfl)

end

/-! ## The slab follows the list -/

section
variable {slab : Slab (Layer D)} {entries : List (EntryPtr × Layer D)} {layers : List (Layer D)}

theorem lookup_zip {ptrs : List EntryPtr} : ∀ {layers : List (Layer D)} {p : EntryPtr × Layer D}, ptrs.Nodup →
    p ∈ ptrs.zip layers → (ptrs.zip layers).lookup p.1 = some p.2 := by
  induction ptrs with
  | nil => exact fun _ hp => absurd hp List.not_mem_nil
  | cons ptr ptrs ih =>
    intro layers p hnodup hp
    obtain ⟨hno, hnodup⟩ := List.nodup_cons.1 hnodup
    cases layers with
    | nil => cases hp
    | cons layer layers =>
      rw [List.zip_cons_cons, List.lookup_cons]
      rcases List.mem_cons.1 hp with rfl | hp
      · rw [beq_self_eq_true]
      · have hne : p.1 ≠ ptr := fun heq => hno (heq ▸ (List.of_mem_zip hp).1)
        rw [beq_false_of_ne hne]
        exact ih hnodup hp

/-- **The layers are written in their places.** -/
theorem Slab.Holds.changed (h : slab.Holds entries) (hlength : layers.length = entries.length) :
    ∃ slab' entries', SlabStore.changeSlab slab entries layers none = some (slab', 0) ∧ slab'.Holds entries' ∧
      entries'.map Prod.snd = layers := by
  refine ⟨_, _, rfl, h.write _, ?_⟩
  have hnodup := h.nodup
  rw [List.map_map]
  refine List.ext_getElem (by rw [List.length_map, hlength]) (fun i hi hi' => ?_)
  rw [List.length_map] at hi
  have hmem : (entries[i].1, layers[i]) ∈ (entries.map Prod.fst).zip layers := by
    refine List.mem_iff_getElem.2 ⟨i, by rw [List.length_zip, List.length_map]; omega, ?_⟩
    rw [List.getElem_zip, List.getElem_map]
  rw [List.getElem_map, Function.comp_apply, rewritten]
  exact congrArg (Option.getD · _) (lookup_zip hnodup hmem)

/-- Layers that are not changed. -/
theorem Slab.Holds.unchanged (h : slab.Holds entries) :
    SlabStore.changeSlab slab entries (entries.map Prod.snd) none = some (slab, 0) := by
  have hzip : (entries.map Prod.fst).zip (entries.map Prod.snd) = entries := by
    rw [List.zip_map', List.map_id']
  have hmem : ∀ e layer, entries.lookup e = some layer → (e, layer) ∈ entries := fun e layer hlookup => by
    obtain ⟨before, after, hsplit, -⟩ := List.lookup_eq_some_iff.1 hlookup
    rw [hsplit]
    simp
  rw [SlabStore.changeSlab, hzip, h.write_self hmem]

/-- **The slab takes every operation**, also one that loses a layer. -/
theorem Slab.Holds.changes (h : slab.Holds entries) (layers : List (Layer D)) (body : OpBody D) :
    (SlabStore.changeSlab slab entries layers (SlabStore.slabOp entries body)).isSome = true := by
  unfold SlabStore.slabOp
  split
  · split_ifs
    · rfl
    · obtain ⟨r, hadd⟩ := h.exists_add _
      rw [SlabStore.changeSlab, hadd]
      rfl
  · rename_i layerName
    cases hfind : entries.find? (fun p => strEq layerName p.2.name) with
    | none => rfl
    | some p =>
      obtain ⟨slab', entries', hremove, -⟩ := h.remove (List.mem_map_of_mem (List.mem_of_find?_eq_some hfind))
      rw [Option.map_some, SlabStore.changeSlab, hremove]
      rfl
  · rfl

/-- **A new layer.** -/
theorem Slab.Holds.created (h : slab.Holds entries) {layerName : Key}
    (hkeeps : ∀ o ∈ SlabStore.slabOp entries (.layersCreate layerName), KeepsPartial ⟨slab, entries⟩ o) :
    ∃ slab' entries', SlabStore.changeSlab slab entries (createPanDb layerName (entries.map Prod.snd)).2
        (SlabStore.slabOp entries (.layersCreate layerName)) = some (slab', 0) ∧ slab'.Holds entries' ∧
      (entries'.map Prod.snd).Perm (createPanDb layerName (entries.map Prod.snd)).2 := by
  cases hfound : getPanDbByLayerName (entries.map Prod.snd) layerName with
  | some db =>
    have hop : SlabStore.slabOp entries (.layersCreate layerName) = none := if_pos (.inl (by rw [hfound]; rfl))
    have hlayers : (createPanDb layerName (entries.map Prod.snd)).2 = entries.map Prod.snd := by
      rw [createPanDb, hfound]
    rw [hop, hlayers]
    exact ⟨slab, entries, h.unchanged, h, .refl _⟩
  | none =>
    by_cases hempty : cstr layerName = []
    · have hop : SlabStore.slabOp entries (.layersCreate layerName) = none := if_pos (.inr hempty)
      have hlayers : (createPanDb layerName (entries.map Prod.snd)).2 = entries.map Prod.snd := by
        rw [createPanDb, hfound]
        exact congrArg Prod.snd (if_pos hempty)
      rw [hop, hlayers]
      exact ⟨slab, entries, h.unchanged, h, .refl _⟩
    · have hop : SlabStore.slabOp entries (.layersCreate layerName) =
          some (.add true ⟨cstr layerName, Layer.initDb⟩) := if_neg (by rw [hfound]; simp [hempty])
      have hlayers : (createPanDb layerName (entries.map Prod.snd)).2 =
          entries.map Prod.snd ++ [⟨cstr layerName, Layer.initDb⟩] := by
        rw [createPanDb, hfound]
        exact congrArg Prod.snd (if_neg hempty)
      rw [hop] at hkeeps
      obtain ⟨slab', e, entries', hadd, hholds, hperm⟩ := h.add (hkeeps _ rfl)
      rw [hop, hlayers]
      refine ⟨slab', entries', by rw [SlabStore.changeSlab, hadd, Option.map_some], hholds, ?_⟩
      exact (hperm.map Prod.snd).trans (List.perm_append_singleton _ _).symm

/-- **A layer goes.** -/
theorem Slab.Holds.deleted (h : slab.Holds entries) (layerName : Key) :
    ∃ slab' entries', SlabStore.changeSlab slab entries
        ((entries.map Prod.snd).eraseP (fun layer => strEq layerName layer.name))
        (SlabStore.slabOp entries (.layersDelete layerName)) = some (slab', 0) ∧ slab'.Holds entries' ∧
      (entries'.map Prod.snd).Perm ((entries.map Prod.snd).eraseP (fun layer => strEq layerName layer.name)) := by
  cases hfind : entries.find? (fun p => strEq layerName p.2.name) with
  | none =>
    have hop : SlabStore.slabOp entries (.layersDelete layerName) = none := congrArg (Option.map _) hfind
    have hsame : (entries.map Prod.snd).eraseP (fun layer => strEq layerName layer.name) = entries.map Prod.snd := by
      refine List.eraseP_of_forall_not (List.forall_mem_map.2 (fun p hp => ?_))
      exact List.find?_eq_none.1 hfind p hp
    rw [hop, hsame]
    exact ⟨slab, entries, h.unchanged, h, .refl _⟩
  | some p =>
    have hop : SlabStore.slabOp entries (.layersDelete layerName) = some (.remove p.1) := congrArg (Option.map _) hfind
    obtain ⟨hname, pre, post, rfl, hpre⟩ := List.find?_eq_some_iff_append.1 hfind
    obtain ⟨slab', entries', hremove, hholds, hperm⟩ := h.remove (e := p.1) (by simp)
    refine ⟨slab', entries', by rw [hop, SlabStore.changeSlab, hremove], hholds, ?_⟩
    have hnodup := h.nodup
    rw [List.map_append, List.map_cons, List.nodup_middle, ← List.map_append] at hnodup
    have hothers : ∀ q ∈ pre ++ post, decide (q.1 ≠ p.1) = true := fun q hq =>
      decide_eq_true (fun heq => (List.nodup_cons.1 hnodup).1 (heq ▸ List.mem_map_of_mem hq))
    have hfilter : (pre ++ p :: post).filter (·.1 ≠ p.1) = pre ++ post := by
      rw [List.filter_append, List.filter_cons_of_neg (by simp), ← List.filter_append, List.filter_eq_self]
      exact hothers
    have herase : ((pre ++ p :: post).map Prod.snd).eraseP (fun layer => strEq layerName layer.name) =
        (pre ++ post).map Prod.snd := by
      rw [List.map_append, List.map_append, List.map_cons, List.eraseP_append_right]
      · exact congrArg (_ ++ ·) (List.eraseP_cons_of_pos hname)
      · exact List.forall_mem_map.2 (fun q hq => by simpa using hpre q hq)
    rw [herase, ← hfilter]
    exact hperm.map Prod.snd

end

section
variable [LinearOrder D] {store : SlabStore D} {entries : List (EntryPtr × Layer D)}

namespace SlabStore

theorem purgeExpiredKeys_spec (h : store.layersSlab.Holds entries) {env : PanDbEnv D Nat} {now : Int}
    {left : LayerStore D} (hpurge : LayerStore.purgeExpiredKeys env now (seen store.mem entries) = some left) :
    ∃ slab' entries', purgeExpiredKeys env now store = some ⟨left.mem, slab'⟩ ∧ slab'.Holds entries' ∧
      entries'.map Prod.snd = left.layers := by
  have hlength : left.layers.length = entries.length := by
    rw [length_purgeExpiredKeys hpurge, seen, List.length_map]
  obtain ⟨slab', entries', hchange, hholds, hlayers⟩ := h.changed hlength
  refine ⟨slab', entries', ?_, hholds, hlayers⟩
  simp only [purgeExpiredKeys, h.entries_eq, hpurge, hchange, Option.bind_eq_bind, Option.bind_some]

variable [Field D] {env : SearchEnv D Nat} {op : Op D}

/-- **The slab follows the list of the layers**, up to their order, as long as no layer is lost. -/
theorem workerDoWork_spec (h : store.layersSlab.Holds entries) (hkeeps : store.KeepsLayers (.operation op))
    {r : OpResult D} (hr : LayerStore.workerDoWork env op (seen store.mem entries) = some r) :
    ∃ slab' entries', workerDoWork env op store = some (⟨r.store.mem, slab'⟩, r.replies) ∧ slab'.Holds entries' ∧
      (entries'.map Prod.snd).Perm r.store.layers := by
  obtain ⟨slab', entries', hchange, hholds, hperm⟩ : ∃ slab' entries',
      changeSlab store.layersSlab entries r.store.layers (slabOp entries op.body) = some (slab', 0) ∧
      slab'.Holds entries' ∧ (entries'.map Prod.snd).Perm r.store.layers := by
    obtain ⟨r', hr', hstore⟩ := workerDoWork_store (congrArg (Option.map OpResult.store) hr)
    have hkeeps' := hkeeps entries h.entries_eq
    rw [← hstore]
    cases handleOp_layersAfter hr' with
    | created layerName hbody hlayers =>
      rw [hbody] at hkeeps' ⊢
      rw [hlayers]
      exact h.created hkeeps'
    | deleted layerName hbody hlayers =>
      rw [hbody, hlayers]
      exact h.deleted layerName
    | changed hother hlength =>
      obtain ⟨slab', entries', hchange, hholds, hlayers⟩ := h.changed (hlength.trans (List.length_map _))
      exact ⟨slab', entries', by rw [hother, hchange], hholds, .of_eq hlayers⟩
  refine ⟨slab', entries', ?_, hholds, hperm⟩
  simp only [workerDoWork, h.entries_eq, hr, hchange, Option.bind_eq_bind, Option.bind_some, if_true]

theorem exists_workerDoWork (h : store.layersSlab.Holds entries) {r : OpResult D}
    (hr : LayerStore.workerDoWork env op (seen store.mem entries) = some r) :
    ∃ p, workerDoWork env op store = some p := by
  obtain ⟨⟨slab', ret⟩, hchange⟩ := Option.isSome_iff_exists.1 (h.changes r.store.layers op.body)
  refine ⟨(⟨r.store.mem, slab'⟩, if ret = 0 then r.replies else replyTo op .error), ?_⟩
  simp only [workerDoWork, h.entries_eq, hr, hchange, Option.bind_eq_bind, Option.bind_some]

/-- **An operation that changes nothing** leaves the store as it is. -/
theorem workerDoWork_read (h : store.layersSlab.Holds entries) (hread : op.body.mutates = false) {r : OpResult D}
    (hr : LayerStore.workerDoWork env op (seen store.mem entries) = some r) (hstore : r.store = seen store.mem entries) :
    workerDoWork env op store = some (store, r.replies) := by
  have hother : slabOp entries op.body = none := by
    cases hbody : op.body with
    | layersCreate | layersDelete =>
      rw [hbody] at hread
      cases hread
    | _ => rfl
  have hchange : changeSlab store.layersSlab entries r.store.layers none = some (store.layersSlab, 0) := by
    rw [hstore]
    exact h.unchanged
  have hmem : r.store.mem = store.mem := by rw [hstore, seen]
  simp only [workerDoWork, h.entries_eq, hr, hother, hchange, hmem, Option.bind_eq_bind, Option.bind_some, if_true]

end SlabStore

end

end Pincaster
