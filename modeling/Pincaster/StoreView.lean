import Pincaster.Serving
/-!
# StoreView — what can be observed of a store

Two maps with the same bindings may be laid out in two ways, and a replacement that finds room in one of them may be
refused in the other.  Where there is room in both, a mutation of two stores that show the same leaves two stores that
show the same (`workerDoWork_view`).
-/
namespace Pincaster

open Lib (Bytes bytes unbound walk Along modifyAt strtol printInt)

variable {D : Type}

/-- What can be observed of a record: its position, its expiration and its properties. -/
def KeyNode.view (keyNode : KeyNode D) : Option (Position2D D) × Option Int × Option (Bytes → Option (Option Bytes)) :=
  (keyNode.slot, keyNode.expirable, keyNode.properties.map findInSlipMap)

/-- The store as far as it can be observed. -/
def Layers.view (layers : Layers D) (layerName : Key) :
    Option (Key → Option (Option (Position2D D) × Option Int × Option (Bytes → Option (Option Bytes)))) :=
  (layers layerName).map (fun keyNodes key => (keyNodes key).map KeyNode.view)

/-! ## Properties -/

/-- **Two maps of the same bindings**, or none. -/
def SameBinds (m m' : Option SlipMap) : Prop := m.isSome = m'.isSome ∧ ∃ binds, Holds m binds ∧ Holds m' binds

theorem findInSlipMap_holds {slip : SlipMap} {binds : Bytes → Option Bytes} (h : Holds (some slip) binds) :
    findInSlipMap slip = fun name => some (binds name) := by
  obtain ⟨ts, href⟩ := h
  exact funext (fun name => href.find name)

theorem SameBinds.find {m m' : Option SlipMap} (h : SameBinds m m') : m.map findInSlipMap = m'.map findInSlipMap := by
  obtain ⟨hsome, binds, hm, hm'⟩ := h
  cases m with
  | none =>
    cases m' with
    | none => rfl
    | some slip' => cases hsome
  | some slip =>
    cases m' with
    | none => cases hsome
    | some slip' => rw [Option.map_some, Option.map_some, findInSlipMap_holds hm, findInSlipMap_holds hm']

/-- Maps in order that are searched with the same results have the same bindings. -/
theorem WellFormed.sameBinds {m m' : Option SlipMap} (hm : WellFormed m) (hm' : WellFormed m')
    (h : m.map findInSlipMap = m'.map findInSlipMap) : SameBinds m m' := by
  obtain ⟨binds, hm⟩ := hm
  obtain ⟨binds', hm'⟩ := hm'
  cases m with
  | none =>
    cases m' with
    | none => exact ⟨rfl, binds, hm, hm⟩
    | some slip' => cases h
  | some slip =>
    cases m' with
    | none => cases h
    | some slip' =>
      rw [Option.map_some, Option.map_some, findInSlipMap_holds hm, findInSlipMap_holds hm', Option.some.injEq] at h
      obtain rfl : binds = binds' := funext (fun name => Option.some.inj (congrFun h name))
      exact ⟨rfl, binds, hm, hm'⟩

/-- A replacement for which there is room, in both. -/
theorem SameBinds.replace {m m' : Option SlipMap} (h : SameBinds m m') {key value : Bytes} (hs : Stored m key value)
    (hs' : Stored m' key value) : ∃ slip slip' new new', mapOrNew m = some slip ∧ mapOrNew m' = some slip' ∧
      replaceEntryInSlipMap slip key value = some (new, 0) ∧ replaceEntryInSlipMap slip' key value = some (new', 0) ∧
      SameBinds (some new) (some new') := by
  obtain ⟨-, binds, hm, hm'⟩ := h
  obtain ⟨slip, new, hslip, hrep, hholds⟩ := hm.stored hs
  obtain ⟨slip', new', hslip', hrep', hholds'⟩ := hm'.stored hs'
  exact ⟨slip, slip', new, new', hslip, hslip', hrep, hrep', rfl, _, hholds, hholds'⟩

theorem SameBinds.applyDelete {m m' : Option SlipMap} (h : SameBinds m m') {name : Bytes} (hname : KeyLen name)
    (value : Bytes) :
    ∃ r r', Pincaster.applyDelete m name value = some (0, r) ∧ Pincaster.applyDelete m' name value = some (0, r') ∧
      SameBinds r r' := by
  obtain ⟨hsome, binds, hm, hm'⟩ := h
  cases m with
  | none =>
    cases m' with
    | none => exact ⟨none, none, rfl, rfl, rfl, binds, hm, hm'⟩
    | some slip' => cases hsome
  | some slip =>
    cases m' with
    | none => cases hsome
    | some slip' =>
      unfold Pincaster.applyDelete
      simp only
      split
      · exact ⟨some slip, some slip', rfl, rfl, rfl, binds, hm, hm'⟩
      · obtain ⟨ts, href⟩ := hm
        obtain ⟨ts', href'⟩ := hm'
        obtain ⟨new, nts, hrem, hnew⟩ := href.remove hname
        obtain ⟨new', nts', hrem', hnew'⟩ := href'.remove hname
        rw [hrem, hrem']
        exact ⟨some new, some new', rfl, rfl, rfl, _, ⟨nts, hnew⟩, ⟨nts', hnew'⟩⟩

theorem SameBinds.applyDeleteAll {m m' : Option SlipMap} (h : SameBinds m m') (value : Bytes) :
    (Pincaster.applyDeleteAll m value).1 = 0 ∧ (Pincaster.applyDeleteAll m' value).1 = 0 ∧
      SameBinds (Pincaster.applyDeleteAll m value).2 (Pincaster.applyDeleteAll m' value).2 := by
  unfold Pincaster.applyDeleteAll
  split
  · exact ⟨rfl, rfl, h⟩
  · exact ⟨rfl, rfl, rfl, unbound, rfl, rfl⟩

/-- The replacement of an addition goes to the map there is, or to a new one. -/
theorem applyAddInt_eq {m : Option SlipMap} {binds : Bytes → Option Bytes} (h : Holds m binds) (name value : Bytes) :
    applyAddInt m name value =
      if value.length ≤ 0 ∨ value.head? = some 0 ∨ value.length ≥ sizeofNumber then some (0, m)
      else if ((binds name).getD (bytes "0")).length ≥ sizeofNumber then some (0, m)
      else ((mapOrNew m).bind (fun slip => replaceEntryInSlipMap slip name
        (printInt 10 (toIntmax ((strtol 10 ((binds name).getD (bytes "0"))).1 + (strtol 10 value).1))))).map
          (fun r => (0, some r.1)) := by
  rw [applyAddInt, numValueOf_holds h, Option.bind_eq_bind, Option.bind_some]
  split
  · rfl
  · split
    · rfl
    · cases m with
      | some slip => rfl
      | none =>
        obtain ⟨slip, hnew⟩ : ∃ slip, newSlipMap PROPERTIES_DEFAULT_SLIP_MAP_BUFFER_SIZE = some (some slip) := ⟨_, rfl⟩
        simp only [mapOrNew, hnew, Option.bind_eq_bind, Option.bind_some, Option.join_some]

theorem SameBinds.applyAddInt {m m' : Option SlipMap} (h : SameBinds m m') {key value : Bytes}
    (hadd : hasPrefix key INT_PROPERTY_ADD_INT_PREFIX = true) (hs : SpecialStored m key value)
    (hs' : SpecialStored m' key value) : ∃ r r',
      Pincaster.applyAddInt m (key.drop INT_PROPERTY_ADD_INT_PREFIX.length) value = some (0, r) ∧
      Pincaster.applyAddInt m' (key.drop INT_PROPERTY_ADD_INT_PREFIX.length) value = some (0, r') ∧ SameBinds r r' := by
  obtain ⟨hsome, binds, hm, hm'⟩ := id h
  rw [applyAddInt_eq hm, applyAddInt_eq hm']
  split
  · exact ⟨m, m', rfl, rfl, h⟩
  · split
    · exact ⟨m, m', rfl, rfl, h⟩
    · have hstored := hs hadd
      have hstored' := hs' hadd
      rw [numValueOf_holds hm] at hstored
      rw [numValueOf_holds hm'] at hstored'
      obtain ⟨slip, slip', new, new', hslip, hslip', hrep, hrep', hbinds⟩ := h.replace hstored hstored'
      rw [hslip, hslip', Option.bind_some, Option.bind_some, hrep, hrep']
      exact ⟨some new, some new', rfl, rfl, hbinds⟩

/-- **One special property**, with room in both maps. -/
theorem SameBinds.special {m m' : Option SlipMap} (h : SameBinds m m') {key value : Bytes} (hkey : KeyLen key)
    (hhead : key.head? = some INT_PROPERTY_COMMON_PREFIX) (hs : SpecialStored m key value)
    (hs' : SpecialStored m' key value) : ∃ r r', recordsPutApplySpecialPropertiesCb m key value = some (0, r) ∧
      recordsPutApplySpecialPropertiesCb m' key value = some (0, r') ∧ SameBinds r r' := by
  have hno : ¬ key.head? ≠ some INT_PROPERTY_COMMON_PREFIX := fun hne => hne hhead
  unfold recordsPutApplySpecialPropertiesCb
  rw [if_neg hno, if_neg hno]
  split
  · rename_i hdelete
    exact h.applyDelete (keyLen_drop hkey hdelete) value
  · split
    · obtain ⟨hret, hret', hbinds⟩ := h.applyDeleteAll value
      exact ⟨_, _, congrArg some (Prod.ext hret rfl), congrArg some (Prod.ext hret' rfl), hbinds⟩
    · split
      · rename_i hadd
        exact h.applyAddInt hadd hs hs'
      · exact ⟨m, m', rfl, rfl, h⟩

/-- One ordinary property that is merged in, with room in both maps. -/
theorem SameBinds.merge {target target' : SlipMap} (h : SameBinds (some target) (some target')) {key value : Bytes}
    (hkey : KeyLen key) (hhead : key.head? ≠ some INT_PROPERTY_COMMON_PREFIX) (hs : MergeStored target key value)
    (hs' : MergeStored target' key value) : ∃ r r', recordsPutMergePropertiesCb target key value = some (0, r) ∧
      recordsPutMergePropertiesCb target' key value = some (0, r') ∧ SameBinds (some r) (some r') := by
  obtain ⟨slip, slip', new, new', hslip, hslip', hrep, hrep', hbinds⟩ := h.replace hs hs'
  obtain rfl := Option.some.inj hslip
  obtain rfl := Option.some.inj hslip'
  obtain ⟨c, rest, rfl⟩ := List.exists_cons_of_ne_nil (List.ne_nil_of_length_pos hkey.1)
  rw [recordsPutMergePropertiesCb, if_neg (fun hc => hhead (congrArg some hc)), hrep, recordsPutMergePropertiesCb,
    if_neg (fun hc => hhead (congrArg some hc)), hrep']
  exact ⟨new, new', rfl, rfl, hbinds⟩

/-- **The properties of a PUT**, with room in both maps. -/
theorem SameBinds.putProperties {m m' : Option SlipMap} (h : SameBinds m m') {putOp : RecordsPutOp D}
    (hop : PutOpOk putOp)
    (hs : UpdatesSucceed m putOp) (hs' : UpdatesSucceed m' putOp) : ∃ r r',
      Pincaster.putProperties m putOp = some r ∧ Pincaster.putProperties m' putOp = some r' ∧ SameBinds r r' := by
  obtain ⟨target, target', hwalk, hwalk', hbinds⟩ := Lib.walk_along₂ SameBinds (visited putOp.specialProperties)
    (fun p hp m m' h hs hs' => h.special (hop.specials.keyLen hp).1 (hop.special p hp) hs hs') m m' h hs.1 hs'.1
  have hspecial : slipMapForeachCb putOp.specialProperties recordsPutApplySpecialPropertiesCb m = some target := by
    rw [hop.specials.foreach, hwalk, Option.map_some]
  have hspecial' : slipMapForeachCb putOp.specialProperties recordsPutApplySpecialPropertiesCb m' = some target' := by
    rw [hop.specials.foreach, hwalk', Option.map_some]
  have hmerge := hs.2
  have hmerge' := hs'.2
  rw [hspecial] at hmerge
  rw [hspecial'] at hmerge'
  rw [Pincaster.putProperties, Pincaster.putProperties, hspecial, hspecial', Option.bind_eq_bind, Option.bind_some,
    Option.bind_some]
  cases target with
  | none =>
    cases target' with
    | none =>
      obtain ⟨binds, hholds⟩ := hop.properties
      exact ⟨putOp.properties, putOp.properties, rfl, rfl, rfl, binds, hholds, hholds⟩
    | some target' => cases hbinds.1
  | some target =>
    cases target' with
    | none => cases hbinds.1
    | some target' =>
      obtain ⟨r, r', hwalk, hwalk', hbinds⟩ := Lib.walk_along₂ (fun t t' => SameBinds (some t) (some t'))
        (visited putOp.properties) (fun p hp t t' h hs hs' => h.merge (hop.properties.keyLen hp).1
          (hop.ordinary p hp) hs hs')
        target target' hbinds hmerge hmerge'
      simp only
      rw [hop.properties.foreach, hop.properties.foreach, hwalk, hwalk']
      exact ⟨some r, some r', rfl, rfl, hbinds⟩

/-! ## Stores -/

/-- Two records that show the same, and whose maps are in order. -/
theorem KeyNode.sameBinds {keyNode keyNode' : KeyNode D} (h : keyNode.view = keyNode'.view)
    (hwf : WellFormed keyNode.properties) (hwf' : WellFormed keyNode'.properties) :
    keyNode.slot = keyNode'.slot ∧ SameBinds keyNode.properties keyNode'.properties := by
  simp only [KeyNode.view, Prod.mk.injEq] at h
  exact ⟨h.1, hwf.sameBinds hwf' h.2.2⟩

/-- There is room for a PUT in the map of its record, in both stores, or the two maps are the same. -/
def RoomIn (layers layers' : Layers D) : OpBody D → Prop
  | .recordsPut putOp =>
    let m := propertiesOf layers putOp.layerName putOp.key
    let m' := propertiesOf layers' putOp.layerName putOp.key
    m = m' ∨ UpdatesSucceed m putOp ∧ UpdatesSucceed m' putOp
  | _ => True

variable [Dimension D]

/-- **A PUT** of two records that show the same. -/
theorem putKeyNode_view (qbounds : Rectangle2D D) {putOp : RecordsPutOp D} (hop : PutOpOk putOp)
    {keyNode keyNode' : KeyNode D} (hslot : keyNode.slot = keyNode'.slot)
    (hbinds : SameBinds keyNode.properties keyNode'.properties)
    (hroom : keyNode.properties = keyNode'.properties ∨
      UpdatesSucceed keyNode.properties putOp ∧ UpdatesSucceed keyNode'.properties putOp) :
    ∃ new new', putKeyNode qbounds putOp keyNode = some new ∧ putKeyNode qbounds putOp keyNode' = some new' ∧
      new.view = new'.view := by
  obtain ⟨r, r', hput, hput', hfind⟩ : ∃ r r', putProperties keyNode.properties putOp = some r ∧
      putProperties keyNode'.properties putOp = some r' ∧ r.map findInSlipMap = r'.map findInSlipMap := by
    rcases hroom with heq | ⟨hs, hs'⟩
    · obtain ⟨r, hr, -⟩ := putProperties_wellFormed ⟨_, hbinds.2.choose_spec.1⟩ hop
      exact ⟨r, r, hr, heq ▸ hr, rfl⟩
    · obtain ⟨r, r', hr, hr', h⟩ := hbinds.putProperties hop hs hs'
      exact ⟨r, r', hr, hr', h.find⟩
  refine ⟨_, _, by rw [putKeyNode, hput, Option.map_some], by rw [putKeyNode, hput', Option.map_some], ?_⟩
  simp only [KeyNode.view, hslot, hfind]

omit [Dimension D] in
theorem view_update {layers layers' : Layers D} (h : layers.view = layers'.view) (layerName : Key)
    {keyNodes keyNodes' : Option (KeyNodes D)}
    (hlayer : keyNodes.map (fun keyNodes key => (keyNodes key).map KeyNode.view) =
      keyNodes'.map (fun keyNodes key => (keyNodes key).map KeyNode.view)) :
    Layers.view (Function.update layers layerName keyNodes) = Layers.view
      (Function.update layers' layerName keyNodes') := by
  funext name
  unfold Layers.view
  by_cases hname : name = layerName
  · rw [hname, Function.update_self, Function.update_self, hlayer]
  · rw [Function.update_of_ne hname, Function.update_of_ne hname]
    exact congrFun h name

omit [Dimension D] in
theorem records_update {keyNodes keyNodes' : KeyNodes D}
    (h : (fun key => (keyNodes key).map KeyNode.view) = fun key => (keyNodes' key).map KeyNode.view) (key : Key)
    {keyNode keyNode' : Option (KeyNode D)} (hnode : keyNode.map KeyNode.view = keyNode'.map KeyNode.view) :
    (fun name => (Function.update keyNodes key keyNode name).map KeyNode.view) =
      fun name => (Function.update keyNodes' key keyNode' name).map KeyNode.view := by
  funext name
  by_cases hname : name = key
  · rw [hname, Function.update_self, Function.update_self, hnode]
  · rw [Function.update_of_ne hname, Function.update_of_ne hname]
    exact congrFun h name

omit [Dimension D] in
/-- A layer is in both stores, with records that show the same, or in neither. -/
theorem layer_of_view {layers layers' : Layers D} (h : layers.view = layers'.view) (layerName : Key) :
    (layers layerName = none ∧ layers' layerName = none) ∨ ∃ keyNodes keyNodes', layers layerName = some keyNodes ∧
      layers' layerName = some keyNodes' ∧
      (fun key => (keyNodes key).map KeyNode.view) = fun key => (keyNodes' key).map KeyNode.view := by
  have hlayer := congrFun h layerName
  unfold Layers.view at hlayer
  cases hl : layers layerName with
  | none =>
    rw [hl, Option.map_none] at hlayer
    exact .inl ⟨rfl, Option.map_eq_none_iff.1 hlayer.symm⟩
  | some keyNodes =>
    rw [hl, Option.map_some] at hlayer
    obtain ⟨keyNodes', hl', heq⟩ := Option.map_eq_some_iff.1 hlayer.symm
    exact .inr ⟨keyNodes, keyNodes', rfl, hl', heq.symm⟩

omit [Dimension D] in
theorem propertiesOf_eq {layers : Layers D} {layerName : Key} {keyNodes : KeyNodes D}
    (h : layers layerName = some keyNodes)
    (key : Key) : propertiesOf layers layerName key = ((keyNodes key).getD newKeyNode).properties := by
  rw [propertiesOf, h, Option.bind_some]
  cases keyNodes key <;> rfl

/-- **A mutation of two stores that show the same** leaves two stores that show the same, where there is room in both.
-/
theorem workerDoWork_view (qbounds : Rectangle2D D) {layers layers' : Layers D} (hok : StoreOk layers)
    (hok' : StoreOk layers') (h : layers.view = layers'.view) {body : OpBody D} (hbody : BodyOk body)
    (hroom : RoomIn layers layers' body) : ∃ new new', workerDoWork qbounds body layers = some new ∧
      workerDoWork qbounds body layers' = some new' ∧ new.view = new'.view := by
  cases body with
  | layersCreate layerName =>
    refine ⟨_, _, rfl, rfl, ?_⟩
    unfold handleOpLayersCreate registerLayer
    rcases layer_of_view h layerName with ⟨hl, hl'⟩ | ⟨keyNodes, keyNodes', hl, hl', -⟩
    · rw [hl, hl']
      simp only
      split_ifs
      · exact h
      · exact view_update h layerName rfl
    · rw [hl, hl']
      exact h
  | layersDelete layerName =>
    refine ⟨_, _, rfl, rfl, ?_⟩
    unfold handleOpLayersDelete
    rcases layer_of_view h layerName with ⟨hl, hl'⟩ | ⟨keyNodes, keyNodes', hl, hl', -⟩
    · rw [hl, hl']
      exact h
    · rw [hl, hl']
      exact view_update h layerName rfl
  | recordsPut putOp =>
    simp only [workerDoWork, handleOpRecordsPut]
    rcases layer_of_view h putOp.layerName with ⟨hl, hl'⟩ | ⟨keyNodes, keyNodes', hl, hl', hkeys⟩
    · rw [hl, hl']
      exact ⟨layers, layers', rfl, rfl, h⟩
    · rw [RoomIn, propertiesOf_eq hl, propertiesOf_eq hl'] at hroom
      have hwf : ∀ {layers : Layers D} {keyNodes : KeyNodes D}, StoreOk layers →
          layers putOp.layerName = some keyNodes →
          WellFormed ((keyNodes putOp.key).getD newKeyNode).properties := by
        intro layers keyNodes hok hl
        cases hk : keyNodes putOp.key with
        | none => exact wellFormed_none
        | some keyNode => exact (hok.record hl hk).2
      have hview : ((keyNodes putOp.key).getD newKeyNode).view = ((keyNodes' putOp.key).getD newKeyNode).view := by
        have hkey : (keyNodes putOp.key).map KeyNode.view = (keyNodes' putOp.key).map KeyNode.view :=
          congrFun hkeys putOp.key
        rw [← Option.getD_map KeyNode.view, ← Option.getD_map KeyNode.view, hkey]
      obtain ⟨hslot, hbinds⟩ := KeyNode.sameBinds hview (hwf hok hl) (hwf hok' hl')
      obtain ⟨new, new', hput, hput', hnode⟩ := putKeyNode_view qbounds hbody.1 hslot hbinds hroom
      simp only [hl, hl', hput, hput', Option.bind_eq_bind, Option.bind_some, Option.map_some]
      exact ⟨_, _, rfl, rfl, view_update h _ (congrArg some (records_update hkeys _ (congrArg some hnode)))⟩
  | recordsDelete layerName key =>
    refine ⟨_, _, rfl, rfl, ?_⟩
    unfold handleOpRecordsDelete
    rcases layer_of_view h layerName with ⟨hl, hl'⟩ | ⟨keyNodes, keyNodes', hl, hl', hkeys⟩
    · rw [hl, hl']
      exact h
    · have hkey : (keyNodes key).map KeyNode.view = (keyNodes' key).map KeyNode.view := congrFun hkeys key
      rw [hl, hl']
      simp only
      cases hk : keyNodes key with
      | none =>
        rw [hk, Option.map_none] at hkey
        rw [Option.map_eq_none_iff.1 hkey.symm]
        exact h
      | some keyNode =>
        rw [hk, Option.map_some] at hkey
        obtain ⟨keyNode', hk', -⟩ := Option.map_eq_some_iff.1 hkey.symm
        rw [hk']
        exact view_update h _ (congrArg some (records_update hkeys _ rfl))
  | systemPing | layersIndex | recordsGet | searchNearby | searchInRect | searchInKeys =>
    exact ⟨layers, layers', rfl, rfl, h⟩

/-- A replay of operations of requests has a result, a store in order. -/
theorem replay_storeOk (qbounds : Rectangle2D D) : ∀ {bodies : List (OpBody D)} {layers : Layers D}, StoreOk layers →
    (∀ body ∈ bodies, BodyOk body) → ∃ layers', Lib.replay (workerDoWork qbounds) bodies layers = some layers' ∧
      StoreOk layers'
  | [], layers, hok, _ => ⟨layers, rfl, hok⟩
  | body :: bodies, layers, hok, hbodies => by
    obtain ⟨layers₁, hwork, hok₁⟩ := hok.work qbounds (hbodies body List.mem_cons_self)
    obtain ⟨layers', hreplay, hok'⟩ := replay_storeOk qbounds hok₁ (fun b hb => hbodies b (List.mem_cons_of_mem _ hb))
    exact ⟨layers', by rw [Lib.replay_cons, hwork, Option.bind_some, hreplay], hok'⟩

end Pincaster
