import Pincaster.RecordReread
/-!
# DumpReplay — the store that the replay of a dump makes

The requests of a dump are its parts: the creation of each layer, and behind it a PUT for each of its records.  Replayed
from an empty store they make no layer and no record that they do not name (`restoreParts_layers`, `restoreParts_frame`),
and where no two of them are put under one key each record is the one of its own PUT (`restoreParts_put`).
-/
namespace Pincaster

open Lib (Bytes bytes cstr)

variable {D : Type}

/-! ## The parts of a dump -/

/-- A request of a dump: the creation of a layer, or the PUT of one of its records. -/
inductive DumpPart (D : Type) where
  | create (layer : DumpedLayer D)
  | put (layer : DumpedLayer D) (record : DumpedRecord D)

def layerParts (layer : DumpedLayer D) : List (DumpPart D) := .create layer :: layer.records.map (.put layer)

def dumpParts (layers : List (DumpedLayer D)) : List (DumpPart D) := layers.flatMap layerParts

theorem mem_dumpParts {layers : List (DumpedLayer D)} {part : DumpPart D} : part ∈ dumpParts layers ↔
    ∃ layer ∈ layers, part = .create layer ∨ ∃ record ∈ layer.records, part = .put layer record := by
  unfold dumpParts layerParts
  simp only [List.mem_flatMap, List.mem_cons, List.mem_map, eq_comm]

/-- **Every record stands behind its layer.** -/
theorem dumpParts_split {layers : List (DumpedLayer D)} {layer : DumpedLayer D} (hlayer : layer ∈ layers)
    {record : DumpedRecord D} (hrecord : record ∈ layer.records) :
    ∃ before after, dumpParts layers = before ++ .put layer record :: after ∧ .create layer ∈ before := by
  obtain ⟨layers₁, layers₂, rfl⟩ := List.append_of_mem hlayer
  obtain ⟨records₁, records₂, hrecords⟩ := List.append_of_mem hrecord
  refine ⟨dumpParts layers₁ ++ .create layer :: records₁.map (.put layer),
    records₂.map (.put layer) ++ dumpParts layers₂, ?_, by simp⟩
  simp [dumpParts, layerParts, hrecords]

/-- The name of the layer that a part creates. -/
def DumpPart.name : DumpPart D → Option Bytes
  | .create layer => some layer.name
  | .put _ _ => none

/-- The layer and the key of the record of a part. -/
def DumpPart.key : DumpPart D → Option (Bytes × Bytes)
  | .create _ => none
  | .put layer record => some (layer.name, record.key)

/-- The key of a layer, decoded once more. -/
def rereadName (p : Bytes × Bytes) : Option (Bytes × Bytes) := (rereadKey p.2).map (p.1, ·)

/-- The layer and the key that a part is put under. -/
def DumpPart.restored (part : DumpPart D) : Option (Bytes × Bytes) := part.key.bind rereadName

theorem restored_put {layer : DumpedLayer D} {record : DumpedRecord D} {stem : Bytes}
    (h : rereadKey record.key = some stem) : (DumpPart.put layer record).restored = some (layer.name, stem) := by
  rw [DumpPart.restored, DumpPart.key, Option.bind_some, rereadName, h, Option.map_some]

/-- Every part is one or the other. -/
theorem length_parts (parts : List (DumpPart D)) :
    parts.length = (parts.filterMap DumpPart.name).length + (parts.filterMap DumpPart.key).length := by
  induction parts with
  | nil => rfl
  | cons part parts ih =>
    cases part with
    | create layer =>
      simp only [List.filterMap_cons, DumpPart.name, DumpPart.key, List.length_cons]
      omega
    | put layer record =>
      simp only [List.filterMap_cons, DumpPart.name, DumpPart.key, List.length_cons]
      omega

/-- The names and the keys of a dump. -/
theorem dumpParts_names (layers : List (DumpedLayer D)) :
    (dumpParts layers).filterMap DumpPart.name = layers.map DumpedLayer.name ∧
    (dumpParts layers).filterMap DumpPart.key =
      layers.flatMap (fun layer => layer.records.map (fun record => (layer.name, record.key))) := by
  have hputs : ∀ layer : DumpedLayer D, (layer.records.map (DumpPart.put layer)).filterMap DumpPart.name = [] ∧
      (layer.records.map (DumpPart.put layer)).filterMap DumpPart.key =
        layer.records.map (fun record => (layer.name, record.key)) := fun layer => by
    rw [List.filterMap_map, List.filterMap_map]
    exact ⟨List.filterMap_eq_nil_iff.2 (fun _ _ => rfl), congrFun List.filterMap_eq_map layer.records⟩
  unfold dumpParts layerParts
  rw [List.filterMap_flatMap, List.filterMap_flatMap]
  constructor
  · rw [List.map_eq_flatMap]
    refine congrArg (fun f => List.flatMap f layers) (funext fun layer => ?_)
    exact congrArg (layer.name :: ·) (hputs layer).1
  · refine congrArg (fun f => List.flatMap f layers) (funext fun layer => ?_)
    exact (hputs layer).2

section
variable [Dimension D] (qbounds : Rectangle2D D) (context : DumpContext D)

def DumpPart.request : DumpPart D → LoggedRequest
  | .create layer => layerRequest context layer
  | .put layer record => recordRequest context layer record

/-- The operation it queues, unless it is refused. -/
def DumpPart.body : DumpPart D → Option (OpBody D)
  | .create layer => some (.layersCreate (layer.name ++ [0]))
  | .put layer record => (restoredOp context layer record).map .recordsPut

omit [Dimension D] in
theorem dumpItems_parts (layers : List (DumpedLayer D)) :
    (dumpItems context layers).filterMap LogItem.request? = (dumpParts layers).map (DumpPart.request context) := by
  have htime : (if layers = [] then [] else [LogItem.timestamp context.now]).filterMap LogItem.request? = [] := by
    split <;> rfl
  unfold dumpItems dumpParts layerParts
  rw [List.filterMap_append, htime, List.nil_append, List.filterMap_flatMap, List.map_flatMap]
  refine congrArg (fun f => List.flatMap f layers) (funext fun layer => ?_)
  have hrecords : ∀ records : List (DumpedRecord D),
      (records.map (fun record => LogItem.request (recordRequest context layer record))).filterMap LogItem.request? =
        (records.map (DumpPart.put layer)).map (DumpPart.request context) := fun records => by
    rw [List.filterMap_map, List.map_map]
    exact congrFun List.filterMap_eq_map records
  rw [List.map_cons, ← hrecords]
  rfl

/-- A part, worked on. -/
def restorePart (layers : Layers D) (part : DumpPart D) : Option (Layers D) :=
  (part.body context).bind (fun body => workerDoWork qbounds body layers)

variable {qbounds context} {base encodedPublicBaseUri : Bytes}

/-- **The parts of a dump are replayed one by one.** -/
theorem replayRequests_parts {tries : Nat} (htries : 0 < tries) : ∀ {parts : List (DumpPart D)}
    {main : HttpHandlerContext D} {layers : Layers D}, (∀ part ∈ parts, ∃ body, part.body context = some body ∧ BodyOk body ∧
      AcceptedAs D base encodedPublicBaseUri (part.request context) body) → Idle base main layers →
    ∃ main' layers', parts.foldlM (restorePart qbounds context) layers = some layers' ∧
      replayRequests encodedPublicBaseUri qbounds tries (parts.map (DumpPart.request context)) main layers =
        some (.done (main', layers'))
  | [], main, layers, _, _ => ⟨main, layers, rfl, rfl⟩
  | part :: parts, main, layers, hparts, hidle => by
    obtain ⟨body, hbody, hok, haccept⟩ := hparts part List.mem_cons_self
    obtain ⟨main₁, layers₁, hwork, hfake, hidle₁⟩ := fakeRequest_as qbounds hok haccept hidle htries
    obtain ⟨main', layers', hrestored, hreplay⟩ := replayRequests_parts htries
      (fun p hp => hparts p (List.mem_cons_of_mem part hp)) hidle₁
    refine ⟨main', layers', ?_, ?_⟩
    · rw [List.foldlM_cons, restorePart, hbody, Option.bind_some, hwork]
      exact hrestored
    · rw [List.map_cons, replayRequests, hfake]
      exact hreplay

/-! ## What a part does to the store -/

/-- **A creation** makes its layer, without a record. -/
theorem restorePart_create {layers layers' : Layers D} {layer : DumpedLayer D} (hname : LayerName layer.name)
    (h : restorePart qbounds context layers (.create layer) = some layers') :
    (∀ name, layers' name ≠ none ↔ layers name ≠ none ∨ name = layer.name ++ [0]) ∧ recordOf layers' = recordOf layers := by
  obtain rfl := Option.some.inj h
  unfold handleOpLayersCreate registerLayer
  have hempty : cstr (layer.name ++ [0]) ≠ [] := by
    rw [cstr_snoc hname.nul]
    exact hname.ne_nil
  cases hlayer : layers (layer.name ++ [0]) with
  | some keyNodes =>
    refine ⟨fun name => (or_iff_left_of_imp ?_).symm, rfl⟩
    rintro rfl
    have hsome : layers (layer.name ++ [0]) ≠ none := by
      rw [hlayer]
      exact Option.some_ne_none keyNodes
    exact hsome
  | none =>
    simp only [if_neg hempty]
    refine ⟨fun name => ?_, funext fun name => funext fun key => ?_⟩
    · by_cases hsame : name = layer.name ++ [0]
      · subst hsame
        simp
      · simp [hsame]
    · rw [recordOf_update]
      split
      · rename_i hsame
        rw [recordOf, hsame, hlayer]
        rfl
      · rfl

/-- **A PUT** makes no layer, and changes one record of a layer that is there. -/
theorem restorePart_put {layers layers' : Layers D} {layer : DumpedLayer D} {record : DumpedRecord D}
    (h : restorePart qbounds context layers (.put layer record) = some layers') : ∃ putOp stem,
      restoredOp context layer record = some putOp ∧ rereadKey record.key = some stem ∧
      (∀ name, layers' name ≠ none ↔ layers name ≠ none) ∧
      (∀ name key, ¬ (name = layer.name ++ [0] ∧ key = stem ++ [0]) → recordOf layers' name key = recordOf layers name key) ∧
      (layers (layer.name ++ [0]) ≠ none → recordOf layers' (layer.name ++ [0]) (stem ++ [0]) =
        putKeyNode qbounds putOp ((recordOf layers (layer.name ++ [0]) (stem ++ [0])).getD newKeyNode)) := by
  obtain ⟨body, hbody, hwork⟩ := Option.bind_eq_some_iff.1 h
  obtain ⟨putOp, hop, rfl⟩ := Option.map_eq_some_iff.1 hbody
  obtain ⟨stem, hstem, hread⟩ := restoredOp_eq_some.1 hop
  have hfields := walk_fields (readBack_walk hread)
  have hlayer : putOp.layerName = layer.name ++ [0] := hfields.layerName
  have hkey : putOp.key = stem ++ [0] := hfields.key
  refine ⟨putOp, stem, hop, hstem, ?_⟩
  obtain ⟨r, hput, rfl⟩ := Option.map_eq_some_iff.1 hwork
  unfold handleOpRecordsPut at hput
  rw [hlayer, hkey] at hput
  cases hlayers : layers (layer.name ++ [0]) with
  | none =>
    rw [hlayers] at hput
    cases hput
    exact ⟨fun name => Iff.rfl, fun name key _ => rfl, fun hne => absurd rfl hne⟩
  | some keyNodes =>
    rw [hlayers] at hput
    obtain ⟨keyNode, hnode, hput⟩ := Option.bind_eq_some_iff.1 hput
    cases hput
    dsimp only
    refine ⟨fun name => ?_, fun name key hne => ?_, fun _ => ?_⟩
    · by_cases hsame : name = layer.name ++ [0]
      · subst hsame
        simp [hlayers]
      · simp [hsame]
    · rw [recordOf_update]
      split
      · rename_i hsame
        rw [Option.bind_some, Function.update_of_ne (fun hkey => hne ⟨hsame, hkey⟩), recordOf, hsame, hlayers]
        rfl
      · rfl
    · rw [recordOf_update, if_pos rfl, Option.bind_some, Function.update_self, recordOf, hlayers, Option.bind_some, hnode]

/-! ## What the parts do one after the other -/

/-- **The layers are those that are created.** -/
theorem restoreParts_layers : ∀ {parts : List (DumpPart D)} {layers layers' : Layers D},
    (∀ layer, .create layer ∈ parts → LayerName layer.name) → parts.foldlM (restorePart qbounds context) layers = some layers' →
    ∀ name, layers' name ≠ none ↔ layers name ≠ none ∨ ∃ layer, .create layer ∈ parts ∧ name = layer.name ++ [0]
  | [], layers, layers', _, h, name => by
    obtain rfl := Option.some.inj h
    simp
  | part :: parts, layers, layers', hnames, h, name => by
    rw [List.foldlM_cons] at h
    obtain ⟨layers₁, hpart, hparts⟩ := Option.bind_eq_some_iff.1 h
    rw [restoreParts_layers (fun layer hlayer => hnames layer (List.mem_cons_of_mem part hlayer)) hparts name]
    cases part with
    | create layer =>
      rw [(restorePart_create (hnames layer List.mem_cons_self) hpart).1 name, or_assoc]
      simp only [List.mem_cons, DumpPart.create.injEq, or_and_right, exists_or, exists_eq_left]
    | put layer record =>
      obtain ⟨putOp, stem, -, -, hlayers, -⟩ := restorePart_put hpart
      rw [hlayers name]
      simp only [List.mem_cons, reduceCtorEq, false_or]

/-- **A record that no part is put under stays as it is.** -/
theorem restoreParts_frame {name key : Key} : ∀ {parts : List (DumpPart D)} {layers layers' : Layers D},
    (∀ layer, .create layer ∈ parts → LayerName layer.name) → parts.foldlM (restorePart qbounds context) layers = some layers' →
    (∀ part ∈ parts, ∀ p ∈ part.restored, ¬ (name = p.1 ++ [0] ∧ key = p.2 ++ [0])) →
    recordOf layers' name key = recordOf layers name key
  | [], layers, layers', _, h, _ => by
    obtain rfl := Option.some.inj h
    rfl
  | part :: parts, layers, layers', hnames, h, hno => by
    rw [List.foldlM_cons] at h
    obtain ⟨layers₁, hpart, hparts⟩ := Option.bind_eq_some_iff.1 h
    rw [restoreParts_frame (fun layer hlayer => hnames layer (List.mem_cons_of_mem part hlayer)) hparts
      (fun p hp => hno p (List.mem_cons_of_mem part hp))]
    have hpartNo := hno part List.mem_cons_self
    cases part with
    | create layer => rw [(restorePart_create (hnames layer List.mem_cons_self) hpart).2]
    | put layer record =>
      obtain ⟨putOp, stem, -, hstem, -, hframe, -⟩ := restorePart_put hpart
      exact hframe _ _ (hpartNo (layer.name, stem) (restored_put hstem))

/-- **The records are those that are put.** -/
theorem restoreParts_records {parts : List (DumpPart D)} {layers' : Layers D}
    (hnames : ∀ layer, .create layer ∈ parts → LayerName layer.name)
    (h : parts.foldlM (restorePart qbounds context) (fun _ => none) = some layers') {name key : Key}
    (hrecord : recordOf layers' name key ≠ none) :
    ∃ p ∈ parts.filterMap DumpPart.restored, name = p.1 ++ [0] ∧ key = p.2 ++ [0] := by
  by_contra hno
  refine hrecord ((restoreParts_frame hnames h (fun part hpart p hp heq => hno ⟨p, ?_, heq⟩)).trans rfl)
  exact List.mem_filterMap.2 ⟨part, hpart, hp⟩

/-- **A record that one part alone is put under** is the one of that PUT. -/
theorem restoreParts_put {parts before after : List (DumpPart D)} {layers layers' : Layers D} {layer : DumpedLayer D}
    {record : DumpedRecord D} (hparts : parts = before ++ .put layer record :: after) (hcreate : .create layer ∈ before)
    (hnames : ∀ layer, .create layer ∈ parts → LayerName layer.name) (hnodup : (parts.filterMap DumpPart.restored).Nodup)
    (hempty : ∀ name key, recordOf layers name key = none)
    (h : parts.foldlM (restorePart qbounds context) layers = some layers') : ∃ putOp stem,
      restoredOp context layer record = some putOp ∧ rereadKey record.key = some stem ∧
      recordOf layers' (layer.name ++ [0]) (stem ++ [0]) = putKeyNode qbounds putOp newKeyNode := by
  subst hparts
  rw [List.foldlM_append] at h
  obtain ⟨layers₁, hbefore, h⟩ := Option.bind_eq_some_iff.1 h
  rw [List.foldlM_cons] at h
  obtain ⟨layers₂, hpart, hafter⟩ := Option.bind_eq_some_iff.1 h
  obtain ⟨putOp, stem, hop, hstem, -, -, hput⟩ := restorePart_put hpart
  rw [List.filterMap_append, List.filterMap_cons_some (restored_put hstem), List.nodup_middle, List.nodup_cons, List.mem_append,
    not_or] at hnodup
  have hnamesBefore := fun layer hlayer => hnames layer (List.mem_append_left _ hlayer)
  have hnamesAfter := fun layer' hlayer => hnames layer'
    (List.mem_append_right before (List.mem_cons_of_mem (DumpPart.put layer record) hlayer))
  have hother : ∀ {parts : List (DumpPart D)}, (layer.name, stem) ∉ parts.filterMap DumpPart.restored →
      ∀ part ∈ parts, ∀ p ∈ part.restored, ¬ (layer.name ++ [0] = p.1 ++ [0] ∧ stem ++ [0] = p.2 ++ [0]) := by
    intro parts hno part hpart p hp heq
    obtain rfl : (layer.name, stem) = p := Prod.ext (List.append_cancel_right heq.1) (List.append_cancel_right heq.2)
    exact hno (List.mem_filterMap.2 ⟨part, hpart, hp⟩)
  have hframe := restoreParts_frame hnamesBefore hbefore (hother hnodup.1.1)
  have hthere := (restoreParts_layers hnamesBefore hbefore (layer.name ++ [0])).2 (.inr ⟨layer, hcreate, rfl⟩)
  refine ⟨putOp, stem, hop, hstem, ?_⟩
  rw [restoreParts_frame hnamesAfter hafter (hother hnodup.1.2), hput hthere, hframe, hempty, Option.getD_none]

end

end Pincaster
