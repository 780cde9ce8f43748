import Pincaster.PutProperties
import Pincaster.SlipMapFailures
/-!
# PutStored — which PUTs answered "stored" are stored

What `replace_entry_in_slip_map` returns is looked at neither by the parser nor by the merge, and a replacement that finds
no room has removed the entry there was.  So a PUT of ordinary properties is stored exactly when the last replacement of
every name finds room in the map of the body and again in the map of the record (`stored_is_stored_iff`).
-/
namespace Pincaster

open Lib (Bytes bytes assign unbound walk)

variable {D : Type} [Dimension D]

/-! ## The reply to a GET -/

/-- The two strings of a property; no link is followed. -/
def recordsGetPropertiesCb (json : List (Bytes × Bytes)) (key value : Bytes) : Option (Int × List (Bytes × Bytes)) :=
  some (0, json ++ [(key, value)])

/-- The properties `key_node_to_json` shows. -/
def keyNodeToJson (keyNode : KeyNode D) : Option (List (Bytes × Bytes)) :=
  slipMapForeachCb keyNode.properties recordsGetPropertiesCb []

/-- The status and the properties of the reply. -/
def handleOpRecordsGet (layerName key : Key) (layers : Layers D) : Option (Int × List (Bytes × Bytes)) :=
  match layers layerName with
  | none => some (HTTP_NOTFOUND, [])
  | some keyNodes => match keyNodes key with
    | none => some (HTTP_NOTFOUND, [])
    | some keyNode => (keyNodeToJson keyNode).map (fun json => (0, json))

omit [Dimension D] in
theorem keyNodeToJson_holds {keyNode : KeyNode D} {binds : Bytes → Option Bytes} (h : Holds keyNode.properties binds) :
    keyNodeToJson keyNode = some (visited keyNode.properties) := by
  have hwalk := walk_collect (visited keyNode.properties) []
  rw [keyNodeToJson, h.foreach, show recordsGetPropertiesCb = collect from rfl, hwalk]
  rfl

omit [Dimension D] in
theorem handleOpRecordsGet_holds {layerName key : Key} {layers : Layers D} {keyNodes : KeyNodes D} {keyNode : KeyNode D}
    {binds : Bytes → Option Bytes} (hlayer : layers layerName = some keyNodes) (hkey : keyNodes key = some keyNode)
    (h : Holds keyNode.properties binds) :
    handleOpRecordsGet layerName key layers = some (0, visited keyNode.properties) := by
  simp only [handleOpRecordsGet, hlayer, hkey, keyNodeToJson_holds h, Option.map_some]

/-! ## Replacements one after the other -/

/-- The replacements of some pairs, whatever they return. -/
def replaceAll : List (Bytes × Bytes) → Option SlipMap → Option (Option SlipMap)
  | [], m => some m
  | (key, value) :: ps, m => do
    let slip ← mapOrNew m
    let (slip, _) ← replaceEntryInSlipMap slip key value
    replaceAll ps (some slip)

/-- **The last replacement of every name succeeds**, unless the name has the value `already`. -/
def LastsStored (already : Bytes → Option Bytes) : List (Bytes × Bytes) → Option SlipMap → Prop
  | [], _ => True
  | (key, value) :: ps, m =>
    match (mapOrNew m).bind (replaceEntryInSlipMap · key value) with
    | none => False
    | some (slip, ret) => (key ∈ ps.map Prod.fst ∨ ret = 0 ∨ already key = some value) ∧ LastsStored already ps (some slip)

instance decidableLastsStored (already : Bytes → Option Bytes) : ∀ (ps : List (Bytes × Bytes)) (m : Option SlipMap),
    Decidable (LastsStored already ps m)
  | [], _ => .isTrue trivial
  | (key, value) :: ps, m => by
    unfold LastsStored
    exact match (mapOrNew m).bind (replaceEntryInSlipMap · key value) with
      | none => .isFalse id
      | some (slip, _) =>
        have := decidableLastsStored already ps (some slip)
        inferInstanceAs (Decidable (_ ∧ _))

/-- What replacements leave: a name of theirs has the value of its last pair or none. -/
structure ReplacedAll (binds : Bytes → Option Bytes) (ps : List (Bytes × Bytes)) (binds' : Bytes → Option Bytes) :
    Prop where
  kept : ∀ name, name ∉ ps.map Prod.fst → binds' name = binds name
  last : ∀ name, name ∈ ps.map Prod.fst → binds' name = none ∨ binds' name = assign unbound ps name

/-- Replacements of names and values that fit their header fields. -/
def PairsFit (ps : List (Bytes × Bytes)) : Prop := ∀ p ∈ ps, KeyLen p.1 ∧ p.2.length ≤ 0xffff

theorem assign_cons_of_not_mem {ps : List (Bytes × Bytes)} {key : Bytes} (value : Bytes)
    (h : key ∉ ps.map Prod.fst) : assign unbound ((key, value) :: ps) key = some value :=
  Lib.assign_last unbound [] value h

theorem assign_cons_of_ne {ps : List (Bytes × Bytes)} {key name : Bytes} (value : Bytes) (h : name ≠ key) :
    assign unbound ((key, value) :: ps) name = assign unbound ps name := by
  rw [Lib.assign_cons, Lib.assign_eq_or, Function.update_of_ne h]
  exact Option.or_none

theorem assign_cons_of_mem {ps : List (Bytes × Bytes)} {key name : Bytes} (value : Bytes) (h : name ∈ ps.map Prod.fst) :
    assign unbound ((key, value) :: ps) name = assign unbound ps name := by
  obtain ⟨pre, v, post, rfl, hpost⟩ := Lib.exists_last h
  rw [← List.cons_append, Lib.assign_last _ _ _ hpost, Lib.assign_last _ _ _ hpost]

/-- One more replacement in front. -/
theorem ReplacedAll.cons {binds binds' : Bytes → Option Bytes} {ps : List (Bytes × Bytes)} {key value : Bytes}
    {bound : Option Bytes} (hbound : bound = none ∨ bound = some value)
    (h : ReplacedAll (fun k => if k = key then bound else binds k) ps binds') :
    ReplacedAll binds ((key, value) :: ps) binds' := by
  refine ⟨fun name hname => ?_, fun name hname => ?_⟩
  · rw [List.map_cons, List.mem_cons, not_or] at hname
    rw [h.kept name hname.2, if_neg hname.1]
  · by_cases hps : name ∈ ps.map Prod.fst
    · rw [assign_cons_of_mem value hps]
      exact h.last name hps
    · have hkey : name = key := (List.mem_cons.1 hname).resolve_right hps
      subst hkey
      rw [h.kept name hps, if_pos rfl, assign_cons_of_not_mem value hps]
      exact hbound

/-- **The replacements of some pairs** have a result, and say with their last returns which pairs are in it. -/
theorem replaceAll_spec : ∀ (ps : List (Bytes × Bytes)) {m : Option SlipMap} {binds : Bytes → Option Bytes},
    Holds m binds → PairsFit ps → ∃ m' binds', replaceAll ps m = some m' ∧ Holds m' binds' ∧ ReplacedAll binds ps binds' ∧
      ∀ already, LastsStored already ps m ↔ ∀ name value, assign unbound ps name = some value →
        binds' name = some value ∨ already name = some value
  | [], m, binds, h, _ => ⟨m, binds, rfl, h, ⟨fun _ _ => rfl, fun _ hname => by cases hname⟩,
      fun _ => ⟨fun _ _ _ hv => (by cases hv), fun _ => trivial⟩⟩
  | (key, value) :: ps, m, binds, h, hfit => by
    obtain ⟨slip, hslip, ts, href⟩ := h.mapOrNew
    obtain ⟨hkey, hvalue⟩ := hfit (key, value) List.mem_cons_self
    obtain ⟨slip', ret, hrep, hret, ts', href'⟩ := href.replace hkey hvalue
    have hholds : Holds (some slip') (fun k => if k = key then if ret = 0 then some value else none else binds k) :=
      ⟨ts', href'⟩
    obtain ⟨m', binds', hall, hholds', hreplaced, hlast⟩ := replaceAll_spec ps hholds
      (fun p hp => hfit p (List.mem_cons_of_mem _ hp))
    refine ⟨m', binds', ?_, hholds', hreplaced.cons (by by_cases h0 : ret = 0 <;> simp [h0]), fun already => ?_⟩
    · rw [replaceAll, hslip, Option.bind_eq_bind, Option.bind_some, hrep]
      exact hall
    · simp only [LastsStored, hslip, Option.bind_some, hrep, hlast already]
      constructor
      · rintro ⟨hfirst, hrest⟩ name v hv
        by_cases hps : name ∈ ps.map Prod.fst
        · exact hrest name v (by rwa [assign_cons_of_mem value hps] at hv)
        · by_cases hname : name = key
          · subst hname
            rw [assign_cons_of_not_mem value hps, Option.some.injEq] at hv
            subst hv
            rw [hreplaced.kept name hps, if_pos rfl]
            exact (hfirst.resolve_left hps).imp (fun h0 => if_pos h0) id
          · rw [assign_cons_of_ne value hname, Lib.assign_eq_none.2 hps] at hv
            cases hv
      · refine fun hall => ⟨?_, fun name v hv => hall name v ?_⟩
        · by_cases hps : key ∈ ps.map Prod.fst
          · exact .inl hps
          · have hkeyed := hall key value (assign_cons_of_not_mem value hps)
            rw [hreplaced.kept key hps, if_pos rfl] at hkeyed
            refine .inr (hkeyed.imp (fun hb => ?_) id)
            by_contra h0
            rw [if_neg h0] at hb
            cases hb
        · have hps : name ∈ ps.map Prod.fst := by
            by_contra hps
            rw [Lib.assign_eq_none.2 hps] at hv
            cases hv
          rw [assign_cons_of_mem value hps]
          exact hv

/-! ## The two phases of the PUT -/

/-- **The parser** makes the replacements of the pairs in the map of the body. -/
theorem walk_recordsPutOptParseCb : ∀ (ps : List (Bytes × Bytes)) (putOp : RecordsPutOp D),
    (∀ p ∈ ps, ordinary p.1 = true ∧ p.1 ≠ []) → walk recordsPutOptParseCb ps putOp =
      (replaceAll ps putOp.properties).map (fun m => (0, { putOp with properties := m }))
  | [], _, _ => rfl
  | (key, value) :: ps, putOp, h => by
    obtain ⟨hord, hkey⟩ := h (key, value) List.mem_cons_self
    have hput := putProperty_eq putOp.properties key value
    rw [walk, replaceAll]
    rcases hmap : mapOrNew putOp.properties with _ | slip
    · rw [hmap, Option.bind_none] at hput
      rw [recordsPutOptParseCb_none (isProperty_of_ordinary hord) hord hkey hput]
      rfl
    · rcases hrep : replaceEntryInSlipMap slip key value with _ | ⟨slip', ret⟩
      · rw [hmap, Option.bind_some, hrep, Option.map_none] at hput
        rw [recordsPutOptParseCb_none (isProperty_of_ordinary hord) hord hkey hput]
        simp [hrep]
      · rw [hmap, Option.bind_some, hrep, Option.map_some] at hput
        have ih := walk_recordsPutOptParseCb ps { putOp with properties := some slip' }
          (fun p hp => h p (List.mem_cons_of_mem _ hp))
        simp only [recordsPutOptParseCb_ordinary (isProperty_of_ordinary hord) hord hkey hput, Option.bind_eq_bind,
          Option.bind_some, ne_eq, not_true_eq_false, if_false, hrep]
        exact ih

/-- **The merge** makes the replacements of the pairs in the map of the record. -/
theorem walk_recordsPutMergePropertiesCb : ∀ (ps : List (Bytes × Bytes)) (target : SlipMap),
    (∀ p ∈ ps, ordinary p.1 = true ∧ p.1 ≠ []) →
      (walk recordsPutMergePropertiesCb ps target).map (fun r => some r.2) = replaceAll ps (some target)
  | [], _, _ => rfl
  | (key, value) :: ps, target, h => by
    obtain ⟨hord, hkey⟩ := h (key, value) List.mem_cons_self
    rw [walk, replaceAll, recordsPutMergePropertiesCb_eq hkey hord, mapOrNew]
    rcases hrep : replaceEntryInSlipMap target key value with _ | ⟨target', ret⟩
    · simp [hrep]
    · have ih := walk_recordsPutMergePropertiesCb ps target' (fun p hp => h p (List.mem_cons_of_mem _ hp))
      simp only [Option.map_some, Option.bind_eq_bind, Option.bind_some, ne_eq, not_true_eq_false, if_false, hrep]
      exact ih

/-- **A GET shows the properties of the body**, the last pair of a name, and those the body does not name. -/
structure ShowsStored (binds : Bytes → Option Bytes) (pairs shown : List (Bytes × Bytes)) : Prop where
  body : ∀ name value, assign unbound pairs name = some value → (name, value) ∈ shown
  kept : ∀ name value, binds name = some value → name ∉ pairs.map Prod.fst → (name, value) ∈ shown

/-- **The replacements find room**: the last one of every name of the body in the map of the body, or the record has the
value; and where it has a map, all those of the pairs that are in the map of the body. -/
def FindsRoom (properties : Option SlipMap) (binds : Bytes → Option Bytes) (pairs : List (Bytes × Bytes)) : Prop :=
  LastsStored binds pairs none ∧ ∀ target parsed, properties = some target → replaceAll pairs none = some parsed →
    LastsStored unbound (visited parsed) (some target)

omit [Dimension D] in
theorem putProperties_no_special {putOp : RecordsPutOp D} (h : putOp.specialProperties = none) (target : SlipMap) :
    putProperties (some target) putOp =
      (slipMapForeachCb putOp.properties recordsPutMergePropertiesCb target).map some := by
  rw [putProperties, h]
  rfl

/-- **What a PUT of ordinary properties leaves**: every property the body does not name, and those of the body exactly
when the replacements find room. -/
theorem put_ordinary {binds : Bytes → Option Bytes} {properties : Option SlipMap} {pairs : List (Bytes × Bytes)}
    (hM : Holds properties binds) (hord : ∀ p ∈ pairs, ordinary p.1 = true) (hfit : PairsFit pairs)
    (layerName key : Key) : ∃ (putOp : RecordsPutOp D) (properties' : Option SlipMap) (binds' : Bytes → Option Bytes),
      walk recordsPutOptParseCb pairs (recordsPutOp layerName key) = some (0, putOp) ∧
      putOp.layerName = layerName ∧ putOp.key = key ∧ putProperties properties putOp = some properties' ∧
      Holds properties' binds' ∧ (∀ name, name ∉ pairs.map Prod.fst → binds' name = binds name) ∧
      ((∀ name value, assign unbound pairs name = some value → binds' name = some value) ↔
        FindsRoom properties binds pairs) := by
  have hnone : Holds none unbound := rfl
  obtain ⟨parsed, parsedBinds, hall, hparsed, hreplaced, hlast⟩ := replaceAll_spec pairs hnone hfit
  have hwalk := walk_recordsPutOptParseCb pairs (recordsPutOp layerName key : RecordsPutOp D)
    (fun p hp => ⟨hord p hp, List.ne_nil_of_length_pos (hfit p hp).1.1⟩)
  rw [show (recordsPutOp layerName key : RecordsPutOp D).properties = none from rfl, hall, Option.map_some] at hwalk
  have hmember : ∀ name value, parsedBinds name = some value → assign unbound pairs name = some value := by
    intro name value hv
    by_cases hname : name ∈ pairs.map Prod.fst
    · rcases hreplaced.last name hname with hno | hlast
      · rw [hno] at hv
        cases hv
      · rw [← hlast, hv]
    · rw [hreplaced.kept name hname] at hv
      cases hv
  cases properties with
  | none =>
    obtain rfl : binds = unbound := hM
    refine ⟨_, parsed, parsedBinds, hwalk, rfl, rfl, rfl, hparsed, hreplaced.kept, ?_⟩
    rw [FindsRoom, hlast]
    exact ⟨fun h => ⟨fun name value hv => .inl (h name value hv), fun _ _ h => by cases h⟩,
      fun h name value hv => (h.1 name value hv).resolve_right nofun⟩
  | some target =>
    have hvisited : ∀ p ∈ visited parsed, ordinary p.1 = true ∧ p.1 ≠ [] := fun p hp =>
      ⟨hord p (Lib.mem_of_assign (hmember _ _ (hparsed.mem_visited.1 hp))),
        List.ne_nil_of_length_pos (hparsed.keyLen hp).1.1⟩
    obtain ⟨properties', binds', hmerge, hholds, hmerged, hlast'⟩ := replaceAll_spec (visited parsed) hM
      (fun p hp => hparsed.keyLen hp)
    have hnames : ∀ name, name ∈ (visited parsed).map Prod.fst ↔ parsedBinds name ≠ none := fun name => by
      rw [hparsed.eq_assign, Ne, Lib.assign_eq_none, not_not]
    have hput : putProperties (some target)
        { (recordsPutOp layerName key : RecordsPutOp D) with properties := parsed } = some properties' := by
      have hforeach := hparsed.foreach recordsPutMergePropertiesCb target
      have hwalk' := walk_recordsPutMergePropertiesCb (visited parsed) target hvisited
      rw [hmerge] at hwalk'
      obtain ⟨r, hr, rfl⟩ := Option.map_eq_some_iff.1 hwalk'
      rw [hr, Option.map_some] at hforeach
      rw [putProperties_no_special rfl]
      simp only [hforeach, Option.map_some]
    refine ⟨_, properties', binds', hwalk, rfl, rfl, hput, hholds, fun name hname => ?_, ?_⟩
    · refine hmerged.kept name (fun hin => (hnames name).1 hin ?_)
      exact hreplaced.kept name hname
    · have hfinds : FindsRoom (some target) binds pairs ↔ LastsStored binds pairs none ∧
          LastsStored unbound (visited parsed) (some target) := by
        unfold FindsRoom
        refine and_congr_right (fun _ => ⟨fun h => h target parsed rfl hall, fun h target' parsed' ht hp => ?_⟩)
        obtain rfl := Option.some.inj ht
        rw [hall, Option.some.injEq] at hp
        exact hp ▸ h
      rw [hfinds, hlast, hlast']
      constructor
      · refine fun hlaw => ⟨fun name value hv => ?_, fun name value hv => .inl (hlaw name value (hmember _ _ ?_))⟩
        · rcases hb : parsedBinds name with _ | w
          · -- the replacement failed in the map of the body: the value is the one the record has
            refine .inr ?_
            rw [← hmerged.kept name (fun hin => (hnames name).1 hin hb)]
            exact hlaw name value hv
          · have hw := hmember name w hb
            rw [hv, Option.some.injEq] at hw
            exact .inl (by rw [hw])
        · rwa [hparsed.eq_assign]
      · rintro ⟨hparse, hmergeLast⟩ name value hv
        rcases hb : parsedBinds name with _ | w
        · rw [hmerged.kept name (fun hin => (hnames name).1 hin hb)]
          exact (hparse name value hv).resolve_left (by rw [hb]; nofun)
        · have hw := hmember name w hb
          rw [hv, Option.some.injEq] at hw
          subst hw
          exact (hmergeLast name value (by rw [← hparsed.eq_assign]; exact hb)).resolve_right nofun

/-! ## A map with one slot -/

theorem tiled_one {t : Tile} (hkey : t.key ≠ []) (hfits : t.Fits) : Tiled ⟨t.bytes.length, tilesBytes [t]⟩ [t] := by
  have hone : tilesBytes [t] = t.bytes := by simp
  refine ⟨rfl, by rw [hone], by rw [hone]; exact hfits, by simp, fun u hu he => ?_, ?_⟩
  · rw [List.mem_singleton.1 hu] at he
    exact absurd he hkey
  · rw [entries_cons t [] hkey]
    exact List.nodup_singleton _

theorem holds_one {t : Tile} (hkey : t.key ≠ []) (hfits : t.Fits) :
    Holds (some ⟨t.bytes.length, tilesBytes [t]⟩) (Function.update unbound t.key (some t.value)) := by
  refine ⟨[t], tiled_one hkey hfits, fun k v => ?_⟩
  rw [entries_cons t [] hkey, entries_nil, List.mem_singleton, Prod.mk.injEq]
  show Function.update unbound t.key (some t.value) k = some v ↔ _
  rw [Function.update_apply]
  by_cases hk : k = t.key
  · simp [hk, eq_comm]
  · simp [hk, unbound]

/-- The slot of a property with a value of 65500 bytes. -/
def largeTile : Tile := ⟨bytes "a", List.replicate 65500 120, List.replicate 6 0⟩

theorem length_largeTile : largeTile.bytes.length = 65513 := by
  rw [Tile.length_bytes]
  simp only [largeTile, List.length_replicate]
  rfl

theorem fits_largeTile : largeTile.Fits := by
  rw [Tile.Fits, length_largeTile]
  decide

/-! ## The law -/

/-- **A PUT answered "stored" is stored exactly when its replacements find room.**  The properties the body does not name
are shown in any case. -/
theorem stored_is_stored_iff {qbounds : Rectangle2D D} {layers : Layers D} {keyNodes : KeyNodes D} {layerName key : Key}
    {binds : Bytes → Option Bytes} {body : Bytes} {pairs : List (Bytes × Bytes)}
    (hlayer : layers layerName = some keyNodes) (hM : Holds ((keyNodes key).getD newKeyNode).properties binds)
    (hbody : queryParse (body ++ [0]) collect [] = some (0, pairs)) (hord : ∀ p ∈ pairs, ordinary p.1 = true)
    (hfit : PairsFit pairs) :
    ∃ (putOp : RecordsPutOp D) (layers' : Layers D) (shown : List (Bytes × Bytes)),
      queryParse (body ++ [0]) recordsPutOptParseCb (recordsPutOp layerName key) = some (0, putOp) ∧
      handleOpRecordsPut qbounds putOp layers = some (0, layers') ∧
      handleOpRecordsGet layerName key layers' = some (0, shown) ∧
      (ShowsStored binds pairs shown ↔ FindsRoom ((keyNodes key).getD newKeyNode).properties binds pairs) := by
  obtain ⟨putOp, properties', binds', hwalk, hlayer', hkey', hput, hholds, hkept, hiff⟩ :=
    put_ordinary (D := D) hM hord hfit layerName key
  have hop := handleOpRecordsPut_eq qbounds (show layers putOp.layerName = some keyNodes by rw [hlayer', hlayer])
    (by rw [hkey', hput])
  refine ⟨putOp, _, visited properties', by rw [queryParse_walk hbody, hwalk]; rfl, hop, ?_, ?_⟩
  · rw [hlayer', hkey']
    exact handleOpRecordsGet_holds (Function.update_self ..) (Function.update_self ..) hholds
  · rw [← hiff]
    exact ⟨fun h name value hv => hholds.mem_visited.1 (h.body name value hv),
      fun h => ⟨fun name value hv => hholds.mem_visited.2 (h name value hv),
        fun name value hv hname => hholds.mem_visited.2 (by rw [hkept name hname, hv])⟩⟩

/-- A property of 21 bytes, given twice, for a record that has one of 65500 bytes: there is no room for one byte more. -/
theorem stored_is_stored_edge : ∃ (putOp : RecordsPutOp ℚ) (layers layers' : Layers ℚ) (shown : List (Bytes × Bytes)),
    queryParse (bytes "b=c&b=012345678901234567890" ++ [0]) recordsPutOptParseCb (recordsPutOp (bytes "l") (bytes "k")) =
        some (0, putOp) ∧
      handleOpRecordsPut ⟨⟨-180, -180⟩, ⟨180, 180⟩⟩ putOp layers = some (0, layers') ∧
      handleOpRecordsGet (bytes "l") (bytes "k") layers' = some (0, shown) ∧
      (bytes "a", List.replicate 65500 120) ∈ shown ∧ (bytes "b", bytes "012345678901234567890") ∈ shown := by
  have htiled := tiled_one (t := largeTile) (by decide) fits_largeTile
  have hbody : queryParse (bytes "b=c&b=012345678901234567890" ++ [0]) collect [] =
    some (0, [(bytes "b", bytes "c"), (bytes "b", bytes "012345678901234567890")]) := by decide +kernel
  obtain ⟨keyNodes, hnode⟩ : ∃ keyNodes : KeyNodes ℚ, keyNodes (bytes "k") =
      some ⟨none, some ⟨largeTile.bytes.length, tilesBytes [largeTile]⟩, none⟩ :=
    ⟨Function.update (fun _ => none) _ _, Function.update_self ..⟩
  obtain ⟨layers, hlayer⟩ : ∃ layers : Layers ℚ, layers (bytes "l") = some keyNodes :=
    ⟨Function.update (fun _ => none) _ _, Function.update_self ..⟩
  have hM : Holds ((keyNodes (bytes "k")).getD newKeyNode).properties
      (Function.update unbound largeTile.key (some largeTile.value)) := by
    rw [hnode]
    exact holds_one (by decide) fits_largeTile
  obtain ⟨putOp, layers', shown, hput, hop, hget, hiff⟩ := stored_is_stored_iff (D := ℚ) hlayer hM hbody
    (by decide +kernel) (by unfold PairsFit; decide +kernel)
  have hroom : Replaceable true (bytes "b") (bytes "012345678901234567890") [largeTile] := by
    refine .unbound (fun t ht => by rw [List.mem_singleton.1 ht]; decide) (.longer (l := []) rfl (by decide) ?_)
    rw [List.nil_append, tilesBytes_cons, tilesBytes_nil, List.append_nil, length_largeTile,
      show largeTile.free.length = 6 from rfl]
    decide +kernel
  obtain ⟨slip, ret, hrep, hret⟩ := replaceEntryAlloc_spec true htiled
    (show 0 < (bytes "b").length ∧ (bytes "b").length ≤ 0xffff ∧ (bytes "012345678901234567890").length ≤ 0xffff by
      decide +kernel)
  rw [replaceEntryAlloc_true] at hrep
  have hzero : ret = 0 := (hret.resolve_right (fun hneg => hneg.2.1 hroom)).1
  have hvisited : (replaceAll [(bytes "b", bytes "c"), (bytes "b", bytes "012345678901234567890")] none).map visited =
    some [(bytes "b", bytes "012345678901234567890")] := by decide +kernel
  have hshows := hiff.2 ⟨by decide +kernel, fun target parsed htarget hparsed => by
    rw [hnode] at htarget
    obtain rfl := Option.some.inj htarget
    rw [hparsed, Option.map_some, Option.some.injEq] at hvisited
    rw [hvisited, LastsStored, mapOrNew, Option.bind_some, hrep]
    exact ⟨.inr (.inl hzero), trivial⟩⟩
  exact ⟨putOp, layers, layers', shown, hput, hop, hget, hshows.kept _ _ (Function.update_self ..) (by decide +kernel),
    hshows.body _ _ (by decide +kernel)⟩

/-! ## A property that is lost -/

/-- **All bindings fit in one map.** -/
theorem Holds.fits {slip : SlipMap} {binds : Bytes → Option Bytes} (h : Holds (some slip) binds) {k₁ k₂ v₁ v₂ : Bytes}
    (hne : k₁ ≠ k₂) (h₁ : binds k₁ = some v₁) (h₂ : binds k₂ = some v₂) :
    k₁.length + v₁.length + (k₂.length + v₂.length) + 12 ≤ 0xffff := by
  obtain ⟨ts, htiled, hbinds⟩ := h
  have htile : ∀ {k v}, binds k = some v → ∃ t ∈ ts, t.key = k ∧ t.value = v := fun hb => by
    obtain ⟨t, ht, htp⟩ := List.mem_filterMap.1 ((hbinds _ _).1 hb)
    split at htp
    · cases htp
    · cases htp
      exact ⟨t, ht, rfl, rfl⟩
  obtain ⟨t₁, ht₁, rfl, rfl⟩ := htile h₁
  obtain ⟨t₂, ht₂, rfl, rfl⟩ := htile h₂
  have hmax := htiled.max
  rw [htiled.map] at hmax
  obtain ⟨l, r, rfl⟩ := List.append_of_mem ht₁
  have hlen₁ := t₁.length_bytes
  have hlen₂ := t₂.length_bytes
  have hsum : t₂.bytes.length ≤ (tilesBytes (l ++ r)).length := by
    have hin : t₂ ∈ l ++ r := by
      rcases List.mem_append.1 ht₂ with hl | hr
      · exact List.mem_append_left _ hl
      · rcases List.mem_cons.1 hr with rfl | hr
        · exact absurd rfl hne
        · exact List.mem_append_right _ hr
    obtain ⟨l', r', hsplit⟩ := List.append_of_mem hin
    rw [hsplit, tilesBytes_append, tilesBytes_cons, List.length_append, List.length_append]
    omega
  simp only [tilesBytes_append, tilesBytes_cons, List.length_append] at hmax hsum
  omega

/-- **A property is answered "stored" and not there**: the record has one of 65500 bytes. -/
theorem stored_property_lost : ∃ (putOp : RecordsPutOp ℚ) (layers layers' : Layers ℚ) (keyNodes : KeyNodes ℚ)
    (keyNode : KeyNode ℚ) (shown : List (Bytes × Bytes)),
    layers (bytes "l") = some keyNodes ∧ keyNodes (bytes "k") = some keyNode ∧
      Holds keyNode.properties (Function.update unbound (bytes "a") (some (List.replicate 65500 120))) ∧
      queryParse (bytes "b=012345678901234567890123456789" ++ [0]) recordsPutOptParseCb
        (recordsPutOp (bytes "l") (bytes "k")) = some (0, putOp) ∧
      handleOpRecordsPut ⟨⟨-180, -180⟩, ⟨180, 180⟩⟩ putOp layers = some (0, layers') ∧
      handleOpRecordsGet (bytes "l") (bytes "k") layers' = some (0, shown) ∧
      ¬ ShowsStored (Function.update unbound (bytes "a") (some (List.replicate 65500 120)))
        [(bytes "b", bytes "012345678901234567890123456789")] shown := by
  have hM := holds_one (t := largeTile) (by decide) fits_largeTile
  have hbody : queryParse (bytes "b=012345678901234567890123456789" ++ [0]) collect [] =
      some (0, [(bytes "b", bytes "012345678901234567890123456789")]) := by decide +kernel
  obtain ⟨putOp, properties', binds', hwalk, hlayer, hkey, hput, hholds, hkept, -⟩ :=
    put_ordinary (D := ℚ) hM (show ∀ p ∈ [(bytes "b", bytes "012345678901234567890123456789")], ordinary p.1 = true by
      decide +kernel) (by unfold PairsFit; decide +kernel) (bytes "l") (bytes "k")
  obtain ⟨keyNodes, hnode⟩ : ∃ keyNodes : KeyNodes ℚ, keyNodes (bytes "k") =
      some ⟨none, some ⟨largeTile.bytes.length, tilesBytes [largeTile]⟩, none⟩ :=
    ⟨Function.update (fun _ => none) _ _, Function.update_self ..⟩
  obtain ⟨layers, hnodes⟩ : ∃ layers : Layers ℚ, layers (bytes "l") = some keyNodes :=
    ⟨Function.update (fun _ => none) _ _, Function.update_self ..⟩
  have hop := handleOpRecordsPut_eq ⟨⟨-180, -180⟩, ⟨180, 180⟩⟩
    (show layers putOp.layerName = some keyNodes by rw [hlayer, hnodes]) (by rw [hkey, hnode]; exact hput)
  refine ⟨putOp, _, _, _, _, visited properties', hnodes, hnode, hM, by rw [queryParse_walk hbody, hwalk]; rfl, hop, ?_,
    fun hlaw => ?_⟩
  · rw [hlayer, hkey]
    exact handleOpRecordsGet_holds (Function.update_self ..) (Function.update_self ..) hholds
  · have hb := hholds.mem_visited.1 (hlaw.body (bytes "b") (bytes "012345678901234567890123456789") (by decide +kernel))
    have ha := hholds.mem_visited.1 (hlaw.kept (bytes "a") (List.replicate 65500 120) (Function.update_self ..)
      (by decide +kernel))
    cases properties' with
    | none =>
      rw [show binds' = unbound from hholds] at hb
      cases hb
    | some slip =>
      have hfit := hholds.fits (by decide) ha hb
      rw [List.length_replicate] at hfit
      simp only [show (bytes "012345678901234567890123456789").length = 30 by decide +kernel] at hfit
      omega

end Pincaster
