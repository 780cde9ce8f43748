import Pincaster.LinkLaw
import Pincaster.StoreRefine
/-!
# ShownRecords — what is shown of the records of a layer

`key_node_to_json` shows the record that the maps hold, and with links every record that can be reached by links in the
maps (`keyNodeToJsonLinks_shown`).
-/
namespace Pincaster

open Lib (Bytes bytes cstr walk Swept Reach)

variable {D : Type}

/-- What is shown of a record of the maps. -/
def showRecord (key : Key) (record : KeyNode D) (withProperties : Bool) : RecordJson D where
  key := cstr key
  type := recordType record.slot.isSome record.properties.isSome
  position := record.slot
  expiresAt := if withProperties then record.expirable else none
  properties := if withProperties then record.properties.map (fun properties => visited (some properties)) else none

/-- A record has a link to a record of its layer. -/
def LinksTo (keyNodes : KeyNodes D) (key key' : Key) : Prop :=
  ∃ record, keyNodes key = some record ∧ (keyNodes key').isSome ∧ ∃ p ∈ visited record.properties,
    isLinkProperty p.1 = true ∧ p.2 ≠ [] ∧ p.2.head? ≠ some 0 ∧ key' = p.2 ++ [0]

/-- The records that can be reached by links, other than the first. -/
def Linked (keyNodes : KeyNodes D) (key key' : Key) : Prop :=
  Relation.ReflTransGen (LinksTo keyNodes) key key' ∧ key' ≠ key

/-- **The links of a record as they are shown**: entries of records that can be reached, and one of each at least. -/
def ShowsLinks (keyNodes : KeyNodes D) (key : Key) (links : List (Bytes × RecordJson D)) : Prop :=
  (∀ l ∈ links, ∃ key' record, Linked keyNodes key key' ∧ keyNodes key' = some record ∧
    l = (key'.dropLast, showRecord key' record true)) ∧
  ∀ key', Linked keyNodes key key' → key'.dropLast ∈ links.map Prod.fst

/-- **What a request shows of a record**; without properties no links are found. -/
def Shows (keyNodes : KeyNodes D) (key : Key) (withProperties withLinks : Bool) (record : RecordJson D)
    (links : Option (List (Bytes × RecordJson D))) : Prop :=
  (∃ keyNode, keyNodes key = some keyNode ∧ record = showRecord key keyNode withProperties) ∧
  match links with
  | none => withLinks = false
  | some links => withLinks = true ∧ if withProperties then ShowsLinks keyNodes key links else links = []

/-! ## One record -/

namespace Layer

section
variable {mem : Memory} {db : Db D} {n : Key × Nat}

theorem position_eq_some {a : Nat} {position : Option (Position2D D)} (h : db.position a = some position) :
    db.panDb.position a = position := by
  unfold Db.position at h
  unfold PanDB.position
  split at h
  · rename_i hslot
    rw [hslot, ← Option.some.inj h]
    rfl
  · rename_i ptr hslot
    obtain ⟨slot, hptr, rfl⟩ := Option.map_eq_some_iff.1 h
    rw [hslot, Option.bind_some, hptr, Option.map_some]

theorem recordAt_slot {position : Option (Position2D D)} (h : db.position n.2 = some position) :
    (recordAt mem db n.2).slot = position := position_eq_some h

theorem recordAt_properties {node : KeyNode} (h : mem.keyNodes.cells n.2 = some node) :
    (recordAt mem db n.2).properties = node.properties := by
  rw [recordAt, h, Option.bind_some]

theorem recordAt_expiresAt {node : KeyNode} {e : Option Int} (h : mem.keyNodes.cells n.2 = some node)
    (he : expiresAtOf mem node.expirable = some e) : (recordAt mem db n.2).expirable = e := by
  rw [recordAt, Memory.expirableOf, h, Option.map_some, Option.join_some]
  cases hexp : node.expirable with
  | none =>
    rw [hexp] at he
    exact Option.some.inj he
  | some expirable =>
    rw [hexp] at he
    obtain ⟨x, hx, he⟩ := Option.bind_eq_some_iff.1 he
    split at he
    · cases he
    · change (mem.expirables.cells expirable).map Expirable.ts = e
      rw [hx, Option.map_some, ← Option.some.inj he]

end

end Layer

section
variable {mem : Layer.Memory} {db : Layer.Db D} {n : Key × Nat}

/-- Without properties nothing else is read. -/
theorem keyNodeToJson_bare (h : db.Sound mem) (hn : n ∈ db.keyNodes.nodes) (s : Option (PntStack TraversedKeyNode)) :
    keyNodeToJson_ mem db n false s = some (showRecord n.1 (Layer.recordAt mem db n.2) false, s) := by
  obtain ⟨node, -, hcell, -, -⟩ := h.node n hn
  obtain ⟨position, hpos⟩ := Option.isSome_iff_exists.1 (h.position n hn)
  simp only [keyNodeToJson_, hcell, hpos, Option.bind_eq_bind, Option.bind_some, if_true, showRecord,
    Layer.recordAt_slot hpos, Layer.recordAt_properties hcell, Bool.false_eq_true, if_false]

/-- The properties are shown as they are visited. -/
theorem walk_json (keyNodes : KeyNodeTree Nat) : ∀ (properties json : List (Bytes × Bytes)),
    walk (recordsGetPropertiesCbLinks keyNodes) properties ⟨json, none⟩ = some (0, ⟨json ++ properties, none⟩)
  | [], json => by rw [walk, List.append_nil]
  | (key, value) :: properties, json => by
    have hstep : recordsGetPropertiesCbLinks keyNodes ⟨json, none⟩ key value =
        some (0, ⟨json ++ [(key, value)], none⟩) := rfl
    have ih := walk_json keyNodes properties (json ++ [(key, value)])
    rw [List.append_assoc, List.singleton_append] at ih
    rw [walk, hstep]
    simpa using ih

/-- What is shown of a record, when its properties have been gone through. -/
theorem keyNodeToJson_of_walk (h : db.Sound mem) (hn : n ∈ db.keyNodes.nodes)
    {s s' : Option (PntStack TraversedKeyNode)}
    (hwalk : ∀ properties, (Layer.recordAt mem db n.2).properties = some properties →
      walk (recordsGetPropertiesCbLinks db.keyNodes) (visited (some properties)) ⟨[], s⟩ =
        some (0, ⟨visited (some properties), s'⟩))
    (hnone : (Layer.recordAt mem db n.2).properties = none → s' = s) :
    keyNodeToJson_ mem db n true s = some (showRecord n.1 (Layer.recordAt mem db n.2) true, s') := by
  obtain ⟨node, binds, hcell, hholds, hexp⟩ := h.node n hn
  obtain ⟨position, hpos⟩ := Option.isSome_iff_exists.1 (h.position n hn)
  obtain ⟨e, he⟩ := Option.isSome_iff_exists.1 hexp
  rw [Layer.recordAt_properties hcell] at hwalk hnone
  simp only [keyNodeToJson_, hcell, hpos, he, Option.bind_eq_bind, Option.bind_some, Bool.true_eq_false, if_false,
    showRecord, Layer.recordAt_slot hpos, Layer.recordAt_properties hcell, Layer.recordAt_expiresAt hcell he, if_true]
  cases hprops : node.properties with
  | none =>
    rw [hnone hprops]
    rfl
  | some properties =>
    rw [hprops] at hholds
    have hforeach : slipMapForeachCb (some properties) (recordsGetPropertiesCbLinks db.keyNodes) ⟨[], s⟩ =
        some ⟨visited (some properties), s'⟩ := by
      rw [hholds.foreach, hwalk properties hprops]
      rfl
    simp only [hforeach, Option.bind_some, Option.map_some]

/-- **A record is shown**, without its links. -/
theorem keyNodeToJson_shown (h : db.Sound mem) (hn : n ∈ db.keyNodes.nodes) (withProperties : Bool) :
    keyNodeToJson_ mem db n withProperties none =
      some (showRecord n.1 (Layer.recordAt mem db n.2) withProperties, none) := by
  cases withProperties with
  | false => exact keyNodeToJson_bare h hn none
  | true => exact keyNodeToJson_of_walk h hn (fun properties _ => walk_json db.keyNodes _ []) (fun _ => rfl)

/-- **A record is shown** and its links are pushed. -/
theorem keyNodeToJson_pushed (h : db.Sound mem) (hn : n ∈ db.keyNodes.nodes) {s : PntStack TraversedKeyNode}
    (hs : Grown 256 s) (hmem : ∀ m ∈ stackKeys s, m ∈ db.keyNodes.nodes) :
    ∃ s', keyNodeToJson_ mem db n true (some s) =
        some (showRecord n.1 (Layer.recordAt mem db n.2) true, some s') ∧ Pushed s s' (linkTargets mem db n) := by
  obtain ⟨node, -, hcell, -, -⟩ := h.node n hn
  obtain ⟨s', hwalk, hpush⟩ := walk_links h.stored (visited node.properties) [] hs hmem
  have htargets : linkTargets mem db n = (visited node.properties).filterMap (linkOf db.keyNodes) := by
    rw [linkTargets, hcell]
  have hproperties : (Layer.recordAt mem db n.2).properties = node.properties := Layer.recordAt_properties hcell
  cases hnode : node.properties with
  | none =>
    rw [hnode] at htargets hproperties
    refine ⟨s, keyNodeToJson_of_walk h hn (fun properties hsome => ?_) (fun _ => rfl), ?_⟩
    · rw [hproperties] at hsome
      cases hsome
    · rw [htargets]
      exact .refl hs
  | some properties =>
    rw [hnode] at htargets hproperties hwalk hpush
    refine ⟨s', keyNodeToJson_of_walk h hn (fun properties' hsome => ?_) (fun hnone => ?_), htargets ▸ hpush⟩
    · rw [hproperties, Option.some.injEq] at hsome
      rw [← hsome]
      exact hwalk
    · rw [hproperties] at hnone
      cases hnone

/-! ## The links -/

/-- The entries are those of records of the layer. -/
def LinkEntries (mem : Layer.Memory) (db : Layer.Db D) (links : List (Bytes × RecordJson D)) : Prop :=
  ∀ l ∈ links, ∃ m ∈ db.keyNodes.nodes, l = (m.1.dropLast, showRecord m.1 (Layer.recordAt mem db m.2) true)

/-- What the traversal keeps. -/
structure TraversalShown (mem : Layer.Memory) (db : Layer.Db D) (context : TraverseKeysNodesForeachCBContext D) :
    Prop where
  grown : Grown 256 context.traversalStack
  known : ∀ m ∈ stackKeys context.traversalStack, m ∈ db.keyNodes.nodes
  links : LinkEntries mem db context.links

theorem stackKeys_store (s : PntStack TraversedKeyNode) (p : ElementPtr) (f : TraversedKeyNode → TraversedKeyNode)
    (hf : ∀ e, (f e).keyNode = e.keyNode) : stackKeys (s.store p f) = stackKeys s := by
  rw [PntStack.store]
  split
  · rw [stackKeys, stackKeys]
    refine List.ext_getElem? (fun i => ?_)
    rw [List.getElem?_map, List.getElem?_map, List.getElem?_modify]
    cases s.elements[i]? with
    | none => rfl
    | some e =>
      by_cases hi : p.index = i
      · simp [hi, hf]
      · simp [hi]
  · rfl

/-- **One element of the stack.** -/
theorem TraversalShown.step (h : db.Sound mem) {context context' : TraverseKeysNodesForeachCBContext D} {ret : Int}
    {p : ElementPtr} (hshown : TraversalShown mem db context)
    (hrun : traverseKeysNodesForeachCb mem db true context p = some (ret, context')) :
    TraversalShown mem db context' := by
  obtain ⟨e, hload, hrun⟩ := Option.bind_eq_some_iff.1 hrun
  split at hrun
  · cases hrun
    exact hshown
  · have he : e.keyNode ∈ db.keyNodes.nodes := by
      refine hshown.known _ (List.mem_map_of_mem ?_)
      unfold PntStack.load at hload
      split at hload
      · exact List.mem_of_getElem? hload
      · cases hload
    obtain ⟨s', hjson, hpush⟩ := keyNodeToJson_pushed h he hshown.grown hshown.known
    rw [hjson] at hrun
    simp only [Option.bind_eq_bind, Option.bind_some, Option.some.injEq, Prod.mk.injEq] at hrun
    obtain ⟨-, rfl⟩ := hrun
    obtain ⟨hgrown, -⟩ := PntStack.store_grown hpush.grown p (fun e => { e with traversed := true })
    refine ⟨hgrown, fun m hm => ?_, fun l hl => ?_⟩
    · have hkeys : stackKeys (s'.store p (fun e => { e with traversed := true })) = stackKeys s' :=
        stackKeys_store _ _ _ (fun _ => rfl)
      rw [hkeys, hpush.keys, Lib.mem_grow] at hm
      exact hm.elim (hshown.known m) linkTargets_mem
    · rcases List.mem_append.1 hl with hl | hl
      · exact hshown.links l hl
      · exact ⟨e.keyNode, he, List.mem_singleton.1 hl⟩

theorem TraversalShown.foreach (h : db.Sound mem) : ∀ (fuel index : Nat)
    {context context' : TraverseKeysNodesForeachCBContext D}, TraversalShown mem db context →
    pntStackForeachFrom TraverseKeysNodesForeachCBContext.traversalStack (traverseKeysNodesForeachCb mem db true) fuel
      index context = some context' → TraversalShown mem db context'
  | 0, _, _, _, _, hrun => by cases hrun
  | fuel + 1, index, context, context', hshown, hrun => by
    rw [pntStackForeachFrom] at hrun
    split at hrun
    · obtain ⟨⟨ret, context₁⟩, hcb, hrun⟩ := Option.bind_eq_some_iff.1 hrun
      have hshown₁ := hshown.step h hcb
      simp only at hrun
      split at hrun
      · rw [← Option.some.inj hrun]
        exact hshown₁
      · exact TraversalShown.foreach h fuel (index + 1) hshown₁ hrun
    · rw [← Option.some.inj hrun]
      exact hshown

theorem TraversalShown.traverse (h : db.Sound mem) : ∀ (fuel : Nat)
    {context context' : TraverseKeysNodesForeachCBContext D}, TraversalShown mem db context →
    traverseLinks mem db true fuel context = some context' → TraversalShown mem db context'
  | 0, _, _, _, hrun => by cases hrun
  | fuel + 1, context, context', hshown, hrun => by
    obtain ⟨context₁, hforeach, hrun⟩ := Option.bind_eq_some_iff.1 hrun
    have hstart : TraversalShown mem db { context with foundJob := false } :=
      ⟨hshown.grown, hshown.known, hshown.links⟩
    have hshown₁ := hstart.foreach h _ _ hforeach
    split at hrun
    · exact TraversalShown.traverse h fuel hshown₁ hrun
    · rw [← Option.some.inj hrun]
      exact hshown₁

/-! ## Links in the maps -/

theorem linkTargets_iff (h : db.Sound mem) {m : Key × Nat} (hn : n ∈ db.keyNodes.nodes) (hm : m ∈ db.keyNodes.nodes) :
    m ∈ linkTargets mem db n ↔ LinksTo (Layer.records mem db) n.1 m.1 := by
  obtain ⟨node, -, hcell, -, -⟩ := h.node n hn
  have hrecord : Layer.records mem db n.1 = some (Layer.recordAt mem db n.2) := Layer.records_eq_some hn
  have hsome : (Layer.records mem db m.1).isSome = true := by
    rw [Layer.records_eq_some (a := m.2) hm]
    rfl
  rw [linkTargets, hcell]
  simp only [List.mem_filterMap]
  constructor
  · rintro ⟨p, hp, hlink⟩
    unfold linkOf at hlink
    split at hlink
    · rename_i hcond
      obtain ⟨hislink, hne, hhead⟩ := hcond
      obtain ⟨-, hkey⟩ := (Lib.RbTree.find_eq_some keyNodeCmp_total).1 hlink
      refine ⟨_, hrecord, hsome, p, ?_, hislink, hne, hhead, hkey⟩
      rwa [Layer.recordAt_properties hcell]
    · cases hlink
  · rintro ⟨record, hfound, -, p, hp, hislink, hne, hhead, hkey⟩
    rw [hrecord, Option.some.injEq] at hfound
    subst hfound
    rw [Layer.recordAt_properties hcell] at hp
    refine ⟨p, hp, ?_⟩
    rw [linkOf, if_pos ⟨hislink, hne, hhead⟩]
    exact (Lib.RbTree.find_eq_some keyNodeCmp_total).2 ⟨hm, hkey⟩

/-- What can be reached through the key nodes can be reached in the maps. -/
theorem reach_iff (h : db.Sound mem) {m : Key × Nat} (hn : n ∈ db.keyNodes.nodes) :
    Reach (linkTargets mem db) n m ↔
      m ∈ db.keyNodes.nodes ∧ Relation.ReflTransGen (LinksTo (Layer.records mem db)) n.1 m.1 := by
  constructor
  · intro hreach
    induction hreach with
    | refl => exact ⟨hn, .refl⟩
    | @tail x y _ hxy ih =>
      have hy := linkTargets_mem hxy
      exact ⟨hy, ih.2.tail ((linkTargets_iff h ih.1 hy).1 hxy)⟩
  · rintro ⟨hm, hlinks⟩
    generalize hkey : m.1 = key at hlinks
    induction hlinks generalizing m with
    | refl =>
      rw [keyNode_unique hm hn hkey]
      exact .refl
    | @tail x y hx hxy ih =>
      obtain ⟨record, hrecord, -⟩ := id hxy
      obtain ⟨w, hfind, -⟩ := Option.map_eq_some_iff.1 hrecord
      obtain ⟨hw, rfl⟩ := (Lib.RbTree.find_eq_some keyNodeCmp_total).1 hfind
      exact (ih hw rfl).tail ((linkTargets_iff h hw hm).2 (hkey ▸ hxy))

/-- The other records of a layer, by their keys. -/
theorem linked_iff (h : db.Sound mem) {m : Key × Nat} (hn : n ∈ db.keyNodes.nodes) (hm : m ∈ db.keyNodes.nodes) :
    Linked (Layer.records mem db) n.1 m.1 ↔ Reach (linkTargets mem db) n m ∧ m ≠ n := by
  rw [Linked, reach_iff h hn, and_iff_right hm]
  exact and_congr_right (fun _ => not_congr ⟨fun heq => keyNode_unique hm hn heq, fun heq => heq ▸ rfl⟩)

/-- **With its links** a record is shown with those that can be reached. -/
theorem keyNodeToJsonLinks_linked (h : db.Sound mem) (hn : n ∈ db.keyNodes.nodes) : ∃ links,
    keyNodeToJsonLinks mem db n true true = some (showRecord n.1 (Layer.recordAt mem db n.2) true, some links) ∧
      ShowsLinks (Layer.records mem db) n.1 links := by
  obtain ⟨record, links, rest, lost, hrun, hswept, hknown, hlinks, hsub, -⟩ := keyNodeToJsonLinks_spec h hn
  obtain ⟨s₁, hpush₁, helements₁, hgrown₁, -⟩ := pushPntStack_grown grown_initPntStack ⟨n, true⟩
  have hkeys₁ : ∀ m ∈ stackKeys s₁, m ∈ db.keyNodes.nodes := by
    intro m hm
    rw [stackKeys, helements₁] at hm
    exact List.mem_singleton.1 hm ▸ hn
  obtain ⟨s, hjson, hpushed⟩ := keyNodeToJson_pushed h hn hgrown₁ hkeys₁
  have hnewStack : (newPntStack INITIAL_TRAVERSAL_STACK_SIZE SIZEOF_TRAVERSED_KEY_NODE :
    Option (PntStack TraversedKeyNode)) = some (initPntStack _ _) := rfl
  have hrun' := hrun
  rw [keyNodeToJsonLinks, if_neg (by decide)] at hrun'
  simp only [hnewStack, hpush₁, hjson, Option.bind_eq_bind, Option.bind_some] at hrun'
  obtain ⟨context, htraverse, hrun'⟩ := Option.bind_eq_some_iff.1 hrun'
  rw [Option.some.injEq, Prod.mk.injEq, Option.some.injEq] at hrun'
  obtain ⟨rfl, rfl⟩ := hrun'
  have hshown : TraversalShown mem db context := by
    refine TraversalShown.traverse h _ ⟨hpushed.grown, fun m hm => ?_, fun _ hl => absurd hl List.not_mem_nil⟩ htraverse
    rw [hpushed.keys, Lib.mem_grow] at hm
    exact hm.elim (hkeys₁ m) linkTargets_mem
  have hnames : ∀ m, m ∈ rest ↔ Reach (linkTargets mem db) n m ∧ m ≠ n := fun m => by
    have hmem := hswept.mem_iff (y := m) le_rfl
    have hnodup := (List.nodup_cons.1 hswept.nodup).1
    rw [List.mem_cons] at hmem
    rw [← hmem]
    exact ⟨fun hm => ⟨.inr hm, fun heq => hnodup (heq ▸ hm)⟩, fun hm => hm.1.resolve_left hm.2⟩
  refine ⟨_, hrun, fun l hl => ?_, fun key' hkey' => ?_⟩
  · obtain ⟨m, hm, rfl⟩ := hshown.links l hl
    have hname := List.mem_map_of_mem (f := Prod.fst) hl
    rw [hlinks] at hname
    obtain ⟨m', hm', hsame⟩ : ∃ m' ∈ rest, m'.1.dropLast = m.1.dropLast := by
      rcases List.mem_append.1 hname with hname | hname
      · exact List.mem_map.1 hname
      · obtain ⟨m', hm', hsame⟩ := List.mem_map.1 hname
        exact ⟨m', hsub m' hm', hsame⟩
    have heq : m' = m := by
      refine keyNode_unique (hknown m' hm') hm ?_
      obtain ⟨s, -, -, hs⟩ := h.stored m' (hknown m' hm')
      obtain ⟨t, -, -, ht⟩ := h.stored m hm
      rw [hs, ht, List.dropLast_concat, List.dropLast_concat] at hsame
      rw [hs, ht, hsame]
    subst heq
    exact ⟨m'.1, _, (linked_iff h hn hm).2 ((hnames m').1 hm'), Layer.records_eq_some hm, rfl⟩
  · obtain ⟨hreach, hne⟩ := hkey'
    have hsome : (Layer.records mem db key').isSome = true := by
      rcases hreach.cases_tail with heq | ⟨x, -, -, -, hsome, -⟩
      · exact absurd heq hne
      · exact hsome
    obtain ⟨w, hfind⟩ := Option.isSome_iff_exists.1 (Option.isSome_map ▸ hsome)
    obtain ⟨hw, rfl⟩ := (Lib.RbTree.find_eq_some keyNodeCmp_total).1 hfind
    have hrest := (hnames w).2 ((linked_iff h hn hw).1 ⟨hreach, hne⟩)
    rw [hlinks]
    exact List.mem_append_left _ (List.mem_map_of_mem hrest)

/-- The traversal of a stack on which everything is marked. -/
theorem traverseLinks_marked (hn : n ∈ db.keyNodes.nodes) {s : PntStack TraversedKeyNode}
    (hs : s.elements = [⟨n, true⟩]) (withProperties : Bool) (fuel : Nat) :
    traverseLinks mem db withProperties (fuel + 1) ⟨[], s, false⟩ = some ⟨[], s, false⟩ := by
  obtain ⟨length, hlength⟩ : ∃ length, db.keyNodes.nodes.length = length + 1 :=
    ⟨db.keyNodes.nodes.length - 1, by have := List.length_pos_of_mem hn; omega⟩
  have hcb : traverseKeysNodesForeachCb mem db withProperties ⟨[], s, false⟩ ⟨s.stack, 0⟩ =
      some (0, ⟨[], s, false⟩) := by
    rw [traverseKeysNodesForeachCb, PntStack.load, if_pos rfl, hs]
    rfl
  have hforeach : pntStackForeach TraverseKeysNodesForeachCBContext.traversalStack
      (traverseKeysNodesForeachCb mem db withProperties) (db.keyNodes.nodes.length + 1) ⟨[], s, false⟩ =
      some ⟨[], s, false⟩ := by
    rw [pntStackForeach, hlength, pntStackForeachFrom, if_pos (by simp [hs]), hcb]
    simp only [Option.bind_eq_bind, Option.bind_some, ne_eq, not_true_eq_false, if_false]
    rw [pntStackForeachFrom, if_neg (by simp [hs])]
  rw [traverseLinks, hforeach]
  rfl

/-- **`key_node_to_json`** shows what the maps hold. -/
theorem keyNodeToJsonLinks_shown (h : db.Sound mem) (hn : n ∈ db.keyNodes.nodes) (withProperties withLinks : Bool) :
    ∃ record links, keyNodeToJsonLinks mem db n withProperties withLinks = some (record, links) ∧
      Shows (Layer.records mem db) n.1 withProperties withLinks record links := by
  have hrecord : ∃ keyNode, Layer.records mem db n.1 = some keyNode ∧
      showRecord n.1 (Layer.recordAt mem db n.2) withProperties = showRecord n.1 keyNode withProperties :=
    ⟨_, Layer.records_eq_some hn, rfl⟩
  cases withLinks with
  | false =>
    refine ⟨_, none, ?_, hrecord, rfl⟩
    rw [keyNodeToJsonLinks, if_pos rfl, keyNodeToJson_shown h hn]
    rfl
  | true =>
    cases withProperties with
    | true =>
      obtain ⟨links, hrun, hlinks⟩ := keyNodeToJsonLinks_linked h hn
      exact ⟨_, some links, hrun, hrecord, rfl, hlinks⟩
    | false =>
      obtain ⟨s₁, hpush₁, helements₁, -, -⟩ := pushPntStack_grown grown_initPntStack ⟨n, true⟩
      have hnewStack : (newPntStack INITIAL_TRAVERSAL_STACK_SIZE SIZEOF_TRAVERSED_KEY_NODE :
        Option (PntStack TraversedKeyNode)) = some (initPntStack _ _) := rfl
      refine ⟨_, some [], ?_, hrecord, rfl, rfl⟩
      rw [keyNodeToJsonLinks, if_neg (by decide)]
      simp only [hnewStack, hpush₁, keyNodeToJson_bare h hn, Option.bind_eq_bind, Option.bind_some]
      rw [traverseLinks_marked hn (s := s₁) helements₁]
      rfl

end

end Pincaster
