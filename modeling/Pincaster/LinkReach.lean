import Pincaster.LinkTraversal
import Pincaster.KeySearch
import Pincaster.Lib.Worklist
/-!
# LinkReach — what `$links` shows

Going through the stack finds the records that can be reached, each once.  The mark of a node is lost when the storage of
the stack was reallocated while its links were pushed, and the node is then shown again (`link_traversal_iff`).
-/
namespace Pincaster

open Lib (Bytes bytes cstr walk grow Swept Reach)

variable {D α : Type}

/-! ## The storage of a stack that only grows -/

/-- **A stack that was only pushed to**, with `n` elements to a chunk: the storage has been doubled `stack` times, each
time when it was full. -/
structure Grown (n : Nat) (s : PntStack α) : Prop where
  chunk : n * s.elementSize = STACK_CHUNK_SIZE
  size : s.stackSize = STACK_CHUNK_SIZE * 2 ^ s.stack
  fits : s.elements.length ≤ n * 2 ^ s.stack
  low : s.stack ≠ 0 → s.lowDepth < s.depth
  full : ∀ j, s.stack = j + 1 → n * 2 ^ j < s.elements.length

theorem Grown.pos {n : Nat} {s : PntStack α} (h : Grown n s) : 0 < n ∧ 0 < s.elementSize := by
  have := h.chunk
  rw [STACK_CHUNK_SIZE] at this
  constructor <;> refine Nat.pos_of_ne_zero (fun h0 => ?_) <;> rw [h0] at this <;> omega

/-- A stack that only grows is never halved: its depth is above the mark. -/
theorem shrinkPntStack_grown {n : Nat} {s : PntStack α} (h : Grown n s) : (shrinkPntStack s).elements = s.elements ∧
    Grown n (shrinkPntStack s) ∧ (shrinkPntStack s).stack = s.stack := by
  unfold shrinkPntStack
  by_cases hchunk : s.stackSize ≤ STACK_CHUNK_SIZE ∨ s.stackSize ≤ s.elementSize
  · rw [if_pos hchunk]
    exact ⟨rfl, h, rfl⟩
  · have hstack : s.stack ≠ 0 := fun h0 => hchunk (.inl (by rw [h.size, h0]; exact le_refl _))
    rw [if_neg hchunk, if_pos (h.low hstack)]
    exact ⟨rfl, ⟨h.chunk, h.size, h.fits, h.low, h.full⟩, rfl⟩

/-- **A push succeeds**, and adds its element. -/
theorem pushPntStack_grown {n : Nat} {s : PntStack α} (h : Grown n s) (x : α) : ∃ s', pushPntStack s x = some (s', 0) ∧
    s'.elements = s.elements ++ [x] ∧ Grown n s' ∧ s.stack ≤ s'.stack := by
  obtain ⟨hn, hes⟩ := h.pos
  have hcap : n * 2 ^ s.stack * s.elementSize = s.stackSize := by
    rw [h.size, ← h.chunk, Nat.mul_right_comm]
  have hpow : 0 < n * 2 ^ s.stack := Nat.mul_pos hn (Nat.two_pow_pos _)
  have hsnoc : (s.elements ++ [x]).length = s.elements.length + 1 := by rw [List.length_append, List.length_singleton]
  have hdepth : (s.elements ++ [x]).length * s.elementSize = s.depth + s.elementSize := by
    rw [hsnoc, PntStack.depth, Nat.add_mul, Nat.one_mul]
  unfold pushPntStack
  by_cases hlt : s.depth < s.stackSize
  · have hlen : s.elements.length < n * 2 ^ s.stack := by
      rw [← hcap, PntStack.depth] at hlt
      exact Nat.lt_of_mul_lt_mul_right hlt
    have hfit : (s.elements ++ [x]).length * s.elementSize ≤ s.stackSize := by
      rw [← hcap, hsnoc]
      exact Nat.mul_le_mul_right _ hlen
    have hgrown : Grown n { s with elements := s.elements ++ [x] } := by
      refine ⟨h.chunk, h.size, hsnoc.trans_le hlen, fun h0 => ?_, fun j hj => ?_⟩
      · have hlow := h.low h0
        exact Nat.lt_of_lt_of_eq (Nat.lt_add_right _ hlow) hdepth.symm
      · have hfull := h.full j hj
        exact Nat.lt_of_lt_of_eq (Nat.lt_succ_of_lt hfull) hsnoc.symm
    obtain ⟨helements, hshrink, hstack⟩ := shrinkPntStack_grown hgrown
    rw [if_pos hlt]
    exact ⟨_, if_pos hfit, helements, hshrink, Nat.le_of_eq hstack.symm⟩
  · have hlen : s.elements.length = n * 2 ^ s.stack := by
      refine Nat.le_antisymm h.fits (Nat.le_of_mul_le_mul_right ?_ hes)
      rw [hcap]
      exact Nat.le_of_not_lt hlt
    rw [if_neg hlt]
    refine ⟨_, rfl, rfl, ⟨h.chunk, ?_, ?_, fun _ => ?_, fun j hj => ?_⟩, Nat.le_succ _⟩
    · simp only [h.size, Nat.pow_succ, Nat.mul_assoc]
    · change (s.elements ++ [x]).length ≤ n * 2 ^ (s.stack + 1)
      rw [hsnoc, hlen, Nat.pow_succ, ← Nat.mul_assoc]
      omega
    · change s.stackSize < (s.elements ++ [x]).length * s.elementSize
      rw [hdepth, PntStack.depth, hlen, hcap]
      omega
    · have hj : s.stack = j := Nat.succ.inj hj
      change n * 2 ^ j < (s.elements ++ [x]).length
      rw [hsnoc, hlen, hj]
      exact Nat.lt_succ_self _

/-- **When the storage is the same**: no size at which it is reallocated lies between the two lengths. -/
theorem Grown.same_iff {n : Nat} {s s' : PntStack α} (h : Grown n s) (h' : Grown n s')
    (hle : s.elements.length ≤ s'.elements.length) :
    s.stack = s'.stack ↔ ∀ k, s'.elements.length ≤ n * 2 ^ k ∨ n * 2 ^ k < s.elements.length := by
  have hmono : ∀ {i j : Nat}, i ≤ j → n * 2 ^ i ≤ n * 2 ^ j := fun hij =>
    Nat.mul_le_mul_left n (Nat.pow_le_pow_right (by decide) hij)
  constructor
  · intro heq k
    by_cases hk : s'.stack ≤ k
    · exact .inl (h'.fits.trans (hmono hk))
    · obtain ⟨j, hj⟩ : ∃ j, s.stack = j + 1 := ⟨s.stack - 1, by omega⟩
      exact .inr (Nat.lt_of_le_of_lt (hmono (by omega)) (h.full j hj))
  · intro hall
    rcases Nat.lt_trichotomy s.stack s'.stack with hlt | heq | hgt
    · obtain ⟨j, hj⟩ : ∃ j, s'.stack = j + 1 := ⟨s'.stack - 1, by omega⟩
      have hfull := h'.full j hj
      have hfits := h.fits
      have hm := hmono (show s.stack ≤ j by omega)
      rcases hall s.stack with hk | hk <;> omega
    · exact heq
    · obtain ⟨j, hj⟩ : ∃ j, s.stack = j + 1 := ⟨s.stack - 1, by omega⟩
      have hfull := h.full j hj
      have hfits := h'.fits
      have hm := hmono (show s'.stack ≤ j by omega)
      omega

theorem grown_initPntStack : Grown 256 (initPntStack INITIAL_TRAVERSAL_STACK_SIZE SIZEOF_TRAVERSED_KEY_NODE :
    PntStack TraversedKeyNode) :=
  ⟨by decide, by decide, by decide, fun h0 => absurd rfl h0, fun j hj => absurd hj (Nat.succ_ne_zero j).symm⟩

theorem PntStack.store_grown {n : Nat} {s : PntStack α} (h : Grown n s) (p : ElementPtr) (f : α → α) :
    Grown n (s.store p f) ∧ (s.store p f).stack = s.stack := by
  unfold PntStack.store
  split
  · exact ⟨⟨h.chunk, h.size, by rw [List.length_modify]; exact h.fits, fun h0 => by
      rw [PntStack.depth, List.length_modify]; exact h.low h0, fun j hj => by
      rw [List.length_modify]; exact h.full j hj⟩, rfl⟩
  · exact ⟨h, rfl⟩

/-! ## The links of a record -/

/-- The record a property links to. -/
def linkOf (keyNodes : KeyNodeTree Nat) (property : Bytes × Bytes) : Option (Key × Nat) :=
  if isLinkProperty property.1 ∧ property.2 ≠ [] ∧ property.2.head? ≠ some 0 then keyNodes.find (property.2 ++ [0])
  else none

/-- **The records a record links to**, in the order of its properties; dangling links are none. -/
def linkTargets (mem : Layer.Memory) (db : Layer.Db D) (keyNode : Key × Nat) : List (Key × Nat) :=
  match mem.keyNodes.cells keyNode.2 with
  | none => []
  | some node => (visited node.properties).filterMap (linkOf db.keyNodes)

/-- **A layer in which nothing dangles**: its keys are those of records, and what hangs on a key node is there. -/
structure Layer.Db.Sound (mem : Layer.Memory) (db : Layer.Db D) : Prop where
  stored : ∀ n ∈ db.keyNodes.nodes, StoredKey n.1
  node : ∀ n ∈ db.keyNodes.nodes, ∃ node binds, mem.keyNodes.cells n.2 = some node ∧ Holds node.properties binds ∧
    (expiresAtOf mem node.expirable).isSome
  position : ∀ n ∈ db.keyNodes.nodes, (db.position n.2).isSome

/-- The key nodes on a stack. -/
def stackKeys (s : PntStack TraversedKeyNode) : List (Key × Nat) := s.elements.map TraversedKeyNode.keyNode

theorem cstr_storedKey {name : Bytes} (h : (0 : UInt8) ∉ name) : cstr (name ++ [0]) = name := by
  rw [cstr, List.takeWhile_append_of_pos (fun c hc => by simpa using fun (h0 : c = 0) => h (h0 ▸ hc))]
  simp

/-- Keys of records are compared by their names. -/
theorem strEq_storedKey {a b : Key} (ha : StoredKey a) (hb : StoredKey b) : strEq a b = true ↔ a = b := by
  obtain ⟨s, -, hs, rfl⟩ := ha
  obtain ⟨t, -, ht, rfl⟩ := hb
  rw [strEq, cstr_storedKey hs, cstr_storedKey ht, decide_eq_true_eq, List.append_left_inj]

/-- A key has one node. -/
theorem keyNode_unique {keyNodes : KeyNodeTree α} {m n : Key × α} (hm : m ∈ keyNodes.nodes) (hn : n ∈ keyNodes.nodes)
    (heq : m.1 = n.1) : m = n := by
  have h1 := (Lib.RbTree.find_eq_some keyNodeCmp_total).2 ⟨hm, rfl⟩
  have h2 := (Lib.RbTree.find_eq_some keyNodeCmp_total).2 ⟨hn, heq.symm⟩
  rw [h1, Option.some.injEq] at h2
  exact h2

/-- **The search for a duplicate** tells whether the node is on the stack, and its assertion holds. -/
theorem traversalStackIsDuplicate_spec {keyNodes : KeyNodeTree Nat} (hstored : ∀ n ∈ keyNodes.nodes, StoredKey n.1)
    {target : Key × Nat} (htarget : target ∈ keyNodes.nodes) : ∀ (elements : List TraversedKeyNode),
    (∀ e ∈ elements, e.keyNode ∈ keyNodes.nodes) →
    traversalStackIsDuplicate target.1 elements = some (decide (target ∈ elements.map TraversedKeyNode.keyNode))
  | [], _ => rfl
  | e :: elements, hmem => by
    have he := hmem e List.mem_cons_self
    have ih := traversalStackIsDuplicate_spec hstored htarget elements (fun x hx => hmem x (List.mem_cons_of_mem _ hx))
    rw [traversalStackIsDuplicate]
    by_cases heq : strEq target.1 e.keyNode.1 = true
    · have hkey := (strEq_storedKey (hstored _ htarget) (hstored _ he)).1 heq
      have hnode := keyNode_unique htarget he hkey
      rw [if_pos heq, if_pos (by rw [hkey]), hnode]
      simp
    · have hne : target ≠ e.keyNode := fun h =>
        heq ((strEq_storedKey (hstored _ htarget) (hstored _ he)).2 (by rw [h]))
      simp [heq, ih, hne]

/-- What pushing links leaves of a stack. -/
structure Pushed (s s' : PntStack TraversedKeyNode) (targets : List (Key × Nat)) : Prop where
  grown : Grown 256 s'
  keys : stackKeys s' = grow (stackKeys s) targets
  elements : ∃ added, s'.elements = s.elements ++ added ∧ ∀ e ∈ added, e.traversed = false
  stack_le : s.stack ≤ s'.stack

theorem Pushed.refl {s : PntStack TraversedKeyNode} (h : Grown 256 s) : Pushed s s [] :=
  ⟨h, rfl, ⟨[], (List.append_nil _).symm, fun _ he => nomatch he⟩, le_refl _⟩

/-- **One link** is pushed unless it is on the stack. -/
theorem recordsGetPropertiesCbLinks_spec {keyNodes : KeyNodeTree Nat} (hstored : ∀ n ∈ keyNodes.nodes, StoredKey n.1)
    {s : PntStack TraversedKeyNode} (hs : Grown 256 s) (hmem : ∀ n ∈ stackKeys s, n ∈ keyNodes.nodes)
    (json : List (Bytes × Bytes)) (p : Bytes × Bytes) :
    ∃ s', recordsGetPropertiesCbLinks keyNodes ⟨json, some s⟩ p.1 p.2 = some (0, ⟨json ++ [p], some s'⟩) ∧
      Pushed s s' (linkOf keyNodes p).toList := by
  unfold recordsGetPropertiesCbLinks linkOf
  by_cases hlink : isLinkProperty p.1 = true
  · by_cases hvalue : p.2 ≠ [] ∧ p.2.head? ≠ some 0
    · have hvalue' : ¬ (p.2.length ≤ 0 ∨ p.2.head? = some 0) := by
        rw [Nat.le_zero, List.length_eq_zero_iff, not_or]
        exact hvalue
      rw [if_pos ⟨hlink, hvalue⟩]
      simp only [hlink, Bool.true_eq_false, if_false, if_neg hvalue', getKeyNodeFromKey]
      cases hfind : keyNodes.find (p.2 ++ [0]) with
      | none => exact ⟨s, rfl, .refl hs⟩
      | some target =>
        obtain ⟨htarget, hkey⟩ := (Lib.RbTree.find_eq_some keyNodeCmp_total).1 hfind
        have hdup := traversalStackIsDuplicate_spec hstored htarget s.elements
          (fun e he => hmem _ (List.mem_map_of_mem he))
        rw [hkey] at hdup
        simp only [hdup, Option.bind_eq_bind, Option.bind_some, decide_eq_true_eq]
        by_cases hon : target ∈ s.elements.map TraversedKeyNode.keyNode
        · rw [if_pos hon]
          refine ⟨s, rfl, hs, ?_, ⟨[], (List.append_nil _).symm, fun _ he => nomatch he⟩, le_refl _⟩
          exact (Lib.grow_of_subset [target] (fun x hx => by rw [List.mem_singleton.1 hx]; exact hon)).symm
        · obtain ⟨s', hpush, helements, hgrown, hle⟩ := pushPntStack_grown hs ⟨target, false⟩
          rw [if_neg hon, hpush]
          refine ⟨s', rfl, hgrown, ?_, ⟨[⟨target, false⟩], helements, fun e he => ?_⟩, hle⟩
          · rw [stackKeys, helements, List.map_append, Option.toList_some, grow, grow, stackKeys, if_neg hon]
            rfl
          · rw [List.mem_singleton.1 he]
    · have hvalue' : p.2.length ≤ 0 ∨ p.2.head? = some 0 := by
        rw [Nat.le_zero, List.length_eq_zero_iff]
        by_contra hno
        exact hvalue (not_or.1 hno)
      rw [if_neg (fun h => hvalue h.2)]
      simp only [hlink, Bool.true_eq_false, if_false, if_pos hvalue']
      exact ⟨s, rfl, .refl hs⟩
  · rw [if_neg (fun h => hlink h.1)]
    rw [Bool.not_eq_true] at hlink
    simp only [hlink, if_true]
    exact ⟨s, rfl, .refl hs⟩

theorem grow_append (seen xs ys : List (Key × Nat)) : grow seen (xs ++ ys) = grow (grow seen xs) ys := by
  induction xs generalizing seen with
  | nil => rfl
  | cons x xs ih => rw [List.cons_append, grow, grow, ih]

theorem Pushed.trans {s s' s'' : PntStack TraversedKeyNode} {xs ys : List (Key × Nat)} (h : Pushed s s' xs)
    (h' : Pushed s' s'' ys) : Pushed s s'' (xs ++ ys) := by
  obtain ⟨added, hadded, hfalse⟩ := h.elements
  obtain ⟨added', hadded', hfalse'⟩ := h'.elements
  refine ⟨h'.grown, by rw [h'.keys, h.keys, grow_append], ⟨added ++ added', ?_, fun e he => ?_⟩,
    h.stack_le.trans h'.stack_le⟩
  · rw [hadded', hadded, List.append_assoc]
  · exact (List.mem_append.1 he).elim (hfalse e) (hfalse' e)

/-- **The links of some properties** are pushed one after the other. -/
theorem walk_links {keyNodes : KeyNodeTree Nat} (hstored : ∀ n ∈ keyNodes.nodes, StoredKey n.1) :
    ∀ (properties : List (Bytes × Bytes)) {s : PntStack TraversedKeyNode} (json : List (Bytes × Bytes)), Grown 256 s →
    (∀ n ∈ stackKeys s, n ∈ keyNodes.nodes) →
    ∃ s', walk (recordsGetPropertiesCbLinks keyNodes) properties ⟨json, some s⟩ =
        some (0, ⟨json ++ properties, some s'⟩) ∧ Pushed s s' (properties.filterMap (linkOf keyNodes))
  | [], s, json, hs, _ => ⟨s, by rw [walk, List.append_nil], .refl hs⟩
  | p :: properties, s, json, hs, hmem => by
    obtain ⟨s₁, hcb, hpush⟩ := recordsGetPropertiesCbLinks_spec hstored hs hmem json p
    have hmem₁ : ∀ n ∈ stackKeys s₁, n ∈ keyNodes.nodes := by
      intro n hn
      rw [hpush.keys, Lib.mem_grow] at hn
      rcases hn with hn | hn
      · exact hmem n hn
      · have hlink := Option.mem_toList.1 hn
        unfold linkOf at hlink
        split at hlink
        · exact ((Lib.RbTree.find_eq_some keyNodeCmp_total).1 hlink).1
        · cases hlink
    obtain ⟨s', hwalk, hpush'⟩ := walk_links hstored properties (json ++ [p]) hpush.grown hmem₁
    refine ⟨s', ?_, ?_⟩
    · rw [walk, hcb]
      simpa using hwalk
    · have heq : (p :: properties).filterMap (linkOf keyNodes) =
          (linkOf keyNodes p).toList ++ properties.filterMap (linkOf keyNodes) := by
        cases hlink : linkOf keyNodes p <;> simp [hlink]
      rw [heq]
      exact hpush.trans hpush'

theorem linkTargets_mem {mem : Layer.Memory} {db : Layer.Db D} {n m : Key × Nat} (h : m ∈ linkTargets mem db n) :
    m ∈ db.keyNodes.nodes := by
  unfold linkTargets at h
  split at h
  · cases h
  · obtain ⟨p, -, hlink⟩ := List.mem_filterMap.1 h
    unfold linkOf at hlink
    split at hlink
    · exact ((Lib.RbTree.find_eq_some keyNodeCmp_total).1 hlink).1
    · cases hlink

/-- **A record is shown** and its links are pushed. -/
theorem keyNodeToJson_links {mem : Layer.Memory} {db : Layer.Db D} (h : db.Sound mem) {n : Key × Nat}
    (hn : n ∈ db.keyNodes.nodes) {s : PntStack TraversedKeyNode} (hs : Grown 256 s)
    (hmem : ∀ m ∈ stackKeys s, m ∈ db.keyNodes.nodes) :
    ∃ record s', keyNodeToJson_ mem db n true (some s) = some (record, some s') ∧
      Pushed s s' (linkTargets mem db n) := by
  obtain ⟨node, binds, hcell, hholds, hexp⟩ := h.node n hn
  obtain ⟨position, hpos⟩ := Option.isSome_iff_exists.1 (h.position n hn)
  obtain ⟨e, he⟩ := Option.isSome_iff_exists.1 hexp
  simp only [keyNodeToJson_, linkTargets, hcell, hpos, he, Option.bind_eq_bind, Option.bind_some, Bool.true_eq_false,
    if_false]
  cases hprops : node.properties with
  | none => exact ⟨_, s, rfl, .refl hs⟩
  | some properties =>
    rw [hprops] at hholds
    obtain ⟨s', hwalk, hpush⟩ := walk_links h.stored (visited (some properties)) [] hs hmem
    have hforeach : slipMapForeachCb (some properties) (recordsGetPropertiesCbLinks db.keyNodes) ⟨[], some s⟩ =
        some ⟨[] ++ visited (some properties), some s'⟩ := by
      rw [hholds.foreach, hwalk]
      rfl
    simp only [hforeach, Option.bind_some]
    exact ⟨_, s', rfl, hpush⟩

end Pincaster
