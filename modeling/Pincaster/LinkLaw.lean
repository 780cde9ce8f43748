import Pincaster.LinkReach
/-!
# LinkLaw — the passes over the stack of a traversal

The first pass visits every record that can be reached; it leaves those unmarked whose links made the stack move, and the
second pass shows these again.
-/
namespace Pincaster

open Lib (Bytes bytes grow Swept Reach)

variable {D : Type} {mem : Layer.Memory} {db : Layer.Db D} {start : Key × Nat}

/-- The key nodes that are not marked. -/
def unmarked (elements : List TraversedKeyNode) : List (Key × Nat) :=
  (elements.filter (fun e => !e.traversed)).map TraversedKeyNode.keyNode

/-- What `$links` calls the records. -/
def linkNames (keyNodes : List (Key × Nat)) : List Bytes := keyNodes.map (fun n => n.1.dropLast)

/-- **What a pass keeps** when it has come to the element `i`. -/
structure PassInv (mem : Layer.Memory) (db : Layer.Db D) (start : Key × Nat) (i : Nat)
    (s : PntStack TraversedKeyNode) : Prop where
  grown : Grown 256 s
  swept : Swept (linkTargets mem db) start i (stackKeys s)
  known : ∀ n ∈ stackKeys s, n ∈ db.keyNodes.nodes

theorem length_stackKeys (s : PntStack TraversedKeyNode) : (stackKeys s).length = s.elements.length := List.length_map _

/-- The stack has at most the key nodes of the layer. -/
theorem PassInv.length_le {i : Nat} {s : PntStack TraversedKeyNode} (h : PassInv mem db start i s) :
    s.elements.length ≤ db.keyNodes.nodes.length := by
  rw [← length_stackKeys]
  exact (h.swept.nodup.subperm h.known).length_le

/-- A pass that has come further has come so far. -/
theorem PassInv.mono {i j : Nat} {s : PntStack TraversedKeyNode} (h : PassInv mem db start i s) (hj : j ≤ i) :
    PassInv mem db start j s :=
  ⟨h.grown, ⟨h.swept.head, h.swept.nodup, h.swept.reached, fun k x hk => h.swept.closed k x (by omega)⟩, h.known⟩

/-- At the end of the stack everything is gone through. -/
theorem PassInv.atEnd {i : Nat} {s : PntStack TraversedKeyNode} (h : PassInv mem db start i s)
    (hi : s.elements.length ≤ i) : PassInv mem db start s.elements.length s := h.mono hi

/-! ## One element -/

/-- A marked element is passed over. -/
theorem traverse_marked {context : TraverseKeysNodesForeachCBContext D} {i : Nat} {e : TraversedKeyNode}
    (he : context.traversalStack.elements[i]? = some e) (hmark : e.traversed = true) :
    traverseKeysNodesForeachCb mem db true context ⟨context.traversalStack.stack, i⟩ = some (0, context) := by
  simp only [traverseKeysNodesForeachCb, PntStack.load, if_true, he, Option.bind_eq_bind, Option.bind_some, hmark]

/-- The mark of the element `i`, written through a pointer into the storage `stack`. -/
def markAt (s : PntStack TraversedKeyNode) (stack i : Nat) : PntStack TraversedKeyNode :=
  s.store ⟨stack, i⟩ (fun e => { e with traversed := true })

theorem stackKeys_markAt (s : PntStack TraversedKeyNode) (stack i : Nat) : stackKeys (markAt s stack i) = stackKeys s := by
  unfold markAt PntStack.store stackKeys
  split
  · refine List.ext_getElem? (fun j => ?_)
    rw [List.getElem?_map, List.getElem?_map, List.getElem?_modify]
    by_cases hij : i = j
    · cases hj : s.elements[j]? <;> simp [hij]
    · simp [hij]
  · rfl

theorem getElem?_markAt (s : PntStack TraversedKeyNode) (stack : Nat) {i : Nat} {e : TraversedKeyNode}
    (he : s.elements[i]? = some e) : (markAt s stack i).elements[i]? =
      some (if stack = s.stack then { e with traversed := true } else e) := by
  unfold markAt PntStack.store
  by_cases hs : stack = s.stack
  · simp [hs, he]
  · simp [hs, he]

theorem getElem?_markAt_of_ne (s : PntStack TraversedKeyNode) (stack : Nat) {i j : Nat} (hij : i ≠ j) :
    (markAt s stack i).elements[j]? = s.elements[j]? := by
  unfold markAt PntStack.store
  split
  · simp [hij]
  · rfl

/-- **An unmarked element** is shown, its links are pushed, and then it is marked. -/
theorem traverse_unmarked (h : db.Sound mem) {context : TraverseKeysNodesForeachCBContext D} {i : Nat}
    (hinv : PassInv mem db start i context.traversalStack) {e : TraversedKeyNode}
    (he : context.traversalStack.elements[i]? = some e) (hmark : e.traversed = false) :
    ∃ record s, traverseKeysNodesForeachCb mem db true context ⟨context.traversalStack.stack, i⟩ =
        some (0, ⟨context.links ++ [(e.keyNode.1.dropLast, record)],
          markAt s context.traversalStack.stack i, true⟩) ∧
      Pushed context.traversalStack s (linkTargets mem db e.keyNode) ∧
      PassInv mem db start (i + 1) (markAt s context.traversalStack.stack i) ∧
      (markAt s context.traversalStack.stack i).stack = s.stack := by
  have hkey : (stackKeys context.traversalStack)[i]? = some e.keyNode := by
    rw [stackKeys, List.getElem?_map, he]
    rfl
  have hnode := hinv.known _ (List.mem_of_getElem? hkey)
  obtain ⟨record, s, hjson, hpush⟩ := keyNodeToJson_links h hnode hinv.grown hinv.known
  obtain ⟨hgrown, hstack⟩ := PntStack.store_grown hpush.grown ⟨context.traversalStack.stack, i⟩
    (fun e => { e with traversed := true })
  refine ⟨record, s, ?_, hpush, ⟨hgrown, ?_, ?_⟩, hstack⟩
  · simp only [traverseKeysNodesForeachCb, PntStack.load, if_true, he, Option.bind_eq_bind, Option.bind_some, hmark,
      Bool.false_eq_true, if_false, hjson]
    rfl
  · rw [stackKeys_markAt, hpush.keys]
    exact hinv.swept.step hkey
  · rw [stackKeys_markAt, hpush.keys]
    intro n hn
    rcases (Lib.mem_grow _ _).1 hn with hn | hn
    · exact hinv.known n hn
    · exact linkTargets_mem hn

/-! ## The passes -/

/-- The `pnt_stack_foreach` of a traversal. -/
abbrev traverseFrom (mem : Layer.Memory) (db : Layer.Db D) : Nat → Nat → TraverseKeysNodesForeachCBContext D →
    Option (TraverseKeysNodesForeachCBContext D) :=
  pntStackForeachFrom TraverseKeysNodesForeachCBContext.traversalStack (traverseKeysNodesForeachCb mem db true)

/-- **The first pass**: from an element on nothing is marked.  It goes through all that can be reached; the elements are
all marked at its end when the storage of the stack was not reallocated. -/
theorem firstPass (h : db.Sound mem) : ∀ (fuel i : Nat) (context : TraverseKeysNodesForeachCBContext D),
    PassInv mem db start i context.traversalStack →
    (∀ j e, i ≤ j → context.traversalStack.elements[j]? = some e → e.traversed = false) →
    i ≤ context.traversalStack.elements.length → db.keyNodes.nodes.length < fuel + i →
    ∃ context', traverseFrom mem db fuel i context = some context' ∧
      PassInv mem db start context'.traversalStack.elements.length context'.traversalStack ∧
      context'.links.map Prod.fst =
        context.links.map Prod.fst ++ linkNames ((stackKeys context'.traversalStack).drop i) ∧
      context'.foundJob = (context.foundJob || decide (i < context'.traversalStack.elements.length)) ∧
      (∀ j < i, context'.traversalStack.elements[j]? = context.traversalStack.elements[j]?) ∧
      context.traversalStack.elements.length ≤ context'.traversalStack.elements.length ∧
      context.traversalStack.stack ≤ context'.traversalStack.stack ∧
      ((∀ j e, i ≤ j → context'.traversalStack.elements[j]? = some e → e.traversed = true) ↔
        context.traversalStack.stack = context'.traversalStack.stack)
  | 0, i, context, hinv, _, hle, hfuel => by
    have := hinv.length_le
    omega
  | fuel + 1, i, context, hinv, hfalse, _, hfuel => by
    rw [traverseFrom, pntStackForeachFrom]
    by_cases hi : i < context.traversalStack.elements.length
    · obtain ⟨e, he⟩ : ∃ e, context.traversalStack.elements[i]? = some e := ⟨_, List.getElem?_eq_getElem hi⟩
      obtain ⟨record, s, hcb, hpush, hinv', hstack⟩ := traverse_unmarked h hinv he (hfalse i e le_rfl he)
      obtain ⟨added, hadded, hnew⟩ := hpush.elements
      have hkeys := congrArg List.length (stackKeys_markAt s context.traversalStack.stack i)
      rw [length_stackKeys, length_stackKeys] at hkeys
      have hslen : context.traversalStack.elements.length ≤ s.elements.length := by
        rw [hadded, List.length_append]
        omega
      have hs : s.elements[i]? = some e := by rw [hadded, List.getElem?_append_left hi, he]
      have hfalse' : ∀ j e', i + 1 ≤ j → (markAt s context.traversalStack.stack i).elements[j]? = some e' →
          e'.traversed = false := by
        intro j e' hj he'
        rw [getElem?_markAt_of_ne _ _ (by omega), hadded] at he'
        by_cases hold : j < context.traversalStack.elements.length
        · rw [List.getElem?_append_left hold] at he'
          exact hfalse j e' (by omega) he'
        · rw [List.getElem?_append_right (by omega)] at he'
          exact hnew e' (List.mem_of_getElem? he')
      obtain ⟨context', hrun, hend, hlinks, hjob, hkept, hlen, hle, hall⟩ := firstPass h fuel (i + 1)
        ⟨context.links ++ [(e.keyNode.1.dropLast, record)], markAt s context.traversalStack.stack i, true⟩ hinv' hfalse'
        (by rw [hkeys]; omega) (by omega)
      simp only at hlinks hjob hkept hlen hle hall
      have hi' : i < (stackKeys context'.traversalStack).length := by
        rw [length_stackKeys]
        omega
      have hei : context'.traversalStack.elements[i]? =
          some (if context.traversalStack.stack = s.stack then { e with traversed := true } else e) := by
        rw [hkept i (Nat.lt_succ_self i), getElem?_markAt _ _ hs]
      have hname : (stackKeys context'.traversalStack)[i] = e.keyNode := by
        have hget : (stackKeys context'.traversalStack)[i]? = some e.keyNode := by
          rw [stackKeys, List.getElem?_map, hei]
          split <;> rfl
        rw [List.getElem?_eq_getElem hi', Option.some.injEq] at hget
        exact hget
      refine ⟨context', ?_, hend, ?_, ?_, fun j hj => ?_, by omega, ?_, ?_⟩
      · rw [if_pos hi, hcb]
        exact hrun
      · rw [hlinks, List.drop_eq_getElem_cons hi', hname, linkNames, linkNames, List.map_append, List.map_cons,
          List.append_assoc]
        rfl
      · rw [length_stackKeys] at hi'
        simp [hjob, hi']
      · rw [hkept j (by omega), getElem?_markAt_of_ne _ _ (by omega), hadded, List.getElem?_append_left (by omega)]
      · exact hpush.stack_le.trans (hstack ▸ hle)
      · have hsle := hpush.stack_le
        rw [hstack] at hle hall
        constructor
        · intro hmarks
          have hrest := hall.1 (fun j e' hj => hmarks j e' (by omega))
          have hmine := hmarks i _ le_rfl hei
          by_cases hsame : context.traversalStack.stack = s.stack
          · exact hsame.trans hrest
          · rw [if_neg hsame, hfalse i e le_rfl he] at hmine
            cases hmine
        · intro hsame j e' hj he'
          rcases Nat.eq_or_lt_of_le hj with rfl | hj
          · rw [hei, if_pos (by omega), Option.some.injEq] at he'
            rw [← he']
          · exact hall.2 (by omega) j e' hj he'
    · rw [if_neg hi]
      refine ⟨context, rfl, hinv.atEnd (by omega), ?_, ?_, fun _ _ => rfl, le_rfl, le_rfl, ?_⟩
      · rw [List.drop_eq_nil_of_le (by rw [length_stackKeys]; omega)]
        simp [linkNames]
      · simp [hi]
      · refine ⟨fun _ => rfl, fun _ j e hj he => ?_⟩
        have := (List.getElem?_eq_some_iff.1 he).1
        omega

/-- **A later pass** shows what is not marked and marks it; nothing is pushed any more. -/
theorem laterPass (h : db.Sound mem) : ∀ (fuel i : Nat) (context : TraverseKeysNodesForeachCBContext D),
    PassInv mem db start context.traversalStack.elements.length context.traversalStack →
    i ≤ context.traversalStack.elements.length → context.traversalStack.elements.length < fuel + i →
    ∃ context', traverseFrom mem db fuel i context = some context' ∧
      PassInv mem db start context'.traversalStack.elements.length context'.traversalStack ∧
      context'.links.map Prod.fst =
        context.links.map Prod.fst ++ linkNames (unmarked (context.traversalStack.elements.drop i)) ∧
      context'.foundJob = (context.foundJob || !(unmarked (context.traversalStack.elements.drop i)).isEmpty) ∧
      (∀ j < i, context'.traversalStack.elements[j]? = context.traversalStack.elements[j]?) ∧
      unmarked (context'.traversalStack.elements.drop i) = []
  | 0, i, context, hinv, hle, hfuel => by omega
  | fuel + 1, i, context, hinv, _, hfuel => by
    rw [traverseFrom, pntStackForeachFrom]
    by_cases hi : i < context.traversalStack.elements.length
    · obtain ⟨e, he⟩ : ∃ e, context.traversalStack.elements[i]? = some e := ⟨_, List.getElem?_eq_getElem hi⟩
      have hdrop : context.traversalStack.elements.drop i = e :: context.traversalStack.elements.drop (i + 1) := by
        rw [List.drop_eq_getElem_cons hi]
        rw [List.getElem?_eq_getElem hi, Option.some.injEq] at he
        rw [he]
      rw [if_pos hi]
      by_cases hmark : e.traversed = true
      · obtain ⟨context', hrun, hend, hlinks, hjob, hkept, hdone⟩ := laterPass h fuel (i + 1) context hinv (by omega) (by omega)
        have hun : unmarked (context.traversalStack.elements.drop i) =
            unmarked (context.traversalStack.elements.drop (i + 1)) := by
          simp [hdrop, unmarked, hmark]
        refine ⟨context', ?_, hend, by rw [hun, hlinks], by rw [hun, hjob], fun j hj => hkept j (by omega), ?_⟩
        · rw [traverse_marked he hmark]
          exact hrun
        · have hei := hkept i (Nat.lt_succ_self i)
          rw [he] at hei
          obtain ⟨hlt, hget⟩ := List.getElem?_eq_some_iff.1 hei
          rw [List.drop_eq_getElem_cons hlt, hget]
          simpa [unmarked, hmark] using hdone
      · rw [Bool.not_eq_true] at hmark
        obtain ⟨record, s, hcb, hpush, -, hstack⟩ := traverse_unmarked h (hinv.mono hi.le) he hmark
        have hkey : (stackKeys context.traversalStack)[i]? = some e.keyNode := by
          rw [stackKeys, List.getElem?_map, he]
          rfl
        have hkeys : stackKeys s = stackKeys context.traversalStack := by
          rw [hpush.keys]
          exact Lib.grow_of_subset _ (fun n hn => hinv.swept.closed i _ hi hkey n hn)
        obtain ⟨added, hadded, -⟩ := hpush.elements
        have hlen : s.elements.length = context.traversalStack.elements.length := by
          rw [← length_stackKeys, hkeys, length_stackKeys]
        have hnil : added = [] := by
          rw [hadded, List.length_append] at hlen
          exact List.eq_nil_of_length_eq_zero (by omega)
        rw [hnil, List.append_nil] at hadded
        have hsame : context.traversalStack.stack = s.stack :=
          (hinv.grown.same_iff hpush.grown hlen.ge).2 (fun k => by omega)
        have hmarked : (markAt s context.traversalStack.stack i).elements.length =
            context.traversalStack.elements.length := by
          rw [← length_stackKeys, stackKeys_markAt, hkeys, length_stackKeys]
        have hinv' : PassInv mem db start (markAt s context.traversalStack.stack i).elements.length
            (markAt s context.traversalStack.stack i) := by
          have hgrown := (PntStack.store_grown hpush.grown ⟨context.traversalStack.stack, i⟩
            (fun e => { e with traversed := true })).1
          rw [hmarked]
          exact ⟨hgrown, by rw [stackKeys_markAt, hkeys]; exact hinv.swept, by
            rw [stackKeys_markAt, hkeys]; exact hinv.known⟩
        obtain ⟨context', hrun, hend, hlinks, hjob, hkept, hdone⟩ := laterPass h fuel (i + 1)
          ⟨context.links ++ [(e.keyNode.1.dropLast, record)], markAt s context.traversalStack.stack i, true⟩ hinv'
          (by rw [hmarked]; omega) (by rw [hmarked]; omega)
        simp only at hlinks hjob hkept
        have hrest : (markAt s context.traversalStack.stack i).elements.drop (i + 1) =
            context.traversalStack.elements.drop (i + 1) := by
          refine List.ext_getElem? (fun j => ?_)
          rw [List.getElem?_drop, List.getElem?_drop, getElem?_markAt_of_ne _ _ (by omega), hadded]
        have hun : unmarked (context.traversalStack.elements.drop i) =
            e.keyNode :: unmarked (context.traversalStack.elements.drop (i + 1)) := by
          simp [hdrop, unmarked, hmark]
        rw [hrest] at hlinks hjob
        refine ⟨context', ?_, hend, ?_, by simp [hun, hjob], fun j hj => ?_, ?_⟩
        · rw [hcb]
          exact hrun
        · rw [hlinks, hun, linkNames, linkNames, List.map_cons, List.map_append, List.append_assoc]
          rfl
        · rw [hkept j (by omega), getElem?_markAt_of_ne _ _ (by omega), hadded]
        · have hei := hkept i (Nat.lt_succ_self i)
          rw [getElem?_markAt s _ (by rw [hadded]; exact he), if_pos hsame] at hei
          obtain ⟨hlt, hget⟩ := List.getElem?_eq_some_iff.1 hei
          rw [List.drop_eq_getElem_cons hlt, hget]
          simpa [unmarked] using hdone
    · rw [if_neg hi]
      have hnil : context.traversalStack.elements.drop i = [] := List.drop_eq_nil_of_le (by omega)
      exact ⟨context, rfl, hinv, by simp [hnil, unmarked, linkNames], by simp [hnil, unmarked], fun _ _ => rfl,
        by rw [hnil]; rfl⟩

/-! ## The whole traversal -/

theorem unmarked_eq_nil {elements : List TraversedKeyNode} :
    unmarked elements = [] ↔
      ∀ (j : Nat) (e : TraversedKeyNode), elements[j]? = some e → e.traversed = true := by
  rw [unmarked, List.map_eq_nil_iff, List.filter_eq_nil_iff]
  refine ⟨fun hall j e he => by simpa using hall e (List.mem_of_getElem? he), fun hall e he => ?_⟩
  obtain ⟨j, hj, rfl⟩ := List.getElem_of_mem he
  simpa using hall j _ (List.getElem?_eq_getElem hj)

/-- The first pass passes over the record itself, which is marked. -/
theorem firstPass_start (h : db.Sound mem) (context : TraverseKeysNodesForeachCBContext D)
    (hinv : PassInv mem db start 1 context.traversalStack) {e : TraversedKeyNode}
    (he : context.traversalStack.elements[0]? = some e) (hmark : e.traversed = true)
    (hfalse : ∀ j e, 1 ≤ j → context.traversalStack.elements[j]? = some e → e.traversed = false) :
    ∃ context', traverseFrom mem db (db.keyNodes.nodes.length + 1) 0 context = some context' ∧
      PassInv mem db start context'.traversalStack.elements.length context'.traversalStack ∧
      context'.links.map Prod.fst =
        context.links.map Prod.fst ++ linkNames ((stackKeys context'.traversalStack).drop 1) ∧
      context'.foundJob = (context.foundJob || decide (1 < context'.traversalStack.elements.length)) ∧
      (unmarked context'.traversalStack.elements = [] ↔ ∀ k,
        context'.traversalStack.elements.length ≤ 256 * 2 ^ k ∨ 256 * 2 ^ k < context.traversalStack.elements.length) ∧
      ∀ n ∈ unmarked context'.traversalStack.elements, n ∈ (stackKeys context'.traversalStack).drop 1 := by
  have h0 := (List.getElem?_eq_some_iff.1 he).1
  obtain ⟨context', hrun, hend, hlinks, hjob, hkept, hlen, -, hall⟩ :=
    firstPass h db.keyNodes.nodes.length 1 context hinv hfalse h0 (Nat.lt_succ_self _)
  have he' : context'.traversalStack.elements[0]? = some e := by rw [hkept 0 (by omega), he]
  refine ⟨context', ?_, hend, hlinks, hjob, ?_, fun n hn => ?_⟩
  · rw [traverseFrom, pntStackForeachFrom, if_pos h0, traverse_marked he hmark]
    exact hrun
  · rw [unmarked_eq_nil, ← hinv.grown.same_iff hend.grown hlen, ← hall]
    refine ⟨fun hmarks j e' _ he'' => hmarks j e' he'', fun hmarks j e' he'' => ?_⟩
    rcases Nat.eq_zero_or_pos j with rfl | hj
    · rw [he', Option.some.injEq] at he''
      rw [← he'', hmark]
    · exact hmarks j e' hj he''
  · obtain ⟨hlt, hget⟩ := List.getElem?_eq_some_iff.1 he'
    have hcons : context'.traversalStack.elements = e :: context'.traversalStack.elements.drop 1 := by
      have := List.drop_eq_getElem_cons hlt
      rwa [List.drop_zero, hget] at this
    obtain ⟨x, hx, rfl⟩ := List.mem_map.1 hn
    rw [hcons, List.filter_cons_of_neg (by simp [hmark])] at hx
    rw [stackKeys, ← List.map_drop]
    exact List.mem_map_of_mem (List.mem_filter.1 hx).1

/-- One round of the traversal. -/
theorem traverseLinks_succ {fuel : Nat} {context context' : TraverseKeysNodesForeachCBContext D}
    (hrun : traverseFrom mem db (db.keyNodes.nodes.length + 1) 0 { context with foundJob := false } = some context') :
    traverseLinks mem db true (fuel + 1) context =
      if context'.foundJob then traverseLinks mem db true fuel context' else some context' := by
  rw [traverseFrom] at hrun
  rw [traverseLinks, pntStackForeach]
  simp only [hrun, Option.bind_eq_bind, Option.bind_some]

/-- **The traversal ends** after three passes at most: what `$links` shows are the records found and then, once more, those
that were left unmarked. -/
theorem traverseLinks_spec (h : db.Sound mem) {s : PntStack TraversedKeyNode} (hinv : PassInv mem db start 1 s)
    {e : TraversedKeyNode} (he : s.elements[0]? = some e) (hmark : e.traversed = true)
    (hfalse : ∀ j e, 1 ≤ j → s.elements[j]? = some e → e.traversed = false) (fuel : Nat) :
    ∃ context keys lost, traverseLinks mem db true (fuel + 3) ⟨[], s, false⟩ = some context ∧
      Swept (linkTargets mem db) start keys.length keys ∧ (∀ n ∈ keys, n ∈ db.keyNodes.nodes) ∧
      context.links.map Prod.fst = linkNames (keys.drop 1) ++ linkNames lost ∧ (∀ n ∈ lost, n ∈ keys.drop 1) ∧
      (lost = [] ↔ ∀ k, keys.length ≤ 256 * 2 ^ k ∨ 256 * 2 ^ k < s.elements.length) := by
  obtain ⟨c₁, hrun₁, hend₁, hlinks₁, hjob₁, hlost, hsub⟩ :=
    firstPass_start h ⟨[], s, false⟩ hinv he hmark hfalse
  have hkeys : (stackKeys c₁.traversalStack).length = c₁.traversalStack.elements.length := length_stackKeys _
  have hlen₁ : c₁.traversalStack.elements.length < db.keyNodes.nodes.length + 1 := Nat.lt_succ_of_le hend₁.length_le
  suffices hsuff : ∃ context, traverseLinks mem db true (fuel + 3) ⟨[], s, false⟩ = some context ∧
      context.links.map Prod.fst = c₁.links.map Prod.fst ++ linkNames (unmarked c₁.traversalStack.elements) by
    obtain ⟨context, hrun, hlinks⟩ := hsuff
    refine ⟨context, stackKeys c₁.traversalStack, unmarked c₁.traversalStack.elements, hrun, ?_, hend₁.known, ?_, hsub,
      by rw [hkeys]; exact hlost⟩
    · rw [hkeys]
      exact hend₁.swept
    · rw [hlinks, hlinks₁]
      rfl
  rw [traverseLinks_succ hrun₁]
  cases hfound₁ : c₁.foundJob with
  | false =>
    rw [hjob₁, Bool.false_or, decide_eq_false_iff_not] at hfound₁
    have hnil : unmarked c₁.traversalStack.elements = [] := by
      refine List.eq_nil_iff_forall_not_mem.2 (fun n hn => ?_)
      have hmem := hsub n hn
      rw [List.drop_eq_nil_of_le (by rw [hkeys]; omega)] at hmem
      cases hmem
    exact ⟨c₁, rfl, by rw [hnil, linkNames, List.map_nil, List.append_nil]⟩
  | true =>
    obtain ⟨c₂, hrun₂, hend₂, hlinks₂, hjob₂, -, hdone₂⟩ := laterPass h (db.keyNodes.nodes.length + 1) 0
      { c₁ with foundJob := false } hend₁ (Nat.zero_le _) hlen₁
    simp only [List.drop_zero, Bool.false_or] at hlinks₂ hjob₂ hdone₂
    rw [if_pos rfl, traverseLinks_succ hrun₂]
    cases hfound₂ : c₂.foundJob with
    | false => exact ⟨c₂, rfl, hlinks₂⟩
    | true =>
      obtain ⟨c₃, hrun₃, -, hlinks₃, hjob₃, -, -⟩ := laterPass h (db.keyNodes.nodes.length + 1) 0
        { c₂ with foundJob := false } hend₂ (Nat.zero_le _) (Nat.lt_succ_of_le hend₂.length_le)
      simp only [List.drop_zero, Bool.false_or, hdone₂] at hlinks₃ hjob₃
      refine ⟨c₃, ?_, by rw [hlinks₃, hlinks₂]; simp [linkNames]⟩
      rw [if_pos rfl, traverseLinks_succ hrun₃, hjob₃]
      rfl

/-- Records have different names. -/
theorem linkNames_nodup (h : db.Sound mem) {keys : List (Key × Nat)} (hknown : ∀ n ∈ keys, n ∈ db.keyNodes.nodes)
    (hnodup : keys.Nodup) : (linkNames keys).Nodup := by
  refine hnodup.map_on (fun m hm n hn heq => keyNode_unique (hknown m hm) (hknown n hn) ?_)
  obtain ⟨s, -, -, hs⟩ := h.stored m (hknown m hm)
  obtain ⟨t, -, -, ht⟩ := h.stored n (hknown n hn)
  rw [hs, ht, List.dropLast_concat, List.dropLast_concat] at heq
  rw [hs, ht, heq]

/-- **`$links` is right**: one entry for each record that can be reached, other than the record itself. -/
def LinksRight (mem : Layer.Memory) (db : Layer.Db D) (start : Key × Nat) (links : List (Bytes × RecordJson D)) : Prop :=
  (links.map Prod.fst).Nodup ∧ ∀ name, name ∈ links.map Prod.fst ↔
    ∃ n, Reach (linkTargets mem db) start n ∧ n ≠ start ∧ name = n.1.dropLast

/-- **What `$links` shows**: the records found, less the first, and once more some of them. -/
theorem keyNodeToJsonLinks_spec (h : db.Sound mem) (hstart : start ∈ db.keyNodes.nodes) :
    ∃ record links rest lost, keyNodeToJsonLinks mem db start true true = some (record, some links) ∧
      Swept (linkTargets mem db) start (start :: rest).length (start :: rest) ∧
      (∀ n ∈ rest, n ∈ db.keyNodes.nodes) ∧
      links.map Prod.fst = linkNames rest ++ linkNames lost ∧ (∀ n ∈ lost, n ∈ rest) ∧
      (lost = [] ↔ ∀ k, (start :: rest).length ≤ 256 * 2 ^ k ∨
        256 * 2 ^ k < (start :: linkTargets mem db start).dedup.length) := by
  obtain ⟨s₁, hpush₁, helements₁, hgrown₁, -⟩ := pushPntStack_grown grown_initPntStack ⟨start, true⟩
  have hkeys₁ : stackKeys s₁ = [start] := by
    rw [stackKeys, helements₁]
    rfl
  obtain ⟨record, s, hjson, hpushed⟩ := keyNodeToJson_links h hstart hgrown₁
    (by rw [hkeys₁]; exact fun m hm => List.mem_singleton.1 hm ▸ hstart)
  obtain ⟨added, hadded, hnew⟩ := hpushed.elements
  rw [helements₁] at hadded
  have hkeys : stackKeys s = grow [start] (linkTargets mem db start) := by rw [hpushed.keys, hkeys₁]
  have hinv : PassInv mem db start 1 s := by
    refine ⟨hpushed.grown, ?_, fun n hn => ?_⟩
    · rw [hkeys]
      exact (Lib.swept_singleton _ start).step rfl
    · rw [hkeys, Lib.mem_grow, List.mem_singleton] at hn
      exact hn.elim (fun hn => hn ▸ hstart) linkTargets_mem
  obtain ⟨context, keys, lost, hrun, hswept, hknown, hlinks, hsub, hlost⟩ :=
    traverseLinks_spec h hinv (e := ⟨start, true⟩) (by rw [hadded]; rfl) rfl
      (fun j e hj he => by
        rw [hadded, List.getElem?_append_right (by exact hj)] at he
        exact hnew e (List.mem_of_getElem? he)) db.keyNodes.nodes.length
  have hlen : (start :: linkTargets mem db start).dedup.length = s.elements.length := by
    rw [← length_stackKeys, hkeys]
    refine ((List.perm_ext_iff_of_nodup (List.nodup_dedup _)
      (Lib.nodup_grow _ (List.nodup_singleton start))).2 (fun n => ?_)).length_eq
    rw [List.mem_dedup, Lib.mem_grow, List.mem_cons, List.mem_singleton]
  obtain ⟨rest, rfl⟩ : ∃ rest, keys = start :: rest := by
    have hhead := hswept.head
    cases keys with
    | nil => cases hhead
    | cons n rest =>
      rw [List.head?_cons, Option.some.injEq] at hhead
      exact ⟨rest, by rw [hhead]⟩
  refine ⟨record, context.links, rest, lost, ?_, hswept, fun n hn => hknown n (List.mem_cons_of_mem _ hn), hlinks, hsub,
    by rw [hlen]; exact hlost⟩
  have hnewStack : (newPntStack INITIAL_TRAVERSAL_STACK_SIZE SIZEOF_TRAVERSED_KEY_NODE :
    Option (PntStack TraversedKeyNode)) = some (initPntStack _ _) := rfl
  rw [keyNodeToJsonLinks, if_neg (by decide)]
  simp only [hnewStack, hpush₁, hjson, hrun, Option.bind_eq_bind, Option.bind_some]

/-- The entries are right when none is shown once more. -/
theorem linksRight_iff (h : db.Sound mem) {rest lost : List (Key × Nat)} {links : List (Bytes × RecordJson D)}
    (hswept : Swept (linkTargets mem db) start (start :: rest).length (start :: rest))
    (hknown : ∀ n ∈ rest, n ∈ db.keyNodes.nodes) (hlinks : links.map Prod.fst = linkNames rest ++ linkNames lost)
    (hsub : ∀ n ∈ lost, n ∈ rest) : LinksRight mem db start links ↔ lost = [] := by
  have hnodup := List.nodup_cons.1 hswept.nodup
  unfold LinksRight
  rw [hlinks]
  constructor
  · rintro ⟨hnd, -⟩
    refine List.eq_nil_iff_forall_not_mem.2 (fun n hn => ?_)
    rw [List.nodup_append] at hnd
    exact hnd.2.2 _ (List.mem_map_of_mem (hsub n hn)) _ (List.mem_map_of_mem hn) rfl
  · rintro rfl
    rw [linkNames, linkNames, List.map_nil, List.append_nil]
    refine ⟨linkNames_nodup h hknown hnodup.2, fun name => ?_⟩
    rw [List.mem_map]
    constructor
    · rintro ⟨n, hn, rfl⟩
      exact ⟨n, (hswept.mem_iff le_rfl).1 (List.mem_cons_of_mem _ hn), fun heq => hnodup.1 (heq ▸ hn), rfl⟩
    · rintro ⟨n, hreach, hne, rfl⟩
      have hn := (hswept.mem_iff le_rfl).2 hreach
      exact ⟨n, (List.mem_cons.1 hn).resolve_left hne, rfl⟩

/-- **The link law**: a traversal ends, and `$links` is right exactly when the stack is not reallocated while the links of
a linked record are pushed: every size 256, 512, 1024, ... at which it is full is either not exceeded by the records that
can be reached, the first one included, or already exceeded by the record and those it links to. -/
theorem link_traversal_iff (h : db.Sound mem) (hstart : start ∈ db.keyNodes.nodes) :
    ∃ record links, keyNodeToJsonLinks mem db start true true = some (record, some links) ∧
      (LinksRight mem db start links ↔ ∀ k, Set.ncard {n | Reach (linkTargets mem db) start n} ≤ 256 * 2 ^ k ∨
        256 * 2 ^ k < (start :: linkTargets mem db start).dedup.length) := by
  obtain ⟨record, links, rest, lost, hrun, hswept, hknown, hlinks, hsub, hlost⟩ := keyNodeToJsonLinks_spec h hstart
  refine ⟨record, links, hrun, ?_⟩
  rw [linksRight_iff h hswept hknown hlinks hsub, hlost, hswept.ncard le_rfl]

/-! ## A chain of records -/

/-- The name of the record `i` of a chain: two bytes, and no NUL. -/
def chainName (i : Nat) : Bytes := [UInt8.ofNat (i / 100 + 1), UInt8.ofNat (i % 100 + 1)]

def chainNode (i : Nat) : Key × Nat := (chainName i ++ [0], i)

/-- Every record of the chain links to the next, the record `n` to none. -/
def chainProperties (n i : Nat) : Option SlipMap :=
  if i < n then (putProperty none (bytes "$link:n") (chainName (i + 1))).join else none

def chainMemory (n : Nat) : Layer.Memory where
  keyNodes := ⟨fun i => if i ≤ n then some ⟨chainProperties n i, none⟩ else none, n + 1, fun i hi => if_neg (by omega)⟩
  expirables := .empty

theorem chainNode_lt (i : Nat) (hi : i < 256) : keyNodeCmp (chainNode i).1 (chainNode (i + 1)).1 < 0 := by
  revert i
  decide +kernel

theorem chainNode_lt_of_lt {i j : Nat} (hij : i < j) (hj : j ≤ 256) :
    keyNodeCmp (chainNode i).1 (chainNode j).1 < 0 := by
  induction hij with
  | refl => exact chainNode_lt i (by omega)
  | @step j hij ih => exact keyNodeCmp_total.trans _ _ _ (ih (by omega)) (chainNode_lt j (by omega))

def chainDb (n : Nat) (hn : n ≤ 256) : Layer.Db ℚ where
  panDb := initPanDb
  keyNodes := ⟨(List.range (n + 1)).map chainNode, by
    rw [List.pairwise_map]
    refine List.pairwise_lt_range.imp_of_mem (fun {i j} _ hj hij => chainNode_lt_of_lt hij ?_)
    have := List.mem_range.1 hj
    omega⟩
  expirables := []

theorem mem_chainDb {n : Nat} {hn : n ≤ 256} {m : Key × Nat} :
    m ∈ (chainDb n hn).keyNodes.nodes ↔ ∃ i ≤ n, m = chainNode i := by
  change m ∈ (List.range (n + 1)).map chainNode ↔ _
  simp only [List.mem_map, List.mem_range, Nat.lt_succ_iff, eq_comm]

theorem storedKey_chainNode {i : Nat} (hi : i ≤ 256) : StoredKey (chainNode i).1 := by
  have hnul : ∀ j < 257, (0 : UInt8) ∉ chainName j := by decide +kernel
  exact ⟨chainName i, List.cons_ne_nil _ _, hnul i (Nat.lt_succ_of_le hi), rfl⟩

theorem stored_chainName : ∀ i < 256, Stored none (bytes "$link:n") (chainName (i + 1)) := by decide +kernel

theorem holds_chainProperties (n : Nat) (hn : n ≤ 256) (i : Nat) : Holds (chainProperties n i)
    (if i < n then Function.update Lib.unbound (bytes "$link:n") (some (chainName (i + 1))) else Lib.unbound) := by
  unfold chainProperties
  split
  · exact Holds.put (m := none) rfl (stored_chainName i (by omega))
  · rfl

theorem chainDb_sound (n : Nat) (hn : n ≤ 256) : (chainDb n hn).Sound (chainMemory n) := by
  refine ⟨fun m hm => ?_, fun m hm => ?_, fun m _ => rfl⟩
  · obtain ⟨i, hi, rfl⟩ := mem_chainDb.1 hm
    exact storedKey_chainNode (by omega)
  · obtain ⟨i, hi, rfl⟩ := mem_chainDb.1 hm
    exact ⟨_, _, if_pos hi, holds_chainProperties n hn i, rfl⟩

theorem linkTargets_chain {n : Nat} (hn : n ≤ 256) {i : Nat} (hi : i ≤ n) :
    linkTargets (chainMemory n) (chainDb n hn) (chainNode i) = if i < n then [chainNode (i + 1)] else [] := by
  have hcell : (chainMemory n).keyNodes.cells (chainNode i).2 = some ⟨chainProperties n i, none⟩ := if_pos hi
  have hvisited : ∀ i < 256, visited (putProperty none (bytes "$link:n") (chainName (i + 1))).join =
      [(bytes "$link:n", chainName (i + 1))] := by decide +kernel
  rw [linkTargets, hcell]
  simp only [chainProperties]
  by_cases hlt : i < n
  · have hfind : (chainDb n hn).keyNodes.find (chainName (i + 1) ++ [0]) = some (chainNode (i + 1)) :=
      (Lib.RbTree.find_eq_some keyNodeCmp_total).2 ⟨mem_chainDb.2 ⟨i + 1, hlt, rfl⟩, rfl⟩
    have hhead : ∀ j < 257, (chainName j).head? ≠ some 0 := by decide +kernel
    have hlink : linkOf (chainDb n hn).keyNodes (bytes "$link:n", chainName (i + 1)) = some (chainNode (i + 1)) := by
      have hstart : isLinkProperty (bytes "$link:n") = true := by decide +kernel
      rw [linkOf, if_pos ⟨hstart, List.cons_ne_nil _ _, hhead _ (by omega)⟩, hfind]
    simp only [if_pos hlt, hvisited i (by omega), List.filterMap_cons, hlink, List.filterMap_nil]
  · simp only [if_neg hlt]
    rfl

/-- What the start of a chain reaches: all of it. -/
theorem reach_chain {n : Nat} (hn : n ≤ 256) (m : Key × Nat) :
    Reach (linkTargets (chainMemory n) (chainDb n hn)) (chainNode 0) m ↔ ∃ i ≤ n, m = chainNode i := by
  constructor
  · intro h
    induction h with
    | refl => exact ⟨0, Nat.zero_le n, rfl⟩
    | tail _ hstep ih =>
      obtain ⟨i, hi, rfl⟩ := ih
      rw [linkTargets_chain hn hi] at hstep
      split at hstep
      · exact ⟨i + 1, by omega, List.mem_singleton.1 hstep⟩
      · cases hstep
  · rintro ⟨i, hi, rfl⟩
    induction i with
    | zero => exact .refl
    | succ i ih =>
      refine (ih (by omega)).tail ?_
      rw [linkTargets_chain hn (by omega), if_pos (by omega)]
      exact List.mem_singleton_self _

theorem ncard_chain {n : Nat} (hn : n ≤ 256) :
    Set.ncard {m | Reach (linkTargets (chainMemory n) (chainDb n hn)) (chainNode 0) m} = n + 1 := by
  have heq : {m | Reach (linkTargets (chainMemory n) (chainDb n hn)) (chainNode 0) m} =
      ((Finset.range (n + 1)).image chainNode : Set (Key × Nat)) := by
    ext m
    rw [Set.mem_ofPred_eq, reach_chain hn]
    simp only [Finset.coe_image, Finset.coe_range, Set.mem_image, Set.mem_Iio, Nat.lt_succ_iff, eq_comm]
  rw [heq, Set.ncard_coe_finset, Finset.card_image_of_injective, Finset.card_range]
  exact fun i j hij => congrArg Prod.snd hij

/-- A record with one link. -/
theorem link_traversal_pair : ∃ record links,
    keyNodeToJsonLinks (chainMemory 1) (chainDb 1 (by decide)) (chainNode 0) true true = some (record, some links) ∧
      LinksRight (chainMemory 1) (chainDb 1 (by decide)) (chainNode 0) links := by
  obtain ⟨record, links, hrun, hiff⟩ := link_traversal_iff (chainDb_sound 1 (by decide))
    (show chainNode 0 ∈ (chainDb 1 (by decide)).keyNodes.nodes from mem_chainDb.2 ⟨0, by decide, rfl⟩)
  refine ⟨record, links, hrun, hiff.2 (fun k => .inl ?_)⟩
  rw [ncard_chain]
  have := Nat.two_pow_pos k
  omega

/-- The record 256 of a chain of 257 is pushed when the stack is full; the mark of the record before it is lost. -/
theorem link_traversal_twice : (chainDb 256 (by decide)).Sound (chainMemory 256) ∧
    ∃ record links, keyNodeToJsonLinks (chainMemory 256) (chainDb 256 (by decide)) (chainNode 0) true true =
        some (record, some links) ∧
      ¬ LinksRight (chainMemory 256) (chainDb 256 (by decide)) (chainNode 0) links := by
  have hsound := chainDb_sound 256 (by decide)
  obtain ⟨record, links, rest, lost, hrun, hswept, hknown, hlinks, hsub, hlost⟩ :=
    keyNodeToJsonLinks_spec hsound
      (show chainNode 0 ∈ (chainDb 256 (by decide)).keyNodes.nodes from mem_chainDb.2 ⟨0, by decide, rfl⟩)
  refine ⟨hsound, record, links, hrun, fun hright => ?_⟩
  have hnil := (linksRight_iff hsound hswept hknown hlinks hsub).1 hright
  have hall := hlost.1 hnil 0
  rw [← hswept.ncard le_rfl, ncard_chain, linkTargets_chain _ (by decide), if_pos (by decide)] at hall
  have htwo : [chainNode 0, chainNode (0 + 1)].dedup.length = 2 := by decide +kernel
  rw [htwo] at hall
  omega

end Pincaster
