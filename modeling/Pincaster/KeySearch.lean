import Pincaster.KeyNodes
/-!
# KeySearch — the scan of the keys in `handle_op_search_in_keys`

The pattern comes with its NUL, which is cut off, and so is a final star.  With a star the scan starts at the first key
that does not compare less and ends at a key without the prefix; without one it is about the key that is found.
-/
namespace Pincaster

open Lib (Bytes)

variable {α : Type}

/-- The pattern that is looked for and whether it is a prefix; `none` goes to `emptyresult`. -/
def searchPattern (pattern : Key) : Option (Bytes × Bool) :=
  if pattern.length ≤ 0 then none
  else
    let pattern := if pattern.getLast? = some 0 then pattern.dropLast else pattern
    if pattern.length ≤ 0 then none
    else if pattern.getLast? = some 42 then some (pattern.dropLast, true)
    else some (pattern, false)

/-- Where the scan starts. -/
def firstFoundKeyNode (keyNodes : KeyNodeTree α) (pattern : Bytes) (wildcard : Bool) : Option (Key × α) :=
  if pattern.length = 0 then keyNodes.min
  else if wildcard = false then keyNodes.find pattern
  else keyNodes.nfind pattern

/-- The `while` loop: the nodes that are shown. -/
def scanFoundKeyNodes (keyNodes : KeyNodeTree α) (pattern : Bytes) (wildcard : Bool) : Nat → Option (Key × α) → Nat →
    List (Key × α)
  | 0, _, _ => []
  | _, none, _ => []
  | fuel + 1, some foundKeyNode, limit =>
    let foundKey := foundKeyNode.1
    if 0 < pattern.length ∧ (foundKey.length < pattern.length ∨ foundKey.take pattern.length ≠ pattern) then []
    else
      let shown := if 1 < foundKey.length ∧ (wildcard ∨ foundKey.length = pattern.length) then [foundKeyNode] else []
      if wildcard = false ∨ limit - 1 ≤ 0 then shown
      else shown ++ scanFoundKeyNodes keyNodes pattern wildcard fuel (keyNodes.next foundKeyNode) (limit - 1)

/-- The nodes a search shows. -/
def foundKeyNodes (keyNodes : KeyNodeTree α) (pattern : Key) (limit : Nat) : List (Key × α) :=
  match searchPattern pattern with
  | none => []
  | some (pattern, wildcard) => scanFoundKeyNodes keyNodes pattern wildcard (keyNodes.nodes.length + 1)
      (firstFoundKeyNode keyNodes pattern wildcard) limit

/-! ## Stored keys -/

/-- **The key of a record**: a name that is not empty and has no NUL, and a NUL. -/
def StoredKey (key : Key) : Prop := ∃ name : Bytes, name ≠ [] ∧ (0 : UInt8) ∉ name ∧ key = name ++ [0]

theorem StoredKey.length {key : Key} (h : StoredKey key) : 1 < key.length := by
  obtain ⟨name, hne, -, rfl⟩ := h
  have := List.length_pos_of_ne_nil hne
  rw [List.length_append, List.length_singleton]
  omega

theorem StoredKey.getLast? {key : Key} (h : StoredKey key) : key.getLast? = some 0 := by
  obtain ⟨name, -, -, rfl⟩ := h
  rw [List.getLast?_append, List.getLast?_singleton, Option.some_or]

/-- A string without a NUL starts a key when it starts its name. -/
theorem StoredKey.isPrefixOf {key : Key} (h : StoredKey key) {p : Bytes} (hp : (0 : UInt8) ∉ p) :
    p.isPrefixOf key = p.isPrefixOf key.dropLast := by
  obtain ⟨name, -, -, rfl⟩ := h
  rw [Bool.eq_iff_iff, List.isPrefixOf_iff_prefix, List.isPrefixOf_iff_prefix, List.dropLast_concat]
  refine ⟨fun hpre => ?_, fun hpre => hpre.trans (List.prefix_append _ _)⟩
  rcases List.prefix_concat_iff.1 hpre with rfl | hpre
  · exact absurd (by simp) hp
  · exact hpre

/-! ## What is shown -/

/-- The test of the scan is the one for the prefix. -/
theorem scan_test (pattern key : Bytes) : (0 < pattern.length ∧ (key.length < pattern.length ∨
    key.take pattern.length ≠ pattern)) ↔ pattern.isPrefixOf key = false := by
  rw [← Bool.not_eq_true, List.isPrefixOf_iff_prefix, List.prefix_iff_eq_take]
  constructor
  · rintro ⟨-, hlt | hne⟩ heq
    · have := congrArg List.length heq
      rw [List.length_take] at this
      omega
    · exact hne heq.symm
  · intro hne
    refine ⟨List.length_pos_of_ne_nil (fun hnil => hne (by simp [hnil])), .inr (fun heq => hne heq.symm)⟩

/-- **A scan for a prefix** shows the nodes with the prefix that come first, as many as the limit says. -/
theorem scanFoundKeyNodes_wildcard {keyNodes : KeyNodeTree α} (pattern : Bytes)
    (hlen : ∀ n ∈ keyNodes.nodes, 1 < n.1.length) : ∀ (post pre : List (Key × α)) (fuel limit : Nat),
    keyNodes.nodes = pre ++ post → post.length < fuel → 1 ≤ limit →
    scanFoundKeyNodes keyNodes pattern true fuel post.head? limit =
      (post.takeWhile (fun n => pattern.isPrefixOf n.1)).take limit
  | _, _, 0, _, _, hfuel, _ => by omega
  | [], _, _ + 1, _, _, _, _ => by simp [scanFoundKeyNodes]
  | n :: post, pre, fuel + 1, limit, hsplit, hfuel, hlimit => by
    rw [List.head?_cons, scanFoundKeyNodes, List.takeWhile_cons]
    simp only [scan_test]
    by_cases hpre : pattern.isPrefixOf n.1 = true
    · have hn := hlen n (by rw [hsplit]; simp)
      obtain ⟨limit, rfl⟩ : ∃ m, limit = m + 1 := ⟨limit - 1, by omega⟩
      rw [List.length_cons] at hfuel
      simp only [hpre, Bool.true_eq_false, if_false, hn, true_or, and_self, if_true, Nat.add_sub_cancel, false_or,
        List.take_succ_cons]
      rw [Lib.RbTree.next_of_split keyNodeCmp_total hsplit]
      by_cases hzero : limit = 0
      · rw [if_pos (by omega), hzero, List.take_zero]
      · rw [if_neg (by omega), List.singleton_append, scanFoundKeyNodes_wildcard pattern hlen post (pre ++ [n]) fuel limit
          (by rw [hsplit]; simp) (by omega) (by omega)]
    · rw [Bool.not_eq_true] at hpre
      simp [hpre]

/-- **A search for a prefix** shows the first keys that have it, in their order. -/
theorem foundKeyNodes_wildcard {keyNodes : KeyNodeTree α} (hkeys : ∀ n ∈ keyNodes.nodes, StoredKey n.1) (p : Bytes)
    {limit : Nat} (hlimit : 1 ≤ limit) : foundKeyNodes keyNodes (p ++ [42, 0]) limit =
      (keyNodes.nodes.filter (fun n => p.isPrefixOf n.1)).take limit := by
  have hpattern : searchPattern (p ++ [42, 0]) = some (p, true) := by
    have hdrop : (p ++ [42, 0]).dropLast = p ++ [42] := by
      rw [show p ++ [42, 0] = (p ++ [42]) ++ [0] by simp, List.dropLast_concat]
    simp [searchPattern, hdrop]
  have hlen := fun n hn => (hkeys n hn).length
  rw [foundKeyNodes, hpattern]
  simp only
  by_cases hp : p.length = 0
  · obtain rfl := List.length_eq_zero_iff.1 hp
    rw [firstFoundKeyNode, if_pos hp, Lib.RbTree.min,
      scanFoundKeyNodes_wildcard [] hlen keyNodes.nodes [] _ limit rfl (by omega) hlimit,
      List.takeWhile_eq_self_iff.2 (fun n _ => by simp), List.filter_eq_self.2 (fun n _ => by simp)]
  · obtain ⟨pre, post, hsplit, hnfind, hpre, hpost⟩ := Lib.RbTree.nfind_split keyNodeCmp_total keyNodes p
    rw [firstFoundKeyNode, if_neg hp, if_neg (by decide), hnfind, prefix_block hsplit hpre hpost]
    refine scanFoundKeyNodes_wildcard p hlen post pre _ limit hsplit ?_ hlimit
    have := congrArg List.length hsplit
    rw [List.length_append] at this
    omega

/-- **A search without a star** finds nothing: the keys of the tree end with a NUL, and the pattern has lost its own. -/
theorem foundKeyNodes_exact {keyNodes : KeyNodeTree α} (hkeys : ∀ n ∈ keyNodes.nodes, StoredKey n.1) {k : Bytes}
    (hne : k ≠ []) (hzero : (0 : UInt8) ∉ k) (hstar : k.getLast? ≠ some 42) (limit : Nat) :
    foundKeyNodes keyNodes (k ++ [0]) limit = [] := by
  have hpattern : searchPattern (k ++ [0]) = some (k, false) := by
    have hlen := List.length_pos_of_ne_nil hne
    have : k.length ≠ 0 := by omega
    simp [searchPattern, hstar, hne]
  have hfind : keyNodes.find k = none := by
    refine (Lib.RbTree.find_eq_none keyNodeCmp_total).2 (fun n hn heq => hzero ?_)
    have hlast := (hkeys n hn).getLast?
    rw [heq] at hlast
    exact List.mem_of_getLast? hlast
  rw [foundKeyNodes, hpattern]
  simp only
  rw [firstFoundKeyNode, if_neg (by have := List.length_pos_of_ne_nil hne; omega), if_pos rfl, hfind]
  rfl

end Pincaster
