import Pincaster.Lib.RbTree
import Pincaster.Requests
/-!
# KeyNodes — `key_nodes.c`: the tree of the keys of a layer

A node of the tree is a key and what hangs on it.  `key_node_cmp` orders the keys byte by byte, a key before those it
starts (`keyNodeCmp_total`), so the keys with a prefix follow each other (`prefix_block`).
-/
namespace Pincaster

open Lib (Bytes RbTree TotalCmp)

variable {α : Type}

/-- `memcmp` of two blocks of one length: the sign of the first difference. -/
def memcmp : Bytes → Bytes → Int
  | x :: s, y :: t => if x = y then memcmp s t else if x < y then -1 else 1
  | _, _ => 0

def keyNodeCmp (k1 k2 : Key) : Int :=
  if k1.length = k2.length then memcmp k1 k2
  else if k1.length < k2.length then
    let ret := memcmp k1 (k2.take k1.length)
    if ret = 0 then -1 else ret
  else
    let ret := memcmp (k1.take k2.length) k2
    if ret = 0 then 1 else ret

/-- The nodes of a layer; a node has its key first. -/
abbrev KeyNodeTree (α : Type) := RbTree (Prod.fst : Key × α → Key) keyNodeCmp

/-- `get_key_node_from_key` without `create`: the status and the node. -/
def getKeyNodeFromKey (db : KeyNodeTree α) (key : Key) : Int × Option (Key × α) :=
  match db.find key with
  | some foundKeyNode => (1, some foundKeyNode)
  | none => (0, none)

/-! ## The order of the keys -/

/-- Byte by byte, and the end of a key before any byte. -/
def keyOrder : Key → Key → Int
  | [], [] => 0
  | [], _ :: _ => -1
  | _ :: _, [] => 1
  | x :: s, y :: t => if x = y then keyOrder s t else if x < y then -1 else 1

theorem memcmp_take_left : ∀ (s t : Bytes), memcmp (s.take t.length) t = memcmp s t
  | [], _ => by rw [List.take_nil]
  | _ :: _, [] => rfl
  | x :: s, y :: t => by
    rw [List.length_cons, List.take_succ_cons, memcmp, memcmp, memcmp_take_left s t]

theorem memcmp_take_right : ∀ (s t : Bytes), memcmp s (t.take s.length) = memcmp s t
  | _, [] => by rw [List.take_nil]
  | [], _ :: _ => rfl
  | x :: s, y :: t => by
    rw [List.length_cons, List.take_succ_cons, memcmp, memcmp, memcmp_take_right s t]

/-- The two ways of comparing agree. -/
theorem keyOrder_eq_memcmp : ∀ s t : Bytes, keyOrder s t =
    if memcmp s t = 0 then (if s.length = t.length then 0 else if s.length < t.length then -1 else 1) else memcmp s t
  | [], [] => rfl
  | [], _ :: _ => rfl
  | _ :: _, [] => rfl
  | x :: s, y :: t => by
    rw [keyOrder, memcmp, keyOrder_eq_memcmp s t]
    by_cases hxy : x = y
    · simp only [hxy, if_true, List.length_cons, Nat.add_right_cancel_iff, Nat.add_lt_add_iff_right]
    · by_cases hlt : x < y <;> simp [hxy, hlt]

theorem keyNodeCmp_eq (k1 k2 : Key) : keyNodeCmp k1 k2 = keyOrder k1 k2 := by
  rw [keyOrder_eq_memcmp, keyNodeCmp, memcmp_take_right, memcmp_take_left]
  by_cases heq : k1.length = k2.length
  · by_cases hzero : memcmp k1 k2 = 0 <;> simp [heq, hzero]
  · by_cases hlt : k1.length < k2.length <;> by_cases hzero : memcmp k1 k2 = 0 <;> simp [heq, hlt, hzero]

theorem keyOrder_eq_zero : ∀ a b : Key, keyOrder a b = 0 ↔ a = b
  | [], [] => by simp [keyOrder]
  | [], _ :: _ => by simp [keyOrder]
  | _ :: _, [] => by simp [keyOrder]
  | x :: a, y :: b => by
    rw [keyOrder, List.cons.injEq]
    by_cases hxy : x = y
    · rw [if_pos hxy, keyOrder_eq_zero a b]
      simp [hxy]
    · by_cases hlt : x < y <;> simp [hxy, hlt]

theorem keyOrder_neg_iff : ∀ a b : Key, keyOrder a b < 0 ↔ 0 < keyOrder b a
  | [], [] => by simp [keyOrder]
  | [], _ :: _ => by simp [keyOrder]
  | _ :: _, [] => by simp [keyOrder]
  | x :: a, y :: b => by
    rw [keyOrder, keyOrder]
    by_cases hxy : x = y
    · rw [if_pos hxy, if_pos hxy.symm]
      exact keyOrder_neg_iff a b
    · rw [if_neg hxy, if_neg (Ne.symm hxy)]
      have hne : x.toNat ≠ y.toNat := fun h => hxy (UInt8.toNat_inj.1 h)
      simp only [UInt8.lt_iff_toNat_lt]
      by_cases hlt : x.toNat < y.toNat
      · rw [if_pos hlt, if_neg (by omega)]
        simp
      · rw [if_neg hlt, if_pos (by omega)]
        simp

theorem keyOrder_trans : ∀ a b c : Key, keyOrder a b < 0 → keyOrder b c < 0 → keyOrder a c < 0
  | [], _, [], h1, h2 => by
    have := (keyOrder_neg_iff _ _).1 h2
    omega
  | [], _, _ :: _, _, _ => Int.negSucc_lt_zero 0
  | _ :: _, [], _, h1, _ => by simp [keyOrder] at h1
  | _ :: _, _ :: _, [], _, h2 => by simp [keyOrder] at h2
  | x :: a, y :: b, z :: c, h1, h2 => by
    rw [keyOrder] at h1 h2 ⊢
    simp only [UInt8.lt_iff_toNat_lt] at h1 h2 ⊢
    by_cases hxy : x = y
    · subst hxy
      rw [if_pos rfl] at h1
      by_cases hxz : x = z
      · rw [if_pos hxz] at h2 ⊢
        exact keyOrder_trans a b c h1 h2
      · rw [if_neg hxz] at h2 ⊢
        exact h2
    · rw [if_neg hxy] at h1
      have h1 : x.toNat < y.toNat := by
        by_contra hle
        rw [if_neg hle] at h1
        omega
      by_cases hyz : y = z
      · subst hyz
        rw [if_neg hxy, if_pos h1]
        decide
      · rw [if_neg hyz] at h2
        have h2 : y.toNat < z.toNat := by
          by_contra hle
          rw [if_neg hle] at h2
          omega
        rw [if_neg (fun hxz => by subst hxz; omega), if_pos (by omega)]
        decide

/-- **`key_node_cmp` orders the keys.** -/
theorem keyNodeCmp_total : TotalCmp keyNodeCmp := by
  refine ⟨fun a b => ?_, fun a b => ?_, fun a b c => ?_⟩
  · rw [keyNodeCmp_eq, keyOrder_eq_zero]
  · rw [keyNodeCmp_eq, keyNodeCmp_eq, keyOrder_neg_iff]
  · rw [keyNodeCmp_eq, keyNodeCmp_eq, keyNodeCmp_eq]
    exact keyOrder_trans a b c

/-! ## The keys with a prefix -/

theorem keyOrder_of_isPrefix : ∀ {p k : Key}, p <+: k → keyOrder p k ≤ 0
  | [], [], _ => by decide
  | [], _ :: _, _ => Int.le_of_lt (Int.negSucc_lt_zero 0)
  | _ :: _, [], h => by simp at h
  | x :: p, y :: k, h => by
    obtain ⟨hxy, h⟩ := List.cons_prefix_cons.1 h
    rw [keyOrder, if_pos hxy]
    exact keyOrder_of_isPrefix h

/-- A key between a prefix and a key with the prefix has it. -/
theorem isPrefix_of_between : ∀ {p a b : Key}, keyOrder p a ≤ 0 → keyOrder a b < 0 → p <+: b → p <+: a
  | [], a, _, _, _, _ => List.nil_prefix
  | _ :: _, [], _, h, _, _ => by simp [keyOrder] at h
  | _ :: _, _ :: _, [], _, _, hb => by simp at hb
  | x :: p, y :: a, z :: b, h1, h2, hb => by
    obtain ⟨rfl, hpb⟩ := List.cons_prefix_cons.1 hb
    rw [keyOrder] at h1 h2
    simp only [UInt8.lt_iff_toNat_lt] at h1 h2
    by_cases hxy : x = y
    · subst hxy
      rw [if_pos rfl] at h1 h2
      exact List.cons_prefix_cons.2 ⟨rfl, isPrefix_of_between h1 h2 hpb⟩
    · rw [if_neg hxy] at h1
      rw [if_neg (Ne.symm hxy)] at h2
      split at h1
      · rw [if_neg (by omega)] at h2
        omega
      · omega

/-- **The keys with a prefix** are those that come first among the keys that do not compare less. -/
theorem prefix_block {db : KeyNodeTree α} {p : Key} {pre post : List (Key × α)} (hsplit : db.nodes = pre ++ post)
    (hpre : ∀ n ∈ pre, keyNodeCmp n.1 p < 0) (hpost : ∀ n ∈ post, keyNodeCmp p n.1 ≤ 0) :
    db.nodes.filter (fun n => p.isPrefixOf n.1) = post.takeWhile (fun n => p.isPrefixOf n.1) := by
  have hord := db.ordered
  rw [hsplit, List.pairwise_append] at hord
  have hnone : pre.filter (fun n => p.isPrefixOf n.1) = [] := by
    refine List.filter_eq_nil_iff.2 (fun n hn hp => ?_)
    have hlt := (keyNodeCmp_total.neg_iff _ _).1 (hpre n hn)
    rw [keyNodeCmp_eq] at hlt
    have hle := keyOrder_of_isPrefix (List.isPrefixOf_iff_prefix.1 hp)
    omega
  rw [hsplit, List.filter_append, hnone, List.nil_append]
  refine Lib.filter_eq_takeWhile ?_
  have hmono : ∀ {ns : List (Key × α)}, (∀ n ∈ ns, keyNodeCmp p n.1 ≤ 0) →
      ns.Pairwise (fun m n => keyNodeCmp m.1 n.1 < 0) →
      ns.Pairwise (fun m n => p.isPrefixOf n.1 = true → p.isPrefixOf m.1 = true) := by
    intro ns hns hord
    refine hord.imp_of_mem (fun {m n} hm _ hlt hp => ?_)
    have hpm := hns m hm
    rw [keyNodeCmp_eq] at hlt hpm
    exact List.isPrefixOf_iff_prefix.2 (isPrefix_of_between hpm hlt (List.isPrefixOf_iff_prefix.1 hp))
  exact hmono hpost hord.2.1

end Pincaster
