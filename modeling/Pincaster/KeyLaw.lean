import Pincaster.LayerStore
/-!
# KeyLaw — a search for a key and what it lists

A search without a star lists nothing: it agrees with a GET of the same name exactly when there is no such record
(`exact_search_iff`).
-/
namespace Pincaster

open Lib (Bytes bytes TotalCmp)

variable {D : Type}

namespace LayerStore

/-- The reply lists these key nodes, in this order: their names, or one element for each of them. -/
def Lists (mem : Layer.Memory) (db : Layer.Db D) (options : SearchOptions D) (shown : List (Key × Nat)) :
    ReplyJson D → Prop
  | .keys keys => options.withContent = false ∧ keys = shown.map (fun n => n.1.dropLast)
  | .found found => options.withContent = true ∧
      List.Forall₂ (fun n m => matchOf mem db options none n = some m) shown found
  | _ => False

theorem mapM_eq_some_iff {α β : Type} {f : α → Option β} : ∀ {l : List α} {r : List β},
    l.mapM f = some r ↔ List.Forall₂ (fun a b => f a = some b) l r
  | [], r => by
    rw [List.mapM_nil, List.forall₂_nil_left_iff]
    exact ⟨fun h => (Option.some.inj h).symm, fun h => congrArg some h.symm⟩
  | a :: l, r => by
    rw [List.mapM_cons, Option.bind_eq_bind, Option.bind_eq_some_iff]
    simp only [Option.bind_eq_bind, Option.bind_eq_some_iff, mapM_eq_some_iff]
    constructor
    · rintro ⟨b, hb, bs, hbs, hr⟩
      obtain rfl := Option.some.inj hr
      exact .cons hb hbs
    · rintro (_ | ⟨hb, hbs⟩)
      exact ⟨_, hb, _, hbs, rfl⟩

/-- The reply lists the nodes of the scan, and nothing else is a reply. -/
theorem keysReply_iff {mem : Layer.Memory} {db : Layer.Db D} {pattern : Key} {options : SearchOptions D}
    {json : ReplyJson D} : keysReply mem db pattern options = some json ↔
      Lists mem db options (foundKeyNodes db.keyNodes pattern options.limit) json := by
  unfold keysReply
  cases hcontent : options.withContent with
  | false => cases json <;> simp [Lists, hcontent, eq_comm]
  | true => cases json <;> simp [Lists, hcontent, mapM_eq_some_iff]

theorem handleOpSearchInKeys_iff {op : Op D} {layerName pattern : Key} {options : SearchOptions D}
    {store : LayerStore D} {db : Layer.Db D} {r : OpResult D}
    (hdb : getPanDbByLayerName store.layers layerName = some db) (hfake : op.fakeReq = false) :
    handleOpSearchInKeys op layerName pattern options store = some r ↔
      ∃ json, Lists store.mem db options (foundKeyNodes db.keyNodes pattern options.limit) json ∧
        r = ⟨0, store, [⟨op.opTid, json⟩]⟩ := by
  rw [handleOpSearchInKeys, hdb]
  simp only [sendOpReply, hfake, Bool.false_eq_true, if_false, Option.map_eq_some_iff, keysReply_iff]
  exact exists_congr (fun json => and_congr_right' eq_comm)

/-- Three records of a layer. -/
def dishes : Layer.Db ℚ :=
  ⟨initPanDb, ⟨[(bytes "abcd" ++ [0], 0), (bytes "abce" ++ [0], 1), (bytes "abde" ++ [0], 2)], by decide +kernel⟩, []⟩

def dishStore : LayerStore ℚ := ⟨⟨.empty, .empty⟩, [⟨bytes "restaurants", dishes⟩]⟩

def dishKey : Key := bytes "restaurants" ++ [0]

/-- The options of `content=0&limit=2`. -/
def dishOptions : SearchOptions ℚ := ⟨0, 2, 0, true, false, false⟩

theorem storedKey_dishes : ∀ n ∈ dishes.keyNodes.nodes, StoredKey n.1 := by
  refine List.forall_mem_cons.2 ⟨⟨bytes "abcd", by decide, by decide, rfl⟩, ?_⟩
  refine List.forall_mem_cons.2 ⟨⟨bytes "abce", by decide, by decide, rfl⟩, ?_⟩
  exact List.forall_mem_singleton.2 ⟨bytes "abde", by decide, by decide, rfl⟩

/-! ## A search without a star -/

/-- The search for the name has these key nodes as its answer. -/
def ExactSearch (op : Op D) (layerName : Key) (name : Bytes) (options : SearchOptions D) (store : LayerStore D)
    (db : Layer.Db D) (shown : List (Key × Nat)) : Prop :=
  ∃ json, Lists store.mem db options shown json ∧
    handleOpSearchInKeys op layerName (name ++ [0]) options store = some ⟨0, store, [⟨op.opTid, json⟩]⟩

/-- A GET of the name is not refused. -/
def GetFinds (op : Op D) (layerName : Key) (name : Bytes) (withLinks : Bool) (store : LayerStore D) : Prop :=
  handleOpRecordsGet op layerName (name ++ [0]) withLinks store ≠ opError HTTP_NOTFOUND store

theorem getFinds_iff {op : Op D} {layerName : Key} {name : Bytes} {withLinks : Bool} {store : LayerStore D}
    {db : Layer.Db D} (hdb : getPanDbByLayerName store.layers layerName = some db) :
    GetFinds op layerName name withLinks store ↔ ∃ n ∈ db.keyNodes.nodes, n.1 = name ++ [0] := by
  rw [GetFinds, handleOpRecordsGet, hdb]
  simp only [getKeyNodeFromKey]
  cases hfind : db.keyNodes.find (name ++ [0]) with
  | none =>
    have hnone := (Lib.RbTree.find_eq_none keyNodeCmp_total).1 hfind
    simp only [ne_eq, not_true_eq_false, false_iff]
    rintro ⟨n, hn, heq⟩
    exact hnone n hn heq
  | some n =>
    obtain ⟨hn, heq⟩ := (Lib.RbTree.find_eq_some keyNodeCmp_total).1 hfind
    simp only [ne_eq]
    refine iff_of_true (fun h => ?_) ⟨n, hn, heq⟩
    unfold sendOpReply at h
    split at h
    · simp [opError, HTTP_NOTFOUND] at h
    · obtain ⟨json, -, hr⟩ := Option.map_eq_some_iff.1 h
      simp [HTTP_NOTFOUND] at hr

/-- A list of key nodes is told by the reply that lists it, up to its length. -/
theorem Lists.length {mem : Layer.Memory} {db : Layer.Db D} {options : SearchOptions D} {s t : List (Key × Nat)}
    {json : ReplyJson D} (hs : Lists mem db options s json) (ht : Lists mem db options t json) :
    s.length = t.length := by
  cases json with
  | keys keys => simpa using congrArg List.length (hs.2.symm.trans ht.2)
  | found found => exact hs.2.length_eq.trans ht.2.length_eq.symm
  | _ => exact hs.elim

theorem exists_lists_nil (mem : Layer.Memory) (db : Layer.Db D) (options : SearchOptions D) :
    ∃ json, Lists mem db options [] json := by
  cases hcontent : options.withContent with
  | false => exact ⟨.keys [], hcontent, rfl⟩
  | true => exact ⟨.found [], hcontent, .nil⟩

/-- **A search for a name** agrees with a GET of it exactly when there is no such record: the pattern loses its NUL, and the
keys of the tree have theirs. -/
theorem exact_search_iff (getOp : Op D) (withLinks : Bool) {searchOp : Op D} {layerName : Key}
    (options : SearchOptions D) {store : LayerStore D} {db : Layer.Db D} (hdb : getPanDbByLayerName store.layers layerName = some db)
    (hkeys : ∀ n ∈ db.keyNodes.nodes, StoredKey n.1) {k : Bytes} (hne : k ≠ []) (hzero : (0 : UInt8) ∉ k)
    (hstar : k.getLast? ≠ some 42) (hfake : searchOp.fakeReq = false) :
    ((GetFinds getOp layerName k withLinks store →
        ∃ n ∈ db.keyNodes.nodes, n.1 = k ++ [0] ∧ ExactSearch searchOp layerName k options store db [n]) ∧
      (¬ GetFinds getOp layerName k withLinks store → ExactSearch searchOp layerName k options store db [])) ↔
    ∀ n ∈ db.keyNodes.nodes, n.1 ≠ k ++ [0] := by
  have hempty : ∀ r, handleOpSearchInKeys searchOp layerName (k ++ [0]) options store = some r ↔
      ∃ json, Lists store.mem db options [] json ∧ r = ⟨0, store, [⟨searchOp.opTid, json⟩]⟩ := fun r => by
    rw [handleOpSearchInKeys_iff hdb hfake, foundKeyNodes_exact hkeys hne hzero hstar]
  rw [getFinds_iff hdb]
  constructor
  · rintro ⟨hfound, -⟩ n hn heq
    obtain ⟨m, -, -, json, hlists, hsearch⟩ := hfound ⟨n, hn, heq⟩
    obtain ⟨json', hlists', hr⟩ := (hempty _).1 hsearch
    obtain rfl : json = json' := by simpa using hr
    exact absurd (hlists.length hlists') (by simp)
  · refine fun hnone => ⟨fun ⟨n, hn, heq⟩ => absurd heq (hnone n hn), fun _ => ?_⟩
    obtain ⟨json, hlists⟩ := exists_lists_nil store.mem db options
    exact ⟨json, hlists, (hempty _).2 ⟨json, hlists, rfl⟩⟩

/-- A GET of a key, and a search for it. -/
def getDish (name : Bytes) : Op ℚ := ⟨false, 6, .recordsGet dishKey (name ++ [0]) false⟩

def searchDish (name : Bytes) : Op ℚ := ⟨false, 7, .searchInKeys dishKey (name ++ [0]) dishOptions⟩

theorem exact_search_abcf : ¬ GetFinds (getDish (bytes "abcf")) dishKey (bytes "abcf") false dishStore ∧
    ExactSearch (searchDish (bytes "abcf")) dishKey (bytes "abcf") dishOptions dishStore dishes [] := by
  have hmiss : ¬ GetFinds (getDish (bytes "abcf")) dishKey (bytes "abcf") false dishStore :=
    fun h => absurd ((getFinds_iff rfl).1 h) (by decide +kernel)
  have hagree := (exact_search_iff (getDish (bytes "abcf")) false dishOptions
    (show getPanDbByLayerName dishStore.layers dishKey = some dishes from rfl) storedKey_dishes
    (show bytes "abcf" ≠ [] by decide) (by decide) (by decide)
    (show (searchDish (bytes "abcf")).fakeReq = false from rfl)).2 (by decide +kernel)
  exact ⟨hmiss, hagree.2 hmiss⟩

/-- The record is there for a GET, and the search for it shows nothing. -/
theorem exact_search_abcd_fails : GetFinds (getDish (bytes "abcd")) dishKey (bytes "abcd") false dishStore ∧
    ¬ ∃ n ∈ dishes.keyNodes.nodes, n.1 = bytes "abcd" ++ [0] ∧
      ExactSearch (searchDish (bytes "abcd")) dishKey (bytes "abcd") dishOptions dishStore dishes [n] := by
  refine ⟨(getFinds_iff rfl).2 (by decide +kernel), ?_⟩
  rintro ⟨n, -, -, json, hlists, hsearch⟩
  obtain ⟨json', hlists', hr⟩ := (handleOpSearchInKeys_iff rfl rfl).1 hsearch
  obtain rfl : json = json' := by simpa using hr
  rw [foundKeyNodes_exact storedKey_dishes (by decide) (by decide) (by decide)] at hlists'
  exact Nat.one_ne_zero (hlists.length hlists')

end LayerStore

end Pincaster
