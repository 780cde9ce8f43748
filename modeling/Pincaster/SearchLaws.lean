import Pincaster.SearchZones
import Mathlib.Data.Set.Card
import Mathlib.Algebra.Order.Field.Rat
import Mathlib.Tactic.Linarith
import Mathlib.Tactic.NormNum
/-!
# SearchLaws — what the searches without clusters report

A slot is found when the cell of its bucket meets a zone and its position passes the test of the search.  From this
follow the laws of a search around a position (`find_near_flat_iff`, `find_near_once_iff`) and of the limit
(`search_limit_iff`).
-/
namespace Pincaster

variable {D κ : Type}

/-! ## The key nodes of a zone -/

section
variable [LinearOrder D] {env : PanDbEnv D κ} {db : PanDB D κ} {pos : κ → Option (Position2D D)}
  {cell : Nat → Rectangle2D D}

/-- A walk through a zone comes to the bucket of a key node. -/
def Touches (env : PanDbEnv D κ) (db : PanDB D κ) (zone : Rectangle2D D) (k : κ) : Prop :=
  ∃ ptr rect, db.slots k = some ptr ∧ CellOf env db ptr.bucket rect ∧ rectangle2dIntersect rect zone

theorem TraceBelow.nodup_keysOf {zone : Rectangle2D D} {buckets : Nat → Rectangle2D D → Prop} {trace : Trace D κ}
    (h : TraceBelow env db pos zone buckets trace) (p : Slot D κ → Bool) : (keysOf p trace.slots).Nodup := by
  have hsome : (keysOf p trace.slots).map some = (trace.slots.filter p).map Slot.keyNode := by
    rw [keysOf, List.map_filterMap_some_eq_filter_map_isSome, List.filter_eq_self]
    intro key hkey
    obtain ⟨s, hs, rfl⟩ := List.mem_map.1 hkey
    obtain ⟨k, -, -, -, hk, -⟩ := h.slot s (List.mem_filter.1 hs).1
    rw [hk]
    rfl
  refine List.Nodup.of_map some ?_
  rw [hsome]
  exact h.nodup.sublist (List.filter_sublist.map _)

/-- The slot of a key node that has a position. -/
theorem exists_slot (h : Stable env db pos cell) {k : κ} {position : Position2D D} (hpos : pos k = some position) :
    ∃ ptr b slot, db.slots k = some ptr ∧ db.bucketNode ptr.bucket = some b ∧ (ptr.entry, slot) ∈ b.entries ∧
      slot.keyNode = some k ∧ slot.position = position ∧ positionIsInRect position (cell ptr.bucket) := by
  cases hslot : db.slots k with
  | none => rw [h.located.nowhere (fun hf => hf) hslot] at hpos; cases hpos
  | some ptr =>
    obtain ⟨b, slot, hb, hmem, hkey, -⟩ := h.located.key (fun hf => hf) hslot
    obtain ⟨hcell, -, k', hk', -, hpos', -⟩ := h.located.entry hb _ hmem
    rw [hkey, Option.some.injEq] at hk'
    rw [hk', hpos', Option.some.injEq] at hpos
    exact ⟨ptr, b, slot, rfl, hb, hmem, hkey, hpos, hpos ▸ hcell⟩

/-- **The key nodes a walk notes**: those whose position has the property and whose bucket it comes to. -/
theorem keysOf_spec (h : Stable env db pos cell) (zone : Rectangle2D D) (P : Position2D D → Prop) [DecidablePred P] :
    (keysOf (fun slot => decide (P slot.position)) (zoneTrace env db zone).slots).Nodup ∧
    (∀ k ∈ keysOf (fun slot => decide (P slot.position)) (zoneTrace env db zone).slots,
      ∃ position, db.position k = some position ∧ P position ∧ Touches env db zone k) ∧
    ((zoneTrace env db zone).fits = true → ∀ k position, db.position k = some position → P position →
      Touches env db zone k → k ∈ keysOf (fun slot => decide (P slot.position)) (zoneTrace env db zone).slots) := by
  have hspec := zoneTrace_spec h zone
  refine ⟨?_, fun k hk => ?_, fun hfits k position hposition hP ⟨ptr, rect, hptr, hcell, hmeet⟩ => ?_⟩
  · exact hspec.nodup_keysOf _
  · obtain ⟨s, hs, hkey⟩ := List.mem_filterMap.1 hk
    obtain ⟨hmem, hP⟩ := List.mem_filter.1 hs
    obtain ⟨k', x, rect, b, hk', hpos, hx, hentry, hcell, hmeet, -⟩ := hspec.slot s hmem
    rw [hkey, Option.some.injEq] at hk'
    subst hk'
    refine ⟨s.position, by rw [position_of_stable h, hpos], of_decide_eq_true hP, ?_⟩
    obtain ⟨e, he, rfl⟩ := List.mem_map.1 hentry
    obtain ⟨-, -, k', hk', -, -, hslot⟩ := h.located.entry hx e he
    rw [hkey, Option.some.injEq] at hk'
    subst hk'
    exact ⟨⟨x, e.1⟩, rect, hslot (fun hf => hf), hcell, hmeet⟩
  · obtain ⟨b, slot, hb, hmem, hkey, -⟩ := h.located.key (fun hf => hf) hptr
    have hin := hspec.all hfits ptr.bucket rect b hcell hb hmeet slot (List.mem_map_of_mem hmem)
    obtain ⟨-, -, k', hk', -, hpos, -⟩ := h.located.entry hb _ hmem
    rw [hkey, Option.some.injEq] at hk'
    subst hk'
    rw [position_of_stable h, hpos, Option.some.injEq] at hposition
    refine List.mem_filterMap.2 ⟨slot, List.mem_filter.2 ⟨hin, decide_eq_true (hposition ▸ hP)⟩, hkey⟩

/-- Rectangles that share a position meet. -/
theorem intersect_of_isInRect {rect rect' : Rectangle2D D} {position : Position2D D} (h : positionIsInRect position rect)
    (h' : positionIsInRect position rect') : rectangle2dIntersect rect rect' := by
  obtain ⟨p1, p2, p3, p4⟩ := h
  obtain ⟨q1, q2, q3, q4⟩ := h'
  unfold rectangle2dIntersect
  simp only [not_or, not_lt, gt_iff_lt]
  exact ⟨p2.trans q4.le, q2.trans p4.le, p1.trans q3.le, q1.trans p3.le⟩

/-- A slot that lies in a zone is in a bucket whose cell meets it. -/
theorem touches_of_isInRect (h : Stable env db pos cell) {zone : Rectangle2D D} {k : κ} {position : Position2D D}
    (hpos : db.position k = some position) (hin : positionIsInRect position zone) : Touches env db zone k := by
  obtain ⟨ptr, b, slot, hslot, hb, -, -, -, hcell⟩ := exists_slot h (position_of_stable h ▸ hpos)
  exact ⟨ptr, cell ptr.bucket, hslot, cellOf_of_stable h _ _ (bucketNode_eq_some.1 hb), intersect_of_isInRect hcell hin⟩

/-- Slots lie inside the bounds. -/
theorem isInRect_qbounds (h : Stable env db pos cell) {k : κ} {position : Position2D D}
    (hpos : db.position k = some position) : positionIsInRect position env.qbounds := by
  obtain ⟨ptr, b, slot, -, hb, -, -, -, hcell⟩ := exists_slot h (position_of_stable h ▸ hpos)
  exact (cellOf_of_stable h _ _ (bucketNode_eq_some.1 hb)).isInRect ⟨env.latitude_le, env.longitude_le⟩ hcell

/-- The key nodes a walk notes: some of the slots, and all of them when the stack has room. -/
structure Notes (slots : Set κ) (fits : Bool) (keys : List κ) : Prop where
  nodup : keys.Nodup
  sound : ∀ k ∈ keys, k ∈ slots
  all : fits = true → ∀ k ∈ slots, k ∈ keys

omit [LinearOrder D] in
theorem Notes.mem_iff {slots : Set κ} {fits : Bool} {keys : List κ} (h : Notes slots fits keys)
    (hfits : fits = true) {k : κ} :
    k ∈ keys ↔ k ∈ slots := ⟨h.sound k, h.all hfits k⟩

omit [LinearOrder D] in
theorem Notes.length {slots : Set κ} {fits : Bool} {keys : List κ} (h : Notes slots fits keys) (hfits : fits = true) :
    keys.length = slots.ncard := by
  classical
  have heq : slots = (keys.toFinset : Set κ) := by
    ext k
    rw [Finset.mem_coe, List.mem_toFinset, h.mem_iff hfits]
  rw [heq, Set.ncard_coe_finset, List.toFinset_card_of_nodup h.nodup]

/-- The key nodes that have a slot. -/
def storedKeys (db : PanDB D κ) : Set κ := {k | db.slots k ≠ none}

omit [LinearOrder D] in
theorem mem_storedKeys {k : κ} {position : Position2D D} (h : db.position k = some position) :
    k ∈ storedKeys db := by
  intro hnone
  rw [PanDB.position, hnone] at h
  cases h

theorem finite_storedKeys (h : Stable env db pos cell) : (storedKeys db).Finite := by
  obtain ⟨keys, -, hkeys, -⟩ := root_keys h
  exact (List.finite_toSet keys).subset (fun k hk => (hkeys k).2 hk)

/-- No more different key nodes than there are. -/
theorem length_le_ncard (h : Stable env db pos cell) {keys : List κ} (hnodup : keys.Nodup)
    (hkeys : ∀ k ∈ keys, k ∈ storedKeys db) : keys.length ≤ (storedKeys db).ncard := by
  classical
  rw [← List.toFinset_card_of_nodup hnodup, ← Set.ncard_coe_finset]
  exact Set.ncard_le_ncard (fun k hk => hkeys k (List.mem_toFinset.1 hk)) (finite_storedKeys h)

end

/-! ## The result of the zones -/

section
variable {ζ : Type} {keys : ζ → List κ} {fits : ζ → Bool} {stops : Nat → Bool} {limit : Nat}

/-- The zones a search comes to: it ends in the first one in which it stops or has no room. -/
def searchedZones (keys : ζ → List κ) (fits : ζ → Bool) (stops : Nat → Bool) : List ζ → List ζ
  | [] => []
  | zone :: zones =>
    zone :: if stops (keys zone).length = false ∧ fits zone = true then searchedZones keys fits stops zones else []

/-- **When the zones are all gone through.** -/
theorem zonesResult_ret : ∀ (zones : List ζ) (log : List κ), (zonesResult keys fits stops limit zones log).1 = some 0 ↔
    ∀ zone ∈ zones, fits zone = true ∧ stops (keys zone).length = false
  | [], log => by simp [zonesResult]
  | zone :: zones, log => by
    rw [zonesResult, zoneStep, List.forall_mem_cons]
    cases hstops : stops (keys zone).length with
    | true => simp [proceed]
    | false =>
      cases hfits : fits zone with
      | false => simp [proceed]
      | true =>
        simp only [Bool.false_eq_true, if_false, if_true, and_self, true_and]
        rw [proceed_zero]
        exact zonesResult_ret zones _

/-- **What the zones note**: at most the limit in each. -/
theorem zonesResult_log (hlimit : ∀ n, stops n = false → n ≤ limit) : ∀ (zones : List ζ) (log : List κ),
    (zonesResult keys fits stops limit zones log).2 =
      log ++ (searchedZones keys fits stops zones).flatMap (fun zone => (keys zone).take limit)
  | [], log => by simp [zonesResult, searchedZones]
  | zone :: zones, log => by
    rw [zonesResult, zoneStep, searchedZones]
    cases hstops : stops (keys zone).length with
    | true =>
      rw [if_pos rfl, proceed_of_ne (by simp), if_neg (by simp)]
      simp
    | false =>
      have htake : (keys zone).take limit = keys zone := List.take_of_length_le (hlimit _ hstops)
      cases hfits : fits zone with
      | false =>
        rw [if_neg Bool.false_ne_true, if_neg Bool.false_ne_true, proceed_of_ne (by simp), if_neg (by simp)]
        simp [htake]
      | true =>
        rw [if_neg Bool.false_ne_true, if_pos rfl, proceed_zero, if_pos ⟨rfl, rfl⟩, zonesResult_log hlimit zones]
        simp [htake]

theorem searchedZones_eq_self : ∀ {zones : List ζ},
    (∀ zone ∈ zones, fits zone = true ∧ stops (keys zone).length = false) → searchedZones keys fits stops zones = zones
  | [], _ => rfl
  | zone :: zones, h => by
    obtain ⟨⟨hfits, hstops⟩, h⟩ := List.forall_mem_cons.1 h
    rw [searchedZones, if_pos ⟨hstops, hfits⟩, searchedZones_eq_self h]

theorem zonesResult_all (hlimit : ∀ n, stops n = false → n ≤ limit) {zones : List ζ}
    (h : ∀ zone ∈ zones, fits zone = true ∧ stops (keys zone).length = false) :
    (zonesResult keys fits stops limit zones []).2 = zones.flatMap keys := by
  rw [zonesResult_log hlimit, searchedZones_eq_self h, List.nil_append]
  exact List.flatMap_congr (fun zone hzone => List.take_of_length_le (hlimit _ (h zone hzone).2))

/-- The search comes to a zone when it goes through all before it. -/
theorem mem_searchedZones {zone : ζ} : ∀ {zones : List ζ}, zone ∈ searchedZones keys fits stops zones ↔
    ∃ before after, zones = before ++ zone :: after ∧ ∀ z ∈ before, stops (keys z).length = false ∧ fits z = true
  | [] => by simp [searchedZones]
  | first :: zones => by
    rw [searchedZones, List.mem_cons]
    constructor
    · rintro (rfl | hmem)
      · exact ⟨[], zones, rfl, fun _ hz => absurd hz List.not_mem_nil⟩
      · split at hmem
        · rename_i hgo
          obtain ⟨before, after, rfl, hbefore⟩ := mem_searchedZones.1 hmem
          exact ⟨first :: before, after, rfl, List.forall_mem_cons.2 ⟨hgo, hbefore⟩⟩
        · cases hmem
    · rintro ⟨before, after, heq, hbefore⟩
      cases before with
      | nil => exact .inl (List.cons.inj heq).1.symm
      | cons z before =>
        obtain ⟨rfl, rfl⟩ := List.cons.inj heq
        obtain ⟨hgo, hbefore⟩ := List.forall_mem_cons.1 hbefore
        rw [if_pos hgo]
        exact .inr (mem_searchedZones.2 ⟨before, after, rfl, hbefore⟩)

/-- **Two zones a search comes to**, one after the other. -/
theorem pairwise_searchedZones {R : ζ → ζ → Prop} : ∀ zones : List ζ, (searchedZones keys fits stops zones).Pairwise R ↔
    ∀ before zone between zone' after, zones = before ++ zone :: (between ++ zone' :: after) →
      (∀ z ∈ before ++ zone :: between, stops (keys z).length = false ∧ fits z = true) → R zone zone'
  | [] => by simp [searchedZones]
  | first :: zones => by
    rw [searchedZones, List.pairwise_cons]
    constructor
    · rintro ⟨hfirst, hrest⟩ before zone between zone' after heq hgo
      cases before with
      | nil =>
        obtain ⟨rfl, rfl⟩ := List.cons.inj heq
        obtain ⟨hgo, hbetween⟩ := List.forall_mem_cons.1 hgo
        rw [if_pos hgo] at hfirst
        exact hfirst zone' (mem_searchedZones.2 ⟨between, after, rfl, hbetween⟩)
      | cons z before =>
        obtain ⟨rfl, rfl⟩ := List.cons.inj heq
        obtain ⟨hgo, hbefore⟩ := List.forall_mem_cons.1 hgo
        rw [if_pos hgo] at hrest
        exact (pairwise_searchedZones _).1 hrest before zone between zone' after rfl hbefore
    · intro h
      split
      · rename_i hgo
        refine ⟨fun zone' hmem => ?_, (pairwise_searchedZones _).2 (fun before zone between zone' after heq hbefore => ?_)⟩
        · obtain ⟨between, after, rfl, hbetween⟩ := mem_searchedZones.1 hmem
          exact h [] first between zone' after rfl (List.forall_mem_cons.2 ⟨hgo, hbetween⟩)
        · exact h (first :: before) zone between zone' after (by rw [heq]; rfl) (List.forall_mem_cons.2 ⟨hgo, hbefore⟩)
      · exact ⟨fun _ hmem => absurd hmem List.not_mem_nil, List.Pairwise.nil⟩

/-- No key node is noted twice when none of a zone that is gone through is noted again in a later one. -/
theorem zonesResult_nodup_iff (hlimit : ∀ n, stops n = false → n ≤ limit) (zones : List ζ)
    (hnodup : ∀ zone ∈ zones, (keys zone).Nodup) :
    (zonesResult keys fits stops limit zones []).2.Nodup ↔
      ∀ before zone between zone' after, zones = before ++ zone :: (between ++ zone' :: after) →
        (∀ z ∈ before ++ zone :: between, stops (keys z).length = false ∧ fits z = true) →
        ∀ k ∈ keys zone, k ∉ (keys zone').take limit := by
  rw [zonesResult_log hlimit, List.nil_append, List.nodup_flatMap, pairwise_searchedZones]
  refine (and_iff_right (fun zone hzone => ?_)).trans ⟨fun h before zone between zone' after heq hgo => ?_,
    fun h before zone between zone' after heq hgo => ?_⟩
  · obtain ⟨before, after, rfl, -⟩ := mem_searchedZones.1 hzone
    exact (hnodup zone (List.mem_append_right _ List.mem_cons_self)).sublist (List.take_sublist _ _)
  · have hdisjoint := h before zone between zone' after heq hgo
    rw [Function.onFun,
      List.take_of_length_le (hlimit _ (hgo zone (List.mem_append_right _ List.mem_cons_self)).1)] at hdisjoint
    exact fun k hk => hdisjoint hk
  · rw [Function.onFun, List.take_of_length_le (hlimit _ (hgo zone (List.mem_append_right _ List.mem_cons_self)).1)]
    exact h before zone between zone' after heq hgo

/-- **The limit holds for all zones together** exactly when one of them ends the search, or there are not too many. -/
theorem zonesResult_limit_iff (keys : ζ → List κ) (fits : ζ → Bool) (hlimit : ∀ n, stops n = false → n ≤ limit)
    (zones : List ζ) : ((zonesResult keys fits stops limit zones []).1 = some 0 →
      (zonesResult keys fits stops limit zones []).2.length ≤ limit) ↔
      (∃ zone ∈ zones, fits zone = false ∨ stops (keys zone).length = true) ∨
        (zones.map (fun zone => (keys zone).length)).sum ≤ limit := by
  have hsome : (∃ zone ∈ zones, fits zone = false ∨ stops (keys zone).length = true) ↔
      ¬ ∀ zone ∈ zones, fits zone = true ∧ stops (keys zone).length = false := by
    push Not
    exact exists_congr (fun zone => and_congr_right (fun _ => by
      cases fits zone <;> cases stops (keys zone).length <;> simp))
  rw [zonesResult_ret, hsome]
  constructor
  · intro h
    by_cases hend : ∀ zone ∈ zones, fits zone = true ∧ stops (keys zone).length = false
    · have hlen := h hend
      rw [zonesResult_all hlimit hend, List.length_flatMap] at hlen
      exact .inr hlen
    · exact .inl hend
  · rintro (hend | hsum) h
    · exact absurd h hend
    · rwa [zonesResult_all hlimit h, List.length_flatMap]

/-- The numbers of the zones count when all zones are gone through. -/
theorem limit_congr {zones : List ζ} {m n : ζ → Nat} {p : Nat → Prop}
    (h : ∀ zone ∈ zones, fits zone = true → m zone = n zone) :
    ((∃ zone ∈ zones, fits zone = false ∨ p (m zone)) ∨ (zones.map m).sum ≤ limit) ↔
      (∃ zone ∈ zones, fits zone = false ∨ p (n zone)) ∨ (zones.map n).sum ≤ limit := by
  by_cases hfull : ∃ zone ∈ zones, fits zone = false
  · obtain ⟨zone, hzone, hfits⟩ := hfull
    exact iff_of_true (.inl ⟨zone, hzone, .inl hfits⟩) (.inl ⟨zone, hzone, .inl hfits⟩)
  · have heq : ∀ zone ∈ zones, m zone = n zone := fun zone hzone =>
      h zone hzone (Bool.not_eq_false _ ▸ fun hno => hfull ⟨zone, hzone, hno⟩)
    rw [List.map_congr_left heq]
    refine or_congr_left (exists_congr (fun zone => and_congr_right (fun hzone => ?_)))
    rw [heq zone hzone]

end

/-! ## Trees with a few slots -/

/-- The root counts the key nodes that have a slot. -/
theorem ncard_storedKeys [LinearOrder D] {env : PanDbEnv D κ} {db : PanDB D κ} {pos : κ → Option (Position2D D)}
    {cell : Nat → Rectangle2D D} (h : Stable env db pos cell) {q : QuadNode} (hq : db.quadNode db.root = some q) :
    (storedKeys db).ncard = q.subSlots := by
  classical
  obtain ⟨q', hq', -, keys, hnodup, hkeys, hlen⟩ := (law_of_stable h).root
  rw [hq, Option.some.injEq] at hq'
  have heq : storedKeys db = (keys.toFinset : Set κ) := by
    ext k
    rw [Finset.mem_coe, List.mem_toFinset, hkeys]
    rfl
  rw [heq, Set.ncard_coe_finset, List.toFinset_card_of_nodup hnodup, ← hlen, hq']

/-- A tree with one slot. -/
theorem position_of_single [LinearOrder D] [DecidableEq κ] {env : PanDbEnv D κ} {db : PanDB D κ}
    {pos : κ → Option (Position2D D)} {cell : Nat → Rectangle2D D} (h : Stable env db pos cell) {q : QuadNode}
    (hq : db.quadNode db.root = some q) (hone : q.subSlots = 1) {k k' : κ} {position position' : Position2D D}
    (hk : db.position k = some position) (hk' : db.position k' = some position') : position' = position := by
  obtain ⟨k₀, hk₀⟩ := Set.ncard_eq_one.1 ((ncard_storedKeys h hq).trans hone)
  have hmem := mem_storedKeys hk
  have hmem' := mem_storedKeys hk'
  rw [hk₀, Set.mem_singleton_iff] at hmem hmem'
  subst hmem
  subst hmem'
  rw [hk, Option.some.injEq] at hk'
  exact hk'.symm

/-- The layers of the program: the bounds, the buckets and the midpoints. -/
def worldEnv (layerType : LayerType) : SearchEnv ℚ Nat where
  qbounds := ⟨⟨-90, -180⟩, ⟨90, 180⟩⟩
  latitudeAccuracy := 1 / 1000
  longitudeAccuracy := 1 / 1000
  bucketSize := 50
  midpoint := ⟨fun lo hi => (lo + hi) / 2, fun h => by linarith, fun h => by linarith⟩
  order := fun entries => entries
  latitude_le := by norm_num
  longitude_le := by norm_num
  bucketSize_pos := by decide
  order_perm := fun entries => List.Perm.refl entries
  layerType := layerType
  accuracy := .fast
  cosf := fun _ => 1
  vincentyDistanceBetweenGeoidalPositions := fun _ _ => 0
  hsDistanceBetweenGeoidalPositions := fun _ _ => 0
  gcDistanceBetweenGeoidalPositions := fun _ _ => 0

/-- The tree after a run, and a fact that is computed there. -/
theorem reached_of_exec (layerType : LayerType) (ops : List (PanDbOp ℚ Nat)) (p : PanDB ℚ Nat → Bool)
    (h : ((panDbSystem (worldEnv layerType).toPanDbEnv).exec ops initPanDb).any p = true) :
    ∃ db, (panDbSystem (worldEnv layerType).toPanDbEnv).Reachable db ∧ p db = true := by
  obtain ⟨db, hdb, hp⟩ := (Option.any_eq_true _ _).1 h
  obtain ⟨hist, hr, -⟩ := Lib.System.Run.of_exec _ Lib.System.Run.init hdb
  exact ⟨db, ⟨hist, hr⟩, hp⟩

/-! ## The laws -/

section
variable [Add D] [Sub D] [Neg D] [Mul D] [Div D] [Zero D] [One D] [NatCast D] [LinearOrder D] [DecidableEq κ]
  {env : SearchEnv D κ} {db : PanDB D κ}

omit [DecidableEq κ] in
/-- A search in one zone without as many key nodes as the limit. -/
theorem zonesResult_singleton {ζ : Type} {keys : ζ → List κ} {fits : ζ → Bool} {stops : Nat → Bool} {limit : Nat} {zone : ζ}
    (h : stops (keys zone).length = false) :
    zonesResult keys fits stops limit [zone] [] = (if fits zone then some 0 else none, keys zone) := by
  rw [zonesResult, zoneStep, h, if_neg Bool.false_ne_true, List.nil_append]
  exact proceed_pure _

/-- The key nodes within the distance of a search whose buckets a walk through a zone comes to. -/
def nearSlots (env : SearchEnv D κ) (db : PanDB D κ) (position : Position2D D) (distance : D) (zone : Rectangle2D D) :
    Set κ :=
  {k | ∃ slotPosition, db.position k = some slotPosition ∧ (nearDistance env position slotPosition).le distance ∧
    Touches env.toPanDbEnv db zone k}

omit [Add D] [Sub D] [Neg D] [Mul D] [Div D] [Zero D] [One D] [NatCast D] [DecidableEq κ] in
/-- The key nodes in a rectangle. -/
def inRectSlots (db : PanDB D κ) (rect : Rectangle2D D) : Set κ :=
  {k | ∃ slotPosition, db.position k = some slotPosition ∧ positionIsInRect slotPosition rect}

omit [One D] [DecidableEq κ] in
theorem nearKeys_spec {pos : κ → Option (Position2D D)} {cell : Nat → Rectangle2D D} (h : Stable env.toPanDbEnv db pos cell)
    (position : Position2D D) (distance : D) (zone : Rectangle2D D) :
    Notes (nearSlots env db position distance zone) (zoneFits env db zone) (nearKeys env db position distance zone) := by
  obtain ⟨hnodup, hsound, hall⟩ :=
    keysOf_spec h zone (fun slotPosition => (nearDistance env position slotPosition).le distance)
  exact ⟨hnodup, hsound, fun hfits k ⟨p, hp, hle, htouch⟩ => hall hfits k p hp hle htouch⟩

omit [Add D] [Sub D] [Neg D] [Mul D] [Div D] [Zero D] [One D] [NatCast D] [DecidableEq κ] in
theorem rectKeys_spec {pos : κ → Option (Position2D D)} {cell : Nat → Rectangle2D D} (h : Stable env.toPanDbEnv db pos cell)
    (zone : Rectangle2D D) : Notes (inRectSlots db zone) (zoneFits env db zone) (rectKeys env db zone) := by
  obtain ⟨hnodup, hsound, hall⟩ := keysOf_spec h zone (fun slotPosition => positionIsInRect slotPosition zone)
  refine ⟨hnodup, fun k hk => ?_, fun hfits k ⟨p, hp, hin⟩ => hall hfits k p hp hin (touches_of_isInRect h hp hin)⟩
  obtain ⟨p, hp, hin, -⟩ := hsound k hk
  exact ⟨p, hp, hin⟩

/-- **A search around a position of a flat layer** with a limit that is not reached finds the slots within the distance
exactly when the rectangle of the search, whose sides are in degrees, meets the cells of their buckets, and the stack has
room. -/
theorem find_near_flat_iff (hr : (panDbSystem env.toPanDbEnv).Reachable db) (hflat : env.layerType = .flat)
    (position : Position2D D) {distance : D} (hdistance : 0 ≤ distance) {limit : Nat}
    (hlimit : (storedKeys db).ncard < limit) :
    ((findNear env db logCb [] position distance limit).1 = some 0 ∧
      (findNear env db logCb [] position distance limit).2.Nodup ∧
      ∀ k, k ∈ (findNear env db logCb [] position distance limit).2 ↔ ∃ slotPosition, db.position k = some slotPosition ∧
        computeSquareDistance env position slotPosition ≤ distance * distance) ↔
    zoneFits env db (nearRect env position distance) = true ∧
      ∀ k slotPosition, db.position k = some slotPosition →
        computeSquareDistance env position slotPosition ≤ distance * distance →
        Touches env.toPanDbEnv db (nearRect env position distance) k := by
  obtain ⟨pos, cell, h⟩ := panDb_reachable_stable hr
  obtain ⟨hnodup, hsound, hall⟩ := keysOf_spec h (nearRect env position distance)
    (fun slotPosition => (nearDistance env position slotPosition).le distance)
  have hle : ∀ slotPosition, (nearDistance env position slotPosition).le distance ↔
      computeSquareDistance env position slotPosition ≤ distance * distance := by
    intro slotPosition
    simp only [nearDistance, hflat, distanceBetweenFlatPositions, Meters.le, hdistance, true_and]
  have hlen : (nearKeys env db position distance (nearRect env position distance)).length < limit := by
    refine Nat.lt_of_le_of_lt (length_le_ncard h hnodup (fun k hk => ?_)) hlimit
    obtain ⟨p, hp, -, -⟩ := hsound k hk
    exact mem_storedKeys hp
  have hrun : findNear env db logCb [] position distance limit =
      (if zoneFits env db (nearRect env position distance) then some 0 else none,
        nearKeys env db position distance (nearRect env position distance)) := by
    rw [findNear_eq (ascending_of_stable h) position distance (by omega), nearZones, if_pos hflat]
    exact zonesResult_singleton (decide_eq_false (Nat.not_le.2 hlen))
  rw [hrun]
  constructor
  · rintro ⟨hret, -, hkeys⟩
    have hfits : zoneFits env db (nearRect env position distance) = true := by
      by_contra hno
      rw [if_neg hno] at hret
      cases hret
    refine ⟨hfits, fun k p hp hp' => ?_⟩
    obtain ⟨-, -, -, htouch⟩ := hsound k ((hkeys k).2 ⟨p, hp, hp'⟩)
    exact htouch
  · rintro ⟨hfits, htouch⟩
    refine ⟨if_pos hfits, hnodup, fun k => ⟨fun hk => ?_, fun ⟨p, hp, hp'⟩ => ?_⟩⟩
    · obtain ⟨p, hp, hp', -⟩ := hsound k hk
      exact ⟨p, hp, (hle p).1 hp'⟩
    · exact hall hfits k p hp ((hle p).2 hp') (htouch k p hp hp')

/-- The one slot of a tree is found. -/
theorem find_near_flat_found : ∃ db, (panDbSystem (worldEnv .flat).toPanDbEnv).Reachable db ∧
    (findNear (worldEnv .flat) db logCb [] ⟨10, 10⟩ 20 2).1 = some 0 ∧
    ∀ k, k ∈ (findNear (worldEnv .flat) db logCb [] ⟨10, 10⟩ 20 2).2 ↔ ∃ slotPosition, db.position k = some slotPosition ∧
      computeSquareDistance (worldEnv .flat) ⟨10, 10⟩ slotPosition ≤ 20 * 20 := by
  obtain ⟨db, hr, hp⟩ := reached_of_exec .flat [.addSlot 0 ⟨10, 10⟩] (fun db =>
    zoneFits (worldEnv .flat) db (nearRect (worldEnv .flat) ⟨10, 10⟩ 20) &&
      (db.position 0).any (fun p => positionIsInRect p (nearRect (worldEnv .flat) ⟨10, 10⟩ 20)) &&
      (db.quadNode db.root).any (fun q => q.subSlots = 1)) (by decide +kernel)
  obtain ⟨pos, cell, h⟩ := panDb_reachable_stable hr
  simp only [Bool.and_eq_true] at hp
  obtain ⟨⟨hfits, hin⟩, hroot⟩ := hp
  obtain ⟨p, hpos, hin⟩ := (Option.any_eq_true _ _).1 hin
  obtain ⟨q, hq, hone⟩ := (Option.any_eq_true _ _).1 hroot
  have hcard : (storedKeys db).ncard = 1 := (ncard_storedKeys h hq).trans (of_decide_eq_true hone)
  obtain ⟨k₀, hk₀⟩ := Set.ncard_eq_one.1 hcard
  have hzero : ∀ k slotPosition, db.position k = some slotPosition → k = 0 := by
    intro k slotPosition hk
    have hmem := mem_storedKeys hk
    have hmem₀ := mem_storedKeys hpos
    rw [hk₀] at hmem hmem₀
    exact hmem.trans hmem₀.symm
  obtain ⟨hret, -, hkeys⟩ := (find_near_flat_iff hr rfl ⟨10, 10⟩ (show (0 : ℚ) ≤ 20 by norm_num)
    (show (storedKeys db).ncard < 2 by rw [hcard]; decide)).2 ⟨hfits, fun k slotPosition hk _ => by
      rw [hzero k slotPosition hk]
      exact touches_of_isInRect h hpos (of_decide_eq_true hin)⟩
  exact ⟨db, hr, hret, hkeys⟩

/-- **A slot within the distance is not found**: 20 is 20 units from slot to slot, but 20 metres for the rectangle. -/
theorem find_near_flat_missed : ∃ db, (panDbSystem (worldEnv .flat).toPanDbEnv).Reachable db ∧
    (storedKeys db).ncard < 2 ∧ (∃ slotPosition, db.position 0 = some slotPosition ∧
      computeSquareDistance (worldEnv .flat) ⟨10, 10⟩ slotPosition ≤ 20 * 20) ∧
    findNear (worldEnv .flat) db logCb [] ⟨10, 10⟩ 20 2 = (some 0, []) := by
  obtain ⟨db, hr, hp⟩ := reached_of_exec .flat [.addSlot 0 ⟨-5, 10⟩] (fun db =>
    (findNear (worldEnv .flat) db logCb [] ⟨10, 10⟩ 20 2 = (some 0, [])) &&
      (db.position 0).any (fun p => computeSquareDistance (worldEnv .flat) ⟨10, 10⟩ p ≤ 20 * 20) &&
      (db.quadNode db.root).any (fun q => q.subSlots = 1)) (by decide +kernel)
  obtain ⟨pos, cell, h⟩ := panDb_reachable_stable hr
  simp only [Bool.and_eq_true, decide_eq_true_eq] at hp
  obtain ⟨⟨hrun, hin⟩, hroot⟩ := hp
  obtain ⟨p, hpos, hdist⟩ := (Option.any_eq_true _ _).1 hin
  obtain ⟨q, hq, hone⟩ := (Option.any_eq_true _ _).1 hroot
  refine ⟨db, hr, ?_, ⟨p, hpos, of_decide_eq_true hdist⟩, hrun⟩
  rw [ncard_storedKeys h hq, of_decide_eq_true hone]
  decide

/-- **A search around a position reports no slot twice** exactly when no slot of a zone that it goes through is among those
that it reports in a later one. -/
theorem find_near_once_iff (hr : (panDbSystem env.toPanDbEnv).Reachable db) (position : Position2D D) (distance : D)
    (limit : Nat) :
    (findNear env db logCb [] position distance limit).2.Nodup ↔
      ∀ before zone between zone' after,
        nearZones env position distance = before ++ zone :: (between ++ zone' :: after) →
        (∀ z ∈ before ++ zone :: between,
          zoneFits env db z = true ∧ (nearSlots env db position distance z).ncard < limit) →
        ∀ k ∈ nearSlots env db position distance zone, k ∉ (nearKeys env db position distance zone').take limit := by
  obtain ⟨pos, cell, h⟩ := panDb_reachable_stable hr
  have hkeys := fun zone => nearKeys_spec h position distance zone
  cases limit with
  | zero =>
    rw [findNear, if_pos le_rfl]
    exact iff_of_true List.nodup_nil (fun _ _ _ _ _ _ _ _ _ => by rw [List.take_zero]; exact List.not_mem_nil)
  | succ limit =>
    have hstops : ∀ n, decide (limit + 1 ≤ n) = false → n ≤ limit + 1 := fun n hn => by
      have := of_decide_eq_false hn
      omega
    rw [findNear_eq (ascending_of_stable h) position distance (Nat.succ_pos limit),
      zonesResult_nodup_iff hstops _ (fun zone _ => (hkeys zone).nodup)]
    refine forall_congr' fun before => forall_congr' fun zone => forall_congr' fun between => forall_congr' fun zone' =>
      forall_congr' fun after => forall_congr' fun _ => ?_
    have hgo : (∀ z ∈ before ++ zone :: between,
          decide (limit + 1 ≤ (nearKeys env db position distance z).length) = false ∧ zoneFits env db z = true) ↔
        ∀ z ∈ before ++ zone :: between,
          zoneFits env db z = true ∧ (nearSlots env db position distance z).ncard < limit + 1 := by
      refine forall₂_congr (fun z _ => and_comm.trans (and_congr_right (fun hfits => ?_)))
      rw [decide_eq_false_iff_not, Nat.not_le, (hkeys z).length hfits]
    rw [hgo]
    refine forall_congr' fun hgo => ?_
    have hfits := (hgo zone (List.mem_append_right _ List.mem_cons_self)).1
    exact forall_congr' fun k => by rw [(hkeys zone).mem_iff hfits]

/-- Slots on both sides of the date line and near the meridian. -/
def roundSlots : List (PanDbOp ℚ Nat) :=
  [.addSlot 0 ⟨-4, 0⟩, .addSlot 1 ⟨30, 5⟩, .addSlot 2 ⟨40, -5⟩, .addSlot 3 ⟨1, 175⟩, .addSlot 4 ⟨2, -175⟩,
    .addSlot 5 ⟨-1, -179⟩]

/-- The two zones of a search over the date line share no slot; a search over the pole is stopped before its second zone,
where it would report slots again. -/
theorem find_near_once_edge : ∃ db, (panDbSystem (worldEnv .flatwrap).toPanDbEnv).Reachable db ∧
    (findNear (worldEnv .flatwrap) db logCb [] ⟨0, 176⟩ 2000000 10).2.Nodup ∧
    findNear (worldEnv .flatwrap) db logCb [] ⟨0, 176⟩ 2000000 10 = (some 0, [0, 1, 3, 5, 2, 4]) ∧
    (findNear (worldEnv .flatwrap) db logCb [] ⟨45, 0⟩ 5600000 6).2.Nodup ∧
    findNear (worldEnv .flatwrap) db logCb [] ⟨45, 0⟩ 5600000 7 = (some 0, [0, 1, 3, 5, 2, 4, 0, 5]) := by
  obtain ⟨db, hr, hp⟩ := reached_of_exec .flatwrap roundSlots (fun db =>
    (decide (findNear (worldEnv .flatwrap) db logCb [] ⟨0, 176⟩ 2000000 10 = (some 0, [0, 1, 3, 5, 2, 4])) &&
      decide (findNear (worldEnv .flatwrap) db logCb [] ⟨45, 0⟩ 5600000 7 = (some 0, [0, 1, 3, 5, 2, 4, 0, 5]))) &&
    (decide ((nearZones (worldEnv .flatwrap) ⟨0, 176⟩ 2000000).flatMap
        (nearKeys (worldEnv .flatwrap) db ⟨0, 176⟩ 2000000)).Nodup &&
      decide ((nearZones (worldEnv .flatwrap) ⟨45, 0⟩ 5600000).head?.map
        (fun zone => (nearKeys (worldEnv .flatwrap) db ⟨45, 0⟩ 5600000 zone).length) = some 6))) (by decide +kernel)
  simp only [Bool.and_eq_true, decide_eq_true_eq] at hp
  obtain ⟨⟨hfound, hagain⟩, hapart, hlength⟩ := hp
  obtain ⟨pos, cell, h⟩ := panDb_reachable_stable hr
  refine ⟨db, hr, (find_near_once_iff hr ⟨0, 176⟩ 2000000 10).2 ?_, hfound,
    (find_near_once_iff hr ⟨45, 0⟩ 5600000 6).2 ?_, hagain⟩
  · intro before zone between zone' after heq hgo k hk htake
    have hnoted := (nearKeys_spec h _ _ _).all (hgo zone (List.mem_append_right _ List.mem_cons_self)).1 k hk
    rw [heq, List.flatMap_append, List.flatMap_cons, List.flatMap_append, List.flatMap_cons] at hapart
    have hdisjoint := List.disjoint_of_nodup_append (List.nodup_append'.1 hapart).2.1
    exact hdisjoint hnoted (List.mem_append_right _ (List.mem_append_left _ (List.mem_of_mem_take htake)))
  · intro before zone between zone' after heq hgo
    obtain ⟨first, hfirst, hsix⟩ := Option.map_eq_some_iff.1 hlength
    rw [heq] at hfirst
    have hmem : first ∈ before ++ zone :: between := by
      cases before <;> exact (Option.some.inj hfirst) ▸ List.mem_cons_self
    obtain ⟨hfits, hfew⟩ := hgo first hmem
    rw [← (nearKeys_spec h _ _ _).length hfits, hsix] at hfew
    exact absurd hfew (by decide)

/-- **A slot is reported twice**: its bucket meets both the rectangle of the search and what is left of it beyond the
pole. -/
theorem find_near_once_twice : ∃ db, (panDbSystem (worldEnv .flatwrap).toPanDbEnv).Reachable db ∧
    positionIsInRect ⟨45, 0⟩ (worldEnv .flatwrap).qbounds ∧
    findNear (worldEnv .flatwrap) db logCb [] ⟨45, 0⟩ 5600000 10 = (some 0, [0, 0]) := by
  obtain ⟨db, hr, hp⟩ := reached_of_exec .flatwrap [.addSlot 0 ⟨-4, 0⟩] (fun db =>
    findNear (worldEnv .flatwrap) db logCb [] ⟨45, 0⟩ 5600000 10 = (some 0, [0, 0])) (by decide +kernel)
  exact ⟨db, hr, by decide +kernel, of_decide_eq_true hp⟩

/-- **The limit holds for all zones of a search together** exactly when a zone has as many slots as ends the search there,
or there are not more than the limit in all zones; or the stack has no room. -/
theorem search_limit_iff (hr : (panDbSystem env.toPanDbEnv).Reachable db) {limit : Nat} (hlimit : 0 < limit) :
    (∀ position distance, ((findNear env db logCb [] position distance limit).1 = some 0 →
        (findNear env db logCb [] position distance limit).2.length ≤ limit) ↔
      (∃ zone ∈ nearZones env position distance,
        zoneFits env db zone = false ∨ limit ≤ (nearSlots env db position distance zone).ncard) ∨
      ((nearZones env position distance).map (fun zone => (nearSlots env db position distance zone).ncard)).sum ≤ limit) ∧
    ∀ clusterCb rect epsilon, epsilon ≤ 0 → (((findInRect env db logCb clusterCb [] rect limit epsilon).1 = some 0 →
        (findInRect env db logCb clusterCb [] rect limit epsilon).2.length ≤ limit) ↔
      (∃ zone ∈ inRectZones env rect, zoneFits env db zone = false ∨ limit < (inRectSlots db zone).ncard) ∨
      ((inRectZones env rect).map (fun zone => (inRectSlots db zone).ncard)).sum ≤ limit) := by
  obtain ⟨pos, cell, h⟩ := panDb_reachable_stable hr
  refine ⟨fun position distance => ?_, fun clusterCb rect epsilon hepsilon => ?_⟩
  · have hstops : ∀ n, decide (limit ≤ n) = false → n ≤ limit := fun n hn => by
      have := of_decide_eq_false hn
      omega
    rw [findNear_eq (ascending_of_stable h) position distance hlimit, zonesResult_limit_iff _ _ hstops]
    simp only [decide_eq_true_eq]
    exact limit_congr (fun zone _ hfits => (nearKeys_spec h position distance zone).length hfits)
  · have hstops : ∀ n, decide (limit < n) = false → n ≤ limit := fun n hn => by
      have := of_decide_eq_false hn
      omega
    rw [findInRect_eq (ascending_of_stable h) clusterCb rect hlimit hepsilon, zonesResult_limit_iff _ _ hstops]
    simp only [decide_eq_true_eq]
    exact limit_congr (fun zone _ hfits => (rectKeys_spec h zone).length hfits)

/-- As many slots as the limit in the two zones of a search over the date line; with one less for the limit, all of them
are reported still. -/
theorem search_limit_edge : ∃ db, (panDbSystem (worldEnv .flatwrap).toPanDbEnv).Reachable db ∧
    (findNear (worldEnv .flatwrap) db logCb [] ⟨0, 176⟩ 2000000 6).2.length ≤ 6 ∧
    findNear (worldEnv .flatwrap) db logCb [] ⟨0, 176⟩ 2000000 5 = (some 0, [0, 1, 3, 5, 2, 4]) ∧
    (findInRect (worldEnv .flatwrap) db logCb (fun log _ _ _ => (some 0, log)) [] ⟨⟨-10, 170⟩, ⟨10, 190⟩⟩ 3 (-1)).2.length ≤
      3 ∧
    findInRect (worldEnv .flatwrap) db logCb (fun log _ _ _ => (some 0, log)) [] ⟨⟨-10, 170⟩, ⟨10, 190⟩⟩ 2 (-1) =
      (some 0, [3, 5, 4]) := by
  obtain ⟨db, hr, hp⟩ := reached_of_exec .flatwrap roundSlots (fun db =>
    (decide ((findNear (worldEnv .flatwrap) db logCb [] ⟨0, 176⟩ 2000000 6).1 = some 0) &&
      decide (findNear (worldEnv .flatwrap) db logCb [] ⟨0, 176⟩ 2000000 5 = (some 0, [0, 1, 3, 5, 2, 4])) &&
      ((nearZones (worldEnv .flatwrap) ⟨0, 176⟩ 2000000).all (zoneFits (worldEnv .flatwrap) db) &&
        decide (((nearZones (worldEnv .flatwrap) ⟨0, 176⟩ 2000000).map (fun zone =>
          (nearKeys (worldEnv .flatwrap) db ⟨0, 176⟩ 2000000 zone).length)).sum = 6))) &&
    (decide ((findInRect (worldEnv .flatwrap) db logCb (fun log _ _ _ => (some 0, log)) [] ⟨⟨-10, 170⟩, ⟨10, 190⟩⟩ 3
        (-1)).1 = some 0) &&
      decide (findInRect (worldEnv .flatwrap) db logCb (fun log _ _ _ => (some 0, log)) [] ⟨⟨-10, 170⟩, ⟨10, 190⟩⟩ 2
        (-1) = (some 0, [3, 5, 4])) &&
      ((inRectZones (worldEnv .flatwrap) ⟨⟨-10, 170⟩, ⟨10, 190⟩⟩).all (zoneFits (worldEnv .flatwrap) db) &&
        decide (((inRectZones (worldEnv .flatwrap) ⟨⟨-10, 170⟩, ⟨10, 190⟩⟩).map (fun zone =>
          (rectKeys (worldEnv .flatwrap) db zone).length)).sum = 3)))) (by decide +kernel)
  simp only [Bool.and_eq_true, decide_eq_true_eq, List.all_eq_true] at hp
  obtain ⟨⟨⟨hnear, hexceeded⟩, hfits, hsum⟩, ⟨hrect, hexceeded'⟩, hfits', hsum'⟩ := hp
  obtain ⟨pos, cell, h⟩ := panDb_reachable_stable hr
  refine ⟨db, hr, ((search_limit_iff hr (by decide)).1 ⟨0, 176⟩ 2000000).2 (.inr ?_) hnear, hexceeded,
    ((search_limit_iff hr (by decide)).2 _ _ (-1) (by decide +kernel)).2 (.inr ?_) hrect, hexceeded'⟩
  · rw [← hsum]
    exact (congrArg List.sum (List.map_congr_left (fun zone hzone =>
      ((nearKeys_spec h _ _ zone).length (hfits zone hzone)).symm))).le
  · rw [← hsum']
    exact (congrArg List.sum (List.map_congr_left (fun zone hzone =>
      ((rectKeys_spec h zone).length (hfits' zone hzone)).symm))).le
/-- **Two slots are reported with a limit of one**: one in the rectangle, one in what is left of it beyond the pole. -/
theorem search_limit_exceeded : ∃ db, (panDbSystem (worldEnv .flatwrap).toPanDbEnv).Reachable db ∧
    findInRect (worldEnv .flatwrap) db logCb (fun log _ _ _ => (some 0, log)) [] ⟨⟨80, -10⟩, ⟨100, 10⟩⟩ 1 (-1) =
      (some 0, [0, 1]) := by
  obtain ⟨db, hr, hp⟩ := reached_of_exec .flatwrap [.addSlot 0 ⟨85, 0⟩, .addSlot 1 ⟨-85, 0⟩]
    (fun db => findInRect (worldEnv .flatwrap) db logCb (fun log _ _ _ => (some 0, log)) []
      ⟨⟨80, -10⟩, ⟨100, 10⟩⟩ 1 (-1) = (some 0, [0, 1])) (by decide +kernel)
  exact ⟨db, hr, of_decide_eq_true hp⟩

end

end Pincaster
