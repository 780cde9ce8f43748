import Pincaster.Lib.Binds
import Pincaster.SlipMapRuns
import Pincaster.QueryCodec
import Pincaster.Store
/-!
# PutBody — the pairs of a PUT and the maps they are put in

`query_parse` gives its callback the pairs of the body and `slip_map_foreach` the pairs of a map, so both are walks over
a list.  What the updates of a property map leave is told by the finite map it holds.
-/
namespace Pincaster

open Lib (Bytes bytes ncaseEq assign unbound walk Along)

variable {σ D : Type}

/-! ## Walks -/

theorem queryParseLoop_walk (cb : σ → Bytes → Bytes → Option (Int × σ)) :
    ∀ (fuel : Nat) (part : Bytes) (buffers : QueryBuffers) (acc all : List (Bytes × Bytes)) (context : σ),
      queryParseLoop collect fuel part buffers acc = some (0, all) → ∃ pairs, all = acc ++ pairs ∧
        queryParseLoop cb fuel part buffers context =
          (walk cb pairs context).map (fun r => (if r.1 ≠ 0 then 1 else 0, r.2))
  | 0, _, _, _, _, _, h => by cases h
  | fuel + 1, part, buffers, acc, all, context, h => by
    unfold queryParseLoop at h ⊢
    rcases hpart : queryParsePart part buffers with _ | _ | p
    · rw [hpart] at h
      cases h
    · rw [hpart] at h
      cases h
    · simp only [hpart, Option.bind_eq_bind, Option.bind_some, collect, ne_eq, not_true_eq_false, if_false] at h ⊢
      rcases hnext : p.next with _ | next
      · simp only [hnext, Option.some.injEq, Prod.mk.injEq, true_and] at h ⊢
        refine ⟨[(p.key, p.value)], h.symm, ?_⟩
        rcases hcb : cb context p.key p.value with _ | ⟨ret, context'⟩
        · simp [walk, hcb]
        · by_cases hret : ret = 0 <;> simp [walk, hcb, hret]
      · simp only [hnext] at h ⊢
        rcases hcb : cb context p.key p.value with _ | ⟨ret, context'⟩
        · obtain ⟨pairs, rfl, _⟩ := queryParseLoop_walk cb fuel next p.buffers _ all context h
          exact ⟨(p.key, p.value) :: pairs, by simp, by simp [walk, hcb]⟩
        · obtain ⟨pairs, rfl, hpairs⟩ := queryParseLoop_walk cb fuel next p.buffers _ all context' h
          refine ⟨(p.key, p.value) :: pairs, by simp, ?_⟩
          by_cases hret : ret = 0 <;> simp [walk, hcb, hret, hpairs]

/-- **`query_parse` gives the callback the pairs of a well-formed query**, until the callback stops it. -/
theorem queryParse_walk {query : Bytes} {pairs : List (Bytes × Bytes)} (h : queryParse query collect [] = some (0, pairs))
    (cb : σ → Bytes → Bytes → Option (Int × σ)) (context : σ) :
    queryParse query cb context = (walk cb pairs context).map (fun r => (if r.1 ≠ 0 then 1 else 0, r.2)) := by
  unfold queryParse at h ⊢
  cases query with
  | nil =>
    obtain rfl : [] = pairs := by simpa using h
    rfl
  | cons c query =>
    by_cases hc : c = 0
    · simp only [if_pos hc, Option.some.injEq, Prod.mk.injEq, true_and] at h ⊢
      subst h
      rfl
    · simp only [if_neg hc] at h ⊢
      obtain ⟨ps, hps, hwalk⟩ := queryParseLoop_walk cb _ _ _ _ _ context h
      rw [List.nil_append] at hps
      rw [hps, hwalk]

/-- The pairs `slip_map_foreach` visits. -/
def visited (slipMap : Option SlipMap) : List (Bytes × Bytes) := (slipMapForeachCb slipMap collect []).getD []

theorem visitEntries_walk (cb : σ → Bytes → Bytes → Option (Int × σ)) : ∀ (es : List (Bytes × Bytes)) (context : σ),
    visitEntries (fun context key value =>
      match context.bind (cb · key value) with
      | none => (1, none)
      | some (ret, context) => (ret, some context)) es (some context) = (walk cb es context).map Prod.snd
  | [], _ => rfl
  | (key, value) :: es, context => by
    rw [visitEntries, walk]
    rcases hcb : cb context key value with _ | ⟨ret, context'⟩
    · simp [hcb]
    · have ih := visitEntries_walk cb es context'
      by_cases hret : ret = 0
      · simp only [Option.bind_some, hcb, hret, ne_eq, not_true_eq_false, if_false]
        exact ih
      · simp [hcb, hret]

theorem walk_collect : ∀ es acc : List (Bytes × Bytes), walk collect es acc = some (0, acc ++ es)
  | [], acc => by simp [walk]
  | (key, value) :: es, acc => by simp [walk, collect, walk_collect es]

/-! ## The map a slip map holds -/

/-- **What a property map holds**: `NULL` holds nothing. -/
def Holds : Option SlipMap → (Bytes → Option Bytes) → Prop
  | none, binds => binds = unbound
  | some slip, binds => ∃ ts, Refines ⟨slip, binds⟩ ts

theorem slipMapForeachCb_tiled {slip : SlipMap} {ts : List Tile} (h : Tiled slip ts)
    (cb : σ → Bytes → Bytes → Option (Int × σ)) (context : σ) :
    slipMapForeachCb (some slip) cb context = (walk cb (entries ts) context).map Prod.snd := by
  simp only [slipMapForeachCb, slipMapForeach_spec h, Option.join_some]
  exact visitEntries_walk cb (entries ts) context

theorem visited_tiled {slip : SlipMap} {ts : List Tile} (h : Tiled slip ts) : visited (some slip) = entries ts := by
  rw [visited, slipMapForeachCb_tiled h, walk_collect]
  rfl

/-- **`slip_map_foreach` gives the callback the bindings**, each once. -/
theorem Holds.foreach {m : Option SlipMap} {binds : Bytes → Option Bytes} (h : Holds m binds)
    (cb : σ → Bytes → Bytes → Option (Int × σ)) (context : σ) :
    slipMapForeachCb m cb context = (walk cb (visited m) context).map Prod.snd := by
  cases m with
  | none => rfl
  | some slip =>
    obtain ⟨ts, htiled, _⟩ := h
    rw [slipMapForeachCb_tiled htiled, visited_tiled htiled]

theorem Holds.nodup {m : Option SlipMap} {binds : Bytes → Option Bytes} (h : Holds m binds) :
    ((visited m).map Prod.fst).Nodup := by
  cases m with
  | none => exact List.nodup_nil
  | some slip =>
    obtain ⟨ts, htiled, _⟩ := h
    rw [visited_tiled htiled]
    exact htiled.nodup

theorem Holds.mem_visited {m : Option SlipMap} {binds : Bytes → Option Bytes} (h : Holds m binds) {key value : Bytes} :
    (key, value) ∈ visited m ↔ binds key = some value := by
  cases m with
  | none =>
    obtain rfl : binds = unbound := h
    exact ⟨fun hmem => absurd hmem List.not_mem_nil, nofun⟩
  | some slip =>
    obtain ⟨ts, htiled, hbinds⟩ := h
    rw [visited_tiled htiled]
    exact (hbinds key value).symm

theorem Holds.keyLen {m : Option SlipMap} {binds : Bytes → Option Bytes} (h : Holds m binds) {p : Bytes × Bytes}
    (hp : p ∈ visited m) : KeyLen p.1 ∧ p.2.length ≤ 0xffff := by
  cases m with
  | none => exact absurd hp List.not_mem_nil
  | some slip =>
    obtain ⟨ts, htiled, _⟩ := h
    rw [visited_tiled htiled] at hp
    obtain ⟨t, ht, htp⟩ := List.mem_filterMap.1 hp
    have hfits := fits_of_mem (by rw [← htiled.map]; exact htiled.max) ht
    have hlen := t.length_bytes
    unfold Tile.Fits at hfits
    split at htp
    · cases htp
    · rename_i hkey
      have hpos := List.length_pos_of_ne_nil hkey
      obtain rfl := Option.some.inj htp
      exact ⟨⟨hpos, by simp only; omega⟩, by simp only; omega⟩

/-- The bindings are those of the pairs visited. -/
theorem Holds.eq_assign {m : Option SlipMap} {binds : Bytes → Option Bytes} (h : Holds m binds) :
    binds = assign unbound (visited m) :=
  funext (fun _ => Option.ext (fun _ => by rw [← h.mem_visited, Lib.assign_eq_some h.nodup]))

/-! ## One update -/

/-- The map an update goes to: the one there is, or a new one. -/
def mapOrNew : Option SlipMap → Option SlipMap
  | none => (newSlipMap PROPERTIES_DEFAULT_SLIP_MAP_BUFFER_SIZE).join
  | some slip => some slip

/-- **The replacement succeeds**: `replace_entry_in_slip_map` returns 0. -/
def Stored (m : Option SlipMap) (key value : Bytes) : Prop :=
  ((mapOrNew m).bind (replaceEntryInSlipMap · key value)).any (fun r => r.2 = 0) = true

instance (m : Option SlipMap) (key value : Bytes) : Decidable (Stored m key value) := inferInstanceAs (Decidable (_ = _))

theorem Holds.mapOrNew {m : Option SlipMap} {binds : Bytes → Option Bytes} (h : Holds m binds) :
    ∃ slip, mapOrNew m = some slip ∧ Holds (some slip) binds := by
  cases m with
  | some slip => exact ⟨slip, rfl, h⟩
  | none =>
    obtain ⟨slip, hnew⟩ : ∃ slip, newSlipMap 32 = some (some slip) := ⟨_, rfl⟩
    obtain rfl : binds = unbound := h
    exact ⟨slip, by rw [Pincaster.mapOrNew, PROPERTIES_DEFAULT_SLIP_MAP_BUFFER_SIZE, hnew, Option.join_some],
      newSlipMap_spec hnew⟩

theorem Stored.keyLen {m : Option SlipMap} {key value : Bytes} (h : Stored m key value) :
    KeyLen key ∧ value.length ≤ 0xffff := by
  obtain ⟨r, hr, _⟩ := (Option.any_eq_true _ _).1 h
  obtain ⟨slip, _, hr⟩ := Option.bind_eq_some_iff.1 hr
  unfold replaceEntryInSlipMap at hr
  split at hr
  · rename_i hlen
    exact ⟨⟨hlen.1, hlen.2.1⟩, hlen.2.2⟩
  · cases hr

/-- **A successful replacement binds the key.** -/
theorem Holds.stored {m : Option SlipMap} {binds : Bytes → Option Bytes} (h : Holds m binds) {key value : Bytes}
    (hs : Stored m key value) : ∃ slip slip', Pincaster.mapOrNew m = some slip ∧
      replaceEntryInSlipMap slip key value = some (slip', 0) ∧
      Holds (some slip') (Function.update binds key (some value)) := by
  obtain ⟨slip, hslip, ts, href⟩ := h.mapOrNew
  obtain ⟨slip', ret, hrep, _, ts', href'⟩ := href.replace hs.keyLen.1 hs.keyLen.2
  obtain rfl : ret = 0 := by simpa [Stored, hslip, hrep] using hs
  refine ⟨slip, slip', hslip, hrep, ts', ?_⟩
  rwa [show (Function.update binds key (some value)) = fun k => if k = key then some value else binds k from
    funext (fun k => by rw [Function.update_apply])]

theorem putProperty_eq (m : Option SlipMap) (key value : Bytes) : putProperty m key value =
    (mapOrNew m).bind (fun slip => (replaceEntryInSlipMap slip key value).map (fun r => some r.1)) := by
  cases m with
  | some slip => rfl
  | none => rfl

theorem putProperty_stored {m : Option SlipMap} {binds : Bytes → Option Bytes} (h : Holds m binds) {key value : Bytes}
    (hs : Stored m key value) : ∃ slip, putProperty m key value = some (some slip) ∧
      Holds (some slip) (Function.update binds key (some value)) := by
  obtain ⟨slip, slip', hslip, hrep, hholds⟩ := h.stored hs
  refine ⟨slip', ?_, hholds⟩
  rw [putProperty_eq, hslip, Option.bind_some, hrep]
  rfl

theorem Holds.put {m : Option SlipMap} {binds : Bytes → Option Bytes} (h : Holds m binds) {key value : Bytes}
    (hs : Stored m key value) : Holds (putProperty m key value).join (Function.update binds key (some value)) := by
  obtain ⟨slip, hput, hholds⟩ := putProperty_stored h hs
  rw [hput, Option.join_some]
  exact hholds

/-- **A PUT on a layer that is there**: the node it leaves. -/
theorem handleOpRecordsPut_eq [Dimension D] (qbounds : Rectangle2D D) {putOp : RecordsPutOp D} {layers : Layers D}
    {keyNodes : KeyNodes D} {properties : Option SlipMap} (hlayer : layers putOp.layerName = some keyNodes)
    (hput : putProperties ((keyNodes putOp.key).getD newKeyNode).properties putOp = some properties) :
    handleOpRecordsPut qbounds putOp layers = some (0, Function.update layers putOp.layerName
      (some (Function.update keyNodes putOp.key (some
        ⟨putSlot qbounds ((keyNodes putOp.key).getD newKeyNode).slot putOp, properties, putExpirable putOp⟩)))) := by
  rw [handleOpRecordsPut, hlayer]
  simp only [putKeyNode, hput, Option.map_some, Option.bind_eq_bind, Option.bind_some]

end Pincaster
