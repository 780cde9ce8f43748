import Mathlib.Data.List.DropRight
import Pincaster.DomainSearch
import Pincaster.QueryCodec
import Pincaster.SearchClusters
/-!
# CornerOrder — rectangle searches with their corners in another order

`untangle_rect` exchanges the longitudes and not the latitudes, and a rectangle whose latitudes are the wrong way around
holds no position.  So the order of the longitudes does not matter, and that of the latitudes does as soon as the
rectangle has a record (`corner_order_iff`).
-/
namespace Pincaster

open Lib (Bytes bytes cstr strchr)

variable {D κ σ τ ρ : Type}

/-! ## What the callbacks of a search keep -/

theorem proceed_inv {r : Option Int × τ} {step : τ → Option Int × τ} (Inv : τ → Prop) (hr : Inv r.2)
    (hstep : ∀ c, Inv c → Inv (step c).2) : Inv (proceed r step).2 := by
  unfold proceed
  split
  · exact hstep _ hr
  · exact hr

theorem runSlots_inv {cb : Slot D κ → σ → Option Int × σ} (Inv : σ → Prop)
    (hcb : ∀ slot c, Inv c → Inv (cb slot c).2) :
    ∀ (slots : List (Slot D κ)) (c : σ), Inv c → Inv (runSlots cb slots c).2
  | [], _, h => h
  | slot :: slots, c, h => proceed_inv Inv (hcb slot c h) (runSlots_inv Inv hcb slots)

theorem runTrace_inv (cb : Slot D κ → σ → Option Int × σ) (Inv : σ → Prop)
    (hcb : ∀ slot c, Inv c → Inv (cb slot c).2) (trace : Trace D κ) (c : σ) (h : Inv c) : Inv (runTrace cb trace c).2 :=
  proceed_inv Inv (runSlots_inv Inv hcb trace.slots c h) fun _ hc => hc

theorem walkPushed_inv {walk : Nat → Fin 4 → σ → Option Int × σ} (Inv : σ → Prop)
    (hwalk : ∀ height t c, Inv c → Inv (walk height t c).2) (height : Nat) :
    ∀ (ts : List (Fin 4)) (c : σ), Inv c → Inv (walkPushed walk height ts c).2
  | [], _, h => h
  | t :: ts, c, h => proceed_inv Inv (hwalk _ t c h) (walkPushed_inv Inv hwalk height ts)

section
variable [LinearOrder D] {visitor : ZoneVisitor D κ σ ρ} (Inv : σ → Prop)
  (hslot : ∀ slot c, Inv c → Inv (visitor.slot slot c).2)
  (hcluster : ∀ q rect c, Inv c → Inv (visitor.cluster q rect c).2) (env : PanDbEnv D κ) (db : PanDB D κ)
  (zone : Rectangle2D D)
include hslot hcluster

theorem visitChild_inv (child : Nat) (qrect : Rectangle2D D) (c : σ) (h : Inv c) :
    Inv (visitChild visitor env db zone child qrect c).2 := by
  unfold visitChild
  split
  · exact h
  · split
    · exact h
    · rw [foreachInBucket_eq]
      exact runSlots_inv Inv hslot _ c h
    · exact hcluster _ _ _ h

theorem walkChildren_inv (entered : ρ) (q : QuadNode) (qrects : Fin 4 → Rectangle2D D) :
    ∀ (ts : List (Fin 4)) (height : Nat) (c : σ), Inv c →
      Inv (walkChildren visitor env db zone entered q qrects height ts c).2
  | [], _, _, h => h
  | t :: ts, height, c, h => by
    rw [walkChildren]
    split
    · split
      · exact walkChildren_inv entered q qrects ts (height + 1) c h
      · exact h
    · exact proceed_inv Inv (visitChild_inv Inv hslot hcluster env db zone _ _ c h)
        (walkChildren_inv entered q qrects ts height)

/-- **What the callbacks keep** holds of the context after a walk. -/
theorem walkNode_inv : ∀ (fuel height node : Nat) (rect : Rectangle2D D) (c : σ), Inv c →
    Inv (walkNode visitor env db zone fuel height node rect c).2
  | 0, _, _, _, _, h => h
  | fuel + 1, height, node, rect, c, h => by
    rw [walkNode]
    split
    · exact h
    · exact proceed_inv Inv (walkChildren_inv Inv hslot hcluster env db zone _ _ _ _ _ c h)
        (walkPushed_inv Inv (fun height t => walkNode_inv fuel height _ _) height _)

end

/-! ## Queries -/

/-- What `strtod` does with the spaces before a number: it skips them, and reads nothing where nothing follows. -/
class SkipsSpaces (D : Type) [Dimension D] : Prop where
  strtod_skipSpaces (s : Bytes) : Dimension.strtod (D := D) (skipSpaces s) = Dimension.strtod s
  strtod_nil : Dimension.strtod (D := D) [] = none

instance : SkipsSpaces ℚ where
  strtod_skipSpaces s := by
    have hskip : (skipSpaces s).dropWhile Lib.isspace = skipSpaces s := List.dropWhile_idempotent _ _
    show Lib.strtodDecimal _ = Lib.strtodDecimal s
    unfold Lib.strtodDecimal
    rw [hskip]
    rfl
  strtod_nil := rfl

/-- The text of a coordinate, which `strtod` reads as a number. -/
def ReadsAs [Dimension D] (text : Bytes) (d : D) : Prop :=
  (44 : UInt8) ∉ text ∧ (0 : UInt8) ∉ text ∧ ∃ rest, Dimension.strtod text = some (d, rest)

/-- The query of two corners. -/
def cornerQuery (latitude0 longitude0 latitude1 longitude1 : Bytes) : Bytes :=
  latitude0 ++ 44 :: (longitude0 ++ 44 :: (latitude1 ++ 44 :: longitude1))

/-- Leading spaces do not matter, and there is something else. -/
theorem ReadsAs.skipSpaces [Dimension D] [SkipsSpaces D] {text : Bytes} {d : D} (h : ReadsAs text d) :
    ReadsAs (Pincaster.skipSpaces text) d ∧ Pincaster.skipSpaces text ≠ [] := by
  obtain ⟨hcomma, hnul, rest, h⟩ := h
  rw [← SkipsSpaces.strtod_skipSpaces] at h
  refine ⟨⟨fun hm => hcomma (List.dropWhile_sublist _ |>.mem hm), fun hm => hnul (List.dropWhile_sublist _ |>.mem hm),
    rest, h⟩, fun hnil => ?_⟩
  rw [hnil, SkipsSpaces.strtod_nil] at h
  cases h

theorem skipSpaces_append {text : Bytes} (h : skipSpaces text ≠ []) (rest : Bytes) :
    skipSpaces (text ++ rest) = skipSpaces text ++ rest := by
  induction text with
  | nil => exact absurd rfl h
  | cons c text ih =>
    unfold skipSpaces at h ih ⊢
    rw [List.cons_append, List.dropWhile_cons, List.dropWhile_cons]
    rw [List.dropWhile_cons] at h
    split
    · rename_i hc
      rw [if_pos hc] at h
      exact ih h
    · rfl

/-- One coordinate and its comma are read. -/
theorem queryCoordinate_text [Dimension D] {text query : Bytes} {d : D} (h : ReadsAs text d) (hnul : (0 : UInt8) ∉ query)
    (hquery : skipSpaces query ≠ []) : queryCoordinate (text ++ 44 :: query) = some (d, skipSpaces query) := by
  obtain ⟨hcomma, hnul', rest, hread⟩ := h
  have hcstr : cstr (text ++ 44 :: query) = text ++ 44 :: query := Lib.cstr_of_not_mem (by
    simp [hnul, hnul'])
  have hsplit := takeWhile_append_cons (p := fun c => decide (c ≠ 44)) (s := text) (t := query) (c := 44)
    (fun c hc => decide_eq_true fun he => hcomma (he ▸ hc)) (by decide)
  have hchr : strchr (text ++ 44 :: query) 44 = some (text, query) := by
    rw [strchr, hcstr, if_pos (by simp), hsplit.1, hsplit.2, List.tail_cons]
  unfold queryCoordinate
  rw [if_neg (by simp), hchr]
  simp only [Option.bind_eq_bind, Option.bind_some, if_neg hquery, hread, Option.map_some]

theorem inRectQuery_corners [Dimension D] [SkipsSpaces D] {t T u U : Bytes} {l0 L0 l1 L1 : D}
    (ht : ReadsAs t l0) (hT : ReadsAs T L0)
    (hu : ReadsAs u l1) (hU : ReadsAs U L1) :
    inRectQuery (cornerQuery t T u U) = some ⟨⟨l0, L0⟩, ⟨l1, L1⟩⟩ := by
  have hnul : ∀ {s s' : Bytes}, (0 : UInt8) ∉ s → (0 : UInt8) ∉ s' → (0 : UInt8) ∉ s ++ 44 :: s' := by simp_all
  have hskip : ∀ {s : Bytes} {d : D}, ReadsAs s d → ∀ s', skipSpaces (s ++ 44 :: s') = skipSpaces s ++ 44 :: s' :=
    fun h s' => skipSpaces_append h.skipSpaces.2 _
  have hne : ∀ s s' : Bytes, s ++ 44 :: s' ≠ [] := by simp
  obtain ⟨-, -, rest, hread⟩ := hU.skipSpaces.1
  unfold inRectQuery cornerQuery
  rw [queryCoordinate_text ht (hnul hT.2.1 (hnul hu.2.1 hU.2.1)) (by rw [hskip hT]; exact hne _ _), Option.bind_eq_bind,
    Option.bind_some, hskip hT]
  simp only
  rw [queryCoordinate_text hT.skipSpaces.1 (hnul hu.2.1 hU.2.1) (by rw [hskip hu]; exact hne _ _), Option.bind_some,
    hskip hu]
  simp only
  rw [queryCoordinate_text hu.skipSpaces.1 hU.2.1 hU.skipSpaces.2, Option.bind_some]
  simp only [hread, Option.bind_some]

/-! ## With clusters and without -/

section
variable [Add D] [Sub D] [Neg D] [Mul D] [Div D] [Zero D] [NatCast D] [LinearOrder D] {env : SearchEnv D κ} {db : PanDB D κ}
  {zone : Rectangle2D D} {limit : Nat} {epsilon : D}

/-- The visitor of a search that notes the keys and no clusters. -/
abbrev logVisitor (env : SearchEnv D κ) (zone : Rectangle2D D) (epsilon : D) :
    ZoneVisitor D κ (SearchContext (List κ)) Nat :=
  inRectVisitor env logCb (fun log _ _ _ => (some 0, log)) zone epsilon

/-- No quad node below another one that meets the zone is small and has more slots than a quarter of the limit. -/
def Unclustered (env : SearchEnv D κ) (db : PanDB D κ) (zone : Rectangle2D D) (limit : Nat) (epsilon : D) : Prop :=
  epsilon ≤ 0 ∨ ∀ a q rect t child, db.quadNode a = some q → CellOf env.toPanDbEnv db a rect →
    db.quadNode (q.nodes t) = some child → rectangle2dIntersect (getQrectsFromQbounds env.midpoint rect t) zone →
    SmallCell epsilon (getQrectsFromQbounds env.midpoint rect t) → child.subSlots ≤ limit / 4

/-- A search that has not reported a key. -/
def Untold (c : SearchContext (List κ)) : Prop := c.contextCb = []

/-- Two walks side by side: they are the same and nothing has happened to the context, or both have reported a key. -/
def Together (context : SearchContext (List κ)) (r r' : Option Int × SearchContext (List κ)) : Prop :=
  (r = r' ∧ r.2 = context) ∨ (¬ Untold r.2 ∧ ¬ Untold r'.2)

theorem Together.proceed {context : SearchContext (List κ)} {r r' : Option Int × SearchContext (List κ)}
    {step step' : SearchContext (List κ) → Option Int × SearchContext (List κ)} (h : Together context r r')
    (hsame : Together context (step context) (step' context)) (hstep : ∀ c, ¬ Untold c → ¬ Untold (step c).2)
    (hstep' : ∀ c, ¬ Untold c → ¬ Untold (step' c).2) :
    Together context (Pincaster.proceed r step) (Pincaster.proceed r' step') := by
  rcases h with ⟨rfl, hcontext⟩ | ⟨htold, htold'⟩
  · unfold Pincaster.proceed
    rw [hcontext]
    split
    · exact hsame
    · exact .inl ⟨rfl, hcontext⟩
  · exact .inr ⟨proceed_inv (fun c => ¬ Untold c) htold hstep, proceed_inv (fun c => ¬ Untold c) htold' hstep'⟩

/-- A slot is passed over, or its key is reported. -/
theorem logVisitor_slot (env : SearchEnv D κ) (zone : Rectangle2D D) (epsilon : D) (slot : Slot D κ)
    (c : SearchContext (List κ)) :
    ((logVisitor env zone epsilon).slot slot c).2 = c ∨ ¬ Untold ((logVisitor env zone epsilon).slot slot c).2 := by
  show (findInRectContextCb env logCb zone slot c).2 = c ∨ ¬ Untold (findInRectContextCb env logCb zone slot c).2
  unfold findInRectContextCb Untold
  split
  · exact .inl rfl
  · cases hkey : slot.keyNode with
    | none => exact .inl rfl
    | some k =>
      simp only [Option.isSome_some, if_true]
      split
      · exact .inl rfl
      · exact .inr (by simp [logCb, hkey])

/-- A key that has been reported stays so. -/
theorem logVisitor_slot_told (slot : Slot D κ) (c : SearchContext (List κ)) (h : ¬ Untold c) :
    ¬ Untold ((logVisitor env zone epsilon).slot slot c).2 := by
  rcases logVisitor_slot env zone epsilon slot c with heq | htold
  · rwa [heq]
  · exact htold

/-- A cluster changes no key. -/
theorem logVisitor_cluster (q : QuadNode) (rect : Rectangle2D D) (c : SearchContext (List κ)) :
    ((logVisitor env zone epsilon).cluster q rect c).2.contextCb = c.contextCb := by
  show (findInRectClusterContextCb env (fun log _ _ _ => (some 0, log)) q rect c).2.contextCb = c.contextCb
  simp only [findInRectClusterContextCb, ne_eq, not_true_eq_false, if_false]
  split <;> rfl

theorem logVisitor_cluster_told (q : QuadNode) (rect : Rectangle2D D) (c : SearchContext (List κ)) (h : ¬ Untold c) :
    ¬ Untold ((logVisitor env zone epsilon).cluster q rect c).2 := by
  unfold Untold
  rw [logVisitor_cluster]
  exact h

/-- A child of a node that is not shown as a cluster. -/
theorem isPushed_unclustered (hno : Unclustered env db zone limit epsilon) {a : Nat} {q : QuadNode}
    {rect : Rectangle2D D} (hq : db.quadNode a = some q) (hcell : CellOf env.toPanDbEnv db a rect) (t : Fin 4) :
    isPushed (logVisitor env zone epsilon) db zone ((logVisitor env zone epsilon).enter ⟨limit, []⟩) (q.nodes t)
      (getQrectsFromQbounds env.midpoint rect t) =
    isPushed (logVisitor env zone 0) db zone ((logVisitor env zone 0).enter ⟨limit, []⟩) (q.nodes t)
      (getQrectsFromQbounds env.midpoint rect t) := by
  unfold isPushed
  by_cases hmeet : rectangle2dIntersect (getQrectsFromQbounds env.midpoint rect t) zone
  · congr 1
    split
    · rename_i child hchild
      congr 1
      simp only [inRectVisitor, gt_iff_lt, lt_irrefl, false_and, decide_false, decide_eq_false_iff_not]
      rintro ⟨hpos, hmore, hsmall⟩
      rw [if_pos hpos] at hmore
      rcases hno with hle | hno
      · exact absurd hpos (not_lt.2 hle)
      · exact absurd hmore (not_lt.2 (hno a q rect t child hq hcell (quadNode_eq_some.2 hchild) hmeet hsmall))
    · rfl
  · rw [decide_eq_false hmeet, Bool.false_and, Bool.false_and]

/-- Without clusters no child is one. -/
theorem logVisitor_no_clusters (entered : Nat) (q : QuadNode) (qrect : Rectangle2D D) :
    (logVisitor env zone 0).clusters entered q qrect = false :=
  decide_eq_false fun h => absurd h.1 (lt_irrefl 0)

/-- The children of a node, when the same ones are pushed. -/
theorem walkChildren_unclustered {entered entered' : Nat} {q : QuadNode} {qrects : Fin 4 → Rectangle2D D}
    (hsame : ∀ t, isPushed (logVisitor env zone epsilon) db zone entered (q.nodes t) (qrects t) =
      isPushed (logVisitor env zone 0) db zone entered' (q.nodes t) (qrects t)) :
    ∀ (ts : List (Fin 4)) (height : Nat) (c : SearchContext (List κ)),
      walkChildren (logVisitor env zone epsilon) env.toPanDbEnv db zone entered q qrects height ts c =
        walkChildren (logVisitor env zone 0) env.toPanDbEnv db zone entered' q qrects height ts c
  | [], _, _ => rfl
  | t :: ts, height, c => by
    rw [walkChildren, walkChildren, hsame t]
    by_cases hpush : isPushed (logVisitor env zone 0) db zone entered' (q.nodes t) (qrects t) = true
    · rw [if_pos hpush, if_pos hpush, walkChildren_unclustered hsame ts]
    · rw [if_neg hpush, if_neg hpush, funext (walkChildren_unclustered hsame ts height)]
      rw [isPushed_eq logVisitor_no_clusters] at hpush
      rw [visitChild_eq hpush, visitChild_eq hpush]
      rfl

/-- **With clusters and without** a walk that shows none goes together, by induction on the addresses from the node on. -/
theorem walkNode_together {pos : κ → Option (Position2D D)} {cell : Nat → Rectangle2D D}
    (h : Stable env.toPanDbEnv db pos cell) (hno : Unclustered env db zone limit epsilon) :
    ∀ (fuel height a : Nat), Together ⟨limit, []⟩
      (walkNode (logVisitor env zone epsilon) env.toPanDbEnv db zone fuel height a (cell a) ⟨limit, []⟩)
      (walkNode (logVisitor env zone 0) env.toPanDbEnv db zone fuel height a (cell a) ⟨limit, []⟩)
  | 0, _, _ => .inl ⟨rfl, rfl⟩
  | fuel + 1, height, a => by
    rw [walkNode, walkNode]
    cases hq : db.quadNode a with
    | none => exact .inl ⟨rfl, rfl⟩
    | some q =>
      simp only
      have hsame := isPushed_unclustered hno hq (cellOf_of_stable h _ _ (quadNode_eq_some.1 hq))
      have htold : ∀ (epsilon : D) height node rect (c : SearchContext (List κ)), ¬ Untold c →
          ¬ Untold (walkNode (logVisitor env zone epsilon) env.toPanDbEnv db zone fuel height node rect c).2 :=
        fun epsilon => walkNode_inv (fun c => ¬ Untold c) logVisitor_slot_told logVisitor_cluster_told _ _ _ fuel
      have hpushed : ∀ ts : List (Fin 4), Together ⟨limit, []⟩
          (walkPushed (fun height t => walkNode (logVisitor env zone epsilon) env.toPanDbEnv db zone fuel height
            (q.nodes t) (getQrectsFromQbounds env.midpoint (cell a) t)) height ts ⟨limit, []⟩)
          (walkPushed (fun height t => walkNode (logVisitor env zone 0) env.toPanDbEnv db zone fuel height
            (q.nodes t) (getQrectsFromQbounds env.midpoint (cell a) t)) height ts ⟨limit, []⟩) := by
        intro ts
        induction ts with
        | nil => exact .inl ⟨rfl, rfl⟩
        | cons t ts ih =>
          refine Together.proceed ?_ ih (walkPushed_inv (fun c => ¬ Untold c) (fun _ _ => htold epsilon _ _ _) height ts)
            (walkPushed_inv (fun c => ¬ Untold c) (fun _ _ => htold 0 _ _ _) height ts)
          obtain ⟨-, -, hrect, -⟩ := h.shape.child a _ _ (shape_of_cells (quadNode_eq_some.1 hq)) t
          simp only [← hrect]
          exact walkNode_together h hno fuel _ _
      refine Together.proceed ?_ ?_ (walkPushed_inv (fun c => ¬ Untold c) (fun _ _ => htold epsilon _ _ _) height _)
        (walkPushed_inv (fun c => ¬ Untold c) (fun _ _ => htold 0 _ _ _) height _)
      · -- the children that are looked at: both walks do the same with them
        rw [walkChildren_unclustered hsame, walkChildren_eq logVisitor_no_clusters]
        have hkeep := runTrace_inv (logVisitor env zone 0).slot (fun c => c = ⟨limit, []⟩ ∨ ¬ Untold c)
          (fun slot c hc => hc.elim (fun heq => heq ▸ logVisitor_slot env zone 0 slot _)
            (fun htold => .inr (logVisitor_slot_told slot c htold)))
          (childrenTrace env.toPanDbEnv db zone q (getQrectsFromQbounds env.midpoint (cell a)) height [0, 1, 2, 3])
          ⟨limit, []⟩ (.inl rfl)
        rcases hkeep with heq | hkeep
        · exact .inl ⟨rfl, heq⟩
        · exact .inr ⟨hkeep, hkeep⟩
      · -- and the same ones are pushed
        rw [List.filter_congr (fun t _ => hsame t)]
        exact hpushed _

end

/-! ## Searches -/

section
variable [LinearOrder D]

/-- The rectangle that is searched: the longitudes are in order. -/
def searchedRect (l0 L0 l1 L1 : D) : Rectangle2D D := ⟨⟨l0, min L0 L1⟩, ⟨l1, max L0 L1⟩⟩

/-- The rectangle that the corners span. -/
def spannedRect (l0 L0 l1 L1 : D) : Rectangle2D D := searchedRect (min l0 l1) L0 (max l0 l1) L1

/-- The same with the latitudes the wrong way around. -/
def reversedRect (l0 L0 l1 L1 : D) : Rectangle2D D := searchedRect (max l0 l1) L0 (min l0 l1) L1

theorem searchedRect_comm (l0 L0 l1 L1 : D) : searchedRect l0 L1 l1 L0 = searchedRect l0 L0 l1 L1 := by
  rw [searchedRect, searchedRect, min_comm, max_comm]

theorem untangleRect_eq [Dimension D] [ExactDimension D] (l0 L0 l1 L1 : D) :
    untangleRect ⟨⟨l0, L0⟩, ⟨l1, L1⟩⟩ = searchedRect l0 L0 l1 L1 := by
  unfold untangleRect searchedRect
  simp only [ExactDimension.lt_eq, decide_eq_true_eq]
  rcases lt_or_ge L1 L0 with hL | hL
  · split <;> simp [hL.le]
  · split <;> simp [hL, not_lt.2 hL]

end

section
variable [Add D] [Sub D] [Neg D] [Mul D] [Div D] [Zero D] [NatCast D] [LinearOrder D] {env : SearchEnv D κ} {db : PanDB D κ}
  {limit : Nat} {epsilon : D}

/-- What `find_in_rect` returns and the key nodes it reports. -/
def found (env : SearchEnv D κ) (db : PanDB D κ) (limit : Nat) (epsilon : D) (rect : Rectangle2D D) :
    Option Int × List κ := findInRect env db logCb (fun log _ _ _ => (some 0, log)) [] rect limit epsilon

omit [Add D] [Mul D] [Div D] [NatCast D] in
/-- A quad node that meets the rectangle with its latitudes the wrong way around meets the one that the corners span. -/
theorem Unclustered.reversed {l0 L0 l1 L1 : D} (h : Unclustered env db (spannedRect l0 L0 l1 L1) limit epsilon) :
    Unclustered env db (reversedRect l0 L0 l1 L1) limit epsilon := by
  refine h.imp_right fun h a q rect t child hq hcell hchild hmeet hsmall => h a q rect t child hq hcell hchild ?_ hsmall
  simp only [rectangle2dIntersect, reversedRect, spannedRect, searchedRect, not_or, gt_iff_lt, not_lt] at hmeet ⊢
  exact ⟨hmeet.1, hmeet.2.1, hmeet.2.2.1.trans min_le_max, min_le_max.trans hmeet.2.2.2⟩

/-- **Latitudes the wrong way around** find nothing. -/
theorem found_reversed {pos : κ → Option (Position2D D)} {cell : Nat → Rectangle2D D}
    (h : Stable env.toPanDbEnv db pos cell) (hflat : env.layerType = .flat) {rect : Rectangle2D D}
    (hrect : rect.edge1.latitude ≤ rect.edge0.latitude) : (found env db limit epsilon rect).2 = [] := by
  rcases Nat.eq_zero_or_pos limit with rfl | hlimit
  · rfl
  · rw [found, findInRect_flat (ascending_of_stable h) hflat _ _ _ _ hlimit]
    refine walkNode_inv Untold (fun slot c hc => ?_) (fun q qrect c hc => (logVisitor_cluster q qrect c).trans hc) _ db _ _
      _ _ _ _ (rfl : Untold (⟨limit, []⟩ : SearchContext (List κ)))
    show Untold (findInRectContextCb env logCb rect slot c).2
    rw [findInRectContextCb, if_pos fun hin => absurd (hin.1.trans_lt hin.2.2.1) (not_lt.2 hrect)]
    exact hc

/-- A search of a flat layer without clusters. -/
theorem found_flat {pos : κ → Option (Position2D D)} {cell : Nat → Rectangle2D D}
    (h : Stable env.toPanDbEnv db pos cell) (hflat : env.layerType = .flat) (hlimit : 0 < limit)
    (rect : Rectangle2D D) :
    found env db limit 0 rect =
      if limit < (rectKeys env db rect).length then (some 1, (rectKeys env db rect).take limit)
      else (if zoneFits env db rect then some 0 else none, rectKeys env db rect) := by
  rw [found, findInRect_eq (ascending_of_stable h) _ _ hlimit le_rfl, inRectZones, if_pos hflat, zonesResult,
    zoneStep]
  simp only [decide_eq_true_eq, List.nil_append]
  exact proceed_pure _

/-- A search that shows no cluster finds what one without clusters finds, or both find something. -/
theorem found_together {pos : κ → Option (Position2D D)} {cell : Nat → Rectangle2D D}
    (h : Stable env.toPanDbEnv db pos cell) (hflat : env.layerType = .flat) {rect : Rectangle2D D}
    (hno : Unclustered env db rect limit epsilon) :
    (found env db limit epsilon rect = found env db limit 0 rect ∧ (found env db limit 0 rect).2 = []) ∨
      ((found env db limit epsilon rect).2 ≠ [] ∧ (found env db limit 0 rect).2 ≠ []) := by
  rcases Nat.eq_zero_or_pos limit with rfl | hlimit
  · exact .inl ⟨rfl, rfl⟩
  · rw [found, found, findInRect_flat (ascending_of_stable h) hflat _ _ _ _ hlimit,
      findInRect_flat (ascending_of_stable h) hflat _ _ _ _ hlimit, ← h.shape.rootCell]
    rcases walkNode_together h hno (db.nodes.brk + 1) 0 db.root with ⟨heq, hcontext⟩ | htold
    · rw [← heq, hcontext]
      exact .inl ⟨rfl, rfl⟩
    · exact .inr htold

/-- The same status and the same key nodes. -/
def SameAnswer (r r' : Option Int × List κ) : Prop := r.1 = r'.1 ∧ ∀ k, k ∈ r.2 ↔ k ∈ r'.2

theorem sameAnswer_comm {r r' : Option Int × List κ} : SameAnswer r r' ↔ SameAnswer r' r :=
  ⟨fun h => ⟨h.1.symm, fun k => (h.2 k).symm⟩, fun h => ⟨h.1.symm, fun k => (h.2 k).symm⟩⟩

theorem sameAnswer_nil {r r' : Option Int × List κ} (h : r'.2 = []) : SameAnswer r r' ↔ r.2 = [] ∧ r.1 = r'.1 := by
  rw [SameAnswer, h, and_comm]
  simp [List.eq_nil_iff_forall_not_mem]

/-- **Clusters do not matter** to both orders of the latitudes when none is shown. -/
theorem sameAnswer_unclustered {pos : κ → Option (Position2D D)} {cell : Nat → Rectangle2D D}
    (h : Stable env.toPanDbEnv db pos cell) (hflat : env.layerType = .flat) {l0 L0 l1 L1 : D}
    (hno : Unclustered env db (spannedRect l0 L0 l1 L1) limit epsilon) :
    SameAnswer (found env db limit epsilon (spannedRect l0 L0 l1 L1))
        (found env db limit epsilon (reversedRect l0 L0 l1 L1)) ↔
      SameAnswer (found env db limit 0 (spannedRect l0 L0 l1 L1)) (found env db limit 0 (reversedRect l0 L0 l1 L1)) := by
  have hreversed : ∀ epsilon : D, (found env db limit epsilon (reversedRect l0 L0 l1 L1)).2 = [] :=
    fun _ => found_reversed h hflat min_le_max
  obtain ⟨heq', -⟩ := (found_together h hflat hno.reversed).resolve_right fun hboth => hboth.1 (hreversed epsilon)
  rw [sameAnswer_nil (hreversed _), sameAnswer_nil (hreversed _), heq']
  rcases found_together h hflat hno with ⟨heq, -⟩ | ⟨hsome, hsome'⟩
  · rw [heq]
  · exact iff_of_false (fun hk => hsome hk.1) (fun hk => hsome' hk.1)

/-- Without clusters, both orders of the latitudes. -/
theorem sameAnswer_iff {pos : κ → Option (Position2D D)} {cell : Nat → Rectangle2D D}
    (h : Stable env.toPanDbEnv db pos cell) (hflat : env.layerType = .flat) (hlimit : 0 < limit) (l0 L0 l1 L1 : D) :
    SameAnswer (found env db limit 0 (spannedRect l0 L0 l1 L1)) (found env db limit 0 (reversedRect l0 L0 l1 L1)) ↔
      rectKeys env db (spannedRect l0 L0 l1 L1) = [] ∧
        zoneFits env db (spannedRect l0 L0 l1 L1) = zoneFits env db (reversedRect l0 L0 l1 L1) := by
  have hnone : rectKeys env db (reversedRect l0 L0 l1 L1) = [] := by
    refine List.eq_nil_iff_forall_not_mem.2 fun k hk => ?_
    obtain ⟨p, -, hin⟩ := (rectKeys_spec h _).sound k hk
    exact absurd (hin.1.trans_lt hin.2.2.1) (not_lt.2 min_le_max)
  rw [sameAnswer_nil (found_reversed h hflat min_le_max), found_flat h hflat hlimit, found_flat h hflat hlimit, hnone,
    List.length_nil, if_neg (Nat.not_lt_zero limit)]
  generalize rectKeys env db (spannedRect l0 L0 l1 L1) = keys
  by_cases hover : limit < keys.length
  · rw [if_pos hover]
    have hne : keys ≠ [] := List.ne_nil_of_length_pos (by omega)
    refine iff_of_false (fun hk => ?_) (fun hk => hne hk.1)
    rcases List.take_eq_nil_iff.1 hk.1 with hz | hnil
    · omega
    · exact hne hnil
  · rw [if_neg hover]
    refine and_congr_right fun _ => ?_
    cases zoneFits env db (spannedRect l0 L0 l1 L1) <;> cases zoneFits env db (reversedRect l0 L0 l1 L1) <;> simp

section
variable [Dimension D] [ExactDimension D] [SkipsSpaces D]

/-- The search for a query as `handle_domain_search` reads it. -/
def inRectSearch (env : SearchEnv D κ) (db : PanDB D κ) (limit : Nat) (epsilon : D) (query : Bytes) :
    Option (Option Int × List κ) := (inRectQuery query).map (fun rect => found env db limit epsilon (untangleRect rect))

/-- **The four orders of the corners** have the same answer. -/
def CornersAgree (env : SearchEnv D κ) (db : PanDB D κ) (limit : Nat) (epsilon : D) (t T u U : Bytes) : Prop :=
  ∃ r, inRectSearch env db limit epsilon (cornerQuery t T u U) = some r ∧
    ∀ query ∈ [cornerQuery u T t U, cornerQuery t U u T, cornerQuery u U t T],
      ∃ r', inRectSearch env db limit epsilon query = some r' ∧ SameAnswer r r'

/-- **The order of the longitudes does not matter**: the answers agree as soon as both orders of the latitudes do. -/
theorem cornersAgree_iff {t T u U : Bytes} {l0 L0 l1 L1 : D} (ht : ReadsAs t l0) (hT : ReadsAs T L0) (hu : ReadsAs u l1)
    (hU : ReadsAs U L1) : CornersAgree env db limit epsilon t T u U ↔ l0 = l1 ∨
      SameAnswer (found env db limit epsilon (spannedRect l0 L0 l1 L1))
        (found env db limit epsilon (reversedRect l0 L0 l1 L1)) := by
  have hsearch : ∀ {t T u U : Bytes} {l0 L0 l1 L1 : D}, ReadsAs t l0 → ReadsAs T L0 → ReadsAs u l1 → ReadsAs U L1 →
      inRectSearch env db limit epsilon (cornerQuery t T u U) =
        some (found env db limit epsilon (searchedRect l0 L0 l1 L1)) := by
    intro t T u U l0 L0 l1 L1 ht hT hu hU
    rw [inRectSearch, inRectQuery_corners ht hT hu hU, Option.map_some, untangleRect_eq]
  have hsame : ∀ r : Option Int × List κ, SameAnswer r r := fun r => ⟨rfl, fun k => Iff.rfl⟩
  have horders : CornersAgree env db limit epsilon t T u U ↔
      SameAnswer (found env db limit epsilon (searchedRect l0 L0 l1 L1))
        (found env db limit epsilon (searchedRect l1 L0 l0 L1)) := by
    unfold CornersAgree
    simp only [List.forall_mem_cons, hsearch ht hT hu hU, hsearch hu hT ht hU, hsearch ht hU hu hT, hsearch hu hU ht hT,
      searchedRect_comm l0 L0 l1 L1, searchedRect_comm l1 L0 l0 L1, Option.some.injEq, exists_eq_left']
    exact ⟨fun h => h.1, fun h => ⟨h, hsame _, h, fun _ hq => absurd hq List.not_mem_nil⟩⟩
  rw [horders, spannedRect, reversedRect]
  rcases lt_trichotomy l0 l1 with hl | hl | hl
  · rw [min_eq_left hl.le, max_eq_right hl.le, or_iff_right hl.ne]
  · rw [hl]
    exact iff_of_true (hsame _) (.inl rfl)
  · rw [min_eq_right hl.le, max_eq_left hl.le, or_iff_right hl.ne', sameAnswer_comm]

/-- **The four orders of the corners agree** when the latitudes are equal or the limit is 0.  Where the searches show no
cluster they agree otherwise exactly when the walk through the rectangle that the corners span comes to no record in it,
and this walk and the one with the latitudes the wrong way around have both room on their stacks or have both none; with
room, when there is no record in the rectangle. -/
theorem corner_order_iff [DecidableEq κ] (hr : (panDbSystem env.toPanDbEnv).Reachable db)
    (hflat : env.layerType = .flat) {t T u U : Bytes} {l0 L0 l1 L1 : D} (ht : ReadsAs t l0) (hT : ReadsAs T L0)
    (hu : ReadsAs u l1) (hU : ReadsAs U L1) (limit : Nat) (epsilon : D) :
    (l0 = l1 ∨ limit = 0 → CornersAgree env db limit epsilon t T u U) ∧
    (Unclustered env db (spannedRect l0 L0 l1 L1) limit epsilon →
      (CornersAgree env db limit epsilon t T u U ↔ l0 = l1 ∨ limit = 0 ∨
        rectKeys env db (spannedRect l0 L0 l1 L1) = [] ∧
        zoneFits env db (spannedRect l0 L0 l1 L1) = zoneFits env db (reversedRect l0 L0 l1 L1))) ∧
    ∀ zone, zoneFits env db zone = true → (rectKeys env db zone = [] ↔ inRectSlots db zone = ∅) := by
  obtain ⟨pos, cell, h⟩ := panDb_reachable_stable hr
  rw [cornersAgree_iff ht hT hu hU]
  refine ⟨?_, fun hno => or_congr_right ?_, fun zone hfits => ?_⟩
  · rintro (hl | rfl)
    · exact .inl hl
    · exact .inr ⟨rfl, fun _ => Iff.rfl⟩
  · rcases Nat.eq_zero_or_pos limit with rfl | hlimit
    · exact iff_of_true ⟨rfl, fun _ => Iff.rfl⟩ (.inl rfl)
    · rw [or_iff_right (by omega), sameAnswer_unclustered h hflat hno, sameAnswer_iff h hflat hlimit]
  · rw [List.eq_nil_iff_forall_not_mem, Set.eq_empty_iff_forall_notMem]
    exact forall_congr' fun k => not_congr ((rectKeys_spec h zone).mem_iff hfits)

end

end

theorem readsAs_of_strtod {text : Bytes} {d : ℚ} (hclean : (44 : UInt8) ∉ text ∧ (0 : UInt8) ∉ text)
    (h : (Dimension.strtod text).map Prod.fst = some d) : ReadsAs text d := by
  obtain ⟨⟨d', rest⟩, hread, rfl⟩ := Option.map_eq_some_iff.1 h
  exact ⟨hclean.1, hclean.2, rest, hread⟩

/-- A rectangle without a record, its latitudes the wrong way around, with records on its edges. -/
theorem corner_order_empty : ∃ db, (panDbSystem (worldEnv .flat).toPanDbEnv).Reachable db ∧
    CornersAgree (worldEnv .flat) db 250 (-1) (bytes " 20") (bytes "0") (bytes "10.0") (bytes "10") := by
  obtain ⟨db, hr, hp⟩ := reached_of_exec .flat
    [.addSlot 0 ⟨5, 5⟩, .addSlot 1 ⟨20, 5⟩, .addSlot 2 ⟨15, 10⟩, .addSlot 3 ⟨-3, 2⟩, .addSlot 4 ⟨9, 9⟩] (fun db =>
      rectKeys (worldEnv .flat) db (spannedRect 20 0 10 10) = [] &&
        zoneFits (worldEnv .flat) db (spannedRect 20 0 10 10) = zoneFits (worldEnv .flat) db (reversedRect 20 0 10 10))
    (by decide +kernel)
  simp only [Bool.and_eq_true, decide_eq_true_eq] at hp
  have htwenty : ReadsAs (bytes " 20") (20 : ℚ) := readsAs_of_strtod (by decide) (by decide +kernel)
  have hzero : ReadsAs (bytes "0") (0 : ℚ) := readsAs_of_strtod (by decide) (by decide +kernel)
  have hten : ReadsAs (bytes "10.0") (10 : ℚ) := readsAs_of_strtod (by decide) (by decide +kernel)
  have hten' : ReadsAs (bytes "10") (10 : ℚ) := readsAs_of_strtod (by decide) (by decide +kernel)
  exact ⟨db, hr, ((corner_order_iff hr rfl htwenty hzero hten hten' 250 (-1)).2.1 (.inl (by norm_num))).2 (.inr (.inr hp))⟩

/-- **A record that is found with its corners in one order only**: it is at (5, 5). -/
theorem corner_order_matters : ∃ db, (panDbSystem (worldEnv .flat).toPanDbEnv).Reachable db ∧
    inRectSearch (worldEnv .flat) db 250 (-1) (bytes "0,0,10,10") = some (some 0, [0]) ∧
    inRectSearch (worldEnv .flat) db 250 (-1) (bytes "10,0,0,10") = some (some 0, []) ∧
    ¬ CornersAgree (worldEnv .flat) db 250 (-1) (bytes "0") (bytes "0") (bytes "10") (bytes "10") := by
  obtain ⟨db, hr, hp⟩ := reached_of_exec .flat [.addSlot 0 ⟨5, 5⟩] (fun db =>
    inRectSearch (worldEnv .flat) db 250 (-1) (bytes "0,0,10,10") = some (some 0, [0]) &&
      inRectSearch (worldEnv .flat) db 250 (-1) (bytes "10,0,0,10") = some (some 0, [])) (by decide +kernel)
  simp only [Bool.and_eq_true, decide_eq_true_eq] at hp
  have hqueries : cornerQuery (bytes "0") (bytes "0") (bytes "10") (bytes "10") = bytes "0,0,10,10" ∧
      cornerQuery (bytes "10") (bytes "0") (bytes "0") (bytes "10") = bytes "10,0,0,10" := by decide
  refine ⟨db, hr, hp.1, hp.2, fun ⟨r, hr, hagree⟩ => ?_⟩
  obtain ⟨r', hr', hsame⟩ := hagree _ List.mem_cons_self
  rw [hqueries.1, hp.1, Option.some.injEq] at hr
  rw [hqueries.2, hp.2, Option.some.injEq] at hr'
  subst hr hr'
  exact absurd ((hsame.2 0).1 List.mem_cons_self) List.not_mem_nil

end Pincaster
