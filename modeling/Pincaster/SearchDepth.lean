import Pincaster.Lib.LevelStack
import Pincaster.BucketCapacity
import Pincaster.SearchWrap
/-!
# SearchDepth — how deep the tree is, and how many quad nodes wait

A bucket is split only where its cell is as high and as wide as the accuracies, and a cell is half as high and half as
wide as the one above it.  On the stack of a walk, at most three quad nodes of each level wait while one of them is
visited.
-/
namespace Pincaster

open Lib (Leveled)

variable {D κ σ τ ρ : Type} [LinearOrder D]

/-- **A node some levels below the root**, with its cell. -/
inductive NodeAt (env : PanDbEnv D κ) (db : PanDB D κ) : Nat → Nat → Rectangle2D D → Prop
  | root : NodeAt env db 0 db.root env.qbounds
  | child {depth x : Nat} {rect : Rectangle2D D} {q : QuadNode} (t : Fin 4) : NodeAt env db depth x rect →
      db.quadNode x = some q → NodeAt env db (depth + 1) (q.nodes t) (getQrectsFromQbounds env.midpoint rect t)

theorem NodeAt.cellOf {env : PanDbEnv D κ} {db : PanDB D κ} {depth x : Nat} {rect : Rectangle2D D}
    (h : NodeAt env db depth x rect) : CellOf env db x rect := by
  induction h with
  | root => exact .refl _ _
  | child t _ hq ih => exact ih.snoc hq t

/-- Every node below one that has a level has one. -/
theorem CellBelow.exists_nodeAt {env : PanDbEnv D κ} {db : PanDB D κ} {a x : Nat} {rect rect' : Rectangle2D D}
    (h : CellBelow env db a rect x rect') : ∀ {depth : Nat}, NodeAt env db depth a rect →
    ∃ depth', NodeAt env db depth' x rect' := by
  induction h with
  | refl a rect => exact fun {depth} ha => ⟨depth, ha⟩
  | child t hq _ ih => exact fun ha => ih (ha.child t hq)

/-! ## The cells of the quad nodes -/

section
variable {env : PanDbEnv D κ} {db db' : PanDB D κ} {pos : κ → Option (Position2D D)} {cell cell' : Nat → Rectangle2D D}

/-- Every quad node below the root is as high and as wide as the accuracies. -/
def BigQuads [Sub D] (env : PanDbEnv D κ) (db : PanDB D κ) (cell : Nat → Rectangle2D D) : Prop :=
  ∀ x p nodes, db.shape x = some ⟨p, some nodes⟩ → x ≠ db.root → AtLeastAccuracy env (cell x)

theorem QuadsKept.bigQuads [Sub D] {new : Rectangle2D D → Prop} (h : QuadsKept db db' cell cell' new)
    (hbig : BigQuads env db cell) (hnew : ∀ rect, new rect → AtLeastAccuracy env rect) : BigQuads env db' cell' := by
  intro x p nodes hx hroot
  rcases h.quad x p nodes hx with ⟨hcell, p', nodes', hold⟩ | hnew'
  · rw [hcell]
    exact hbig x p' nodes' hold (h.root ▸ hroot)
  · exact hnew _ hnew'

variable [Sub D] [DecidableEq κ]

/-- **An operation splits no small cell.** -/
theorem panDbSystem_bigQuads (h : Stable env db pos cell) (hbig : BigQuads env db cell) : ∀ op,
    (panDbSystem env).legal db op → (panDbSystem env).step db op = some db' →
    ∃ pos' cell', Stable env db' pos' cell' ∧ BigQuads env db' cell'
  | .addSlot k position, hlegal, hstep => by
    have hk := (h.located.slots_eq_none (fun hf => hf)).1 hlegal.1
    obtain ⟨db₁, cell', hadd, h', child, b, -, -, -, hquads⟩ := addSlot_spec h
      (show (⟨position, some k, none⟩ : Slot D κ).keyNode = some k from rfl) hk hlegal.2
    obtain rfl : db₁ = db' := Option.some.inj (hadd.symm.trans hstep)
    refine ⟨_, cell', h', hquads.bigQuads hbig ?_⟩
    rintro rect ⟨-, hsplit⟩
    exact (bucketTakes_eq_false.1 hsplit).2
  | .removeEntry k, hlegal, hstep => by
    obtain ⟨db₁, cell', hrem, h', -, hquads⟩ := removeEntryFromKeyNode_spec h hlegal
    have hdb : db₁.clearSlot k = db' := by
      refine Option.some.inj (Eq.trans ?_ hstep)
      change _ = (removeEntryFromKeyNode env db k).map _
      rw [hrem]
      rfl
    subst hdb
    have hcleared : QuadsKept db (db₁.clearSlot k) cell cell' (fun _ => False) := hquads.congr rfl rfl rfl rfl
    exact ⟨_, cell', h', hcleared.bigQuads hbig (fun _ hf => hf.elim)⟩

/-- **Every quad node below the root is as high and as wide as the accuracies**, along every run. -/
theorem reachable_bigQuads (hr : (panDbSystem env).Reachable db) :
    ∃ pos cell, Stable env db pos cell ∧ BigQuads env db cell := by
  refine hr.inv (fun db => ∃ pos cell, Stable env db pos cell ∧ BigQuads env db cell)
    ⟨_, _, initPanDb_stable env, fun x p nodes hx hroot => ?_⟩ ?_
  · rcases shape_initPanDb hx with ⟨rfl, -⟩ | ⟨t, -, hbucket⟩
    · exact absurd rfl hroot
    · cases hbucket
  · rintro s op s' ⟨pos, cell, hs, hbig⟩ hlegal hstep
    exact panDbSystem_bigQuads hs hbig op hlegal hstep

/-- **Every node has a level and a cell.** -/
theorem exists_nodeAt (hr : (panDbSystem env).Reachable db) {x : Nat} {q : QuadNode} (hq : db.quadNode x = some q) :
    ∃ depth rect, NodeAt env db depth x rect := by
  obtain ⟨pos, cell, h, -⟩ := reachable_bigQuads hr
  obtain ⟨depth, hnode⟩ := (cellOf_of_stable h x _ (quadNode_eq_some.1 hq)).exists_nodeAt .root
  exact ⟨depth, cell x, hnode⟩

theorem NodeAt.atLeastAccuracy (hr : (panDbSystem env).Reachable db) {depth x : Nat} {rect : Rectangle2D D}
    {q : QuadNode} (hnode : NodeAt env db depth x rect) (hq : db.quadNode x = some q) (hroot : x ≠ db.root) :
    AtLeastAccuracy env rect := by
  obtain ⟨pos, cell, h, hbig⟩ := reachable_bigQuads hr
  obtain rfl := cell_of_cellBelow h hnode.cellOf h.shape.rootCell.symm
  exact hbig x _ _ (shape_of_cells (quadNode_eq_some.1 hq)) hroot

end

/-! ## The extent of a cell -/

section
variable [Field D] [IsStrictOrderedRing D] {env : PanDbEnv D κ} {db : PanDB D κ}

/-- The midpoints are exact. -/
def ExactMidpoint (m : Midpoint D) : Prop := ∀ lo hi, m.mid lo hi = (lo + hi) / 2

theorem extent_mid {m : Midpoint D} (hm : ExactMidpoint m) (lo hi : D) :
    2 * (m.mid lo hi - lo) = hi - lo ∧ 2 * (hi - m.mid lo hi) = hi - lo := by
  rw [hm]
  constructor <;> linarith

/-- A quarter is half as high and half as wide. -/
theorem extent_getQrects {m : Midpoint D} (hm : ExactMidpoint m) (rect : Rectangle2D D) (t : Fin 4) :
    2 * ((getQrectsFromQbounds m rect t).edge1.latitude - (getQrectsFromQbounds m rect t).edge0.latitude) =
        rect.edge1.latitude - rect.edge0.latitude ∧
      2 * ((getQrectsFromQbounds m rect t).edge1.longitude - (getQrectsFromQbounds m rect t).edge0.longitude) =
        rect.edge1.longitude - rect.edge0.longitude := by
  obtain ⟨hlow, hhigh⟩ := extent_mid hm rect.edge0.latitude rect.edge1.latitude
  obtain ⟨hleft, hright⟩ := extent_mid hm rect.edge0.longitude rect.edge1.longitude
  match t with
  | 0 => exact ⟨hlow, hright⟩
  | 1 => exact ⟨hhigh, hright⟩
  | 2 => exact ⟨hlow, hleft⟩
  | 3 => exact ⟨hhigh, hleft⟩

/-- **The cells of a level** are the bounds, halved once for each level above it. -/
theorem NodeAt.extent (hm : ExactMidpoint env.midpoint) {depth x : Nat} {rect : Rectangle2D D}
    (h : NodeAt env db depth x rect) :
    2 ^ depth * (rect.edge1.latitude - rect.edge0.latitude) =
        env.qbounds.edge1.latitude - env.qbounds.edge0.latitude ∧
      2 ^ depth * (rect.edge1.longitude - rect.edge0.longitude) =
        env.qbounds.edge1.longitude - env.qbounds.edge0.longitude := by
  induction h with
  | root => simp
  | @child depth x rect q t _ _ ih =>
    obtain ⟨hlat, hlon⟩ := extent_getQrects hm rect t
    rw [pow_succ, mul_assoc, mul_assoc, hlat, hlon]
    exact ih

/-- **The depth of a quad node is bounded** by how often the bounds can be halved. -/
theorem NodeAt.depth_le [DecidableEq κ] (hm : ExactMidpoint env.midpoint) (hworld : env.qbounds = worldBounds)
    (hr : (panDbSystem env).Reachable db) {depth x : Nat} {rect : Rectangle2D D} {q : QuadNode}
    (hnode : NodeAt env db depth x rect) (hq : db.quadNode x = some q) (hroot : x ≠ db.root) :
    2 ^ depth * env.latitudeAccuracy ≤ 180 ∧ 2 ^ depth * env.longitudeAccuracy ≤ 360 := by
  obtain ⟨hlat, hlon⟩ := hnode.atLeastAccuracy hr hq hroot
  obtain ⟨hheight, hwidth⟩ := hnode.extent hm
  have hpow : (0 : D) ≤ 2 ^ depth := by positivity
  rw [hworld] at hheight hwidth
  constructor
  · calc 2 ^ depth * env.latitudeAccuracy ≤ 2 ^ depth * (rect.edge1.latitude - rect.edge0.latitude) :=
          mul_le_mul_of_nonneg_left hlat hpow
      _ = 180 := by rw [hheight]; norm_num [worldBounds]
  · calc 2 ^ depth * env.longitudeAccuracy ≤ 2 ^ depth * (rect.edge1.longitude - rect.edge0.longitude) :=
          mul_le_mul_of_nonneg_left hlon hpow
      _ = 360 := by rw [hwidth]; norm_num [worldBounds]

end

section
variable {env : PanDbEnv D κ} {db : PanDB D κ} [DecidableEq κ]

theorem NodeAt.depth_root [Sub D] (hr : (panDbSystem env).Reachable db) {depth x : Nat} {rect : Rectangle2D D}
    (hnode : NodeAt env db depth x rect) (hroot : x = db.root) : depth = 0 := by
  obtain ⟨pos, cell, h, -⟩ := reachable_bigQuads hr
  cases hnode with
  | root => rfl
  | child t _ hq =>
    obtain ⟨nodes, hnone⟩ := h.shape.rootNode
    obtain ⟨-, -, -, s, hs, hparent⟩ := h.shape.child _ _ _ (shape_of_cells (quadNode_eq_some.1 hq)) t
    rw [hroot, hnone] at hs
    cases hs
    cases hparent

/-- No quad node is deeper. -/
def QuadsWithin (env : PanDbEnv D κ) (db : PanDB D κ) (maxDepth : Nat) : Prop :=
  ∀ depth x rect q, NodeAt env db depth x rect → db.quadNode x = some q → depth ≤ maxDepth

/-- How deep the tree gets, by how often the height of the bounds can be halved. -/
theorem quadsWithin_of_accuracy [Field D] [IsStrictOrderedRing D] (hm : ExactMidpoint env.midpoint)
    (hworld : env.qbounds = worldBounds) (hr : (panDbSystem env).Reachable db) {maxDepth : Nat}
    (haccuracy : 180 < 2 ^ (maxDepth + 1) * env.latitudeAccuracy) : QuadsWithin env db maxDepth := by
  intro depth x rect q hnode hq
  by_cases hroot : x = db.root
  · rw [hnode.depth_root hr hroot]
    exact Nat.zero_le _
  · by_contra hdeep
    have hle := (hnode.depth_le hm hworld hr hq hroot).1
    have hpow : (2 : D) ^ (maxDepth + 1) ≤ 2 ^ depth := pow_le_pow_right₀ one_le_two (by omega)
    have hpos : 0 < env.latitudeAccuracy :=
      pos_of_mul_pos_right (lt_trans (by norm_num) haccuracy) (by positivity)
    exact absurd (haccuracy.trans_le ((mul_le_mul_of_nonneg_right hpow hpos.le).trans hle)) (lt_irrefl _)

end

/-! ## The stacks of a walk -/

/-- **The stacks that a walk has**: when it enters a quad node, after each of the children, and below the nodes that it
takes off the stack. -/
inductive WalkStack (visitor : ZoneVisitor D κ σ ρ) (env : PanDbEnv D κ) (db : PanDB D κ) (zone : Rectangle2D D) :
    Nat → Rectangle2D D → PntStack (QuadNodeWithBounds D) × σ → PntStack (QuadNodeWithBounds D) → Prop
  | entered (node : Nat) (rect : Rectangle2D D) (s : PntStack (QuadNodeWithBounds D) × σ) :
    WalkStack visitor env db zone node rect s s.1
  | scanned {node : Nat} {rect : Rectangle2D D} {s : PntStack (QuadNodeWithBounds D) × σ} {q : QuadNode}
      {ts ts' : List (Fin 4)} : db.quadNode node = some q → ts ++ ts' = [0, 1, 2, 3] →
    WalkStack visitor env db zone node rect s (scanChildren visitor env db zone (visitor.enter s.2) q
      (getQrectsFromQbounds env.midpoint rect) ts s).2.1
  | resumed {node : Nat} {rect : Rectangle2D D} {s s' : PntStack (QuadNodeWithBounds D) × σ} {q : QuadNode}
      {stack st : PntStack (QuadNodeWithBounds D)} {sqnb : QuadNodeWithBounds D} : db.quadNode node = some q →
    scanChildren visitor env db zone (visitor.enter s.2) q (getQrectsFromQbounds env.midpoint rect) [0, 1, 2, 3] s =
      (some 0, s') →
    popPntStack s'.1 = (stack, some sqnb) →
    WalkStack visitor env db zone sqnb.quadNode sqnb.qrect (stack, s'.2) st →
    WalkStack visitor env db zone node rect s st

/-- The stacks of a search: those of the walk for its first zone, and of the others once that has come to its end. -/
inductive ZonesStack (inZone : Rectangle2D D → PntStack (QuadNodeWithBounds D) × τ →
      Option Int × PntStack (QuadNodeWithBounds D) × τ)
    (walk : Rectangle2D D → PntStack (QuadNodeWithBounds D) × τ → PntStack (QuadNodeWithBounds D) → Prop) :
    List (Rectangle2D D) → PntStack (QuadNodeWithBounds D) × τ → PntStack (QuadNodeWithBounds D) → Prop
  | here {zone : Rectangle2D D} {zones : List (Rectangle2D D)} {s : PntStack (QuadNodeWithBounds D) × τ}
      {st : PntStack (QuadNodeWithBounds D)} : walk zone s st → ZonesStack inZone walk (zone :: zones) s st
  | next {zone : Rectangle2D D} {zones : List (Rectangle2D D)} {s s' : PntStack (QuadNodeWithBounds D) × τ}
      {st : PntStack (QuadNodeWithBounds D)} : inZone zone s = (some 0, s') → ZonesStack inZone walk zones s' st →
    ZonesStack inZone walk (zone :: zones) s st

/-! ## What waits on a stack -/

/-- A quad node that waits on a stack, with its level. -/
def PendingAt (env : PanDbEnv D κ) (db : PanDB D κ) (sqnb : QuadNodeWithBounds D) (depth : Nat) : Prop :=
  NodeAt env db depth sqnb.quadNode sqnb.qrect ∧ (db.quadNode sqnb.quadNode).isSome = true

omit [LinearOrder D] in
theorem pushPntStack_elements {s s' : PntStack (QuadNodeWithBounds D)} {x : QuadNodeWithBounds D} {ret : Int}
    (h : pushPntStack s x = some (s', ret)) : s'.elements = s.elements ++ [x] := by
  unfold pushPntStack at h
  split at h
  · simp only at h
    split at h
    · cases h
      unfold shrinkPntStack
      split
      · rfl
      · split
        · rfl
        · split <;> rfl
    · cases h
  · cases h
    rfl

section
variable {visitor : ZoneVisitor D κ σ ρ} {env : PanDbEnv D κ} {db : PanDB D κ} {zone : Rectangle2D D}

variable (visitor env db zone) in
/-- A child is put on the stack, or nothing is. -/
theorem scanChild_elements (entered : ρ) (child : Nat) (qrect : Rectangle2D D)
    (s : PntStack (QuadNodeWithBounds D) × σ) :
    (scanChild visitor env db zone entered child qrect s).2.1.elements = s.1.elements ∨
      (db.quadNode child).isSome = true ∧
        (scanChild visitor env db zone entered child qrect s).2.1.elements = s.1.elements ++ [⟨child, qrect⟩] := by
  unfold scanChild
  split
  · exact .inl rfl
  · split
    · exact .inl rfl
    · exact .inl rfl
    · rename_i q hcell
      split
      · exact .inl rfl
      · split
        · exact .inl rfl
        · rename_i stack ret hpush
          exact .inr ⟨by rw [quadNode_eq_some.2 hcell]; rfl, pushPntStack_elements hpush⟩

variable (visitor zone) in
/-- **The children of a node** are one level below it. -/
theorem scanChildren_leveled (entered : ρ) {q : QuadNode} {node depth : Nat} {rect : Rectangle2D D}
    (hnode : NodeAt env db depth node rect) (hq : db.quadNode node = some q) : ∀ (ts : List (Fin 4))
    (s : PntStack (QuadNodeWithBounds D) × σ), Leveled (PendingAt env db) 3 s.1.elements →
    s.1.elements.length + ts.length ≤ 3 * (depth + 1) + 1 →
    Leveled (PendingAt env db) 3 (scanChildren visitor env db zone entered q
      (getQrectsFromQbounds env.midpoint rect) ts s).2.1.elements
  | [], s, hs, _ => hs
  | t :: ts, s, hs, hlen => by
    rw [List.length_cons] at hlen
    have hchild : Leveled (PendingAt env db) 3 (scanChild visitor env db zone entered (q.nodes t)
        (getQrectsFromQbounds env.midpoint rect t) s).2.1.elements ∧
        (scanChild visitor env db zone entered (q.nodes t) (getQrectsFromQbounds env.midpoint rect t)
          s).2.1.elements.length ≤ s.1.elements.length + 1 := by
      have hpending : (db.quadNode (q.nodes t)).isSome = true →
          PendingAt env db ⟨q.nodes t, getQrectsFromQbounds env.midpoint rect t⟩ (depth + 1) :=
        fun hquad => ⟨hnode.child t hq, hquad⟩
      rcases scanChild_elements visitor env db zone entered (q.nodes t)
        (getQrectsFromQbounds env.midpoint rect t) s with hsame | ⟨hquad, hpush⟩
      · rw [hsame]
        exact ⟨hs, Nat.le_succ _⟩
      · rw [hpush, List.length_append, List.length_singleton]
        exact ⟨hs.push (hpending hquad) (by omega), Nat.le_refl _⟩
    rw [scanChildren]
    unfold proceed
    split
    · exact scanChildren_leveled entered hnode hq ts _ hchild.1 (by omega)
    · exact hchild.1

/-- **Whatever waits on the stacks of a walk** has the room of its level. -/
theorem WalkStack.leveled {node : Nat} {rect : Rectangle2D D} {s : PntStack (QuadNodeWithBounds D) × σ}
    {st : PntStack (QuadNodeWithBounds D)} (h : WalkStack visitor env db zone node rect s st) : ∀ {depth : Nat},
    NodeAt env db depth node rect → s.1.elements.length ≤ 3 * depth → Leveled (PendingAt env db) 3 s.1.elements →
    Leveled (PendingAt env db) 3 st.elements := by
  induction h with
  | entered node rect s => exact fun _ _ hs => hs
  | @scanned node rect s q ts ts' hq hts =>
    intro depth hnode hlen hs
    have hfour := congrArg List.length hts
    rw [List.length_append] at hfour
    simp only [List.length_cons, List.length_nil] at hfour
    exact scanChildren_leveled visitor zone (visitor.enter s.2) hnode hq ts s hs (by omega)
  | @resumed node rect s s' q stack st sqnb hq hscan hpop _ ih =>
    intro depth hnode hlen hs
    have hall := scanChildren_leveled visitor zone (visitor.enter s.2) hnode hq [0, 1, 2, 3] s hs
      (by simp only [List.length_cons, List.length_nil]; omega)
    rw [hscan] at hall
    simp only [popPntStack, Prod.mk.injEq] at hpop
    obtain ⟨rfl, hlast⟩ := hpop
    obtain ⟨d, hd, hbelow⟩ := hall.top hlast
    exact ih hd.1 hbelow hall.pop

/-- A walk that has come to its end leaves nothing on the stack. -/
theorem scanZone_empty : ∀ (fuel node : Nat) (rect : Rectangle2D D) (s s' : PntStack (QuadNodeWithBounds D) × σ),
    scanZone visitor env db zone fuel node rect s = (some 0, s') → s'.1.elements = []
  | 0, _, _, _, _, h => by cases h
  | fuel + 1, node, rect, s, s', h => by
    rw [scanZone] at h
    split at h
    · cases h
    · rename_i q hq
      unfold proceed at h
      split at h
      · simp only [popPntStack] at h
        split at h
        · rename_i hpop
          cases h
          simp only [Prod.mk.injEq] at hpop
          rw [← hpop.1, List.getLast?_eq_none_iff.1 hpop.2]
          rfl
        · exact scanZone_empty fuel _ _ _ _ h
      · rename_i hne
        rw [h] at hne
        exact absurd rfl hne

/-- **Whatever waits on the stacks of a search** has the room of its level. -/
theorem ZonesStack.leveled {inZone : Rectangle2D D → PntStack (QuadNodeWithBounds D) × τ →
      Option Int × PntStack (QuadNodeWithBounds D) × τ}
    {walk : Rectangle2D D → PntStack (QuadNodeWithBounds D) × τ → PntStack (QuadNodeWithBounds D) → Prop}
    (hempty : ∀ zone s s', inZone zone s = (some 0, s') → s'.1.elements = [])
    (hwalk : ∀ zone s st, walk zone s st → s.1.elements = [] → Leveled (PendingAt env db) 3 st.elements)
    {zones : List (Rectangle2D D)} {s : PntStack (QuadNodeWithBounds D) × τ} {st : PntStack (QuadNodeWithBounds D)}
    (h : ZonesStack inZone walk zones s st) : s.1.elements = [] → Leveled (PendingAt env db) 3 st.elements := by
  induction h with
  | here h => exact hwalk _ _ _ h
  | next h _ ih => exact fun _ => ih (hempty _ _ _ h)

end

/-! ## The searches -/

section
variable [Field D] [IsStrictOrderedRing D] {env : SearchEnv D κ} {db : PanDB D κ}

omit [IsStrictOrderedRing D] in
/-- The stacks of `find_near`. -/
def NearStack (env : SearchEnv D κ) (db : PanDB D κ) (cb : σ → Slot D κ → Meters D → Option Int × σ) (contextCb : σ)
    (position : Position2D D) (distance : D) (limit : Nat) (st : PntStack (QuadNodeWithBounds D)) : Prop :=
  0 < limit ∧ ∃ stack, newSearchStack = some stack ∧
    ZonesStack (findNearInZone env db cb position distance limit)
      (fun zone s st => WalkStack (nearVisitor env cb position distance) env.toPanDbEnv db zone db.root env.qbounds
        (s.1, ⟨limit, s.2⟩) st) (nearZones env position distance) (stack, contextCb) st

omit [IsStrictOrderedRing D] in
/-- The stacks of `find_in_rect`. -/
def InRectStack (env : SearchEnv D κ) (db : PanDB D κ) (cb : σ → Slot D κ → Meters D → Option Int × σ)
    (clusterCb : σ → Position2D D → Meters D → Nat → Option Int × σ) (contextCb : σ) (rect : Rectangle2D D)
    (limit : Nat) (epsilon : D) (st : PntStack (QuadNodeWithBounds D)) : Prop :=
  0 < limit ∧ ∃ stack, newSearchStack = some stack ∧
    ZonesStack (findInRectInZone env db cb clusterCb limit epsilon)
      (fun zone s st => WalkStack (inRectVisitor env cb clusterCb zone epsilon) env.toPanDbEnv db zone db.root
        env.qbounds (s.1, ⟨limit, s.2⟩) st) (inRectZones env rect) (stack, contextCb) st

omit [Field D] [IsStrictOrderedRing D] in
theorem pending_length_le {env : PanDbEnv D κ} {maxDepth : Nat} (hmax : QuadsWithin env db maxDepth)
    {stack : List (QuadNodeWithBounds D)} (h : Leveled (PendingAt env db) 3 stack) : stack.length ≤ 3 * maxDepth + 1 :=
  h.length_le (fun x d ⟨hnode, hquad⟩ => by
    obtain ⟨q, hq⟩ := Option.isSome_iff_exists.1 hquad
    exact hmax d _ _ q hnode hq)

omit [Field D] [IsStrictOrderedRing D] in
/-- **The walk of one zone**, from the root and an empty stack. -/
theorem WalkStack.leveled_of_root {visitor : ZoneVisitor D κ (SearchContext σ) ρ} {zone : Rectangle2D D}
    {env : PanDbEnv D κ} {s : PntStack (QuadNodeWithBounds D) × SearchContext σ} {st : PntStack (QuadNodeWithBounds D)}
    (h : WalkStack visitor env db zone db.root env.qbounds s st) (hempty : s.1.elements = []) :
    Leveled (PendingAt env db) 3 st.elements := by
  refine h.leveled .root ?_ ?_
  · rw [hempty]
    exact Nat.zero_le _
  · rw [hempty]
    exact Lib.leveled_nil

omit [Field D] [LinearOrder D] [IsStrictOrderedRing D] in
theorem newSearchStack_elements {stack : PntStack (QuadNodeWithBounds D)} (h : newSearchStack = some stack) :
    stack.elements = [] := by
  obtain ⟨s, hnew, -, hnil⟩ := newSearchStack_spec (D := D)
  rw [h, Option.some.injEq] at hnew
  rw [hnew, hnil]

omit [IsStrictOrderedRing D] in
theorem findNearInZone_empty {cb : σ → Slot D κ → Meters D → Option Int × σ} {position : Position2D D} {distance : D}
    {limit : Nat} {zone : Rectangle2D D} {s s' : PntStack (QuadNodeWithBounds D) × σ}
    (h : findNearInZone env db cb position distance limit zone s = (some 0, s')) : s'.1.elements = [] := by
  cases hscan : searchInZone (nearVisitor env cb position distance) env.toPanDbEnv db zone (s.1, ⟨limit, s.2⟩) with
  | mk ret s₁ =>
    rw [findNearInZone, hscan, Prod.mk.injEq] at h
    obtain ⟨rfl, rfl⟩ := h
    exact scanZone_empty _ _ _ _ s₁ hscan

omit [IsStrictOrderedRing D] in
theorem findInRectInZone_empty {cb : σ → Slot D κ → Meters D → Option Int × σ}
    {clusterCb : σ → Position2D D → Meters D → Nat → Option Int × σ} {limit : Nat} {epsilon : D} {zone : Rectangle2D D}
    {s s' : PntStack (QuadNodeWithBounds D) × σ}
    (h : findInRectInZone env db cb clusterCb limit epsilon zone s = (some 0, s')) : s'.1.elements = [] := by
  cases hscan : searchInZone (inRectVisitor env cb clusterCb zone epsilon) env.toPanDbEnv db zone
    (s.1, ⟨limit, s.2⟩) with
  | mk ret s₁ =>
    rw [findInRectInZone, hscan, Prod.mk.injEq] at h
    obtain ⟨rfl, rfl⟩ := h
    exact scanZone_empty _ _ _ _ s₁ hscan

omit [IsStrictOrderedRing D] in
/-- **What waits during `find_near`** is bounded by the depth of the tree. -/
theorem NearStack.length_le {maxDepth : Nat} (hmax : QuadsWithin env.toPanDbEnv db maxDepth)
    {cb : σ → Slot D κ → Meters D → Option Int × σ} {contextCb : σ} {position : Position2D D} {distance : D}
    {limit : Nat} {st : PntStack (QuadNodeWithBounds D)}
    (h : NearStack env db cb contextCb position distance limit st) : st.elements.length ≤ 3 * maxDepth + 1 := by
  obtain ⟨-, stack, hnew, hzones⟩ := h
  exact pending_length_le hmax (hzones.leveled (fun zone s s' => findNearInZone_empty)
    (fun zone s st hwalk => hwalk.leveled_of_root) (newSearchStack_elements hnew))

omit [IsStrictOrderedRing D] in
/-- **What waits during `find_in_rect`** is bounded by the depth of the tree. -/
theorem InRectStack.length_le {maxDepth : Nat} (hmax : QuadsWithin env.toPanDbEnv db maxDepth)
    {cb : σ → Slot D κ → Meters D → Option Int × σ} {clusterCb : σ → Position2D D → Meters D → Nat → Option Int × σ}
    {contextCb : σ} {rect : Rectangle2D D} {limit : Nat} {epsilon : D} {st : PntStack (QuadNodeWithBounds D)}
    (h : InRectStack env db cb clusterCb contextCb rect limit epsilon st) : st.elements.length ≤ 3 * maxDepth + 1 := by
  obtain ⟨-, stack, hnew, hzones⟩ := h
  exact pending_length_le hmax (hzones.leveled (fun zone s s' => findInRectInZone_empty)
    (fun zone s st hwalk => hwalk.leveled_of_root) (newSearchStack_elements hnew))

/-- **The depth of the tree and the stacks of its searches are bounded.**  In every tree that a run builds, a quad node
below the root has a cell as high and as wide as the accuracies, and is at most as many levels down as the bounds can be
halved; no more than three quad nodes of each level, and one, wait in a search. -/
theorem search_stacks_bounded [DecidableEq κ] (hm : ExactMidpoint env.midpoint) (hworld : env.qbounds = worldBounds)
    (hr : (panDbSystem env.toPanDbEnv).Reachable db) :
    (∀ x q, db.quadNode x = some q → x ≠ db.root →
      (∃ depth rect, NodeAt env.toPanDbEnv db depth x rect) ∧
      ∀ depth rect, NodeAt env.toPanDbEnv db depth x rect →
        env.latitudeAccuracy ≤ rect.edge1.latitude - rect.edge0.latitude ∧
        env.longitudeAccuracy ≤ rect.edge1.longitude - rect.edge0.longitude ∧
        2 ^ depth * env.latitudeAccuracy ≤ 180 ∧ 2 ^ depth * env.longitudeAccuracy ≤ 360) ∧
    ∀ maxDepth, QuadsWithin env.toPanDbEnv db maxDepth →
      (∀ (σ : Type) (cb : σ → Slot D κ → Meters D → Option Int × σ) (contextCb : σ) (position : Position2D D)
        (distance : D) (limit : Nat) (st : PntStack (QuadNodeWithBounds D)),
        NearStack env db cb contextCb position distance limit st → st.elements.length ≤ 3 * maxDepth + 1) ∧
      ∀ (σ : Type) (cb : σ → Slot D κ → Meters D → Option Int × σ)
        (clusterCb : σ → Position2D D → Meters D → Nat → Option Int × σ) (contextCb : σ) (rect : Rectangle2D D)
        (limit : Nat) (epsilon : D) (st : PntStack (QuadNodeWithBounds D)),
        InRectStack env db cb clusterCb contextCb rect limit epsilon st → st.elements.length ≤ 3 * maxDepth + 1 := by
  constructor
  · intro x q hq hroot
    refine ⟨exists_nodeAt hr hq, fun depth rect hnode => ?_⟩
    obtain ⟨hlat, hlon⟩ := hnode.atLeastAccuracy hr hq hroot
    exact ⟨hlat, hlon, hnode.depth_le hm hworld hr hq hroot⟩
  · intro maxDepth hmax
    constructor
    · intro σ cb contextCb position distance limit st hst
      exact hst.length_le hmax
    · intro σ cb clusterCb contextCb rect limit epsilon st hst
      exact hst.length_le hmax

end

/-- Buckets of one slot, in cells that are not cut below 60 degrees. -/
def coarseEnv : SearchEnv ℚ Nat :=
  { worldEnv .flat with
    bucketSize := 1
    latitudeAccuracy := 60
    longitudeAccuracy := 60
    bucketSize_pos := Nat.one_pos }

/-- The stack of a search at the end of the children of the root. -/
def rootStack (env : SearchEnv ℚ Nat) (db : PanDB ℚ Nat) (position : Position2D ℚ) (distance : ℚ) (limit : Nat)
    (stack : PntStack (QuadNodeWithBounds ℚ)) (q : QuadNode) : PntStack (QuadNodeWithBounds ℚ) :=
  (scanChildren (nearVisitor env logCb position distance) env.toPanDbEnv db (nearRect env position distance) () q
    (getQrectsFromQbounds env.midpoint env.qbounds) [0, 1, 2, 3] (stack, ⟨limit, []⟩)).2.1

/-- A tree with a quad node below the root, which waits in a search. -/
theorem search_stacks_coarse : ∃ db st, (panDbSystem coarseEnv.toPanDbEnv).Reachable db ∧
    NearStack coarseEnv db logCb [] ⟨10, 10⟩ 20 2 st ∧ 0 < st.elements.length ∧ st.elements.length ≤ 3 * 1 + 1 := by
  obtain ⟨db, hdb, hp⟩ := (Option.any_eq_true _ _).1 (show ((panDbSystem coarseEnv.toPanDbEnv).exec
    [.addSlot 0 ⟨10, 10⟩, .addSlot 1 ⟨20, 20⟩] initPanDb).any (fun db => newSearchStack.any (fun stack =>
      (db.quadNode db.root).any (fun q =>
        0 < (rootStack coarseEnv db ⟨10, 10⟩ 20 2 stack q).elements.length))) = true by
    decide +kernel)
  obtain ⟨hist, hrun, -⟩ := Lib.System.Run.of_exec _ Lib.System.Run.init hdb
  have hr : (panDbSystem coarseEnv.toPanDbEnv).Reachable db := ⟨hist, hrun⟩
  obtain ⟨stack, hnew, hp⟩ := (Option.any_eq_true _ _).1 hp
  obtain ⟨q, hq, hp⟩ := (Option.any_eq_true _ _).1 hp
  have hst : NearStack coarseEnv db logCb [] ⟨10, 10⟩ 20 2 (rootStack coarseEnv db ⟨10, 10⟩ 20 2 stack q) := by
    refine ⟨by decide, stack, hnew, ?_⟩
    have hzones : nearZones coarseEnv ⟨10, 10⟩ 20 = [nearRect coarseEnv ⟨10, 10⟩ 20] := by
      rw [nearZones, if_pos (show coarseEnv.layerType = .flat from rfl)]
    rw [hzones]
    exact .here (.scanned hq (List.append_nil _))
  have hmid : ExactMidpoint coarseEnv.midpoint := fun _ _ => rfl
  have hmax : QuadsWithin coarseEnv.toPanDbEnv db 1 := quadsWithin_of_accuracy hmid rfl hr (by decide +kernel)
  exact ⟨db, _, hr, hst, of_decide_eq_true hp,
    ((search_stacks_bounded hmid rfl hr).2 1 hmax).1 _ _ _ _ _ _ _ hst⟩

end Pincaster
