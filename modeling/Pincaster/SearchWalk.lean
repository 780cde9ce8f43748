import Pincaster.PanDbSearch
import Pincaster.PanDbRuns
/-!
# SearchWalk — the walk of a search as a recursion over the tree

The loop with its stack of pending quad nodes visits the tree as a recursion does that goes through the children of a node,
then through those that were pushed, the last one first.  The stack has one chunk, and no room for more than
`SEARCH_STACK_ROOM` elements: one more is an assertion that fails.
-/
namespace Pincaster

variable {D κ σ τ ρ : Type}

/-- The elements that the one chunk of a search stack has room for. -/
def SEARCH_STACK_ROOM : Nat := 170

/-- The stack of a search. -/
structure SearchStack (s : PntStack (QuadNodeWithBounds D)) : Prop where
  stackSize : s.stackSize = STACK_CHUNK_SIZE
  elementSize : s.elementSize = SIZEOF_QUAD_NODE_WITH_BOUNDS
  room : s.elements.length ≤ SEARCH_STACK_ROOM

theorem SearchStack.push {s : PntStack (QuadNodeWithBounds D)} (h : SearchStack s)
    (hlen : s.elements.length < SEARCH_STACK_ROOM) (x : QuadNodeWithBounds D) :
    pushPntStack s x = some ({ s with elements := s.elements ++ [x] }, 0) := by
  rw [SEARCH_STACK_ROOM] at hlen
  have hdepth : s.depth < s.stackSize := by
    rw [PntStack.depth, h.stackSize, h.elementSize, STACK_CHUNK_SIZE, SIZEOF_QUAD_NODE_WITH_BOUNDS]
    omega
  have hdepth' : ({ s with elements := s.elements ++ [x] } : PntStack _).depth ≤ s.stackSize := by
    rw [PntStack.depth, h.stackSize, h.elementSize, List.length_append, List.length_singleton, STACK_CHUNK_SIZE,
      SIZEOF_QUAD_NODE_WITH_BOUNDS]
    omega
  have hshrink : shrinkPntStack { s with elements := s.elements ++ [x] } = { s with elements := s.elements ++ [x] } :=
    if_pos (.inl (le_of_eq h.stackSize))
  rw [pushPntStack, if_pos hdepth]
  exact (if_pos hdepth').trans (by rw [hshrink])

theorem SearchStack.push_full {s : PntStack (QuadNodeWithBounds D)} (h : SearchStack s)
    (hlen : ¬ s.elements.length < SEARCH_STACK_ROOM) (x : QuadNodeWithBounds D) : pushPntStack s x = none := by
  have hroom := h.room
  rw [SEARCH_STACK_ROOM] at hlen hroom
  have hdepth : s.depth < s.stackSize := by
    rw [PntStack.depth, h.stackSize, h.elementSize, STACK_CHUNK_SIZE, SIZEOF_QUAD_NODE_WITH_BOUNDS]
    omega
  have hdepth' : ¬ ({ s with elements := s.elements ++ [x] } : PntStack _).depth ≤ s.stackSize := by
    rw [PntStack.depth, h.stackSize, h.elementSize, List.length_append, List.length_singleton, STACK_CHUNK_SIZE,
      SIZEOF_QUAD_NODE_WITH_BOUNDS]
    omega
  rw [pushPntStack, if_pos hdepth]
  simp only [if_neg hdepth']

theorem SearchStack.withElements {s : PntStack (QuadNodeWithBounds D)} (h : SearchStack s)
    {elements : List (QuadNodeWithBounds D)} (hlen : elements.length ≤ SEARCH_STACK_ROOM) :
    SearchStack { s with elements } := ⟨h.stackSize, h.elementSize, hlen⟩

theorem newSearchStack_spec : ∃ s, (newSearchStack : Option (PntStack (QuadNodeWithBounds D))) =
    some s ∧ SearchStack s ∧ s.elements = [] := ⟨_, rfl, ⟨rfl, rfl, Nat.zero_le _⟩, rfl⟩

/-! ## Steps -/

theorem proceed_zero (c : τ) (step : τ → Option Int × τ) : proceed (some 0, c) step = step c := if_pos rfl

theorem proceed_of_ne {r : Option Int × τ} (h : r.1 ≠ some 0) (step : τ → Option Int × τ) : proceed r step = r := if_neg h

theorem proceed_assoc (r : Option Int × τ) (f g : τ → Option Int × τ) :
    proceed (proceed r f) g = proceed r (fun c => proceed (f c) g) := by
  by_cases h : r.1 = some 0
  · have hleft : proceed r f = f r.2 := if_pos h
    rw [hleft]
    exact (if_pos h).symm
  · rw [proceed_of_ne h, proceed_of_ne h, proceed_of_ne h]

/-- Two steps that return 0. -/
theorem of_proceed_eq {r : Option Int × τ} {step : τ → Option Int × τ} {c : τ} (h : proceed r step = (some 0, c)) :
    ∃ c', r = (some 0, c') ∧ step c' = (some 0, c) := by
  obtain ⟨ret, c'⟩ := r
  by_cases hret : ret = some 0
  · subst hret
    exact ⟨c', rfl, h⟩
  · rw [proceed_of_ne (show (ret, c').1 ≠ some 0 from hret)] at h
    exact absurd (Prod.mk.inj h).1 hret

theorem proceed_pure (r : Option Int × τ) : proceed r (fun c => (some 0, c)) = r := by
  by_cases h : r.1 = some 0
  · rw [proceed, if_pos h, ← h]
  · exact proceed_of_ne h _

/-! ## The recursion -/

variable [LinearOrder D]

section
variable (visitor : ZoneVisitor D κ σ ρ) (env : PanDbEnv D κ) (db : PanDB D κ) (zone : Rectangle2D D)

/-- Whether a child is pushed. -/
def isPushed (entered : ρ) (child : Nat) (qrect : Rectangle2D D) : Bool :=
  decide (rectangle2dIntersect qrect zone) && match db.nodes.cells child with
    | some (.quadNode q) => !visitor.clusters entered q qrect
    | _ => false

/-- What is done with a child that is not pushed. -/
def visitChild (child : Nat) (qrect : Rectangle2D D) (context : σ) : Option Int × σ :=
  if ¬ rectangle2dIntersect qrect zone then (some 0, context)
  else match db.nodes.cells child with
    | none => (none, context)
    | some (.bucketNode b) => foreachInBucket visitor.slot (env.order b.entries) context
    | some (.quadNode q) => visitor.cluster q qrect context

/-- The children of a node, with `height` elements on the stack. -/
def walkChildren (entered : ρ) (q : QuadNode) (qrects : Fin 4 → Rectangle2D D) :
    Nat → List (Fin 4) → σ → Option Int × σ
  | _, [], context => (some 0, context)
  | height, t :: ts, context =>
    if isPushed visitor db zone entered (q.nodes t) (qrects t) then
      if height < SEARCH_STACK_ROOM then walkChildren entered q qrects (height + 1) ts context else (none, context)
    else proceed (visitChild visitor env db zone (q.nodes t) (qrects t) context)
      (walkChildren entered q qrects height ts)

/-- The children that were pushed, those on top first. -/
def walkPushed (walk : Nat → Fin 4 → σ → Option Int × σ) (height : Nat) : List (Fin 4) → σ → Option Int × σ
  | [], context => (some 0, context)
  | t :: ts, context => proceed (walk (height + ts.length) t context) (walkPushed walk height ts)

/-- A node with all that is below it. -/
def walkNode : Nat → Nat → Nat → Rectangle2D D → σ → Option Int × σ
  | 0, _, _, _, context => (none, context)
  | fuel + 1, height, node, rect, context =>
    match db.quadNode node with
    | none => (none, context)
    | some q =>
      let qrects := getQrectsFromQbounds env.midpoint rect
      let entered := visitor.enter context
      proceed (walkChildren visitor env db zone entered q qrects height [0, 1, 2, 3] context)
        (walkPushed (fun height t => walkNode fuel height (q.nodes t) (qrects t)) height
          ([0, 1, 2, 3].filter (fun t => isPushed visitor db zone entered (q.nodes t) (qrects t))).reverse)

end

/-! ## The loop -/

variable {visitor : ZoneVisitor D κ σ ρ} {env : PanDbEnv D κ} {db : PanDB D κ} {zone : Rectangle2D D}

/-- A child that is pushed. -/
theorem scanChild_pushed {entered : ρ} {child : Nat} {qrect : Rectangle2D D}
    (h : isPushed visitor db zone entered child qrect = true) (s : PntStack (QuadNodeWithBounds D)) (context : σ) :
    scanChild visitor env db zone entered child qrect (s, context) = match pushPntStack s ⟨child, qrect⟩ with
      | none => (none, s, context)
      | some (stack, _) => (some 0, stack, context) := by
  rw [isPushed, Bool.and_eq_true, decide_eq_true_eq] at h
  obtain ⟨hmeet, hquad⟩ := h
  rw [scanChild, if_neg (not_not.2 hmeet)]
  split at hquad
  · rename_i q hcell
    rw [Bool.not_eq_true'] at hquad
    generalize db.nodes.cells child = cell at hcell ⊢
    subst hcell
    exact if_neg (by rw [hquad]; exact Bool.false_ne_true)
  · cases hquad

/-- A child that is not pushed. -/
theorem scanChild_visited {entered : ρ} {child : Nat} {qrect : Rectangle2D D}
    (h : isPushed visitor db zone entered child qrect ≠ true) (s : PntStack (QuadNodeWithBounds D)) (context : σ) :
    scanChild visitor env db zone entered child qrect (s, context) =
      ((visitChild visitor env db zone child qrect context).1, s,
        (visitChild visitor env db zone child qrect context).2) := by
  unfold scanChild visitChild
  by_cases hmeet : rectangle2dIntersect qrect zone
  · rw [if_neg (not_not.2 hmeet), if_neg (not_not.2 hmeet)]
    rw [isPushed, decide_eq_true hmeet, Bool.true_and] at h
    cases hcell : db.nodes.cells child with
    | none => rfl
    | some n =>
      cases n with
      | bucketNode b => rfl
      | quadNode q =>
        have hclusters : visitor.clusters entered q qrect = true := by simpa [hcell] using h
        simp only [hclusters, if_true]
  · rw [if_pos hmeet, if_pos hmeet]

variable (visitor env db zone) in
/-- **The children** leave on the stack those that were pushed. -/
theorem scanChildren_eq (entered : ρ) (q : QuadNode) (qrects : Fin 4 → Rectangle2D D) :
    ∀ (ts : List (Fin 4)) (s : PntStack (QuadNodeWithBounds D)) (context : σ), SearchStack s →
    ∃ s', scanChildren visitor env db zone entered q qrects ts (s, context) =
        ((walkChildren visitor env db zone entered q qrects s.elements.length ts context).1, s',
          (walkChildren visitor env db zone entered q qrects s.elements.length ts context).2) ∧
      ((walkChildren visitor env db zone entered q qrects s.elements.length ts context).1 = some 0 → SearchStack s' ∧
        s'.elements = s.elements ++ (ts.filter (fun t => isPushed visitor db zone entered (q.nodes t) (qrects t))).map
          (fun t => ⟨q.nodes t, qrects t⟩))
  | [], s, context, hs => ⟨s, rfl, fun _ => ⟨hs, (List.append_nil _).symm⟩⟩
  | t :: ts, s, context, hs => by
    rw [scanChildren, walkChildren]
    by_cases hpush : isPushed visitor db zone entered (q.nodes t) (qrects t) = true
    · rw [if_pos hpush, scanChild_pushed hpush, List.filter_cons_of_pos (by exact hpush)]
      by_cases hlen : s.elements.length < SEARCH_STACK_ROOM
      · rw [if_pos hlen, hs.push hlen]
        have hsnoc : (s.elements ++ [(⟨q.nodes t, qrects t⟩ : QuadNodeWithBounds D)]).length = s.elements.length + 1 := by
          rw [List.length_append, List.length_singleton]
        obtain ⟨s', hrun, hend⟩ := scanChildren_eq entered q qrects ts
          { s with elements := s.elements ++ [⟨q.nodes t, qrects t⟩] } context
          (hs.withElements (by rw [hsnoc]; exact hlen))
        simp only [hsnoc] at hrun hend
        refine ⟨s', by rw [proceed_zero]; exact hrun, fun hret => ⟨(hend hret).1, ?_⟩⟩
        rw [(hend hret).2, List.append_assoc, List.map_cons]
        rfl
      · rw [if_neg hlen, hs.push_full hlen]
        exact ⟨s, proceed_of_ne (by simp) _, nofun⟩
    · rw [if_neg hpush, scanChild_visited hpush, List.filter_cons_of_neg (by exact hpush)]
      generalize visitChild visitor env db zone (q.nodes t) (qrects t) context = r
      obtain ⟨ret, context'⟩ := r
      by_cases hret : ret = some 0
      · subst hret
        obtain ⟨s', hrun, hend⟩ := scanChildren_eq entered q qrects ts s context' hs
        exact ⟨s', by rw [proceed_zero, proceed_zero]; exact hrun, by rw [proceed_zero]; exact hend⟩
      · rw [proceed_of_ne (r := (ret, s, context')) hret, proceed_of_ne (r := (ret, context')) hret]
        exact ⟨s, rfl, fun h => absurd h hret⟩

/-- Addresses grow on the way down. -/
def Ascending (db : PanDB D κ) : Prop := ∀ a q, db.quadNode a = some q → ∀ t, a < q.nodes t

/-- The next node of the stack. -/
def resume (visitor : ZoneVisitor D κ σ ρ) (env : PanDbEnv D κ) (db : PanDB D κ) (zone : Rectangle2D D) (fuel : Nat)
    (s : PntStack (QuadNodeWithBounds D) × σ) : Option Int × PntStack (QuadNodeWithBounds D) × σ :=
  match popPntStack s.1 with
  | (stack, none) => (some 0, stack, s.2)
  | (stack, some sqnb) => scanZone visitor env db zone fuel sqnb.quadNode sqnb.qrect (stack, s.2)

/-- What a run of the loop leaves that has done the steps `r` with the stack `base`: the loop goes on with the stack, or
has returned. -/
def Resumes (visitor : ZoneVisitor D κ σ ρ) (env : PanDbEnv D κ) (db : PanDB D κ) (zone : Rectangle2D D)
    (base : List (QuadNodeWithBounds D)) (used fuel : Nat) (r : Option Int × σ)
    (run : Option Int × PntStack (QuadNodeWithBounds D) × σ) : Prop :=
  ∃ s fuel', fuel ≤ fuel' + used ∧
    (r.1 = some 0 → run = resume visitor env db zone fuel' (s, r.2) ∧ SearchStack s ∧ s.elements = base) ∧
    (r.1 ≠ some 0 → run = (r.1, s, r.2))

variable (visitor env db zone) in
theorem resume_pop (fuel : Nat) {s : PntStack (QuadNodeWithBounds D)} {base : List (QuadNodeWithBounds D)}
    {x : QuadNodeWithBounds D} (hs : SearchStack s) (h : s.elements = base ++ [x]) (context : σ) :
    ∃ s', resume visitor env db zone fuel (s, context) = scanZone visitor env db zone fuel x.quadNode x.qrect (s', context) ∧
      SearchStack s' ∧ s'.elements = base := by
  have hroom := hs.room
  rw [h, List.length_append] at hroom
  refine ⟨{ s with elements := base }, ?_, hs.withElements (by omega), rfl⟩
  rw [resume, popPntStack, h]
  simp

/-- The pushed children, when a walk of one child is known. -/
theorem resume_pushed (q : QuadNode) (qrects : Fin 4 → Rectangle2D D) (walk : Nat → Fin 4 → σ → Option Int × σ) (used : Nat)
    (hwalk : ∀ (t : Fin 4) (s : PntStack (QuadNodeWithBounds D)) (context : σ) (fuel : Nat), SearchStack s → used ≤ fuel →
      Resumes visitor env db zone s.elements used fuel (walk s.elements.length t context)
        (scanZone visitor env db zone fuel (q.nodes t) (qrects t) (s, context))) (base : List (QuadNodeWithBounds D)) :
    ∀ (ts : List (Fin 4)) (s : PntStack (QuadNodeWithBounds D)) (context : σ) (fuel : Nat), SearchStack s →
      s.elements = base ++ (ts.reverse.map (fun t => ⟨q.nodes t, qrects t⟩)) → ts.length * used ≤ fuel →
      Resumes visitor env db zone base (ts.length * used) fuel (walkPushed walk base.length ts context)
        (resume visitor env db zone fuel (s, context))
  | [], s, context, fuel, hs, helements, _ =>
    ⟨s, fuel, Nat.le_add_right _ _, fun _ => ⟨rfl, hs, by rw [helements]; simp⟩, fun h => absurd rfl h⟩
  | t :: ts, s, context, fuel, hs, helements, hfuel => by
    rw [List.length_cons, Nat.succ_mul] at hfuel
    have hsnoc : s.elements = (base ++ ts.reverse.map (fun t => (⟨q.nodes t, qrects t⟩ : QuadNodeWithBounds D))) ++
        [⟨q.nodes t, qrects t⟩] := by
      rw [helements, List.reverse_cons, List.map_append, List.append_assoc]
      rfl
    obtain ⟨s₁, hpop, hs₁, hbase₁⟩ := resume_pop visitor env db zone fuel hs hsnoc context
    have hheight : s₁.elements.length = base.length + ts.length := by
      rw [hbase₁, List.length_append, List.length_map, List.length_reverse]
    obtain ⟨s₂, fuel₂, hle₂, hgo, hstop⟩ := hwalk t s₁ context fuel hs₁ (by omega)
    rw [hheight] at hgo hstop
    rw [walkPushed, hpop]
    generalize walk (base.length + ts.length) t context = r at hgo hstop
    by_cases hret : r.1 = some 0
    · obtain ⟨hrun, hs₂, helements₂⟩ := hgo hret
      rw [hbase₁] at helements₂
      obtain ⟨s₃, fuel₃, hle₃, hgo₃, hstop₃⟩ := resume_pushed q qrects walk used hwalk base ts s₂ r.2 fuel₂ hs₂ helements₂ (by omega)
      rw [proceed, if_pos hret, hrun]
      exact ⟨s₃, fuel₃, by rw [List.length_cons, Nat.succ_mul]; omega, hgo₃, hstop₃⟩
    · rw [proceed_of_ne hret, hstop hret]
      exact ⟨s₂, fuel₂, by rw [List.length_cons, Nat.succ_mul]; omega, fun h => absurd h hret, fun _ => rfl⟩

variable (visitor env zone) in
/-- **The loop does what the recursion does**: by induction on the number of addresses from the node on. -/
theorem scanZone_eq (hasc : Ascending db) : ∀ (depth node : Nat) (rect : Rectangle2D D)
    (s : PntStack (QuadNodeWithBounds D)) (context : σ) (fuel : Nat), db.nodes.brk ≤ node + depth → SearchStack s →
    4 ^ depth - 1 ≤ fuel → Resumes visitor env db zone s.elements (4 ^ depth - 1) fuel
      (walkNode visitor env db zone depth s.elements.length node rect context)
      (scanZone visitor env db zone fuel node rect (s, context))
  | 0, node, rect, s, context, fuel, hnode, _, _ => by
    have hnone : db.quadNode node = none := by
      rw [PanDB.quadNode, db.nodes.fresh node (by omega)]
    refine ⟨s, fuel, Nat.le_add_right _ _, nofun, fun _ => ?_⟩
    cases fuel with
    | zero => rfl
    | succ fuel => rw [scanZone, hnone, walkNode]
  | depth + 1, node, rect, s, context, fuel, hnode, hs, hfuel => by
    have hpow : 4 ^ (depth + 1) = 4 * 4 ^ depth := by rw [Nat.pow_succ, Nat.mul_comm]
    have hpos : 0 < 4 ^ depth := Nat.pow_pos (by decide)
    obtain ⟨fuel, rfl⟩ : ∃ f, fuel = f + 1 := ⟨fuel - 1, by omega⟩
    rw [scanZone, walkNode]
    cases hq : db.quadNode node with
    | none => exact ⟨s, fuel + 1, Nat.le_add_right _ _, nofun, fun _ => rfl⟩
    | some q =>
      simp only
      obtain ⟨s₁, hscan, hend⟩ := scanChildren_eq visitor env db zone (visitor.enter context) q
        (getQrectsFromQbounds env.midpoint rect) [0, 1, 2, 3] s context hs
      rw [hscan]
      generalize walkChildren visitor env db zone (visitor.enter context) q (getQrectsFromQbounds env.midpoint rect)
        s.elements.length [0, 1, 2, 3] context = r at hend
      by_cases hret : r.1 = some 0
      · obtain ⟨hs₁, helements₁⟩ := hend hret
        rw [proceed, if_pos hret, proceed, if_pos hret]
        set ts := ([0, 1, 2, 3] : List (Fin 4)).filter (fun t =>
          isPushed visitor db zone (visitor.enter context) (q.nodes t) (getQrectsFromQbounds env.midpoint rect t)) with hts
        have hfour : ts.length ≤ 4 := List.length_filter_le _ _
        have hused := Nat.mul_le_mul_right (4 ^ depth - 1) hfour
        obtain ⟨s₂, fuel₂, hle, hgo, hstop⟩ := resume_pushed q (getQrectsFromQbounds env.midpoint rect)
          (fun height t => walkNode visitor env db zone depth height (q.nodes t)
            (getQrectsFromQbounds env.midpoint rect t)) (4 ^ depth - 1)
          (fun t s context fuel hs hfuel => scanZone_eq hasc depth (q.nodes t) _ s context fuel
            (by have := hasc node q hq t; omega) hs hfuel) s.elements ts.reverse s₁ r.2 fuel hs₁
          (by rw [List.reverse_reverse]; exact helements₁) (by rw [List.length_reverse]; omega)
        refine ⟨s₂, fuel₂, ?_, hgo, hstop⟩
        rw [List.length_reverse] at hle
        omega
      · rw [proceed_of_ne (r := (r.1, s₁, r.2)) hret, proceed_of_ne hret]
        exact ⟨s₁, fuel + 1, Nat.le_add_right _ _, fun h => absurd h hret, fun _ => rfl⟩

variable (visitor env zone) in
/-- **A walk from the root** is the recursion, and leaves the stack empty when it has come to its end. -/
theorem searchInZone_eq (hasc : Ascending db) {s : PntStack (QuadNodeWithBounds D)} (hs : SearchStack s)
    (hnil : s.elements = []) (context : σ) :
    ∃ s', searchInZone visitor env db zone (s, context) =
        ((walkNode visitor env db zone (db.nodes.brk + 1) 0 db.root env.qbounds context).1, s',
          (walkNode visitor env db zone (db.nodes.brk + 1) 0 db.root env.qbounds context).2) ∧
      ((walkNode visitor env db zone (db.nodes.brk + 1) 0 db.root env.qbounds context).1 = some 0 →
        SearchStack s' ∧ s'.elements = []) := by
  obtain ⟨s', fuel', -, hgo, hstop⟩ := scanZone_eq visitor env zone hasc (db.nodes.brk + 1)
    db.root env.qbounds s context (4 ^ (db.nodes.brk + 1)) (by omega) hs (Nat.sub_le _ _)
  rw [hnil] at hgo hstop
  simp only [List.length_nil] at hgo hstop
  generalize walkNode visitor env db zone (db.nodes.brk + 1) 0 db.root env.qbounds context = r at hgo hstop
  by_cases hret : r.1 = some 0
  · obtain ⟨hrun, hs', hnil'⟩ := hgo hret
    refine ⟨{ s' with elements := [] }, ?_, fun _ => ⟨hs'.withElements (Nat.zero_le _), rfl⟩⟩
    rw [searchInZone, hrun, resume, popPntStack, hnil', hret]
    rfl
  · exact ⟨s', hstop hret, fun h => absurd h hret⟩

end Pincaster
