import Pincaster.SearchWalk
/-!
# SearchTrace — what a walk without clusters comes to

Without clusters the slots a walk comes to do not depend on what is done with them.  They are those of the buckets whose
cells meet the zone, each once (`zoneTrace_spec`).
-/
namespace Pincaster

variable {D κ σ ρ : Type}

/-- Slots in the order in which a walk comes to them, and whether the stack has room until its end. -/
structure Trace (D κ : Type) where
  slots : List (Slot D κ)
  fits : Bool

/-- A walk that goes on unless there was no room. -/
def Trace.append (a b : Trace D κ) : Trace D κ := if a.fits then ⟨a.slots ++ b.slots, b.fits⟩ else a

theorem Trace.append_of_fits {a : Trace D κ} (h : a.fits = true) (b : Trace D κ) :
    a.append b = ⟨a.slots ++ b.slots, b.fits⟩ := if_pos h

theorem Trace.append_of_full {a : Trace D κ} (h : a.fits = false) (b : Trace D κ) : a.append b = a :=
  if_neg (by rw [h]; exact Bool.false_ne_true)

/-- The callback of a walk along the slots of a list. -/
def runSlots (cb : Slot D κ → σ → Option Int × σ) : List (Slot D κ) → σ → Option Int × σ
  | [], context => (some 0, context)
  | slot :: slots, context => proceed (cb slot context) (runSlots cb slots)

theorem runSlots_append (cb : Slot D κ → σ → Option Int × σ) : ∀ (slots slots' : List (Slot D κ)) (context : σ),
    runSlots cb (slots ++ slots') context = proceed (runSlots cb slots context) (runSlots cb slots')
  | [], slots', context => by rw [List.nil_append, runSlots, proceed_zero]
  | slot :: slots, slots', context => by
    rw [List.cons_append, runSlots, runSlots, proceed_assoc]
    congr 1
    exact funext (fun c => runSlots_append cb slots slots' c)

theorem foreachInBucket_eq (cb : Slot D κ → σ → Option Int × σ) : ∀ (entries : List (Nat × Slot D κ)) (context : σ),
    foreachInBucket cb entries context = runSlots cb (entries.map Prod.snd) context
  | [], _ => rfl
  | (_, slot) :: entries, context => by
    rw [foreachInBucket, List.map_cons, runSlots]
    congr 1
    exact funext (fun c => foreachInBucket_eq cb entries c)

/-- The callback along a trace; a stack without room is a failed assertion. -/
def runTrace (cb : Slot D κ → σ → Option Int × σ) (trace : Trace D κ) (context : σ) : Option Int × σ :=
  proceed (runSlots cb trace.slots context) (fun c => (if trace.fits then some 0 else none, c))

theorem runTrace_append (cb : Slot D κ → σ → Option Int × σ) (a b : Trace D κ) (context : σ) :
    runTrace cb (a.append b) context = proceed (runTrace cb a context) (runTrace cb b) := by
  cases h : a.fits with
  | true =>
    rw [Trace.append_of_fits h, runTrace, runTrace, runSlots_append, proceed_assoc, proceed_assoc]
    congr 1
    funext c
    rw [h, if_pos rfl, proceed_zero]
    rfl
  | false =>
    rw [Trace.append_of_full h, runTrace, proceed_assoc]
    congr 1
    funext c
    rw [h]
    exact (proceed_of_ne (by simp) _).symm

/-! ## The trace of a walk -/

variable [LinearOrder D]

section
variable (env : PanDbEnv D κ) (db : PanDB D κ) (zone : Rectangle2D D)

/-- A quad node whose cell meets the zone is visited later. -/
def isPending (child : Nat) (qrect : Rectangle2D D) : Bool :=
  decide (rectangle2dIntersect qrect zone) && (db.quadNode child).isSome

/-- The slots of a bucket whose cell meets the zone. -/
def childTrace (child : Nat) (qrect : Rectangle2D D) : Trace D κ :=
  if ¬ rectangle2dIntersect qrect zone then ⟨[], true⟩
  else match db.nodes.cells child with
    | none => ⟨[], false⟩
    | some (.bucketNode b) => ⟨(env.order b.entries).map Prod.snd, true⟩
    | some (.quadNode _) => ⟨[], true⟩

def childrenTrace (q : QuadNode) (qrects : Fin 4 → Rectangle2D D) : Nat → List (Fin 4) → Trace D κ
  | _, [] => ⟨[], true⟩
  | height, t :: ts =>
    if isPending db zone (q.nodes t) (qrects t) then
      if height < SEARCH_STACK_ROOM then childrenTrace q qrects (height + 1) ts else ⟨[], false⟩
    else (childTrace env db zone (q.nodes t) (qrects t)).append (childrenTrace q qrects height ts)

def pendingTrace (trace : Nat → Fin 4 → Trace D κ) (height : Nat) : List (Fin 4) → Trace D κ
  | [] => ⟨[], true⟩
  | t :: ts => (trace (height + ts.length) t).append (pendingTrace trace height ts)

/-- **The slots below a node** in the order of a walk: the buckets of the node first, then what is below its quad nodes,
from the last one to the first one. -/
def nodeTrace : Nat → Nat → Nat → Rectangle2D D → Trace D κ
  | 0, _, _, _ => ⟨[], false⟩
  | fuel + 1, height, node, rect =>
    match db.quadNode node with
    | none => ⟨[], false⟩
    | some q =>
      let qrects := getQrectsFromQbounds env.midpoint rect
      (childrenTrace env db zone q qrects height [0, 1, 2, 3]).append
        (pendingTrace (fun height t => nodeTrace fuel height (q.nodes t) (qrects t)) height
          ([0, 1, 2, 3].filter (fun t => isPending db zone (q.nodes t) (qrects t))).reverse)

/-- The trace of a walk from the root. -/
def zoneTrace : Trace D κ := nodeTrace env db zone (db.nodes.brk + 1) 0 db.root env.qbounds

end

/-! ## A walk follows its trace -/

variable {visitor : ZoneVisitor D κ σ ρ} {env : PanDbEnv D κ} {db : PanDB D κ} {zone : Rectangle2D D}

theorem isPushed_eq (hno : ∀ entered q qrect, visitor.clusters entered q qrect = false) (entered : ρ) (child : Nat)
    (qrect : Rectangle2D D) : isPushed visitor db zone entered child qrect = isPending db zone child qrect := by
  rw [isPushed, isPending, PanDB.quadNode]
  congr 1
  split
  · rename_i q hcell
    rw [hno]
    generalize db.nodes.cells child = cell at hcell ⊢
    subst hcell
    rfl
  · rename_i hnot
    cases hcell : db.nodes.cells child with
    | none => rfl
    | some n =>
      cases n with
      | bucketNode b => rfl
      | quadNode q => exact absurd hcell (hnot q)

theorem visitChild_eq {child : Nat} {qrect : Rectangle2D D} (h : isPending db zone child qrect ≠ true) (context : σ) :
    visitChild visitor env db zone child qrect context =
      runTrace visitor.slot (childTrace env db zone child qrect) context := by
  unfold visitChild childTrace
  by_cases hmeet : rectangle2dIntersect qrect zone
  · rw [if_neg (not_not.2 hmeet), if_neg (not_not.2 hmeet)]
    cases hcell : db.nodes.cells child with
    | none => rfl
    | some n =>
      cases n with
      | bucketNode b => exact (foreachInBucket_eq _ _ _).trans (proceed_pure _).symm
      | quadNode q => simp [isPending, hmeet, PanDB.quadNode, hcell] at h
  · rw [if_pos hmeet, if_pos hmeet]
    rfl

theorem walkChildren_eq (hno : ∀ entered q qrect, visitor.clusters entered q qrect = false) (entered : ρ) (q : QuadNode)
    (qrects : Fin 4 → Rectangle2D D) : ∀ (ts : List (Fin 4)) (height : Nat) (context : σ),
    walkChildren visitor env db zone entered q qrects height ts context =
      runTrace visitor.slot (childrenTrace env db zone q qrects height ts) context
  | [], _, _ => rfl
  | t :: ts, height, context => by
    rw [walkChildren, childrenTrace, isPushed_eq hno]
    by_cases hpending : isPending db zone (q.nodes t) (qrects t) = true
    · rw [if_pos hpending, if_pos hpending]
      by_cases hroom : height < SEARCH_STACK_ROOM
      · rw [if_pos hroom, if_pos hroom]
        exact walkChildren_eq hno entered q qrects ts (height + 1) context
      · rw [if_neg hroom, if_neg hroom]
        rfl
    · rw [if_neg hpending, if_neg hpending, runTrace_append, visitChild_eq hpending]
      congr 1
      exact funext (fun c => walkChildren_eq hno entered q qrects ts height c)

omit [LinearOrder D] in
theorem walkPushed_eq {cb : Slot D κ → σ → Option Int × σ} {walk : Nat → Fin 4 → σ → Option Int × σ}
    {trace : Nat → Fin 4 → Trace D κ}
    (hwalk : ∀ height t context, walk height t context = runTrace cb (trace height t) context)
    (height : Nat) : ∀ (ts : List (Fin 4)) (context : σ),
    walkPushed walk height ts context = runTrace cb (pendingTrace trace height ts) context
  | [], _ => rfl
  | t :: ts, context => by
    rw [walkPushed, pendingTrace, runTrace_append, hwalk]
    congr 1
    exact funext (fun c => walkPushed_eq hwalk height ts c)

/-- **A walk without clusters** does with the slots of its trace what the callback does. -/
theorem walkNode_eq (hno : ∀ entered q qrect, visitor.clusters entered q qrect = false) :
    ∀ (fuel height node : Nat) (rect : Rectangle2D D) (context : σ),
    walkNode visitor env db zone fuel height node rect context =
      runTrace visitor.slot (nodeTrace env db zone fuel height node rect) context
  | 0, _, _, _, _ => rfl
  | fuel + 1, height, node, rect, context => by
    rw [walkNode, nodeTrace]
    cases hq : db.quadNode node with
    | none => rfl
    | some q =>
      simp only
      rw [runTrace_append, walkChildren_eq hno]
      simp only [isPushed_eq hno]
      congr 1
      funext c
      exact walkPushed_eq (fun height t c =>
        walkNode_eq hno fuel height (q.nodes t) (getQrectsFromQbounds env.midpoint rect t) c) height _ c

/-! ## The slots of a trace -/

variable {pos : κ → Option (Position2D D)} {cell : Nat → Rectangle2D D}

/-- A cell that meets a zone lies in one that does. -/
theorem intersect_of_getQrects {m : Midpoint D} {rect : Rectangle2D D} (h : rect.Ordered) {t : Fin 4}
    (ht : rectangle2dIntersect (getQrectsFromQbounds m rect t) zone) : rectangle2dIntersect rect zone := by
  have h1 := m.le_mid h.latitude
  have h2 := m.mid_le h.latitude
  have h3 := m.le_mid h.longitude
  have h4 := m.mid_le h.longitude
  unfold rectangle2dIntersect at ht ⊢
  simp only [not_or, not_lt, gt_iff_lt] at ht ⊢
  obtain ⟨p1, p2, p3, p4⟩ := ht
  match t with
  | 0 => exact ⟨h3.trans p1, p2, p3, p4.trans h2⟩
  | 1 => exact ⟨h3.trans p1, p2, h1.trans p3, p4⟩
  | 2 => exact ⟨p1, p2.trans h4, p3, p4.trans h2⟩
  | 3 => exact ⟨p1, p2.trans h4, h1.trans p3, p4⟩

theorem CellBelow.intersect {a x : Nat} {rect rect' : Rectangle2D D} (h : CellBelow env db a rect x rect')
    (hrect : rect.Ordered) (hmeet : rectangle2dIntersect rect' zone) : rectangle2dIntersect rect zone := by
  induction h with
  | refl => exact hmeet
  | child t _ _ ih => exact intersect_of_getQrects hrect (ih (ordered_getQrects _ hrect t) hmeet)

/-- **What the trace of a walk from `a` has**: slots of the tree, in cells below `a` that meet the zone, for different key
nodes; and, if there is room for the stack, all of these. -/
structure TraceBelow (env : PanDbEnv D κ) (db : PanDB D κ) (pos : κ → Option (Position2D D)) (zone : Rectangle2D D)
    (buckets : Nat → Rectangle2D D → Prop) (trace : Trace D κ) : Prop where
  slot : ∀ s ∈ trace.slots, ∃ k x rect b, s.keyNode = some k ∧ pos k = some s.position ∧ db.bucketNode x = some b ∧
    s ∈ b.entries.map Prod.snd ∧ buckets x rect ∧ rectangle2dIntersect rect zone ∧ positionIsInRect s.position rect
  nodup : (trace.slots.map Slot.keyNode).Nodup
  all : trace.fits = true → ∀ x rect b, buckets x rect → db.bucketNode x = some b → rectangle2dIntersect rect zone →
    ∀ s ∈ b.entries.map Prod.snd, s ∈ trace.slots

/-- One walk after the other, through buckets that share no position. -/
theorem TraceBelow.append {buckets buckets' : Nat → Rectangle2D D → Prop} {a b : Trace D κ}
    (ha : TraceBelow env db pos zone buckets a) (hb : TraceBelow env db pos zone buckets' b)
    (hdisjoint : ∀ x rect y rect' position, buckets x rect → buckets' y rect' → positionIsInRect position rect →
      ¬ positionIsInRect position rect') :
    TraceBelow env db pos zone (fun x rect => buckets x rect ∨ buckets' x rect) (a.append b) := by
  cases hfits : a.fits with
  | false =>
    rw [Trace.append_of_full hfits]
    refine ⟨fun s hs => ?_, ha.nodup, fun h => absurd (hfits.symm.trans h) Bool.false_ne_true⟩
    obtain ⟨k, x, rect, b, hk, hpos, hx, hmem, hin, hrest⟩ := ha.slot s hs
    exact ⟨k, x, rect, b, hk, hpos, hx, hmem, .inl hin, hrest⟩
  | true =>
    rw [Trace.append_of_fits hfits]
    refine ⟨fun s hs => ?_, ?_, fun h x rect b' hin hx hmeet s hs => ?_⟩
    · rcases List.mem_append.1 hs with hs | hs
      · obtain ⟨k, x, rect, b, hk, hpos, hx, hmem, hin, hrest⟩ := ha.slot s hs
        exact ⟨k, x, rect, b, hk, hpos, hx, hmem, .inl hin, hrest⟩
      · obtain ⟨k, x, rect, b, hk, hpos, hx, hmem, hin, hrest⟩ := hb.slot s hs
        exact ⟨k, x, rect, b, hk, hpos, hx, hmem, .inr hin, hrest⟩
    · rw [List.map_append, List.nodup_append]
      refine ⟨ha.nodup, hb.nodup, fun k hk k' hk' heq => ?_⟩
      obtain ⟨s, hs, rfl⟩ := List.mem_map.1 hk
      obtain ⟨s', hs', rfl⟩ := List.mem_map.1 hk'
      obtain ⟨k, x, rect, -, hk, hpos, -, -, hin, -, hrect⟩ := ha.slot s hs
      obtain ⟨k', x', rect', -, hk', hpos', -, -, hin', -, hrect'⟩ := hb.slot s' hs'
      rw [hk, hk', Option.some.injEq] at heq
      rw [heq, hpos', Option.some.injEq] at hpos
      exact hdisjoint x rect x' rect' _ hin hin' hrect (hpos ▸ hrect')
    · rcases hin with hin | hin
      · exact List.mem_append_left _ (ha.all hfits x rect b' hin hx hmeet s hs)
      · exact List.mem_append_right _ (hb.all h x rect b' hin hx hmeet s hs)

theorem TraceBelow.empty (fits : Bool) {buckets : Nat → Rectangle2D D → Prop}
    (h : fits = true → ∀ x rect b, buckets x rect → db.bucketNode x = some b → ¬ rectangle2dIntersect rect zone) :
    TraceBelow env db pos zone buckets ⟨[], fits⟩ :=
  ⟨fun _ hs => absurd hs List.not_mem_nil, List.nodup_nil, fun hfits x rect b hin hx hmeet =>
    absurd hmeet (h hfits x rect b hin hx)⟩

/-- The same walk, said of more buckets: none of the others meets the zone. -/
theorem TraceBelow.mono {buckets buckets' : Nat → Rectangle2D D → Prop} {trace : Trace D κ}
    (h : TraceBelow env db pos zone buckets trace) (hsub : ∀ x rect, buckets x rect → buckets' x rect)
    (hback : ∀ x rect b, buckets' x rect → db.bucketNode x = some b → rectangle2dIntersect rect zone → buckets x rect) :
    TraceBelow env db pos zone buckets' trace := by
  refine ⟨fun s hs => ?_, h.nodup, fun hfits x rect b hin hx hmeet => ?_⟩
  · obtain ⟨k, x, rect, b, hk, hpos, hx, hmem, hin, hrest⟩ := h.slot s hs
    exact ⟨k, x, rect, b, hk, hpos, hx, hmem, hsub x rect hin, hrest⟩
  · exact h.all hfits x rect b (hback x rect b hin hx hmeet) hx hmeet

/-- The slots of one bucket. -/
theorem bucket_spec (h : Stable env db pos cell) {x : Nat} {b : BucketNode D κ} (hb : db.bucketNode x = some b)
    (hmeet : rectangle2dIntersect (cell x) zone) :
    TraceBelow env db pos zone (fun y rect => y = x ∧ rect = cell x) ⟨(env.order b.entries).map Prod.snd, true⟩ := by
  have hperm := (env.order_perm b.entries).map Prod.snd
  have hwf := h.located.wellFormed hb
  refine ⟨fun s hs => ?_, ?_, fun _ y rect b' hin hb' _ s hs => ?_⟩
  · have hs := hperm.mem_iff.1 hs
    obtain ⟨e, he, rfl⟩ := List.mem_map.1 hs
    obtain ⟨hin, -, k, hk, -, hpos, -⟩ := h.located.entry hb e he
    exact ⟨k, x, cell x, b, hk, hpos, hb, hs, ⟨rfl, rfl⟩, hmeet, hin⟩
  · have hkeys : (b.entries.map (fun e => e.2.keyNode)).Nodup := by
      refine (List.Nodup.of_map Prod.fst hwf.nodup).map_on (fun e he e' he' heq => hwf.unique he he' ?_)
      obtain ⟨-, -, k, hk, -, -, hslot⟩ := h.located.entry hb e he
      obtain ⟨-, -, k', hk', -, -, hslot'⟩ := h.located.entry hb e' he'
      rw [hk, hk', Option.some.injEq] at heq
      have hptr := (hslot (fun hf => hf)).symm.trans (heq ▸ hslot' (fun hf => hf))
      exact congrArg SlotPtr.entry (Option.some.inj hptr)
    have hperm' := ((env.order_perm b.entries).map (fun e => e.2.keyNode)).nodup_iff.2 hkeys
    rwa [List.map_map]
  · obtain ⟨rfl, -⟩ := hin
    rw [hb, Option.some.injEq] at hb'
    exact hperm.mem_iff.2 (hb' ▸ hs)

variable (zone) in
/-- The children of a node that are not pushed. -/
theorem childrenTrace_spec (h : Stable env db pos cell) {a : Nat} {q : QuadNode} (hq : db.quadNode a = some q) :
    ∀ (ts : List (Fin 4)) (height : Nat), ts.Nodup → TraceBelow env db pos zone
      (fun x rect => ∃ t ∈ ts, isPending db zone (q.nodes t) (getQrectsFromQbounds env.midpoint (cell a) t) = false ∧
        x = q.nodes t ∧ rect = getQrectsFromQbounds env.midpoint (cell a) t)
      (childrenTrace env db zone q (getQrectsFromQbounds env.midpoint (cell a)) height ts)
  | [], _, _ => .empty true (fun _ x rect b hin => absurd hin (by simp))
  | t :: ts, height, hnodup => by
    obtain ⟨hnot, hnodup⟩ := List.nodup_cons.1 hnodup
    have hcell := quadNode_eq_some.1 hq
    obtain ⟨-, -, hrect, -⟩ := h.shape.child a _ _ (shape_of_cells hcell) t
    rw [childrenTrace]
    by_cases hpending : isPending db zone (q.nodes t) (getQrectsFromQbounds env.midpoint (cell a) t) = true
    · rw [if_pos hpending]
      by_cases hroom : height < SEARCH_STACK_ROOM
      · rw [if_pos hroom]
        refine (childrenTrace_spec h hq ts (height + 1) hnodup).mono (fun x rect ⟨u, hu, hin⟩ =>
          ⟨u, List.mem_cons_of_mem _ hu, hin⟩) (fun x rect b ⟨u, hu, hno, hin⟩ _ _ => ?_)
        rcases List.mem_cons.1 hu with rfl | hu
        · exact absurd (hpending.symm.trans hno) (by simp)
        · exact ⟨u, hu, hno, hin⟩
      · rw [if_neg hroom]
        exact .empty false (fun hf => absurd hf Bool.false_ne_true)
    · rw [if_neg hpending]
      have hchild : TraceBelow env db pos zone (fun x rect => x = q.nodes t ∧ rect = cell (q.nodes t))
          (childTrace env db zone (q.nodes t) (cell (q.nodes t))) := by
        unfold childTrace
        by_cases hmeet : rectangle2dIntersect (cell (q.nodes t)) zone
        · rw [if_neg (not_not.2 hmeet)]
          cases hx : db.nodes.cells (q.nodes t) with
          | none => exact .empty false (fun hf => absurd hf Bool.false_ne_true)
          | some n =>
            cases n with
            | bucketNode b => exact bucket_spec h (bucketNode_eq_some.2 hx) hmeet
            | quadNode q' =>
              rw [← hrect] at hpending
              simp [isPending, hmeet, PanDB.quadNode, hx] at hpending
        · rw [if_pos hmeet]
          exact .empty true (fun _ x rect b hin _ hmeet' => hmeet (hin.2 ▸ hmeet'))
      rw [hrect] at hchild
      refine (hchild.append (childrenTrace_spec h hq ts height hnodup) ?_).mono ?_ ?_
      · rintro x rect y rect' position ⟨-, rfl⟩ ⟨u, hu, -, -, rfl⟩ hin hin'
        exact hnot (getQrects_disjoint hin hin' ▸ hu)
      · rintro x rect (⟨rfl, rfl⟩ | ⟨u, hu, hin⟩)
        · exact ⟨t, List.mem_cons_self, Bool.not_eq_true _ ▸ hpending, rfl, rfl⟩
        · exact ⟨u, List.mem_cons_of_mem _ hu, hin⟩
      · rintro x rect b ⟨u, hu, hno, hin⟩ - -
        rcases List.mem_cons.1 hu with rfl | hu
        · exact .inl hin
        · exact .inr ⟨u, hu, hno, hin⟩

variable (env db pos zone) in
/-- The children that are pushed. -/
theorem pendingTrace_spec (q : QuadNode) {qrects : Fin 4 → Rectangle2D D} (trace : Nat → Fin 4 → Trace D κ)
    (hqrects : ∀ t, (qrects t).Ordered)
    (hdisjoint : ∀ t u position, positionIsInRect position (qrects t) → positionIsInRect position (qrects u) → t = u)
    (height : Nat) : ∀ ts : List (Fin 4), ts.Nodup →
    (∀ t ∈ ts, ∀ height, TraceBelow env db pos zone (CellBelow env db (q.nodes t) (qrects t)) (trace height t)) →
    TraceBelow env db pos zone (fun x rect => ∃ t ∈ ts, CellBelow env db (q.nodes t) (qrects t) x rect)
      (pendingTrace trace height ts)
  | [], _, _ => .empty true (fun _ x rect b hin => absurd hin (by simp))
  | t :: ts, hnodup, htrace => by
    obtain ⟨hnot, hnodup⟩ := List.nodup_cons.1 hnodup
    have ih := pendingTrace_spec q trace hqrects hdisjoint height ts hnodup (fun u hu => htrace u (List.mem_cons_of_mem _ hu))
    refine ((htrace t List.mem_cons_self (height + ts.length)).append ih ?_).mono ?_ ?_
    · rintro x rect y rect' position hbelow ⟨u, hu, hbelow'⟩ hin hin'
      have htu := hdisjoint t u position (hbelow.isInRect (hqrects t) hin) (hbelow'.isInRect (hqrects u) hin')
      exact hnot (htu ▸ hu)
    · rintro x rect (hbelow | ⟨u, hu, hbelow⟩)
      · exact ⟨t, List.mem_cons_self, hbelow⟩
      · exact ⟨u, List.mem_cons_of_mem _ hu, hbelow⟩
    · rintro x rect b ⟨u, hu, hbelow⟩ - -
      rcases List.mem_cons.1 hu with rfl | hu
      · exact .inl hbelow
      · exact .inr ⟨u, hu, hbelow⟩

variable (zone) in
/-- **The trace below a node**: by induction on the addresses from the node on. -/
theorem nodeTrace_spec (h : Stable env db pos cell) : ∀ (fuel height a : Nat) (q : QuadNode), db.quadNode a = some q →
    db.nodes.brk < fuel + a →
    TraceBelow env db pos zone (CellBelow env db a (cell a)) (nodeTrace env db zone fuel height a (cell a))
  | 0, _, a, q, hq, hfuel => by
    have := Lib.Heap.lt_brk (quadNode_eq_some.1 hq)
    omega
  | fuel + 1, height, a, q, hq, hfuel => by
    have hcell := quadNode_eq_some.1 hq
    have hordered := h.shape.ordered a _ (shape_of_cells hcell)
    have hqrects := fun t => ordered_getQrects env.midpoint hordered t
    set qrects := getQrectsFromQbounds env.midpoint (cell a) with hqrects_def
    set pending := ([0, 1, 2, 3] : List (Fin 4)).filter (fun t => isPending db zone (q.nodes t) (qrects t)) with hpending
    have hmem : ∀ t, t ∈ pending ↔ isPending db zone (q.nodes t) (qrects t) = true := by
      intro t
      have hall : ∀ t : Fin 4, t ∈ ([0, 1, 2, 3] : List (Fin 4)) := by decide
      rw [hpending, List.mem_filter]
      exact ⟨fun ht => ht.2, fun ht => ⟨hall t, ht⟩⟩
    have hchildren := childrenTrace_spec zone h hq [0, 1, 2, 3] height (by decide)
    have hbelow := pendingTrace_spec env db zone pos q
      (fun height t => nodeTrace env db zone fuel height (q.nodes t) (qrects t)) hqrects
      (fun t u position => getQrects_disjoint) height pending.reverse
      (List.nodup_reverse.2 (List.Nodup.filter _ (by decide)))
      (fun t ht height => by
        have ht := (hmem t).1 (List.mem_reverse.1 ht)
        rw [isPending, Bool.and_eq_true] at ht
        obtain ⟨q', hq'⟩ := Option.isSome_iff_exists.1 ht.2
        obtain ⟨hlt, -, hrect, -⟩ := h.shape.child a _ _ (shape_of_cells hcell) t
        have ih := nodeTrace_spec h fuel height (q.nodes t) q' hq' (by omega)
        rwa [hrect] at ih)
    rw [nodeTrace, hq]
    refine (hchildren.append hbelow ?_).mono ?_ ?_
    · rintro x rect y rect' position ⟨t, -, hno, -, rfl⟩ ⟨u, hu, hbelow⟩ hin hin'
      have htu := getQrects_disjoint hin (hbelow.isInRect (hqrects u) hin')
      have hu := (hmem u).1 (List.mem_reverse.1 hu)
      rw [← htu] at hu
      exact absurd (hu.symm.trans hno) (by simp)
    · rintro x rect (⟨t, -, -, rfl, rfl⟩ | ⟨t, -, hbelow⟩)
      · exact .child t hq (.refl _ _)
      · exact .child t hq hbelow
    · rintro x rect b hbelow hb hmeet
      cases hbelow with
      | refl =>
        rw [bucketNode_eq_some, hcell] at hb
        cases hb
      | @child _ _ _ _ q' t hq' hbelow =>
        rw [hq, Option.some.injEq] at hq'
        subst hq'
        cases hpend : isPending db zone (q.nodes t) (qrects t) with
        | true => exact .inr ⟨t, List.mem_reverse.2 ((hmem t).2 hpend), hbelow⟩
        | false =>
          have hall : ∀ t : Fin 4, t ∈ ([0, 1, 2, 3] : List (Fin 4)) := by decide
          cases hbelow with
          | refl => exact .inl ⟨t, hall t, hpend, rfl, rfl⟩
          | @child _ _ _ _ q'' u hq'' hbelow' =>
            have hmeet' : rectangle2dIntersect (qrects t) zone :=
              (CellBelow.child u hq'' hbelow').intersect (hqrects t) hmeet
            rw [isPending, decide_eq_true hmeet', hq''] at hpend
            cases hpend

/-- **The trace of a walk through the tree**: what is in the buckets whose cells meet the zone. -/
theorem zoneTrace_spec (h : Stable env db pos cell) (zone : Rectangle2D D) :
    TraceBelow env db pos zone (CellOf env db) (zoneTrace env db zone) := by
  obtain ⟨nodes, hr⟩ := h.shape.rootNode
  obtain ⟨q, hq, -, -⟩ := quadNode_of_shape hr
  have hspec := nodeTrace_spec zone h (db.nodes.brk + 1) 0 db.root q (quadNode_eq_some.2 hq) (by omega)
  rwa [h.shape.rootCell] at hspec

theorem ascending_of_stable (h : Stable env db pos cell) : Ascending db := fun a _ hq t =>
  (h.shape.child a _ _ (shape_of_cells (quadNode_eq_some.1 hq)) t).1

end Pincaster
