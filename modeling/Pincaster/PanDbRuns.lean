import Pincaster.Lib.Runs
import Pincaster.PanDbLaw
import Mathlib.Algebra.Order.Ring.Int
/-!
# PanDbRuns — the quad-tree along its runs

`handle_op_records_put` adds a slot for a key node that has none, at a position inside the bounds; whoever removes the
slot of a key node clears its pointer.
-/
namespace Pincaster

variable {D κ : Type}

/-- The caller of `remove_entry_from_key_node` clears `key_node->slot`. -/
def PanDB.clearSlot [DecidableEq κ] (db : PanDB D κ) (k : κ) : PanDB D κ :=
  { db with slots := Function.update db.slots k none }

inductive PanDbOp (D κ : Type) where
  | addSlot (keyNode : κ) (position : Position2D D)
  | removeEntry (keyNode : κ)

variable [LinearOrder D] [DecidableEq κ]

def panDbSystem [Sub D] (env : PanDbEnv D κ) : Lib.System (PanDB D κ) (PanDbOp D κ) where
  init := initPanDb
  legal db
    | .addSlot k position => db.slots k = none ∧ positionIsInRect position env.qbounds
    | .removeEntry k => db.slots k ≠ none
  step db
    | .addSlot k position => addSlot env db ⟨position, some k, none⟩
    | .removeEntry k => (removeEntryFromKeyNode env db k).map (fun db => db.clearSlot k)

instance [Sub D] (env : PanDbEnv D κ) (db : PanDB D κ) : ∀ op, Decidable ((panDbSystem env).legal db op)
  | .addSlot k position => inferInstanceAs (Decidable (db.slots k = none ∧ positionIsInRect position env.qbounds))
  | .removeEntry k => inferInstanceAs (Decidable (db.slots k ≠ none))

/-- Where the slots of the key nodes are. -/
def PanDB.position (db : PanDB D κ) (k : κ) : Option (Position2D D) :=
  ((db.slots k).bind db.slot).map Slot.position

variable {env : PanDbEnv D κ} {pos : κ → Option (Position2D D)} {cell : Nat → Rectangle2D D} {db : PanDB D κ}

omit [DecidableEq κ] in
/-- **The tree stores the positions of the invariant.** -/
theorem position_of_stable (h : Stable env db pos cell) : db.position = pos := by
  funext k
  unfold PanDB.position
  cases hs : db.slots k with
  | none => exact (h.located.nowhere (fun hf => hf) hs).symm
  | some ptr =>
    obtain ⟨b, slot, hb, hm, hk, -⟩ := h.located.key (fun hf => hf) hs
    obtain ⟨-, -, k', hk', -, hpos, -⟩ := h.located.entry hb _ hm
    rw [hk, Option.some.injEq] at hk'
    rw [Option.bind_some, (slot_eq_some h).2 ⟨b, hb, hm⟩, hk', hpos]
    rfl

/-! ## The empty tree -/

omit [LinearOrder D] [DecidableEq κ] in
theorem cells_initPanDb (x : Nat) : (initPanDb : PanDB D κ).nodes.cells x =
    if x = 0 then some (.quadNode ⟨none, 0, fun t => 0 + 1 + t⟩)
    else if 0 < x ∧ x < 0 + 5 then some (newBucketNode 0) else none := by
  have hbrk : (Lib.Heap.empty : Lib.Heap (Node D κ)).brk = 0 := rfl
  simp only [initPanDb, newQuadNode, Lib.Heap.cells_alloc, Lib.Heap.brk_alloc, Lib.Heap.cells_empty, hbrk]
  split_ifs <;> first | rfl | omega

omit [LinearOrder D] [DecidableEq κ] in
theorem shape_initPanDb {x : Nat} {s : NodeShape} (h : (initPanDb : PanDB D κ).shape x = some s) :
    (x = 0 ∧ s = ⟨none, some (fun t => 0 + 1 + t)⟩) ∨ ∃ t : Fin 4, x = 0 + 1 + t ∧ s = ⟨some 0, none⟩ := by
  rw [PanDB.shape, cells_initPanDb] at h
  by_cases h1 : x = 0
  · rw [if_pos h1] at h
    exact .inl ⟨h1, (Option.some.inj h).symm⟩
  · rw [if_neg h1] at h
    by_cases h2 : 0 < x ∧ x < 0 + 5
    · rw [if_pos h2] at h
      exact .inr ⟨⟨x - 1, by omega⟩, by simp only; omega, (Option.some.inj h).symm⟩
    · rw [if_neg h2] at h
      cases h

omit [LinearOrder D] [DecidableEq κ] in
theorem shape_initPanDb_part (t : Fin 4) : (initPanDb : PanDB D κ).shape (0 + 1 + t) = some ⟨some 0, none⟩ := by
  have ht := t.isLt
  rw [PanDB.shape, cells_initPanDb, if_neg (by omega), if_pos (by omega)]
  rfl

omit [LinearOrder D] [DecidableEq κ] in
theorem bucketNode_initPanDb {x : Nat} {b : BucketNode D κ} (h : (initPanDb : PanDB D κ).bucketNode x = some b) :
    b = ⟨some 0, 0, [], 0⟩ := by
  rw [bucketNode_eq_some, cells_initPanDb] at h
  split_ifs at h
  · cases h
  · exact (Node.bucketNode.inj (Option.some.inj h)).symm

omit [DecidableEq κ] in
theorem initPanDb_stable (env : PanDbEnv D κ) : Stable env initPanDb (fun _ => none)
    (cellsWithQuad env.midpoint (fun _ => env.qbounds) 0 env.qbounds) := by
  have hordered : env.qbounds.Ordered := ⟨env.latitude_le, env.longitude_le⟩
  refine ⟨⟨⟨fun t => 0 + 1 + t, ?_⟩, cellsWithQuad_quad _ _ _ _, ?_, ?_, ?_, ?_, ?_⟩, ⟨?_, ?_, ?_, fun _ _ => rfl⟩, ?_⟩
  · change (initPanDb : PanDB D κ).shape 0 = _
    rw [PanDB.shape, cells_initPanDb, if_pos rfl]
    rfl
  · intro a s ha
    rcases shape_initPanDb ha with ⟨rfl, -⟩ | ⟨t, rfl, -⟩
    · rw [cellsWithQuad_quad]
      exact hordered
    · rw [cellsWithQuad_part]
      exact ordered_getQrects _ hordered t
  · intro a s ha hnone
    rcases shape_initPanDb ha with ⟨rfl, -⟩ | ⟨t, -, rfl⟩
    · rfl
    · cases hnone
  · intro a p nodes ha t
    rcases shape_initPanDb ha with ⟨rfl, heq⟩ | ⟨u, -, heq⟩
    · rw [NodeShape.mk.injEq, Option.some.injEq] at heq
      rw [heq.2]
      beta_reduce
      exact ⟨by omega, by simp, by rw [cellsWithQuad_part, cellsWithQuad_quad], _, shape_initPanDb_part t, rfl⟩
    · cases heq
  · intro a p nodes ha
    rcases shape_initPanDb ha with ⟨-, heq⟩ | ⟨u, -, heq⟩
    · rw [NodeShape.mk.injEq, Option.some.injEq] at heq
      rw [heq.2]
      intro t u htu
      exact Fin.ext (by simpa using htu)
    · cases heq
  · intro a s p ha hp _
    rcases shape_initPanDb ha with ⟨-, rfl⟩ | ⟨t, rfl, rfl⟩
    · cases hp
    · cases hp
      exact ⟨none, _, t, by rw [PanDB.shape, cells_initPanDb, if_pos rfl]; rfl, rfl⟩
  · intro a b hb
    rw [bucketNode_initPanDb hb]
    exact ⟨rfl, List.nodup_nil, by simp⟩
  · intro a b hb e he
    rw [bucketNode_initPanDb hb] at he
    cases he
  · intro k ptr _ hs
    cases hs
  · intro a q ha
    rw [cells_initPanDb] at ha
    split_ifs at ha with h1 h2
    · cases ha
      have hzero : ∀ t : Fin 4, (initPanDb : PanDB D κ).weight (0 + 1 + t) = 0 := by
        intro t
        have ht := t.isLt
        rw [PanDB.weight, cells_initPanDb, if_neg (by omega), if_pos (by omega)]
        rfl
      simp [hzero]
    · cases ha

/-! ## Runs -/

/-- What an operation does to the positions. -/
def PanDbOp.positions (pos : κ → Option (Position2D D)) : PanDbOp D κ → κ → Option (Position2D D)
  | .addSlot k position => Function.update pos k (some position)
  | .removeEntry k => Function.update pos k none

/-- **A legal operation has a result**, keeps the invariant and changes the position of one key node. -/
theorem panDbSystem_step [Sub D] (h : Stable env db pos cell) : ∀ op, (panDbSystem env).legal db op →
    ∃ db' cell', (panDbSystem env).step db op = some db' ∧ Stable env db' (op.positions pos) cell'
  | .addSlot k position, hlegal => by
    have hpos := (h.located.slots_eq_none (fun hf => hf)).1 hlegal.1
    obtain ⟨db', cell', hadd, h', -⟩ := addSlot_spec h
      (show (⟨position, some k, none⟩ : Slot D κ).keyNode = some k from rfl) hpos hlegal.2
    exact ⟨db', cell', hadd, h'⟩
  | .removeEntry k, hlegal => by
    obtain ⟨db', cell', hrem, h', -⟩ := removeEntryFromKeyNode_spec h hlegal
    refine ⟨db'.clearSlot k, cell', ?_, h'⟩
    change (removeEntryFromKeyNode env db k).map _ = _
    rw [hrem]
    rfl

theorem panDb_reachable_stable [Sub D] (hr : (panDbSystem env).Reachable db) : ∃ pos cell, Stable env db pos cell := by
  refine hr.inv (fun db => ∃ pos cell, Stable env db pos cell) ⟨_, _, initPanDb_stable env⟩ ?_
  rintro s op s' ⟨pos, cell, hs⟩ hlegal hstep
  obtain ⟨db', cell', hstep', h'⟩ := panDbSystem_step hs op hlegal
  rw [hstep, Option.some.injEq] at hstep'
  exact ⟨_, cell', hstep' ▸ h'⟩

/-- **The tree refines a map** from key nodes to positions. -/
theorem panDbSystem_refines [Sub D] (hr : (panDbSystem env).Reachable db) (op : PanDbOp D κ)
    (hlegal : (panDbSystem env).legal db op) :
    ∃ db', (panDbSystem env).step db op = some db' ∧ db'.position = op.positions db.position := by
  obtain ⟨pos, cell, h⟩ := panDb_reachable_stable hr
  obtain ⟨db', cell', hstep, h'⟩ := panDbSystem_step h op hlegal
  refine ⟨db', hstep, ?_⟩
  rw [position_of_stable h', position_of_stable h]

/-! ## A run with a split and a merge -/

/-- Buckets of six slots on a square of integers. -/
def squareEnv : PanDbEnv Int Nat where
  qbounds := ⟨⟨0, 0⟩, ⟨16, 16⟩⟩
  latitudeAccuracy := 1
  longitudeAccuracy := 1
  bucketSize := 6
  midpoint := ⟨fun lo hi => (lo + hi) / 2, fun h => by omega, fun h => by omega⟩
  order := fun entries => entries
  latitude_le := by decide
  longitude_le := by decide
  bucketSize_pos := by decide
  order_perm := fun entries => List.Perm.refl entries

/-- Seven slots in one quarter, which is split, and three of them removed, when it is merged again. -/
def splitAndMerge : List (PanDbOp Int Nat) :=
  (List.range 7).map (fun k => .addSlot k ⟨k, 7 - k⟩) ++ [.removeEntry 0, .removeEntry 1, .removeEntry 2]

end Pincaster
