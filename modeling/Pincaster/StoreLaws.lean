import Pincaster.Store
/-!
# StoreLaws — where an operation acts

A mutation modifies one layer, and one on a record modifies one key of it (`workerDoWork_eq_modifyAt`); so mutations of
different layers or of different records commute (`Independent.commutes`).
-/
namespace Pincaster

open Lib (cstr modifyAt modifyAt_comm modifyAt_comm_same Commutes)

variable {D : Type}

def OpBody.layer : OpBody D → Key
  | .layersCreate layerName | .layersDelete layerName | .recordsGet layerName _ _ | .recordsDelete layerName _
  | .searchNearby layerName _ _ | .searchInRect layerName _ _ | .searchInKeys layerName _ _ => layerName
  | .recordsPut putOp => putOp.layerName
  | .systemPing | .layersIndex => []

/-- The record a mutation is about. -/
def OpBody.record : OpBody D → Option Key
  | .recordsPut putOp => some putOp.key
  | .recordsDelete _ key => some key
  | _ => none

variable [Dimension D]

/-- What an operation does with the node of its record. -/
def nodeEffect (qbounds : Rectangle2D D) (body : OpBody D) (keyNode : Option (KeyNode D)) :
    Option (Option (KeyNode D)) :=
  match body with
  | .recordsPut putOp => (putKeyNode qbounds putOp (keyNode.getD newKeyNode)).map some
  | .recordsDelete _ _ => some none
  | _ => some keyNode

/-- What an operation does with its layer. -/
def layerEffect (qbounds : Rectangle2D D) (body : OpBody D) (keyNodes : Option (KeyNodes D)) :
    Option (Option (KeyNodes D)) :=
  match body with
  | .layersCreate layerName =>
    match keyNodes with
    | some keyNodes => some (some keyNodes)
    | none => some (if cstr layerName = [] then none else some (fun _ => none))
  | .layersDelete _ => some none
  | body =>
    match keyNodes, body.record with
    | some keyNodes, some key => (modifyAt key (nodeEffect qbounds body) keyNodes).map some
    | keyNodes, _ => some keyNodes

/-- **A mutation modifies one layer.** -/
theorem workerDoWork_eq_modifyAt (qbounds : Rectangle2D D) {body : OpBody D} (hm : body.mutates = true)
    (layers : Layers D) : workerDoWork qbounds body layers = modifyAt body.layer (layerEffect qbounds body) layers := by
  cases body with
  | layersCreate layerName =>
    simp only [workerDoWork, handleOpLayersCreate, registerLayer, modifyAt, OpBody.layer, layerEffect]
    cases hl : layers layerName with
    | some keyNodes => simp [← hl]
    | none =>
      by_cases hc : cstr layerName = []
      · simp [hc, ← hl]
      · simp [hc]
  | layersDelete layerName =>
    simp only [workerDoWork, handleOpLayersDelete, modifyAt, OpBody.layer, layerEffect, Option.map_some, Option.some.injEq]
    cases hl : layers layerName with
    | some keyNodes => rfl
    | none => simp [← hl]
  | recordsPut putOp =>
    simp only [workerDoWork, handleOpRecordsPut, modifyAt, OpBody.layer, OpBody.record, layerEffect, nodeEffect]
    cases hl : layers putOp.layerName with
    | none => simp [← hl]
    | some keyNodes =>
      cases hp : putKeyNode qbounds putOp ((keyNodes putOp.key).getD newKeyNode) <;> simp [hp]
  | recordsDelete layerName key =>
    simp only [workerDoWork, handleOpRecordsDelete, modifyAt, OpBody.layer, OpBody.record, layerEffect, nodeEffect,
      Option.map_some]
    cases hl : layers layerName with
    | none => simp [← hl]
    | some keyNodes =>
      cases hk : keyNodes key with
      | none =>
        have hnone : Function.update keyNodes key none = keyNodes := by rw [← hk, Function.update_eq_self]
        simp [hk, hnone, ← hl]
      | some keyNode => simp [hk]
  | systemPing | layersIndex | recordsGet | searchNearby | searchInRect | searchInKeys => cases hm

omit [Dimension D] in
/-- Two operations of which neither can see the other: they are the same, or on different layers, or on different
records. -/
def Independent (a b : OpBody D) : Prop :=
  a = b ∨ a.layer ≠ b.layer ∨ ∃ k l, a.record = some k ∧ b.record = some l ∧ k ≠ l

/-- A mutation of a record leaves a layer that is not there, -/
theorem layerEffect_none (qbounds : Rectangle2D D) {body : OpBody D} {k : Key} (h : body.record = some k) :
    layerEffect qbounds body none = some none := by
  cases body <;> cases h <;> rfl

/-- and modifies one key of a layer that is. -/
theorem layerEffect_some (qbounds : Rectangle2D D) {body : OpBody D} {k : Key} (h : body.record = some k)
    (keyNodes : KeyNodes D) :
    layerEffect qbounds body (some keyNodes) = (modifyAt k (nodeEffect qbounds body) keyNodes).map some := by
  cases body <;> cases h <;> rfl

theorem layerEffect_comm (qbounds : Rectangle2D D) {a b : OpBody D} {k l : Key} (ha : a.record = some k)
    (hb : b.record = some l) (hkl : k ≠ l) (keyNodes : Option (KeyNodes D)) :
    (layerEffect qbounds a keyNodes).bind (layerEffect qbounds b) =
      (layerEffect qbounds b keyNodes).bind (layerEffect qbounds a) := by
  cases keyNodes with
  | none => simp [layerEffect_none qbounds ha, layerEffect_none qbounds hb]
  | some keyNodes =>
    have hmap {a b : OpBody D} {k l : Key} (ha : a.record = some k) (hb : b.record = some l) :
        (layerEffect qbounds a (some keyNodes)).bind (layerEffect qbounds b) =
          ((modifyAt k (nodeEffect qbounds a) keyNodes).bind (modifyAt l (nodeEffect qbounds b))).map some := by
      rw [layerEffect_some qbounds ha]
      cases modifyAt k (nodeEffect qbounds a) keyNodes with
      | none => rfl
      | some keyNodes' => exact layerEffect_some qbounds hb keyNodes'
    rw [hmap ha hb, hmap hb ha, modifyAt_comm hkl]

/-- **Independent mutations commute.** -/
theorem Independent.commutes (qbounds : Rectangle2D D) {a b : OpBody D} (ha : a.mutates = true)
    (hb : b.mutates = true) (h : Independent a b) : Commutes (workerDoWork qbounds) a b := by
  intro layers
  have hbind {a b : OpBody D} (ha : a.mutates = true) (hb : b.mutates = true) :
      (workerDoWork qbounds a layers).bind (workerDoWork qbounds b) =
        (modifyAt a.layer (layerEffect qbounds a) layers).bind (modifyAt b.layer (layerEffect qbounds b)) := by
    rw [workerDoWork_eq_modifyAt qbounds ha]
    exact congrArg _ (funext (fun l => workerDoWork_eq_modifyAt qbounds hb l))
  rw [hbind ha hb, hbind hb ha]
  by_cases hl : a.layer = b.layer
  · rcases h with rfl | h | ⟨k, l, hk, hl', hkl⟩
    · rfl
    · exact absurd hl h
    · rw [hl]
      exact modifyAt_comm_same (layerEffect_comm qbounds hk hl' hkl) b.layer layers
  · exact modifyAt_comm hl _ _ layers

end Pincaster
