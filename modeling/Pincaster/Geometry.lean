import Mathlib.Order.Basic
import Mathlib.Data.Fin.VecNotation
import Mathlib.Algebra.GroupWithZero.Nat
/-!
# Geometry — positions, rectangles and the four quarters of a rectangle

The coordinates are any linearly ordered type.  A rectangle holds the positions from its first edge on up to before its
second edge.
-/
namespace Pincaster

structure Position2D (D : Type) where
  latitude : D
  longitude : D

structure Rectangle2D (D : Type) where
  edge0 : Position2D D
  edge1 : Position2D D

/-- What the quad-tree needs of `(lo + hi) / 2`: it does not leave the interval. -/
structure Midpoint (D : Type) [LE D] where
  mid : D → D → D
  le_mid : ∀ {lo hi : D}, lo ≤ hi → lo ≤ mid lo hi
  mid_le : ∀ {lo hi : D}, lo ≤ hi → mid lo hi ≤ hi

variable {D : Type} [LinearOrder D]

theorem quarters_ne_zero : 4 ≠ 0 := by decide

/-- The quarters have numerals. -/
instance neZeroQuarters : NeZero 4 := ⟨quarters_ne_zero⟩

def getQrectsFromQbounds (m : Midpoint D) (qbounds : Rectangle2D D) : Fin 4 → Rectangle2D D :=
  let medianLatitude := m.mid qbounds.edge0.latitude qbounds.edge1.latitude
  let medianLongitude := m.mid qbounds.edge0.longitude qbounds.edge1.longitude
  ![⟨⟨qbounds.edge0.latitude, medianLongitude⟩, ⟨medianLatitude, qbounds.edge1.longitude⟩⟩,
    ⟨⟨medianLatitude, medianLongitude⟩, qbounds.edge1⟩,
    ⟨qbounds.edge0, ⟨medianLatitude, medianLongitude⟩⟩,
    ⟨⟨medianLatitude, qbounds.edge0.longitude⟩, ⟨qbounds.edge1.latitude, medianLongitude⟩⟩]

/-- `position_is_in_rect`. -/
def positionIsInRect (position : Position2D D) (rect : Rectangle2D D) : Prop :=
  rect.edge0.latitude ≤ position.latitude ∧ rect.edge0.longitude ≤ position.longitude ∧
    position.latitude < rect.edge1.latitude ∧ position.longitude < rect.edge1.longitude

instance (position : Position2D D) (rect : Rectangle2D D) : Decidable (positionIsInRect position rect) :=
  inferInstanceAs (Decidable (_ ∧ _ ∧ _ ∧ _))

/-- The loop of `find_node_for_position` over the parts, the last one first. -/
def findPart (qrects : Fin 4 → Rectangle2D D) (position : Position2D D) : Option (Fin 4) :=
  [3, 2, 1, 0].find? (fun t => positionIsInRect position (qrects t))

/-- The edges of a rectangle are in order. -/
structure Rectangle2D.Ordered (rect : Rectangle2D D) : Prop where
  latitude : rect.edge0.latitude ≤ rect.edge1.latitude
  longitude : rect.edge0.longitude ≤ rect.edge1.longitude

theorem ordered_getQrects (m : Midpoint D) {rect : Rectangle2D D} (h : rect.Ordered) (t : Fin 4) :
    (getQrectsFromQbounds m rect t).Ordered := by
  have h1 := m.le_mid h.latitude
  have h2 := m.mid_le h.latitude
  have h3 := m.le_mid h.longitude
  have h4 := m.mid_le h.longitude
  match t with
  | 0 => exact ⟨h1, h4⟩
  | 1 => exact ⟨h2, h4⟩
  | 2 => exact ⟨h1, h3⟩
  | 3 => exact ⟨h2, h3⟩

/-- A quarter lies in the rectangle. -/
theorem isInRect_of_getQrects {m : Midpoint D} {rect : Rectangle2D D} (h : rect.Ordered) {t : Fin 4}
    {position : Position2D D} (ht : positionIsInRect position (getQrectsFromQbounds m rect t)) :
    positionIsInRect position rect := by
  have h1 := m.le_mid h.latitude
  have h2 := m.mid_le h.latitude
  have h3 := m.le_mid h.longitude
  have h4 := m.mid_le h.longitude
  obtain ⟨p1, p2, p3, p4⟩ := ht
  match t with
  | 0 => exact ⟨p1, h3.trans p2, p3.trans_le h2, p4⟩
  | 1 => exact ⟨h1.trans p1, h3.trans p2, p3, p4⟩
  | 2 => exact ⟨p1, p2, p3.trans_le h2, p4.trans_le h4⟩
  | 3 => exact ⟨h1.trans p1, p2, p3, p4.trans_le h4⟩

/-- **Two quarters share no position.** -/
theorem getQrects_disjoint {m : Midpoint D} {rect : Rectangle2D D} {t u : Fin 4} {position : Position2D D}
    (ht : positionIsInRect position (getQrectsFromQbounds m rect t))
    (hu : positionIsInRect position (getQrectsFromQbounds m rect u)) : t = u := by
  obtain ⟨p1, p2, p3, p4⟩ := ht
  obtain ⟨q1, q2, q3, q4⟩ := hu
  match t, u with
  | 0, 0 | 1, 1 | 2, 2 | 3, 3 => rfl
  | 0, 1 | 0, 3 | 2, 1 | 2, 3 => exact absurd p3 (not_lt.2 q1)
  | 1, 0 | 3, 0 | 1, 2 | 3, 2 => exact absurd q3 (not_lt.2 p1)
  | 0, 2 | 1, 3 => exact absurd q4 (not_lt.2 p2)
  | 2, 0 | 3, 1 => exact absurd p4 (not_lt.2 q2)

theorem exists_getQrects (m : Midpoint D) {rect : Rectangle2D D} {position : Position2D D}
    (h : positionIsInRect position rect) : ∃ t, positionIsInRect position (getQrectsFromQbounds m rect t) := by
  obtain ⟨p1, p2, p3, p4⟩ := h
  rcases lt_or_ge position.latitude (m.mid rect.edge0.latitude rect.edge1.latitude) with hlat | hlat
  · rcases lt_or_ge position.longitude (m.mid rect.edge0.longitude rect.edge1.longitude) with hlon | hlon
    · exact ⟨2, p1, p2, hlat, hlon⟩
    · exact ⟨0, p1, hlon, hlat, p4⟩
  · rcases lt_or_ge position.longitude (m.mid rect.edge0.longitude rect.edge1.longitude) with hlon | hlon
    · exact ⟨3, hlat, p2, p3, hlon⟩
    · exact ⟨1, hlat, hlon, p3, p4⟩

/-- **A position of a rectangle is in one of its quarters**, and that is the one found. -/
theorem findPart_spec (m : Midpoint D) {rect : Rectangle2D D} {position : Position2D D}
    (h : positionIsInRect position rect) : ∃ t, findPart (getQrectsFromQbounds m rect) position = some t ∧
      positionIsInRect position (getQrectsFromQbounds m rect t) := by
  obtain ⟨u, hu⟩ := exists_getQrects m h
  cases hf : findPart (getQrectsFromQbounds m rect) position with
  | none =>
    have hmem : ∀ u : Fin 4, u ∈ [(3 : Fin 4), 2, 1, 0] := by decide
    have hall := List.find?_eq_none.1 hf u (hmem u)
    exact absurd (decide_eq_true hu) hall
  | some t => exact ⟨t, rfl, by simpa using List.find?_some hf⟩

end Pincaster
