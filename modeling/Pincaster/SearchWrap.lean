import Pincaster.SearchLaws
/-!
# SearchWrap — rectangles of a wrapped layer

Where a rectangle overflows the bounds of a layer, `find_zones` adds what is left of it on the other side.  It does so for
the sides and not for the corners, and for a rectangle that lies wholly beyond a bound up to the other bound
(`find_in_rect_wrapped_iff`).
-/
namespace Pincaster

variable {D κ : Type} [Field D] [LinearOrder D] [IsStrictOrderedRing D]

/-! ## One axis -/

section
variable {lo hi edge0 edge1 x : D}

/-- A coordinate moved by some extents lies between two edges. -/
def Shifted (extent : D) (shifts : List Int) (edge0 edge1 x : D) : Prop :=
  ∃ i ∈ shifts, edge0 ≤ x + i * extent ∧ x + i * extent < edge1

/-- The interval on the other side of the bounds, as `find_zones` has it. -/
def wrapInterval (lo hi edge0 edge1 : D) : Option (D × D) :=
  if edge0 < lo then some (max (min hi edge1) (edge0 - lo + hi), hi)
  else if edge1 > hi then some (lo, min (max lo edge0) (edge1 + lo - hi))
  else none

def Wrapped (lo hi edge0 edge1 x : D) : Prop := ∃ i ∈ wrapInterval lo hi edge0 edge1, i.1 ≤ x ∧ x < i.2

/-- The edges lie wholly beyond a bound, and the coordinate beyond what is left of them on the other side. -/
def Overshoots (lo hi edge0 edge1 x : D) : Prop :=
  (edge1 < lo ∧ edge1 + (hi - lo) ≤ x) ∨ (hi < edge0 ∧ x < edge0 - (hi - lo))

theorem shifted_around {extent : D} : Shifted extent [-1, 1] edge0 edge1 x ↔
    (edge0 + extent ≤ x ∧ x < edge1 + extent) ∨ (edge0 - extent ≤ x ∧ x < edge1 - extent) := by
  have h1 : (((-1 : Int) : D)) = -1 := by norm_num
  have h2 : (((1 : Int) : D)) = 1 := by norm_num
  simp only [Shifted, List.mem_cons, List.not_mem_nil, or_false, exists_eq_or_imp, exists_eq_left, h1, h2]
  constructor
  · rintro (⟨ha, hb⟩ | ⟨ha, hb⟩)
    · exact .inl ⟨by linarith, by linarith⟩
    · exact .inr ⟨by linarith, by linarith⟩
  · rintro (⟨ha, hb⟩ | ⟨ha, hb⟩)
    · exact .inl ⟨by linarith, by linarith⟩
    · exact .inr ⟨by linarith, by linarith⟩

omit [IsStrictOrderedRing D] in
theorem shifted_all {extent : D} : Shifted extent [-1, 0, 1] edge0 edge1 x ↔
    (edge0 ≤ x ∧ x < edge1) ∨ Shifted extent [-1, 1] edge0 edge1 x := by
  have h0 : (((0 : Int) : D)) * extent = 0 := by norm_num
  simp only [Shifted, List.mem_cons, List.not_mem_nil, or_false, exists_eq_or_imp, exists_eq_left, h0, add_zero]
  tauto

/-- **What is left of two edges on the other side of the bounds** has the coordinates that are moved there, and, when the
edges lie wholly beyond a bound, those up to the other bound. -/
theorem wrapped_iff (he : edge0 ≤ edge1) (hside : edge1 - edge0 ≤ hi - lo) (hlo : lo ≤ x) (hhi : x < hi) :
    Wrapped lo hi edge0 edge1 x ↔ Shifted (hi - lo) [-1, 1] edge0 edge1 x ∨ Overshoots lo hi edge0 edge1 x := by
  rw [shifted_around, Wrapped, wrapInterval, Overshoots]
  by_cases hbelow : edge0 < lo
  · have hmin : min hi edge1 = edge1 := min_eq_right (by linarith)
    have hmax : max edge1 (edge0 - lo + hi) = edge0 - lo + hi := max_eq_right (by linarith)
    simp only [if_pos hbelow, Option.mem_def, Option.some.injEq, exists_eq_left', hmin, hmax]
    constructor
    · rintro ⟨hle, -⟩
      by_cases hlt : x < edge1 + (hi - lo)
      · exact .inl (.inl ⟨by linarith, hlt⟩)
      · exact .inr (.inl ⟨by linarith, not_lt.1 hlt⟩)
    · rintro ((⟨hle, -⟩ | ⟨-, hlt⟩) | ⟨-, hle⟩ | ⟨hlt, -⟩)
      · exact ⟨by linarith, hhi⟩
      · exact absurd hlt (by linarith)
      · exact ⟨by linarith, hhi⟩
      · exact absurd hlt (by linarith)
  · by_cases habove : edge1 > hi
    · have hmax : max lo edge0 = edge0 := max_eq_right (not_lt.1 hbelow)
      have hmin : min edge0 (edge1 + lo - hi) = edge1 + lo - hi := min_eq_right (by linarith)
      simp only [if_neg hbelow, if_pos habove, Option.mem_def, Option.some.injEq, exists_eq_left', hmin, hmax]
      constructor
      · rintro ⟨-, hlt⟩
        by_cases hle : edge0 - (hi - lo) ≤ x
        · exact .inl (.inr ⟨hle, by linarith⟩)
        · exact .inr (.inr ⟨by linarith, not_le.1 hle⟩)
      · rintro ((⟨hle, -⟩ | ⟨-, hlt⟩) | ⟨hlt, -⟩ | ⟨-, hlt⟩)
        · exact absurd hle (by linarith)
        · exact ⟨hlo, by linarith⟩
        · exact absurd hlt (by linarith)
        · exact ⟨hlo, by linarith⟩
    · simp only [if_neg hbelow, if_neg habove, Option.mem_def, reduceCtorEq, false_and, exists_false, false_iff]
      rintro ((⟨hle, -⟩ | ⟨-, hlt⟩) | ⟨hlt, -⟩ | ⟨hlt, -⟩) <;> linarith

/-- What is left on the other side is not between the edges. -/
theorem not_wrapped (he : edge0 ≤ edge1) (hside : edge1 - edge0 ≤ hi - lo) (hlo : lo ≤ x) (hhi : x < hi)
    (hin : edge0 ≤ x ∧ x < edge1) : ¬ Wrapped lo hi edge0 edge1 x := by
  obtain ⟨h0, h1⟩ := hin
  rw [wrapped_iff he hside hlo hhi, shifted_around, Overshoots]
  rintro ((⟨hle, -⟩ | ⟨-, hlt⟩) | ⟨hlt, -⟩ | ⟨hlt, -⟩) <;> linarith

/-- A coordinate that is moved between the edges lies where they end. -/
theorem not_overshoots (hshift : Shifted (hi - lo) [-1, 1] edge0 edge1 x) (hlo : lo ≤ x) (hhi : x < hi) :
    ¬ Overshoots lo hi edge0 edge1 x := by
  rw [shifted_around] at hshift
  rintro (⟨hlt, hle⟩ | ⟨hlt, hle⟩) <;> rcases hshift with ⟨h0, h1⟩ | ⟨h0, h1⟩ <;> linarith

end

/-! ## The zones of a rectangle -/

/-- The rectangle of two intervals. -/
def rectOf (latitudes longitudes : D × D) : Rectangle2D D :=
  ⟨⟨latitudes.1, longitudes.1⟩, ⟨latitudes.2, longitudes.2⟩⟩

/-- **The zones of a rectangle** that is not longer than the bounds: the part inside the bounds, what is left of it beyond a
bound of the latitudes, and what is left of it beyond a bound of the longitudes. -/
theorem findZones_perm {qbounds rect : Rectangle2D D}
    (hinside : qbounds.edge0.latitude * 2 ≤ rect.edge0.latitude ∧ qbounds.edge0.longitude * 2 ≤ rect.edge0.longitude ∧
      rect.edge1.latitude ≤ qbounds.edge1.latitude * 2 ∧ rect.edge1.longitude ≤ qbounds.edge1.longitude * 2)
    (hlatitude : rect.edge1.latitude - rect.edge0.latitude ≤ qbounds.edge1.latitude - qbounds.edge0.latitude)
    (hlongitude : rect.edge1.longitude - rect.edge0.longitude ≤ qbounds.edge1.longitude - qbounds.edge0.longitude) :
    (findZones qbounds rect).Perm (boundedRect qbounds rect ::
      ((wrapInterval qbounds.edge0.latitude qbounds.edge1.latitude rect.edge0.latitude rect.edge1.latitude).toList.map
          (fun i => rectOf i ((boundedRect qbounds rect).edge0.longitude, (boundedRect qbounds rect).edge1.longitude)) ++
        (wrapInterval qbounds.edge0.longitude qbounds.edge1.longitude rect.edge0.longitude
          rect.edge1.longitude).toList.map
          (fun i => rectOf ((boundedRect qbounds rect).edge0.latitude, (boundedRect qbounds rect).edge1.latitude) i))) := by
  obtain ⟨h1, h2, h3, h4⟩ := hinside
  have hclamped : clampedRect qbounds rect = rect := by
    rw [clampedRect, max_eq_right h1, max_eq_right h2, min_eq_right h3, min_eq_right h4]
  rw [findZones]
  simp only [hclamped, wrapInterval]
  by_cases hsouth : rect.edge0.latitude < qbounds.edge0.latitude
  · have hnorth : ¬ rect.edge1.latitude > qbounds.edge1.latitude := by linarith
    by_cases hwest : rect.edge0.longitude < qbounds.edge0.longitude
    · have heast : ¬ rect.edge1.longitude > qbounds.edge1.longitude := by linarith
      simp only [hsouth, hnorth, hwest, heast, if_true, if_false]
      exact .refl _
    · by_cases heast : rect.edge1.longitude > qbounds.edge1.longitude
      · simp only [hsouth, hnorth, hwest, heast, if_true, if_false]
        exact .refl _
      · simp only [hsouth, hnorth, hwest, heast, if_true, if_false]
        exact .refl _
  · by_cases hnorth : rect.edge1.latitude > qbounds.edge1.latitude
    · by_cases hwest : rect.edge0.longitude < qbounds.edge0.longitude
      · have heast : ¬ rect.edge1.longitude > qbounds.edge1.longitude := by linarith
        simp only [hsouth, hnorth, hwest, heast, if_true, if_false]
        exact .cons _ (.swap _ _ _)
      · by_cases heast : rect.edge1.longitude > qbounds.edge1.longitude
        · simp only [hsouth, hnorth, hwest, heast, if_true, if_false]
          exact .refl _
        · simp only [hsouth, hnorth, hwest, heast, if_true, if_false]
          exact .refl _
    · by_cases hwest : rect.edge0.longitude < qbounds.edge0.longitude
      · have heast : ¬ rect.edge1.longitude > qbounds.edge1.longitude := by linarith
        simp only [hsouth, hnorth, hwest, heast, if_true, if_false]
        exact .refl _
      · by_cases heast : rect.edge1.longitude > qbounds.edge1.longitude
        · simp only [hsouth, hnorth, hwest, heast, if_true, if_false]
          exact .refl _
        · simp only [hsouth, hnorth, hwest, heast, if_false]
          exact .refl _

omit [Field D] [IsStrictOrderedRing D] in
/-- A position lies between the edges on both axes. -/
theorem isInRect_iff {position : Position2D D} {rect : Rectangle2D D} : positionIsInRect position rect ↔
    (rect.edge0.latitude ≤ position.latitude ∧ position.latitude < rect.edge1.latitude) ∧
      rect.edge0.longitude ≤ position.longitude ∧ position.longitude < rect.edge1.longitude := by
  unfold positionIsInRect
  tauto

omit [Field D] [IsStrictOrderedRing D] in
theorem isInRect_bounded {qbounds rect : Rectangle2D D} {position : Position2D D} (h : positionIsInRect position qbounds) :
    positionIsInRect position (boundedRect qbounds rect) ↔ positionIsInRect position rect := by
  rw [isInRect_iff] at h ⊢
  rw [isInRect_iff, boundedRect]
  simp only [max_le_iff, lt_min_iff]
  tauto

/-- A rectangle that is not longer than the bounds and lies inside twice the bounds. -/
structure Wrappable (qbounds rect : Rectangle2D D) : Prop where
  ordered : rect.Ordered
  inside : qbounds.edge0.latitude * 2 ≤ rect.edge0.latitude ∧ qbounds.edge0.longitude * 2 ≤ rect.edge0.longitude ∧
    rect.edge1.latitude ≤ qbounds.edge1.latitude * 2 ∧ rect.edge1.longitude ≤ qbounds.edge1.longitude * 2
  latitude : rect.edge1.latitude - rect.edge0.latitude ≤ qbounds.edge1.latitude - qbounds.edge0.latitude
  longitude : rect.edge1.longitude - rect.edge0.longitude ≤ qbounds.edge1.longitude - qbounds.edge0.longitude

section
variable {qbounds rect : Rectangle2D D} {position : Position2D D}

/-- A latitude on the other side of the bounds. -/
def LatitudeWrapped (qbounds rect : Rectangle2D D) (position : Position2D D) : Prop :=
  Wrapped qbounds.edge0.latitude qbounds.edge1.latitude rect.edge0.latitude rect.edge1.latitude position.latitude

/-- A longitude on the other side of the bounds. -/
def LongitudeWrapped (qbounds rect : Rectangle2D D) (position : Position2D D) : Prop :=
  Wrapped qbounds.edge0.longitude qbounds.edge1.longitude rect.edge0.longitude rect.edge1.longitude position.longitude

/-- **The positions of the zones.** -/
theorem exists_zone_iff (h : Wrappable qbounds rect) (hin : positionIsInRect position qbounds) :
    (∃ zone ∈ findZones qbounds rect, positionIsInRect position zone) ↔
      positionIsInRect position rect ∨
      (LatitudeWrapped qbounds rect position ∧
        rect.edge0.longitude ≤ position.longitude ∧ position.longitude < rect.edge1.longitude) ∨
      ((rect.edge0.latitude ≤ position.latitude ∧ position.latitude < rect.edge1.latitude) ∧
        LongitudeWrapped qbounds rect position) := by
  have hbounds := isInRect_iff.1 hin
  simp only [(findZones_perm h.inside h.latitude h.longitude).mem_iff, List.mem_cons, List.mem_append, List.mem_map,
    Option.mem_toList, or_and_right, exists_or, exists_eq_left, exists_exists_and_eq_and, isInRect_bounded hin]
  refine or_congr_right (or_congr ?_ ?_)
  · simp only [isInRect_iff, rectOf, boundedRect, max_le_iff, lt_min_iff, LatitudeWrapped, Wrapped]
    constructor
    · rintro ⟨i, hi, hlat, ⟨-, h0⟩, -, h1⟩
      exact ⟨⟨i, hi, hlat⟩, h0, h1⟩
    · rintro ⟨⟨i, hi, hlat⟩, h0, h1⟩
      exact ⟨i, hi, hlat, ⟨hbounds.2.1, h0⟩, hbounds.2.2, h1⟩
  · simp only [isInRect_iff, rectOf, boundedRect, max_le_iff, lt_min_iff, LongitudeWrapped, Wrapped]
    constructor
    · rintro ⟨i, hi, ⟨⟨-, h0⟩, -, h1⟩, hlon⟩
      exact ⟨⟨h0, h1⟩, i, hi, hlon⟩
    · rintro ⟨⟨h0, h1⟩, i, hi, hlon⟩
      exact ⟨i, hi, ⟨⟨hbounds.1.1, h0⟩, hbounds.1.2, h1⟩, hlon⟩

/-- **No position of the bounds lies in two zones.** -/
theorem zones_disjoint (h : Wrappable qbounds rect) : (findZones qbounds rect).Pairwise (fun zone zone' =>
    ∀ position, positionIsInRect position qbounds → positionIsInRect position zone → ¬ positionIsInRect position zone') := by
  have hone : ∀ {α β : Type} (o : Option α) (f : α → β) (R : β → β → Prop), (o.toList.map f).Pairwise R := by
    intro α β o f R
    cases o <;> simp
  have hlat : ∀ i ∈ wrapInterval qbounds.edge0.latitude qbounds.edge1.latitude rect.edge0.latitude rect.edge1.latitude,
      ∀ p, positionIsInRect p qbounds → rect.edge0.latitude ≤ p.latitude ∧ p.latitude < rect.edge1.latitude →
        ¬ (i.1 ≤ p.latitude ∧ p.latitude < i.2) := by
    intro i hi p hp hin hin'
    obtain ⟨⟨h0, h1⟩, -⟩ := isInRect_iff.1 hp
    exact not_wrapped h.ordered.latitude h.latitude h0 h1 hin ⟨i, hi, hin'⟩
  have hlon : ∀ i ∈ wrapInterval qbounds.edge0.longitude qbounds.edge1.longitude rect.edge0.longitude
      rect.edge1.longitude, ∀ p, positionIsInRect p qbounds →
        rect.edge0.longitude ≤ p.longitude ∧ p.longitude < rect.edge1.longitude →
        ¬ (i.1 ≤ p.longitude ∧ p.longitude < i.2) := by
    intro i hi p hp hin hin'
    obtain ⟨-, h0, h1⟩ := isInRect_iff.1 hp
    exact not_wrapped h.ordered.longitude h.longitude h0 h1 hin ⟨i, hi, hin'⟩
  refine ((findZones_perm h.inside h.latitude h.longitude).pairwise_iff
    (fun hab p hp hb ha => hab p hp ha hb)).2 ?_
  refine List.pairwise_cons.2 ⟨fun zone hzone p hp hin hin' => ?_,
    List.pairwise_append.2 ⟨hone _ _ _, hone _ _ _, fun zone hzone zone' hzone' p hp hin hin' => ?_⟩⟩
  · obtain ⟨hB, hB'⟩ := isInRect_iff.1 ((isInRect_bounded hp).1 hin)
    rcases List.mem_append.1 hzone with hzone | hzone
    · obtain ⟨i, hi, rfl⟩ := List.mem_map.1 hzone
      exact hlat i (Option.mem_toList.1 hi) p hp hB (isInRect_iff.1 hin').1
    · obtain ⟨i, hi, rfl⟩ := List.mem_map.1 hzone
      exact hlon i (Option.mem_toList.1 hi) p hp hB' (isInRect_iff.1 hin').2
  · obtain ⟨i, hi, rfl⟩ := List.mem_map.1 hzone
    obtain ⟨i', -, rfl⟩ := List.mem_map.1 hzone'
    obtain ⟨h0, h1⟩ := (isInRect_iff.1 hin').1
    exact hlat i (Option.mem_toList.1 hi) p hp ⟨(max_le_iff.1 h0).2, (lt_min_iff.1 h1).2⟩ (isInRect_iff.1 hin).1

end

/-! ## The law -/

/-- A position moved by some numbers of extents lies in a rectangle. -/
def HasTranslate (latitudes longitudes : List Int) (rect : Rectangle2D D) (position : Position2D D) : Prop :=
  ∃ i ∈ latitudes, ∃ j ∈ longitudes,
    positionIsInRect ⟨position.latitude + i * 180, position.longitude + j * 360⟩ rect

instance (latitudes longitudes : List Int) (rect : Rectangle2D D) (position : Position2D D) :
    Decidable (HasTranslate latitudes longitudes rect position) :=
  inferInstanceAs (Decidable (∃ i ∈ latitudes, ∃ j ∈ longitudes,
    positionIsInRect ⟨position.latitude + i * 180, position.longitude + j * 360⟩ rect))

omit [IsStrictOrderedRing D] in
theorem hasTranslate_iff {latitudes longitudes : List Int} {rect : Rectangle2D D} {position : Position2D D} :
    HasTranslate latitudes longitudes rect position ↔
      Shifted 180 latitudes rect.edge0.latitude rect.edge1.latitude position.latitude ∧
        Shifted 360 longitudes rect.edge0.longitude rect.edge1.longitude position.longitude := by
  simp only [HasTranslate, Shifted, isInRect_iff]
  constructor
  · rintro ⟨i, hi, j, hj, hlat, hlon⟩
    exact ⟨⟨i, hi, hlat⟩, j, hj, hlon⟩
  · rintro ⟨⟨i, hi, hlat⟩, j, hj, hlon⟩
    exact ⟨i, hi, j, hj, hlat, hlon⟩

/-- The bounds of every layer. -/
def worldBounds : Rectangle2D D := ⟨⟨-90, -180⟩, ⟨90, 180⟩⟩

/-- What `find_zones` has instead of a translate: a position beyond what is left of a rectangle that lies wholly beyond a
bound. -/
def Beyond (rect : Rectangle2D D) (position : Position2D D) : Prop :=
  (Overshoots (-90) 90 rect.edge0.latitude rect.edge1.latitude position.latitude ∧
    rect.edge0.longitude ≤ position.longitude ∧ position.longitude < rect.edge1.longitude) ∨
  ((rect.edge0.latitude ≤ position.latitude ∧ position.latitude < rect.edge1.latitude) ∧
    Overshoots (-180) 180 rect.edge0.longitude rect.edge1.longitude position.longitude)

instance (rect : Rectangle2D D) (position : Position2D D) : Decidable (Beyond rect position) :=
  inferInstanceAs (Decidable (((_ ∧ _) ∨ (_ ∧ _)) ∧ _ ∧ _ ∨ _ ∧ ((_ ∧ _) ∨ (_ ∧ _))))

/-- Inside `b`, on the other side `w`, of which `s` are translates and `o` lie beyond. -/
theorem covered_iff {bLat bLon sLat sLon oLat oLon wLat wLon : Prop} (hwLat : wLat ↔ sLat ∨ oLat)
    (hwLon : wLon ↔ sLon ∨ oLon) (hbLat : bLat → ¬ wLat) (hbLon : bLon → ¬ wLon) (hsLat : sLat → ¬ oLat)
    (hsLon : sLon → ¬ oLon) :
    ((bLat ∧ bLon ∨ wLat ∧ bLon ∨ bLat ∧ wLon) ↔ (bLat ∨ sLat) ∧ (bLon ∨ sLon)) ↔
      ¬ (sLat ∧ sLon) ∧ ¬ (oLat ∧ bLon ∨ bLat ∧ oLon) := by
  grind

/-- **A position of the zones** has a translate in the rectangle, not around a corner, or lies beyond. -/
theorem exists_zone_worldBounds {rect : Rectangle2D D} (h : Wrappable worldBounds rect) {position : Position2D D}
    (hin : positionIsInRect position worldBounds) :
    ((∃ zone ∈ findZones worldBounds rect, positionIsInRect position zone) ↔
      HasTranslate [-1, 0, 1] [-1, 0, 1] rect position) ↔
      ¬ HasTranslate [-1, 1] [-1, 1] rect position ∧ ¬ Beyond rect position := by
  obtain ⟨⟨h0, h1⟩, h2, h3⟩ := isInRect_iff.1 hin
  have hlat : (90 : D) - -90 = 180 := by norm_num
  have hlon : (180 : D) - -180 = 360 := by norm_num
  have hwrapLat := wrapped_iff h.ordered.latitude h.latitude h0 h1
  have hwrapLon := wrapped_iff h.ordered.longitude h.longitude h2 h3
  have hnotLat := fun hin => not_wrapped h.ordered.latitude h.latitude h0 h1 hin
  have hnotLon := fun hin => not_wrapped h.ordered.longitude h.longitude h2 h3 hin
  have hoverLat : Shifted _ _ rect.edge0.latitude rect.edge1.latitude _ → _ := fun hs => not_overshoots hs h0 h1
  have hoverLon : Shifted _ _ rect.edge0.longitude rect.edge1.longitude _ → _ := fun hs => not_overshoots hs h2 h3
  rw [exists_zone_iff h hin, hasTranslate_iff, hasTranslate_iff, shifted_all, shifted_all, Beyond, LatitudeWrapped,
    LongitudeWrapped, isInRect_iff]
  simp only [worldBounds, hlat, hlon] at hwrapLat hwrapLon hnotLat hnotLon hoverLat hoverLon ⊢
  exact covered_iff hwrapLat hwrapLon hnotLat hnotLon hoverLat hoverLon

variable [DecidableEq κ] {env : SearchEnv D κ} {db : PanDB D κ}

/-- **A rectangle search on a wrapped layer** reports every slot that has a translate in the rectangle, once, exactly when
the stack has room in every zone, no slot is only translated around a corner, and none lies beyond. -/
theorem find_in_rect_wrapped_iff (hr : (panDbSystem env.toPanDbEnv).Reachable db) (hwrap : env.layerType = .flatwrap)
    (hbounds : env.qbounds = worldBounds) {rect : Rectangle2D D} (hrect : Wrappable worldBounds rect) {limit : Nat}
    (hlimit : (storedKeys db).ncard < limit) (clusterCb : List κ → Position2D D → Meters D → Nat → Option Int × List κ)
    {epsilon : D} (hepsilon : epsilon ≤ 0) :
    ((findInRect env db logCb clusterCb [] rect limit epsilon).1 = some 0 ∧
      (findInRect env db logCb clusterCb [] rect limit epsilon).2.Nodup ∧
      ∀ k, k ∈ (findInRect env db logCb clusterCb [] rect limit epsilon).2 ↔ ∃ position, db.position k = some position ∧
        HasTranslate [-1, 0, 1] [-1, 0, 1] rect position) ↔
    (∀ zone ∈ findZones worldBounds rect, zoneFits env db zone = true) ∧
      ∀ k position, db.position k = some position →
        ¬ HasTranslate [-1, 1] [-1, 1] rect position ∧ ¬ Beyond rect position := by
  obtain ⟨pos, cell, h⟩ := panDb_reachable_stable hr
  have hkeys := fun zone => rectKeys_spec h zone
  have hin : ∀ k p, db.position k = some p → positionIsInRect p worldBounds := fun k p hp =>
    hbounds ▸ isInRect_qbounds h hp
  have hzones : inRectZones env rect = findZones worldBounds rect := by
    rw [inRectZones, if_neg (by rw [hwrap]; decide), hbounds]
    simp only [not_lt.2 hrect.ordered.latitude, not_lt.2 hrect.ordered.longitude, if_false]
  have hstops : ∀ zone, decide (limit < (rectKeys env db zone).length) = false := fun zone => by
    have hle := length_le_ncard h (hkeys zone).nodup (fun k hk => by
      obtain ⟨p, hp, -⟩ := (hkeys zone).sound k hk
      exact mem_storedKeys hp)
    exact decide_eq_false (by omega)
  have hpass : ∀ n, decide (limit < n) = false → n ≤ limit := fun n hn => not_lt.1 (of_decide_eq_false hn)
  rw [findInRect_eq (ascending_of_stable h) clusterCb rect (by omega) hepsilon, hzones, zonesResult_ret]
  simp only [hstops, and_true]
  refine and_congr_right (fun hfits => ?_)
  rw [zonesResult_all hpass (fun zone hzone => ⟨hfits zone hzone, hstops zone⟩)]
  have hmem : ∀ k, k ∈ (findZones worldBounds rect).flatMap (rectKeys env db) ↔ ∃ p, db.position k = some p ∧
      ∃ zone ∈ findZones worldBounds rect, positionIsInRect p zone := by
    intro k
    rw [List.mem_flatMap]
    constructor
    · rintro ⟨zone, hzone, hk⟩
      obtain ⟨p, hp, hpin⟩ := (hkeys zone).sound k hk
      exact ⟨p, hp, zone, hzone, hpin⟩
    · rintro ⟨p, hp, zone, hzone, hpin⟩
      exact ⟨zone, hzone, (hkeys zone).all (hfits zone hzone) k ⟨p, hp, hpin⟩⟩
  have hnodup : ((findZones worldBounds rect).flatMap (rectKeys env db)).Nodup := by
    refine List.nodup_flatMap.2 ⟨fun zone _ => (hkeys zone).nodup, (zones_disjoint hrect).imp (fun hdisjoint k hk hk' => ?_)⟩
    obtain ⟨p, hp, hpin⟩ := (hkeys _).sound k hk
    obtain ⟨p', hp', hpin'⟩ := (hkeys _).sound k hk'
    rw [hp, Option.some.injEq] at hp'
    exact hdisjoint p (hin k p hp) hpin (hp' ▸ hpin')
  rw [and_iff_right hnodup]
  constructor
  · intro hall k p hp
    refine (exists_zone_worldBounds hrect (hin k p hp)).1 ⟨fun hzone => ?_, fun htranslate => ?_⟩
    · obtain ⟨p', hp', htranslate⟩ := (hall k).1 ((hmem k).2 ⟨p, hp, hzone⟩)
      rw [hp, Option.some.injEq] at hp'
      exact hp' ▸ htranslate
    · obtain ⟨p', hp', hzone⟩ := (hmem k).1 ((hall k).2 ⟨p, hp, htranslate⟩)
      rw [hp, Option.some.injEq] at hp'
      exact hp' ▸ hzone
  · intro hall k
    rw [hmem]
    exact exists_congr (fun p => and_congr_right (fun hp =>
      (exists_zone_worldBounds hrect (hin k p hp)).2 (hall k p hp)))

/-- A slot is found on the other side of the pole. -/
theorem find_in_rect_wrapped_found : ∃ db, (panDbSystem (worldEnv .flatwrap).toPanDbEnv).Reachable db ∧
    ∀ k, k ∈ (findInRect (worldEnv .flatwrap) db logCb (fun log _ _ _ => (some 0, log)) [] ⟨⟨80, -10⟩, ⟨110, 10⟩⟩ 2 (-1)).2 ↔
      ∃ position, db.position k = some position ∧
        HasTranslate [-1, 0, 1] [-1, 0, 1] ⟨⟨80, -10⟩, ⟨110, 10⟩⟩ position := by
  obtain ⟨db, hr, hp⟩ := reached_of_exec .flatwrap [.addSlot 0 ⟨-80, 0⟩] (fun db =>
    (findZones worldBounds ⟨⟨80, -10⟩, ⟨110, 10⟩⟩).all (zoneFits (worldEnv .flatwrap) db) &&
      (db.position 0).any (fun p => p.latitude = -80 && p.longitude = 0) &&
      (db.quadNode db.root).any (fun q => q.subSlots = 1)) (by decide +kernel)
  obtain ⟨pos, cell, h⟩ := panDb_reachable_stable hr
  simp only [Bool.and_eq_true, List.all_eq_true] at hp
  obtain ⟨⟨hfits, hpos⟩, hroot⟩ := hp
  obtain ⟨⟨latitude, longitude⟩, hpos, hat⟩ := (Option.any_eq_true _ _).1 hpos
  obtain ⟨q, hq, hone⟩ := (Option.any_eq_true _ _).1 hroot
  simp only [Bool.and_eq_true, decide_eq_true_eq] at hat hone
  obtain ⟨rfl, rfl⟩ := hat
  have hrect : Wrappable worldBounds (⟨⟨80, -10⟩, ⟨110, 10⟩⟩ : Rectangle2D ℚ) :=
    ⟨⟨by decide +kernel, by decide +kernel⟩, by decide +kernel, by decide +kernel, by decide +kernel⟩
  have hcard : (storedKeys db).ncard < 2 := by
    rw [ncard_storedKeys h hq, hone]
    decide
  refine ⟨db, hr, ((find_in_rect_wrapped_iff hr rfl rfl hrect hcard (fun log _ _ _ => (some 0, log))
    (show (-1 : ℚ) ≤ 0 by norm_num)).2 ⟨hfits, fun k p hk => ?_⟩).2.2⟩
  rw [position_of_single h hq hone hpos hk]
  exact ⟨by decide +kernel, by decide +kernel⟩

/-- **A slot around the corner is missed**: it is at (95, 185), which is (-85, -175). -/
theorem find_in_rect_wrapped_missed : Wrappable worldBounds (⟨⟨80, 170⟩, ⟨100, 190⟩⟩ : Rectangle2D ℚ) ∧
    ∃ db, (panDbSystem (worldEnv .flatwrap).toPanDbEnv).Reachable db ∧ (storedKeys db).ncard < 2 ∧
      (∃ position, db.position 0 = some position ∧
        HasTranslate [-1, 0, 1] [-1, 0, 1] ⟨⟨80, 170⟩, ⟨100, 190⟩⟩ position) ∧
      findInRect (worldEnv .flatwrap) db logCb (fun log _ _ _ => (some 0, log)) [] ⟨⟨80, 170⟩, ⟨100, 190⟩⟩ 2 (-1) =
        (some 0, []) := by
  refine ⟨⟨⟨by decide +kernel, by decide +kernel⟩, by decide +kernel, by decide +kernel, by decide +kernel⟩, ?_⟩
  obtain ⟨db, hr, hp⟩ := reached_of_exec .flatwrap [.addSlot 0 ⟨-85, -175⟩] (fun db =>
    (findInRect (worldEnv .flatwrap) db logCb (fun log _ _ _ => (some 0, log)) [] ⟨⟨80, 170⟩, ⟨100, 190⟩⟩ 2 (-1) =
        (some 0, [])) &&
      (db.position 0).any (fun p => HasTranslate [-1, 0, 1] [-1, 0, 1] ⟨⟨80, 170⟩, ⟨100, 190⟩⟩ p) &&
      (db.quadNode db.root).any (fun q => q.subSlots = 1)) (by decide +kernel)
  obtain ⟨pos, cell, h⟩ := panDb_reachable_stable hr
  simp only [Bool.and_eq_true, decide_eq_true_eq] at hp
  obtain ⟨⟨hrun, hpos⟩, hroot⟩ := hp
  obtain ⟨p, hpos, htranslate⟩ := (Option.any_eq_true _ _).1 hpos
  obtain ⟨q, hq, hone⟩ := (Option.any_eq_true _ _).1 hroot
  refine ⟨db, hr, ?_, ⟨p, hpos, of_decide_eq_true htranslate⟩, hrun⟩
  rw [ncard_storedKeys h hq, of_decide_eq_true hone]
  decide

end Pincaster
