import Pincaster.SearchWrap
import Mathlib.Tactic.Linarith
import Mathlib.Tactic.Ring
/-!
# FlatDistance — the distance on a wrapped layer

`compute_square_distance` brings a difference above the half of an extent back by the extent, and leaves one below minus
the half as it is.  So the distance is that on the torus for half of the signs only (`square_distance_toroidal_iff`).
-/
namespace Pincaster

variable {D κ : Type} [Field D] [LinearOrder D] [IsStrictOrderedRing D]

/-! ## One axis -/

/-- The difference of two coordinates as it is corrected. -/
def wrappedDifference (edge0 edge1 d : D) : D := if d > edge1 then d - edge1 + edge0 else d

omit [IsStrictOrderedRing D] in
theorem wrappedDifference_eq_shift (h d : D) :
    ∃ i ∈ ([-1, 0, 1] : List Int), wrappedDifference (-h) h d = d + i * (2 * h) := by
  unfold wrappedDifference
  split
  · exact ⟨-1, by simp, by push_cast; ring⟩
  · exact ⟨0, by simp, by simp⟩

/-- **From minus the half of the extent on, no shift makes the difference smaller.** -/
theorem wrappedDifference_least {h d : D} (hpos : 0 < h) (hlo : -h ≤ d) {i : Int}
    (hi : i ∈ ([-1, 0, 1] : List Int)) : wrappedDifference (-h) h d ^ 2 ≤ (d + i * (2 * h)) ^ 2 := by
  simp only [List.mem_cons, List.not_mem_nil, or_false] at hi
  unfold wrappedDifference
  split
  · rename_i hover
    rcases hi with rfl | rfl | rfl <;> push_cast
    · nlinarith
    · nlinarith
    · nlinarith
  · rename_i hunder
    rcases hi with rfl | rfl | rfl <;> push_cast
    · nlinarith
    · nlinarith
    · nlinarith

/-- Below it the shift by one extent does. -/
theorem wrappedDifference_lt {h d : D} (hpos : 0 < h) (hlo : d < -h) :
    (d + (1 : Int) * (2 * h)) ^ 2 < wrappedDifference (-h) h d ^ 2 := by
  unfold wrappedDifference
  rw [if_neg (by linarith)]
  push_cast
  nlinarith

/-! ## Two axes -/

/-- The squares of the distances between the translates of two positions; `180` and `360` are the extents. -/
def TranslateSquare (p q : Position2D D) (square : D) : Prop :=
  ∃ i ∈ ([-1, 0, 1] : List Int), ∃ j ∈ ([-1, 0, 1] : List Int),
    square = (q.latitude - p.latitude + i * 180) ^ 2 + (q.longitude - p.longitude + j * 360) ^ 2

/-- **The distance on the torus**, by its square. -/
def ToroidalSquare (p q : Position2D D) (square : D) : Prop := IsLeast {x | TranslateSquare p q x} square

omit [IsStrictOrderedRing D] in
theorem computeSquareDistance_wrapped {env : SearchEnv D κ} (htype : env.layerType = .flatwrap)
    (hbounds : env.qbounds = worldBounds) (p q : Position2D D) : computeSquareDistance env p q =
      wrappedDifference (-90) 90 (q.latitude - p.latitude) ^ 2 +
        wrappedDifference (-180) 180 (q.longitude - p.longitude) ^ 2 := by
  unfold computeSquareDistance wrappedDifference
  rw [htype, hbounds, if_pos (by decide), worldBounds, sq, sq]

omit [LinearOrder D] [IsStrictOrderedRing D] in
/-- The translates of the positions the other way round. -/
theorem translateSquare_comm {p q : Position2D D} {x : D} (h : TranslateSquare p q x) : TranslateSquare q p x := by
  obtain ⟨i, hi, j, hj, rfl⟩ := h
  have hneg : ∀ {i : Int}, i ∈ ([-1, 0, 1] : List Int) → -i ∈ ([-1, 0, 1] : List Int) := by decide
  refine ⟨-i, hneg hi, -j, hneg hj, ?_⟩
  push_cast
  ring

omit [IsStrictOrderedRing D] in
theorem toroidalSquare_comm {p q : Position2D D} {x : D} : ToroidalSquare p q x ↔ ToroidalSquare q p x := by
  have hset : {x | TranslateSquare p q x} = {x | TranslateSquare q p x} :=
    Set.ext fun _ => ⟨translateSquare_comm, translateSquare_comm⟩
  rw [ToroidalSquare, ToroidalSquare, hset]

/-- **One way round** the distance is that on the torus from minus the halves of the extents on. -/
theorem toroidalSquare_iff {env : SearchEnv D κ} (htype : env.layerType = .flatwrap)
    (hbounds : env.qbounds = worldBounds) (p q : Position2D D) :
    ToroidalSquare p q (computeSquareDistance env p q) ↔
      -90 ≤ q.latitude - p.latitude ∧ -180 ≤ q.longitude - p.longitude := by
  rw [computeSquareDistance_wrapped htype hbounds]
  unfold ToroidalSquare TranslateSquare
  generalize q.latitude - p.latitude = dLatitude, q.longitude - p.longitude = dLongitude
  have hlat : (2 : D) * 90 = 180 := by norm_num
  have hlon : (2 : D) * 180 = 360 := by norm_num
  obtain ⟨i₀, hi₀, hshiftLat⟩ := wrappedDifference_eq_shift 90 dLatitude
  obtain ⟨j₀, hj₀, hshiftLon⟩ := wrappedDifference_eq_shift 180 dLongitude
  rw [hlat] at hshiftLat
  rw [hlon] at hshiftLon
  constructor
  · rintro ⟨-, hleast⟩
    constructor
    · by_contra hlo
      have hlt := wrappedDifference_lt (h := (90 : D)) (by norm_num) (not_le.1 hlo)
      have hle := hleast ⟨1, by decide, j₀, hj₀, rfl⟩
      rw [hlat] at hlt
      rw [← hshiftLon] at hle
      linarith
    · by_contra hlo
      have hlt := wrappedDifference_lt (h := (180 : D)) (by norm_num) (not_le.1 hlo)
      have hle := hleast ⟨i₀, hi₀, 1, by decide, rfl⟩
      rw [hlon] at hlt
      rw [← hshiftLat] at hle
      linarith
  · rintro ⟨hloLat, hloLon⟩
    refine ⟨⟨i₀, hi₀, j₀, hj₀, by rw [hshiftLat, hshiftLon]⟩, ?_⟩
    rintro _ ⟨i, hi, j, hj, rfl⟩
    have hleLat := wrappedDifference_least (by norm_num) hloLat hi
    have hleLon := wrappedDifference_least (by norm_num) hloLon hj
    rw [hlat] at hleLat
    rw [hlon] at hleLon
    exact add_le_add hleLat hleLon

/-- **The distance on a wrapped layer is the toroidal one** exactly when no difference, counted from the position passed
first, is below minus the half of its extent; it is so both ways round exactly when none is above the half either. -/
theorem square_distance_toroidal_iff {env : SearchEnv D κ} (htype : env.layerType = .flatwrap)
    (hbounds : env.qbounds = worldBounds) (p q : Position2D D) :
    (ToroidalSquare p q (computeSquareDistance env p q) ↔
      -90 ≤ q.latitude - p.latitude ∧ -180 ≤ q.longitude - p.longitude) ∧
    (ToroidalSquare p q (computeSquareDistance env p q) ∧
        computeSquareDistance env p q = computeSquareDistance env q p ↔
      |q.latitude - p.latitude| ≤ 90 ∧ |q.longitude - p.longitude| ≤ 180) := by
  refine ⟨toroidalSquare_iff htype hbounds p q, ?_⟩
  have hboth : ToroidalSquare p q (computeSquareDistance env p q) ∧
      computeSquareDistance env p q = computeSquareDistance env q p ↔
      ToroidalSquare p q (computeSquareDistance env p q) ∧ ToroidalSquare q p (computeSquareDistance env q p) := by
    refine and_congr_right fun h => ⟨fun heq => ?_, fun h' => ?_⟩
    · rw [← heq, toroidalSquare_comm]
      exact h
    · exact h.unique (toroidalSquare_comm.1 h')
  rw [hboth, toroidalSquare_iff htype hbounds, toroidalSquare_iff htype hbounds, abs_le, abs_le]
  constructor
  · rintro ⟨⟨hlat, hlon⟩, hlat', hlon'⟩
    exact ⟨⟨hlat, by linarith⟩, hlon, by linarith⟩
  · rintro ⟨⟨hlat, hlat'⟩, hlon, hlon'⟩
    exact ⟨⟨hlat, hlon⟩, by linarith, by linarith⟩

/-- Two positions on both sides of the poles, the northern one passed last. -/
theorem square_distance_toroidal_near :
    (ToroidalSquare ⟨-80, 0⟩ ⟨80, 10⟩ (computeSquareDistance (worldEnv .flatwrap) ⟨-80, 0⟩ ⟨80, 10⟩) ↔
      -90 ≤ (80 : ℚ) - -80 ∧ -180 ≤ (10 : ℚ) - 0) ∧
    (ToroidalSquare ⟨-80, 0⟩ ⟨80, 10⟩ (computeSquareDistance (worldEnv .flatwrap) ⟨-80, 0⟩ ⟨80, 10⟩) ∧
        computeSquareDistance (worldEnv .flatwrap) ⟨-80, 0⟩ ⟨80, 10⟩ =
          computeSquareDistance (worldEnv .flatwrap) ⟨80, 10⟩ ⟨-80, 0⟩ ↔
      |(80 : ℚ) - -80| ≤ 90 ∧ |(10 : ℚ) - 0| ≤ 180) :=
  square_distance_toroidal_iff rfl rfl ⟨-80, 0⟩ ⟨80, 10⟩

/-- **The same two positions, the northern one passed first**: 25700 where the torus has 500. -/
theorem square_distance_not_toroidal :
    positionIsInRect ⟨80, 10⟩ (worldBounds : Rectangle2D ℚ) ∧ positionIsInRect ⟨-80, 0⟩ (worldBounds : Rectangle2D ℚ) ∧
      computeSquareDistance (worldEnv .flatwrap) ⟨80, 10⟩ ⟨-80, 0⟩ = 25700 ∧
      computeSquareDistance (worldEnv .flatwrap) ⟨-80, 0⟩ ⟨80, 10⟩ = 500 ∧
      ¬ ToroidalSquare ⟨80, 10⟩ ⟨-80, 0⟩ (computeSquareDistance (worldEnv .flatwrap) ⟨80, 10⟩ ⟨-80, 0⟩) := by
  have hsquare : computeSquareDistance (worldEnv .flatwrap) ⟨80, 10⟩ ⟨-80, 0⟩ = 25700 := by decide +kernel
  refine ⟨by decide +kernel, by decide +kernel, hsquare, by decide +kernel, fun h => ?_⟩
  have hle := h.2 ⟨1, by decide, 0, by decide, rfl⟩
  rw [hsquare] at hle
  norm_num at hle

end Pincaster
