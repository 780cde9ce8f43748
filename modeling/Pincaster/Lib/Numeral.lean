import Pincaster.Lib.CString
/-!
# Numeral — decimal texts of integers

A numeral is digits with a sign in front of them or none.  `strtol` reads the whole of it, and its value saturates at the
bounds of `long`.
-/
namespace Lib

/-- The digits of a text and the integer it names. -/
def Numeral (text : Bytes) (n : Int) : Prop :=
  ∃ ds : Bytes, ds ≠ [] ∧ (∀ c ∈ ds, isDigitOf 10 c = true) ∧
    ((text = ds ∨ text = 43 :: ds) ∧ n = ofDigits 10 ds ∨ text = 45 :: ds ∧ n = -(ofDigits 10 ds : Int))

/-- `intmax_t`, which is as wide as `long`. -/
def IsIntmax (n : Int) : Prop := -2 ^ 63 ≤ n ∧ n < 2 ^ 63

instance (n : Int) : Decidable (IsIntmax n) := inferInstanceAs (Decidable (_ ∧ _))

/-- The integer of `intmax_t` next to `n`: `n` itself when it is one. -/
def saturate (n : Int) : Int := max (-2 ^ 63) (min n (2 ^ 63 - 1))

theorem saturate_of_isIntmax {n : Int} (h : IsIntmax n) : saturate n = n := by
  obtain ⟨hlo, hhi⟩ := h
  unfold saturate
  omega

theorem skipPrefix_digits {base : Nat} (hb : base ≤ 33) {ds : Bytes} (hds : ∀ c ∈ ds, isDigitOf base c = true) :
    skipPrefix base ds = ds := by
  rcases ds with _ | ⟨z, _ | ⟨x, _ | ⟨d, ds⟩⟩⟩
  · rfl
  · rfl
  · rfl
  · have hx := (isDigitOf_clean base hb x (hds x (by simp))).2.2.2.1
    simp [skipPrefix, hx]

/-- **A sign in front of the digits** is read with them. -/
theorem strtoDigits_sign {base : Nat} (hb : base ≤ 33) {c : UInt8} (hc : c = 45 ∨ c = 43) {ds : Bytes}
    (hds : ∀ c ∈ ds, isDigitOf base c = true) (hne : ds ≠ []) :
    strtoDigits base (c :: ds) = some (decide (c = 45), ofDigits base ds, []) := by
  have hspace : isspace c = false := by rcases hc with rfl | rfl <;> decide
  have hsign : (c :: ds).head? = some 45 ∨ (c :: ds).head? = some 43 := by simpa using hc
  have hdrop : (c :: ds).dropWhile isspace = c :: ds := by simp [hspace]
  unfold strtoDigits
  simp only [hdrop]
  rw [if_pos hsign, List.tail_cons, skipPrefix_digits hb hds, List.takeWhile_eq_self_iff.2 hds, if_neg hne]
  simp

theorem strtol_numeral {text : Bytes} {n : Int} (h : Numeral text n) : strtol 10 text = (saturate n, []) := by
  obtain ⟨ds, hne, hds, ⟨rfl | rfl, rfl⟩ | ⟨rfl, rfl⟩⟩ := h
  · have hread : strtol 10 (text ++ []) = (min (ofDigits 10 text : Int) (2 ^ 63 - 1), []) :=
      strtol_digits (by omega) hds hne (by simp)
    rw [List.append_nil] at hread
    rw [hread, Prod.mk.injEq]
    exact ⟨by unfold saturate; omega, rfl⟩
  · rw [strtol, strtoDigits_sign (by omega) (.inr rfl) hds hne]
    simp only [show decide ((43 : UInt8) = 45) = false by decide, Bool.false_eq_true, if_false, Prod.mk.injEq, and_true]
    unfold saturate
    omega
  · rw [strtol, strtoDigits_sign (by omega) (.inl rfl) hds hne]
    simp only [decide_true, if_true, Prod.mk.injEq, and_true]
    unfold saturate
    omega

theorem numeral_printInt (n : Int) : Numeral (printInt 10 n) n := by
  refine ⟨printNat 10 n.natAbs, printNat_ne_nil 10 _, isDigitOf_printNat (by omega) (by omega) _, ?_⟩
  rw [ofDigits_printNat (by omega) (by omega), printInt]
  by_cases hn : n < 0
  · rw [if_pos hn]
    exact .inr ⟨rfl, by omega⟩
  · rw [if_neg hn]
    exact .inl ⟨.inl rfl, by omega⟩

theorem length_printInt_le {n : Int} (h : IsIntmax n) : (printInt 10 n).length ≤ 20 := by
  obtain ⟨hlo, hhi⟩ := h
  have hlen : (printNat 10 n.natAbs).length ≤ 18 + 1 := length_printNat_le (by omega) (by omega)
  unfold printInt
  split
  · rw [List.length_cons]
    omega
  · omega

theorem Numeral.ne_nil {text : Bytes} {n : Int} (h : Numeral text n) : text ≠ [] := by
  obtain ⟨ds, hne, _, ⟨rfl | rfl, _⟩ | ⟨rfl, _⟩⟩ := h
  · exact hne
  · simp
  · simp

theorem Numeral.head_ne_zero {text : Bytes} {n : Int} (h : Numeral text n) : text.head? ≠ some 0 := by
  obtain ⟨ds, hne, hds, ⟨rfl | rfl, _⟩ | ⟨rfl, _⟩⟩ := h
  · obtain ⟨d, ds, rfl⟩ := List.exists_cons_of_ne_nil hne
    rw [List.head?_cons, Ne, Option.some.injEq]
    exact (isDigitOf_clean 10 (by omega) d (hds d (by simp))).2.2.2.2
  · simp
  · simp

/-- **A text is the numeral of one integer.** -/
theorem Numeral.unique {text : Bytes} {n m : Int} (hn : Numeral text n) (hm : Numeral text m) : n = m := by
  have hsign : ∀ ds : Bytes, (∀ c ∈ ds, isDigitOf 10 c = true) → ∀ c t, ds = c :: t → c ≠ 43 ∧ c ≠ 45 := by
    rintro ds hds c t rfl
    have hc := hds c List.mem_cons_self
    constructor <;> rintro rfl <;> exact absurd hc (by decide)
  obtain ⟨ds, -, hds, ⟨rfl | rfl, rfl⟩ | ⟨rfl, rfl⟩⟩ := hn
  · obtain ⟨ds', -, hds', ⟨h | h, rfl⟩ | ⟨h, rfl⟩⟩ := hm
    · rw [h]
    · exact absurd rfl (hsign _ hds _ _ h).1
    · exact absurd rfl (hsign _ hds _ _ h).2
  · obtain ⟨ds', -, hds', ⟨h | h, rfl⟩ | ⟨h, rfl⟩⟩ := hm
    · exact absurd rfl (hsign _ hds' _ _ h.symm).1
    · rw [(List.cons.inj h).2]
    · cases h
  · obtain ⟨ds', -, hds', ⟨h | h, rfl⟩ | ⟨h, rfl⟩⟩ := hm
    · exact absurd rfl (hsign _ hds' _ _ h.symm).2
    · cases h
    · rw [(List.cons.inj h).2]

end Lib
