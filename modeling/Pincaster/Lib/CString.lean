import Mathlib.Algebra.Group.Int.Defs
import Mathlib.Algebra.Group.Nat.Defs
import Mathlib.Data.List.Basic
import Mathlib.Data.List.TakeWhile
import Mathlib.Data.Fintype.Basic
/-!
# CString — byte strings as the C library reads them

A C string is the bytes before its first NUL.  The functions here are those of `<string.h>`, `<stdlib.h>` and
`<stdio.h>` in the C locale; a read past the end of the list reads the terminating NUL.
-/
namespace Lib

abbrev Bytes := List UInt8

/-- The bytes of an ASCII string literal. -/
def bytes (s : String) : Bytes := s.toList.map (fun c => UInt8.ofNat c.toNat)

theorem forall_byte_iff {P : UInt8 → Prop} : (∀ c, P c) ↔ ∀ i : Fin 256, P (UInt8.ofFin i) :=
  ⟨fun h i => h _, fun h c => by simpa using h c.toFin⟩

instance decidableForallByte {P : UInt8 → Prop} [DecidablePred P] : Decidable (∀ c, P c) :=
  decidable_of_iff _ forall_byte_iff.symm

/-- What a `char *` to these bytes points to, up to the first NUL. -/
def cstr (s : Bytes) : Bytes := s.takeWhile (· ≠ 0)

theorem cstr_of_not_mem {s : Bytes} (h : (0 : UInt8) ∉ s) : cstr s = s := by
  refine List.takeWhile_eq_self_iff.2 (fun c hc => ?_)
  simp only [ne_eq, decide_eq_true_eq]
  rintro rfl
  exact h hc

theorem zero_not_mem_cstr (s : Bytes) : (0 : UInt8) ∉ cstr s := fun h => by
  simpa using List.mem_takeWhile_imp h

/-! ## `<ctype.h>` and comparisons -/

def isspace (c : UInt8) : Bool := c = 32 || (9 ≤ c && c ≤ 13)

/-- The value of a digit in some base up to 36. -/
def digitVal (c : UInt8) : Option Nat :=
  if 48 ≤ c ∧ c ≤ 57 then some (c.toNat - 48)
  else if 97 ≤ c ∧ c ≤ 122 then some (c.toNat - 87)
  else if 65 ≤ c ∧ c ≤ 90 then some (c.toNat - 55)
  else none

def isDigitOf (base : Nat) (c : UInt8) : Bool :=
  match digitVal c with
  | some d => d < base
  | none => false

def isxdigit (c : UInt8) : Bool := isDigitOf 16 c

def tolower (c : UInt8) : UInt8 := if 65 ≤ c ∧ c ≤ 90 then c + 32 else c

/-- `strcasecmp(s, t) == 0`. -/
def caseEq (s t : Bytes) : Bool := (cstr s).map tolower = (cstr t).map tolower

/-- `strncasecmp(s, t, n) == 0`. -/
def ncaseEq (s t : Bytes) (n : Nat) : Bool := (cstr (s.take n)).map tolower = (cstr (t.take n)).map tolower

/-- `strchr`: what stands before the first `c` of the string and what stands after it. -/
def strchr (s : Bytes) (c : UInt8) : Option (Bytes × Bytes) :=
  if c ∈ cstr s then some ((cstr s).takeWhile (· ≠ c), ((cstr s).dropWhile (· ≠ c)).tail) else none

/-! ## Numbers -/

/-- The value of the digits, most significant first. -/
def ofDigits (base : Nat) (ds : Bytes) : Nat := ds.foldl (fun n c => n * base + (digitVal c).getD 0) 0

/-- A leading `0x` is skipped in base 16 when a digit follows it. -/
def skipPrefix (base : Nat) : Bytes → Bytes
  | z :: x :: d :: s => if base = 16 ∧ z = 48 ∧ tolower x = 120 ∧ isxdigit d then d :: s else z :: x :: d :: s
  | s => s

/-- What `strtol` and `strtoul` read: whether there is a minus sign, the magnitude and what is left.  `none` when there
is no digit, and `endptr` is then the start. -/
def strtoDigits (base : Nat) (s : Bytes) : Option (Bool × Nat × Bytes) :=
  let s := s.dropWhile isspace
  let neg := s.head? = some 45
  let s := if s.head? = some 45 ∨ s.head? = some 43 then s.tail else s
  let s := skipPrefix base s
  let ds := s.takeWhile (isDigitOf base)
  if ds = [] then none else some (neg, ofDigits base ds, s.drop ds.length)

/-- `strtol`: the value saturates at the bounds of `long`. -/
def strtol (base : Nat) (s : Bytes) : Int × Bytes :=
  match strtoDigits base s with
  | none => (0, s)
  | some (neg, n, rest) =>
    (if neg then max (-(n : Int)) (-2 ^ 63) else min (n : Int) (2 ^ 63 - 1), rest)

/-- `strtoul`: a minus sign negates modulo `2^64`, a magnitude out of range gives `ULONG_MAX`. -/
def strtoul (base : Nat) (s : Bytes) : Nat × Bytes :=
  match strtoDigits base s with
  | none => (0, s)
  | some (neg, n, rest) =>
    (if 2 ^ 64 ≤ n then 2 ^ 64 - 1 else if neg then (2 ^ 64 - n) % 2 ^ 64 else n, rest)

/-- A lower case digit. -/
def digit (d : Nat) : UInt8 := if d < 10 then UInt8.ofNat (48 + d) else UInt8.ofNat (87 + d)

/-- `%lu`, `%x` and `%zx`; the first argument after the base bounds the number of digits. -/
def digitsOf (base : Nat) : Nat → Nat → Bytes
  | 0, _ => []
  | fuel + 1, n => if n < base then [digit n] else digitsOf base fuel (n / base) ++ [digit (n % base)]

def printNat (base n : Nat) : Bytes := digitsOf base (n + 1) n

/-- `%ld`. -/
def printInt (base : Nat) (n : Int) : Bytes := if n < 0 then 45 :: printNat base n.natAbs else printNat base n.natAbs

theorem digitVal_digit : ∀ d < 36, digitVal (digit d) = some d := by decide

theorem ofDigits_append (base : Nat) (ds : Bytes) (c : UInt8) :
    ofDigits base (ds ++ [c]) = ofDigits base ds * base + (digitVal c).getD 0 := by
  simp [ofDigits]

theorem ofDigits_digitsOf {base : Nat} (hb : 2 ≤ base) (hb' : base ≤ 36) : ∀ (fuel n : Nat), n < fuel →
    ofDigits base (digitsOf base fuel n) = n ∧ ∀ c ∈ digitsOf base fuel n, isDigitOf base c = true
  | 0, _, h => by omega
  | fuel + 1, n, h => by
    rw [digitsOf]
    split
    · rename_i hn
      have hd := digitVal_digit n (by omega)
      refine ⟨by simp [ofDigits, hd], fun c hc => ?_⟩
      rw [List.mem_singleton.1 hc]
      simp [isDigitOf, hd, hn]
    · have hlt : n / base < fuel := by
        have := Nat.div_lt_self (show 0 < n by omega) (show 1 < base by omega)
        omega
      obtain ⟨ih1, ih2⟩ := ofDigits_digitsOf hb hb' fuel (n / base) hlt
      have hmod := Nat.mod_lt n (show 0 < base by omega)
      have hd := digitVal_digit (n % base) (by omega)
      refine ⟨by rw [ofDigits_append, ih1, hd, Option.getD_some, Nat.div_add_mod'], fun c hc => ?_⟩
      rcases List.mem_append.1 hc with hc | hc
      · exact ih2 c hc
      · rw [List.mem_singleton.1 hc]
        simp [isDigitOf, hd, hmod]

/-- **A printed number is read back.** -/
theorem ofDigits_printNat {base : Nat} (hb : 2 ≤ base) (hb' : base ≤ 36) (n : Nat) :
    ofDigits base (printNat base n) = n :=
  (ofDigits_digitsOf hb hb' (n + 1) n (by omega)).1

theorem isDigitOf_printNat {base : Nat} (hb : 2 ≤ base) (hb' : base ≤ 36) (n : Nat) :
    ∀ c ∈ printNat base n, isDigitOf base c = true :=
  (ofDigits_digitsOf hb hb' (n + 1) n (by omega)).2

theorem length_digitsOf_le {base : Nat} (hb : 2 ≤ base) : ∀ (fuel k n : Nat), n < base ^ (k + 1) →
    (digitsOf base fuel n).length ≤ k + 1
  | 0, _, _, _ => by simp [digitsOf]
  | fuel + 1, k, n, hn => by
    rw [digitsOf]
    split
    · simp
    · rename_i hge
      cases k with
      | zero =>
        rw [Nat.zero_add, Nat.pow_one] at hn
        omega
      | succ k =>
        have hlt : n / base < base ^ (k + 1) := Nat.div_lt_of_lt_mul (by rwa [← Nat.pow_succ'])
        have := length_digitsOf_le hb fuel k (n / base) hlt
        simp only [List.length_append, List.length_singleton]
        omega

/-- How long a printed number is. -/
theorem length_printNat_le {base k n : Nat} (hb : 2 ≤ base) (hn : n < base ^ (k + 1)) :
    (printNat base n).length ≤ k + 1 := length_digitsOf_le hb (n + 1) k n hn

theorem printNat_ne_nil (base n : Nat) : printNat base n ≠ [] := by
  rw [printNat, digitsOf]
  split <;> simp

/-- A positive number is printed without a zero in front: its first digits have a value. -/
theorem ofDigits_prefix_pos {base : Nat} (hb : 2 ≤ base) (hb' : base ≤ 36) : ∀ {fuel n : Nat} {ds : Bytes}, n < fuel →
    0 < n → ds <+: digitsOf base fuel n → ds ≠ [] → 0 < ofDigits base ds
  | 0, _, _, h, _, _, _ => by omega
  | fuel + 1, n, ds, hf, hn, hp, hne => by
    have hwhole := (ofDigits_digitsOf hb hb' (fuel + 1) n hf).1
    rw [digitsOf] at hp hwhole
    by_cases hlt : n < base
    · rw [if_pos hlt] at hp hwhole
      rcases List.prefix_cons_iff.1 hp with rfl | ⟨t, rfl, ht⟩
      · exact absurd rfl hne
      · rw [List.prefix_nil.1 ht, hwhole]
        exact hn
    · rw [if_neg hlt] at hp hwhole
      rcases List.prefix_concat_iff.1 hp with rfl | hp
      · rw [hwhole]
        exact hn
      · have hdiv := Nat.div_lt_self hn (show 1 < base by omega)
        exact ofDigits_prefix_pos hb hb' (by omega) (Nat.div_pos (by omega) (by omega)) hp hne

/-- A digit is none of the characters `strtol` skips or stops at. -/
theorem isDigitOf_clean : ∀ base ≤ 33, ∀ c : UInt8, isDigitOf base c = true → isspace c = false ∧ c ≠ 45 ∧ c ≠ 43 ∧
    tolower c ≠ 120 ∧ c ≠ 0 := by decide +kernel

/-- **`strtol` reads digits up to the first character that is none.** -/
theorem strtoDigits_digits {base : Nat} (hb : base ≤ 33) {ds rest : Bytes} (hds : ∀ c ∈ ds, isDigitOf base c = true)
    (hne : ds ≠ []) (hrest : ∀ c ∈ rest.head?, isDigitOf base c = false ∧ tolower c ≠ 120) :
    strtoDigits base (ds ++ rest) = some (false, ofDigits base ds, rest) := by
  obtain ⟨d, ds, rfl⟩ := List.exists_cons_of_ne_nil hne
  obtain ⟨hspace, hminus, hplus, -, -⟩ := isDigitOf_clean base hb d (hds d (by simp))
  have hstart : skipPrefix base (d :: ds ++ rest) = d :: ds ++ rest := by
    rcases ds with _ | ⟨d₂, ds⟩
    · rcases rest with _ | ⟨c, rest⟩
      · rfl
      · have := (hrest c rfl).2
        rcases rest with _ | ⟨c₂, rest⟩
        · rfl
        · simp [skipPrefix, this]
    · have := (isDigitOf_clean base hb d₂ (hds d₂ (by simp))).2.2.2.1
      rcases hr : ds ++ rest with _ | ⟨c₂, rest'⟩
      · simp [hr, skipPrefix]
      · simp [hr, skipPrefix, this]
  have htake : (d :: ds ++ rest).takeWhile (isDigitOf base) = d :: ds := by
    rw [List.takeWhile_append_of_pos hds]
    rcases rest with _ | ⟨c, rest⟩
    · simp
    · simp [(hrest c rfl).1]
  have hdrop : (d :: ds ++ rest).dropWhile isspace = d :: ds ++ rest := by simp [hspace]
  have hsign : ¬ ((d :: ds ++ rest).head? = some 45 ∨ (d :: ds ++ rest).head? = some 43) := by simp [hminus, hplus]
  unfold strtoDigits
  simp only [hdrop]
  rw [if_neg hsign, hstart, htake, if_neg hne, List.drop_left]
  simp [hminus]

theorem strtoDigits_printNat {base : Nat} (hb : 2 ≤ base) (hb' : base ≤ 33) (n : Nat) {rest : Bytes}
    (hrest : ∀ c ∈ rest.head?, isDigitOf base c = false ∧ tolower c ≠ 120) :
    strtoDigits base (printNat base n ++ rest) = some (false, n, rest) := by
  rw [strtoDigits_digits hb' (isDigitOf_printNat hb (by omega) n) (printNat_ne_nil base n) hrest,
    ofDigits_printNat hb (by omega)]

theorem strtol_digits {base : Nat} (hb : base ≤ 33) {ds rest : Bytes} (hds : ∀ c ∈ ds, isDigitOf base c = true)
    (hne : ds ≠ []) (hrest : ∀ c ∈ rest.head?, isDigitOf base c = false ∧ tolower c ≠ 120) :
    strtol base (ds ++ rest) = (min (ofDigits base ds : Int) (2 ^ 63 - 1), rest) := by
  rw [strtol, strtoDigits_digits hb hds hne hrest]
  simp only [Bool.false_eq_true, if_false]

theorem strtol_printNat {base n : Nat} (hb : 2 ≤ base) (hb' : base ≤ 33) (hn : n < 2 ^ 63) {rest : Bytes}
    (hrest : ∀ c ∈ rest.head?, isDigitOf base c = false ∧ tolower c ≠ 120) :
    strtol base (printNat base n ++ rest) = ((n : Int), rest) := by
  rw [strtol, strtoDigits_printNat hb hb' n hrest]
  simp only [Bool.false_eq_true, if_false, Prod.mk.injEq, and_true]
  omega

theorem strtoul_printNat {base n : Nat} (hb : 2 ≤ base) (hb' : base ≤ 33) (hn : n < 2 ^ 64) {rest : Bytes}
    (hrest : ∀ c ∈ rest.head?, isDigitOf base c = false ∧ tolower c ≠ 120) :
    strtoul base (printNat base n ++ rest) = (n, rest) := by
  rw [strtoul, strtoDigits_printNat hb hb' n hrest]
  simp only [Bool.false_eq_true, if_false, if_neg (show ¬ 2 ^ 64 ≤ n by omega)]

/-- `%02x` of a byte. -/
def hex2 (c : UInt8) : Bytes := [digit (c.toNat / 16), digit (c.toNat % 16)]

/-- **Two hex digits of a byte are read back as the byte.** -/
theorem ofInt_strtol_hex2 : ∀ c : UInt8, UInt8.ofInt (strtol 16 (hex2 c)).1 = c := by decide +kernel

theorem digit_clean : ∀ d < 16, isxdigit (digit d) = true ∧ digit d ≠ 0 ∧ digit d ≠ 37 ∧ digit d ≠ 38 ∧
    digit d ≠ 43 ∧ digit d ≠ 61 := by decide +kernel

theorem mem_hex2 {c d : UInt8} (h : d ∈ hex2 c) : ∃ n < 16, d = digit n := by
  have hc := c.toNat_lt
  simp only [hex2, List.mem_cons, List.not_mem_nil, or_false] at h
  rcases h with rfl | rfl
  · exact ⟨c.toNat / 16, by omega, rfl⟩
  · exact ⟨c.toNat % 16, by omega, rfl⟩

/-- The digits of a byte are none of the characters a query or a URI gives a meaning to. -/
theorem hex2_clean {c d : UInt8} (h : d ∈ hex2 c) :
    isxdigit d = true ∧ d ≠ 0 ∧ d ≠ 37 ∧ d ≠ 38 ∧ d ≠ 43 ∧ d ≠ 61 := by
  obtain ⟨n, hn, rfl⟩ := mem_hex2 h
  exact digit_clean n hn

end Lib
