import Pincaster.Lib.CString
/-!
# RecordStream — records of one size in a stream of bytes

The records go in whole and come out whole, however the stream is cut on its way.
-/
namespace Lib

/-! ## Numbers in memory -/

/-- The least significant byte first. -/
def leBytes : Nat → Nat → Bytes
  | 0, _ => []
  | k + 1, n => UInt8.ofNat n :: leBytes k (n / 256)

def leVal : Bytes → Nat
  | [] => 0
  | b :: bs => b.toNat + 256 * leVal bs

theorem length_leBytes : ∀ k n : Nat, (leBytes k n).length = k
  | 0, _ => rfl
  | k + 1, n => by rw [leBytes, List.length_cons, length_leBytes k]

theorem leVal_leBytes : ∀ k n : Nat, leVal (leBytes k n) = n % 256 ^ k
  | 0, n => by rw [pow_zero, Nat.mod_one, leBytes, leVal]
  | k + 1, n => by
    rw [leBytes, leVal, leVal_leBytes k, pow_succ']
    calc (UInt8.ofNat n).toNat + 256 * (n / 256 % 256 ^ k) = n % 256 + 256 * (n / 256 % 256 ^ k) := rfl
      _ = n % (256 * 256 ^ k) := (Nat.mod_mul).symm

/-! ## The stream -/

section
variable {α β : Type} {encode : α → List β} {size : Nat}

theorem length_records (hsize : ∀ a, (encode a).length = size) : ∀ as : List α,
    (as.flatMap encode).length = size * as.length
  | [] => rfl
  | a :: as => by
    rw [List.flatMap_cons, List.length_append, hsize, length_records hsize as, List.length_cons, Nat.mul_succ,
      Nat.add_comm]

/-- **One record of a stream**, which is whole in its front part. -/
theorem record_of_stream (hsize : ∀ a, (encode a).length = size) (hpos : 0 < size) {as : List α} {front back : List β}
    (h : front ++ back = as.flatMap encode) (hlen : size ≤ front.length) :
    ∃ a as', as = a :: as' ∧ front.take size = encode a ∧ front.drop size ++ back = as'.flatMap encode := by
  cases as with
  | nil =>
    rw [List.flatMap_nil, List.append_eq_nil_iff] at h
    rw [h.1, List.length_nil] at hlen
    omega
  | cons a as' =>
    rw [List.flatMap_cons] at h
    refine ⟨a, as', rfl, ?_, ?_⟩
    · calc front.take size = (front ++ back).take size := (List.take_append_of_le_length hlen).symm
        _ = encode a := by rw [h, ← hsize a, List.take_left]
    · calc front.drop size ++ back = (front ++ back).drop size := (List.drop_append_of_le_length hlen).symm
        _ = as'.flatMap encode := by rw [h, ← hsize a, List.drop_left]

/-- A stream that is shorter than a record has none. -/
theorem no_records (hsize : ∀ a, (encode a).length = size) {as : List α} {front : List β}
    (h : front = as.flatMap encode) (hlen : front.length < size) : as = [] := by
  rw [h, length_records hsize] at hlen
  refine List.length_eq_zero_iff.1 (Nat.eq_zero_of_not_pos (fun hpos => ?_))
  exact absurd hlen (Nat.not_lt.2 (Nat.le_mul_of_pos_right size hpos))

end

end Lib
