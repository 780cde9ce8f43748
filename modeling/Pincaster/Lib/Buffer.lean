import Pincaster.Lib.CString
/-!
# Buffer — checked accesses to an allocation of bytes

A read or a write outside the allocation has no result, and neither has the store of a 16-bit field whose value does
not fit it.  The lemmas read a buffer as what stands before the access, the bytes accessed and what stands after.
-/
namespace Lib

variable {p m q : Bytes}

/-- `memcpy` out of the buffer. -/
def readAt (m : Bytes) (off len : Nat) : Option Bytes :=
  if off + len ≤ m.length then some ((m.drop off).take len) else none

/-- `memcpy` into the buffer. -/
def writeAt (m : Bytes) (off : Nat) (data : Bytes) : Option Bytes :=
  if off + data.length ≤ m.length then some (m.take off ++ data ++ m.drop (off + data.length)) else none

/-- A field of two bytes, the high one first. -/
def get16 (m : Bytes) (off : Nat) : Option Nat := do
  let hi ← m[off]?
  let lo ← m[off + 1]?
  some (hi.toNat <<< 8 ||| lo.toNat)

def be16 (v : Nat) : Bytes := [UInt8.ofNat (v >>> 8), UInt8.ofNat (v &&& 0xff)]

def put16 (m : Bytes) (off v : Nat) : Option Bytes := if v ≤ 0xffff then writeAt m off (be16 v) else none

/-- `realloc`: the bytes both sizes have are kept. -/
def resize (m : Bytes) (size : Nat) : Bytes := m.take size ++ List.replicate (size - m.length) 0

@[simp] theorem length_be16 (v : Nat) : (be16 v).length = 2 := rfl

theorem readAt_mid {o n : Nat} (ho : o = p.length) (hn : n = m.length) :
    readAt (p ++ (m ++ q)) o n = some m := by
  subst ho hn
  rw [readAt, if_pos (by simp only [List.length_append]; omega), List.drop_left, List.take_left]

theorem writeAt_mid {o : Nat} (data : Bytes) (ho : o = p.length) (h : data.length = m.length) :
    writeAt (p ++ (m ++ q)) o data = some (p ++ (data ++ q)) := by
  subst ho
  rw [writeAt, if_pos (by simp only [List.length_append]; omega), List.take_left, ← List.drop_drop, List.drop_left,
    h, List.drop_left, List.append_assoc]

theorem get16_be16 {o : Nat} (v : Nat) (ho : o = p.length) (hv : v ≤ 0xffff) :
    get16 (p ++ (be16 v ++ q)) o = some v := by
  subst ho
  have h1 : (p ++ (be16 v ++ q))[p.length]? = some (UInt8.ofNat (v >>> 8)) := by simp [be16]
  have h2 : (p ++ (be16 v ++ q))[p.length + 1]? = some (UInt8.ofNat (v &&& 0xff)) := by
    rw [List.getElem?_append_right (by omega)]
    simp [be16]
  have hlo : v &&& 0xff = v % 256 := Nat.and_two_pow_sub_one_eq_mod v 8
  have hval : v >>> 8 <<< 8 ||| v % 256 = v := by
    rw [← Nat.shiftLeft_add_eq_or_of_lt (by omega), Nat.shiftLeft_eq, Nat.shiftRight_eq_div_pow]
    omega
  simp only [get16, h1, h2, Option.bind_eq_bind, Option.bind_some, UInt8.toNat_ofNat', Option.some.injEq, hlo]
  rw [Nat.mod_eq_of_lt (show v >>> 8 < 2 ^ 8 by rw [Nat.shiftRight_eq_div_pow]; omega),
    Nat.mod_eq_of_lt (show v % 256 < 2 ^ 8 by omega), hval]

theorem put16_mid {o : Nat} (v : Nat) (ho : o = p.length) (hv : v ≤ 0xffff) (h : m.length = 2) :
    put16 (p ++ (m ++ q)) o v = some (p ++ (be16 v ++ q)) := by
  rw [put16, if_pos hv, writeAt_mid _ ho (by simp [h])]

/-! ## What a write leaves -/

theorem writeAt_eq_some {m m' data : Bytes} {off : Nat} (h : writeAt m off data = some m') :
    off + data.length ≤ m.length ∧ m' = m.take off ++ data ++ m.drop (off + data.length) := by
  unfold writeAt at h
  split at h
  · rename_i hle
    cases h
    exact ⟨hle, rfl⟩
  · cases h

theorem length_writeAt {m m' data : Bytes} {off : Nat} (h : writeAt m off data = some m') : m'.length = m.length := by
  obtain ⟨hle, rfl⟩ := writeAt_eq_some h
  simp only [List.length_append, List.length_take, List.length_drop]
  omega

/-- What was written is read again. -/
theorem readAt_writeAt {m m' data : Bytes} {off : Nat} (h : writeAt m off data = some m') :
    readAt m' off data.length = some data := by
  obtain ⟨hle, rfl⟩ := writeAt_eq_some h
  rw [List.append_assoc]
  exact readAt_mid (by rw [List.length_take]; omega) rfl

/-- A read sees its own bytes only. -/
theorem readAt_congr {m m' : Bytes} {o n : Nat} (hlen : o + n ≤ m.length ↔ o + n ≤ m'.length)
    (h : ∀ i, o ≤ i → i < o + n → m'[i]? = m[i]?) : readAt m' o n = readAt m o n := by
  unfold readAt
  refine ite_congr (propext hlen.symm) (fun hin => congrArg some (List.ext_getElem? (fun i => ?_))) (fun _ => rfl)
  rw [List.getElem?_take, List.getElem?_take]
  split
  · rename_i hi
    rw [List.getElem?_drop, List.getElem?_drop]
    exact h (o + i) (by omega) (by omega)
  · rfl

theorem readAt_of_prefix {m m' : Bytes} {o n k : Nat} (h : m'.take k = m.take k) (hk : o + n ≤ k) (hm : o + n ≤ m.length)
    (hm' : o + n ≤ m'.length) : readAt m' o n = readAt m o n := by
  refine readAt_congr (iff_of_true hm hm') (fun i _ hi => ?_)
  have := congrArg (fun l => l[i]?) h
  simpa only [List.getElem?_take, if_pos (show i < k by omega)] using this

/-- What stands outside of a write is left as it is. -/
theorem readAt_writeAt_of_disjoint {m m' data : Bytes} {off o n : Nat} (h : writeAt m off data = some m')
    (hd : o + n ≤ off ∨ off + data.length ≤ o) : readAt m' o n = readAt m o n := by
  refine readAt_congr (by rw [length_writeAt h]) (fun i hlo hhi => ?_)
  obtain ⟨hle, rfl⟩ := writeAt_eq_some h
  have htake : (m.take off).length = off := by rw [List.length_take]; omega
  rcases hd with hd | hd
  · rw [List.append_assoc, List.getElem?_append_left (by omega), List.getElem?_take, if_pos (by omega)]
  · rw [List.getElem?_append_right (by rw [List.length_append]; omega), List.getElem?_drop, List.length_append, htake]
    congr 1
    omega

theorem resize_le {m m' : Bytes} {size : Nat} (hs : size = m.length) : resize (m ++ m') size = m := by
  subst hs
  rw [resize, List.take_left, Nat.sub_eq_zero_of_le (by simp), List.replicate_zero, List.append_nil]

theorem resize_ge {m : Bytes} {size : Nat} (h : m.length ≤ size) :
    resize m size = m ++ List.replicate (size - m.length) 0 := by
  rw [resize, List.take_of_length_le h]

end Lib
