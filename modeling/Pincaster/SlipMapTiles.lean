import Pincaster.SlipMap
import Mathlib.Data.List.Nodup
import Mathlib.Data.List.Perm.Basic
/-!
# SlipMapTiles — the slots of a slip map

A map is read as the list of its slots, each with the bytes of its key, of its value and of its free space.  Every
access of `slipmap.c` to a slot has its lemma here, at the offset where the slots before it end.
-/
namespace Pincaster

open Lib (Bytes readAt writeAt get16 put16 resize be16)

structure Tile where
  key : Bytes
  value : Bytes
  free : Bytes

namespace Tile

def body (t : Tile) : Bytes := t.key ++ (t.value ++ t.free)

def bytes (t : Tile) : Bytes := be16 t.free.length ++ (be16 t.key.length ++ (be16 t.value.length ++ t.body))

@[simp] theorem length_bytes (t : Tile) :
    t.bytes.length = 6 + t.key.length + t.value.length + t.free.length := by
  simp only [bytes, body, List.length_append, Lib.length_be16]
  omega

end Tile

def tilesBytes (ts : List Tile) : Bytes := ts.flatMap Tile.bytes

@[simp] theorem tilesBytes_nil : tilesBytes [] = [] := rfl

@[simp] theorem tilesBytes_cons (t : Tile) (ts : List Tile) : tilesBytes (t :: ts) = t.bytes ++ tilesBytes ts := rfl

@[simp] theorem tilesBytes_append (ts us : List Tile) : tilesBytes (ts ++ us) = tilesBytes ts ++ tilesBytes us :=
  List.flatMap_append

/-- The bindings of the slots that hold one. -/
def entries (ts : List Tile) : List (Bytes × Bytes) :=
  ts.filterMap (fun t => if t.key = [] then none else some (t.key, t.value))

@[simp] theorem entries_append (ts us : List Tile) : entries (ts ++ us) = entries ts ++ entries us :=
  List.filterMap_append

@[simp] theorem entries_nil : entries [] = [] := rfl

theorem entries_cons (t : Tile) (ts : List Tile) (h : t.key ≠ []) :
    entries (t :: ts) = (t.key, t.value) :: entries ts := by
  simp [entries, h]

/-- **The slots tile the map exactly**, a slot with an empty key is the only slot, and no key is bound twice. -/
structure Tiled (s : SlipMap) (ts : List Tile) : Prop where
  map : s.map = tilesBytes ts
  size : s.sizeofMap = s.map.length
  max : s.map.length ≤ 0xffff
  ne : ts ≠ []
  empty : ∀ t ∈ ts, t.key = [] → ts = [t] ∧ t.value = []
  nodup : ((entries ts).map Prod.fst).Nodup

/-- Every length of the slot fits its header field. -/
def Tile.Fits (t : Tile) : Prop := t.bytes.length ≤ 0xffff

theorem fits_of_mem {ts : List Tile} (h : (tilesBytes ts).length ≤ 0xffff) {t : Tile} (ht : t ∈ ts) : t.Fits := by
  obtain ⟨l₁, l₂, rfl⟩ := List.append_of_mem ht
  simp only [tilesBytes_append, tilesBytes_cons, List.length_append] at h
  unfold Tile.Fits
  omega

/-! ## Reading a slot -/

variable {p q : Bytes}

theorem readHeader_tile {t : Tile} {o : Nat} (ho : o = p.length) (ht : t.Fits) :
    readHeader (p ++ (t.bytes ++ q)) o = some ⟨t.free.length, t.key.length, t.value.length⟩ := by
  have hlen := t.length_bytes
  unfold Tile.Fits at ht
  have h0 := Lib.get16_be16 (p := p) (o := o)
    (q := be16 t.key.length ++ (be16 t.value.length ++ t.body) ++ q) t.free.length ho (by omega)
  have h2 := Lib.get16_be16 (p := p ++ be16 t.free.length) (o := o + 2)
    (q := be16 t.value.length ++ t.body ++ q) t.key.length (by simp [ho]) (by omega)
  have h4 := Lib.get16_be16 (p := p ++ be16 t.free.length ++ be16 t.key.length) (o := o + 4)
    (q := t.body ++ q) t.value.length (by simp [ho]) (by omega)
  simp only [List.append_assoc] at h0 h2 h4
  simp only [readHeader, Tile.bytes, List.append_assoc, h0, h2, h4, Option.bind_eq_bind, Option.bind_some]

theorem readAt_key (t : Tile) {o : Nat} (ho : o = p.length + 6) :
    readAt (p ++ (t.bytes ++ q)) o t.key.length = some t.key := by
  have h := Lib.readAt_mid (p := p ++ be16 t.free.length ++ be16 t.key.length ++ be16 t.value.length)
    (m := t.key) (q := t.value ++ t.free ++ q) (o := o) (by simp [ho]) rfl
  simpa [Tile.bytes, Tile.body] using h

theorem readAt_value (t : Tile) {o : Nat} (ho : o = p.length + 6 + t.key.length) :
    readAt (p ++ (t.bytes ++ q)) o t.value.length = some t.value := by
  have h := Lib.readAt_mid
    (p := p ++ be16 t.free.length ++ be16 t.key.length ++ be16 t.value.length ++ t.key)
    (m := t.value) (q := t.free ++ q) (o := o) (by simp [ho]; omega) rfl
  simpa [Tile.bytes, Tile.body] using h

theorem sameKey_tile (t : Tile) (key : Bytes) {o : Nat} (ho : o = p.length + 6) :
    sameKey (p ++ (t.bytes ++ q)) o t.key.length key = some (decide (t.key = key)) := by
  unfold sameKey
  split
  · rename_i hlen
    rw [← hlen, readAt_key t ho]
    rfl
  · rename_i hlen
    rw [decide_eq_false (fun e => hlen (congrArg List.length e))]

/-! ## Writing a slot -/

/-- The slot written over six bytes of header and the bytes of the body. -/
theorem updateMapSlot_spec {a b c k v : Bytes} (free key value : Bytes) {o : Nat} (ho : o = p.length) (ha : a.length = 2)
    (hb : b.length = 2) (hc : c.length = 2) (hk : k.length = key.length) (hv : v.length = value.length)
    (hfit : Tile.Fits ⟨key, value, free⟩) :
    updateMapSlot (p ++ (a ++ (b ++ (c ++ (k ++ (v ++ (free ++ q))))))) o free.length key value =
      some (p ++ (Tile.bytes ⟨key, value, free⟩ ++ q)) := by
  have hlen := Tile.length_bytes ⟨key, value, free⟩
  unfold Tile.Fits at hfit
  simp only at hlen
  have h0 := Lib.put16_mid (p := p) (m := a) (q := b ++ (c ++ (k ++ (v ++ (free ++ q)))))
    (o := o) free.length ho (by omega) ha
  have h2 := Lib.put16_mid (p := p ++ be16 free.length) (m := b) (q := c ++ (k ++ (v ++ (free ++ q))))
    (o := o + 2) key.length (by simp [ho]) (by omega) hb
  have h4 := Lib.put16_mid (p := p ++ be16 free.length ++ be16 key.length) (m := c)
    (q := k ++ (v ++ (free ++ q))) (o := o + 4) value.length (by simp [ho]) (by omega) hc
  have h6 := Lib.writeAt_mid (p := p ++ be16 free.length ++ be16 key.length ++ be16 value.length) (m := k)
    (q := v ++ (free ++ q)) (o := o + 6) key (by simp [ho]) hk.symm
  have h7 := Lib.writeAt_mid (p := p ++ be16 free.length ++ be16 key.length ++ be16 value.length ++ key)
    (m := v) (q := free ++ q) (o := o + 6 + key.length) value (by simp [ho]; omega) hv.symm
  simp only [List.append_assoc] at h0 h2 h4 h6 h7
  simp only [updateMapSlot, h0, h2, h4, h6, h7, Option.bind_eq_bind, Option.bind_some, Tile.bytes, Tile.body,
    List.append_assoc]

/-- A run of bytes is cut after `n` of them. -/
theorem exists_cut {l : Bytes} {n : Nat} (h : n ≤ l.length) : ∃ x y, l = x ++ y ∧ x.length = n ∧ y = l.drop n :=
  ⟨l.take n, l.drop n, (List.take_append_drop n l).symm, by simp [h], rfl⟩

/-- **The slot written over any bytes that have room for it.** -/
theorem updateMapSlot_room (room key value : Bytes) {o : Nat} (ho : o = p.length) (h : 6 + key.length + value.length ≤ room.length)
    (hfit : room.length ≤ 0xffff) :
    updateMapSlot (p ++ (room ++ q)) o (room.length - (6 + key.length + value.length)) key value =
      some (p ++ (Tile.bytes ⟨key, value, room.drop (6 + key.length + value.length)⟩ ++ q)) := by
  obtain ⟨a, r₁, hr, ha, hr₁⟩ := exists_cut (l := room) (n := 2) (by omega)
  have hl₁ : r₁.length = room.length - 2 := by rw [hr₁, List.length_drop]
  obtain ⟨b, r₂, hr', hb, hr₂⟩ := exists_cut (l := r₁) (n := 2) (by omega)
  have hl₂ : r₂.length = r₁.length - 2 := by rw [hr₂, List.length_drop]
  obtain ⟨c, r₃, hr'', hc, hr₃⟩ := exists_cut (l := r₂) (n := 2) (by omega)
  have hl₃ : r₃.length = r₂.length - 2 := by rw [hr₃, List.length_drop]
  obtain ⟨k, r₄, hr''', hk, hr₄⟩ := exists_cut (l := r₃) (n := key.length) (by omega)
  have hl₄ : r₄.length = r₃.length - key.length := by rw [hr₄, List.length_drop]
  obtain ⟨v, free, hr'''', hv, hfree⟩ := exists_cut (l := r₄) (n := value.length) (by omega)
  have hl₅ : free.length = r₄.length - value.length := by rw [hfree, List.length_drop]
  have hdrop : room.drop (6 + key.length + value.length) = free := by
    rw [hfree, hr₄, hr₃, hr₂, hr₁]
    simp only [List.drop_drop]
  have hspec := updateMapSlot_spec (p := p) (q := q) free key value ho ha hb hc hk hv (by
    rw [Tile.Fits, Tile.length_bytes]
    show 6 + key.length + value.length + free.length ≤ _
    omega)
  rw [hdrop, show room.length - (6 + key.length + value.length) = free.length by omega, ← hspec, hr, hr', hr'', hr''',
    hr'''']
  simp only [List.append_assoc]

/-- A slot whose free bytes have changed gets their number. -/
theorem putFree_tile (t : Tile) (free : Bytes) {o : Nat} (ho : o = p.length) (hfree : free.length ≤ 0xffff) :
    put16 (p ++ (be16 t.free.length ++ (be16 t.key.length ++ (be16 t.value.length ++ (t.key ++ (t.value ++ free))))
      ++ q)) o free.length = some (p ++ (Tile.bytes ⟨t.key, t.value, free⟩ ++ q)) := by
  have h := Lib.put16_mid (p := p) (m := be16 t.free.length)
    (q := be16 t.key.length ++ (be16 t.value.length ++ (t.key ++ (t.value ++ free))) ++ q) free.length ho
    hfree rfl
  simpa [Tile.bytes, Tile.body] using h

/-- `slot_free_pnt[0] = slot_free_pnt[1] = 0`: the free bytes no longer belong to the slot. -/
theorem zeroFree_tile (t : Tile) {o : Nat} (ho : o = p.length) :
    put16 (p ++ (t.bytes ++ q)) o 0 =
      some (p ++ (Tile.bytes ⟨t.key, t.value, []⟩ ++ (t.free ++ q))) := by
  have h := Lib.put16_mid (p := p) (m := be16 t.free.length)
    (q := be16 t.key.length ++ (be16 t.value.length ++ t.body) ++ q) 0 ho (by omega) rfl
  simpa [Tile.bytes, Tile.body] using h

end Pincaster
