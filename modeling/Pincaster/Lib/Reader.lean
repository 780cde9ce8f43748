import Pincaster.Lib.CString
/-!
# Reader — decoders over a stream of bytes

A decoder reads from a state and may fail; the state it got to is kept either way.  A read hands out the next `n` bytes
of the stream, all of them or none.  A decoder written over the read function alone does over every reader what it does
over a plain list of the same bytes (`Sim`).
-/
namespace Lib

structure Decoder (σ α : Type) where
  run : σ → Option α × σ

namespace Decoder

variable {σ τ α β : Type}

instance : Monad (Decoder σ) where
  pure a := ⟨fun s => (some a, s)⟩
  bind p f := ⟨fun s =>
    match p.run s with
    | (some a, s) => (f a).run s
    | (none, s) => (none, s)⟩

def fail : Decoder σ α := ⟨fun s => (none, s)⟩

@[simp] theorem run_pure (a : α) (s : σ) : (pure a : Decoder σ α).run s = (some a, s) := rfl

@[simp] theorem run_fail (s : σ) : (fail : Decoder σ α).run s = (none, s) := rfl

theorem run_bind (p : Decoder σ α) (f : α → Decoder σ β) (s : σ) : (p >>= f).run s =
    match p.run s with
    | (some a, s) => (f a).run s
    | (none, s) => (none, s) := rfl

theorem bind_of_some {p : Decoder σ α} {f : α → Decoder σ β} {s s' : σ} {a : α} (h : p.run s = (some a, s')) :
    (p >>= f).run s = (f a).run s' := by
  rw [run_bind, h]

theorem bind_of_none {p : Decoder σ α} {f : α → Decoder σ β} {s s' : σ} (h : p.run s = (none, s')) :
    (p >>= f).run s = (none, s') := by
  rw [run_bind, h]

theorem bind_none {p : Decoder σ α} {f : α → Decoder σ β} {s : σ} (h : (p.run s).1 = none) : ((p >>= f).run s).1 = none := by
  rcases hp : p.run s with ⟨a | a, s₁⟩
  · rw [bind_of_none hp]
  · rw [hp] at h
    cases h

/-- A decoder that succeeded went through its first half. -/
theorem some_of_bind {p : Decoder σ α} {f : α → Decoder σ β} {s s' : σ} {b : β}
    (h : (p >>= f).run s = (some b, s')) : ∃ a s₁, p.run s = (some a, s₁) ∧ (f a).run s₁ = (some b, s') := by
  rcases hp : p.run s with ⟨a | a, s₁⟩
  · rw [bind_of_none hp] at h
    cases h
  · exact ⟨a, s₁, rfl, by rwa [bind_of_some hp] at h⟩

/-- **Two decoders do the same** on states that correspond.  With `cut` the first one may also fail where the second one
goes on. -/
def Sim (cut : Prop) (left : σ → τ → Prop) (p : Decoder σ α) (q : Decoder τ α) : Prop :=
  ∀ s l, left s l →
    ((p.run s).1 = (q.run l).1 ∧ left (p.run s).2 (q.run l).2) ∨ (cut ∧ (p.run s).1 = none)

variable {cut : Prop} {left : σ → τ → Prop}

theorem Sim.exact {p : Decoder σ α} {q : Decoder τ α} (h : Sim False left p q) {s : σ} {l : τ} (hl : left s l) :
    (p.run s).1 = (q.run l).1 ∧ left (p.run s).2 (q.run l).2 := (h s l hl).resolve_right And.left

theorem Sim.pure (a : α) : Sim cut left (Pure.pure a) (Pure.pure a) := fun _ _ h => .inl ⟨rfl, h⟩

theorem Sim.fail : Sim cut left (Decoder.fail : Decoder σ α) Decoder.fail := fun _ _ h => .inl ⟨rfl, h⟩

theorem Sim.bind {p : Decoder σ α} {q : Decoder τ α} {f : α → Decoder σ β} {g : α → Decoder τ β}
    (hp : Sim cut left p q) (hf : ∀ a, Sim cut left (f a) (g a)) : Sim cut left (p >>= f) (q >>= g) := by
  intro s l h
  rcases hp s l h with ⟨h1, h2⟩ | ⟨hc, h1⟩
  · rcases hps : p.run s with ⟨a | a, s'⟩ <;> rcases hql : q.run l with ⟨b | b, l'⟩ <;> simp only [hps, hql] at h1 h2
    · rw [bind_of_none hps, bind_of_none hql]
      exact .inl ⟨rfl, h2⟩
    · cases h1
    · cases h1
    · cases h1
      rw [bind_of_some hps, bind_of_some hql]
      exact hf a s' l' h2
  · rcases hps : p.run s with ⟨a | a, s'⟩ <;> simp only [hps] at h1
    · rw [bind_of_none hps]
      exact .inr ⟨hc, rfl⟩
    · cases h1

theorem Sim.ite {c : Prop} [Decidable c] {p p' : Decoder σ α} {q q' : Decoder τ α} (h : Sim cut left p q)
    (h' : Sim cut left p' q') : Sim cut left (if c then p else p') (if c then q else q') := by
  split
  · exact h
  · exact h'

end Decoder

variable {σ τ : Type}

abbrev ReadFn (σ : Type) := Nat → Decoder σ Bytes

/-- The reader of a list. -/
def takeBytes : ReadFn Bytes := fun n => ⟨fun l => if n ≤ l.length then (some (l.take n), l.drop n) else (none, l)⟩

theorem takeBytes_append {p rest : Bytes} {n : Nat} (h : n = p.length) :
    (takeBytes n).run (p ++ rest) = (some p, rest) := by
  subst h
  simp [takeBytes]

theorem takeBytes_cons (c : UInt8) (rest : Bytes) : (takeBytes 1).run (c :: rest) = (some [c], rest) :=
  takeBytes_append (p := [c]) rfl

theorem takeBytes_eq_some {l l' x : Bytes} {n : Nat} :
    (takeBytes n).run l = (some x, l') ↔ n ≤ l.length ∧ x = l.take n ∧ l' = l.drop n := by
  unfold takeBytes
  simp only
  split
  · rename_i hn
    simp [hn, eq_comm]
  · rename_i hn
    simp [hn]

theorem takeBytes_short {l : Bytes} {n : Nat} (h : l.length < n) : (takeBytes n).run l = (none, l) := by
  simp [takeBytes, h]

/-- **Two readers do the same** on states that correspond. -/
def ReadsLike (cut : Prop) (read : ReadFn σ) (read' : ReadFn τ) (left : σ → τ → Prop) : Prop :=
  ∀ n, 0 < n → Decoder.Sim cut left (read n) (read' n)

/-- **`left` says what a reader has left to read**, with `cut` at least that. -/
abbrev Reads (cut : Prop) (read : ReadFn σ) (left : σ → Bytes → Prop) : Prop := ReadsLike cut read takeBytes left

/-- A list that is cut short reads as the whole one. -/
theorem reads_append (rest : Bytes) : Reads True takeBytes (fun s l => l = s ++ rest) := by
  rintro n - s _ rfl
  by_cases hn : n ≤ s.length
  · refine .inl ?_
    simp only [takeBytes]
    rw [if_pos hn, if_pos (by rw [List.length_append]; omega), List.take_append_of_le_length hn,
      List.drop_append_of_le_length hn]
    exact ⟨rfl, rfl⟩
  · refine .inr ⟨trivial, ?_⟩
    simp only [takeBytes]
    rw [if_neg hn]

/-- Byte after byte up to a delimiter, into an array of `room` more bytes that has `buf` in it.  The result is the
whole array, the bytes behind the delimiter included; it fails when the array is full. -/
def readUntil (read : ReadFn σ) (delim : UInt8) (buf : Bytes) : Nat → Bytes → Decoder σ Bytes
  | 0, _ => .fail
  | room + 1, token => do
    let c ← read 1
    if c = [delim] then pure (token ++ c ++ buf.drop (token.length + 1))
    else readUntil read delim buf room (token ++ c)

theorem ReadsLike.readUntil {cut : Prop} {read : ReadFn σ} {read' : ReadFn τ} {left : σ → τ → Prop}
    (h : ReadsLike cut read read' left) (delim : UInt8) (buf : Bytes) : ∀ (room : Nat) (token : Bytes),
      Decoder.Sim cut left (Lib.readUntil read delim buf room token) (Lib.readUntil read' delim buf room token)
  | 0, _ => .fail
  | room + 1, token => (h 1 (by omega)).bind fun c => .ite (.pure _) (readUntil h delim buf room (token ++ c))

/-! ## Reads that hand out what was asked for -/

/-- **A reader hands out some pieces**, one at each read. -/
inductive Fed (read : ReadFn σ) : List Bytes → σ → σ → Prop where
  | nil (s : σ) : Fed read [] s s
  | cons {p : Bytes} {ps : List Bytes} {s s₁ s' : σ} (h : (read p.length).run s = (some p, s₁)) (hrest : Fed read ps s₁ s') :
      Fed read (p :: ps) s s'

theorem Fed.split {read : ReadFn σ} : ∀ {ps qs : List Bytes} {s s' : σ}, Fed read (ps ++ qs) s s' →
    ∃ m, Fed read ps s m ∧ Fed read qs m s'
  | [], _, s, _, h => ⟨s, .nil s, h⟩
  | _ :: _, _, _, _, .cons h hrest => by
    obtain ⟨m, hps, hqs⟩ := hrest.split
    exact ⟨m, .cons h hps, hqs⟩

theorem Fed.append {read : ReadFn σ} {ps qs : List Bytes} {s m s' : σ} (h : Fed read ps s m) (h' : Fed read qs m s') :
    Fed read (ps ++ qs) s s' := by
  induction h with
  | nil => exact h'
  | cons h _ ih => exact .cons h (ih h')

/-- A list hands out the pieces it begins with. -/
theorem fed_takeBytes : ∀ (ps : List Bytes) (rest : Bytes), Fed takeBytes ps (ps.flatten ++ rest) rest
  | [], rest => .nil rest
  | p :: ps, rest => by
    rw [List.flatten_cons, List.append_assoc]
    exact .cons (takeBytes_append rfl) (fed_takeBytes ps rest)

/-- The pieces of a token and its delimiter. -/
def tokenPieces (t : Bytes) (delim : UInt8) : List Bytes := t.map (fun c => [c]) ++ [[delim]]

@[simp] theorem flatten_tokenPieces (t : Bytes) (delim : UInt8) : (tokenPieces t delim).flatten = t ++ [delim] := by
  rw [tokenPieces, List.flatten_append, List.flatten_singleton, ← List.flatMap_def, List.flatMap_singleton']

/-- A list that begins with a token and its delimiter. -/
theorem fed_token (t : Bytes) (delim : UInt8) (rest : Bytes) :
    Fed takeBytes (tokenPieces t delim) (t ++ delim :: rest) rest := by
  have hfed := fed_takeBytes (tokenPieces t delim) rest
  rwa [flatten_tokenPieces, List.append_assoc, List.singleton_append] at hfed

/-- A token that is read with its delimiter. -/
theorem readUntil_fed {read : ReadFn σ} {delim : UInt8} (buf : Bytes) : ∀ {room : Nat} (token : Bytes) {t : Bytes} {s s' : σ},
    Fed read (tokenPieces t delim) s s' → delim ∉ t → t.length < room → (readUntil read delim buf room token).run s =
      (some (token ++ t ++ [delim] ++ buf.drop (token.length + t.length + 1)), s')
  | 0, _, _, _, _, _, _, h => by omega
  | room + 1, token, [], s, s', .cons h hrest, _, _ => by
    cases hrest
    rw [readUntil, Decoder.bind_of_some (show (read 1).run s = (some [delim], s') from h), if_pos rfl]
    simp
  | room + 1, token, c :: t, s, s', .cons h hrest, hd, hlt => by
    rw [List.mem_cons, not_or] at hd
    rw [List.length_cons] at hlt
    have hne : ¬ [c] = [delim] := fun h => hd.1 (List.cons.inj h).1.symm
    rw [readUntil, Decoder.bind_of_some (show (read 1).run s = (some [c], _) from h), if_neg hne,
      readUntil_fed buf _ hrest hd.2 (by omega)]
    simp [Nat.add_assoc, Nat.add_comm 1]

theorem readUntil_delim {delim : UInt8} (buf : Bytes) {room : Nat} (token : Bytes) {t : Bytes} (rest : Bytes)
    (hd : delim ∉ t) (hlt : t.length < room) : (readUntil takeBytes delim buf room token).run (t ++ delim :: rest) =
      (some (token ++ t ++ [delim] ++ buf.drop (token.length + t.length + 1)), rest) :=
  readUntil_fed buf token (fed_token t delim rest) hd hlt

/-- What was read so far stands at the start of the array. -/
theorem readUntil_starts {delim : UInt8} {buf : Bytes} : ∀ {room : Nat} {token l b l' : Bytes},
    (readUntil takeBytes delim buf room token).run l = (some b, l') → token <+: b
  | 0, _, _, _, _, h => by cases h
  | room + 1, token, l, b, l', h => by
    obtain ⟨c, l₁, -, h⟩ := Decoder.some_of_bind h
    split at h
    · cases h
      rw [List.append_assoc]
      exact List.prefix_append token _
    · exact (List.prefix_append token c).trans (readUntil_starts h)

end Lib
