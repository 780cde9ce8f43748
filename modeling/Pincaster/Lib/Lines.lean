import Mathlib.Data.List.Basic
/-!
# Lines — a stream cut at a delimiter

A stream is a list of lines, each with the delimiter behind it, and what follows the last one.  The lines of a stream are
unique, and they can be found piece by piece.
-/
namespace Lib

variable {α : Type} {delim : α}

/-- Two lists that agree up to the first element without `p`. -/
theorem append_cons_inj {p : α → Prop} {x : α} (hx : ¬ p x) : ∀ {a b s t : List α}, (∀ c ∈ a, p c) →
    (∀ c ∈ b, p c) → a ++ x :: s = b ++ x :: t → a = b ∧ s = t
  | [], [], _, _, _, _, h => by simpa using h
  | [], y :: b, _, _, _, hb, h => by
    rw [List.nil_append, List.cons_append, List.cons.injEq] at h
    exact absurd (h.1 ▸ hb y (by simp)) hx
  | y :: a, [], _, _, ha, _, h => by
    rw [List.nil_append, List.cons_append, List.cons.injEq] at h
    exact absurd (h.1 ▸ ha y (by simp)) hx
  | y :: a, z :: b, s, t, ha, hb, h => by
    rw [List.cons_append, List.cons_append, List.cons.injEq] at h
    obtain ⟨h1, h2⟩ := append_cons_inj hx (fun c hc => ha c (by simp [hc])) (fun c hc => hb c (by simp [hc])) h.2
    exact ⟨by rw [h.1, h1], h2⟩

/-- `lines` are the complete lines of `stream`, and `rest` is what is behind them. -/
structure Framed (delim : α) (stream : List α) (lines : List (List α)) (rest : List α) : Prop where
  eq : stream = lines.flatMap (· ++ [delim]) ++ rest
  lines : ∀ line ∈ lines, delim ∉ line
  rest : delim ∉ rest

theorem Framed.of_rest {rest : List α} (h : delim ∉ rest) : Framed delim rest [] rest :=
  ⟨rfl, fun _ hline => (nomatch hline), h⟩

theorem Framed.cons {line stream rest : List α} {lines : List (List α)} (hline : delim ∉ line)
    (h : Framed delim stream lines rest) : Framed delim (line ++ delim :: stream) (line :: lines) rest := by
  refine ⟨by rw [h.eq]; simp, fun l hl => ?_, h.rest⟩
  rcases List.mem_cons.1 hl with rfl | hl
  · exact hline
  · exact h.lines l hl

/-- A stream has a first delimiter or none. -/
theorem first_delim (delim : α) : ∀ stream : List α,
    delim ∉ stream ∨ ∃ line rest, stream = line ++ delim :: rest ∧ delim ∉ line
  | [] => .inl (fun h => nomatch h)
  | c :: stream => by
    by_cases hc : c = delim
    · exact .inr ⟨[], stream, by rw [hc]; rfl, fun h => nomatch h⟩
    rcases first_delim delim stream with h | ⟨line, rest, rfl, hline⟩
    · exact .inl (by
        rw [List.mem_cons, not_or]
        exact ⟨Ne.symm hc, h⟩)
    · refine .inr ⟨c :: line, rest, rfl, ?_⟩
      rw [List.mem_cons, not_or]
      exact ⟨Ne.symm hc, hline⟩

/-- **The lines of a stream are unique.** -/
theorem Framed.unique : ∀ {lines lines' : List (List α)} {stream rest rest' : List α}, Framed delim stream lines rest →
    Framed delim stream lines' rest' → lines = lines' ∧ rest = rest'
  | [], [], _, _, _, h, h' => ⟨rfl, by simpa using h.eq.symm.trans h'.eq⟩
  | [], line :: lines', _, _, _, h, h' => by
    refine absurd h.rest (not_not_intro ?_)
    have heq := h.eq.symm.trans h'.eq
    rw [List.flatMap_nil, List.nil_append] at heq
    rw [heq]
    simp
  | line :: lines, [], _, _, _, h, h' => by
    refine absurd h'.rest (not_not_intro ?_)
    have heq := h'.eq.symm.trans h.eq
    rw [List.flatMap_nil, List.nil_append] at heq
    rw [heq]
    simp
  | line :: lines, line' :: lines', stream, rest, rest', h, h' => by
    have heq := h.eq.symm.trans h'.eq
    simp only [List.flatMap_cons, List.append_assoc, List.singleton_append] at heq
    obtain ⟨rfl, htail⟩ := append_cons_inj (p := (· ≠ delim)) (fun hne => hne rfl)
      (fun c hc heq => h.lines line List.mem_cons_self (heq ▸ hc))
      (fun c hc heq => h'.lines line' List.mem_cons_self (heq ▸ hc)) heq
    have htail₁ : Framed delim (lines.flatMap (· ++ [delim]) ++ rest) lines rest :=
      ⟨rfl, fun l hl => h.lines l (List.mem_cons_of_mem line hl), h.rest⟩
    have htail₂ : Framed delim (lines.flatMap (· ++ [delim]) ++ rest) lines' rest' :=
      ⟨htail, fun l hl => h'.lines l (List.mem_cons_of_mem line hl), h'.rest⟩
    obtain ⟨rfl, rfl⟩ := htail₁.unique htail₂
    exact ⟨rfl, rfl⟩

/-- **Lines are found piece by piece**: what was left over goes before the next piece. -/
theorem Framed.append {stream rest piece rest' : List α} {lines lines' : List (List α)}
    (h : Framed delim stream lines rest) (h' : Framed delim (rest ++ piece) lines' rest') :
    Framed delim (stream ++ piece) (lines ++ lines') rest' := by
  refine ⟨?_, fun l hl => (List.mem_append.1 hl).elim (h.lines l) (h'.lines l), h'.rest⟩
  rw [h.eq, List.append_assoc, h'.eq, List.flatMap_append, List.append_assoc]

/-- Complete lines are all there is of their stream. -/
theorem Framed.of_lines {lines : List (List α)} (h : ∀ line ∈ lines, delim ∉ line) :
    Framed delim (lines.flatMap (· ++ [delim])) lines [] :=
  ⟨(List.append_nil _).symm, h, fun h => nomatch h⟩

end Lib
