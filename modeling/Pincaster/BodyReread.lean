import Pincaster.PropertyMaps
import Pincaster.RewriteFailures
/-!
# BodyReread — the body of a dumped record, read by the PUT it is replayed as

The handler of a PUT adds a NUL to the body each time it is called, and the parser stops at the first one.  The body of a
dumped record is the encoding of its properties, its position and its expiration, and each pair is read as `parsed` says.
-/
namespace Pincaster

open Lib (Bytes bytes cstr strchr strtoul printNat)

variable {σ D : Type}

/-! ## NULs behind a query -/

theorem takeWhile_nul (sep : UInt8) (s t : Bytes) :
    (s ++ 0 :: t).takeWhile (fun c => decide (c ≠ 0 ∧ c ≠ sep)) = s.takeWhile (fun c => decide (c ≠ 0 ∧ c ≠ sep)) := by
  rw [List.takeWhile_append]
  split
  · rename_i hall
    rw [List.takeWhile_cons_of_neg (by simp), List.append_nil]
    exact ((List.takeWhile_prefix _).eq_of_length hall).symm
  · rfl

theorem dropWhile_nul (sep : UInt8) (s t : Bytes) : (s ++ 0 :: t).dropWhile (fun c => decide (c ≠ 0 ∧ c ≠ sep)) =
    s.dropWhile (fun c => decide (c ≠ 0 ∧ c ≠ sep)) ++ 0 :: t := by
  rw [List.dropWhile_append]
  split
  · rename_i hnil
    rw [List.isEmpty_iff.1 hnil, List.dropWhile_cons_of_neg (by simp), List.nil_append]
  · rfl

/-- What stands behind the first NUL is in no part. -/
theorem queryParsePart_nul {part : Bytes} (h : (0 : UInt8) ∉ part) (t : Bytes) (buffers : QueryBuffers) :
    queryParsePart (part ++ 0 :: t) buffers = (queryParsePart part buffers).map
      (Option.map (fun p => { p with next := p.next.map (· ++ 0 :: t) })) := by
  unfold queryParsePart
  simp only [takeWhile_nul, dropWhile_nul]
  cases hdrop : part.dropWhile (fun c => decide (c ≠ 0 ∧ c ≠ 61)) with
  | nil => rfl
  | cons c pnt =>
    have hmem : ∀ d ∈ c :: pnt, d ≠ 0 := fun d hd hzero =>
      h (hzero ▸ (List.dropWhile_suffix _).subset (hdrop ▸ hd))
    simp only [List.cons_append, if_neg (hmem c List.mem_cons_self), takeWhile_nul, dropWhile_nul]
    split
    · rfl
    · simp only [Option.bind_eq_bind, Option.map_bind]
      refine congrArg _ (funext fun key => ?_)
      simp only [Function.comp_apply, Option.map_bind]
      refine congrArg _ (funext fun value => ?_)
      cases hdrop' : pnt.dropWhile (fun c => decide (c ≠ 0 ∧ c ≠ 38)) with
      | nil => simp
      | cons c' pnt' =>
        have hc' : c' ≠ 0 := hmem c' (List.mem_cons_of_mem _ ((List.dropWhile_suffix _).subset (hdrop' ▸ List.mem_cons_self)))
        simp [hc']

/-- The next part is shorter, and has no NUL when the part has none. -/
theorem queryParsePart_next {part : Bytes} {buffers : QueryBuffers} {p : QueryPart}
    (h : queryParsePart part buffers = some (some p)) {next : Bytes} (hnext : p.next = some next) :
    next.length < part.length ∧ ∀ c ∈ next, c ∈ part := by
  unfold queryParsePart at h
  cases hdrop : part.dropWhile (fun c => decide (c ≠ 0 ∧ c ≠ 61)) with
  | nil =>
    simp only [hdrop] at h
    cases h
  | cons c pnt =>
    have hsub := List.dropWhile_suffix (l := part) (fun c => decide (c ≠ 0 ∧ c ≠ 61))
    rw [hdrop] at hsub
    simp only [hdrop] at h
    split at h
    · cases h
    · split at h
      · cases h
      · simp only [Option.bind_eq_bind, Option.bind_eq_some_iff] at h
        obtain ⟨key, -, value, -, h⟩ := h
        cases h
        simp only at hnext
        cases hdrop' : pnt.dropWhile (fun c => decide (c ≠ 0 ∧ c ≠ 38)) with
        | nil =>
          simp only [hdrop'] at hnext
          cases hnext
        | cons c' pnt' =>
          have hsub' := List.dropWhile_suffix (l := pnt) (fun c => decide (c ≠ 0 ∧ c ≠ 38))
          rw [hdrop'] at hsub'
          simp only [hdrop'] at hnext
          split at hnext
          · cases hnext
          · obtain rfl := Option.some.inj hnext
            have h1 := hsub.length_le
            have h2 := hsub'.length_le
            simp only [List.length_cons] at h1 h2
            exact ⟨by omega, fun d hd => hsub.subset (List.mem_cons_of_mem _ (hsub'.subset (List.mem_cons_of_mem _ hd)))⟩

/-- Any bound on the number of parts will do that is above the length of the query. -/
theorem queryParseLoop_fuel (cb : σ → Bytes → Bytes → Option (Int × σ)) : ∀ (fuel fuel' : Nat) (part : Bytes)
    (buffers : QueryBuffers) (context : σ), part.length < fuel → part.length < fuel' →
    queryParseLoop cb fuel part buffers context = queryParseLoop cb fuel' part buffers context
  | 0, _, _, _, _, h, _ => by omega
  | _ + 1, 0, _, _, _, _, h => by omega
  | fuel + 1, fuel' + 1, part, buffers, context, h, h' => by
    rw [queryParseLoop, queryParseLoop]
    rcases hpart : queryParsePart part buffers with _ | _ | p
    · rfl
    · rfl
    · simp only [Option.bind_eq_bind, Option.bind_some]
      refine congrArg _ (funext fun r => ?_)
      split
      · rfl
      · cases hnext : p.next with
        | none => rfl
        | some next =>
          have hlt := (queryParsePart_next hpart hnext).1
          exact queryParseLoop_fuel cb fuel fuel' next p.buffers r.2 (by omega) (by omega)

theorem queryParseLoop_nul (cb : σ → Bytes → Bytes → Option (Int × σ)) (t : Bytes) : ∀ (fuel : Nat) (part : Bytes)
    (buffers : QueryBuffers) (context : σ), (0 : UInt8) ∉ part →
    queryParseLoop cb fuel (part ++ 0 :: t) buffers context = queryParseLoop cb fuel part buffers context
  | 0, _, _, _, _ => rfl
  | fuel + 1, part, buffers, context, h => by
    rw [queryParseLoop, queryParseLoop, queryParsePart_nul h]
    rcases hpart : queryParsePart part buffers with _ | _ | p
    · rfl
    · rfl
    · simp only [Option.map_some, Option.bind_eq_bind, Option.bind_some]
      refine congrArg _ (funext fun r => ?_)
      split
      · rfl
      · cases hnext : p.next with
        | none => rfl
        | some next =>
          exact queryParseLoop_nul cb t fuel next p.buffers r.2 (fun hz => h ((queryParsePart_next hpart hnext).2 0 hz))

/-- **A query is read up to its first NUL.** -/
theorem queryParse_nul (cb : σ → Bytes → Bytes → Option (Int × σ)) {body : Bytes} (h : (0 : UInt8) ∉ body) (t : Bytes)
    (context : σ) : queryParse (body ++ 0 :: t) cb context = queryParse body cb context := by
  cases body with
  | nil => rfl
  | cons c body =>
    have hc : c ≠ 0 := fun hz => h (hz ▸ List.mem_cons_self)
    unfold queryParse
    simp only [List.cons_append, if_neg hc]
    rw [← List.cons_append, queryParseLoop_nul cb t _ _ _ _ h]
    refine queryParseLoop_fuel cb _ _ _ _ _ ?_ (Nat.lt_succ_self _)
    rw [List.length_append]
    omega

/-! ## The pairs of a dumped body -/

/-- **What `%f` writes**: digits, at most a minus sign and a point among them, and `strtod` reads a number there. -/
structure PrintedNumber (D : Type) [Dimension D] (s : Bytes) : Prop where
  ne_nil : s ≠ []
  digits : ∀ c ∈ s, (48 ≤ c ∧ c ≤ 57) ∨ c = 45 ∨ c = 46
  short : s.length ≤ 400
  reads : (Dimension.strtod s : Option (D × Bytes)).isSome = true

theorem printed_clean : ∀ c : UInt8, (48 ≤ c ∧ c ≤ 57) ∨ c = 45 ∨ c = 46 →
    enc c = [c] ∧ c ≠ 0 ∧ c ≠ 43 ∧ c ≠ 44 ∧ Lib.isspace c = false := by decide +kernel

theorem encode_of_clean : ∀ {s : Bytes}, (∀ c ∈ s, enc c = [c]) → encode s = s
  | [], _ => rfl
  | c :: s, h => by
    rw [encode_cons, h c List.mem_cons_self, encode_of_clean (fun d hd => h d (List.mem_cons_of_mem c hd))]
    rfl

theorem skipSpaces_of_head {c : UInt8} {s : Bytes} (h : Lib.isspace c = false) : skipSpaces (c :: s) = c :: s := by
  rw [skipSpaces, List.dropWhile_cons_of_neg (by simp [h])]

namespace PrintedNumber
variable [Dimension D] {s t : Bytes}

theorem skipSpaces_append (h : PrintedNumber D s) (t : Bytes) : skipSpaces (s ++ t) = s ++ t := by
  obtain ⟨c, s', rfl⟩ := List.exists_cons_of_ne_nil h.ne_nil
  exact skipSpaces_of_head (printed_clean c (h.digits c List.mem_cons_self)).2.2.2.2

theorem not_mem (h : PrintedNumber D s) : (0 : UInt8) ∉ s ∧ (43 : UInt8) ∉ s ∧ (44 : UInt8) ∉ s :=
  ⟨fun hc => (printed_clean _ (h.digits _ hc)).2.1 rfl, fun hc => (printed_clean _ (h.digits _ hc)).2.2.1 rfl,
    fun hc => (printed_clean _ (h.digits _ hc)).2.2.2.1 rfl⟩

theorem encode_eq (h : PrintedNumber D s) : encode s = s := encode_of_clean (fun c hc => (printed_clean c (h.digits c hc)).1)

end PrintedNumber

variable (context : DumpContext D)

/-- A position as the dump writes it. -/
def positionText (position : Position2D D) : Bytes :=
  context.printDouble position.latitude ++ 44 :: context.printDouble position.longitude

/-- An expiration as the dump writes it. -/
def expiresAtText (ts : Int) : Bytes := printNat 10 (ts % 2 ^ 64).toNat

/-- The pairs behind the properties. -/
def fieldPairs (record : DumpedRecord D) : List (Bytes × Bytes) :=
  (record.position.toList.map (fun position => (INT_PROPERTY_POSITION, positionText context position))) ++
    record.expiresAt.toList.map (fun ts => (INT_PROPERTY_EXPIRES_AT, expiresAtText ts))

/-- A pair behind others. -/
theorem encodeBody_snoc (ps : List (Bytes × Bytes)) (q : Bytes × Bytes) :
    encodeBody (ps ++ [q]) = (if ps.isEmpty then encodeBody ps else encodeBody ps ++ [38]) ++ encodePair q := by
  cases ps with
  | nil => simp [encodeBody, encodeRest]
  | cons p ps => simp [encodeBody, encodeRest]

theorem encode_digits {n : Nat} : encode (printNat 10 n) = printNat 10 n := by
  have hdigit : ∀ c : UInt8, Lib.isDigitOf 10 c = true → enc c = [c] := by decide +kernel
  exact encode_of_clean (fun c hc => hdigit c (Lib.isDigitOf_printNat (by omega) (by omega) n c hc))

theorem encodePair_expiresAt (ts : Int) : encodePair (INT_PROPERTY_EXPIRES_AT, expiresAtText ts) =
    INT_PROPERTY_EXPIRES_AT ++ bytes "=" ++ expiresAtText ts := by
  have hname : encode INT_PROPERTY_EXPIRES_AT = INT_PROPERTY_EXPIRES_AT := by decide +kernel
  rw [encodePair, encode_append, encode_cons, enc_eq_sign, hname, expiresAtText, encode_digits]
  simp [bytes]

section
variable [Dimension D] {context}

theorem encode_positionText (hprint : ∀ d, PrintedNumber D (context.printDouble d)) (position : Position2D D) :
    encode (positionText context position) = positionText context position := by
  rw [positionText, encode_append, encode_cons, (hprint _).encode_eq, (hprint _).encode_eq,
    show enc 44 = [44] by decide, List.singleton_append]

theorem encodePair_position (hprint : ∀ d, PrintedNumber D (context.printDouble d)) (position : Position2D D) :
    encodePair (INT_PROPERTY_POSITION, positionText context position) =
      INT_PROPERTY_POSITION ++ bytes "=" ++ positionText context position := by
  have hname : encode INT_PROPERTY_POSITION = INT_PROPERTY_POSITION := by decide +kernel
  rw [encodePair, encode_append, encode_cons, enc_eq_sign, hname, encode_positionText hprint]
  simp [bytes]

/-- **The body of a dumped record** is the encoding of its pairs. -/
theorem rebuildJournalBody_eq (hprint : ∀ d, PrintedNumber D (context.printDouble d)) (record : DumpedRecord D) :
    rebuildJournalBody context record (encodeBody record.properties) record.properties.isEmpty =
      encodeBody (record.properties ++ fieldPairs context record) := by
  have hcomma : ∀ position : Position2D D, INT_PROPERTY_POSITION ++ bytes "=" ++ positionText context position =
      INT_PROPERTY_POSITION ++ (bytes "=" ++ (context.printDouble position.latitude ++ (bytes "," ++
        context.printDouble position.longitude))) := fun position => by
    simp [positionText, bytes]
  unfold rebuildJournalBody fieldPairs
  cases record.position with
  | none =>
    cases record.expiresAt with
    | none => simp
    | some ts =>
      simp only [Option.toList_none, List.map_nil, List.nil_append, Option.toList_some, List.map_cons]
      rw [encodeBody_snoc, encodePair_expiresAt]
      simp [expiresAtText, bytes]
  | some position =>
    cases record.expiresAt with
    | none =>
      simp only [Option.toList_none, List.map_nil, List.append_nil, Option.toList_some, List.map_cons]
      rw [encodeBody_snoc, encodePair_position hprint, hcomma]
      simp [bytes]
    | some ts =>
      simp only [Option.toList_some, List.map_cons, List.map_nil, List.singleton_append]
      rw [show record.properties ++ [(INT_PROPERTY_POSITION, positionText context position),
          (INT_PROPERTY_EXPIRES_AT, expiresAtText ts)] = (record.properties ++
          [(INT_PROPERTY_POSITION, positionText context position)]) ++ [(INT_PROPERTY_EXPIRES_AT, expiresAtText ts)] by simp,
        encodeBody_snoc, encodePair_expiresAt, encodeBody_snoc, encodePair_position hprint, hcomma]
      simp [expiresAtText, bytes]

end

/-! ## What the PUT makes of them -/

variable (D) in
/-- **A pair of a dumped body that the PUT takes**: the name the parser sees is not empty, and the value behind a `_loc` or
an `_expires_at` is one. -/
def PairReadable [Dimension D] (p : Bytes × Bytes) : Prop := ∃ q, parsed p = some q ∧
  (binvalIsEqualToConstString q.1 INT_PROPERTY_POSITION = true →
    (parsePosition (recordsPutOp [] [] : RecordsPutOp D) q.2).1 = 0) ∧
  (binvalIsEqualToConstString q.1 INT_PROPERTY_EXPIRES_AT = true →
    (parseExpiresAt (recordsPutOp [] [] : RecordsPutOp D) q.2).1 = 0)

instance [Dimension D] (p : Bytes × Bytes) : Decidable (PairReadable D p) :=
  inferInstanceAs (Decidable (∃ q, q ∈ parsed p ∧ _))

/-- The parser keeps the bytes of a pair. -/
theorem pairLength_parsed {p q : Bytes × Bytes} (h : parsed p = some q) : pairLength q = pairLength p ∧ q.1 ≠ [] := by
  obtain ⟨n, v, heq, -, hparsed⟩ := split_at_sign p
  rw [hparsed] at h
  split at h
  · cases h
  · rename_i hne
    obtain rfl := Option.some.inj h
    have hlen := congrArg List.length heq
    simp only [List.length_append, List.length_cons] at hlen
    refine ⟨?_, fun hnil => hne (List.map_eq_nil_iff.1 hnil)⟩
    simp only [pairLength, plus, List.length_map]
    omega

section
variable [Dimension D]

/-- Whether a position is read does not depend on the operation. -/
theorem parsePosition_fst (putOp putOp' : RecordsPutOp D) (value : Bytes) :
    (parsePosition putOp value).1 = (parsePosition putOp' value).1 := by
  unfold parsePosition
  simp only
  repeat' split
  all_goals rfl

omit [Dimension D] in
theorem parseExpiresAt_fst (putOp putOp' : RecordsPutOp D) (value : Bytes) :
    (parseExpiresAt putOp value).1 = (parseExpiresAt putOp' value).1 := by
  unfold parseExpiresAt
  simp only
  split <;> rfl

/-- **One pair is taken exactly when it is readable.** -/
theorem recordsPutOptParseCb_readable {putOp : RecordsPutOp D} (hop : PutOpOk putOp) {p q : Bytes × Bytes}
    (hlen : pairLength p ≤ 0xffff) (hq : parsed p = some q) : ∃ ret putOp',
      recordsPutOptParseCb putOp q.1 q.2 = some (ret, putOp') ∧ (ret = 0 ↔ PairReadable D p) := by
  obtain ⟨hlen', hne⟩ := pairLength_parsed hq
  have hpos := List.length_pos_of_ne_nil hne
  unfold pairLength at hlen'
  have hsum : q.1.length + q.2.length ≤ 0xffff := hlen'.trans_le hlen
  obtain ⟨ret, putOp', hcb, hprop⟩ := recordsPutOptParseCb_isSome hop
    (show KeyLen q.1 from ⟨hpos, by omega⟩) (show q.2.length ≤ 0xffff by omega)
  refine ⟨ret, putOp', hcb, ?_⟩
  unfold PairReadable
  simp only [hq, Option.some.injEq, exists_eq_left']
  unfold recordsPutOptParseCb at hcb
  split at hcb
  · rename_i hloc
    obtain rfl : (parsePosition putOp q.2).1 = ret := congrArg Prod.fst (Option.some.inj hcb)
    have hexpires : binvalIsEqualToConstString q.1 INT_PROPERTY_EXPIRES_AT = false := by
      by_contra hexpires
      rw [Bool.not_eq_false] at hexpires
      unfold binvalIsEqualToConstString at hloc hexpires
      simp only [Bool.and_eq_true, decide_eq_true_eq] at hloc hexpires
      exact absurd (hloc.1.symm.trans hexpires.1) (by decide)
    rw [parsePosition_fst putOp (recordsPutOp [] [])]
    simp [hloc, hexpires]
  · rename_i hloc
    split at hcb
    · rename_i hexpires
      obtain rfl : (parseExpiresAt putOp q.2).1 = ret := congrArg Prod.fst (Option.some.inj hcb)
      rw [parseExpiresAt_fst putOp (recordsPutOp [] [])]
      simp [hloc, hexpires]
    · rename_i hexpires
      have hzero := hprop ⟨by simpa using hloc, by simpa using hexpires⟩
      simp [hloc, hexpires, hzero]

/-- **The pairs of a body are taken exactly when each is readable.** -/
theorem readBack_readable : ∀ (ps : List (Bytes × Bytes)) {putOp : RecordsPutOp D}, PutOpOk putOp →
    (∀ p ∈ ps, pairLength p ≤ 0xffff) → ∃ ret putOp', readBack recordsPutOptParseCb ps putOp = some (ret, putOp') ∧
      (ret = 0 ↔ ∀ p ∈ ps, PairReadable D p)
  | [], putOp, _, _ => ⟨0, putOp, rfl, by simp⟩
  | p :: ps, putOp, hop, hlen => by
    rw [readBack]
    cases hq : parsed p with
    | none => exact ⟨-1, putOp, rfl, by simp [PairReadable, hq]⟩
    | some q =>
      obtain ⟨ret, putOp', hcb, hiff⟩ := recordsPutOptParseCb_readable hop (hlen p List.mem_cons_self) hq
      simp only [hcb, Option.bind_eq_bind, Option.bind_some]
      by_cases hret : ret = 0
      · obtain ⟨ret', putOp'', hrest, hiff'⟩ := readBack_readable ps (recordsPutOptParseCb_ok hop hcb).1
          (fun p' hp' => hlen p' (List.mem_cons_of_mem p hp'))
        rw [if_neg (not_not_intro hret), hrest]
        exact ⟨ret', putOp'', rfl, by rw [hiff', List.forall_mem_cons, and_iff_right (hiff.1 hret)]⟩
      · rw [if_pos hret]
        refine ⟨1, putOp', rfl, ?_⟩
        rw [List.forall_mem_cons]
        exact ⟨fun h => absurd h (by decide), fun h => absurd (hiff.2 h.1) hret⟩

/-! ## The fields of a record -/

variable {context}

theorem positionText_length (hprint : ∀ d, PrintedNumber D (context.printDouble d)) (position : Position2D D) :
    (positionText context position).length ≤ 801 := by
  have hlat := (hprint position.latitude).short
  have hlon := (hprint position.longitude).short
  unfold positionText
  rw [List.length_append, List.length_cons]
  omega

theorem expiresAtText_length (ts : Int) : (expiresAtText ts).length ≤ 801 := by
  have : (printNat 10 (ts % 2 ^ 64).toNat).length ≤ 63 + 1 := Lib.length_printNat_le (by omega)
    (lt_of_lt_of_le (show (ts % 2 ^ 64).toNat < 2 ^ 64 by omega) (Nat.pow_le_pow_left (by omega) 64))
  unfold expiresAtText
  omega

/-- **The position of a record is read again.** -/
theorem parsePosition_positionText (hprint : ∀ d, PrintedNumber D (context.printDouble d)) (position : Position2D D)
    (putOp : RecordsPutOp D) : ∃ latitude longitude rest rest',
      Dimension.strtod (context.printDouble position.latitude) = some (latitude, rest) ∧
      Dimension.strtod (context.printDouble position.longitude) = some (longitude, rest') ∧
      parsePosition putOp (positionText context position) =
        (0, { putOp with position := ⟨latitude, longitude⟩, positionSet := true }) := by
  have hlat := hprint position.latitude
  have hlon := hprint position.longitude
  obtain ⟨⟨latitude, rest⟩, hreadlat⟩ := Option.isSome_iff_exists.1 hlat.reads
  obtain ⟨⟨longitude, rest'⟩, hreadlon⟩ := Option.isSome_iff_exists.1 hlon.reads
  refine ⟨latitude, longitude, rest, rest', hreadlat, hreadlon, ?_⟩
  have hnul : (0 : UInt8) ∉ positionText context position := by
    unfold positionText
    simp only [List.mem_append, List.mem_cons, not_or]
    exact ⟨hlat.not_mem.1, by decide, hlon.not_mem.1⟩
  have hspaces : skipSpaces (cstr (positionText context position)) = positionText context position := by
    rw [Lib.cstr_of_not_mem hnul]
    exact hlat.skipSpaces_append _
  have hchr : strchr (positionText context position) 44 =
      some (context.printDouble position.latitude, context.printDouble position.longitude) := by
    unfold strchr
    rw [Lib.cstr_of_not_mem hnul]
    obtain ⟨htake, hdrop⟩ := takeWhile_append_cons (p := fun c => decide (c ≠ 44)) (s := context.printDouble position.latitude)
      (t := context.printDouble position.longitude) (c := 44) (fun d hd => by
        simp only [ne_eq, decide_eq_true_eq]
        rintro rfl
        exact hlat.not_mem.2.2 hd) (by decide)
    rw [if_pos (by simp [positionText])]
    unfold positionText
    rw [htake, hdrop, List.tail_cons]
  have hlonspaces : skipSpaces (context.printDouble position.longitude) = context.printDouble position.longitude := by
    simpa using hlon.skipSpaces_append []
  unfold parsePosition
  simp only [hspaces, hchr, hlonspaces, hreadlat, hreadlon, if_neg hlon.ne_nil, if_neg (show positionText context position ≠ [] by
    simp [positionText])]

omit [Dimension D] in
/-- **The expiration of a record is read again.** -/
theorem parseExpiresAt_expiresAtText (ts : Int) (putOp : RecordsPutOp D) : parseExpiresAt putOp (expiresAtText ts) =
    (0, { putOp with expiresAt := toTimeT (ts % 2 ^ 64).toNat }) := by
  have hdigit : ∀ c ∈ printNat 10 (ts % 2 ^ 64).toNat, Lib.isDigitOf 10 c = true :=
    Lib.isDigitOf_printNat (by omega) (by omega) _
  have hclean : ∀ c : UInt8, Lib.isDigitOf 10 c = true → c ≠ 0 ∧ Lib.isspace c = false := by decide +kernel
  have hne := Lib.printNat_ne_nil 10 (ts % 2 ^ 64).toNat
  have hspaces : skipSpaces (cstr (expiresAtText ts)) = expiresAtText ts := by
    unfold expiresAtText
    rw [Lib.cstr_of_not_mem (fun h => (hclean 0 (hdigit 0 h)).1 rfl)]
    obtain ⟨c, s, hs⟩ := List.exists_cons_of_ne_nil hne
    rw [hs]
    exact skipSpaces_of_head (hclean c (hdigit c (hs ▸ List.mem_cons_self))).2
  have hread : strtoul 10 (printNat 10 (ts % 2 ^ 64).toNat ++ []) = ((ts % 2 ^ 64).toNat, []) :=
    Lib.strtoul_printNat (by omega) (by omega) (by omega) (by simp)
  rw [List.append_nil] at hread
  unfold parseExpiresAt
  simp only [hspaces]
  rw [if_neg (show expiresAtText ts ≠ [] from hne)]
  unfold expiresAtText
  rw [hread]
  simp only [if_neg hne.symm]

omit [Dimension D] in
/-- A pair with a plain name and no `+` is read as it is. -/
theorem parsed_field {name value : Bytes} (hname : name ≠ [] ∧ (43 : UInt8) ∉ name ∧ (61 : UInt8) ∉ name)
    (hvalue : (43 : UInt8) ∉ value) : parsed (name, value) = some (name, value) :=
  (parsed_eq_self_iff hname.1).2 ⟨hname.2.1, hname.2.2, hvalue⟩

/-- **The fields are always readable.** -/
theorem fieldPairs_readable (hprint : ∀ d, PrintedNumber D (context.printDouble d)) (record : DumpedRecord D) :
    ∀ p ∈ fieldPairs context record, PairReadable D p ∧ pairLength p ≤ 0xffff := by
  intro p hp
  unfold fieldPairs at hp
  rcases List.mem_append.1 hp with hp | hp
  · obtain ⟨position, -, rfl⟩ := List.mem_map.1 hp
    have hclean : (43 : UInt8) ∉ positionText context position := by
      unfold positionText
      simp only [List.mem_append, List.mem_cons, not_or]
      exact ⟨(hprint _).not_mem.2.1, by decide, (hprint _).not_mem.2.1⟩
    obtain ⟨latitude, longitude, rest, rest', -, -, hread⟩ := parsePosition_positionText hprint position (recordsPutOp [] [])
    have hother : binvalIsEqualToConstString INT_PROPERTY_POSITION INT_PROPERTY_EXPIRES_AT ≠ true := by decide
    refine ⟨⟨_, parsed_field (by decide) hclean, fun _ => by rw [hread], fun h => absurd h hother⟩, ?_⟩
    have := positionText_length hprint position
    rw [pairLength_mk, show INT_PROPERTY_POSITION.length = 4 from rfl]
    omega
  · obtain ⟨ts, -, rfl⟩ := List.mem_map.1 hp
    have hdigit : ∀ c ∈ expiresAtText ts, Lib.isDigitOf 10 c = true := Lib.isDigitOf_printNat (by omega) (by omega) _
    have hclean : (43 : UInt8) ∉ expiresAtText ts := fun h => absurd (hdigit 43 h) (by decide)
    have hother : binvalIsEqualToConstString INT_PROPERTY_EXPIRES_AT INT_PROPERTY_POSITION ≠ true := by decide
    refine ⟨⟨_, parsed_field (by decide) hclean, fun h => absurd h hother,
      fun _ => by rw [parseExpiresAt_expiresAtText]⟩, ?_⟩
    have := expiresAtText_length ts
    rw [pairLength_mk, show INT_PROPERTY_EXPIRES_AT.length = 11 from rfl]
    omega

theorem not_mem_encodeBody (ps : List (Bytes × Bytes)) : (0 : UInt8) ∉ encodeBody ps := by
  have hpair : ∀ p : Bytes × Bytes, (0 : UInt8) ∉ encodePair p := fun p h => (mem_encode h).1 rfl
  cases ps with
  | nil => exact List.not_mem_nil
  | cons p ps =>
    simp only [encodeBody, encodeRest, List.mem_append, List.mem_flatMap, List.mem_cons, not_or, not_exists, not_and]
    exact ⟨hpair p, fun q _ => ⟨by decide, hpair q⟩⟩

/-- **The body of a dumped record**, with any NULs behind it, is read pair by pair. -/
theorem queryParse_body (hprint : ∀ d, PrintedNumber D (context.printDouble d)) (record : DumpedRecord D) (t : Bytes)
    (putOp : RecordsPutOp D) :
    queryParse (rebuildJournalBody context record (encodeBody record.properties) record.properties.isEmpty ++ 0 :: t)
      recordsPutOptParseCb putOp = readBack recordsPutOptParseCb (record.properties ++ fieldPairs context record) putOp := by
  rw [rebuildJournalBody_eq hprint, queryParse_nul _ (not_mem_encodeBody _), queryParse_encodeBody]

/-- **The pairs of a dumped body are taken exactly when every property is readable.** -/
theorem readBack_dumped (hprint : ∀ d, PrintedNumber D (context.printDouble d)) {record : DumpedRecord D}
    (hlen : ∀ p ∈ record.properties, pairLength p ≤ 0xffff) (layerName key : Key) : ∃ ret putOp,
      readBack recordsPutOptParseCb (record.properties ++ fieldPairs context record)
        (recordsPutOp layerName key : RecordsPutOp D) = some (ret, putOp) ∧
      (ret = 0 ↔ ∀ p ∈ record.properties, PairReadable D p) := by
  have hfields := fieldPairs_readable hprint record
  obtain ⟨ret, putOp, hread, hiff⟩ := readBack_readable (record.properties ++ fieldPairs context record)
    (recordsPutOp_ok layerName key : PutOpOk (recordsPutOp layerName key : RecordsPutOp D)) (fun p hp => by
      rcases List.mem_append.1 hp with hp | hp
      · exact hlen p hp
      · exact (hfields p hp).2)
  exact ⟨ret, putOp, hread, by rw [hiff, List.forall_mem_append, and_iff_left (fun p hp => (hfields p hp).1)]⟩

end

end Pincaster
