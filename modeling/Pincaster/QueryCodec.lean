import Pincaster.QueryParser
/-!
# QueryCodec — when the body of a dumped record is parsed back

The encoder escapes every byte the splitter gives a meaning to but `=`, and every byte the decoder gives one to but
`+`.  So a pair is read back as itself exactly when its name has no `=` and neither its name nor its value a `+`
(`query_parse_rebuilt_iff`).
-/
namespace Pincaster

open Lib (Bytes bytes strtol hex2)

variable {σ : Type}

/-- The encoding of one byte. -/
def enc (c : UInt8) : Bytes := if isUriChar c then [c] else 37 :: hex2 c

def encode (s : Bytes) : Bytes := s.flatMap enc

/-- What the decoder makes of a byte the encoder left as it is. -/
def plus (s : Bytes) : Bytes := s.map (fun c => if c = 43 then 32 else c)

@[simp] theorem encode_nil : encode [] = [] := rfl

@[simp] theorem encode_cons (c : UInt8) (s : Bytes) : encode (c :: s) = enc c ++ encode s := rfl

@[simp] theorem encode_append (s t : Bytes) : encode (s ++ t) = encode s ++ encode t := List.flatMap_append

@[simp] theorem plus_nil : plus [] = [] := rfl

@[simp] theorem plus_cons (c : UInt8) (s : Bytes) : plus (c :: s) = (if c = 43 then 32 else c) :: plus s := rfl

theorem isUriChar_clean : ∀ c : UInt8, isUriChar c = true → c ≠ 0 ∧ c ≠ 37 ∧ c ≠ 38 := by decide +kernel

theorem isUriChar_plus : isUriChar 43 = true := by decide

theorem enc_eq_sign : enc 61 = [61] := by decide

theorem enc_ne_nil (c : UInt8) : enc c ≠ [] := by
  unfold enc
  split <;> simp

theorem encode_eq_nil {s : Bytes} : encode s = [] ↔ s = [] := by
  cases s with
  | nil => simp
  | cons c s => simp [enc_ne_nil]

/-- Nothing of an encoding ends the query or the part, and a `=` of it is a `=` of the bytes. -/
theorem mem_enc {c d : UInt8} (h : d ∈ enc c) : d ≠ 0 ∧ d ≠ 38 ∧ (d = 61 → c = 61) := by
  unfold enc at h
  split at h
  · rename_i hc
    rw [List.mem_singleton.1 h]
    obtain ⟨h0, _, h38⟩ := isUriChar_clean c hc
    exact ⟨h0, h38, id⟩
  · rcases List.mem_cons.1 h with rfl | h
    · exact ⟨by decide, by decide, fun e => absurd e (by decide)⟩
    · obtain ⟨_, h0, _, h38, _, h61⟩ := Lib.hex2_clean h
      exact ⟨h0, h38, fun e => absurd e h61⟩

theorem mem_encode {s : Bytes} {d : UInt8} (h : d ∈ encode s) : d ≠ 0 ∧ d ≠ 38 ∧ (d = 61 → (61 : UInt8) ∈ s) := by
  obtain ⟨c, hc, hd⟩ := List.mem_flatMap.1 h
  obtain ⟨h0, h38, h61⟩ := mem_enc hd
  exact ⟨h0, h38, fun e => h61 e ▸ hc⟩

/-! ## The encoder -/

theorem appendToBinval_spec {b : BinVal} {v : Bytes} (hb : b.val = some v) (hroom : v.length ≤ b.maxSize)
    (str : Bytes) : ∃ m, appendToBinval b str = some ⟨some (v ++ str), m⟩ ∧ (v ++ str).length ≤ m := by
  simp only [appendToBinval, BinVal.size, hb, Option.getD_some, List.length_append]
  split
  · exact ⟨_, rfl, Nat.le_refl _⟩
  · exact ⟨b.maxSize, by simp only [Option.bind_eq_bind, Option.bind_some]; rw [if_pos (by omega)], by omega⟩

theorem uriEncodeLoop_spec : ∀ (value : Bytes) {b : BinVal} {v : Bytes}, b.val = some v → v.length ≤ b.maxSize →
    ∃ m, uriEncodeLoop value b = some ⟨some (v ++ encode value), m⟩
  | [], b, v, hb, _ => ⟨b.maxSize, by cases b; simp_all [uriEncodeLoop]⟩
  | c :: value, b, v, hb, hroom => by
    obtain ⟨m, h, hm⟩ := appendToBinval_spec hb hroom (enc c)
    obtain ⟨m', h'⟩ := uriEncodeLoop_spec value (b := ⟨some (v ++ enc c), m⟩) rfl hm
    refine ⟨m', ?_⟩
    rw [uriEncodeLoop, show (if isUriChar c then [c] else 37 :: hex2 c) = enc c from rfl, h]
    simpa using h'

/-- **The encoder writes the encoding**, whatever the buffer held before. -/
theorem uriEncodeBinval_spec (b : BinVal) (value : Bytes) (h : value ≠ [] ∨ b.val ≠ none) :
    ∃ m, uriEncodeBinval b value = some ⟨some (encode value), m⟩ := by
  unfold uriEncodeBinval
  split
  · rename_i hgrow
    have hlen : 0 < value.length := by
      rcases hgrow with hgrow | hgrow
      · omega
      · exact List.length_pos_of_ne_nil (h.resolve_right (fun hn => hn hgrow))
    rw [if_pos (by omega)]
    exact uriEncodeLoop_spec value (b := ⟨some [], _⟩) (v := []) rfl (Nat.zero_le _)
  · exact uriEncodeLoop_spec value (b := ⟨some [], _⟩) (v := []) rfl (Nat.zero_le _)

/-- A pair as the body has it. -/
def encodePair (p : Bytes × Bytes) : Bytes := encode (p.1 ++ 61 :: p.2)

/-- The pairs after the first one, each behind a `&`. -/
def encodeRest (ps : List (Bytes × Bytes)) : Bytes := ps.flatMap (fun p => 38 :: encodePair p)

def encodeBody : List (Bytes × Bytes) → Bytes
  | [] => []
  | p :: ps => encodePair p ++ encodeRest ps

theorem rebuildJournalPropertyCb_spec (ctx : RebuildJournalPropertyCBContext) (p : Bytes × Bytes) (hp : p.1 ≠ []) :
    ∃ b, rebuildJournalPropertyCb ctx p.1 p.2 =
      some ⟨(if ctx.first then ctx.bodyBuffer else ctx.bodyBuffer ++ [38]) ++ encodePair p, false, b⟩ := by
  obtain ⟨m, h⟩ := uriEncodeBinval_spec ctx.encodingRecordBuffer p.1 (.inl hp)
  obtain ⟨m', h'⟩ := uriEncodeBinval_spec ⟨some (encode p.1), m⟩ p.2 (.inr (by simp))
  refine ⟨⟨some (encode p.2), m'⟩, ?_⟩
  simp only [rebuildJournalPropertyCb, h, h', Option.bind_eq_bind, Option.bind_some, Option.getD_some, encodePair,
    encode_append, encode_cons, enc_eq_sign, show bytes "&" = [38] by decide, show bytes "=" = [61] by decide]
  simp

/-- **The callback over the properties writes their body.** -/
theorem rebuildJournalProperties_spec : ∀ (ps : List (Bytes × Bytes)) (ctx : RebuildJournalPropertyCBContext),
    (∀ p ∈ ps, p.1 ≠ []) → ∃ ctx', rebuildJournalProperties ps ctx = some ctx' ∧
      ctx'.bodyBuffer = ctx.bodyBuffer ++ (if ctx.first then encodeBody ps else encodeRest ps) ∧
      ctx'.first = (ctx.first && ps.isEmpty)
  | [], ctx, _ => ⟨ctx, rfl, by cases ctx.first <;> simp [encodeBody, encodeRest], by simp⟩
  | p :: ps, ctx, h => by
    obtain ⟨b, hb⟩ := rebuildJournalPropertyCb_spec ctx p (h p List.mem_cons_self)
    obtain ⟨ctx', hctx, hbody, hfirst⟩ := rebuildJournalProperties_spec ps
      ⟨(if ctx.first then ctx.bodyBuffer else ctx.bodyBuffer ++ [38]) ++ encodePair p, false, b⟩
      (fun q hq => h q (List.mem_cons_of_mem p hq))
    refine ⟨ctx', ?_, ?_, by simp [hfirst]⟩
    · rw [rebuildJournalProperties, hb]
      exact hctx
    · rw [hbody]
      cases ctx.first <;> simp [encodeBody, encodeRest]

/-! ## The decoder -/

/-- **The decoder reads one encoded byte.** -/
theorem queryDecodeLoop_enc {max : Nat} (c : UInt8) (e d : Bytes) (hd : d.length < max) :
    queryDecodeLoop max (enc c ++ e) d = queryDecodeLoop max e (d ++ [if c = 43 then 32 else c]) := by
  unfold enc
  split
  · rename_i hc
    rw [List.singleton_append, queryDecodeLoop.eq_def]
    simp only []
    rw [if_neg (by omega)]
    by_cases h43 : c = 43
    · rw [if_pos h43, if_pos h43]
    · rw [if_neg h43, if_neg (isUriChar_clean c hc).2.1, if_neg h43]
  · rename_i hc
    have h43 : c ≠ 43 := fun e => hc (e ▸ isUriChar_plus)
    have hdec := Lib.ofInt_strtol_hex2 c
    rw [show hex2 c = [Lib.digit (c.toNat / 16), Lib.digit (c.toNat % 16)] from rfl] at hdec ⊢
    rw [List.cons_append, List.cons_append, List.cons_append, List.nil_append, queryDecodeLoop, if_neg (by omega),
      if_neg (by decide), if_pos rfl, if_neg h43, hdec]

theorem length_le_encode (s : Bytes) : s.length ≤ (encode s).length := by
  induction s with
  | nil => simp
  | cons c s ih =>
    have := List.length_pos_of_ne_nil (enc_ne_nil c)
    simp only [encode_cons, List.length_append, List.length_cons]
    omega

/-- **A decoded encoding is the bytes with every `+` a space.** -/
theorem queryDecodeLoop_encode {max : Nat} : ∀ (s d : Bytes), d.length + (encode s).length ≤ max →
    queryDecodeLoop max (encode s) d = d ++ plus s
  | [], d, _ => by simp [queryDecodeLoop]
  | c :: s, d, h => by
    have hc := List.length_pos_of_ne_nil (enc_ne_nil c)
    rw [encode_cons, List.length_append] at h
    rw [encode_cons, queryDecodeLoop_enc c _ _ (by omega), queryDecodeLoop_encode s _ (by simp; omega)]
    simp

theorem queryDecode_encode {max : Nat} (s : Bytes) (h : (encode s).length ≤ max) :
    queryDecode (encode s) max = some (plus s) := by
  rw [queryDecode, if_pos h, queryDecodeLoop_encode s [] (by simpa using h), List.nil_append]

/-! ## The parts -/

theorem takeWhile_append_cons {p : UInt8 → Bool} {s t : Bytes} {c : UInt8} (hs : ∀ d ∈ s, p d = true)
    (hc : p c = false) : (s ++ c :: t).takeWhile p = s ∧ (s ++ c :: t).dropWhile p = c :: t := by
  constructor
  · rw [List.takeWhile_append_of_pos hs]
    simp [hc]
  · rw [List.dropWhile_append_of_pos hs]
    simp [hc]

/-- What `query_parse` goes on with after a part: nothing, or the rest behind a `&`. -/
def restOf : Option Bytes → Bytes
  | none => []
  | some next => 38 :: next

/-- **One part** is split at its first `=`; an empty name is an error. -/
theorem queryParsePart_spec (buffers : QueryBuffers) (n v : Bytes) (hn : (61 : UInt8) ∉ n) (next : Option Bytes) :
    ∃ buffers', queryParsePart (encode (n ++ 61 :: v) ++ restOf next) buffers =
      some (if n = [] then none else some ⟨plus n, plus v, next, buffers'⟩) := by
  have hsplit : encode (n ++ 61 :: v) ++ restOf next = encode n ++ 61 :: (encode v ++ restOf next) := by
    simp [enc_eq_sign]
  obtain ⟨htake, hdrop⟩ := takeWhile_append_cons (p := fun c => decide (c ≠ 0 ∧ c ≠ 61)) (s := encode n)
    (t := encode v ++ restOf next) (c := 61)
    (fun d hd => by
      obtain ⟨h0, _, h61⟩ := mem_encode hd
      simpa using ⟨h0, fun e => hn (h61 e)⟩) (by decide)
  have hv : ∀ d ∈ encode v, decide (d ≠ 0 ∧ d ≠ 38) = true := fun d hd => by
    obtain ⟨h0, h38, _⟩ := mem_encode hd
    simpa using ⟨h0, h38⟩
  have htake' : (encode v ++ restOf next).takeWhile (fun c => decide (c ≠ 0 ∧ c ≠ 38)) = encode v := by
    rw [List.takeWhile_append_of_pos hv]
    cases next <;> simp [restOf]
  have hdrop' : (encode v ++ restOf next).dropWhile (fun c => decide (c ≠ 0 ∧ c ≠ 38)) = restOf next := by
    rw [List.dropWhile_append_of_pos hv]
    cases next <;> simp [restOf]
  have h61 : ((61 : UInt8) = 0) = False := by decide
  simp only [queryParsePart, hsplit, htake, hdrop, h61, if_false, htake', hdrop']
  by_cases hnil : n = []
  · subst hnil
    exact ⟨buffers, by simp⟩
  · have hlen : ¬ ((encode n).length ≤ 0 ∨ (encode n).head? = some 38) := by
      rintro (h | h)
      · exact hnil (encode_eq_nil.1 (List.eq_nil_of_length_eq_zero (by omega)))
      · exact (mem_encode (List.mem_of_mem_head? h)).2.1 rfl
    rw [if_neg hlen, queryDecode_encode n (by split <;> omega), Option.bind_eq_bind, Option.bind_some,
      queryDecode_encode v (by split <;> omega)]
    simp only [if_neg hnil, Option.bind_some]
    cases next with
    | none => exact ⟨_, rfl⟩
    | some next => exact ⟨_, rfl⟩

/-- The pair `query_parse` makes of one pair of the body. -/
def parsed (p : Bytes × Bytes) : Option (Bytes × Bytes) :=
  let s := p.1 ++ 61 :: p.2
  let n := s.takeWhile (· ≠ 61)
  if n = [] then none else some (plus n, plus (s.dropWhile (· ≠ 61)).tail)

theorem plus_eq_self_iff {s : Bytes} : plus s = s ↔ (43 : UInt8) ∉ s := by
  induction s with
  | nil => simp
  | cons c s ih =>
    rw [plus_cons, List.cons.injEq, ih, List.mem_cons, not_or, eq_comm (a := (43 : UInt8))]
    refine and_congr_left (fun _ => ?_)
    by_cases h : c = 43 <;> simp [h]

/-- **A pair is read back as itself** when neither side has a `+` and the name no `=`. -/
theorem parsed_eq_self_iff {p : Bytes × Bytes} (hp : p.1 ≠ []) :
    parsed p = some p ↔ (43 : UInt8) ∉ p.1 ∧ (61 : UInt8) ∉ p.1 ∧ (43 : UInt8) ∉ p.2 := by
  obtain ⟨name, value⟩ := p
  by_cases h61 : (61 : UInt8) ∈ name
  · -- the name the parser sees is shorter
    obtain ⟨n, v, rfl, hn⟩ := List.eq_append_cons_of_mem h61
    obtain ⟨htake, _⟩ := takeWhile_append_cons (p := fun c => decide (c ≠ 61)) (s := n) (t := v ++ 61 :: value)
      (c := 61) (fun d hd => by
        simp only [ne_eq, decide_eq_true_eq]
        rintro rfl
        exact hn hd) (by decide)
    have hassoc : n ++ 61 :: v ++ 61 :: value = n ++ 61 :: (v ++ 61 :: value) := by simp
    simp only [parsed, hassoc, htake, h61, not_true_eq_false, false_and, and_false, iff_false]
    intro h
    split at h
    · cases h
    · have hlen := congrArg (fun q => (Prod.fst q).length) (Option.some.inj h)
      simp only [plus, List.length_map, List.length_append, List.length_cons] at hlen
      omega
  · obtain ⟨htake, hdrop⟩ := takeWhile_append_cons (p := fun c => decide (c ≠ 61)) (s := name) (t := value) (c := 61)
      (fun d hd => by
        simp only [ne_eq, decide_eq_true_eq]
        rintro rfl
        exact h61 hd) (by decide)
    simp only [parsed, htake, hdrop, if_neg hp, List.tail_cons, Option.some.injEq, Prod.mk.injEq, plus_eq_self_iff,
      h61, not_false_eq_true, true_and]

/-- The pairs of a body, until one has an empty name. -/
def parseAll : List (Bytes × Bytes) → List (Bytes × Bytes) → Int × List (Bytes × Bytes)
  | [], acc => (0, acc)
  | p :: ps, acc =>
    match parsed p with
    | none => (-1, acc)
    | some q => parseAll ps (acc ++ [q])

/-- The callback that keeps the pairs it is given. -/
def collect (acc : List (Bytes × Bytes)) (key value : Bytes) : Option (Int × List (Bytes × Bytes)) :=
  some (0, acc ++ [(key, value)])

/-- A byte string with a `=` is split at the first one. -/
theorem split_at_sign (p : Bytes × Bytes) : ∃ n v, p.1 ++ 61 :: p.2 = n ++ 61 :: v ∧ (61 : UInt8) ∉ n ∧
    parsed p = if n = [] then none else some (plus n, plus v) := by
  obtain ⟨n, v, heq, hn⟩ := List.eq_append_cons_of_mem (show (61 : UInt8) ∈ p.1 ++ 61 :: p.2 by simp)
  obtain ⟨htake, hdrop⟩ := takeWhile_append_cons (p := fun c => decide (c ≠ 61)) (s := n) (t := v)
    (c := 61) (fun d hd => by
      simp only [ne_eq, decide_eq_true_eq]
      rintro rfl
      exact hn hd) (by decide)
  exact ⟨n, v, heq, hn, by simp only [parsed, heq, htake, hdrop, List.tail_cons]⟩

/-- The callback over the pairs of a body as they are read back, until one has an empty name or the callback stops. -/
def readBack (cb : σ → Bytes → Bytes → Option (Int × σ)) : List (Bytes × Bytes) → σ → Option (Int × σ)
  | [], context => some (0, context)
  | p :: ps, context =>
    match parsed p with
    | none => some (-1, context)
    | some q => do
      let (ret, context) ← cb context q.1 q.2
      if ret ≠ 0 then some (1, context) else readBack cb ps context

theorem readBack_collect : ∀ ps acc : List (Bytes × Bytes), readBack collect ps acc = some (parseAll ps acc)
  | [], _ => rfl
  | p :: ps, acc => by
    rw [readBack, parseAll]
    cases parsed p with
    | none => rfl
    | some q =>
      simp only [collect, Option.bind_eq_bind, Option.bind_some, ne_eq, not_true_eq_false, if_false]
      exact readBack_collect ps _

theorem queryParseLoop_spec (cb : σ → Bytes → Bytes → Option (Int × σ)) : ∀ (ps : List (Bytes × Bytes))
    (p : Bytes × Bytes) (fuel : Nat) (buffers : QueryBuffers) (context : σ), ps.length < fuel →
    queryParseLoop cb fuel (encodePair p ++ encodeRest ps) buffers context = readBack cb (p :: ps) context
  | ps, p, 0, _, _, h => by omega
  | ps, p, fuel + 1, buffers, context, h => by
    obtain ⟨n, v, heq, hn, hparsed⟩ := split_at_sign p
    rw [encodePair, heq, readBack, hparsed]
    cases ps with
    | nil =>
      obtain ⟨b, hb⟩ := queryParsePart_spec buffers n v hn none
      rw [show encodeRest [] = restOf none from rfl, queryParseLoop, hb]
      by_cases hnil : n = []
      · simp [hnil]
      · simp [hnil, readBack]
    | cons q ps =>
      obtain ⟨b, hb⟩ := queryParsePart_spec buffers n v hn (some (encodePair q ++ encodeRest ps))
      rw [show encodeRest (q :: ps) = restOf (some (encodePair q ++ encodeRest ps)) from rfl, queryParseLoop, hb]
      by_cases hnil : n = []
      · simp [hnil]
      · have ih := fun context => queryParseLoop_spec cb ps q fuel b context (by simp at h; omega)
        simp [hnil, ih]

theorem length_encodeRest (ps : List (Bytes × Bytes)) : ps.length ≤ (encodeRest ps).length := by
  induction ps with
  | nil => simp
  | cons p ps ih =>
    rw [encodeRest, List.flatMap_cons, List.length_append, List.length_cons, List.length_cons, ← encodeRest]
    omega

/-- **An encoded body is read pair by pair**, whatever the callback does. -/
theorem queryParse_encodeBody (cb : σ → Bytes → Bytes → Option (Int × σ)) (ps : List (Bytes × Bytes)) (context : σ) :
    queryParse (encodeBody ps) cb context = readBack cb ps context := by
  cases ps with
  | nil => rfl
  | cons p ps =>
    have hloop := queryParseLoop_spec cb ps p ((encodeBody (p :: ps)).length + 1) ⟨0, 0⟩ context (by
      have := length_encodeRest ps
      simp only [encodeBody, List.length_append]
      omega)
    unfold queryParse
    cases hbody : encodeBody (p :: ps) with
    | nil =>
      rw [encodeBody, List.append_eq_nil_iff, encodePair, encode_eq_nil] at hbody
      simp at hbody
    | cons c s =>
      have hc : c ≠ 0 := by
        have hne : encodePair p ≠ [] := by rw [encodePair, Ne, encode_eq_nil]; simp
        obtain ⟨d, t, hd⟩ := List.exists_cons_of_ne_nil hne
        have hmem : d ∈ encodePair p := by rw [hd]; exact List.mem_cons_self
        rw [encodeBody, hd, List.cons_append, List.cons.injEq] at hbody
        rw [← hbody.1]
        exact (mem_encode hmem).1
      simp only [if_neg hc]
      rw [← hbody]
      exact hloop

theorem parseAll_append : ∀ (ps acc : List (Bytes × Bytes)), ∃ r qs, parseAll ps acc = (r, acc ++ qs)
  | [], acc => ⟨0, [], by simp [parseAll]⟩
  | p :: ps, acc => by
    rw [parseAll]
    split
    · exact ⟨-1, [], by simp⟩
    · rename_i q _
      obtain ⟨r, qs, h⟩ := parseAll_append ps (acc ++ [q])
      exact ⟨r, q :: qs, by rw [h]; simp⟩

/-- **The pairs come back as they are** when each of them does. -/
theorem parseAll_eq_iff : ∀ (ps acc : List (Bytes × Bytes)),
    parseAll ps acc = (0, acc ++ ps) ↔ ∀ p ∈ ps, parsed p = some p
  | [], acc => by simp [parseAll]
  | p :: ps, acc => by
    rw [parseAll, List.forall_mem_cons]
    cases hp : parsed p with
    | none => simp
    | some q =>
      simp only [Option.some.injEq]
      have ih := parseAll_eq_iff ps (acc ++ [q])
      constructor
      · intro h
        obtain ⟨r, qs, hq⟩ := parseAll_append ps (acc ++ [q])
        have hqp : q = p := by
          have happ : acc ++ p :: ps = acc ++ q :: qs := by
            rw [h, Prod.mk.injEq] at hq
            simpa using hq.2
          exact (List.cons.inj (List.append_cancel_left happ)).1.symm
        subst hqp
        exact ⟨rfl, ih.1 (by simpa using h)⟩
      · rintro ⟨rfl, h⟩
        simpa using ih.2 h

/-- **The properties of a record come back from its dumped body** exactly when no name has a `=` and no name or value
a `+`.  The encoding buffer is the one the record before has left. -/
theorem query_parse_rebuilt_iff (properties : List (Bytes × Bytes)) (buffer : BinVal)
    (hnames : ∀ p ∈ properties, p.1 ≠ []) :
    ∃ context, rebuildJournalProperties properties ⟨[], true, buffer⟩ = some context ∧
      (queryParse context.bodyBuffer collect [] = some (0, properties) ↔
        ∀ p ∈ properties, (43 : UInt8) ∉ p.1 ∧ (61 : UInt8) ∉ p.1 ∧ (43 : UInt8) ∉ p.2) := by
  obtain ⟨ctx, hctx, hbody, _⟩ := rebuildJournalProperties_spec properties ⟨[], true, buffer⟩ hnames
  refine ⟨ctx, hctx, ?_⟩
  rw [hbody, if_pos rfl, List.nil_append, queryParse_encodeBody, readBack_collect, Option.some.injEq]
  have h := parseAll_eq_iff properties []
  rw [List.nil_append] at h
  rw [h]
  exact forall₂_congr (fun p hp => parsed_eq_self_iff (hnames p hp))

/-- A name with an escaped byte and an empty value. -/
theorem query_parse_rebuilt_escaped : ∃ context,
    rebuildJournalProperties [(bytes "a&b", []), (bytes "c", bytes "d=e")] ⟨[], true, initBinval⟩ = some context ∧
      (queryParse context.bodyBuffer collect [] = some (0, [(bytes "a&b", []), (bytes "c", bytes "d=e")]) ↔
        ∀ p ∈ [(bytes "a&b", []), (bytes "c", bytes "d=e")],
          (43 : UInt8) ∉ p.1 ∧ (61 : UInt8) ∉ p.1 ∧ (43 : UInt8) ∉ p.2) :=
  query_parse_rebuilt_iff [(bytes "a&b", []), (bytes "c", bytes "d=e")] initBinval (by decide)

/-- **A `+` comes back as a space and a `=` cuts the name.** -/
theorem query_parse_rebuilt_plus : ∃ context,
    rebuildJournalProperties [(bytes "a=b", bytes "c+d")] ⟨[], true, initBinval⟩ = some context ∧
      queryParse context.bodyBuffer collect [] = some (0, [(bytes "a", bytes "b=c d")]) ∧
      queryParse context.bodyBuffer collect [] ≠ some (0, [(bytes "a=b", bytes "c+d")]) := by
  refine ⟨⟨bytes "a=b=c+d", false, ⟨some (bytes "c+d"), 4⟩⟩, rfl, ?_⟩
  have h : queryParse (bytes "a=b=c+d") collect [] = some (0, [(bytes "a", bytes "b=c d")]) := by decide +kernel
  rw [h]
  exact ⟨rfl, by decide⟩

end Pincaster
