import Pincaster.PutBody
/-!
# FormParsing — `query_parse` with its two buffers, and the queries that forms send

The buffers of the name and of the value are kept from one pair to the next and only ever enlarged.  Nothing is written
past their ends, for any query (`queryParseInto_eq`), and a query in strict percent-encoding is read back pair by pair
(`query_parse_form`).
-/
namespace Pincaster

open Lib (Bytes bytes strtol digitVal writeAt resize walk)

variable {σ : Type}

/-! ## The buffers -/

/-- A buffer of `query_parse`: the bytes that were allocated, and `max_size`. -/
structure ParseBuffer where
  val : Bytes
  maxSize : Nat

/-- `realloc` when `max_size` is not more than the size of the encoded text. -/
def ParseBuffer.grow (b : ParseBuffer) (size : Nat) : ParseBuffer :=
  if b.maxSize ≤ size then ⟨resize b.val (size + 1), size + 1⟩ else b

/-- The loop of `query_decode`, which writes at `pntDecoded`: the buffer, and where the next byte would go. -/
def queryDecodeInto (maxDecodedSize : Nat) : Bytes → Bytes → Nat → Option (Bytes × Nat)
  | [], decoded, pntDecoded => some (decoded, pntDecoded)
  | c :: encoded, decoded, pntDecoded =>
    if pntDecoded ≥ maxDecodedSize then some (decoded, pntDecoded)
    else if c = 43 then
      (writeAt decoded pntDecoded [32]).bind (queryDecodeInto maxDecodedSize encoded · (pntDecoded + 1))
    else if c = 37 then
      match encoded with
      | h :: l :: encoded =>
        (writeAt decoded pntDecoded [UInt8.ofInt (strtol 16 [h, l]).1]).bind
          (queryDecodeInto maxDecodedSize encoded · (pntDecoded + 1))
      | _ => some (decoded, pntDecoded)
    else (writeAt decoded pntDecoded [c]).bind (queryDecodeInto maxDecodedSize encoded · (pntDecoded + 1))

/-- `query_decode` into a buffer and the NUL behind it: what was decoded, and the buffer. -/
def ParseBuffer.decode (b : ParseBuffer) (encoded : Bytes) : Option (Bytes × ParseBuffer) :=
  if b.maxSize ≥ encoded.length then do
    let (val, size) ← queryDecodeInto b.maxSize encoded b.val 0
    let val ← writeAt val size [0]
    some (val.take size, { b with val })
  else none

structure ParseBuffers where
  key : ParseBuffer
  value : ParseBuffer

structure PartInto where
  key : Bytes
  value : Bytes
  next : Option Bytes
  buffers : ParseBuffers

/-- `query_parse_part`; the inner `none` is its `-1`. -/
def queryParsePartInto (part : Bytes) (buffers : ParseBuffers) : Option (Option PartInto) :=
  let ekey := part.takeWhile (fun c => c ≠ 0 ∧ c ≠ 61)
  match part.dropWhile (fun c => c ≠ 0 ∧ c ≠ 61) with
  | [] => some none
  | c :: pnt =>
    if c = 0 then some none
    else
      let keyBuffer := buffers.key.grow ekey.length
      if ekey.length ≤ 0 ∨ ekey.head? = some 38 then some none
      else do
        let (key, keyBuffer) ← keyBuffer.decode ekey
        let evalue := pnt.takeWhile (fun c => c ≠ 0 ∧ c ≠ 38)
        let (value, valueBuffer) ← (buffers.value.grow evalue.length).decode evalue
        let next := match pnt.dropWhile (fun c => c ≠ 0 ∧ c ≠ 38) with
          | [] => none
          | c :: pnt => if c = 0 then none else some pnt
        some (some ⟨key, value, next, keyBuffer, valueBuffer⟩)

def queryParseIntoLoop (cb : σ → Bytes → Bytes → Option (Int × σ)) : Nat → Bytes → ParseBuffers → σ → Option (Int × σ)
  | 0, _, _, _ => none
  | fuel + 1, part, buffers, context => do
    match ← queryParsePartInto part buffers with
    | none => some (-1, context)
    | some p =>
      let (ret, context) ← cb context p.key p.value
      if ret ≠ 0 then some (1, context)
      else
        match p.next with
        | none => some (0, context)
        | some next => queryParseIntoLoop cb fuel next p.buffers context

/-- `query_parse`; both buffers are `NULL` to begin with. -/
def queryParseInto (query : Bytes) (cb : σ → Bytes → Bytes → Option (Int × σ)) (context : σ) : Option (Int × σ) :=
  match query with
  | [] => some (0, context)
  | c :: _ =>
    if c = 0 then some (0, context)
    else queryParseIntoLoop cb (query.length + 1) query ⟨⟨[], 0⟩, ⟨[], 0⟩⟩ context

/-! ## Nothing is written past the end of a buffer -/

/-- **The allocation has the size its `max_size` says.** -/
def ParseBuffer.Allocated (b : ParseBuffer) : Prop := b.val.length = b.maxSize

theorem ParseBuffer.Allocated.grow {b : ParseBuffer} (h : b.Allocated) (size : Nat) :
    (b.grow size).Allocated ∧ size < (b.grow size).maxSize ∧
      (b.grow size).maxSize = if b.maxSize ≤ size then size + 1 else b.maxSize := by
  unfold ParseBuffer.Allocated at h ⊢
  unfold ParseBuffer.grow
  split
  · rename_i hle
    refine ⟨?_, Nat.lt_succ_self size, rfl⟩
    simp only [resize, List.length_append, List.length_take, List.length_replicate]
    omega
  · exact ⟨h, by omega, rfl⟩

theorem queryDecodeLoop_length (max : Nat) : ∀ encoded decoded : Bytes,
    (queryDecodeLoop max encoded decoded).length ≤ decoded.length + encoded.length := by
  intro encoded decoded
  fun_induction queryDecodeLoop max encoded decoded <;> simp_all <;> omega

/-- One byte is decoded. -/
theorem writeAt_decoded {buffer decoded : Bytes} {max : Nat} (hlen : buffer.length = max)
    (hdecoded : buffer.take decoded.length = decoded) (hroom : decoded.length < max) (c : UInt8) :
    ∃ buffer', writeAt buffer decoded.length [c] = some buffer' ∧ buffer'.length = max ∧
      buffer'.take (decoded ++ [c]).length = decoded ++ [c] := by
  refine ⟨buffer.take decoded.length ++ [c] ++ buffer.drop (decoded.length + 1), ?_, ?_, ?_⟩
  · rw [writeAt, if_pos (by simp only [List.length_singleton]; omega)]
    rfl
  · simp only [List.length_append, List.length_take, List.length_drop, List.length_singleton]
    omega
  · rw [hdecoded]
    exact List.take_left

/-- **The decoder writes what it decodes**, and stays in the buffer. -/
theorem queryDecodeInto_spec {max : Nat} : ∀ (encoded : Bytes) {buffer decoded : Bytes}, buffer.length = max →
    buffer.take decoded.length = decoded → decoded.length ≤ max → ∃ buffer',
      queryDecodeInto max encoded buffer decoded.length =
        some (buffer', (queryDecodeLoop max encoded decoded).length) ∧
      buffer'.length = max ∧
      buffer'.take (queryDecodeLoop max encoded decoded).length = queryDecodeLoop max encoded decoded := by
  intro encoded
  induction h : encoded.length using Nat.strong_induction_on generalizing encoded with
  | _ n ih =>
    intro buffer decoded hlen hdecoded hle
    subst h
    have hwrite : ∀ c rest, rest.length < encoded.length → ¬ decoded.length ≥ max → ∃ buffer',
        (writeAt buffer decoded.length [c]).bind (queryDecodeInto max rest · (decoded.length + 1)) =
          some (buffer', (queryDecodeLoop max rest (decoded ++ [c])).length) ∧ buffer'.length = max ∧
        buffer'.take (queryDecodeLoop max rest (decoded ++ [c])).length =
          queryDecodeLoop max rest (decoded ++ [c]) := by
      intro c rest hrest hroom
      obtain ⟨buffer₁, hwrite, hlen₁, htake⟩ := writeAt_decoded hlen hdecoded (by omega) c
      obtain ⟨buffer₂, hinto, hlen₂⟩ := ih rest.length hrest rest rfl hlen₁ htake
        (by rw [List.length_append, List.length_singleton]; omega)
      refine ⟨buffer₂, ?_, hlen₂⟩
      rw [hwrite, Option.bind_some]
      rwa [List.length_append, List.length_singleton] at hinto
    cases encoded with
    | nil => exact ⟨buffer, rfl, hlen, hdecoded⟩
    | cons c rest =>
      rw [queryDecodeInto.eq_def, queryDecodeLoop.eq_def]
      simp only
      by_cases hfull : decoded.length ≥ max
      · simp only [if_pos hfull]
        exact ⟨buffer, rfl, hlen, hdecoded⟩
      · simp only [if_neg hfull]
        by_cases hplus : c = 43
        · simp only [if_pos hplus]
          exact hwrite 32 rest (by simp) hfull
        · simp only [if_neg hplus]
          by_cases hpercent : c = 37
          · simp only [if_pos hpercent]
            match rest with
            | [] => exact ⟨buffer, rfl, hlen, hdecoded⟩
            | [h] => exact ⟨buffer, rfl, hlen, hdecoded⟩
            | h :: l :: rest => exact hwrite _ rest (by simp only [List.length_cons]; omega) hfull
          · simp only [if_neg hpercent]
            exact hwrite c rest (by simp) hfull

/-- **A buffer that was enlarged takes what is decoded and its NUL.** -/
theorem ParseBuffer.Allocated.decode {b : ParseBuffer} (h : b.Allocated) (encoded : Bytes) :
    ∃ decoded b', (b.grow encoded.length).decode encoded = some (decoded, b') ∧ b'.Allocated ∧
      b'.maxSize = (b.grow encoded.length).maxSize ∧
      queryDecode encoded (b.grow encoded.length).maxSize = some decoded := by
  obtain ⟨hgrown, hroom, -⟩ := h.grow encoded.length
  generalize b.grow encoded.length = b₁ at hgrown hroom ⊢
  obtain ⟨val, hinto, hlen, htake⟩ := queryDecodeInto_spec encoded hgrown
    (show b₁.val.take ([] : Bytes).length = [] from rfl) (Nat.zero_le _)
  have hsize : (queryDecodeLoop b₁.maxSize encoded []).length ≤ encoded.length := by
    have := queryDecodeLoop_length b₁.maxSize encoded []
    rwa [List.length_nil, Nat.zero_add] at this
  obtain ⟨val', hnul, hlen', htake'⟩ := writeAt_decoded hlen htake (by omega) 0
  refine ⟨queryDecodeLoop b₁.maxSize encoded [], { b₁ with val := val' }, ?_, hlen', rfl, ?_⟩
  · rw [List.length_nil] at hinto
    have hkeep : val'.take (queryDecodeLoop b₁.maxSize encoded []).length = queryDecodeLoop b₁.maxSize encoded [] := by
      have := congrArg (List.take (queryDecodeLoop b₁.maxSize encoded []).length) htake'
      rwa [List.take_take, List.take_left, List.length_append, List.length_singleton,
        Nat.min_eq_left (Nat.le_succ _)] at this
    unfold ParseBuffer.decode
    rw [if_pos (le_of_lt hroom), hinto]
    simp only [Option.bind_eq_bind, Option.bind_some, hnul, hkeep]
  · rw [queryDecode, if_pos (le_of_lt hroom)]

/-- Both buffers have the sizes they say, those of the parser that keeps the sizes only. -/
def ParseBuffers.Sized (b : ParseBuffers) (sizes : QueryBuffers) : Prop :=
  b.key.Allocated ∧ b.value.Allocated ∧ b.key.maxSize = sizes.keyMaxSize ∧ b.value.maxSize = sizes.valueMaxSize

/-- **One part** is parsed as by the parser that keeps the sizes of the buffers only. -/
theorem queryParsePartInto_spec {b : ParseBuffers} {sizes : QueryBuffers} (h : b.Sized sizes) (part : Bytes) :
    queryParsePart part sizes = some none ∧ queryParsePartInto part b = some none ∨
    ∃ p b', queryParsePart part sizes = some (some p) ∧ ParseBuffers.Sized b' p.buffers ∧
      queryParsePartInto part b = some (some ⟨p.key, p.value, p.next, b'⟩) := by
  obtain ⟨hkey, hvalue, hkeySize, hvalueSize⟩ := h
  unfold queryParsePart queryParsePartInto
  cases hdrop : part.dropWhile (fun c => c ≠ 0 ∧ c ≠ 61) with
  | nil => exact .inl ⟨rfl, rfl⟩
  | cons c pnt =>
    by_cases hc : c = 0
    · simp only [if_pos hc]
      exact .inl ⟨trivial, trivial⟩
    · simp only [if_neg hc]
      generalize part.takeWhile (fun c => c ≠ 0 ∧ c ≠ 61) = ekey
      by_cases hempty : ekey.length ≤ 0 ∨ ekey.head? = some 38
      · simp only [if_pos hempty]
        exact .inl ⟨trivial, trivial⟩
      · simp only [if_neg hempty]
        generalize pnt.takeWhile (fun c => c ≠ 0 ∧ c ≠ 38) = evalue
        obtain ⟨key, keyBuffer, hk, hkOk, hkSize, hkDecode⟩ := hkey.decode ekey
        obtain ⟨value, valueBuffer, hv, hvOk, hvSize, hvDecode⟩ := hvalue.decode evalue
        rw [(hkey.grow ekey.length).2.2, hkeySize] at hkDecode hkSize
        rw [(hvalue.grow evalue.length).2.2, hvalueSize] at hvDecode hvSize
        simp only [hk, hv, hkDecode, hvDecode, Option.bind_eq_bind, Option.bind_some]
        exact .inr ⟨_, _, rfl, ⟨hkOk, hvOk, hkSize, hvSize⟩, rfl⟩

theorem queryParseIntoLoop_eq (cb : σ → Bytes → Bytes → Option (Int × σ)) : ∀ (fuel : Nat) {b : ParseBuffers}
    {sizes : QueryBuffers}, b.Sized sizes → ∀ (part : Bytes) (context : σ),
    queryParseIntoLoop cb fuel part b context = queryParseLoop cb fuel part sizes context
  | 0, _, _, _, _, _ => rfl
  | fuel + 1, b, sizes, h, part, context => by
    rw [queryParseIntoLoop, queryParseLoop]
    rcases queryParsePartInto_spec h part with ⟨hpart, hinto⟩ | ⟨p, b', hpart, hsized, hinto⟩
    · rw [hpart, hinto]
      rfl
    · rw [hpart, hinto]
      simp only [Option.bind_eq_bind, Option.bind_some]
      refine congrArg _ (funext fun r => ?_)
      cases p.next with
      | none => rfl
      | some next => exact congrArg (ite _ _) (queryParseIntoLoop_eq cb fuel hsized next _)

/-- **Nothing is ever written past the end of a buffer**: every query is parsed as by the parser without buffers. -/
theorem queryParseInto_eq (query : Bytes) (cb : σ → Bytes → Bytes → Option (Int × σ)) (context : σ) :
    queryParseInto query cb context = queryParse query cb context := by
  have hnull : ParseBuffers.Sized ⟨⟨[], 0⟩, ⟨[], 0⟩⟩ ⟨0, 0⟩ := ⟨rfl, rfl, rfl, rfl⟩
  unfold queryParseInto queryParse
  cases query with
  | nil => rfl
  | cons c query => simp only [queryParseIntoLoop_eq cb _ hnull]

/-! ## Strict percent-encoding -/

/-- An ASCII letter or digit. -/
def isAlphaNum (c : UInt8) : Bool := (48 ≤ c && c ≤ 57) || (65 ≤ c && c ≤ 90) || (97 ≤ c && c ≤ 122)

/-- **A byte in strict percent-encoding**: a percent sign and two hex digits of either case, a letter or a digit as it
is, a plus for a space. -/
inductive FormByte (c : UInt8) : Bytes → Prop
  | percent {h l : UInt8} {hi lo : Nat} : digitVal h = some hi → digitVal l = some lo → hi < 16 → lo < 16 →
      16 * hi + lo = c.toNat → FormByte c [37, h, l]
  | plain : isAlphaNum c = true → FormByte c [c]
  | plus : c = 32 → FormByte c [43]

inductive FormBytes : Bytes → Bytes → Prop
  | nil : FormBytes [] []
  | cons {c : UInt8} {s encodedByte encoded : Bytes} : FormByte c encodedByte → FormBytes s encoded →
      FormBytes (c :: s) (encodedByte ++ encoded)

/-- The pairs of a form, joined with `&`. -/
inductive FormQuery : List (Bytes × Bytes) → Bytes → Prop
  | one {name value encodedName encodedValue : Bytes} : FormBytes name encodedName → FormBytes value encodedValue →
      FormQuery [(name, value)] (encodedName ++ 61 :: encodedValue)
  | cons {name value encodedName encodedValue query : Bytes} {pairs : List (Bytes × Bytes)} :
      FormBytes name encodedName → FormBytes value encodedValue → FormQuery pairs query →
      FormQuery ((name, value) :: pairs) (encodedName ++ 61 :: (encodedValue ++ 38 :: query))

theorem isAlphaNum_clean : ∀ c : UInt8, isAlphaNum c = true → c ≠ 0 ∧ c ≠ 37 ∧ c ≠ 38 ∧ c ≠ 43 ∧ c ≠ 61 := by
  decide +kernel

theorem digitVal_clean : ∀ c : UInt8, (digitVal c).isSome = true → c ≠ 0 ∧ c ≠ 38 ∧ c ≠ 61 := by decide +kernel

/-- Nothing of an encoded byte ends a name, a value or the query. -/
theorem FormByte.clean {c d : UInt8} {e : Bytes} (h : FormByte c e) (hd : d ∈ e) : d ≠ 0 ∧ d ≠ 38 ∧ d ≠ 61 := by
  cases h with
  | percent hh hl =>
    simp only [List.mem_cons, List.not_mem_nil, or_false] at hd
    rcases hd with rfl | rfl | rfl
    · decide
    · exact digitVal_clean _ (by rw [hh]; rfl)
    · exact digitVal_clean _ (by rw [hl]; rfl)
  | plain hc =>
    obtain ⟨h0, -, h38, -, h61⟩ := isAlphaNum_clean c hc
    rw [List.mem_singleton.1 hd]
    exact ⟨h0, h38, h61⟩
  | plus =>
    rw [List.mem_singleton.1 hd]
    decide

theorem FormByte.length_pos {c : UInt8} {e : Bytes} (h : FormByte c e) : 0 < e.length := by cases h <;> simp

theorem FormBytes.clean {s e : Bytes} (h : FormBytes s e) {d : UInt8} (hd : d ∈ e) : d ≠ 0 ∧ d ≠ 38 ∧ d ≠ 61 := by
  induction h with
  | nil => exact absurd hd List.not_mem_nil
  | cons hc _ ih =>
    rcases List.mem_append.1 hd with hd | hd
    · exact hc.clean hd
    · exact ih hd

theorem FormBytes.length_pos {s e : Bytes} (h : FormBytes s e) (hne : s ≠ []) : 0 < e.length := by
  cases h with
  | nil => exact absurd rfl hne
  | cons hc _ =>
    have := hc.length_pos
    rw [List.length_append]
    omega

/-- A query of a form does not start with a NUL. -/
theorem FormQuery.head {pairs : List (Bytes × Bytes)} {query : Bytes} (h : FormQuery pairs query)
    (hnames : ∀ p ∈ pairs, p.1 ≠ []) : ∃ c rest, query = c :: rest ∧ c ≠ 0 := by
  have hfirst : ∀ {name e : Bytes}, FormBytes name e → name ≠ [] → ∀ rest, ∃ c rest',
      e ++ rest = c :: rest' ∧ c ≠ 0 := by
    intro name e hname hne rest
    obtain ⟨c, t, rfl⟩ := List.exists_cons_of_length_pos (hname.length_pos hne)
    exact ⟨c, t ++ rest, rfl, (hname.clean List.mem_cons_self).1⟩
  cases h with
  | one hname => exact hfirst hname (hnames _ List.mem_cons_self) _
  | cons hname => exact hfirst hname (hnames _ List.mem_cons_self) _

/-- Two hex digits are read as the byte they stand for. -/
theorem strtol_percent {c h l : UInt8} {hi lo : Nat} (hh : digitVal h = some hi) (hl : digitVal l = some lo)
    (hhi : hi < 16) (hlo : lo < 16) (hc : 16 * hi + lo = c.toNat) : UInt8.ofInt (strtol 16 [h, l]).1 = c := by
  have hdigits : ∀ d ∈ [h, l], Lib.isDigitOf 16 d = true := by
    intro d hd
    simp only [List.mem_cons, List.not_mem_nil, or_false] at hd
    rcases hd with rfl | rfl <;> simp [Lib.isDigitOf, *]
  have hval : Lib.ofDigits 16 [h, l] = c.toNat := by
    simp only [Lib.ofDigits, List.foldl_cons, List.foldl_nil, hh, hl, Option.getD_some]
    omega
  have hread := Lib.strtol_digits (by decide) hdigits (List.cons_ne_nil _ _)
    (show ∀ c ∈ ([] : Bytes).head?, Lib.isDigitOf 16 c = false ∧ Lib.tolower c ≠ 120 from fun _ hd => by cases hd)
  rw [List.append_nil, hval] at hread
  rw [hread]
  have hlt := c.toNat_lt
  rw [Int.min_eq_left (by omega)]
  refine UInt8.toNat_inj.1 ?_
  show (UInt8.ofNat ((c.toNat : Int) % 2 ^ 8).toNat).toNat = c.toNat
  rw [UInt8.toNat_ofNat']
  omega

/-- **The decoder reads one encoded byte.** -/
theorem queryDecodeLoop_formByte {max : Nat} {c : UInt8} {e : Bytes} (h : FormByte c e) (rest d : Bytes)
    (hd : d.length < max) : queryDecodeLoop max (e ++ rest) d = queryDecodeLoop max rest (d ++ [c]) := by
  cases h with
  | percent hh hl hhi hlo hc =>
    rw [List.cons_append, List.cons_append, List.cons_append, List.nil_append, queryDecodeLoop, if_neg (by omega),
      if_neg (by decide), if_pos rfl, strtol_percent hh hl hhi hlo hc]
  | plain hc =>
    obtain ⟨-, h37, -, h43, -⟩ := isAlphaNum_clean c hc
    rw [List.singleton_append, queryDecodeLoop.eq_def]
    simp only
    rw [if_neg (by omega), if_neg h43, if_neg h37]
  | plus hc =>
    rw [List.singleton_append, queryDecodeLoop.eq_def]
    simp only [if_true]
    rw [if_neg (by omega), hc]

theorem queryDecodeLoop_form {max : Nat} {s e : Bytes} (h : FormBytes s e) : ∀ d : Bytes, d.length + e.length ≤ max →
    queryDecodeLoop max e d = d ++ s := by
  induction h with
  | nil => exact fun d _ => by simp [queryDecodeLoop]
  | @cons c s e encoded hc _ ih =>
    intro d hroom
    have hpos := hc.length_pos
    rw [List.length_append] at hroom
    rw [queryDecodeLoop_formByte hc encoded d (by omega), ih _ (by simp; omega)]
    simp

theorem queryDecode_form {max : Nat} {s e : Bytes} (h : FormBytes s e) (hroom : e.length ≤ max) :
    queryDecode e max = some s := by
  rw [queryDecode, if_pos hroom, queryDecodeLoop_form h [] (by simpa using hroom), List.nil_append]

/-- **One pair of a form is parsed**, whatever the sizes of the buffers. -/
theorem queryParsePart_form {name value e f : Bytes} (hname : FormBytes name e) (hvalue : FormBytes value f)
    (hne : name ≠ []) (buffers : QueryBuffers) (next : Option Bytes) : ∃ buffers',
    queryParsePart (e ++ 61 :: (f ++ restOf next)) buffers = some (some ⟨name, value, next, buffers'⟩) := by
  have htake := takeWhile_append_cons (p := fun c => decide (c ≠ 0 ∧ c ≠ 61)) (s := e) (t := f ++ restOf next)
    (c := 61) (fun d hd => by simpa using ⟨(hname.clean hd).1, (hname.clean hd).2.2⟩) (by decide)
  have hclean : ∀ d ∈ f, decide (d ≠ 0 ∧ d ≠ 38) = true := fun d hd => by
    simpa using ⟨(hvalue.clean hd).1, (hvalue.clean hd).2.1⟩
  have htake' : (f ++ restOf next).takeWhile (fun c => decide (c ≠ 0 ∧ c ≠ 38)) = f := by
    rw [List.takeWhile_append_of_pos hclean]
    cases next <;> simp [restOf]
  have hdrop' : (f ++ restOf next).dropWhile (fun c => decide (c ≠ 0 ∧ c ≠ 38)) = restOf next := by
    rw [List.dropWhile_append_of_pos hclean]
    cases next <;> simp [restOf]
  have hlen := hname.length_pos hne
  have hhead : ¬ (e.length ≤ 0 ∨ e.head? = some 38) := by
    rintro (h | h)
    · omega
    · exact (hname.clean (List.mem_of_mem_head? h)).2.1 rfl
  unfold queryParsePart
  rw [htake.1, htake.2]
  simp only [if_neg (show ¬ (61 : UInt8) = 0 by decide), if_neg hhead, htake', hdrop']
  rw [queryDecode_form hname (by split <;> omega)]
  simp only [Option.bind_eq_bind, Option.bind_some]
  rw [queryDecode_form hvalue (by split <;> omega)]
  simp only [Option.bind_some]
  exact ⟨_, by cases next <;> rfl⟩

/-- **The pairs are given to the callback in their order**; the last of them ends the query. -/
theorem queryParseLoop_form {pairs : List (Bytes × Bytes)} {query : Bytes} (h : FormQuery pairs query)
    (hnames : ∀ p ∈ pairs, p.1 ≠ []) : ∀ (fuel : Nat) (buffers : QueryBuffers) (acc : List (Bytes × Bytes)),
    query.length < fuel → queryParseLoop collect fuel query buffers acc = some (0, acc ++ pairs) := by
  induction h with
  | @one name value e f hname hvalue =>
    intro fuel buffers acc hfuel
    obtain ⟨fuel, rfl⟩ := Nat.exists_eq_succ_of_ne_zero (Nat.ne_zero_of_lt hfuel)
    obtain ⟨b, hpart⟩ := queryParsePart_form hname hvalue (hnames _ List.mem_cons_self) buffers none
    rw [restOf, List.append_nil] at hpart
    rw [queryParseLoop, hpart]
    rfl
  | @cons name value e f query pairs hname hvalue _ ih =>
    intro fuel buffers acc hfuel
    obtain ⟨fuel, rfl⟩ := Nat.exists_eq_succ_of_ne_zero (Nat.ne_zero_of_lt hfuel)
    obtain ⟨b, hpart⟩ := queryParsePart_form hname hvalue (hnames _ List.mem_cons_self) buffers (some query)
    have hrest := ih (fun p hp => hnames p (List.mem_cons_of_mem _ hp)) fuel b (acc ++ [(name, value)]) (by
      simp only [List.length_append, List.length_cons] at hfuel
      omega)
    rw [show e ++ 61 :: (f ++ 38 :: query) = e ++ 61 :: (f ++ restOf (some query)) from rfl, queryParseLoop, hpart]
    simp only [Option.bind_eq_bind, Option.bind_some, collect, ne_eq, not_true_eq_false, if_false, hrest,
      List.append_assoc, List.singleton_append]

/-- **Parsing inverts strict percent-encoding**, and every callback gets exactly the pairs. -/
theorem query_parse_form {pairs : List (Bytes × Bytes)} {query : Bytes} (h : FormQuery pairs query)
    (hnames : ∀ p ∈ pairs, p.1 ≠ []) : queryParseInto query collect [] = some (0, pairs) ∧
    ∀ {σ : Type} (cb : σ → Bytes → Bytes → Option (Int × σ)) (context : σ), queryParseInto query cb context =
      (walk cb pairs context).map (fun r => (if r.1 ≠ 0 then 1 else 0, r.2)) := by
  have hparse : queryParse query collect [] = some (0, pairs) := by
    obtain ⟨c, rest, hquery, hc⟩ := h.head hnames
    have hloop := queryParseLoop_form h hnames (query.length + 1) ⟨0, 0⟩ [] (Nat.lt_succ_self _)
    rw [hquery] at hloop ⊢
    simpa only [queryParse, if_neg hc, List.nil_append] using hloop
  refine ⟨by rw [queryParseInto_eq, hparse], fun cb context => ?_⟩
  rw [queryParseInto_eq]
  exact queryParse_walk hparse cb context

/-- Two pairs: a NUL and a space in the first name, an empty value, a longer name after it. -/
theorem query_parse_form_two :
    queryParseInto (bytes "a%00+=&b%2Bc=%3d") collect [] = some (0, [([97, 0, 32], []), (bytes "b+c", bytes "=")]) ∧
    ∀ {σ : Type} (cb : σ → Bytes → Bytes → Option (Int × σ)) (context : σ),
      queryParseInto (bytes "a%00+=&b%2Bc=%3d") cb context =
        (walk cb [([97, 0, 32], []), (bytes "b+c", bytes "=")] context).map
          (fun r => (if r.1 ≠ 0 then 1 else 0, r.2)) := by
  have hname : FormBytes [97, 0, 32] (bytes "a%00+") :=
    .cons (.plain (by decide)) (.cons (.percent (show digitVal 48 = some 0 from rfl)
      (show digitVal 48 = some 0 from rfl) (by decide) (by decide) rfl) (.cons (.plus rfl) .nil))
  have hname' : FormBytes (bytes "b+c") (bytes "b%2Bc") :=
    .cons (.plain (by decide)) (.cons (.percent (show digitVal 50 = some 2 from rfl)
      (show digitVal 66 = some 11 from rfl) (by decide) (by decide) rfl) (.cons (.plain (by decide)) .nil))
  have hvalue : FormBytes (bytes "=") (bytes "%3d") :=
    .cons (.percent (show digitVal 51 = some 3 from rfl) (show digitVal 100 = some 13 from rfl)
      (by decide) (by decide) rfl) .nil
  exact query_parse_form (.cons hname .nil (.one hname' hvalue)) (by decide)

end Pincaster
