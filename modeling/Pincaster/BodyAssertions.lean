import Pincaster.FormParsing
import Pincaster.PropertyMaps
/-!
# BodyAssertions — the lengths of the names and values a PUT gives to the slip maps

`query_parse_part` checks that the encoded name is not empty; what is asserted later is that the decoded one is not, and
that neither it nor the value has more than 65535 bytes.  An escape that is cut off decodes to nothing, and nothing bounds
the lengths (`put_body_assertions_iff`).
-/
namespace Pincaster

open Lib (Bytes bytes cstr strchr walk)

variable {σ : Type}

/-! ## The pairs of a query -/

/-- The encoded name and value of a part, and the part after it; none without a `=` or without a name. -/
def encodedPair (part : Bytes) : Option (Bytes × Bytes × Option Bytes) :=
  match strchr part 61 with
  | none => none
  | some (name, rest) =>
    if name = [] ∨ name.head? = some 38 then none
    else match strchr rest 38 with
      | none => some (name, rest, none)
      | some (value, next) => some (name, value, some next)

/-- The encoded pairs of a query, up to the first part that has none. -/
def encodedPairs : Nat → Bytes → List (Bytes × Bytes)
  | 0, _ => []
  | fuel + 1, part => match encodedPair part with
    | none => []
    | some (name, value, none) => [(name, value)]
    | some (name, value, some next) => (name, value) :: encodedPairs fuel next

/-- What `query_decode` makes of an encoded text, with room for it. -/
def decoded (encoded : Bytes) : Bytes := queryDecodeLoop encoded.length encoded []

/-- How many bytes that are: one for a byte and for a whole escape; an escape that is cut off ends it. -/
def decodedSize : Bytes → Nat
  | [] => 0
  | c :: s =>
    if c = 37 then
      match s with
      | _ :: _ :: s => decodedSize s + 1
      | _ => 0
    else decodedSize s + 1

/-- The room the decoder has makes no difference when there is enough of it. -/
theorem queryDecodeLoop_room {max max' : Nat} : ∀ encoded d : Bytes, d.length + encoded.length ≤ max →
    d.length + encoded.length ≤ max' → queryDecodeLoop max encoded d = queryDecodeLoop max' encoded d ∧
      (queryDecodeLoop max encoded d).length = d.length + decodedSize encoded := by
  intro encoded
  induction h : encoded.length using Nat.strong_induction_on generalizing encoded with
  | _ n ih =>
    intro d hroom hroom'
    subst h
    have hone : ∀ c rest, rest.length < encoded.length → d.length < max → d.length < max' →
        queryDecodeLoop max rest (d ++ [c]) = queryDecodeLoop max' rest (d ++ [c]) ∧
          (queryDecodeLoop max rest (d ++ [c])).length = d.length + (decodedSize rest + 1) := by
      intro c rest hrest _ _
      obtain ⟨heq, hlen⟩ := ih rest.length hrest rest rfl (d ++ [c])
        (by rw [List.length_append, List.length_singleton]; omega)
        (by rw [List.length_append, List.length_singleton]; omega)
      refine ⟨heq, hlen.trans ?_⟩
      rw [List.length_append, List.length_singleton]
      omega
    cases encoded with
    | nil => exact ⟨by simp only [queryDecodeLoop], by simp [queryDecodeLoop, decodedSize]⟩
    | cons c rest =>
      rw [List.length_cons] at hroom hroom'
      have hlt : d.length < max := by omega
      have hlt' : d.length < max' := by omega
      rw [queryDecodeLoop.eq_def max, queryDecodeLoop.eq_def max', decodedSize.eq_def]
      simp only [if_neg (Nat.not_le.2 hlt), if_neg (Nat.not_le.2 hlt'), ge_iff_le]
      by_cases hplus : c = 43
      · simp only [hplus, if_true, if_neg (show ¬ (43 : UInt8) = 37 by decide)]
        exact hone 32 rest (by simp) hlt hlt'
      · simp only [if_neg hplus]
        by_cases hpercent : c = 37
        · simp only [if_pos hpercent]
          rcases rest with _ | ⟨h, _ | ⟨l, rest⟩⟩
          · exact ⟨rfl, rfl⟩
          · exact ⟨rfl, rfl⟩
          · exact hone _ rest (by simp only [List.length_cons]; omega) hlt hlt'
        · simp only [if_neg hpercent]
          exact hone c rest (by simp) hlt hlt'

theorem length_decoded (encoded : Bytes) : (decoded encoded).length = decodedSize encoded := by
  have hroom : ([] : Bytes).length + encoded.length ≤ encoded.length := by simp
  have h := (queryDecodeLoop_room encoded [] hroom hroom).2
  rwa [List.length_nil, Nat.zero_add] at h

theorem queryDecode_eq {encoded : Bytes} {max : Nat} (h : encoded.length ≤ max) :
    queryDecode encoded max = some (decoded encoded) := by
  have hroom : ([] : Bytes).length + encoded.length ≤ encoded.length := by simp
  rw [queryDecode, if_pos h, decoded, (queryDecodeLoop_room encoded [] (by simpa using h) hroom).1]

/-- A name that is not empty decodes to nothing when it is an escape that is cut off. -/
theorem decodedSize_pos {name : Bytes} (hne : name ≠ []) :
    0 < decodedSize name ↔ ¬ (name.head? = some 37 ∧ name.length ≤ 2) := by
  match name with
  | [c] => by_cases hc : c = 37 <;> simp [decodedSize, hc]
  | [c, d] => by_cases hc : c = 37 <;> simp [decodedSize, hc]
  | c :: _ :: _ :: s => by_cases hc : c = 37 <;> simp [decodedSize, hc]

/-! ## The parser gives the callback these pairs -/

theorem cstr_cstr (s : Bytes) : cstr (cstr s) = cstr s := Lib.cstr_of_not_mem (Lib.zero_not_mem_cstr s)

theorem encodedPair_cstr (part : Bytes) : encodedPair (cstr part) = encodedPair part := by
  simp only [encodedPair, strchr, cstr_cstr]

theorem encodedPairs_cstr (fuel : Nat) (part : Bytes) : encodedPairs fuel (cstr part) = encodedPairs fuel part := by
  cases fuel with
  | zero => rfl
  | succ fuel => rw [encodedPairs, encodedPairs, encodedPair_cstr]

/-- A scan up to a byte or the NUL is one of the C string. -/
theorem takeWhile_cstr (c : UInt8) (s : Bytes) :
    s.takeWhile (fun d => decide (d ≠ 0 ∧ d ≠ c)) = (cstr s).takeWhile (· ≠ c) := by
  rw [cstr, List.takeWhile_takeWhile]
  congr 1
  funext d
  simp [and_comm]

/-- It stops at the first such byte of the C string, or at its end. -/
theorem dropWhile_cstr {c : UInt8} (hc : c ≠ 0) : ∀ s : Bytes,
    (c ∈ cstr s ∧ ∃ t, s.dropWhile (fun d => decide (d ≠ 0 ∧ d ≠ c)) = c :: t ∧
      cstr t = ((cstr s).dropWhile (· ≠ c)).tail) ∨
    (c ∉ cstr s ∧ ∀ d t, s.dropWhile (fun d => decide (d ≠ 0 ∧ d ≠ c)) = d :: t → d = 0)
  | [] => .inr ⟨List.not_mem_nil, fun _ _ h => by cases h⟩
  | d :: s => by
    by_cases hd : d = 0
    · subst hd
      exact .inr ⟨by simp [cstr], fun e t h => by simpa using (List.cons.inj h).1.symm⟩
    · have hcons : cstr (d :: s) = d :: cstr s := by simp [cstr, hd]
      by_cases hdc : d = c
      · subst hdc
        exact .inl ⟨by simp [hcons], s, by simp, by simp [hcons]⟩
      · have hdrop : (d :: s).dropWhile (fun d => decide (d ≠ 0 ∧ d ≠ c)) =
            s.dropWhile (fun d => decide (d ≠ 0 ∧ d ≠ c)) := List.dropWhile_cons_of_pos (by simp [hd, hdc])
        rw [hdrop, hcons, List.mem_cons, or_iff_right (Ne.symm hdc), List.dropWhile_cons_of_pos (by simpa using hdc)]
        exact dropWhile_cstr hc s

/-- **One part** is parsed to its pair, decoded. -/
theorem queryParsePart_encodedPair (part : Bytes) (buffers : QueryBuffers) :
    encodedPair part = none ∧ queryParsePart part buffers = some none ∨
    ∃ name value p, encodedPair part = some (name, value, p.next.map cstr) ∧ p.key = decoded name ∧
      p.value = decoded value ∧ queryParsePart part buffers = some (some p) := by
  unfold encodedPair queryParsePart strchr
  rcases dropWhile_cstr (c := 61) (by decide) part with ⟨hmem, pnt, hdrop, hpnt⟩ | ⟨hnot, hend⟩
  · rw [takeWhile_cstr, hdrop]
    simp only [if_pos hmem, if_neg (show ¬ (61 : UInt8) = 0 by decide), Nat.le_zero, List.length_eq_zero_iff]
    generalize (cstr part).takeWhile (· ≠ 61) = ekey
    by_cases hempty : ekey = [] ∨ ekey.head? = some 38
    · simp only [if_pos hempty]
      exact .inl ⟨trivial, trivial⟩
    · right
      simp only [if_neg hempty, ← hpnt, cstr_cstr, takeWhile_cstr]
      rw [queryDecode_eq (by split <;> omega)]
      simp only [Option.bind_eq_bind, Option.bind_some]
      rw [queryDecode_eq (by split <;> omega)]
      simp only [Option.bind_some]
      rcases dropWhile_cstr (c := 38) (by decide) pnt with ⟨hmem, next, hdrop, hnext⟩ | ⟨hnot, hend⟩
      · rw [hdrop]
        simp only [if_pos hmem, if_neg (show ¬ (38 : UInt8) = 0 by decide), ← hnext]
        exact ⟨_, _, _, rfl, rfl, rfl, rfl⟩
      · have hall : (cstr pnt).takeWhile (· ≠ 38) = cstr pnt :=
          List.takeWhile_eq_self_iff.2 (fun d hd => by
            simp only [ne_eq, decide_eq_true_eq]
            rintro rfl
            exact hnot hd)
        simp only [if_neg hnot, hall]
        cases hrest : pnt.dropWhile (fun d => decide (d ≠ 0 ∧ d ≠ 38)) with
        | nil => exact ⟨_, _, _, rfl, rfl, rfl, rfl⟩
        | cons d t =>
          obtain rfl := hend d t hrest
          exact ⟨_, _, _, rfl, rfl, rfl, rfl⟩
  · left
    simp only [if_neg hnot, true_and]
    cases hrest : part.dropWhile (fun d => decide (d ≠ 0 ∧ d ≠ 61)) with
    | nil => rfl
    | cons d t =>
      obtain rfl := hend d t hrest
      simp

theorem encodedPair_spec {part name value : Bytes} {next : Option Bytes}
    (h : encodedPair part = some (name, value, next)) : name ≠ [] ∧ ∀ rest ∈ next, rest.length < (cstr part).length := by
  have hcut : ∀ {s before after : Bytes} {c : UInt8}, strchr s c = some (before, after) →
      after.length < (cstr s).length := by
    intro s before after c hchr
    unfold strchr at hchr
    split at hchr
    · rename_i hmem
      cases hchr
      have hne : (cstr s).dropWhile (· ≠ c) ≠ [] := fun hnil => by
        simpa using List.dropWhile_eq_nil_iff.1 hnil c hmem
      have hle := (List.dropWhile_sublist (· ≠ c) (l := cstr s)).length_le
      have hpos := List.length_pos_of_ne_nil hne
      rw [List.length_tail]
      omega
    · cases hchr
  unfold encodedPair at h
  split at h
  · cases h
  · rename_i hsign
    split at h
    · cases h
    · rename_i hname
      split at h
      · cases h
        exact ⟨fun hnil => hname (.inl hnil), fun _ hrest => by cases hrest⟩
      · rename_i hand
        cases h
        refine ⟨fun hnil => hname (.inl hnil), fun _ hrest => ?_⟩
        cases hrest
        have h1 := hcut hsign
        have h2 := hcut hand
        exact h2.trans ((List.takeWhile_sublist _).length_le.trans_lt h1)

/-- A pair with its name and its value decoded. -/
def decodedPair (p : Bytes × Bytes) : Bytes × Bytes := (decoded p.1, decoded p.2)

theorem queryParseLoop_pairs : ∀ (fuel : Nat) (part : Bytes) (buffers : QueryBuffers), (cstr part).length < fuel →
    ∃ status : Int, ∀ {σ : Type} (cb : σ → Bytes → Bytes → Option (Int × σ)) (context : σ),
      queryParseLoop cb fuel part buffers context = (walk cb ((encodedPairs fuel part).map decodedPair) context).map
        (fun r => (if r.1 ≠ 0 then 1 else status, r.2))
  | 0, _, _, h => by omega
  | fuel + 1, part, buffers, h => by
    rcases queryParsePart_encodedPair part buffers with ⟨hnone, hpart⟩ | ⟨name, value, p, hpair, hkey, hvalue, hpart⟩
    · refine ⟨-1, fun cb context => ?_⟩
      rw [queryParseLoop, hpart, encodedPairs, hnone]
      rfl
    · obtain ⟨-, hlt⟩ := encodedPair_spec hpair
      have hone : ∀ {σ : Type} (cb : σ → Bytes → Bytes → Option (Int × σ)) (ps : List (Bytes × Bytes)) (status : Int)
          (rest : σ → Option (Int × σ)), (∀ context, rest context = (walk cb ps context).map
            (fun r => (if r.1 ≠ 0 then 1 else status, r.2))) → ∀ context,
          (cb context p.key p.value).bind (fun r => if r.1 ≠ 0 then some (1, r.2) else rest r.2) =
            (walk cb (decodedPair (name, value) :: ps) context).map
              (fun r => (if r.1 ≠ 0 then 1 else status, r.2)) := by
        intro σ cb ps status rest hrest context
        rw [decodedPair, ← hkey, ← hvalue, walk]
        rcases cb context p.key p.value with _ | ⟨ret, context'⟩
        · rfl
        · by_cases hret : ret = 0
          · simp [hret, hrest]
          · simp [hret]
      cases hnext : p.next with
      | none =>
        refine ⟨0, fun cb context => ?_⟩
        rw [hnext] at hpair
        rw [queryParseLoop, hpart, encodedPairs, hpair]
        simp only [Option.bind_eq_bind, Option.bind_some, hnext]
        exact hone cb [] 0 (fun context => some (0, context)) (fun _ => rfl) context
      | some next =>
        rw [hnext] at hpair hlt
        obtain ⟨status, hstatus⟩ := queryParseLoop_pairs fuel next p.buffers (by
          have := hlt _ rfl
          omega)
        refine ⟨status, fun cb context => ?_⟩
        rw [queryParseLoop, hpart, encodedPairs, hpair]
        simp only [Option.bind_eq_bind, Option.bind_some, hnext, Option.map_some, List.map_cons, encodedPairs_cstr]
        exact hone cb _ status _ (hstatus cb) context

/-- The pairs of a PUT body, encoded. -/
def bodyPairs (body : Bytes) : List (Bytes × Bytes) := encodedPairs (body.length + 2) body

/-- **`query_parse` gives the callback the pairs of a body**, decoded, until the callback stops it. -/
theorem queryParse_pairs (body : Bytes) : ∃ status : Int, ∀ {σ : Type} (cb : σ → Bytes → Bytes → Option (Int × σ))
    (context : σ), queryParse (body ++ [0]) cb context = (walk cb ((bodyPairs body).map decodedPair) context).map
      (fun r => (if r.1 ≠ 0 then 1 else status, r.2)) := by
  have hcstr : cstr (body ++ [0]) = cstr body := by
    unfold cstr
    rw [List.takeWhile_append]
    split
    · rename_i hall
      rw [(List.takeWhile_sublist _).eq_of_length hall]
      simp
    · rfl
  have hlen : (cstr (body ++ [0])).length < (body ++ [0]).length + 1 :=
    Nat.lt_succ_of_le (List.takeWhile_sublist _).length_le
  have hpairs : encodedPairs ((body ++ [0]).length + 1) (body ++ [0]) = bodyPairs body := by
    rw [← encodedPairs_cstr, hcstr, encodedPairs_cstr, List.length_append, List.length_singleton, bodyPairs]
  obtain ⟨status, hstatus⟩ := queryParseLoop_pairs ((body ++ [0]).length + 1) (body ++ [0]) ⟨0, 0⟩ hlen
  rw [hpairs] at hstatus
  cases body with
  | nil => exact ⟨0, fun _ _ => rfl⟩
  | cons c body =>
    by_cases hc : c = 0
    · subst hc
      exact ⟨0, fun _ _ => rfl⟩
    · refine ⟨status, fun cb context => ?_⟩
      rw [← hstatus, List.cons_append, queryParse]
      exact if_neg hc

/-! ## The lengths -/

variable (D : Type) [Dimension D]

/-- The status of the parser for a position or a time of expiration; none for a property. -/
def fieldStatus (name value : Bytes) : Option Int :=
  if binvalIsEqualToConstString name INT_PROPERTY_POSITION then
    some (parsePosition (recordsPutOp [] [] : RecordsPutOp D) value).1
  else if binvalIsEqualToConstString name INT_PROPERTY_EXPIRES_AT then
    some (parseExpiresAt (recordsPutOp [] [] : RecordsPutOp D) value).1
  else none

/-- The pairs the parser gets to: all, or those up to a position or a time of expiration it cannot read. -/
def readPairs : List (Bytes × Bytes) → List (Bytes × Bytes)
  | [] => []
  | p :: ps => p :: if (fieldStatus D (decoded p.1) (decoded p.2)).getD 0 = 0 then readPairs ps else []

/-- **The lengths of a property fit**: the name is not an escape that is cut off, and neither it nor the value decodes
to more than 65535 bytes. -/
def PropertyFits (p : Bytes × Bytes) : Prop :=
  ¬ (p.1.head? = some 37 ∧ p.1.length ≤ 2) ∧ decodedSize p.1 ≤ 0xffff ∧ decodedSize p.2 ≤ 0xffff

instance (p : Bytes × Bytes) : Decidable (PropertyFits p) := inferInstanceAs (Decidable (_ ∧ _))

/-- Every pair the parser gets to is a position, a time of expiration, or fits. -/
def BodyFits (body : Bytes) : Prop :=
  ∀ p ∈ readPairs D (bodyPairs body), (fieldStatus D (decoded p.1) (decoded p.2)).isSome = true ∨ PropertyFits p

instance (body : Bytes) : Decidable (BodyFits D body) := inferInstanceAs (Decidable (∀ p ∈ _, _))

/-- **The assertions on the lengths** of a name and a value. -/
def LengthsOk (key value : Bytes) : Prop := KeyLen key ∧ value.length ≤ 0xffff

instance (key value : Bytes) : Decidable (LengthsOk key value) := inferInstanceAs (Decidable ((_ ∧ _) ∧ _))

/-- The callback, for what it gives to `replace_entry_in_slip_map` only; an assertion that fails ends the query. -/
def notePropertyCb (calls : List (Bytes × Bytes)) (key value : Bytes) : Option (Int × List (Bytes × Bytes)) :=
  match fieldStatus D key value with
  | some ret => some (ret, calls)
  | none => some (if LengthsOk key value then 0 else 1, calls ++ [(key, value)])

/-- The names and values that a body gives to `replace_entry_in_slip_map`, or to the assertion before it. -/
def propertyCalls (body : Bytes) : List (Bytes × Bytes) :=
  ((queryParse (body ++ [0]) (notePropertyCb D) []).map Prod.snd).getD []

variable {D}

theorem parsePosition_status (putOp putOp' : RecordsPutOp D) (value : Bytes) :
    (parsePosition putOp value).1 = (parsePosition putOp' value).1 := by
  unfold parsePosition
  simp only
  repeat' split
  all_goals rfl

omit [Dimension D] in
theorem parseExpiresAt_status (putOp putOp' : RecordsPutOp D) (value : Bytes) :
    (parseExpiresAt putOp value).1 = (parseExpiresAt putOp' value).1 := by
  unfold parseExpiresAt
  simp only
  split <;> rfl

/-- A property that was put has passed the assertions. -/
theorem lengthsOk_of_isSome {putOp : RecordsPutOp D} {key value : Bytes} {r : Int × RecordsPutOp D}
    (hprop : IsProperty key) (h : recordsPutOptParseCb putOp key value = some r) : LengthsOk key value := by
  unfold recordsPutOptParseCb at h
  rw [if_neg (by rw [hprop.1]; exact Bool.false_ne_true), if_neg (by rw [hprop.2]; exact Bool.false_ne_true)] at h
  cases key with
  | nil => cases h
  | cons c key =>
    simp only at h
    split at h
    · obtain ⟨m, hput, -⟩ := Option.map_eq_some_iff.1 h
      exact keyLen_of_putProperty hput
    · obtain ⟨m, hput, -⟩ := Option.map_eq_some_iff.1 h
      exact keyLen_of_putProperty hput

/-- **The callback has a result** for a field, and for a property exactly when its lengths pass the assertions. -/
theorem recordsPutOptParseCb_status {putOp : RecordsPutOp D} (h : PutOpOk putOp) (key value : Bytes) :
    ((recordsPutOptParseCb putOp key value).isSome = true ↔
      (fieldStatus D key value).isSome = true ∨ LengthsOk key value) ∧
    ∀ ret putOp', recordsPutOptParseCb putOp key value = some (ret, putOp') →
      ret = (fieldStatus D key value).getD 0 := by
  by_cases hloc : binvalIsEqualToConstString key INT_PROPERTY_POSITION = true
  · unfold recordsPutOptParseCb fieldStatus
    simp only [if_pos hloc, Option.isSome_some, true_or, Option.some.injEq, Option.getD_some]
    refine ⟨trivial, fun ret putOp' heq => ?_⟩
    rw [parsePosition_status _ putOp, heq]
  · by_cases hexpires : binvalIsEqualToConstString key INT_PROPERTY_EXPIRES_AT = true
    · unfold recordsPutOptParseCb fieldStatus
      simp only [if_neg hloc, if_pos hexpires, Option.isSome_some, true_or, Option.some.injEq, Option.getD_some]
      refine ⟨trivial, fun ret putOp' heq => ?_⟩
      rw [parseExpiresAt_status _ putOp, heq]
    · have hfield : fieldStatus D key value = none := by
        unfold fieldStatus
        rw [if_neg hloc, if_neg hexpires]
      have hprop : IsProperty key := ⟨by simpa using hloc, by simpa using hexpires⟩
      rw [hfield]
      refine ⟨⟨fun hsome => ?_, fun hlen => ?_⟩, fun ret putOp' hcb => ?_⟩
      · obtain ⟨r, hr⟩ := Option.isSome_iff_exists.1 hsome
        exact .inr (lengthsOk_of_isSome hprop hr)
      · have hlen := hlen.resolve_left Bool.false_ne_true
        obtain ⟨ret, putOp', hcb, -⟩ := recordsPutOptParseCb_isSome h hlen.1 hlen.2
        rw [hcb]
        rfl
      · have hlen := lengthsOk_of_isSome hprop hcb
        obtain ⟨ret', putOp'', hcb', hzero⟩ := recordsPutOptParseCb_isSome h hlen.1 hlen.2
        rw [hcb, Option.some.injEq, Prod.mk.injEq] at hcb'
        exact hcb'.1.trans (hzero hprop)

/-- The lengths of a pair with an encoded name pass the assertions exactly when they fit. -/
theorem lengthsOk_decoded {p : Bytes × Bytes} (hne : p.1 ≠ []) :
    LengthsOk (decoded p.1) (decoded p.2) ↔ PropertyFits p := by
  unfold LengthsOk KeyLen PropertyFits
  rw [length_decoded, length_decoded, decodedSize_pos hne, and_assoc]

theorem bodyPairs_ne_nil : ∀ (fuel : Nat) (part : Bytes), ∀ p ∈ encodedPairs fuel part, p.1 ≠ []
  | 0, _, _, hp => by cases hp
  | fuel + 1, part, p, hp => by
    rw [encodedPairs] at hp
    split at hp
    · cases hp
    · rename_i hpair
      rw [List.mem_singleton.1 hp]
      exact (encodedPair_spec hpair).1
    · rename_i hpair
      rcases List.mem_cons.1 hp with rfl | hp
      · exact (encodedPair_spec hpair).1
      · exact bodyPairs_ne_nil fuel _ p hp

/-- **The pairs are put without a failed assertion exactly when each the parser gets to fits.** -/
theorem walk_putOptParseCb_isSome : ∀ (ps : List (Bytes × Bytes)) (putOp : RecordsPutOp D), PutOpOk putOp →
    (∀ p ∈ ps, p.1 ≠ []) → ((walk recordsPutOptParseCb (ps.map decodedPair) putOp).isSome = true ↔
      ∀ p ∈ readPairs D ps, (fieldStatus D (decoded p.1) (decoded p.2)).isSome = true ∨ PropertyFits p)
  | [], _, _, _ => by simp [walk, readPairs]
  | p :: ps, putOp, hok, hne => by
    obtain ⟨hsome, hret⟩ := recordsPutOptParseCb_status hok (decoded p.1) (decoded p.2)
    rw [lengthsOk_decoded (hne p List.mem_cons_self)] at hsome
    rw [List.map_cons, decodedPair, walk, readPairs, List.forall_mem_cons, ← hsome]
    rcases hcb : recordsPutOptParseCb putOp (decoded p.1) (decoded p.2) with _ | ⟨ret, putOp'⟩
    · simp
    · rw [← hret ret putOp' hcb]
      have ih := walk_putOptParseCb_isSome ps putOp' (recordsPutOptParseCb_ok hok hcb).1
        (fun p' hp' => hne p' (List.mem_cons_of_mem _ hp'))
      by_cases hzero : ret = 0
      · simpa [hzero] using ih
      · simp [hzero]

/-- **The names and values of these calls pass the assertions exactly when each pair the parser gets to fits.** -/
theorem walk_notePropertyCb : ∀ (ps calls : List (Bytes × Bytes)), (∀ p ∈ ps, p.1 ≠ []) → ∃ ret noted,
    walk (notePropertyCb D) (ps.map decodedPair) calls = some (ret, calls ++ noted) ∧
      ((∀ p ∈ noted, LengthsOk p.1 p.2) ↔
        ∀ p ∈ readPairs D ps, (fieldStatus D (decoded p.1) (decoded p.2)).isSome = true ∨ PropertyFits p)
  | [], calls, _ => ⟨0, [], by simp [walk], by simp [readPairs]⟩
  | p :: ps, calls, hne => by
    have hfits := lengthsOk_decoded (hne p List.mem_cons_self)
    have ih := fun calls => walk_notePropertyCb ps calls (fun p' hp' => hne p' (List.mem_cons_of_mem _ hp'))
    simp only [List.map_cons, decodedPair, walk, notePropertyCb, readPairs, List.forall_mem_cons, Option.bind_eq_bind]
    cases hfield : fieldStatus D (decoded p.1) (decoded p.2) with
    | some ret =>
      simp only [Option.bind_some, Option.isSome_some, true_or, true_and, Option.getD_some]
      by_cases hzero : ret = 0
      · simp only [hzero, ne_eq, not_true_eq_false, if_false, if_true]
        exact ih calls
      · simp only [ne_eq, hzero, not_false_eq_true, if_true, if_false]
        exact ⟨ret, [], by rw [List.append_nil], by simp⟩
    | none =>
      simp only [Option.bind_some, Option.isSome_none, Bool.false_eq_true, false_or, Option.getD_none, if_true]
      by_cases hok : LengthsOk (decoded p.1) (decoded p.2)
      · simp only [if_pos hok, ne_eq, not_true_eq_false, if_false]
        obtain ⟨ret, noted, hwalk, hall⟩ := ih (calls ++ [(decoded p.1, decoded p.2)])
        refine ⟨ret, (decoded p.1, decoded p.2) :: noted, by rw [hwalk, List.append_assoc]; rfl, ?_⟩
        rw [List.forall_mem_cons, hall, hfits]
      · simp only [if_neg hok, ne_eq, one_ne_zero, not_false_eq_true, if_true]
        refine ⟨1, [(decoded p.1, decoded p.2)], rfl, iff_of_false ?_ ?_⟩
        · exact fun hall => hok (hall _ List.mem_cons_self)
        · exact fun hall => hok (hfits.2 hall.1)

/-- **The assertions on the lengths hold for a body exactly when its properties fit**, those the parser gets to; and
then, and only then, the parser comes to its end. -/
theorem put_body_assertions_iff (layerName key : Key) (body : Bytes) :
    ((∀ p ∈ propertyCalls D body, LengthsOk p.1 p.2) ↔ BodyFits D body) ∧
    ((queryParse (body ++ [0]) recordsPutOptParseCb (recordsPutOp layerName key : RecordsPutOp D)).isSome = true ↔
      BodyFits D body) := by
  obtain ⟨status, hparse⟩ := queryParse_pairs body
  have hne := bodyPairs_ne_nil (body.length + 2) body
  constructor
  · obtain ⟨ret, noted, hwalk, hall⟩ := walk_notePropertyCb (D := D) (bodyPairs body) [] hne
    rw [propertyCalls, hparse, hwalk]
    exact hall
  · rw [hparse, Option.isSome_map]
    exact walk_putOptParseCb_isSome (bodyPairs body) _ (recordsPutOp_ok layerName key) hne

/-- A position, and a property whose value ends in an escape cut off. -/
example : BodyFits ℚ (bytes "_loc=1,+%202&a=%2") := by decide +kernel

/-- **A name that is an escape cut off aborts the server**: it decodes to no bytes. -/
theorem put_body_aborts : (¬ ∀ (layerName key : Key) (body : Bytes),
      (queryParse (body ++ [0]) recordsPutOptParseCb (recordsPutOp layerName key : RecordsPutOp ℚ)).isSome = true) ∧
    propertyCalls ℚ (bytes "%=1") = [([], bytes "1")] := by
  refine ⟨fun h => ?_, by decide +kernel⟩
  have hnone : queryParse (bytes "%=1" ++ [0]) recordsPutOptParseCb
      (recordsPutOp (bytes "l") (bytes "k") : RecordsPutOp ℚ) = none := by decide +kernel
  have hsome := h (bytes "l") (bytes "k") (bytes "%=1")
  rw [hnone] at hsome
  cases hsome

end Pincaster
