import Pincaster.BodyReread
import Pincaster.JournalComplete
/-!
# UriReread — the URI of a dumped record, decoded again

The dump escapes the name of the layer and writes the key as it is, so that the key is decoded once more when the journal
is replayed, and cut at its first NUL or question mark.  `rereadKey` is the key the record comes back under, if any.
-/
namespace Pincaster

open Lib (Bytes bytes cstr strchr caseEq isxdigit strtol hex2)

variable {D : Type}

/-! ## Decoding -/

/-- A byte that is neither `?` nor `%` is kept. -/
theorem decode_cons {c : UInt8} (hmark : c ≠ 63) (hpercent : c ≠ 37) (t : Bytes) :
    evhttpDecodeUriInternal false (c :: t) = c :: evhttpDecodeUriInternal false t := by
  rw [evhttpDecodeUriInternal.eq_def]
  simp only [if_neg hmark, if_neg hpercent, Bool.false_eq_true, and_false, if_false]

theorem decode_hex {h l : UInt8} (hh : isxdigit h = true) (hl : isxdigit l = true) (t : Bytes) :
    evhttpDecodeUriInternal false (37 :: h :: l :: t) =
      UInt8.ofInt (strtol 16 [h, l]).1 :: evhttpDecodeUriInternal false t := by
  rw [evhttpDecodeUriInternal.eq_def]
  simp [hh, hl]

/-- A percent sign without two digits is kept. -/
theorem decode_percent {t : Bytes} (h : ∀ a b t', t = a :: b :: t' → ¬ (isxdigit a = true ∧ isxdigit b = true)) :
    evhttpDecodeUriInternal false (37 :: t) = 37 :: evhttpDecodeUriInternal false t := by
  rw [evhttpDecodeUriInternal.eq_def]
  match t with
  | [] => simp
  | [a] => simp
  | a :: b :: t' => simp [if_neg (h a b t' rfl)]

theorem decode_enc {c : UInt8} (h : c ≠ 63) (t : Bytes) :
    evhttpDecodeUriInternal false (enc c ++ t) = c :: evhttpDecodeUriInternal false t := by
  unfold enc
  split
  · rename_i hc
    exact decode_cons h (isUriChar_clean c hc).2.1 t
  · have hdec := Lib.ofInt_strtol_hex2 c
    have hclean : ∀ d ∈ hex2 c, isxdigit d = true := fun d hd => (Lib.hex2_clean hd).1
    unfold hex2 at hdec hclean ⊢
    rw [List.cons_append, List.cons_append, List.cons_append, List.nil_append,
      decode_hex (hclean _ (by simp)) (hclean _ (by simp)), hdec]

/-- **An escaped name is decoded to itself.** -/
theorem decode_encode : ∀ {s : Bytes}, (63 : UInt8) ∉ s → ∀ t : Bytes,
    evhttpDecodeUriInternal false (encode s ++ t) = s ++ evhttpDecodeUriInternal false t
  | [], _, _ => rfl
  | c :: s, h, t => by
    rw [List.mem_cons, not_or] at h
    rw [encode_cons, List.append_assoc, decode_enc (Ne.symm h.1), decode_encode h.2]
    rfl

theorem decode_plain : ∀ {s : Bytes}, (∀ c ∈ s, c ≠ 63 ∧ c ≠ 37) → ∀ t : Bytes,
    evhttpDecodeUriInternal false (s ++ t) = s ++ evhttpDecodeUriInternal false t
  | [], _, _ => rfl
  | c :: s, h, t => by
    have hc := h c List.mem_cons_self
    rw [List.cons_append, decode_cons hc.1 hc.2, decode_plain (fun d hd => h d (List.mem_cons_of_mem c hd))]
    rfl

/-- **A key and its extension are decoded apart**: no escape reaches across the dot. -/
theorem decode_key : ∀ {key : Bytes}, (63 : UInt8) ∉ key → ∀ t : Bytes,
    evhttpDecodeUriInternal false (key ++ 46 :: t) =
      evhttpDecodeUriInternal false key ++ evhttpDecodeUriInternal false (46 :: t)
  | [], _, _ => by simp [evhttpDecodeUriInternal]
  | c :: key, h, t => by
    have hdot : isxdigit 46 = false := by decide
    rw [List.mem_cons, not_or] at h
    have ih := decode_key h.2 t
    by_cases hc : c = 37
    · subst hc
      match key with
      | [] =>
        rw [List.cons_append, List.nil_append, decode_percent (by rintro a b t' ⟨⟩; simp [hdot]),
          decode_percent (by rintro a b t' ⟨⟩)]
        simp [evhttpDecodeUriInternal]
      | [a] =>
        rw [List.cons_append, decode_percent (by rintro a b t' ⟨⟩; simp [hdot]), ih,
          decode_percent (by rintro a b t' ⟨⟩), List.cons_append]
      | a :: b :: key =>
        simp only [List.mem_cons, not_or] at h
        by_cases hd : isxdigit a = true ∧ isxdigit b = true
        · have ih' := decode_key h.2.2.2 t
          rw [List.cons_append, List.cons_append, List.cons_append, decode_hex hd.1 hd.2, decode_hex hd.1 hd.2, ih',
            List.cons_append]
        · rw [List.cons_append, decode_percent (by rintro a b t' ⟨⟩; exact hd), ih,
            decode_percent (by rintro a b t' ⟨⟩; exact hd), List.cons_append]
    · rw [List.cons_append, decode_cons (Ne.symm h.1) hc, ih, decode_cons (Ne.symm h.1) hc, List.cons_append]

/-- Decoding makes nothing longer. -/
theorem length_decode_le : ∀ (decodePlus : Bool) (uri : Bytes),
    (evhttpDecodeUriInternal decodePlus uri).length ≤ uri.length := by
  intro decodePlus uri
  fun_induction evhttpDecodeUriInternal decodePlus uri
  all_goals simp only [List.length_nil, List.length_cons] at *
  all_goals omega

/-- What is not shortened has no escape in it, and is kept. -/
theorem decode_eq_self : ∀ {uri : Bytes}, (63 : UInt8) ∉ uri → uri.length ≤ (evhttpDecodeUriInternal false uri).length →
    evhttpDecodeUriInternal false uri = uri
  | [], _, _ => by simp [evhttpDecodeUriInternal]
  | c :: uri, hmark, hlen => by
    rw [List.mem_cons, not_or] at hmark
    have hkept : evhttpDecodeUriInternal false (c :: uri) = c :: evhttpDecodeUriInternal false uri →
        evhttpDecodeUriInternal false (c :: uri) = c :: uri := fun hcons => by
      rw [hcons, List.length_cons, List.length_cons] at hlen
      rw [hcons, decode_eq_self hmark.2 (by omega)]
    by_cases hc : c = 37
    · subst hc
      by_cases hhex : ∃ h l t, uri = h :: l :: t ∧ isxdigit h = true ∧ isxdigit l = true
      · obtain ⟨h, l, t, rfl, hh, hl⟩ := hhex
        have hle := length_decode_le false t
        rw [decode_hex hh hl] at hlen
        simp only [List.length_cons] at hlen
        omega
      · exact hkept (decode_percent fun a b t ht hd => hhex ⟨a, b, t, ht, hd⟩)
    · exact hkept (decode_cons (Ne.symm hmark.1) hc uri)

/-! ## What is left of a decoded URI -/

theorem strchr_append {c : UInt8} {s t : Bytes} (hs : c ∉ s) (hnul : (0 : UInt8) ∉ s ++ c :: t) :
    strchr (s ++ c :: t) c = some (s, t) := by
  obtain ⟨htake, hdrop⟩ := takeWhile_append_cons (p := fun d => decide (d ≠ c)) (s := s) (t := t) (c := c) (fun d hd => by
    simp only [ne_eq, decide_eq_true_eq]
    rintro rfl
    exact hs hd) (by simp)
  unfold strchr
  rw [Lib.cstr_of_not_mem hnul, if_pos (by simp), htake, hdrop, List.tail_cons]

theorem extractOpts_fst (decodedUri : Bytes) : (extractOpts decodedUri).1 = (cstr decodedUri).takeWhile (· ≠ 63) := by
  unfold extractOpts strchr
  by_cases h : (63 : UInt8) ∈ cstr decodedUri
  · rw [if_pos h]
  · rw [if_neg h]
    refine (List.takeWhile_eq_self_iff.2 (fun c hc => ?_)).symm
    simp only [ne_eq, decide_eq_true_eq]
    rintro rfl
    exact h hc

/-- The URI of a request has no NUL and no question mark. -/
theorem not_mem_extractOpts (decodedUri : Bytes) :
    (0 : UInt8) ∉ (extractOpts decodedUri).1 ∧ (63 : UInt8) ∉ (extractOpts decodedUri).1 := by
  rw [extractOpts_fst]
  refine ⟨fun h => Lib.zero_not_mem_cstr decodedUri ((List.takeWhile_prefix _).subset h), fun h => ?_⟩
  simpa using List.mem_takeWhile_imp h

theorem extractOpts_append {s : Bytes} (hnul : (0 : UInt8) ∉ s) (hmark : (63 : UInt8) ∉ s) (t : Bytes) :
    (extractOpts (s ++ t)).1 = s ++ (extractOpts t).1 := by
  have hstr : cstr (s ++ t) = s ++ cstr t := List.takeWhile_append_of_pos (fun c hc => by
    simp only [ne_eq, decide_eq_true_eq]
    rintro rfl
    exact hnul hc)
  rw [extractOpts_fst, extractOpts_fst, hstr]
  exact List.takeWhile_append_of_pos (fun c hc => by
    simp only [ne_eq, decide_eq_true_eq]
    rintro rfl
    exact hmark hc)

theorem length_extractOpts_le (t : Bytes) : (extractOpts t).1.length ≤ t.length := by
  rw [extractOpts_fst]
  exact (List.takeWhile_prefix _).length_le.trans (List.takeWhile_prefix _).length_le

/-- Five characters, a dot and no slash among them. -/
theorem caseEq_ext {tail : Bytes} (hnul : (0 : UInt8) ∉ tail) (h : caseEq tail (bytes ".json") = true) :
    tail.length = 5 ∧ (47 : UInt8) ∉ tail := by
  have hmap : tail.map Lib.tolower = bytes ".json" := by
    have heq := of_decide_eq_true h
    rw [Lib.cstr_of_not_mem hnul] at heq
    exact heq
  refine ⟨by rw [← List.length_map Lib.tolower, hmap]; rfl, fun hslash => ?_⟩
  have hmem := List.mem_map_of_mem (f := Lib.tolower) hslash
  rw [hmap] at hmem
  exact absurd hmem (by decide)

/-- **A URI with an extension**: a stem that is not empty, and the extension in any case. -/
theorem stripExt_eq_some_iff {uri stem tail : Bytes} (hnul : (0 : UInt8) ∉ uri) : stripExt uri = some (stem, tail) ↔
    uri = stem ++ tail ∧ stem ≠ [] ∧ uri.length ≤ MAX_URI_LEN ∧ caseEq tail (bytes ".json") = true := by
  have hext : (bytes ".json").length = 5 := rfl
  unfold stripExt
  simp only [hext]
  constructor
  · intro h
    split at h
    · cases h
    · rename_i hok
      simp only [not_or, not_not] at hok
      obtain ⟨hlen, hmax, hcase⟩ := hok
      simp only [Option.some.injEq, Prod.mk.injEq] at h
      obtain ⟨rfl, rfl⟩ := h
      refine ⟨(List.take_append_drop _ _).symm, fun hnil => ?_, by omega, hcase⟩
      have := congrArg List.length hnil
      rw [List.length_take, List.length_nil] at this
      omega
  · rintro ⟨rfl, hne, hmax, hcase⟩
    obtain ⟨hlen, -⟩ := caseEq_ext (fun h => hnul (List.mem_append_right _ h)) hcase
    have hpos := List.length_pos_of_ne_nil hne
    have hstem : (stem ++ tail).length - 5 = stem.length := by
      rw [List.length_append]
      omega
    rw [hstem, List.take_left, List.drop_left, if_neg]
    rw [List.length_append] at hmax ⊢
    simp only [not_or, not_not]
    exact ⟨by omega, by omega, hcase⟩

/-! ## The records of the dump -/

/-- **The key a dumped record comes back under**, if any: the decoded key up to its first NUL or question mark, which
has to end with the extension. -/
def rereadKey (key : Bytes) : Option Bytes :=
  (stripExt (extractOpts (evhttpDecodeUri (key ++ bytes ".json"))).1).map Prod.fst

/-- What the name of a layer with records and the key of a record can be. -/
structure RecordNames (layer key : Bytes) : Prop where
  layer_ne_nil : layer ≠ []
  layer_nul : (0 : UInt8) ∉ layer
  layer_mark : (63 : UInt8) ∉ layer
  layer_slash : (47 : UInt8) ∉ layer
  key_ne_nil : key ≠ []
  key_nul : (0 : UInt8) ∉ key
  key_mark : (63 : UInt8) ∉ key
  length : 14 + layer.length + key.length ≤ MAX_URI_LEN

/-- The URI of a dumped record behind the base. -/
def recordPath (layer key : Bytes) : Bytes := bytes "records/" ++ encode layer ++ bytes "/" ++ key ++ bytes ".json"

/-- What the URI of a dumped record is decoded to. -/
theorem extractOpts_recordPath {layer key : Bytes} (h : RecordNames layer key) :
    (extractOpts (evhttpDecodeUri (recordPath layer key))).1 =
      bytes "records" ++ 47 :: (layer ++ 47 :: (extractOpts (evhttpDecodeUri (key ++ bytes ".json"))).1) := by
  have hrecords : ∀ c ∈ bytes "records/", c ≠ 63 ∧ c ≠ 37 := by decide +kernel
  have hslash : ∀ c ∈ bytes "/", c ≠ 63 ∧ c ≠ 37 := by decide +kernel
  have hdecode : evhttpDecodeUri (recordPath layer key) =
      (bytes "records/" ++ layer ++ bytes "/") ++ evhttpDecodeUri (key ++ bytes ".json") := by
    unfold evhttpDecodeUri recordPath
    rw [List.append_assoc, List.append_assoc, List.append_assoc, decode_plain hrecords, decode_encode h.layer_mark,
      decode_plain hslash, List.append_assoc, List.append_assoc]
  rw [hdecode, extractOpts_append]
  · simp [bytes]
  · simp only [List.mem_append, not_or]
    exact ⟨⟨by decide, h.layer_nul⟩, by decide⟩
  · simp only [List.mem_append, not_or]
    exact ⟨⟨by decide, h.layer_mark⟩, by decide⟩

/-- **The URI of a dumped record, read again**: the layer and the key it comes back under. -/
theorem apiUri_recordPath {layer key stem : Bytes} (h : RecordNames layer key) (hstem : rereadKey key = some stem) :
    ∃ opts, apiUri (recordPath layer key) = some ⟨bytes "records", layer ++ 47 :: stem, opts⟩ := by
  obtain ⟨⟨stem', tail⟩, hstrip, rfl⟩ := Option.map_eq_some_iff.1 hstem
  obtain ⟨hnul, -⟩ := not_mem_extractOpts (evhttpDecodeUri (key ++ bytes ".json"))
  obtain ⟨heq, hne, hmax, hcase⟩ := (stripExt_eq_some_iff hnul).1 hstrip
  have hpath := extractOpts_recordPath h
  have hlen := (length_extractOpts_le (evhttpDecodeUri (key ++ bytes ".json"))).trans (length_decode_le false _)
  have hstrip' : stripExt (extractOpts (evhttpDecodeUri (recordPath layer key))).1 =
      some (bytes "records" ++ 47 :: (layer ++ 47 :: stem'), tail) := by
    refine (stripExt_eq_some_iff (not_mem_extractOpts _).1).2 ⟨by rw [hpath, heq]; simp, by simp, ?_, hcase⟩
    have hbase : (bytes "records").length = 7 := rfl
    have hext : (bytes ".json").length = 5 := rfl
    have := h.length
    rw [hpath]
    rw [List.length_append, hext] at hlen
    simp only [List.length_append, List.length_cons, hbase]
    omega
  have hnul' := (not_mem_extractOpts (evhttpDecodeUri (recordPath layer key))).1
  rw [(stripExt_eq_some_iff hnul').1 hstrip' |>.1, List.mem_append, not_or] at hnul'
  refine ⟨(extractOpts (evhttpDecodeUri (recordPath layer key))).2, ?_⟩
  unfold apiUri
  simp only [hstrip', Option.bind_eq_bind, Option.bind_some, strchr_append (by decide) hnul'.1]

/-- **A record that does not come back**: its URI is refused, or has no key. -/
theorem apiUri_recordPath_none {layer key : Bytes} (h : RecordNames layer key) (hstem : rereadKey key = none) :
    apiUri (recordPath layer key) = none ∨
      ∃ opts, apiUri (recordPath layer key) = some ⟨bytes "records", layer ++ [47], opts⟩ := by
  obtain ⟨hnul, -⟩ := not_mem_extractOpts (evhttpDecodeUri (key ++ bytes ".json"))
  obtain ⟨hnul', -⟩ := not_mem_extractOpts (evhttpDecodeUri (recordPath layer key))
  have hpath := extractOpts_recordPath h
  have hrecords : (47 : UInt8) ∉ bytes "records" := by decide
  rcases hstrip : stripExt (extractOpts (evhttpDecodeUri (recordPath layer key))).1 with _ | ⟨stem, tail⟩
  · refine .inl ?_
    unfold apiUri
    simp only [hstrip, Option.bind_eq_bind, Option.bind_none]
  · obtain ⟨heq, hne, hmax, hcase⟩ := (stripExt_eq_some_iff hnul').1 hstrip
    have htail : (0 : UInt8) ∉ tail := fun hz => hnul' (heq ▸ List.mem_append_right _ hz)
    obtain ⟨hlen, hslash⟩ := caseEq_ext htail hcase
    obtain ⟨name, hname⟩ : ∃ name, name = (extractOpts (evhttpDecodeUri (key ++ bytes ".json"))).1 := ⟨_, rfl⟩
    rw [← hname] at hpath hnul
    obtain ⟨pre, hpre⟩ : ∃ pre, pre = bytes "records" ++ 47 :: layer := ⟨_, rfl⟩
    have hpath' : stem ++ tail = (pre ++ [47]) ++ name := by
      rw [← heq, hpath, hpre]
      simp
    -- the extension has no slash, so that all of it stands behind the last one
    obtain ⟨stem', hstem', hname'⟩ : ∃ stem', stem = (pre ++ [47]) ++ stem' ∧ name = stem' ++ tail := by
      rcases List.append_eq_append_iff.1 hpath' with ⟨mid, hmid, htail⟩ | ⟨mid, hmid, hname'⟩
      · rcases List.eq_nil_or_concat mid with rfl | ⟨mid, c, rfl⟩
        · exact ⟨[], by rw [hmid, List.append_nil, List.append_nil], by rw [htail, List.nil_append, List.nil_append]⟩
        · rw [List.concat_eq_append, ← List.append_assoc] at hmid
          obtain rfl := (List.append_inj' hmid rfl).2 |> List.singleton_inj.1
          exact absurd (by simp [htail]) hslash
      · exact ⟨mid, hmid, hname'⟩
    rcases List.eq_nil_or_concat stem' with rfl | ⟨mid, c, rfl⟩
    · refine .inr ⟨(extractOpts (evhttpDecodeUri (recordPath layer key))).2, ?_⟩
      rw [List.append_nil, hpre, List.append_assoc, List.cons_append] at hstem'
      rw [heq, List.mem_append, not_or, hstem'] at hnul'
      unfold apiUri
      simp only [hstrip, Option.bind_eq_bind, Option.bind_some, hstem', strchr_append hrecords hnul'.1]
    · have hsome : stripExt name = some (mid.concat c, tail) := by
        refine (stripExt_eq_some_iff hnul).2 ⟨hname', by simp, ?_, hcase⟩
        refine le_trans ?_ hmax
        rw [hpath, List.length_append, List.length_cons, List.length_append, List.length_cons]
        omega
      rw [rereadKey, ← hname, hsome] at hstem
      cases hstem

/-- **A key comes back no longer than it was**, and as it was when it comes back as long. -/
theorem rereadKey_length {key stem : Bytes} (hmark : (63 : UInt8) ∉ key) (h : rereadKey key = some stem) :
    stem.length ≤ key.length ∧ (stem.length = key.length → stem = key) := by
  obtain ⟨⟨stem', tail⟩, hstrip, rfl⟩ := Option.map_eq_some_iff.1 h
  obtain ⟨hnul, -⟩ := not_mem_extractOpts (evhttpDecodeUri (key ++ bytes ".json"))
  obtain ⟨heq, -, -, hcase⟩ := (stripExt_eq_some_iff hnul).1 hstrip
  obtain ⟨htail, -⟩ := caseEq_ext (fun hz => hnul (heq ▸ List.mem_append_right _ hz)) hcase
  have hext : bytes ".json" = 46 :: bytes "json" := by decide
  have hdecode : evhttpDecodeUri (key ++ bytes ".json") = evhttpDecodeUriInternal false key ++ bytes ".json" := by
    have hplain : evhttpDecodeUriInternal false (46 :: bytes "json") = 46 :: bytes "json" := by decide
    rw [evhttpDecodeUri, hext, decode_key hmark, hplain]
  have hprefix : stem' ++ tail <+: evhttpDecodeUriInternal false key ++ bytes ".json" := by
    rw [← heq, ← hdecode, extractOpts_fst]
    exact (List.takeWhile_prefix _).trans (List.takeWhile_prefix _)
  have hle := hprefix.length_le
  have hshort := length_decode_le false key
  rw [List.length_append, List.length_append, htail, show (bytes ".json").length = 5 from rfl] at hle
  refine ⟨by simp only; omega, fun hlen => ?_⟩
  simp only at hlen
  have hwhole := hprefix.eq_of_length (by
    rw [List.length_append, List.length_append, htail, show (bytes ".json").length = 5 from rfl]
    omega)
  rw [decode_eq_self hmark (by omega)] at hwhole
  exact (List.append_inj hwhole hlen).1

/-- The layer and the key of a URI that has both. -/
theorem recordsUri_append {layer key : Bytes} (hne : layer ≠ [] ∧ key ≠ []) (hnul : (0 : UInt8) ∉ layer ∧ (0 : UInt8) ∉ key)
    (hslash : (47 : UInt8) ∉ layer) : recordsUri (layer ++ 47 :: key) = some (.ok (layer ++ [0], key ++ [0])) := by
  have hchr : strchr (layer ++ 47 :: key) 47 = some (layer, key) := strchr_append hslash (by
    simp only [List.mem_append, List.mem_cons, not_or]
    exact ⟨hnul.1, by decide, hnul.2⟩)
  have hlayer := List.length_pos_of_ne_nil hne.1
  have hkey := List.length_pos_of_ne_nil hne.2
  unfold recordsUri newKeyFromCString
  simp only [hchr, Lib.cstr_of_not_mem hnul.1, Lib.cstr_of_not_mem hnul.2, if_pos hlayer, if_pos hkey, if_neg hne.2,
    Option.bind_eq_bind, Option.bind_some, Option.map_some]

theorem recordsUri_no_key {layer : Bytes} (hne : layer ≠ []) (hnul : (0 : UInt8) ∉ layer) (hslash : (47 : UInt8) ∉ layer) :
    recordsUri (layer ++ [47]) = some (.error HTTP_NOTFOUND) := by
  have hchr : strchr (layer ++ [47]) 47 = some (layer, []) := strchr_append hslash (by
    simp only [List.mem_append, List.mem_singleton, not_or]
    exact ⟨hnul, by decide⟩)
  have hlayer := List.length_pos_of_ne_nil hne
  unfold recordsUri newKeyFromCString
  simp only [hchr, Lib.cstr_of_not_mem hnul, if_pos hlayer, if_true, Option.bind_eq_bind, Option.bind_some]

/-! ## The layers of the dump -/

/-- What the name of a layer can be. -/
structure LayerName (layer : Bytes) : Prop where
  ne_nil : layer ≠ []
  nul : (0 : UInt8) ∉ layer
  mark : (63 : UInt8) ∉ layer
  length : 12 + layer.length ≤ MAX_URI_LEN

def layerPath (layer : Bytes) : Bytes := bytes "layers/" ++ encode layer ++ bytes ".json"

/-- **The URI of a dumped layer, read again.** -/
theorem apiUri_layerPath {layer : Bytes} (h : LayerName layer) :
    ∃ opts, apiUri (layerPath layer) = some ⟨bytes "layers", layer, opts⟩ := by
  have hlayers : ∀ c ∈ bytes "layers/", c ≠ 63 ∧ c ≠ 37 := by decide +kernel
  have hext : evhttpDecodeUriInternal false (bytes ".json") = bytes ".json" := by decide
  have hdecode : evhttpDecodeUri (layerPath layer) = (bytes "layers/" ++ layer) ++ bytes ".json" := by
    unfold evhttpDecodeUri layerPath
    rw [List.append_assoc, decode_plain hlayers, decode_encode h.mark, hext, List.append_assoc]
  have hpath : (extractOpts (evhttpDecodeUri (layerPath layer))).1 = (bytes "layers" ++ 47 :: layer) ++ bytes ".json" := by
    rw [hdecode, extractOpts_append]
    · rw [show (extractOpts (bytes ".json")).1 = bytes ".json" by decide]
      simp [bytes]
    · rw [List.mem_append, not_or]
      exact ⟨by decide, h.nul⟩
    · rw [List.mem_append, not_or]
      exact ⟨by decide, h.mark⟩
  have hnul := (not_mem_extractOpts (evhttpDecodeUri (layerPath layer))).1
  have hstrip : stripExt (extractOpts (evhttpDecodeUri (layerPath layer))).1 =
      some (bytes "layers" ++ 47 :: layer, bytes ".json") := by
    refine (stripExt_eq_some_iff hnul).2 ⟨hpath, by simp, ?_, by decide⟩
    have := h.length
    rw [hpath, List.length_append, List.length_append, List.length_cons, show (bytes "layers").length = 6 from rfl,
      show (bytes ".json").length = 5 from rfl]
    omega
  rw [hpath, List.mem_append, not_or] at hnul
  refine ⟨(extractOpts (evhttpDecodeUri (layerPath layer))).2, ?_⟩
  have hslash : (47 : UInt8) ∉ bytes "layers" := by decide
  unfold apiUri
  simp only [hstrip, Option.bind_eq_bind, Option.bind_some, strchr_append hslash hnul.1]

end Pincaster
