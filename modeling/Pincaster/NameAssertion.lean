import Pincaster.HttpServer
/-!
# NameAssertion — the strings that become keys while a URI is parsed

`new_key_from_c_string` asserts that its string is not empty.  The handlers of layers and of searches check the strings
first; the one of records checks the name of the record only, and an empty layer name, which a doubled slash gives, aborts
the server (`name_assertion_iff`).
-/
namespace Pincaster

open Lib (Bytes bytes cstr strchr caseEq)

variable {D : Type} [Dimension D]

/-! ## The calls -/

/-- The strings `handle_domain_records` gives to `new_key_from_c_string`, in order; the assertion ends the calls. -/
def recordsNames (req : EvhttpRequest) (uri : Bytes) : List Bytes :=
  if req.type = EVHTTP_REQ_GET ∨ req.type = EVHTTP_REQ_PUT ∨ req.type = EVHTTP_REQ_DELETE then
    match strchr uri 47 with
    | none => []
    | some (layer, sep) => layer :: if layer = [] ∨ sep = [] then [] else [sep]
  else []

/-- The strings of `handle_domain_search`; the options are read before the pattern. -/
def searchNames (D : Type) [Dimension D] (req : EvhttpRequest) (uri : Bytes) (opts : Option Bytes) : List Bytes :=
  if req.type ≠ EVHTTP_REQ_GET then []
  else match strchr uri 47 with
    | none => []
    | some ([], _) => []
    | some (layer, sep) => layer :: match strchr sep 47 with
      | none => []
      | some (_, []) => []
      | some (searchType, query) =>
        match parseOpts opts searchOptParseCb
          (⟨Dimension.ofInt 0, DEFAULT_SEARCH_LIMIT, Dimension.ofInt (-1), true, true, false⟩ : SearchOptions D) with
        | none => []
        | some (ret, _) =>
          if ret ≠ 0 ∨ caseEq searchType (bytes "nearby") ∨ caseEq searchType (bytes "in_rect") ∨
            ¬ caseEq searchType (bytes "keys") ∨ query = [] then [] else [query]

/-- The string of `handle_domain_layers`. -/
def layersNames (req : EvhttpRequest) (uri : Bytes) : List Bytes :=
  if req.type = EVHTTP_REQ_POST ∨ req.type = EVHTTP_REQ_DELETE then if uri = [] then [] else [uri] else []

/-- The strings of the handler a URI is dispatched to. -/
def domainNames (D : Type) [Dimension D] (req : EvhttpRequest) (u : ApiUri) : List Bytes :=
  if caseEq (bytes "records") u.domain then recordsNames req u.uriPart
  else if caseEq (bytes "search") u.domain then searchNames D req u.uriPart u.opts
  else if caseEq (bytes "layers") u.domain then layersNames req u.uriPart
  else []

/-- **The assertion holds**: `strlen` of the string is not 0. -/
def NameOk (name : Bytes) : Prop := 0 < (cstr name).length

instance (name : Bytes) : Decidable (NameOk name) := inferInstanceAs (Decidable (_ < _))

theorem newKeyFromCString_isSome {name : Bytes} : (newKeyFromCString name).isSome = true ↔ NameOk name := by
  unfold newKeyFromCString NameOk
  split <;> simp_all

/-! ## The calls are those of the handlers -/

theorem recordsUri_names {req : EvhttpRequest} {uri : Bytes} (htype : req.type = EVHTTP_REQ_GET ∨
    req.type = EVHTTP_REQ_PUT ∨ req.type = EVHTTP_REQ_DELETE) :
    (recordsUri uri).isSome = true ↔ ∀ name ∈ recordsNames req uri, NameOk name := by
  unfold recordsUri recordsNames
  rw [if_pos htype]
  rcases strchr uri 47 with _ | ⟨layer, sep⟩
  · simp
  · by_cases hlayer : layer = []
    · subst hlayer
      simp [newKeyFromCString, NameOk, cstr]
    · by_cases hsep : sep = []
      · simp [hlayer, hsep, ← newKeyFromCString_isSome, Option.isSome_bind]
      · simp only [hlayer, hsep, or_self, if_false, List.mem_cons, List.not_mem_nil, or_false, forall_eq_or_imp,
          forall_eq, ← newKeyFromCString_isSome]
        rcases newKeyFromCString layer with _ | layerName <;> simp

/-- A request on a record passes the calls, or has no result. -/
theorem handleDomainRecords_names {req : EvhttpRequest} {context : HttpHandlerContext D} {uri : Bytes}
    {opts : Option Bytes} {fakeReq : Bool} {r : HandlerResult D}
    (h : handleDomainRecords req context uri opts fakeReq = some r) : ∀ name ∈ recordsNames req uri, NameOk name := by
  unfold handleDomainRecords at h
  split at h
  · rename_i htype
    refine (recordsUri_names htype).1 ?_
    obtain ⟨e, he, -⟩ := Option.bind_eq_some_iff.1 h
    rw [he]
    rfl
  · rename_i htype
    simp [recordsNames, htype]

theorem searchOp_names {context : HttpHandlerContext D} {req : EvhttpRequest} {fakeReq : Bool} {layerName : Key}
    {searchType query : Bytes} {options : SearchOptions D} {r : HandlerResult D}
    (h : searchOp context req fakeReq layerName searchType query options = some r)
    (hnear : caseEq searchType (bytes "nearby") = false) (hrect : caseEq searchType (bytes "in_rect") = false)
    (hkeys : caseEq searchType (bytes "keys") = true) (hquery : query ≠ []) : NameOk query := by
  simp only [searchOp, hnear, hrect, hkeys, Bool.false_eq_true, if_false, if_true, hquery] at h
  obtain ⟨pattern, hpattern, -⟩ := Option.bind_eq_some_iff.1 h
  exact newKeyFromCString_isSome.1 (by rw [hpattern]; rfl)

theorem handleDomainSearch_names {req : EvhttpRequest} {context : HttpHandlerContext D} {uri : Bytes}
    {opts : Option Bytes} {fakeReq : Bool} {r : HandlerResult D}
    (h : handleDomainSearch req context uri opts fakeReq = some r) : ∀ name ∈ searchNames D req uri opts, NameOk name := by
  unfold handleDomainSearch at h
  unfold searchNames
  split at h
  · rename_i htype
    simp [htype]
  · rename_i htype
    rw [if_neg htype]
    rcases hchr : strchr uri 47 with _ | ⟨_ | ⟨c, layer⟩, sep⟩
    · exact fun _ hmem => nomatch hmem
    · exact fun _ hmem => nomatch hmem
    · rw [hchr] at h
      obtain ⟨layerName, hlayer, h⟩ := Option.bind_eq_some_iff.1 h
      have hname : NameOk (c :: layer) := newKeyFromCString_isSome.1 (by rw [hlayer]; rfl)
      rintro name (_ | ⟨_, hmem⟩)
      · exact hname
      · rcases hsep : strchr sep 47 with _ | ⟨searchType, _ | ⟨d, query⟩⟩
        · rw [hsep] at hmem
          cases hmem
        · rw [hsep] at hmem
          cases hmem
        · rw [hsep] at h hmem
          obtain ⟨⟨ret, options⟩, hopts, h⟩ := Option.bind_eq_some_iff.1 h
          simp only [hopts] at h hmem
          split at hmem
          · cases hmem
          · rename_i hno
            obtain rfl := List.mem_singleton.1 hmem
            simp only [not_or, not_not, ne_eq, Bool.not_eq_true] at hno
            rw [if_neg (by simpa using hno.1)] at h
            exact searchOp_names h hno.2.1 hno.2.2.1 (by simpa using hno.2.2.2.1) hno.2.2.2.2

omit [Dimension D] in
theorem handleDomainLayers_names {req : EvhttpRequest} {context : HttpHandlerContext D} {uri : Bytes} {fakeReq : Bool}
    {r : HandlerResult D} (h : handleDomainLayers req context uri fakeReq = some r) :
    ∀ name ∈ layersNames req uri, NameOk name := by
  intro name hmem
  unfold layersNames at hmem
  split at hmem
  · rename_i htype
    split at hmem
    · cases hmem
    · rename_i huri
      obtain rfl := List.mem_singleton.1 hmem
      have hget : req.type ≠ EVHTTP_REQ_GET := by
        rcases htype with htype | htype <;> rw [htype] <;> decide
      have hlayers : ∃ body : Key → OpBody D, layersUri context req name fakeReq body = some r := by
        unfold handleDomainLayers at h
        rw [if_neg hget] at h
        split at h
        · exact ⟨_, h⟩
        · rename_i hpost
          rw [if_pos (htype.resolve_left hpost)] at h
          exact ⟨_, h⟩
      obtain ⟨body, hbody⟩ := hlayers
      unfold layersUri at hbody
      rw [if_neg huri] at hbody
      obtain ⟨layerName, hname, -⟩ := Option.bind_eq_some_iff.1 hbody
      exact newKeyFromCString_isSome.1 (by rw [hname]; rfl)
  · cases hmem

/-- **A handler that has a result passed every call.** -/
theorem domainHandler_names {req : EvhttpRequest} {context : HttpHandlerContext D} {u : ApiUri} {fakeReq : Bool}
    {fork : Option Nat} {r : Option (HandlerResult D)} (h : domainHandler req context u fakeReq fork = some r) :
    ∀ name ∈ domainNames D req u, NameOk name := by
  unfold domainHandler at h
  unfold domainNames
  split at h
  · rename_i hrecords
    rw [if_pos hrecords]
    obtain ⟨r', hr', -⟩ := Option.map_eq_some_iff.1 h
    exact handleDomainRecords_names hr'
  · rename_i hrecords
    rw [if_neg hrecords]
    split at h
    · rename_i hsearch
      rw [if_pos hsearch]
      obtain ⟨r', hr', -⟩ := Option.map_eq_some_iff.1 h
      exact handleDomainSearch_names hr'
    · rename_i hsearch
      rw [if_neg hsearch]
      split at h
      · rename_i hlayers
        rw [if_pos hlayers]
        obtain ⟨r', hr', -⟩ := Option.map_eq_some_iff.1 h
        exact handleDomainLayers_names hr'
      · rename_i hlayers
        rw [if_neg hlayers]
        exact fun _ hmem => nomatch hmem

/-! ## When the assertion holds -/

theorem nameOk_of_not_mem {name : Bytes} (h : (0 : UInt8) ∉ name) : NameOk name ↔ name ≠ [] := by
  rw [NameOk, Lib.cstr_of_not_mem h, List.length_pos_iff]

/-- What `strchr` cuts a string into has no NUL. -/
theorem not_mem_of_strchr {s before after : Bytes} {c : UInt8} (h : strchr s c = some (before, after)) :
    (0 : UInt8) ∉ before ∧ (0 : UInt8) ∉ after := by
  unfold strchr at h
  split at h
  · cases h
    refine ⟨fun hmem => ?_, fun hmem => ?_⟩
    · exact Lib.zero_not_mem_cstr s ((List.takeWhile_sublist _).mem hmem)
    · exact Lib.zero_not_mem_cstr s ((List.dropWhile_sublist _).mem (List.mem_of_mem_tail hmem))
  · cases h

/-- The part of a URI for its handler has no NUL. -/
theorem not_mem_uriPart {encodedUri : Bytes} {u : ApiUri} (h : apiUri encodedUri = some u) : (0 : UInt8) ∉ u.uriPart := by
  unfold apiUri at h
  generalize hopts : extractOpts (evhttpDecodeUri encodedUri) = decoded at h
  obtain ⟨decodedUri, opts⟩ := decoded
  have hdecoded : (0 : UInt8) ∉ decodedUri := by
    unfold extractOpts at hopts
    split at hopts
    · cases hopts
      exact Lib.zero_not_mem_cstr _
    · rename_i hchr
      cases hopts
      exact (not_mem_of_strchr hchr).1
  obtain ⟨⟨stem, tail⟩, hext, h⟩ := Option.bind_eq_some_iff.1 h
  simp only [stripExt] at hext h
  split at hext
  · cases hext
  · cases hext
    split at h
    · rename_i hchr
      cases h
      exact (not_mem_of_strchr hchr).2
    · cases h
      exact fun hmem => hdecoded (List.mem_of_mem_drop (List.mem_of_mem_tail hmem))

/-- The string before the slash is empty when the slash comes first. -/
theorem strchr_nil_iff {s after : Bytes} {before : Bytes} {c : UInt8} (hs : (0 : UInt8) ∉ s)
    (h : strchr s c = some (before, after)) : before = [] ↔ s.head? = some c := by
  unfold strchr at h
  rw [Lib.cstr_of_not_mem hs] at h
  split at h
  · rename_i hmem
    cases h
    cases s with
    | nil => cases hmem
    | cons d s => by_cases hd : d = c <;> simp [hd]
  · cases h

theorem recordsNames_iff {req : EvhttpRequest} {uri : Bytes} (huri : (0 : UInt8) ∉ uri) :
    (∀ name ∈ recordsNames req uri, NameOk name) ↔
      ¬ ((req.type = EVHTTP_REQ_GET ∨ req.type = EVHTTP_REQ_PUT ∨ req.type = EVHTTP_REQ_DELETE) ∧
        uri.head? = some 47) := by
  unfold recordsNames
  split
  · rename_i htype
    rcases hchr : strchr uri 47 with _ | ⟨layer, sep⟩
    · have hhead : uri.head? ≠ some 47 := by
        intro hhead
        unfold strchr at hchr
        rw [Lib.cstr_of_not_mem huri, if_pos (List.mem_of_head? hhead)] at hchr
        cases hchr
      simp [hhead]
    · obtain ⟨hlayer, hsep⟩ := not_mem_of_strchr hchr
      rw [← strchr_nil_iff huri hchr]
      by_cases hnil : layer = []
      · simp [hnil, htype, NameOk, cstr]
      · simp only [hnil, false_or, and_false, not_false_eq_true, iff_true]
        rintro name (_ | ⟨_, hmem⟩)
        · exact (nameOk_of_not_mem hlayer).2 hnil
        · split at hmem
          · cases hmem
          · rename_i hne
            obtain rfl := List.mem_singleton.1 hmem
            exact (nameOk_of_not_mem hsep).2 hne
  · rename_i htype
    simp [htype]

theorem searchNames_ok {req : EvhttpRequest} {uri : Bytes} (opts : Option Bytes) :
    ∀ name ∈ searchNames D req uri opts, NameOk name := by
  intro name hmem
  unfold searchNames at hmem
  split at hmem
  · cases hmem
  · rcases hchr : strchr uri 47 with _ | ⟨_ | ⟨c, layer⟩, sep⟩
    · rw [hchr] at hmem
      cases hmem
    · rw [hchr] at hmem
      cases hmem
    · rw [hchr] at hmem
      rcases hmem with _ | ⟨_, hmem⟩
      · exact (nameOk_of_not_mem (not_mem_of_strchr hchr).1).2 (List.cons_ne_nil _ _)
      · rcases hsep : strchr sep 47 with _ | ⟨searchType, _ | ⟨d, query⟩⟩
        · rw [hsep] at hmem
          cases hmem
        · rw [hsep] at hmem
          cases hmem
        · rw [hsep] at hmem
          simp only at hmem
          split at hmem
          · cases hmem
          · split at hmem
            · cases hmem
            · obtain rfl := List.mem_singleton.1 hmem
              exact (nameOk_of_not_mem (not_mem_of_strchr hsep).2).2 (List.cons_ne_nil _ _)

theorem layersNames_ok {req : EvhttpRequest} {uri : Bytes} (huri : (0 : UInt8) ∉ uri) :
    ∀ name ∈ layersNames req uri, NameOk name := by
  intro name hmem
  unfold layersNames at hmem
  split at hmem
  · split at hmem
    · cases hmem
    · rename_i hne
      obtain rfl := List.mem_singleton.1 hmem
      exact (nameOk_of_not_mem huri).2 hne
  · cases hmem

/-- **The name assertion** holds in every call of a request unless it is a GET, a PUT or a DELETE of a record whose layer
name is empty; and a request that gets past the calls has had no empty name. -/
theorem name_assertion_iff (req : EvhttpRequest) (encodedUri : Bytes) (u : ApiUri) (hu : apiUri encodedUri = some u) :
    ((∀ name ∈ domainNames D req u, NameOk name) ↔ ¬ (caseEq (bytes "records") u.domain ∧
      (req.type = EVHTTP_REQ_GET ∨ req.type = EVHTTP_REQ_PUT ∨ req.type = EVHTTP_REQ_DELETE) ∧
      u.uriPart.head? = some 47)) ∧
    ∀ (context : HttpHandlerContext D) (fakeReq : Bool) (fork : Option Nat),
      (∃ name ∈ domainNames D req u, ¬ NameOk name) → domainHandler req context u fakeReq fork = none := by
  have huri := not_mem_uriPart hu
  refine ⟨?_, fun context fakeReq fork ⟨name, hmem, hname⟩ => ?_⟩
  · unfold domainNames
    split
    · rename_i hrecords
      rw [recordsNames_iff huri]
      simp [hrecords]
    · rename_i hrecords
      refine iff_of_true ?_ (fun h => hrecords h.1)
      split
      · exact searchNames_ok u.opts
      · split
        · exact layersNames_ok huri
        · exact fun _ hmem => nomatch hmem
  · cases hr : domainHandler req context u fakeReq fork with
    | none => rfl
    | some r => exact absurd (domainHandler_names hr name hmem) hname

theorem name_assertion_record : (∀ name ∈ domainNames ℚ ⟨EVHTTP_REQ_GET, [], []⟩ ⟨bytes "records", bytes "x/a", none⟩,
      NameOk name) ∧ domainNames ℚ ⟨EVHTTP_REQ_GET, [], []⟩ ⟨bytes "records", bytes "x/a", none⟩ = [bytes "x", bytes "a"] :=
  ⟨(name_assertion_iff ⟨EVHTTP_REQ_GET, [], []⟩ (bytes "records/x/a.json") ⟨bytes "records", bytes "x/a", none⟩
    (by decide +kernel)).1.2 (by decide +kernel), by decide +kernel⟩

/-- **A doubled slash aborts the server**: the layer name of a GET of `records//a.json` is empty. -/
theorem name_assertion_fails : ∃ u, apiUri (bytes "records//a.json") = some u ∧
    caseEq (bytes "records") u.domain = true ∧
    ¬ (∀ name ∈ domainNames ℚ ⟨EVHTTP_REQ_GET, [], []⟩ u, NameOk name) :=
  ⟨⟨bytes "records", bytes "/a", none⟩, by decide +kernel, by decide +kernel, by decide +kernel⟩

end Pincaster
