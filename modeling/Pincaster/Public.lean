import Pincaster.PutStored
import Pincaster.ServerRuns
/-!
# Public — `public.c`: the content of a record, for a GET outside of the API

A public request is answered by the main thread itself, between the steps of the workers.  It shows the `$content` that
the maps have (`public_request_shows`), and the one that the last PUT of the record has given
(`public_request_shows_put`).
-/
namespace Pincaster

open Lib (Bytes bytes cstr strchr walk unbound assign System)

variable {D : Type}

/-! ## A public request -/

def HTTP_BADMETHOD : Int := 405

def INT_PROPERTY_CONTENT : Bytes := bytes "$content"
def INT_PROPERTY_CONTENT_TYPE : Bytes := bytes "$content_type"
def DEFAULT_CONTENT_TYPE_FOR_PUBLIC_DATA : Bytes := bytes "text/plain"
def MAX_CONTENT_TYPE_LENGTH : Nat := 100

/-- What is sent for a public request.  An error has an `Allow` header or none; a content has its `Content-Type`, unless
the header is dropped. -/
inductive PublicReply where
  | error (status : Int) (reason : Bytes) (allow : Option Bytes)
  | content (contentType : Option Bytes) (content : Bytes)
  deriving DecidableEq

def publicNotFound : PublicReply := .error HTTP_NOTFOUND (bytes "Not Found") none

/-- `evhttp_header_is_valid_value`, from outside or inside of new lines: behind them stands a space or a tab. -/
def evhttpHeaderIsValidValue : Bool → Bytes → Bool
  | newLine, [] => !newLine
  | newLine, c :: value =>
    if c = 13 ∨ c = 10 then evhttpHeaderIsValidValue true value
    else if newLine ∧ c ≠ 32 ∧ c ≠ 9 then false
    else evhttpHeaderIsValidValue false value

/-- `evhttp_add_header` with a C string, as far as its value goes: an illegal one is dropped. -/
def evhttpAddHeader (value : Bytes) : Option Bytes :=
  if evhttpHeaderIsValidValue false (cstr value) then some (cstr value) else none

/-- The lengths say what was found: a pointer of `NULL` has a length of 0. -/
structure PublicPropertiesCBContext where
  content : Bytes
  contentType : Bytes

def publicPropertiesCb (context : PublicPropertiesCBContext) (key value : Bytes) :
    Option (Int × PublicPropertiesCBContext) :=
  let found : PublicPropertiesCBContext → Option (Int × PublicPropertiesCBContext) := fun context =>
    if 0 < context.content.length ∧ 0 < context.contentType.length then some (1, context) else some (0, context)
  if key = INT_PROPERTY_CONTENT then found { context with content := value }
  else if key = INT_PROPERTY_CONTENT_TYPE then found { context with contentType := value }
  else some (0, context)

/-- What is sent for the properties that were found. -/
def publicContent (context : PublicPropertiesCBContext) : PublicReply :=
  if context.content.length = 0 then publicNotFound
  else if context.contentType.length > MAX_CONTENT_TYPE_LENGTH then
    .error HTTP_BADREQUEST (bytes "Content-Type too long") none
  else
    let contentType :=
      if context.contentType.length = 0 then DEFAULT_CONTENT_TYPE_FOR_PUBLIC_DATA else context.contentType
    .content (evhttpAddHeader contentType) context.content

/-- `handle_public_request`; the key node is looked up even when its time has come. -/
def handlePublicRequest (store : LayerStore D) (uri : Bytes) (type : Nat) : Option PublicReply :=
  if type ≠ EVHTTP_REQ_GET then
    some (.error HTTP_BADMETHOD (bytes "Method not allowed") (some (bytes "GET")))
  else
    match strchr uri 47 with
    | none => some publicNotFound
    | some (layer, sep) => do
      let layerName ← newKeyFromCString layer
      if sep = [] then some publicNotFound
      else
        let key ← newKeyFromCString sep
        match getPanDbByLayerName store.layers layerName with
        | none => some publicNotFound
        | some panDb =>
          match (getKeyNodeFromKey panDb.keyNodes key).2 with
          | none => some publicNotFound
          | some keyNode => do
            let node ← store.mem.keyNodes.cells keyNode.2
            (slipMapForeachCb node.properties publicPropertiesCb ⟨[], []⟩).map publicContent

/-- The handler goes through the layers in their slab. -/
def SlabStore.handlePublicRequest (store : SlabStore D) (uri : Bytes) (type : Nat) : Option PublicReply :=
  store.layersSlab.entries.bind (fun entries => Pincaster.handlePublicRequest (seen store.mem entries) uri type)

/-- `process_public_request`. -/
def processPublicRequest (encodedPublicBaseUri : Bytes) (store : SlabStore D) (uri : Bytes) (type : Nat) :
    Option PublicReply :=
  store.handlePublicRequest (extractOpts (evhttpDecodeUri (uri.drop encodedPublicBaseUri.length))).1 type

/-- `process_request` with a request over HTTP that is none of the API. -/
def processOtherRequest (encodedPublicBaseUri : Bytes) (store : SlabStore D) (uri : Bytes) (type : Nat) :
    Option PublicReply :=
  if encodedPublicBaseUri.isPrefixOf uri then processPublicRequest encodedPublicBaseUri store uri type
  else some publicNotFound

/-! ## What the maps have for it -/

/-- The content of a map of properties. -/
def contentOf (binds : Bytes → Option Bytes) : PublicReply :=
  publicContent ⟨(binds INT_PROPERTY_CONTENT).getD [], (binds INT_PROPERTY_CONTENT_TYPE).getD []⟩

/-- **The reply for a path.**  Without a layer, a key or a record there is nothing to show. -/
def ShowsPath (layers : Layers D) (path : Bytes) (reply : PublicReply) : Prop :=
  (reply = publicNotFound ∧ ∀ layer key keyNodes, path = layer ++ 47 :: key → (47 : UInt8) ∉ layer → key ≠ [] →
    layers (layer ++ [0]) = some keyNodes → keyNodes (key ++ [0]) = none) ∨
  ∃ layer key keyNodes keyNode binds, path = layer ++ 47 :: key ∧ (47 : UInt8) ∉ layer ∧ key ≠ [] ∧
    layers (layer ++ [0]) = some keyNodes ∧ keyNodes (key ++ [0]) = some keyNode ∧ Holds keyNode.properties binds ∧
    reply = contentOf binds

/-! ## The callback -/

/-- What is found for one name in some of the properties. -/
structure FoundIn (properties : List (Bytes × Bytes)) (name before after : Bytes) : Prop where
  mem : ∀ value, (name, value) ∈ properties → after = value
  not_mem : name ∉ properties.map Prod.fst → after = before

theorem FoundIn.nil (name before : Bytes) : FoundIn [] name before before :=
  ⟨fun _ h => absurd h List.not_mem_nil, fun _ => rfl⟩

/-- A pair of another name. -/
theorem FoundIn.skip {properties : List (Bytes × Bytes)} {p : Bytes × Bytes} {name before after : Bytes}
    (h : FoundIn properties name before after) (hne : p.1 ≠ name) : FoundIn (p :: properties) name before after := by
  refine ⟨fun value hmem => ?_, fun hno => ?_⟩
  · rcases List.mem_cons.1 hmem with rfl | hmem
    · exact absurd rfl hne
    · exact h.mem value hmem
  · exact h.not_mem (fun hin => hno (List.mem_cons_of_mem _ hin))

/-- The pair of the name; it comes once. -/
theorem FoundIn.here {properties : List (Bytes × Bytes)} {name value : Bytes} (before : Bytes)
    (hno : name ∉ properties.map Prod.fst) : FoundIn ((name, value) :: properties) name before value := by
  refine ⟨fun value' hmem => ?_, fun h => absurd List.mem_cons_self h⟩
  rcases List.mem_cons.1 hmem with heq | hmem
  · exact (Prod.ext_iff.1 heq).2.symm
  · exact absurd (List.mem_map_of_mem hmem) hno

/-- What is left of the properties has not the name. -/
theorem FoundIn.done {properties : List (Bytes × Bytes)} {name before : Bytes}
    (hno : name ∉ properties.map Prod.fst) : FoundIn properties name before before :=
  ⟨fun _ hmem => absurd (List.mem_map_of_mem hmem) hno, fun _ => rfl⟩

theorem FoundIn.trans {properties : List (Bytes × Bytes)} {name value before after : Bytes}
    (h : FoundIn properties name value after) (hno : name ∉ properties.map Prod.fst) :
    FoundIn ((name, value) :: properties) name before after := h.not_mem hno ▸ .here before hno

/-- **The callback finds both properties**, also when it stops before the end: what it has found does not come again. -/
theorem walk_publicPropertiesCb : ∀ (properties : List (Bytes × Bytes)) (context : PublicPropertiesCBContext),
    (properties.map Prod.fst).Nodup →
    (context.content ≠ [] → INT_PROPERTY_CONTENT ∉ properties.map Prod.fst) →
    (context.contentType ≠ [] → INT_PROPERTY_CONTENT_TYPE ∉ properties.map Prod.fst) →
    ∃ ret context', walk publicPropertiesCb properties context = some (ret, context') ∧
      FoundIn properties INT_PROPERTY_CONTENT context.content context'.content ∧
      FoundIn properties INT_PROPERTY_CONTENT_TYPE context.contentType context'.contentType
  | [], context, _, _, _ => ⟨0, context, rfl, .nil _ _, .nil _ _⟩
  | (key, value) :: properties, context, hnodup, hcontent, htype => by
    obtain ⟨hkey, hrest⟩ := List.nodup_cons.1 hnodup
    have hne : INT_PROPERTY_CONTENT ≠ INT_PROPERTY_CONTENT_TYPE := by decide
    replace hcontent := fun h hin => hcontent h (List.mem_cons_of_mem key hin)
    replace htype := fun h hin => htype h (List.mem_cons_of_mem key hin)
    have hstop : ∀ {content contentType : Bytes}, 0 < content.length ∧ 0 < contentType.length →
        content ≠ [] ∧ contentType ≠ [] := fun h => ⟨List.ne_nil_of_length_pos h.1, List.ne_nil_of_length_pos h.2⟩
    rw [walk, publicPropertiesCb]
    by_cases hc : key = INT_PROPERTY_CONTENT
    · subst hc
      simp only [if_pos, Option.bind_eq_bind]
      split
      · rename_i hfound
        obtain ⟨-, hfound⟩ := hstop hfound
        exact ⟨1, _, rfl, .here _ hkey, .skip (.done (htype hfound)) hne⟩
      · obtain ⟨ret, context', hwalk, hc', ht'⟩ :=
          walk_publicPropertiesCb properties { context with content := value } hrest (fun _ => hkey) htype
        exact ⟨ret, context', hwalk, hc'.trans hkey, ht'.skip hne⟩
    · by_cases ht : key = INT_PROPERTY_CONTENT_TYPE
      · subst ht
        simp only [if_neg hc, if_pos, Option.bind_eq_bind]
        split
        · rename_i hfound
          obtain ⟨hfound, -⟩ := hstop hfound
          exact ⟨1, _, rfl, .skip (.done (hcontent hfound)) hc, .here _ hkey⟩
        · obtain ⟨ret, context', hwalk, hc', ht'⟩ :=
            walk_publicPropertiesCb properties { context with contentType := value } hrest hcontent (fun _ => hkey)
          exact ⟨ret, context', hwalk, hc'.skip hc, ht'.trans hkey⟩
      · obtain ⟨ret, context', hwalk, hc', ht'⟩ := walk_publicPropertiesCb properties context hrest hcontent htype
        simp only [if_neg hc, if_neg ht, Option.bind_eq_bind, Option.bind_some, ne_eq, not_true_eq_false, if_false]
        exact ⟨ret, context', hwalk, hc'.skip hc, ht'.skip ht⟩

/-- A name that is found is bound. -/
theorem Holds.foundIn {properties : Option SlipMap} {binds : Bytes → Option Bytes} (h : Holds properties binds)
    {name after : Bytes} (hfound : FoundIn (visited properties) name [] after) : after = (binds name).getD [] := by
  cases hb : binds name with
  | none =>
    refine hfound.not_mem (fun hin => ?_)
    obtain ⟨⟨key, value⟩, hmem, rfl⟩ := List.mem_map.1 hin
    rw [h.mem_visited.1 hmem] at hb
    cases hb
  | some value => exact hfound.mem value (h.mem_visited.2 hb)

/-- **The content of a record** is the one that its properties bind. -/
theorem slipMapForeachCb_public {properties : Option SlipMap} {binds : Bytes → Option Bytes}
    (h : Holds properties binds) :
    (slipMapForeachCb properties publicPropertiesCb ⟨[], []⟩).map publicContent = some (contentOf binds) := by
  obtain ⟨ret, context, hwalk, hcontent, htype⟩ :=
    walk_publicPropertiesCb (visited properties) ⟨[], []⟩ h.nodup (fun hne => absurd rfl hne)
      (fun hne => absurd rfl hne)
  rw [h.foreach, hwalk, Option.map_some, Option.map_some, contentOf, ← h.foundIn hcontent, ← h.foundIn htype]

/-! ## The reply -/

theorem newKeyFromCString_nul {name : Bytes} (hnul : (0 : UInt8) ∉ name) (hne : name ≠ []) :
    newKeyFromCString name = some (name ++ [0]) := by
  rw [newKeyFromCString, Lib.cstr_of_not_mem hnul, if_pos (List.length_pos_iff.2 hne)]

section
variable [LinearOrder D] {env : PanDbEnv D Nat} {store : LayerStore D} {layers : Layers D} {path : Bytes}

/-- **A GET of a path** that does not begin with a slash has a reply, which is the one of the maps. -/
theorem HasMaps.public_request (h : HasMaps env store layers) (hnul : (0 : UInt8) ∉ path)
    (hhead : path.head? ≠ some 47) :
    ∃ reply, handlePublicRequest store path EVHTTP_REQ_GET = some reply ∧ ShowsPath layers path reply := by
  rw [handlePublicRequest, if_neg (not_not.2 rfl)]
  have hother : (∀ layer key keyNodes, path = layer ++ 47 :: key → (47 : UInt8) ∉ layer → key ≠ [] →
      layers (layer ++ [0]) = some keyNodes → keyNodes (key ++ [0]) = none) →
      ∃ reply, some publicNotFound = some reply ∧ ShowsPath layers path reply := fun hno => ⟨_, rfl, .inl ⟨rfl, hno⟩⟩
  cases hsep : strchr path 47 with
  | none =>
    refine hother (fun layer key keyNodes hpath => ?_)
    have hmem : (47 : UInt8) ∈ cstr path := by rw [Lib.cstr_of_not_mem hnul, hpath]; simp
    rw [strchr, if_pos hmem] at hsep
    cases hsep
  | some split =>
    obtain ⟨layer, sep⟩ := split
    obtain ⟨rfl, hlayer⟩ := strchr_eq_some hnul hsep
    have hunique : ∀ {layer' key' : Bytes}, layer ++ 47 :: sep = layer' ++ 47 :: key' → (47 : UInt8) ∉ layer' →
        layer' = layer ∧ key' = sep := fun {layer' key'} heq hlayer' => by
      have hsplit := strchr_append hlayer' (heq ▸ hnul)
      rw [← heq, hsep, Option.some.injEq, Prod.mk.injEq] at hsplit
      exact ⟨hsplit.1.symm, hsplit.2.symm⟩
    have hne : layer ≠ [] := fun hnil => hhead (by rw [hnil]; rfl)
    have hlayerNul : (0 : UInt8) ∉ layer := fun hin => hnul (List.mem_append_left _ hin)
    have hkeyNul : (0 : UInt8) ∉ sep := fun hin => hnul (List.mem_append_right _ (List.mem_cons_of_mem _ hin))
    have hname : CKey (layer ++ [0]) := .of_nul hlayerNul
    simp only [newKeyFromCString_nul hlayerNul hne, Option.bind_eq_bind, Option.bind_some]
    by_cases hkey : sep = []
    · rw [if_pos hkey]
      exact hother (fun layer' key' keyNodes heq hlayer' hkey' => absurd ((hunique heq hlayer').2.trans hkey) hkey')
    rw [if_neg hkey, newKeyFromCString_nul hkeyNul hkey, Option.bind_some]
    cases hdb : getPanDbByLayerName store.layers (layer ++ [0]) with
    | none =>
      refine hother (fun layer' key' keyNodes heq hlayer' _ hmaps => ?_)
      obtain ⟨rfl, rfl⟩ := hunique heq hlayer'
      rw [h.2.2, maps_eq_none hname hdb] at hmaps
      cases hmaps
    | some panDb =>
      obtain ⟨-, hsound, hmaps⟩ := h.sound hname hdb
      simp only [getKeyNodeFromKey]
      cases hfind : panDb.keyNodes.find (sep ++ [0]) with
      | none =>
        refine hother (fun layer' key' keyNodes heq hlayer' _ hmaps' => ?_)
        obtain ⟨rfl, rfl⟩ := hunique heq hlayer'
        rw [hmaps, Option.some.injEq] at hmaps'
        rw [← hmaps', Layer.records, hfind, Option.map_none]
      | some n =>
        obtain ⟨hn, hnkey⟩ := (Lib.RbTree.find_eq_some keyNodeCmp_total).1 hfind
        obtain ⟨node, binds, hnode, hholds, -⟩ := hsound.node n hn
        refine ⟨contentOf binds, ?_, .inr ⟨layer, sep, _, Layer.recordAt store.mem panDb n.2, binds, rfl, hlayer, hkey,
          hmaps, ?_, ?_, rfl⟩⟩
        · simp only [hnode, Option.bind_some, slipMapForeachCb_public hholds]
        · exact hnkey ▸ Layer.records_eq_some (a := n.2) hn
        · rwa [Layer.recordAt_properties hnode]

omit [LinearOrder D] in
/-- **The assertion of a key fails** for a path that begins with a slash. -/
theorem handlePublicRequest_slash (hnul : (0 : UInt8) ∉ path) (hhead : path.head? = some 47) :
    handlePublicRequest store path EVHTTP_REQ_GET = none := by
  obtain ⟨rest, rfl⟩ := List.head?_eq_some_iff.1 hhead
  rw [handlePublicRequest, if_neg (not_not.2 rfl), show strchr (47 :: rest) 47 = some ([], rest) from
    strchr_append (s := []) List.not_mem_nil hnul]
  rfl

end

/-- Behind a layer there is a record, and no slash in front. -/
theorem RecordNames.path {layer key : Bytes} (h : RecordNames layer key) :
    (0 : UInt8) ∉ layer ++ 47 :: key ∧ (layer ++ 47 :: key).head? ≠ some 47 := by
  refine ⟨fun hin => ?_, fun heq => ?_⟩
  · rcases List.mem_append.1 hin with hin | hin
    · exact h.layer_nul hin
    · rcases List.mem_cons.1 hin with hzero | hin
      · exact absurd hzero (by decide)
      · exact h.key_nul hin
  · obtain ⟨c, rest, rfl⟩ := List.exists_cons_of_ne_nil h.layer_ne_nil
    exact h.layer_slash (Option.some.inj heq ▸ List.mem_cons_self)

/-- The reply for a record that the maps have. -/
theorem ShowsPath.record {layers : Layers D} {layer key : Bytes} {reply : PublicReply} {keyNodes : KeyNodes D}
    {keyNode : KeyNode D} {binds : Bytes → Option Bytes} (h : ShowsPath layers (layer ++ 47 :: key) reply)
    (hnames : RecordNames layer key) (hlayer : layers (layer ++ [0]) = some keyNodes)
    (hkey : keyNodes (key ++ [0]) = some keyNode) (hholds : Holds keyNode.properties binds) :
    reply = contentOf binds := by
  rcases h with ⟨-, hno⟩ | ⟨layer', key', keyNodes', keyNode', binds', heq, hslash, -, hlayer', hkey', hholds', rfl⟩
  · rw [hno layer key keyNodes rfl hnames.layer_slash hnames.key_ne_nil hlayer] at hkey
    cases hkey
  · obtain ⟨hnul, -⟩ := hnames.path
    have hsplit := strchr_append hnames.layer_slash hnul
    rw [heq, strchr_append hslash (heq ▸ hnul), Option.some.injEq, Prod.mk.injEq] at hsplit
    obtain ⟨rfl, rfl⟩ := hsplit
    rw [hlayer, Option.some.injEq] at hlayer'
    subst hlayer'
    rw [hkey, Option.some.injEq] at hkey'
    subst hkey'
    rw [hholds.eq_assign, hholds'.eq_assign]

/-! ## Runs -/

section
variable [Dimension D] [Field D] [LinearOrder D] [ExactDimension D] {env : SearchEnv D Nat}

omit [Dimension D] [ExactDimension D] in
/-- **A GET of a path in a sound store.** -/
theorem SlabStore.Sound.public_request {store : SlabStore D} {entries : List (EntryPtr × Layer D)}
    (h : store.Sound env.toPanDbEnv entries) {path : Bytes} (hnul : (0 : UInt8) ∉ path)
    (hhead : path.head? ≠ some 47) :
    ∃ reply, store.handlePublicRequest path EVHTTP_REQ_GET = some reply ∧ ShowsPath store.maps path reply := by
  rw [SlabStore.handlePublicRequest, h.holds.entries_eq, Option.bind_some, h.maps_eq]
  exact h.maps.public_request hnul hhead

/-- **A public GET in a state of the server** that has lost no layer is answered as the maps of its store say, whatever the
workers are about: with the content of the record and its type, or an error where it has none.  The server aborts
exactly when the decoded path begins with a slash. -/
theorem public_request_shows {init : HttpHandlerContext D} (hinit : init.cqueue.Holds []) {s : ReplyServer D}
    (hr : ((replySystem env init).restrict ReplyServer.KeepsLayers).Reachable s)
    {encodedPublicBaseUri uri path : Bytes} (hbase : encodedPublicBaseUri.isPrefixOf uri = true)
    (hpath : (extractOpts (evhttpDecodeUri (uri.drop encodedPublicBaseUri.length))).1 = path) :
    (processOtherRequest encodedPublicBaseUri s.store uri EVHTTP_REQ_GET = none ↔ path.head? = some 47) ∧
    ∀ reply, processOtherRequest encodedPublicBaseUri s.store uri EVHTTP_REQ_GET = some reply →
      ShowsPath s.store.maps path reply := by
  obtain ⟨h, hr⟩ := hr
  obtain ⟨entries, hsound⟩ := sound_of_run (storeHistory_run hinit hr)
  have hnul : (0 : UInt8) ∉ path := hpath ▸ (not_mem_extractOpts _).1
  rw [processOtherRequest, if_pos hbase, processPublicRequest, hpath]
  by_cases hhead : path.head? = some 47
  · rw [SlabStore.handlePublicRequest, hsound.holds.entries_eq, Option.bind_some, handlePublicRequest_slash hnul hhead]
    exact ⟨⟨fun _ => hhead, fun _ => rfl⟩, fun _ hreply => by cases hreply⟩
  · obtain ⟨reply, hreply, hshows⟩ := hsound.public_request hnul hhead
    rw [hreply]
    exact ⟨⟨fun hno => absurd hno (Option.some_ne_none _), fun h => absurd h hhead⟩,
      fun _ h => Option.some.inj h ▸ hshows⟩

/-- The record whose PUT was overtaken by its deletion. -/
theorem public_request_shows_crossed : ∃ h s,
    ((replySystem (worldEnv .flat) freshContext).restrict ReplyServer.KeepsLayers).Run h s ∧
    h.map Prod.snd = crossedSteps ∧
    processOtherRequest (bytes "/public/") s.store (bytes "/public/x/%6b?b") EVHTTP_REQ_GET =
      some (.content (some (bytes "text/plain")) (bytes "Hi")) ∧
    ShowsPath s.store.maps (bytes "x/k") (.content (some (bytes "text/plain")) (bytes "Hi")) := by
  have hrun : (((replySystem (worldEnv .flat) freshContext).restrict ReplyServer.KeepsLayers).exec crossedSteps
      (replySystem (worldEnv .flat) freshContext).init).any (fun s => decide (
        processOtherRequest (bytes "/public/") s.store (bytes "/public/x/%6b?b") EVHTTP_REQ_GET =
          some (.content (some (bytes "text/plain")) (bytes "Hi")))) = true := by decide +kernel
  obtain ⟨h, s, hr, hinputs, hp⟩ := System.exists_run_of_exec hrun
  have hreply := of_decide_eq_true hp
  have hbase : (bytes "/public/").isPrefixOf (bytes "/public/x/%6b?b") = true := by decide +kernel
  have hpath : (extractOpts (evhttpDecodeUri ((bytes "/public/x/%6b?b").drop (bytes "/public/").length))).1 =
    bytes "x/k" := by decide +kernel
  obtain ⟨-, hshows⟩ := public_request_shows freshContext_holds ⟨h, hr⟩ hbase hpath
  exact ⟨h, s, hr, hinputs, hreply, hshows _ hreply⟩

/-- **What a PUT gives is what the public gets.**  After a PUT of ordinary properties whose replacements find room, in a
store that has lost no layer, a public GET of the record shows the last content and the last content type of the body, or
those of before that the body does not name. -/
theorem public_request_shows_put {h : List (SlabStore D × StoreInput D)} {store : SlabStore D}
    (hr : ((slabStoreSystem env).restrict SlabStore.Takes).Run h store) {op : Op D} {putOp : RecordsPutOp D}
    {layer key body : Bytes} {pairs : List (Bytes × Bytes)} {keyNodes : KeyNodes D} {binds : Bytes → Option Bytes}
    (hop : op.body = .recordsPut putOp) (hnames : RecordNames layer key)
    (hput : queryParse (body ++ [0]) recordsPutOptParseCb (recordsPutOp (layer ++ [0]) (key ++ [0])) = some (0, putOp))
    (hbody : queryParse (body ++ [0]) collect [] = some (0, pairs)) (hord : ∀ p ∈ pairs, ordinary p.1 = true)
    (hfit : PairsFit pairs) (hlayer : store.maps (layer ++ [0]) = some keyNodes)
    (hbinds : Holds ((keyNodes (key ++ [0])).getD newKeyNode).properties binds)
    (hroom : FindsRoom ((keyNodes (key ++ [0])).getD newKeyNode).properties binds pairs) :
    ∃ store' replies, SlabStore.workerDoWork env op store = some (store', replies) ∧
      store'.handlePublicRequest (layer ++ 47 :: key) EVHTTP_REQ_GET = some (contentOf (assign binds pairs)) := by
  obtain ⟨entries, hsound⟩ := sound_of_run hr
  obtain ⟨hok, hopLayer, hopKey⟩ := queryParse_putOp hput
  have hlayerKey : CKey (layer ++ [0]) := .of_nul hnames.layer_nul
  have hreq : Requested op.body := by
    rw [hop]
    refine ⟨⟨hok, layer, key, hopLayer, hopKey, hnames⟩, fun _ => ?_⟩
    change CKey putOp.layerName
    rwa [hopLayer]
  have htakes : store.Takes (.operation op) := ⟨hreq, SlabStore.keepsLayers_of_creates (by rw [hop]; rfl)⟩
  obtain ⟨r, hhandle⟩ := hsound.maps.change hreq (by rw [hop]; rfl)
  obtain ⟨store', entries', hstep, hsound', hwork⟩ := hsound.operation htakes (congrArg (Option.map _) hhandle)
  -- what the properties of the record are now
  obtain ⟨putOp', properties, binds', hwalk, hopLayer', hopKey', hproperties, hholds, hkept, hiff⟩ :=
    put_ordinary (D := D) hbinds hord hfit (layer ++ [0]) (key ++ [0])
  rw [queryParse_walk hbody, hwalk] at hput
  obtain rfl : putOp' = putOp := (Prod.ext_iff.1 (Option.some.inj hput)).2
  have hbinds' : binds' = assign binds pairs := by
    funext name
    by_cases hname : name ∈ pairs.map Prod.fst
    · obtain ⟨value, hvalue⟩ := Option.ne_none_iff_exists'.1 (fun hno => Lib.assign_eq_none.1 hno hname)
      rw [hiff.2 hroom name value hvalue, Lib.assign_eq_or, hvalue, Option.some_or]
    · rw [hkept name hname, Lib.assign_of_not_mem _ _ hname]
  have hopLayers : store.maps putOp'.layerName = some keyNodes := by rw [hopLayer, hlayer]
  have heq := handleOpRecordsPut_eq env.qbounds hopLayers (by rw [hopKey, hproperties])
  rw [hop] at hwork
  change (handleOpRecordsPut env.qbounds putOp' store.maps).map Prod.snd = some store'.maps at hwork
  rw [heq, Option.map_some, Option.some.injEq, hopLayer, hopKey] at hwork
  -- and what is shown of it
  obtain ⟨hnul, hhead⟩ := hnames.path
  obtain ⟨reply, hreply, hshows⟩ := hsound'.public_request hnul hhead
  have hlayer' := (congrFun hwork (layer ++ [0])).symm.trans (Function.update_self ..)
  have hrecord := hshows.record hnames hlayer' (Function.update_self ..) hholds
  exact ⟨store', _, hstep, by rw [hreply, hrecord, hbinds']⟩

/-- The body of a PUT of a record that has a property. -/
def contentPairs : List (Bytes × Bytes) :=
  [(bytes "$content", bytes "Hi"), (bytes "price", bytes "8"), (bytes "$content", bytes "Ho")]

/-- The content that comes last for a record that has another property already, which stays where it is. -/
theorem public_request_shows_put_again : ∃ h store putOp store' replies,
    ((slabStoreSystem (worldEnv .flat)).restrict SlabStore.Takes).Run h store ∧ h.map Prod.snd = slabInputs ∧
    queryParse (bytes "$content=Hi&price=8&$content=Ho" ++ [0]) recordsPutOptParseCb
      (recordsPutOp (bytes "l" ++ [0]) (bytes "abcd" ++ [0])) = some (0, putOp) ∧
    SlabStore.workerDoWork (worldEnv .flat) ⟨false, 1, .recordsPut putOp⟩ store = some (store', replies) ∧
    store.handlePublicRequest (bytes "l/abcd") EVHTTP_REQ_GET = some publicNotFound ∧
    store'.handlePublicRequest (bytes "l/abcd") EVHTTP_REQ_GET =
      some (.content (some (bytes "text/plain")) (bytes "Ho")) := by
  have hrun : (((slabStoreSystem (worldEnv .flat)).restrict (fun store input => store.KeepsLayers input)).exec slabInputs
      emptySlabStore).any (fun store => (store.maps (bytes "l\x00")).any (fun keyNodes =>
        (keyNodes (bytes "abcd\x00")).any (fun keyNode =>
          decide (keyNode.properties = (putProperty none (bytes "price") (bytes "7")).join))) &&
        decide (store.handlePublicRequest (bytes "l/abcd") EVHTTP_REQ_GET = some publicNotFound)) = true := by
    decide +kernel
  obtain ⟨h, store, hr, hinputs, hp⟩ := slab_run_of hrun
  obtain ⟨hlayer, hbefore⟩ := Bool.and_eq_true_iff.1 hp
  obtain ⟨keyNodes, hlayer, hkey⟩ := (Option.any_eq_true _ _).1 hlayer
  obtain ⟨keyNode, hkey, hproperties⟩ := (Option.any_eq_true _ _).1 hkey
  have hold : ((keyNodes (bytes "abcd" ++ [0])).getD newKeyNode).properties =
      (putProperty none (bytes "price") (bytes "7")).join := by
    rw [show bytes "abcd" ++ [0] = bytes "abcd\x00" by decide, hkey, Option.getD_some]
    exact of_decide_eq_true hproperties
  have hprice : Stored none (bytes "price") (bytes "7") := by decide +kernel
  have hholds : Holds (putProperty none (bytes "price") (bytes "7")).join _ := (show Holds none unbound from rfl).put hprice
  have hbody : queryParse (bytes "$content=Hi&price=8&$content=Ho" ++ [0]) collect [] = some (0, contentPairs) := by
    decide +kernel
  have hfit : PairsFit contentPairs := by
    unfold PairsFit
    decide +kernel
  have hord : ∀ p ∈ contentPairs, ordinary p.1 = true := by decide +kernel
  have hroom : FindsRoom (putProperty none (bytes "price") (bytes "7")).join
      (Function.update unbound (bytes "price") (some (bytes "7"))) contentPairs := by
    have hmerge : (putProperty none (bytes "price") (bytes "7")).join.any (fun target =>
        (replaceAll contentPairs none).any (fun parsed =>
          decide (LastsStored unbound (visited parsed) (some target)))) = true := by decide +kernel
    refine ⟨by decide +kernel, fun target parsed htarget hparsed => ?_⟩
    rw [htarget, Option.any_some, hparsed, Option.any_some] at hmerge
    exact of_decide_eq_true hmerge
  have hnames : RecordNames (bytes "l") (bytes "abcd") := by constructor <;> decide
  obtain ⟨putOp, -, -, hwalk, -⟩ := put_ordinary (D := ℚ) hholds hord hfit (bytes "l" ++ [0]) (bytes "abcd" ++ [0])
  have hput : queryParse (bytes "$content=Hi&price=8&$content=Ho" ++ [0]) recordsPutOptParseCb
      (recordsPutOp (bytes "l" ++ [0]) (bytes "abcd" ++ [0])) = some (0, putOp) := by
    rw [queryParse_walk hbody, hwalk]
    rfl
  have hop : (⟨false, 1, .recordsPut putOp⟩ : Op ℚ).body = .recordsPut putOp := rfl
  have hlayer' : store.maps (bytes "l" ++ [0]) = some keyNodes := hlayer
  obtain ⟨store', replies, hwork, hreply⟩ := public_request_shows_put hr hop hnames hput hbody hord hfit hlayer'
    (hold ▸ hholds) (hold ▸ hroom)
  exact ⟨h, store, putOp, store', replies, hr, hinputs, hput, hwork, of_decide_eq_true hbefore,
    hreply.trans (by decide +kernel)⟩

end

end Pincaster
