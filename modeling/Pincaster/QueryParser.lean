import Pincaster.Lib.CString
/-!
# QueryParser — `query_parser.c` and the body of a dumped record

The pairs of a query, the percent encoding of the dump and the callback that builds the body of a record out of its
properties.  Memory allocations succeed; a failed assertion has no result.
-/
namespace Pincaster

open Lib (Bytes bytes strtol hex2)

variable {σ : Type}

/-- `val` is `NULL` until the first allocation; the bytes are the `size` first ones of it. -/
structure BinVal where
  val : Option Bytes
  maxSize : Nat
  deriving DecidableEq, Repr

def initBinval : BinVal := ⟨none, 0⟩

def BinVal.size (b : BinVal) : Nat := (b.val.getD []).length

def appendToBinval (binval : BinVal) (str : Bytes) : Option BinVal :=
  let freeSpace := binval.maxSize - binval.size
  if freeSpace < str.length then
    some ⟨some (binval.val.getD [] ++ str), binval.size + str.length⟩
  else do
    let val ← binval.val
    if val.length + str.length ≤ binval.maxSize then some ⟨some (val ++ str), binval.maxSize⟩ else none

/-! ## Decoding -/

/-- The loop of `query_decode`: what is left of `encoded`, and the bytes decoded so far. -/
def queryDecodeLoop (maxDecodedSize : Nat) : Bytes → Bytes → Bytes
  | [], decoded => decoded
  | c :: encoded, decoded =>
    if decoded.length ≥ maxDecodedSize then decoded
    else if c = 43 then queryDecodeLoop maxDecodedSize encoded (decoded ++ [32])
    else if c = 37 then
      match encoded with
      | h :: l :: encoded =>
        queryDecodeLoop maxDecodedSize encoded (decoded ++ [UInt8.ofInt (strtol 16 [h, l]).1])
      | _ => decoded
    else queryDecodeLoop maxDecodedSize encoded (decoded ++ [c])

def queryDecode (encoded : Bytes) (maxDecodedSize : Nat) : Option Bytes :=
  if maxDecodedSize ≥ encoded.length then some (queryDecodeLoop maxDecodedSize encoded []) else none

/-- The sizes of the two buffers of `query_parse`, which every part may enlarge. -/
structure QueryBuffers where
  keyMaxSize : Nat
  valueMaxSize : Nat

structure QueryPart where
  key : Bytes
  value : Bytes
  next : Option Bytes
  buffers : QueryBuffers

/-- `query_parse_part`; the inner `none` is its `-1`. -/
def queryParsePart (part : Bytes) (buffers : QueryBuffers) : Option (Option QueryPart) :=
  let ekey := part.takeWhile (fun c => c ≠ 0 ∧ c ≠ 61)
  match part.dropWhile (fun c => c ≠ 0 ∧ c ≠ 61) with
  | [] => some none
  | c :: pnt =>
    if c = 0 then some none
    else
      let keyMaxSize := if buffers.keyMaxSize ≤ ekey.length then ekey.length + 1 else buffers.keyMaxSize
      if ekey.length ≤ 0 ∨ ekey.head? = some 38 then some none
      else do
        let key ← queryDecode ekey keyMaxSize
        let evalue := pnt.takeWhile (fun c => c ≠ 0 ∧ c ≠ 38)
        let valueMaxSize :=
          if buffers.valueMaxSize ≤ evalue.length then evalue.length + 1 else buffers.valueMaxSize
        let value ← queryDecode evalue valueMaxSize
        let next := match pnt.dropWhile (fun c => c ≠ 0 ∧ c ≠ 38) with
          | [] => none
          | c :: pnt => if c = 0 then none else some pnt
        some (some ⟨key, value, next, keyMaxSize, valueMaxSize⟩)

/-- The `do … while` over the parts.  Each of them starts after the one before it; the callback may fail an assertion. -/
def queryParseLoop (cb : σ → Bytes → Bytes → Option (Int × σ)) : Nat → Bytes → QueryBuffers → σ → Option (Int × σ)
  | 0, _, _, _ => none
  | fuel + 1, part, buffers, context => do
    match ← queryParsePart part buffers with
    | none => some (-1, context)
    | some p =>
      let (ret, context) ← cb context p.key p.value
      if ret ≠ 0 then some (1, context)
      else
        match p.next with
        | none => some (0, context)
        | some next => queryParseLoop cb fuel next p.buffers context

def queryParse (query : Bytes) (cb : σ → Bytes → Bytes → Option (Int × σ)) (context : σ) : Option (Int × σ) :=
  match query with
  | [] => some (0, context)
  | c :: _ => if c = 0 then some (0, context) else queryParseLoop cb (query.length + 1) query ⟨0, 0⟩ context

/-! ## Encoding -/

/-- The bytes the encoder leaves as they are. -/
def uriChars : List Nat := [
  0, 0, 0, 0, 0, 0, 0, 0,   0, 0, 0, 0, 0, 0, 0, 0,
  0, 0, 0, 0, 0, 0, 0, 0,   0, 0, 0, 0, 0, 0, 0, 0,
  0, 1, 0, 0, 1, 0, 0, 1,   1, 1, 1, 1, 1, 1, 1, 1,
  1, 1, 1, 1, 1, 1, 1, 1,   1, 1, 1, 0, 0, 1, 0, 0,
  /- 64 -/
  1, 1, 1, 1, 1, 1, 1, 1,   1, 1, 1, 1, 1, 1, 1, 1,
  1, 1, 1, 1, 1, 1, 1, 1,   1, 1, 1, 0, 0, 0, 0, 1,
  0, 1, 1, 1, 1, 1, 1, 1,   1, 1, 1, 1, 1, 1, 1, 1,
  1, 1, 1, 1, 1, 1, 1, 1,   1, 1, 1, 0, 0, 0, 1, 0,
  /- 128 -/
  0, 0, 0, 0, 0, 0, 0, 0,   0, 0, 0, 0, 0, 0, 0, 0,
  0, 0, 0, 0, 0, 0, 0, 0,   0, 0, 0, 0, 0, 0, 0, 0,
  0, 0, 0, 0, 0, 0, 0, 0,   0, 0, 0, 0, 0, 0, 0, 0,
  0, 0, 0, 0, 0, 0, 0, 0,   0, 0, 0, 0, 0, 0, 0, 0,
  /- 192 -/
  0, 0, 0, 0, 0, 0, 0, 0,   0, 0, 0, 0, 0, 0, 0, 0,
  0, 0, 0, 0, 0, 0, 0, 0,   0, 0, 0, 0, 0, 0, 0, 0,
  0, 0, 0, 0, 0, 0, 0, 0,   0, 0, 0, 0, 0, 0, 0, 0,
  0, 0, 0, 0, 0, 0, 0, 0,   0, 0, 0, 0, 0, 0, 0, 0]

def isUriChar (c : UInt8) : Bool := uriChars.getD c.toNat 0 ≠ 0

/-- The loop of `uri_encode_binval` over the bytes of the value. -/
def uriEncodeLoop : Bytes → BinVal → Option BinVal
  | [], evalue => some evalue
  | c :: value, evalue => do
    let evalue ← appendToBinval evalue (if isUriChar c then [c] else 37 :: hex2 c)
    uriEncodeLoop value evalue

def uriEncodeBinval (evalue : BinVal) (value : Bytes) : Option BinVal :=
  if value.length > evalue.maxSize ∨ evalue.val = none then
    let wantedMaxSize := value.length * 3 / 2
    if wantedMaxSize > 0 then uriEncodeLoop value ⟨some [], wantedMaxSize⟩ else none
  else uriEncodeLoop value { evalue with val := some [] }

/-! ## The body of a dumped record -/

structure RebuildJournalPropertyCBContext where
  bodyBuffer : Bytes
  first : Bool
  encodingRecordBuffer : BinVal

def rebuildJournalPropertyCb (context : RebuildJournalPropertyCBContext) (key value : Bytes) :
    Option RebuildJournalPropertyCBContext := do
  let body := if context.first then context.bodyBuffer else context.bodyBuffer ++ bytes "&"
  let buffer ← uriEncodeBinval context.encodingRecordBuffer key
  let body := body ++ buffer.val.getD [] ++ bytes "="
  let buffer ← uriEncodeBinval buffer value
  some ⟨body ++ buffer.val.getD [], false, buffer⟩

/-- The callback over the properties of a record. -/
def rebuildJournalProperties : List (Bytes × Bytes) → RebuildJournalPropertyCBContext →
    Option RebuildJournalPropertyCBContext
  | [], context => some context
  | (key, value) :: properties, context => do
    rebuildJournalProperties properties (← rebuildJournalPropertyCb context key value)

end Pincaster
