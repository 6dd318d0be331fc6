import IocpRuntime.Http.Message
import IocpRuntime.Http2.Huffman
import IocpRuntime.Buffer.Sequence

namespace IocpRuntime.Http2
open Lib Buffer Http

structure HpackOptions where
  maximumDynamicTableSize : Nat := 4096
  maximumHeaderListSize : Nat := 16384
  deriving DecidableEq, Repr

/-- Table entries and header fields carry the same two strings. -/
abbrev TableEntry := HttpHeader

def entry (name value : String) : TableEntry := ⟨octets name, octets value⟩

/-- Octets an entry counts for in the dynamic table and in a header list. -/
def entrySize (e : TableEntry) : Nat := e.name.length + e.value.length + 32

/-- `BuildStaticTable`; index 0 is a placeholder. -/
def staticTable : List TableEntry :=
  [entry "" "",
   entry ":authority" "",
   entry ":method" "GET",
   entry ":method" "POST",
   entry ":path" "/",
   entry ":path" "/index.html",
   entry ":scheme" "http",
   entry ":scheme" "https",
   entry ":status" "200",
   entry ":status" "204",
   entry ":status" "206",
   entry ":status" "304",
   entry ":status" "400",
   entry ":status" "404",
   entry ":status" "500",
   entry "accept-charset" "",
   entry "accept-encoding" "gzip, deflate",
   entry "accept-language" "",
   entry "accept-ranges" "",
   entry "accept" "",
   entry "access-control-allow-origin" "",
   entry "age" "",
   entry "allow" "",
   entry "authorization" "",
   entry "cache-control" "",
   entry "content-disposition" "",
   entry "content-encoding" "",
   entry "content-language" "",
   entry "content-length" "",
   entry "content-location" "",
   entry "content-range" "",
   entry "content-type" "",
   entry "cookie" "",
   entry "date" "",
   entry "etag" "",
   entry "expect" "",
   entry "expires" "",
   entry "from" "",
   entry "host" "",
   entry "if-match" "",
   entry "if-modified-since" "",
   entry "if-none-match" "",
   entry "if-range" "",
   entry "if-unmodified-since" "",
   entry "last-modified" "",
   entry "link" "",
   entry "location" "",
   entry "max-forwards" "",
   entry "proxy-authenticate" "",
   entry "proxy-authorization" "",
   entry "range" "",
   entry "referer" "",
   entry "refresh" "",
   entry "retry-after" "",
   entry "server" "",
   entry "set-cookie" "",
   entry "strict-transport-security" "",
   entry "transfer-encoding" "",
   entry "user-agent" "",
   entry "vary" "",
   entry "via" "",
   entry "www-authenticate" ""]

structure HpackCodec where
  dynamicTable : List TableEntry := []
  dynamicTableSize : Nat := 0
  currentDynamicTableLimit : Nat
  pendingTableSizeUpdate : Option Nat := none
  options : HpackOptions
  deriving DecidableEq, Repr

def HpackCodec.create (options : HpackOptions) : HpackCodec :=
  { currentDynamicTableLimit := options.maximumDynamicTableSize, options := options }

namespace HpackCodec

def lookup (codec : HpackCodec) (index : Nat) : Except Thrown TableEntry :=
  if index = 0 then .error (.runtimeError "HPACK: header table index 0 is invalid")
  else if index < staticTable.length then .ok (staticTable.getD index (entry "" ""))
  else
    match codec.dynamicTable[index - staticTable.length]? with
    | none => .error (.runtimeError "HPACK: header table index is out of bounds")
    | some e => .ok e

/-- The `while` of `EvictDynamicTable`: `pop_back` until the counter fits. -/
def evictLoop (limit : Nat) : Nat → List TableEntry → Nat → List TableEntry × Nat
  | 0, table, size => (table, size)
  | rounds + 1, table, size =>
    if size > limit then
      match table.getLast? with
      | some e => evictLoop limit rounds table.dropLast (size - entrySize e)
      | none => (table, size)
    else (table, size)

def evictDynamicTable (codec : HpackCodec) : HpackCodec :=
  let (table, size) := evictLoop codec.currentDynamicTableLimit codec.dynamicTable.length
    codec.dynamicTable codec.dynamicTableSize
  { codec with dynamicTable := table, dynamicTableSize := size }

def addDynamicEntry (codec : HpackCodec) (name value : Octets) : HpackCodec :=
  let e : TableEntry := ⟨name, value⟩
  if entrySize e > codec.currentDynamicTableLimit then
    { codec with dynamicTable := [], dynamicTableSize := 0 }
  else
    evictDynamicTable { codec with
      dynamicTable := e :: codec.dynamicTable
      dynamicTableSize := codec.dynamicTableSize + entrySize e }

/-- `SetDynamicTableSize` behind its check. -/
def resized (codec : HpackCodec) (newSize : Nat) : HpackCodec :=
  evictDynamicTable { codec with
    currentDynamicTableLimit := newSize
    pendingTableSizeUpdate := some newSize }

def setDynamicTableSize (codec : HpackCodec) (newSize : Nat) : Except Thrown HpackCodec :=
  if newSize > codec.options.maximumDynamicTableSize then
    .error (.runtimeError "HPACK: dynamic table size exceeds configured limit")
  else .ok (codec.resized newSize)

end HpackCodec

/-- The loop of `ReadDecodedInteger` on the unread octets; five rounds reach the overflow test. -/
def readContinuation : Nat → Octets → Nat → Nat → Except Thrown (Nat × Octets)
  | 0, _, _, _ => .error (.runtimeError "HPACK decode: integer overflow")
  | _ + 1, [], _, _ =>
    .error (.runtimeError "HPACK decode: unexpected end of integer continuation")
  | rounds + 1, byte :: data, value, m =>
    let value := (value + ((byte &&& 0x7f).toNat <<< m)) % 2 ^ 32
    let m := m + 7
    if byte &&& 0x80 = 0 then .ok (value, data)
    else if m > 28 then .error (.runtimeError "HPACK decode: integer overflow")
    else readContinuation rounds data value m

def readDecodedInteger (data : Octets) (prefixBits : Nat) : Except Thrown (Nat × Octets) :=
  match data with
  | [] => .error (.runtimeError "HPACK decode: unexpected end of data")
  | byte :: data =>
    let mask := (1 <<< prefixBits) - 1
    let value := byte.toNat &&& mask
    if value < mask then .ok (value, data) else readContinuation 5 data value 0

def decodeString (data : Octets) : Except Thrown (Octets × Octets) :=
  match data with
  | [] => .error (.runtimeError "HPACK decode: expected string")
  | byte :: _ => do
    let huffman := byte &&& 0x80 != 0
    let (length, data) ← readDecodedInteger data 7
    if length > data.length then
      throw (.runtimeError "HPACK decode: string length exceeds data")
    let text := data.take length
    let result ←
      if huffman then
        match huffmanDecode text with
        | some result => pure result
        | none => throw (.runtimeError "HPACK decode: invalid Huffman string")
      else pure text
    return (result, data.drop length)

/-- A decode loop state: the codec, the headers so far and their list size. -/
structure HpackCodec.Decoding where
  codec : HpackCodec
  headers : List HttpHeader := []
  headerListSize : Nat := 0
  data : Octets

namespace HpackCodec

/-- Name of a literal: an indexed entry's, or a string. -/
def decodeName (codec : HpackCodec) (nameIndex : Nat) (data : Octets) :
    Except Thrown (Octets × Octets) :=
  if nameIndex > 0 then do
    let e ← codec.lookup nameIndex
    return (e.name, data)
  else decodeString data

def emit (s : Decoding) (header : HttpHeader) (data : Octets) : Decoding :=
  { s with
    headers := s.headers ++ [header]
    headerListSize := s.headerListSize + entrySize header
    data := data }

/-- One representation at the front of a block whose first octet is `firstByte`. -/
def decodeRepresentation (s : Decoding) (firstByte : UInt8) : Except Thrown Decoding :=
  if firstByte &&& 0x80 ≠ 0 then do
    let (index, data) ← readDecodedInteger s.data 7
    if index = 0 then throw (.runtimeError "HPACK: invalid indexed header index 0")
    let e ← s.codec.lookup index
    return emit s e data
  else if firstByte &&& 0xc0 = 0x40 then do
    let (nameIndex, data) ← readDecodedInteger s.data 6
    let (name, data) ← s.codec.decodeName nameIndex data
    let (value, data) ← decodeString data
    return { emit s ⟨name, value⟩ data with codec := s.codec.addDynamicEntry name value }
  else if firstByte &&& 0xf0 = 0x00 then do
    let (nameIndex, data) ← readDecodedInteger s.data 4
    let (name, data) ← s.codec.decodeName nameIndex data
    let (value, data) ← decodeString data
    return emit s ⟨name, value⟩ data
  else if firstByte &&& 0xe0 = 0x20 then do
    let (newSize, data) ← readDecodedInteger s.data 5
    let codec ← s.codec.setDynamicTableSize newSize
    return { s with codec := codec, data := data }
  else throw (.runtimeError "HPACK: unknown header representation")

/-- `Decode` runs on a shared codec: a throw leaves the table as far as it got,
so the outcome carries the codec in both cases. -/
def decodeLoop : Nat → Decoding → HpackCodec × Except Thrown (List HttpHeader)
  | 0, s => (s.codec, .ok s.headers)
  | rounds + 1, s =>
    match s.data with
    | [] => (s.codec, .ok s.headers)
    | firstByte :: _ =>
      match decodeRepresentation s firstByte with
      | .error e => (s.codec, .error e)
      | .ok s =>
        if s.headerListSize > s.codec.options.maximumHeaderListSize then
          (s.codec, .error (.runtimeError "HPACK: header list size exceeds limit"))
        else decodeLoop rounds s

/-- `HpackCodec::Decode`. Every representation takes at least one octet. -/
def decode (codec : HpackCodec) (data : Octets) : HpackCodec × Except Thrown (List HttpHeader) :=
  decodeLoop data.length { codec := codec, data := data }

end HpackCodec

/-- The octets after the prefix; a 32-bit remainder has at most five groups of seven bits. -/
def encodeContinuation : Nat → Nat → Octets
  | 0, remaining => [UInt8.ofNat (remaining &&& 0x7f)]
  | rounds + 1, remaining =>
    if remaining ≥ 128 then
      UInt8.ofNat ((remaining &&& 0x7f) ||| 0x80) :: encodeContinuation rounds (remaining >>> 7)
    else [UInt8.ofNat (remaining &&& 0x7f)]

/-- `EncodeInteger`: the value goes into the prefix bits of `output.back()`
and spills into further octets. -/
def encodeInteger (output : Octets) (value prefixBits : Nat) : Octets :=
  let mask := (1 <<< prefixBits) - 1
  let back := (output.getLastD 0).toNat
  if value < mask then output.dropLast ++ [UInt8.ofNat (back ||| value)]
  else
    output.dropLast ++ [UInt8.ofNat (back ||| mask)] ++ encodeContinuation 5 (value - mask)

def encodeString (output value : Octets) (useHuffman : Bool := true) : Octets :=
  if useHuffman then
    let encoded := huffmanEncode value
    encodeInteger (output ++ [0x80]) (encoded.length % 2 ^ 32) 7 ++ encoded
  else
    encodeInteger (output ++ [0x00]) (value.length % 2 ^ 32) 7 ++ value

namespace HpackCodec

/-- Index of the first static entry at or after 1 that passes the test. -/
def findStatic (p : TableEntry → Bool) : Option Nat :=
  (staticTable.tail.findIdx? p).map (· + 1)

/-- Table index of the first dynamic entry that passes the test, as a 32-bit word. -/
def findDynamic (codec : HpackCodec) (p : TableEntry → Bool) : Option Nat :=
  (codec.dynamicTable.findIdx? p).map (fun index => (staticTable.length + index) % 2 ^ 32)

/-- The search order of `Encode`: static entries, then dynamic ones; 0 is "none". -/
def findIndex (codec : HpackCodec) (p : TableEntry → Bool) : Nat :=
  match findStatic p with
  | some index => index
  | none => (codec.findDynamic p).getD 0

def encodeHeader (codec : HpackCodec) (result : Octets) (header : HttpHeader) :
    HpackCodec × Octets :=
  let index := codec.findIndex (· == header)
  if index ≠ 0 then (codec, encodeInteger (result ++ [0x80]) index 7)
  else
    let nameIndex := codec.findIndex (fun e => e.name == header.name)
    let result :=
      if nameIndex ≠ 0 then encodeInteger (result ++ [0x40]) nameIndex 6
      else encodeString (encodeInteger (result ++ [0x40]) 0 6) header.name
    (codec.addDynamicEntry header.name header.value, encodeString result header.value)

def encodeHeaders : HpackCodec → Octets → List HttpHeader → HpackCodec × Octets
  | codec, result, [] => (codec, result)
  | codec, result, header :: headers =>
    let (codec, result) := codec.encodeHeader result header
    encodeHeaders codec result headers

def encode (codec : HpackCodec) (headers : List HttpHeader) : HpackCodec × Octets :=
  match codec.pendingTableSizeUpdate with
  | some size =>
    encodeHeaders { codec with pendingTableSizeUpdate := none }
      (encodeInteger [0x20] (size % 2 ^ 32) 5) headers
  | none => encodeHeaders codec [] headers

@[simp] theorem resized_options (codec : HpackCodec) (newSize : Nat) :
    (codec.resized newSize).options = codec.options := rfl

@[simp] theorem addDynamicEntry_options (codec : HpackCodec) (name value : Octets) :
    (codec.addDynamicEntry name value).options = codec.options := by
  unfold addDynamicEntry
  dsimp only
  split <;> rfl

theorem encodeHeaders_options (headers : List HttpHeader) (codec : HpackCodec) (result : Octets) :
    (codec.encodeHeaders result headers).1.options = codec.options := by
  induction headers generalizing codec result with
  | nil => rfl
  | cons header headers ih =>
    rw [encodeHeaders]
    dsimp only
    rw [ih]
    unfold encodeHeader
    dsimp only
    split
    · rfl
    · exact addDynamicEntry_options _ _ _

@[simp] theorem encode_options (codec : HpackCodec) (headers : List HttpHeader) :
    (codec.encode headers).1.options = codec.options := by
  unfold encode
  split <;> exact encodeHeaders_options _ _ _

end HpackCodec

end IocpRuntime.Http2
