import IocpRuntime.Http2.Hpack
import IocpRuntime.Lib.Faults

/-! `HpackCodec::Decode` as it addresses memory: offsets into the block, spans of it and
subscripts of the two tables. A loop that ran on after its last round would fault too. -/

namespace IocpRuntime.Http2.HpackMemory
open Lib Lib.Faults Buffer Http

/-- The loop of `ReadDecodedInteger`: the value, and the offset behind it. -/
def readContinuation (data : Octets) : Nat → Nat → Nat → Nat → Checked Thrown (Nat × Nat)
  | 0, _, _, _ => fault
  | rounds + 1, offset, value, m =>
    if offset ≥ data.length then
      throw (.runtimeError "HPACK decode: unexpected end of integer continuation")
    else do
      let byte ← fetch data offset
      let value := (value + ((byte &&& 0x7f).toNat <<< m)) % 2 ^ 32
      let m := m + 7
      if byte &&& 0x80 = 0 then pure (value, offset + 1)
      else if m > 28 then throw (.runtimeError "HPACK decode: integer overflow")
      else readContinuation data rounds (offset + 1) value m

def readDecodedInteger (data : Octets) (offset prefixBits : Nat) : Checked Thrown (Nat × Nat) :=
  if offset ≥ data.length then throw (.runtimeError "HPACK decode: unexpected end of data")
  else do
    let byte ← fetch data offset
    let mask := (1 <<< prefixBits) - 1
    let value := byte.toNat &&& mask
    if value < mask then pure (value, offset + 1)
    else readContinuation data 5 (offset + 1) value 0

def decodeString (data : Octets) (offset : Nat) : Checked Thrown (Octets × Nat) :=
  if offset ≥ data.length then throw (.runtimeError "HPACK decode: expected string")
  else do
    let byte ← fetch data offset
    let huffman := byte &&& 0x80 != 0
    let (length, offset) ← readDecodedInteger data offset 7
    if offset + length > data.length then
      throw (.runtimeError "HPACK decode: string length exceeds data")
    else do
      let text ← span data offset length
      let result ←
        if huffman then
          match huffmanDecode text with
          | some result => pure result
          | none => throw (.runtimeError "HPACK decode: invalid Huffman string")
        else pure text
      pure (result, offset + length)

def lookup (codec : HpackCodec) (index : Nat) : Checked Thrown TableEntry :=
  if index = 0 then throw (.runtimeError "HPACK: header table index 0 is invalid")
  else if index < staticTable.length then fetch staticTable index
  else do
    let dynamicIndex ← minus index staticTable.length
    if dynamicIndex ≥ codec.dynamicTable.length then
      throw (.runtimeError "HPACK: header table index is out of bounds")
    else fetch codec.dynamicTable dynamicIndex

structure Decoding where
  codec : HpackCodec
  headers : List HttpHeader := []
  headerListSize : Nat := 0
  offset : Nat := 0

def emit (s : Decoding) (header : HttpHeader) (offset : Nat) : Decoding :=
  { s with
    headers := s.headers ++ [header]
    headerListSize := s.headerListSize + entrySize header
    offset := offset }

def decodeName (data : Octets) (codec : HpackCodec) (nameIndex offset : Nat) :
    Checked Thrown (Octets × Nat) :=
  if nameIndex > 0 then do
    let e ← lookup codec nameIndex
    pure (e.name, offset)
  else decodeString data offset

def decodeRepresentation (data : Octets) (s : Decoding) (firstByte : UInt8) :
    Checked Thrown Decoding :=
  if firstByte &&& 0x80 ≠ 0 then do
    let (index, offset) ← readDecodedInteger data s.offset 7
    if index = 0 then throw (.runtimeError "HPACK: invalid indexed header index 0")
    else do
      let e ← lookup s.codec index
      pure (emit s e offset)
  else if firstByte &&& 0xc0 = 0x40 then do
    let (nameIndex, offset) ← readDecodedInteger data s.offset 6
    let (name, offset) ← decodeName data s.codec nameIndex offset
    let (value, offset) ← decodeString data offset
    pure { emit s ⟨name, value⟩ offset with codec := s.codec.addDynamicEntry name value }
  else if firstByte &&& 0xf0 = 0x00 then do
    let (nameIndex, offset) ← readDecodedInteger data s.offset 4
    let (name, offset) ← decodeName data s.codec nameIndex offset
    let (value, offset) ← decodeString data offset
    pure (emit s ⟨name, value⟩ offset)
  else if firstByte &&& 0xe0 = 0x20 then do
    let (newSize, offset) ← readDecodedInteger data s.offset 5
    match s.codec.setDynamicTableSize newSize with
    | .ok codec => pure { s with codec := codec, offset := offset }
    | .error e => throw e
  else throw (.runtimeError "HPACK: unknown header representation")

/-- The loop of `Decode`; the codec is shared, so it is part of every outcome. -/
def decodeLoop (data : Octets) :
    Nat → Decoding → Option (HpackCodec × Except Thrown (List HttpHeader))
  | 0, s => if s.offset < data.length then none else some (s.codec, .ok s.headers)
  | rounds + 1, s =>
    if s.offset < data.length then
      match (fetch data s.offset >>= decodeRepresentation data s).run with
      | none => none
      | some (.error e) => some (s.codec, .error e)
      | some (.ok s) =>
        if s.headerListSize > s.codec.options.maximumHeaderListSize then
          some (s.codec, .error (.runtimeError "HPACK: header list size exceeds limit"))
        else decodeLoop data rounds s
    else some (s.codec, .ok s.headers)

def decode (codec : HpackCodec) (data : Octets) :
    Option (HpackCodec × Except Thrown (List HttpHeader)) :=
  decodeLoop data data.length { codec := codec }

end IocpRuntime.Http2.HpackMemory
