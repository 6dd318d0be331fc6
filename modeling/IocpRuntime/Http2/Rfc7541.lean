import IocpRuntime.Http2.Hpack
import IocpRuntime.Lib.BoundedTable

/-! The encoder at the other end of the connection, as RFC 7541 leaves it free:
a block is any list of representations that its own table can resolve. -/

namespace IocpRuntime.Http2.Rfc7541
open Lib Lib.BoundedTable Http

/-- A string as the peer means it, and whether it travels Huffman-coded. -/
structure Literal where
  text : Octets
  huffman : Bool
  deriving DecidableEq, Repr

inductive NameRef where
  | indexed (index : Nat)
  | literal (name : Literal)
  deriving DecidableEq, Repr

/-- The representations of section 6. -/
inductive Representation where
  | indexed (index : Nat)
  | literalIndexing (name : NameRef) (value : Literal)
  | literalWithout (name : NameRef) (value : Literal)
  | literalNever (name : NameRef) (value : Literal)
  | sizeUpdate (size : Nat)
  deriving DecidableEq, Repr

/-- A compression context: the dynamic table, newest entry first, and its limit. -/
structure Context where
  entries : List TableEntry
  limit : Nat
  deriving DecidableEq, Repr

namespace Context

def push (ctx : Context) (e : TableEntry) : Context :=
  { ctx with entries := BoundedTable.push entrySize ctx.limit e ctx.entries }

def resize (ctx : Context) (size : Nat) : Context := ⟨trim entrySize size ctx.entries, size⟩

/-- The entry an index names: static entries first, then the dynamic table. -/
def entryAt (ctx : Context) (index : Nat) : Option TableEntry :=
  if index = 0 then none
  else if index < staticTable.length then staticTable[index]?
  else ctx.entries[index - staticTable.length]?

def nameOf (ctx : Context) : NameRef → Option Octets
  | .indexed index => (ctx.entryAt index).map HttpHeader.name
  | .literal name => some name.text

/-- The field a representation stands for; a size update stands for none, and
a reference that does not resolve has no meaning. -/
def field (ctx : Context) : Representation → Option (List HttpHeader)
  | .indexed index => (ctx.entryAt index).map (fun e => [e])
  | .literalIndexing name value | .literalWithout name value | .literalNever name value =>
    (ctx.nameOf name).map (fun n => [⟨n, value.text⟩])
  | .sizeUpdate _ => some []

/-- The context after a representation. -/
def after (ctx : Context) (rep : Representation) : Context :=
  match rep with
  | .literalIndexing name value =>
    match ctx.nameOf name with
    | some n => ctx.push ⟨n, value.text⟩
    | none => ctx
  | .sizeUpdate size => ctx.resize size
  | _ => ctx

/-- What a block means in a context: its header list and the context it leaves. -/
def block (ctx : Context) : List Representation → Option (List HttpHeader × Context)
  | [] => some ([], ctx)
  | rep :: reps => do
    let headers ← ctx.field rep
    let (rest, ctx') ← block (ctx.after rep) reps
    return (headers ++ rest, ctx')

end Context

section Integers

/-- Groups of seven bits, lowest first, up to the first octet without the high bit. -/
def continued : Octets → Option (Nat × Octets)
  | [] => none
  | byte :: data =>
    let low := (byte &&& 0x7f).toNat
    if byte &&& 0x80 = 0 then some (low, data)
    else (continued data).map (fun p => (low + 128 * p.1, p.2))

/-- The integer of section 5.1 in front of some octets, and the octets behind it. -/
def integerAt (prefixBits : Nat) : Octets → Option (Nat × Octets)
  | [] => none
  | byte :: data =>
    let low := byte.toNat % 2 ^ prefixBits
    if low < 2 ^ prefixBits - 1 then some (low, data)
    else (continued data).map (fun p => (low + p.1, p.2))

end Integers

section Wire
-- the Huffman coder of the peer
variable (coder : Octets → Octets)

/-- A number in groups of seven bits, lowest first; the high bit says that more follow. -/
def groupsOf : Nat → Nat → Octets
  | 0, number => [UInt8.ofNat (number % 128)]
  | rounds + 1, number =>
    if number < 128 then [UInt8.ofNat number]
    else UInt8.ofNat (128 + number % 128) :: groupsOf rounds (number / 128)

/-- Integer coding of section 5.1 behind the given flag bits. The rounds suffice for 32 bits. -/
def integer (flags : UInt8) (value prefixBits : Nat) : Octets :=
  if value < 2 ^ prefixBits - 1 then [UInt8.ofNat (flags.toNat + value)]
  else
    UInt8.ofNat (flags.toNat + (2 ^ prefixBits - 1)) :: groupsOf 5 (value - (2 ^ prefixBits - 1))

def Literal.coded (s : Literal) : Octets := if s.huffman then coder s.text else s.text

def Literal.wire (s : Literal) : Octets :=
  integer (if s.huffman then 0x80 else 0x00) (s.coded coder).length 7 ++ s.coded coder

def NameRef.wire (flags : UInt8) (prefixBits : Nat) : NameRef → Octets
  | .indexed index => integer flags index prefixBits
  | .literal name => integer flags 0 prefixBits ++ name.wire coder

def Representation.wire : Representation → Octets
  | .indexed index => integer 0x80 index 7
  | .literalIndexing name value => name.wire coder 0x40 6 ++ value.wire coder
  | .literalWithout name value => name.wire coder 0x00 4 ++ value.wire coder
  | .literalNever name value => name.wire coder 0x10 4 ++ value.wire coder
  | .sizeUpdate size => integer 0x20 size 5

def blockWire (reps : List Representation) : Octets := reps.flatMap (Representation.wire coder)

end Wire

end IocpRuntime.Http2.Rfc7541
