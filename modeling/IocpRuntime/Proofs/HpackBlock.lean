import IocpRuntime.Proofs.HpackInteger
import IocpRuntime.Proofs.HpackTable

namespace IocpRuntime.Proofs.HpackBlock
open Lib Lib.BoundedTable Http Http2 Http2.Rfc7541 HpackInteger HpackTable

variable {ctx peer own : Context}

def context (codec : HpackCodec) : Context := ⟨codec.dynamicTable, codec.currentDynamicTableLimit⟩

theorem lookup_some (h : (context codec).entryAt index = some e) : codec.lookup index = .ok e := by
  unfold Context.entryAt at h
  unfold HpackCodec.lookup
  split at h
  · cases h
  · rename_i hz
    rw [if_neg hz]
    split at h
    · rename_i hs
      rw [if_pos hs, List.getD_eq_getElem?_getD, h]
      rfl
    · rename_i hs
      rw [if_neg hs]
      change codec.dynamicTable[_]? = some e at h
      rw [h]

theorem lookup_none
    (h : (context codec).entryAt index = none) : ∃ err, codec.lookup index = .error err := by
  unfold Context.entryAt at h
  unfold HpackCodec.lookup
  split at h
  · rename_i hz
    exact ⟨_, by rw [if_pos hz]⟩
  · rename_i hz
    rw [if_neg hz]
    split at h
    · rename_i hs
      rw [List.getElem?_eq_getElem hs] at h
      cases h
    · rename_i hs
      rw [if_neg hs]
      change codec.dynamicTable[_]? = none at h
      exact ⟨_, by rw [h]⟩

/-- The five ranges of a first octet, as the mask tests of `Decode` see them. -/
theorem octet_ranges (b : UInt8) :
    (128 ≤ b.toNat → b &&& 0x80 ≠ 0) ∧ (b.toNat < 128 → b &&& 0x80 = 0) ∧
    (64 ≤ b.toNat → b.toNat < 128 → b &&& 0xc0 = 0x40) ∧ (b.toNat < 64 → b &&& 0xc0 ≠ 0x40) ∧
    (b.toNat < 16 → b &&& 0xf0 = 0) ∧ (16 ≤ b.toNat → b &&& 0xf0 ≠ 0) ∧
    (32 ≤ b.toNat → b.toNat < 64 → b &&& 0xe0 = 0x20) ∧
    (b.toNat < 32 → b &&& 0xe0 ≠ 0x20) := by
  have key : ∀ n < 256, let b := UInt8.ofNat n
      (128 ≤ n → b &&& 0x80 ≠ 0) ∧ (n < 128 → b &&& 0x80 = 0) ∧
      (64 ≤ n → n < 128 → b &&& 0xc0 = 0x40) ∧ (n < 64 → b &&& 0xc0 ≠ 0x40) ∧
      (n < 16 → b &&& 0xf0 = 0) ∧ (16 ≤ n → b &&& 0xf0 ≠ 0) ∧
      (32 ≤ n → n < 64 → b &&& 0xe0 = 0x20) ∧ (n < 32 → b &&& 0xe0 ≠ 0x20) := by
    decide +kernel
  have h := key b.toNat b.toNat_lt
  simpa only [UInt8.ofNat_toNat] using h

section Strings
variable (coder : Octets → Octets)

/-- Its coded length is a 32-bit word and the Huffman decoder returns the text. -/
def Readable (s : Literal) : Prop :=
  (s.coded coder).length < 2 ^ 32 ∧
    (s.huffman = true → huffmanDecode (coder s.text) = some s.text)

variable {coder}

theorem decode_string (hs : Readable coder s) :
    decodeString (s.wire coder ++ rest) = .ok (s.text, rest) := by
  obtain ⟨hlen, hh⟩ := hs
  obtain ⟨text, huffman⟩ := s
  cases huffman with
  | false =>
    simp only [Literal.coded, Bool.false_eq_true, if_false] at hlen
    simp only [Literal.wire, Literal.coded, Bool.false_eq_true, if_false]
    rw [List.append_assoc]
    obtain ⟨b, tail, hb, -, hlt⟩ := integer_head 0x00 text.length 7 (by decide) rfl
    have hr := read_integer 0x00 text.length 7 (text ++ rest) (by decide) rfl hlen
    have hf : b &&& 0x80 = 0 := (octet_ranges b).2.1 hlt
    rw [hb, List.cons_append] at hr ⊢
    simp only [decodeString, hr, hf, bind, Except.bind]
    simp [pure, Except.pure]
  | true =>
    simp only [Literal.coded, if_true] at hlen
    simp only [Literal.wire, Literal.coded, if_true]
    rw [List.append_assoc]
    obtain ⟨b, tail, hb, hge, -⟩ := integer_head 0x80 (coder text).length 7 (by decide) rfl
    have hr := read_integer 0x80 (coder text).length 7 (coder text ++ rest) (by decide) rfl hlen
    have hf : b &&& 0x80 ≠ 0 := (octet_ranges b).1 hge
    rw [hb, List.cons_append] at hr ⊢
    simp only [decodeString, hr, bind, Except.bind]
    simp [hf, hh rfl, pure, Except.pure]

def ReadableName (coder : Octets → Octets) : NameRef → Prop
  | .indexed index => index < 2 ^ 32
  | .literal name => Readable coder name

/-- The integers fit 32 bits and the strings can be read back. -/
def Codable (coder : Octets → Octets) : Representation → Prop
  | .indexed index => index < 2 ^ 32
  | .literalIndexing name value | .literalWithout name value | .literalNever name value =>
    ReadableName coder name ∧ Readable coder value
  | .sizeUpdate size => size < 2 ^ 32

/-- `Decode` has no branch for never-indexed literals; size updates respect the maximum. -/
def Understood (options : HpackOptions) : Representation → Prop
  | .literalNever _ _ => False
  | .sizeUpdate size => size ≤ options.maximumDynamicTableSize
  | _ => True

def Neutral : Representation → Prop
  | .literalIndexing _ _ => False
  | .sizeUpdate _ => False
  | _ => True

section

variable (flags : UInt8) (prefixBits : Nat) (hp : 0 < prefixBits ∧ prefixBits ≤ 8) (hz :
  flags.toNat % 2 ^ prefixBits = 0) (hr : ReadableName coder name)
include flags prefixBits hp hz hr

theorem read_name (hn : (context codec).nameOf name = some n) (rest : Octets) :
    ∃ index mid, readDecodedInteger (name.wire coder flags prefixBits ++ rest) prefixBits =
      .ok (index, mid) ∧ codec.decodeName index mid = .ok (n, rest) := by
  cases name with
  | indexed index =>
    obtain ⟨e, he, rfl⟩ := Option.map_eq_some_iff.mp hn
    have hpos : index > 0 := by
      rcases Nat.eq_zero_or_pos index with rfl | h
      · simp [Context.entryAt] at he
      · exact h
    refine ⟨index, rest, ?_, ?_⟩
    · rw [NameRef.wire, read_integer flags index prefixBits rest hp hz hr]
    · rw [HpackCodec.decodeName, if_pos hpos, lookup_some he]
      rfl
  | literal s =>
    have ht : s.text = n := Option.some.inj hn
    subst n
    refine ⟨0, s.wire coder ++ rest, ?_, ?_⟩
    · rw [NameRef.wire, List.append_assoc,
        read_integer flags 0 prefixBits _ hp hz (by decide)]
    · rw [HpackCodec.decodeName, if_neg (by decide), decode_string hr]

/-- A name index the decoder's table does not hold makes the lookup throw. -/
theorem read_name_none (hn : (context codec).nameOf name = none)
    (hctx : ctx.nameOf name = some n) (rest : Octets) :
    ∃ index mid err, readDecodedInteger (name.wire coder flags prefixBits ++ rest) prefixBits =
      .ok (index, mid) ∧ codec.decodeName index mid = .error err := by
  cases name with
  | indexed index =>
    have he : (context codec).entryAt index = none := Option.map_eq_none_iff.mp hn
    obtain ⟨err, herr⟩ := lookup_none he
    have hpos : index > 0 := by
      rcases Nat.eq_zero_or_pos index with rfl | h
      · simp [Context.nameOf, Context.entryAt] at hctx
      · exact h
    refine ⟨index, rest, err, ?_, ?_⟩
    · rw [NameRef.wire, read_integer flags index prefixBits rest hp hz hr]
    · rw [HpackCodec.decodeName, if_pos hpos, herr]
      rfl
  | literal s => cases hn

end

theorem name_head (coder : Octets → Octets) (name : NameRef) (flags : UInt8) (prefixBits : Nat)
    (hp : prefixBits ≤ 8)
    (hz : flags.toNat % 2 ^ prefixBits = 0) :
    ∃ b tail, name.wire coder flags prefixBits = b :: tail ∧
      flags.toNat ≤ b.toNat ∧ b.toNat < flags.toNat + 2 ^ prefixBits := by
  cases name with
  | indexed index =>
    rw [NameRef.wire]
    exact integer_head flags index prefixBits hp hz
  | literal s =>
    obtain ⟨b, tail, hb, hr⟩ := integer_head flags 0 prefixBits hp hz
    exact ⟨b, tail ++ s.wire coder, by rw [NameRef.wire, hb]; rfl, hr⟩

structure Decoded (s : HpackCodec.Decoding) (rep : Representation) (fields : List HttpHeader)
    (rest : Octets) (s' : HpackCodec.Decoding) : Prop where
  headers : s'.headers = s.headers ++ fields
  size : s'.headerListSize = s.headerListSize + total entrySize fields
  data : s'.data = rest
  sized : Sized s'.codec
  options : s'.codec.options = s.codec.options
  table : context s'.codec = (context s.codec).after rep

theorem decode_indexed (hd : s.data = (Representation.indexed index).wire coder ++ rest)
    (hs : Sized s.codec) (hc : index < 2 ^ 32)
    (hf : (context s.codec).field (.indexed index) = some fields) :
    ∃ b tail s', s.data = b :: tail ∧ HpackCodec.decodeRepresentation s b = .ok s' ∧
      Decoded s (.indexed index) fields rest s' := by
  obtain ⟨e, he, rfl⟩ := Option.map_eq_some_iff.mp hf
  rw [Representation.wire] at hd
  obtain ⟨b, tail, hb, hge, -⟩ := integer_head 0x80 index 7 (by decide) rfl
  have hr := read_integer 0x80 index 7 rest (by decide) rfl hc
  rw [← hd] at hr
  have hz : index ≠ 0 := by
    rintro rfl
    simp [Context.entryAt] at he
  refine ⟨b, tail ++ rest, HpackCodec.emit s e rest, by rw [hd, hb]; rfl, ?_, ?_⟩
  · unfold HpackCodec.decodeRepresentation
    rw [if_pos ((octet_ranges b).1 hge)]
    simp [hr, hz, lookup_some he, bind, Except.bind, pure, Except.pure]
  · exact ⟨rfl, by simp [HpackCodec.emit], rfl, hs, rfl, rfl⟩

theorem decode_indexing
    (hd : s.data = (Representation.literalIndexing name value).wire coder ++ rest)
    (hs : Sized s.codec) (hc : ReadableName coder name ∧ Readable coder value)
    (hf : (context s.codec).field (.literalIndexing name value) = some fields) :
    ∃ b tail s', s.data = b :: tail ∧ HpackCodec.decodeRepresentation s b = .ok s' ∧
      Decoded s (.literalIndexing name value) fields rest s' := by
  obtain ⟨n, hn, rfl⟩ := Option.map_eq_some_iff.mp hf
  rw [Representation.wire, List.append_assoc] at hd
  obtain ⟨b, tail, hb, hge, hlt⟩ := name_head coder name 0x40 6 (by decide) rfl
  obtain ⟨i, mid, hr, hna⟩ := read_name 0x40 6 (by decide) rfl hc.1 hn (value.wire coder ++ rest)
  rw [← hd] at hr
  have h80 : b &&& 0x80 = 0 := (octet_ranges b).2.1 hlt
  have hc0 : b &&& 0xc0 = 0x40 := (octet_ranges b).2.2.1 hge hlt
  refine ⟨b, tail ++ (value.wire coder ++ rest),
    { HpackCodec.emit s ⟨n, value.text⟩ rest with
      codec := s.codec.addDynamicEntry n value.text }, by rw [hd, hb]; rfl, ?_, ?_⟩
  · unfold HpackCodec.decodeRepresentation
    simp [h80, hc0, hr, hna, decode_string hc.2, bind, Except.bind, pure, Except.pure]
  · refine ⟨rfl, by simp [HpackCodec.emit], rfl, add_sized hs, ?_, ?_⟩
    · change (s.codec.addDynamicEntry n value.text).options = _
      rw [add_eq hs]
    · change context (s.codec.addDynamicEntry n value.text) = _
      rw [add_eq hs, Context.after, hn]
      rfl

theorem decode_without
    (hd : s.data = (Representation.literalWithout name value).wire coder ++ rest)
    (hs : Sized s.codec) (hc : ReadableName coder name ∧ Readable coder value)
    (hf : (context s.codec).field (.literalWithout name value) = some fields) :
    ∃ b tail s', s.data = b :: tail ∧ HpackCodec.decodeRepresentation s b = .ok s' ∧
      Decoded s (.literalWithout name value) fields rest s' := by
  obtain ⟨n, hn, rfl⟩ := Option.map_eq_some_iff.mp hf
  rw [Representation.wire, List.append_assoc] at hd
  obtain ⟨b, tail, hb, -, hlt⟩ := name_head coder name 0x00 4 (by decide) rfl
  obtain ⟨i, mid, hr, hna⟩ := read_name 0x00 4 (by decide) rfl hc.1 hn (value.wire coder ++ rest)
  rw [← hd] at hr
  have hlt : b.toNat < 16 := hlt
  obtain ⟨-, h80, -, hc0, hf0, -⟩ := octet_ranges b
  refine ⟨b, tail ++ (value.wire coder ++ rest), HpackCodec.emit s ⟨n, value.text⟩ rest,
    by rw [hd, hb]; rfl, ?_, ?_⟩
  · unfold HpackCodec.decodeRepresentation
    simp [h80 (by omega), hc0 (by omega), hf0 hlt, hr, hna, decode_string hc.2, bind,
      Except.bind, pure, Except.pure]
  · exact ⟨rfl, by simp [HpackCodec.emit], rfl, hs, rfl, rfl⟩

theorem decode_size_update (hd : s.data = (Representation.sizeUpdate size).wire coder ++ rest)
    (hs : Sized s.codec) (hc : size < 2 ^ 32)
    (hu : size ≤ s.codec.options.maximumDynamicTableSize) :
    ∃ b tail s', s.data = b :: tail ∧ HpackCodec.decodeRepresentation s b = .ok s' ∧
      Decoded s (.sizeUpdate size) [] rest s' := by
  rw [Representation.wire] at hd
  obtain ⟨b, tail, hb, hge, hlt⟩ := integer_head 0x20 size 5 (by decide) rfl
  have hr := read_integer 0x20 size 5 rest (by decide) rfl hc
  rw [← hd] at hr
  have hge : 32 ≤ b.toNat := hge
  have hlt : b.toNat < 64 := hlt
  obtain ⟨-, h80, -, hc0, -, hf0, he0, -⟩ := octet_ranges b
  have hset := set_size_eq hs hu
  obtain ⟨codec, hco⟩ : ∃ codec, s.codec.setDynamicTableSize size = .ok codec := ⟨_, hset⟩
  refine ⟨b, tail ++ rest, { s with codec := codec, data := rest }, by rw [hd, hb]; rfl, ?_, ?_⟩
  · unfold HpackCodec.decodeRepresentation
    simp [h80 (by omega), hc0 hlt, hf0 (by omega), he0 hge hlt, hr, hco, bind,
      Except.bind, pure, Except.pure]
  · rw [hset] at hco
    cases hco
    exact ⟨by simp, by simp, rfl, ⟨rfl, total_trim_le _ _ _, hu⟩, rfl, rfl⟩

/-- One legible representation: the field is emitted and the table follows. -/
theorem decode_legible (hd : s.data = rep.wire coder ++ rest) (hs : Sized s.codec)
    (hc : Codable coder rep) (hu : Understood s.codec.options rep)
    (hf : (context s.codec).field rep = some fields) :
    ∃ b tail s', s.data = b :: tail ∧ HpackCodec.decodeRepresentation s b = .ok s' ∧
      Decoded s rep fields rest s' := by
  cases rep with
  | indexed index => exact decode_indexed hd hs hc hf
  | literalIndexing name value => exact decode_indexing hd hs hc hf
  | literalWithout name value => exact decode_without hd hs hc hf
  | literalNever name value => exact hu.elim
  | sizeUpdate size =>
    cases hf
    exact decode_size_update hd hs hc hu

/-- A neutral representation this codec cannot take makes `Decode` throw. -/
theorem decode_refused
    (hd : s.data = rep.wire coder ++ rest) (hc : Codable coder rep) (hne : Neutral rep)
    (hp : peer.field rep = some fields)
    (href : ¬ Understood s.codec.options rep ∨ (context s.codec).field rep = none) :
    ∃ b tail err, s.data = b :: tail ∧ HpackCodec.decodeRepresentation s b = .error err := by
  cases rep with
  | indexed index =>
    have hno : (context s.codec).entryAt index = none := by
      rcases href with hu | hf
      · exact absurd trivial hu
      · exact Option.map_eq_none_iff.mp hf
    obtain ⟨err, herr⟩ := lookup_none hno
    have hz : index ≠ 0 := by
      rintro rfl
      simp [Context.field, Context.entryAt] at hp
    rw [Representation.wire] at hd
    obtain ⟨b, tail, hb, hge, -⟩ := integer_head 0x80 index 7 (by decide) rfl
    have hr := read_integer 0x80 index 7 rest (by decide) rfl hc
    rw [← hd] at hr
    refine ⟨b, tail ++ rest, err, by rw [hd, hb]; rfl, ?_⟩
    unfold HpackCodec.decodeRepresentation
    rw [if_pos ((octet_ranges b).1 hge)]
    simp [hr, hz, herr, bind, Except.bind]
  | literalIndexing name value => exact hne.elim
  | literalWithout name value =>
    have hno : (context s.codec).nameOf name = none := by
      rcases href with hu | hf
      · exact absurd trivial hu
      · exact Option.map_eq_none_iff.mp hf
    obtain ⟨n, hn, -⟩ := Option.map_eq_some_iff.mp hp
    rw [Representation.wire, List.append_assoc] at hd
    obtain ⟨b, tail, hb, -, hlt⟩ := name_head coder name 0x00 4 (by decide) rfl
    obtain ⟨i, mid, err, hr, hna⟩ := read_name_none 0x00 4 (by decide) rfl hc.1 hno hn
      (value.wire coder ++ rest)
    rw [← hd] at hr
    have hlt : b.toNat < 16 := hlt
    obtain ⟨-, h80, -, hc0, hf0, -⟩ := octet_ranges b
    refine ⟨b, tail ++ (value.wire coder ++ rest), err, by rw [hd, hb]; rfl, ?_⟩
    unfold HpackCodec.decodeRepresentation
    simp [h80 (by omega), hc0 (by omega), hf0 hlt, hr, hna, bind, Except.bind]
  | literalNever name value =>
    rw [Representation.wire, List.append_assoc] at hd
    obtain ⟨b, tail, hb, hge, hlt⟩ := name_head coder name 0x10 4 (by decide) rfl
    have hge : 16 ≤ b.toNat := hge
    have hlt : b.toNat < 32 := hlt
    obtain ⟨-, h80, -, hc0, -, hf0, -, he0⟩ := octet_ranges b
    refine ⟨b, tail ++ (value.wire coder ++ rest),
      .runtimeError "HPACK: unknown header representation", by rw [hd, hb]; rfl, ?_⟩
    unfold HpackCodec.decodeRepresentation
    rw [if_neg (by simp [h80 (by omega)]), if_neg (hc0 (by omega)), if_neg (hf0 hge),
      if_neg (he0 hlt)]
    rfl
  | sizeUpdate size => exact hne.elim

theorem wire_pos (coder : Octets → Octets) (rep : Representation) : 0 <
    (rep.wire coder).length := by
  have hn : ∀ (name : NameRef) flags prefixBits, prefixBits ≤ 8 →
      flags.toNat % 2 ^ prefixBits = 0 → ∀ tail : Octets,
      0 < (name.wire coder flags prefixBits ++ tail).length := fun name flags p hp hz tail => by
    obtain ⟨b, rest, hb, -⟩ := name_head coder name flags p hp hz
    rw [hb]
    exact Nat.succ_pos _
  cases rep with
  | indexed index => exact List.length_pos_of_ne_nil integer_ne_nil
  | literalIndexing name value => exact hn _ _ _ (by decide) rfl _
  | literalWithout name value => exact hn _ _ _ (by decide) rfl _
  | literalNever name value => exact hn _ _ _ (by decide) rfl _
  | sizeUpdate size => exact List.length_pos_of_ne_nil integer_ne_nil

end Strings

def Agree (peer own : Context) : Prop :=
  Aligned peer.limit peer.entries own.limit own.entries

theorem agree_entryAt (h : Agree peer own)
    (hx : peer.entryAt index = some x) (hy : own.entryAt index = some y) : x = y := by
  unfold Context.entryAt at hx hy
  split at hx
  · cases hx
  · rename_i hz
    rw [if_neg hz] at hy
    split at hx
    · rename_i hs
      rw [if_pos hs] at hy
      exact Option.some.inj (hx.symm.trans hy)
    · rename_i hs
      rw [if_neg hs] at hy
      exact Aligned.get h hx hy

theorem agree_nameOf (h : Agree peer own)
    (hx : peer.nameOf name = some x) (hy : own.nameOf name = some y) : x = y := by
  cases name with
  | indexed index =>
    obtain ⟨e, he, rfl⟩ := Option.map_eq_some_iff.mp hx
    obtain ⟨e', he', rfl⟩ := Option.map_eq_some_iff.mp hy
    rw [agree_entryAt h he he']
  | literal name => exact Option.some.inj (hx.symm.trans hy)

theorem agree_field (h : Agree peer own)
    (hx : peer.field rep = some x) (hy : own.field rep = some y) :
    x = y := by
  cases rep with
  | indexed index =>
    obtain ⟨e, he, rfl⟩ := Option.map_eq_some_iff.mp hx
    obtain ⟨e', he', rfl⟩ := Option.map_eq_some_iff.mp hy
    rw [agree_entryAt h he he']
  | literalIndexing name value | literalWithout name value | literalNever name value =>
    obtain ⟨n, hn, rfl⟩ := Option.map_eq_some_iff.mp hx
    obtain ⟨n', hn', rfl⟩ := Option.map_eq_some_iff.mp hy
    rw [agree_nameOf h hn hn']
  | sizeUpdate size => exact Option.some.inj (hx.symm.trans hy)

theorem agree_after (h : Agree peer own)
    (hx : peer.field rep = some x) (hy : own.field rep = some y) :
    Agree (peer.after rep) (own.after rep) := by
  cases rep with
  | literalIndexing name value =>
    obtain ⟨n, hn, rfl⟩ := Option.map_eq_some_iff.mp hx
    obtain ⟨n', hn', rfl⟩ := Option.map_eq_some_iff.mp hy
    obtain rfl := agree_nameOf h hn hn'
    simp only [Context.after, hn, hn']
    exact Aligned.push entrySize h
  | sizeUpdate size => exact Aligned.trim entrySize h
  | indexed index => exact h
  | literalWithout name value => exact h
  | literalNever name value => exact h

theorem neutral_after (h : Neutral rep) : ctx.after rep = ctx := by
  cases rep with
  | literalIndexing name value => exact h.elim
  | sizeUpdate size => exact h.elim
  | indexed index | literalWithout name value | literalNever name value => rfl

theorem block_cons (h : ctx.block (rep :: reps) = some (headers, ctx')) :
    ∃ fields rest, ctx.field rep = some fields ∧ (ctx.after rep).block reps = some (rest, ctx') ∧
      headers = fields ++ rest := by
  rw [Context.block] at h
  obtain ⟨fields, hf, h⟩ := Option.bind_eq_some_iff.mp h
  obtain ⟨⟨rest, c⟩, hb, h⟩ := Option.bind_eq_some_iff.mp h
  cases h
  exact ⟨fields, rest, hf, hb, rfl⟩

theorem neutral_block (hn : ∀ rep ∈ reps, Neutral rep)
    (h : ctx.block reps = some (headers, ctx')) : ctx' = ctx := by
  induction reps generalizing headers with
  | nil =>
    cases h
    rfl
  | cons rep reps ih =>
    obtain ⟨fields, rest, -, hb, -⟩ := block_cons h
    rw [neutral_after (hn rep List.mem_cons_self)] at hb
    exact ih (fun r hr => hn r (List.mem_cons_of_mem _ hr)) hb

section Blocks
/-- The codec can take the whole block: it resolves each representation in its
own table and stays within the header list limit. -/
inductive Reads (options : HpackOptions) : Context → Nat → List Representation → Prop
  | done (ctx : Context) (size : Nat) : Reads options ctx size []
  | read {ctx : Context} {size : Nat} {rep : Representation} {reps : List Representation}
      {fields : List HttpHeader} (understood : Understood options rep)
      (resolves : ctx.field rep = some fields)
      (fits : size + total entrySize fields ≤ options.maximumHeaderListSize)
      (rest : Reads options (ctx.after rep) (size + total entrySize fields) reps) :
      Reads options ctx size (rep :: reps)

/-- The codec takes the block, or stops at a point after which the block holds
nothing that changes a table. -/
inductive InStep (options : HpackOptions) : Context → Nat → List Representation → Prop
  | done (ctx : Context) (size : Nat) : InStep options ctx size []
  | read {ctx : Context} {size : Nat} {rep : Representation} {reps : List Representation}
      {fields : List HttpHeader} (understood : Understood options rep)
      (resolves : ctx.field rep = some fields)
      (fits : size + total entrySize fields ≤ options.maximumHeaderListSize)
      (rest : InStep options (ctx.after rep) (size + total entrySize fields) reps) :
      InStep options ctx size (rep :: reps)
  | tooLong {ctx : Context} {size : Nat} {rep : Representation} {reps : List Representation}
      {fields : List HttpHeader} (understood : Understood options rep)
      (resolves : ctx.field rep = some fields)
      (exceeds : options.maximumHeaderListSize < size + total entrySize fields)
      (rest : ∀ r ∈ reps, Neutral r) : InStep options ctx size (rep :: reps)
  | refused {ctx : Context} {size : Nat} {rep : Representation} {reps : List Representation}
      (refused : ¬ Understood options rep ∨ ctx.field rep = none)
      (rest : ∀ r ∈ rep :: reps, Neutral r) : InStep options ctx size (rep :: reps)

theorem decodeLoop_nil (hd : s.data = []) :
    HpackCodec.decodeLoop rounds s = (s.codec, .ok s.headers) := by
  cases rounds with
  | zero => rfl
  | succ rounds => rw [HpackCodec.decodeLoop, hd]

/-- It takes at least one octet, so the rounds left still cover the data left. -/
theorem loop_round (hd : s.data = blockWire coder (rep :: reps)) (hs : Sized s.codec)
    (hc : Codable coder rep) (hu : Understood s.codec.options rep)
    (hf : (context s.codec).field rep = some fields) (hlen : s.data.length ≤ rounds) :
    ∃ s' left, Decoded s rep fields (blockWire coder reps) s' ∧ s'.data.length ≤ left ∧
      HpackCodec.decodeLoop rounds s =
        if s'.headerListSize > s'.codec.options.maximumHeaderListSize then
          (s'.codec, .error (.runtimeError "HPACK: header list size exceeds limit"))
        else HpackCodec.decodeLoop left s' := by
  have hd' : s.data = rep.wire coder ++ blockWire coder reps := hd
  obtain ⟨b, tail, s', hb, hrep, hdec⟩ := decode_legible hd' hs hc hu hf
  have hpos := wire_pos coder rep
  rw [hd', List.length_append] at hlen
  obtain ⟨left, rfl⟩ : ∃ k, rounds = k + 1 := ⟨rounds - 1, by omega⟩
  refine ⟨s', left, hdec, by rw [hdec.data]; omega, ?_⟩
  rw [HpackCodec.decodeLoop, hb]
  dsimp only
  rw [hrep]

theorem loop_throws (hd : s.data = blockWire coder (rep :: reps)) (hc : Codable coder rep)
    (hn : Neutral rep)
    (hp : peer.field rep = some fields)
    (href : ¬ Understood s.codec.options rep ∨ (context s.codec).field rep = none)
    (hlen : s.data.length ≤ rounds) :
    ∃ err, HpackCodec.decodeLoop rounds s = (s.codec, .error err) := by
  obtain ⟨b, tail, err, hb, hrep⟩ := decode_refused
    (show s.data = rep.wire coder ++ blockWire coder reps from hd) hc hn hp href
  rw [hb] at hlen
  obtain ⟨left, rfl⟩ : ∃ k, rounds = k + 1 := ⟨rounds - 1, by simp at hlen; omega⟩
  refine ⟨err, ?_⟩
  rw [HpackCodec.decodeLoop, hb]
  dsimp only
  rw [hrep]

/-- The loop reads a block it can take to the end; the induction is on the block. -/
theorem loop_reads (hr : Reads options ctx size reps) :
    ∀ {s : HpackCodec.Decoding} {rounds : Nat}, s.codec.options = options →
      context s.codec = ctx → s.headerListSize = size → s.data = blockWire coder reps →
      Sized s.codec → (∀ rep ∈ reps, Codable coder rep) → s.data.length ≤ rounds →
      ∃ codec fields, HpackCodec.decodeLoop rounds s = (codec, .ok (s.headers ++ fields)) ∧
        ctx.block reps = some (fields, context codec) ∧ Sized codec ∧
        codec.options = options := by
  induction hr with
  | done ctx size =>
    intro s rounds ho hctx _ hd hs _ _
    refine ⟨s.codec, [], ?_, by rw [← hctx]; rfl, hs, ho⟩
    rw [decodeLoop_nil hd, List.append_nil]
  | @read ctx size rep reps fields understood resolves fits rest ih =>
    intro s rounds ho hctx hsz hd hs hc hlen
    subst hctx
    subst ho
    obtain ⟨s', left, hdec, hl, hro⟩ := loop_round hd hs (hc rep List.mem_cons_self)
      understood resolves hlen
    obtain ⟨codec, more, hlo, hb, hsi, hopt⟩ := ih hdec.options hdec.table
      (by rw [hdec.size, hsz]) hdec.data hdec.sized
      (fun r hr => hc r (List.mem_cons_of_mem _ hr)) hl
    refine ⟨codec, fields ++ more, ?_, ?_, hsi, hopt⟩
    · rw [hro, if_neg (by rw [hdec.size, hsz, hdec.options]; omega), hlo, hdec.headers,
        List.append_assoc]
    · simp [Context.block, resolves, hb]

/-- A block in step leaves the two tables aligned, and if `Decode` returns a
list it is the peer's. -/
theorem loop_in_step (hr : InStep options ctx size reps) :
    ∀ {s : HpackCodec.Decoding} {rounds : Nat} {peer peer' : Context}
      {headers : List HttpHeader}, s.codec.options = options → context s.codec = ctx →
      s.headerListSize = size → s.data = blockWire coder reps → Sized s.codec →
      (∀ rep ∈ reps, Codable coder rep) → s.data.length ≤ rounds → Agree peer ctx →
      peer.block reps = some (headers, peer') →
      ∃ codec result, HpackCodec.decodeLoop rounds s = (codec, result) ∧
        Agree peer' (context codec) ∧ Sized codec ∧ codec.options = options ∧
        ∀ list, result = .ok list → list = s.headers ++ headers := by
  induction hr with
  | done ctx size =>
    intro s rounds peer peer' headers ho hctx _ hd hs _ _ ha hb
    cases hb
    refine ⟨s.codec, .ok s.headers, decodeLoop_nil hd, by rw [hctx]; exact ha, hs, ho, ?_⟩
    intro list hl
    cases hl
    rw [List.append_nil]
  | @read ctx size rep reps fields understood resolves fits rest ih =>
    intro s rounds peer peer' headers ho hctx hsz hd hs hc hlen ha hb
    subst hctx
    subst ho
    obtain ⟨fields', more, hf, hm, rfl⟩ := block_cons hb
    obtain rfl := agree_field ha hf resolves
    obtain ⟨s', left, hdec, hle, hro⟩ := loop_round hd hs (hc rep List.mem_cons_self)
      understood resolves hlen
    obtain ⟨codec, result, hlo, ha', hsi, hopt, hl⟩ := ih hdec.options hdec.table
      (by rw [hdec.size, hsz]) hdec.data hdec.sized
      (fun r hr => hc r (List.mem_cons_of_mem _ hr)) hle (agree_after ha hf resolves)
      hm
    refine ⟨codec, result, ?_, ha', hsi, hopt, ?_⟩
    · rw [hro, if_neg (by rw [hdec.size, hsz, hdec.options]; omega), hlo]
    · intro list h
      rw [hl list h, hdec.headers, List.append_assoc]
  | @tooLong ctx size rep reps fields understood resolves exceeds rest =>
    intro s rounds peer peer' headers ho hctx hsz hd hs hc hlen ha hb
    subst hctx
    subst ho
    obtain ⟨fields', more, hf, hm, rfl⟩ := block_cons hb
    obtain ⟨s', left, hdec, -, hro⟩ := loop_round hd hs (hc rep List.mem_cons_self)
      understood resolves hlen
    rw [if_pos (by rw [hdec.size, hsz, hdec.options]; omega)] at hro
    refine ⟨_, _, hro, ?_, hdec.sized, hdec.options, fun list h => by cases h⟩
    rw [neutral_block rest hm, hdec.table]
    exact agree_after ha hf resolves
  | @refused ctx size rep reps refused rest =>
    intro s rounds peer peer' headers ho hctx hsz hd hs hc hlen ha hb
    subst hctx
    subst ho
    obtain ⟨fields', more, hf, -, -⟩ := block_cons hb
    obtain ⟨err, hlo⟩ := loop_throws hd (hc rep List.mem_cons_self)
      (rest rep List.mem_cons_self) hf refused hlen
    refine ⟨_, _, hlo, ?_, hs, rfl, fun list h => by cases h⟩
    rw [neutral_block rest hb]
    exact ha

end Blocks

section Decisions

instance (rep : Representation) : Decidable (Neutral rep) :=
  match rep with
  | .literalIndexing _ _ | .sizeUpdate _ => isFalse id
  | .indexed _ | .literalWithout _ _ | .literalNever _ _ => isTrue trivial

instance (options : HpackOptions) (rep : Representation) : Decidable (Understood options rep) :=
  match rep with
  | .literalNever _ _ => isFalse id
  | .sizeUpdate size => inferInstanceAs (Decidable (size ≤ options.maximumDynamicTableSize))
  | .indexed _ | .literalIndexing _ _ | .literalWithout _ _ => isTrue trivial

def inStep (options : HpackOptions) : Context → Nat → List Representation → Bool
  | _, _, [] => true
  | ctx, size, rep :: reps =>
    match ctx.field rep with
    | none => decide (∀ r ∈ rep :: reps, Neutral r)
    | some fields =>
      if ¬ Understood options rep then decide (∀ r ∈ rep :: reps, Neutral r)
      else if size + total entrySize fields ≤ options.maximumHeaderListSize then
        inStep options (ctx.after rep) (size + total entrySize fields) reps
      else decide (∀ r ∈ reps, Neutral r)

theorem in_step_of_inStep (h : inStep options ctx size reps = true) :
    InStep options ctx size reps := by
  induction reps generalizing ctx size with
  | nil => exact .done ctx size
  | cons rep reps ih =>
    unfold inStep at h
    cases hf : ctx.field rep with
    | none =>
      rw [hf] at h
      exact .refused (Or.inr hf) (of_decide_eq_true h)
    | some fields =>
      rw [hf] at h
      dsimp only at h
      split at h
      · rename_i hu
        exact .refused (Or.inl hu) (of_decide_eq_true h)
      rename_i hu
      split at h
      · rename_i hfi
        exact .read (not_not.mp hu) hf hfi (ih h)
      · rename_i hl
        exact .tooLong (not_not.mp hu) hf (not_le.mp hl) (of_decide_eq_true h)

theorem inStep_of_in_step (h : InStep options ctx size reps) :
    inStep options ctx size reps = true := by
  induction h with
  | done ctx size => rfl
  | read understood resolves fits rest ih =>
    rw [inStep, resolves]
    dsimp only
    rw [if_neg (not_not_intro understood), if_pos fits]
    exact ih
  | tooLong understood resolves exceeds rest =>
    rw [inStep, resolves]
    dsimp only
    rw [if_neg (not_not_intro understood), if_neg (not_le_of_gt exceeds)]
    exact decide_eq_true rest
  | @refused ctx size rep reps refused rest =>
    rw [inStep]
    cases hf : ctx.field rep with
    | none => exact decide_eq_true rest
    | some fields =>
      dsimp only
      rw [if_pos (refused.resolve_right (by rw [hf]; exact Option.some_ne_none _))]
      exact decide_eq_true rest

instance (options : HpackOptions) (ctx : Context) (size : Nat) (reps : List Representation) :
    Decidable (InStep options ctx size reps) :=
  decidable_of_iff (inStep options ctx size reps = true) ⟨in_step_of_inStep, inStep_of_in_step⟩

instance (coder : Octets → Octets) (s : Literal) : Decidable (Readable coder s) :=
  inferInstanceAs (Decidable (_ ∧ (_ → _)))

instance (coder : Octets → Octets) (name : NameRef) : Decidable (ReadableName coder name) :=
  match name with
  | .indexed index => inferInstanceAs (Decidable (index < 2 ^ 32))
  | .literal name => inferInstanceAs (Decidable (Readable coder name))

instance (coder : Octets → Octets) (rep : Representation) : Decidable (Codable coder rep) :=
  match rep with
  | .indexed index => inferInstanceAs (Decidable (index < 2 ^ 32))
  | .literalIndexing name value | .literalWithout name value | .literalNever name value =>
    inferInstanceAs (Decidable (ReadableName coder name ∧ Readable coder value))
  | .sizeUpdate size => inferInstanceAs (Decidable (size < 2 ^ 32))

end Decisions

section Denotation
theorem reads_of_block
    (hb : ctx.block reps = some (headers, ctx')) (hu : ∀ rep ∈ reps, Understood options rep)
    (hfi : size + total entrySize headers ≤ options.maximumHeaderListSize) :
    Reads options ctx size reps := by
  induction reps generalizing ctx size headers with
  | nil => exact .done ctx size
  | cons rep reps ih =>
    obtain ⟨fields, rest, hf, hre, rfl⟩ := block_cons hb
    rw [total_append] at hfi
    refine .read (hu rep List.mem_cons_self) hf (by omega) ?_
    exact ih hre (fun r hr => hu r (List.mem_cons_of_mem _ hr)) (by omega)

def Allowed (options : HpackOptions) (reps : List Representation) : Prop :=
  ∀ newSize, .sizeUpdate newSize ∈ reps → newSize ≤ options.maximumDynamicTableSize

theorem Allowed.tail (h : Allowed options (rep :: reps)) : Allowed options reps :=
  fun newSize hmem => h newSize (List.mem_cons_of_mem _ hmem)

theorem understood_or_never (ha : Allowed options reps) (hmem : rep ∈ reps) :
    Understood options rep ∨ ∃ name value, rep = .literalNever name value := by
  cases rep with
  | literalNever name value => exact .inr ⟨name, value, rfl⟩
  | sizeUpdate newSize => exact .inl (ha newSize hmem)
  | indexed _ | literalIndexing _ _ | literalWithout _ _ => exact .inl trivial

/-- A never-indexed literal anywhere in a block makes `Decode` throw. -/
theorem loop_never (hn : .literalNever name value ∈ reps) (ha : Allowed s.codec.options reps)
    (hb : (context s.codec).block reps = some (headers, ctx'))
    (hd : s.data = blockWire coder reps) (hs : Sized s.codec)
    (hc : ∀ rep ∈ reps, Codable coder rep) (hlen : s.data.length ≤ rounds) :
    ∃ err, (HpackCodec.decodeLoop rounds s).2 = .error err := by
  induction reps generalizing s rounds headers with
  | nil => cases hn
  | cons rep reps ih =>
    obtain ⟨fields, rest, hf, hre, -⟩ := block_cons hb
    have hco := hc rep List.mem_cons_self
    rcases understood_or_never ha List.mem_cons_self with hu | ⟨name', value', rfl⟩
    · obtain ⟨next, left, hdec, hl, hro⟩ := loop_round hd hs hco hu hf hlen
      rw [hro]
      split
      · exact ⟨_, rfl⟩
      · rw [← hdec.table] at hre
        refine ih ?_ ?_ hre hdec.data hdec.sized (fun r hr => hc r (List.mem_cons_of_mem _ hr)) hl
        · rcases List.mem_cons.mp hn with rfl | hmem
          · exact hu.elim
          · exact hmem
        · rw [hdec.options]
          exact ha.tail
    · obtain ⟨err, ht⟩ := loop_throws hd hco trivial hf (.inl id) hlen
      exact ⟨err, by rw [ht]⟩

/-- Within the limits a block decodes to the fields it denotes and leaves the table of the RFC,
unless it holds a never-indexed literal. -/
theorem decode_denotes {codec : HpackCodec} (hs : Sized codec) {reps : List Representation}
    {headers : List HttpHeader} {prescribed : Context}
    (hb : (context codec).block reps = some (headers, prescribed))
    (hc : ∀ rep ∈ reps, Codable coder rep) (ha : Allowed codec.options reps)
    (hlist : total entrySize headers ≤ codec.options.maximumHeaderListSize) :
    ((codec.decode (blockWire coder reps)).2 = .ok headers ∧
        context (codec.decode (blockWire coder reps)).1 = prescribed) ↔
      ∀ name value, .literalNever name value ∉ reps := by
  constructor
  · rintro ⟨hok, -⟩ name value hnever
    obtain ⟨err, hthrows⟩ := loop_never (s := { codec := codec, data := blockWire coder reps })
      hnever ha hb rfl hs hc (Nat.le_refl _)
    exact nomatch hthrows.symm.trans hok
  · intro hplain
    have hunderstood : ∀ rep ∈ reps, Understood codec.options rep := by
      intro rep hmem
      rcases understood_or_never ha hmem with hu | ⟨name, value, rfl⟩
      · exact hu
      · exact absurd hmem (hplain name value)
    obtain ⟨after, fields, hloop, hblock, -, -⟩ :=
      loop_reads (reads_of_block hb hunderstood (by simpa using hlist))
        (s := { codec := codec, data := blockWire coder reps }) rfl rfl rfl rfl hs hc (Nat.le_refl _)
    rw [hb] at hblock
    cases hblock
    unfold HpackCodec.decode
    rw [hloop]
    exact ⟨rfl, rfl⟩

/-- Indexed fields, literals of both kinds and a size update in one block. -/
theorem decode_denotes_mixed :
    let reps : List Representation := [.indexed 2,
      .literalIndexing (.literal ⟨octets "a", true⟩) ⟨octets "b", false⟩, .indexed 62,
      .literalWithout (.indexed 62) ⟨octets "c", true⟩, .sizeUpdate 0]
    let codec := HpackCodec.create {}
    (codec.decode (blockWire huffmanEncode reps)).2 =
        .ok [entry ":method" "GET", entry "a" "b", entry "a" "b", entry "a" "c"] ∧
      context (codec.decode (blockWire huffmanEncode reps)).1 = ⟨[], 0⟩ := by
  refine (decode_denotes create_sized ?_ ?_ ?_ ?_).mpr ?_
  · decide +kernel
  · decide +kernel
  · intro newSize hmem
    simp at hmem
    omega
  · decide +kernel
  · simp

/-- A path sent as a literal that is never to be indexed. -/
theorem never_indexed_throws :
    let reps : List Representation := [.literalNever (.indexed 4) ⟨octets "/x", false⟩]
    let codec := HpackCodec.create {}
    (context codec).block reps = some ([entry ":path" "/x"], context codec) ∧
      blockWire huffmanEncode reps = [0x14, 0x02, 0x2f, 0x78] ∧
      (codec.decode (blockWire huffmanEncode reps)).2 =
        .error (.runtimeError "HPACK: unknown header representation") := by
  decide +kernel

end Denotation

end IocpRuntime.Proofs.HpackBlock
