import IocpRuntime.Proofs.HpackBlock

namespace IocpRuntime.Proofs.HpackAgreement
open Lib Lib.BoundedTable Buffer Http Http2 Http2.Rfc7541
open HpackInteger HpackTable HpackBlock

inductive Operation where
  | encode (headers : List HttpHeader)
  | setDynamicTableSize (newSize : Nat)
  deriving DecidableEq, Repr

/-- The blocks an encoder writes over a sequence of operations. -/
def encodeAll : HpackCodec → List Operation → Except Thrown (List Octets)
  | _, [] => .ok []
  | codec, .encode headers :: ops => do
    let (codec, block) := codec.encode headers
    let blocks ← encodeAll codec ops
    return block :: blocks
  | codec, .setDynamicTableSize newSize :: ops => do
    let codec ← codec.setDynamicTableSize newSize
    encodeAll codec ops

def decodeAll : HpackCodec → List Octets → List (Except Thrown (List HttpHeader))
  | _, [] => []
  | codec, block :: blocks =>
    let (codec, result) := codec.decode block
    result :: decodeAll codec blocks

def encodedLists : List Operation → List (List HttpHeader)
  | [] => []
  | .encode headers :: ops => headers :: encodedLists ops
  | .setDynamicTableSize _ :: ops => encodedLists ops

def Survives (text : Octets) : Prop := huffmanDecode (huffmanEncode text) = some text

/-- A size within the configured maximum; a list within the list limit whose
strings survive the Huffman coding. -/
def Allowed (options : HpackOptions) : Operation → Prop
  | .encode headers =>
    total entrySize headers ≤ options.maximumHeaderListSize ∧
      ∀ header ∈ headers, Survives header.name ∧ Survives header.value
  | .setDynamicTableSize newSize => newSize ≤ options.maximumDynamicTableSize

/-- Nothing `Encode` casts to 32 bits is cut: the announced table size, the
coded string lengths and the table indices. -/
def Uncut (codec : HpackCodec) : Operation → Prop
  | .encode headers =>
    codec.pendingTableSizeUpdate.getD 0 < 2 ^ 32 ∧
    (∀ header ∈ headers, (huffmanEncode header.name).length < 2 ^ 32 ∧
      (huffmanEncode header.value).length < 2 ^ 32) ∧
    staticTable.length + codec.dynamicTable.length + headers.length ≤ 2 ^ 32
  | .setDynamicTableSize _ => True

/-- Every step of the encoder's run is uncut in the state before it. -/
def UncutRun : HpackCodec → List Operation → Prop
  | _, [] => True
  | codec, op :: ops =>
    Uncut codec op ∧
      match op with
      | .encode headers => UncutRun (codec.encode headers).1 ops
      | .setDynamicTableSize newSize =>
        match codec.setDynamicTableSize newSize with
        | .ok codec => UncutRun codec ops
        | .error _ => True

instance (text : Octets) : Decidable (Survives text) := inferInstanceAs (Decidable (_ = _))

instance (options : HpackOptions) : (op : Operation) → Decidable (Allowed options op)
  | .encode _ => inferInstanceAs (Decidable (_ ∧ _))
  | .setDynamicTableSize _ => inferInstanceAs (Decidable (_ ≤ _))

instance (codec : HpackCodec) : (op : Operation) → Decidable (Uncut codec op)
  | .encode _ => inferInstanceAs (Decidable (_ ∧ _))
  | .setDynamicTableSize _ => isTrue trivial

instance decidableUncutRun : (codec : HpackCodec) → (ops : List Operation) →
    Decidable (UncutRun codec ops)
  | _, [] => isTrue trivial
  | codec, .encode headers :: ops =>
    have := decidableUncutRun (codec.encode headers).1 ops
    inferInstanceAs (Decidable (_ ∧ _))
  | codec, .setDynamicTableSize newSize :: ops =>
    match h : codec.setDynamicTableSize newSize with
    | .ok codec' =>
      have := decidableUncutRun codec' ops
      decidable_of_iff (UncutRun codec' ops) (by simp [UncutRun, Uncut, h])
    | .error _ => isTrue (by simp [UncutRun, Uncut, h])

theorem findStatic_some (h : HpackCodec.findStatic p = some i) (ctx : Context) :
    ∃ e, ctx.entryAt i = some e ∧ p e = true := by
  obtain ⟨j, hj, rfl⟩ := Option.map_eq_some_iff.mp h
  obtain ⟨hlt, hp, -⟩ := List.findIdx?_eq_some_iff_getElem.mp hj
  refine ⟨staticTable.tail[j], ?_, hp⟩
  rw [List.length_tail] at hlt
  rw [Context.entryAt, if_neg (by omega), if_pos (by omega),
    List.getElem?_eq_getElem (by omega), List.getElem_tail]

theorem findDynamic_some (hlen : staticTable.length + codec.dynamicTable.length ≤ 2 ^ 32)
    (h : codec.findDynamic p = some i) :
    i < 2 ^ 32 ∧ ∃ e, (context codec).entryAt i = some e ∧ p e = true := by
  obtain ⟨j, hj, rfl⟩ := Option.map_eq_some_iff.mp h
  obtain ⟨hlt, hp, -⟩ := List.findIdx?_eq_some_iff_getElem.mp hj
  have hpos : 0 < staticTable.length := by decide
  rw [Nat.mod_eq_of_lt (by omega)]
  refine ⟨by omega, codec.dynamicTable[j], ?_, hp⟩
  rw [Context.entryAt, if_neg (by omega), if_neg (by omega), Nat.add_sub_cancel_left]
  exact List.getElem?_eq_getElem hlt

/-- A non-zero search result is an index of the encoder's own table. -/
theorem findIndex_some (hlen : staticTable.length + codec.dynamicTable.length ≤ 2 ^ 32)
    (h : codec.findIndex p ≠ 0) :
    codec.findIndex p < 2 ^ 32 ∧
      ∃ e, (context codec).entryAt (codec.findIndex p) = some e ∧ p e = true := by
  unfold HpackCodec.findIndex at h ⊢
  cases hs : HpackCodec.findStatic p with
  | some i =>
    obtain ⟨j, hj, rfl⟩ := Option.map_eq_some_iff.mp hs
    obtain ⟨hlt, -, -⟩ := List.findIdx?_eq_some_iff_getElem.mp hj
    have hsm : staticTable.tail.length = 61 := rfl
    exact ⟨by simp only; omega, findStatic_some hs _⟩
  | none =>
    rw [hs] at h
    cases hd : codec.findDynamic p with
    | some i => exact findDynamic_some hlen hd
    | none => simp [hd] at h

def nameRef (codec : HpackCodec) (header : HttpHeader) : NameRef :=
  if codec.findIndex (fun e => e.name == header.name) ≠ 0 then
    .indexed (codec.findIndex (fun e => e.name == header.name))
  else .literal ⟨header.name, true⟩

def chosen (codec : HpackCodec) (header : HttpHeader) : Representation :=
  if codec.findIndex (· == header) ≠ 0 then .indexed (codec.findIndex (· == header))
  else .literalIndexing (nameRef codec header) ⟨header.value, true⟩

theorem encodeString_eq (h : (huffmanEncode text).length < 2 ^ 32) :
    encodeString output text = output ++ Literal.wire huffmanEncode ⟨text, true⟩ := by
  simp only [encodeString, if_true, Nat.mod_eq_of_lt h, Literal.wire, Literal.coded]
  rw [encodeInteger_eq _ _ _ _ rfl, List.append_assoc]

theorem nameRef_name (hlen : staticTable.length + codec.dynamicTable.length ≤ 2 ^ 32) :
    (context codec).nameOf (nameRef codec header) = some header.name := by
  unfold nameRef
  split
  · rename_i h
    obtain ⟨-, e, he, hp⟩ := findIndex_some hlen h
    rw [Context.nameOf, he, Option.map_some, eq_of_beq hp]
  · rfl

theorem chosen_field (hlen : staticTable.length + codec.dynamicTable.length ≤ 2 ^ 32) :
    (context codec).field (chosen codec header) = some [header] := by
  unfold chosen
  split
  · rename_i h
    obtain ⟨-, e, he, hp⟩ := findIndex_some hlen h
    rw [Context.field, he, Option.map_some, eq_of_beq hp]
  · rw [Context.field, nameRef_name hlen]
    rfl

def Carried (header : HttpHeader) : Prop :=
  (Survives header.name ∧ Survives header.value) ∧
    (huffmanEncode header.name).length < 2 ^ 32 ∧ (huffmanEncode header.value).length < 2 ^ 32

theorem chosen_codable (hc : Carried header)
    (hlen : staticTable.length + codec.dynamicTable.length ≤ 2 ^ 32) :
    Codable huffmanEncode (chosen codec header) := by
  obtain ⟨⟨hna, hva⟩, hn, hv⟩ := hc
  unfold chosen
  split
  · rename_i h
    exact (findIndex_some hlen h).1
  · refine ⟨?_, hv, fun _ => hva⟩
    unfold nameRef
    split
    · rename_i h
      exact (findIndex_some hlen h).1
    · exact ⟨hn, fun _ => hna⟩

theorem chosen_understood : Understood options (chosen codec header) := by
  unfold chosen
  split <;> trivial

/-- `Encode` of one field appends the chosen representation and moves the table
the way that representation moves it. -/
theorem encodeHeader_eq (hs : Sized codec) (hc : Carried header)
    (hlen : staticTable.length + codec.dynamicTable.length ≤ 2 ^ 32) :
    ∃ codec', codec.encodeHeader result header =
        (codec', result ++ (chosen codec header).wire huffmanEncode) ∧
      context codec' = (context codec).after (chosen codec header) ∧ Sized codec' ∧
      codec'.options = codec.options ∧
      codec'.pendingTableSizeUpdate = codec.pendingTableSizeUpdate := by
  unfold HpackCodec.encodeHeader chosen
  dsimp only
  split
  · rename_i h
    refine ⟨codec, ?_, rfl, hs, rfl, rfl⟩
    rw [encodeInteger_eq _ _ _ _ rfl, Representation.wire]
  · refine ⟨codec.addDynamicEntry header.name header.value, ?_, ?_, add_sized hs, ?_, ?_⟩
    · have hn : (if codec.findIndex (fun e => e.name == header.name) ≠ 0 then
            encodeInteger (result ++ [0x40]) (codec.findIndex (fun e => e.name == header.name)) 6
          else encodeString (encodeInteger (result ++ [0x40]) 0 6) header.name) =
          result ++ (nameRef codec header).wire huffmanEncode 0x40 6 := by
        unfold nameRef
        split
        · rw [encodeInteger_eq _ _ _ _ rfl, NameRef.wire]
        · rw [encodeString_eq hc.2.1, encodeInteger_eq _ _ _ _ rfl, NameRef.wire,
            List.append_assoc]
      rw [hn, encodeString_eq hc.2.2, Representation.wire, List.append_assoc]
    · rw [add_eq hs]
      simp only [Context.after, nameRef_name hlen]
      rfl
    · rw [add_eq hs]
    · rw [add_eq hs]

theorem after_length (ctx : Context) (rep : Representation) :
    (ctx.after rep).entries.length ≤ ctx.entries.length + 1 := by
  have hp : ∀ e, (ctx.push e).entries.length ≤ ctx.entries.length + 1 := by
    intro e
    simp only [Context.push, push]
    split
    · simp
    · exact (trim_prefix_self entrySize ctx.limit (e :: ctx.entries)).length_le
  cases rep with
  | literalIndexing name value =>
    simp only [Context.after]
    split
    · exact hp _
    · exact Nat.le_succ _
  | sizeUpdate size =>
    have := (trim_prefix_self entrySize size ctx.entries).length_le
    exact Nat.le_succ_of_le this
  | indexed index | literalWithout name value | literalNever name value => exact Nat.le_succ _

/-- The block means the list, in representations any codec of these options understands. -/
theorem encodeHeaders_eq (headers : List HttpHeader) (codec : HpackCodec) (result : Octets)
    (hs : Sized codec) (hc : ∀ header ∈ headers, Carried header)
    (hlen : staticTable.length + codec.dynamicTable.length + headers.length ≤ 2 ^ 32) :
    ∃ codec' reps, codec.encodeHeaders result headers =
        (codec', result ++ blockWire huffmanEncode reps) ∧
      (context codec).block reps = some (headers, context codec') ∧
      (∀ rep ∈ reps, Codable huffmanEncode rep ∧ Understood codec.options rep) ∧
      Sized codec' ∧ codec'.options = codec.options ∧
      codec'.pendingTableSizeUpdate = codec.pendingTableSizeUpdate := by
  induction headers generalizing codec result with
  | nil =>
    refine ⟨codec, [], ?_, rfl, by simp, hs, rfl, rfl⟩
    simp [HpackCodec.encodeHeaders, blockWire]
  | cons header headers ih =>
    rw [List.length_cons] at hlen
    have hsh : staticTable.length + codec.dynamicTable.length ≤ 2 ^ 32 := by omega
    have hhe := hc header List.mem_cons_self
    obtain ⟨mid, hmid, hctx, hsi, hopt, hp⟩ := encodeHeader_eq hs hhe hsh
    have hg := after_length (context codec) (chosen codec header)
    rw [← hctx] at hg
    have hr : staticTable.length + mid.dynamicTable.length + headers.length ≤ 2 ^ 32 := by
      change mid.dynamicTable.length ≤ codec.dynamicTable.length + 1 at hg
      omega
    obtain ⟨codec', reps, henc, hb, hre, hs', hopt', hp'⟩ :=
      ih mid (result ++ (chosen codec header).wire huffmanEncode) hsi
        (fun h hh => hc h (List.mem_cons_of_mem _ hh)) hr
    refine ⟨codec', chosen codec header :: reps, ?_, ?_, ?_, hs', hopt'.trans hopt, hp'.trans hp⟩
    · rw [HpackCodec.encodeHeaders, hmid]
      dsimp only
      rw [henc, List.append_assoc]
      rfl
    · simp [Context.block, chosen_field hsh, ← hctx, hb]
    · intro rep hrep
      rcases List.mem_cons.mp hrep with rfl | hrep
      · exact ⟨chosen_codable hhe hsh, chosen_understood⟩
      · rw [← hopt]
        exact hre rep hrep

/-- Equal limits, and every entry of the encoder's table at the same index in
the decoder's. -/
def Covers (encoder decoder : Context) : Prop :=
  encoder.limit = decoder.limit ∧ encoder.entries <+: decoder.entries

section

variable (h : Covers encoder decoder)
include h

theorem covers_entryAt (he : encoder.entryAt index = some e) : decoder.entryAt index = some e := by
  unfold Context.entryAt at he ⊢
  split at he
  · cases he
  · rename_i hz
    rw [if_neg hz]
    split at he
    · rename_i hs
      rw [if_pos hs]
      exact he
    · rename_i hs
      rw [if_neg hs]
      obtain ⟨tail, ht⟩ := h.2
      rw [← ht, List.getElem?_append_left (List.getElem?_eq_some_iff.mp he).1]
      exact he

theorem covers_nameOf (hn : encoder.nameOf name = some n) : decoder.nameOf name = some n := by
  cases name with
  | indexed index =>
    obtain ⟨e, he, rfl⟩ := Option.map_eq_some_iff.mp hn
    rw [Context.nameOf, covers_entryAt h he]
    rfl
  | literal name => exact hn

theorem covers_field (hf : encoder.field rep = some fields) : decoder.field rep = some fields := by
  cases rep with
  | indexed index =>
    obtain ⟨e, he, rfl⟩ := Option.map_eq_some_iff.mp hf
    rw [Context.field, covers_entryAt h he]
    rfl
  | literalIndexing name value | literalWithout name value | literalNever name value =>
    obtain ⟨n, hn, rfl⟩ := Option.map_eq_some_iff.mp hf
    rw [Context.field, covers_nameOf h hn]
    rfl
  | sizeUpdate size => exact hf

theorem covers_after (hf : encoder.field rep = some fields) :
    Covers (encoder.after rep) (decoder.after rep) := by
  obtain ⟨hl, hp⟩ := h
  cases rep with
  | literalIndexing name value =>
    obtain ⟨n, hn, rfl⟩ := Option.map_eq_some_iff.mp hf
    simp only [Context.after, hn, covers_nameOf ⟨hl, hp⟩ hn]
    exact ⟨hl, push_mono entrySize (Nat.le_of_eq hl) hp⟩
  | sizeUpdate size => exact ⟨rfl, trim_mono entrySize (Nat.le_refl size) hp⟩
  | indexed index | literalWithout name value | literalNever name value => exact ⟨hl, hp⟩

end

/-- A block has the same meaning for a decoder whose table covers the encoder's. -/
theorem covers_block (options : HpackOptions) (size : Nat)
    (h : Covers encoder decoder) (hu : ∀ rep ∈ reps, Understood options rep)
    (hb : encoder.block reps = some (headers, encoder'))
    (hs : size + total entrySize headers ≤ options.maximumHeaderListSize) :
    Reads options decoder size reps ∧
      ∃ decoder', decoder.block reps = some (headers, decoder') ∧ Covers encoder' decoder' := by
  induction reps generalizing encoder decoder headers size with
  | nil =>
    cases hb
    exact ⟨.done _ _, decoder, rfl, h⟩
  | cons rep reps ih =>
    obtain ⟨fields, rest, hf, hre, rfl⟩ := block_cons hb
    have hf' := covers_field h hf
    rw [total_append] at hs
    obtain ⟨hreads, decoder', hd, hcov⟩ := ih (size + total entrySize fields)
      (covers_after h hf) (fun r hr => hu r (List.mem_cons_of_mem _ hr)) hre (by omega)
    refine ⟨.read (hu rep List.mem_cons_self) hf' (by omega) hreads, decoder', ?_, hcov⟩
    simp [Context.block, hf', hd]

/-- The encoder's table is a prefix of the decoder's, and the limits differ only by an update. -/
structure Follows (encoder decoder : HpackCodec) : Prop where
  encoderSized : Sized encoder
  decoderSized : Sized decoder
  options : decoder.options = encoder.options
  held : encoder.dynamicTable <+: decoder.dynamicTable
  pending : match encoder.pendingTableSizeUpdate with
    | none => encoder.currentDynamicTableLimit = decoder.currentDynamicTableLimit
    | some size => encoder.currentDynamicTableLimit = size

theorem create_follows : Follows (HpackCodec.create options) (HpackCodec.create options) :=
  ⟨create_sized, create_sized, rfl, List.prefix_rfl, rfl⟩

/-- A size change evicts at the encoder only and waits to be announced. -/
theorem set_size_follows
    (h : Follows encoder decoder) (hset : encoder.setDynamicTableSize newSize = .ok encoder') :
    Follows encoder' decoder ∧ encoder'.options = encoder.options := by
  have hs := set_size_sized h.encoderSized hset
  by_cases hle : newSize ≤ encoder.options.maximumDynamicTableSize
  · rw [set_size_eq h.encoderSized hle] at hset
    cases hset
    refine ⟨⟨hs, h.decoderSized, h.options, ?_, rfl⟩, rfl⟩
    exact (trim_prefix_self entrySize newSize _).trans h.held
  · simp [HpackCodec.setDynamicTableSize, Nat.lt_of_not_le hle] at hset

theorem decode_reads (hs : Sized codec)
    (hr : Reads codec.options (context codec) 0 reps)
    (hb : (context codec).block reps = some (headers, ctx))
    (hc : ∀ rep ∈ reps, Codable coder rep) :
    ∃ codec', codec.decode (blockWire coder reps) = (codec', .ok headers) ∧
      context codec' = ctx ∧ Sized codec' ∧ codec'.options = codec.options := by
  obtain ⟨codec', fields, hdec, hf, hsi, hopt⟩ :=
    loop_reads (s := { codec := codec, data := blockWire coder reps }) hr rfl rfl rfl rfl hs hc
      (Nat.le_refl _)
  rw [hb] at hf
  cases hf
  exact ⟨codec', hdec, rfl, hsi, hopt⟩

/-- The decoder reads the next block of the encoder, and follows it still. -/
def Understood (encoder decoder : HpackCodec) (headers : List HttpHeader) : Prop :=
  ∃ decoder', decoder.decode (encoder.encode headers).2 = (decoder', .ok headers) ∧
    Follows (encoder.encode headers).1 decoder' ∧
    (encoder.encode headers).1.options = encoder.options

theorem encode_plain
    (h : Follows encoder decoder) (hp : encoder.pendingTableSizeUpdate = none)
    (hl : total entrySize headers ≤ encoder.options.maximumHeaderListSize)
    (hc : ∀ header ∈ headers, Carried header)
    (hlen : staticTable.length + encoder.dynamicTable.length + headers.length ≤ 2 ^ 32) :
    Understood encoder decoder headers := by
  obtain ⟨hes, hds, hopt, hh, hpe⟩ := h
  rw [hp] at hpe
  obtain ⟨encoder', reps, henc, hb, hr, hes', hopt', hpn'⟩ :=
    encodeHeaders_eq headers encoder [] hes hc hlen
  have hco : Covers (context encoder) (context decoder) := ⟨hpe, hh⟩
  obtain ⟨hreads, ctx, hd, hcov⟩ := covers_block encoder.options 0 hco
    (fun rep hrep => (hr rep hrep).2) hb (by omega)
  rw [← hopt] at hreads
  obtain ⟨decoder', hdec, rfl, hds', hdo⟩ :=
    decode_reads hds hreads hd (fun rep hrep => (hr rep hrep).1)
  have henc' : encoder.encode headers = (encoder', blockWire huffmanEncode reps) := by
    simp only [HpackCodec.encode, hp]
    exact henc
  rw [Understood, henc']
  refine ⟨decoder', hdec, ⟨hes', hds', by rw [hdo, hopt, hopt'], hcov.2, ?_⟩, hopt'⟩
  rw [hpn', hp]
  exact hcov.1

/-- The announcement brings the decoder's limit to the encoder's and trims its table. -/
theorem encode_announcing
    (h : Follows encoder decoder) (hp : encoder.pendingTableSizeUpdate = some size)
    (hcut : size < 2 ^ 32)
    (hl : total entrySize headers ≤ encoder.options.maximumHeaderListSize)
    (hc : ∀ header ∈ headers, Carried header)
    (hlen : staticTable.length + encoder.dynamicTable.length + headers.length ≤ 2 ^ 32) :
    Understood encoder decoder headers := by
  obtain ⟨hes, hds, hopt, hh, hpe⟩ := h
  rw [hp] at hpe
  let ready : HpackCodec := { encoder with pendingTableSizeUpdate := none }
  have hr : Sized ready := ⟨hes.counter, hes.within, hes.allowed⟩
  obtain ⟨encoder', reps, henc, hb, hre, hes', hopt', hpn'⟩ :=
    encodeHeaders_eq headers ready (encodeInteger [0x20] (size % 2 ^ 32) 5) hr hc hlen
  have hcv : Covers (context ready) ((context decoder).resize size) := by
    have hfit : total entrySize encoder.dynamicTable ≤ size := by
      rw [← hpe]
      exact hes.within
    have hm := trim_mono entrySize (Nat.le_refl size) hh
    rw [trim_of_le entrySize hfit] at hm
    exact ⟨hpe, hm⟩
  obtain ⟨hreads, ctx, hd, hcov⟩ := covers_block encoder.options 0 hcv
    (fun rep hrep => (hre rep hrep).2) hb (by omega)
  have hmax : size ≤ encoder.options.maximumDynamicTableSize := by
    rw [← hpe]
    exact hes.allowed
  have hall : Reads decoder.options (context decoder) 0 (.sizeUpdate size :: reps) := by
    rw [hopt]
    exact .read hmax (show _ = some [] from rfl) (Nat.zero_le _) hreads
  have hb' : (context decoder).block (.sizeUpdate size :: reps) = some (headers, ctx) := by
    simp [Context.block, Context.field, Context.after, hd]
  have hco : ∀ rep ∈ Representation.sizeUpdate size :: reps, Codable huffmanEncode rep := by
    intro rep hrep
    rcases List.mem_cons.mp hrep with rfl | hrep
    · exact hcut
    · exact (hre rep hrep).1
  obtain ⟨decoder', hdec, rfl, hds', hdo⟩ := decode_reads hds hall hb' hco
  have henc' : encoder.encode headers =
      (encoder', blockWire huffmanEncode (.sizeUpdate size :: reps)) := by
    simp only [HpackCodec.encode, hp]
    have hint : encodeInteger [0x20] size 5 = integer 0x20 size 5 :=
      encodeInteger_eq [] 0x20 size 5 rfl
    rw [Nat.mod_eq_of_lt hcut, hint] at henc ⊢
    exact henc
  rw [Understood, henc']
  refine ⟨decoder', hdec, ⟨hes', hds', by rw [hdo, hopt, hopt'], hcov.2, ?_⟩, hopt'⟩
  rw [hpn']
  exact hcov.1

theorem encode_follows
    (h : Follows encoder decoder) (ha : Allowed encoder.options (.encode headers))
    (hu : Uncut encoder (.encode headers)) :
    Understood encoder decoder headers := by
  obtain ⟨hl, hs⟩ := ha
  obtain ⟨hsi, hco, hlen⟩ := hu
  have hc : ∀ header ∈ headers, Carried header :=
    fun header hh => ⟨hs header hh, hco header hh⟩
  cases hp : encoder.pendingTableSizeUpdate with
  | none => exact encode_plain h hp hl hc hlen
  | some size =>
    rw [hp] at hsi
    exact encode_announcing h hp hsi hl hc hlen

theorem run_follows
    (h : Follows encoder decoder) (ho : encoder.options = options)
    (ha : ∀ op ∈ ops, Allowed options op) (hu : UncutRun encoder ops) :
    ∃ blocks, encodeAll encoder ops = .ok blocks ∧
      decodeAll decoder blocks = (encodedLists ops).map .ok := by
  induction ops generalizing encoder decoder with
  | nil => exact ⟨[], rfl, rfl⟩
  | cons op ops ih =>
    have hop := ha op List.mem_cons_self
    have hops : ∀ op ∈ ops, Allowed options op := fun o hm => ha o (List.mem_cons_of_mem _ hm)
    obtain ⟨hcut, hr⟩ := hu
    cases op with
    | encode headers =>
      obtain ⟨decoder', hdec, hf, hopt⟩ := encode_follows h (by rw [ho]; exact hop) hcut
      obtain ⟨blocks, henc, hall⟩ := ih hf (hopt.trans ho) hops hr
      refine ⟨(encoder.encode headers).2 :: blocks, ?_, ?_⟩
      · simp [encodeAll, henc, bind, Except.bind, pure, Except.pure]
      · simp [decodeAll, encodedLists, hdec, hall]
    | setDynamicTableSize newSize =>
      obtain ⟨encoder', hset⟩ : ∃ codec, encoder.setDynamicTableSize newSize = .ok codec :=
        ⟨_, set_size_eq h.encoderSized (by rw [ho]; exact hop)⟩
      obtain ⟨hf, hopt⟩ := set_size_follows h hset
      simp only [hset] at hr
      obtain ⟨blocks, henc, hall⟩ := ih hf (hopt.trans ho) hops hr
      refine ⟨blocks, ?_, hall⟩
      simp [encodeAll, hset, henc, bind, Except.bind]

/-- What the codecs' owner asks for: every operation succeeds, and decoding the
blocks in order gives back the lists. -/
def ListsReturned (options : HpackOptions) (ops : List Operation) : Prop :=
  (encodeAll (HpackCodec.create options) ops).map (decodeAll (HpackCodec.create options)) =
    .ok ((encodedLists ops).map .ok)

instance (options : HpackOptions) (ops : List Operation) : Decidable (ListsReturned options ops) :=
  inferInstanceAs (Decidable (_ = _))

/-- In every run in which no step cuts a value to 32 bits, the decoder returns
exactly the encoded lists. -/
theorem lists_returned (options : HpackOptions) (ops : List Operation)
    (ha : ∀ op ∈ ops, Allowed options op) (hu : UncutRun (HpackCodec.create options) ops) :
    ListsReturned options ops := by
  obtain ⟨blocks, henc, hdec⟩ := run_follows create_follows rfl ha hu
  rw [ListsReturned, henc]
  exact congrArg Except.ok hdec

def shrinkThenGrow : List Operation :=
  [.encode [⟨octets ":method", octets "GET"⟩, ⟨octets "x", octets "1"⟩],
    .setDynamicTableSize 0, .setDynamicTableSize 4096,
    .encode [⟨octets "x", octets "1"⟩, ⟨octets "x", octets "1"⟩]]

theorem lists_returned_shrink_then_grow :
    (∀ op ∈ shrinkThenGrow, Allowed {} op) ∧ UncutRun (HpackCodec.create {}) shrinkThenGrow ∧
      ListsReturned {} shrinkThenGrow :=
  ⟨by decide +kernel, by decide +kernel,
    lists_returned {} shrinkThenGrow (by decide +kernel) (by decide +kernel)⟩

/-- A table size of 2^32 is announced as 0, and the decoder drops an entry that is referred to. -/
theorem lists_returned_fails :
    let options : HpackOptions := { maximumDynamicTableSize := 2 ^ 32 }
    let ops : List Operation := [.setDynamicTableSize (2 ^ 32),
      .encode [⟨octets "a", octets "b"⟩], .encode [⟨octets "a", octets "b"⟩]]
    (∀ op ∈ ops, Allowed options op) ∧ ¬ ListsReturned options ops := by
  decide +kernel

end IocpRuntime.Proofs.HpackAgreement
