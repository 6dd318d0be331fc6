import IocpRuntime.Proofs.HuffmanTree

namespace IocpRuntime.Proofs.HuffmanCoding
open Lib Lib.Bits Http2 HuffmanEncoding HuffmanTree

variable {tail path : List Bool} {node : HuffmanTree}

def eos : List Bool := code 256

theorem eos_eq : eos = List.replicate 30 true := by decide

/-- The beginning of a code, without that of 220: past the code of 49 it is never followed. -/
def Unfinished (tail : List Bool) : Prop :=
  ∃ symbol < 257, symbol ≠ 220 ∧ tail <+: code symbol ∧ tail ≠ code symbol

/-- A short run of ones could still become the end-of-string symbol. -/
theorem ones_unfinished (h : count < 30) : Unfinished (List.replicate count true) := by
  refine ⟨256, by decide, by decide, ?_, ?_⟩
  · refine ⟨List.replicate (30 - count) true, ?_⟩
    rw [List.replicate_append_replicate, Nat.add_sub_cancel' (Nat.le_of_lt h)]
    exact eos_eq.symm
  · intro heq
    have hlen := congrArg List.length (heq.trans eos_eq)
    simp at hlen
    omega

/-- A path of the decoder that has met no symbol yet. -/
structure Open (path : List Bool) : Prop where
  present : below huffmanTree path ≠ .missing
  silent : ∀ p, p <+: path → value (below huffmanTree p) = none

theorem Open.nil : Open [] := by
  refine ⟨?_, ?_⟩
  · have h := (lands_spec (code_lands 256 (by decide) (by decide))).1
    intro hm
    rw [below_nil] at hm
    rw [hm, below_missing] at h
    cases h
  · intro p hp
    rw [List.prefix_nil.mp hp]
    have h := (lands_spec (code_lands 256 (by decide) (by decide))).2 [] List.nil_prefix (by decide)
    exact h

theorem Open.of_unfinished (h : Unfinished tail) : Open tail := by
  obtain ⟨symbol, hlt, hne, hpr, hpro⟩ := h
  obtain ⟨hv, hb⟩ := lands_spec (code_lands symbol hlt hne)
  obtain ⟨rest, hr⟩ := hpr
  refine ⟨?_, ?_⟩
  · intro hm
    rw [← hr, below_append, hm, below_missing] at hv
    cases hv
  · intro p hp
    apply hb p (hp.trans ⟨rest, hr⟩)
    rintro rfl
    exact hpro (hp.eq_of_length_le (by
      rw [← hr, List.length_append]
      omega)).symm

/-- A path that has met no symbol cannot have come past a whole code. -/
theorem Open.no_code (h : Open path) (hlt : symbol < 257)
    (hne : symbol ≠ 220) : ¬ code symbol <+: path := by
  intro hp
  have hv := (lands_spec (code_lands symbol hlt hne)).1
  rw [h.silent _ hp] at hv
  cases hv

/-- A whole code that starts with an open path is not the code of 220. -/
theorem Open.symbol_ne (h : Open path) (hc : path ++ [bit] = code symbol) : symbol ≠ 220 := by
  rintro rfl
  have hl : (code 49).length ≤ path.length := by
    have hlen := congrArg List.length hc
    rw [List.length_append, List.length_singleton] at hlen
    have h220 : (code 220).length = 28 := by decide
    have h49 : (code 49).length = 5 := by decide
    omega
  refine h.no_code (by decide) (by decide) (List.prefix_of_prefix_length_le code_prefix ?_ hl)
  exact ⟨[bit], hc⟩

/-- Every open path can be completed: the table has no dead ends. -/
theorem Open.unfinished (h : Open path) : Unfinished path := by
  by_cases hnil : path = []
  · subst hnil
    exact ones_unfinished (show 0 < 30 by decide)
  obtain ⟨rest, symbol, hv⟩ := huffmanTree_fruitful path hnil h.present
  obtain ⟨hlt, hc⟩ := value_code hv
  have hp : path ≠ code symbol := by
    intro heq
    have hn := h.silent path List.prefix_rfl
    rw [hc, ← heq, hn] at hv
    cases hv
  by_cases hne : symbol = 220
  · -- the path is shorter than the code of 49, which stands in the way
    subst hne
    rcases List.prefix_or_prefix_of_prefix code_prefix ⟨rest, hc⟩ with h49 | h49
    · exact absurd h49 (h.no_code (by decide) (by decide))
    · refine ⟨49, by decide, by decide, h49, ?_⟩
      rintro rfl
      exact h.no_code (by decide) (by decide) List.prefix_rfl
  · exact ⟨symbol, hlt, hne, ⟨rest, hc⟩, hp⟩

theorem walk_missing (bits : List Bool) (result : Octets)
    (h : child node bit = .missing) : walkBits (bit :: bits) node result = .invalid := by
  cases node with
  | missing => rfl
  | node v left right =>
    rw [child] at h
    simp only [walkBits, h]

theorem walk_symbol (bits : List Bool)
    (result : Octets) (h : value (child node bit) = some symbol) :
    walkBits (bit :: bits) node result =
      if symbol = 256 then .endOfString
      else walkBits bits huffmanTree (result ++ [UInt8.ofNat symbol]) := by
  cases node with
  | missing => cases h
  | node v left right =>
    rw [child] at h
    rw [walkBits]
    generalize (if bit then right else left) = next at h
    cases next with
    | missing => cases h
    | node v l r =>
      rw [value_node] at h
      subst h
      rfl

theorem walk_inner (bits : List Bool) (result : Octets)
    (hp : child node bit ≠ .missing) (hv : value (child node bit) = none) :
    walkBits (bit :: bits) node result = walkBits bits (child node bit) result := by
  cases node with
  | missing => exact absurd rfl hp
  | node v left right =>
    rw [child] at hp hv ⊢
    rw [walkBits]
    generalize (if bit then right else left) = next at hp hv
    cases next with
    | missing => exact absurd rfl hp
    | node v l r =>
      rw [value_node] at hv
      subst hv
      rfl

/-- The walk over a first part decides how the rest is read. -/
theorem walk_append : walkBits (a ++ b) node result =
      match walkBits a node result with
      | .invalid => .invalid
      | .endOfString => .endOfString
      | .inside inner text => walkBits b inner text := by
  induction a generalizing node result with
  | nil => rfl
  | cons bit a ih =>
    rw [List.cons_append]
    by_cases hp : child node bit = .missing
    · rw [walk_missing _ _ hp, walk_missing _ _ hp]
    cases hv : value (child node bit) with
    | none => rw [walk_inner _ _ hp hv, walk_inner _ _ hp hv, ih]
    | some symbol =>
      rw [walk_symbol _ _ hv, walk_symbol _ _ hv]
      split
      · rfl
      · exact ih

theorem walk_open (h : Open (path ++ tail)) (result : Octets) :
    walkBits tail (below huffmanTree path) result =
      .inside (below huffmanTree (path ++ tail)) result := by
  induction tail generalizing path with
  | nil => rw [List.append_nil, walkBits]
  | cons bit tail ih =>
    have hs : path ++ bit :: tail = (path ++ [bit]) ++ tail := by simp
    have hc : below huffmanTree (path ++ [bit]) = child (below huffmanTree path) bit :=
      below_append
    have hp : child (below huffmanTree path) bit ≠ .missing := by
      intro hm
      apply h.present
      rw [hs, below_append, hc, hm, below_missing]
    have hv : value (child (below huffmanTree path) bit) = none := by
      rw [← hc]
      exact h.silent _ ⟨tail, hs.symm⟩
    rw [walk_inner _ _ hp hv, ← hc, hs]
    exact ih (hs ▸ h)

theorem walk_unfinished (h : Unfinished tail) :
    walkBits tail huffmanTree result = .inside (below huffmanTree tail) result := by
  have hwa := @walk_open tail [] (Open.of_unfinished h) result
  rwa [List.nil_append, below_nil] at hwa

theorem walk_code (hlt : symbol < 257) (hne : symbol ≠ 220) :
    walkBits (code symbol ++ more) huffmanTree result =
      if symbol = 256 then .endOfString
      else walkBits more huffmanTree (result ++ [UInt8.ofNat symbol]) := by
  obtain ⟨hv, -⟩ := lands_spec (code_lands symbol hlt hne)
  have hnil : code symbol ≠ [] := by
    intro hnil
    rw [hnil, Open.nil.silent [] List.prefix_rfl] at hv
    cases hv
  have hs := List.dropLast_concat_getLast hnil
  have hb : Unfinished (code symbol).dropLast := by
    refine ⟨symbol, hlt, hne, List.dropLast_prefix _, fun heq => ?_⟩
    have hlen := congrArg List.length heq
    rw [List.length_dropLast] at hlen
    have := List.length_pos_iff.mpr hnil
    omega
  have hl : value (child (below huffmanTree (code symbol).dropLast)
      ((code symbol).getLast hnil)) = some symbol := by
    rw [← hv]
    conv => rhs; rw [← hs, below_append]
    rfl
  conv => lhs; rw [← hs, List.append_assoc, walk_append, walk_unfinished hb]
  exact walk_symbol more result hl

theorem walk_word (h : 220 ∉ text) : walkBits (word text ++ more) huffmanTree result =
      walkBits more huffmanTree (result ++ text) := by
  induction text generalizing result with
  | nil => simp
  | cons c text ih =>
    obtain ⟨hc, ht⟩ := List.ne_and_not_mem_of_not_mem_cons h
    have hlt := c.toNat_lt
    have hne : c.toNat ≠ 220 := fun heq => hc (UInt8.toNat_inj.mp heq.symm)
    rw [word_cons, List.append_assoc, walk_code (by omega) hne, if_neg (by omega), ih ht,
      UInt8.ofNat_toNat, List.append_assoc]
    rfl

theorem below_snoc : below huffmanTree (path ++ [bit]) = child (below huffmanTree path) bit :=
  below_append

theorem Open.snoc (h : Open path) (hp : child (below huffmanTree path) bit ≠ .missing)
    (hv : value (child (below huffmanTree path) bit) = none) : Open (path ++ [bit]) := by
  refine ⟨by rwa [below_snoc], fun p hpr => ?_⟩
  rcases List.prefix_concat_iff.mp hpr with rfl | hs
  · rwa [below_snoc]
  · exact h.silent p hs

/-- Bits read as the codes of a text without 220 and a rest. -/
structure Reads (bits : List Bool) (text : Octets) (tail : List Bool) : Prop where
  split : bits = word text ++ tail
  clean : 220 ∉ text

theorem Reads.cons {bits : List Bool} (h : Reads bits text tail) (ho : Open path)
    (hc : path ++ [bit] = code symbol) (hlt : symbol < 256) :
    Reads (path ++ bit :: bits) (UInt8.ofNat symbol :: text) tail := by
  have hnat : (UInt8.ofNat symbol).toNat = symbol := by
    rw [UInt8.toNat_ofNat']
    omega
  refine ⟨?_, ?_⟩
  · rw [word_cons, hnat, ← hc, h.split]
    simp
  · intro hmem
    rcases List.mem_cons.mp hmem with heq | hmem
    · have hs : symbol = 220 := by rw [← hnat, ← heq]; rfl
      exact ho.symbol_ne hc hs
    · exact h.clean hmem

/-- What the loop has seen inside the tree, and when it met the end of the string. -/
theorem walk_reads (bits path : List Bool) (result : Octets) (ho : Open path) :
    match walkBits bits (below huffmanTree path) result with
    | .invalid => True
    | .endOfString => ∃ text tail, Reads (path ++ bits) text (eos ++ tail) ∧
        tail.length < bits.length
    | .inside inner out => ∃ text tail, out = result ++ text ∧ Reads (path ++ bits) text tail ∧
        Open tail ∧ inner = below huffmanTree tail := by
  induction bits generalizing path result with
  | nil => exact ⟨[], path, by simp, ⟨by simp, by simp⟩, ho, rfl⟩
  | cons bit bits ih =>
    by_cases hp : child (below huffmanTree path) bit = .missing
    · rw [walk_missing _ _ hp]
      trivial
    cases hv : value (child (below huffmanTree path) bit) with
    | none =>
      have hn := ih (path ++ [bit]) result (ho.snoc hp hv)
      rw [walk_inner _ _ hp hv, ← below_snoc]
      rw [List.append_assoc, List.singleton_append] at hn
      revert hn
      cases walkBits bits (below huffmanTree (path ++ [bit])) result with
      | invalid => exact id
      | endOfString =>
        rintro ⟨text, tail, hreads, hlen⟩
        exact ⟨text, tail, hreads, Nat.lt_succ_of_lt hlen⟩
      | inside inner out => exact id
    | some symbol =>
      obtain ⟨hlt, hc⟩ := value_code (below_snoc ▸ hv)
      rw [walk_symbol _ _ hv]
      by_cases heos : symbol = 256
      · subst heos
        refine ⟨[], bits, ⟨?_, by simp⟩, Nat.lt_succ_self _⟩
        rw [word_nil, List.nil_append, eos, ← hc]
        simp
      · rw [if_neg heos]
        have hn := ih [] (result ++ [UInt8.ofNat symbol]) Open.nil
        rw [below_nil, List.nil_append] at hn
        revert hn
        cases walkBits bits huffmanTree (result ++ [UInt8.ofNat symbol]) with
        | invalid => exact id
        | endOfString =>
          rintro ⟨text, tail, hreads, hlen⟩
          exact ⟨_, tail, hreads.cons ho hc (by omega), Nat.lt_succ_of_lt hlen⟩
        | inside inner out =>
          rintro ⟨text, tail, rfl, hreads, ho', hi⟩
          exact ⟨_, tail, by simp, hreads.cons ho hc (by omega), ho', hi⟩

/-- As long as the bits stay inside the tree, the octet loop goes on behind them. -/
theorem decodeOctets_append {inner : HuffmanTree}
    (h : walkBits (bits front) node result = .inside inner text) (rest : Octets) :
    decodeOctets (front ++ rest) node result = decodeOctets rest inner text := by
  induction front generalizing node result with
  | nil =>
    cases h
    rfl
  | cons octet front ih =>
    rw [bits_cons, walk_append] at h
    rw [List.cons_append, decodeOctets, codeBits_eq, ← octetBits]
    revert h
    cases walkBits (octetBits octet) node result with
    | invalid => simp
    | endOfString => simp
    | inside next out => exact fun h => ih h

/-- The bits run out inside the tree, or the end of the string is met in the last octet. -/
theorem decodeOctets_some (h : decodeOctets data node result = some out) :
    (∃ inner, walkBits (bits data) node result = .inside inner out) ∨
      (out = [] ∧ ∃ front octet inner text, data = front ++ [octet] ∧
        walkBits (bits front) node result = .inside inner text ∧
        walkBits (octetBits octet) inner text = .endOfString) := by
  induction data generalizing node result with
  | nil =>
    cases h
    exact .inl ⟨node, rfl⟩
  | cons octet data ih =>
    rw [decodeOctets, codeBits_eq, ← octetBits] at h
    rw [bits_cons, walk_append]
    cases hwa : walkBits (octetBits octet) node result with
    | invalid =>
      rw [hwa] at h
      cases h
    | endOfString =>
      simp only [hwa] at h
      split at h
      · rename_i hl
        subst hl
        cases h
        exact .inr ⟨rfl, [], octet, node, result, rfl, rfl, hwa⟩
      · cases h
    | inside next seen =>
      simp only [hwa] at h
      rcases ih h with hi | ⟨hout, front, last, inner, text, rfl, hf, hl⟩
      · exact .inl hi
      · refine .inr ⟨hout, octet :: front, last, inner, text, rfl, ?_, hl⟩
        rw [bits_cons, walk_append, hwa]
        exact hf

/-- A proper beginning of codes and the end of the string stays inside the tree. -/
theorem walk_partial (hcl : 220 ∉ text)
    (hpa : part <+: word text ++ eos) (hp : part ≠ word text ++ eos) :
    ∃ inner out, walkBits part huffmanTree result = .inside inner out := by
  induction text generalizing part result with
  | nil => exact ⟨_, _, walk_unfinished ⟨256, by decide, by decide, hpa, hp⟩⟩
  | cons c text ih =>
    obtain ⟨hc, ht⟩ := List.ne_and_not_mem_of_not_mem_cons hcl
    have hlt := c.toNat_lt
    have hne : c.toNat ≠ 220 := fun heq => hc (UInt8.toNat_inj.mp heq.symm)
    rw [word_cons, List.append_assoc] at hpa hp
    by_cases hb : Unfinished part
    · exact ⟨_, _, walk_unfinished hb⟩
    -- the part reaches the end of the first code
    have hco : code c.toNat <+: part := by
      rcases List.prefix_or_prefix_of_prefix hpa (List.prefix_append _ _) with hin | ho
      · by_cases heq : part = code c.toNat
        · exact heq ▸ List.prefix_rfl
        · exact absurd ⟨c.toNat, by omega, hne, hin, heq⟩ hb
      · exact ho
    obtain ⟨more, rfl⟩ := hco
    rw [walk_code (by omega) hne, if_neg (by omega)]
    exact ih ht ((List.prefix_append_right_inj _).mp hpa) (fun heq => hp (by rw [heq]))

/-- Symbols other than 220, and behind them the beginning of a code, or the end of the string and
what is left of the last octet. -/
theorem huffmanDecode_iff : huffmanDecode data = some out ↔
      (∃ tail, Reads (bits data) out tail ∧ Unfinished tail) ∨
      (out = [] ∧ ∃ text tail, Reads (bits data) text (eos ++ tail) ∧ tail.length < 8) := by
  constructor
  · intro h
    rcases decodeOctets_some h with ⟨inner, hwa⟩ | ⟨rfl, front, octet, inner, text, rfl, hf, hl⟩
    · left
      have hreads := walk_reads (bits data) [] [] Open.nil
      rw [below_nil, hwa] at hreads
      obtain ⟨text, tail, hout, hreads, hop, -⟩ := hreads
      rw [List.nil_append] at hreads hout
      exact ⟨tail, hout ▸ hreads, hop.unfinished⟩
    · right
      have hreads := walk_reads (bits front) [] [] Open.nil
      rw [below_nil, hf] at hreads
      obtain ⟨seen, begun, -, ⟨hs, hc⟩, hop, rfl⟩ := hreads
      have hend := walk_reads (octetBits octet) begun text hop
      rw [hl] at hend
      obtain ⟨more, tail, ⟨hs', hc'⟩, hlen⟩ := hend
      refine ⟨rfl, seen ++ more, tail, ⟨?_, ?_⟩, by simpa using hlen⟩
      · rw [List.nil_append] at hs
        simp [hs, hs']
      · intro hmem
        exact (List.mem_append.mp hmem).elim hc hc'
  · rintro (⟨tail, ⟨hs, hc⟩, hb⟩ | ⟨rfl, text, tail, ⟨hs, hc⟩, hlen⟩)
    · have hwa : walkBits (bits data) huffmanTree [] = .inside (below huffmanTree tail) out := by
        rw [hs, walk_word hc, walk_unfinished hb, List.nil_append]
      have hd := decodeOctets_append hwa []
      rw [List.append_nil] at hd
      exact hd
    · have hwa : walkBits (bits data) huffmanTree [] = .endOfString := by
        rw [hs, walk_word hc, eos, walk_code (by decide) (by decide), if_pos rfl]
      have hlo : 30 ≤ (bits data).length := by
        rw [hs, List.length_append, List.length_append, eos_eq, List.length_replicate]
        omega
      have hne : data ≠ [] := by
        rintro rfl
        simp at hlo
      have hl := List.dropLast_concat_getLast hne
      generalize data.dropLast = front at hl
      generalize data.getLast hne = octet at hl
      subst hl
      -- the end of the string is not complete before the last octet
      have hp : bits front <+: word text ++ eos ∧ bits front ≠ word text ++ eos := by
        rw [bits_append, ← List.append_assoc] at hs
        have hln := congrArg List.length hs
        rw [List.length_append, List.length_append] at hln
        have ho : (bits [octet]).length = 8 := by simp
        have hle : (bits front).length < (word text ++ eos).length := by omega
        refine ⟨?_, fun heq => by rw [heq] at hle; omega⟩
        exact List.prefix_of_prefix_length_le ⟨_, hs⟩ (List.prefix_append _ _) hle.le
      obtain ⟨inner, seen, hf⟩ := walk_partial hc hp.1 hp.2
      rw [bits_append, walk_append, hf, bits_cons, bits_nil, List.append_nil] at hwa
      rw [huffmanDecode, decodeOctets_append hf, decodeOctets, codeBits_eq, ← octetBits]
      simp only [hwa]
      rfl

/-- Every text without octet 220 comes back from its encoding, and no other:
the code of 220 is read as the code of 49 and more. -/
theorem huffman_round_trip (text : Octets) :
    huffmanDecode (huffmanEncode text) = some text ↔ 220 ∉ text := by
  obtain ⟨padding, hlt, hbits⟩ := encode_bits
  rw [huffmanDecode_iff]
  constructor
  · rintro (⟨tail, hreads, -⟩ | ⟨rfl, -⟩)
    · exact hreads.clean
    · simp
  · intro hclean
    exact .inl ⟨_, ⟨hbits, hclean⟩, ones_unfinished (by omega)⟩

/-- The octet itself: two octets come back. -/
theorem huffman_round_trip_fails : huffmanDecode (huffmanEncode [220]) = some [49, 204] ∧
    huffmanDecode (huffmanEncode [220]) ≠ some [220] := by
  decide +kernel

/-- What is left is a run of fewer than eight ones, without the end-of-string symbol. -/
def WellPadded (data : Octets) : Prop :=
  ∀ text tail, Reads (bits data) text tail →
    (Unfinished tail → ∃ padding < 8, tail = List.replicate padding true) ∧
    ∀ rest, tail = eos ++ rest → 8 ≤ rest.length

/-- Only well padded strings are read back to the octets they came from. -/
theorem accepted_canonical (data : Octets) :
    (∀ text, huffmanDecode data = some text → huffmanEncode text = data) ↔ WellPadded data := by
  constructor
  · intro h text tail hreads
    refine ⟨fun hbegun => ?_, fun rest hrest => ?_⟩
    · have hencode := h text (huffmanDecode_iff.mpr (.inl ⟨tail, hreads, hbegun⟩))
      obtain ⟨padding, hlt, hbits⟩ := encode_eq_iff.mp hencode
      rw [hreads.split] at hbits
      exact ⟨padding, hlt, List.append_cancel_left hbits⟩
    · by_contra hshort
      subst hrest
      have hencode := h [] (huffmanDecode_iff.mpr
        (.inr ⟨rfl, text, rest, hreads, Nat.lt_of_not_le hshort⟩))
      obtain ⟨padding, hlt, hbits⟩ := encode_eq_iff.mp hencode
      have hlen := congrArg List.length (hreads.split.symm.trans hbits)
      rw [eos_eq] at hlen
      simp at hlen
      omega
  · intro hpadded text hdecode
    rcases huffmanDecode_iff.mp hdecode with ⟨tail, hreads, hbegun⟩ | ⟨rfl, seen, tail, hreads, hlen⟩
    · obtain ⟨padding, hlt, rfl⟩ := (hpadded text tail hreads).1 hbegun
      exact encode_eq_iff.mpr ⟨padding, hlt, hreads.split⟩
    · have := (hpadded seen _ hreads).2 tail rfl
      omega

/-- Zeros as padding, a whole octet of padding, and the end of the string after
a digit that is then lost. -/
theorem accepted_not_canonical : (huffmanDecode [0x00] = some [48] ∧ huffmanEncode [48] = [0x07]) ∧
    (huffmanDecode [0xff] = some [] ∧ huffmanEncode [] = []) ∧
    huffmanDecode [0x07, 0xff, 0xff, 0xff, 0xff] = some [] := by
  decide +kernel

end IocpRuntime.Proofs.HuffmanCoding
