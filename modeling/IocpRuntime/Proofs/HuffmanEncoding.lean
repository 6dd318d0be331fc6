import IocpRuntime.Http2.Huffman
import IocpRuntime.Lib.Bits

namespace IocpRuntime.Proofs.HuffmanEncoding
open Lib Lib.Bits Http2

theorem codeBits_eq : codeBits code count = msb code count := by
  induction count with
  | zero => rfl
  | succ count ih =>
    rw [codeBits, msb, ih, Nat.testBit_eq_decide_div_mod_eq, Nat.shiftRight_eq_div_pow]
    rfl

def code (symbol : Nat) : List Bool :=
  let (word, bits) := kCodes.getD symbol (0, 0)
  msb word bits

def word (text : Octets) : List Bool := text.flatMap (fun c => code c.toNat)

@[simp] theorem word_nil : word [] = [] := rfl

@[simp] theorem word_cons : word (c :: text) = code c.toNat ++ word text := List.flatMap_cons

@[simp] theorem word_append : word (a ++ b) = word a ++ word b :=
  List.flatMap_append

/-- Every symbol has a code, and its word fits the stated number of bits. -/
theorem table_entry (symbol : Nat) (h : symbol < 257) :
    ∃ word bits, kCodes.getD symbol (0, 0) = (word, bits) ∧ 0 < bits ∧ bits ≤ 30 ∧
      word < 2 ^ bits := by
  have key : ∀ symbol < 257, 0 < (kCodes.getD symbol (0, 0)).2 ∧
      (kCodes.getD symbol (0, 0)).2 ≤ 30 ∧
      (kCodes.getD symbol (0, 0)).1 < 2 ^ (kCodes.getD symbol (0, 0)).2 := by decide +kernel
  exact ⟨_, _, rfl, key symbol h⟩

def contents (state : HuffmanBits) : List Bool :=
  bits state.result ++ msb state.current state.bitsFilled

/-- Whole octets leave the accumulator and nothing is lost. -/
theorem drainBits_contents (rounds current bitsFilled : Nat) (result : Octets)
    (hr : bitsFilled < 8 * (rounds + 1)) :
    (drainBits rounds current bitsFilled result).1 < 8 ∧
      bits (drainBits rounds current bitsFilled result).2 ++
        msb current (drainBits rounds current bitsFilled result).1 =
      bits result ++ msb current bitsFilled := by
  induction rounds generalizing bitsFilled result with
  | zero => exact ⟨by simpa [drainBits] using hr, rfl⟩
  | succ rounds ih =>
    rw [drainBits]
    by_cases hf : bitsFilled ≥ 8
    · rw [if_pos hf]
      obtain ⟨hlt, heq⟩ := ih (bitsFilled - 8)
        (result ++ [UInt8.ofNat ((current >>> (bitsFilled - 8)) &&& 0xff)]) (by omega)
      refine ⟨hlt, heq.trans ?_⟩
      have ho : msb (current >>> (bitsFilled - 8) &&& 0xff) 8 =
          msb (current >>> (bitsFilled - 8)) 8 := by
        rw [Nat.and_two_pow_sub_one_eq_mod _ 8, msb_mod (Nat.le_refl _)]
      have hs : bitsFilled = 8 + (bitsFilled - 8) := by omega
      conv => rhs; rw [hs, msb_add]
      simp only [bits_append, bits_cons, bits_nil, octetBits_ofNat, ho, List.append_nil,
        List.append_assoc]
    · rw [if_neg hf]
      exact ⟨Nat.not_le.mp hf, rfl⟩

/-- Fewer than eight bits are held before and after, so the accumulator loses none that counts. -/
theorem push_contents (h : state.bitsFilled < 8) : (huffmanPush state c).bitsFilled < 8 ∧
      contents (huffmanPush state c) = contents state ++ code c.toNat := by
  obtain ⟨word, bits, he, hpos, hb, hwo⟩ := table_entry c.toNat (by
    have := c.toNat_lt
    omega)
  have hc : code c.toNat = msb word bits := by rw [code, he]
  obtain ⟨hlt, heq⟩ := drainBits_contents 5 ((state.current <<< bits ||| word) % 2 ^ 64)
    (state.bitsFilled + bits) state.result (by omega)
  simp only [huffmanPush, he, Nat.pos_iff_ne_zero.mp hpos, if_false]
  refine ⟨hlt, ?_⟩
  rw [contents, heq, contents, hc, List.append_assoc, msb_mod (by omega), msb_shift_or _ _ _ _ hwo]

theorem fold_contents (text : Octets) (state : HuffmanBits) (h : state.bitsFilled < 8) :
    (text.foldl huffmanPush state).bitsFilled < 8 ∧
      contents (text.foldl huffmanPush state) = contents state ++ word text := by
  induction text generalizing state with
  | nil => exact ⟨h, (List.append_nil _).symm⟩
  | cons c text ih =>
    obtain ⟨hlt, heq⟩ := push_contents h
    obtain ⟨hlt', heq'⟩ := ih (huffmanPush state c) hlt
    refine ⟨hlt', ?_⟩
    rw [List.foldl_cons, heq', heq, word_cons, List.append_assoc]

/-- `HuffmanEncoder::Encode` writes the codes and fewer than eight ones behind them. -/
theorem encode_bits :
    ∃ padding < 8, bits (huffmanEncode text) = word text ++ List.replicate padding true := by
  obtain ⟨hlt, heq⟩ := fold_contents text {} (by decide)
  simp only [contents, bits_nil, msb_zero, List.nil_append] at heq
  unfold huffmanEncode
  generalize text.foldl huffmanPush {} = state at hlt heq
  by_cases hf : state.bitsFilled > 0
  · refine ⟨8 - state.bitsFilled, by omega, ?_⟩
    have hl := msb_shift_or state.current (2 ^ (8 - state.bitsFilled) - 1) state.bitsFilled
      (8 - state.bitsFilled) (Nat.sub_lt (Nat.two_pow_pos _) (by decide))
    rw [Nat.add_sub_cancel' (by omega), msb_ones] at hl
    simp only [hf, if_true, bits_append, bits_cons, bits_nil, octetBits_ofNat,
      Nat.shiftLeft_eq 1, Nat.one_mul, List.append_nil, hl, ← List.append_assoc, heq]
  · refine ⟨0, by decide, ?_⟩
    have hz : state.bitsFilled = 0 := by omega
    simpa [hz] using heq

/-- The encoder's image: the octets whose bits are the codes and a short run of ones. -/
theorem encode_eq_iff : huffmanEncode text = data ↔
      ∃ padding < 8, bits data = word text ++ List.replicate padding true := by
  obtain ⟨padding, hlt, heq⟩ := encode_bits
  constructor
  · rintro rfl
    exact ⟨padding, hlt, heq⟩
  · rintro ⟨k, hk, hd⟩
    apply bits_injective
    have hlen := congrArg List.length heq
    have hlen' := congrArg List.length hd
    simp only [bits_length, List.length_append, List.length_replicate] at hlen hlen'
    have hs : padding = k := by omega
    rw [heq, hd, hs]

end IocpRuntime.Proofs.HuffmanEncoding
