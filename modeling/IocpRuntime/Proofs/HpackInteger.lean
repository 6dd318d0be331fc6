import IocpRuntime.Http2.Rfc7541

namespace IocpRuntime.Proofs.HpackInteger
open Lib Http2 Http2.Rfc7541

theorem more_octet (n : Nat) (h : n < 128) :
    (UInt8.ofNat (128 + n) &&& 0x7f).toNat = n ∧ UInt8.ofNat (128 + n) &&& 0x80 ≠ 0 := by
  have key : ∀ n < 128, (UInt8.ofNat (128 + n) &&& 0x7f).toNat = n ∧
      UInt8.ofNat (128 + n) &&& 0x80 ≠ 0 := by decide +kernel
  exact key n h

theorem last_octet (h : n < 128) :
    (UInt8.ofNat n &&& 0x7f).toNat = n ∧ UInt8.ofNat n &&& 0x80 = 0 := by
  have key : ∀ n < 128, (UInt8.ofNat n &&& 0x7f).toNat = n ∧ UInt8.ofNat n &&& 0x80 = 0 := by
    decide +kernel
  exact key n h

theorem low_bits : n &&& 0x7f = n % 128 := Nat.and_two_pow_sub_one_eq_mod n 7

theorem continued_shorter (h : continued data = some (more, rest)) : rest.length < data.length := by
  induction data generalizing more with
  | nil => cases h
  | cons byte data ih =>
    rw [continued] at h
    split at h
    · cases h
      exact Nat.lt_succ_self _
    · obtain ⟨⟨more, rest⟩, hm, hr⟩ := Option.map_eq_some_iff.mp h
      cases hr
      exact Nat.lt_succ_of_lt (ih hm)

/-- The loop reads the value modulo a 32-bit word if the integer ends within its rounds. -/
theorem readContinuation_iff (hm : m + 7 * rounds = 35) :
    readContinuation rounds data value m = .ok (result, rest) ↔
      ∃ more, continued data = some (more, rest) ∧ data.length ≤ rest.length + rounds ∧
        result = (value + more * 2 ^ m) % 2 ^ 32 := by
  induction rounds generalizing m data value with
  | zero =>
    constructor
    · intro h
      cases h
    · rintro ⟨more, hmo, hlen, -⟩
      have := continued_shorter hmo
      omega
  | succ rounds ih =>
    cases data with
    | nil => simp [readContinuation, continued]
    | cons byte data =>
      rw [readContinuation, continued, Nat.shiftLeft_eq]
      split
      · constructor
        · intro h
          cases h
          exact ⟨_, rfl, by simp, rfl⟩
        · rintro ⟨more, hmo, -, rfl⟩
          cases hmo
          rfl
      -- the shift passes 28 exactly when no round is left
      have hr : (if m + 7 > 28 then
            .error (.runtimeError "HPACK decode: integer overflow")
          else readContinuation rounds data
            ((value + (byte &&& 0x7f).toNat * 2 ^ m) % 2 ^ 32) (m + 7)) =
          readContinuation rounds data
            ((value + (byte &&& 0x7f).toNat * 2 ^ m) % 2 ^ 32) (m + 7) := by
        split
        · obtain rfl : rounds = 0 := by omega
          rfl
        · rfl
      have hsum (more : Nat) : (value + (byte &&& 0x7f).toNat * 2 ^ m) + more * 2 ^ (m + 7) =
          value + ((byte &&& 0x7f).toNat + 128 * more) * 2 ^ m := by
        rw [Nat.pow_add]
        ring
      rw [hr, ih (by omega)]
      constructor
      · rintro ⟨more, hmo, hlen, rfl⟩
        refine ⟨_, by rw [hmo]; rfl, Nat.succ_le_succ hlen, ?_⟩
        rw [Nat.mod_add_mod, hsum]
      · rintro ⟨whole, hwh, hlen, rfl⟩
        obtain ⟨⟨more, rest⟩, hmo, hre⟩ := Option.map_eq_some_iff.mp hwh
        cases hre
        refine ⟨more, hmo, Nat.le_of_succ_le_succ hlen, ?_⟩
        rw [Nat.mod_add_mod, hsum]

theorem mask_eq : (1 <<< prefixBits) - 1 = 2 ^ prefixBits - 1 := by
  rw [Nat.shiftLeft_eq, Nat.one_mul]

/-- `ReadDecodedInteger` returns the exact integer modulo a 32-bit word, for integers of
at most six octets. -/
theorem readDecodedInteger_iff : readDecodedInteger data prefixBits = .ok (value, rest) ↔
      ∃ exact, integerAt prefixBits data = some (exact, rest) ∧
        data.length ≤ rest.length + 6 ∧ value = exact % 2 ^ 32 := by
  cases data with
  | nil => simp [readDecodedInteger, integerAt]
  | cons byte data =>
    rw [readDecodedInteger, integerAt]
    simp only [mask_eq, Nat.and_two_pow_sub_one_eq_mod]
    have hlow := Nat.mod_le byte.toNat (2 ^ prefixBits)
    have hb := byte.toNat_lt
    split
    · constructor
      · intro h
        cases h
        exact ⟨_, rfl, by simp, (Nat.mod_eq_of_lt (by omega)).symm⟩
      · rintro ⟨more, hm, -, rfl⟩
        cases hm
        rw [Nat.mod_eq_of_lt (by omega : byte.toNat % 2 ^ prefixBits < 2 ^ 32)]
    rw [readContinuation_iff (by omega : 0 + 7 * 5 = 35)]
    constructor
    · rintro ⟨more, hm, hlen, rfl⟩
      exact ⟨_, by rw [hm]; rfl, Nat.succ_le_succ hlen, by simp⟩
    · rintro ⟨exact, he, hlen, rfl⟩
      obtain ⟨⟨more, rest⟩, hm, hr⟩ := Option.map_eq_some_iff.mp he
      cases hr
      exact ⟨more, hm, Nat.le_of_succ_le_succ hlen, by simp⟩

/-- `ReadDecodedInteger` is exact, unless the integer is above 32 bits within six octets. -/
theorem integer_exact (data : Octets) (prefixBits : Nat) :
    (∀ value rest, readDecodedInteger data prefixBits = .ok (value, rest) →
        integerAt prefixBits data = some (value, rest)) ↔
      ∀ exact rest, integerAt prefixBits data = some (exact, rest) →
        data.length ≤ rest.length + 6 → exact < 2 ^ 32 := by
  constructor
  · intro h exact rest hexact hlen
    have hread := h _ _ (readDecodedInteger_iff.mpr ⟨exact, hexact, hlen, rfl⟩)
    rw [hexact] at hread
    have heq : exact = exact % 2 ^ 32 := congrArg Prod.fst (Option.some.inj hread)
    omega
  · intro h value rest hread
    obtain ⟨exact, hexact, hlen, rfl⟩ := readDecodedInteger_iff.mp hread
    rw [Nat.mod_eq_of_lt (h exact rest hexact hlen)]
    exact hexact

/-- An index two above a 32-bit word is read as two, and the block decodes to a field. -/
theorem integer_wraps :
    let data : Octets := [0xff, 0x83, 0xff, 0xff, 0xff, 0x0f]
    integerAt 7 data = some (2 ^ 32 + 2, []) ∧ readDecodedInteger data 7 = .ok (2, []) ∧
      ((HpackCodec.create {}).decode data).2 = .ok [entry ":method" "GET"] := by
  decide +kernel

theorem groupsOf_last (h : number < 128) : groupsOf rounds number = [UInt8.ofNat number] := by
  cases rounds with
  | zero => rw [groupsOf, Nat.mod_eq_of_lt h]
  | succ rounds => rw [groupsOf, if_pos h]

/-- The octets written behind the prefix hold the remainder, and there are no more of
them than it has groups of seven bits. -/
theorem continued_groupsOf (rest : Octets) (hf : groups ≤ rounds)
    (hr : remaining < 128 ^ (groups + 1)) :
    continued (groupsOf rounds remaining ++ rest) = some (remaining, rest) ∧
      (groupsOf rounds remaining).length ≤ groups + 1 := by
  induction groups generalizing rounds remaining with
  | zero =>
    obtain ⟨hval, hend⟩ := last_octet (by simpa using hr)
    rw [groupsOf_last (by simpa using hr), List.singleton_append, continued, hval]
    exact ⟨if_pos hend, Nat.le_refl _⟩
  | succ groups ih =>
    obtain ⟨rounds, rfl⟩ : ∃ r, rounds = r + 1 := ⟨rounds - 1, by omega⟩
    by_cases hla : remaining < 128
    · have hlow := ih (Nat.le_of_succ_le hf) (show remaining < 128 ^ (groups + 1) by
        have := Nat.one_le_pow groups 128 (by decide)
        rw [Nat.pow_succ]
        omega)
      exact ⟨hlow.1, Nat.le_succ_of_le hlow.2⟩
    have hl : remaining / 128 < 128 ^ (groups + 1) := by
      rw [Nat.div_lt_iff_lt_mul (by decide), ← Nat.pow_succ]
      exact hr
    obtain ⟨hval, hm⟩ := more_octet (remaining % 128) (by omega)
    obtain ⟨hre, hlen⟩ := ih (Nat.le_of_succ_le_succ hf) hl
    rw [groupsOf, if_neg hla]
    refine ⟨?_, Nat.succ_le_succ hlen⟩
    rw [List.cons_append, continued, hval, if_neg hm, hre]
    rw [Option.map_some, Nat.mod_add_div]

theorem or_low_bits (hz : flags % 2 ^ prefixBits = 0)
    (hv : v < 2 ^ prefixBits) : flags ||| v = flags + v := by
  have hf : flags = flags / 2 ^ prefixBits * 2 ^ prefixBits := by
    have := Nat.div_add_mod flags (2 ^ prefixBits)
    rw [hz, Nat.mul_comm] at this
    omega
  rw [hf]
  exact mul_two_pow_or hv

/-- `EncodeInteger` writes the groups that section 5.1 asks for. -/
theorem encodeContinuation_eq : encodeContinuation rounds number = groupsOf rounds number := by
  induction rounds generalizing number with
  | zero => rw [encodeContinuation, groupsOf, low_bits]
  | succ rounds ih =>
    have hor : number % 128 ||| 0x80 = 128 + number % 128 := by
      rw [Nat.or_comm]
      exact or_low_bits (show 128 % 2 ^ 7 = 0 from rfl) (Nat.mod_lt _ (by decide))
    rw [encodeContinuation, groupsOf, low_bits, hor, Nat.shiftRight_eq_div_pow, ih]
    split
    · rw [if_neg (by omega)]
    · rw [if_pos (by omega), Nat.mod_eq_of_lt (by omega)]

theorem encodeInteger_eq (output : Octets) (flags : UInt8) (value prefixBits : Nat)
    (hz : flags.toNat % 2 ^ prefixBits = 0) :
    encodeInteger (output ++ [flags]) value prefixBits =
      output ++ integer flags value prefixBits := by
  have hp : 0 < 2 ^ prefixBits := Nat.two_pow_pos _
  simp only [encodeInteger, integer, encodeContinuation_eq, mask_eq,
    List.dropLast_concat, List.getLastD_concat]
  split
  · rw [or_low_bits hz (by omega)]
  · rw [or_low_bits hz (by omega)]
    simp

theorem first_octet (flags : UInt8) (v prefixBits : Nat) (hp : prefixBits ≤ 8)
    (hz : flags.toNat % 2 ^ prefixBits = 0) (hv : v < 2 ^ prefixBits) :
    (UInt8.ofNat (flags.toNat + v)).toNat = flags.toNat + v := by
  have hf := flags.toNat_lt
  obtain ⟨q, hq⟩ := Nat.dvd_of_mod_eq_zero hz
  have h256 : 2 ^ 8 = 2 ^ prefixBits * 2 ^ (8 - prefixBits) := by
    rw [← Nat.pow_add]
    congr 1
    omega
  have hlt : q < 2 ^ (8 - prefixBits) := by
    rw [hq, h256] at hf
    exact Nat.lt_of_mul_lt_mul_left hf
  have hle : 2 ^ prefixBits * (q + 1) ≤ 2 ^ prefixBits * 2 ^ (8 - prefixBits) :=
    Nat.mul_le_mul_left _ hlt
  rw [← h256, Nat.mul_add, ← hq] at hle
  rw [UInt8.toNat_ofNat']
  omega

/-- `ReadDecodedInteger` inverts `EncodeInteger` on every 32-bit value. -/
theorem read_integer (flags : UInt8) (value prefixBits : Nat) (rest : Octets)
    (hp : 0 < prefixBits ∧ prefixBits ≤ 8) (hz : flags.toNat % 2 ^ prefixBits = 0)
    (hv : value < 2 ^ 32) :
    readDecodedInteger (integer flags value prefixBits ++ rest) prefixBits =
      .ok (value, rest) := by
  have hpos : 0 < 2 ^ prefixBits := Nat.two_pow_pos _
  have hr : ∀ v < 2 ^ prefixBits, (UInt8.ofNat (flags.toNat + v)).toNat % 2 ^ prefixBits = v := by
    intro v hlt
    rw [first_octet flags v prefixBits hp.2 hz hlt, Nat.add_mod, hz, Nat.zero_add, Nat.mod_mod,
      Nat.mod_eq_of_lt hlt]
  have hc := continued_groupsOf rest (by decide : 4 ≤ 5)
    (show value - (2 ^ prefixBits - 1) < 128 ^ (4 + 1) by omega)
  rw [readDecodedInteger_iff]
  refine ⟨value, ?_, ?_, (Nat.mod_eq_of_lt hv).symm⟩
  · unfold integer
    by_cases hs : value < 2 ^ prefixBits - 1
    · rw [if_pos hs, List.singleton_append, integerAt]
      simp only [hr value (by omega), hs, if_true]
    · rw [if_neg hs, List.cons_append, integerAt, hr _ (by omega), hc.1]
      simp only [Nat.lt_irrefl, if_false, Option.map_some]
      rw [Nat.add_sub_cancel' (Nat.le_of_not_lt hs)]
  · unfold integer
    split
    · simp
    · have := hc.2
      simp only [List.cons_append, List.length_cons, List.length_append]
      omega

theorem integer_ne_nil : integer flags value prefixBits ≠ [] := by
  unfold integer
  split <;> simp

theorem integer_head (flags : UInt8) (value prefixBits : Nat) (hp : prefixBits ≤ 8)
    (hz : flags.toNat % 2 ^ prefixBits = 0) :
    ∃ b tail, integer flags value prefixBits = b :: tail ∧
      flags.toNat ≤ b.toNat ∧ b.toNat < flags.toNat + 2 ^ prefixBits := by
  have hpos : 0 < 2 ^ prefixBits := Nat.two_pow_pos _
  unfold integer
  split
  · refine ⟨_, [], rfl, ?_⟩
    rw [first_octet flags value prefixBits hp hz (by omega)]
    omega
  · refine ⟨_, _, rfl, ?_⟩
    rw [first_octet flags _ prefixBits hp hz (by omega)]
    omega

/-- What is written behind any octets is read back, and the flag bits stay as they are. -/
theorem integer_round_trip (output : Octets) (flags : UInt8) (value prefixBits : Nat)
    (rest : Octets) (hbits : 1 ≤ prefixBits ∧ prefixBits ≤ 8)
    (hflags : flags.toNat % 2 ^ prefixBits = 0) (hvalue : value < 2 ^ 32) :
    ∃ first written, encodeInteger (output ++ [flags]) value prefixBits = output ++ first :: written ∧
      readDecodedInteger (first :: written ++ rest) prefixBits = .ok (value, rest) ∧
      first.toNat / 2 ^ prefixBits = flags.toNat / 2 ^ prefixBits := by
  have hread := read_integer flags value prefixBits rest hbits hflags hvalue
  obtain ⟨first, written, hoctets, hlow, hhigh⟩ := integer_head flags value prefixBits hbits.2 hflags
  refine ⟨first, written, ?_, hoctets ▸ hread, ?_⟩
  · rw [encodeInteger_eq output flags value prefixBits hflags, hoctets]
  · obtain ⟨q, hq⟩ := Nat.dvd_of_mod_eq_zero hflags
    rw [hq] at hlow hhigh ⊢
    rw [Nat.mul_div_cancel_left _ (Nat.two_pow_pos _)]
    refine Nat.div_eq_of_lt_le ?_ ?_
    · rwa [Nat.mul_comm]
    · rwa [Nat.add_mul, Nat.one_mul, Nat.mul_comm]

/-- The largest value behind the flag of an indexed field. -/
theorem integer_round_trip_largest : ∃ first written,
    encodeInteger [1, 0x80] (2 ^ 32 - 1) 7 = [1] ++ first :: written ∧
      readDecodedInteger (first :: written ++ [5]) 7 = .ok (2 ^ 32 - 1, [5]) ∧
      first.toNat / 2 ^ 7 = (0x80 : UInt8).toNat / 2 ^ 7 :=
  integer_round_trip [1] 0x80 (2 ^ 32 - 1) 7 [5] (by decide) (by decide) (by decide)

end IocpRuntime.Proofs.HpackInteger
