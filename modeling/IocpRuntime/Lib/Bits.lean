import IocpRuntime.Lib.Octets

/-! Bit strings of numbers, most significant bit first, and the bit string a
list of octets spells. -/

namespace IocpRuntime.Lib.Bits

/-- The `count` low bits of `x`, most significant first. -/
def msb (x : Nat) : Nat → List Bool
  | 0 => []
  | count + 1 => x.testBit count :: msb x count

@[simp] theorem msb_zero : msb x 0 = [] := rfl

@[simp] theorem msb_length : (msb x count).length = count := by
  induction count with
  | zero => rfl
  | succ count ih => simp [msb, ih]

/-- Only the low bits matter. -/
theorem msb_congr (h : ∀ i < count, x.testBit i = y.testBit i) : msb x count = msb y count := by
  induction count with
  | zero => rfl
  | succ count ih =>
    rw [msb, msb, h count (Nat.lt_succ_self _), ih (fun i hi => h i (by omega))]

theorem testBit_of_msb (h : msb x count = msb y count) :
    ∀ i < count, x.testBit i = y.testBit i := by
  induction count with
  | zero =>
    intro i hi
    omega
  | succ count ih =>
    simp only [msb, List.cons.injEq] at h
    intro i hi
    rcases Nat.lt_succ_iff_lt_or_eq.mp hi with hlt | rfl
    · exact ih h.2 i hlt
    · exact h.1

@[simp] theorem msb_mod (h : count ≤ word) : msb (x % 2 ^ word) count = msb x count := by
  apply msb_congr
  intro i hi
  simp [Nat.testBit_mod_two_pow, Nat.lt_of_lt_of_le hi h]

/-- The high bits come first. -/
theorem msb_add : msb x (high + low) = msb (x >>> low) high ++ msb x low := by
  induction high with
  | zero => simp
  | succ high ih =>
    rw [Nat.succ_add, msb, msb, ih, Nat.testBit_shiftRight, Nat.add_comm low high, List.cons_append]

/-- Shifting a word up and or-ing a code below it writes the code behind its bits. -/
theorem msb_shift_or (x code high low : Nat) (hc : code < 2 ^ low) :
    msb (x <<< low ||| code) (high + low) = msb x high ++ msb code low := by
  rw [msb_add]
  congr 1
  · apply msb_congr
    intro i _
    have hz : code.testBit (low + i) = false :=
      Nat.testBit_lt_two_pow (Nat.lt_of_lt_of_le hc (Nat.pow_le_pow_right (by decide) (by omega)))
    simp [Nat.testBit_shiftRight, Nat.testBit_or, Nat.testBit_shiftLeft, hz]
  · apply msb_congr
    intro i hi
    simp [Nat.testBit_or, Nat.testBit_shiftLeft, Nat.not_le.mpr hi]

theorem msb_ones : msb (2 ^ count - 1) count = List.replicate count true := by
  have key : ∀ low ≤ count, msb (2 ^ count - 1) low = List.replicate low true := by
    intro low hlow
    induction low with
    | zero => rfl
    | succ low ih =>
      rw [msb, ih (by omega), List.replicate_succ, Nat.testBit_two_pow_sub_one]
      simp
      omega
  exact key count (Nat.le_refl _)

def octetBits (octet : UInt8) : List Bool := msb octet.toNat 8

@[simp] theorem octetBits_length : (octetBits octet).length = 8 := msb_length

@[simp] theorem octetBits_ofNat : octetBits (UInt8.ofNat x) = msb x 8 := by
  rw [octetBits, UInt8.toNat_ofNat']
  exact msb_mod (Nat.le_refl _)

theorem octetBits_injective (h : octetBits a = octetBits b) : a = b := by
  apply UInt8.toNat_inj.mp
  apply Nat.eq_of_testBit_eq
  intro i
  by_cases hi : i < 8
  · exact testBit_of_msb h i hi
  · have hbig : ∀ c : UInt8, c.toNat.testBit i = false := fun c =>
      Nat.testBit_lt_two_pow (Nat.lt_of_lt_of_le c.toNat_lt
        (Nat.pow_le_pow_right (by decide) (Nat.not_lt.mp hi)))
    rw [hbig, hbig]

def bits (data : Octets) : List Bool := data.flatMap octetBits

@[simp] theorem bits_nil : bits [] = [] := rfl

@[simp] theorem bits_cons : bits (octet :: data) = octetBits octet ++ bits data := List.flatMap_cons

@[simp] theorem bits_append : bits (a ++ b) = bits a ++ bits b :=
  List.flatMap_append

@[simp] theorem bits_length : (bits data).length = 8 * data.length := by
  induction data with
  | nil => rfl
  | cons octet data ih =>
    simp only [bits_cons, List.length_append, octetBits_length, ih, List.length_cons]
    omega

theorem bits_injective (h : bits a = bits b) : a = b := by
  induction a generalizing b with
  | nil =>
    have hlen := congrArg List.length h
    simp only [bits_length, List.length_nil] at hlen
    exact (List.length_eq_zero_iff.mp (by omega)).symm
  | cons x a ih =>
    cases b with
    | nil =>
      have hlen := congrArg List.length h
      simp at hlen
    | cons y b =>
      rw [bits_cons, bits_cons] at h
      obtain ⟨hh, ht⟩ := List.append_inj h (by simp)
      rw [octetBits_injective hh, ih ht]

end IocpRuntime.Lib.Bits
