import Mathlib.Data.Nat.Bitwise
import Mathlib.Data.List.Basic
import Mathlib.Tactic.Ring

namespace IocpRuntime.Lib

/-- A byte string. Texts, wire images and bodies are all octet lists. -/
abbrev Octets := List UInt8

/-- The octets of an ASCII text. -/
def octets (text : String) : Octets := text.toList.map (fun c => UInt8.ofNat c.toNat)

theorem forall_octets [DecidablePred p] {s : Octets}
    (h : s.all (fun c => decide (p c)) = true) : ∀ c ∈ s, p c := by
  simpa using h

/-- A sequence of fallible steps that succeeds does so at each of them. -/
theorem bind_ok {ε α β : Type} {x : Except ε α} {f : α → Except ε β} {b : β}
    (h : (x >>= f) = .ok b) : ∃ a, x = .ok a ∧ f a = .ok b := by
  cases x with
  | error _ => cases h
  | ok a => exact ⟨a, rfl, h⟩

def find (s : Octets) (c : UInt8) (start : Nat := 0) : Option Nat :=
  ((s.drop start).findIdx? (· == c)).map (· + start)

def slice (s : Octets) (start stop : Nat) : Octets := (s.drop start).take (stop - start)

theorem slice_length (s : Octets) (start stop : Nat) (h : stop ≤ s.length) :
    (slice s start stop).length = stop - start := by
  simp only [slice, List.length_take, List.length_drop]
  omega

theorem slice_append (s : Octets) (i j k : Nat) (hij : i ≤ j) (hjk : j ≤ k) :
    slice s i j ++ slice s j k = slice s i k := by
  have hk : k - i = (j - i) + (k - j) := by omega
  have hd : s.drop j = (s.drop i).drop (j - i) := by
    rw [List.drop_drop]
    congr 1
    omega
  simp only [slice]
  rw [hk, List.take_add, hd]

/-- A slice inside a prefix is the same slice of every extension. -/
theorem slice_extend (hp : u <+: w) (hj : j ≤ u.length) : slice w i j = slice u i j := by
  obtain ⟨v, rfl⟩ := hp
  simp only [slice]
  by_cases hi : i ≤ u.length
  · rw [List.drop_append_of_le_length hi, List.take_append_of_le_length]
    simp only [List.length_drop]
    omega
  · have hz : j - i = 0 := by omega
    simp [hz]

/-- Disjoint bit ranges: or-ing a low part below a shifted word is addition. -/
theorem mul_two_pow_or (h : b < 2 ^ k) : a * 2 ^ k ||| b = a * 2 ^ k + b := by
  rw [Nat.mul_comm, ← Nat.two_pow_add_eq_or_of_lt h]

/-- A word assembled from four octets, most significant first. -/
def bigEndian (b0 b1 b2 b3 : UInt8) : UInt32 :=
  (b0.toUInt32 <<< 24) ||| (b1.toUInt32 <<< 16) ||| (b2.toUInt32 <<< 8) ||| b3.toUInt32

theorem bigEndian_toNat : (bigEndian b0 b1 b2 b3).toNat =
      b0.toNat * 2 ^ 24 + b1.toNat * 2 ^ 16 + b2.toNat * 2 ^ 8 + b3.toNat := by
  have h0 := b0.toNat_lt
  have h1 := b1.toNat_lt
  have h2 := b2.toNat_lt
  have h3 := b3.toNat_lt
  have hs0 : (b0.toUInt32 <<< 24).toNat = b0.toNat * 2 ^ 24 := by
    simp [Nat.shiftLeft_eq]
    omega
  have hs1 : (b1.toUInt32 <<< 16).toNat = b1.toNat * 2 ^ 16 := by
    simp [Nat.shiftLeft_eq]
    omega
  have hs2 : (b2.toUInt32 <<< 8).toNat = b2.toNat * 2 ^ 8 := by
    simp [Nat.shiftLeft_eq]
    omega
  have e1 : b0.toNat * 2 ^ 24 + b1.toNat * 2 ^ 16 = (b0.toNat * 2 ^ 8 + b1.toNat) * 2 ^ 16 := by
    ring
  have e2 : (b0.toNat * 2 ^ 8 + b1.toNat) * 2 ^ 16 + b2.toNat * 2 ^ 8 =
      ((b0.toNat * 2 ^ 8 + b1.toNat) * 2 ^ 8 + b2.toNat) * 2 ^ 8 := by
    ring
  simp only [bigEndian, UInt32.toNat_or, UInt8.toNat_toUInt32, hs0, hs1, hs2]
  rw [mul_two_pow_or (by omega), e1, mul_two_pow_or (by omega), e2, mul_two_pow_or (by omega)]

/-- The octet of a word at bit offset `k`, as the shift-and-mask expressions compute it. -/
theorem octet_toNat (x k : UInt32) (hk : k.toNat < 32) :
    ((x >>> k) &&& 0xff).toUInt8.toNat = x.toNat / 2 ^ k.toNat % 256 := by
  have hm : ((x >>> k) &&& 0xff).toNat = x.toNat / 2 ^ k.toNat % 256 := by
    rw [UInt32.toNat_and, UInt32.toNat_shiftRight, Nat.mod_eq_of_lt hk, Nat.shiftRight_eq_div_pow]
    exact Nat.and_two_pow_sub_one_eq_mod _ 8
  rw [UInt32.toNat_toUInt8, hm]
  omega

theorem bigEndian_written (value : UInt32) :
    bigEndian ((value >>> 24) &&& 0xff).toUInt8 ((value >>> 16) &&& 0xff).toUInt8
      ((value >>> 8) &&& 0xff).toUInt8 (value &&& 0xff).toUInt8 = value := by
  have hl : (value &&& 0xff).toUInt8.toNat = value.toNat / 2 ^ 0 % 256 := by
    have h0 := octet_toNat value 0 (by decide)
    rwa [UInt32.shiftRight_zero] at h0
  have hv := value.toNat_lt
  apply UInt32.toNat_inj.mp
  rw [bigEndian_toNat, octet_toNat value 24 (by decide), octet_toNat value 16 (by decide),
    octet_toNat value 8 (by decide), hl]
  have h24 : (24 : UInt32).toNat = 24 := rfl
  have h16 : (16 : UInt32).toNat = 16 := rfl
  have h8 : (8 : UInt32).toNat = 8 := rfl
  rw [h24, h16, h8]
  omega

end IocpRuntime.Lib
