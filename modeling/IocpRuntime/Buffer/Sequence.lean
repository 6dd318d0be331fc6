import IocpRuntime.Lib.Octets

namespace IocpRuntime.Buffer
open Lib

/-- The standard exceptions the modelled code raises, with their messages. -/
inductive Thrown where
  | invalidArgument (what : String)
  | outOfRange (what : String)
  | lengthError (what : String)
  | runtimeError (what : String)
  | logicError (what : String)
  deriving DecidableEq, Repr

/-- At most two spans read as one sequence. No object is larger than `PTRDIFF_MAX` octets. -/
structure BufferSequence where
  segments : List Octets
  two : segments.length ≤ 2
  addressable : segments.flatten.length < 2 ^ 63

namespace BufferSequence

def add (segments : List Octets) (segment : Octets) : List Octets :=
  if segment = [] then segments else segments ++ [segment]

theorem add_length (segments : List Octets) (segment : Octets) :
    (add segments segment).length ≤ segments.length + 1 := by
  unfold add
  split <;> simp

theorem add_flatten (segments : List Octets) (segment : Octets) :
    (add segments segment).flatten = segments.flatten ++ segment := by
  unfold add
  split <;> simp_all

def ofViews (first second : Octets) (h : first.length + second.length < 2 ^ 63) :
    BufferSequence where
  segments := add (add [] first) second
  two := by
    have h1 := add_length [] first
    have h2 := add_length (add [] first) second
    simp only [List.length_nil] at h1
    omega
  addressable := by
    simp only [add_flatten, List.flatten_nil, List.nil_append, List.length_append]
    exact h

/-- The logical content: the spans joined. -/
def bytes (s : BufferSequence) : Octets := s.segments.flatten

def size (s : BufferSequence) : Nat := (s.segments.map List.length).sum

/-- `segments_` is a fixed array of two views; an unused slot is the empty view. -/
def segment (s : BufferSequence) (index : Nat) : Octets := s.segments.getD index []

def byteAt (s : BufferSequence) (index : Nat) : Except Thrown UInt8 :=
  if index ≥ s.size then
    .error (.outOfRange "BufferSequence byte index가 범위를 벗어났습니다")
  else if index < (s.segment 0).length then
    .ok ((s.segment 0).getD index 0)
  else
    .ok ((s.segment 1).getD (index - (s.segment 0).length) 0)

/-- The copy loop over the spans: `wanted` octets from `sourceOffset` on. -/
def copyLoop : List Octets → Nat → Nat → Octets
  | [], _, _ => []
  | seg :: rest, sourceOffset, wanted =>
    if wanted = 0 then []
    else if sourceOffset ≥ seg.length then copyLoop rest (sourceOffset - seg.length) wanted
    else
      let count := min (seg.length - sourceOffset) wanted
      (seg.drop sourceOffset).take count ++ copyLoop rest 0 (wanted - count)

/-- The octets `CopyTo` writes into a destination of `count` octets. -/
def copyTo (s : BufferSequence) (offset count : Nat) : Except Thrown Octets :=
  if offset > s.size ∨ count > s.size - offset then
    .error (.outOfRange "BufferSequence copy 범위가 readable byte를 넘습니다")
  else
    .ok (copyLoop s.segments offset count)

@[simp] theorem size_eq (s : BufferSequence) : s.size = s.bytes.length := by
  simp [size, bytes, List.length_flatten]

theorem bytes_lt (s : BufferSequence) : s.bytes.length < 2 ^ 63 := s.addressable

@[simp] theorem bytes_ofViews
    (h : first.length + second.length < 2 ^ 63) :
    (ofViews first second h).bytes = first ++ second := by
  simp [bytes, ofViews, add_flatten]

/-- Below the size, `At` is plain indexing of the logical content. -/
theorem byteAt_eq (s : BufferSequence) (index : Nat) (h : index < s.bytes.length) :
    s.byteAt index = .ok s.bytes[index] := by
  have hs : ¬ index ≥ s.size := by rw [size_eq]; omega
  obtain ⟨segments, two, addressable⟩ := s
  simp only [byteAt, hs, if_false, segment]
  match segments, two with
  | [], _ => simp [bytes] at h
  | [a], _ =>
    have hi : index < a.length := by simpa [bytes] using h
    simp [hi, bytes]
  | [a, b], _ =>
    simp only [bytes, List.flatten_cons, List.flatten_nil, List.append_nil,
      List.length_append] at h
    by_cases hi : index < a.length
    · simp [hi, bytes, List.getElem_append_left]
    · have hb : index - a.length < b.length := by omega
      simp [hi, hb, bytes, List.getElem_append_right (Nat.le_of_not_lt hi)]

theorem copyLoop_eq (segments : List Octets) (offset count : Nat) :
    copyLoop segments offset count = (segments.flatten.drop offset).take count := by
  induction segments generalizing offset count with
  | nil => simp [copyLoop]
  | cons seg rest ih =>
    unfold copyLoop
    by_cases hz : count = 0
    · simp [hz]
    rw [if_neg hz, List.flatten_cons]
    split
    · rename_i hge
      rw [ih, List.drop_append, List.drop_eq_nil_of_le hge, List.nil_append]
    · rename_i hlt
      have hle : offset ≤ seg.length := by omega
      dsimp only
      rw [ih, List.drop_zero, List.drop_append_of_le_length hle, List.take_append,
        List.length_drop]
      rcases Nat.le_total (seg.length - offset) count with h | h
      · have hmin : min (seg.length - offset) count = seg.length - offset := by omega
        have hf : (seg.drop offset).take count = seg.drop offset :=
          List.take_of_length_le (by simpa using h)
        have hp : (seg.drop offset).take (seg.length - offset) = seg.drop offset :=
          List.take_of_length_le (by simp)
        simp only [hmin, hf, hp]
      · have hmin : min (seg.length - offset) count = count := by omega
        have hr : count - (seg.length - offset) = 0 := by omega
        simp [hmin, hr]

theorem copyTo_eq (s : BufferSequence) (offset count : Nat) (h : offset + count ≤ s.bytes.length) :
    s.copyTo offset count = .ok (slice s.bytes offset (offset + count)) := by
  have hs : ¬ (offset > s.size ∨ count > s.size - offset) := by rw [size_eq]; omega
  rw [copyTo, if_neg hs, copyLoop_eq]
  simp [slice, bytes]

theorem copyTo_outside (s : BufferSequence) (offset count : Nat)
    (h : s.bytes.length < offset + count) : s.copyTo offset count =
      .error (.outOfRange "BufferSequence copy 범위가 readable byte를 넘습니다") := by
  have hs : offset > s.size ∨ count > s.size - offset := by rw [size_eq]; omega
  rw [copyTo, if_pos hs]

/-- What the readable sequence of a receive buffer is after `Consume(count)`. -/
def consume (s : BufferSequence) (count : Nat) : BufferSequence where
  segments := add [] (s.bytes.drop count)
  two := Nat.le_trans (add_length _ _) (by decide)
  addressable := by
    have h := s.bytes_lt
    simp only [add_flatten, List.flatten_nil, List.nil_append, List.length_drop]
    omega

@[simp] theorem bytes_consume (s : BufferSequence) (count : Nat) :
    (s.consume count).bytes = s.bytes.drop count := by
  simp [bytes, consume, add_flatten]

end BufferSequence

end IocpRuntime.Buffer
