import IocpRuntime.Buffer.Sequence
import IocpRuntime.Lib.Circular

namespace IocpRuntime.Buffer
open Lib

inductive BufferStatus where
  | ready | limitExceeded
  deriving DecidableEq, Repr

inductive Reply where
  | status (status : BufferStatus)
  | done
  | thrown (error : Thrown)
  deriving DecidableEq, Repr

namespace Reply

variable {β : Type}

/-- A call that throws leaves the buffer as it was. -/
def ofStatus (buffer : β) : Except Thrown (BufferStatus × β) → Reply × β
  | .ok (outcome, next) => (.status outcome, next)
  | .error error => (.thrown error, buffer)

def ofDone (buffer : β) : Except Thrown β → Reply × β
  | .ok next => (.done, next)
  | .error error => (.thrown error, buffer)

variable {buffer : β} {error : Thrown}

theorem ofStatus_thrown
    (h : (ofStatus buffer result).1 = .thrown error) : (ofStatus buffer result).2 = buffer := by
  cases result with
  | error error => rfl
  | ok outcome => cases h

theorem ofDone_thrown (h : (ofDone buffer result).1 = .thrown error) :
    (ofDone buffer result).2 = buffer := by
  cases result with
  | error error => rfl
  | ok outcome => cases h

theorem ofDone_ne_status (buffer : β) (result : Except Thrown β) (status : BufferStatus) :
    (ofDone buffer result).1 ≠ .status status := by
  cases result <;> exact nofun

end Reply

/-- A view into a storage: where it starts and how long it is. -/
structure Span where
  offset : Nat
  length : Nat
  deriving DecidableEq, Repr

namespace Span

def read (storage : Octets) (s : Span) : Octets := (storage.drop s.offset).take s.length

def Holds (s : Span) (place : Nat) : Prop := s.offset ≤ place ∧ place < s.offset + s.length

def add (segments : List Span) (segment : Span) : List Span :=
  if segment.length = 0 then segments else segments ++ [segment]

theorem add_length (segments : List Span) (segment : Span) :
    (add segments segment).length ≤ segments.length + 1 := by
  unfold add
  split <;> simp

theorem mem_add {first second segment : Span} (h : segment ∈ add (add [] first) second) :
    segment = first ∨ segment = second := by
  unfold add at h
  split at h <;> split at h <;> simp_all

theorem add_eq (segment : Span) : add segments segment = segments ++ add [] segment := by
  unfold add
  split <;> simp

theorem read_add (segment : Span) :
    (add [] segment).flatMap (read storage) = segment.read storage := by
  unfold add
  split
  · rename_i he
    simp [read, he]
  · simp

theorem length_add (segment : Span) : ((add [] segment).map length).sum = segment.length := by
  unfold add
  split
  · rename_i he
    simp [he]
  · simp

end Span

/-- At most two writable views of one storage. -/
structure MutableBufferSequence where
  segments : List Span
  two : segments.length ≤ 2

namespace MutableBufferSequence

def ofViews (first second : Span) : MutableBufferSequence where
  segments := Span.add (Span.add [] first) second
  two := by
    have hfirst := Span.add_length [] first
    have hsecond := Span.add_length (Span.add [] first) second
    simp only [List.length_nil] at hfirst
    omega

theorem segments_ofViews :
    (ofViews first second).segments = Span.add [] first ++ Span.add [] second := Span.add_eq _

def size (s : MutableBufferSequence) : Nat := (s.segments.map Span.length).sum

/-- The `memcpy` loop over the views, while there is something left to copy. -/
def copyLoop : List Span → Octets → Octets → Octets
  | [], storage, _ => storage
  | segment :: rest, storage, source =>
    if source = [] then storage
    else
      let bytes := min segment.length source.length
      copyLoop rest (Circular.overwrite storage segment.offset (source.take bytes)) (source.drop bytes)

theorem copyLoop_nil (segments : List Span) (storage : Octets) :
    copyLoop segments storage [] = storage := by
  cases segments <;> simp [copyLoop]

theorem copyLoop_add (segment : Span) :
    copyLoop (Span.add [] segment ++ rest) storage source =
      copyLoop rest (Circular.overwrite storage segment.offset
        (source.take (min segment.length source.length)))
        (source.drop (min segment.length source.length)) := by
  unfold Span.add
  split
  · rename_i he
    simp [he]
  · rw [List.nil_append, List.singleton_append, copyLoop]
    split
    · rename_i hn
      simp [hn, copyLoop_nil]
    · rfl

/-- What `CopyFrom` makes of the storage. -/
def copyFrom (s : MutableBufferSequence) (storage source : Octets) : Except Thrown Octets :=
  if source.length > s.size then
    .error (.outOfRange "MutableBufferSequence copy가 writable byte를 넘습니다")
  else .ok (copyLoop s.segments storage source)

end MutableBufferSequence

/-- A bounded ring. No vector is larger than `PTRDIFF_MAX` octets. -/
structure RingReceiveBuffer where
  storage : Octets
  maximumCapacity : UInt64
  readOffset : Nat := 0
  readableBytes : Nat := 0
  within : readOffset < storage.length
  stored : readableBytes ≤ storage.length
  limited : storage.length ≤ maximumCapacity.toNat
  addressable : storage.length < 2 ^ 63

/-- The loop of `EnsureWritable`: the capacity doubles until it suffices or would pass the limit. -/
def nextCapacity (maximum required : Nat) : Nat → Nat → Nat
  | 0, next => next
  | rounds + 1, next =>
    if next < required then
      if next > maximum / 2 then maximum else nextCapacity maximum required rounds (next * 2)
    else next

theorem nextCapacity_le (h : next ≤ maximum) :
    nextCapacity maximum required rounds next ≤ maximum := by
  induction rounds generalizing next with
  | zero => exact h
  | succ rounds ih =>
    unfold nextCapacity
    split
    · split
      · exact Nat.le_refl _
      · exact ih (by omega)
    · exact h

theorem le_nextCapacity (h : next ≤ maximum) :
    next ≤ nextCapacity maximum required rounds next := by
  induction rounds generalizing next with
  | zero => exact Nat.le_refl _
  | succ rounds ih =>
    unfold nextCapacity
    split
    · split
      · exact h
      · exact Nat.le_trans (by omega) (ih (by omega))
    · exact Nat.le_refl _

namespace RingReceiveBuffer

def create (initialCapacity maximumCapacity : UInt64) : Except Thrown RingReceiveBuffer :=
  if hsize : initialCapacity.toNat ≥ 2 ^ 63 then
    .error (.lengthError "cannot create std::vector larger than max_size()")
  else if hzero : initialCapacity.toNat = 0 then
    .error (.invalidArgument "ring receive buffer 초기 용량은 1 이상이어야 합니다")
  else if hlimit : initialCapacity.toNat > maximumCapacity.toNat then
    .error (.invalidArgument "ring receive buffer 초기 용량은 최대 용량 이하여야 합니다")
  else .ok {
    storage := List.replicate initialCapacity.toNat 0
    maximumCapacity := maximumCapacity
    within := by
      rw [List.length_replicate]
      omega
    stored := Nat.zero_le _
    limited := by
      rw [List.length_replicate]
      omega
    addressable := by
      rw [List.length_replicate]
      omega }

variable (r : RingReceiveBuffer)

def readableSequence : BufferSequence :=
  if r.readableBytes = 0 then ⟨[], Nat.zero_le _, Nat.two_pow_pos 63⟩
  else
    let firstBytes := min r.readableBytes (r.storage.length - r.readOffset)
    let secondBytes := r.readableBytes - firstBytes
    BufferSequence.ofViews ((r.storage.drop r.readOffset).take firstBytes)
      (r.storage.take secondBytes) (by
        have hstored := r.stored
        have haddressable := r.addressable
        rw [List.length_take, List.length_take]
        omega)

def contents : Octets := Circular.window r.storage r.readOffset r.readableBytes

theorem length_contents : r.contents.length = r.readableBytes := Circular.length_window r.stored

theorem bytes_readableSequence : r.readableSequence.bytes = r.contents := by
  unfold readableSequence contents
  split
  · rename_i he
    rw [he]
    rfl
  · rw [BufferSequence.bytes_ofViews, Circular.window_split (Nat.le_of_lt r.within) r.stored]

def writableBytes : Nat := r.storage.length - r.readableBytes

theorem writableBytes_le : r.writableBytes ≤ r.storage.length := Nat.sub_le _ _

def writeOffset : Nat := (r.readOffset + r.readableBytes) % r.storage.length

/-- The readable octets move to the start of another vector. -/
def grow (capacity : Nat) (hroom : r.readableBytes ≤ capacity) (hpos : 0 < capacity)
    (hlimit : capacity ≤ r.maximumCapacity.toNat) : Except Thrown RingReceiveBuffer :=
  if hsize : capacity ≥ 2 ^ 63 then
    .error (.lengthError "cannot create std::vector larger than max_size()")
  else
    have hlength : (r.readableSequence.bytes ++
        List.replicate (capacity - r.readableBytes) (0 : UInt8)).length = capacity := by
      rw [List.length_append, bytes_readableSequence, length_contents, List.length_replicate]
      omega
    .ok { r with
      storage := r.readableSequence.bytes ++ List.replicate (capacity - r.readableBytes) 0
      readOffset := 0
      within := Nat.lt_of_lt_of_eq hpos hlength.symm
      stored := Nat.le_trans hroom hlength.ge
      limited := Nat.le_trans hlength.le hlimit
      addressable := Nat.lt_of_le_of_lt hlength.le (Nat.lt_of_not_le hsize) }

def ensureWritable (minimumBytes : Nat) : Except Thrown (BufferStatus × RingReceiveBuffer) :=
  if hwritable : minimumBytes ≤ r.writableBytes then .ok (.ready, r)
  else if hlimit : minimumBytes > r.maximumCapacity.toNat - r.readableBytes then
    .ok (.limitExceeded, r)
  else
    let requiredCapacity := r.readableBytes + minimumBytes
    let next := nextCapacity r.maximumCapacity.toNat requiredCapacity requiredCapacity r.storage.length
    have hrequired : 0 < requiredCapacity := by
      simp only [writableBytes, Nat.not_le] at hwritable
      omega
    have hmaximum : requiredCapacity ≤ r.maximumCapacity.toNat := by
      have hstored := r.stored
      have hlimited := r.limited
      omega
    (r.grow (max next requiredCapacity)
      (Nat.le_trans (Nat.le_add_right _ _) (Nat.le_max_right _ _))
      (Nat.lt_of_lt_of_le hrequired (Nat.le_max_right _ _))
      (Nat.max_le.mpr ⟨nextCapacity_le r.limited, hmaximum⟩)).map (fun r => (.ready, r))

/-- `WritableSequence().CopyFrom(bytes)`: at most two `memcpy`s. -/
def copyFrom (bytes : Octets) : Octets :=
  let firstBytes := min r.writableBytes (r.storage.length - r.writeOffset)
  let copied := min firstBytes bytes.length
  Circular.overwrite (Circular.overwrite r.storage r.writeOffset (bytes.take copied)) 0
    (bytes.drop copied)

theorem writeOffset_lt : r.writeOffset < r.storage.length :=
  Nat.mod_lt _ (Nat.lt_of_le_of_lt (Nat.zero_le _) r.within)

theorem length_copyFrom (h : bytes.length ≤ r.writableBytes) :
    (r.copyFrom bytes).length = r.storage.length := by
  have ho := r.writeOffset_lt
  have hf : r.writeOffset + (bytes.take (min (min r.writableBytes
      (r.storage.length - r.writeOffset)) bytes.length)).length ≤ r.storage.length := by
    rw [List.length_take]
    omega
  unfold copyFrom
  rw [Circular.length_overwrite, Circular.length_overwrite hf]
  rw [Circular.length_overwrite hf, List.length_drop]
  simp only [writableBytes] at h
  omega

def writableSequence : MutableBufferSequence :=
  if r.writableBytes = 0 then ⟨[], Nat.zero_le _⟩
  else
    let firstBytes := min r.writableBytes (r.storage.length - r.writeOffset)
    let secondBytes := r.writableBytes - firstBytes
    .ofViews ⟨r.writeOffset, firstBytes⟩ ⟨0, secondBytes⟩

theorem size_writableSequence : r.writableSequence.size = r.writableBytes := by
  unfold writableSequence
  split
  · rename_i hf
    rw [hf]
    rfl
  · rw [MutableBufferSequence.size, MutableBufferSequence.segments_ofViews, List.map_append,
      List.sum_append, Span.length_add, Span.length_add]
    dsimp only
    omega

/-- The copy into the writable views is the one in at most two pieces. -/
theorem copyFrom_writableSequence (h : bytes.length ≤ r.writableBytes) :
    r.writableSequence.copyFrom r.storage bytes = .ok (r.copyFrom bytes) := by
  rw [MutableBufferSequence.copyFrom, if_neg (by rw [size_writableSequence]; omega)]
  congr 1
  have ho := r.writeOffset_lt
  unfold writableSequence copyFrom
  split
  · rename_i hf
    have hn : bytes = [] := List.eq_nil_of_length_eq_zero (by omega)
    simp [MutableBufferSequence.copyLoop, hn]
  · rw [MutableBufferSequence.segments_ofViews, MutableBufferSequence.copyLoop_add,
      ← List.append_nil (Span.add [] _), MutableBufferSequence.copyLoop_add,
      MutableBufferSequence.copyLoop]
    dsimp only
    congr 1
    apply List.take_of_length_le
    rw [List.length_drop]
    omega

def write (bytes : Octets) (h : bytes.length ≤ r.writableBytes) : RingReceiveBuffer where
  storage := r.copyFrom bytes
  maximumCapacity := r.maximumCapacity
  readOffset := r.readOffset
  readableBytes := r.readableBytes + bytes.length
  within := r.length_copyFrom h ▸ r.within
  stored := by
    rw [r.length_copyFrom h]
    have hstored := r.stored
    simp only [writableBytes] at h
    omega
  limited := r.length_copyFrom h ▸ r.limited
  addressable := r.length_copyFrom h ▸ r.addressable

def append (bytes : Octets) : Except Thrown (BufferStatus × RingReceiveBuffer) :=
  match r.ensureWritable bytes.length with
  | .error e => .error e
  | .ok (.limitExceeded, r) => .ok (.limitExceeded, r)
  | .ok (.ready, r) =>
    if h : bytes.length ≤ r.writableBytes then .ok (.ready, r.write bytes h)
    else .error (.outOfRange "MutableBufferSequence copy가 writable byte를 넘습니다")

def consume (bytes : Nat) : Except Thrown RingReceiveBuffer :=
  if bytes > r.readableBytes then
    .error (.outOfRange "ring receive buffer readable 영역보다 많이 consume할 수 없습니다")
  else if bytes = r.readableBytes then
    .ok { r with
      readOffset := 0
      readableBytes := 0
      within := Nat.lt_of_le_of_lt (Nat.zero_le _) r.within
      stored := Nat.zero_le _ }
  else .ok { r with
    readOffset := (r.readOffset + bytes) % r.storage.length
    readableBytes := r.readableBytes - bytes
    within := Nat.mod_lt _ (Nat.lt_of_le_of_lt (Nat.zero_le _) r.within)
    stored := Nat.le_trans (Nat.sub_le _ _) r.stored }

theorem length_copied {bytes storage : Octets}
    (h : r.writableSequence.copyFrom r.storage bytes = .ok storage) :
    storage.length = r.storage.length := by
  rcases Nat.lt_or_ge r.writableBytes bytes.length with hl | hf
  · rw [MutableBufferSequence.copyFrom, if_pos (by rw [size_writableSequence]; exact hl)] at h
    cases h
  · rw [copyFrom_writableSequence r hf] at h
    cases h
    exact r.length_copyFrom hf

/-- `WritableSequence().CopyFrom(bytes)`, without a `Commit`. -/
def fill (bytes : Octets) : Except Thrown RingReceiveBuffer :=
  match h : r.writableSequence.copyFrom r.storage bytes with
  | .error e => .error e
  | .ok storage => .ok { r with
    storage := storage
    within := r.length_copied h ▸ r.within
    stored := r.length_copied h ▸ r.stored
    limited := r.length_copied h ▸ r.limited
    addressable := r.length_copied h ▸ r.addressable }

def commit (bytes : Nat) : Except Thrown RingReceiveBuffer :=
  if h : bytes > r.writableBytes then
    .error (.outOfRange "ring receive buffer writable 영역보다 많이 commit할 수 없습니다")
  else .ok { r with
    readableBytes := r.readableBytes + bytes
    stored := by
      have hstored := r.stored
      unfold writableBytes at h
      omega }

def clear : RingReceiveBuffer := { r with
  readOffset := 0
  readableBytes := 0
  within := Nat.lt_of_le_of_lt (Nat.zero_le _) r.within
  stored := Nat.zero_le _ }

inductive Operation where
  | append (bytes : Octets)
  | ensureWritable (minimumBytes : Nat)
  | fill (bytes : Octets)
  | commit (bytes : Nat)
  | consume (bytes : Nat)
  | clear
  deriving DecidableEq, Repr

def perform : Operation → Reply × RingReceiveBuffer
  | .append bytes => Reply.ofStatus r (r.append bytes)
  | .ensureWritable minimumBytes => Reply.ofStatus r (r.ensureWritable minimumBytes)
  | .fill bytes => Reply.ofDone r (r.fill bytes)
  | .commit bytes => Reply.ofDone r (r.commit bytes)
  | .consume bytes => Reply.ofDone r (r.consume bytes)
  | .clear => (.done, r.clear)

def readableSpans : List Span :=
  if r.readableBytes = 0 then []
  else
    let firstBytes := min r.readableBytes (r.storage.length - r.readOffset)
    let secondBytes := r.readableBytes - firstBytes
    Span.add (Span.add [] ⟨r.readOffset, firstBytes⟩) ⟨0, secondBytes⟩

def writableOctets : Octets := r.writableSequence.segments.flatMap (Span.read r.storage)

end RingReceiveBuffer

end IocpRuntime.Buffer
