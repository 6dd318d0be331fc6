import IocpRuntime.Buffer.RingReceiveBuffer

/-! The bounded linear receive buffer: octets are read at one offset and written at another,
and move to the front of the storage when its tail is too short. -/

namespace IocpRuntime.Buffer
open Lib

structure ReceiveBuffer where
  storage : Octets
  maximumCapacity : UInt64
  readOffset : Nat := 0
  writeOffset : Nat := 0
  ordered : readOffset ≤ writeOffset
  within : writeOffset ≤ storage.length
  limited : storage.length ≤ maximumCapacity.toNat
  addressable : storage.length < 2 ^ 63

namespace ReceiveBuffer

theorem fresh_within (initialCapacity : UInt64) :
    0 ≤ (List.replicate initialCapacity.toNat (0 : UInt8)).length :=
  Nat.zero_le _

theorem fresh_limited {initialCapacity maximumCapacity : UInt64}
    (h : ¬ initialCapacity.toNat > maximumCapacity.toNat) :
    (List.replicate initialCapacity.toNat (0 : UInt8)).length ≤ maximumCapacity.toNat := by
  rw [List.length_replicate]
  exact Nat.le_of_not_lt h

theorem fresh_addressable {initialCapacity : UInt64} (h : ¬ initialCapacity.toNat ≥ 2 ^ 63) :
    (List.replicate initialCapacity.toNat (0 : UInt8)).length < 2 ^ 63 := by
  rw [List.length_replicate]
  exact Nat.lt_of_not_le h

def create (initialCapacity maximumCapacity : UInt64) : Except Thrown ReceiveBuffer :=
  if hsize : initialCapacity.toNat ≥ 2 ^ 63 then
    .error (.lengthError "cannot create std::vector larger than max_size()")
  else if initialCapacity.toNat = 0 then
    .error (.invalidArgument "receive buffer 초기 용량은 1 이상이어야 합니다")
  else if hlimit : initialCapacity.toNat > maximumCapacity.toNat then
    .error (.invalidArgument "receive buffer 초기 용량은 최대 용량 이하여야 합니다")
  else .ok {
    storage := List.replicate initialCapacity.toNat 0
    maximumCapacity := maximumCapacity
    ordered := Nat.le_refl _
    within := fresh_within initialCapacity
    limited := fresh_limited hlimit
    addressable := fresh_addressable hsize }

variable (b : ReceiveBuffer)

def readableBytes : Nat := b.writeOffset - b.readOffset

def writableBytes : Nat := b.storage.length - b.writeOffset

def readableView : Octets := (b.storage.drop b.readOffset).take b.readableBytes

theorem readableBytes_le : b.readableBytes ≤ b.storage.length :=
  Nat.le_trans (Nat.sub_le _ _) b.within

theorem length_readableView : b.readableView.length = b.readableBytes := by
  have hwi := b.within
  rw [readableView, List.length_take, List.length_drop, readableBytes]
  omega

theorem length_moved : (Circular.overwrite b.storage 0 b.readableView).length = b.storage.length := by
  apply Circular.length_overwrite
  rw [Nat.zero_add, length_readableView]
  exact b.readableBytes_le

def compact : ReceiveBuffer where
  storage := Circular.overwrite b.storage 0 b.readableView
  maximumCapacity := b.maximumCapacity
  readOffset := 0
  writeOffset := b.readableBytes
  ordered := Nat.zero_le _
  within := b.length_moved ▸ b.readableBytes_le
  limited := b.length_moved ▸ b.limited
  addressable := b.length_moved ▸ b.addressable

theorem maximumCapacity_compact : b.compact.maximumCapacity = b.maximumCapacity := rfl

/-- `storage_.resize`, to a larger size. The text of the error is the library's. -/
def resize (capacity : Nat) (hroom : b.storage.length ≤ capacity)
    (hlimit : capacity ≤ b.maximumCapacity.toNat) : Except Thrown ReceiveBuffer :=
  if hsize : capacity ≥ 2 ^ 63 then .error (.lengthError "vector::_M_default_append")
  else
    have hlength : (b.storage ++ List.replicate (capacity - b.storage.length) (0 : UInt8)).length =
        capacity := by
      rw [List.length_append, List.length_replicate]
      exact Nat.add_sub_of_le hroom
    .ok { b with
      storage := b.storage ++ List.replicate (capacity - b.storage.length) 0
      within := Nat.le_trans b.within (Nat.le_trans hroom hlength.ge)
      limited := Nat.le_trans hlength.le hlimit
      addressable := Nat.lt_of_le_of_lt hlength.le (Nat.lt_of_not_le hsize) }

/-- The growth of `EnsureWritable`. A `resize` that throws leaves the buffer as it was. -/
def enlarge (requiredCapacity : Nat) (h : requiredCapacity ≤ b.maximumCapacity.toNat) :
    Reply × ReceiveBuffer :=
  let next := nextCapacity b.maximumCapacity.toNat requiredCapacity requiredCapacity b.storage.length
  Reply.ofStatus b ((b.resize (max next requiredCapacity)
    (Nat.le_trans (le_nextCapacity b.limited) (Nat.le_max_left _ _))
    (Nat.max_le.mpr ⟨nextCapacity_le b.limited, h⟩)).map (fun b => (.ready, b)))

/-- A buffer that was compacted stays so, even when there is no memory for a larger one. -/
def ensureWritable (minimumBytes : Nat) : Reply × ReceiveBuffer :=
  if minimumBytes ≤ b.writableBytes then (.status .ready, b)
  else if hlimit : minimumBytes > b.maximumCapacity.toNat - b.readableBytes then
    (.status .limitExceeded, b)
  else
    have hrequired : b.readableBytes + minimumBytes ≤ b.maximumCapacity.toNat := by
      have hreadable := b.readableBytes_le
      have hlimited := b.limited
      omega
    if b.readOffset ≠ 0 then
      if minimumBytes ≤ b.compact.writableBytes then (.status .ready, b.compact)
      else b.compact.enlarge (b.readableBytes + minimumBytes) (b.maximumCapacity_compact ▸ hrequired)
    else b.enlarge (b.readableBytes + minimumBytes) hrequired

def write (bytes : Octets) (h : bytes.length ≤ b.writableBytes) : ReceiveBuffer :=
  have hroom : b.writeOffset + bytes.length ≤ b.storage.length := by
    have hwithin := b.within
    unfold writableBytes at h
    omega
  have hlength := Circular.length_overwrite hroom
  { storage := Circular.overwrite b.storage b.writeOffset bytes
    maximumCapacity := b.maximumCapacity
    readOffset := b.readOffset
    writeOffset := b.writeOffset + bytes.length
    ordered := Nat.le_trans b.ordered (Nat.le_add_right _ _)
    within := hlength ▸ hroom
    limited := hlength ▸ b.limited
    addressable := hlength ▸ b.addressable }

/-- The room was made by `EnsureWritable`; the copy itself checks nothing. -/
def append (bytes : Octets) : Reply × ReceiveBuffer :=
  let (reply, next) := b.ensureWritable bytes.length
  if h : reply = .status .ready ∧ bytes.length ≤ next.writableBytes then
    (.status .ready, if bytes = [] then next else next.write bytes h.2)
  else (reply, next)

def consume (bytes : Nat) : Except Thrown ReceiveBuffer :=
  if h : bytes > b.readableBytes then
    .error (.outOfRange "receive buffer readable 영역보다 많이 consume할 수 없습니다")
  else if b.readOffset + bytes = b.writeOffset then
    .ok { b with readOffset := 0, writeOffset := 0, ordered := Nat.le_refl _, within := Nat.zero_le _ }
  else .ok { b with
    readOffset := b.readOffset + bytes
    ordered := by
      have hordered := b.ordered
      unfold readableBytes at h
      omega }

def clear : ReceiveBuffer :=
  { b with readOffset := 0, writeOffset := 0, ordered := Nat.le_refl _, within := Nat.zero_le _ }

end ReceiveBuffer

end IocpRuntime.Buffer
