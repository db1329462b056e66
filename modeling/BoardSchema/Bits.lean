/-!
Bit windows in byte buffers and alignment of 64-bit words. A buffer is one little-endian number:
bit 0 is the lowest bit of the first byte, bit 8 the lowest bit of the second. `toNat` is that
number; reading and writing a window go bit by bit.
-/
namespace BoardSchema

abbrev Bytes := List UInt8

namespace Bits

inductive BitError where
  | outOfBounds (start length bits : Nat)
  | tooWide (length : Nat)
  | alignmentNotPowerOfTwo (alignment : UInt64)
  | overflow (value alignment : UInt64)
  deriving DecidableEq, Repr

def BitError.message : BitError → String
  | .outOfBounds start length bits =>
    s!"bit window {start}+{length} exceeds the {bits} bits of the buffer"
  | .tooWide length => s!"bit window of {length} bits is wider than 64 bits"
  | .alignmentNotPowerOfTwo alignment => s!"alignment {alignment.toNat} is not a power of two"
  | .overflow value alignment => s!"aligning {value.toNat} to {alignment.toNat} overflows"

/-- The number that a buffer stands for. -/
def toNat : Bytes → Nat
  | [] => 0
  | byte :: rest => byte.toNat + 256 * toNat rest

/-- The low `count` bytes of a number, lowest first. -/
def littleEndian : (count : Nat) → Nat → Bytes
  | 0, _ => []
  | count + 1, n => UInt8.ofNat (n % 256) :: littleEndian count (n / 256)

/-- The bit of a buffer at a position; beyond the buffer all bits are clear. -/
def bitAt (buffer : Bytes) (position : Nat) : Bool :=
  (buffer.getD (position / 8) 0).toNat.testBit (position % 8)

/-- The byte with one of its bits set or cleared. -/
def withBit (byte : UInt8) (index : Nat) (bit : Bool) : UInt8 :=
  let mask := (1 : UInt8) <<< UInt8.ofNat index
  if bit then byte ||| mask else byte &&& ~~~mask

def setBit (buffer : Bytes) (position : Nat) (bit : Bool) : Bytes :=
  buffer.modify (position / 8) fun byte => withBit byte (position % 8) bit

/-- A window has at most 64 bits, and that is checked before it is compared with the buffer. -/
def checkWindow (buffer : Bytes) (start length : Nat) : Except BitError Unit :=
  if length > 64 then .error (.tooWide length)
  else if start + length > buffer.length * 8 then
    .error (.outOfBounds start length (buffer.length * 8))
  else .ok ()

/-- The number whose bits are those of the window, lowest first. -/
def window (buffer : Bytes) (start : Nat) : (length : Nat) → Nat
  | 0 => 0
  | length + 1 =>
    window buffer start length + if bitAt buffer (start + length) then 1 <<< length else 0

/-- The buffer after the low `length` bits of `value` went into the window. -/
def setWindow (buffer : Bytes) (start value : Nat) : (length : Nat) → Bytes
  | 0 => buffer
  | length + 1 => setBit (setWindow buffer start value length) (start + length)
      (value.testBit length)

def read (buffer : Bytes) (start length : Nat) : Except BitError Nat := do
  checkWindow buffer start length
  return window buffer start length

def write (buffer : Bytes) (start length value : Nat) : Except BitError Bytes := do
  checkWindow buffer start length
  return setWindow buffer start value length

/-- A word with exactly one bit set. -/
def isPowerOfTwo (word : UInt64) : Bool := word != 0 && word &&& (word - 1) == 0

/-- The next multiple of a power of two, unless adding the mask leaves the word. -/
def alignUp (value alignment : UInt64) : Except BitError UInt64 :=
  if isPowerOfTwo alignment then
    let mask := alignment - 1
    if value.toNat + mask.toNat < 0x10000000000000000 then .ok ((value + mask) &&& ~~~mask)
    else .error (.overflow value alignment)
  else .error (.alignmentNotPowerOfTwo alignment)

/-- The number of bytes from `length` to the next multiple of `alignment`. -/
def paddingNeeded (length alignment : UInt64) : Except BitError UInt64 :=
  (alignUp length alignment).map (· - length)

@[simp] theorem length_littleEndian (count n : Nat) : (littleEndian count n).length = count := by
  induction count generalizing n <;> simp [littleEndian, *]

@[simp] theorem length_setBit (buffer : Bytes) (position : Nat) (bit : Bool) :
    (setBit buffer position bit).length = buffer.length := by simp [setBit]

@[simp] theorem length_setWindow (buffer : Bytes) (start value length : Nat) :
    (setWindow buffer start value length).length = buffer.length := by
  induction length <;> simp [setWindow, *]

theorem toNat_littleEndian (count n : Nat) :
    toNat (littleEndian count n) = n % 1 <<< (8 * count) := by
  induction count generalizing n with
  | zero => simp [littleEndian, toNat, Nat.mod_one]
  | succ count ih =>
    have split : 8 * (count + 1) = 8 + 8 * count := by omega
    simp only [littleEndian, toNat, ih]
    rw [split, Nat.one_shiftLeft, Nat.one_shiftLeft, Nat.pow_add, Nat.mod_mul]
    simp

end Bits
end BoardSchema
