import BoardSchema.Image.Error
/-!
The fields of a binary header in the order in which they are written. A sink takes bytes until its
room is used up; a field that does not fit is taken as far as there is room and fails.
-/
namespace BoardSchema.Image

/-- One field of a header: where it starts and the bytes that go there. -/
structure Slot where
  start : Nat
  bytes : Bytes
  deriving DecidableEq, Repr

/-- All fields one after the other. -/
def encode (slots : List Slot) : Bytes := slots.flatMap Slot.bytes

/-- A writer that holds at most `room` more bytes. -/
structure Sink where
  room : Nat
  written : Bytes := []
  deriving DecidableEq, Repr

def Sink.take (sink : Sink) (bytes : Bytes) : Sink where
  room := sink.room - bytes.length
  written := sink.written ++ bytes.take sink.room

/-- Writes field after field and stops at the first that does not fit. -/
def writeSlots : List Slot → Sink → Sink × Except HeaderError Unit
  | [], sink => (sink, .ok ())
  | slot :: rest, sink =>
    if slot.bytes.length ≤ sink.room then writeSlots rest (sink.take slot.bytes)
    else (sink.take slot.bytes, .error (.noRoom slot.start))

/-- A buffer holds at least the bytes that are needed. -/
def ensureSize (buffer : Bytes) (need : Nat) (what : String) : Except HeaderError Unit :=
  if buffer.length < need then .error (.truncated what need buffer.length) else .ok ()

/-- A tag of four letters. -/
def tagOf (letters : String) : Bytes := letters.toList.map fun c => UInt8.ofNat c.toNat

/-- The little-endian number in `size` bytes of a buffer. -/
def numberAt (buffer : Bytes) (start size : Nat) : Nat :=
  Bits.toNat ((buffer.drop start).take size)

theorem encode_nil : encode [] = [] := rfl

@[simp] theorem encode_cons (slot : Slot) (rest : List Slot) :
    encode (slot :: rest) = slot.bytes ++ encode rest := rfl

end BoardSchema.Image
