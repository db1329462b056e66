import BoardSchema.Image.Slot
/-!
The header of a compressed image: the tag of the algorithm, the compressed and the uncompressed
size in four bytes each, and four reserved bytes.
-/
namespace BoardSchema.Image

inductive CompressionAlgorithm where
  | lz4
  | lzma
  /-- The payload is kept as it is behind the header. -/
  | stored
  deriving DecidableEq, Repr

namespace CompressionAlgorithm

def tag : CompressionAlgorithm → Bytes
  | .lz4 => tagOf "LZ4 "
  | .lzma => tagOf "LZMA"
  | .stored => tagOf "LZDM"

def all : List CompressionAlgorithm := [.lz4, .lzma, .stored]

def ofTag (found : Bytes) : Except HeaderError CompressionAlgorithm :=
  match all.find? (·.tag == found) with
  | some algorithm => .ok algorithm
  | none => .error (.invalidTag "compression" (all.map tag) found)

end CompressionAlgorithm

structure Compression where
  algorithm : CompressionAlgorithm
  compressed : UInt32
  uncompressed : UInt32
  deriving DecidableEq, Repr

namespace Compression

/-- The number of bytes of the whole header. -/
def fixedSize : Nat := 16

/-- A size of an image fits if it fits four bytes. -/
def sizeField (size : Nat) : Except HeaderError UInt32 :=
  if size < 0x100000000 then .ok (UInt32.ofNat size)
  else .error (.payloadTooLarge "compressed image" size 32)

def new (algorithm : CompressionAlgorithm) (compressed uncompressed : Nat) :
    Except HeaderError Compression := do
  let compressed ← sizeField compressed
  let uncompressed ← sizeField uncompressed
  return { algorithm, compressed, uncompressed }

def slots (header : Compression) : List Slot :=
  [⟨0, header.algorithm.tag⟩, ⟨4, Bits.littleEndian 4 header.compressed.toNat⟩,
    ⟨8, Bits.littleEndian 4 header.uncompressed.toNat⟩, ⟨12, Bits.littleEndian 4 0⟩]

def toBytes (header : Compression) : Bytes := encode header.slots

/-- Reads a header at the start of a buffer. The reserved bytes may hold anything. -/
def ofBytes (buffer : Bytes) : Except HeaderError Compression := do
  ensureSize buffer fixedSize "compression header"
  let algorithm ← CompressionAlgorithm.ofTag (buffer.take 4)
  return {
    algorithm
    compressed := UInt32.ofNat (numberAt buffer 4 4)
    uncompressed := UInt32.ofNat (numberAt buffer 8 4) }

end Compression
end BoardSchema.Image
