import BoardSchema.Image.Slot
/-!
The header of a public key: `PUBK`, the size of the key in two bytes, its type, a reserved byte and
the key itself. The size is that of the key, so it cannot disagree with it.
-/
namespace BoardSchema.Image

inductive KeyType where
  | rsa
  deriving DecidableEq, Repr

def KeyType.code : KeyType → UInt8
  | .rsa => 1

def KeyType.ofCode (code : UInt8) : Except HeaderError KeyType :=
  if code = 1 then .ok .rsa else .error (.unknownCode "key type" code)

structure PublicKey where
  keyType : KeyType
  key : Bytes
  fits : key.length < 0x10000
  deriving DecidableEq, Repr

namespace PublicKey

def tag : Bytes := tagOf "PUBK"

/-- The number of bytes before the key. -/
def fixedSize : Nat := 8

/-- A key fits if its size fits two bytes. -/
def new (keyType : KeyType) (key : Bytes) : Except HeaderError PublicKey :=
  if fits : key.length < 0x10000 then .ok { keyType, key, fits }
  else .error (.payloadTooLarge "public key" key.length 16)

def size (header : PublicKey) : Nat := fixedSize + header.key.length

def slots (header : PublicKey) : List Slot :=
  [⟨0, tag⟩, ⟨4, Bits.littleEndian 2 header.key.length⟩, ⟨6, [header.keyType.code]⟩, ⟨7, [0]⟩,
    ⟨8, header.key⟩]

def toBytes (header : PublicKey) : Bytes := encode header.slots

/-- Reads a header at the start of a buffer. The reserved byte may hold anything. -/
def ofBytes (buffer : Bytes) : Except HeaderError PublicKey := do
  ensureSize buffer fixedSize "public key header"
  let found := buffer.take 4
  if found ≠ tag then throw (.invalidTag "public key" [tag] found)
  let keySize := numberAt buffer 4 2
  let keyType ← KeyType.ofCode (buffer.getD 6 0)
  ensureSize buffer (fixedSize + keySize) "public key"
  new keyType ((buffer.drop fixedSize).take keySize)

end PublicKey
end BoardSchema.Image
