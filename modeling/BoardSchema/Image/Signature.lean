import BoardSchema.Image.Slot
/-!
The header of a signature: `SIGN`, the size of the signature in two bytes, the scheme, the hash
algorithm and the signature itself.
-/
namespace BoardSchema.Image

inductive SignatureScheme where
  | rsaPkcs1
  | rsaPss
  deriving DecidableEq, Repr

def SignatureScheme.code : SignatureScheme → UInt8
  | .rsaPkcs1 => 1
  | .rsaPss => 2

def SignatureScheme.ofCode (code : UInt8) : Except HeaderError SignatureScheme :=
  if code = 1 then .ok .rsaPkcs1
  else if code = 2 then .ok .rsaPss
  else .error (.unknownCode "signature scheme" code)

inductive HashAlgorithm where
  | sha256
  | sha384
  | sha512
  | sm3
  deriving DecidableEq, Repr

namespace HashAlgorithm

def code : HashAlgorithm → UInt8
  | .sha256 => 1
  | .sha384 => 2
  | .sha512 => 3
  | .sm3 => 4

def ofCode (code : UInt8) : Except HeaderError HashAlgorithm :=
  if code = 1 then .ok .sha256
  else if code = 2 then .ok .sha384
  else if code = 3 then .ok .sha512
  else if code = 4 then .ok .sm3
  else .error (.unknownCode "hash algorithm" code)

/-- The size of a digest in bytes. -/
def digestSize : HashAlgorithm → Nat
  | .sha256 => 32
  | .sm3 => 32
  | .sha384 => 48
  | .sha512 => 64

end HashAlgorithm

structure Signature where
  scheme : SignatureScheme
  hash : HashAlgorithm
  signature : Bytes
  fits : signature.length ≤ 0xffff
  deriving DecidableEq, Repr

namespace Signature

def tag : Bytes := tagOf "SIGN"

/-- The number of bytes before the signature. -/
def fixedSize : Nat := 8

def new (scheme : SignatureScheme) (hash : HashAlgorithm) (signature : Bytes) :
    Except HeaderError Signature :=
  if fits : signature.length ≤ 0xffff then .ok { scheme, hash, signature, fits }
  else .error (.payloadTooLarge "signature" signature.length 16)

def size (header : Signature) : Nat := fixedSize + header.signature.length

def slots (header : Signature) : List Slot :=
  [⟨0, tag⟩, ⟨4, Bits.littleEndian 2 header.signature.length⟩, ⟨6, [header.scheme.code]⟩,
    ⟨7, [header.hash.code]⟩, ⟨8, header.signature⟩]

def toBytes (header : Signature) : Bytes := encode header.slots

/-- Reads a header at the start of a buffer; the scheme is judged before the hash algorithm. -/
def ofBytes (buffer : Bytes) : Except HeaderError Signature := do
  ensureSize buffer fixedSize "signature header"
  let found := buffer.take 4
  if found ≠ tag then throw (.invalidTag "signature" [tag] found)
  let signatureSize := numberAt buffer 4 2
  let scheme ← SignatureScheme.ofCode (buffer.getD 6 0)
  let hash ← HashAlgorithm.ofCode (buffer.getD 7 0)
  ensureSize buffer (fixedSize + signatureSize) "signature"
  new scheme hash ((buffer.drop fixedSize).take signatureSize)

end Signature
end BoardSchema.Image
