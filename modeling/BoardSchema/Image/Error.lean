import BoardSchema.Bits
/-!
What can be wrong with a binary image header. `what` names the part of the header at fault.
-/
namespace BoardSchema.Image

inductive HeaderError where
  | invalidTag (what : String) (expected : List Bytes) (found : Bytes)
  | unknownCode (what : String) (value : UInt8)
  | truncated (what : String) (need size : Nat)
  | payloadTooLarge (what : String) (size bits : Nat)
  /-- The field that starts at this offset did not fit the room that was left. -/
  | noRoom (offset : Nat)
  deriving DecidableEq, Repr

/-- Bytes as a bracketed list of decimal numbers. -/
def decimalList (bytes : Bytes) : String :=
  "[" ++ ", ".intercalate (bytes.map fun byte => toString byte.toNat) ++ "]"

/-- A byte as two upper-case hexadecimal digits. -/
def byteDigits (byte : UInt8) : String :=
  String.ofList [(byte.toNat / 16).digitChar.toUpper, (byte.toNat % 16).digitChar.toUpper]

def hexList (bytes : Bytes) : String :=
  "[" ++ ", ".intercalate (bytes.map byteDigits) ++ "]"

def HeaderError.message : HeaderError → String
  | .invalidTag what expected found =>
    let tags := "[" ++ ", ".intercalate (expected.map decimalList) ++ "]"
    s!"invalid {what} tag, expected one of {tags}, found `{hexList found}`"
  | .unknownCode what value => s!"unknown {what} code {value.toNat}"
  | .truncated what need size =>
    s!"buffer too small for {what} at offset 0 (need {need} bytes, have {size})"
  | .payloadTooLarge what size bits =>
    s!"{what} payload of {size} bytes does not fit a {bits}-bit size field"
  | .noRoom offset =>
    s!"an I/O error has occurred at offset {offset}: failed to write whole buffer"

end BoardSchema.Image
