import BoardSchema.Json.Value
import BoardSchema.Numeral
/-!
Quoted texts of JSON. An escape may give half of a surrogate pair, so a text is first read as a list
of code units, which are then joined to characters.
-/
namespace BoardSchema.Json

/-- The character that an escape of one letter stands for. -/
def escaped? : Char → Option Char
  | '"' => some '"'
  | '\\' => some '\\'
  | '/' => some '/'
  | 'b' => some '\x08'
  | 'f' => some '\x0c'
  | 'n' => some '\n'
  | 'r' => some '\r'
  | 't' => some '\t'
  | _ => none

/-- The units of a text up to its closing quote, and what follows. Control characters have to be
escaped. -/
def scanUnits? : List Char → Option (List Nat × List Char)
  | [] => none
  | '"' :: rest => some ([], rest)
  | '\\' :: 'u' :: a :: b :: c :: d :: rest =>
    match Numeral.valueFrom? 16 0 [a, b, c, d] with
    | none => none
    | some unit => (scanUnits? rest).map (Prod.map (unit :: ·) id)
  | '\\' :: c :: rest =>
    match escaped? c with
    | none => none
    | some c => (scanUnits? rest).map (Prod.map (c.toNat :: ·) id)
  | c :: rest =>
    if c.toNat < 0x20 || c = '\\' then none
    else (scanUnits? rest).map (Prod.map (c.toNat :: ·) id)

def isLeading (unit : Nat) : Bool := 0xD800 ≤ unit && unit < 0xDC00

def isTrailing (unit : Nat) : Bool := 0xDC00 ≤ unit && unit < 0xE000

/-- The characters of a list of units, in which surrogates come in pairs. -/
def joinUnits? : List Nat → Option (List Char)
  | [] => some []
  | [unit] => if isLeading unit || isTrailing unit then none else some [Char.ofNat unit]
  | unit :: next :: rest =>
    if isTrailing unit then none
    else if isLeading unit then
      if isTrailing next then
        (joinUnits? rest).map
          (Char.ofNat (0x10000 + (unit - 0xD800) * 0x400 + (next - 0xDC00)) :: ·)
      else none
    else (joinUnits? (next :: rest)).map (Char.ofNat unit :: ·)

/-- A text up to its closing quote, if its units are characters, and what follows. -/
def scanText? (text : List Char) : Option (Option String × List Char) :=
  (scanUnits? text).map fun (units, rest) => ((joinUnits? units).map String.ofList, rest)

/-- How a character is written between quotes. -/
def escape (c : Char) : List Char :=
  match c with
  | '"' => ['\\', '"']
  | '\\' => ['\\', '\\']
  | '\x08' => ['\\', 'b']
  | '\x0c' => ['\\', 'f']
  | '\n' => ['\\', 'n']
  | '\r' => ['\\', 'r']
  | '\t' => ['\\', 't']
  | c =>
    if c.toNat < 0x20 then
      ['\\', 'u', '0', '0', (c.toNat / 16).digitChar, (c.toNat % 16).digitChar]
    else [c]

def quote (text : String) : String :=
  "\"" ++ String.ofList (text.toList.flatMap escape) ++ "\""

end BoardSchema.Json
