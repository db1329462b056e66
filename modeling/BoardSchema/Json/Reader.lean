import BoardSchema.Json.Number
import BoardSchema.Json.Text
/-!
Reading JSON. A value consumes at least one character and each bracket two steps of recursion, so
twice the length of a text bounds the recursion.
-/
namespace BoardSchema.Json

def isSpace (c : Char) : Bool := c = ' ' || c = '\n' || c = '\t' || c = '\r'

def skipSpace (text : List Char) : List Char := text.dropWhile isSpace

/-- An object, unless one of its keys stands for nothing. -/
def ofMembers (members : List (Option String × Json)) : Json :=
  match members.mapM fun (key, value) => key.map fun key => (key, value) with
  | some members => .object members
  | none => .unreadable

mutual
/-- The value at the start of a text, and what follows it. -/
def scanValue? : (fuel : Nat) → List Char → Option (Json × List Char)
  | 0, _ => none
  | fuel + 1, text =>
    match skipSpace text with
    | 'n' :: 'u' :: 'l' :: 'l' :: rest => some (.null, rest)
    | 't' :: 'r' :: 'u' :: 'e' :: rest => some (.bool true, rest)
    | 'f' :: 'a' :: 'l' :: 's' :: 'e' :: rest => some (.bool false, rest)
    | '"' :: rest =>
      (scanText? rest).map fun (text, rest) => (text.elim .unreadable .string, rest)
    | '[' :: rest =>
      match skipSpace rest with
      | ']' :: rest => some (.array [], rest)
      | rest => (scanItems? fuel rest).map fun (items, rest) => (.array items, rest)
    | '{' :: rest =>
      match skipSpace rest with
      | '}' :: rest => some (.object [], rest)
      | rest => (scanMembers? fuel rest).map fun (members, rest) => (ofMembers members, rest)
    | rest => (Literal.scan? rest).map fun (literal, rest) => (literal.value, rest)

/-- The items up to the closing bracket of an array, of which there is at least one. -/
def scanItems? : (fuel : Nat) → List Char → Option (List Json × List Char)
  | 0, _ => none
  | fuel + 1, text =>
    match scanValue? fuel text with
    | none => none
    | some (item, rest) =>
      match skipSpace rest with
      | ']' :: rest => some ([item], rest)
      | ',' :: rest => (scanItems? fuel rest).map (Prod.map (item :: ·) id)
      | _ => none

/-- The members up to the closing brace of an object, of which there is at least one. -/
def scanMembers? : (fuel : Nat) → List Char → Option (List (Option String × Json) × List Char)
  | 0, _ => none
  | fuel + 1, text =>
    match skipSpace text with
    | '"' :: rest =>
      match scanText? rest with
      | none => none
      | some (key, rest) =>
        match skipSpace rest with
        | ':' :: rest =>
          match scanValue? fuel rest with
          | none => none
          | some (value, rest) =>
            match skipSpace rest with
            | '}' :: rest => some ([(key, value)], rest)
            | ',' :: rest => (scanMembers? fuel rest).map (Prod.map ((key, value) :: ·) id)
            | _ => none
        | _ => none
    | _ => none
end

/-- The value that a whole text is. -/
def parse? (text : String) : Option Json :=
  match scanValue? (2 * text.length + 2) text.toList with
  | some (value, rest) => if (skipSpace rest).isEmpty then some value else none
  | none => none

end BoardSchema.Json
