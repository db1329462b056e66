import BoardSchema.Json.Text
/-!
Writing JSON over several lines: two blanks for each level, and empty arrays and objects on one line.
-/
namespace BoardSchema.Json

def margin (indent : Nat) : String := String.ofList (List.replicate indent ' ')

mutual
/-- A value whose closing bracket is indented by `indent`. -/
def prettyAt (indent : Nat) : Json → String
  | null => "null"
  | bool value => if value then "true" else "false"
  | integer value => toString value
  | real literal => literal
  | string text => quote text
  | unreadable => "null"
  | array [] => "[]"
  | array (item :: rest) =>
    "[\n" ++ prettyItems (indent + 2) (item :: rest) ++ "\n" ++ margin indent ++ "]"
  | object [] => "\x7b\x7d"
  | object (member :: rest) =>
    "\x7b\n" ++ prettyMembers (indent + 2) (member :: rest) ++ "\n" ++ margin indent ++ "\x7d"

def prettyItems (indent : Nat) : List Json → String
  | [] => ""
  | [item] => margin indent ++ prettyAt indent item
  | item :: rest => margin indent ++ prettyAt indent item ++ ",\n" ++ prettyItems indent rest

def prettyMembers (indent : Nat) : List (String × Json) → String
  | [] => ""
  | [(key, value)] => margin indent ++ quote key ++ ": " ++ prettyAt indent value
  | (key, value) :: rest =>
    margin indent ++ quote key ++ ": " ++ prettyAt indent value ++ ",\n" ++ prettyMembers indent rest
end

def pretty (value : Json) : String := prettyAt 0 value

end BoardSchema.Json
