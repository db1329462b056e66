/-!
JSON values as a document writes them: members keep their order and may repeat, integers are kept
apart from other numbers.
-/
namespace BoardSchema

inductive Json where
  | null
  | bool (value : Bool)
  /-- A number without fraction and exponent that fits 64 bits, signed or unsigned. -/
  | integer (value : Int)
  /-- Any other number, as it is written. -/
  | real (literal : String)
  | string (text : String)
  | array (items : List Json)
  | object (members : List (String × Json))
  /-- A value of the right form that stands for nothing: a text with half a surrogate pair, a number
  beyond all doubles, or an object with a key of that kind. -/
  | unreadable
  deriving Repr, Inhabited

namespace Json

mutual
/-- Every part stands for something, and the value nests at most `limit` deep. -/
def fits (limit : Nat) : Json → Bool
  | null => true
  | bool _ => true
  | integer _ => true
  | real _ => true
  | string _ => true
  | unreadable => false
  | array items =>
    match limit with
    | 0 => false
    | limit + 1 => itemsFit limit items
  | object members =>
    match limit with
    | 0 => false
    | limit + 1 => membersFit limit members

def itemsFit (limit : Nat) : List Json → Bool
  | [] => true
  | item :: rest => fits limit item && itemsFit limit rest

def membersFit (limit : Nat) : List (String × Json) → Bool
  | [] => true
  | (_, value) :: rest => fits limit value && membersFit limit rest
end

end Json
end BoardSchema
