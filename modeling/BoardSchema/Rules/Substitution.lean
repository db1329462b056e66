import BoardSchema.Text.Search
/-!
The substitution table: literal replacements in a text, one after the other. A substitution of whole
words spares an occurrence that has a word character next to it.
-/
namespace BoardSchema

def isWordChar (c : Char) : Bool := c.isAlphanum || c == '_'

/-- One literal replacement. `source` is what is looked for. -/
structure Substitution where
  source : String
  replacement : String
  wholeWord : Bool := false
  deriving DecidableEq, Repr

namespace Substitution

/-- What a substitution of whole words puts for an occurrence between two characters. -/
def wordReplacement (rule : Substitution) (before after : Option Char) : List Char :=
  if before.any isWordChar || after.any isWordChar then rule.source.toList
  else rule.replacement.toList

/-- An empty source is found nowhere. The neighbour on the left counts only if it was passed since
the occurrence before. -/
def apply (rule : Substitution) (text : List Char) : List Char :=
  if rule.source.toList.isEmpty then text
  else if rule.wholeWord then
    Text.replaceFrom rule.source.toList rule.wordReplacement none 0 text
  else Text.replaceAll rule.source.toList rule.replacement.toList text

/-- All substitutions in table order. -/
def applyAll (rules : List Substitution) (text : String) : String :=
  String.ofList (rules.foldl (fun text rule => rule.apply text) text.toList)

end Substitution
end BoardSchema
