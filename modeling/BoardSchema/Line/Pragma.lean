import BoardSchema.Error
import BoardSchema.Text.Search
/-!
The blocks `KEY:{value}` of a pragma. Braces nest inside a value, and braces between double quotes
do not count. A token that is no block is passed over and reported; a block that is never closed
ends the pragma.
-/
namespace BoardSchema

/-- A block with its key in upper case and its value trimmed. -/
structure Block where
  key : String
  value : String
  deriving DecidableEq, Repr, Inhabited

/-- The blocks of a pragma in order, and in order what was passed over. -/
structure Pragma where
  blocks : List Block := []
  malformed : List CompileError := []
  deriving DecidableEq, Repr

namespace Pragma

def isKeyChar (c : Char) : Bool := c.isAlphanum || c == '_'

/-- A key and the text behind its opening brace, if the text starts like a block. -/
def blockStart? (text : List Char) : Option (List Char × List Char) :=
  let key := text.takeWhile isKeyChar
  match text.dropWhile isKeyChar with
  | ':' :: '{' :: body => if key.isEmpty then none else some (key, body)
  | _ => none

/-- The value up to the closing brace and the text behind it, where `depth` counts the open braces
inside the value. -/
def blockEnd? : (depth : Nat) → (quoted : Bool) → List Char → Option (List Char × List Char)
  | _, _, [] => none
  | depth, quoted, c :: rest =>
    if c = '"' then (blockEnd? depth (!quoted) rest).map (Prod.map (c :: ·) id)
    else if c = '{' && !quoted then (blockEnd? (depth + 1) quoted rest).map (Prod.map (c :: ·) id)
    else if c = '}' && !quoted then
      if depth = 0 then some ([], rest)
      else (blockEnd? (depth - 1) quoted rest).map (Prod.map (c :: ·) id)
    else (blockEnd? depth quoted rest).map (Prod.map (c :: ·) id)

theorem length_blockStart? {text key body : List Char} (h : blockStart? text = some (key, body)) :
    body.length + 2 ≤ text.length := by
  have hd : (text.dropWhile isKeyChar).length ≤ text.length :=
    (List.dropWhile_suffix isKeyChar).length_le
  unfold blockStart? at h
  split at h
  · next b hb =>
    by_cases hk : (text.takeWhile isKeyChar).isEmpty
    · simp [hk] at h
    · simp only [hk, Bool.false_eq_true, ↓reduceIte, Option.some.injEq, Prod.mk.injEq] at h
      rw [hb, h.2, List.length_cons, List.length_cons] at hd
      exact hd
  · simp at h

theorem length_blockEnd? {depth : Nat} {quoted : Bool} {body value rest : List Char}
    (h : blockEnd? depth quoted body = some (value, rest)) : rest.length < body.length := by
  induction body generalizing depth quoted value with
  | nil => simp [blockEnd?] at h
  | cons c body ih =>
    have step {d : Nat} {q : Bool}
        (h : (blockEnd? d q body).map (Prod.map (c :: ·) id) = some (value, rest)) :
        rest.length < (c :: body).length := by
      simp only [Option.map_eq_some_iff, Prod.exists, Prod.map_apply, id, Prod.mk.injEq] at h
      obtain ⟨v, r, hv, -, rfl⟩ := h
      exact Nat.lt_succ_of_lt (ih hv)
    unfold blockEnd? at h
    split at h
    · exact step h
    · split at h
      · exact step h
      · split at h
        · split at h
          · simp only [Option.some.injEq, Prod.mk.injEq] at h
            simp [h.2]
          · exact step h
        · exact step h

/-- What is said of a token that is no block. Its key is the start of the token that could have
been one, or else the whole token. -/
def strayToken (line : Nat) (token : List Char) : CompileError :=
  let key := (token.takeWhile isKeyChar).map Char.toUpper
  let shown := String.ofList token
  .malformedPragma line (if key.isEmpty then shown else String.ofList key)
    s!"expected `KEY:\x7b...\x7d`, found `{shown}`"

/-- The blocks of a text that follows the pragma's mark. -/
def scan (line : Nat) (text : List Char) : Pragma :=
  match _hText : Text.trimStart text with
  | [] => {}
  | c :: more =>
    match _hStart : blockStart? (c :: more) with
    | some (key, body) =>
      let key := String.ofList (key.map Char.toUpper)
      match _hEnd : blockEnd? 0 false body with
      | some (value, rest) =>
        let later := scan line rest
        { later with blocks := ⟨key, String.ofList (Text.trim value)⟩ :: later.blocks }
      | none => { malformed := [.malformedPragma line key "unterminated `\x7b` block"] }
    | none =>
      let token := (c :: more).takeWhile (!Text.isBlank ·)
      let later := scan line ((c :: more).dropWhile (!Text.isBlank ·))
      { later with malformed := strayToken line token :: later.malformed }
termination_by text.length
decreasing_by
  all_goals
    have hlen : (c :: more).length ≤ text.length := by
      rw [← _hText]; exact (List.dropWhile_suffix _).length_le
  · have h₁ := length_blockStart? _hStart
    have h₂ := length_blockEnd? _hEnd
    omega
  · have hc := Text.isBlank_head_trimStart _hText
    have hd : (more.dropWhile (!Text.isBlank ·)).length ≤ more.length :=
      (List.dropWhile_suffix _).length_le
    simp only [List.dropWhile_cons, hc, Bool.not_false, ↓reduceIte, List.length_cons] at hlen ⊢
    omega

end Pragma
end BoardSchema
