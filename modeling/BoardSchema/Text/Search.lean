/-!
Finding, cutting and replacing text. Occurrences of a pattern are taken from the left and do not
overlap.
-/
namespace BoardSchema.Text

/-- The text before and after the first `mark`. -/
def cutAt? (mark : Char) : List Char → Option (List Char × List Char)
  | [] => none
  | c :: rest =>
    if c = mark then some ([], rest)
    else (cutAt? mark rest).map fun (before, after) => (c :: before, after)

/-- The text before and after the last `mark`. -/
def cutAtLast? (mark : Char) (text : List Char) : Option (List Char × List Char) :=
  (cutAt? mark text.reverse).map fun (after, before) => (before.reverse, after.reverse)

/-- The columns of a text: at most `more` marks cut it, so the last column may hold marks. -/
def columns (mark : Char) : (more : Nat) → List Char → List (List Char)
  | 0, text => [text]
  | more + 1, text =>
    match cutAt? mark text with
    | none => [text]
    | some (column, rest) => column :: columns mark more rest

/-- Drops every leading and trailing `mark`. -/
def trimMark (mark : Char) (text : List Char) : List Char :=
  ((text.dropWhile (· == mark)).reverse.dropWhile (· == mark)).reverse

/-- Walks over `text` and puts `become before after` in the place of each occurrence of `pattern`,
where `before` is the character passed since the previous occurrence, if any, and `after` the one
that follows. `inside` counts the characters of an occurrence that are still to be passed. -/
def replaceFrom (pattern : List Char) (become : Option Char → Option Char → List Char) :
    (before : Option Char) → (inside : Nat) → (text : List Char) → List Char
  | _, _, [] => []
  | before, inside + 1, _ :: rest => replaceFrom pattern become before inside rest
  | before, 0, c :: rest =>
    if pattern.isPrefixOf (c :: rest) then
      become before ((c :: rest).drop pattern.length).head? ++
        replaceFrom pattern become none (pattern.length - 1) rest
    else c :: replaceFrom pattern become (some c) 0 rest

/-- Replaces every occurrence of `pattern`; an empty pattern occurs nowhere. -/
def replaceAll (pattern replacement text : List Char) : List Char :=
  if pattern.isEmpty then text
  else replaceFrom pattern (fun _ _ => replacement) none 0 text

/-- Fills a text with blanks on the right up to `width` characters. -/
def padRight (width : Nat) (text : String) : String :=
  text ++ String.ofList (List.replicate (width - text.length) ' ')

theorem cutAt?_cons_self (mark : Char) (rest : List Char) :
    cutAt? mark (mark :: rest) = some ([], rest) :=
  if_pos rfl

theorem cutAt?_cons_of_ne {mark c : Char} (ne : c ≠ mark) (rest : List Char) :
    cutAt? mark (c :: rest) = (cutAt? mark rest).map fun cut => (c :: cut.1, cut.2) :=
  if_neg ne

theorem cutAt?_eq_some {mark : Char} {text before after : List Char}
    (h : cutAt? mark text = some (before, after)) : text = before ++ mark :: after := by
  induction text generalizing before with
  | nil => cases h
  | cons c rest ih =>
    by_cases hc : c = mark
    · subst hc
      rw [cutAt?_cons_self, Option.some.injEq, Prod.mk.injEq] at h
      obtain ⟨rfl, rfl⟩ := h
      rfl
    · simp only [cutAt?_cons_of_ne hc, Option.map_eq_some_iff, Prod.mk.injEq, Prod.exists] at h
      obtain ⟨b, a, hb, rfl, rfl⟩ := h
      rw [ih hb, List.cons_append]

theorem not_mem_of_cutAt? {mark : Char} {text before after : List Char}
    (h : cutAt? mark text = some (before, after)) : mark ∉ before := by
  induction text generalizing before with
  | nil => cases h
  | cons c rest ih =>
    by_cases hc : c = mark
    · subst hc
      rw [cutAt?_cons_self, Option.some.injEq, Prod.mk.injEq] at h
      simp [← h.1]
    · simp only [cutAt?_cons_of_ne hc, Option.map_eq_some_iff, Prod.mk.injEq, Prod.exists] at h
      obtain ⟨b, a, hb, rfl, rfl⟩ := h
      simp [ih hb, Ne.symm hc]

theorem cutAt?_append {mark : Char} {front : List Char} (not_mem : mark ∉ front)
    (text : List Char) : cutAt? mark (front ++ mark :: text) = some (front, text) := by
  induction front with
  | nil => exact cutAt?_cons_self mark text
  | cons c front ih =>
    rw [List.mem_cons, not_or] at not_mem
    rw [List.cons_append, cutAt?_cons_of_ne (Ne.symm not_mem.1), ih not_mem.2, Option.map_some]

theorem cutAt?_eq_none_iff {mark : Char} {text : List Char} :
    cutAt? mark text = none ↔ mark ∉ text := by
  induction text with
  | nil => exact iff_of_true rfl List.not_mem_nil
  | cons c rest ih =>
    by_cases hc : c = mark
    · simp [hc, cutAt?_cons_self]
    · simp [cutAt?_cons_of_ne hc, ih, Ne.symm hc]

theorem not_mem_of_mem_splitOn {mark : Char} {text piece : List Char}
    (h : piece ∈ text.splitOn mark) : mark ∉ piece := by
  induction length : text.length using Nat.strongRecOn generalizing text with
  | ind count ih =>
    by_cases marked : mark ∈ text
    · obtain ⟨before, after, rfl, clear⟩ := List.eq_append_cons_of_mem marked
      rw [List.splitOn_append_cons_self, List.splitOn_eq_singleton clear] at h
      rcases List.mem_append.1 h with h | h
      · rwa [List.mem_singleton.1 h]
      · exact ih after.length (by simp at length; omega) h rfl
    · rw [List.splitOn_eq_singleton marked, List.mem_singleton] at h
      rwa [h]

end BoardSchema.Text
