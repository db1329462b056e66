import BoardSchema.Text.Blank
import Mathlib.Data.List.DropRight
/-!
Texts with blanks around them. Trimming takes off the blanks at both ends and nothing else, so a
text without such blanks is what is left of it with blanks around it.
-/
namespace BoardSchema.Text

/-- What is dropped at the start of a text. -/
theorem exists_trimStart (text : List Char) : ∃ lead, (∀ c ∈ lead, isBlank c = true) ∧
    text = lead ++ trimStart text :=
  ⟨_, List.all_eq_true.1 List.all_takeWhile, List.takeWhile_append_dropWhile.symm⟩

theorem exists_trimEnd (text : List Char) : ∃ trail, (∀ c ∈ trail, isBlank c = true) ∧
    text = trimEnd text ++ trail := by
  refine ⟨(text.reverse.takeWhile isBlank).reverse, ?_, ?_⟩
  · intro c mem
    exact List.all_eq_true.1 List.all_takeWhile c (List.mem_reverse.1 mem)
  · rw [trimEnd, ← List.reverse_append, List.takeWhile_append_dropWhile, List.reverse_reverse]

theorem trimStart_append {lead : List Char} (blank : ∀ c ∈ lead, isBlank c = true)
    (text : List Char) : trimStart (lead ++ text) = trimStart text :=
  List.dropWhile_append_of_pos blank

theorem trimStart_append_cons {lead : List Char} (blank : ∀ c ∈ lead, isBlank c = true) {c : Char}
    (solid : isBlank c = false) (text : List Char) : trimStart (lead ++ c :: text) = c :: text := by
  rw [trimStart_append blank, trimStart, List.dropWhile_cons_of_neg (by simp [solid])]

theorem trimEnd_append_cons {c : Char} (solid : isBlank c = false) (front text : List Char) :
    trimEnd (front ++ c :: text) = front ++ c :: trimEnd text := by
  rw [trimEnd, trimEnd, List.reverse_append, List.reverse_cons, List.append_assoc,
    List.dropWhile_append]
  split
  · next ends =>
    simp [List.isEmpty_iff.1 ends, solid]
  · simp

theorem trim_append_blanks {trail : List Char} (blank : ∀ c ∈ trail, isBlank c = true)
    (text : List Char) : trim (text ++ trail) = trim text := by
  have nothing : trail.dropWhile isBlank = [] := List.dropWhile_eq_nil_iff.2 blank
  rw [trim, trim, trimStart, trimStart, List.dropWhile_append]
  split
  · next empty =>
    rw [nothing, List.isEmpty_iff.1 empty]
  · have blank : ∀ c ∈ trail.reverse, isBlank c = true := by simpa using blank
    rw [trimEnd, List.reverse_append, List.dropWhile_append_of_pos blank, trimEnd]

theorem trim_trimEnd (text : List Char) : trim (trimEnd text) = trim text := by
  obtain ⟨trail, blank, whole⟩ := exists_trimEnd text
  rw [whole, trim_append_blanks blank, ← whole]

theorem trim_trimStart (text : List Char) : trim (trimStart text) = trim text := by
  rw [trim, trimStart, trimStart, List.dropWhile_idempotent, trim, trimStart]

theorem trim_trim (text : List Char) : trim (trim text) = trim text := by
  have step := (trim_trimEnd (trimStart text)).trans (trim_trimStart text)
  rwa [← trim] at step

theorem trim_append_cons {c : Char} (solid : isBlank c = false) (front text : List Char) :
    trim (front ++ c :: text) = trimStart front ++ c :: trimEnd text := by
  have start : trimStart (front ++ c :: text) = trimStart front ++ c :: text := by
    rw [trimStart, List.dropWhile_append]
    split
    · next empty => rw [trimStart, List.isEmpty_iff.1 empty]; simp [solid]
    · rfl
  rw [trim, start, trimEnd_append_cons solid]

/-- Only blanks at the ends are taken off. -/
theorem trim_eq_self_iff {text : List Char} : trim text = text ↔
    (∀ c ∈ text.head?, isBlank c = false) ∧ ∀ c ∈ text.getLast?, isBlank c = false := by
  have start (text : List Char) (head : ∀ c ∈ text.head?, isBlank c = false) :
      text.dropWhile isBlank = text := by
    cases text with
    | nil => rfl
    | cons c rest => exact List.dropWhile_cons_of_neg (by simp [head c rfl])
  constructor
  · intro trimmed
    obtain ⟨lead, -, whole⟩ := exists_trimStart text
    obtain ⟨trail, -, stop⟩ := exists_trimEnd (trimStart text)
    rw [← trim, trimmed] at stop
    constructor
    · intro c head
      obtain ⟨rest, rfl⟩ := List.head?_eq_some_iff.1 head
      exact isBlank_head_trimStart stop
    · intro c last
      rw [← trimmed, trim, trimEnd, List.getLast?_reverse] at last
      obtain ⟨rest, shown⟩ := List.head?_eq_some_iff.1 last
      exact isBlank_head_trimStart shown
  · rintro ⟨head, last⟩
    have stop := start text.reverse (by simpa using last)
    rw [trim, trimStart, start text head, trimEnd, stop, List.reverse_reverse]

/-! ## Blanks around a text -/

/-- A text with blanks around it. -/
def Padded (text whole : List Char) : Prop :=
  ∃ lead trail, (∀ c ∈ lead, isBlank c = true) ∧ (∀ c ∈ trail, isBlank c = true) ∧
    whole = lead ++ text ++ trail

theorem padded_trim (text : List Char) : Padded (trim text) text := by
  obtain ⟨lead, lead_blank, start⟩ := exists_trimStart text
  obtain ⟨trail, trail_blank, stop⟩ := exists_trimEnd (trimStart text)
  refine ⟨lead, trail, lead_blank, trail_blank, ?_⟩
  rw [trim, List.append_assoc, ← stop, ← start]

theorem Padded.trim_eq {text whole : List Char} (padded : Padded text whole) :
    trim whole = trim text := by
  obtain ⟨lead, trail, lead_blank, trail_blank, rfl⟩ := padded
  rw [trim_append_blanks trail_blank, trim, trimStart_append lead_blank, trim]

/-- A text without blanks at its ends is what is left once the blanks around it are taken off. -/
theorem trim_eq_iff {text whole : List Char} (trimmed : trim text = text) :
    trim whole = text ↔ Padded text whole := by
  constructor
  · rintro rfl
    exact padded_trim whole
  · intro padded
    rw [padded.trim_eq, trimmed]

theorem Padded.subset {text whole : List Char} (padded : Padded text whole) : text ⊆ whole := by
  obtain ⟨lead, trail, -, -, rfl⟩ := padded
  intro c mem
  simp [mem]

/-- A character that is no blank is in the text if it is in it with blanks around it. -/
theorem Padded.mem_of_solid {text whole : List Char} (padded : Padded text whole) {c : Char}
    (solid : isBlank c = false) (mem : c ∈ whole) : c ∈ text := by
  obtain ⟨lead, trail, lead_blank, trail_blank, rfl⟩ := padded
  rcases List.mem_append.1 mem with mem | mem
  · rcases List.mem_append.1 mem with mem | mem
    · rw [lead_blank c mem] at solid
      cases solid
    · exact mem
  · rw [trail_blank c mem] at solid
    cases solid

end BoardSchema.Text
