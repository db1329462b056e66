import BoardSchema.Text.Search
import Mathlib.Data.List.Basic
import Mathlib.Data.List.Infix
/-!
Replacing text, occurrence by occurrence. A text is passed from the left: an occurrence of the
pattern is passed as a whole, and any other character by itself. Where two texts differ only in that
some pieces of one are exchanged in the other, they are equal exactly if nothing is exchanged or each
piece is exchanged for itself.
-/
namespace BoardSchema.Text

/-- `right` is `left` with a number of pieces `old` exchanged for `new`. -/
inductive Swaps (old new : List Char) : (count : Nat) → (left right : List Char) → Prop
  | nil : Swaps old new 0 [] []
  | same {count : Nat} {left right : List Char} (c : Char) (rest : Swaps old new count left right) :
      Swaps old new count (c :: left) (c :: right)
  | swap {count : Nat} {left right : List Char} (rest : Swaps old new count left right) :
      Swaps old new (count + 1) (old ++ left) (new ++ right)

/-- The number of places at which a pattern stands in a text. -/
def occurrences (pattern text : List Char) : Nat := text.tails.countP pattern.isPrefixOf

variable {old new pattern replacement left right text rest : List Char} {c : Char}

/-! ## Exchanged pieces -/

namespace Swaps

variable {count count' : Nat}

theorem refl (text : List Char) : Swaps old new 0 text text := by
  induction text with
  | nil => exact .nil
  | cons c rest ih => exact .same c ih

theorem append {left' right' : List Char} (h : Swaps old new count left right)
    (h' : Swaps old new count' left' right') :
    Swaps old new (count + count') (left ++ left') (right ++ right') := by
  induction h with
  | nil => simpa using h'
  | same c _ ih => exact .same c ih
  | swap _ ih =>
    rw [List.append_assoc, List.append_assoc, Nat.add_right_comm]
    exact .swap ih

/-- What adds up over texts is changed by each exchange alike. -/
theorem measure_eq {measure : List Char → Nat}
    (add : ∀ left right, measure (left ++ right) = measure left + measure right)
    (h : Swaps old new count left right) :
    measure right + count * measure old = measure left + count * measure new := by
  induction h with
  | nil => simp
  | @same count left right c _ ih =>
    have first : measure (c :: left) = measure [c] + measure left := add [c] left
    have second : measure (c :: right) = measure [c] + measure right := add [c] right
    omega
  | swap _ ih =>
    simp only [add, Nat.add_mul, Nat.one_mul]
    omega

theorem eq_of_same (h : Swaps old old count left right) : left = right := by
  induction h with
  | nil => rfl
  | same c _ ih => rw [ih]
  | swap _ ih => rw [ih]

theorem eq_of_none (h : Swaps old new 0 left right) : left = right := by
  generalize none : 0 = count at h
  induction h with
  | nil => rfl
  | same c _ ih => rw [ih none]
  | swap _ _ => cases none

/-- Pieces of one length stand at the same places on both sides. -/
theorem eq_or_none (h : Swaps old new count left right) (same : left = right)
    (length : old.length = new.length) : old = new ∨ count = 0 := by
  induction h with
  | nil => exact .inr rfl
  | same c _ ih => exact ih (List.cons.inj same).2
  | swap _ _ => exact .inl (List.append_inj same length).1

theorem eq_iff (h : Swaps old new count left right) :
    left = right ↔ old = new ∨ count = 0 := by
  constructor
  · intro same
    have lengths := h.measure_eq fun _ _ => List.length_append
    rw [same, Nat.add_left_cancel_iff] at lengths
    rcases Nat.eq_zero_or_pos count with none | some
    · exact .inr none
    · exact h.eq_or_none same (Nat.eq_of_mul_eq_mul_left some lengths)
  · rintro (rfl | rfl)
    · exact h.eq_of_same
    · exact h.eq_of_none

end Swaps

/-! ## Passing over a text -/

/-- A text is empty, or starts with the pattern, or with a character that starts no occurrence. -/
theorem passing {motive : List Char → Prop} (ne_nil : pattern ≠ []) (nil : motive [])
    (found : ∀ rest, motive rest → motive (pattern ++ rest))
    (char : ∀ c rest, ¬pattern <+: c :: rest → motive rest → motive (c :: rest))
    (text : List Char) : motive text := by
  induction size : text.length using Nat.strongRecOn generalizing text with
  | ind n ih =>
    subst size
    cases text with
    | nil => exact nil
    | cons c rest =>
      by_cases here : pattern <+: c :: rest
      · obtain ⟨behind, whole⟩ := here
        rw [← whole] at ih ⊢
        have some := List.length_pos_iff.2 ne_nil
        exact found behind (ih _ (by rw [List.length_append]; omega) behind rfl)
      · exact char c rest here (ih _ (Nat.lt_succ_self _) rest rfl)

section

variable (become : Option Char → Option Char → List Char) (before : Option Char)

theorem replaceFrom_inside (inside : Nat) (text : List Char) :
    replaceFrom pattern become before inside text =
      replaceFrom pattern become before 0 (text.drop inside) := by
  induction inside generalizing text with
  | zero => rfl
  | succ inside ih =>
    cases text with
    | nil => rfl
    | cons c rest => exact ih rest

theorem replaceFrom_found (ne_nil : pattern ≠ []) (rest : List Char) :
    replaceFrom pattern become before 0 (pattern ++ rest) =
      become before rest.head? ++ replaceFrom pattern become none 0 rest := by
  obtain ⟨c, tail, rfl⟩ := List.exists_cons_of_ne_nil ne_nil
  have here : (c :: tail).isPrefixOf (c :: (tail ++ rest)) = true :=
    List.isPrefixOf_iff_prefix.2 ⟨rest, rfl⟩
  rw [List.cons_append, replaceFrom, if_pos here, replaceFrom_inside]
  simp

theorem replaceFrom_char (here : ¬pattern <+: c :: rest) :
    replaceFrom pattern become before 0 (c :: rest) =
      c :: replaceFrom pattern become (some c) 0 rest := by
  rw [replaceFrom, if_neg (by rwa [List.isPrefixOf_iff_prefix])]

end

/-- A replacement that does not look at its neighbours. -/
theorem replaceFrom_const (ne_nil : pattern ≠ []) (before : Option Char) (text : List Char) :
    replaceFrom pattern (fun _ _ => replacement) before 0 text =
      replaceAll pattern replacement text := by
  rw [replaceAll, if_neg (by simpa using ne_nil)]
  induction text using passing ne_nil generalizing before with
  | nil => rfl
  | found rest _ => rw [replaceFrom_found _ _ ne_nil, replaceFrom_found _ _ ne_nil]
  | char c rest here _ => rw [replaceFrom_char _ _ here, replaceFrom_char _ _ here]

@[simp] theorem replaceAll_nil : replaceAll pattern replacement [] = [] := by
  unfold replaceAll
  split <;> rfl

theorem replaceAll_found (ne_nil : pattern ≠ []) (rest : List Char) :
    replaceAll pattern replacement (pattern ++ rest) =
      replacement ++ replaceAll pattern replacement rest := by
  rw [← replaceFrom_const ne_nil none, replaceFrom_found _ _ ne_nil, replaceFrom_const ne_nil]

theorem replaceAll_char (ne_nil : pattern ≠ []) (here : ¬pattern <+: c :: rest) :
    replaceAll pattern replacement (c :: rest) = c :: replaceAll pattern replacement rest := by
  rw [← replaceFrom_const ne_nil none, replaceFrom_char _ _ here, replaceFrom_const ne_nil]

/-! ## Patterns whose first character stands nowhere else in them -/

@[simp] theorem occurrences_nil : occurrences (c :: pattern) [] = 0 := rfl

theorem occurrences_cons (pattern : List Char) (d : Char) (rest : List Char) :
    occurrences pattern (d :: rest) =
      occurrences pattern rest + if pattern <+: d :: rest then 1 else 0 := by
  simp [occurrences, List.countP_cons]

theorem occurrences_le_append (pattern before text : List Char) :
    occurrences pattern text ≤ occurrences pattern (before ++ text) := by
  induction before with
  | nil => exact Nat.le_refl _
  | cons c before ih =>
    rw [List.cons_append, occurrences_cons]
    exact Nat.le_add_right_of_le ih

section

variable {tail skipped : List Char}

theorem not_prefix_of_ne {d : Char} (ne : d ≠ c) : ¬c :: tail <+: d :: rest := by
  rintro ⟨more, whole⟩
  exact ne (List.cons.inj whole).1.symm

theorem occurrences_skip (skip : c ∉ skipped) :
    occurrences (c :: tail) (skipped ++ rest) = occurrences (c :: tail) rest := by
  induction skipped with
  | nil => rfl
  | cons d skipped ih =>
    obtain ⟨ne, skip⟩ : c ≠ d ∧ c ∉ skipped := by simpa using skip
    rw [List.cons_append, occurrences_cons, if_neg (not_prefix_of_ne ne.symm), ih skip, Nat.add_zero]

theorem replaceAll_skip (skip : c ∉ skipped) :
    replaceAll (c :: tail) replacement (skipped ++ rest) =
      skipped ++ replaceAll (c :: tail) replacement rest := by
  induction skipped with
  | nil => rfl
  | cons d skipped ih =>
    obtain ⟨ne, skip⟩ : c ≠ d ∧ c ∉ skipped := by simpa using skip
    rw [List.cons_append, replaceAll_char (by simp) (not_prefix_of_ne ne.symm), ih skip,
      List.cons_append]

variable (own : c ∉ tail)
include own

/-- An occurrence does not reach into the next one. -/
theorem prefix_of_prefix_append (ne_nil : left ≠ [])
    (here : c :: tail <+: left ++ (c :: tail ++ rest)) : c :: tail <+: left := by
  obtain fits | short := Nat.le_total (c :: tail).length left.length
  · exact List.prefix_of_prefix_length_le here (List.prefix_append _ _) fits
  · obtain ⟨more, whole⟩ := List.prefix_of_prefix_length_le (List.prefix_append left _) here short
    cases more with
    | nil => rw [List.append_nil] at whole; exact whole ▸ List.prefix_rfl
    | cons d more =>
      -- What is missing of the occurrence would have to start like the next one.
      have both : left ++ d :: more <+: left ++ (c :: tail ++ rest) := by rw [whole]; exact here
      obtain ⟨behind, start⟩ := (List.prefix_append_right_inj left).1 both
      obtain rfl : d = c := (List.cons.inj start).1
      obtain ⟨e, left, rfl⟩ := List.exists_cons_of_ne_nil ne_nil
      rw [← (List.cons.inj whole).2] at own
      exact absurd (by simp) own

theorem occurrences_found : occurrences (c :: tail) (c :: tail ++ rest) =
    occurrences (c :: tail) rest + 1 := by
  rw [List.cons_append, occurrences_cons, if_pos ⟨rest, rfl⟩, occurrences_skip own]

theorem occurrences_append_found (left rest : List Char) :
    occurrences (c :: tail) (left ++ (c :: tail ++ rest)) =
      occurrences (c :: tail) left + (occurrences (c :: tail) rest + 1) := by
  induction left with
  | nil => rw [List.nil_append, occurrences_found own, occurrences_nil, Nat.zero_add]
  | cons d left ih =>
    have same : c :: tail <+: d :: (left ++ (c :: tail ++ rest)) ↔ c :: tail <+: d :: left :=
      ⟨prefix_of_prefix_append own (List.cons_ne_nil d left),
        fun here => here.trans (List.prefix_append (d :: left) _)⟩
    rw [List.cons_append, occurrences_cons, occurrences_cons, ih]
    simp only [same]
    omega

theorem replaceAll_append_found (left rest : List Char) :
    replaceAll (c :: tail) replacement (left ++ (c :: tail ++ rest)) =
      replaceAll (c :: tail) replacement left ++
        (replacement ++ replaceAll (c :: tail) replacement rest) := by
  have ne_nil : c :: tail ≠ [] := List.cons_ne_nil c tail
  induction left using passing ne_nil with
  | nil => rw [List.nil_append, replaceAll_found ne_nil, replaceAll_nil, List.nil_append]
  | found left ih =>
    rw [List.append_assoc, replaceAll_found ne_nil, replaceAll_found ne_nil, ih, List.append_assoc]
  | char d left here ih =>
    have still : ¬c :: tail <+: d :: (left ++ (c :: tail ++ rest)) := fun more =>
      here (prefix_of_prefix_append own (List.cons_ne_nil d left) more)
    rw [List.cons_append, replaceAll_char ne_nil still, replaceAll_char ne_nil here, ih,
      List.cons_append]

/-- Every occurrence is replaced, and nothing else. -/
theorem swaps_replaceAll (replacement text : List Char) :
    Swaps (c :: tail) replacement (occurrences (c :: tail) text) text
      (replaceAll (c :: tail) replacement text) := by
  have ne_nil : c :: tail ≠ [] := List.cons_ne_nil c tail
  induction text using passing ne_nil with
  | nil => rw [replaceAll_nil]; exact .nil
  | found rest ih =>
    rw [occurrences_found own, replaceAll_found ne_nil]
    exact .swap ih
  | char d rest here ih =>
    rw [occurrences_cons, if_neg here, replaceAll_char ne_nil here]
    exact .same d ih

end

end BoardSchema.Text
