import BoardSchema.Proofs.Text.Replacing
import BoardSchema.Rules.Substitution
/-!
Replacing whole words. An occurrence of the word is replaced if no word character stands next to it.
The passage over a text forgets an occurrence that it has passed, so a word character at its end does
not protect an occurrence that follows at once; everywhere else the neighbours are those of the text.
-/
namespace BoardSchema.Substitution
open Text

/-- Replaces the occurrences that have no word character next to them in the text, where `passed` is
what stands before. `inside` counts the characters of an occurrence that are still to be passed. -/
def replaceWordsFrom (rule : Substitution) :
    (passed : List Char) → (inside : Nat) → (text : List Char) → List Char
  | _, _, [] => []
  | passed, inside + 1, c :: rest => rule.replaceWordsFrom (passed ++ [c]) inside rest
  | passed, 0, c :: rest =>
    if rule.source.toList.isPrefixOf (c :: rest) then
      rule.wordReplacement passed.getLast? ((c :: rest).drop rule.source.toList.length).head? ++
        rule.replaceWordsFrom (passed ++ [c]) (rule.source.toList.length - 1) rest
    else c :: rule.replaceWordsFrom (passed ++ [c]) 0 rest

def replaceWords (rule : Substitution) (text : List Char) : List Char :=
  rule.replaceWordsFrom [] 0 text

/-- The passage over a text comes to a place behind which `behind` is left. -/
inductive Reaches (pattern : List Char) : (text behind : List Char) → Prop
  | here (text : List Char) : Reaches pattern text text
  | occurrence {rest behind : List Char} (later : Reaches pattern rest behind) :
      Reaches pattern (pattern ++ rest) behind
  | char {c : Char} {rest behind : List Char} (here : ¬pattern <+: c :: rest)
      (later : Reaches pattern rest behind) : Reaches pattern (c :: rest) behind

/-- A text starts with the word, which ends in a word character, and no word character follows. -/
def EndsWord (rule : Substitution) (text : List Char) : Prop :=
  ∃ behind, text = rule.source.toList ++ behind ∧
    rule.source.toList.getLast?.any isWordChar = true ∧ behind.head?.any isWordChar = false

/-- The word stands twice in a row and ends in a word character, and none follows: what stands before
the second occurrence has been passed with the first one. -/
def Adjoins (rule : Substitution) (text : List Char) : Prop :=
  ∃ again, Reaches rule.source.toList text (rule.source.toList ++ again) ∧ rule.EndsWord again

variable {rule : Substitution} {text rest passed : List Char}

/-! ## The passage -/

theorem replaceWordsFrom_inside (rule : Substitution) (passed skipped rest : List Char) :
    rule.replaceWordsFrom passed skipped.length (skipped ++ rest) =
      rule.replaceWordsFrom (passed ++ skipped) 0 rest := by
  induction skipped generalizing passed with
  | nil => rw [List.append_nil]; rfl
  | cons c skipped ih =>
    rw [List.length_cons, List.cons_append, replaceWordsFrom, ih, List.append_assoc,
      List.singleton_append]

theorem replaceWordsFrom_found (ne_nil : rule.source.toList ≠ []) (rest : List Char) :
    rule.replaceWordsFrom passed 0 (rule.source.toList ++ rest) =
      rule.wordReplacement passed.getLast? rest.head? ++
        rule.replaceWordsFrom (passed ++ rule.source.toList) 0 rest := by
  obtain ⟨c, tail, whole⟩ := List.exists_cons_of_ne_nil ne_nil
  have here : rule.source.toList.isPrefixOf (c :: (tail ++ rest)) = true :=
    List.isPrefixOf_iff_prefix.2 ⟨rest, by rw [whole]; rfl⟩
  have later := replaceWordsFrom_inside rule (passed ++ [c]) tail rest
  rw [whole, List.cons_append, replaceWordsFrom, if_pos here, whole]
  simp only [List.length_cons, Nat.add_sub_cancel, later, List.append_assoc, List.singleton_append,
    List.drop_succ_cons, List.drop_left]

theorem replaceWordsFrom_char {c : Char} (here : ¬rule.source.toList <+: c :: rest) :
    rule.replaceWordsFrom passed 0 (c :: rest) =
      c :: rule.replaceWordsFrom (passed ++ [c]) 0 rest := by
  rw [replaceWordsFrom, if_neg (by rwa [List.isPrefixOf_iff_prefix])]

/-! ## Words in a row -/

theorem not_adjoins_nil (ne_nil : rule.source.toList ≠ []) : ¬rule.Adjoins [] := by
  rintro ⟨again, reached, -⟩
  generalize start : rule.source.toList ++ again = text at reached
  generalize whole : ([] : List Char) = before at reached
  cases reached with
  | here => rw [← whole] at start; simp [ne_nil] at start
  | occurrence _ => simp [ne_nil] at whole
  | char _ _ => cases whole

theorem adjoins_found (rest : List Char) :
    rule.Adjoins (rule.source.toList ++ rest) ↔ rule.Adjoins rest ∨ rule.EndsWord rest := by
  constructor
  · rintro ⟨again, reached, ends⟩
    generalize whole : rule.source.toList ++ rest = text at reached
    generalize start : rule.source.toList ++ again = behind at reached
    cases reached with
    | here =>
      rw [← start] at whole
      exact .inr (List.append_cancel_left whole ▸ ends)
    | occurrence later =>
      rw [← start] at later
      exact .inl ⟨again, List.append_cancel_left whole ▸ later, ends⟩
    | char here _ => exact absurd ⟨rest, whole⟩ here
  · rintro (⟨again, reached, ends⟩ | ends)
    · exact ⟨again, .occurrence reached, ends⟩
    · exact ⟨rest, .here _, ends⟩

theorem adjoins_char {c : Char} (here : ¬rule.source.toList <+: c :: rest) :
    rule.Adjoins (c :: rest) ↔ rule.Adjoins rest := by
  constructor
  · rintro ⟨again, reached, ends⟩
    generalize whole : c :: rest = text at reached
    generalize start : rule.source.toList ++ again = behind at reached
    cases reached with
    | here => exact absurd ⟨again, start.trans whole.symm⟩ here
    | occurrence _ => exact absurd ⟨_, whole.symm⟩ here
    | char _ later =>
      obtain ⟨rfl, rfl⟩ := List.cons.inj whole
      exact ⟨again, start ▸ later, ends⟩
  · rintro ⟨again, reached, ends⟩
    exact ⟨again, .char here reached, ends⟩

theorem endsWord_found (rest : List Char) : rule.EndsWord (rule.source.toList ++ rest) ↔
    rule.source.toList.getLast?.any isWordChar = true ∧ rest.head?.any isWordChar = false := by
  simp [EndsWord]

/-- A word is spared for the character on its left, where that is passed over by the other. -/
theorem wordReplacement_forgotten (rule : Substitution) (after : Option Char) :
    (rule.source.toList.getLast?.any isWordChar = true ∧ after.any isWordChar = false ∧
      rule.wordReplacement rule.source.toList.getLast? after = rule.source.toList ∧
      rule.wordReplacement none after = rule.replacement.toList) ∨
    (¬(rule.source.toList.getLast?.any isWordChar = true ∧ after.any isWordChar = false) ∧
      rule.wordReplacement rule.source.toList.getLast? after = rule.wordReplacement none after) := by
  unfold wordReplacement
  cases rule.source.toList.getLast?.any isWordChar <;> cases after.any isWordChar <;> simp

/-- The two ways to pass a text differ in the words that adjoin others. -/
theorem swaps_replaceFrom (ne_nil : rule.source.toList ≠ []) (text : List Char) :
    (∀ passed, ∃ count,
      Swaps rule.source.toList rule.replacement.toList count
        (rule.replaceWordsFrom passed 0 text)
        (replaceFrom rule.source.toList rule.wordReplacement passed.getLast? 0 text) ∧
      (count = 0 ↔ ¬rule.Adjoins text)) ∧
    ∀ passed, passed.getLast? = rule.source.toList.getLast? → ∃ count,
      Swaps rule.source.toList rule.replacement.toList count
        (rule.replaceWordsFrom passed 0 text)
        (replaceFrom rule.source.toList rule.wordReplacement none 0 text) ∧
      (count = 0 ↔ ¬(rule.Adjoins text ∨ rule.EndsWord text)) := by
  induction text using passing ne_nil with
  | nil =>
    have none := not_adjoins_nil ne_nil
    have ends : ¬rule.EndsWord [] := by simp [EndsWord, ne_nil]
    exact ⟨fun _ => ⟨0, .nil, by simp [none]⟩, fun _ _ => ⟨0, .nil, by simp [none, ends]⟩⟩
  | found rest ih =>
    have behind (passed : List Char) :
        (passed ++ rule.source.toList).getLast? = rule.source.toList.getLast? :=
      List.getLast?_append_of_ne_nil _ ne_nil
    refine ⟨fun passed => ?_, fun passed word => ?_⟩
    · obtain ⟨count, swaps, none⟩ := ih.2 _ (behind passed)
      rw [replaceWordsFrom_found ne_nil, replaceFrom_found _ _ ne_nil, adjoins_found]
      exact ⟨count, by simpa using (Swaps.refl _).append swaps, none⟩
    · obtain ⟨count, swaps, none⟩ := ih.2 _ (behind passed)
      rw [replaceWordsFrom_found ne_nil, replaceFrom_found _ _ ne_nil, adjoins_found,
        endsWord_found, word]
      rcases rule.wordReplacement_forgotten rest.head? with ⟨ends, free, spared, taken⟩ | ⟨not, same⟩
      · rw [spared, taken]
        exact ⟨count + 1, .swap swaps, by simp [ends, free]⟩
      · rw [same]
        exact ⟨count, by simpa using (Swaps.refl _).append swaps, by rw [none]; simp [not]⟩
  | char c rest here ih =>
    have ends : ¬rule.EndsWord (c :: rest) := fun ⟨behind, whole, _⟩ => here ⟨behind, whole.symm⟩
    have step (passed : List Char) : ∃ count, Swaps rule.source.toList rule.replacement.toList count
        (rule.replaceWordsFrom (passed ++ [c]) 0 rest)
        (replaceFrom rule.source.toList rule.wordReplacement (some c) 0 rest) ∧
        (count = 0 ↔ ¬rule.Adjoins rest) := by
      simpa using ih.1 (passed ++ [c])
    refine ⟨fun passed => ?_, fun passed _ => ?_⟩
    all_goals
      obtain ⟨count, swaps, none⟩ := step passed
      rw [replaceWordsFrom_char here, replaceFrom_char _ _ here, adjoins_char here]
    · exact ⟨count, .same c swaps, none⟩
    · exact ⟨count, .same c swaps, by simpa [ends] using none⟩

/-- Whole words are replaced as their neighbours in the text say, if and only if no word adjoins
another one or the replacement is the word itself. -/
theorem apply_eq_replaceWords_iff {rule : Substitution} (words : rule.wholeWord = true)
    (ne_empty : rule.source ≠ "") (text : List Char) :
    rule.apply text = rule.replaceWords text ↔
      rule.replacement = rule.source ∨ ¬rule.Adjoins text := by
  have ne_nil : rule.source.toList ≠ [] := by simpa using ne_empty
  obtain ⟨count, swaps, counted⟩ := (swaps_replaceFrom ne_nil text).1 []
  calc rule.apply text = rule.replaceWords text
    _ ↔ rule.replaceWords text =
        replaceFrom rule.source.toList rule.wordReplacement none 0 text := by
      rw [apply, if_neg (by simpa using ne_nil), if_pos words, eq_comm]
    _ ↔ rule.source.toList = rule.replacement.toList ∨ count = 0 := swaps.eq_iff
    _ ↔ rule.replacement = rule.source ∨ ¬rule.Adjoins text := by
      rw [String.toList_inj, eq_comm, counted]

def trueWord : Substitution := ⟨"TRUE", "1", true⟩

/-- A word by itself, one at the start of a longer one, and two that stand apart. -/
theorem trueWord_replaceWords : trueWord.wholeWord = true ∧ trueWord.source ≠ "" ∧
    trueWord.apply "(A == TRUE) and $TRUEISH, TRUE-TRUE".toList =
      trueWord.replaceWords "(A == TRUE) and $TRUEISH, TRUE-TRUE".toList ∧
    trueWord.replaceWords "(A == TRUE) and $TRUEISH, TRUE-TRUE".toList =
      "(A == 1) and $TRUEISH, 1-1".toList ∧
    ¬trueWord.Adjoins "(A == TRUE) and $TRUEISH, TRUE-TRUE".toList := by
  have same : trueWord.apply "(A == TRUE) and $TRUEISH, TRUE-TRUE".toList =
      trueWord.replaceWords "(A == TRUE) and $TRUEISH, TRUE-TRUE".toList := by decide
  refine ⟨rfl, by decide, same, by decide, ?_⟩
  rcases (apply_eq_replaceWords_iff rfl (by decide) _).1 same with own | apart
  · exact absurd own (by decide)
  · exact apart

/-- The second half of a longer word is replaced. -/
theorem wordTwice_not_replaceWords :
    trueWord.apply "TRUETRUE".toList = "TRUE1".toList ∧
      trueWord.replaceWords "TRUETRUE".toList = "TRUETRUE".toList ∧
      trueWord.apply "TRUETRUE".toList ≠ trueWord.replaceWords "TRUETRUE".toList := by
  decide

end BoardSchema.Substitution
