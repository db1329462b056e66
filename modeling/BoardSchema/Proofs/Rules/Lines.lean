import BoardSchema.Proofs.Text.OneLine
import BoardSchema.Proofs.Text.Replacing
import BoardSchema.Rules.Basic
/-!
The substitution table and lines. Where neither what is looked for nor what is put in its place has
a line feed, no occurrence reaches over the end of a line and no line comes up that was not there, so
a text of several lines is replaced line by line.
-/
namespace BoardSchema

/-- The texts that a compilation may put below the headings of its documents are texts of one line,
and so are those that are looked for. -/
structure Rules.Unbroken (rules : Rules) : Prop where
  sources : ∀ rule ∈ rules.substitutions, OneLine rule.source
  replacements : ∀ rule ∈ rules.substitutions, OneLine rule.replacement
  paddingPrefix : OneLine rules.paddingPrefix
  bitGroupTag : OneLine rules.bitGroupTag

namespace Text

variable {pattern front rest text : List Char} {mark : Char} {before : Option Char}
  {become : Option Char → Option Char → List Char}

theorem not_mem_replaceFrom (clear : ∀ before after, mark ∉ become before after)
    (inside : Nat) (none : mark ∉ text) :
    mark ∉ replaceFrom pattern become before inside text := by
  induction text generalizing before inside with
  | nil => cases inside <;> simp [replaceFrom]
  | cons c rest ih =>
    obtain ⟨other, none⟩ : mark ≠ c ∧ mark ∉ rest := by simpa using none
    cases inside with
    | succ inside => exact ih inside none
    | zero =>
      rw [replaceFrom]
      split
      · simpa using ⟨clear _ _, ih _ none⟩
      · simpa using ⟨other, ih 0 none⟩

/-- A pattern without the mark does not reach over it. -/
theorem prefix_of_prefix_append_cons (front : List Char) (clear : mark ∉ pattern)
    (here : pattern <+: front ++ mark :: rest) : pattern <+: front := by
  rcases List.prefix_or_prefix_of_prefix here (List.prefix_append front _) with fits | ⟨more, whole⟩
  · exact fits
  · cases more with
    | nil => exact ⟨[], by simpa using whole.symm⟩
    | cons c more =>
      rw [← whole, List.prefix_append_right_inj, List.cons_prefix_cons] at here
      exact absurd (by simp [← whole, here.1]) clear

/-- A passage that starts behind a mark goes on as if it started with the text. -/
theorem replaceFrom_behind (alike : become (some mark) = become none) (text : List Char) :
    replaceFrom pattern become (some mark) 0 text = replaceFrom pattern become none 0 text := by
  cases text with
  | nil => rfl
  | cons c rest => rw [replaceFrom, replaceFrom, alike]

/-- A text is passed up to a mark that no occurrence holds, and then the text behind it. -/
theorem replaceFrom_append_cons (ne_nil : pattern ≠ []) (clear : mark ∉ pattern)
    (ahead : ∀ before, become before (some mark) = become before none)
    (behind : become (some mark) = become none) (before : Option Char) (front rest : List Char) :
    replaceFrom pattern become before 0 (front ++ mark :: rest) =
      replaceFrom pattern become before 0 front ++
        mark :: replaceFrom pattern become none 0 rest := by
  induction front using passing ne_nil generalizing before with
  | nil =>
    have here : ¬pattern <+: mark :: rest := fun here =>
      ne_nil (List.prefix_nil.1 (prefix_of_prefix_append_cons [] clear here))
    rw [List.nil_append, replaceFrom_char _ _ here, replaceFrom_behind behind]
    rfl
  | found front ih =>
    have next : become before (front ++ mark :: rest).head? = become before front.head? := by
      cases front with
      | nil => exact ahead before
      | cons c front => rfl
    rw [List.append_assoc, replaceFrom_found _ _ ne_nil, replaceFrom_found _ _ ne_nil, ih, next,
      List.append_assoc]
  | char c front here ih =>
    have still : ¬pattern <+: c :: (front ++ mark :: rest) := fun more =>
      here (prefix_of_prefix_append_cons (c :: front) clear more)
    rw [List.cons_append, replaceFrom_char _ _ still, replaceFrom_char _ _ here, ih,
      List.cons_append]

end Text

namespace Substitution

variable {rule : Substitution} {text : List Char}

theorem not_mem_apply (source : OneLine rule.source) (replacement : OneLine rule.replacement)
    (none : '\n' ∉ text) : '\n' ∉ rule.apply text := by
  unfold apply Text.replaceAll
  split
  · exact none
  · split
    · refine Text.not_mem_replaceFrom (fun before after => ?_) 0 none
      unfold wordReplacement
      split
      · exact source
      · exact replacement
    · exact Text.not_mem_replaceFrom (fun _ _ => replacement) 0 none

/-- No occurrence reaches over the end of a line, and none is spared for what stands there. -/
theorem apply_append_cons (source : OneLine rule.source) (front rest : List Char) :
    rule.apply (front ++ '\n' :: rest) = rule.apply front ++ '\n' :: rule.apply rest := by
  have solid : isWordChar '\n' = false := by decide
  unfold apply
  by_cases empty : rule.source.toList.isEmpty
  · simp [empty]
  · have ne_nil : rule.source.toList ≠ [] := by simpa using empty
    by_cases word : rule.wholeWord
    · simp only [empty, word, if_true, Bool.false_eq_true, if_false]
      refine Text.replaceFrom_append_cons ne_nil source (fun before => ?_) ?_ none front rest
      · simp [wordReplacement, solid]
      · funext after
        simp [wordReplacement, solid]
    · simp only [empty, word, Bool.false_eq_true, if_false, Text.replaceAll]
      exact Text.replaceFrom_append_cons ne_nil source (fun _ => rfl) rfl none front rest

theorem apply_nil (rule : Substitution) : rule.apply [] = [] := by
  unfold apply
  split
  · rfl
  · split
    · rfl
    · exact Text.replaceAll_nil

theorem apply_intercalate (source : OneLine rule.source) (lines : List (List Char)) :
    rule.apply (['\n'].intercalate lines) = ['\n'].intercalate (lines.map rule.apply) := by
  induction lines with
  | nil => exact rule.apply_nil
  | cons first rest ih =>
    by_cases last : rest = []
    · simp [last]
    · rw [List.map_cons, List.intercalate_cons_of_ne_nil last,
        List.intercalate_cons_of_ne_nil (by simpa using last), List.append_assoc,
        List.singleton_append, apply_append_cons source, ih]
      simp

end Substitution

namespace Rules

variable {rules : Rules}

theorem Unbroken.oneLine_substitute (unbroken : rules.Unbroken) {text : String}
    (one : OneLine text) : OneLine (rules.substitute text) := by
  have passed (table : List Substitution) (within : table ⊆ rules.substitutions)
      (text : List Char) (none : '\n' ∉ text) :
      '\n' ∉ table.foldl (fun text rule => rule.apply text) text := by
    induction table generalizing text with
    | nil => exact none
    | cons rule rest ih =>
      obtain ⟨here, within⟩ := List.cons_subset.1 within
      exact ih within _ (Substitution.not_mem_apply (unbroken.sources rule here)
        (unbroken.replacements rule here) none)
  exact OneLine.ofList_iff.2 (passed _ (List.Subset.refl _) _ one)

/-- Texts below each other are replaced one by one. -/
theorem Unbroken.substitute_intercalate (unbroken : rules.Unbroken) (texts : List String) :
    rules.substitute ("\n".intercalate texts) =
      "\n".intercalate (texts.map rules.substitute) := by
  have passed (table : List Substitution) (within : table ⊆ rules.substitutions)
      (lines : List (List Char)) :
      table.foldl (fun text rule => rule.apply text) (['\n'].intercalate lines) =
        ['\n'].intercalate (lines.map (table.foldl fun text rule => rule.apply text)) := by
    induction table generalizing lines with
    | nil => simp
    | cons rule rest ih =>
      obtain ⟨here, within⟩ := List.cons_subset.1 within
      rw [List.foldl_cons, Substitution.apply_intercalate (unbroken.sources rule here),
        ih within, List.map_map]
      rfl
  rw [← String.toList_inj, substitute, Substitution.applyAll, String.toList_ofList,
    String.toList_intercalate, String.toList_intercalate, List.map_map]
  refine (passed _ (List.Subset.refl _) _).trans (congrArg _ ?_)
  rw [List.map_map]
  exact List.map_congr_left fun text _ => (String.toList_ofList).symm

end Rules
end BoardSchema
