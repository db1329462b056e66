import BoardSchema.Proofs.Numeral
import BoardSchema.Text.Lines
import BoardSchema.Text.Search
/-!
Texts of one line. What is cut out of a text has a line feed only if the text has one, and what is
put together of texts of one line is one line again. Texts of one line that are joined by line feeds
are the lines of what they come to, but for an empty one at the end.
-/
namespace BoardSchema

/-- A text without line feeds. -/
def OneLine (text : String) : Prop := '\n' ∉ text.toList

instance (text : String) : Decidable (OneLine text) := inferInstanceAs (Decidable (¬_))

namespace OneLine

variable {left right whole : String} {texts : List String}

@[simp] theorem append_iff : OneLine (left ++ right) ↔ OneLine left ∧ OneLine right := by
  simp [OneLine]

@[simp] theorem ofList_iff {text : List Char} : OneLine (String.ofList text) ↔ '\n' ∉ text := by
  simp [OneLine]

/-- What is cut out of a text of one line is one line. -/
theorem of_subset {part : List Char} (one : OneLine whole) (within : part ⊆ whole.toList) :
    OneLine (String.ofList part) :=
  ofList_iff.2 fun mem => one (within mem)

theorem intercalate {mark : String} (one : OneLine mark) (each : ∀ text ∈ texts, OneLine text) :
    OneLine (mark.intercalate texts) := by
  induction texts with
  | nil => simp [OneLine]
  | cons first rest ih =>
    obtain ⟨one_first, each⟩ := List.forall_mem_cons.1 each
    by_cases last : rest = []
    · simpa [last] using one_first
    · rw [String.intercalate_cons_of_ne_nil last]
      simpa [one_first, one] using ih each

/-! ## Numbers -/

theorem hex (width n : Nat) : OneLine (Numeral.hex width n) := by
  have digits := (Numeral.spells_hexDigits n).not_mem (by decide)
    (by decide : Numeral.digit? 16 '\n' = none)
  simp [OneLine, Numeral.hex, digits]

theorem toString (n : Nat) : OneLine (ToString.toString n) := by
  have digits := (Numeral.spells_toDigits (by decide) (by decide) n).not_mem (by decide)
    (by decide : Numeral.digit? 10 '\n' = none)
  simpa [OneLine] using digits

theorem padRight (width : Nat) (one : OneLine whole) : OneLine (Text.padRight width whole) := by
  simpa [Text.padRight] using one

end OneLine

/-! ## Parts of a text -/

namespace Text

variable {mark : Char} {text before after piece : List Char}

theorem trimStart_subset (text : List Char) : trimStart text ⊆ text :=
  (List.dropWhile_suffix _).subset

theorem trim_subset (text : List Char) : trim text ⊆ text := (padded_trim text).subset

theorem trimMark_subset (mark : Char) (text : List Char) : trimMark mark text ⊆ text := by
  intro c mem
  have behind := (List.dropWhile_suffix _).subset (List.mem_reverse.1 mem)
  exact (List.dropWhile_suffix _).subset (List.mem_reverse.1 behind)

theorem subset_of_cutAt? (cut : cutAt? mark text = some (before, after)) :
    before ⊆ text ∧ after ⊆ text := by
  rw [cutAt?_eq_some cut]
  exact ⟨List.subset_append_left .., fun c mem => by simp [mem]⟩

theorem subset_of_cutAtLast? (cut : cutAtLast? mark text = some (before, after)) :
    before ⊆ text ∧ after ⊆ text := by
  obtain ⟨⟨behind, front⟩, found, same⟩ := Option.map_eq_some_iff.1 cut
  cases same
  obtain ⟨behind_within, front_within⟩ := subset_of_cutAt? found
  exact ⟨fun c mem => List.mem_reverse.1 (front_within (List.mem_reverse.1 mem)),
    fun c mem => List.mem_reverse.1 (behind_within (List.mem_reverse.1 mem))⟩

theorem subset_intercalate {pieces : List (List Char)} (mem : piece ∈ pieces) (mark : List Char) :
    piece ⊆ mark.intercalate pieces := by
  induction pieces with
  | nil => cases mem
  | cons first rest ih =>
    by_cases last : rest = []
    · subst last
      simp [List.mem_singleton.1 mem]
    · rw [List.intercalate_cons_of_ne_nil last]
      rcases List.mem_cons.1 mem with rfl | mem
      · exact fun c found => by simp [found]
      · exact fun c found => List.mem_append_right _ (ih mem found)

theorem subset_of_mem_splitOn (mem : piece ∈ text.splitOn mark) : piece ⊆ text := by
  have within := subset_intercalate mem [mark]
  rwa [List.intercalate_splitOn] at within

/-! ## Lines of a text -/

theorem lineFeed_not_mem {line : List Char} (mem : line ∈ lines text) : '\n' ∉ line := by
  have piece {piece : List Char} (mem : piece ∈ text.splitOn '\n') : '\n' ∉ piece :=
    not_mem_of_mem_splitOn mem
  rcases List.mem_append.1 mem with mem | mem
  · obtain ⟨whole, found, rfl⟩ := List.mem_map.1 mem
    have clear := piece (List.dropLast_subset _ found)
    unfold withoutReturn
    split
    · exact fun mem => clear (List.dropLast_subset _ mem)
    · exact clear
  · obtain ⟨found, -⟩ := List.mem_filter.1 mem
    exact piece (List.mem_of_getLast? (Option.mem_toList.1 found))

/-- Texts one below the other: behind all but the last one a line ends, and an empty last one is no
line. -/
def below (texts : List String) : List String :=
  (texts.dropLast.map fun text => String.ofList (withoutReturn text.toList)) ++
    texts.getLast?.toList.filter (· ≠ "")

/-- Texts of one line that are joined by line feeds are lines one below the other. -/
theorem lines_intercalate {texts : List String} (each : ∀ text ∈ texts, OneLine text) :
    (lines ("\n".intercalate texts).toList).map String.ofList = below texts := by
  by_cases none : texts = []
  · subst none
    rfl
  have pieces : ("\n".intercalate texts).toList.splitOn '\n' = texts.map String.toList := by
    rw [String.toList_intercalate]
    refine List.splitOn_intercalate '\n' ?_ (by simpa using none)
    simpa [OneLine] using each
  have last (text : Option String) :
      ((text.map String.toList).toList.filter (!·.isEmpty)).map String.ofList =
        text.toList.filter (· ≠ "") := by
    cases text with
    | none => rfl
    | some text =>
      by_cases empty : text = "" <;> simp [empty]
  simp only [lines, lastLine, pieces, List.map_append, List.getLast?_map, last, below,
    ← List.map_dropLast, List.map_map]
  rfl

end Text
end BoardSchema
