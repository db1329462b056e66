import BoardSchema.Proofs.Distinct
import BoardSchema.Source.Document
/-!
The variables of a description. The lines of a region are those behind a section header of this
region; among them those of the defines region give names their values. Each name has the place of
its first definition and the value of its last.
-/
namespace BoardSchema

/-- The region that stands open behind lines: that of the last section header among them. -/
def regionBehind (before : List SourceLine) : Region :=
  ((before.filterMap SourceLine.section?).getLast?.map Region.ofSection).getD .other

/-- The lines of a region wherever its sections are. Section headers are in no region. -/
def regionLines (region : Region) (lines : List SourceLine) : List SourceLine :=
  lines.zipIdx.filterMap fun (line, index) =>
    if line.section? = none ∧ regionBehind (lines.take index) = region then some line else none

/-- A line that is no comment defines a name if there is a `=` on it. The name stands in front of the
first one, behind at most one `DEFINE `, and the value stands behind it. -/
inductive Defines (line : SourceLine) : Binding → Prop
  | marked {name value : List Char}
      (text : Text.trim line.text.toList = "DEFINE ".toList ++ (name ++ '=' :: value))
      (first : '=' ∉ name) :
      Defines line ⟨String.ofList (Text.trim name), String.ofList (Text.trim value)⟩
  | plain {name value : List Char} (text : Text.trim line.text.toList = name ++ '=' :: value)
      (first : '=' ∉ name) (no_comment : (Text.trim line.text.toList).head? ≠ some '#')
      (unmarked : ¬"DEFINE ".toList <+: Text.trim line.text.toList) :
      Defines line ⟨String.ofList (Text.trim name), String.ofList (Text.trim value)⟩

/-- What lines define, in order. Lines that define nothing are passed over. -/
inductive Definitions : List SourceLine → List Binding → Prop
  | nil : Definitions [] []
  | define {line : SourceLine} {binding : Binding} {rest : List SourceLine}
      {later : List Binding} (defines : Defines line binding) (tail : Definitions rest later) :
      Definitions (line :: rest) (binding :: later)
  | skip {line : SourceLine} {rest : List SourceLine} {later : List Binding}
      (nothing : ∀ binding, ¬Defines line binding) (tail : Definitions rest later) :
      Definitions (line :: rest) later

/-! ## Regions -/

namespace Document

theorem regionFrom_concat (region current : Region) (lines : List SourceLine) (last : SourceLine) :
    regionFrom region current (lines ++ [last]) = regionFrom region current lines ++
      if last.section? = none ∧
          ((lines.filterMap SourceLine.section?).getLast?.map Region.ofSection).getD current = region
        then [last] else [] := by
  induction lines generalizing current with
  | nil =>
    simp only [List.nil_append, regionFrom]
    cases last.section? <;> simp
  | cons line rest ih =>
    simp only [List.cons_append, regionFrom]
    cases shown : line.section? with
    | none =>
      simp only [ih]
      split <;> simp [shown]
    | some name =>
      simp only [ih, List.filterMap_cons, shown, List.getLast?_cons, Option.map_some,
        Option.getD_some, Option.getD_map]

end Document

theorem regionLines_concat (region : Region) (lines : List SourceLine) (last : SourceLine) :
    regionLines region (lines ++ [last]) = regionLines region lines ++
      if last.section? = none ∧ regionBehind lines = region then [last] else [] := by
  rw [regionLines, List.zipIdx_append, List.filterMap_append]
  congr 1
  · refine List.filterMap_congr fun entry mem => ?_
    obtain ⟨line, index⟩ := entry
    have inside : index < lines.length := by simpa using List.snd_lt_of_mem_zipIdx mem
    simp only [List.take_append_of_le_length (Nat.le_of_lt inside)]
  · by_cases here : last.section? = none ∧ regionBehind lines = region <;> simp [here]

theorem Document.region_eq (document : Document) (region : Region) :
    document.region region = regionLines region document.lines := by
  unfold Document.region
  induction document.lines using List.reverseRecOn with
  | nil => rfl
  | append_singleton lines last ih =>
    rw [regionFrom_concat, regionLines_concat, ih]
    rfl

/-! ## Definitions -/

namespace Binding

theorem isPrefixOf?_eq_none_iff {front text : List Char} :
    front.isPrefixOf? text = none ↔ ¬front <+: text := by
  simp only [Option.eq_none_iff_forall_ne_some, ne_eq, List.isPrefixOf?_eq_some_iff_append_eq,
    List.IsPrefix, not_exists]

theorem ofLine?_of_cut {line : SourceLine} {name value : List Char}
    (no_comment : (Text.trim line.text.toList).head? ≠ some '#')
    (solid : Text.trim line.text.toList ≠ [])
    (behind : ("DEFINE ".toList.isPrefixOf? (Text.trim line.text.toList)).getD
      (Text.trim line.text.toList) = name ++ '=' :: value) (first : '=' ∉ name) :
    ofLine? line = some ⟨String.ofList (Text.trim name), String.ofList (Text.trim value)⟩ := by
  have shown : ((Text.trim line.text.toList).isEmpty ||
      decide ((Text.trim line.text.toList).head? = some '#')) = false := by
    simp [no_comment, solid]
  simp only [ofLine?, shown, behind, Text.cutAt?_append first]
  rfl

theorem ofLine?_eq_some_iff {line : SourceLine} {binding : Binding} :
    ofLine? line = some binding ↔ Defines line binding := by
  constructor
  · intro shown
    simp only [ofLine?] at shown
    split at shown
    · cases shown
    · next solid =>
      simp only [Bool.or_eq_true, decide_eq_true_eq, not_or] at solid
      obtain ⟨⟨name, value⟩, cut, rfl⟩ := Option.map_eq_some_iff.1 shown
      have text := Text.cutAt?_eq_some cut
      have first := Text.not_mem_of_cutAt? cut
      cases mark : "DEFINE ".toList.isPrefixOf? (Text.trim line.text.toList) with
      | some rest =>
        rw [mark, Option.getD_some] at text
        rw [List.isPrefixOf?_eq_some_iff_append_eq] at mark
        exact .marked (text ▸ mark.symm) first
      | none =>
        rw [mark, Option.getD_none] at text
        exact .plain text first solid.2 (isPrefixOf?_eq_none_iff.1 mark)
  · rintro (⟨text, first⟩ | ⟨text, first, no_comment, unmarked⟩)
    · refine ofLine?_of_cut ?_ ?_ ?_ first
      · simp [text]
      · simp [text]
      · rw [List.isPrefixOf?_eq_some_iff_append_eq.2 text.symm, Option.getD_some]
    · refine ofLine?_of_cut no_comment ?_ ?_ first
      · simp [text]
      · rw [isPrefixOf?_eq_none_iff.2 unmarked, Option.getD_none, text]

theorem define_eq_putNamed (bindings : List Binding) (new : Binding) :
    define bindings new = putNamed Binding.name bindings new := by
  induction bindings with
  | nil => rfl
  | cons old rest ih => rw [define, putNamed, ih]

theorem definitions_filterMap (lines : List SourceLine) :
    Definitions lines (lines.filterMap ofLine?) := by
  induction lines with
  | nil => exact .nil
  | cons line rest ih =>
    cases shown : ofLine? line with
    | some binding =>
      rw [List.filterMap_cons_some shown]
      exact .define (ofLine?_eq_some_iff.1 shown) ih
    | none =>
      rw [List.filterMap_cons_none shown]
      refine .skip (fun binding defines => ?_) ih
      rw [ofLine?_eq_some_iff.2 defines] at shown
      cases shown

end Binding

theorem Document.bindings_eq_foldl (document : Document) : document.bindings =
    ((document.region .defines).filterMap Binding.ofLine?).foldl (putNamed Binding.name) [] := by
  rw [bindings, (funext₂ Binding.define_eq_putNamed : Binding.define = putNamed Binding.name)]

/-- The variables of a description have the names that its defines region defines, each once, in the
order of their first definitions, and each the value of its last definition. -/
theorem Document.bindings_keepLast (document : Document) : ∃ definitions,
    Definitions (regionLines .defines document.lines) definitions ∧
    KeepsLast Binding.name definitions document.bindings := by
  rw [← document.region_eq, document.bindings_eq_foldl]
  exact ⟨_, Binding.definitions_filterMap _, keepsLast_foldl Binding.name _⟩

example : (Document.mk "board.dsc" [⟨1, "[Defines]"⟩, ⟨2, "DEFINE ID = 1"⟩, ⟨3, "# ID = 2"⟩,
      ⟨4, "BOARD = A=B"⟩, ⟨5, "[Other]"⟩, ⟨6, "ID = 3"⟩, ⟨7, "[defines]"⟩, ⟨8, "ID=4"⟩]).bindings =
    [⟨"ID", "4"⟩, ⟨"BOARD", "A=B"⟩] := by decide +kernel

end BoardSchema
