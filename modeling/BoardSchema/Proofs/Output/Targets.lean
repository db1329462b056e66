import BoardSchema.Proofs.Output.Documents
import Mathlib.Data.Set.Function
/-!
Documents of include targets. The document of an include path has the stem of the path for its name,
so lines for two paths are kept apart just where their stems differ, and apart from the lines outside
of all includes where no stem is that of the top document.
-/
namespace BoardSchema

/-- What the document of an include path is named after. -/
def satelliteStem (path : String) : List Char :=
  ((Path.stem? path.toList).filter (· ≠ ['.', '.'])).getD "include".toList

theorem satelliteName_eq (path : String) :
    satelliteName path = String.ofList (satelliteStem path) ++ ".yaml" := rfl

theorem satelliteName_eq_iff {path other : String} :
    satelliteName path = satelliteName other ↔ satelliteStem path = satelliteStem other := by
  rw [satelliteName_eq, satelliteName_eq, String.append_left_inj, String.ofList_inj]

namespace Rendering

/-- Lines for one include path never go to the document of lines for another one, and lines inside of
an include never go to the document of lines outside of all includes. -/
def KeptApart (top : String) (trace : List TracedLine) : Prop :=
  ∀ line ∈ trace, ∀ other ∈ trace,
    line.path ≠ other.path → documentOf top line.path ≠ documentOf top other.path

instance (top : String) (trace : List TracedLine) : Decidable (KeptApart top trace) :=
  inferInstanceAs (Decidable (∀ line ∈ trace, ∀ other ∈ trace, _ → _))

/-- The include paths that lines are rendered for. -/
def shownPaths (trace : List TracedLine) : List String := trace.filterMap TracedLine.path

variable {rules : Rules} {table : TemplateTable} {top : String} {bindings : List Binding}
  {templates : List (Template × List Entry)} {configs : List Entry}

theorem mem_shownPaths {trace : List TracedLine} {path : String} :
    path ∈ shownPaths trace ↔ ∃ line ∈ trace, line.path = some path := List.mem_filterMap

/-- The variables are shown outside of all includes. -/
theorem exists_outside {trace : List TracedLine}
    (h : schemaTrace rules table bindings templates configs = .ok trace) :
    ∃ line ∈ trace, line.path = none := by
  obtain ⟨shown, -, h⟩ := bind_eq_ok.1 h
  obtain ⟨entries, -, h⟩ := bind_eq_ok.1 h
  cases h
  exact ⟨⟨none, .text ⟨0, "variable:"⟩⟩, by simp [linesAt], rfl⟩

theorem keptApart_iff {trace : List TracedLine} (outside : ∃ line ∈ trace, line.path = none) :
    KeptApart top trace ↔ (∀ path ∈ shownPaths trace, satelliteName path ≠ top) ∧
      Set.InjOn satelliteStem {path | path ∈ shownPaths trace} := by
  constructor
  · intro apart
    constructor
    · intro path hpath
      obtain ⟨line, hline, inside⟩ := mem_shownPaths.1 hpath
      obtain ⟨other, hother, outside⟩ := outside
      simpa [inside, outside, documentOf] using apart line hline other hother
    · intro path hpath other hother same
      obtain ⟨line, hline, inside⟩ := mem_shownPaths.1 hpath
      obtain ⟨line', hline', inside'⟩ := mem_shownPaths.1 hother
      by_contra differ
      have apart_documents := apart line hline line' hline'
      simp only [inside, inside', documentOf, Option.elim_some, ne_eq, Option.some.injEq]
        at apart_documents
      exact apart_documents differ (satelliteName_eq_iff.2 same)
  · rintro ⟨below, injective⟩ line hline other hother differ same
    cases inside : line.path with
    | none =>
      cases inside' : other.path with
      | none => exact differ (inside.trans inside'.symm)
      | some path =>
        rw [inside, inside'] at same
        exact below path (mem_shownPaths.2 ⟨other, hother, inside'⟩) same.symm
    | some path =>
      have shown := mem_shownPaths.2 ⟨line, hline, inside⟩
      cases inside' : other.path with
      | none =>
        rw [inside, inside'] at same
        exact below path shown same
      | some path' =>
        rw [inside, inside'] at same
        have equal := injective shown (mem_shownPaths.2 ⟨other, hother, inside'⟩)
          (satelliteName_eq_iff.1 same)
        exact differ (by rw [inside, inside', equal])

/-- Every line goes to the document of the include path that it is rendered for. Lines for different
paths are kept apart exactly if no two of these paths have the same stem and none has the stem of the
top document. -/
theorem schema_targets {bundle : Bundle}
    (h : (schema rules table top bindings templates configs).outcome = .ok bundle) :
    ∃ trace, schemaTrace rules table bindings templates configs = .ok trace ∧
      (∀ document ∈ bundle,
        document.lines = rules.heading ++ linesOf top document.file trace) ∧
      (∀ line ∈ trace, ∃ document ∈ bundle, document.file = documentOf top line.path) ∧
      (KeptApart top trace ↔ (∀ path ∈ shownPaths trace, satelliteName path ≠ top) ∧
        Set.InjOn satelliteStem {path | path ∈ shownPaths trace}) := by
  rw [schema_eq] at h
  obtain ⟨trace, htrace, h⟩ := bind_eq_ok.1 h
  cases h
  refine ⟨trace, htrace, ?_, ?_, keptApart_iff (exists_outside htrace)⟩
  · intro document hdocument
    obtain ⟨file, -, rfl⟩ := List.mem_map.1 hdocument
    rfl
  · intro line hline
    have housed : Housed top _ trace := housed_schemaTrace htrace
    exact ⟨_, List.mem_map_of_mem (List.mem_eraseDups.2 (housed line hline)), rfl⟩

/-- A template from one include file and a field from another. -/
def uartTemplate : Template × List Entry :=
  (⟨"UART", "cfg/Uart.dlt", 1, []⟩,
    [.field { name := "Baud", role := .plain, line := 2, length := .fixed 4 }])

def pinsInclude : List Entry :=
  [.includeOpen "Pins.dlt",
    .field { name := "Tx", role := .plain, line := 3, length := .fixed 1 },
    .includeClose]

theorem uartAndPins_targets : ∃ bundle trace,
    (schema { emitAll := true } [] "Board.yaml" [] [uartTemplate] pinsInclude).outcome =
      .ok bundle ∧
    schemaTrace { emitAll := true } [] [] [uartTemplate] pinsInclude = .ok trace ∧
    bundle.map (fun document => (document.file, document.lines.drop 8)) =
      [("Board.yaml", ["variable:", "", "template:", "  !include Uart.yaml", "", "configs:",
          "  - !include Pins.yaml"]),
        ("Uart.yaml", ["UART: >", "  - Baud :", "      length       : 0x04", ""]),
        ("Pins.yaml", ["- Tx :", "    length       : 0x01"])] ∧
    (shownPaths trace).eraseDups = ["cfg/Uart.dlt", "Pins.dlt"] ∧
    KeptApart "Board.yaml" trace := by
  have view : (schema { emitAll := true } [] "Board.yaml" [] [uartTemplate]
      pinsInclude).outcome.toOption.map (fun bundle =>
        bundle.map fun document => (document.file, document.lines.drop 8)) = some
      [("Board.yaml", ["variable:", "", "template:", "  !include Uart.yaml", "", "configs:",
          "  - !include Pins.yaml"]),
        ("Uart.yaml", ["UART: >", "  - Baud :", "      length       : 0x04", ""]),
        ("Pins.yaml", ["- Tx :", "    length       : 0x01"])] := by
    decide +kernel
  have paths : (schemaTrace { emitAll := true } [] [] [uartTemplate] pinsInclude).toOption.map
      (fun trace => (shownPaths trace).eraseDups) = some ["cfg/Uart.dlt", "Pins.dlt"] := by
    decide +kernel
  have stems : ∀ path ∈ ["cfg/Uart.dlt", "Pins.dlt"], satelliteName path ≠ "Board.yaml" ∧
      ∀ other ∈ ["cfg/Uart.dlt", "Pins.dlt"],
        satelliteStem path = satelliteStem other → path = other := by
    decide +kernel
  obtain ⟨bundle, h, view⟩ := exists_eq_ok view
  obtain ⟨trace, htrace, paths⟩ := exists_eq_ok paths
  obtain ⟨trace', htrace', -, -, apart⟩ := schema_targets h
  obtain rfl : trace = trace' := Except.ok.inj (htrace.symm.trans htrace')
  have shown : ∀ path ∈ shownPaths trace, path ∈ ["cfg/Uart.dlt", "Pins.dlt"] :=
    fun path hpath => paths ▸ List.mem_eraseDups.2 hpath
  refine ⟨bundle, trace, h, htrace, view, paths, apart.2 ⟨?_, ?_⟩⟩
  · exact fun path hpath => (stems path (shown path hpath)).1
  · exact fun path hpath other hother => (stems path (shown path hpath)).2 other (shown other hother)

/-- Two include paths with one stem, and one with the stem of the top document. -/
def sameStems : List Entry :=
  [.includeOpen "a/Uart.dlt",
    .field { name := "A", role := .plain, line := 1, length := .fixed 1 },
    .includeClose,
    .includeOpen "b/Uart.dlt",
    .field { name := "B", role := .plain, line := 2, length := .fixed 1 },
    .includeClose,
    .includeOpen "cfg/Board.dlt",
    .field { name := "C", role := .plain, line := 3, length := .fixed 1 },
    .includeClose]

/-- Two include files share a document, and the top document refers to itself. -/
theorem sameStems_not_keptApart : ∃ bundle trace,
    (schema { emitAll := true } [] "Board.yaml" [] [] sameStems).outcome = .ok bundle ∧
    schemaTrace { emitAll := true } [] [] [] sameStems = .ok trace ∧
    bundle.map (fun document => (document.file, document.lines.drop 8)) =
      [("Board.yaml", ["variable:", "", "template:", "", "configs:", "  - !include Uart.yaml",
          "  - !include Uart.yaml", "  - !include Board.yaml", "- C :", "    length       : 0x01"]),
        ("Uart.yaml", ["- A :", "    length       : 0x01", "- B :", "    length       : 0x01"])] ∧
    ⟨some "a/Uart.dlt", .text ⟨0, "- A :"⟩⟩ ∈ trace ∧
    ⟨some "b/Uart.dlt", .text ⟨0, "- B :"⟩⟩ ∈ trace ∧
    ⟨some "cfg/Board.dlt", .text ⟨0, "- C :"⟩⟩ ∈ trace ∧ ¬ KeptApart "Board.yaml" trace := by
  have view : (schema { emitAll := true } [] "Board.yaml" [] [] sameStems).outcome.toOption.map
      (fun bundle => bundle.map fun document => (document.file, document.lines.drop 8)) = some
      [("Board.yaml", ["variable:", "", "template:", "", "configs:", "  - !include Uart.yaml",
          "  - !include Uart.yaml", "  - !include Board.yaml", "- C :", "    length       : 0x01"]),
        ("Uart.yaml", ["- A :", "    length       : 0x01", "- B :", "    length       : 0x01"])] := by
    decide +kernel
  have lines : (schemaTrace { emitAll := true } [] [] [] sameStems).toOption.map (fun trace =>
      decide (⟨some "a/Uart.dlt", .text ⟨0, "- A :"⟩⟩ ∈ trace ∧
        ⟨some "b/Uart.dlt", .text ⟨0, "- B :"⟩⟩ ∈ trace ∧
        ⟨some "cfg/Board.dlt", .text ⟨0, "- C :"⟩⟩ ∈ trace)) = some true := by
    decide +kernel
  obtain ⟨bundle, h, view⟩ := exists_eq_ok view
  obtain ⟨trace, htrace, lines⟩ := exists_eq_ok lines
  obtain ⟨first, second, third⟩ := of_decide_eq_true lines
  have merged : documentOf "Board.yaml" "a/Uart.dlt" = documentOf "Board.yaml" "b/Uart.dlt" := by
    decide +kernel
  refine ⟨bundle, trace, h, htrace, view, first, second, third, fun apart => ?_⟩
  exact apart _ first _ second (by simp) merged

end Rendering
end BoardSchema
