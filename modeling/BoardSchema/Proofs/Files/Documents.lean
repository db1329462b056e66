import BoardSchema.Proofs.Compilation
import BoardSchema.Proofs.Files.Writing
import BoardSchema.Proofs.Output.Documents
/-!
The documents of a compilation as files. Whatever include paths a description has, each document is a
file of its own directly inside the directory that it is written to.
-/
namespace BoardSchema.Compilation
open Rendering

/-- The documents that the bodies of templates and the configuration refer to, in order. The document
of a body from an include file comes before those that the body refers to. -/
def schemaReferences (rules : Rules) (schema : Schema) : List String :=
  (schema.templates.flatMap fun template =>
    (pathOf? rules template.file).toList.map satelliteName ++ references rules template.fields) ++
    references rules schema.configs

variable {rules : Rules}

theorem mem_references {stream : List Entry} {file : String} (h : file ∈ references rules stream) :
    ∃ path, file = satelliteName path := by
  unfold references at h
  split at h
  · obtain ⟨entry, -, found⟩ := List.mem_filterMap.1 h
    cases entry with
    | includeOpen path => exact ⟨path, (Option.some.inj found).symm⟩
    | includeClose => cases found
    | field field => cases found
  · cases h

/-- Every document that is referred to is that of an include path. -/
theorem mem_schemaReferences {schema : Schema} {file : String}
    (h : file ∈ schemaReferences rules schema) : ∃ path, file = satelliteName path := by
  rcases List.mem_append.1 h with h | h
  · obtain ⟨template, -, h⟩ := List.mem_flatMap.1 h
    rcases List.mem_append.1 h with h | h
    · obtain ⟨path, -, rfl⟩ := List.mem_map.1 h
      exact ⟨path, rfl⟩
    · exact mem_references h
  · exact mem_references h

theorem files_of_ofText {name text : String} {compilation : Compilation}
    (h : (ofText rules name text).outcome = .ok compilation) :
    compilation.documents.map OutputDocument.file =
      (topFile name :: schemaReferences rules compilation.schema).eraseDups := by
  obtain ⟨document, table, built, bodies, layout, comes, rendered⟩ := exists_rendered h
  rw [schema_eq] at rendered
  obtain ⟨trace, -, rendered⟩ := bind_eq_ok.1 rendered
  have documents := Except.ok.inj rendered
  rw [← documents, documentsOf, List.map_map, Document.path_of_ofText comes.read, comes.schema_eq]
  simp [schemaReferences, schemaOf, bodyReferences, List.flatMap_map, Function.comp_def]

/-- The documents of a description have different plain names, and there is one at least. -/
theorem plain_of_ofText {name text : String} {compilation : Compilation}
    (h : (ofText rules name text).outcome = .ok compilation) :
    compilation.documents ≠ [] ∧ (∀ document ∈ compilation.documents, Path.IsFileName document.file) ∧
      (compilation.documents.map OutputDocument.file).Nodup := by
  have files := files_of_ofText h
  refine ⟨?_, fun document mem => ?_, ?_⟩
  · intro none
    rw [none, List.eraseDups_cons] at files
    cases files
  · have referred : document.file ∈ compilation.documents.map OutputDocument.file :=
      List.mem_map_of_mem mem
    rw [files, List.mem_eraseDups] at referred
    rcases List.mem_cons.1 referred with top | referred
    · rw [top]
      exact isFileName_topFile name
    · obtain ⟨path, satellite⟩ := mem_schemaReferences referred
      rw [satellite]
      exact isFileName_satelliteName path
  · rw [files]
    exact nodup_eraseDups _

/-- The documents of a compilation: the one of the description comes first, the others follow in the
order in which they are first referred to. Their names differ and are single names of files, so their
paths lead to different files directly inside any directory. Once they are written there, each file
holds the text of its document, and nothing else was changed. -/
theorem ofText_files {name text : String} {compilation : Compilation}
    (h : (ofText rules name text).outcome = .ok compilation) :
    compilation.documents.map OutputDocument.file =
      (topFile name :: schemaReferences rules compilation.schema).eraseDups ∧
    (compilation.documents.map OutputDocument.file).Nodup ∧
    (∀ document ∈ compilation.documents, Path.IsFileName document.file) ∧
    ∀ dir,
      (compilation.paths dir).Nodup ∧
      (∀ document ∈ compilation.documents,
        Path.DirectlyIn dir document.file (Path.join dir document.file)) ∧
      ∀ tree written after,
        FileProgram.run tree (compilation.writeTo dir) = (.ok written, after) →
          written = compilation.paths dir ∧
          ∃ around, Written tree after dir around compilation.documents := by
  obtain ⟨some, plain, distinct⟩ := plain_of_ofText h
  refine ⟨files_of_ofText h, distinct, plain, fun dir => ⟨?_, ?_, ?_⟩⟩
  · have paths : compilation.paths dir =
        (compilation.documents.map OutputDocument.file).map (Path.join dir) := by
      simp [paths]
    rw [paths]
    refine distinct.map_on ?_
    intro file hfile other hother same
    obtain ⟨document, hdocument, rfl⟩ := List.mem_map.1 hfile
    obtain ⟨document', hdocument', rfl⟩ := List.mem_map.1 hother
    exact (plain document hdocument).join_inj (plain document' hdocument') same
  · exact fun document hdocument => (plain document hdocument).directlyIn_join dir
  · exact fun tree written after written_to => writeTo_ok some plain distinct written_to

/-- Include paths that lead out of the directory, and one that is there twice. -/
def strayIncludes : String := "\n".intercalate
  ["[PcdsDynamicVpd.Upd]", "# !< include ../../Uart.dlt", "A|*|1|0", "# !>",
    "# !< include /etc/..", "B|*|1|0", "# !>", "# !< include cfg/Uart.dlt", "C|*|1|0", "# !>"]

theorem strayIncludes_files : ∃ compilation written after,
    (ofText { emitAll := true } "cfg/Board.dsc" strayIncludes).outcome = .ok compilation ∧
    compilation.documents.map OutputDocument.file =
      ["Board.yaml", "Uart.yaml", "include.yaml"] ∧
    FileProgram.run {} (compilation.writeTo "out/x") = (.ok written, after) ∧
    written = ["out/x/Board.yaml", "out/x/Uart.yaml", "out/x/include.yaml"] ∧
    written = compilation.paths "out/x" ∧ (compilation.paths "out/x").Nodup ∧
    ∃ around, Written {} after "out/x" around compilation.documents := by
  have compiled : (ofText { emitAll := true } "cfg/Board.dsc" strayIncludes).outcome.toOption.map
      (fun compilation => (compilation.documents.map OutputDocument.file,
        (FileProgram.run {} (compilation.writeTo "out/x")).1.toOption)) = some
      (["Board.yaml", "Uart.yaml", "include.yaml"],
        some ["out/x/Board.yaml", "out/x/Uart.yaml", "out/x/include.yaml"]) := by
    decide +kernel
  obtain ⟨compilation, h, known⟩ := exists_eq_ok compiled
  obtain ⟨files, paths⟩ := Prod.mk.inj known
  cases ran : FileProgram.run {} (compilation.writeTo "out/x") with
  | mk answer after =>
    rw [ran] at paths
    cases answer with
    | error cause => cases paths
    | ok written =>
      obtain ⟨-, -, -, inside⟩ := ofText_files h
      obtain ⟨distinct, -, stored⟩ := inside "out/x"
      obtain ⟨announced, around, left⟩ := stored {} written after ran
      exact ⟨compilation, written, after, h, files, ran, Option.some.inj paths, announced,
        distinct, around, left⟩

end BoardSchema.Compilation
