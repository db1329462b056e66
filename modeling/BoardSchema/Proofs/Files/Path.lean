import BoardSchema.Compilation
import BoardSchema.Files.Tree
import BoardSchema.Proofs.Text.OneLine
import Mathlib.Data.List.Basic
/-!
Names of documents as parts of paths. The name of a document is a single step from the directory that
it is written to, whatever path it was made from.
-/
namespace BoardSchema

namespace Path

/-- A name of a file: it has no slash, and is none of the dots that stay or lead to the parent. -/
structure IsFileName (name : String) : Prop where
  ne_empty : name ≠ ""
  not_slash : '/' ∉ name.toList
  ne_dot : name ≠ "."
  ne_dots : name ≠ ".."

/-- A path that leads to the directory and from there to the name. -/
structure DirectlyIn (dir name path : String) : Prop where
  start_eq : FileTree.startOf path = FileTree.startOf dir
  steps_eq : steps path = steps dir ++ [name]

/-! ## Stems -/

/-- The first part of a name that is cut is a prefix of it. -/
theorem isPrefix_cutName (name : List Char) : (cutName name).1 <+: name := by
  unfold cutName
  split
  · next stem extension cut =>
    split
    · exact List.prefix_refl name
    · obtain ⟨⟨after, before⟩, hcut, parts⟩ := Option.map_eq_some_iff.1 cut
      cases parts
      have whole := Text.cutAt?_eq_some hcut
      refine ⟨'.' :: after.reverse, ?_⟩
      rw [← List.reverse_reverse name, whole]
      simp
  · exact List.prefix_refl name

/-- A stem is cut out of a path, between slashes. -/
theorem exists_prefix_of_stem? {path stem : List Char} (h : stem? path = some stem) :
    ∃ piece ∈ path.splitOn '/', stem <+: piece := by
  obtain ⟨name, found, rfl⟩ := Option.map_eq_some_iff.1 h
  have last := List.mem_of_getLast? (Option.filter_eq_some_iff.1 found).1
  exact ⟨name, (List.mem_filter.1 last).1, isPrefix_cutName name⟩

theorem not_slash_of_stem? {path stem : List Char} (h : stem? path = some stem) : '/' ∉ stem := by
  obtain ⟨piece, mem, front⟩ := exists_prefix_of_stem? h
  exact fun slash => Text.not_mem_of_mem_splitOn mem (front.subset slash)

theorem subset_of_stem? {path stem : List Char} (h : stem? path = some stem) : stem ⊆ path := by
  obtain ⟨piece, mem, front⟩ := exists_prefix_of_stem? h
  exact List.Subset.trans front.subset (Text.subset_of_mem_splitOn mem)

theorem isFileName_yaml {stem : List Char} (clear : '/' ∉ stem) :
    IsFileName (String.ofList stem ++ ".yaml") := by
  have suffix : ".yaml".length = 5 := by decide
  have long : 5 ≤ (String.ofList stem ++ ".yaml").length := by
    rw [String.length_append, suffix]
    omega
  have short (other : String) (h : other.length < 5) : String.ofList stem ++ ".yaml" ≠ other := by
    rintro rfl
    omega
  refine ⟨short _ (by decide), ?_, short _ (by decide), short _ (by decide)⟩
  simpa using clear

/-! ## Names inside of directories -/

variable {dir name other : String}

theorem IsFileName.steps_eq (plain : IsFileName name) : steps name = [name] := by
  have nonempty : name.toList ≠ [] := by simpa using plain.ne_empty
  rw [steps, List.splitOn_eq_singleton plain.not_slash]
  simp [nonempty]

theorem steps_empty : steps "" = [] := rfl

/-- A slash between texts separates their steps. -/
theorem steps_append_slash (before after : String) :
    steps (before ++ "/" ++ after) = steps before ++ steps after := by
  have cut : (before ++ "/" ++ after).toList = before.toList ++ '/' :: after.toList := by simp
  rw [steps, cut, List.splitOn_append_cons_self, List.filter_append, List.map_append]
  rfl

theorem isAbsolute_append {before : String} (nonempty : before ≠ "") (after : String) :
    isAbsolute (before ++ after) = isAbsolute before := by
  obtain ⟨first, rest, chars⟩ := List.exists_cons_of_ne_nil (mt String.toList_eq_nil_iff.1 nonempty)
  simp [isAbsolute, chars]

theorem IsFileName.join_eq (plain : IsFileName name) (dir : String) :
    (dir = "" ∧ join dir name = name) ∨
      (∃ around, dir = around ++ "/" ∧ join dir name = around ++ "/" ++ name) ∨
      (dir ≠ "" ∧ join dir name = dir ++ "/" ++ name) := by
  have relative : name.toList.head? ≠ some '/' :=
    fun first => plain.not_slash (List.mem_of_mem_head? first)
  by_cases empty : dir = ""
  · exact .inl ⟨empty, by simp [join, empty]⟩
  refine .inr ?_
  by_cases slash : dir.toList.getLast? = some '/'
  · refine .inl ⟨String.ofList dir.toList.dropLast, ?_⟩
    have whole : dir = String.ofList dir.toList.dropLast ++ "/" := by
      rw [← String.toList_inj, String.toList_append, String.toList_ofList]
      exact (List.dropLast_append_getLast? _ slash).symm
    exact ⟨whole, by rw [← whole]; simp [join, relative, empty, slash]⟩
  · exact .inr ⟨empty, by simp [join, relative, empty, slash]⟩

theorem IsFileName.directlyIn_join (plain : IsFileName name) (dir : String) :
    DirectlyIn dir name (join dir name) := by
  have relative : isAbsolute name = false := by
    simpa [isAbsolute] using fun first => plain.not_slash (List.mem_of_mem_head? first)
  rcases plain.join_eq dir with ⟨rfl, joined⟩ | ⟨around, rfl, joined⟩ | ⟨nonempty, joined⟩
  · rw [joined]
    have empty : isAbsolute "" = false := rfl
    refine ⟨by rw [FileTree.startOf, relative, FileTree.startOf, empty], ?_⟩
    rw [plain.steps_eq, steps_empty, List.nil_append]
  · rw [joined]
    have ending : steps (around ++ "/") = steps around := by
      simpa [steps_empty] using steps_append_slash around ""
    refine ⟨?_, by rw [steps_append_slash, ending, plain.steps_eq]⟩
    rw [FileTree.startOf, isAbsolute_append (by simp), FileTree.startOf]
  · rw [joined]
    refine ⟨?_, by rw [steps_append_slash, plain.steps_eq]⟩
    rw [FileTree.startOf, String.append_assoc, isAbsolute_append nonempty, FileTree.startOf]

/-- Different names lead to different paths. -/
theorem IsFileName.join_inj (plain : IsFileName name) (plain_other : IsFileName other)
    (same : join dir name = join dir other) : name = other := by
  have steps_eq := (plain.directlyIn_join dir).steps_eq
  rw [same, (plain_other.directlyIn_join dir).steps_eq] at steps_eq
  simpa using steps_eq.symm

theorem IsFileName.not_meansDirectory (plain : IsFileName name) (dir : String) :
    meansDirectory (join dir name) = false := by
  obtain ⟨before, joined⟩ : ∃ before, join dir name = before ++ name := by
    rcases plain.join_eq dir with ⟨-, joined⟩ | ⟨around, -, joined⟩ | ⟨-, joined⟩
    · exact ⟨"", by simpa using joined⟩
    · exact ⟨_, joined⟩
    · exact ⟨_, joined⟩
  have nonempty : name.toList ≠ [] := by simpa using plain.ne_empty
  have last : name.toList.getLast? ≠ some '/' :=
    fun ending => plain.not_slash (List.mem_of_getLast? ending)
  rw [meansDirectory, joined, String.toList_append, List.getLast?_append_of_ne_nil _ nonempty]
  simpa using last

end Path

theorem isFileName_satelliteName (path : String) : Path.IsFileName (satelliteName path) := by
  refine Path.isFileName_yaml ?_
  cases found : (Path.stem? path.toList).filter (· ≠ ['.', '.']) with
  | none => decide
  | some stem => exact Path.not_slash_of_stem? (Option.filter_eq_some_iff.1 found).1

theorem Compilation.isFileName_topFile (path : String) : Path.IsFileName (topFile path) := by
  refine Path.isFileName_yaml ?_
  cases found : Path.stem? path.toList with
  | none => decide
  | some stem => exact Path.not_slash_of_stem? found

end BoardSchema
