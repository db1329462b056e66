import BoardSchema.Proofs.Files.Writing
/-!
Documents that nothing is in the way of. Whether something is in the way is looked up before the
directory of the documents is made, so it holds of what is written later only if the way to the
directory does not change its meaning: a step up out of a directory that is missing leads nowhere at
first, and to what was there all along once that directory was made.
-/
namespace BoardSchema

open Path

namespace FileTree

variable {tree after : FileTree} {here place around : Place} {names way : List String}

/-- Whatever is there stands in a directory. -/
def Rooted (tree : FileTree) : Prop :=
  ∀ entry ∈ tree.nodes, tree.node? entry.1.dropLast = some .directory

instance (tree : FileTree) : Decidable tree.Rooted := inferInstanceAs (Decidable (∀ _ ∈ _, _))

theorem Rooted.directory_of_node? {name : String} (rooted : tree.Rooted)
    (there : tree.node? (place ++ [name]) ≠ none) : tree.node? place = some .directory := by
  by_cases proper : IsPlace (place ++ [name])
  · rw [node?_eq_find? proper] at there
    obtain ⟨entry, found⟩ := Option.ne_none_iff_exists'.1 (mt Option.map_eq_none_iff.2 there)
    have here : entry.1 = place ++ [name] := by simpa using List.find?_some found
    have parent := rooted entry (List.mem_of_find?_eq_some found)
    rwa [here, List.dropLast_concat] at parent
  · have top : place = [] := by
      simp only [IsPlace, workingDirectory, not_and_or, not_not] at proper
      rcases proper with none | working
      · simp at none
      · simpa using congrArg List.dropLast working
    rw [top]
    rfl

/-- Below a place that is no directory there is nothing. -/
theorem Rooted.node?_append (rooted : tree.Rooted) (missing : tree.node? here ≠ some .directory)
    (below : names ≠ []) : tree.node? (here ++ names) = none := by
  induction names using List.reverseRecOn with
  | nil => exact absurd rfl below
  | append_singleton names name ih =>
    by_contra there
    rw [← List.append_assoc] at there
    have parent := rooted.directory_of_node? there
    by_cases first : names = []
    · rw [first, List.append_nil] at parent
      exact missing parent
    · rw [ih first] at parent
      cases parent

/-! ## Ways that lead on -/

/-- Behind the first directory that is missing no step leads up. -/
def leadsOn (tree : FileTree) : Place → List String → Bool
  | _, [] => true
  | here, step :: rest =>
    if tree.node? here = some .directory then
      match stepFrom here step with
      | .ok next => tree.leadsOn next rest
      | .error _ => true
    else !(step :: rest).contains ".."

theorem walk_cons {step : String} {rest : List String}
    (h : tree.walk here (step :: rest) = .ok place) : tree.node? here = some .directory ∧
      ∃ next, stepFrom here step = .ok next ∧ tree.walk next rest = .ok place := by
  simp only [walk] at h
  split at h
  · cases h
  · cases h
  · next directory => exact ⟨directory, bind_eq_ok.1 h⟩

/-- Without steps up a way leads to a place below. -/
theorem exists_append_of_walk (onward : ".." ∉ way) (h : tree.walk here way = .ok place) :
    ∃ names, place = here ++ names := by
  induction way generalizing here with
  | nil =>
    cases h
    exact ⟨[], by simp⟩
  | cons step rest ih =>
    obtain ⟨up, onward⟩ := not_or.1 (mt List.mem_cons.2 onward)
    obtain ⟨-, next, stepped, h⟩ := walk_cons h
    obtain ⟨names, rfl⟩ := ih onward h
    rw [stepFrom, if_neg (Ne.symm up)] at stepped
    split at stepped
    · cases stepped
      exact ⟨names, rfl⟩
    · split at stepped
      · cases stepped
      · cases stepped
        exact ⟨step :: names, by simp⟩

/-- A directory that is found on a later tree was there before, or nothing was. -/
def DirectoriesFrom (tree after : FileTree) : Prop :=
  ∀ place, after.node? place = some .directory →
    tree.node? place = some .directory ∨ tree.node? place = none

/-- A way that is open later was open before, or it led below a place where nothing was. -/
theorem walk_before (from_tree : DirectoriesFrom tree after) (on : tree.leadsOn here way = true)
    (h : after.walk here way = .ok place) :
    tree.walk here way = .ok place ∨
      ∃ missing names, tree.node? missing = none ∧ place = missing ++ names := by
  induction way generalizing here with
  | nil => exact .inl h
  | cons step rest ih =>
    obtain ⟨directory, next, stepped, later⟩ := walk_cons h
    by_cases there : tree.node? here = some .directory
    · rw [leadsOn, if_pos there, stepped] at on
      rcases ih on later with before | below
      · refine .inl ?_
        simp only [walk, there]
        exact bind_eq_ok.2 ⟨next, stepped, before⟩
      · exact .inr below
    · have missing := (from_tree here directory).resolve_left there
      rw [leadsOn, if_neg there] at on
      obtain ⟨names, below⟩ := exists_append_of_walk (by simpa using on) h
      exact .inr ⟨here, names, missing, below⟩

/-- What a tree does not contain under a name in a directory is not at its place either. -/
theorem node?_eq_none_of_not_contains {dir name : String} (plain : IsFileName name)
    (valid : Path.check (join dir name) = .ok ())
    (walked : tree.walk (startOf dir) (steps dir) = .ok around)
    (directory : tree.node? around = some .directory)
    (stepped : stepFrom around name = .ok (around ++ [name]))
    (free : tree.contains (join dir name) = false) : tree.node? (around ++ [name]) = none := by
  have way := plain.directlyIn_join dir
  have located : tree.locate (join dir name) = .ok (around ++ [name]) := by
    rw [locate, valid, ok_bind, way.start_eq, way.steps_eq, walk_append, walked, ok_bind]
    simp only [walk, directory, stepped, ok_bind]
  cases node : tree.node? (around ++ [name]) with
  | none => rfl
  | some node' =>
    have there : tree.find (join dir name) = .ok node' := by
      rw [FileTree.find, located, ok_bind, node]
      cases node' <;> simp [plain.not_meansDirectory]
    simp [contains, there] at free

end FileTree

namespace Compilation

open FileTree

variable {tree after : FileTree} {dir : String} {around : Place} {documents : List OutputDocument}

/-- A tree after documents were added to a directory, which is at a place: they can be read, they are
the only new files, and all files and directories that were there are as they were. -/
structure Added (before after : FileTree) (dir : String) (around : Place)
    (documents : List OutputDocument) : Prop where
  reads : ∀ document ∈ documents, after.readText (join dir document.file) = .ok document.text
  new : ∀ document ∈ documents, before.node? (around ++ [document.file]) = none
  files : ∀ place content, after.node? place = some (.file content) ↔
    before.node? place = some (.file content) ∨
      ∃ document ∈ documents, place = around ++ [document.file] ∧ content = .text document.text
  directories : ∀ place, before.node? place = some .directory →
    after.node? place = some .directory

theorem Written.directoriesFrom (written : Written tree after dir around documents) :
    DirectoriesFrom tree after := by
  intro place directory
  by_cases document_place : ∃ document ∈ documents, place = around ++ [document.file]
  · obtain ⟨document, mem, rfl⟩ := document_place
    rw [(written.stores document mem).found] at directory
    cases directory
  · push Not at document_place
    rcases written.elsewhere place document_place with same | new
    · exact .inl (same ▸ directory)
    · exact .inr new.1

/-- A document that was written went down from the place of its directory by one step. -/
theorem Written.steps {document : OutputDocument} (written : Written tree after dir around documents)
    (mem : document ∈ documents) (plain : IsFileName document.file) :
    Path.check (join dir document.file) = .ok () ∧
      after.walk (startOf dir) (steps dir) = .ok around ∧
      after.node? around = some .directory ∧
      stepFrom around document.file = .ok (around ++ [document.file]) := by
  obtain ⟨valid, checked, way⟩ := bind_eq_ok.1 (written.stores document mem).located
  rw [(plain.directlyIn_join dir).start_eq, (plain.directlyIn_join dir).steps_eq,
    walk_append] at way
  obtain ⟨reached, walked, last⟩ := bind_eq_ok.1 way
  obtain ⟨directory, next, stepped, rest⟩ := walk_cons last
  cases rest
  obtain rfl : around = reached := by
    rw [stepFrom, if_neg plain.ne_dot, if_neg plain.ne_dots] at stepped
    split at stepped
    · cases stepped
    · exact (List.append_cancel_right (Except.ok.inj stepped)).symm
  exact ⟨checked, walked, directory, stepped⟩

/-- Nothing was at the place of a document that nothing was in the way of. -/
theorem Written.new {document : OutputDocument} (written : Written tree after dir around documents)
    (rooted : tree.Rooted) (on : tree.leadsOn (startOf dir) (Path.steps dir) = true)
    (mem : document ∈ documents) (plain : IsFileName document.file)
    (free : tree.contains (join dir document.file) = false) :
    tree.node? (around ++ [document.file]) = none := by
  obtain ⟨valid, walked, directory, stepped⟩ := written.steps mem plain
  by_cases there : tree.node? around = some .directory
  · rcases walk_before written.directoriesFrom on walked with before | ⟨missing, names, none, rfl⟩
    · exact node?_eq_none_of_not_contains plain valid before there stepped free
    · rw [List.append_assoc]
      exact rooted.node?_append (by simp [none]) (by simp)
  · exact rooted.node?_append there (by simp)

/-- Documents that were written without anything in the way are added. -/
theorem Written.added (written : Written tree after dir around documents) (rooted : tree.Rooted)
    (on : tree.leadsOn (startOf dir) (Path.steps dir) = true)
    (plain : ∀ document ∈ documents, IsFileName document.file)
    (free : ∀ document ∈ documents, tree.contains (join dir document.file) = false) :
    Added tree after dir around documents := by
  have new : ∀ document ∈ documents, tree.node? (around ++ [document.file]) = none :=
    fun document mem => written.new rooted on mem (plain document mem) (free document mem)
  -- What was there before was not at the place of a document.
  have stays : ∀ place node, tree.node? place = some node → after.node? place = some node := by
    intro place node there
    have elsewhere : ∀ document ∈ documents, place ≠ around ++ [document.file] := by
      rintro document mem rfl
      rw [new document mem] at there
      cases there
    rcases written.elsewhere place elsewhere with same | ⟨none, -⟩
    · rw [same, there]
    · rw [none] at there
      cases there
  refine ⟨written.reads, new, fun place content => ⟨fun file => ?_, ?_⟩,
    fun place => stays place .directory⟩
  · by_cases document_place : ∃ document ∈ documents, place = around ++ [document.file]
    · obtain ⟨document, mem, rfl⟩ := document_place
      have found := (written.stores document mem).found
      rw [file] at found
      exact .inr ⟨document, mem, rfl, Node.file.inj (Option.some.inj found)⟩
    · push Not at document_place
      rcases written.elsewhere place document_place with same | ⟨-, made⟩
      · exact .inl (same ▸ file)
      · rw [file] at made
        cases made
  · rintro (there | ⟨document, mem, rfl, rfl⟩)
    · exact stays place _ there
    · exact (written.stores document mem).found

end Compilation
end BoardSchema
