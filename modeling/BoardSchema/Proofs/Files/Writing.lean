import BoardSchema.Files.Compile
import BoardSchema.Proofs.Files.Path
import BoardSchema.Proofs.Files.Tree
/-!
Writing documents to a directory. The directory is the same place for all of them, and their names
lead to different places in it, so none is written over another and nothing outside is changed.
-/
namespace BoardSchema

open FileTree Path

variable {tree next after : FileTree} {dir name text : String} {around place : Place}

/-! ## A single document -/

namespace FileTree

/-- The place of a name in a directory is one step from that of the directory. -/
theorem locate_join (plain : IsFileName name) (h : tree.locate (join dir name) = .ok place) :
    ∃ around, tree.walk (startOf dir) (steps dir) = .ok around ∧ place = around ++ [name] := by
  obtain ⟨checked, -, h⟩ := bind_eq_ok.1 h
  rw [(plain.directlyIn_join dir).start_eq, (plain.directlyIn_join dir).steps_eq,
    walk_append] at h
  obtain ⟨around, walked, h⟩ := bind_eq_ok.1 h
  refine ⟨around, walked, ?_⟩
  simp only [walk] at h
  split at h
  · cases h
  · cases h
  · rw [stepFrom, if_neg plain.ne_dot, if_neg plain.ne_dots] at h
    split at h
    · cases h
    · cases h
      rfl

/-- A document is stored in the directory at a place. -/
structure Stores (tree : FileTree) (dir : String) (around : Place) (document : OutputDocument) :
    Prop where
  located : tree.locate (join dir document.file) = .ok (around ++ [document.file])
  found : tree.node? (around ++ [document.file]) = some (.file (.text document.text))

variable {document : OutputDocument}

theorem Stores.readText (stores : tree.Stores dir around document)
    (plain : IsFileName document.file) :
    tree.readText (join dir document.file) = .ok document.text := by
  have found : tree.find (join dir document.file) = .ok (.file (.text document.text)) := by
    simp [FileTree.find, stores.located, stores.found, plain.not_meansDirectory, ok_bind]
  rw [FileTree.readText, found]
  rfl

/-- A file that is put elsewhere leaves a document as it is. -/
theorem Stores.put {node : Node} (stores : tree.Stores dir around document)
    (free : tree.node? place ≠ some .directory) (differ : around ++ [document.file] ≠ place) :
    (tree.put place node).Stores dir around document :=
  ⟨locate_put free stores.located, by rw [node?_put_of_ne differ, stores.found]⟩

/-- What writing a document to a directory does. -/
theorem stores_of_writeText (plain : IsFileName document.file)
    (walked : tree.walk (startOf dir) (steps dir) = .ok around)
    (h : tree.writeText (join dir document.file) document.text = .ok next) :
    tree.node? (around ++ [document.file]) ≠ some .directory ∧
      next = tree.put (around ++ [document.file]) (.file (.text document.text)) ∧
      next.Stores dir around document := by
  obtain ⟨place, located, free, rfl⟩ := writeText_eq_ok h
  obtain ⟨around', walked', rfl⟩ := locate_join plain located
  obtain rfl : around = around' := Except.ok.inj (walked.symm.trans walked')
  exact ⟨free, rfl, locate_put free located, node?_put_self (isPlace_of_node? free)⟩

/-- Directories may be new; everything else is as it was. -/
def OnlyDirectories (tree after : FileTree) : Prop :=
  ∀ place, after.node? place = tree.node? place ∨
    tree.node? place = none ∧ after.node? place = some .directory

theorem OnlyDirectories.trans (first : OnlyDirectories tree next)
    (later : OnlyDirectories next after) : OnlyDirectories tree after := by
  intro place
  rcases later place with same | ⟨none, made⟩
  · rw [same]
    exact first place
  · rcases first place with same | ⟨absent, there⟩
    · exact .inr ⟨same ▸ none, made⟩
    · simp [there] at none

end FileTree

namespace FileProgram

theorem onlyDirectories_makeDirectory (tree : FileTree) (path : String) :
    OnlyDirectories tree (changing tree (tree.makeDirectory path)).2 := by
  cases made : tree.makeDirectory path with
  | error cause => exact fun place => .inl rfl
  | ok next =>
    obtain ⟨place, -, h⟩ := bind_eq_ok.1 made
    split at h
    · next absent =>
      cases h
      have free : tree.node? place ≠ some .directory := by simp [absent]
      have proper := isPlace_of_node? free
      intro other
      by_cases here : other = place
      · rw [here]
        exact .inr ⟨absent, node?_put_self proper⟩
      · exact .inl (node?_put_of_ne here)
    · cases h
      exact fun place => .inl rfl
    · cases h

/-- Making a directory and those around it changes nothing else. -/
theorem onlyDirectories_makeWithin {program : FileProgram (Except FileError Unit)} {path : String}
    (outer : ∀ tree, OnlyDirectories tree (run tree program).2) (tree : FileTree) :
    OnlyDirectories tree (run tree (makeWithin path program)).2 := by
  have first := onlyDirectories_makeDirectory tree path
  simp only [makeWithin, run]
  generalize changing tree (tree.makeDirectory path) = changed at first ⊢
  obtain ⟨answer, made⟩ := changed
  dsimp only at first ⊢
  split
  · rw [run_bind]
    refine first.trans ((outer made).trans ?_)
    split
    · exact onlyDirectories_makeDirectory _ path
    · exact fun place => .inl rfl
  · exact first

theorem onlyDirectories_makeNamed (root : String) (reversed : List String) (tree : FileTree) :
    OnlyDirectories tree (run tree (makeNamed root reversed)).2 := by
  induction reversed generalizing tree with
  | nil => exact fun place => .inl rfl
  | cons name outer ih => exact onlyDirectories_makeWithin ih tree

theorem onlyDirectories_makeDirectories (path : String) (tree : FileTree) :
    OnlyDirectories tree (run tree (makeDirectories path)).2 := by
  unfold makeDirectories
  split
  · exact fun place => .inl rfl
  · exact onlyDirectories_makeWithin (onlyDirectories_makeNamed _ _) tree

end FileProgram

namespace Compilation

/-! ## All documents -/

/-- Documents that are written one after the other are all stored, those that were there before
under other names stay, and no other place is changed. -/
theorem writeDocuments_ok {documents : List OutputDocument} {written : List String}
    (plain : ∀ document ∈ documents, IsFileName document.file)
    (distinct : (documents.map OutputDocument.file).Nodup)
    (walked : tree.walk (startOf dir) (steps dir) = .ok around)
    (h : FileProgram.run tree (writeDocuments dir documents) = (.ok written, after)) :
    written = documents.map (fun document => join dir document.file) ∧
      (∀ document ∈ documents, after.Stores dir around document) ∧
      (∀ document, tree.Stores dir around document →
        document.file ∉ documents.map OutputDocument.file → after.Stores dir around document) ∧
      ∀ place, (∀ document ∈ documents, place ≠ around ++ [document.file]) →
        after.node? place = tree.node? place := by
  induction documents generalizing tree written with
  | nil =>
    cases h
    exact ⟨rfl, by simp, fun document stores _ => stores, fun place _ => rfl⟩
  | cons document rest ih =>
    obtain ⟨plain_first, plain_rest⟩ := List.forall_mem_cons.1 plain
    obtain ⟨fresh, distinct_rest⟩ := List.nodup_cons.1 distinct
    simp only [writeDocuments, FileProgram.run] at h
    cases hwrite : tree.writeText (join dir document.file) document.text with
    | error cause =>
      rw [hwrite] at h
      cases h
    | ok next =>
      rw [hwrite] at h
      simp only [FileProgram.changing, FileProgram.run_bind] at h
      obtain ⟨free, put, stores⟩ := stores_of_writeText plain_first walked hwrite
      have walked_next : next.walk (startOf dir) (steps dir) = .ok around :=
        put ▸ walk_put free walked
      cases hrest : FileProgram.run next (writeDocuments dir rest) with
      | mk answer left =>
        rw [hrest] at h
        cases answer with
        | error cause => cases h
        | ok later =>
          cases h
          obtain ⟨paths, all, kept, elsewhere⟩ := ih plain_rest distinct_rest walked_next hrest
          refine ⟨congrArg _ paths, ?_, ?_, ?_⟩
          · exact List.forall_mem_cons.2 ⟨kept document stores fresh, all⟩
          · intro other stores_other absent
            obtain ⟨differ, absent_rest⟩ := not_or.1 (mt List.mem_cons.2 absent)
            refine kept other ?_ absent_rest
            rw [put]
            exact stores_other.put free (by simpa using differ)
          · intro place outside
            obtain ⟨outside_first, outside_rest⟩ := List.forall_mem_cons.1 outside
            rw [elsewhere place outside_rest, put, node?_put_of_ne outside_first]

/-- A tree after documents were written to a directory, which is at a place: they can be read, and
elsewhere there may be new directories but no other change. -/
structure Written (before after : FileTree) (dir : String) (around : Place)
    (documents : List OutputDocument) : Prop where
  stores : ∀ document ∈ documents, after.Stores dir around document
  reads : ∀ document ∈ documents, after.readText (join dir document.file) = .ok document.text
  elsewhere : ∀ place, (∀ document ∈ documents, place ≠ around ++ [document.file]) →
    after.node? place = before.node? place ∨
      before.node? place = none ∧ after.node? place = some .directory

/-- Where a document was written, its directory has a place. -/
theorem exists_walked {first : OutputDocument} {rest : List OutputDocument} {written : List String}
    (plain : IsFileName first.file)
    (h : FileProgram.run tree (writeDocuments dir (first :: rest)) = (.ok written, after)) :
    ∃ around, tree.walk (startOf dir) (steps dir) = .ok around := by
  simp only [writeDocuments, FileProgram.run] at h
  cases hwrite : tree.writeText (join dir first.file) first.text with
  | error cause =>
    rw [hwrite] at h
    cases h
  | ok next =>
    obtain ⟨place, located, -⟩ := writeText_eq_ok hwrite
    obtain ⟨around, walked, -⟩ := locate_join plain located
    exact ⟨around, walked⟩

/-- Documents that were written are all there, and the paths are those that were announced. -/
theorem writeTo_ok {compilation : Compilation} {written : List String}
    (some : compilation.documents ≠ [])
    (plain : ∀ document ∈ compilation.documents, IsFileName document.file)
    (distinct : (compilation.documents.map OutputDocument.file).Nodup)
    (h : FileProgram.run tree (compilation.writeTo dir) = (.ok written, after)) :
    written = compilation.paths dir ∧
      ∃ around, Written tree after dir around compilation.documents := by
  rw [writeTo, FileProgram.run_bind] at h
  have made := FileProgram.onlyDirectories_makeDirectories dir tree
  cases hmake : FileProgram.run tree (FileProgram.makeDirectories dir) with
  | mk answer middle =>
    rw [hmake] at h made
    cases answer with
    | error cause => cases h
    | ok done =>
      obtain ⟨first, rest, documents⟩ := List.exists_cons_of_ne_nil some
      have plain_first := plain first (by simp [documents])
      have h_first := h
      dsimp only at h_first
      rw [documents] at h_first
      obtain ⟨around, walked⟩ := exists_walked plain_first h_first
      obtain ⟨paths, stores, -, elsewhere⟩ := writeDocuments_ok plain distinct walked h
      refine ⟨paths, around, stores, ?_, ?_⟩
      · exact fun document hdocument =>
          (stores document hdocument).readText (plain document hdocument)
      · intro place outside
        rw [elsewhere place outside]
        exact made place

end Compilation

end BoardSchema
