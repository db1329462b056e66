import BoardSchema.Files.Tree
import BoardSchema.Notice
/-!
Writing to a tree of files. A file changes what is found at its own place only, and since nothing but
directories is passed on the way to a place, all paths mean the same behind it.
-/
namespace BoardSchema.FileTree

variable {tree next : FileTree} {place other here : Place} {node : Node} {path text : String}

/-- A place where something can be put. -/
def IsPlace (place : Place) : Prop := place ≠ [] ∧ place ≠ workingDirectory

theorem isPlace_of_node? (h : tree.node? place ≠ some .directory) : IsPlace place := by
  refine ⟨?_, ?_⟩ <;>
  · rintro rfl
    exact h rfl

theorem node?_eq_find? (proper : IsPlace place) :
    tree.node? place = (tree.nodes.find? (·.1 = place)).map (·.2) :=
  if_neg (not_or.2 proper)

/-- A node that is put keeps its place in the list. -/
theorem find?_map_put (entries : List (Place × Node)) (place other : Place) (node : Node) :
    (entries.map fun entry => if entry.1 = place then (place, node) else entry).find?
        (·.1 = other) =
      (entries.find? (·.1 = other)).map fun entry =>
        if entry.1 = place then (place, node) else entry := by
  rw [List.find?_map]
  congr 2
  funext entry
  by_cases here : entry.1 = place <;> simp [here]

/-- What is put at a place is found there. -/
theorem node?_put_self (proper : IsPlace place) :
    (tree.put place node).node? place = some node := by
  rw [node?_eq_find? proper, put]
  split
  · next known =>
    have some : (tree.nodes.find? (·.1 = place)).isSome := by
      rw [List.find?_isSome]
      exact List.any_eq_true.1 known
    obtain ⟨found, hfound⟩ := Option.isSome_iff_exists.1 some
    have at_place : found.1 = place := by simpa using List.find?_some hfound
    rw [find?_map_put, hfound]
    simp [at_place]
  · next unknown =>
    have none : tree.nodes.find? (·.1 = place) = none :=
      List.find?_eq_none.2 fun entry hentry there =>
        unknown (List.any_eq_true.2 ⟨entry, hentry, there⟩)
    simp [List.find?_append, none]

theorem node?_put_of_ne (differ : other ≠ place) :
    (tree.put place node).node? other = tree.node? other := by
  unfold node? put
  split
  · rfl
  · split
    · rw [find?_map_put, Option.map_map]
      cases hfound : tree.nodes.find? (·.1 = other) with
      | none => rfl
      | some found =>
        have at_other : found.1 = other := by simpa using List.find?_some hfound
        simp [at_other, differ]
    · simp [List.find?_append, Ne.symm differ]

/-! ## Ways -/

/-- Nothing but directories is passed on the way to a place. -/
theorem walk_put {steps : List String} (free : tree.node? place ≠ some .directory)
    (h : tree.walk here steps = .ok other) : (tree.put place node).walk here steps = .ok other := by
  induction steps generalizing here with
  | nil => exact h
  | cons step rest ih =>
    simp only [walk] at h ⊢
    split at h
    · cases h
    · cases h
    · next passed =>
      have differ : here ≠ place := by
        rintro rfl
        exact free passed
      rw [node?_put_of_ne differ, passed]
      obtain ⟨stepped, hstep, h⟩ := bind_eq_ok.1 h
      exact bind_eq_ok.2 ⟨stepped, hstep, ih h⟩

theorem walk_append (tree : FileTree) (here : Place) (steps rest : List String) :
    tree.walk here (steps ++ rest) =
      tree.walk here steps >>= fun there => tree.walk there rest := by
  induction steps generalizing here with
  | nil => rfl
  | cons step steps ih =>
    simp only [List.cons_append, walk]
    split
    · rfl
    · rfl
    · simp only [bind_assoc, ih]

theorem locate_put (free : tree.node? place ≠ some .directory)
    (h : tree.locate path = .ok other) : (tree.put place node).locate path = .ok other := by
  obtain ⟨checked, valid, h⟩ := bind_eq_ok.1 h
  exact bind_eq_ok.2 ⟨checked, valid, walk_put free h⟩

/-! ## Writing -/

/-- What a text that was written did. -/
theorem writeText_eq_ok (h : tree.writeText path text = .ok next) : ∃ place,
    tree.locate path = .ok place ∧ tree.node? place ≠ some .directory ∧
      next = tree.put place (.file (.text text)) := by
  obtain ⟨place, located, h⟩ := bind_eq_ok.1 h
  refine ⟨place, located, ?_⟩
  split at h
  · cases h
  · next content found =>
    split at h
    · cases h
    · cases h
      exact ⟨by simp [found], rfl⟩
  · next found =>
    split at h
    · cases h
    · cases h
      exact ⟨by simp [found], rfl⟩

end BoardSchema.FileTree
