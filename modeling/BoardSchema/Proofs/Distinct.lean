import Mathlib.Data.List.Induction
import Mathlib.Data.List.Nodup
/-!
Names without repetitions, in the order in which each came up first. A list of named things that puts
each new one in the place of the one of its name has such names, and the last thing of each name.
-/
namespace BoardSchema

theorem eraseDups_concat (names : List String) (name : String) :
    (names ++ [name]).eraseDups =
      if name ∈ names then names.eraseDups else names.eraseDups ++ [name] := by
  rw [List.eraseDups_append]
  by_cases old : name ∈ names <;> simp [List.removeAll, old, List.eraseDups_cons]

theorem nodup_eraseDups (names : List String) : names.eraseDups.Nodup := by
  induction names using List.reverseRecOn with
  | nil => simp
  | append_singleton names name ih =>
    rw [eraseDups_concat]
    split
    · exact ih
    · next new =>
      refine List.nodup_append.2 ⟨ih, List.nodup_singleton name, ?_⟩
      rintro old hold _ hname rfl
      rw [List.mem_singleton.1 hname] at hold
      exact new (List.mem_eraseDups.1 hold)

theorem eraseDups_of_nodup {names : List String} (distinct : names.Nodup) :
    names.eraseDups = names := by
  induction names using List.reverseRecOn with
  | nil => rfl
  | append_singleton names name ih =>
    obtain ⟨first, -, apart⟩ := List.nodup_append.1 distinct
    have new : name ∉ names := fun old => apart name old name List.mem_cons_self rfl
    rw [eraseDups_concat, if_neg new, ih first]

/-! ## Named things -/

section

variable {α : Type} (name : α → String)

/-- Puts a thing in the place of the one of its name, or at the end. -/
def putNamed : List α → α → List α
  | [], new => [new]
  | old :: rest, new => if name old = name new then new :: rest else old :: putNamed rest new

/-- Of the things that were given, each name once, in the order in which the names came up first, and
under each name the last thing that was given. -/
structure KeepsLast (given kept : List α) : Prop where
  distinct : (kept.map name).Nodup
  names_eq : kept.map name = (given.map name).eraseDups
  find_eq : ∀ key, kept.find? (name · = key) = given.reverse.find? (name · = key)

theorem map_putNamed (kept : List α) (new : α) : (putNamed name kept new).map name =
    if name new ∈ kept.map name then kept.map name else kept.map name ++ [name new] := by
  induction kept with
  | nil => simp [putNamed]
  | cons old rest ih =>
    rw [putNamed]
    by_cases same : name old = name new
    · simp [same]
    · rw [if_neg same, List.map_cons, ih]
      by_cases known : name new ∈ rest.map name <;> simp [known, Ne.symm same]

theorem find?_putNamed (kept : List α) (new : α) (key : String) :
    (putNamed name kept new).find? (name · = key) =
      if name new = key then some new else kept.find? (name · = key) := by
  induction kept with
  | nil => by_cases here : name new = key <;> simp [putNamed, here]
  | cons old rest ih =>
    rw [putNamed]
    by_cases same : name old = name new
    · by_cases here : name new = key <;> simp [same, here]
    · rw [if_neg same]
      by_cases here : name old = key
      · have other : name new ≠ key := fun found => same (here.trans found.symm)
        simp [here, other]
      · simpa [here] using ih

theorem mem_putNamed {kept : List α} {new thing : α} (mem : thing ∈ putNamed name kept new) :
    thing = new ∨ thing ∈ kept := by
  induction kept with
  | nil => exact .inl (List.mem_singleton.1 mem)
  | cons old rest ih =>
    rw [putNamed] at mem
    split at mem
    · exact (List.mem_cons.1 mem).imp_right (List.mem_cons_of_mem old)
    · rcases List.mem_cons.1 mem with rfl | later
      · exact .inr List.mem_cons_self
      · exact (ih later).imp_right (List.mem_cons_of_mem old)

theorem foldl_putNamed_subset (given : List α) : given.foldl (putNamed name) [] ⊆ given := by
  induction given using List.reverseRecOn with
  | nil => exact List.Subset.refl _
  | append_singleton given new ih =>
    rw [List.foldl_concat]
    intro thing mem
    rcases mem_putNamed name mem with rfl | old
    · simp
    · exact List.mem_append_left _ (ih old)

theorem keepsLast_foldl (given : List α) :
    KeepsLast name given (given.foldl (putNamed name) []) := by
  induction given using List.reverseRecOn with
  | nil => exact ⟨List.nodup_nil, rfl, fun _ => rfl⟩
  | append_singleton given new ih =>
    have names_eq : ((given ++ [new]).foldl (putNamed name) []).map name =
        ((given ++ [new]).map name).eraseDups := by
      rw [List.foldl_concat, map_putNamed, ih.names_eq, List.map_append, List.map_singleton,
        eraseDups_concat]
      simp only [List.mem_eraseDups]
    refine ⟨names_eq ▸ nodup_eraseDups _, names_eq, fun key => ?_⟩
    rw [List.foldl_concat, find?_putNamed, ih.find_eq, List.reverse_concat, List.find?_cons]
    by_cases here : name new = key <;> simp [here]

end

end BoardSchema
