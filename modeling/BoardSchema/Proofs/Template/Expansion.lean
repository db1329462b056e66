import BoardSchema.Template.Expansion
/-!
A call that expands inside other expansions expands on its own, to the same layout: the templates
under way only ever make an expansion fail.
-/
namespace BoardSchema

variable {α β : Type}

/-- What the first computation gives, the second one gives as well. -/
def Logged.Within (x y : Logged α) : Prop := ∀ a, x.outcome = .ok a → y.outcome = .ok a

namespace Logged.Within

theorem refl (x : Logged α) : Within x x := fun _ h => h

theorem bind {x y : Logged α} {f g : α → Logged β} (h : Within x y) (k : ∀ a, Within (f a) (g a)) :
    Within (x >>= f) (y >>= g) := by
  intro b hb
  obtain ⟨a, hx, hf⟩ := Logged.outcome_bind_eq_ok.1 hb
  exact Logged.outcome_bind_eq_ok.2 ⟨a, h a hx, k a b hf⟩

end Logged.Within

namespace Layout

open Logged

variable {rules : Rules} {size size' : ExpandCall → Nat → Logged Nat}

theorem extent_within (h : ∀ call line, Within (size call line) (size' call line)) (field : Field) :
    Within (extent (.strict size) field) (extent (.strict size') field) := by
  cases hexpand : field.expand with
  | none =>
    simp only [extent, hexpand]
    exact .refl _
  | some call =>
    simp only [extent, hexpand]
    exact (h call field.line).bind fun bytes => .refl _

theorem place_within (h : ∀ call line, Within (size call line) (size' call line)) (field : Field)
    (state : State) :
    Within (place (.strict size) field state) (place (.strict size') field state) := by
  unfold place
  refine Within.bind (.refl _) fun sought => ?_
  exact (extent_within h field).bind fun extent => .refl _

theorem step_within (h : ∀ call line, Within (size call line) (size' call line)) (state : State)
    (entry : Entry) :
    Within (step rules (.strict size) state entry) (step rules (.strict size') state entry) := by
  cases entry with
  | includeOpen path => exact .refl _
  | includeClose => exact .refl _
  | field field =>
    cases role : field.role with
    | plain =>
      simp only [step, addField, role]
      exact place_within h field _
    | padding =>
      simp only [step, addField, role]
      exact place_within h field _
    | bitField =>
      simp only [step, addField, role]
      exact .refl _
    | structOpen =>
      simp only [step, addField, role]
      exact .refl _
    | structClose =>
      simp only [step, addField, role]
      exact .refl _
    | action =>
      simp only [step, addField, role]
      exact .refl _

theorem run_within (h : ∀ call line, Within (size call line) (size' call line))
    (entries : List Entry) (state : State) :
    Within (run rules (.strict size) state entries) (run rules (.strict size') state entries) := by
  induction entries generalizing state with
  | nil => exact .refl _
  | cons entry rest ih => exact (step_within h state entry).bind fun next => ih next

/-- A layout only depends on the sizes that it asks for. -/
theorem ofEntries_within (h : ∀ call line, Within (size call line) (size' call line))
    (names : NamePool) (entries : List Entry) :
    Within (ofEntries rules (.strict size) names entries)
      (ofEntries rules (.strict size') names entries) :=
  (run_within h entries _).bind fun _ => .refl _

end Layout

namespace TemplateTable

variable {table : TemplateTable} {rules : Rules}

/-- The number of bytes that a call takes inside the expansion of the `active` templates. -/
def sizeIn (table : TemplateTable) (rules : Rules) (active : List String) (call : ExpandCall)
    (line : Nat) : Logged Nat := do
  let layout ← expandIn table rules active call line
  Logged.ofExcept (sizeOf call line layout)

theorem sizeIn_eq_ok {active : List String} {call : ExpandCall} {line bytes : Nat} :
    (sizeIn table rules active call line).outcome = .ok bytes ↔ ∃ layout,
      (expandIn table rules active call line).outcome = .ok layout ∧ layout.size = some bytes := by
  unfold sizeIn
  rw [Logged.outcome_bind_eq_ok]
  constructor
  · rintro ⟨layout, h, hsize⟩
    refine ⟨layout, h, ?_⟩
    simp only [Logged.outcome_ofExcept, sizeOf] at hsize
    cases known : layout.size with
    | none => simp [known] at hsize
    | some bytes => simpa [known] using hsize
  · rintro ⟨layout, h, known⟩
    exact ⟨layout, h, by simp [sizeOf, known]⟩

/-- What an expansion comes from. -/
theorem expandIn_eq_ok {active : List String} {call : ExpandCall} {line : Nat} {layout : Layout} :
    (expandIn table rules active call line).outcome = .ok layout ↔ ∃ template built names,
      table.get? call.template = some template ∧ call.template ∉ active ∧
      (Built.ofLines rules (template.instantiate call.args)).outcome = .ok built ∧
      (Layout.ofEntries rules (.strict (sizeIn table rules (call.template :: active)))
        { stem := rules.paddingPrefix } built.entries).outcome = .ok (layout, names) := by
  rw [expandIn]
  split
  · next none => simp [none]
  · next template found =>
    split
    · next recursive => simp [recursive]
    · next fresh =>
      rw [Logged.outcome_bind_eq_ok]
      constructor
      · rintro ⟨built, hbuilt, h⟩
        obtain ⟨⟨laid, names⟩, hlayout, h⟩ := Logged.outcome_bind_eq_ok.1 h
        cases h
        exact ⟨template, built, names, found, fresh, hbuilt, hlayout⟩
      · rintro ⟨template', built, names, found', -, hbuilt, hlayout⟩
        cases found.symm.trans found'
        exact ⟨built, hbuilt, Logged.outcome_bind_eq_ok.2 ⟨(layout, names), hlayout, rfl⟩⟩

/-- With fewer templates under way, and on any line, a call expands to the same layout. -/
theorem expandIn_mono {active active' : List String} {call : ExpandCall} {line : Nat}
    {layout : Layout} (sub : ∀ name ∈ active', name ∈ active)
    (h : (expandIn table rules active call line).outcome = .ok layout) (line' : Nat) :
    (expandIn table rules active' call line').outcome = .ok layout := by
  -- A nested call has one template less to go to.
  generalize hn : (idle table.names active).length = n
  induction n using Nat.strongRecOn generalizing active active' call line line' layout with
  | ind n ih =>
    obtain ⟨template, built, names, found, fresh, hbuilt, hlayout⟩ := expandIn_eq_ok.1 h
    have fewer : (idle table.names (call.template :: active)).length < n := by
      rw [← hn]
      exact length_idle_lt (name_of_get? found) fresh
    have sub_inner : ∀ name ∈ call.template :: active', name ∈ call.template :: active := by
      intro name hname
      rcases List.mem_cons.1 hname with rfl | hname
      · simp
      · exact List.mem_cons_of_mem _ (sub name hname)
    have sizes : ∀ inner line, Logged.Within
        (sizeIn table rules (call.template :: active) inner line)
        (sizeIn table rules (call.template :: active') inner line) := by
      intro inner line bytes hbytes
      obtain ⟨laid, hlaid, size⟩ := sizeIn_eq_ok.1 hbytes
      exact sizeIn_eq_ok.2 ⟨laid, ih _ fewer sub_inner hlaid line rfl, size⟩
    have fresh' := fun active => fresh (sub _ active)
    exact expandIn_eq_ok.2 ⟨template, built, names, found, fresh', hbuilt,
      Layout.ofEntries_within sizes _ _ _ hlayout⟩

end TemplateTable
end BoardSchema
