import BoardSchema.Proofs.Field.Builder
import BoardSchema.Proofs.Layout.Faults
import BoardSchema.Proofs.Layout.UnderWay
import BoardSchema.Proofs.Template.Expansion
import Mathlib.Data.List.Forall2
import Mathlib.Data.List.Nodup
import Mathlib.Data.List.Perm.Subperm
/-!
The expander as a machine with a stack. It keeps the names of the templates under way on one stack,
which nested calls and later requests share, and takes a name off again however its expansion ends.
So the stack is always left as it was found, and the machine answers every request as if it was the
first one.
-/
namespace BoardSchema

namespace Layout

/-! ## What a layout asks for -/

/-- The size that a strict layout asks for before it can take in an entry: that of a call whose
place it got to. -/
def asked? (state : State) : Entry → Option (ExpandCall × Nat)
  | .field field =>
    if field.role = .plain ∨ field.role = .padding then
      match seek field (closeGroup { state with lastLine := field.line }) with
      | .ok _ => field.expand.map fun call => (call, field.line)
      | .error _ => none
    else none
  | _ => none

/-- A size that was asked for, or zero. -/
def answer {m : Type → Type} [Monad m] (size : ExpandCall → Nat → m Nat) :
    Option (ExpandCall × Nat) → m Nat
  | none => pure 0
  | some (call, line) => size call line

variable {rules : Rules} {size : ExpandCall → Nat → Logged Nat}

theorem extent_eq_of_expand_eq_none {field : Field} (expand : field.expand = none)
    (size size' : ExpandCall → Nat → Logged Nat) :
    extent (.strict size) field = extent (.strict size') field := by
  simp only [extent, expand]

theorem place_eq_answer (size : ExpandCall → Nat → Logged Nat) (field : Field) (state : State) :
    place (.strict size) field state =
      answer size (match seek field state with
        | .ok _ => field.expand.map fun call => (call, field.line)
        | .error _ => none) >>= fun bytes => place (.strict fun _ _ => pure bytes) field state := by
  cases hseek : seek field state with
  | error error => simp only [place, hseek, answer, pure_bind]; rfl
  | ok sought =>
    cases expand : field.expand with
    | none =>
      simp only [Option.map_none, answer, pure_bind, place]
      rw [extent_eq_of_expand_eq_none expand size fun _ _ => pure 0]
    | some call =>
      have known : ∀ size, place (.strict size) field state = size call field.line >>= fun bytes =>
          Logged.ofExcept (advance field sought.cursor (some bytes)) >>= fun cursor =>
            pure ({ sought with cursor }.push
              [.field { field with offset := sought.cursor, length := .fixed bytes }]) := by
        intro size
        have sought_pure : (Logged.ofExcept (.ok sought) : Logged State) = pure sought := rfl
        simp only [place, hseek, sought_pure, pure_bind, extent, expand, bind_assoc]
      simp only [Option.map_some, answer, known, pure_bind]

/-- A layout asks for one size at most with each entry, and goes on with the answer. -/
theorem step_eq_answer (rules : Rules) (size : ExpandCall → Nat → Logged Nat) (state : State)
    (entry : Entry) : step rules (.strict size) state entry =
      answer size (asked? state entry) >>= fun bytes =>
        step rules (.strict fun _ _ => pure bytes) state entry := by
  cases entry with
  | includeOpen path => rfl
  | includeClose => rfl
  | field field =>
    cases role : field.role with
    | plain =>
      simp only [step, addField, asked?, role, true_or, ↓reduceIte]
      exact place_eq_answer size field _
    | padding =>
      simp only [step, addField, asked?, role, or_true, ↓reduceIte]
      exact place_eq_answer size field _
    | bitField => simp [step, addField, asked?, role, answer]
    | structOpen => simp [step, addField, asked?, role, answer]
    | structClose => simp [step, addField, asked?, role, answer]
    | action => simp [step, addField, asked?, role, answer]

end Layout

/-! ## The machine -/

namespace Expander

/-- What becomes of the stack of active templates, whose top comes first. -/
inductive Event where
  /-- A call comes in and finds this stack. -/
  | called (active : List String) (call : ExpandCall) (line : Nat)
  /-- A name is put on top, which makes this stack. -/
  | entered (active : List String)
  /-- A call that found the first stack is over, and leaves the second one. -/
  | returned (found active : List String)
  deriving DecidableEq, Repr

/-- An operation that has come to its end, with the stack that it leaves. -/
structure Run (α : Type) where
  result : Logged α
  events : List Event
  active : List String

/-- An operation on the stack. It comes to nothing if its fuel does not last. -/
def Operation (α : Type) := List String → Option (Run α)

namespace Operation

variable {α β : Type}

/-- What does not touch the stack. -/
def lift (x : Logged α) : Operation α := fun active => some ⟨x, [], active⟩

/-- An operation that fails keeps the stack as it was then. -/
protected def bind (x : Operation α) (f : α → Operation β) : Operation β := fun active =>
  (x active).bind fun first =>
    match first.result.outcome with
    | .error error => some ⟨⟨first.result.notices, .error error⟩, first.events, first.active⟩
    | .ok a => (f a first.active).map fun second =>
      ⟨first.result >>= fun _ => second.result, first.events ++ second.events, second.active⟩

instance : Monad Operation where
  pure a := lift (pure a)
  bind := Operation.bind

/-- Puts a name on the stack, and takes the top off again at the end, which may be a failure. -/
def under (name : String) (x : Operation α) : Operation α := fun active =>
  (x (name :: active)).map fun run =>
    { run with events := .entered (name :: active) :: run.events, active := run.active.tail }

/-- Notes that a call comes in and that it is over. -/
def noted (call : ExpandCall) (line : Nat) (x : Operation α) : Operation α := fun active =>
  (x active).map fun run =>
    { run with events := .called active call line :: run.events ++ [.returned active run.active] }

end Operation

variable (table : TemplateTable) (rules : Rules)

/-- Lays out entries; the sizes that are asked for are worked out on the stack. -/
def runLayout (size : ExpandCall → Nat → Operation Nat) (state : Layout.State) :
    List Entry → Operation Layout.State
  | [] => pure state
  | entry :: rest => do
    let bytes ← Layout.answer size (Layout.asked? state entry)
    let state ← .lift (Layout.step rules (.strict fun _ _ => pure bytes) state entry)
    runLayout size state rest

/-- Builds the lines of a template and lays them out strictly. -/
def layLines (size : ExpandCall → Nat → Operation Nat) (lines : List SourceLine) :
    Operation Layout := do
  let built ← .lift (Built.ofLines rules lines)
  let state ← runLayout rules size { names := { stem := rules.paddingPrefix } } built.entries
  let (layout, _) ← .lift (Logged.ofExcept (Layout.finish state))
  return layout

/-- Takes a call in: its template has to be known and not under way. -/
def enter (size : ExpandCall → Nat → Operation Nat) (call : ExpandCall) (line : Nat) :
    Operation Layout := fun active =>
  match table.get? call.template with
  | none => Operation.lift (Logged.fail (.unknownTemplateReference line call.template)) active
  | some template =>
    if call.template ∈ active then
      Operation.lift (Logged.fail (.recursiveTemplate line call.template)) active
    else Operation.under call.template (layLines rules size (template.instantiate call.args)) active

/-- The size of an expansion, which the call on this line needs. -/
def sizeWith (expand : ExpandCall → Nat → Operation Layout) (call : ExpandCall) (line : Nat) :
    Operation Nat := do
  let layout ← expand call line
  .lift (Logged.ofExcept (TemplateTable.sizeOf call line layout))

/-- Expands a call with the stack as it is, to the depth that the fuel allows. -/
def expand : (fuel : Nat) → ExpandCall → Nat → Operation Layout
  | 0, _, _ => fun _ => none
  | fuel + 1, call, line =>
    .noted call line (enter table rules (sizeWith (expand fuel)) call line)

/-- What an expander can be asked for. -/
inductive Request where
  | expand (call : ExpandCall) (line : Nat)
  | size (call : ExpandCall) (line : Nat)
  | body (template : Template)

inductive Reply where
  | layout (layout : Layout)
  | size (bytes : Nat)
  | body (built : Built)
  deriving DecidableEq, Repr

def serve (fuel : Nat) : Request → Operation Reply
  | .expand call line => return .layout (← expand table rules fuel call line)
  | .size call line => return .size (← sizeWith (expand table rules fuel) call line)
  | .body template => return .body (← .lift (template.layoutBody rules))

/-- Serves one request after the other, each with the stack that the one before it left. -/
def serveAll (fuel : Nat) : List Request → List String → Option (List (Run Reply))
  | [], _ => some []
  | request :: rest, active => do
    let run ← serve table rules fuel request active
    let runs ← serveAll fuel rest run.active
    return run :: runs

/-- The answer to a request, which knows of no stack. -/
def Request.answer : Request → Logged Reply
  | expand call line => return .layout (← table.expand rules call line)
  | size call line => return .size (← table.expandedSize rules call line)
  | body template => return .body (← template.layoutBody rules)

/-! ## What the machine keeps to -/

/-- The names of templates of the table, none of them twice. -/
structure IsStack (table : TemplateTable) (active : List String) : Prop where
  nodup : active.Nodup
  defined : ∀ name ∈ active, name ∈ table.names
  depth : active.length ≤ table.length

/-- The stack holds different templates all the time, and a call leaves it as it was. -/
def Event.Sound (table : TemplateTable) : Event → Prop
  | called active _ _ => IsStack table active
  | entered active => IsStack table active
  | returned found active => IsStack table found ∧ active = found

/-- A call on the line comes in for a template that is under way. -/
def Reenters (events : List Event) (line : Nat) (name : String) : Prop :=
  ∃ active call, .called active call line ∈ events ∧ call.template = name ∧ name ∈ active

/-- A run with the result that was expected, which leaves the stack as it was and fails with a
recursion where a template is entered again, and only there. -/
structure Serves {α : Type} (table : TemplateTable) (active : List String) (expected : Logged α)
    (run : Run α) : Prop where
  result : run.result = expected
  active : run.active = active
  sound : ∀ event ∈ run.events, event.Sound table
  recursive : ∀ line name, run.result.outcome = .error (.recursiveTemplate line name) ↔
    Reenters run.events line name

/-- An operation that comes to an end with this stack, and serves what was expected. -/
def Meets {α : Type} (table : TemplateTable) (active : List String) (x : Operation α)
    (expected : Logged α) : Prop :=
  ∃ run, x active = some run ∧ Serves table active expected run

variable {table : TemplateTable} {rules : Rules} {active : List String}

theorem IsStack.nil (table : TemplateTable) : IsStack table [] := ⟨.nil, by simp, by simp⟩

theorem IsStack.cons {name : String} (stack : IsStack table active) (defined : name ∈ table.names)
    (fresh : name ∉ active) : IsStack table (name :: active) := by
  have nodup : (name :: active).Nodup := stack.nodup.cons fresh
  have subset : ∀ other ∈ name :: active, other ∈ table.names := by
    intro other hother
    rcases List.mem_cons.1 hother with rfl | hother
    · exact defined
    · exact stack.defined other hother
  refine ⟨nodup, subset, ?_⟩
  have le := (List.subperm_of_subset nodup subset).length_le
  rwa [TemplateTable.names, List.length_map] at le

/-- What does not fail with a recursion on its own. -/
def Calm {α : Type} (x : Logged α) : Prop :=
  ∀ line name, x.outcome ≠ .error (.recursiveTemplate line name)

section

variable {α β : Type}

theorem Reenters.append_iff {left right : List Event} {line : Nat} {name : String} :
    Reenters (left ++ right) line name ↔ Reenters left line name ∨ Reenters right line name := by
  simp only [Reenters, List.mem_append]
  constructor
  · rintro ⟨active, call, mem | mem, rest⟩
    · exact .inl ⟨active, call, mem, rest⟩
    · exact .inr ⟨active, call, mem, rest⟩
  · rintro (⟨active, call, mem, rest⟩ | ⟨active, call, mem, rest⟩)
    · exact ⟨active, call, .inl mem, rest⟩
    · exact ⟨active, call, .inr mem, rest⟩

theorem Meets.lift {x : Logged α} (calm : Calm x) : Meets table active (.lift x) x :=
  ⟨⟨x, [], active⟩, rfl, rfl, rfl, by simp,
    fun line name => by simpa [Reenters] using calm line name⟩

theorem Meets.pure (a : α) : Meets table active (pure a) (pure a) := .lift (by simp [Calm])

theorem Meets.bind {x : Operation α} {f : α → Operation β} {expected : Logged α} {g : α → Logged β}
    (hx : Meets table active x expected)
    (hf : ∀ a, expected.outcome = .ok a → Meets table active (f a) (g a)) :
    Meets table active (x >>= f) (expected >>= g) := by
  obtain ⟨⟨⟨notices, outcome⟩, events, left⟩, hrun, rfl, rfl, sound, recursive⟩ := hx
  cases outcome with
  | error error =>
    refine ⟨⟨⟨notices, .error error⟩, events, left⟩, ?_, rfl, rfl, sound,
      fun line name => by simpa using recursive line name⟩
    show (x left).bind _ = _
    rw [hrun]
    rfl
  | ok a =>
    obtain ⟨second, hsecond, result, active, sound', recursive'⟩ := hf a rfl
    refine ⟨⟨⟨notices ++ second.result.notices, second.result.outcome⟩, events ++ second.events,
      second.active⟩, ?_, ?_, active, ?_, fun line name => ?_⟩
    · show (x left).bind _ = _
      rw [hrun]
      show (f a left).map _ = _
      rw [hsecond]
      rfl
    · rw [result]
      rfl
    · exact fun event hevent => (List.mem_append.1 hevent).elim (sound event) (sound' event)
    · have first : ¬Reenters events line name := by simpa using (recursive line name).symm.not
      rw [Reenters.append_iff, ← recursive' line name]
      simp [first]

/-- Putting a name on the stack for a while does not change what is expected. -/
theorem Meets.under {name : String} {x : Operation α} {expected : Logged α}
    (h : Meets table (name :: active) x expected) (stack : IsStack table (name :: active)) :
    Meets table active (.under name x) expected := by
  obtain ⟨run, hrun, result, left, sound, recursive⟩ := h
  refine ⟨{ run with events := .entered (name :: active) :: run.events, active := run.active.tail },
    by simp [Operation.under, hrun], result, by simp [left], ?_, fun line name => ?_⟩
  · intro event hevent
    rcases List.mem_cons.1 hevent with rfl | hevent
    · exact stack
    · exact sound event hevent
  · simpa [Reenters] using recursive line name

theorem Event.mem_noted {events : List Event} {call inner : ExpandCall} {line number : Nat}
    {found left stack : List String} :
    Event.called stack inner number ∈ .called found call line :: events ++ [.returned found left] ↔
      (stack = found ∧ inner = call ∧ number = line) ∨ .called stack inner number ∈ events := by
  simp

/-- A call of a template that is not under way. -/
theorem Meets.noted {call : ExpandCall} {line : Nat} {x : Operation α} {expected : Logged α}
    (h : Meets table active x expected) (stack : IsStack table active)
    (fresh : call.template ∉ active) : Meets table active (.noted call line x) expected := by
  obtain ⟨run, hrun, result, left, sound, recursive⟩ := h
  refine ⟨{ run with
    events := .called active call line :: run.events ++ [.returned active run.active] },
    by simp [Operation.noted, hrun], result, left, ?_, fun number name => ?_⟩
  · intro event hevent
    simp only [List.cons_append, List.mem_cons, List.mem_append, List.not_mem_nil,
      or_false] at hevent
    rcases hevent with rfl | hevent | rfl
    · exact stack
    · exact sound event hevent
    · exact ⟨stack, left⟩
  · rw [recursive number name]
    simp only [Reenters, Event.mem_noted]
    constructor
    · rintro ⟨active, inner, mem, rest⟩
      exact ⟨active, inner, .inr mem, rest⟩
    · rintro ⟨found, inner, ⟨rfl, rfl, rfl⟩ | mem, rfl, again⟩
      · exact absurd again fresh
      · exact ⟨found, inner, mem, rfl, again⟩

/-- A call of a template that is under way fails at once. -/
theorem meets_recursive {call : ExpandCall} {line : Nat} (stack : IsStack table active)
    (again : call.template ∈ active) :
    Meets (α := α) table active
      (.noted call line (.lift (Logged.fail (.recursiveTemplate line call.template))))
      (Logged.fail (.recursiveTemplate line call.template)) := by
  refine ⟨_, rfl, rfl, rfl, ?_, fun number name => ?_⟩
  · intro event hevent
    simp only [List.cons_append, List.mem_cons, List.nil_append, List.not_mem_nil,
      or_false] at hevent
    rcases hevent with rfl | rfl
    · exact stack
    · exact ⟨stack, rfl⟩
  · simp only [Reenters, Event.mem_noted, List.not_mem_nil, or_false]
    constructor
    · intro h
      cases h
      exact ⟨active, call, ⟨rfl, rfl, rfl⟩, rfl, again⟩
    · rintro ⟨_, _, ⟨rfl, rfl, rfl⟩, rfl, -⟩
      rfl

/-! ## Templates -/

theorem calm_ofLines (lines : List SourceLine) : Calm (Built.ofLines rules lines) := by
  intro line name h
  obtain ⟨_, -, fault⟩ := Built.ofLines_faults h
  cases fault

theorem calm_step {sizing : Sizing}
    (calm : ∀ size, sizing = .strict size → ∀ call line, Calm (size call line))
    (state : Layout.State) (entry : Entry) : Calm (Layout.step rules sizing state entry) := by
  intro line name h
  cases Layout.step_faults h with
  | field fault => cases fault
  | size strict _ failed => exact calm _ strict _ _ _ _ failed

theorem calm_finish (state : Layout.State) :
    Calm (Logged.ofExcept (Layout.finish state)) := by
  intro line name h
  obtain ⟨_, _, error⟩ := Layout.finish_eq_error h
  cases error

theorem calm_layoutBody (template : Template) : Calm (template.layoutBody rules) := by
  intro line name h
  rcases Logged.outcome_bind_eq_error.1 h with failed | ⟨built, -, h⟩
  · exact calm_ofLines _ _ _ failed
  · rcases Logged.outcome_bind_eq_error.1 h with failed | ⟨entries, -, h⟩
    · rcases Logged.outcome_bind_eq_error.1 failed with failed | ⟨layout, -, h⟩
      · rcases Logged.outcome_bind_eq_error.1 failed with failed | ⟨state, -, failed⟩
        · obtain ⟨_, entry, _, next, -, -, failed⟩ := Layout.run_eq_error failed
          exact calm_step (by simp) next entry _ _ failed
        · exact calm_finish state _ _ failed
      · cases h
    · cases h

theorem calm_sizeOf (call : ExpandCall) (line : Nat) (layout : Layout) :
    Calm (Logged.ofExcept (TemplateTable.sizeOf call line layout)) := by
  intro _ _ h
  simp only [Logged.outcome_ofExcept, TemplateTable.sizeOf] at h
  split at h <;> cases h

/-- Sizes that are worked out on the stack lead to the same layout. -/
theorem Meets.runLayout {size : ExpandCall → Nat → Operation Nat}
    {size' : ExpandCall → Nat → Logged Nat}
    (sizes : ∀ call line, Meets table active (size call line) (size' call line))
    (state : Layout.State) (entries : List Entry) :
    Meets table active (runLayout rules size state entries)
      (Layout.run rules (.strict size') state entries) := by
  induction entries generalizing state with
  | nil => exact .pure state
  | cons entry rest ih =>
    have asks : Meets table active (Layout.answer size (Layout.asked? state entry))
        (Layout.answer size' (Layout.asked? state entry)) := by
      cases Layout.asked? state entry with
      | none => exact .pure 0
      | some asked => exact sizes asked.1 asked.2
    rw [Layout.run, Layout.step_eq_answer, bind_assoc]
    refine asks.bind fun bytes _ => ?_
    refine Meets.bind (.lift (calm_step ?_ state entry)) fun next _ => ih next
    intro size strict call line
    cases strict
    simp [Calm]

theorem Meets.layLines {size : ExpandCall → Nat → Operation Nat}
    {size' : ExpandCall → Nat → Logged Nat}
    (sizes : ∀ call line, Meets table active (size call line) (size' call line))
    (lines : List SourceLine) :
    Meets table active (layLines rules size lines) (do
      let built ← Built.ofLines rules lines
      let (layout, _) ← Layout.ofEntries rules (.strict size') { stem := rules.paddingPrefix }
        built.entries
      return layout) := by
  refine Meets.bind (.lift (calm_ofLines lines)) fun built _ => ?_
  simp only [Layout.ofEntries, bind_assoc]
  refine (Meets.runLayout sizes _ built.entries).bind fun state _ => ?_
  exact Meets.bind (.lift (calm_finish state)) fun (layout, _) _ => .pure layout

theorem expandIn_eq_of_unknown {call : ExpandCall} {line : Nat}
    (unknown : table.get? call.template = none) : table.expandIn rules active call line =
      Logged.fail (.unknownTemplateReference line call.template) := by
  rw [TemplateTable.expandIn]
  split
  · rfl
  · next some => cases unknown.symm.trans some

theorem expandIn_eq_of_again {call : ExpandCall} {line : Nat} {template : Template}
    (found : table.get? call.template = some template) (again : call.template ∈ active) :
    table.expandIn rules active call line =
      Logged.fail (.recursiveTemplate line call.template) := by
  rw [TemplateTable.expandIn]
  split
  · next none => cases none.symm.trans found
  · rw [dif_pos again]

theorem expandIn_eq_of_fresh {call : ExpandCall} {line : Nat} {template : Template}
    (found : table.get? call.template = some template) (fresh : call.template ∉ active) :
    table.expandIn rules active call line = (do
      let built ← Built.ofLines rules (template.instantiate call.args)
      let (layout, _) ← Layout.ofEntries rules
        (.strict (table.sizeIn rules (call.template :: active)))
        { stem := rules.paddingPrefix } built.entries
      return layout) := by
  rw [TemplateTable.expandIn]
  split
  · next none => cases none.symm.trans found
  · next other hother =>
    cases hother.symm.trans found
    rw [dif_neg fresh]
    rfl

theorem Meets.congr {x y : Operation α} {expected : Logged α} (same : x active = y active)
    (h : Meets table active y expected) : Meets table active x expected := by
  obtain ⟨run, hrun, serves⟩ := h
  exact ⟨run, same.trans hrun, serves⟩

theorem Meets.sizeWith {expand : ExpandCall → Nat → Operation Layout} {call : ExpandCall}
    {line : Nat}
    (h : Meets table active (expand call line) (table.expandIn rules active call line)) :
    Meets table active (sizeWith expand call line) (table.sizeIn rules active call line) :=
  h.bind fun layout _ => .lift (calm_sizeOf call line layout)

/-- With fuel for every template that is not under way, an expansion comes to its end and gives what
the call expands to. -/
theorem Meets.expand {fuel : Nat}
    (enough : (TemplateTable.idle table.names active).length < fuel) (stack : IsStack table active)
    (call : ExpandCall) (line : Nat) : Meets table active (expand table rules fuel call line)
      (table.expandIn rules active call line) := by
  induction fuel generalizing active call line with
  | zero => omega
  | succ fuel ih =>
    unfold Expander.expand
    cases found : table.get? call.template with
    | none =>
      have fresh : call.template ∉ active := fun again => by
        obtain ⟨template, known, name⟩ := List.mem_map.1 (stack.defined _ again)
        simpa [name] using List.find?_eq_none.1 found template known
      rw [expandIn_eq_of_unknown found]
      refine Meets.noted (.congr ?_ (.lift ?_)) stack fresh
      · simp only [enter, found]
      · simp [Calm]
    | some template =>
      have defined := TemplateTable.name_of_get? found
      by_cases again : call.template ∈ active
      · rw [expandIn_eq_of_again found again]
        refine .congr ?_ (meets_recursive stack again)
        simp only [Operation.noted, enter, found, if_pos again]
      · have fewer := TemplateTable.length_idle_lt defined again
        have entered := stack.cons defined again
        have sizes := fun inner line => (ih (by omega) entered inner line).sizeWith
        rw [expandIn_eq_of_fresh found again]
        refine Meets.noted (.congr ?_ ((Meets.layLines sizes _).under entered)) stack again
        simp only [enter, found, if_neg again]

end

/-! ## Requests -/

theorem meets_serve (table : TemplateTable) (rules : Rules) (request : Request) (spare : Nat) :
    Meets table [] (serve table rules (table.length + 1 + spare) request)
      (request.answer table rules) := by
  have enough : (TemplateTable.idle table.names []).length < table.length + 1 + spare := by
    have le : (TemplateTable.idle table.names []).length ≤ table.names.length :=
      List.length_filter_le ..
    have same : table.names.length = table.length := List.length_map ..
    omega
  have expands : ∀ call line,
      Meets table [] (expand table rules (table.length + 1 + spare) call line)
        (table.expandIn rules [] call line) := Meets.expand enough (.nil table)
  cases request with
  | expand call line => exact (expands call line).bind fun layout _ => .pure _
  | size call line => exact (expands call line).sizeWith.bind fun bytes _ => .pure _
  | body template => exact Meets.bind (.lift (calm_layoutBody template)) fun built _ => .pure _

/-- Whatever an expander is asked for, one thing after the other, it comes to an end, with fuel for
one call more than the table has templates. Every answer is the one of an expander that was never
asked before. On the way the stack holds different templates of the table, each call leaves it as it
was, and a recursion is reported where a template on the stack is called again, and only there. -/
theorem serveAll_serves (table : TemplateTable) (rules : Rules) (requests : List Request)
    (spare : Nat) : ∃ runs,
      serveAll table rules (table.length + 1 + spare) requests [] = some runs ∧
      List.Forall₂ (fun request run =>
        serve table rules (table.length + 1 + spare) request [] = some run ∧
          Serves table [] (request.answer table rules) run) requests runs := by
  induction requests with
  | nil => exact ⟨[], rfl, .nil⟩
  | cons request rest ih =>
    obtain ⟨run, hrun, serves⟩ := meets_serve table rules request spare
    obtain ⟨runs, hruns, all⟩ := ih
    refine ⟨run :: runs, ?_, .cons ⟨hrun, serves⟩ all⟩
    rw [serveAll, hrun]
    show (serveAll _ _ _ rest run.active).bind _ = _
    rw [serves.active, hruns]
    rfl

/-- A template that calls itself is refused, and what is asked for next is not affected. -/
example :
    let lines : List SourceLine := [⟨2, "# !BSF SUBT:\x7bLoop:1\x7d"⟩]
    let table : TemplateTable := [⟨"Loop", ".", 1, lines⟩, ⟨"Flat", ".", 4, [⟨5, "A | * | 2 | 0"⟩]⟩]
    (serveAll table {} 3 [.size ⟨"Loop", []⟩ 9, .size ⟨"Flat", []⟩ 10] []).map
      (·.map fun run => (run.result.outcome, run.active)) =
        some [(.error (.recursiveTemplate 2 "Loop"), []), (.ok (.size 2), [])] := by
  decide +kernel

end Expander
end BoardSchema
