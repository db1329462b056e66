import BoardSchema.Error
/-!
What is worth telling besides the result. A computation that can fail keeps the notices it gave
before it failed, so notices and outcome are two parts of one value. `outcome_bind` says that the
outcome alone follows the rule of `Except`, whatever the notices are.
-/
namespace BoardSchema

inductive Notice where
  /-- A faulty pragma block was passed over. -/
  | recovered (error : CompileError)
  | repeatedStart (line : Nat) (template : String)
  | strayField (line : Nat)
  | unknownWidth (list : String) (length : Nat)
  | fixupSkipped (pattern name : String)
  | fixupUnused (pattern : String)
  | compiled (path : String) (fields templates : Nat) (size : Option Nat)
  deriving DecidableEq, Repr

inductive Severity where
  | warning
  | information
  deriving DecidableEq, Repr

namespace Notice

def severity : Notice → Severity
  | compiled .. => .information
  | _ => .warning

def message : Notice → String
  | recovered error => error.message
  | repeatedStart line template =>
    s!"line {line}: template `{template}` is already open, ignoring repeated START"
  | strayField line => s!"line {line}: field declared outside of any template, ignored"
  | unknownWidth list length => s!"cannot infer the element width of `{list}` for {length} byte(s)"
  | fixupSkipped pattern name =>
    s!"fixup `{pattern}` would make the length of `{name}` negative, skipped"
  | fixupUnused pattern => s!"fixup rule for `{pattern}` matched no field"
  | compiled path fields templates size =>
    let sizeText := (size.map (Numeral.hex 1)).getD "unknown"
    s!"compiled `{path}`: {fields} field(s), {templates} template(s), configuration size {sizeText}"

end Notice

theorem ok_bind {ε α β : Type} (a : α) (f : α → Except ε β) : (Except.ok a >>= f) = f a := rfl

/-- What a sequence gives comes from its second part, run on what the first gives. -/
theorem bind_eq_ok {ε α β : Type} {x : Except ε α} {f : α → Except ε β} {b : β} :
    (x >>= f) = .ok b ↔ ∃ a, x = .ok a ∧ f a = .ok b := by
  cases x with
  | error error => simp [bind, Except.bind]
  | ok a => simp [bind, Except.bind]

/-- A sequence fails where its first part does, or else where its second part does. -/
theorem bind_eq_error {ε α β : Type} {x : Except ε α} {f : α → Except ε β} {error : ε} :
    (x >>= f) = .error error ↔ x = .error error ∨ ∃ a, x = .ok a ∧ f a = .error error := by
  cases x with
  | error error => simp [bind, Except.bind]
  | ok a => simp [bind, Except.bind]

/-- Something that is known of a result tells that there is one. -/
theorem exists_eq_ok {ε α β : Type} {x : Except ε α} {f : α → β} {b : β}
    (h : x.toOption.map f = some b) : ∃ a, x = .ok a ∧ f a = b := by
  cases x with
  | error error => cases h
  | ok a => exact ⟨a, rfl, Option.some.inj h⟩

/-- The outcome of a computation that can fail, with the notices it gave. -/
structure Logged (α : Type) where
  notices : List Notice
  outcome : Except CompileError α

namespace Logged

variable {α β : Type}

protected def pure (a : α) : Logged α := ⟨[], .ok a⟩

/-- Fails without a notice. -/
def fail (error : CompileError) : Logged α := ⟨[], .error error⟩

def note (notice : Notice) : Logged Unit := ⟨[notice], .ok ()⟩

def noteAll (notices : List Notice) : Logged Unit := ⟨notices, .ok ()⟩

def ofExcept (outcome : Except CompileError α) : Logged α := ⟨[], outcome⟩

protected def bind (x : Logged α) (f : α → Logged β) : Logged β :=
  match x.outcome with
  | .error error => ⟨x.notices, .error error⟩
  | .ok a => ⟨x.notices ++ (f a).notices, (f a).outcome⟩

instance : Monad Logged where
  pure := Logged.pure
  bind := Logged.bind

@[simp] theorem outcome_pure (a : α) : (pure a : Logged α).outcome = .ok a := rfl

@[simp] theorem outcome_fail (error : CompileError) :
    (fail error : Logged α).outcome = .error error := rfl

@[simp] theorem outcome_note (notice : Notice) : (note notice).outcome = .ok () := rfl

@[simp] theorem outcome_noteAll (notices : List Notice) : (noteAll notices).outcome = .ok () := rfl

@[simp] theorem outcome_ofExcept (outcome : Except CompileError α) :
    (ofExcept outcome).outcome = outcome := rfl

@[simp] theorem outcome_bind (x : Logged α) (f : α → Logged β) :
    (x >>= f).outcome = x.outcome >>= fun a => (f a).outcome := by
  show (Logged.bind x f).outcome = _
  unfold Logged.bind
  cases x.outcome <;> rfl

theorem outcome_bind_eq_ok {x : Logged α} {f : α → Logged β} {b : β} :
    (x >>= f).outcome = .ok b ↔ ∃ a, x.outcome = .ok a ∧ (f a).outcome = .ok b := by
  rw [outcome_bind, bind_eq_ok]

theorem outcome_bind_eq_error {x : Logged α} {f : α → Logged β} {error : CompileError} :
    (x >>= f).outcome = .error error ↔
      x.outcome = .error error ∨ ∃ a, x.outcome = .ok a ∧ (f a).outcome = .error error := by
  rw [outcome_bind, bind_eq_error]

theorem mk_ok_bind (notices : List Notice) (a : α) (f : α → Logged β) :
    ((⟨notices, .ok a⟩ : Logged α) >>= f) = ⟨notices ++ (f a).notices, (f a).outcome⟩ := rfl

protected theorem bind_pure (x : Logged α) : (x >>= pure) = x := by
  obtain ⟨notices, outcome⟩ := x
  cases outcome with
  | error error => rfl
  | ok a =>
    rw [mk_ok_bind]
    exact congrArg (fun notices => Logged.mk notices (.ok a)) (List.append_nil notices)

protected theorem bind_assoc {γ : Type} (x : Logged α) (f : α → Logged β) (g : β → Logged γ) :
    x >>= f >>= g = x >>= fun a => f a >>= g := by
  obtain ⟨notices, outcome⟩ := x
  cases outcome with
  | error error => rfl
  | ok a =>
    rw [mk_ok_bind, mk_ok_bind]
    obtain ⟨notices', outcome'⟩ := f a
    cases outcome' with
    | error error => rfl
    | ok b => simp only [mk_ok_bind, List.append_assoc]

instance : LawfulMonad Logged :=
  LawfulMonad.mk' Logged Logged.bind_pure (fun _ _ => rfl) Logged.bind_assoc

end Logged
end BoardSchema
