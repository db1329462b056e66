import BoardSchema.Bits
import BoardSchema.Field.Basic
import BoardSchema.Layout.Names
/-!
A layout under way. Entries go to the innermost open structure, or to the root if none is open. An
open structure keeps apart what is to stand in front of it once it closes, so no entry that was put
out ever has to be moved.
-/
namespace BoardSchema.Layout

/-- A structure that is open. -/
structure Scope where
  opening : Field
  /-- A header structure goes in front of the structure around it. -/
  hoists : Bool
  /-- Closed header structures that stand in front of this structure. -/
  front : List Entry := []
  body : List Entry := []
  deriving DecidableEq, Repr

/-- The container that bit members are being packed into. -/
structure BitGroup where
  name : String
  /-- The byte offset of the container. -/
  offset : Option Nat
  /-- The default of the container, if it is a number. -/
  image : Option Bytes
  bits : Nat
  /-- The first bit that is free, if all widths so far are numbers. -/
  nextBit : Option Nat
  deriving DecidableEq, Repr

structure State where
  names : NamePool
  /-- The next free byte, if all lengths so far are numbers. -/
  cursor : Option Nat := some 0
  root : List Entry := []
  /-- The open structures, innermost first. -/
  scopes : List Scope := []
  /-- The number of open include brackets. -/
  includes : Nat := 0
  group : Option BitGroup := none
  /-- The line of the last field seen. -/
  lastLine : Nat := 0
  deriving Repr

namespace State

/-- The entries of the innermost open structure. -/
def current (state : State) : List Entry :=
  match state.scopes with
  | [] => state.root
  | scope :: _ => scope.body

def withCurrent (state : State) (entries : List Entry) : State :=
  match state.scopes with
  | [] => { state with root := entries }
  | scope :: outer => { state with scopes := { scope with body := entries } :: outer }

def push (state : State) (entries : List Entry) : State :=
  state.withCurrent (state.current ++ entries)

/-- Puts entries in the place of the last one. -/
def replaceLast (state : State) (entries : List Entry) : State :=
  state.withCurrent (state.current.dropLast ++ entries)

/-- What has been put out so far. An open structure follows what is to stand in front of it. -/
def output (state : State) : List Entry :=
  state.scopes.foldr
    (fun scope before => before ++ scope.front ++ .field scope.opening :: scope.body) state.root

@[simp] theorem current_withCurrent (state : State) (entries : List Entry) :
    (state.withCurrent entries).current = entries := by
  unfold withCurrent current
  cases state.scopes <;> rfl

@[simp] theorem current_push (state : State) (entries : List Entry) :
    (state.push entries).current = state.current ++ entries := by simp [push]

/-- Entries that are pushed come last. -/
@[simp] theorem output_push (state : State) (entries : List Entry) :
    (state.push entries).output = state.output ++ entries := by
  unfold push withCurrent current output
  cases state.scopes <;> simp

end State
end BoardSchema.Layout
