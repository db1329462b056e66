import BoardSchema.Layout.Basic
/-!
The outline of a layout: a stream as it is nested, in the order in which it was declared, each
element with what became of it. `source` reads the declared stream off an outline. A structure that
hoists goes in front of the structure around it, so the entries that are put out form two lists:
those in front of the structure that the outline stands in, and those inside it.
-/
namespace BoardSchema.Layout

/-- A field as it was declared, and as it was put out. -/
structure Placed where
  source : Field
  result : Field

/-- A byte field with the padding that was put before it. -/
structure Cell extends Placed where
  padding : Option Field

/-- A byte field that bits were packed into. -/
structure Packed extends Cell where
  opening : Field
  marker : Field
  members : List Placed
  closing : Field

/-- Outlines grow at the end, as a layout does. -/
inductive Outline where
  | nil
  /-- A page marker or an include bracket. -/
  | mark (before : Outline) (source result : Entry)
  | byte (before : Outline) (cell : Cell)
  | pack (before : Outline) (packed : Packed)
  | block (before : Outline) (hoists : Bool) (opening : Placed) (inner : Outline) (closing : Placed)

def Cell.gap (cell : Cell) : List Entry := cell.padding.toList.map .field

def Cell.entries (cell : Cell) : List Entry := cell.gap ++ [.field cell.result]

/-- What a container is put out as so far, while members are still to come. -/
def Packed.start (packed : Packed) : List Entry :=
  packed.gap ++ .field packed.opening :: .field packed.marker ::
    packed.members.map fun member => .field member.result

def Packed.entries (packed : Packed) : List Entry := packed.start ++ [.field packed.closing]

namespace Outline

/-- The stream that was declared. -/
def source : Outline → List Entry
  | nil => []
  | mark before source _ => before.source ++ [source]
  | byte before cell => before.source ++ [.field cell.source]
  | pack before packed => before.source ++
      .field packed.source :: packed.members.map fun member => .field member.source
  | block before _ opening inner closing => before.source ++
      .field opening.source :: inner.source ++ [.field closing.source]

/-- What was put out, in the order in which it was declared. -/
def stream : Outline → List Entry
  | nil => []
  | mark before _ result => before.stream ++ [result]
  | byte before cell => before.stream ++ cell.entries
  | pack before packed => before.stream ++ packed.entries
  | block before _ opening inner closing => before.stream ++
      .field opening.result :: inner.stream ++ [.field closing.result]

mutual

/-- What goes in front of the structure that the outline stands in. -/
def front : Outline → List Entry
  | nil => []
  | mark before _ _ => before.front
  | byte before _ => before.front
  | pack before _ => before.front
  | block before hoists opening inner closing =>
    if hoists then
      before.front ++ .field opening.result :: inner.body ++ [.field closing.result]
    else before.front

/-- What stays inside. Of a structure that goes to the front there stay the structures that went in
front of it in turn. -/
def body : Outline → List Entry
  | nil => []
  | mark before _ result => before.body ++ [result]
  | byte before cell => before.body ++ cell.entries
  | pack before packed => before.body ++ packed.entries
  | block before hoists opening inner closing =>
    if hoists then before.body ++ inner.front
    else
      before.body ++ inner.front ++ .field opening.result :: inner.body ++ [.field closing.result]

end

/-- The byte fields in the order in which they were declared. The bytes of a container count as
those of its marker. -/
def cells : Outline → List Cell
  | nil => []
  | mark before _ _ => before.cells
  | byte before cell => before.cells ++ [cell]
  | pack before packed => before.cells ++ [{ packed.toCell with result := packed.marker }]
  | block before _ _ inner _ => before.cells ++ inner.cells

/-- The tag of the first structure that goes to the front and has one. -/
def headerTag : Outline → Option Nat
  | nil => none
  | mark before _ _ => before.headerTag
  | byte before _ => before.headerTag
  | pack before _ => before.headerTag
  | block before hoists opening _ _ =>
    if hoists then before.headerTag <|> opening.source.tag else before.headerTag

section

variable (before inner : Outline) (opening closing : Placed)

@[simp] theorem front_block_true : (block before true opening inner closing).front =
    before.front ++ (.field opening.result :: inner.body ++ [.field closing.result]) := by
  simp [front]

@[simp] theorem front_block_false :
    (block before false opening inner closing).front = before.front := by
  simp [front]

@[simp] theorem body_block_true :
    (block before true opening inner closing).body = before.body ++ inner.front := by
  simp [body]

@[simp] theorem body_block_false : (block before false opening inner closing).body =
    before.body ++ (inner.front ++ (.field opening.result :: inner.body ++
      [.field closing.result])) := by
  simp [body]

end

/-- Hoisting only moves entries. -/
theorem front_append_body_perm (outline : Outline) :
    (outline.front ++ outline.body).Perm outline.stream := by
  -- Entries are counted, so that each case is a sum.
  rw [List.perm_iff_count]
  intro entry
  induction outline with
  | nil => rfl
  | mark before _ result ih =>
    simp only [front, body, stream, List.count_append] at ih ⊢
    omega
  | byte before cell ih =>
    simp only [front, body, stream, List.count_append] at ih ⊢
    omega
  | pack before packed ih =>
    simp only [front, body, stream, List.count_append] at ih ⊢
    omega
  | block before hoists opening inner closing ihBefore ihInner =>
    simp only [List.count_append] at ihBefore ihInner
    cases hoists <;>
      simp only [front, body, stream, List.count_append, List.count_cons, List.count_nil,
        Bool.false_eq_true, ↓reduceIte] <;> omega

end Outline
end BoardSchema.Layout
