/-!
The metadata of a field: nine texts, each of which may be missing. `get` and `set` reach a text by
its key, and `entries` lists those that are there in the order of the keys.
-/
namespace BoardSchema

/-- The keys of a field's metadata, in the order in which they are written. -/
inductive MetaKey where
  | name
  | kind
  | page
  | choices
  | condition
  | help
  | order
  | marker
  | layout
  deriving DecidableEq, Repr

namespace MetaKey

def all : List MetaKey :=
  [name, kind, page, choices, condition, help, order, marker, layout]

/-- The name of a key in output. -/
def label : MetaKey → String
  | name => "name"
  | kind => "type"
  | page => "page"
  | choices => "option"
  | condition => "condition"
  | help => "help"
  | order => "order"
  | marker => "marker"
  | layout => "struct"

theorem mem_all (key : MetaKey) : key ∈ all := by cases key <;> decide

theorem label_injective {a b : MetaKey} (h : a.label = b.label) : a = b := by
  revert h; cases a <;> cases b <;> decide

end MetaKey

structure Metadata where
  name : Option String := none
  kind : Option String := none
  page : Option String := none
  choices : Option String := none
  condition : Option String := none
  help : Option String := none
  order : Option String := none
  marker : Option String := none
  layout : Option String := none
  deriving DecidableEq, Repr, Inhabited

namespace Metadata

def empty : Metadata := {}

def get (m : Metadata) : MetaKey → Option String
  | .name => m.name
  | .kind => m.kind
  | .page => m.page
  | .choices => m.choices
  | .condition => m.condition
  | .help => m.help
  | .order => m.order
  | .marker => m.marker
  | .layout => m.layout

def set (m : Metadata) (key : MetaKey) (text : String) : Metadata :=
  match key with
  | .name => { m with name := some text }
  | .kind => { m with kind := some text }
  | .page => { m with page := some text }
  | .choices => { m with choices := some text }
  | .condition => { m with condition := some text }
  | .help => { m with help := some text }
  | .order => { m with order := some text }
  | .marker => { m with marker := some text }
  | .layout => { m with layout := some text }

/-- The texts that are there, in the order of the keys. -/
def entries (m : Metadata) : List (MetaKey × String) :=
  MetaKey.all.filterMap fun key => (m.get key).map fun text => (key, text)

@[simp] theorem get_empty (key : MetaKey) : empty.get key = none := by cases key <;> rfl

@[simp] theorem get_set_self (m : Metadata) (key : MetaKey) (text : String) :
    (m.set key text).get key = some text := by cases key <;> rfl

theorem get_set_of_ne (m : Metadata) {key other : MetaKey} (text : String) (h : other ≠ key) :
    (m.set key text).get other = m.get other := by
  cases key <;> cases other <;> first | rfl | exact absurd rfl h

end Metadata
end BoardSchema
