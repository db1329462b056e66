import BoardSchema.Proofs.Compilation
import BoardSchema.Proofs.Field.Builder
import BoardSchema.Proofs.Layout.Nesting
import BoardSchema.Proofs.Layout.Tiling
import BoardSchema.Proofs.Template.Expansion
/-!
Calls down to their leaves. A call takes the place of the byte fields that it expands to, which may
be calls in turn. In a schema every call is closed: its template is known, its expansion is found at
every level, and its length is the sum of the lengths at the leaves, padding included.
-/
namespace BoardSchema

/-- The byte fields that these ones come to once every call is replaced by what it expands to, down
to the leaves. -/
inductive Leaves (table : TemplateTable) (rules : Rules) : List Field → List Field → Prop
  | nil : Leaves table rules [] []
  | own {field : Field} {rest leaves : List Field} (expand : field.expand = none)
      (tail : Leaves table rules rest leaves) : Leaves table rules (field :: rest) (field :: leaves)
  | call {field : Field} {rest inner leaves : List Field} {call : ExpandCall} {layout : Layout}
      (expand : field.expand = some call)
      (expands : (table.expand rules call field.line).outcome = .ok layout)
      (inside : Leaves table rules (byteFields layout.entries) inner)
      (tail : Leaves table rules rest leaves) : Leaves table rules (field :: rest) (inner ++ leaves)

/-- The leaves of these fields are there, each with a length that is a number, and take so many
bytes together. -/
def LeavesTake (table : TemplateTable) (rules : Rules) (fields : List Field) (bytes : Nat) : Prop :=
  ∃ leaves, Leaves table rules fields leaves ∧ (leaves.map Field.bytes).sum = bytes ∧
    ∀ leaf ∈ leaves, leaf.expand = none ∧ ∃ n, leaf.length = .fixed n

/-- A schema in which all calls are closed, with sizes that add up. -/
structure Closed (table : TemplateTable) (rules : Rules) (schema : Schema) : Prop where
  names : schema.templates.map TemplateSchema.name = table.names
  /-- Every call of the configuration has a template, expands, and takes what its leaves take. -/
  calls : ∀ field, .field field ∈ schema.configs → ∀ call ∈ field.expand,
    call.template ∈ table.names ∧ ∃ layout bytes,
      (table.expand rules call field.line).outcome = .ok layout ∧ field.length = .fixed bytes ∧
        LeavesTake table rules (byteFields layout.entries) bytes
  /-- The configuration takes what all its leaves take. -/
  size : ∃ bytes, schema.size = some bytes ∧
    LeavesTake table rules (byteFields schema.configs) bytes
  /-- Every call in a template is one of a template of the schema. -/
  bodies : ∀ template ∈ schema.templates, ∀ field, .field field ∈ template.fields →
    ∀ call ∈ field.expand, ∃ other ∈ schema.templates, other.name = call.template
  /-- An expansion that is found has a size. -/
  sized : ∀ active call line layout, (table.expandIn rules active call line).outcome = .ok layout →
    ∃ bytes, TemplateTable.sizeOf call line layout = .ok bytes

/-! ## Calls in a layout -/

namespace Layout

variable {rules : Rules} {sizing : Sizing}

theorem Places.plainCalls_gap {cursor next : Option Nat} {cell : Cell}
    (places : Places sizing cursor cell next) : PlainCalls cell.gap := by
  intro field hfield _
  obtain ⟨padding, hpadding, heq⟩ := List.mem_map.1 hfield
  cases heq
  obtain ⟨_, _, _, _, rfl⟩ := places.exists_paddingField (Option.mem_toList.1 hpadding)
  rfl

/-- A container is put out with the call of its byte field, if there was one, and no other. -/
theorem Contains.plainCalls {packed : Packed} {group : BitGroup} {cursor next : Option Nat}
    (contains : Contains rules packed group) (places : Places sizing cursor packed.toCell next)
    (closing : packed.closing.expand = none)
    (declared : PlainCalls (packed.members.map fun member => .field member.source)) :
    PlainCalls packed.entries := by
  obtain ⟨bytes, -, -, packs⟩ := contains.packs
  have marker := contains.marker_role places
  have members : PlainCalls (packed.members.map fun member => .field member.result) := by
    intro field hfield other
    obtain ⟨member, hmember, heq⟩ := List.mem_map.1 hfield
    cases heq
    have kept := packs.isMember member hmember
    have source := declared member.source (List.mem_map.2 ⟨member, hmember, rfl⟩)
    rw [kept] at other ⊢
    exact source other
  rw [Packed.entries, Packed.start, PlainCalls.append_iff, PlainCalls.append_iff,
    PlainCalls.cons_iff, PlainCalls.cons_iff, PlainCalls.field_iff, contains.opening]
  exact ⟨⟨places.plainCalls_gap, fun _ => rfl, fun other => absurd marker other, members⟩,
    fun _ => closing⟩

/-- A layout leaves calls where they are, and what it puts in has none. -/
theorem Follows.plainCalls {inside : Bool} {start cursor : Option Nat} {outline : Outline}
    (follows : Follows rules sizing inside start outline cursor)
    (declared : PlainCalls outline.source) : PlainCalls outline.stream := by
  induction follows with
  | nil => exact declared
  | mark follows marks ih =>
    obtain ⟨before, source⟩ := PlainCalls.append_iff.1 declared
    refine PlainCalls.append_iff.2 ⟨ih before, ?_⟩
    cases marks with
    | action role => exact source.congr rfl rfl
    | includeOpen => exact source
    | includeClose => exact source
  | byte follows role places ih =>
    obtain ⟨before, source⟩ := PlainCalls.append_iff.1 declared
    refine PlainCalls.append_iff.2 ⟨ih before, PlainCalls.append_iff.2 ⟨places.plainCalls_gap, ?_⟩⟩
    exact source.congr places.role_eq (by rw [places.kept])
  | pack follows places contains members_ne closing ih =>
    obtain ⟨before, packed⟩ := PlainCalls.append_iff.1 declared
    obtain ⟨-, members⟩ := PlainCalls.cons_iff.1 packed
    exact PlainCalls.append_iff.2
      ⟨ih before, contains.plainCalls places (by rw [closing]; rfl) members⟩
  | block follows opens within ends ihBefore ihInner =>
    obtain ⟨rest, closing⟩ := PlainCalls.append_iff.1 declared
    obtain ⟨before, block⟩ := PlainCalls.append_iff.1 rest
    obtain ⟨opening, inner⟩ := PlainCalls.cons_iff.1 block
    refine PlainCalls.append_iff.2 ⟨PlainCalls.append_iff.2 ⟨ihBefore before, ?_⟩, ?_⟩
    · refine PlainCalls.cons_iff.2 ⟨?_, ihInner inner⟩
      rw [opens.result]
      exact opening
    · refine closing.congr ?_ ?_ <;> rw [ends.result]

/-- In a strict layout every byte field takes as many bytes as it declares or as its call has, and
the layout as many as all of them. -/
theorem exists_bytes {size : ExpandCall → Nat → Logged Nat} {names pool : NamePool}
    {entries : List Entry} {layout : Layout}
    (h : (ofEntries rules (.strict size) names entries).outcome = .ok (layout, pool)) :
    layout.size = some ((byteFields layout.entries).map Field.bytes).sum ∧
      ∀ field ∈ byteFields layout.entries, ∃ bytes, field.length = .fixed bytes ∧
        ∀ call ∈ field.expand, (size call field.line).outcome = .ok bytes := by
  obtain ⟨cells, -, perm, chain⟩ := exists_chain h
  obtain ⟨bytes, known, -, contiguous, takes⟩ := chain.strict (by decide)
  have sum := contiguous.sum
  rw [Nat.zero_add, (perm.map Field.bytes).sum_nat] at sum
  refine ⟨by rw [known, sum], fun field hfield => ?_⟩
  obtain ⟨cell, hcell, hfield⟩ := List.mem_flatMap.1 (perm.mem_iff.2 hfield)
  rcases List.mem_append.1 hfield with hpadding | hresult
  · -- Padding has no call.
    obtain ⟨_, _, gap, _, rfl⟩ :=
      chain.exists_paddingField cell hcell field (by simpa using hpadding)
    exact ⟨gap, rfl, by simp [paddingField]⟩
  · obtain ⟨bytes, length, takes⟩ := takes cell hcell
    rw [List.mem_singleton.1 hresult]
    refine ⟨bytes, length, fun call expand => ?_⟩
    rw [chain.kept cell hcell] at expand ⊢
    have source : cell.source.expand = some call := expand
    simp only [Takes, source] at takes
    exact takes

theorem plainCalls_ofEntries {names pool : NamePool} {entries : List Entry} {layout : Layout}
    (h : (ofEntries rules sizing names entries).outcome = .ok (layout, pool))
    (declared : PlainCalls entries) : PlainCalls layout.entries := by
  obtain ⟨outline, rfl, body, follows⟩ := exists_outline h
  have perm := outline.front_append_body_perm
  rw [follows.front_eq_nil, List.nil_append, body] at perm
  intro field hfield
  exact follows.plainCalls declared field (perm.subset hfield)

end Layout

theorem mem_byteFields_of_call {entries : List Entry} {field : Field} {call : ExpandCall}
    (plain : PlainCalls entries) (hfield : .field field ∈ entries)
    (expand : field.expand = some call) : field ∈ byteFields entries := by
  have role : field.role = .plain := by
    by_contra other
    cases expand.symm.trans (plain field hfield other)
  exact List.mem_filterMap.2 ⟨.field field, hfield, by simp [Entry.byteField?, role]⟩

/-! ## Leaves -/

variable {table : TemplateTable} {rules : Rules} {fields : List Field}

/-- Fields have one list of leaves at most. -/
theorem Leaves.unique {left right : List Field} (h : Leaves table rules fields left)
    (h' : Leaves table rules fields right) : left = right := by
  induction h generalizing right with
  | nil =>
    cases h'
    rfl
  | own expand _ ih =>
    cases h' with
    | own _ tail => rw [ih tail]
    | call expand' => cases expand.symm.trans expand'
  | call expand expands _ _ ihInside ih =>
    cases h' with
    | own expand' => cases expand.symm.trans expand'
    | call expand' expands' inside tail =>
      cases expand.symm.trans expand'
      cases expands.symm.trans expands'
      rw [ihInside inside, ih tail]

/-- Where every call takes what its leaves take, all the fields do. -/
theorem leavesTake_sum (each : ∀ field ∈ fields, ∃ bytes, field.length = .fixed bytes ∧
      ∀ call ∈ field.expand, ∃ layout, (table.expand rules call field.line).outcome = .ok layout ∧
        LeavesTake table rules (byteFields layout.entries) bytes) :
    LeavesTake table rules fields (fields.map Field.bytes).sum := by
  induction fields with
  | nil => exact ⟨[], .nil, rfl, by simp⟩
  | cons field rest ih =>
    obtain ⟨leaves, tail, sum, known⟩ := ih fun other hother => each other (by simp [hother])
    obtain ⟨bytes, length, calls⟩ := each field (by simp)
    cases expand : field.expand with
    | none =>
      refine ⟨field :: leaves, .own expand tail, by simp [sum], ?_⟩
      exact List.forall_mem_cons.2 ⟨⟨expand, bytes, length⟩, known⟩
    | some call =>
      obtain ⟨layout, expands, inner, inside, inner_sum, inner_known⟩ := calls call expand
      refine ⟨inner ++ leaves, .call expand expands inside tail, ?_, ?_⟩
      · rw [List.map_append, List.sum_append, inner_sum, sum, List.map_cons, List.sum_cons,
          field.bytes_eq length]
      · exact List.forall_mem_append.2 ⟨inner_known, known⟩

namespace TemplateTable

/-- An expansion takes what its leaves take, whatever it stands in. -/
theorem leavesTake_expandIn {active : List String} {call : ExpandCall} {line : Nat}
    {layout : Layout} (h : (expandIn table rules active call line).outcome = .ok layout) :
    ∃ bytes, layout.size = some bytes ∧
      LeavesTake table rules (byteFields layout.entries) bytes := by
  -- A nested call has one template less to go to.
  generalize hn : (idle table.names active).length = n
  induction n using Nat.strongRecOn generalizing active call line layout with
  | ind n ih =>
    obtain ⟨template, built, names, found, fresh, -, hlayout⟩ := expandIn_eq_ok.1 h
    have fewer := length_idle_lt (name_of_get? found) fresh
    obtain ⟨size, each⟩ := Layout.exists_bytes hlayout
    refine ⟨_, size, leavesTake_sum fun field hfield => ?_⟩
    obtain ⟨bytes, length, calls⟩ := each field hfield
    refine ⟨bytes, length, fun inner expand => ?_⟩
    obtain ⟨laid, hlaid, known⟩ := sizeIn_eq_ok.1 (calls inner expand)
    obtain ⟨bytes', known', takes⟩ := ih _ (by omega) hlaid rfl
    cases known.symm.trans known'
    exact ⟨laid, expandIn_mono (by simp) hlaid field.line, takes⟩

end TemplateTable

/-! ## Compilations -/

namespace Compilation

/-- In the schema of a compilation all calls are closed, and sizes add up. -/
theorem ofText_closed {name text : String} {compilation : Compilation}
    (h : (ofText rules name text).outcome = .ok compilation) :
    ∃ document table, Document.ofText name text = .ok document ∧
      (TemplateTable.collect (document.region .template)).outcome = .ok table ∧
      Closed table rules compilation.schema := by
  obtain ⟨document, table, built, bodies, layout, comes⟩ := exists_comes h
  obtain ⟨problems, hbodies⟩ := comes.shown
  obtain ⟨pool, hlayout⟩ := comes.laid
  obtain ⟨bundle, hbundle⟩ := comes.rendered
  obtain ⟨known_bodies, known_configs⟩ := Rendering.known_of_schema hbundle
  have plain := Layout.plainCalls_ofEntries hlayout (Built.declared_ofLines comes.builds).plainCalls
  obtain ⟨size, each⟩ := Layout.exists_bytes hlayout
  have calls : ∀ field ∈ byteFields layout.entries, ∃ bytes, field.length = .fixed bytes ∧
      ∀ call ∈ field.expand, ∃ layout, (table.expand rules call field.line).outcome = .ok layout ∧
        LeavesTake table rules (byteFields layout.entries) bytes := by
    intro field hfield
    obtain ⟨bytes, length, sizes⟩ := each field hfield
    refine ⟨bytes, length, fun call expand => ?_⟩
    obtain ⟨laid, hlaid, known⟩ := TemplateTable.sizeIn_eq_ok.1 (sizes call expand)
    obtain ⟨bytes', known', takes⟩ := TemplateTable.leavesTake_expandIn hlaid
    cases known.symm.trans known'
    exact ⟨laid, hlaid, takes⟩
  have names := names_schemaOf hbodies
  refine ⟨document, table, comes.read, comes.collected, ?_⟩
  rw [comes.schema_eq]
  exact {
    names
    calls := by
      intro field hfield call expand
      obtain ⟨bytes, length, sizes⟩ := calls field (mem_byteFields_of_call plain hfield expand)
      obtain ⟨laid, hlaid, takes⟩ := sizes call expand
      exact ⟨known_configs field hfield call expand, laid, bytes, hlaid, length, takes⟩
    size := ⟨_, size, leavesTake_sum calls⟩
    bodies := by
      intro template htemplate field hfield call expand
      obtain ⟨body, hbody, rfl⟩ := List.mem_map.1 htemplate
      have known := known_bodies body hbody field hfield call expand
      rw [← names] at known
      exact List.mem_map.1 known
    sized := by
      intro active call line layout hlayout
      obtain ⟨bytes, known, -⟩ := TemplateTable.leavesTake_expandIn hlayout
      exact ⟨bytes, by simp [TemplateTable.sizeOf, known]⟩ }

/-- A call inside a template, with a gap at its leaves. -/
def nestedCalls : String := "\n".intercalate
  ["[PcdsDynamicVpd.Tmp]", "#!BSF DEFT:\x7bI:START\x7d", "A|4|$(1)|0", "#!BSF DEFT:\x7bI:END\x7d",
    "#!BSF DEFT:\x7bO:START\x7d", "#!BSF SUBT:\x7bI:2\x7d", "#!BSF DEFT:\x7bO:END\x7d",
    "[PcdsDynamicVpd.Upd]", "#!BSF SUBT:\x7bO\x7d"]

theorem nestedCalls_closed : ∃ compilation document table,
    (ofText {} "board.dsc" nestedCalls).outcome = .ok compilation ∧
    Document.ofText "board.dsc" nestedCalls = .ok document ∧
    (TemplateTable.collect (document.region .template)).outcome = .ok table ∧
    compilation.schema.size = some 6 ∧
    (byteFields compilation.schema.configs).map Field.length = [.fixed 6] ∧
    Closed table {} compilation.schema := by
  have compiled : (ofText {} "board.dsc" nestedCalls).outcome.toOption.map (fun compilation =>
      (compilation.schema.size, (byteFields compilation.schema.configs).map Field.length)) =
        some (some 6, [.fixed 6]) := by decide +kernel
  obtain ⟨compilation, hcompilation, known⟩ := exists_eq_ok compiled
  obtain ⟨size, lengths⟩ := Prod.mk.inj known
  obtain ⟨document, table, hdocument, htable, closed⟩ := ofText_closed hcompilation
  exact ⟨compilation, document, table, hcompilation, hdocument, htable, size, lengths, closed⟩

end Compilation
end BoardSchema
