import BoardSchema.Proofs.Layout.Faults
import BoardSchema.Proofs.Layout.Lenient
/-!
A lenient layout of a stream shows what the strict layout of it gives, as far as it can know. It
succeeds where the strict one does, and padding aside the two put out the same entries: of an offset
the lenient one may only not know what it is, and of a call how many bytes it takes. Step by step,
the lenient state is an abstraction of the strict one.
-/
namespace BoardSchema

def Entry.isPadding : Entry → Bool
  | .field f => f.role = .padding
  | _ => false

def withoutPadding (entries : List Entry) : List Entry :=
  entries.filter fun entry => !entry.isPadding

theorem withoutPadding_concat {left gap : List Entry} {entry : Entry}
    (gaps : ∀ entry ∈ gap, entry.isPadding = true) (kept : entry.isPadding = false) :
    withoutPadding (left ++ gap ++ [entry]) = withoutPadding left ++ [entry] := by
  have hidden : withoutPadding gap = [] := by simpa [withoutPadding] using gaps
  rw [withoutPadding, List.filter_append, List.filter_append]
  change withoutPadding left ++ withoutPadding gap ++ _ = _
  rw [hidden, List.append_nil, List.filter_singleton]
  simp [kept]

namespace Layout

/-- The first field is the second one, at an offset that may not be known. -/
structure Blurs (shown given : Field) : Prop where
  offset : Agrees shown.offset given.offset
  rest : shown = { given with offset := shown.offset }

/-- What a lenient layout shows of an entry that a strict layout gives. Padding is not shown. -/
inductive Abstracts (size : ExpandCall → Nat → Logged Nat) (declared : List Entry) :
    Entry → Entry → Prop
  | field {shown given : Field} (blurs : Blurs shown given) (kept : given.role ≠ .padding)
      (plain : given.role = .plain → given.expand = none) :
      Abstracts size declared (.field shown) (.field given)
  | call {source : Field} {call : ExpandCall} {offset offset' : Option Nat} {bytes : Nat}
      (mem : .field source ∈ declared) (role : source.role = .plain)
      (expand : source.expand = some call) (sized : (size call source.line).outcome = .ok bytes)
      (agrees : Agrees offset offset') :
      Abstracts size declared (.field { source with offset })
        (.field { source with offset := offset', length := .fixed bytes })
  | includeOpen (path : String) : Abstracts size declared (.includeOpen path) (.includeOpen path)
  | includeClose : Abstracts size declared .includeClose .includeClose

/-- Two lists hold related entries one by one, each one behind padding or not. Neither ends with
padding, as no layout does between two entries of its stream. -/
inductive Aligned (R : Entry → Entry → Prop) : List Entry → List Entry → Prop
  | nil : Aligned R [] []
  | entry {left right gap gap' : List Entry} {shown given : Entry} (before : Aligned R left right)
      (gaps : ∀ entry ∈ gap, entry.isPadding = true)
      (gaps' : ∀ entry ∈ gap', entry.isPadding = true) (related : R shown given) :
      Aligned R (left ++ gap ++ [shown]) (right ++ gap' ++ [given])

namespace Aligned

variable {R : Entry → Entry → Prop} {left right : List Entry}

theorem concat (aligned : Aligned R left right) {shown given : Entry} (related : R shown given) :
    Aligned R (left ++ [shown]) (right ++ [given]) := by
  have none : ∀ entry ∈ ([] : List Entry), entry.isPadding = true := by simp
  simpa using aligned.entry none none related

theorem append {more more' : List Entry} (aligned : Aligned R left right)
    (tail : Aligned R more more') : Aligned R (left ++ more) (right ++ more') := by
  induction tail with
  | nil => simpa using aligned
  | entry _ gaps gaps' related ih =>
    rw [← List.append_assoc, ← List.append_assoc, ← List.append_assoc, ← List.append_assoc]
    exact .entry ih gaps gaps' related

theorem cons {shown given : Entry} (related : R shown given) (tail : Aligned R left right) :
    Aligned R (shown :: left) (given :: right) :=
  (Aligned.nil.concat related).append tail

theorem getLast? (aligned : Aligned R left right) : Option.Rel R left.getLast? right.getLast? := by
  cases aligned with
  | nil => exact Option.Rel.none
  | entry _ _ _ related =>
    rw [List.getLast?_concat, List.getLast?_concat]
    exact Option.Rel.some related

/-- The last entries may be replaced by other ones. -/
theorem replaceLast {shown given last : Entry} (aligned : Aligned R left right)
    (ends : right.getLast? = some last) (related : R shown given) :
    Aligned R (left.dropLast ++ [shown]) (right.dropLast ++ [given]) := by
  cases aligned with
  | nil => cases ends
  | entry before gaps gaps' _ =>
    rw [List.dropLast_concat, List.dropLast_concat]
    exact .entry before gaps gaps' related

theorem forall₂_withoutPadding (aligned : Aligned R left right)
    (kept : ∀ shown given, R shown given → shown.isPadding = false ∧ given.isPadding = false) :
    List.Forall₂ R (withoutPadding left) (withoutPadding right) := by
  induction aligned with
  | nil => exact .nil
  | entry _ gaps gaps' related ih =>
    obtain ⟨shown_kept, given_kept⟩ := kept _ _ related
    rw [withoutPadding_concat gaps shown_kept, withoutPadding_concat gaps' given_kept]
    exact List.rel_append ih (.cons related .nil)

end Aligned

variable {size : ExpandCall → Nat → Logged Nat} {declared : List Entry} {rules : Rules}

theorem Blurs.of_agrees {offset offset' : Option Nat} (agrees : Agrees offset offset')
    (field : Field) : Blurs { field with offset } { field with offset := offset' } :=
  ⟨agrees, rfl⟩

theorem Abstracts.isPadding_eq_false {shown given : Entry}
    (abstracts : Abstracts size declared shown given) :
    shown.isPadding = false ∧ given.isPadding = false := by
  cases abstracts with
  | field blurs kept =>
    rw [blurs.rest]
    simp [Entry.isPadding, kept]
  | call _ role => simp [Entry.isPadding, role]
  | includeOpen => exact ⟨rfl, rfl⟩
  | includeClose => exact ⟨rfl, rfl⟩

theorem Abstracts.line_eq {shown given : Entry} (abstracts : Abstracts size declared shown given) :
    shown.field?.map Field.line = given.field?.map Field.line := by
  cases abstracts with
  | field blurs =>
    rw [blurs.rest]
    rfl
  | call => rfl
  | includeOpen => rfl
  | includeClose => rfl

theorem line_eq_of_rel {shown given : Option Entry}
    (related : Option.Rel (Abstracts size declared) shown given) :
    (shown.bind Entry.field?).map Field.line = (given.bind Entry.field?).map Field.line := by
  cases related with
  | none => rfl
  | some abstracts => exact abstracts.line_eq

/-! ## Byte fields -/

theorem seek_agrees {field : Field} {shown given next : State}
    (agrees : Agrees shown.cursor given.cursor) (h : seek field given = .ok next) :
    ∃ sought, seek field shown = .ok sought ∧ Agrees sought.cursor next.cursor := by
  cases hseek : seek field shown with
  | error error =>
    obtain ⟨offset, cursor, declared, known, behind, -⟩ := seek_eq_error_iff.1 hseek
    have same : given.cursor = some cursor := by simpa [Agrees, known, eq_comm] using agrees
    cases h.symm.trans (seek_eq_error_iff.2 ⟨offset, cursor, declared, same, behind, rfl⟩)
  | ok sought =>
    obtain ⟨_, _, seeks, -⟩ := seek_eq_ok hseek
    obtain ⟨_, _, seeks', -⟩ := seek_eq_ok h
    exact ⟨sought, rfl, seeks.start_agrees seeks' rfl agrees⟩

theorem extent_agrees {field : Field} {length : Length} {bytes : Option Nat}
    (h : (extent (.strict size) field).outcome = .ok (length, bytes)) :
    ∃ shown, (extent .lenient field).outcome = .ok (field.length, shown) ∧ Agrees shown bytes := by
  obtain ⟨n, -, rfl, takes⟩ := extent_strict_eq_ok h
  cases hexpand : field.expand with
  | some call => exact ⟨none, by simp [extent, hexpand], .inl rfl⟩
  | none =>
    simp only [Takes, hexpand] at takes
    exact ⟨some n, by simp [extent, hexpand, takes, Length.fixed?], .inr rfl⟩

/-- Wherever a strict layout places a field, the lenient one does so too. -/
theorem place_agrees {field : Field} {shown given next : State}
    (agrees : Agrees shown.cursor given.cursor)
    (h : (place (.strict size) field given).outcome = .ok next) :
    ∃ placed, (place .lenient field shown).outcome = .ok placed ∧
      Agrees placed.cursor next.cursor := by
  unfold place at h
  obtain ⟨sought', hseek', h⟩ := Logged.outcome_bind_eq_ok.1 h
  obtain ⟨⟨length, bytes'⟩, hextent', h⟩ := Logged.outcome_bind_eq_ok.1 h
  obtain ⟨cursor', hadvance', h⟩ := Logged.outcome_bind_eq_ok.1 h
  cases h
  obtain ⟨sought, hseek, starts⟩ := seek_agrees agrees hseek'
  obtain ⟨bytes, hextent, lengths⟩ := extent_agrees hextent'
  obtain ⟨cursor, hadvance, cursors⟩ := advance_agrees field starts lengths hadvance'
  refine ⟨{ sought with cursor }.push
    [.field { field with offset := sought.cursor, length := field.length }], ?_, ?_⟩
  · refine Logged.outcome_bind_eq_ok.2 ⟨sought, hseek, ?_⟩
    refine Logged.outcome_bind_eq_ok.2 ⟨_, hextent, ?_⟩
    exact Logged.outcome_bind_eq_ok.2 ⟨cursor, hadvance, rfl⟩
  · simpa using cursors

theorem isPadding_of_mem_gap {sizing : Sizing} {cursor next : Option Nat} {cell : Cell}
    (places : Places sizing cursor cell next) : ∀ entry ∈ cell.gap, entry.isPadding = true := by
  intro entry hentry
  simp only [Cell.gap, List.mem_map, Option.mem_toList] at hentry
  obtain ⟨padding, hpadding, rfl⟩ := hentry
  simpa [Entry.isPadding] using places.padding_role hpadding

/-- What a byte field was placed as leniently shows what it was placed as strictly. -/
theorem Places.abstracts {cell cell' : Cell} {cursor cursor' next next' : Option Nat}
    (places : Places .lenient cursor cell next)
    (places' : Places (.strict size) cursor' cell' next') (same : cell.source = cell'.source)
    (mem : .field cell'.source ∈ declared) (role : cell'.source.role = .plain)
    (agrees : Agrees cursor cursor') :
    Abstracts size declared (.field cell.result) (.field cell'.result) := by
  obtain ⟨start, bytes, seeks, shown, -, result⟩ := places
  obtain ⟨start', bytes', seeks', given, -, result'⟩ := places'
  rw [same] at seeks shown result
  have starts := seeks.start_agrees seeks' rfl agrees
  rw [(extent_lenient_eq_ok shown).1] at result
  obtain ⟨n, fixed, -, takes⟩ := extent_strict_eq_ok given
  rw [result, result', fixed]
  cases expand : cell'.source.expand with
  | some call =>
    simp only [Takes, expand] at takes
    exact .call mem role expand takes starts
  | none =>
    simp only [Takes, expand] at takes
    rw [← takes]
    exact .field (.of_agrees starts cell'.source) (by simp [role]) fun _ => expand

/-! ## Bit members -/

structure AbstractsGroup (shown given : BitGroup) : Prop where
  offset : Agrees shown.offset given.offset
  rest : shown = { given with offset := shown.offset }

theorem container?_of_rel {shown given : Option Entry} {container : Field} {bytes : Nat}
    (related : Option.Rel (Abstracts size declared) shown given)
    (h : container? given = some (container, bytes)) :
    ∃ offset, container? shown = some ({ container with offset }, bytes) ∧
      Agrees offset container.offset := by
  obtain ⟨rfl, plain, length⟩ := container?_eq_some h
  cases related with
  | some abstracts =>
    cases abstracts with
    | @field shown _ blurs =>
      have same : ({ container with offset := shown.offset } : Field).isPlain = true := plain
      refine ⟨shown.offset, ?_, blurs.offset⟩
      rw [blurs.rest, container?, if_pos same]
      simp [length, Length.fixed?]
    | call _ _ expand => simp [Field.isPlain, expand] at plain

/-- Where a group stands is all that it passes on of its offset. -/
theorem packMember_offset (member : Field) (group : BitGroup) (offset : Option Nat) :
    packMember member { group with offset } = (packMember member group).map
      fun (member, group) => ({ member with offset }, { group with offset }) := by
  unfold packMember
  dsimp only
  split
  · split
    · rfl
    · split
      · rfl
      · split <;> rfl
  · rfl

theorem packMember_agrees {member result : Field} {shown given next : BitGroup}
    (abstracts : AbstractsGroup shown given) (h : packMember member given = .ok (result, next)) :
    ∃ packed group, packMember member shown = .ok (packed, group) ∧ Blurs packed result ∧
      AbstractsGroup group next := by
  obtain ⟨result_eq, next_eq⟩ := packMember_eq_ok h
  have here : result.offset = given.offset := congrArg Field.offset result_eq
  have there : next.offset = given.offset := by rw [next_eq]
  refine ⟨{ result with offset := shown.offset }, { next with offset := shown.offset }, ?_, ?_, ?_⟩
  · rw [abstracts.rest, packMember_offset, h]
    rfl
  · exact ⟨by simpa [here] using abstracts.offset, rfl⟩
  · exact ⟨by simpa [there] using abstracts.offset, rfl⟩

/-! ## Structures -/

theorem atOpening_concat {entries : List Entry} {entry : Entry} (kept : entry.isPadding = false) :
    atOpening (entries ++ [entry]) = false := by
  cases entries with
  | nil => cases entry <;> simp_all [atOpening, Entry.isPadding]
  | cons first rest =>
    unfold atOpening
    split <;> simp_all

/-- What stands at the opening of a structure does not depend on padding. -/
theorem Aligned.atOpening_eq {left right : List Entry}
    (aligned : Aligned (Abstracts size declared) left right) :
    atOpening left = atOpening right := by
  cases aligned with
  | nil => rfl
  | entry _ _ _ related =>
    obtain ⟨shown_kept, given_kept⟩ := related.isPadding_eq_false
    rw [atOpening_concat shown_kept, atOpening_concat given_kept]

/-! ## States -/

structure AbstractsScope (size : ExpandCall → Nat → Logged Nat) (declared : List Entry)
    (shown given : Scope) : Prop where
  opening : Blurs shown.opening given.opening
  role : given.opening.role = .structOpen
  hoists : shown.hoists = given.hoists
  front : Aligned (Abstracts size declared) shown.front given.front
  body : Aligned (Abstracts size declared) shown.body given.body

/-- A lenient state that shows a strict one. -/
structure AbstractsState (size : ExpandCall → Nat → Logged Nat) (declared : List Entry)
    (shown given : State) : Prop where
  cursor : Agrees shown.cursor given.cursor
  root : Aligned (Abstracts size declared) shown.root given.root
  scopes : List.Forall₂ (AbstractsScope size declared) shown.scopes given.scopes
  includes : shown.includes = given.includes
  group : Option.Rel AbstractsGroup shown.group given.group
  lastLine : shown.lastLine = given.lastLine

namespace AbstractsState

variable {shown given next : State}

theorem current (abstracts : AbstractsState size declared shown given) :
    Aligned (Abstracts size declared) shown.current given.current := by
  have scopes := abstracts.scopes
  unfold State.current
  cases hshown : shown.scopes with
  | nil =>
    rw [hshown] at scopes
    cases hgiven : given.scopes with
    | nil => exact abstracts.root
    | cons => simp [hgiven] at scopes
  | cons scope outer =>
    rw [hshown] at scopes
    cases hgiven : given.scopes with
    | nil => simp [hgiven] at scopes
    | cons scope' outer' =>
      rw [hgiven] at scopes
      cases scopes with
      | cons scope _ => exact scope.body

theorem withCurrent (abstracts : AbstractsState size declared shown given)
    {left right : List Entry} (aligned : Aligned (Abstracts size declared) left right) :
    AbstractsState size declared (shown.withCurrent left) (given.withCurrent right) := by
  obtain ⟨names, cursor, root, scopes, includes, group, lastLine⟩ := shown
  obtain ⟨names', cursor', root', scopes', includes', group', lastLine'⟩ := given
  obtain ⟨hcursor, hroot, hscopes, hincludes, hgroup, hlastLine⟩ := abstracts
  cases hscopes with
  | nil => exact ⟨hcursor, aligned, .nil, hincludes, hgroup, hlastLine⟩
  | cons scope outer =>
    exact ⟨hcursor, hroot, .cons { scope with body := aligned } outer, hincludes, hgroup, hlastLine⟩

theorem push (abstracts : AbstractsState size declared shown given) {left right : List Entry}
    (aligned : Aligned (Abstracts size declared) left right) :
    AbstractsState size declared (shown.push left) (given.push right) :=
  abstracts.withCurrent (abstracts.current.append aligned)

theorem push_field (abstracts : AbstractsState size declared shown given)
    {offset offset' : Option Nat} (agrees : Agrees offset offset') (field : Field)
    (kept : field.role ≠ .padding) (plain : field.role = .plain → field.expand = none) :
    AbstractsState size declared (shown.push [.field { field with offset }])
      (given.push [.field { field with offset := offset' }]) :=
  abstracts.push (Aligned.nil.concat (.field (.of_agrees agrees field) kept plain))

theorem closeGroup (abstracts : AbstractsState size declared shown given) :
    AbstractsState size declared (closeGroup shown) (closeGroup given) := by
  have groups := abstracts.group
  unfold Layout.closeGroup
  cases hshown : shown.group <;> cases hgiven : given.group <;> rw [hshown, hgiven] at groups <;>
    cases groups
  · exact abstracts
  · next group group' related =>
    have name : group.name = group'.name := by rw [related.rest]
    have ended : AbstractsState size declared { shown with group := none }
        { given with group := none } := { abstracts with group := .none }
    simp only [line_eq_of_rel abstracts.current.getLast?, name]
    exact ended.push_field abstracts.cursor (groupClosing group'.name _ none)
      (by simp [groupClosing]) (by simp [groupClosing])

/-! ## Byte fields -/

theorem place {field : Field} (abstracts : AbstractsState size declared shown given)
    (mem : .field field ∈ declared) (role : field.role = .plain)
    (h : (place (.strict size) field given).outcome = .ok next) :
    ∃ placed, (Layout.place .lenient field shown).outcome = .ok placed ∧
      AbstractsState size declared placed next := by
  obtain ⟨placed, hplace, cursors⟩ := place_agrees abstracts.cursor h
  obtain ⟨cell, names, source, places, placed_eq⟩ := place_eq_ok hplace
  obtain ⟨cell', names', source', places', next_eq⟩ := place_eq_ok h
  subst source'
  have related : Abstracts size declared (.field cell.result) (.field cell'.result) :=
    places.abstracts places' source mem role abstracts.cursor
  have aligned : Aligned (Abstracts size declared) cell.entries cell'.entries :=
    Aligned.nil.entry (isPadding_of_mem_gap places) (isPadding_of_mem_gap places') related
  have moved : AbstractsState size declared { shown with names, cursor := placed.cursor }
      { given with names := names', cursor := next.cursor } := { abstracts with cursor := cursors }
  refine ⟨placed, hplace, ?_⟩
  rw [placed_eq, next_eq]
  exact moved.push aligned

theorem openGroup {member : Field} {group : BitGroup}
    (abstracts : AbstractsState size declared shown given)
    (h : openGroup rules member given = .ok (next, group)) :
    ∃ opened group', Layout.openGroup rules member shown = .ok (opened, group') ∧
      AbstractsState size declared opened next ∧ AbstractsGroup group' group := by
  unfold Layout.openGroup at h
  split at h
  · cases h
  · next container bytes found =>
    obtain ⟨offset, found', agrees⟩ := container?_of_rel abstracts.current.getLast? found
    obtain ⟨last, plain, -⟩ := container?_eq_some found
    split at h
    · cases h
    · next fits =>
      cases h
      have role := role_of_isPlain plain
      have expand : container.expand = none := by simpa [Field.isPlain, role] using plain
      have opening : Abstracts size declared
          (.field (containerOpening { container with offset }))
          (.field (containerOpening container)) :=
        .field ⟨agrees, rfl⟩ (by simp [containerOpening]) (by simp [containerOpening])
      have marker : Abstracts size declared
          (.field (containerMarker rules { container with offset }))
          (.field (containerMarker rules container)) :=
        .field ⟨agrees, rfl⟩ (by simp [containerMarker, role]) fun _ => expand
      have aligned := (abstracts.current.replaceLast last opening).concat marker
      rw [List.append_assoc, List.append_assoc] at aligned
      refine ⟨shown.replaceLast [.field (containerOpening { container with offset }),
          .field (containerMarker rules { container with offset })],
        .ofContainer { container with offset } bytes, ?_, abstracts.withCurrent aligned,
          ⟨agrees, rfl⟩⟩
      simp [Layout.openGroup, found', fits]

theorem packMember {member result : Field} {group group' next' : BitGroup}
    (abstracts : AbstractsState size declared shown given) (related : AbstractsGroup group group')
    (role : member.role = .bitField) (h : packMember member group' = .ok (result, next')) :
    ∃ packed next, Layout.packMember member group = .ok (packed, next) ∧
      AbstractsState size declared ({ shown with group := some next }.push [.field packed])
        ({ given with group := some next' }.push [.field result]) := by
  obtain ⟨packed, next, hpack, blurs, groups⟩ := packMember_agrees related h
  have result_role : result.role = .bitField := by
    rw [(packMember_eq_ok h).1]
    exact role
  have grown : AbstractsState size declared { shown with group := some next }
      { given with group := some next' } := { abstracts with group := .some groups }
  refine ⟨packed, next, hpack, grown.push (Aligned.nil.concat ?_)⟩
  exact .field blurs (by simp [result_role]) (by simp [result_role])

theorem bitMember {member : Field} (abstracts : AbstractsState size declared shown given)
    (role : member.role = .bitField) (h : bitMember rules member given = .ok next) :
    ∃ state, Layout.bitMember rules member shown = .ok state ∧
      AbstractsState size declared state next := by
  have groups := abstracts.group
  cases hshown : shown.group <;> cases hgiven : given.group <;> rw [hshown, hgiven] at groups <;>
    cases groups
  · simp only [Layout.bitMember, hgiven] at h
    obtain ⟨⟨opened', group'⟩, hopen', h⟩ := bind_eq_ok.1 h
    obtain ⟨⟨result, next'⟩, hpack', h⟩ := bind_eq_ok.1 h
    cases h
    obtain ⟨opened, group, hopen, opened_abstracts, related⟩ := abstracts.openGroup hopen'
    obtain ⟨packed, next, hpack, grown⟩ := opened_abstracts.packMember related role hpack'
    refine ⟨_, ?_, grown⟩
    simp only [Layout.bitMember, hshown]
    exact bind_eq_ok.2 ⟨_, hopen, bind_eq_ok.2 ⟨_, hpack, rfl⟩⟩
  · next group group' related =>
    simp only [Layout.bitMember, hgiven, pure_bind] at h
    obtain ⟨⟨result, next'⟩, hpack', h⟩ := bind_eq_ok.1 h
    cases h
    obtain ⟨packed, next, hpack, grown⟩ := abstracts.packMember related role hpack'
    refine ⟨_, ?_, grown⟩
    simp only [Layout.bitMember, hshown, pure_bind]
    exact bind_eq_ok.2 ⟨_, hpack, rfl⟩

theorem openStruct {field : Field} (abstracts : AbstractsState size declared shown given)
    (role : field.role = .structOpen) :
    AbstractsState size declared (openStruct rules field shown) (openStruct rules field given) := by
  have opened : ∀ hoists, AbstractsScope size declared
      { opening := { field with offset := shown.cursor }, hoists }
      { opening := { field with offset := given.cursor }, hoists } := fun hoists =>
    ⟨.of_agrees abstracts.cursor field, role, rfl, .nil, .nil⟩
  have scopes := abstracts.scopes
  unfold Layout.openStruct
  cases hshown : shown.scopes <;> cases hgiven : given.scopes <;> rw [hshown, hgiven] at scopes <;>
    cases scopes
  · exact { abstracts with scopes := .cons (opened false) .nil }
  · next scope outer scope' outer' around outside =>
    dsimp only
    rw [around.body.atOpening_eq]
    split
    · -- The structure around takes over the same tag.
      have tag : scope.opening.tag = scope'.opening.tag := by rw [around.opening.rest]
      have tagged : Blurs { scope.opening with tag := scope.opening.tag <|> field.tag }
          { scope'.opening with tag := scope'.opening.tag <|> field.tag } := by
        refine ⟨around.opening.offset, ?_⟩
        rw [tag]
        exact congrArg
          (fun opening : Field => { opening with tag := scope'.opening.tag <|> field.tag })
          around.opening.rest
      have retagged : AbstractsScope size declared
          { scope with opening := { scope.opening with tag := scope.opening.tag <|> field.tag } }
          { scope' with
            opening := { scope'.opening with tag := scope'.opening.tag <|> field.tag } } :=
        ⟨tagged, around.role, around.hoists, around.front, around.body⟩
      exact { abstracts with scopes := .cons (opened true) (.cons retagged outside) }
    · exact { abstracts with scopes := .cons (opened false) (.cons around outside) }

theorem closeStruct {field : Field} (abstracts : AbstractsState size declared shown given)
    (role : field.role = .structClose) (h : closeStruct field given = .ok next) :
    ∃ state, Layout.closeStruct field shown = .ok state ∧
      AbstractsState size declared state next := by
  have scopes := abstracts.scopes
  unfold Layout.closeStruct at h ⊢
  cases hshown : shown.scopes <;> cases hgiven : given.scopes <;> rw [hshown, hgiven] at scopes <;>
    cases scopes
  · simp [hgiven] at h
  · next scope outer scope' outer' closed outside =>
    have name : scope.opening.name = scope'.opening.name := by rw [closed.opening.rest]
    have block : Aligned (Abstracts size declared)
        (.field scope.opening :: scope.body ++ [Entry.field { field with offset := shown.cursor }])
        (.field scope'.opening :: scope'.body ++
          [Entry.field { field with offset := given.cursor }]) :=
      (closed.body.cons
        (.field closed.opening (by simp [closed.role]) (by simp [closed.role]))).concat
          (.field (.of_agrees abstracts.cursor field) (by simp [role]) (by simp [role]))
    simp only [hgiven] at h
    by_cases named : scope'.opening.name = field.name
    case neg =>
      rw [if_neg named] at h
      cases h
    rw [if_pos named] at h
    simp only [name, if_pos named, closed.hoists]
    have left : AbstractsState size declared { shown with scopes := outer }
        { given with scopes := outer' } := { abstracts with scopes := outside }
    cases hhoists : scope'.hoists with
    | false =>
      simp only [hhoists, Except.ok.injEq] at h
      subst h
      exact ⟨_, rfl, left.push (closed.front.append block)⟩
    | true =>
      cases outside with
      | nil =>
        simp only [hhoists, Except.ok.injEq] at h
        subst h
        exact ⟨_, rfl, left.push (closed.front.append block)⟩
      | cons around rest =>
        simp only [hhoists, Except.ok.injEq] at h
        subst h
        refine ⟨_, rfl, { abstracts with scopes := .cons ?_ rest }⟩
        exact { around with
          front := around.front.append block, body := around.body.append closed.front }

/-! ## Runs -/

theorem addField {field : Field} (abstracts : AbstractsState size declared shown given)
    (mem : .field field ∈ declared) (kept : field.role ≠ .padding)
    (h : (addField rules (.strict size) field given).outcome = .ok next) :
    ∃ state, (Layout.addField rules .lenient field shown).outcome = .ok state ∧
      AbstractsState size declared state next := by
  have seen : AbstractsState size declared { shown with lastLine := field.line }
      { given with lastLine := field.line } := { abstracts with lastLine := rfl }
  unfold Layout.addField at h ⊢
  split at h
  · next role => exact seen.bitMember role h
  · next role =>
    cases h
    exact ⟨_, rfl, seen.closeGroup.openStruct role⟩
  · next role => exact seen.closeGroup.closeStruct role h
  · next role =>
    cases h
    exact ⟨_, rfl, seen.closeGroup.push_field seen.closeGroup.cursor field kept (by simp [role])⟩
  · next role => exact seen.closeGroup.place mem role h
  · next role => exact absurd role kept

theorem step {entry : Entry} (abstracts : AbstractsState size declared shown given)
    (mem : entry ∈ declared) (unpadded : Unpadded declared)
    (h : (step rules (.strict size) given entry).outcome = .ok next) :
    ∃ state, (Layout.step rules .lenient shown entry).outcome = .ok state ∧
      AbstractsState size declared state next := by
  have closed := abstracts.closeGroup
  cases entry with
  | field field => exact abstracts.addField mem (unpadded field mem) h
  | includeOpen path =>
    cases h
    have opened : AbstractsState size declared
        { Layout.closeGroup shown with includes := (Layout.closeGroup shown).includes + 1 }
        { Layout.closeGroup given with includes := (Layout.closeGroup given).includes + 1 } :=
      { closed with includes := by rw [closed.includes] }
    exact ⟨_, rfl, opened.push (Aligned.nil.concat (.includeOpen path))⟩
  | includeClose =>
    simp only [Layout.step] at h ⊢
    split at h
    · cases h
    · next opened =>
      cases h
      have left : AbstractsState size declared
          { Layout.closeGroup shown with includes := (Layout.closeGroup shown).includes - 1 }
          { Layout.closeGroup given with includes := (Layout.closeGroup given).includes - 1 } :=
        { closed with includes := by rw [closed.includes] }
      have opened_shown : (Layout.closeGroup shown).includes ≠ 0 := by
        rw [closed.includes]
        exact opened
      rw [if_neg opened_shown]
      exact ⟨_, rfl, left.push (Aligned.nil.concat .includeClose)⟩

theorem run {entries : List Entry} (abstracts : AbstractsState size declared shown given)
    (sub : entries ⊆ declared) (unpadded : Unpadded declared)
    (h : (run rules (.strict size) given entries).outcome = .ok next) :
    ∃ state, (Layout.run rules .lenient shown entries).outcome = .ok state ∧
      AbstractsState size declared state next := by
  induction entries generalizing shown given with
  | nil =>
    cases h
    exact ⟨shown, rfl, abstracts⟩
  | cons entry rest ih =>
    obtain ⟨stepped', hstep', hrun'⟩ := Logged.outcome_bind_eq_ok.1 h
    obtain ⟨mem, sub⟩ := List.cons_subset.1 sub
    obtain ⟨stepped, hstep, stepped_abstracts⟩ := abstracts.step mem unpadded hstep'
    obtain ⟨state, hrun, run_abstracts⟩ := ih stepped_abstracts sub hrun'
    exact ⟨state, Logged.outcome_bind_eq_ok.2 ⟨stepped, hstep, hrun⟩, run_abstracts⟩

theorem init (names names' : NamePool) :
    AbstractsState size declared { names } { names := names' } :=
  ⟨.inr rfl, .nil, .nil, rfl, .none, rfl⟩

theorem finish {layout : Layout} {pool : NamePool}
    (abstracts : AbstractsState size declared shown given)
    (h : finish given = .ok (layout, pool)) :
    ∃ lenient pool', Layout.finish shown = .ok (lenient, pool') ∧
      Agrees lenient.size layout.size ∧
        Aligned (Abstracts size declared) lenient.entries layout.entries := by
  have closed := abstracts.closeGroup
  have scopes := closed.scopes
  unfold Layout.finish at h ⊢
  cases hshown : (Layout.closeGroup shown).scopes <;>
    cases hgiven : (Layout.closeGroup given).scopes <;> rw [hshown, hgiven] at scopes <;>
      cases scopes
  · simp only [hgiven] at h
    cases h
    exact ⟨⟨(Layout.closeGroup shown).root, (Layout.closeGroup shown).cursor⟩,
      (Layout.closeGroup shown).names, by simp only [hshown], closed.cursor, closed.root⟩
  · simp [hgiven] at h

end AbstractsState

/-- Where a stream can be laid out strictly, it can be laid out leniently too. Padding aside, the
two layouts hold the same entries one by one. A lenient offset may be unknown and is right if it is
known; a call keeps the length that it was declared with; the size, too, is unknown or right. -/
theorem ofEntries_abstracts {names names' pool : NamePool} {entries : List Entry} {strict : Layout}
    (unpadded : Unpadded entries)
    (h : (ofEntries rules (.strict size) names entries).outcome = .ok (strict, pool)) :
    ∃ lenient pool', (ofEntries rules .lenient names' entries).outcome = .ok (lenient, pool') ∧
      Agrees lenient.size strict.size ∧ List.Forall₂ (Abstracts size entries)
        (withoutPadding lenient.entries) (withoutPadding strict.entries) := by
  obtain ⟨state', hrun', hfinish'⟩ := Logged.outcome_bind_eq_ok.1 h
  obtain ⟨state, hrun, abstracts⟩ :=
    (AbstractsState.init names' names).run (List.Subset.refl entries) unpadded hrun'
  obtain ⟨lenient, pool', hfinish, sizes, aligned⟩ := abstracts.finish hfinish'
  refine ⟨lenient, pool', Logged.outcome_bind_eq_ok.2 ⟨state, hrun, hfinish⟩, sizes, ?_⟩
  exact aligned.forall₂_withoutPadding fun _ _ related => related.isPadding_eq_false

/-- A byte of bits at an offset of its own, with a gap before it that only a strict layout knows. -/
def gapBehindCall : List Entry :=
  [.field { name := "Table", role := .plain, line := 1, expand := some ⟨"T", []⟩ },
    .field { name := "Flags", role := .plain, line := 2, declaredOffset := .fixed 8
             length := .fixed 1 },
    .field { name := "Enable", role := .bitField, line := 3, length := .fixed 1 }]

theorem gapBehindCall_abstracts : Unpadded gapBehindCall ∧ ∃ strict pool lenient pool',
    (ofEntries {} (.strict fun _ _ => pure 6) ⟨"Pad", [], 0⟩ gapBehindCall).outcome =
      .ok (strict, pool) ∧
    (ofEntries {} .lenient ⟨"Gap", [], 0⟩ gapBehindCall).outcome = .ok (lenient, pool') ∧
    Agrees lenient.size strict.size ∧
    List.Forall₂ (Abstracts (fun _ _ => pure 6) gapBehindCall) (withoutPadding lenient.entries)
      (withoutPadding strict.entries) := by
  have unpadded : Unpadded gapBehindCall := by simp [Unpadded, gapBehindCall]
  have size : (ofEntries {} (.strict fun _ _ => pure 6) ⟨"Pad", [], 0⟩
      gapBehindCall).outcome.toOption.map (·.1.size) = some (some 9) := by decide +kernel
  obtain ⟨⟨strict, pool⟩, h, -⟩ := exists_eq_ok size
  obtain ⟨lenient, pool', h', sizes, shown⟩ := ofEntries_abstracts unpadded h
  exact ⟨unpadded, strict, pool, lenient, pool', h, h', sizes, shown⟩

end Layout
end BoardSchema
