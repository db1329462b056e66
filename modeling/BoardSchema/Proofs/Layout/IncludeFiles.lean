import BoardSchema.Proofs.Layout.Hoisting
import BoardSchema.Proofs.Layout.OpenFiles
import BoardSchema.Proofs.Output.Satellites
/-!
Whether fields stay in their files. What goes to the front of a structure takes the brackets of
include files along that stand in it, so fields can end up between other brackets than those that
they were declared between. They do not where what goes to the front leaves open the files that it
finds.
-/
namespace BoardSchema

/-- The entries of a stream, each with the files that are open in front of it. -/
def located (here : OpenFiles) : List Entry → List (OpenFiles × Entry)
  | [] => []
  | entry :: rest => (here, entry) :: located (entry.files here) rest

theorem located_append (here : OpenFiles) (left right : List Entry) :
    located here (left ++ right) = located here left ++ located (openFiles here left) right := by
  induction left generalizing here with
  | nil => rfl
  | cons entry rest ih =>
    rw [List.cons_append, located, ih]
    rfl

/-- Fields stand all where the first one does. -/
theorem located_map_field (here : OpenFiles) (view : Layout.Placed → Field)
    (members : List Layout.Placed) :
    located here (members.map fun member => .field (view member)) =
      members.map fun member => (here, .field (view member)) := by
  induction members with
  | nil => rfl
  | cons member rest ih =>
    rw [List.map_cons, located, Entry.files, ih]
    rfl

namespace Layout

/-- An entry that was put out, with the declared entry that it was made of and the files that were
open there. -/
structure Origin where
  files : OpenFiles
  source : Entry
  result : Entry

def Origin.place (origin : Origin) : OpenFiles × Entry := (origin.files, origin.source)

def Placed.origin (here : OpenFiles) (placed : Placed) : Origin :=
  ⟨here, .field placed.source, .field placed.result⟩

/-- Entries that were made of one field. -/
def madeOf (here : OpenFiles) (source : Field) (results : List Entry) : List Origin :=
  results.map fun result => ⟨here, .field source, result⟩

def Cell.origins (here : OpenFiles) (cell : Cell) : List Origin :=
  madeOf here cell.source cell.entries

/-- The brackets and the marker of a container were made of the byte field. -/
def Packed.origins (here : OpenFiles) (packed : Packed) : List Origin :=
  madeOf here packed.source (packed.gap ++ [.field packed.opening, .field packed.marker]) ++
    packed.members.map (·.origin here) ++ madeOf here packed.source [.field packed.closing]

/-- Each field stands where the files are open that were open where it was declared. -/
def InPlace (here : OpenFiles) : List Origin → Prop
  | [] => True
  | origin :: rest =>
    (origin.source.field?.isSome → origin.files = here) ∧ InPlace (origin.result.files here) rest

namespace Outline

mutual

/-- What goes in front of the structure that the outline stands in, each entry with its origin. The
outline was declared where the files `here` are open. -/
def frontOrigins (here : OpenFiles) : Outline → List Origin
  | nil => []
  | mark before _ _ => before.frontOrigins here
  | byte before _ => before.frontOrigins here
  | pack before _ => before.frontOrigins here
  | block before hoists opening inner closing =>
    let middle := openFiles here before.source
    if hoists then
      before.frontOrigins here ++ opening.origin middle :: inner.bodyOrigins middle ++
        [closing.origin (openFiles middle inner.source)]
    else before.frontOrigins here

/-- What stays inside, each entry with its origin. -/
def bodyOrigins (here : OpenFiles) : Outline → List Origin
  | nil => []
  | mark before source result =>
    before.bodyOrigins here ++ [⟨openFiles here before.source, source, result⟩]
  | byte before cell => before.bodyOrigins here ++ cell.origins (openFiles here before.source)
  | pack before packed => before.bodyOrigins here ++ packed.origins (openFiles here before.source)
  | block before hoists opening inner closing =>
    let middle := openFiles here before.source
    if hoists then before.bodyOrigins here ++ inner.frontOrigins middle
    else
      before.bodyOrigins here ++ inner.frontOrigins middle ++ opening.origin middle ::
        inner.bodyOrigins middle ++ [closing.origin (openFiles middle inner.source)]

end

/-- By the time that anything stays in a structure, what went to the front of it has left open the
files that it found. -/
def Returns (here : OpenFiles) : Outline → Prop
  | nil => True
  | mark before _ _ => before.Returns here ∧ openFiles here before.front = here
  | byte before _ => before.Returns here ∧ openFiles here before.front = here
  | pack before _ => before.Returns here ∧ openFiles here before.front = here
  | block before hoists _ inner _ =>
    let middle := openFiles here before.source
    before.Returns here ∧ inner.Returns middle ∧ openFiles middle inner.front = middle ∧
      (hoists = false ∨ inner.front ≠ [] → openFiles here before.front = here)

section

variable (here : OpenFiles) (before inner : Outline) (opening closing : Placed)

theorem frontOrigins_block_true : (block before true opening inner closing).frontOrigins here =
    before.frontOrigins here ++ (opening.origin (openFiles here before.source) ::
      inner.bodyOrigins (openFiles here before.source) ++
        [closing.origin (openFiles (openFiles here before.source) inner.source)]) :=
  List.append_assoc _ _ _

theorem frontOrigins_block_false : (block before false opening inner closing).frontOrigins here =
    before.frontOrigins here :=
  rfl

theorem bodyOrigins_block_true : (block before true opening inner closing).bodyOrigins here =
    before.bodyOrigins here ++ inner.frontOrigins (openFiles here before.source) :=
  rfl

theorem bodyOrigins_block_false : (block before false opening inner closing).bodyOrigins here =
    before.bodyOrigins here ++ (inner.frontOrigins (openFiles here before.source) ++
      (opening.origin (openFiles here before.source) ::
        inner.bodyOrigins (openFiles here before.source) ++
          [closing.origin (openFiles (openFiles here before.source) inner.source)])) :=
  (List.append_assoc _ _ _).trans (List.append_assoc _ _ _)

end

end Outline

/-! ## Origins -/

section

variable {here there : OpenFiles} {source : Field} {results : List Entry}

theorem map_result_madeOf : (madeOf here source results).map Origin.result = results := by
  simp [madeOf, Function.comp_def]

theorem mem_places_madeOf (ne : results ≠ []) {place : OpenFiles × Entry} :
    place ∈ (madeOf here source results).map Origin.place ↔ place = (here, .field source) := by
  have all : (madeOf here source results).map Origin.place =
      List.replicate results.length (here, .field source) := by
    simp [madeOf, Origin.place, Function.comp_def]
  rw [all, List.mem_replicate]
  exact and_iff_right (mt List.length_eq_zero_iff.1 ne)

theorem Cell.map_result_origins (cell : Cell) :
    (cell.origins here).map Origin.result = cell.entries :=
  map_result_madeOf

theorem Packed.map_result_origins (packed : Packed) :
    (packed.origins here).map Origin.result = packed.entries := by
  simp [Packed.origins, map_result_madeOf, Placed.origin, Packed.entries, Packed.start]

end

/-- Origins are given for all that is put out. -/
theorem Outline.map_result_origins (outline : Outline) (here : OpenFiles) :
    (outline.frontOrigins here).map Origin.result = outline.front ∧
      (outline.bodyOrigins here).map Origin.result = outline.body := by
  induction outline generalizing here with
  | nil => exact ⟨rfl, rfl⟩
  | mark before source result ih =>
    refine ⟨(ih here).1, ?_⟩
    rw [bodyOrigins, List.map_append, (ih here).2]
    rfl
  | byte before cell ih =>
    refine ⟨(ih here).1, ?_⟩
    rw [bodyOrigins, List.map_append, (ih here).2, cell.map_result_origins]
    rfl
  | pack before packed ih =>
    refine ⟨(ih here).1, ?_⟩
    rw [bodyOrigins, List.map_append, (ih here).2, packed.map_result_origins]
    rfl
  | block before hoists opening inner closing ihBefore ihInner =>
    obtain ⟨front, body⟩ := ihBefore here
    obtain ⟨inner_front, inner_body⟩ := ihInner (openFiles here before.source)
    cases hoists with
    | true =>
      simp [frontOrigins_block_true, bodyOrigins_block_true, front, body, inner_front, inner_body,
        Placed.origin]
    | false =>
      simp [frontOrigins_block_false, bodyOrigins_block_false, front, body, inner_front, inner_body,
        Placed.origin]

theorem Outline.frontOrigins_eq_nil {outline : Outline} {here : OpenFiles}
    (none : outline.front = []) : outline.frontOrigins here = [] := by
  rw [← List.map_eq_nil_iff (f := Origin.result), (outline.map_result_origins here).1, none]

/-- What was declared is where the entries that are put out come from. -/
theorem Outline.mem_located_source (outline : Outline) (here : OpenFiles)
    (place : OpenFiles × Entry) : place ∈ located here outline.source ↔
      place ∈ (outline.frontOrigins here).map Origin.place ∨
        place ∈ (outline.bodyOrigins here).map Origin.place := by
  induction outline generalizing here with
  | nil => simp [source, frontOrigins, bodyOrigins, located]
  | mark before source result ih =>
    rw [Outline.source, located_append, List.mem_append, ih, frontOrigins, bodyOrigins,
      List.map_append, List.mem_append, or_assoc]
    simp [located, Origin.place]
  | byte before cell ih =>
    have ne : cell.entries ≠ [] := by simp [Cell.entries]
    rw [Outline.source, located_append, List.mem_append, ih, frontOrigins, bodyOrigins,
      List.map_append, List.mem_append, Cell.origins, mem_places_madeOf ne, or_assoc]
    simp [located]
  | pack before packed ih =>
    have start : packed.gap ++ [Entry.field packed.opening, .field packed.marker] ≠ [] := by simp
    have stop : [Entry.field packed.closing] ≠ [] := by simp
    rw [Outline.source, located_append, List.mem_append, ih, frontOrigins, bodyOrigins, located,
      Entry.files, located_map_field, List.map_append, List.mem_append, or_assoc, Packed.origins,
      List.map_append, List.map_append, List.mem_append, List.mem_append, mem_places_madeOf start,
      mem_places_madeOf stop, List.mem_cons, List.map_map]
    have members : Origin.place ∘ (Placed.origin (openFiles here before.source)) =
        fun member : Placed => (openFiles here before.source, Entry.field member.source) := rfl
    rw [members]
    tauto
  | block before hoists opening inner closing ihBefore ihInner =>
    have split : (block before hoists opening inner closing).source = before.source ++
        (.field opening.source :: (inner.source ++ [Entry.field closing.source])) := by
      simp [Outline.source]
    rw [split, located_append, List.mem_append, ihBefore, located, Entry.files, located_append,
      List.mem_cons, List.mem_append, ihInner]
    cases hoists with
    | true =>
      rw [frontOrigins_block_true, bodyOrigins_block_true]
      simp only [List.map_append, List.map_cons, List.map_nil, List.mem_append, List.mem_cons,
        List.cons_append, located, Origin.place, Placed.origin]
      tauto
    | false =>
      rw [frontOrigins_block_false, bodyOrigins_block_false]
      simp only [List.map_append, List.map_cons, List.map_nil, List.mem_append, List.mem_cons,
        List.cons_append, located, Origin.place, Placed.origin]
      tauto

/-! ## Staying in place -/

section

variable {here there : OpenFiles} {origins left right : List Origin}

theorem inPlace_append_iff : InPlace here (left ++ right) ↔
    InPlace here left ∧ InPlace (openFiles here (left.map Origin.result)) right := by
  induction left generalizing here with
  | nil => simp [InPlace]
  | cons origin rest ih =>
    rw [List.cons_append, InPlace, InPlace, ih, List.map_cons, and_assoc]
    rfl

/-- Fields that were made of fields, all of them declared where the same files are open. -/
def AllFrom (here : OpenFiles) (origins : List Origin) : Prop :=
  ∀ origin ∈ origins, origin.files = here ∧ (∃ field, origin.source = .field field) ∧
    ∃ field, origin.result = .field field

namespace AllFrom

theorem append (h : AllFrom here left) (h' : AllFrom here right) : AllFrom here (left ++ right) :=
  List.forall_mem_append.2 ⟨h, h'⟩

theorem inPlace_iff (h : AllFrom here origins) (ne : origins ≠ []) :
    InPlace there origins ↔ here = there := by
  induction origins with
  | nil => exact absurd rfl ne
  | cons origin rest ih =>
    obtain ⟨first, later⟩ := List.forall_mem_cons.1 h
    obtain ⟨files, sources, results⟩ := origin
    obtain ⟨rfl, ⟨source, rfl⟩, ⟨result, rfl⟩⟩ := first
    rw [InPlace]
    cases rest with
    | nil => simp [InPlace, Entry.field?]
    | cons => simp [ih later, Entry.field?, Entry.files]

theorem openFiles_eq (h : AllFrom here origins) :
    openFiles there (origins.map Origin.result) = there := by
  refine openFiles_of_fields fun entry hentry => ?_
  obtain ⟨origin, horigin, rfl⟩ := List.mem_map.1 hentry
  obtain ⟨-, -, result, hresult⟩ := h origin horigin
  rw [hresult]
  rfl

end AllFrom

theorem allFrom_madeOf {source : Field} {results : List Entry}
    (fields : ∀ entry ∈ results, ∃ field, entry = .field field) :
    AllFrom here (madeOf here source results) := by
  intro origin horigin
  obtain ⟨result, hresult, rfl⟩ := List.mem_map.1 horigin
  exact ⟨rfl, ⟨source, rfl⟩, fields result hresult⟩

theorem Cell.mem_gap {cell : Cell} {entry : Entry} (h : entry ∈ cell.gap) :
    ∃ field, entry = .field field := by
  obtain ⟨field, -, rfl⟩ := List.mem_map.1 h
  exact ⟨field, rfl⟩

theorem Cell.allFrom_origins (cell : Cell) : AllFrom here (cell.origins here) := by
  refine allFrom_madeOf (List.forall_mem_append.2 ⟨fun entry => Cell.mem_gap, ?_⟩)
  exact List.forall_mem_singleton.2 ⟨cell.result, rfl⟩

theorem Cell.origins_ne_nil (cell : Cell) : cell.origins here ≠ [] := by
  simp [Cell.origins, madeOf, Cell.entries]

theorem Packed.origins_ne_nil (packed : Packed) : packed.origins here ≠ [] := by
  simp [Packed.origins, madeOf]

theorem Packed.allFrom_origins (packed : Packed) : AllFrom here (packed.origins here) := by
  refine ((allFrom_madeOf ?_).append fun origin horigin => ?_).append (allFrom_madeOf ?_)
  · refine List.forall_mem_append.2 ⟨fun entry => Cell.mem_gap, ?_⟩
    simp
  · obtain ⟨member, -, rfl⟩ := List.mem_map.1 horigin
    exact ⟨rfl, ⟨member.source, rfl⟩, member.result, rfl⟩
  · simp

theorem Cell.openFiles_entries (cell : Cell) : openFiles there cell.entries = there := by
  have all : AllFrom there (cell.origins there) := cell.allFrom_origins
  rw [← cell.map_result_origins, all.openFiles_eq]

theorem Packed.openFiles_entries (packed : Packed) : openFiles there packed.entries = there := by
  have all : AllFrom there (packed.origins there) := packed.allFrom_origins
  rw [← packed.map_result_origins, all.openFiles_eq]

variable {inner before : Outline} {opening closing : Placed}

theorem inPlace_front_append_iff : InPlace here (before.frontOrigins here ++ right) ↔
    InPlace here (before.frontOrigins here) ∧ InPlace (openFiles here before.front) right := by
  rw [inPlace_append_iff, (before.map_result_origins here).1]

theorem inPlace_body_append_iff : InPlace here (before.bodyOrigins here ++ right) ↔
    InPlace here (before.bodyOrigins here) ∧ InPlace (openFiles here before.body) right := by
  rw [inPlace_append_iff, (before.map_result_origins here).2]

/-- A structure is in place if its brackets are and what stays in it is. -/
theorem inPlace_block_iff : InPlace there (opening.origin here :: inner.bodyOrigins here ++
      [closing.origin (openFiles here inner.source)]) ↔
    here = there ∧ InPlace there (inner.bodyOrigins here) ∧
      openFiles here inner.source = openFiles there inner.body := by
  rw [List.cons_append, InPlace, inPlace_append_iff, (inner.map_result_origins here).2]
  simp [InPlace, Placed.origin, Entry.field?, Entry.files]

end

variable {rules : Rules} {sizing : Sizing} {inside : Bool} {start cursor : Option Nat}
  {outline : Outline} {here : OpenFiles}

theorem Marks.files_eq {source result : Entry} (marks : Marks cursor source result) :
    result.files here = source.files here := by
  cases marks <;> rfl

/-- Behind a mark no header goes to the front. -/
theorem Marks.not_atOpening {source result : Entry} (marks : Marks cursor source result)
    (before : List Entry) : ¬atOpening (before ++ [result]) = true := by
  intro opening
  cases marks with
  | action action =>
    have role := role_of_atOpening_concat opening
    simp [action] at role
  | includeOpen => simp [atOpening_iff, List.append_eq_singleton_iff] at opening
  | includeClose => simp [atOpening_iff, List.append_eq_singleton_iff] at opening

theorem not_atOpening_concat {before : List Entry} {field : Field} (role : field.role ≠ .padding) :
    ¬atOpening (before ++ [Entry.field field]) = true :=
  fun opening => role (role_of_atOpening_concat opening)

/-- Behind a container no header goes to the front. -/
theorem Packed.not_atOpening {packed : Packed} {name : String} {line : Nat}
    (closing : packed.closing = groupClosing name line cursor) (before : Outline) :
    ¬atOpening (Outline.pack before packed).body = true := by
  rw [Outline.body, Packed.entries, ← List.append_assoc]
  exact not_atOpening_concat (by simp [closing, groupClosing])

/-- Behind a structure that stays no header goes to the front. -/
theorem Ends.not_atOpening {opening closing : Placed} (ends : Ends cursor opening closing)
    (before inner : Outline) :
    ¬atOpening (Outline.block before false opening inner closing).body = true := by
  rw [Outline.body_block_false, ← List.append_assoc, ← List.append_assoc]
  exact not_atOpening_concat (by simp [ends.result_role])

theorem openFiles_source_pack (before : Outline) (packed : Packed) :
    openFiles here (Outline.pack before packed).source = openFiles here before.source := by
  rw [Outline.source, openFiles_append]
  refine openFiles_of_fields fun entry hentry => ?_
  rcases List.mem_cons.1 hentry with rfl | hentry
  · rfl
  · obtain ⟨member, -, rfl⟩ := List.mem_map.1 hentry
    rfl

theorem openFiles_of_atOpening {entries : List Entry} (opening : atOpening entries = true) :
    openFiles here entries = here := by
  rcases atOpening_iff.1 opening with rfl | ⟨field, rfl, -⟩ <;> rfl

/-- A header structure stands right behind the opening of the structure around it. -/
theorem Opens.atOpening {inside : Bool} {before : Outline} {cursor headerTag : Option Nat}
    {opening : Placed} (opens : Opens rules inside before cursor true opening headerTag) :
    atOpening before.body = true := by
  have moves := opens.hoists_eq.symm
  simp only [Bool.and_eq_true] at moves
  exact moves.2

/-- Right behind its opening all that a structure has declared has gone to the front. Once anything
stays, what stays leads to where the declarations lead. -/
theorem Follows.openFiles_eq (follows : Follows rules sizing inside start outline cursor)
    (returns : outline.Returns here) :
    (atOpening outline.body = true →
      openFiles here outline.source = openFiles here outline.front) ∧
    (openFiles here outline.front = here →
      openFiles here outline.body = openFiles here outline.source) := by
  induction follows generalizing here with
  | nil => exact ⟨fun _ => rfl, fun _ => rfl⟩
  | @mark _ _ _ before source result _ marks ih =>
    refine ⟨fun opening => absurd opening (marks.not_atOpening _), fun _ => ?_⟩
    rw [Outline.body, Outline.source, openFiles_concat, openFiles_concat,
      (ih returns.1).2 returns.2, marks.files_eq]
  | @byte _ _ _ _ before cell _ _ _ ih =>
    have source : openFiles here (Outline.byte before cell).source =
        openFiles here before.source := openFiles_concat ..
    refine ⟨fun opening => ?_, fun _ => ?_⟩
    · rw [source]
      exact (ih returns.1).1 (atOpening_of_append opening)
    · rw [source, Outline.body, openFiles_append, (ih returns.1).2 returns.2,
        cell.openFiles_entries]
  | @pack _ _ _ _ before packed _ _ _ _ _ closing ih =>
    refine ⟨fun opening => absurd opening (Packed.not_atOpening closing before), fun _ => ?_⟩
    rw [openFiles_source_pack, Outline.body, openFiles_append, (ih returns.1).2 returns.2,
      packed.openFiles_entries]
  | @block _ hoists _ _ _ before inner opening closing _ opens within ends ihBefore ihInner =>
    obtain ⟨returns_before, returns_inner, inner_front, stays⟩ := returns
    have before_eq := ihBefore returns_before
    have inner_eq := (ihInner returns_inner).2 inner_front
    have source : openFiles here (Outline.block before hoists opening inner closing).source =
        openFiles (openFiles here before.source) inner.source := by
      simp [Outline.source, openFiles_append]
    rw [source]
    cases hoists with
    | true =>
      have middle := before_eq.1 opens.atOpening
      have front : openFiles here (Outline.block before true opening inner closing).front =
          openFiles (openFiles here before.source) inner.source := by
        simp [openFiles_append, ← middle, inner_eq]
      refine ⟨fun _ => front.symm, fun closed => ?_⟩
      rw [← front, closed, Outline.body_block_true, openFiles_append,
        openFiles_of_atOpening opens.atOpening]
      by_cases none : inner.front = []
      · rw [none]
        rfl
      · have same : openFiles here before.source = here := middle.trans (stays (.inr none))
        rwa [same] at inner_front
    | false =>
      refine ⟨fun opening => absurd opening (ends.not_atOpening before inner), fun _ => ?_⟩
      have middle := before_eq.2 (stays (.inl rfl))
      simp [openFiles_append, middle, inner_front, inner_eq]

/-- Fields stay in their files where what goes to the front leaves open the files that it finds. -/
theorem Follows.inPlace (follows : Follows rules sizing inside start outline cursor)
    (returns : outline.Returns here) :
    InPlace here (outline.frontOrigins here) ∧ InPlace here (outline.bodyOrigins here) := by
  induction follows generalizing here with
  | nil => exact ⟨trivial, trivial⟩
  | mark follows _ ih =>
    obtain ⟨front, body⟩ := ih returns.1
    have body_eq := (follows.openFiles_eq returns.1).2 returns.2
    refine ⟨front, inPlace_body_append_iff.2 ⟨body, ?_⟩⟩
    rw [body_eq]
    exact ⟨fun _ => rfl, trivial⟩
  | @byte _ _ _ _ _ cell follows _ _ ih =>
    obtain ⟨front, body⟩ := ih returns.1
    have body_eq := (follows.openFiles_eq returns.1).2 returns.2
    refine ⟨front, inPlace_body_append_iff.2 ⟨body, ?_⟩⟩
    exact (cell.allFrom_origins.inPlace_iff cell.origins_ne_nil).2 body_eq.symm
  | @pack _ _ _ _ _ packed _ follows _ _ _ _ ih =>
    obtain ⟨front, body⟩ := ih returns.1
    have body_eq := (follows.openFiles_eq returns.1).2 returns.2
    refine ⟨front, inPlace_body_append_iff.2 ⟨body, ?_⟩⟩
    exact (packed.allFrom_origins.inPlace_iff packed.origins_ne_nil).2 body_eq.symm
  | @block _ hoists _ _ _ before inner opening closing follows opens within _ ihBefore ihInner =>
    obtain ⟨returns_before, returns_inner, inner_neutral, stays⟩ := returns
    obtain ⟨front, body⟩ := ihBefore returns_before
    obtain ⟨inner_front, inner_body⟩ := ihInner returns_inner
    obtain ⟨front_eq, body_eq⟩ := follows.openFiles_eq returns_before
    have inner_eq := (within.openFiles_eq returns_inner).2 inner_neutral
    cases hoists with
    | true =>
      have middle := front_eq opens.atOpening
      rw [Outline.frontOrigins_block_true, Outline.bodyOrigins_block_true]
      refine ⟨inPlace_front_append_iff.2 ⟨front, ?_⟩, inPlace_body_append_iff.2 ⟨body, ?_⟩⟩
      · rw [← middle]
        exact inPlace_block_iff.2 ⟨rfl, inner_body, inner_eq.symm⟩
      · rw [openFiles_of_atOpening opens.atOpening]
        by_cases none : inner.front = []
        · rw [inner.frontOrigins_eq_nil none]
          trivial
        · have same := middle.trans (stays (.inr none))
          rwa [same] at inner_front ⊢
    | false =>
      have middle := body_eq (stays (.inl rfl))
      rw [Outline.frontOrigins_block_false, Outline.bodyOrigins_block_false]
      refine ⟨front, inPlace_body_append_iff.2 ⟨body, ?_⟩⟩
      rw [middle]
      refine inPlace_front_append_iff.2 ⟨inner_front, ?_⟩
      rw [inner_neutral]
      exact inPlace_block_iff.2 ⟨rfl, inner_body, inner_eq.symm⟩

/-- Where headers do not hold headers, fields stay in their files only if what goes to the front
leaves open the files that it finds. Nothing is asked of what went to the front of a structure in
which nothing has stayed so far. -/
theorem Follows.returns (follows : Follows rules sizing inside start outline cursor)
    (unnested : outline.Unnested)
    (settled : atOpening outline.body = false → openFiles here outline.front = here)
    (front : InPlace here (outline.frontOrigins here))
    (body : InPlace here (outline.bodyOrigins here)) : outline.Returns here := by
  induction follows generalizing here with
  | nil => trivial
  | @mark _ _ _ before _ _ follows marks ih =>
    have neutral := settled (Bool.eq_false_iff.2 (marks.not_atOpening before.body))
    obtain ⟨body, -⟩ := inPlace_body_append_iff.1 body
    exact ⟨ih unnested (fun _ => neutral) front body, neutral⟩
  | @byte _ _ _ _ before cell follows _ _ ih =>
    obtain ⟨body, here_eq⟩ := inPlace_body_append_iff.1 body
    rw [cell.allFrom_origins.inPlace_iff cell.origins_ne_nil] at here_eq
    cases opening : atOpening (before.body ++ cell.entries) with
    | false =>
      have neutral := settled opening
      exact ⟨ih unnested (fun _ => neutral) front body, neutral⟩
    | true =>
      have opening := atOpening_of_append opening
      have returns := ih unnested (fun stays => absurd opening (Bool.eq_false_iff.1 stays)) front
        body
      have front_eq := (follows.openFiles_eq returns).1 opening
      rw [openFiles_of_atOpening opening] at here_eq
      exact ⟨returns, front_eq.symm.trans here_eq⟩
  | @pack _ _ _ _ before packed _ follows _ _ _ closing ih =>
    have neutral := settled (Bool.eq_false_iff.2 (Packed.not_atOpening closing before))
    obtain ⟨body, -⟩ := inPlace_body_append_iff.1 body
    exact ⟨ih unnested (fun _ => neutral) front body, neutral⟩
  | @block _ hoists _ _ _ before inner opening closing follows opens within ends ihBefore ihInner =>
    obtain ⟨unnested_before, unnested_inner, bare⟩ := unnested
    cases hoists with
    | true =>
      have none := bare rfl
      rw [Outline.frontOrigins_block_true, inPlace_front_append_iff, inPlace_block_iff] at front
      rw [Outline.bodyOrigins_block_true, inPlace_body_append_iff] at body
      obtain ⟨front, middle, inner_body, -⟩ := front
      have returns_before := ihBefore unnested_before
        (fun stays => absurd opens.atOpening (Bool.eq_false_iff.1 stays)) front body.1
      rw [← middle] at inner_body
      have inner_front : InPlace (openFiles here before.source)
          (inner.frontOrigins (openFiles here before.source)) := by
        rw [inner.frontOrigins_eq_nil none]
        trivial
      have neutral : openFiles (openFiles here before.source) inner.front =
          openFiles here before.source := by
        rw [none]
        rfl
      exact ⟨returns_before, ihInner unnested_inner (fun _ => neutral) inner_front inner_body,
        neutral, fun stays => (stays.resolve_left (by decide) none).elim⟩
    | false =>
      have neutral := settled (Bool.eq_false_iff.2 (ends.not_atOpening before inner))
      rw [Outline.front_block_false] at neutral
      rw [Outline.frontOrigins_block_false] at front
      rw [Outline.bodyOrigins_block_false, inPlace_body_append_iff] at body
      obtain ⟨body, block⟩ := body
      have returns_before := ihBefore unnested_before (fun _ => neutral) front body
      rw [(follows.openFiles_eq returns_before).2 neutral, inPlace_front_append_iff,
        inPlace_block_iff] at block
      obtain ⟨inner_front, inner_neutral, inner_body, -⟩ := block
      rw [← inner_neutral] at inner_body
      exact ⟨returns_before, ihInner unnested_inner (fun _ => inner_neutral.symm) inner_front
        inner_body, inner_neutral.symm, fun _ => neutral⟩

/-! ## Structures and includes nested in each other -/

theorem openBrackets_append (opened : List Bracket) (left right : List Entry) :
    openBrackets opened (left ++ right) =
      (openBrackets opened left).bind fun opened => openBrackets opened right :=
  List.foldlM_append ..

/-- Only the brackets of structures are brackets among fields. -/
theorem bracket_field {field : Field} (opens : field.role ≠ .structOpen)
    (closes : field.role ≠ .structClose) (opened : List Bracket) :
    (Entry.field field).bracket opened = some opened := by
  cases role : field.role <;> simp_all [Entry.bracket]

/-- A structure closes behind what it encloses, with nothing else left open. -/
theorem openBrackets_block {opened now : List Bracket} {before inner : Outline} {hoists : Bool}
    {opening closing : Placed} (opens : opening.source.role = .structOpen)
    (closes : closing.source.role = .structClose)
    (nested : openBrackets opened (Outline.block before hoists opening inner closing).source =
      some now) : ∃ middle, openBrackets opened before.source = some middle ∧
        openBrackets (.struct :: middle) inner.source = some (.struct :: now) := by
  have split : (Outline.block before hoists opening inner closing).source = before.source ++
      (.field opening.source :: (inner.source ++ [Entry.field closing.source])) := by
    simp [Outline.source]
  have bracket_opening (opened : List Bracket) : (Entry.field opening.source).bracket opened =
      some (.struct :: opened) := by
    simp [Entry.bracket, opens]
  rw [split, openBrackets_append, Option.bind_eq_some_iff] at nested
  obtain ⟨middle, hbefore, nested⟩ := nested
  rw [Rendering.openBrackets_cons, bracket_opening, Option.bind_some, openBrackets_append,
    Option.bind_eq_some_iff] at nested
  obtain ⟨inside, hinner, nested⟩ := nested
  refine ⟨middle, hbefore, ?_⟩
  rw [hinner]
  simp only [openBrackets, List.foldlM_cons, List.foldlM_nil, Entry.bracket, closes] at nested
  split at nested <;> simp_all

/-- Fields that are no brackets of structures. -/
def Unbracketed (entries : List Entry) : Prop :=
  ∀ entry ∈ entries, ∃ field, entry = .field field ∧ field.role ≠ .structOpen ∧
    field.role ≠ .structClose

theorem Unbracketed.openBrackets_eq {entries : List Entry} (fields : Unbracketed entries)
    (opened : List Bracket) : openBrackets opened entries = some opened := by
  induction entries with
  | nil => rfl
  | cons entry rest ih =>
    obtain ⟨⟨field, rfl, opens, closes⟩, later⟩ := List.forall_mem_cons.1 fields
    rw [Rendering.openBrackets_cons, bracket_field opens closes]
    exact ih later

theorem Unbracketed.append_eq {entries before : List Entry} (fields : Unbracketed entries)
    {opened now : List Bracket} (nested : openBrackets opened (before ++ entries) = some now) :
    openBrackets opened before = some now ∧
      ∀ here, openFiles here (before ++ entries) = openFiles here before := by
  rw [openBrackets_append, Option.bind_eq_some_iff] at nested
  obtain ⟨middle, hbefore, nested⟩ := nested
  rw [fields.openBrackets_eq] at nested
  cases nested
  refine ⟨hbefore, fun here => ?_⟩
  rw [openFiles_append]
  refine openFiles_of_fields fun entry hentry => ?_
  obtain ⟨field, rfl, -⟩ := fields entry hentry
  rfl

theorem Cell.unbracketed {cell : Cell}
    (role : cell.source.role = .plain ∨ cell.source.role = .padding) :
    Unbracketed [.field cell.source] := by
  refine List.forall_mem_singleton.2 ⟨cell.source, rfl, ?_, ?_⟩
  · rintro h
    simp [h] at role
  · rintro h
    simp [h] at role

theorem Contains.unbracketed {packed : Packed} {group : BitGroup}
    (contains : Contains rules packed group) : Unbracketed
      (.field packed.source :: packed.members.map fun member => .field member.source) := by
  obtain ⟨bytes, -, -, packs⟩ := contains.packs
  have plain := role_of_isPlain contains.plain
  refine List.forall_mem_cons.2 ⟨⟨packed.source, rfl, by simp [plain], by simp [plain]⟩, ?_⟩
  intro entry hentry
  obtain ⟨member, hmember, rfl⟩ := List.mem_map.1 hentry
  have role := (packs.role_eq member hmember).1
  exact ⟨member.source, rfl, by simp [role], by simp [role]⟩

/-- Inside a structure only files can be closed that were opened there. -/
theorem Follows.openBrackets_eq (follows : Follows rules sizing inside start outline cursor)
    {outer now : List Bracket}
    (nested : openBrackets (.struct :: outer) outline.source = some now) :
    ∃ paths : List String, now = paths.map (fun _ => .file) ++ .struct :: outer ∧
      ∀ here, openFiles here outline.source = here.map (paths ++ ·) := by
  induction follows generalizing outer now with
  | nil =>
    cases nested
    exact ⟨[], rfl, fun here => by simp [Outline.source]⟩
  | @mark _ _ _ before source _ _ marks ih =>
    rw [Outline.source, openBrackets_append, Option.bind_eq_some_iff] at nested
    obtain ⟨middle, hbefore, nested⟩ := nested
    obtain ⟨paths, rfl, files⟩ := ih hbefore
    simp only [Outline.source, openFiles_concat, files]
    cases marks with
    | @action field role =>
      rw [Rendering.openBrackets_cons, bracket_field (by simp [role]) (by simp [role])] at nested
      cases nested
      exact ⟨paths, rfl, fun _ => rfl⟩
    | includeOpen path =>
      cases nested
      refine ⟨path :: paths, rfl, fun here => ?_⟩
      simp [Entry.files, Function.comp_def]
    | includeClose =>
      cases paths with
      | nil => cases nested
      | cons path paths =>
        cases nested
        refine ⟨paths, rfl, fun here => ?_⟩
        cases here <;> rfl
  | @byte _ _ _ _ before cell _ role _ ih =>
    obtain ⟨hbefore, same⟩ := (Cell.unbracketed role).append_eq nested
    obtain ⟨paths, now_eq, files⟩ := ih hbefore
    exact ⟨paths, now_eq, fun here => (same here).trans (files here)⟩
  | pack _ _ contains _ _ ih =>
    obtain ⟨hbefore, same⟩ := contains.unbracketed.append_eq nested
    obtain ⟨paths, now_eq, files⟩ := ih hbefore
    exact ⟨paths, now_eq, fun here => (same here).trans (files here)⟩
  | @block _ _ _ _ _ before inner opening closing _ opens _ ends ihBefore ihInner =>
    obtain ⟨middle, hbefore, hinner⟩ := openBrackets_block opens.role ends.role nested
    obtain ⟨paths, rfl, files⟩ := ihBefore hbefore
    obtain ⟨inner_paths, inner_now, inner_files⟩ := ihInner hinner
    cases inner_paths with
    | cons => cases inner_now
    | nil =>
      cases inner_now
      refine ⟨paths, rfl, fun here => ?_⟩
      simp [Outline.source, openFiles_append, files, inner_files, Function.comp_def]

/-- What goes to the front leaves open the files that it finds if structures and includes are nested
in each other. -/
theorem Follows.returns_of_nested (follows : Follows rules sizing inside start outline cursor)
    {opened now : List Bracket} (nested : openBrackets opened outline.source = some now) :
    ∀ here, outline.Returns here ∧ openFiles here outline.front = here := by
  induction follows generalizing opened now with
  | nil => exact fun here => ⟨trivial, rfl⟩
  | mark _ _ ih =>
    rw [Outline.source, openBrackets_append, Option.bind_eq_some_iff] at nested
    obtain ⟨middle, hbefore, -⟩ := nested
    exact fun here => ⟨ih hbefore here, (ih hbefore here).2⟩
  | byte _ role _ ih =>
    obtain ⟨hbefore, -⟩ := (Cell.unbracketed role).append_eq nested
    exact fun here => ⟨ih hbefore here, (ih hbefore here).2⟩
  | pack _ _ contains _ _ ih =>
    obtain ⟨hbefore, -⟩ := contains.unbracketed.append_eq nested
    exact fun here => ⟨ih hbefore here, (ih hbefore here).2⟩
  | @block _ hoists _ _ _ before inner opening closing _ opens within ends ihBefore ihInner =>
    obtain ⟨middle, hbefore, hinner⟩ := openBrackets_block opens.role ends.role nested
    intro here
    obtain ⟨returns, neutral⟩ := ihBefore hbefore here
    obtain ⟨inner_returns, inner_neutral⟩ := ihInner hinner (openFiles here before.source)
    refine ⟨⟨returns, inner_returns, inner_neutral, fun _ => neutral⟩, ?_⟩
    cases hoists with
    | false => rwa [Outline.front_block_false]
    | true =>
      obtain ⟨paths, paths_eq, files⟩ := within.openBrackets_eq hinner
      cases paths with
      | cons => cases paths_eq
      | nil =>
        obtain ⟨inner_returns, inner_neutral⟩ := ihInner hinner here
        have inner_body := (within.openFiles_eq inner_returns).2 inner_neutral
        simp [openFiles_append, neutral, inner_body, files]

/-! ## Layouts -/

/-- A layout keeps each field in its file where what goes to the front leaves open the files that it
finds, which is so if structures and includes are nested in each other. If headers do not hold
headers there is no other case. -/
theorem ofEntries_files {names pool : NamePool} {entries : List Entry} {layout : Layout}
    (h : (ofEntries rules sizing names entries).outcome = .ok (layout, pool)) :
    ∃ outline : Outline, outline.source = entries ∧ outline.body = layout.entries ∧
      Follows rules sizing false (some 0) outline layout.size ∧
      (∀ place, place ∈ located (some []) entries ↔
        place ∈ (outline.bodyOrigins (some [])).map Origin.place) ∧
      (outline.bodyOrigins (some [])).map Origin.result = layout.entries ∧
      (outline.Returns (some []) → InPlace (some []) (outline.bodyOrigins (some [])) ∧
        openFiles (some []) layout.entries = openFiles (some []) entries ∧
        ∀ before, before <+: layout.entries →
          before.countP Entry.closesFile ≤ before.countP Entry.opensFile) ∧
      (outline.Unnested → InPlace (some []) (outline.bodyOrigins (some [])) →
        outline.Returns (some [])) ∧
      (BracketsNested entries → outline.Returns (some [])) := by
  obtain ⟨outline, source, body, follows⟩ := exists_outline h
  have bare := follows.front_eq_nil
  have neutral : openFiles (some []) outline.front = some [] := by
    rw [bare]
    rfl
  have front_origins : outline.frontOrigins (some []) = [] := outline.frontOrigins_eq_nil bare
  refine ⟨outline, source, body, follows, fun place => ?_, ?_, fun returns => ?_,
    fun unnested placed => ?_, fun nested => ?_⟩
  · rw [← source, outline.mem_located_source, front_origins]
    simp
  · rw [(outline.map_result_origins _).2, body]
  · have same := (follows.openFiles_eq returns).2 neutral
    rw [body, source] at same
    refine ⟨(follows.inPlace returns).2, same, fun before sub => ?_⟩
    have known := openFiles_ne_none h
    rw [← same] at known
    obtain ⟨now, files⟩ := Option.ne_none_iff_exists'.1 (openFiles_prefix_ne_none known sub)
    have counted := length_openFiles files
    simp only [List.length_nil, Nat.zero_add] at counted
    omega
  · refine follows.returns unnested (fun _ => neutral) ?_ placed
    rw [front_origins]
    trivial
  · rw [BracketsNested, ← source] at nested
    exact (follows.returns_of_nested nested _).1

/-- A file that is included inside of a header structure, which goes to the front. -/
def includeInHeader : List Entry :=
  [.field { name := "BOARD", role := .structOpen, line := 1 },
    .field { name := "CFGHDR_A", role := .structOpen, line := 2 },
    .includeOpen "a.dlt",
    .field { name := "X", role := .plain, line := 3, length := .fixed 1 },
    .includeClose,
    .field { name := "CFGHDR_A", role := .structClose, line := 4 },
    .field { name := "Y", role := .plain, line := 5, length := .fixed 1 },
    .field { name := "BOARD", role := .structClose, line := 6 }]

theorem includeInHeader_files : BracketsNested includeInHeader ∧ ∃ layout pool,
    (ofEntries {} .lenient ⟨"Pad", [], 0⟩ includeInHeader).outcome = .ok (layout, pool) ∧
    ∃ outline : Outline, outline.source = includeInHeader ∧ outline.body = layout.entries ∧
      InPlace (some []) (outline.bodyOrigins (some [])) := by
  have nested : BracketsNested includeInHeader := by decide
  have laid : (ofEntries {} .lenient ⟨"Pad", [], 0⟩ includeInHeader).outcome.toOption.map
      (fun _ => ()) = some () := by decide +kernel
  obtain ⟨⟨layout, pool⟩, h, -⟩ := exists_eq_ok laid
  obtain ⟨outline, source, body, -, -, -, kept, -, returns⟩ := ofEntries_files h
  exact ⟨nested, layout, pool, h, outline, source, body, (kept (returns nested)).1⟩

/-- The fields of a stream, each with the files that are open there. -/
def filed (entries : List Entry) : List (String × Role × OpenFiles) :=
  (located (some []) entries).filterMap fun place =>
    place.2.field?.map fun field => (field.name, field.role, place.1)

/-- A header structure in which a file is opened that is closed behind it. -/
def fileFromHeader : List Entry :=
  [.field { name := "BOARD", role := .structOpen, line := 1 },
    .field { name := "CFGHDR_A", role := .structOpen, line := 2 },
    .includeOpen "a.dlt",
    .field { name := "CFGHDR_A", role := .structClose, line := 3 },
    .field { name := "X", role := .plain, line := 4, length := .fixed 1 },
    .includeClose,
    .field { name := "BOARD", role := .structClose, line := 5 }]

/-- A header structure in another one, with the file that it opens closed in the outer one. -/
def fileFromInnerHeader : List Entry :=
  [.field { name := "BOARD", role := .structOpen, line := 1 },
    .field { name := "CFGHDR_A", role := .structOpen, line := 2 },
    .field { name := "CFGHDR_B", role := .structOpen, line := 3 },
    .includeOpen "a.dlt",
    .field { name := "CFGHDR_B", role := .structClose, line := 4 },
    .includeClose,
    .field { name := "CFGHDR_A", role := .structClose, line := 5 },
    .field { name := "BOARD", role := .structClose, line := 6 }]

/-- A header takes a bracket along to the front. The structure around it ends up in the file, or the
file is closed before it is opened. -/
theorem headers_take_brackets_along :
    (∃ layout pool,
      (ofEntries {} .lenient ⟨"Pad", [], 0⟩ fileFromHeader).outcome = .ok (layout, pool) ∧
      ("BOARD", .structOpen, some []) ∈ filed fileFromHeader ∧
      ("BOARD", .structOpen, some []) ∉ filed layout.entries ∧
      ("BOARD", .structOpen, some ["a.dlt"]) ∈ filed layout.entries) ∧
    ∃ layout pool,
      (ofEntries {} .lenient ⟨"Pad", [], 0⟩ fileFromInnerHeader).outcome = .ok (layout, pool) ∧
      ∃ before, before <+: layout.entries ∧
        before.countP Entry.opensFile < before.countP Entry.closesFile := by
  have first : (ofEntries {} .lenient ⟨"Pad", [], 0⟩ fileFromHeader).outcome.toOption.map
      (fun result => filed result.1.entries) = some
        [("CFGHDR_A", .structOpen, some []), ("CFGHDR_A", .structClose, some ["a.dlt"]),
          ("BOARD", .structOpen, some ["a.dlt"]), ("X", .plain, some ["a.dlt"]),
          ("BOARD", .structClose, some [])] := by
    decide +kernel
  have second : (ofEntries {} .lenient ⟨"Pad", [], 0⟩ fileFromInnerHeader).outcome.toOption.map
      (fun result => ((result.1.entries.take 2).countP Entry.opensFile,
        (result.1.entries.take 2).countP Entry.closesFile)) = some (0, 1) := by
    decide +kernel
  obtain ⟨⟨layout, pool⟩, h, first⟩ := exists_eq_ok first
  obtain ⟨⟨inner, inner_pool⟩, h', second⟩ := exists_eq_ok second
  obtain ⟨opened, closed⟩ := Prod.mk.inj second
  dsimp only at opened closed
  refine ⟨⟨layout, pool, h, by decide, ?_, ?_⟩,
    ⟨inner, inner_pool, h', inner.entries.take 2, List.take_prefix .., by omega⟩⟩
  · rw [first]
    decide
  · rw [first]
    decide

end Layout
end BoardSchema
