import BoardSchema.Proofs.Field.Builder
import BoardSchema.Proofs.Layout.Nesting
import BoardSchema.Proofs.Layout.Order
import Mathlib.Data.List.Perm.Subperm
/-!
What goes where when header structures are moved to the front. Each one goes as a whole in front of
the structure that it stands in, the inner ones before the outer ones.
-/
namespace BoardSchema

/-- The brackets that structures open with. -/
def structOpenings (entries : List Entry) : List Field :=
  (entries.filterMap Entry.field?).filter fun field => field.role = .structOpen

namespace Layout

/-- A header structure with all that it holds. -/
def HeaderBlock (rules : Rules) (header : Field) (block : List Entry) : Prop :=
  ∃ inner closing, block = .field header :: inner ++ [.field closing] ∧
    header.role = .structOpen ∧ isHeader rules header.name = true ∧ Balanced inner ∧
    closing.role = .structClose ∧ closing.name = header.name

/-- A header structure goes in front of the structure that it stands in. -/
inductive HeaderMove (rules : Rules) (header : Field) : List Entry → List Entry → Prop
  | mk {outer : Field} {block beside : List Entry} (before after : List Entry)
      (opens : outer.role = .structOpen) (balanced : Balanced beside)
      (whole : HeaderBlock rules header block) :
      HeaderMove rules header (before ++ .field outer :: (beside ++ block ++ after))
        (before ++ block ++ .field outer :: (beside ++ after))

/-- Header structures are moved one after the other. -/
inductive HeaderMoves (rules : Rules) : List Field → List Entry → List Entry → Prop
  | nil {entries : List Entry} : HeaderMoves rules [] entries entries
  | concat {headers : List Field} {header : Field} {entries middle arranged : List Entry}
      (moves : HeaderMoves rules headers entries middle)
      (move : HeaderMove rules header middle arranged) :
      HeaderMoves rules (headers ++ [header]) entries arranged

section

variable {rules : Rules} {header : Field} {headers more : List Field}
  {entries middle arranged : List Entry}

theorem HeaderMove.perm (move : HeaderMove rules header entries arranged) :
    arranged.Perm entries := by
  cases move with
  | mk before after =>
    rw [List.perm_iff_count]
    intro entry
    simp only [List.count_append, List.count_cons]
    omega

namespace HeaderMoves

theorem perm (moves : HeaderMoves rules headers entries arranged) : arranged.Perm entries := by
  induction moves with
  | nil => exact .refl _
  | concat _ move ih => exact move.perm.trans ih

theorem eq_of_nil (moves : HeaderMoves rules [] entries arranged) : arranged = entries := by
  generalize none : [] = headers at moves
  cases moves with
  | nil => rfl
  | concat => simp at none

theorem trans (moves : HeaderMoves rules headers entries middle)
    (later : HeaderMoves rules more middle arranged) :
    HeaderMoves rules (headers ++ more) entries arranged := by
  induction later with
  | nil => simpa using moves
  | concat _ move ih =>
    rw [← List.append_assoc]
    exact .concat (ih moves) move

end HeaderMoves

end

/-! ## Outlines -/

/-- A field as it was declared, next to what it was put out as. -/
def Placed.pair (placed : Placed) : Entry × Entry := (.field placed.source, .field placed.result)

/-- A container was declared as a byte field before its members. -/
def Packed.pairs (packed : Packed) : List (Entry × Entry) :=
  packed.pair :: packed.members.map Placed.pair

theorem Packed.map_fst_pairs (packed : Packed) : packed.pairs.map Prod.fst =
    .field packed.source :: packed.members.map fun member => .field member.source := by
  simp [Packed.pairs, Placed.pair]

namespace Outline

mutual

/-- The declared entries that go in front of the structure that the outline stands in, each next to
what it was put out as. -/
def frontPairs : Outline → List (Entry × Entry)
  | nil => []
  | mark before _ _ => before.frontPairs
  | byte before _ => before.frontPairs
  | pack before _ => before.frontPairs
  | block before hoists opening inner closing =>
    if hoists then before.frontPairs ++ (opening.pair :: inner.bodyPairs ++ [closing.pair])
    else before.frontPairs

/-- The declared entries that stay inside. -/
def bodyPairs : Outline → List (Entry × Entry)
  | nil => []
  | mark before source result => before.bodyPairs ++ [(source, result)]
  | byte before cell => before.bodyPairs ++ [cell.pair]
  | pack before packed => before.bodyPairs ++ packed.pairs
  | block before hoists opening inner closing =>
    if hoists then before.bodyPairs ++ inner.frontPairs
    else before.bodyPairs ++
      (inner.frontPairs ++ (opening.pair :: inner.bodyPairs ++ [closing.pair]))

end

/-- The structures that go to the front, in the order in which they close. -/
def headers : Outline → List Field
  | nil => []
  | mark before _ _ => before.headers
  | byte before _ => before.headers
  | pack before _ => before.headers
  | block before hoists opening inner _ =>
    before.headers ++ inner.headers ++ if hoists then [opening.source] else []

section

variable (before inner : Outline) (opening closing : Placed)

@[simp] theorem frontPairs_block_true : (block before true opening inner closing).frontPairs =
    before.frontPairs ++ (opening.pair :: inner.bodyPairs ++ [closing.pair]) := by
  simp [frontPairs]

@[simp] theorem frontPairs_block_false :
    (block before false opening inner closing).frontPairs = before.frontPairs := by
  simp [frontPairs]

@[simp] theorem bodyPairs_block_true :
    (block before true opening inner closing).bodyPairs = before.bodyPairs ++ inner.frontPairs := by
  simp [bodyPairs]

@[simp] theorem bodyPairs_block_false :
    (block before false opening inner closing).bodyPairs = before.bodyPairs ++
      (inner.frontPairs ++ (opening.pair :: inner.bodyPairs ++ [closing.pair])) := by
  simp [bodyPairs]

end

/-- The declared entries in front, and those inside, in the order in which they are put out. -/
def frontSource (outline : Outline) : List Entry := outline.frontPairs.map Prod.fst

def bodySource (outline : Outline) : List Entry := outline.bodyPairs.map Prod.fst

theorem frontPairs_eq_nil {outline : Outline} (h : outline.front = []) :
    outline.frontPairs = [] := by
  induction outline with
  | nil => rfl
  | mark before _ _ ih => exact ih h
  | byte before _ ih => exact ih h
  | pack before _ ih => exact ih h
  | block before hoists opening inner closing ih _ =>
    cases hoists with
    | true => simp at h
    | false =>
      rw [frontPairs_block_false]
      exact ih (by simpa using h)

section

variable (before inner : Outline)

theorem source_mark_infix (source result : Entry) :
    before.source <:+: (mark before source result).source :=
  (List.prefix_append ..).isInfix

theorem source_byte_infix (cell : Cell) : before.source <:+: (byte before cell).source :=
  (List.prefix_append ..).isInfix

theorem source_pack_infix (packed : Packed) : before.source <:+: (pack before packed).source :=
  (List.prefix_append ..).isInfix

variable (hoists : Bool) (opening closing : Placed)

theorem source_block_infix :
    before.source <:+: (block before hoists opening inner closing).source :=
  ⟨[], .field opening.source :: inner.source ++ [Entry.field closing.source], by simp [source]⟩

theorem source_inner_infix :
    inner.source <:+: (block before hoists opening inner closing).source :=
  ⟨before.source ++ [Entry.field opening.source], [.field closing.source], by simp [source]⟩

end

end Outline

variable {rules : Rules} {sizing : Sizing} {inside : Bool} {start cursor : Option Nat}
  {outline : Outline}

theorem structOpenings_append (left right : List Entry) :
    structOpenings (left ++ right) = structOpenings left ++ structOpenings right := by
  simp [structOpenings]

/-- No structure goes to the front twice. -/
theorem Follows.headers_subperm (follows : Follows rules sizing inside start outline cursor) :
    outline.headers.Subperm (structOpenings outline.source) := by
  induction follows with
  | nil => exact List.nil_subperm
  | mark _ _ ih =>
    rw [Outline.source, structOpenings_append]
    exact ih.trans (List.sublist_append_left ..).subperm
  | byte _ _ _ ih =>
    rw [Outline.source, structOpenings_append]
    exact ih.trans (List.sublist_append_left ..).subperm
  | pack _ _ _ _ _ ih =>
    rw [Outline.source, structOpenings_append]
    exact ih.trans (List.sublist_append_left ..).subperm
  | @block _ hoists _ _ _ before inner opening closing _ opens _ _ ihBefore ihInner =>
    have here : (if hoists then [opening.source] else []).Subperm
        (structOpenings [.field opening.source]) := by
      cases hoists <;> simp [structOpenings, Entry.field?, opens.role]
    have split : (Outline.block before hoists opening inner closing).source = before.source ++
        ([Entry.field opening.source] ++ (inner.source ++ [Entry.field closing.source])) := by
      simp [Outline.source]
    have inner_closed := ihInner.trans (List.sublist_append_left (structOpenings inner.source)
      (structOpenings [.field closing.source])).subperm
    rw [split, Outline.headers, List.append_assoc]
    simp only [structOpenings_append]
    refine ihBefore.append (List.Subperm.trans ?_ (here.append inner_closed))
    exact List.perm_append_comm.subperm

theorem Follows.balanced_source (follows : Follows rules sizing inside start outline cursor) :
    Balanced outline.frontSource ∧ Balanced outline.bodySource := by
  simp only [Outline.frontSource, Outline.bodySource]
  induction follows with
  | nil => exact ⟨.nil, .nil⟩
  | mark _ marks ih =>
    rw [Outline.bodyPairs, List.map_append]
    exact ⟨ih.1, ih.2.append marks.balanced.1⟩
  | byte _ role places ih =>
    rw [Outline.bodyPairs, List.map_append]
    exact ⟨ih.1, ih.2.append (places.balanced role).1⟩
  | @pack _ _ _ _ before packed _ _ places contains _ closing ih =>
    rw [Outline.bodyPairs, List.map_append, packed.map_fst_pairs]
    exact ⟨ih.1, ih.2.append (contains.balanced places closing).1⟩
  | @block _ hoists _ _ _ before inner opening closing _ opens _ ends ihBefore ihInner =>
    have block := ihInner.2.block _ _ opens.role ends.role ends.named
    cases hoists with
    | true =>
      rw [Outline.frontPairs_block_true, Outline.bodyPairs_block_true, List.map_append,
        List.map_append, List.map_append]
      exact ⟨ihBefore.1.append block, ihBefore.2.append ihInner.1⟩
    | false =>
      rw [Outline.frontPairs_block_false, Outline.bodyPairs_block_false, List.map_append,
        List.map_append, List.map_append]
      exact ⟨ihBefore.1, ihBefore.2.append (ihInner.1.append block)⟩

/-- Header structures are moved from where they were declared to where they are put out. Inside a
structure its opening bracket is what they go in front of. -/
theorem Follows.headerMoves (follows : Follows rules sizing inside start outline cursor)
    (around : List Entry)
    (enclosed : inside = true → ∃ outer, around = [.field outer] ∧ outer.role = .structOpen)
    (before after : List Entry) :
    HeaderMoves rules outline.headers (before ++ around ++ (outline.source ++ after))
      (before ++ outline.frontSource ++ around ++ (outline.bodySource ++ after)) := by
  induction follows generalizing around before after with
  | nil =>
    have stays : HeaderMoves rules [] (before ++ around ++ after) (before ++ around ++ after) := .nil
    simpa [Outline.source, Outline.headers, Outline.frontSource, Outline.bodySource,
      Outline.frontPairs, Outline.bodyPairs] using stays
  | @mark _ _ _ _ source _ _ _ ih =>
    have moves := ih around enclosed before (source :: after)
    simpa [Outline.source, Outline.headers, Outline.frontSource, Outline.bodySource,
      Outline.frontPairs, Outline.bodyPairs] using moves
  | @byte _ _ _ _ _ cell _ _ _ ih =>
    have moves := ih around enclosed before (.field cell.source :: after)
    simpa [Outline.source, Outline.headers, Outline.frontSource, Outline.bodySource,
      Outline.frontPairs, Outline.bodyPairs, Placed.pair] using moves
  | @pack _ _ _ _ _ packed _ _ _ _ _ _ ih =>
    have moves := ih around enclosed before (packed.pairs.map Prod.fst ++ after)
    simpa [Outline.source, Outline.headers, Outline.frontSource, Outline.bodySource,
      Outline.frontPairs, Outline.bodyPairs, packed.map_fst_pairs] using moves
  | @block _ hoists _ _ _ earlier inner opening closing earlier_follows opens within ends ihBefore
      ihInner =>
    -- First what was declared before the structure is arranged, and then what is in it.
    have first : HeaderMoves rules earlier.headers
        (before ++ around ++ ((Outline.block earlier hoists opening inner closing).source ++ after))
        (before ++ earlier.frontSource ++ around ++ (earlier.bodySource ++
          (.field opening.source :: (inner.source ++ .field closing.source :: after)))) := by
      simpa [Outline.source] using ihBefore around enclosed before
        (.field opening.source :: (inner.source ++ .field closing.source :: after))
    have second : HeaderMoves rules inner.headers
        (before ++ earlier.frontSource ++ around ++ (earlier.bodySource ++
          (.field opening.source :: (inner.source ++ .field closing.source :: after))))
        (before ++ earlier.frontSource ++ around ++ (earlier.bodySource ++ inner.frontSource ++
          (.field opening.source :: inner.bodySource ++ [Entry.field closing.source]) ++
            after)) := by
      simpa using ihInner [.field opening.source]
        (fun _ => ⟨opening.source, rfl, opens.role⟩)
        (before ++ earlier.frontSource ++ around ++ earlier.bodySource)
        (.field closing.source :: after)
    have settled := first.trans second
    rw [Outline.headers]
    cases hoists with
    | false =>
      simpa [Outline.frontSource, Outline.bodySource, Placed.pair] using settled
    | true =>
      have moves := opens.hoists_eq.symm
      simp only [Bool.and_eq_true] at moves
      obtain ⟨outer, rfl, outer_role⟩ := enclosed moves.1.1
      have beside := earlier_follows.balanced_source.2.append within.balanced_source.1
      have whole : HeaderBlock rules opening.source
          (.field opening.source :: inner.bodySource ++ [Entry.field closing.source]) :=
        ⟨inner.bodySource, closing.source, rfl, opens.role, moves.1.2, within.balanced_source.2,
          ends.role, ends.named⟩
      have move := HeaderMove.mk (before ++ earlier.frontSource) after outer_role beside whole
      rw [← List.singleton_append] at move
      have all := HeaderMoves.concat settled (by simpa using move)
      simpa [Outline.frontSource, Outline.bodySource, Placed.pair] using all

/-! ## Streams without headers -/

/-- Nothing stands between the opening of a structure and a header in it. -/
def OpensWithHeader (rules : Rules) (entries : List Entry) : Prop :=
  ∃ outer header, [.field outer, .field header] <:+: entries ∧ outer.role = .structOpen ∧
    header.role = .structOpen ∧ isHeader rules header.name = true

theorem OpensWithHeader.mono {entries more : List Entry} (h : OpensWithHeader rules entries)
    (sub : entries <:+: more) : OpensWithHeader rules more := by
  obtain ⟨outer, header, here, roles⟩ := h
  exact ⟨outer, header, here.trans sub, roles⟩

/-- At the opening of a structure nothing was declared that stays, padding apart. -/
theorem Follows.eq_nil_of_atOpening (follows : Follows rules sizing inside start outline cursor)
    (unpadded : Unpadded outline.source) (none : outline.headers = [])
    (opening : atOpening outline.body = true) : outline = .nil := by
  cases follows with
  | nil => rfl
  | mark _ marks =>
    rw [Outline.body] at opening
    cases marks with
    | action action =>
      have role := role_of_atOpening_concat opening
      simp [action] at role
    | includeOpen => simp [atOpening_iff, List.append_eq_singleton_iff] at opening
    | includeClose => simp [atOpening_iff, List.append_eq_singleton_iff] at opening
  | @byte _ _ _ _ before cell _ _ places =>
    rw [Outline.body, Cell.entries, ← List.append_assoc] at opening
    have role := role_of_atOpening_concat opening
    rw [places.role_eq] at role
    exact absurd role (unpadded cell.source (by simp [Outline.source]))
  | pack _ _ _ _ closing =>
    rw [Outline.body, Packed.entries, ← List.append_assoc] at opening
    have role := role_of_atOpening_concat opening
    rw [closing] at role
    cases role
  | @block _ hoists _ _ _ _ _ _ _ _ _ _ ends =>
    cases hoists with
    | true => simp [Outline.headers] at none
    | false =>
      rw [Outline.body_block_false, ← List.append_assoc, ← List.append_assoc] at opening
      have role := role_of_atOpening_concat opening
      rw [ends.result_role] at role
      cases role

/-- In a stream without padding the first header that is moved stands right behind the opening of
the structure around it. -/
theorem Follows.headers_eq_nil (follows : Follows rules sizing inside start outline cursor)
    (around : List Entry)
    (enclosed : inside = true → ∃ outer, around = [.field outer] ∧ outer.role = .structOpen)
    (unpadded : Unpadded outline.source)
    (apart : ¬OpensWithHeader rules (around ++ outline.source)) : outline.headers = [] := by
  induction follows generalizing around with
  | nil => rfl
  | mark _ _ ih =>
    refine ih around enclosed (unpadded.of_infix (Outline.source_mark_infix ..)) fun h => apart (h.mono ?_)
    exact (List.prefix_append_right_inj _).2 (List.prefix_append ..) |>.isInfix
  | byte _ _ _ ih =>
    refine ih around enclosed (unpadded.of_infix (Outline.source_byte_infix ..)) fun h => apart (h.mono ?_)
    exact (List.prefix_append_right_inj _).2 (List.prefix_append ..) |>.isInfix
  | pack _ _ _ _ _ ih =>
    refine ih around enclosed (unpadded.of_infix (Outline.source_pack_infix ..)) fun h => apart (h.mono ?_)
    exact (List.prefix_append_right_inj _).2 (List.prefix_append ..) |>.isInfix
  | @block _ hoists _ _ _ earlier inner opening closing earlier_follows opens within _ ihBefore
      ihInner =>
    have unpadded_earlier := unpadded.of_infix (Outline.source_block_infix ..)
    have unpadded_inner := unpadded.of_infix (Outline.source_inner_infix ..)
    have source : (Outline.block earlier hoists opening inner closing).source = earlier.source ++
        (.field opening.source :: inner.source ++ [Entry.field closing.source]) := by
      simp [Outline.source]
    rw [source] at apart
    have earlier_none := ihBefore around enclosed unpadded_earlier fun h => apart (h.mono
      ⟨[], .field opening.source :: inner.source ++ [Entry.field closing.source], by simp⟩)
    have inner_none := ihInner [.field opening.source]
      (fun _ => ⟨opening.source, rfl, opens.role⟩) unpadded_inner
      fun h => apart (h.mono ⟨around ++ earlier.source, [.field closing.source], by simp⟩)
    rw [Outline.headers, earlier_none, inner_none]
    cases hoists with
    | false => rfl
    | true =>
      have moves := opens.hoists_eq.symm
      simp only [Bool.and_eq_true] at moves
      obtain ⟨outer, rfl, outer_role⟩ := enclosed moves.1.1
      have first := earlier_follows.eq_nil_of_atOpening unpadded_earlier earlier_none moves.2
      refine absurd ⟨outer, opening.source, ?_, outer_role, opens.role, moves.1.2⟩ apart
      exact ⟨[], inner.source ++ [Entry.field closing.source], by simp [first, Outline.source]⟩

end Layout
end BoardSchema
