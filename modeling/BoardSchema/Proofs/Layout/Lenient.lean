import BoardSchema.Proofs.Field.Builder
import BoardSchema.Proofs.Layout.Tiling
import Mathlib.Data.List.Forall2
/-!
A lenient layout next to a strict one of the same fields with their lengths and calls filled in. The
lenient cursor is not known behind a length that is still open, and it misses the padding there.
Otherwise the two agree, so the lenient layout never has more padding.
-/
namespace BoardSchema.Layout

/-- The second field is the first one with a length that was still open, and no other, filled in. -/
structure Instantiates (shown given : Field) : Prop where
  declared : given.declaredOffset = shown.declaredOffset
  fixed : ∀ n, shown.expand = none → shown.length = .fixed n →
    given.expand = none ∧ given.length = .fixed n

/-- A cursor that is not known, or the right one. -/
def Agrees (shown given : Option Nat) : Prop := shown = none ∨ shown = given

def gapBytes (padding : Option Field) : Nat := (padding.map Field.bytes).getD 0

variable {size : ExpandCall → Nat → Logged Nat}

/-- Where an offset is declared, every cursor gets there. -/
theorem Seeks.start_agrees {shown given : Field} {cursor cursor' start start' : Option Nat}
    {padding padding' : Option Field} (seeks : Seeks shown cursor padding start)
    (seeks' : Seeks given cursor' padding' start')
    (declared : given.declaredOffset = shown.declaredOffset) (agrees : Agrees cursor cursor') :
    Agrees start start' := by
  cases there : shown.declaredOffset with
  | auto =>
    rw [seeks.eq_of_auto there, seeks'.eq_of_auto (declared.trans there)]
    exact agrees
  | fixed offset =>
    rw [seeks.eq_of_fixed there, seeks'.eq_of_fixed (declared.trans there)]
    exact .inr rfl

theorem Seeks.gap_le {shown given : Field} {cursor start start' : Option Nat} {there : Nat}
    {padding padding' : Option Field} (seeks : Seeks shown cursor padding start)
    (seeks' : Seeks given (some there) padding' start')
    (declared : given.declaredOffset = shown.declaredOffset) (agrees : Agrees cursor (some there)) :
    gapBytes padding ≤ gapBytes padding' := by
  cases seeks with
  | auto => exact Nat.zero_le _
  | jump => exact Nat.zero_le _
  | here => exact Nat.zero_le _
  | @gap cursor offset name fixed ahead =>
    obtain rfl : cursor = there := by simpa [Agrees] using agrees
    rw [fixed] at declared
    cases seeks' with
    | auto auto => cases declared.symm.trans auto
    | here fixed' =>
      -- The cursors agree, so one cannot stand before the offset and the other one at it.
      cases declared.symm.trans fixed'
      omega
    | gap _ fixed' =>
      cases declared.symm.trans fixed'
      exact Nat.le_refl _

theorem extent_lenient_eq_ok {field : Field} {length : Length} {bytes : Option Nat}
    (h : (extent .lenient field).outcome = .ok (length, bytes)) :
    length = field.length ∧
      ∀ n, bytes = some n → field.expand = none ∧ field.length = .fixed n := by
  unfold extent at h
  cases hexpand : field.expand with
  | some call =>
    simp only [hexpand] at h
    cases h
    exact ⟨rfl, by simp⟩
  | none =>
    simp only [hexpand] at h
    cases h
    refine ⟨rfl, fun n known => ⟨rfl, ?_⟩⟩
    cases hlength : field.length with
    | fixed m =>
      rw [hlength] at known
      exact congrArg Length.fixed (Option.some.inj known)
    | symbolic text =>
      rw [hlength] at known
      cases known

/-- A lenient layout leaves lengths as they are. -/
theorem Chain.length_eq {start cursor : Option Nat} {cells : List Cell}
    (chain : Chain .lenient start cells cursor) :
    ∀ cell ∈ cells, cell.result.length = cell.source.length := by
  induction chain with
  | nil => simp
  | cell name _ places ih =>
    intro cell hcell
    rcases List.mem_append.1 hcell with hcell | hcell
    · exact ih cell hcell
    · obtain ⟨_, _, -, shown, -, -⟩ := places
      rw [List.mem_singleton.1 hcell]
      exact (extent_lenient_eq_ok shown).1

/-- The cursor goes on alike behind any field, or is not known any more. -/
theorem advance_agrees {given : Field} {start start' bytes bytes' next : Option Nat}
    (shown : Field) (starts : Agrees start start') (lengths : Agrees bytes bytes')
    (h : advance given start' bytes' = .ok next) :
    ∃ cursor, advance shown start bytes = .ok cursor ∧ Agrees cursor next := by
  rcases starts with rfl | rfl
  · exact ⟨none, rfl, .inl rfl⟩
  · rcases lengths with rfl | rfl
    · exact ⟨none, by cases start <;> rfl, .inl rfl⟩
    · refine ⟨next, ?_, .inr rfl⟩
      cases start with
      | none => exact h
      | some offset =>
        cases bytes with
        | none => exact h
        | some n =>
          obtain ⟨rfl, fits⟩ := advance_eq_ok h
          simp [advance, fits]

/-- A field is placed leniently where it is placed strictly, or the lenient cursor is not known. -/
theorem Places.agrees {cell cell' : Cell} {cursor next next' : Option Nat} {there : Nat}
    (places : Places .lenient cursor cell next)
    (places' : Places (.strict size) (some there) cell' next')
    (given : Instantiates cell.source cell'.source) (agrees : Agrees cursor (some there)) :
    Agrees next next' ∧ gapBytes cell.padding ≤ gapBytes cell'.padding := by
  obtain ⟨start, bytes, seeks, shown_extent, moves, -⟩ := places
  obtain ⟨start', bytes', seeks', given_extent, moves', -⟩ := places'
  refine ⟨?_, seeks.gap_le seeks' given.declared agrees⟩
  have starts := seeks.start_agrees seeks' given.declared agrees
  have lengths : Agrees bytes bytes' := by
    cases bytes with
    | none => exact .inl rfl
    | some n =>
      obtain ⟨expand, length⟩ := (extent_lenient_eq_ok shown_extent).2 n rfl
      obtain ⟨expand', length'⟩ := given.fixed n expand length
      obtain ⟨m, -, rfl, takes⟩ := extent_strict_eq_ok given_extent
      simp only [Takes, expand', length'] at takes
      cases takes
      exact .inr rfl
  obtain ⟨cursor, moved, cursors⟩ := advance_agrees cell.source starts lengths moves'
  cases moves.symm.trans moved
  exact cursors

theorem Chain.of_concat {sizing : Sizing} {start next : Option Nat} {cells : List Cell}
    {cell : Cell} (chain : Chain sizing start (cells ++ [cell]) next) :
    ∃ cursor name, Chain sizing start cells cursor ∧
        Places sizing cursor { cell with result := { cell.result with name } } next := by
  generalize hcells : cells ++ [cell] = all at chain
  cases chain with
  | nil => simp at hcells
  | cell name before places =>
    obtain ⟨rfl, heq⟩ := List.append_inj' hcells rfl
    cases heq
    exact ⟨_, name, before, places⟩

theorem source_role_ne_padding {entries : List Entry} {cells : List Cell}
    (unpadded : Unpadded entries) (declared : byteFields entries = cells.map (·.source)) :
    ∀ cell ∈ cells, cell.source.role ≠ .padding := by
  intro cell hcell
  refine unpadded cell.source (mem_of_mem_byteFields ?_)
  rw [declared]
  exact List.mem_map.2 ⟨cell, hcell, rfl⟩

end BoardSchema.Layout
