import BoardSchema.Proofs.Field.Builder
import BoardSchema.Proofs.Layout.OpenFiles
/-!
Include brackets among lines. Each is a line of its own, so the include files that are open behind
lines are those that are open behind the entries that are built from them, and a bracket among the
entries is found again among the lines.
-/
namespace BoardSchema

/-- The include files that are open behind a line. -/
def SourceLine.files (here : OpenFiles) (line : SourceLine) : OpenFiles :=
  match LineEvent.ofLine line with
  | .ok (.includeOpen path) => here.map (path :: ·)
  | .ok .includeClose => here.bind List.tail?
  | _ => here

/-- The include files that are open behind lines. -/
def filesBehind (here : OpenFiles) (lines : List SourceLine) : OpenFiles :=
  lines.foldl SourceLine.files here

/-- Behind the lines `before` comes a bracket that closes an include file, and none is open. -/
structure ClosesNothing (lines before : List SourceLine) (close : SourceLine) : Prop where
  found : ∃ after, lines = before ++ close :: after
  closes : LineEvent.ofLine close = .ok .includeClose
  none_open : filesBehind (some []) before = some []

/-- An event that is no include bracket. -/
def LineEvent.Plain (event : LineEvent) : Prop :=
  (∀ path, event ≠ .includeOpen path) ∧ event ≠ .includeClose

theorem LineEvent.bracket_cases (event : LineEvent) :
    (∃ path, event = .includeOpen path) ∨ event = .includeClose ∨ event.Plain := by
  cases event with
  | includeOpen path => exact .inl ⟨path, rfl⟩
  | includeClose => exact .inr (.inl rfl)
  | declaration => exact .inr (.inr ⟨nofun, nofun⟩)
  | bsf => exact .inr (.inr ⟨nofun, nofun⟩)
  | hdr => exact .inr (.inr ⟨nofun, nofun⟩)
  | sectionHeader => exact .inr (.inr ⟨nofun, nofun⟩)
  | unrecognized => exact .inr (.inr ⟨nofun, nofun⟩)

variable {rules : Rules} {line : SourceLine} {builder : Builder} {entries : List Entry}

theorem SourceLine.files_of_plain {event : LineEvent} (read : LineEvent.ofLine line = .ok event)
    (plain : event.Plain) (here : OpenFiles) : line.files here = here := by
  unfold files
  rw [read]
  split
  · next path same => exact absurd (Except.ok.inj same) (plain.1 path)
  · next same => exact absurd (Except.ok.inj same) plain.2
  · rfl

/-! ## Entries of a line -/

namespace Builder

theorem fields_applyBsf {number : Nat} {block : Block}
    (h : (applyBsf rules number builder block).result = .ok entries) :
    ∀ entry ∈ entries, entry.field?.isSome := by
  unfold applyBsf at h
  split at h
  · cases h
    simp
  · split at h
    · cases h
      simp [Entry.field?]
    · split at h
      · cases h
      · cases h
        simp [Entry.field?]
    · cases h
      simp [Entry.field?]
    · cases h
      simp

theorem fields_applyHdr {number : Nat} {block : Block}
    (h : (applyHdr number builder block).result = .ok entries) :
    ∀ entry ∈ entries, entry.field?.isSome := by
  unfold applyHdr at h
  split at h
  · split at h <;> cases h <;> simp [Entry.field?]
  · cases h
    simp
  · cases h
    simp

/-- A line that is no bracket is built into fields. -/
theorem fields_apply {number : Nat} {event : LineEvent} (plain : event.Plain)
    (h : (builder.apply rules number event).result = .ok entries) :
    ∀ entry ∈ entries, entry.field?.isSome := by
  have append (left right : List Entry) (hleft : ∀ entry ∈ left, entry.field?.isSome)
      (hright : ∀ entry ∈ right, entry.field?.isSome) :
      ∀ entry ∈ left ++ right, entry.field?.isSome := by
    intro entry hentry
    exact (List.mem_append.1 hentry).elim (hleft entry) (hright entry)
  cases event with
  | includeOpen path => exact absurd rfl (plain.1 path)
  | includeClose => exact absurd rfl plain.2
  | declaration declaration =>
    cases h
    simp [Entry.field?]
  | bsf pragma => exact applyBlocks_induct (by simp) append (fun _ _ _ => fields_applyBsf) h
  | hdr pragma => exact applyBlocks_induct (by simp) append (fun _ _ _ => fields_applyHdr) h
  | sectionHeader name =>
    cases h
    simp
  | unrecognized =>
    cases h
    simp

theorem files_apply {event : LineEvent} (read : LineEvent.ofLine line = .ok event)
    (h : (builder.apply rules line.number event).result = .ok entries) (here : OpenFiles) :
    openFiles here entries = line.files here := by
  rcases event.bracket_cases with ⟨path, rfl⟩ | rfl | plain
  · cases h
    rw [SourceLine.files, read]
    rfl
  · cases h
    rw [SourceLine.files, read]
    rfl
  · rw [openFiles_of_fields (fields_apply plain h), SourceLine.files_of_plain read plain]

/-- Where a line gives a closing bracket, it gives nothing else. -/
theorem apply_close {number : Nat} {event : LineEvent} {before more : List Entry}
    (h : (builder.apply rules number event).result = .ok (before ++ .includeClose :: more)) :
    event = .includeClose ∧ before = [] := by
  have one {entry : Entry} (same : [entry] = before ++ .includeClose :: more) :
      entry = .includeClose ∧ before = [] := by
    cases before with
    | nil => exact ⟨(List.cons.inj same).1, rfl⟩
    | cons _ before => simp at same
  rcases event.bracket_cases with ⟨path, rfl⟩ | rfl | plain
  · cases (one (Except.ok.inj h)).1
  · exact ⟨rfl, (one (Except.ok.inj h)).2⟩
  · have bracket := fields_apply plain h .includeClose (by simp)
    cases bracket

end Builder

/-! ## Entries of lines -/

namespace Built

theorem files_ofLinesFrom {lines : List SourceLine} {built : Built}
    (h : (ofLinesFrom rules builder lines).outcome = .ok built) (here : OpenFiles) :
    openFiles here built.entries = filesBehind here lines := by
  induction lines generalizing builder built here with
  | nil =>
    cases h
    rfl
  | cons line rest ih =>
    obtain ⟨event, entries, later, read, first, hlater, rfl⟩ := ofLinesFrom_cons h
    rw [openFiles_append, Builder.files_apply read first, ih hlater]
    rfl

/-- A bracket among entries is a line, and the entries before it are built from the lines before. -/
theorem ofLinesFrom_split {lines : List SourceLine} {built : Built} {before after : List Entry}
    (h : (ofLinesFrom rules builder lines).outcome = .ok built)
    (split : built.entries = before ++ .includeClose :: after) :
    ∃ earlier close later problems, lines = earlier ++ close :: later ∧
      LineEvent.ofLine close = .ok .includeClose ∧
      (ofLinesFrom rules builder earlier).outcome = .ok ⟨before, problems⟩ := by
  induction lines generalizing builder built before with
  | nil =>
    cases h
    simp at split
  | cons line rest ih =>
    obtain ⟨event, entries, tail, read, first, htail, rfl⟩ := ofLinesFrom_cons h
    -- The bracket is one of the entries of the first line, or comes behind them.
    have cases_eq : (event = .includeClose ∧ before = []) ∨
        ∃ more, before = entries ++ more ∧ tail.entries = more ++ .includeClose :: after := by
      rcases List.append_eq_append_iff.1 split with ⟨more, rfl, tail_eq⟩ | ⟨more, rfl, rest_eq⟩
      · exact .inr ⟨more, rfl, tail_eq⟩
      · cases more with
        | nil => exact .inr ⟨[], by simp, rest_eq.symm⟩
        | cons entry more =>
          obtain ⟨rfl, -⟩ := List.cons.inj rest_eq
          exact .inl (Builder.apply_close first)
    rcases cases_eq with ⟨rfl, rfl⟩ | ⟨more, rfl, tail_eq⟩
    · exact ⟨[], line, rest, [], rfl, read, rfl⟩
    · obtain ⟨earlier, close, later, problems, rfl, closes, hearlier⟩ := ih htail tail_eq
      exact ⟨line :: earlier, close, later, _, rfl, closes,
        ofLinesFrom_cons_eq_ok read first hearlier⟩

/-- A bracket among entries that closes nothing is a line that closes nothing. -/
theorem exists_closesNothing {lines : List SourceLine} {built : Built} {before after : List Entry}
    (h : (ofLines rules lines).outcome = .ok built)
    (split : built.entries = before ++ .includeClose :: after)
    (none_open : openFiles (some []) before = some []) :
    ∃ earlier close shown, ClosesNothing lines earlier close ∧
      (ofLines rules earlier).outcome = .ok shown ∧ shown.entries = before := by
  obtain ⟨earlier, close, later, problems, found, closes, hearlier⟩ := ofLinesFrom_split h split
  refine ⟨earlier, close, ⟨before, problems⟩, ⟨⟨later, found⟩, closes, ?_⟩, hearlier, rfl⟩
  rw [← files_ofLinesFrom hearlier]
  exact none_open

end Built
end BoardSchema
