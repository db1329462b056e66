import BoardSchema.Field.Builder
/-!
What a builder makes of lines. It never makes padding, which only a layout puts in, and calls stand
in the place of byte fields only. What stops it is wrong with one of its lines.
-/
namespace BoardSchema

/-- No entry is padding. -/
def Unpadded (entries : List Entry) : Prop :=
  ∀ field, .field field ∈ entries → field.role ≠ .padding

theorem Unpadded.of_infix {entries part : List Entry} (h : Unpadded entries)
    (sub : part <:+: entries) : Unpadded part :=
  fun found hfound => h found (sub.subset hfound)

/-- No entry but a plain field has a call. -/
def PlainCalls (entries : List Entry) : Prop :=
  ∀ field, .field field ∈ entries → field.role ≠ .plain → field.expand = none

namespace PlainCalls

variable {field : Field} {left right : List Entry}

theorem append_iff : PlainCalls (left ++ right) ↔ PlainCalls left ∧ PlainCalls right := by
  simp only [PlainCalls, List.mem_append, or_imp, forall_and]

theorem field_iff : PlainCalls [.field field] ↔ (field.role ≠ .plain → field.expand = none) := by
  simp [PlainCalls]

/-- Only the role and the call of a field matter. -/
theorem congr {other : Field} (h : PlainCalls [.field field]) (role : other.role = field.role)
    (expand : other.expand = field.expand) : PlainCalls [.field other] := by
  rw [field_iff] at h ⊢
  rwa [role, expand]

theorem cons_iff : PlainCalls (.field field :: right) ↔
    (field.role ≠ .plain → field.expand = none) ∧ PlainCalls right := by
  rw [← field_iff, ← append_iff, List.singleton_append]

end PlainCalls

/-- What lines can declare. -/
structure Declared (entries : List Entry) : Prop where
  unpadded : Unpadded entries
  plainCalls : PlainCalls entries

namespace Declared

theorem nil : Declared [] := ⟨by simp [Unpadded], by simp [PlainCalls]⟩

theorem field {field : Field} (role : field.role ≠ .padding)
    (plain : field.role ≠ .plain → field.expand = none) : Declared [.field field] := by
  refine ⟨fun found hfound => ?_, PlainCalls.field_iff.2 plain⟩
  cases List.mem_singleton.1 hfound
  exact role

theorem append {left right : List Entry} (h : Declared left) (h' : Declared right) :
    Declared (left ++ right) :=
  ⟨fun found hfound => (List.mem_append.1 hfound).elim (h.unpadded found) (h'.unpadded found),
    PlainCalls.append_iff.2 ⟨h.plainCalls, h'.plainCalls⟩⟩

end Declared

/-- What can be wrong with a line. -/
inductive LineFault (line : Nat) : CompileError → Prop
  | declaration (detail : String) : LineFault line (.malformedField line detail)
  | directive (detail : String) : LineFault line (.malformedPragma line "include" detail)
  | member (text : String) : LineFault line (.bitFieldSyntax line text)

theorem Declaration.parse_faults {line : Nat} {text : List Char} {error : CompileError}
    (h : Declaration.parse line text = .error error) : LineFault line error := by
  unfold Declaration.parse at h
  simp only at h
  split at h
  · split at h
    · cases h
      exact .declaration _
    · split at h
      · cases h
        exact .declaration _
      · split at h
        · cases h
          exact .declaration _
        · split at h
          · cases h
            exact .declaration _
          · cases h
  · cases h
    exact .declaration _

theorem LineEvent.ofLine_faults {line : SourceLine} {error : CompileError}
    (h : LineEvent.ofLine line = .error error) : LineFault line.number error := by
  unfold LineEvent.ofLine at h
  split at h
  · cases h
  · split at h
    · unfold LineEvent.ofComment at h
      split at h
      · cases h
      · cases h
      · split at h
        · cases h
        · cases h
          exact .directive _
      · cases h
      · cases h
    · split at h
      · cases parsed : Declaration.parse line.number (Text.trim line.text.toList) with
        | error fault =>
          rw [parsed] at h
          cases h
          exact Declaration.parse_faults parsed
        | ok declaration =>
          rw [parsed] at h
          cases h
      · cases h

namespace Builder

variable {rules : Rules} {line : Nat} {builder : Builder} {entries : List Entry}
  {error : CompileError}

theorem declared_applyBsf {block : Block}
    (h : (applyBsf rules line builder block).result = .ok entries) : Declared entries := by
  unfold applyBsf at h
  split at h
  · cases h
    exact .nil
  · split at h
    · cases h
      exact .field (by simp) (by simp)
    · split at h
      · cases h
      · cases h
        exact .field (by simp) (by simp)
    · cases h
      refine ⟨fun found hfound => ?_, fun found hfound => ?_⟩ <;>
        obtain ⟨call, -, heq⟩ := List.mem_map.1 hfound <;> cases heq <;> simp
    · cases h
      exact .nil

theorem applyBsf_faults {block : Block}
    (h : (applyBsf rules line builder block).result = .error error) : LineFault line error := by
  unfold applyBsf at h
  split at h
  · cases h
  · split at h
    · cases h
    · split at h
      · cases h
        exact .member _
      · cases h
    · cases h
    · cases h

theorem declared_applyHdr {block : Block} (h : (applyHdr line builder block).result = .ok entries) :
    Declared entries := by
  unfold applyHdr at h
  split at h
  · split at h
    · cases h
      exact .nil
    · cases h
      exact .field (by simp) (by simp)
    · cases h
      exact .field (by simp) (by simp)
  · cases h
    exact .nil
  · cases h
    exact .nil

theorem applyHdr_ok (line : Nat) (builder : Builder) (block : Block) :
    ∃ entries, (applyHdr line builder block).result = .ok entries := by
  unfold applyHdr
  split
  · split <;> exact ⟨_, rfl⟩
  · exact ⟨_, rfl⟩
  · exact ⟨_, rfl⟩

/-- What holds of the entries of each block holds of those of a pragma. -/
theorem applyBlocks_induct {apply : Builder → Block → Step} {Good : List Entry → Prop}
    (nil : Good []) (append : ∀ left right, Good left → Good right → Good (left ++ right))
    (each : ∀ builder block entries, (apply builder block).result = .ok entries → Good entries)
    {blocks : List Block} (h : (applyBlocks apply builder blocks).result = .ok entries) :
    Good entries := by
  induction blocks generalizing builder entries with
  | nil =>
    cases h
    exact nil
  | cons block rest ih =>
    simp only [applyBlocks] at h
    split at h
    · cases h
    · next first hfirst =>
      cases hlater : (applyBlocks apply (apply builder block).builder rest).result with
      | error error => simp [hlater, Except.map] at h
      | ok later =>
        simp only [hlater, Except.map, Except.ok.injEq] at h
        rw [← h]
        exact append _ _ (each builder block first hfirst) (ih hlater)

theorem declared_applyBlocks {apply : Builder → Block → Step}
    (each : ∀ builder block entries, (apply builder block).result = .ok entries → Declared entries)
    {blocks : List Block} (h : (applyBlocks apply builder blocks).result = .ok entries) :
    Declared entries :=
  applyBlocks_induct .nil (fun _ _ => .append) each h

/-- The first block that fails ends its pragma. -/
theorem applyBlocks_eq_error {apply : Builder → Block → Step} {blocks : List Block}
    (h : (applyBlocks apply builder blocks).result = .error error) :
    ∃ builder block, (apply builder block).result = .error error := by
  induction blocks generalizing builder with
  | nil => cases h
  | cons block rest ih =>
    simp only [applyBlocks] at h
    split at h
    · next failed =>
      cases h
      exact ⟨builder, block, failed⟩
    · cases hlater : (applyBlocks apply (apply builder block).builder rest).result with
      | error fault =>
        rw [hlater] at h
        cases h
        exact ih hlater
      | ok later => simp [hlater, Except.map] at h

theorem declared_apply {event : LineEvent}
    (h : (builder.apply rules line event).result = .ok entries) : Declared entries := by
  cases event with
  | declaration d =>
    cases h
    exact .field (by simp) (by simp)
  | includeOpen path =>
    cases h
    exact ⟨by simp [Unpadded], by simp [PlainCalls]⟩
  | includeClose =>
    cases h
    exact ⟨by simp [Unpadded], by simp [PlainCalls]⟩
  | bsf pragma => exact declared_applyBlocks (fun _ _ _ => declared_applyBsf) h
  | hdr pragma => exact declared_applyBlocks (fun _ _ _ => declared_applyHdr) h
  | sectionHeader name =>
    cases h
    exact .nil
  | unrecognized =>
    cases h
    exact .nil

theorem apply_faults {event : LineEvent}
    (h : (builder.apply rules line event).result = .error error) : LineFault line error := by
  cases event with
  | declaration d => cases h
  | includeOpen path => cases h
  | includeClose => cases h
  | bsf pragma =>
    obtain ⟨_, _, failed⟩ := applyBlocks_eq_error h
    exact applyBsf_faults failed
  | hdr pragma =>
    obtain ⟨builder, block, failed⟩ := applyBlocks_eq_error h
    obtain ⟨entries, hentries⟩ := applyHdr_ok line builder block
    cases failed.symm.trans hentries
  | sectionHeader name => cases h
  | unrecognized => cases h

end Builder

namespace Built

variable {rules : Rules}

/-- The first line is built, and then the others behind it. -/
theorem ofLinesFrom_cons {builder : Builder} {line : SourceLine} {rest : List SourceLine}
    {built : Built}
    (h : (ofLinesFrom rules builder (line :: rest)).outcome = .ok built) :
    ∃ event entries later, LineEvent.ofLine line = .ok event ∧
      (builder.apply rules line.number event).result = .ok entries ∧
      (ofLinesFrom rules (builder.apply rules line.number event).builder rest).outcome =
        .ok later ∧
      built = ⟨entries ++ later.entries,
        (builder.apply rules line.number event).problems ++ later.problems⟩ := by
  obtain ⟨event, read, h⟩ := Logged.outcome_bind_eq_ok.1 h
  obtain ⟨_, -, h⟩ := Logged.outcome_bind_eq_ok.1 h
  obtain ⟨entries, hentries, h⟩ := Logged.outcome_bind_eq_ok.1 h
  obtain ⟨later, hlater, h⟩ := Logged.outcome_bind_eq_ok.1 h
  cases h
  exact ⟨event, entries, later, read, hentries, hlater, rfl⟩

theorem ofLinesFrom_cons_eq_ok {builder : Builder} {line : SourceLine} {rest : List SourceLine}
    {event : LineEvent} {entries : List Entry} {later : Built}
    (read : LineEvent.ofLine line = .ok event)
    (first : (builder.apply rules line.number event).result = .ok entries)
    (rest_eq : (ofLinesFrom rules (builder.apply rules line.number event).builder rest).outcome =
      .ok later) :
    (ofLinesFrom rules builder (line :: rest)).outcome = .ok ⟨entries ++ later.entries,
      (builder.apply rules line.number event).problems ++ later.problems⟩ := by
  refine Logged.outcome_bind_eq_ok.2 ⟨event, read, ?_⟩
  refine Logged.outcome_bind_eq_ok.2 ⟨(), rfl, ?_⟩
  refine Logged.outcome_bind_eq_ok.2 ⟨entries, first, ?_⟩
  exact Logged.outcome_bind_eq_ok.2 ⟨later, rest_eq, rfl⟩

theorem declared_ofLinesFrom {builder : Builder} {lines : List SourceLine} {built : Built}
    (h : (ofLinesFrom rules builder lines).outcome = .ok built) : Declared built.entries := by
  induction lines generalizing builder built with
  | nil =>
    cases h
    exact .nil
  | cons line rest ih =>
    obtain ⟨event, entries, later, -, hentries, hlater, rfl⟩ := ofLinesFrom_cons h
    exact (Builder.declared_apply hentries).append (ih hlater)

theorem declared_ofLines {lines : List SourceLine} {built : Built}
    (h : (ofLines rules lines).outcome = .ok built) : Declared built.entries :=
  declared_ofLinesFrom h

/-- Lines are never built into padding. -/
theorem unpadded_ofLines {lines : List SourceLine} {built : Built}
    (h : (ofLines rules lines).outcome = .ok built) : Unpadded built.entries :=
  (declared_ofLines h).unpadded

theorem ofLinesFrom_faults {builder : Builder} {lines : List SourceLine} {error : CompileError}
    (h : (ofLinesFrom rules builder lines).outcome = .error error) :
    ∃ line ∈ lines, LineFault line.number error := by
  induction lines generalizing builder with
  | nil => cases h
  | cons line rest ih =>
    rcases Logged.outcome_bind_eq_error.1 h with failed | ⟨event, -, h⟩
    · exact ⟨line, by simp, LineEvent.ofLine_faults failed⟩
    · rcases Logged.outcome_bind_eq_error.1 h with failed | ⟨_, -, h⟩
      · cases failed
      · rcases Logged.outcome_bind_eq_error.1 h with failed | ⟨entries, -, h⟩
        · exact ⟨line, by simp, Builder.apply_faults failed⟩
        · rcases Logged.outcome_bind_eq_error.1 h with failed | ⟨later, -, h⟩
          · obtain ⟨line, mem, fault⟩ := ih failed
            exact ⟨line, List.mem_cons_of_mem _ mem, fault⟩
          · cases h

/-- Lines that are not built have one that something is wrong with. -/
theorem ofLines_faults {lines : List SourceLine} {error : CompileError}
    (h : (ofLines rules lines).outcome = .error error) :
    ∃ line ∈ lines, LineFault line.number error :=
  ofLinesFrom_faults h

end Built
end BoardSchema
