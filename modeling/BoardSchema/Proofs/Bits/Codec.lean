import BoardSchema.Proofs.Bits.Window
/-!
Reading and writing bit windows as arithmetic on the number of a buffer: when a window is refused,
which number is read, and which number a write leaves. Writing is also told as it happens in place,
bit by bit, where a window that is refused leaves the buffer alone.
-/
namespace BoardSchema.Bits

/-- Why a window is refused. Its width is judged before its place. -/
inductive Refused (buffer : Bytes) (start length : Nat) : BitError → Prop
  | tooWide (wide : 64 < length) : Refused buffer start length (.tooWide length)
  | outOfBounds (narrow : length ≤ 64) (outside : buffer.length * 8 < start + length) :
    Refused buffer start length (.outOfBounds start length (buffer.length * 8))

/-- A window that is not too wide and lies in the buffer. -/
def Fits (buffer : Bytes) (start length : Nat) : Prop :=
  length ≤ 64 ∧ start + length ≤ buffer.length * 8

/-- Writing in place: the window is checked, and then its bits are set one after the other. -/
def store (start length value : Nat) : ExceptT BitError (StateM Bytes) Unit := do
  let buffer ← get
  match checkWindow buffer start length with
  | .error error => throw error
  | .ok () =>
    forM (List.range length) fun index =>
      modify fun buffer => setBit buffer (start + index) (value.testBit index)

variable {buffer : Bytes} {start length : Nat}

theorem checkWindow_eq_error_iff {error : BitError} :
    checkWindow buffer start length = .error error ↔ Refused buffer start length error := by
  constructor
  · intro h
    unfold checkWindow at h
    split at h
    · next wide =>
      cases h
      exact .tooWide wide
    · next narrow =>
      split at h
      · next outside =>
        cases h
        exact .outOfBounds (Nat.le_of_not_lt narrow) outside
      · cases h
  · rintro (wide | ⟨narrow, outside⟩)
    · exact if_pos wide
    · rw [checkWindow, if_neg (Nat.not_lt.2 narrow), if_pos outside]

/-- Only the length of a buffer decides which windows it has. -/
theorem checkWindow_congr {other : Bytes} (same : other.length = buffer.length) :
    checkWindow other start length = checkWindow buffer start length := by
  rw [checkWindow, checkWindow, same]

/-- A window fits just if there is no reason to refuse it. -/
theorem fits_iff : Fits buffer start length ↔ ∀ error, ¬Refused buffer start length error := by
  rw [Fits, ← checkWindow_eq_ok_iff]
  simp only [← checkWindow_eq_error_iff]
  cases checkWindow buffer start length <;> simp

theorem read_eq_error_iff {error : BitError} :
    read buffer start length = .error error ↔ Refused buffer start length error := by
  rw [← checkWindow_eq_error_iff, read]
  cases checkWindow buffer start length <;> simp [bind, Except.bind, pure, Except.pure]

theorem write_eq_error_iff {value : Nat} {error : BitError} :
    write buffer start length value = .error error ↔ Refused buffer start length error := by
  rw [← checkWindow_eq_error_iff, write]
  cases checkWindow buffer start length <;> simp [bind, Except.bind, pure, Except.pure]

theorem write_eq_ok (value : Nat) (fits : Fits buffer start length) :
    write buffer start length value = .ok (setWindow buffer start value length) := by
  rw [write, checkWindow_eq_ok_iff.2 fits]
  rfl

/-! ## In place -/

theorem run_setBits (buffer : Bytes) (start length value : Nat) :
    (forM (List.range length) fun index => modify fun buffer =>
      setBit buffer (start + index) (value.testBit index) :
      ExceptT BitError (StateM Bytes) Unit).run.run buffer =
        (.ok (), setWindow buffer start value length) := by
  induction length with
  | zero => rfl
  | succ length ih =>
    rw [List.range_succ, List.forM_append, ExceptT.run_bind, StateT.run_bind, ih]
    rfl

/-- Writing in place leaves what `write` gives, and the buffer as it was where it gives nothing. -/
theorem run_store (buffer : Bytes) (start length value : Nat) :
    (store start length value).run.run buffer =
      match write buffer start length value with
      | .ok written => (.ok (), written)
      | .error error => (.error error, buffer) := by
  unfold store write
  rw [ExceptT.run_bind, StateT.run_bind]
  change StateT.run (ExceptT.run (match checkWindow buffer start length with
    | .error error => throw error
    | .ok () => _)) buffer = _
  cases checkWindow buffer start length with
  | error error => rfl
  | ok => exact run_setBits buffer start length value

/-! ## Windows after a write -/

theorem window_setWindow (value : Nat) (inside : start + length ≤ buffer.length * 8) :
    window (setWindow buffer start value length) start length = value % 2 ^ length := by
  refine Nat.eq_of_testBit_eq fun position => ?_
  rw [window_eq, Nat.testBit_mod_two_pow, Nat.testBit_mod_two_pow, Nat.testBit_div_two_pow,
    testBit_toNat, bitAt_setWindow _ inside]
  by_cases here : position < length
  · have there : start ≤ position + start ∧ position + start < start + length := by omega
    simp [here, there]
  · simp [here]

/-- Windows that do not overlap do not see each other. -/
theorem window_setWindow_of_disjoint (value : Nat) (inside : start + length ≤ buffer.length * 8)
    {other width : Nat} (apart : other + width ≤ start ∨ start + length ≤ other) :
    window (setWindow buffer start value length) other width = window buffer other width := by
  induction width with
  | zero => rfl
  | succ width ih =>
    have outside : ¬(start ≤ other + width ∧ other + width < start + length) := by omega
    rw [window, window, ih (by omega), bitAt_setWindow _ inside, if_neg outside]

/-- A window is refused for its width or its place, and then a write leaves the buffer alone. Any
other window is read as a part of the number of the buffer, and a write replaces that part, so that
it is read back, and no window beside it changes. -/
theorem read_write_exact (buffer : Bytes) (start length value : Nat) :
    (∀ error, read buffer start length = .error error ↔ Refused buffer start length error) ∧
    (∀ error, write buffer start length value = .error error ↔
      Refused buffer start length error) ∧
    (∀ error, Refused buffer start length error →
      (store start length value).run.run buffer = (.error error, buffer)) ∧
    (Fits buffer start length ↔ ∀ error, ¬Refused buffer start length error) ∧
    (Fits buffer start length →
      read buffer start length = .ok (toNat buffer / 2 ^ start % 2 ^ length) ∧
      ∃ written, write buffer start length value = .ok written ∧
        (store start length value).run.run buffer = (.ok (), written) ∧
        written.length = buffer.length ∧
        toNat written = toNat buffer / 2 ^ (start + length) * 2 ^ (start + length) +
          value % 2 ^ length * 2 ^ start + toNat buffer % 2 ^ start ∧
        read written start length = .ok (value % 2 ^ length) ∧
        ∀ other width, other + width ≤ start ∨ start + length ≤ other →
          read written other width = read buffer other width) := by
  refine ⟨fun _ => read_eq_error_iff, fun _ => write_eq_error_iff, fun error refused => ?_,
    fits_iff, fun fits => ⟨read_eq_ok fits.1 fits.2, setWindow buffer start value length,
      write_eq_ok value fits, ?_, length_setWindow .., toNat_setWindow value fits.2, ?_,
      fun other width apart => ?_⟩⟩
  · rw [run_store, write_eq_error_iff.2 refused]
  · rw [run_store, write_eq_ok value fits]
  · have inside : start + length ≤ (setWindow buffer start value length).length * 8 := by
      rw [length_setWindow]
      exact fits.2
    rw [read_eq_ok fits.1 inside, ← window_eq, window_setWindow value fits.2]
  · rw [read, read, checkWindow_congr (length_setWindow ..),
      window_setWindow_of_disjoint value fits.2 apart]

/-- A window over the border of two bytes, and one that starts at the last position of a word. -/
theorem straddlingWindow_exact : Fits [0xa5, 0x03] 6 4 ∧ read [0xa5, 0x03] 6 4 = .ok 14 ∧
    (∃ written, write [0xa5, 0x03] 6 4 5 = .ok written ∧ toNat written = 0x165 ∧
      read written 6 4 = .ok 5 ∧ read written 0 6 = read [0xa5, 0x03] 0 6) ∧
    (store 0xffffffffffffffff 1 1).run.run [0xa5, 0x03] =
      (.error (.outOfBounds 0xffffffffffffffff 1 16), [0xa5, 0x03]) := by
  have fits : Fits [0xa5, 0x03] 6 4 := by unfold Fits; decide
  obtain ⟨-, -, -, -, exact_inside⟩ := read_write_exact [0xa5, 0x03] 6 4 5
  obtain ⟨-, -, refusal, -⟩ := read_write_exact [0xa5, 0x03] 0xffffffffffffffff 1 1
  obtain ⟨reads, written, writes, -, -, number, back, apart⟩ := exact_inside fits
  refine ⟨fits, reads, ⟨written, writes, number, back, apart 0 6 (by decide)⟩, refusal _ ?_⟩
  exact .outOfBounds (by decide) (by decide)

end BoardSchema.Bits
