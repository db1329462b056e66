import BoardSchema.Bits
import Mathlib.Tactic.Ring
/-!
Bit windows as arithmetic on the number that a buffer stands for: a window is read by a division and
a remainder, and writing a window changes its bits and no others.
-/
namespace BoardSchema.Bits

/-- The bits of a buffer are those of its number. -/
theorem testBit_toNat (buffer : Bytes) (position : Nat) :
    (toNat buffer).testBit position = bitAt buffer position := by
  induction buffer generalizing position with
  | nil => simp [toNat, bitAt]
  | cons byte rest ih =>
    have low : byte.toNat < 2 ^ 8 := byte.toNat_lt
    have split : toNat (byte :: rest) = 2 ^ 8 * toNat rest + byte.toNat := by
      rw [toNat]
      omega
    rw [split, Nat.testBit_two_pow_mul_add _ low]
    by_cases first : position < 8
    · simp [first, bitAt, Nat.div_eq_of_lt first, Nat.mod_eq_of_lt first]
    · obtain ⟨later, rfl⟩ : ∃ later, position = later + 8 := ⟨position - 8, by omega⟩
      rw [if_neg first, Nat.add_sub_cancel, ih]
      simp [bitAt, Nat.add_div_right]

theorem window_eq (buffer : Bytes) (start length : Nat) :
    window buffer start length = toNat buffer / 2 ^ start % 2 ^ length := by
  induction length with
  | zero => simp [window, Nat.mod_one]
  | succ length ih =>
    have top : (toNat buffer / 2 ^ start).testBit length = bitAt buffer (start + length) := by
      rw [Nat.testBit_div_two_pow, Nat.add_comm, testBit_toNat]
    rw [window, ih, ← top, Nat.pow_succ, Nat.mod_mul, Nat.one_shiftLeft]
    congr 1
    rw [Nat.testBit_eq_decide_div_mod_eq]
    rcases Nat.mod_two_eq_zero_or_one (toNat buffer / 2 ^ start / 2 ^ length) with bit | bit <;>
      simp [bit]

theorem checkWindow_eq_ok_iff {buffer : Bytes} {start length : Nat} :
    checkWindow buffer start length = .ok () ↔
      length ≤ 64 ∧ start + length ≤ buffer.length * 8 := by
  unfold checkWindow
  split
  · simp; omega
  · split
    · simp; omega
    · simp; omega

/-- A window inside the buffer that is not too wide can be read. -/
theorem read_eq_ok {buffer : Bytes} {start length : Nat} (narrow : length ≤ 64)
    (inside : start + length ≤ buffer.length * 8) :
    read buffer start length = .ok (toNat buffer / 2 ^ start % 2 ^ length) := by
  rw [read, checkWindow_eq_ok_iff.2 ⟨narrow, inside⟩, window_eq]
  rfl

/-! ## Writing -/

theorem testBit_of_le (byte : UInt8) {position : Nat} (outside : 8 ≤ position) :
    byte.toNat.testBit position = false := by
  refine Nat.testBit_lt_two_pow (Nat.lt_of_lt_of_le byte.toNat_lt ?_)
  exact Nat.pow_le_pow_right (by decide) outside

theorem testBit_not (byte : UInt8) {position : Nat} (inside : position < 8) :
    (~~~byte).toNat.testBit position = !byte.toNat.testBit position := by
  have complement : (~~~byte).toNat = 2 ^ 8 - (byte.toNat + 1) := by
    rw [UInt8.toNat_not, UInt8.size]
    omega
  rw [complement, Nat.testBit_two_pow_sub_succ byte.toNat_lt]
  simp [inside]

theorem testBit_mask {index : Nat} (inside : index < 8) (position : Nat) :
    ((1 : UInt8) <<< UInt8.ofNat index).toNat.testBit position = decide (position = index) := by
  have narrow : index % 256 = index := by omega
  have fits : 2 ^ index < 2 ^ 8 := Nat.pow_lt_pow_right (by decide) inside
  have mask : ((1 : UInt8) <<< UInt8.ofNat index).toNat = 2 ^ index := by
    rw [UInt8.toNat_shiftLeft, UInt8.toNat_ofNat', UInt8.toNat_one, narrow,
      Nat.mod_eq_of_lt inside, Nat.one_shiftLeft, Nat.mod_eq_of_lt fits]
  rw [mask, Nat.testBit_two_pow, decide_eq_decide]
  exact eq_comm

theorem testBit_withBit (byte : UInt8) {index : Nat} (inside : index < 8) (bit : Bool)
    (position : Nat) : (withBit byte index bit).toNat.testBit position =
      if position = index then bit else byte.toNat.testBit position := by
  have mask := testBit_mask inside position
  unfold withBit
  generalize (1 : UInt8) <<< UInt8.ofNat index = chosen at mask
  cases bit with
  | true =>
    rw [if_pos rfl, UInt8.toNat_or, Nat.testBit_or, mask]
    by_cases here : position = index <;> simp [here]
  | false =>
    rw [if_neg Bool.false_ne_true, UInt8.toNat_and, Nat.testBit_and]
    by_cases below : position < 8
    · rw [testBit_not chosen below, mask]
      by_cases here : position = index <;> simp [here]
    · have outside := testBit_of_le byte (Nat.le_of_not_lt below)
      simp [outside]

theorem bitAt_setBit {buffer : Bytes} {position : Nat} (inside : position < buffer.length * 8)
    (bit : Bool) (other : Nat) : bitAt (setBit buffer position bit) other =
      if other = position then bit else bitAt buffer other := by
  have byte_inside : position / 8 < buffer.length := by omega
  have index_inside : position % 8 < 8 := Nat.mod_lt _ (by decide)
  unfold bitAt setBit
  rw [List.getD_eq_getElem?_getD, List.getD_eq_getElem?_getD, List.getElem?_modify]
  by_cases same : position / 8 = other / 8
  · have there : other / 8 < buffer.length := by omega
    have position_eq : other = position ↔ other % 8 = position % 8 := by omega
    simp [same, there, testBit_withBit _ index_inside, position_eq]
  · have different : other ≠ position := by
      rintro rfl
      exact same rfl
    simp [same, different]

/-- Writing a window puts the low bits of the value there and leaves all other bits alone. -/
theorem bitAt_setWindow {buffer : Bytes} {start length : Nat} (value : Nat)
    (inside : start + length ≤ buffer.length * 8) (position : Nat) :
    bitAt (setWindow buffer start value length) position =
      if start ≤ position ∧ position < start + length then value.testBit (position - start)
      else bitAt buffer position := by
  induction length with
  | zero =>
    have outside : ¬(start ≤ position ∧ position < start + 0) := by omega
    rw [if_neg outside, setWindow]
  | succ length ih =>
    have top_inside : start + length < (setWindow buffer start value length).length * 8 := by
      rw [length_setWindow]
      omega
    rw [setWindow, bitAt_setBit top_inside, ih (by omega)]
    by_cases top : position = start + length
    · simp [top]
    · have range : start ≤ position ∧ position < start + length ↔
          start ≤ position ∧ position < start + (length + 1) := by omega
      simp only [top, ↓reduceIte, range]

/-- Writing a window replaces that part of the number. -/
theorem toNat_setWindow {buffer : Bytes} {start length : Nat} (value : Nat)
    (inside : start + length ≤ buffer.length * 8) :
    toNat (setWindow buffer start value length) =
      toNat buffer / 2 ^ (start + length) * 2 ^ (start + length) + value % 2 ^ length * 2 ^ start +
        toNat buffer % 2 ^ start := by
  have low : toNat buffer % 2 ^ start < 2 ^ start := Nat.mod_lt _ (Nat.two_pow_pos start)
  have middle : value % 2 ^ length < 2 ^ length := Nat.mod_lt _ (Nat.two_pow_pos length)
  have nested : toNat buffer / 2 ^ (start + length) * 2 ^ (start + length) +
      value % 2 ^ length * 2 ^ start + toNat buffer % 2 ^ start =
        2 ^ start * (2 ^ length * (toNat buffer / 2 ^ (start + length)) + value % 2 ^ length) +
          toNat buffer % 2 ^ start := by
    rw [Nat.pow_add]
    ring
  refine Nat.eq_of_testBit_eq fun position => ?_
  rw [nested, testBit_toNat, bitAt_setWindow _ inside, Nat.testBit_two_pow_mul_add _ low]
  by_cases below : position < start
  · have outside : ¬start ≤ position := Nat.not_le.2 below
    simp [below, outside, testBit_toNat]
  · rw [if_neg below, Nat.testBit_two_pow_mul_add _ middle]
    by_cases here : position - start < length
    · have behind : start ≤ position ∧ position < start + length := by omega
      simp [here, behind]
    · have beyond : ¬(start ≤ position ∧ position < start + length) := by omega
      have back : position - start - length + (start + length) = position := by omega
      simp [here, beyond, Nat.testBit_div_two_pow, back, testBit_toNat]

/-- Windows that are written in order, each behind the one before, fill a buffer from below. -/
theorem toNat_setWindow_behind {buffer : Bytes} {start length : Nat} (value : Nat)
    (inside : start + length ≤ buffer.length * 8)
    (written : toNat buffer = value % 2 ^ start) :
    toNat (setWindow buffer start (value / 2 ^ start % 2 ^ length) length) =
      value % 2 ^ (start + length) := by
  have small : value % 2 ^ start < 2 ^ (start + length) :=
    Nat.lt_of_lt_of_le (Nat.mod_lt _ (Nat.two_pow_pos start))
      (Nat.pow_le_pow_right (by decide) (Nat.le_add_right start length))
  rw [toNat_setWindow _ inside, written, Nat.div_eq_of_lt small, Nat.mod_mod, Nat.mod_mod,
    Nat.pow_add, Nat.mod_mul]
  ring

end BoardSchema.Bits
