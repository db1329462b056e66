import BoardSchema.Proofs.Bits.Window
import Mathlib.Order.Bounds.Defs
/-!
Aligning words to powers of two. A mask gives the next multiple of the alignment, the least one that
is not below the value, and there is a word for it unless it is 2 ^ 64.
-/
namespace BoardSchema.Bits

/-- A number is the least multiple of an alignment that is not below a value. -/
def NextMultiple (alignment value : Nat) (multiple : Nat) : Prop :=
  IsLeast {multiple | alignment ∣ multiple ∧ value ≤ multiple} multiple

/-- Why a value cannot be aligned: the alignment is no power of two, or the next multiple is the
first number that is no word. -/
inductive Unaligned (value alignment : UInt64) : BitError → Prop
  | notPowerOfTwo (other : ¬alignment.toNat.isPowerOfTwo) :
      Unaligned value alignment (.alignmentNotPowerOfTwo alignment)
  | overflow (power : alignment.toNat.isPowerOfTwo)
      (outside : NextMultiple alignment.toNat value.toNat (2 ^ 64)) :
      Unaligned value alignment (.overflow value alignment)

/-! ## Multiples -/

namespace NextMultiple

variable {alignment value multiple other : Nat}

theorem unique (next : NextMultiple alignment value multiple)
    (again : NextMultiple alignment value other) : multiple = other :=
  Nat.le_antisymm (next.2 again.1) (again.2 next.1)

theorem of_roundUp (positive : 0 < alignment) :
    NextMultiple alignment value ((value + (alignment - 1)) / alignment * alignment) := by
  refine ⟨⟨Nat.dvd_mul_left .., ?_⟩, ?_⟩
  · have above := Nat.lt_div_mul_add (a := value + (alignment - 1)) positive
    omega
  · rintro multiple ⟨⟨count, rfl⟩, reaches⟩
    -- Less than one alignment more than the multiple is not divided more often than it.
    have below : value + (alignment - 1) < (count + 1) * alignment := by
      rw [Nat.succ_mul, Nat.mul_comm count]
      omega
    rw [Nat.mul_comm alignment]
    exact Nat.mul_le_mul_right _ (Nat.le_of_lt_succ ((Nat.div_lt_iff_lt_mul positive).2 below))

theorem lt_add (positive : 0 < alignment) (next : NextMultiple alignment value multiple) :
    multiple < value + alignment := by
  rw [next.unique (of_roundUp positive)]
  have below := Nat.div_mul_le_self (value + (alignment - 1)) alignment
  omega

theorem eq_value_iff (next : NextMultiple alignment value multiple) :
    multiple = value ↔ alignment ∣ value := by
  constructor
  · rintro rfl
    exact next.1.1
  · exact fun aligned => Nat.le_antisymm (next.2 ⟨aligned, Nat.le_refl value⟩) next.1.2

/-- A multiple is in front of a later one by a whole alignment, so the sum in front of the division
stays below a bound just if the next multiple does. -/
theorem lt_iff {bound : Nat} (positive : 0 < alignment) (divides : alignment ∣ bound)
    (next : NextMultiple alignment value multiple) :
    multiple < bound ↔ value + (alignment - 1) < bound := by
  constructor
  · intro below
    have apart := Nat.le_of_dvd (Nat.sub_pos_of_lt below) (Nat.dvd_sub divides next.1.1)
    have reaches := next.1.2
    omega
  · intro below
    rw [next.unique (of_roundUp positive)]
    exact Nat.lt_of_le_of_lt (Nat.div_mul_le_self ..) below

theorem le_of_dvd {bound : Nat} (divides : alignment ∣ bound) (below : value ≤ bound)
    (next : NextMultiple alignment value multiple) : multiple ≤ bound :=
  next.2 ⟨divides, below⟩

end NextMultiple

/-! ## Words -/

variable {value alignment : UInt64}

theorem isPowerOfTwo_iff {word : UInt64} : isPowerOfTwo word ↔ word.toNat.isPowerOfTwo := by
  by_cases zero : word = 0
  · subst zero
    exact iff_of_false (by decide) fun power => Nat.lt_irrefl 0 (Nat.pos_of_isPowerOfTwo power)
  · have nonzero : word.toNat ≠ 0 := fun same => zero (UInt64.toNat_inj.1 same)
    have one_le : (1 : UInt64) ≤ word := UInt64.le_iff_toNat_le.2 (Nat.pos_of_ne_zero nonzero)
    rw [← Nat.and_sub_one_eq_zero_iff_isPowerOfTwo nonzero]
    simp [isPowerOfTwo, zero, ← UInt64.toNat_inj, UInt64.toNat_sub_of_le _ _ one_le]

theorem toNat_mask (power : alignment.toNat.isPowerOfTwo) :
    (alignment - 1).toNat = alignment.toNat - 1 :=
  UInt64.toNat_sub_of_le _ _ (UInt64.le_iff_toNat_le.2 (Nat.pos_of_isPowerOfTwo power))

theorem dvd_word (power : alignment.toNat.isPowerOfTwo) : alignment.toNat ∣ 2 ^ 64 := by
  have below := alignment.toNat_lt
  obtain ⟨exponent, shape⟩ := power
  rw [shape] at below ⊢
  exact Nat.pow_dvd_pow 2 (Nat.le_of_lt ((Nat.pow_lt_pow_iff_right (by decide)).1 below))

/-- Clearing the bits below a power of two rounds down to a multiple of it. -/
theorem toNat_and_not_mask (power : alignment.toNat.isPowerOfTwo) (sum : UInt64) :
    (sum &&& ~~~(alignment - 1)).toNat = sum.toNat / alignment.toNat * alignment.toNat := by
  have mask := toNat_mask power
  have mask_lt : (alignment - 1).toNat < 2 ^ 64 := UInt64.toNat_lt _
  have complement : (~~~(alignment - 1)).toNat = 2 ^ 64 - ((alignment - 1).toNat + 1) := by
    rw [UInt64.toNat_not, UInt64.size]
    omega
  obtain ⟨exponent, shape⟩ := power
  refine Nat.eq_of_testBit_eq fun position => ?_
  rw [UInt64.toNat_and, Nat.testBit_and, complement, Nat.testBit_two_pow_sub_succ mask_lt, mask,
    shape, Nat.testBit_two_pow_sub_one, Nat.testBit_mul_two_pow, Nat.testBit_div_two_pow]
  by_cases low : position < exponent
  · simp [low, Nat.not_le.2 low]
  · have high : exponent ≤ position := Nat.le_of_not_lt low
    rw [Nat.sub_add_cancel high]
    by_cases inside : position < 64
    · simp [low, high, inside]
    · have clear : sum.toNat.testBit position = false :=
        Nat.testBit_lt_two_pow (Nat.lt_of_lt_of_le sum.toNat_lt
          (Nat.pow_le_pow_right (by decide) (Nat.le_of_not_lt inside)))
      simp [clear]

theorem alignUp_of_not (other : ¬alignment.toNat.isPowerOfTwo) :
    alignUp value alignment = .error (.alignmentNotPowerOfTwo alignment) :=
  if_neg (mt isPowerOfTwo_iff.1 other)

theorem exists_alignUp {multiple : Nat} (power : alignment.toNat.isPowerOfTwo)
    (next : NextMultiple alignment.toNat value.toNat multiple) (fits : multiple < 2 ^ 64) :
    ∃ aligned, alignUp value alignment = .ok aligned ∧ aligned.toNat = multiple := by
  have positive := Nat.pos_of_isPowerOfTwo power
  have no_carry := (next.lt_iff positive (dvd_word power)).1 fits
  rw [← toNat_mask power] at no_carry
  refine ⟨(value + (alignment - 1)) &&& ~~~(alignment - 1), ?_, ?_⟩
  · rw [alignUp, if_pos (isPowerOfTwo_iff.2 power)]
    exact if_pos no_carry
  · rw [toNat_and_not_mask power, UInt64.toNat_add, Nat.mod_eq_of_lt no_carry, toNat_mask power]
    exact (NextMultiple.of_roundUp positive).unique next

theorem alignUp_overflow (power : alignment.toNat.isPowerOfTwo)
    (outside : NextMultiple alignment.toNat value.toNat (2 ^ 64)) :
    alignUp value alignment = .error (.overflow value alignment) := by
  have carry := (outside.lt_iff (Nat.pos_of_isPowerOfTwo power) (dvd_word power)).not.1
    (Nat.lt_irrefl _)
  rw [← toNat_mask power] at carry
  rw [alignUp, if_pos (isPowerOfTwo_iff.2 power)]
  exact if_neg carry

theorem alignUp_eq_error_iff {error : BitError} :
    alignUp value alignment = .error error ↔ Unaligned value alignment error := by
  constructor
  · intro refused
    by_cases power : alignment.toNat.isPowerOfTwo
    · have next : NextMultiple alignment.toNat value.toNat _ :=
        .of_roundUp (Nat.pos_of_isPowerOfTwo power)
      rcases Nat.lt_or_eq_of_le (next.le_of_dvd (dvd_word power) (Nat.le_of_lt value.toNat_lt))
        with fits | outside
      · obtain ⟨aligned, success, -⟩ := exists_alignUp power next fits
        cases success.symm.trans refused
      · rw [outside] at next
        cases (alignUp_overflow power next).symm.trans refused
        exact .overflow power next
    · cases (alignUp_of_not power).symm.trans refused
      exact .notPowerOfTwo power
  · rintro (other | ⟨power, outside⟩)
    · exact alignUp_of_not other
    · exact alignUp_overflow power outside

theorem paddingNeeded_eq_error_iff {error : BitError} :
    paddingNeeded value alignment = .error error ↔ Unaligned value alignment error := by
  rw [← alignUp_eq_error_iff, paddingNeeded]
  cases alignUp value alignment <;> simp [Except.map]

/-- What is needed up to the next multiple is less than one alignment. -/
theorem paddingNeeded_eq_ok {aligned : UInt64} (positive : 0 < alignment.toNat)
    (next : NextMultiple alignment.toNat value.toNat aligned.toNat)
    (success : alignUp value alignment = .ok aligned) :
    ∃ padding, paddingNeeded value alignment = .ok padding ∧
      value.toNat + padding.toNat = aligned.toNat ∧ padding < alignment := by
  have above : value ≤ aligned := UInt64.le_iff_toNat_le.2 next.1.2
  have difference : (aligned - value).toNat = aligned.toNat - value.toNat :=
    UInt64.toNat_sub_of_le _ _ above
  have below := next.lt_add positive
  refine ⟨aligned - value, ?_, ?_, ?_⟩
  · rw [paddingNeeded, success]
    rfl
  · rw [difference]
    exact Nat.add_sub_cancel' next.1.2
  · rw [UInt64.lt_iff_toNat_lt, difference]
    omega

/-- A word is aligned to a power of two at the least multiple that is not below it, which is the
word itself if it is one, and the padding is the way there. Both are refused for an alignment that
is no power of two, and where the next multiple is no word, which is the case only for 2 ^ 64. -/
theorem alignUp_exact (value alignment : UInt64) :
    (∀ error, alignUp value alignment = .error error ↔ Unaligned value alignment error) ∧
    (∀ error, paddingNeeded value alignment = .error error ↔ Unaligned value alignment error) ∧
    (alignment.toNat.isPowerOfTwo →
      ∃ multiple, NextMultiple alignment.toNat value.toNat multiple ∧ multiple ≤ 2 ^ 64 ∧
        (multiple = value.toNat ↔ alignment.toNat ∣ value.toNat) ∧
        (multiple < 2 ^ 64 → ∃ aligned padding,
          alignUp value alignment = .ok aligned ∧ aligned.toNat = multiple ∧
          paddingNeeded value alignment = .ok padding ∧
          value.toNat + padding.toNat = multiple ∧ padding < alignment ∧
          (padding = 0 ↔ alignment.toNat ∣ value.toNat))) := by
  refine ⟨fun _ => alignUp_eq_error_iff, fun _ => paddingNeeded_eq_error_iff, fun power => ?_⟩
  have positive := Nat.pos_of_isPowerOfTwo power
  have next : NextMultiple alignment.toNat value.toNat _ := .of_roundUp positive
  refine ⟨_, next, next.le_of_dvd (dvd_word power) (Nat.le_of_lt value.toNat_lt),
    next.eq_value_iff, fun fits => ?_⟩
  obtain ⟨aligned, success, same⟩ := exists_alignUp power next fits
  rw [← same] at next ⊢
  obtain ⟨padding, needed, sum, small⟩ := paddingNeeded_eq_ok positive next success
  refine ⟨aligned, padding, success, rfl, needed, sum, small, ?_⟩
  rw [← next.eq_value_iff, ← UInt64.toNat_inj]
  change padding.toNat = 0 ↔ _
  omega

/-- The next page of 4096 bytes, and a value in what would be the page behind the last. -/
theorem page_exact :
    (∃ aligned padding, alignUp 0x1001 0x1000 = .ok aligned ∧ aligned.toNat = 0x2000 ∧
      paddingNeeded 0x1001 0x1000 = .ok padding ∧ padding.toNat = 0xfff) ∧
    alignUp 0xfffffffffffff001 0x1000 = .error (.overflow 0xfffffffffffff001 0x1000) ∧
    paddingNeeded 1 0 = .error (.alignmentNotPowerOfTwo 0) := by
  have power : (0x1000 : UInt64).toNat.isPowerOfTwo := ⟨12, rfl⟩
  obtain ⟨-, -, page⟩ := alignUp_exact 0x1001 0x1000
  obtain ⟨refused, -, -⟩ := alignUp_exact 0xfffffffffffff001 0x1000
  obtain ⟨-, refused_zero, -⟩ := alignUp_exact 1 0
  refine ⟨?_, (refused _).2 (.overflow power (.of_roundUp (by decide))),
    (refused_zero _).2 (.notPowerOfTwo (by decide))⟩
  obtain ⟨multiple, next, -, -, fits⟩ := page power
  obtain rfl : multiple = 0x2000 := next.unique (.of_roundUp (by decide))
  obtain ⟨aligned, padding, success, same, needed, sum, -⟩ := fits (by decide)
  refine ⟨aligned, padding, success, same, needed, ?_⟩
  exact Nat.add_left_cancel (sum.trans (rfl : 0x2000 = 0x1001 + 0xfff))

end BoardSchema.Bits
