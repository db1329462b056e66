import BoardSchema.Proofs.Layout.Names
import BoardSchema.Proofs.Text.Replacing
import BoardSchema.Template.Expansion
/-!
Putting arguments into a text. The arguments are put in one after the other, the last one first, so
an argument that is put in can make a placeholder of a lower number, alone or with what stands around
it, and that one is replaced in turn. Where this does not happen, all arguments could have been put
in at once.
-/
namespace BoardSchema.Template
open Text

/-- A piece of a text: the placeholder of the argument at an index, or a character. -/
inductive Piece where
  | hole (index : Nat)
  | char (c : Char)
  deriving DecidableEq

def Piece.text (fill : Nat → List Char) : Piece → List Char
  | hole index => fill index
  | char c => [c]

/-- Which of `count` arguments has its placeholder at the start of a text. -/
def holeAt? (count : Nat) (text : List Char) : Option Nat :=
  (List.range count).find? fun index => (placeholder index).toList.isPrefixOf text

/-- The pieces of a text from left to right. `inside` counts the characters of a placeholder that
are still to be passed. -/
def pieces (count : Nat) : (inside : Nat) → List Char → List Piece
  | _, [] => []
  | inside + 1, _ :: rest => pieces count inside rest
  | 0, c :: rest =>
    match holeAt? count (c :: rest) with
    | some index => .hole index :: pieces count ((placeholder index).length - 1) rest
    | none => .char c :: pieces count 0 rest

/-- What is put in for a placeholder: its argument, or else the placeholder itself. -/
def argument (args : List String) (index : Nat) : List Char :=
  (args.getD index (placeholder index)).toList

/-- Puts all arguments into a text in one pass: what is put in is not looked at again. -/
def putAtOnce (text : String) (args : List String) : String :=
  String.ofList ((pieces args.length 0 text.toList).flatMap (Piece.text (argument args)))

/-- The arguments with the first ones held back: their placeholders are put in for them. -/
def holdBack (first : Nat) (args : List String) : List String :=
  (List.range first).map placeholder ++ args.drop first

/-- Putting in the arguments behind an index makes no placeholder of that index, or none that would
be replaced by something else. -/
def Undisturbed (text : String) (args : List String) : Prop :=
  ∀ index (h : index < args.length), args[index] = placeholder index ∨
    occurrences (placeholder index).toList (putAtOnce text (holdBack (index + 1) args)).toList =
      occurrences (placeholder index).toList text.toList

variable {count index other : Nat} {args : List String} {rest : List Char}

/-! ## Placeholders -/

/-- A placeholder behind its first character. -/
def placeholderTail (index : Nat) : List Char := '(' :: (Nat.toDigits 10 (index + 1) ++ [')'])

theorem toList_placeholder (index : Nat) :
    (placeholder index).toList = '$' :: placeholderTail index := by
  simp [placeholder, placeholderTail]
  rfl

theorem dollar_not_mem (index : Nat) : '$' ∉ placeholderTail index := by
  simp only [placeholderTail, List.mem_cons, List.mem_append, List.not_mem_nil, or_false]
  rintro (h | h | h)
  · cases h
  · exact absurd (Nat.isDigit_of_mem_toDigits (by decide) (by decide) h) (by decide)
  · cases h

/-- At most one placeholder stands at a place: its number ends at the first closing bracket. -/
theorem placeholder_unique {text : List Char} (left : (placeholder index).toList <+: text)
    (right : (placeholder other).toList <+: text) : index = other := by
  have digits (n : Nat) : ∀ c ∈ Nat.toDigits 10 n, (c != ')') = true := by
    intro c hc
    rw [bne_iff_ne]
    rintro rfl
    exact absurd (Nat.isDigit_of_mem_toDigits (by decide) (by decide) hc) (by decide)
  have number (index : Nat) (rest : List Char) :
      (((placeholder index).toList ++ rest).drop 2).takeWhile (· != ')') =
        Nat.toDigits 10 (index + 1) := by
    have cut : (Nat.toDigits 10 (index + 1) ++ ')' :: rest).takeWhile (· != ')') = _ :=
      List.takeWhile_append_of_pos (digits (index + 1))
    simpa [toList_placeholder, placeholderTail] using cut
  obtain ⟨behind, rfl⟩ := left
  obtain ⟨behind', same⟩ := right
  have read : Nat.toDigits 10 (other + 1) = Nat.toDigits 10 (index + 1) := by
    rw [← number other behind', same, number]
  have value := congrArg (Nat.ofDigitChars 10 · 0) read
  simpa using value.symm

theorem placeholder_ne_nil (index : Nat) : (placeholder index).toList ≠ [] := by
  rw [toList_placeholder]
  exact List.cons_ne_nil _ _

theorem occurrences_placeholder (index other : Nat) (rest : List Char) :
    occurrences (placeholder index).toList ((placeholder other).toList ++ rest) =
      occurrences (placeholder index).toList rest + if other = index then 1 else 0 := by
  split
  · next same =>
    rw [same, toList_placeholder, occurrences_found (dollar_not_mem index)]
  · next ne =>
    have here : ¬(placeholder index).toList <+: (placeholder other).toList ++ rest := fun here =>
      ne (placeholder_unique (List.prefix_append _ _) here)
    rw [toList_placeholder index, toList_placeholder other, List.cons_append] at here ⊢
    rw [occurrences_cons, if_neg here, occurrences_skip (dollar_not_mem other)]

/-! ## Pieces -/

theorem holeAt?_placeholder (h : index < count) (rest : List Char) :
    holeAt? count ((placeholder index).toList ++ rest) = some index := by
  refine List.find?_range_eq_some.2 ⟨?_, List.mem_range.2 h, fun other before => ?_⟩
  · exact List.isPrefixOf_iff_prefix.2 (List.prefix_append _ _)
  · rw [Bool.not_eq_true', ← Bool.not_eq_true, List.isPrefixOf_iff_prefix]
    intro here
    exact Nat.ne_of_lt before (placeholder_unique here (List.prefix_append _ _))

theorem holeAt?_eq_none {text : List Char} :
    holeAt? count text = none ↔ ∀ index < count, ¬(placeholder index).toList <+: text := by
  simp [holeAt?, List.find?_eq_none, List.isPrefixOf_iff_prefix]

theorem pieces_inside (inside : Nat) (text : List Char) :
    pieces count inside text = pieces count 0 (text.drop inside) := by
  induction inside generalizing text with
  | zero => rfl
  | succ inside ih =>
    cases text with
    | nil => rfl
    | cons c rest => exact ih rest

theorem pieces_hole (h : index < count) (rest : List Char) :
    pieces count 0 ((placeholder index).toList ++ rest) = .hole index :: pieces count 0 rest := by
  have here := holeAt?_placeholder h rest
  have length : (placeholder index).length - 1 = (placeholderTail index).length := by
    rw [← String.length_toList, toList_placeholder, List.length_cons, Nat.add_sub_cancel]
  rw [toList_placeholder, List.cons_append] at here ⊢
  rw [pieces, here]
  show _ :: pieces count ((placeholder index).length - 1) _ = _
  rw [length, pieces_inside, List.drop_left]

theorem pieces_char {c : Char} (none : ∀ index < count, ¬(placeholder index).toList <+: c :: rest) :
    pieces count 0 (c :: rest) = .char c :: pieces count 0 rest := by
  rw [pieces, holeAt?_eq_none.2 none]

/-- A text is cut at the placeholders of some arguments, and into characters elsewhere. -/
theorem piecing {motive : List Char → Prop} (count : Nat) (nil : motive [])
    (hole : ∀ index < count, ∀ rest, motive rest → motive ((placeholder index).toList ++ rest))
    (char : ∀ c rest, (∀ index < count, ¬(placeholder index).toList <+: c :: rest) → motive rest →
      motive (c :: rest)) (text : List Char) : motive text := by
  induction size : text.length using Nat.strongRecOn generalizing text with
  | ind n ih =>
    subst size
    rcases text with _ | ⟨c, rest⟩
    · exact nil
    · by_cases none : ∀ index < count, ¬(placeholder index).toList <+: c :: rest
      · exact char c rest none (ih _ (Nat.lt_succ_self _) rest rfl)
      · simp only [not_forall, Decidable.not_not] at none
        obtain ⟨index, h, behind, whole⟩ := none
        rw [← whole] at ih ⊢
        have some := List.length_pos_iff.2 (placeholder_ne_nil index)
        exact hole index h behind (ih _ (by rw [List.length_append]; omega) behind rfl)

/-- Putting in nothing but the placeholders gives the text itself. -/
theorem flatMap_placeholder (count : Nat) (text : List Char) :
    (pieces count 0 text).flatMap (Piece.text fun index => (placeholder index).toList) = text := by
  induction text using piecing count with
  | nil => rfl
  | hole index h rest ih => rw [pieces_hole h, List.flatMap_cons, ih, Piece.text]
  | char c rest none ih => rw [pieces_char none, List.flatMap_cons, ih]; rfl

/-- The placeholders of an argument are where the text is cut for it. -/
theorem count_hole (h : index < count) (text : List Char) :
    (pieces count 0 text).count (.hole index) =
      occurrences (placeholder index).toList text := by
  induction text using piecing count with
  | nil => rw [toList_placeholder]; rfl
  | hole other hother rest ih =>
    rw [pieces_hole hother, List.count_cons, ih, occurrences_placeholder]
    simp [Piece.hole.injEq]
  | char c rest none ih =>
    rw [pieces_char none, List.count_cons, ih, occurrences_cons, if_neg (none index h)]
    rfl

/-! ## One argument after the other -/

variable {text : List Char} {first : Nat}

/-- Filling one more kind of hole exchanges its placeholders for the argument. -/
theorem swaps_fill {fill fill' : Nat → List Char} (held : fill index = (placeholder index).toList)
    (others : ∀ other, other ≠ index → fill' other = fill other) (parts : List Piece) :
    Swaps (placeholder index).toList (fill' index) (parts.count (.hole index))
      (parts.flatMap (Piece.text fill)) (parts.flatMap (Piece.text fill')) := by
  induction parts with
  | nil => exact .nil
  | cons part rest ih =>
    rw [List.flatMap_cons, List.flatMap_cons]
    rcases part with other | c
    · by_cases same : other = index
      · subst same
        rw [Piece.text, Piece.text, held, List.count_cons_self]
        exact .swap ih
      · rw [Piece.text, Piece.text, others other same,
          List.count_cons_of_ne (by simpa using same)]
        simpa using (Swaps.refl (fill other)).append ih
    · rw [List.count_cons_of_ne (by simp)]
      exact .same c ih

/-- Replacing the placeholders of one kind in a text exchanges those of its holes, and those that the
text has come to hold besides. -/
theorem swaps_replaceAll_fill {fill fill' : Nat → List Char}
    (held : fill index = (placeholder index).toList)
    (others : ∀ other, other ≠ index → fill' other = fill other) (before : List Char)
    (parts : List Piece) : ∃ more,
      occurrences (placeholder index).toList (before ++ parts.flatMap (Piece.text fill)) =
        more + parts.count (.hole index) ∧
      Swaps (placeholder index).toList (fill' index) more
        (before ++ parts.flatMap (Piece.text fill'))
        (replaceAll (placeholder index).toList (fill' index)
          (before ++ parts.flatMap (Piece.text fill))) := by
  induction parts generalizing before with
  | nil =>
    simp only [List.flatMap_nil, List.append_nil, List.count_nil, Nat.add_zero]
    refine ⟨_, rfl, ?_⟩
    rw [toList_placeholder]
    exact swaps_replaceAll (dollar_not_mem index) _ before
  | cons part rest ih =>
    rw [List.flatMap_cons, List.flatMap_cons]
    by_cases same : part = .hole index
    · -- What stands before the hole and what stands behind it are replaced apart.
      subst same
      obtain ⟨more, counted, swaps⟩ := ih []
      have own := dollar_not_mem index
      rw [toList_placeholder] at held counted swaps ⊢
      rw [Piece.text, Piece.text, held, occurrences_append_found own,
        replaceAll_append_found own, List.count_cons_self]
      rw [List.nil_append, List.nil_append] at swaps
      rw [List.nil_append] at counted
      refine ⟨occurrences ('$' :: placeholderTail index) before + more, by omega, ?_⟩
      exact (swaps_replaceAll own _ before).append
        (by simpa using (Swaps.refl (fill' index)).append swaps)
    · have alike : part.text fill' = part.text fill := by
        rcases part with other | c
        · exact others other fun h => same (h ▸ rfl)
        · rfl
      rw [alike, ← List.append_assoc, ← List.append_assoc, List.count_cons_of_ne same]
      exact ih (before ++ part.text fill)

/-! ## Arguments held back -/

theorem holdBack_zero (args : List String) : holdBack 0 args = args := rfl

theorem length_holdBack (h : first ≤ args.length) : (holdBack first args).length = args.length := by
  simp [holdBack, h]

theorem argument_holdBack (first : Nat) (args : List String) (index : Nat) :
    argument (holdBack first args) index =
      if index < first then (placeholder index).toList else argument args index := by
  unfold argument holdBack
  split
  · next held => simp [List.getElem?_append_left, held]
  · next free =>
    have behind : first ≤ index := Nat.le_of_not_lt free
    simp [List.getElem?_append_right, behind]

theorem argument_of_lt (h : index < args.length) : argument args index = args[index].toList := by
  simp [argument, h]

theorem toList_putAtOnce (text : String) (h : first ≤ args.length) :
    (putAtOnce text (holdBack first args)).toList =
      (pieces args.length 0 text.toList).flatMap
        (Piece.text (argument (holdBack first args))) := by
  rw [putAtOnce, String.toList_ofList, length_holdBack h]

/-- Placeholders that are put in for themselves change nothing. -/
theorem putAtOnce_holdBack_all (text : String) (args : List String) :
    putAtOnce text (holdBack args.length args) = text := by
  have all : argument (holdBack args.length args) = fun index => (placeholder index).toList := by
    funext index
    rw [argument_holdBack]
    split
    · rfl
    · next none => simp [argument, Nat.le_of_not_lt none]
  apply String.toList_injective
  rw [toList_putAtOnce text (Nat.le_refl _), all, flatMap_placeholder]

/-- Puts one argument into a text. -/
def putOne (argument : String × Nat) (text : List Char) : List Char :=
  replaceAll (placeholder argument.2).toList argument.1.toList text

theorem foldr_putOne_self {pairs : List (String × Nat)}
    (own : ∀ pair ∈ pairs, pair.1 = placeholder pair.2) (text : List Char) :
    pairs.foldr putOne text = text := by
  induction pairs with
  | nil => rfl
  | cons pair rest ih =>
    obtain ⟨here, own⟩ := List.forall_mem_cons.1 own
    rw [List.foldr_cons, ih own, putOne, here, toList_placeholder]
    exact (swaps_replaceAll (dollar_not_mem pair.2) _ text).eq_of_same.symm

theorem toList_substituteArgs_holdBack (text : String) (args : List String) (first : Nat) :
    (substituteArgs text (holdBack first args)).toList =
      ((args.drop first).zipIdx first).foldr putOne text.toList := by
  have own : ∀ pair ∈ ((List.range first).map placeholder).zipIdx, pair.1 = placeholder pair.2 := by
    rintro ⟨argument, index⟩ mem
    have found := List.mem_zipIdx_iff_getElem?.1 mem
    simp only [List.getElem?_map, Option.map_eq_some_iff, List.getElem?_eq_some_iff] at found
    obtain ⟨_, ⟨_, rfl⟩, rfl⟩ := found
    simp
  show (String.ofList (List.foldr putOne text.toList (holdBack first args).zipIdx)).toList = _
  rw [String.toList_ofList, holdBack, List.zipIdx_append, List.foldr_append]
  simpa using foldr_putOne_self own _

/-- The argument at an index is put in when all behind it are. -/
theorem toList_substituteArgs_step (text : String) (h : index < args.length) :
    (substituteArgs text (holdBack index args)).toList =
      replaceAll (placeholder index).toList args[index].toList
        (substituteArgs text (holdBack (index + 1) args)).toList := by
  rw [toList_substituteArgs_holdBack, toList_substituteArgs_holdBack, List.drop_eq_getElem_cons h]
  rfl

theorem substituteArgs_holdBack_all (text : String) (args : List String) :
    substituteArgs text (holdBack args.length args) = text := by
  apply String.toList_injective
  rw [toList_substituteArgs_holdBack, List.drop_length]
  rfl

/-- Where one more argument is put in, only its own holes are filled anew. -/
theorem argument_holdBack_step (h : index < args.length) :
    argument (holdBack (index + 1) args) index = (placeholder index).toList ∧
      argument (holdBack index args) index = args[index].toList ∧
      ∀ other, other ≠ index →
        argument (holdBack index args) other = argument (holdBack (index + 1) args) other := by
  refine ⟨?_, ?_, fun other ne => ?_⟩
  · simp [argument_holdBack]
  · simp [argument_holdBack, argument_of_lt h]
  · simp only [argument_holdBack, Nat.lt_succ_iff, Nat.le_iff_lt_or_eq, ne, or_false]

/-- Putting in one more argument exchanges its placeholders in the text. -/
theorem swaps_putAtOnce (text : String) (h : index < args.length) :
    Swaps (placeholder index).toList args[index].toList
      (occurrences (placeholder index).toList text.toList)
      (putAtOnce text (holdBack (index + 1) args)).toList
      (putAtOnce text (holdBack index args)).toList := by
  obtain ⟨held, filled, others⟩ := argument_holdBack_step h
  rw [toList_putAtOnce text h, toList_putAtOnce text (Nat.le_of_lt h), ← count_hole h, ← filled]
  exact swaps_fill held others _

/-- Replacing the placeholders of one more argument, where those behind it have been put in at
once. -/
theorem swaps_replaceAll_putAtOnce (text : String) (h : index < args.length) : ∃ more,
    occurrences (placeholder index).toList (putAtOnce text (holdBack (index + 1) args)).toList =
      more + occurrences (placeholder index).toList text.toList ∧
    Swaps (placeholder index).toList args[index].toList more
      (putAtOnce text (holdBack index args)).toList
      (replaceAll (placeholder index).toList args[index].toList
        (putAtOnce text (holdBack (index + 1) args)).toList) := by
  obtain ⟨held, filled, others⟩ := argument_holdBack_step h
  rw [toList_putAtOnce text h, toList_putAtOnce text (Nat.le_of_lt h), ← count_hole h text.toList,
    ← filled]
  simpa only [List.nil_append] using swaps_replaceAll_fill held others [] _

/-! ## When the order plays no part -/

/-- Where the arguments behind an index could have been put in at once, that one could as well
exactly if its placeholders are those of the text. -/
theorem step_iff {text : String} (h : index < args.length)
    (behind : substituteArgs text (holdBack (index + 1) args) =
      putAtOnce text (holdBack (index + 1) args)) :
    substituteArgs text (holdBack index args) = putAtOnce text (holdBack index args) ↔
      args[index] = placeholder index ∨
        occurrences (placeholder index).toList
            (putAtOnce text (holdBack (index + 1) args)).toList =
          occurrences (placeholder index).toList text.toList := by
  obtain ⟨more, counted, swaps⟩ := swaps_replaceAll_putAtOnce text h
  rw [← behind, ← toList_substituteArgs_step text h] at swaps
  calc substituteArgs text (holdBack index args) = putAtOnce text (holdBack index args)
    _ ↔ (putAtOnce text (holdBack index args)).toList =
        (substituteArgs text (holdBack index args)).toList := by
      rw [String.toList_inj, eq_comm]
    _ ↔ (placeholder index).toList = args[index].toList ∨ more = 0 := swaps.eq_iff
    _ ↔ _ := by
      rw [String.toList_inj, eq_comm, counted, Nat.add_eq_right]

theorem forall_eq_putAtOnce_iff (text : String) (args : List String) :
    (∀ first ≤ args.length,
      substituteArgs text (holdBack first args) = putAtOnce text (holdBack first args)) ↔
    Undisturbed text args := by
  constructor
  · intro all index h
    exact (step_iff h (all (index + 1) h)).1 (all index (Nat.le_of_lt h))
  · intro undisturbed first h
    induction h using Nat.decreasingInduction with
    | self => rw [substituteArgs_holdBack_all, putAtOnce_holdBack_all]
    | of_succ index h ih => exact (step_iff h ih).2 (undisturbed index h)

/-! ## Arguments without a dollar sign -/

/-- Replacing the placeholders of one argument leaves those of the others where they are. -/
theorem occurrences_le_replaceAll (ne : other ≠ index) (replacement text : List Char) :
    occurrences (placeholder other).toList text ≤
      occurrences (placeholder other).toList
        (replaceAll (placeholder index).toList replacement text) := by
  have ne_nil := placeholder_ne_nil index
  induction text using passing ne_nil with
  | nil => rw [replaceAll_nil]
  | found rest ih =>
    rw [occurrences_placeholder, if_neg ne.symm, replaceAll_found ne_nil]
    exact ih.trans (occurrences_le_append _ _ _)
  | char c rest here ih =>
    have kept (start : (placeholder other).toList <+: c :: rest) :
        (placeholder other).toList <+:
          c :: replaceAll (placeholder index).toList replacement rest := by
      obtain ⟨behind, whole⟩ := start
      rw [toList_placeholder, List.cons_append] at whole
      obtain ⟨rfl, rfl⟩ := List.cons.inj whole
      rw [toList_placeholder index, replaceAll_skip (dollar_not_mem other), toList_placeholder]
      exact ⟨_, rfl⟩
    rw [replaceAll_char ne_nil here, occurrences_cons, occurrences_cons]
    split
    · next start => rw [if_pos (kept start)]; exact Nat.add_le_add_right ih 1
    · exact Nat.le_add_right_of_le ih

/-- Each placeholder of the text is still there when its argument is put in. -/
theorem occurrences_le_substituteArgs (text : String) (behind : index < first)
    (le : first ≤ args.length) :
    occurrences (placeholder index).toList text.toList ≤
      occurrences (placeholder index).toList (substituteArgs text (holdBack first args)).toList := by
  induction le using Nat.decreasingInduction with
  | self => rw [substituteArgs_holdBack_all]
  | of_succ first lt ih =>
    rw [toList_substituteArgs_step text lt]
    exact (ih (Nat.lt_succ_of_lt behind)).trans
      (occurrences_le_replaceAll (Nat.ne_of_lt behind) _ _)

theorem count_dollar {count : Nat} {argument : List Char} {left right : List Char}
    (plain : '$' ∉ argument) (swaps : Swaps (placeholder index).toList argument count left right) :
    right.count '$' + count = left.count '$' := by
  have counts := swaps.measure_eq fun left right => List.count_append (a := '$')
  rwa [toList_placeholder, List.count_cons_self, List.count_eq_zero.2 (dollar_not_mem index),
    List.count_eq_zero.2 plain, Nat.mul_one, Nat.mul_zero] at counts

/-- A placeholder that has come about costs a dollar sign, and no argument gives it back. -/
theorem dollars_le (text : String) (plain : ∀ arg ∈ args, '$' ∉ arg.toList)
    (h : first ≤ args.length) :
    (substituteArgs text (holdBack first args)).toList.count '$' ≤
        (putAtOnce text (holdBack first args)).toList.count '$' ∧
      ((substituteArgs text (holdBack first args)).toList.count '$' =
          (putAtOnce text (holdBack first args)).toList.count '$' →
        ∀ later ≥ first, later ≤ args.length →
          substituteArgs text (holdBack later args) = putAtOnce text (holdBack later args)) := by
  induction h using Nat.decreasingInduction with
  | self =>
    rw [substituteArgs_holdBack_all, putAtOnce_holdBack_all]
    refine ⟨Nat.le_refl _, fun _ later behind le => ?_⟩
    rw [Nat.le_antisymm le behind, substituteArgs_holdBack_all, putAtOnce_holdBack_all]
  | of_succ index h ih =>
    obtain ⟨fewer, alike⟩ := ih
    have plain := plain args[index] (List.getElem_mem h)
    have replaced := toList_substituteArgs_step text h
    have more := occurrences_le_substituteArgs text (Nat.lt_add_one index) h
    have one := swaps_replaceAll (dollar_not_mem index) args[index].toList
      (substituteArgs text (holdBack (index + 1) args)).toList
    rw [← toList_placeholder, ← replaced] at one
    have here := count_dollar plain one
    have there := count_dollar plain (swaps_putAtOnce text h)
    refine ⟨by omega, fun same later behind le => ?_⟩
    have all := alike (by omega)
    rcases Nat.eq_or_lt_of_le behind with rfl | behind
    · refine (step_iff h (all _ (Nat.le_refl _) h)).2 (.inr ?_)
      rw [← all _ (Nat.le_refl _) h]
      omega
    · exact all later behind le

/-- No placeholder comes about where neither the arguments have a dollar sign nor the text has one
that starts no placeholder. -/
theorem undisturbed_of_plain {text : String} (plain : ∀ arg ∈ args, '$' ∉ arg.toList)
    (closed : .char '$' ∉ pieces args.length 0 text.toList) : Undisturbed text args := by
  intro index h
  right
  rw [toList_putAtOnce text h, ← count_hole h text.toList]
  generalize pieces args.length 0 text.toList = parts at closed
  have held := (argument_holdBack_step h).1
  induction parts with
  | nil => rw [List.flatMap_nil, toList_placeholder]; rfl
  | cons part rest ih =>
    obtain ⟨ne, closed⟩ := List.ne_and_not_mem_of_not_mem_cons closed
    rw [List.flatMap_cons, List.count_cons, ← ih closed]
    rcases part with other | c
    · -- What fills the hole is a placeholder still, or an argument in which none starts.
      have filled : argument (holdBack (index + 1) args) other = (placeholder other).toList ∨
          other ≠ index ∧ '$' ∉ argument (holdBack (index + 1) args) other := by
        rw [argument_holdBack]
        split
        · exact .inl rfl
        · rcases Nat.lt_or_ge other args.length with there | missing
          · rw [argument_of_lt there]
            exact .inr ⟨by omega, plain _ (List.getElem_mem there)⟩
          · exact .inl (by simp [argument, missing])
      rcases filled with filled | ⟨ne, skip⟩
      · rw [Piece.text, filled, occurrences_placeholder]
        simp
      · rw [Piece.text, toList_placeholder index, occurrences_skip skip]
        simp [ne]
    · have skip : '$' ∉ [c] := by simpa using ne
      rw [Piece.text, toList_placeholder index, occurrences_skip skip]
      simp

/-- Arguments that are put in one after the other give what they give when put in at once, whichever
of the first ones are held back, if and only if no placeholder comes about on the way. If no argument
has a dollar sign, then also the last text alone tells. -/
theorem substituteArgs_eq_putAtOnce_iff (text : String) (args : List String) :
    ((∀ first ≤ args.length,
        substituteArgs text (holdBack first args) = putAtOnce text (holdBack first args)) ↔
      Undisturbed text args) ∧
    ((∀ arg ∈ args, '$' ∉ arg.toList) →
      (substituteArgs text args = putAtOnce text args ↔ Undisturbed text args)) := by
  refine ⟨forall_eq_putAtOnce_iff text args, fun plain => ?_⟩
  constructor
  · intro same
    refine (forall_eq_putAtOnce_iff text args).1 fun later le => ?_
    have counts : (substituteArgs text (holdBack 0 args)).toList.count '$' =
        (putAtOnce text (holdBack 0 args)).toList.count '$' := by
      rw [holdBack_zero, same]
    exact (dollars_le text plain (Nat.zero_le _)).2 counts later (Nat.zero_le _) le
  · intro undisturbed
    exact (forall_eq_putAtOnce_iff text args).2 undisturbed 0 (Nat.zero_le _)

/-- A declaration with the placeholders of two arguments, and one of which there is none. -/
def padLine : String := "Pad$(1)_$(3)|*|$(2)|0x$(1)"

theorem padLine_putAtOnce : (∀ arg ∈ ["7", "4"], '$' ∉ arg.toList) ∧
    Undisturbed padLine ["7", "4"] ∧
    substituteArgs padLine ["7", "4"] = putAtOnce padLine ["7", "4"] ∧
    putAtOnce padLine ["7", "4"] = "Pad7_$(3)|*|4|0x7" := by
  have plain : ∀ arg ∈ ["7", "4"], '$' ∉ arg.toList := by decide
  have same : substituteArgs padLine ["7", "4"] = putAtOnce padLine ["7", "4"] := by decide
  exact ⟨plain, ((substituteArgs_eq_putAtOnce_iff padLine ["7", "4"]).2 plain).1 same, same,
    by decide⟩

/-- The second argument is the placeholder of the first one, which takes its place. -/
theorem placeholderArgument_not_putAtOnce :
    substituteArgs "$(2)" ["x", "$(1)"] = "x" ∧ putAtOnce "$(2)" ["x", "$(1)"] = "$(1)" ∧
      substituteArgs "$(2)" ["x", "$(1)"] ≠ putAtOnce "$(2)" ["x", "$(1)"] := by
  decide

end BoardSchema.Template
