import BoardSchema.Proofs.Field.Attaching
import BoardSchema.Proofs.Numeral
/-!
The tags of header templates. Where the structures of a stream are nested in each other, a call of a
header template is given the tag of the innermost structure around it, in the place of the sentinels
or else behind the first argument, unless a number already stands there. Without a tag it keeps its
arguments, and a problem is recorded if one was needed.
-/
namespace BoardSchema
open Builder

namespace Builder

/-- The structures that are open behind a bound, innermost first; only the innermost can end. -/
def Embed.nest (opened : List (String × Option Nat)) :
    Embed → Option (List (String × Option Nat))
  | .start name tag => some ((name, tag) :: opened)
  | .stop name =>
    match opened with
    | [] => none
    | (inner, _) :: outer => if inner = name then some outer else none

/-- The structures that bounds leave open, if they are nested in each other. -/
def openBounds (bounds : List Embed) : Option (List (String × Option Nat)) :=
  bounds.foldlM Embed.nest []

/-- An argument as it is put into a template. -/
inductive Argument : List Char → String → Prop where
  | tag {digits : List Char} {tag : Nat} (read : Numeral.read? 16 0x100000000 digits = some tag) :
      Argument ("TAG_".toList ++ digits) ("0x" ++ String.ofList digits)
  | other {text : List Char}
      (no_tag : ∀ digits, text = "TAG_".toList ++ digits →
        Numeral.read? 16 0x100000000 digits = none) :
      Argument text (String.ofList text)

/-- The second argument starts like a hexadecimal number. -/
def HasTag (args : List String) : Prop :=
  ∃ second, args[1]? = some second ∧
    ("0x".toList <+: second.toList ∨ "0X".toList <+: second.toList)

/-- A tag as it is put into a template: at least three upper-case digits behind `0x`. -/
def IsTagText (tag : Nat) (text : String) : Prop :=
  ∃ digits, text = "0x" ++ String.ofList digits ∧ Numeral.IsHexText 3 tag digits

/-- The arguments with which a header template is called in a structure with this tag. -/
inductive HeaderArgs (sentinel : String) (args : List String) :
    Option Nat → List String → Prop where
  | replaced {tag : Nat} {text : String} (shown : IsTagText tag text) (mem : sentinel ∈ args) :
      HeaderArgs sentinel args (some tag)
        (args.map fun arg => if arg = sentinel then text else arg)
  | given {tag : Nat} (not_mem : sentinel ∉ args) (hasTag : HasTag args) :
      HeaderArgs sentinel args (some tag) args
  | inserted {tag : Nat} {text : String} (shown : IsTagText tag text) (not_mem : sentinel ∉ args)
      (no_tag : ¬HasTag args) :
      HeaderArgs sentinel args (some tag) (args.take 1 ++ text :: args.drop 1)
  | untagged : HeaderArgs sentinel args none args

/-- A header template outside of all tags that needs one. -/
def LacksTag (sentinel : String) (args : List String) (tag : Option Nat) : Prop :=
  tag = none ∧ (sentinel ∈ args ∨ ¬HasTag args)

variable {rules : Rules} {rule : HeaderRule} {line : Nat} {args : List String} {tag : Option Nat}

/-! ## Structures that are open -/

theorem leaves_of_nest {opened opened' : List (String × Option Nat)} {bound : Embed}
    (nested : bound.nest opened = some opened') : Embed.leaves opened bound = opened' := by
  cases bound with
  | start name tag => exact Option.some.inj nested
  | stop name =>
    cases opened with
    | nil => cases nested
    | cons inner outer =>
      -- The structure that ends is the innermost, so no other of its name stands before it.
      simp only [Embed.nest, Option.ite_none_right_eq_some, Option.some.injEq] at nested
      obtain ⟨named, rfl⟩ := nested
      simp [Embed.leaves, closeEmbed, named]

theorem foldl_leaves {opened opened' : List (String × Option Nat)} {bounds : List Embed}
    (nested : bounds.foldlM Embed.nest opened = some opened') :
    bounds.foldl Embed.leaves opened = opened' := by
  induction bounds generalizing opened with
  | nil => exact Option.some.inj nested
  | cons bound rest ih =>
    rw [List.foldlM_cons] at nested
    obtain ⟨middle, step, nested⟩ := Option.bind_eq_some_iff.1 nested
    rw [List.foldl_cons, leaves_of_nest step, ih nested]

/-- In a nested stream a builder knows the structures that are open. -/
theorem embeds_of_nested {opened : List (String × Option Nat)} {before : List Input}
    (nested : openBounds (before.filterMap Input.bound?) = some opened) :
    (after rules {} before).embeds = opened := by
  rw [embeds_after]
  exact foldl_leaves nested

/-! ## Arguments -/

theorem tagDigits?_eq_some_iff {text digits : List Char} {tag : Nat} :
    tagDigits? text = some (digits, tag) ↔
      text = "TAG_".toList ++ digits ∧ Numeral.read? 16 0x100000000 digits = some tag := by
  simp only [tagDigits?, Option.bind_eq_some_iff, Option.map_eq_some_iff, Prod.mk.injEq,
    List.isPrefixOf?_eq_some_iff_append_eq]
  constructor
  · rintro ⟨_, rfl, _, read, rfl, rfl⟩
    exact ⟨rfl, read⟩
  · rintro ⟨rfl, read⟩
    exact ⟨digits, rfl, tag, read, rfl, rfl⟩

theorem argument_spec (text : List Char) : Argument text (argument text) := by
  unfold argument
  split
  · next digits tag shown =>
    obtain ⟨rfl, read⟩ := tagDigits?_eq_some_iff.1 shown
    exact .tag read
  · next no_tag =>
    refine .other fun digits same => Option.eq_none_iff_forall_ne_some.2 fun tag read => ?_
    rw [tagDigits?_eq_some_iff.2 ⟨same, read⟩] at no_tag
    cases no_tag

theorem any_isHexText_iff : args[1]?.any isHexText = true ↔ HasTag args := by
  simp [HasTag, isHexText, Option.any_eq_true]

theorem isTagText_hex (tag : Nat) : IsTagText tag (Numeral.hex 3 tag) :=
  Numeral.isHexText_hex (by decide) tag

theorem headerArgs_spec : HeaderArgs rule.sentinel args tag (headerArgs line rule tag args).1 := by
  have hasSentinel : args.contains rule.sentinel = true ↔ rule.sentinel ∈ args := by simp
  unfold headerArgs
  cases tag with
  | none =>
    -- Whether the template needs a tag or not, its arguments stay.
    dsimp only
    split <;> exact .untagged
  | some tag =>
    dsimp only
    split
    · next mem => exact .replaced (isTagText_hex tag) (hasSentinel.1 mem)
    · next not_mem =>
      split
      · next given => exact .given (mt hasSentinel.2 not_mem) (any_isHexText_iff.1 given)
      · next missing =>
        exact .inserted (isTagText_hex tag) (mt hasSentinel.2 not_mem)
          (mt any_isHexText_iff.2 missing)

theorem headerArgs_problems :
    (LacksTag rule.sentinel args tag ∧
      (headerArgs line rule tag args).2 = [.malformedPragma line "SUBT"
        s!"header template `{rule.template}` used outside of a tagged `EMBED` block"]) ∨
    (¬LacksTag rule.sentinel args tag ∧ (headerArgs line rule tag args).2 = []) := by
  have needed : (args.contains rule.sentinel || !args[1]?.any isHexText) = true ↔
      rule.sentinel ∈ args ∨ ¬HasTag args := by
    rw [← any_isHexText_iff]
    simp
  unfold headerArgs
  cases tag with
  | none =>
    dsimp only
    split
    · next needs => exact .inl ⟨⟨rfl, needed.1 needs⟩, rfl⟩
    · next needs => exact .inr ⟨fun lacks => needs (needed.2 lacks.2), rfl⟩
  | some tag =>
    refine .inr ⟨fun lacks => Option.some_ne_none tag lacks.1, ?_⟩
    dsimp only
    split
    · rfl
    · split <;> rfl

theorem HeaderArgs.not_mem {sentinel : String} {tag : Nat} {call : List String}
    (headed : HeaderArgs sentinel args (some tag) call)
    (no_hex : ¬"0x".toList <+: sentinel.toList) : sentinel ∉ call := by
  have text_ne {text : String} (shown : IsTagText tag text) : text ≠ sentinel := by
    rintro rfl
    obtain ⟨digits, rfl, -⟩ := shown
    exact no_hex ⟨_, (String.toList_append ..).symm⟩
  cases headed with
  | replaced shown mem =>
    intro mem
    obtain ⟨arg, -, same⟩ := List.mem_map.1 mem
    split at same
    · exact text_ne shown same
    · next ne => exact ne same
  | given not_mem => exact not_mem
  | inserted shown not_mem =>
    rw [List.mem_append, List.mem_cons]
    rintro (mem | rfl | mem)
    · exact not_mem (List.mem_of_mem_take mem)
    · exact text_ne shown rfl
    · exact not_mem (List.mem_of_mem_drop mem)

theorem expandCall?_of_rule {template : String} {value : List Char} {texts : List (List Char)}
    {tag : Option Nat} (parts : (value.splitOn ':').map Text.trim = template.toList :: texts)
    (named : template ≠ "") (ruled : rules.headerForTemplate? template = some rule) :
    expandCall? rules line tag value =
      (some ⟨template, (headerArgs line rule tag (texts.map argument)).1⟩,
        (headerArgs line rule tag (texts.map argument)).2) := by
  have nonempty : template.toList.isEmpty = false := by
    rw [List.isEmpty_eq_false_iff, ne_eq, String.toList_eq_nil_iff]
    exact named
  simp [expandCall?, parts, nonempty, ruled]

end Builder

/-- In a stream whose structures are nested, a call of a header template is made with the tag of the
innermost structure that is open, which leaves no sentinel in it; without a tag the arguments stay,
and a problem is recorded exactly if the template needs one. -/
theorem ofLines_headerCalls {rules : Rules} {lines : List SourceLine} {built : Built}
    (h : (Built.ofLines rules lines).outcome = .ok built)
    {opened : List (String × Option Nat)}
    (nested : openBounds ((lines.flatMap SourceLine.inputs).filterMap Input.bound?) = some opened)
    {rule : HeaderRule} {earlier later : List HeaderRule}
    (ruled : rules.headerRules = earlier ++ rule :: later)
    (first : ∀ other ∈ earlier, other.template ≠ rule.template)
    (no_hex : ¬"0x".toList <+: rule.sentinel.toList)
    {before behind : List Input} {line : Nat} {value : String} {texts : List (List Char)}
    (stands : lines.flatMap SourceLine.inputs =
      before ++ .block .bsf line ⟨"SUBT", value⟩ :: behind)
    (named : rule.template ≠ "")
    (parts : (value.toList.splitOn ':').map Text.trim = rule.template.toList :: texts) :
    ∃ around call front back problems,
      openBounds (before.filterMap Input.bound?) = some around ∧
      (∀ text ∈ texts, Argument text (argument text)) ∧
      HeaderArgs rule.sentinel (texts.map argument) (innermostTag? around) call ∧
      ((innermostTag? around).isSome → rule.sentinel ∉ call) ∧
      (run rules {} before).result = .ok front ∧
      built.entries = front ++ .field { name := rule.template, role := .plain, line
                                        length := .symbolic ""
                                        expand := some ⟨rule.template, call⟩ } :: back ∧
      ((Input.block .bsf line ⟨"SUBT", value⟩).apply rules (after rules {} before)).problems =
        problems ∧
      problems <:+: built.problems ∧
      ((LacksTag rule.sentinel (texts.map argument) (innermostTag? around) ∧
          problems = [.malformedPragma line "SUBT"
            s!"header template `{rule.template}` used outside of a tagged `EMBED` block"]) ∨
        (¬LacksTag rule.sentinel (texts.map argument) (innermostTag? around) ∧
          problems = [])) := by
  -- A stream that is nested as a whole is nested up to the call.
  have nested_before : ∃ around, openBounds (before.filterMap Input.bound?) = some around := by
    rw [stands, List.filterMap_append, openBounds, List.foldlM_append] at nested
    obtain ⟨around, nested, -⟩ := Option.bind_eq_some_iff.1 nested
    exact ⟨around, nested⟩
  obtain ⟨around, nested⟩ := nested_before
  have found : rules.headerForTemplate? rule.template = some rule := by
    refine List.find?_eq_some_iff_append.2 ⟨by simp, earlier, later, ruled, fun other mem => ?_⟩
    simpa using first other mem
  obtain ⟨front, own, back, ran, applied, whole⟩ := Built.exists_own h stands
  have call : expandCall? rules line (innermostTag? around) value.toList = _ :=
    expandCall?_of_rule parts named found
  have step : (Input.block .bsf line ⟨"SUBT", value⟩).apply rules (after rules {} before) = _ :=
    applyBsf_call rules line (after rules {} before) value
  rw [embeds_of_nested nested, call] at step
  rw [step] at applied
  cases applied
  refine ⟨around, _, front, back, _, nested, fun text _ => argument_spec text, headerArgs_spec,
    fun tagged => ?_, ran, whole, by rw [step], ?_, headerArgs_problems⟩
  · obtain ⟨tag, tagged⟩ := Option.isSome_iff_exists.1 tagged
    rw [tagged]
    exact headerArgs_spec.not_mem no_hex
  · have recorded := Built.problems_infix h stands
    rwa [step] at recorded

/-- A header in a structure with a tag, behind an inner structure without one that has ended. -/
def pinLines : List SourceLine :=
  [⟨1, "# !HDR EMBED:\x7bPINS:TAG_400:START\x7d"⟩,
    ⟨2, "# !HDR EMBED:\x7bMODE:START\x7d"⟩,
    ⟨3, "# !HDR EMBED:\x7bMODE:END\x7d"⟩,
    ⟨4, "# !BSF SUBT:\x7bCFGHDR_TMPL:PINS:0:TAG_7\x7d"⟩,
    ⟨5, "# !HDR EMBED:\x7bPINS:END\x7d"⟩]

theorem pinLines_headerCall : ∃ built front call back,
    (Built.ofLines {} pinLines).outcome = .ok built ∧
    built.entries = front ++ .field { name := "CFGHDR_TMPL", role := .plain, line := 4
                                      length := .symbolic ""
                                      expand := some ⟨"CFGHDR_TMPL", call⟩ } :: back ∧
    HeaderArgs "TAG" ["PINS", "0", "0x7"] (some 0x400) call ∧ "TAG" ∉ call := by
  have count : (Built.ofLines {} pinLines).outcome.toOption.map (·.entries.length) = some 5 := by
    decide +kernel
  obtain ⟨built, hbuilt, -⟩ := exists_eq_ok count
  have stands : pinLines.flatMap SourceLine.inputs =
      [.block .hdr 1 ⟨"EMBED", "PINS:TAG_400:START"⟩, .block .hdr 2 ⟨"EMBED", "MODE:START"⟩,
        .block .hdr 3 ⟨"EMBED", "MODE:END"⟩] ++
      .block .bsf 4 ⟨"SUBT", "CFGHDR_TMPL:PINS:0:TAG_7"⟩ ::
        [.block .hdr 5 ⟨"EMBED", "PINS:END"⟩] := by
    decide +kernel
  have nested : openBounds ((pinLines.flatMap SourceLine.inputs).filterMap Input.bound?) =
      some [] := by
    decide +kernel
  have ruled : ({} : Rules).headerRules = [] ++ ⟨"CFGHDR", "CFGHDR_TMPL", "TAG"⟩ :: [] := rfl
  have parts : ("CFGHDR_TMPL:PINS:0:TAG_7".toList.splitOn ':').map Text.trim =
      "CFGHDR_TMPL".toList :: ["PINS".toList, "0".toList, "TAG_7".toList] := by
    decide +kernel
  obtain ⟨around, call, front, back, problems, inner, -, headed, no_sentinel, -, entries, -⟩ :=
    ofLines_headerCalls hbuilt nested ruled (by simp) (by decide) stands (by decide) parts
  obtain rfl : [("PINS", some 0x400)] = around :=
    Option.some.inj (Eq.trans (by decide +kernel) inner)
  have args : ["PINS".toList, "0".toList, "TAG_7".toList].map argument = ["PINS", "0", "0x7"] := by
    decide
  rw [args] at headed
  exact ⟨built, front, call, back, hbuilt, entries, headed, no_sentinel rfl⟩

end BoardSchema
