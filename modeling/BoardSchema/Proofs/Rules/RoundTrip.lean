import BoardSchema.Proofs.Json.Printing
import BoardSchema.Rules.Json
import Mathlib.Data.List.Nodup
/-!
Rules survive their document. A document that was written from rules gives them back, in whatever
order its members stand and whatever stands between them; what is taken out of it goes back to its
default.
-/
namespace BoardSchema

namespace Json

/-- The object of a record, with its members in any order and among others. -/
def Widens (keys : List String) : Json → Json → Prop
  | .object known, .object members => (members.filter (·.1 ∈ keys)).Perm known
  | _, _ => False

/-- An object without some of its members. -/
def without (absent : List String) : Json → Json
  | .object members => .object (members.filter (·.1 ∉ absent))
  | json => json

/-- An object with more members. -/
def extend (others : List (String × Json)) : Json → Json
  | .object members => .object (members ++ others)
  | json => json

/-! ## Records -/

section

variable {keys absent : List String} {key : String} {value : Json}
  {members known : List (String × Json)}

/-- Under distinct keys a value stands where its key does. -/
theorem member?_eq_some_iff (distinct : (members.map Prod.fst).Nodup) :
    member? key members = some value ↔ (key, value) ∈ members := by
  induction members with
  | nil => simp [member?]
  | cons member rest ih =>
    obtain ⟨key', value'⟩ := member
    obtain ⟨fresh, distinct⟩ := List.nodup_cons.1 distinct
    by_cases here : key' = key
    · subst here
      have later : (key', value) ∉ rest := fun mem => fresh (List.mem_map.2 ⟨_, mem, rfl⟩)
      simp [member?, later, eq_comm]
    · have skipped : member? key ((key', value') :: rest) = member? key rest := by
        simp [member?, here]
      simp [skipped, ih distinct, Ne.symm here]

theorem member?_filter {P : String → Prop} [DecidablePred P] (kept : P key) :
    member? key (members.filter fun member => P member.1) = member? key members := by
  unfold member?
  rw [List.find?_filter]
  congr 2
  funext member
  by_cases here : member.1 = key
  · simp [here, kept]
  · simp [here]

theorem member?_without : member? key (members.filter (·.1 ∉ absent)) =
    if key ∈ absent then none else member? key members := by
  split
  · next gone =>
    have missing : ∀ member ∈ members.filter (·.1 ∉ absent), ¬(member.1 = key) := by
      rintro member mem rfl
      simp [gone] at mem
    unfold member?
    rw [List.find?_eq_none.2 (by simpa using missing)]
    rfl
  · next stays => exact member?_filter (P := (· ∉ absent)) stays

theorem member?_of_perm (perm : members.Perm known) (distinct : (known.map Prod.fst).Nodup) :
    member? key members = member? key known := by
  have distinct_members : (members.map Prod.fst).Nodup := (perm.map Prod.fst).nodup_iff.2 distinct
  ext value
  rw [member?_eq_some_iff distinct_members, member?_eq_some_iff distinct, perm.mem_iff]

theorem unrepeated_of_perm (perm : (members.filter (·.1 ∈ keys)).Perm known)
    (distinct : (known.map Prod.fst).Nodup) : unrepeated keys members = true := by
  refine List.all_eq_true.2 fun key mem => decide_eq_true ?_
  have same : (members.filter (·.1 ∈ keys)).countP (·.1 = key) = members.countP (·.1 = key) := by
    rw [List.countP_filter]
    refine congrArg (List.countP · members) (funext fun member => ?_)
    by_cases here : member.1 = key
    · simp [here, mem]
    · simp [here]
  rw [← same, perm.countP_eq]
  have once := List.nodup_iff_count_le_one.1 distinct key
  rwa [List.count_eq_countP, List.countP_map] at once

/-- Reading a record passes over members under other keys, and their order does not matter. -/
theorem record?_of_perm (perm : (members.filter (·.1 ∈ keys)).Perm known)
    (distinct : (known.map Prod.fst).Nodup) :
    record? keys (.object members) = some (keys.map fun key => member? key known) := by
  rw [record?, if_pos (unrepeated_of_perm perm distinct)]
  refine congrArg some (List.map_congr_left fun key mem => ?_)
  rw [← member?_filter (P := (· ∈ keys)) mem, member?_of_perm perm distinct]

/-- A value that was taken out is the default, and one that was not is read. -/
theorem orDefault_member? {α : Type} {read? : Json → Option α} {default a : α}
    (read : read? value = some a) (found : member? key members = some value) :
    orDefault default read? (member? key (members.filter (·.1 ∉ absent))) =
      some (if key ∈ absent then default else a) := by
  rw [member?_without, found]
  split
  · rfl
  · exact read

theorem exists_of_widens {json : Json} (widens : Widens keys (.object known) json) :
    ∃ members, json = .object members ∧ (members.filter (·.1 ∈ keys)).Perm known := by
  cases json with
  | object members => exact ⟨members, rfl, widens⟩
  | _ => cases widens

theorem widens_self (within : ∀ member ∈ members, member.1 ∈ keys) :
    Widens keys (.object members) (.object members) := by
  have all : members.filter (·.1 ∈ keys) = members :=
    List.filter_eq_self.2 fun member mem => decide_eq_true (within member mem)
  exact (show (members.filter (·.1 ∈ keys)).Perm members by rw [all])

/-- Each item is shown by what is written for it. -/
theorem forall₂_map {α : Type} {Shows : α → Json → Prop} {write : α → Json}
    (each : ∀ item, Shows item (write item)) (items : List α) :
    List.Forall₂ Shows items (items.map write) :=
  List.forall₂_map_right_iff.2 (List.forall₂_same.2 fun item _ => each item)

theorem list?_eq_some {α : Type} {item? : Json → Option α} {items : List α} {values : List Json}
    (each : List.Forall₂ (fun item value => item? value = some item) items values) :
    list? item? (.array values) = some items := by
  rw [list?]
  induction each with
  | nil => rfl
  | cons here _ ih => simp [List.mapM_cons, here, ih]

end

end Json

/-! ## Nested records -/

theorem Substitution.ofJson?_of_widens {rule : Substitution} {json : Json}
    (widens : Json.Widens Substitution.keys rule.toJson json) :
    Substitution.ofJson? json = some rule := by
  obtain ⟨members, rfl, perm⟩ := Json.exists_of_widens widens
  rw [ofJson?, Json.record?_of_perm perm (show Substitution.keys.Nodup by decide)]
  rfl

theorem Substitution.widens_toJson (rule : Substitution) :
    Json.Widens Substitution.keys rule.toJson rule.toJson :=
  Json.widens_self (by simp [Substitution.keys])

theorem Substitution.printable_toJson (rule : Substitution) : rule.toJson.Printable := by
  refine .object ?_
  simp only [List.forall_mem_cons]
  exact ⟨.string _, .string _, .bool _, List.forall_mem_nil _⟩

theorem HeaderRule.ofJson?_of_widens {rule : HeaderRule} {json : Json}
    (widens : Json.Widens HeaderRule.keys rule.toJson json) :
    HeaderRule.ofJson? json = some rule := by
  obtain ⟨members, rfl, perm⟩ := Json.exists_of_widens widens
  rw [ofJson?, Json.record?_of_perm perm (show HeaderRule.keys.Nodup by decide)]
  rfl

theorem HeaderRule.widens_toJson (rule : HeaderRule) :
    Json.Widens HeaderRule.keys rule.toJson rule.toJson :=
  Json.widens_self (by simp [HeaderRule.keys])

theorem HeaderRule.printable_toJson (rule : HeaderRule) : rule.toJson.Printable := by
  refine .object ?_
  simp only [List.forall_mem_cons]
  exact ⟨.string _, .string _, .string _, List.forall_mem_nil _⟩

theorem NamePattern.ofJson?_of_widens {pattern : NamePattern} {json : Json}
    (widens : Json.Widens NamePattern.keys pattern.toJson json) :
    NamePattern.ofJson? json = some pattern := by
  cases pattern with
  | exact name =>
    obtain ⟨members, rfl, perm⟩ := Json.exists_of_widens widens
    have record := Json.record?_of_perm perm (show NamePattern.keys.Nodup by decide)
    simp only [ofJson?, record]
    rfl
  | startsWith start =>
    obtain ⟨members, rfl, perm⟩ := Json.exists_of_widens widens
    have record := Json.record?_of_perm perm (show NamePattern.keys.Nodup by decide)
    simp only [ofJson?, record]
    rfl

theorem NamePattern.widens_toJson (pattern : NamePattern) :
    Json.Widens NamePattern.keys pattern.toJson pattern.toJson := by
  cases pattern <;> exact Json.widens_self (by simp [NamePattern.keys])

theorem NamePattern.printable_toJson (pattern : NamePattern) : pattern.toJson.Printable := by
  have members (kind text : String) :
      Json.Printable (.object [("kind", .string kind), ("text", .string text)]) := by
    refine .object ?_
    simp only [List.forall_mem_cons]
    exact ⟨.string _, .string _, List.forall_mem_nil _⟩
  cases pattern with
  | exact name => exact members _ _
  | startsWith start => exact members _ _

namespace Fixup

def keys : List String := ["pattern", "action", "delta"]

/-- A correction by a signed number of 64 bits. -/
def IsWord (fixup : Fixup) : Prop :=
  -0x8000000000000000 ≤ fixup.delta ∧ fixup.delta < 0x8000000000000000

/-- The object of a fixup. Its pattern may hold other members as well, and what else stands in the
fixup itself has to be readable and not too deep. -/
def ShownBy (fixup : Fixup) (json : Json) : Prop :=
  ∃ members pattern, json = .object members ∧
    Json.Widens NamePattern.keys fixup.pattern.toJson pattern ∧
    (members.filter (·.1 ∈ keys)).Perm
      [("pattern", pattern), ("action", .string "AdjustLength"), ("delta", .integer fixup.delta)] ∧
    ∀ member ∈ members, member.1 ∉ keys → member.2.fits depthLimit = true

theorem membersFit_iff {limit : Nat} {members : List (String × Json)} :
    Json.membersFit limit members = true ↔ ∀ member ∈ members, member.2.fits limit = true := by
  induction members with
  | nil => simp [Json.membersFit]
  | cons member rest ih => simp [Json.membersFit, ih]

theorem ofJson?_of_shownBy {fixup : Fixup} {json : Json} (word : fixup.IsWord)
    (shown : fixup.ShownBy json) : Fixup.ofJson? json = some fixup := by
  obtain ⟨members, pattern, rfl, widens, perm, others⟩ := shown
  have distinct : keys.Nodup := by decide
  have unrepeated : Json.unrepeated ["pattern", "action", "delta"] members = true :=
    Json.unrepeated_of_perm perm distinct
  have fit : Json.membersFit depthLimit (members.filter (·.1 ≠ "pattern")) = true := by
    refine membersFit_iff.2 fun member mem => ?_
    obtain ⟨mem, other⟩ := List.mem_filter.1 mem
    by_cases known : member.1 ∈ keys
    · have here := perm.mem_iff.1 (List.mem_filter.2 ⟨mem, decide_eq_true known⟩)
      simp only [List.mem_cons, List.not_mem_nil, or_false] at here
      rcases here with rfl | rfl | rfl
      · simp at other
      · rfl
      · rfl
    · exact others member mem known
  have value {key : String} (mem : key ∈ keys) : Json.member? key members = Json.member? key
      [("pattern", pattern), ("action", .string "AdjustLength"), ("delta", .integer fixup.delta)] := by
    rw [← Json.member?_filter (P := (· ∈ keys)) mem, Json.member?_of_perm perm distinct]
  have delta : delta? (.integer fixup.delta) = some fixup.delta := if_pos word
  have read := NamePattern.ofJson?_of_widens widens
  simp only [ofJson?, unrepeated, fit, Bool.and_self, if_true,
    value (show "pattern" ∈ keys by decide), value (show "action" ∈ keys by decide),
    value (show "delta" ∈ keys by decide)]
  simp [Json.member?, read, delta, isAdjustLength]

theorem shownBy_toJson (fixup : Fixup) : fixup.ShownBy fixup.toJson := by
  refine ⟨_, _, rfl, fixup.pattern.widens_toJson, .of_eq (List.filter_eq_self.2 ?_), ?_⟩
  · simp [keys]
  · simp [keys]

theorem printable_toJson {fixup : Fixup} (word : fixup.IsWord) : fixup.toJson.Printable := by
  have high : fixup.delta < Numeral.wordBound := Int.lt_trans word.2 (by decide)
  refine .object ?_
  simp only [List.forall_mem_cons]
  exact ⟨fixup.pattern.printable_toJson, .string _, .integer word.1 high, List.forall_mem_nil _⟩

end Fixup

/-! ## Rules -/

namespace Rules

/-- Rules with the defaults under the keys that are absent. -/
def resetting (absent : List String) (rules : Rules) : Rules :=
  let default : Rules := {}
  { emitAll := if "emit_all" ∈ absent then default.emitAll else rules.emitAll
    substitutions := if "substitutions" ∈ absent then default.substitutions else rules.substitutions
    headerRules := if "header_rules" ∈ absent then default.headerRules else rules.headerRules
    fixups := if "fixups" ∈ absent then default.fixups else rules.fixups
    paddingPrefix := if "padding_prefix" ∈ absent then default.paddingPrefix else rules.paddingPrefix
    bitGroupTag := if "bit_group_tag" ∈ absent then default.bitGroupTag else rules.bitGroupTag
    boilerplate := if "boilerplate" ∈ absent then default.boilerplate else rules.boilerplate }

/-- The members of a rule document whose lists of records are these. -/
def membersWith (rules : Rules) (substitutions headerRules fixups : List Json) :
    List (String × Json) :=
  keys.zip [.bool rules.emitAll, .array substitutions, .array headerRules, .array fixups,
    .string rules.paddingPrefix, .string rules.bitGroupTag, .string rules.boilerplate]

/-- A document of rules without some of their keys. Every record in it may have its members in any
order and among others. -/
def ShownBy (absent : List String) (rules : Rules) (json : Json) : Prop :=
  ∃ members substitutions headerRules fixups, json = .object members ∧
    List.Forall₂ (fun rule value => Json.Widens Substitution.keys rule.toJson value)
      rules.substitutions substitutions ∧
    List.Forall₂ (fun rule value => Json.Widens HeaderRule.keys rule.toJson value)
      rules.headerRules headerRules ∧
    List.Forall₂ Fixup.ShownBy rules.fixups fixups ∧
    (members.filter (·.1 ∈ keys)).Perm
      ((rules.membersWith substitutions headerRules fixups).filter (·.1 ∉ absent))

theorem ofJson?_of_shownBy {rules : Rules} {absent : List String} {json : Json}
    (words : ∀ fixup ∈ rules.fixups, fixup.IsWord) (shown : rules.ShownBy absent json) :
    Rules.ofJson? json = some (rules.resetting absent) := by
  obtain ⟨members, substitutions, headerRules, fixups, rfl, substitutions_shown, headers_shown,
    fixups_shown, perm⟩ := shown
  have substitutions_read := Json.list?_eq_some (substitutions_shown.imp
    fun _ _ => Substitution.ofJson?_of_widens)
  have headers_read := Json.list?_eq_some (headers_shown.imp fun _ _ => HeaderRule.ofJson?_of_widens)
  have fixups_read : Json.list? Fixup.ofJson? (.array fixups) = some rules.fixups :=
    Json.list?_eq_some (((List.forall₂_and_left _ _).2 ⟨words, fixups_shown⟩).imp
      fun _ _ here => Fixup.ofJson?_of_shownBy here.1 here.2)
  have flag : Json.bool? (.bool rules.emitAll) = some rules.emitAll := rfl
  have text (value : String) : Json.text? (.string value) = some value := rfl
  have distinct : ((rules.membersWith substitutions headerRules fixups).filter
      (·.1 ∉ absent) |>.map Prod.fst).Nodup :=
    (show keys.Nodup by decide).sublist (List.filter_sublist.map Prod.fst)
  have reads {α : Type} {read? : Json → Option α} {a : α} {value : Json} (key : String)
      (read : read? value = some a)
      (found : Json.member? key (rules.membersWith substitutions headerRules fixups) = some value)
      (default : α) : Json.orDefault default read? (Json.member? key
        ((rules.membersWith substitutions headerRules fixups).filter (·.1 ∉ absent))) =
        some (if key ∈ absent then default else a) := Json.orDefault_member? read found
  rw [ofJson?, Json.record?_of_perm perm distinct]
  simp only [keys, List.map_cons, List.map_nil, reads "emit_all" flag rfl,
    reads "substitutions" substitutions_read rfl, reads "header_rules" headers_read rfl,
    reads "fixups" fixups_read rfl, reads "padding_prefix" (text _) rfl,
    reads "bit_group_tag" (text _) rfl, reads "boilerplate" (text _) rfl]
  rfl

/-! ## Documents that were written -/

theorem shownBy_toJson (rules : Rules) (absent : List String) {others : List (String × Json)}
    (unknown : ∀ member ∈ others, member.1 ∉ keys) :
    rules.ShownBy absent ((rules.toJson.without absent).extend others) := by
  refine ⟨_, _, _, _, rfl, Json.forall₂_map Substitution.widens_toJson _,
    Json.forall₂_map HeaderRule.widens_toJson _, Json.forall₂_map Fixup.shownBy_toJson _, ?_⟩
  have known : ∀ member ∈ (keys.zip rules.values).filter (·.1 ∉ absent), member.1 ∈ keys :=
    fun member mem => (List.of_mem_zip (List.mem_of_mem_filter mem)).1
  have none : others.filter (·.1 ∈ keys) = [] :=
    List.filter_eq_nil_iff.2 fun member mem => by simpa using unknown member mem
  rw [List.filter_append, List.filter_eq_self.2 fun member mem => decide_eq_true (known member mem),
    none, List.append_nil]
  exact .refl _

theorem printable_toJson {rules : Rules} (words : ∀ fixup ∈ rules.fixups, fixup.IsWord)
    (absent : List String) {others : List (String × Json)}
    (printable : ∀ member ∈ others, member.2.Printable) :
    ((rules.toJson.without absent).extend others).Printable := by
  have values : ∀ value ∈ rules.values, value.Printable := by
    simp only [Rules.values, List.forall_mem_cons]
    exact ⟨.bool _, .array (List.forall_mem_map.2 fun rule _ => rule.printable_toJson),
      .array (List.forall_mem_map.2 fun rule _ => rule.printable_toJson),
      .array (List.forall_mem_map.2 fun fixup mem => Fixup.printable_toJson (words fixup mem)),
      .string _, .string _, .string _, List.forall_mem_nil _⟩
  refine .object (List.forall_mem_append.2 ⟨fun member mem => ?_, printable⟩)
  exact values _ (List.of_mem_zip (List.mem_of_mem_filter mem)).2

/-- Rules are read back from their document with what was taken out of it at its defaults: from what
was printed, with other members behind the known ones, and from any text of such a document, with its
members in any order and with other members in every record. -/
theorem ofText_roundTrip (rules : Rules) (words : ∀ fixup ∈ rules.fixups, fixup.IsWord)
    (absent : List String) :
    (∀ others : List (String × Json), (∀ member ∈ others, member.1 ∉ keys) →
      (∀ member ∈ others, member.2.Printable) →
      Rules.ofText ((rules.toJson.without absent).extend others).pretty =
        .ok (rules.resetting absent)) ∧
    ∀ json text, rules.ShownBy absent json → Json.parse? text = some json →
      Rules.ofText text = .ok (rules.resetting absent) := by
  have any (json : Json) (text : String) (shown : rules.ShownBy absent json)
      (parsed : Json.parse? text = some json) :
      Rules.ofText text = .ok (rules.resetting absent) := by
    rw [ofText, parsed, Option.bind_some, ofJson?_of_shownBy words shown]
  refine ⟨fun others unknown printable => ?_, any⟩
  exact any _ _ (rules.shownBy_toJson absent unknown)
    (Json.parse?_pretty (printable_toJson words absent printable))

/-- Rules with quotes, breaks and characters beyond the first plane in their texts. -/
def oddRules : Rules :=
  { emitAll := true
    substitutions := [⟨"a\"\\\n\x01", "é😀", true⟩]
    headerRules := []
    fixups := [⟨.exact "Uart", -0x8000000000000000⟩, ⟨.startsWith "Pcie", 0x7fffffffffffffff⟩]
    paddingPrefix := ""
    boilerplate := "#" }

/-- A pattern that names its kind last. -/
def mixedPattern : Json := .object [("text", .string "Uart"), ("kind", .string "Exact")]

/-- A fixup that names its action first and has a member that nobody knows. -/
def mixedFixup : Json :=
  .object [("action", .string "AdjustLength"), ("note", .array [.null]), ("pattern", mixedPattern),
    ("delta", .integer (-2))]

/-- Nothing but that fixup and a member that nobody knows. -/
def mixedRules : Json := .object [("vendor", .bool true), ("fixups", .array [mixedFixup])]

theorem mixedRules_shownBy : ({ fixups := [⟨.exact "Uart", -2⟩] } : Rules).ShownBy
    (keys.erase "fixups") mixedRules := by
  have fixup : (Fixup.mk (.exact "Uart") (-2)).ShownBy mixedFixup := by
    refine ⟨_, mixedPattern, rfl, .swap _ _ _, .swap _ _ _, fun member mem unknown => ?_⟩
    simp only [List.mem_cons, List.not_mem_nil, or_false] at mem
    rcases mem with rfl | rfl | rfl | rfl
    · exact absurd (by decide) unknown
    · rfl
    · exact absurd (by decide) unknown
    · exact absurd (by decide) unknown
  exact ⟨_, _, _, [mixedFixup], rfl, Json.forall₂_map Substitution.widens_toJson _,
    Json.forall₂_map HeaderRule.widens_toJson _, .cons fixup .nil, .of_eq rfl⟩

theorem mixedRules_printable : mixedRules.Printable := by
  have pattern : mixedPattern.Printable := by
    refine .object ?_
    simp only [List.forall_mem_cons]
    exact ⟨.string _, .string _, List.forall_mem_nil _⟩
  have fixup : mixedFixup.Printable := by
    refine .object ?_
    simp only [List.forall_mem_cons]
    exact ⟨.string _, .array (List.forall_mem_singleton.2 .null), pattern,
      .integer (by decide) (by decide), List.forall_mem_nil _⟩
  refine .object ?_
  simp only [List.forall_mem_cons]
  exact ⟨.bool _, .array (List.forall_mem_singleton.2 fixup), List.forall_mem_nil _⟩

/-- Two keys are taken out of a document and two put in that nobody knows; another document holds
nothing but its fixups. -/
theorem oddRules_roundTrip :
    Rules.ofText ((oddRules.toJson.without ["header_rules", "boilerplate"]).extend
      [("version", .integer 3), ("notes", .array [.null, .real "1.5e-3"])]).pretty =
        .ok (oddRules.resetting ["header_rules", "boilerplate"]) ∧
    (oddRules.resetting ["header_rules", "boilerplate"]).headerRules =
      [⟨"CFGHDR", "CFGHDR_TMPL", "TAG"⟩] ∧
    Rules.ofText mixedRules.pretty = .ok { fixups := [⟨.exact "Uart", -2⟩] } := by
  have words : ∀ fixup ∈ oddRules.fixups, fixup.IsWord := by
    simp [oddRules, Fixup.IsWord]
  have scale : Json.Printable (.real "1.5e-3") := by
    have digit (c : Char) (isDigit : c.isDigit = true) : Json.Literal.Digits [c] :=
      ⟨List.cons_ne_nil _ _, List.forall_mem_singleton.2 isDigit⟩
    refine .real (⟨digit '1' rfl, by decide, ?_, ?_⟩ :
      Json.Literal.WellFormed ⟨false, ['1'], some ['5'], some (true, ['3'])⟩) rfl
    · rintro digits ⟨⟩
      exact digit '5' rfl
    · rintro exponent ⟨⟩
      exact digit '3' rfl
  refine ⟨(ofText_roundTrip oddRules words _).1 _ (by simp [keys]) ?_, rfl, ?_⟩
  · simp only [List.forall_mem_cons]
    refine ⟨.integer (by decide) (by decide), .array ?_, List.forall_mem_nil _⟩
    simp only [List.forall_mem_cons]
    exact ⟨.null, scale, List.forall_mem_nil _⟩
  · exact (ofText_roundTrip { fixups := [⟨.exact "Uart", -2⟩] } (by simp [Fixup.IsWord]) _).2 _ _
      mixedRules_shownBy (Json.parse?_pretty mixedRules_printable)

end Rules

end BoardSchema
