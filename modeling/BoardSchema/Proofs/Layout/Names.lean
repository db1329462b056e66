import BoardSchema.Proofs.Layout.Padding
import Mathlib.Data.List.Nodup
import Mathlib.Data.List.Perm.Subperm
import Mathlib.Order.Bounds.Basic
/-!
Names for padding are new. A pool hands out the first number behind all that it has tried whose name
is not known yet, so the padding of a layout is told apart from everything that was reserved, and
from each other.
-/
namespace BoardSchema

namespace NamePool

/-- The search for a free name from a number on, with the numbers that are tried and the one that is
found: a name that is taken is passed over. -/
inductive Search (pool : NamePool) : (start : Nat) → (tried : List Nat) → (found : Nat) → Prop
  | free {start : Nat} (free : pool.candidate start ∉ pool.taken) : Search pool start [start] start
  | taken {start found : Nat} {tried : List Nat} (taken : pool.candidate start ∈ pool.taken)
      (later : Search pool (start + 1) tried found) : Search pool start (start :: tried) found

/-- The numbers that are tried for the next name. -/
def tries (pool : NamePool) : List Nat :=
  List.range' pool.next (pool.freeNumber + 1 - pool.next)

/-- The names that a pool hands out next, and the pool after that. -/
def draw (pool : NamePool) : (count : Nat) → List String × NamePool
  | 0 => ([], pool)
  | count + 1 =>
    let (names, pool) := pool.draw count
    (names ++ [pool.take.1], pool.take.2)

/-- What a pool is asked for. -/
inductive Request where
  | reserve (name : String)
  | take
  deriving DecidableEq, Repr

/-- A pool that has served requests, with all the numbers that it tried and the names that were
reserved or handed out. -/
structure Ledger where
  pool : NamePool
  tried : List Nat := []
  known : List String := []

namespace Ledger

def serve (ledger : Ledger) : Request → Ledger
  | .reserve name =>
    { ledger with pool := ledger.pool.reserve name, known := name :: ledger.known }
  | .take =>
    let (name, pool) := ledger.pool.take
    { pool, tried := ledger.tried ++ ledger.pool.tries, known := name :: ledger.known }

def serveAll (stem : String) (requests : List Request) : Ledger :=
  requests.foldl serve { pool := { stem } }

end Ledger

variable {pool : NamePool} {start found : Nat}

/-! ## The search -/

theorem candidate_injective (pool : NamePool) : Function.Injective pool.candidate := by
  intro left right same
  have digits : Nat.toDigits 10 left = Nat.toDigits 10 right := by
    simpa [candidate] using congrArg String.toList same
  have read := congrArg (Nat.ofDigitChars 10 · 0) digits
  simpa using read

/-- Among one more number than there are taken names one is free. -/
theorem exists_free (pool : NamePool) (start : Nat) :
    ∃ number ∈ List.range' start (pool.taken.length + 1), pool.candidate number ∉ pool.taken := by
  by_contra none
  let candidates := (List.range' start (pool.taken.length + 1)).map pool.candidate
  have distinct : candidates.Nodup := List.Nodup.map pool.candidate_injective List.nodup_range'
  have within : candidates ⊆ pool.taken := by
    intro name hname
    obtain ⟨number, hnumber, rfl⟩ := List.mem_map.1 hname
    by_contra free
    exact none ⟨number, hnumber, free⟩
  have short := (distinct.subperm within).length_le
  rw [List.length_map, List.length_range'] at short
  omega

theorem freeNumber_isLeast (pool : NamePool) :
    IsLeast {number | pool.next ≤ number ∧ pool.candidate number ∉ pool.taken}
      pool.freeNumber := by
  obtain ⟨free, hfree, unknown⟩ := pool.exists_free pool.next
  unfold freeNumber
  cases hfound : (List.range' pool.next (pool.taken.length + 1)).find? fun number =>
      !pool.taken.contains (pool.candidate number) with
  | none =>
    have passed := List.find?_eq_none.1 hfound free hfree
    simp [unknown] at passed
  | some number =>
    obtain ⟨fits, within, first⟩ := List.find?_range'_eq_some.1 hfound
    refine ⟨⟨(List.mem_range'_1.1 within).1, by simpa using fits⟩, ?_⟩
    rintro other ⟨behind, unknown⟩
    by_contra before
    simpa [unknown] using first other behind (Nat.lt_of_not_le before)

/-- The search ends at the least number whose name is free. -/
theorem search_of_isLeast
    (least : IsLeast {number | start ≤ number ∧ pool.candidate number ∉ pool.taken} found) :
    pool.Search start (List.range' start (found + 1 - start)) found := by
  obtain ⟨⟨behind, free⟩, first⟩ := least
  obtain ⟨steps, rfl⟩ := Nat.exists_eq_add_of_le behind
  induction steps generalizing start with
  | zero => simpa using Search.free free
  | succ steps ih =>
    have taken : pool.candidate start ∈ pool.taken := by
      by_contra here
      have := first ⟨Nat.le_refl start, here⟩
      omega
    have count : start + (steps + 1) + 1 - start = (start + 1 + steps + 1 - (start + 1)) + 1 := by
      omega
    rw [count, List.range'_succ]
    have there : start + (steps + 1) = start + 1 + steps := by omega
    rw [there] at free first ⊢
    refine .taken taken (ih (fun other h => ?_) (Nat.le_add_right _ _) free)
    exact first ⟨Nat.le_of_succ_le h.1, h.2⟩

theorem search_freeNumber (pool : NamePool) : pool.Search pool.next pool.tries pool.freeNumber :=
  search_of_isLeast pool.freeNumber_isLeast

/-- A name that is handed out was not taken before. -/
theorem take_fresh (pool : NamePool) : pool.take.1 ∉ pool.taken := pool.freeNumber_isLeast.1.2

/-! ## Names in a row -/

/-- Names that are drawn are new, and taken from then on. -/
structure Drawn (pool next : NamePool) (names : List String) : Prop where
  keeps : pool.taken ⊆ next.taken
  takes : names ⊆ next.taken
  fresh : ∀ name ∈ names, name ∉ pool.taken
  nodup : names.Nodup

theorem drawn (pool : NamePool) (count : Nat) :
    pool.Drawn (pool.draw count).2 (pool.draw count).1 := by
  induction count with
  | zero => exact ⟨List.Subset.refl _, List.nil_subset _, by simp [draw], List.nodup_nil⟩
  | succ count ih =>
    have new := (pool.draw count).2.take_fresh
    have more : (pool.draw count).2.taken ⊆ (pool.draw count).2.take.2.taken :=
      List.subset_cons_self _ _
    refine ⟨List.Subset.trans ih.keeps more, ?_, ?_, ?_⟩
    · exact List.append_subset.2 ⟨List.Subset.trans ih.takes more, by simp [draw, take]⟩
    · intro name hname
      rcases List.mem_append.1 hname with hname | hname
      · exact ih.fresh name hname
      · rw [List.mem_singleton.1 hname]
        exact fun old => new (ih.keeps old)
    · refine List.nodup_append.2 ⟨ih.nodup, List.nodup_singleton _, ?_⟩
      rintro name hname other hother rfl
      rw [List.mem_singleton.1 hother] at hname
      exact new (ih.takes hname)

/-- A pool that knows no name hands out its numbers one by one. -/
theorem draw_unreserved (stem : String) (count : Nat) :
    let names := (List.range count).map fun number => stem ++ toString number
    ({ stem } : NamePool).draw count = (names, { stem, taken := names.reverse, next := count }) := by
  induction count with
  | zero => rfl
  | succ count ih =>
    let names := (List.range count).map fun number => stem ++ toString number
    let pool : NamePool := { stem, taken := names.reverse, next := count }
    have unknown : pool.candidate count ∉ pool.taken := by
      intro known
      obtain ⟨number, hnumber, same⟩ := List.mem_map.1 (List.mem_reverse.1 known)
      exact Nat.ne_of_lt (List.mem_range.1 hnumber) (pool.candidate_injective same)
    have found : pool.freeNumber = count :=
      Nat.le_antisymm (pool.freeNumber_isLeast.2 ⟨Nat.le_refl _, unknown⟩)
        pool.freeNumber_isLeast.1.1
    have taken : pool.take = (stem ++ toString count,
        { stem, taken := (stem ++ toString count) :: names.reverse, next := count + 1 }) := by
      rw [take, found]
      rfl
    simp only [draw, ih]
    rw [show NamePool.take _ = _ from taken]
    simp [names, List.range_succ]

/-! ## Requests -/

/-- What a ledger notes is what its pool goes by. -/
structure Ledger.Agrees (stem : String) (ledger : Ledger) : Prop where
  stem_eq : ledger.pool.stem = stem
  known_eq : ledger.pool.taken = ledger.known
  behind : ∀ number, ledger.pool.next ≤ number ↔ ∀ tried ∈ ledger.tried, tried < number

theorem Ledger.Agrees.serve {stem : String} {ledger : Ledger} (agrees : ledger.Agrees stem)
    (request : Request) : (ledger.serve request).Agrees stem := by
  cases request with
  | reserve name => exact ⟨agrees.stem_eq, congrArg (name :: ·) agrees.known_eq, agrees.behind⟩
  | take =>
    refine ⟨agrees.stem_eq, congrArg (_ :: ·) agrees.known_eq, fun number => ?_⟩
    have least := ledger.pool.freeNumber_isLeast.1.1
    have tried : (∀ tried ∈ ledger.pool.tries, tried < number) ↔
        ledger.pool.freeNumber < number := by
      simp only [tries, List.mem_range'_1]
      constructor
      · intro all
        exact all _ (by omega)
      · intro behind tried within
        omega
    simp only [Ledger.serve, List.forall_mem_append, tried, ← agrees.behind]
    show ledger.pool.freeNumber + 1 ≤ number ↔ _
    omega

theorem Ledger.agrees_serveAll (stem : String) (requests : List Request) :
    (serveAll stem requests).Agrees stem := by
  unfold serveAll
  suffices ∀ ledger : Ledger, ledger.Agrees stem → (requests.foldl serve ledger).Agrees stem from
    this _ ⟨rfl, rfl, by simp⟩
  induction requests with
  | nil => exact fun ledger agrees => agrees
  | cons request rest ih => exact fun ledger agrees => ih _ (agrees.serve request)

/-- The next name that is handed out after requests: the search for it ends, with the least number
behind all that were tried whose name was neither reserved nor handed out. -/
structure Ledger.HandsOut (stem : String) (ledger : Ledger) (number : Nat) : Prop where
  searched : ledger.pool.Search ledger.pool.next ledger.pool.tries number
  name_eq : ledger.pool.take.1 = stem ++ toString number
  least : IsLeast {free | (∀ tried ∈ ledger.tried, tried < free) ∧
    stem ++ toString free ∉ ledger.known} number

theorem Ledger.Agrees.handsOut {stem : String} {ledger : Ledger} (agrees : ledger.Agrees stem) :
    ledger.HandsOut stem ledger.pool.freeNumber := by
  refine ⟨ledger.pool.search_freeNumber, congrArg (· ++ _) agrees.stem_eq, ?_⟩
  have least := ledger.pool.freeNumber_isLeast
  simpa only [candidate, agrees.stem_eq, agrees.known_eq, agrees.behind] using least

end NamePool

namespace Layout

/-- The names of the padding among entries. -/
def namesOfPadding (entries : List Entry) : List String := (paddings entries).map Field.name

/-- A step has taken no name and put out no padding. Entries may have been moved. -/
structure SameNames (state next : State) : Prop where
  names : next.names = state.names
  perm : (namesOfPadding next.output).Perm (namesOfPadding state.output)

/-- The padding of a state has the names that were drawn from a pool. -/
def Draws (pool : NamePool) (state : State) : Prop :=
  ∃ count, state.names = (pool.draw count).2 ∧
    (namesOfPadding state.output).Perm (pool.draw count).1

variable {rules : Rules} {sizing : Sizing} {state middle next : State} {pool : NamePool}

@[simp] theorem namesOfPadding_append (left right : List Entry) :
    namesOfPadding (left ++ right) = namesOfPadding left ++ namesOfPadding right := by
  simp [namesOfPadding, paddings, byteFields_append]

theorem namesOfPadding_field {field : Field} (role : field.role ≠ .padding) (rest : List Entry) :
    namesOfPadding (.field field :: rest) = namesOfPadding rest := by
  by_cases plain : field.role = .plain
  · simp [namesOfPadding, paddings, byteFields_cons_of_byte (.inl plain), role]
  · have none : (Entry.field field).byteField? = none := by simp [Entry.byteField?, plain, role]
    simp [namesOfPadding, paddings, byteFields_cons_of_not none]

theorem namesOfPadding_padding {field : Field} (role : field.role = .padding)
    (rest : List Entry) :
    namesOfPadding (.field field :: rest) = field.name :: namesOfPadding rest := by
  simp [namesOfPadding, paddings, byteFields_cons_of_byte (.inr role), role]

/-- A tag plays no part. -/
theorem namesOfPadding_tag (field : Field) (tag : Option Nat) (rest : List Entry) :
    namesOfPadding (.field { field with tag } :: rest) = namesOfPadding (.field field :: rest) := by
  by_cases role : field.role = .padding
  · rw [namesOfPadding_padding role, namesOfPadding_padding (by exact role)]
  · rw [namesOfPadding_field role, namesOfPadding_field (by exact role)]

theorem namesOfPadding_perm {left right : List Entry} (perm : left.Perm right) :
    (namesOfPadding left).Perm (namesOfPadding right) :=
  ((perm.filterMap _).filter _).map _

/-! ## States -/

theorem SameNames.trans (h : SameNames state middle) (h' : SameNames middle next) :
    SameNames state next :=
  ⟨h'.names.trans h.names, h'.perm.trans h.perm⟩

theorem names_withCurrent (state : State) (entries : List Entry) :
    (state.withCurrent entries).names = state.names := by
  unfold State.withCurrent
  cases state.scopes <;> rfl

/-- What is put out ends with the entries of the innermost structure. -/
theorem exists_output (state : State) : ∃ before, state.output = before ++ state.current ∧
    ∀ entries, (state.withCurrent entries).output = before ++ entries := by
  obtain ⟨names, cursor, root, scopes, includes, group, lastLine⟩ := state
  cases scopes with
  | nil => exact ⟨[], rfl, fun entries => rfl⟩
  | cons scope outer =>
    let around : State := ⟨names, cursor, root, outer, includes, group, lastLine⟩
    refine ⟨around.output ++ scope.front ++ [Entry.field scope.opening], ?_, fun entries => ?_⟩ <;>
      simp [around, State.output, State.current, State.withCurrent]

theorem output_cons {scope : Scope} {outer : List Scope} (scopes : state.scopes = scope :: outer) :
    state.output = { state with scopes := outer }.output ++ scope.front ++
      .field scope.opening :: scope.body := by
  rw [State.output, scopes]
  rfl

theorem sameNames_push {entries : List Entry} (none : namesOfPadding entries = []) :
    SameNames state (state.push entries) := by
  refine ⟨names_withCurrent .., ?_⟩
  rw [State.output_push, namesOfPadding_append, none, List.append_nil]

theorem sameNames_push_field {field : Field} (role : field.role ≠ .padding) :
    SameNames state (state.push [.field field]) :=
  sameNames_push (namesOfPadding_field role [])

theorem sameNames_closeGroup (state : State) : SameNames state (closeGroup state) := by
  unfold closeGroup
  split
  · exact ⟨rfl, .refl _⟩
  · next group _ =>
    have same : SameNames state { state with group := none } := ⟨rfl, .refl _⟩
    exact same.trans (sameNames_push_field (by simp [groupClosing]))

theorem sameNames_openGroup {member : Field} {group : BitGroup}
    (h : openGroup rules member state = .ok (next, group)) : SameNames state next := by
  unfold openGroup at h
  split at h
  · cases h
  · next container bytes found =>
    obtain ⟨last, plain, -⟩ := container?_eq_some found
    have role := role_of_isPlain plain
    split at h
    · cases h
    · cases h
      obtain ⟨before, output, replaced⟩ := exists_output state
      obtain ⟨init, current⟩ : ∃ init, state.current = init ++ [Entry.field container] :=
        ⟨_, (List.dropLast_append_getLast? _ last).symm⟩
      refine ⟨names_withCurrent .., ?_⟩
      have none : namesOfPadding [.field (containerOpening container),
          .field (containerMarker rules container)] = namesOfPadding [.field container] := by
        rw [namesOfPadding_field (by simp [containerOpening]),
          namesOfPadding_field (by simp [containerMarker, role]),
          namesOfPadding_field (by simp [role])]
      rw [State.replaceLast, replaced, output, current, List.dropLast_concat]
      simp only [namesOfPadding_append, none, List.Perm.refl]

theorem sameNames_bitMember {member : Field} (role : member.role = .bitField)
    (h : bitMember rules member state = .ok next) : SameNames state next := by
  -- A member that was packed is a bit member still.
  have packed_role {group group' : BitGroup} {packed : Field}
      (h : packMember member group = .ok (packed, group')) : packed.role ≠ .padding := by
    rw [(packMember_eq_ok h).1]
    simp [role]
  cases hgroup : state.group with
  | none =>
    simp only [bitMember, hgroup] at h
    obtain ⟨⟨opened, group⟩, hopened, h⟩ := bind_eq_ok.1 h
    obtain ⟨⟨packed, group'⟩, hpacked, h⟩ := bind_eq_ok.1 h
    cases h
    have grouped : SameNames opened { opened with group := some group' } := ⟨rfl, .refl _⟩
    exact ((sameNames_openGroup hopened).trans grouped).trans
      (sameNames_push_field (packed_role hpacked))
  | some group =>
    simp only [bitMember, hgroup, pure_bind] at h
    obtain ⟨⟨packed, group'⟩, hpacked, h⟩ := bind_eq_ok.1 h
    cases h
    have grouped : SameNames state { state with group := some group' } := ⟨rfl, .refl _⟩
    exact grouped.trans (sameNames_push_field (packed_role hpacked))

/-- A structure that is opened comes last and has nothing in it. -/
theorem namesOfPadding_opened {opening : Field} (role : opening.role = .structOpen) (hoists : Bool)
    (around : State) :
    namesOfPadding { around with scopes := { opening, hoists } :: around.scopes }.output =
      namesOfPadding around.output := by
  rw [output_cons rfl, List.append_nil, namesOfPadding_append,
    namesOfPadding_field (by simp [role])]
  exact List.append_nil _

theorem sameNames_openStruct {field : Field} (role : field.role = .structOpen) :
    SameNames state (openStruct rules field state) := by
  have opening_role : { field with offset := state.cursor }.role = .structOpen := role
  unfold openStruct
  split
  · next scopes =>
    refine ⟨rfl, .of_eq ?_⟩
    rw [← scopes]
    exact namesOfPadding_opened opening_role false state
  · next scope outer scopes =>
    dsimp only
    split
    · let around : State := { state with scopes :=
        { scope with opening := { scope.opening with tag := scope.opening.tag <|> field.tag } } ::
          outer }
      have tagged : namesOfPadding around.output = namesOfPadding state.output := by
        rw [output_cons scopes, output_cons rfl]
        simp only [namesOfPadding_append, namesOfPadding_tag]
        rfl
      refine ⟨rfl, .of_eq (Eq.trans ?_ tagged)⟩
      exact namesOfPadding_opened opening_role true around
    · refine ⟨rfl, .of_eq ?_⟩
      rw [← scopes]
      exact namesOfPadding_opened opening_role false state

theorem sameNames_closeStruct {field : Field} (role : field.role = .structClose)
    (h : closeStruct field state = .ok next) : SameNames state next := by
  have closing : namesOfPadding [.field { field with offset := state.cursor }] = [] :=
    namesOfPadding_field (by simp [role]) []
  unfold closeStruct at h
  split at h
  · cases h
  · next scope outer scopes =>
    split at h
    · split at h
      · next around rest _ =>
        cases h
        refine ⟨rfl, ?_⟩
        let below : State := { state with scopes := rest }
        have before : state.output = below.output ++ around.front ++
            .field around.opening :: around.body ++ scope.front ++
              .field scope.opening :: scope.body := by
          rw [output_cons scopes]
          rfl
        have after (here : Scope) : { state with scopes := here :: rest }.output =
            below.output ++ here.front ++ .field here.opening :: here.body := rfl
        -- The block has only moved, and the closing bracket has joined it.
        let end_of_block : Entry := .field { field with offset := state.cursor }
        have moved : List.Perm
            (below.output ++ (around.front ++ (.field scope.opening :: scope.body ++
              [end_of_block])) ++ .field around.opening :: (around.body ++ scope.front))
            (state.output ++ [end_of_block]) := by
          rw [before, List.perm_iff_count]
          intro entry
          simp only [List.count_append, List.count_cons, List.count_nil]
          omega
        rw [after]
        refine (namesOfPadding_perm moved).trans (.of_eq ?_)
        rw [namesOfPadding_append]
        exact (congrArg (namesOfPadding state.output ++ ·) closing).trans (List.append_nil _)
      · cases h
        refine ⟨names_withCurrent .., .of_eq ?_⟩
        rw [State.output_push, output_cons scopes, ← List.append_assoc, ← List.append_assoc,
          namesOfPadding_append, closing, List.append_nil]
    · cases h

/-! ## Names that are drawn -/

theorem Draws.same (draws : Draws pool state) (same : SameNames state next) : Draws pool next := by
  obtain ⟨count, names, perm⟩ := draws
  exact ⟨count, same.names.trans names, same.perm.trans perm⟩

/-- Padding takes the next name. -/
theorem draws_pad (draws : Draws pool state) (cursor gap line : Nat) :
    Draws pool (pad cursor gap line state) := by
  obtain ⟨count, names, perm⟩ := draws
  have taken : (pad cursor gap line state).names = state.names.take.2 := names_withCurrent ..
  have output : (pad cursor gap line state).output = state.output ++
      [Entry.field (paddingField state.names.take.1 cursor gap line)] := State.output_push ..
  refine ⟨count + 1, by rw [taken, names]; rfl, ?_⟩
  rw [output, namesOfPadding_append, names]
  exact perm.append_right _

theorem draws_seek {field : Field} (draws : Draws pool state)
    (h : seek field state = .ok next) : Draws pool next := by
  unfold seek at h
  split at h
  · cases h
    exact draws
  · cases h
    exact draws.same ⟨rfl, .refl _⟩
  · split at h
    · cases h
    · split at h
      · cases h
        exact (draws_pad draws _ _ _).same ⟨rfl, .refl _⟩
      · cases h
        exact draws

theorem draws_place {field : Field} (draws : Draws pool state)
    (role : field.role = .plain) (h : (place sizing field state).outcome = .ok next) :
    Draws pool next := by
  obtain ⟨sought, hseek, h⟩ := Logged.outcome_bind_eq_ok.1 h
  obtain ⟨⟨length, bytes⟩, -, h⟩ := Logged.outcome_bind_eq_ok.1 h
  obtain ⟨cursor, -, h⟩ := Logged.outcome_bind_eq_ok.1 h
  cases h
  have moved : SameNames sought { sought with cursor } := ⟨rfl, .refl _⟩
  exact ((draws_seek draws hseek).same moved).same (sameNames_push_field (by simp [role]))

theorem draws_addField {field : Field} (draws : Draws pool state)
    (declared : field.role ≠ .padding)
    (h : (addField rules sizing field state).outcome = .ok next) : Draws pool next := by
  have noted : Draws pool { state with lastLine := field.line } := draws.same ⟨rfl, .refl _⟩
  have closed := noted.same (sameNames_closeGroup _)
  unfold addField at h
  split at h
  · next role => exact noted.same (sameNames_bitMember role h)
  · next role =>
    cases h
    exact closed.same (sameNames_openStruct role)
  · next role => exact closed.same (sameNames_closeStruct role h)
  · next role =>
    cases h
    exact closed.same (sameNames_push_field (by simp [role]))
  · next role => exact draws_place closed role h
  · next role => exact absurd role declared

theorem draws_step {entry : Entry} (draws : Draws pool state)
    (declared : Unpadded [entry]) (h : (step rules sizing state entry).outcome = .ok next) :
    Draws pool next := by
  have closed := draws.same (sameNames_closeGroup state)
  cases entry with
  | field field => exact draws_addField draws (declared field List.mem_cons_self) h
  | includeOpen path =>
    cases h
    have counted : SameNames (closeGroup state)
      { closeGroup state with includes := (closeGroup state).includes + 1 } := ⟨rfl, .refl _⟩
    exact (closed.same counted).same (sameNames_push rfl)
  | includeClose =>
    simp only [step] at h
    split at h
    · cases h
    · cases h
      have counted : SameNames (closeGroup state)
        { closeGroup state with includes := (closeGroup state).includes - 1 } := ⟨rfl, .refl _⟩
      exact (closed.same counted).same (sameNames_push rfl)

theorem draws_run {entries : List Entry} (draws : Draws pool state)
    (declared : Unpadded entries) (h : (run rules sizing state entries).outcome = .ok next) :
    Draws pool next := by
  induction entries generalizing state with
  | nil =>
    cases h
    exact draws
  | cons entry rest ih =>
    obtain ⟨stepped, hstep, hrun⟩ := Logged.outcome_bind_eq_ok.1 h
    have first : Unpadded [entry] := declared.of_infix ⟨[], rest, rfl⟩
    exact ih (draws_step draws first hstep) (declared.of_infix ⟨[entry], [], by simp⟩) hrun

/-- The padding of a layout has the names that its pool hands out. -/
theorem ofEntries_draws {names : NamePool} {entries : List Entry} {layout : Layout}
    (declared : Unpadded entries)
    (h : (ofEntries rules sizing names entries).outcome = .ok (layout, pool)) :
    ∃ count, (namesOfPadding layout.entries).Perm (names.draw count).1 := by
  obtain ⟨state, hrun, hfinish⟩ := Logged.outcome_bind_eq_ok.1 h
  have start : Draws names { names } := ⟨0, rfl, .refl _⟩
  obtain ⟨count, -, perm⟩ := (draws_run start declared hrun).same (sameNames_closeGroup state)
  simp only [Logged.outcome_ofExcept, finish] at hfinish
  split at hfinish
  · next scopes =>
    cases hfinish
    have output : (closeGroup state).output = (closeGroup state).root := by
      rw [State.output, scopes]
      rfl
    exact ⟨count, output ▸ perm⟩
  · cases hfinish

/-- The padding of a layout has names that differ from each other and from all names that the pool
knew before. -/
theorem ofEntries_namesOfPadding {names pool : NamePool} {entries : List Entry} {layout : Layout}
    (declared : Unpadded entries)
    (h : (ofEntries rules sizing names entries).outcome = .ok (layout, pool)) :
    (namesOfPadding layout.entries).Nodup ∧
      ∀ name ∈ namesOfPadding layout.entries, name ∉ names.taken := by
  obtain ⟨count, perm⟩ := ofEntries_draws declared h
  have drawn := names.drawn count
  exact ⟨perm.nodup_iff.2 drawn.nodup, fun name hname => drawn.fresh name (perm.mem_iff.1 hname)⟩

end Layout
end BoardSchema
