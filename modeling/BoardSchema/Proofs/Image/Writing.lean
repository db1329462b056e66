import BoardSchema.Proofs.Image.RoundTrip
import Mathlib.Order.Bounds.Defs
/-!
Headers in too little room. Whatever pieces a writer takes of what it is offered, it ends up with
the first bytes of the header, as many as there is room for, and the field to blame is the last one
with bytes that starts within the room.
-/
namespace BoardSchema.Image

/-- A writer with room for so many more bytes. It may take less than it is offered, but as long as
there is room it takes something, and it stores what it takes. -/
structure Writer (State : Type) where
  room : State → Nat
  stored : State → Bytes
  /-- The number of bytes that are taken, and the state behind them. -/
  write : State → Bytes → Nat × State
  takes_le : ∀ state bytes, (write state bytes).1 ≤ min (room state) bytes.length
  takes_some : ∀ state bytes, 0 < room state → bytes ≠ [] → 0 < (write state bytes).1
  room_write : ∀ state bytes, room (write state bytes).2 = room state - (write state bytes).1
  stored_write : ∀ state bytes,
    stored (write state bytes).2 = stored state ++ bytes.take (write state bytes).1

namespace Writer

variable {State : Type} (writer : Writer State)

/-- Offers bytes until all are taken, or none of those that are left. -/
def writeAll (state : State) : Bytes → State × Bool
  | [] => (state, true)
  | byte :: rest =>
    match writer.write state (byte :: rest) with
    | (0, state) => (state, false)
    | (count + 1, state) => writeAll state (rest.drop count)
termination_by bytes => bytes.length
decreasing_by
  rw [List.length_drop, List.length_cons]
  omega

/-- Writes field after field. The first that is not taken whole is blamed. -/
def writeSlots (state : State) : List Slot → State × Except HeaderError Unit
  | [] => (state, .ok ())
  | slot :: rest =>
    match writer.writeAll state slot.bytes with
    | (state, true) => writeSlots state rest
    | (state, false) => (state, .error (.noRoom slot.start))

/-- The room that a writer has and what it stores. -/
def sink (state : State) : Sink := ⟨writer.room state, writer.stored state⟩

end Writer

/-- The field starts of slots that lie one behind the other. -/
def Packed (start : Nat) : List Slot → Prop
  | [] => True
  | slot :: rest => slot.start = start ∧ Packed (start + slot.bytes.length) rest

/-- The starts of fields with bytes that are not beyond the room. -/
def reachedStarts (slots : List Slot) (room : Nat) : Set Nat :=
  {start | start ≤ room ∧ ∃ slot ∈ slots, slot.bytes ≠ [] ∧ slot.start = start}

/-- A header whose fields start at these offsets is written as far as there is room. -/
structure WritesPrefix {State : Type} (writer : Writer State) (slots : List Slot)
    (starts : List Nat) (bytes : Bytes) : Prop where
  starts_eq : slots.map Slot.start = starts
  stored : ∀ state, writer.stored (writer.writeSlots state slots).1 =
    writer.stored state ++ bytes.take (writer.room state)
  succeeds_iff : ∀ state,
    (writer.writeSlots state slots).2 = .ok () ↔ bytes.length ≤ writer.room state
  blames : ∀ state error, (writer.writeSlots state slots).2 = .error error →
    ∃ start, error = .noRoom start ∧ IsGreatest (reachedStarts slots (writer.room state)) start

/-! ## Sinks -/

section

variable {slots : List Slot} {sink : Sink} {start : Nat}

theorem written_writeSlots (slots : List Slot) (sink : Sink) :
    (writeSlots slots sink).1.written = sink.written ++ (encode slots).take sink.room := by
  induction slots generalizing sink with
  | nil => simp [writeSlots, encode_nil]
  | cons slot rest ih =>
    rw [writeSlots, encode_cons, List.take_append]
    split
    · next fits => rw [ih, Sink.take, List.append_assoc]
    · next large =>
      have none_left : sink.room - slot.bytes.length = 0 := by omega
      simp [Sink.take, none_left]

theorem writeSlots_eq_ok_iff :
    (writeSlots slots sink).2 = .ok () ↔ (encode slots).length ≤ sink.room := by
  induction slots generalizing sink with
  | nil => simp [writeSlots, encode_nil]
  | cons slot rest ih =>
    rw [writeSlots, encode_cons, List.length_append]
    split
    · next fits =>
      rw [ih]
      simp only [Sink.take]
      omega
    · next large =>
      simp only [reduceCtorEq, false_iff]
      omega

theorem Packed.le_start (packed : Packed start slots) : ∀ slot ∈ slots, start ≤ slot.start := by
  induction slots generalizing start with
  | nil => simp
  | cons slot rest ih =>
    obtain ⟨here, later⟩ := packed
    refine List.forall_mem_cons.2 ⟨Nat.le_of_eq here.symm, fun other mem => ?_⟩
    exact Nat.le_trans (Nat.le_add_right ..) (ih later other mem)

/-- The blamed field starts within the room, and every later field with bytes beyond it. -/
theorem Packed.isGreatest_of_error {error : HeaderError} (packed : Packed start slots)
    (failed : (writeSlots slots sink).2 = .error error) :
    ∃ blamed, error = .noRoom blamed ∧
      IsGreatest (reachedStarts slots (start + sink.room)) blamed := by
  induction slots generalizing start sink with
  | nil => cases failed
  | cons slot rest ih =>
    obtain ⟨here, later⟩ := packed
    rw [writeSlots] at failed
    split at failed
    · next fits =>
      obtain ⟨blamed, rfl, ⟨reached, other, mem, solid, same⟩, greatest⟩ := ih later failed
      have bound : start + slot.bytes.length + (sink.take slot.bytes).room = start + sink.room := by
        simp only [Sink.take]
        omega
      rw [bound] at reached greatest
      refine ⟨blamed, rfl, ⟨reached, other, List.mem_cons_of_mem _ mem, solid, same⟩, ?_⟩
      rintro _ ⟨within, found, mem_found, solid_found, rfl⟩
      rcases List.mem_cons.1 mem_found with rfl | mem_found
      · have behind := later.le_start other mem
        omega
      · exact greatest ⟨within, found, mem_found, solid_found, rfl⟩
    · next large =>
      cases failed
      refine ⟨slot.start, rfl, ⟨by omega, slot, List.mem_cons_self, ?_, rfl⟩, ?_⟩
      · intro empty
        simp [empty] at large
      · rintro _ ⟨within, found, mem_found, -, rfl⟩
        rcases List.mem_cons.1 mem_found with rfl | mem_found
        · exact Nat.le_refl _
        · have behind := later.le_start found mem_found
          omega

end

/-! ## Writers -/

namespace Writer

variable {State : Type} (writer : Writer State)

/-- In as many pieces as a writer likes, it takes what a sink takes at once. -/
theorem sink_writeAll (state : State) (bytes : Bytes) :
    writer.sink (writer.writeAll state bytes).1 = (writer.sink state).take bytes ∧
      ((writer.writeAll state bytes).2 = true ↔ bytes.length ≤ (writer.sink state).room) := by
  fun_induction writer.writeAll state bytes with
  | case1 state => simp [Sink.take, sink]
  | case2 state byte rest after taken =>
    have full : writer.room state = 0 := by
      refine Nat.eq_zero_of_not_pos fun left => ?_
      have takes := writer.takes_some state (byte :: rest) left (List.cons_ne_nil _ _)
      rw [taken] at takes
      exact Nat.lt_irrefl 0 takes
    have room := writer.room_write state (byte :: rest)
    have stored := writer.stored_write state (byte :: rest)
    simp only [taken] at room stored
    simp [Sink.take, sink, room, stored, full]
  | case3 state byte rest count after taken ih =>
    have bound := writer.takes_le state (byte :: rest)
    have room := writer.room_write state (byte :: rest)
    have stored := writer.stored_write state (byte :: rest)
    simp only [taken, List.length_cons] at bound room stored
    obtain ⟨within, some_left⟩ : count + 1 ≤ writer.room state ∧ count ≤ rest.length := by omega
    constructor
    · have pieces : (byte :: rest).take (count + 1) ++
          ((byte :: rest).drop (count + 1)).take (writer.room state - (count + 1)) =
            (byte :: rest).take (writer.room state) := by
        rw [← List.take_add, Nat.add_sub_cancel' within]
      rw [ih.1, Sink.take, Sink.take, sink, sink, room, stored, ← pieces, List.append_assoc]
      refine congrArg (Sink.mk · _) ?_
      simp only [List.length_drop, List.length_cons]
      omega
    · simp only [ih.2, sink, room, List.length_drop, List.length_cons]
      omega

theorem sink_writeSlots (state : State) (slots : List Slot) :
    (writer.sink (writer.writeSlots state slots).1, (writer.writeSlots state slots).2) =
      Image.writeSlots slots (writer.sink state) := by
  induction slots generalizing state with
  | nil => rfl
  | cons slot rest ih =>
    obtain ⟨after, whole⟩ := writer.sink_writeAll state slot.bytes
    rw [writeSlots, Image.writeSlots, ← after]
    generalize writer.writeAll state slot.bytes = result at whole ⊢
    obtain ⟨next, all⟩ := result
    cases all with
    | true =>
      rw [if_pos (whole.1 rfl)]
      exact ih next
    | false =>
      rw [if_neg (mt whole.2 Bool.false_ne_true)]

theorem outcome_writeSlots (state : State) (slots : List Slot) :
    (writer.writeSlots state slots).2 = (Image.writeSlots slots (writer.sink state)).2 :=
  congrArg Prod.snd (writer.sink_writeSlots state slots)

theorem writesPrefix {slots : List Slot} (packed : Packed 0 slots) :
    WritesPrefix writer slots (slots.map Slot.start) (encode slots) where
  starts_eq := rfl
  stored state := by
    have same := congrArg (·.1.written) (writer.sink_writeSlots state slots)
    exact same.trans (written_writeSlots slots (writer.sink state))
  succeeds_iff state := by
    rw [outcome_writeSlots]
    exact writeSlots_eq_ok_iff
  blames state error failed := by
    rw [outcome_writeSlots] at failed
    have blamed := packed.isGreatest_of_error failed
    rwa [Nat.zero_add] at blamed

end Writer

/-! ## Headers -/

theorem PublicKey.packed_slots (header : PublicKey) : Packed 0 header.slots := by
  simp [slots, Packed, length_tag]

theorem Signature.packed_slots (header : Signature) : Packed 0 header.slots := by
  simp [slots, Packed, length_tag]

theorem Compression.packed_slots (header : Compression) : Packed 0 header.slots := by
  simp [slots, Packed, header.algorithm.length_tag]

/-- Every header is written to every writer as far as there is room, and the fields start where the
bytes in front of them end. -/
theorem headers_writePrefix {State : Type} (writer : Writer State) :
    (∀ state slots, Image.writeSlots slots (writer.sink state) =
      (writer.sink (writer.writeSlots state slots).1, (writer.writeSlots state slots).2)) ∧
    (∀ header : PublicKey, WritesPrefix writer header.slots [0, 4, 6, 7, 8] header.toBytes) ∧
    (∀ header : Signature, WritesPrefix writer header.slots [0, 4, 6, 7, 8] header.toBytes) ∧
    (∀ header : Compression, WritesPrefix writer header.slots [0, 4, 8, 12] header.toBytes) :=
  ⟨fun state slots => (writer.sink_writeSlots state slots).symm,
    fun header => writer.writesPrefix header.packed_slots,
    fun header => writer.writesPrefix header.packed_slots,
    fun header => writer.writesPrefix header.packed_slots⟩

namespace Sink

/-- Takes one byte of what is offered, if there is room. -/
def takeOne (sink : Sink) (bytes : Bytes) : Nat × Sink :=
  (min 1 (min sink.room bytes.length), sink.take (bytes.take 1))

theorem takeOne_le (sink : Sink) (bytes : Bytes) :
    (sink.takeOne bytes).1 ≤ min sink.room bytes.length := Nat.min_le_right ..

theorem takeOne_pos (sink : Sink) (bytes : Bytes) (left : 0 < sink.room) (solid : bytes ≠ []) :
    0 < (sink.takeOne bytes).1 := by
  have length := List.length_pos_iff.2 solid
  simp only [takeOne]
  omega

theorem room_takeOne (sink : Sink) (bytes : Bytes) :
    (sink.takeOne bytes).2.room = sink.room - (sink.takeOne bytes).1 := by
  simp only [takeOne, take, List.length_take]
  omega

theorem written_takeOne (sink : Sink) (bytes : Bytes) : (sink.takeOne bytes).2.written =
    sink.written ++ bytes.take (sink.takeOne bytes).1 := by
  simp only [takeOne, take, List.take_take, List.append_cancel_left_eq, List.take_eq_take_iff]
  omega

/-- A writer that takes one byte at a time. -/
def bytewise : Writer Sink where
  room := room
  stored := written
  write := takeOne
  takes_le := takeOne_le
  takes_some := takeOne_pos
  room_write := room_takeOne
  stored_write := written_takeOne

end Sink

/-- Without room for it all, the header of a key of two bytes is cut off inside its size or behind
its head; an empty key cannot be blamed. -/
theorem smallKeys_writePrefix :
    (∃ header, PublicKey.new .rsa [1, 2] = .ok header ∧
      (Sink.bytewise.writeSlots { room := 5 } header.slots).1.written =
        [0x50, 0x55, 0x42, 0x4b, 2] ∧
      (Sink.bytewise.writeSlots { room := 5 } header.slots).2 = .error (.noRoom 4) ∧
      (Sink.bytewise.writeSlots { room := 9 } header.slots).2 = .error (.noRoom 8)) ∧
    ∃ header, PublicKey.new .rsa [] = .ok header ∧
      (Sink.bytewise.writeSlots { room := 7 } header.slots).2 = .error (.noRoom 7) ∧
      (Sink.bytewise.writeSlots { room := 8 } header.slots).2 = .ok () := by
  obtain ⟨same, keys, -, -⟩ := headers_writePrefix Sink.bytewise
  have outcome (room : Nat) (slots : List Slot) :
      (Sink.bytewise.writeSlots { room } slots).2 = (writeSlots slots { room }).2 :=
    (congrArg Prod.snd (same { room } slots)).symm
  refine ⟨⟨⟨.rsa, [1, 2], by decide⟩, rfl, ?_, ?_, ?_⟩, ⟨.rsa, [], by decide⟩, rfl, ?_, ?_⟩
  · exact ((keys ⟨.rsa, [1, 2], by decide⟩).stored { room := 5 }).trans (by decide)
  · exact (outcome 5 _).trans rfl
  · exact (outcome 9 _).trans rfl
  · exact (outcome 7 _).trans rfl
  · exact ((keys ⟨.rsa, [], by decide⟩).succeeds_iff { room := 8 }).2 (by decide)

end BoardSchema.Image
