import BoardSchema.Proofs.Image.RoundTrip
/-!
What the readers of headers accept. A format is a list of demands on a buffer. A reader gives a
header just if the buffer meets them all, and otherwise names the first one that it does not meet.
Reading never goes beyond the end of the buffer, and what was read is written back as it stood
there, with the reserved bytes cleared.
-/
namespace BoardSchema.Image

/-- Something that a format asks of a buffer. -/
inductive Demand where
  /-- There are at least that many bytes. -/
  | size (what : String) (need : Nat)
  /-- One of the tags stands at the start. -/
  | tag (what : String) (tags : List Bytes)
  /-- The byte at the position is one of the codes. -/
  | code (what : String) (position : Nat) (codes : List UInt8)
  /-- The whole payload is there behind the first eight bytes. -/
  | payload (what : String)

/-- The size of the payload as the bytes at 4 and 5 give it. -/
def Declares (buffer : Bytes) (size : Nat) : Prop :=
  ∃ low high, buffer[4]? = some low ∧ buffer[5]? = some high ∧
    size = low.toNat + 256 * high.toNat

namespace Demand

def Met (buffer : Bytes) : Demand → Prop
  | size _ need => need ≤ buffer.length
  | tag _ tags => ∃ found ∈ tags, found <+: buffer
  | code _ position codes => ∃ found ∈ codes, buffer[position]? = some found
  | payload _ => ∃ size, Declares buffer size ∧ 8 + size ≤ buffer.length

/-- What is said of a buffer that does not meet a demand. The bytes that it is about are there. -/
def Says (buffer : Bytes) (error : HeaderError) : Demand → Prop
  | size what need => error = .truncated what need buffer.length
  | tag what tags => ∃ found, found.length = 4 ∧ found <+: buffer ∧
      error = .invalidTag what tags found
  | code what position _ => ∃ found, buffer[position]? = some found ∧
      error = .unknownCode what found
  | payload what => ∃ size, Declares buffer size ∧
      error = .truncated what (8 + size) buffer.length

/-- The error that the first demand that is not met gives. -/
def Refuses (buffer : Bytes) (error : HeaderError) : List Demand → Prop
  | [] => False
  | demand :: rest =>
    (¬demand.Met buffer ∧ demand.Says buffer error) ∨
      (demand.Met buffer ∧ Refuses buffer error rest)

end Demand

/-- There is a result just if all demands are met, and an error just if it is that of the first
demand that is not. -/
structure Answers {α : Type} (buffer : Bytes) (demands : List Demand)
    (outcome : Except HeaderError α) : Prop where
  accepts : (∃ a, outcome = .ok a) ↔ ∀ demand ∈ demands, demand.Met buffer
  refuses : ∀ error, outcome = .error error ↔ Demand.Refuses buffer error demands

/-- The bytes with zero at the reserved positions. -/
def cleared (reserved : List Nat) (bytes : Bytes) : Bytes :=
  reserved.foldl (fun bytes position => bytes.set position 0) bytes

/-- A reader answers to the demands of a format, and a header that it reads is written as the bytes
that it was read from. `Extent` tells how many these are. -/
structure Parses {Header : Type} (ofBytes : Bytes → Except HeaderError Header)
    (toBytes : Header → Bytes) (demands : List Demand) (Extent : Bytes → Nat → Prop)
    (reserved : List Nat) : Prop where
  answers : ∀ buffer, Answers buffer demands (ofBytes buffer)
  reencodes : ∀ buffer header, ofBytes buffer = .ok header → ∃ size, Extent buffer size ∧
    size ≤ buffer.length ∧ toBytes header = cleared reserved (buffer.take size)

/-- The bytes of a buffer from a position on. It is an error if they are not all there. -/
def readAt (buffer : Bytes) (start size : Nat) : Except HeaderError Bytes :=
  if start + size ≤ buffer.length then .ok ((buffer.drop start).take size)
  else .error (.noRoom start)

/-! ## Demands -/

namespace Answers

variable {α : Type} {buffer : Bytes} {demands : List Demand} {outcome : Except HeaderError α}

theorem done (buffer : Bytes) (a : α) : Answers buffer [] (.ok a) where
  accepts := by simp
  refuses := by simp [Demand.Refuses]

/-- What is left to ask where a demand is met decides, and otherwise the demand does. -/
theorem demand {demand : Demand} (met : demand.Met buffer → Answers buffer demands outcome)
    (unmet : ¬demand.Met buffer →
      ∃ error, outcome = .error error ∧ ∀ other, demand.Says buffer other ↔ other = error) :
    Answers buffer (demand :: demands) outcome := by
  by_cases h : demand.Met buffer
  · obtain ⟨accepts, refuses⟩ := met h
    refine ⟨?_, fun error => ?_⟩
    · rw [accepts, List.forall_mem_cons]
      exact ⟨fun rest => ⟨h, rest⟩, And.right⟩
    · rw [refuses error, Demand.Refuses]
      exact ⟨fun rest => .inr ⟨h, rest⟩, fun found => (found.resolve_left fun bad => bad.1 h).2⟩
  · obtain ⟨error, rfl, said⟩ := unmet h
    refine ⟨?_, fun other => ?_⟩
    · rw [List.forall_mem_cons]
      exact ⟨fun ⟨_, found⟩ => (nomatch found), fun all => absurd all.1 h⟩
    · rw [Except.error.injEq, Demand.Refuses, said other]
      exact ⟨fun same => .inl ⟨h, same.symm⟩,
        fun found => (found.resolve_right fun good => h good.1).2.symm⟩

end Answers

/-- No demand has to do with the room of a writer. -/
theorem Demand.not_refuses_noRoom (buffer : Bytes) (offset : Nat) (demands : List Demand) :
    ¬Demand.Refuses buffer (.noRoom offset) demands := by
  induction demands with
  | nil => exact id
  | cons demand rest ih =>
    rintro (⟨-, said⟩ | ⟨-, later⟩)
    · cases demand <;> simp [Demand.Says] at said
    · exact ih later

theorem Parses.ne_noRoom {Header : Type} {ofBytes : Bytes → Except HeaderError Header}
    {toBytes : Header → Bytes} {demands : List Demand} {Extent : Bytes → Nat → Prop}
    {reserved : List Nat} (parses : Parses ofBytes toBytes demands Extent reserved)
    (buffer : Bytes) (offset : Nat) : ofBytes buffer ≠ .error (.noRoom offset) :=
  fun failed => Demand.not_refuses_noRoom buffer offset demands
    (((parses.answers buffer).refuses _).1 failed)

theorem prefix_frame (tag : Bytes) (size : Nat) (sixth seventh : UInt8) (tail : Bytes) :
    tag <+: frame tag size sixth seventh tail :=
  List.prefix_append ..

theorem prefix_unique {left right buffer : Bytes} (h : left <+: buffer) (h' : right <+: buffer)
    (same : left.length = right.length) : left = right :=
  (List.prefix_of_prefix_length_le h h' (Nat.le_of_eq same)).eq_of_length same

theorem readAt_of_le {buffer : Bytes} {start size : Nat} (inside : start + size ≤ buffer.length) :
    readAt buffer start size = .ok ((buffer.drop start).take size) :=
  if_pos inside

/-! ## Buffers of at least a frame -/

theorem littleEndian_toNat (bytes : Bytes) :
    Bits.littleEndian bytes.length (Bits.toNat bytes) = bytes := by
  induction bytes with
  | nil => rfl
  | cons byte rest ih =>
    have low : (byte.toNat + 256 * Bits.toNat rest) % 256 = byte.toNat := by
      have := byte.toNat_lt
      omega
    have high : (byte.toNat + 256 * Bits.toNat rest) / 256 = Bits.toNat rest := by
      have := byte.toNat_lt
      omega
    rw [List.length_cons, Bits.toNat, Bits.littleEndian, low, high, ih, UInt8.ofNat_toNat]

/-- Eight bytes are a frame, whatever they hold. -/
theorem exists_frame {buffer : Bytes} (enough : 8 ≤ buffer.length) :
    ∃ (tag : Bytes) (size : Nat) (sixth seventh : UInt8) (tail : Bytes), tag.length = 4 ∧
      size < 0x10000 ∧ buffer = frame tag size sixth seventh tail ∧
      ∀ declared, Declares buffer declared ↔ declared = size := by
  match buffer, enough with
  | t₀ :: t₁ :: t₂ :: t₃ :: low :: high :: sixth :: seventh :: tail, _ =>
    refine ⟨[t₀, t₁, t₂, t₃], Bits.toNat [low, high], sixth, seventh, tail, rfl, ?_, ?_, ?_⟩
    · have := low.toNat_lt
      have := high.toNat_lt
      simp only [Bits.toNat]
      omega
    · have bytes : Bits.littleEndian 2 (Bits.toNat [low, high]) = [low, high] :=
        littleEndian_toNat [low, high]
      rw [frame, bytes]
      rfl
    · intro declared
      simp [Declares, Bits.toNat]

/-- What a buffer with that tag and a whole payload looks like. -/
theorem eq_frame_of_met {buffer tag : Bytes} {what : String} (four : tag.length = 4)
    (enough : 8 ≤ buffer.length) (tagged : (Demand.tag what [tag]).Met buffer)
    (whole : (Demand.payload what).Met buffer) : ∃ size sixth seventh tail, size < 0x10000 ∧
      Declares buffer size ∧ 8 + size ≤ buffer.length ∧
      buffer = frame tag size sixth seventh tail := by
  obtain ⟨found, size, sixth, seventh, tail, found_four, fits, rfl, declares⟩ := exists_frame enough
  obtain ⟨_, known, start⟩ := tagged
  cases List.mem_singleton.1 known
  cases prefix_unique start (prefix_frame ..) (four.trans found_four.symm)
  obtain ⟨declared, here, whole⟩ := whole
  cases (declares declared).1 here
  exact ⟨size, sixth, seventh, tail, fits, here, whole, rfl⟩

section

variable {tag : Bytes} (four : tag.length = 4) (size : Nat) (sixth seventh : UInt8) (tail : Bytes)
include four

theorem sixth?_frame : (frame tag size sixth seventh tail)[6]? = some sixth := by
  match tag, four with
  | [_, _, _, _], _ => rfl

theorem seventh?_frame : (frame tag size sixth seventh tail)[7]? = some seventh := by
  match tag, four with
  | [_, _, _, _], _ => rfl

/-- A payload that is all there is written as it was read. -/
theorem frame_take (enough : 8 + size ≤ (frame tag size sixth seventh tail).length) :
    frame tag (tail.take size).length sixth seventh (tail.take size) =
      (frame tag size sixth seventh tail).take (8 + size) := by
  rw [length_frame four] at enough
  rw [take_add_frame four, List.length_take, Nat.min_eq_left (by omega)]

/-- Clearing the last byte before the tail. -/
theorem cleared_frame : cleared [7] (frame tag size sixth seventh tail) =
    frame tag size sixth 0 tail := by
  match tag, four with
  | [_, _, _, _], _ => rfl

end

/-! ## Answering to one demand after the other -/

/-- A code is read as what it stands for, and is unknown if it is not among the codes. -/
def Decodes {α : Type} (ofCode : UInt8 → Except HeaderError α) (toCode : α → UInt8)
    (what : String) (codes : List UInt8) : Prop :=
  ∀ code, (code ∈ codes ∧ ∃ a, ofCode code = .ok a ∧ toCode a = code) ∨
    (code ∉ codes ∧ ofCode code = .error (.unknownCode what code))

theorem Decodes.exists_of_mem {α : Type} {ofCode : UInt8 → Except HeaderError α}
    {toCode : α → UInt8} {what : String} {codes : List UInt8}
    (decodes : Decodes ofCode toCode what codes) {code : UInt8} (known : code ∈ codes) :
    ∃ a, toCode a = code :=
  match decodes code with
  | .inl ⟨_, a, _, same⟩ => ⟨a, same⟩
  | .inr ⟨unknown, _⟩ => absurd known unknown

namespace Answers

variable {α β : Type} {buffer : Bytes} {demands : List Demand} {what : String}

theorem size {need : Nat} {next : Unit → Except HeaderError α}
    (h : need ≤ buffer.length → Answers buffer demands (next ())) :
    Answers buffer (.size what need :: demands) (ensureSize buffer need what >>= next) := by
  refine .demand (fun met => ?_) (fun unmet => ?_)
  · rw [ensureSize_of_le what met]
    exact h met
  · rw [ensureSize_of_lt what (Nat.lt_of_not_le unmet)]
    exact ⟨_, rfl, fun _ => Iff.rfl⟩

theorem payload {declared : Nat} {next : Unit → Except HeaderError α}
    (declares : ∀ size, Declares buffer size ↔ size = declared)
    (h : 8 + declared ≤ buffer.length → Answers buffer demands (next ())) :
    Answers buffer (.payload what :: demands)
      (ensureSize buffer (8 + declared) what >>= next) := by
  refine .demand (fun met => ?_) (fun unmet => ?_)
  · obtain ⟨size, here, enough⟩ := met
    cases (declares size).1 here
    rw [ensureSize_of_le what enough]
    exact h enough
  · have short : buffer.length < 8 + declared :=
      Nat.lt_of_not_le fun enough => unmet ⟨declared, (declares declared).2 rfl, enough⟩
    rw [ensureSize_of_lt what short]
    refine ⟨_, rfl, fun other => ?_⟩
    simp [Demand.Says, declares]

theorem code {ofCode : UInt8 → Except HeaderError β} {toCode : β → UInt8} {codes : List UInt8}
    {position : Nat} {value : UInt8} {next : β → Except HeaderError α}
    (decodes : Decodes ofCode toCode what codes) (found : buffer[position]? = some value)
    (h : ∀ b, ofCode value = .ok b → toCode b = value → Answers buffer demands (next b)) :
    Answers buffer (.code what position codes :: demands) (ofCode value >>= next) := by
  rcases decodes value with ⟨known, b, read, same⟩ | ⟨unknown, failed⟩
  · refine .demand (fun _ => ?_) (fun unmet => absurd ⟨value, known, found⟩ unmet)
    rw [read]
    exact h b read same
  · refine .demand (fun met => ?_) (fun _ => ?_)
    · obtain ⟨other, known, there⟩ := met
      cases found.symm.trans there
      exact absurd known unknown
    · rw [failed]
      refine ⟨_, rfl, fun other => ?_⟩
      simp [Demand.Says, found]

theorem tag {found expected : Bytes} (four : found.length = 4) (length : expected.length = 4)
    (start : found <+: buffer) {next : Unit → Except HeaderError α}
    (h : found = expected → Answers buffer demands (next ())) :
    Answers buffer (.tag what [expected] :: demands)
      (if found ≠ expected then throw (.invalidTag what [expected] found) >>= next
        else next ()) := by
  refine .demand (fun met => ?_) (fun unmet => ?_)
  · obtain ⟨other, known, there⟩ := met
    cases List.mem_singleton.1 known
    have same := prefix_unique there start (length.trans four.symm)
    rw [if_neg fun differ => differ same.symm]
    exact h same.symm
  · have differ : found ≠ expected := by
      rintro rfl
      exact unmet ⟨found, by simp, start⟩
    rw [if_pos differ]
    refine ⟨_, rfl, fun other => ⟨?_, fun same => ⟨found, four, start, same⟩⟩⟩
    rintro ⟨quoted, quoted_four, there, rfl⟩
    rw [prefix_unique there start (quoted_four.trans four.symm)]

end Answers

/-! ## Reads inside the buffer -/

theorem readAt_one {buffer : Bytes} {position : Nat} (inside : position + 1 ≤ buffer.length) :
    readAt buffer position 1 = .ok [buffer.getD position 0] := by
  rw [readAt_of_le inside, List.drop_eq_getElem_cons inside, List.getD_eq_getElem?_getD,
    List.getElem?_eq_getElem inside]
  rfl

/-- Behind a guard the buffer has the size that was asked for. -/
theorem ensureSize_bind_congr {α : Type} {buffer : Bytes} {need : Nat} {what : String}
    {next next' : Unit → Except HeaderError α} (h : need ≤ buffer.length → next () = next' ()) :
    (ensureSize buffer need what >>= next) = (ensureSize buffer need what >>= next') := by
  rcases Nat.lt_or_ge buffer.length need with short | enough
  · rw [ensureSize_of_lt what short]
    rfl
  · rw [ensureSize_of_le what enough]
    exact h enough

/-! ## Public keys -/

theorem KeyType.decodes : Decodes ofCode code "key type" [1] := by
  intro code
  unfold ofCode
  split
  · next one => exact .inl ⟨by simp [one], .rsa, rfl, one.symm⟩
  · next other => exact .inr ⟨by simpa using other, rfl⟩

namespace PublicKey

def demands : List Demand :=
  [.size "public key header" 8, .tag "public key" [tag], .code "key type" 6 [1],
    .payload "public key"]

/-- Reads a header like `ofBytes`, with each read checked on its own. -/
def ofReads (buffer : Bytes) : Except HeaderError PublicKey := do
  ensureSize buffer fixedSize "public key header"
  let found ← readAt buffer 0 4
  if found ≠ tag then throw (.invalidTag "public key" [tag] found)
  let keySize ← readAt buffer 4 2
  let code ← readAt buffer 6 1
  let keyType ← KeyType.ofCode (code.headD 0)
  let _reserved ← readAt buffer 7 1
  ensureSize buffer (fixedSize + Bits.toNat keySize) "public key"
  let key ← readAt buffer fixedSize (Bits.toNat keySize)
  new keyType key

theorem answers (buffer : Bytes) : Answers buffer demands (ofBytes buffer) := by
  refine .size fun enough => ?_
  obtain ⟨found, size, sixth, seventh, tail, four, fits, rfl, declares⟩ := exists_frame enough
  rw [take_frame four, numberAt_frame four _ _ _ _ fits, sixth_frame four]
  refine .tag four length_tag (prefix_frame ..) fun _ => ?_
  refine .code KeyType.decodes (sixth?_frame four ..) fun keyType _ _ => ?_
  refine .payload declares fun _ => ?_
  have small : ((List.drop fixedSize (frame found size sixth seventh tail)).take size).length <
      0x10000 := by
    rw [List.length_take]
    omega
  rw [new, dif_pos small]
  exact .done _ _

theorem ofBytes_eq_ofReads (buffer : Bytes) : ofBytes buffer = ofReads buffer := by
  refine ensureSize_bind_congr fun enough => ?_
  have enough : 8 ≤ buffer.length := enough
  rw [readAt_of_le (by omega), readAt_of_le (by omega), readAt_one (by omega),
    readAt_one (by omega)]
  refine ite_congr rfl (fun _ => rfl) fun _ => bind_congr fun keyType => ?_
  refine ensureSize_bind_congr fun whole => ?_
  have whole : fixedSize + Bits.toNat ((buffer.drop 4).take 2) ≤ buffer.length := whole
  rw [readAt_of_le whole]
  rfl

theorem parses : Parses ofBytes toBytes demands
    (fun buffer size => ∃ declared, Declares buffer declared ∧ size = 8 + declared) [7] where
  answers := answers
  reencodes buffer header read := by
    have met := (answers buffer).accepts.1 ⟨header, read⟩
    obtain ⟨size, sixth, seventh, tail, fits, declares, whole, rfl⟩ := eq_frame_of_met length_tag
      (met (.size "public key header" 8) (by simp [demands]))
      (met (.tag "public key" [tag]) (by simp [demands]))
      (met (.payload "public key") (by simp [demands]))
    obtain ⟨_, known, found⟩ := met (.code "key type" 6 [1]) (by simp [demands])
    cases found.symm.trans (sixth?_frame length_tag ..)
    obtain ⟨keyType, rfl⟩ := KeyType.decodes.exists_of_mem known
    have small := Nat.lt_of_le_of_lt (List.length_take_le size tail) fits
    rw [ofBytes_frame keyType fits, ensureSize_of_le _ whole] at read
    cases (dif_pos small).symm.trans read
    refine ⟨8 + size, ⟨size, declares, rfl⟩, whole, ?_⟩
    rw [← frame_take length_tag _ _ _ _ whole, cleared_frame length_tag, toBytes_eq]

end PublicKey

/-! ## Signatures -/

theorem SignatureScheme.decodes : Decodes ofCode code "signature scheme" [1, 2] := by
  intro code
  unfold ofCode
  split
  · next one => exact .inl ⟨by simp [one], .rsaPkcs1, rfl, one.symm⟩
  · split
    · next two => exact .inl ⟨by simp [two], .rsaPss, rfl, two.symm⟩
    · next one two => exact .inr ⟨by simp [one, two], rfl⟩

theorem HashAlgorithm.decodes : Decodes ofCode code "hash algorithm" [1, 2, 3, 4] := by
  intro code
  unfold ofCode
  split
  · next one => exact .inl ⟨by simp [one], .sha256, rfl, one.symm⟩
  · split
    · next two => exact .inl ⟨by simp [two], .sha384, rfl, two.symm⟩
    · split
      · next three => exact .inl ⟨by simp [three], .sha512, rfl, three.symm⟩
      · split
        · next four => exact .inl ⟨by simp [four], .sm3, rfl, four.symm⟩
        · next one two three four => exact .inr ⟨by simp [one, two, three, four], rfl⟩

namespace Signature

/-- The scheme is judged before the hash algorithm. -/
def demands : List Demand :=
  [.size "signature header" 8, .tag "signature" [tag], .code "signature scheme" 6 [1, 2],
    .code "hash algorithm" 7 [1, 2, 3, 4], .payload "signature"]

/-- Reads a header like `ofBytes`, with each read checked on its own. -/
def ofReads (buffer : Bytes) : Except HeaderError Signature := do
  ensureSize buffer fixedSize "signature header"
  let found ← readAt buffer 0 4
  if found ≠ tag then throw (.invalidTag "signature" [tag] found)
  let signatureSize ← readAt buffer 4 2
  let schemeCode ← readAt buffer 6 1
  let scheme ← SignatureScheme.ofCode (schemeCode.headD 0)
  let hashCode ← readAt buffer 7 1
  let hash ← HashAlgorithm.ofCode (hashCode.headD 0)
  ensureSize buffer (fixedSize + Bits.toNat signatureSize) "signature"
  let signature ← readAt buffer fixedSize (Bits.toNat signatureSize)
  new scheme hash signature

theorem answers (buffer : Bytes) : Answers buffer demands (ofBytes buffer) := by
  refine .size fun enough => ?_
  obtain ⟨found, size, sixth, seventh, tail, four, fits, rfl, declares⟩ := exists_frame enough
  rw [take_frame four, numberAt_frame four _ _ _ _ fits, sixth_frame four, seventh_frame four]
  refine .tag four length_tag (prefix_frame ..) fun _ => ?_
  refine .code SignatureScheme.decodes (sixth?_frame four ..) fun scheme _ _ => ?_
  refine .code HashAlgorithm.decodes (seventh?_frame four ..) fun hash _ _ => ?_
  refine .payload declares fun _ => ?_
  have small : ((List.drop fixedSize (frame found size sixth seventh tail)).take size).length ≤
      0xffff := by
    rw [List.length_take]
    omega
  rw [new, dif_pos small]
  exact .done _ _

theorem ofBytes_eq_ofReads (buffer : Bytes) : ofBytes buffer = ofReads buffer := by
  refine ensureSize_bind_congr fun enough => ?_
  have enough : 8 ≤ buffer.length := enough
  rw [readAt_of_le (by omega), readAt_of_le (by omega), readAt_one (by omega),
    readAt_one (by omega)]
  refine ite_congr rfl (fun _ => rfl) fun _ => ?_
  refine bind_congr fun scheme => bind_congr fun hash => ensureSize_bind_congr fun whole => ?_
  have whole : fixedSize + Bits.toNat ((buffer.drop 4).take 2) ≤ buffer.length := whole
  rw [readAt_of_le whole]
  rfl

theorem parses : Parses ofBytes toBytes demands
    (fun buffer size => ∃ declared, Declares buffer declared ∧ size = 8 + declared) [] where
  answers := answers
  reencodes buffer header read := by
    have met := (answers buffer).accepts.1 ⟨header, read⟩
    obtain ⟨size, sixth, seventh, tail, fits, declares, whole, rfl⟩ := eq_frame_of_met length_tag
      (met (.size "signature header" 8) (by simp [demands]))
      (met (.tag "signature" [tag]) (by simp [demands]))
      (met (.payload "signature") (by simp [demands]))
    obtain ⟨_, known, found⟩ := met (.code "signature scheme" 6 [1, 2]) (by simp [demands])
    cases found.symm.trans (sixth?_frame length_tag ..)
    obtain ⟨scheme, rfl⟩ := SignatureScheme.decodes.exists_of_mem known
    obtain ⟨_, known, found⟩ := met (.code "hash algorithm" 7 [1, 2, 3, 4]) (by simp [demands])
    cases found.symm.trans (seventh?_frame length_tag ..)
    obtain ⟨hash, rfl⟩ := HashAlgorithm.decodes.exists_of_mem known
    have small := Nat.le_of_lt_succ (Nat.lt_of_le_of_lt (List.length_take_le size tail) fits)
    rw [ofBytes_frame scheme hash fits, ensureSize_of_le _ whole] at read
    cases (dif_pos small).symm.trans read
    refine ⟨8 + size, ⟨size, declares, rfl⟩, whole, ?_⟩
    rw [← frame_take length_tag _ _ _ _ whole, toBytes_eq]
    rfl

end Signature

/-! ## The header of a compressed image -/

/-- A tag is that of an algorithm, or it is refused. -/
theorem CompressionAlgorithm.ofTag_cases (found : Bytes) :
    (∃ algorithm : CompressionAlgorithm, ofTag found = .ok algorithm ∧ algorithm.tag = found) ∨
      (∀ algorithm : CompressionAlgorithm, algorithm.tag ≠ found) ∧
        ofTag found = .error (.invalidTag "compression" (all.map tag) found) := by
  have mem_all : ∀ algorithm : CompressionAlgorithm, algorithm ∈ all := by
    intro algorithm
    cases algorithm <;> simp [all]
  unfold ofTag
  cases h : all.find? (·.tag == found) with
  | some algorithm => exact .inl ⟨algorithm, rfl, by simpa using List.find?_some h⟩
  | none =>
    refine .inr ⟨fun algorithm same => ?_, rfl⟩
    simpa [same] using List.find?_eq_none.1 h algorithm (mem_all algorithm)

theorem littleEndian_word (b₀ b₁ b₂ b₃ : UInt8) :
    Bits.littleEndian 4 (UInt32.ofNat (Bits.toNat [b₀, b₁, b₂, b₃])).toNat = [b₀, b₁, b₂, b₃] := by
  have fits : Bits.toNat [b₀, b₁, b₂, b₃] < 2 ^ 32 := by
    have := b₀.toNat_lt
    have := b₁.toNat_lt
    have := b₂.toNat_lt
    have := b₃.toNat_lt
    simp only [Bits.toNat]
    omega
  rw [UInt32.toNat_ofNat_of_lt' fits]
  exact littleEndian_toNat [b₀, b₁, b₂, b₃]

namespace Compression

def demands : List Demand :=
  [.size "compression header" 16, .tag "compression" (CompressionAlgorithm.all.map (·.tag))]

/-- Reads a header like `ofBytes`, with each read checked on its own. -/
def ofReads (buffer : Bytes) : Except HeaderError Compression := do
  ensureSize buffer fixedSize "compression header"
  let found ← readAt buffer 0 4
  let algorithm ← CompressionAlgorithm.ofTag found
  let compressed ← readAt buffer 4 4
  let uncompressed ← readAt buffer 8 4
  return {
    algorithm
    compressed := UInt32.ofNat (Bits.toNat compressed)
    uncompressed := UInt32.ofNat (Bits.toNat uncompressed) }

theorem ofBytes_eq_ofReads (buffer : Bytes) : ofBytes buffer = ofReads buffer := by
  refine ensureSize_bind_congr fun enough => ?_
  have enough : 16 ≤ buffer.length := enough
  rw [readAt_of_le (by omega), readAt_of_le (by omega), readAt_of_le (by omega)]
  rfl

theorem answers (buffer : Bytes) : Answers buffer demands (ofBytes buffer) := by
  refine .size fun enough => ?_
  have enough : 16 ≤ buffer.length := enough
  have four : (buffer.take 4).length = 4 := by
    rw [List.length_take]
    omega
  have start : buffer.take 4 <+: buffer := List.take_prefix ..
  rcases CompressionAlgorithm.ofTag_cases (buffer.take 4) with
    ⟨algorithm, known, same⟩ | ⟨unknown, failed⟩
  · refine .demand (fun _ => ?_) fun unmet => absurd ⟨algorithm.tag, ?_, same ▸ start⟩ unmet
    · rw [known]
      exact .done _ _
    · cases algorithm <;> simp [CompressionAlgorithm.all]
  · refine .demand (fun ⟨tag, known, there⟩ => ?_) fun _ => ?_
    · obtain ⟨algorithm, -, rfl⟩ := List.mem_map.1 known
      exact absurd (prefix_unique there start (algorithm.length_tag.trans four.symm))
        (unknown algorithm)
    · rw [failed]
      refine ⟨_, rfl, fun other => ⟨?_, fun same => ⟨_, four, start, same⟩⟩⟩
      rintro ⟨quoted, quoted_four, there, rfl⟩
      rw [prefix_unique there start (quoted_four.trans four.symm)]

/-- The numbers of a header are written where they were read. -/
theorem toBytes_read {algorithm : CompressionAlgorithm} {buffer : Bytes}
    (enough : 16 ≤ buffer.length) (tagged : algorithm.tag = buffer.take 4) :
    toBytes ⟨algorithm, UInt32.ofNat (numberAt buffer 4 4), UInt32.ofNat (numberAt buffer 8 4)⟩ =
      cleared [12, 13, 14, 15] (buffer.take 16) := by
  match buffer, enough with
  | _ :: _ :: _ :: _ :: c₀ :: c₁ :: c₂ :: c₃ :: u₀ :: u₁ :: u₂ :: u₃ :: _ :: _ :: _ :: _ :: _, _ =>
    have compressed := littleEndian_word c₀ c₁ c₂ c₃
    have uncompressed := littleEndian_word u₀ u₁ u₂ u₃
    simp only [toBytes, slots, encode_cons, encode_nil, tagged, numberAt, List.take, List.drop,
      compressed, uncompressed]
    rfl

theorem parses : Parses ofBytes toBytes demands (fun _ size => size = 16) [12, 13, 14, 15] where
  answers := answers
  reencodes buffer header read := by
    have enough : fixedSize ≤ buffer.length := (answers buffer).accepts.1 ⟨header, read⟩
      (.size "compression header" 16) (by simp [demands])
    refine ⟨16, rfl, enough, ?_⟩
    unfold ofBytes at read
    rw [ensureSize_of_le _ enough] at read
    rcases CompressionAlgorithm.ofTag_cases (buffer.take 4) with
      ⟨algorithm, known, tagged⟩ | ⟨-, failed⟩
    · rw [known] at read
      cases read
      exact toBytes_read enough tagged
    · rw [failed] at read
      cases read

end Compression

/-- The readers of headers accept what their formats demand and refuse the rest because of the first
demand that is not met. No read goes beyond the end of the buffer. A header that was read is written
as it stood there, but for its reserved bytes. -/
theorem headers_parse :
    (Parses PublicKey.ofBytes PublicKey.toBytes PublicKey.demands
        (fun buffer size => ∃ declared, Declares buffer declared ∧ size = 8 + declared) [7] ∧
      ∀ buffer, PublicKey.ofBytes buffer = PublicKey.ofReads buffer) ∧
    (Parses Signature.ofBytes Signature.toBytes Signature.demands
        (fun buffer size => ∃ declared, Declares buffer declared ∧ size = 8 + declared) [] ∧
      ∀ buffer, Signature.ofBytes buffer = Signature.ofReads buffer) ∧
    (Parses Compression.ofBytes Compression.toBytes Compression.demands
        (fun _ size => size = 16) [12, 13, 14, 15] ∧
      ∀ buffer, Compression.ofBytes buffer = Compression.ofReads buffer) ∧
    ∀ buffer offset, PublicKey.ofBytes buffer ≠ .error (.noRoom offset) ∧
      Signature.ofBytes buffer ≠ .error (.noRoom offset) ∧
      Compression.ofBytes buffer ≠ .error (.noRoom offset) :=
  ⟨⟨PublicKey.parses, PublicKey.ofBytes_eq_ofReads⟩,
    ⟨Signature.parses, Signature.ofBytes_eq_ofReads⟩,
    ⟨Compression.parses, Compression.ofBytes_eq_ofReads⟩,
    fun buffer offset => ⟨PublicKey.parses.ne_noRoom buffer offset,
      Signature.parses.ne_noRoom buffer offset, Compression.parses.ne_noRoom buffer offset⟩⟩

/-- The tag is judged before the code of the key type. -/
example : PublicKey.ofBytes [0x50, 0x55, 0x42, 0, 9, 0, 7, 0] =
    .error (.invalidTag "public key" [PublicKey.tag] [0x50, 0x55, 0x42, 0]) := rfl

end BoardSchema.Image
