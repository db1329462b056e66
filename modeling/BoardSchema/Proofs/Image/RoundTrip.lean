import BoardSchema.Image.Compression
import BoardSchema.Image.PublicKey
import BoardSchema.Image.Signature
/-!
Headers that are written can be read. What is read gives back the header, whatever follows it, and
a part of a header is refused with the number of bytes that it lacks. No size is cut off: what does
not fit its field is no header.
-/
namespace BoardSchema.Image

/-- Reading gives back a header in front of any bytes, and refuses whatever stops before the last of
its own. The first `fixed` of them tell how many there are in all. -/
structure Undoes {Header : Type} (ofBytes : Bytes → Except HeaderError Header) (header : Header)
    (bytes : Bytes) (fixed size : Nat) (head whole : String) : Prop where
  length_eq : bytes.length = size
  decodes : ∀ rest, ofBytes (bytes ++ rest) = .ok header
  refuses_head : ∀ count < fixed,
    ofBytes (bytes.take count) = .error (.truncated head fixed count)
  refuses_part : ∀ count, fixed ≤ count → count < size →
    ofBytes (bytes.take count) = .error (.truncated whole size count)

theorem ensureSize_of_le {buffer : Bytes} {need : Nat} (what : String)
    (enough : need ≤ buffer.length) : ensureSize buffer need what = .ok () :=
  if_neg (Nat.not_lt.2 enough)

theorem ensureSize_of_lt {buffer : Bytes} {need : Nat} (what : String)
    (short : buffer.length < need) :
    ensureSize buffer need what = .error (.truncated what need buffer.length) :=
  if_pos short

/-- A writer with enough room takes all fields. -/
theorem writeSlots_of_le (slots : List Slot) (sink : Sink)
    (enough : (encode slots).length ≤ sink.room) :
    writeSlots slots sink =
      ({ room := sink.room - (encode slots).length, written := sink.written ++ encode slots },
        .ok ()) := by
  induction slots generalizing sink with
  | nil => simp [writeSlots, encode_nil]
  | cons slot rest ih =>
    rw [encode_cons, List.length_append] at enough
    have fits : slot.bytes.length ≤ sink.room := by omega
    have whole : slot.bytes.take sink.room = slot.bytes := List.take_of_length_le fits
    have enough : (encode rest).length ≤ (sink.take slot.bytes).room := Nat.le_sub_of_add_le' enough
    rw [writeSlots, if_pos fits, ih _ enough]
    simp [Sink.take, whole, Nat.sub_sub]

/-! ## Headers with a payload -/

/-- A tag, a size of two bytes and two bytes more, and what follows them. -/
def frame (tag : Bytes) (size : Nat) (sixth seventh : UInt8) (tail : Bytes) : Bytes :=
  tag ++ (Bits.littleEndian 2 size ++ sixth :: seventh :: tail)

section

variable {tag : Bytes} (four : tag.length = 4) (size : Nat) (sixth seventh : UInt8) (tail : Bytes)
include four

theorem length_frame : (frame tag size sixth seventh tail).length = 8 + tail.length := by
  simp only [frame, List.length_append, Bits.length_littleEndian, List.length_cons, four]
  omega

theorem take_frame : (frame tag size sixth seventh tail).take 4 = tag :=
  List.take_left' four

theorem numberAt_frame (fits : size < 0x10000) :
    numberAt (frame tag size sixth seventh tail) 4 2 = size := by
  rw [numberAt, frame, List.drop_left' four, List.take_left' (Bits.length_littleEndian ..),
    Bits.toNat_littleEndian]
  exact Nat.mod_eq_of_lt fits

theorem sixth_frame : (frame tag size sixth seventh tail).getD 6 0 = sixth := by
  match tag, four with
  | [_, _, _, _], _ => rfl

theorem seventh_frame : (frame tag size sixth seventh tail).getD 7 0 = seventh := by
  match tag, four with
  | [_, _, _, _], _ => rfl

theorem drop_frame (count : Nat) :
    (frame tag size sixth seventh tail).drop (8 + count) = tail.drop count := by
  match tag, four with
  | [_, _, _, _], _ => rw [Nat.add_comm]; rfl

theorem take_add_frame (count : Nat) : (frame tag size sixth seventh tail).take (8 + count) =
    frame tag size sixth seventh (tail.take count) := by
  match tag, four with
  | [_, _, _, _], _ => rw [Nat.add_comm]; rfl

end

/-- A reader that sees a frame through to its tail needs the whole payload there and looks at no
byte behind it. -/
theorem Undoes.of_frame {Header : Type} {ofBytes accept : Bytes → Except HeaderError Header}
    {header : Header} {tag payload : Bytes} {sixth seventh : UInt8} {head whole : String}
    (four : tag.length = 4)
    (short : ∀ buffer : Bytes, buffer.length < 8 →
      ofBytes buffer = .error (.truncated head 8 buffer.length))
    (framed : ∀ tail : Bytes, ofBytes (frame tag payload.length sixth seventh tail) = (do
      ensureSize (frame tag payload.length sixth seventh tail) (8 + payload.length) whole
      accept (tail.take payload.length)))
    (accepts : accept payload = .ok header) :
    Undoes ofBytes header (frame tag payload.length sixth seventh payload) 8 (8 + payload.length)
      head whole where
  length_eq := length_frame four ..
  decodes rest := by
    have joined : frame tag payload.length sixth seventh payload ++ rest =
        frame tag payload.length sixth seventh (payload ++ rest) := by simp [frame]
    rw [joined, framed, ensureSize_of_le _ (by simp [length_frame four]), List.take_left]
    exact accepts
  refuses_head count fewer := by
    have length : ((frame tag payload.length sixth seventh payload).take count).length = count := by
      rw [List.length_take, length_frame four]
      omega
    rw [short _ (by omega), length]
  refuses_part count enough fewer := by
    -- All that the head tells is there, so the size is known and only payload is missing.
    obtain ⟨more, rfl⟩ := Nat.exists_eq_add_of_le enough
    have length : (frame tag payload.length sixth seventh (payload.take more)).length =
        8 + more := by
      rw [length_frame four, List.length_take]
      omega
    rw [take_add_frame four, framed, ensureSize_of_lt _ (by omega), length]
    rfl

/-! ### Public keys -/

theorem KeyType.ofCode_code : ∀ keyType : KeyType, ofCode keyType.code = .ok keyType
  | .rsa => rfl

namespace PublicKey

theorem new_eq_error_iff {keyType : KeyType} {key : Bytes} {error : HeaderError} :
    new keyType key = .error error ↔
      0xffff < key.length ∧ error = .payloadTooLarge "public key" key.length 16 := by
  unfold new
  split
  · simp only [reduceCtorEq, false_iff]
    omega
  · rw [Except.error.injEq]
    exact ⟨fun same => ⟨by omega, same.symm⟩, fun large => large.2.symm⟩

theorem length_tag : tag.length = 4 := rfl

theorem toBytes_eq (header : PublicKey) : header.toBytes =
    frame tag header.key.length header.keyType.code 0 header.key := by
  simp [toBytes, slots, encode_nil, frame]

theorem ofBytes_short {buffer : Bytes} (short : buffer.length < 8) :
    ofBytes buffer = .error (.truncated "public key header" 8 buffer.length) := by
  unfold ofBytes fixedSize
  rw [ensureSize_of_lt _ short]
  rfl

/-- What is read once the tag, the size and the type of the key are seen. -/
theorem ofBytes_frame (keyType : KeyType) {size : Nat} (fits : size < 0x10000) (reserved : UInt8)
    (tail : Bytes) : ofBytes (frame tag size keyType.code reserved tail) =
      (do
        ensureSize (frame tag size keyType.code reserved tail) (8 + size) "public key"
        new keyType (tail.take size)) := by
  have rest : (frame tag size keyType.code reserved tail).drop fixedSize = tail :=
    drop_frame length_tag size keyType.code reserved tail 0
  unfold ofBytes
  rw [ensureSize_of_le _ (by rw [length_frame length_tag]; exact Nat.le_add_right 8 _),
    take_frame length_tag, numberAt_frame length_tag _ _ _ _ fits, sixth_frame length_tag, rest,
    KeyType.ofCode_code]
  rfl

theorem undoes (header : PublicKey) : Undoes ofBytes header header.toBytes 8 header.size
    "public key header" "public key" := by
  rw [toBytes_eq]
  exact .of_frame length_tag (fun _ => ofBytes_short) (ofBytes_frame _ header.fits _)
    (dif_pos header.fits)

end PublicKey

/-! ### Signatures -/

theorem SignatureScheme.ofCode_code : ∀ scheme : SignatureScheme, ofCode scheme.code = .ok scheme
  | .rsaPkcs1 => rfl
  | .rsaPss => rfl

theorem HashAlgorithm.ofCode_code : ∀ hash : HashAlgorithm, ofCode hash.code = .ok hash
  | .sha256 => rfl
  | .sha384 => rfl
  | .sha512 => rfl
  | .sm3 => rfl

namespace Signature

theorem new_eq_error_iff {scheme : SignatureScheme} {hash : HashAlgorithm} {signature : Bytes}
    {error : HeaderError} : new scheme hash signature = .error error ↔
      0xffff < signature.length ∧ error = .payloadTooLarge "signature" signature.length 16 := by
  unfold new
  split
  · simp only [reduceCtorEq, false_iff]
    omega
  · rw [Except.error.injEq]
    exact ⟨fun same => ⟨by omega, same.symm⟩, fun large => large.2.symm⟩

theorem length_tag : tag.length = 4 := rfl

theorem toBytes_eq (header : Signature) : header.toBytes =
    frame tag header.signature.length header.scheme.code header.hash.code header.signature := by
  simp [toBytes, slots, encode_nil, frame]

theorem ofBytes_short {buffer : Bytes} (short : buffer.length < 8) :
    ofBytes buffer = .error (.truncated "signature header" 8 buffer.length) := by
  unfold ofBytes fixedSize
  rw [ensureSize_of_lt _ short]
  rfl

/-- What is read once the tag, the size, the scheme and the hash algorithm are seen. -/
theorem ofBytes_frame (scheme : SignatureScheme) (hash : HashAlgorithm) {size : Nat}
    (fits : size < 0x10000) (tail : Bytes) :
    ofBytes (frame tag size scheme.code hash.code tail) =
      (do
        ensureSize (frame tag size scheme.code hash.code tail) (8 + size) "signature"
        new scheme hash (tail.take size)) := by
  have rest : (frame tag size scheme.code hash.code tail).drop fixedSize = tail :=
    drop_frame length_tag size scheme.code hash.code tail 0
  unfold ofBytes
  rw [ensureSize_of_le _ (by rw [length_frame length_tag]; exact Nat.le_add_right 8 _),
    take_frame length_tag, numberAt_frame length_tag _ _ _ _ fits, sixth_frame length_tag,
    seventh_frame length_tag, rest, SignatureScheme.ofCode_code, HashAlgorithm.ofCode_code]
  rfl

theorem undoes (header : Signature) : Undoes ofBytes header header.toBytes 8 header.size
    "signature header" "signature" := by
  rw [toBytes_eq]
  exact .of_frame length_tag (fun _ => ofBytes_short)
    (ofBytes_frame _ _ (Nat.lt_succ_of_le header.fits)) (dif_pos header.fits)

end Signature

/-! ## The header of a compressed image -/

namespace CompressionAlgorithm

theorem length_tag : ∀ algorithm : CompressionAlgorithm, algorithm.tag.length = 4
  | .lz4 => rfl
  | .lzma => rfl
  | .stored => rfl

theorem ofTag_tag : ∀ algorithm : CompressionAlgorithm, ofTag algorithm.tag = .ok algorithm
  | .lz4 => rfl
  | .lzma => rfl
  | .stored => rfl

end CompressionAlgorithm

namespace Compression

theorem length_toBytes (header : Compression) : header.toBytes.length = 16 := by
  simp [toBytes, slots, encode_nil, Bits.length_littleEndian, header.algorithm.length_tag]

theorem ofBytes_short {buffer : Bytes} (short : buffer.length < 16) :
    ofBytes buffer = .error (.truncated "compression header" 16 buffer.length) := by
  unfold ofBytes fixedSize
  rw [ensureSize_of_lt _ short]
  rfl

theorem numberAt_toBytes (header : Compression) (rest : Bytes) :
    numberAt (header.toBytes ++ rest) 4 4 = header.compressed.toNat ∧
      numberAt (header.toBytes ++ rest) 8 4 = header.uncompressed.toNat := by
  have number (size : UInt32) : Bits.toNat (Bits.littleEndian 4 size.toNat) = size.toNat := by
    rw [Bits.toNat_littleEndian]
    exact Nat.mod_eq_of_lt size.toNat_lt
  have tag := header.algorithm.length_tag
  constructor
  · simp only [numberAt, toBytes, slots, encode_cons, List.append_assoc]
    rw [List.drop_left' tag, List.take_left' (Bits.length_littleEndian ..), number]
  · simp only [numberAt, toBytes, slots, encode_cons, List.append_assoc]
    rw [← List.append_assoc header.algorithm.tag,
      List.drop_left' (by simp [tag, Bits.length_littleEndian]),
      List.take_left' (Bits.length_littleEndian ..), number]

theorem undoes (header : Compression) : Undoes ofBytes header header.toBytes 16 16
    "compression header" "compression header" where
  length_eq := header.length_toBytes
  decodes rest := by
    have tag : (header.toBytes ++ rest).take 4 = header.algorithm.tag := by
      simp only [toBytes, slots, encode_cons, List.append_assoc]
      exact List.take_left' header.algorithm.length_tag
    obtain ⟨compressed, uncompressed⟩ := header.numberAt_toBytes rest
    have enough : fixedSize ≤ (header.toBytes ++ rest).length := by
      rw [List.length_append, length_toBytes]
      exact Nat.le_add_right 16 _
    unfold ofBytes
    rw [ensureSize_of_le _ enough, tag, CompressionAlgorithm.ofTag_tag, compressed, uncompressed,
      UInt32.ofNat_toNat, UInt32.ofNat_toNat]
    rfl
  refuses_head count fewer := by
    have length : (header.toBytes.take count).length = count := by
      rw [List.length_take, length_toBytes]
      omega
    rw [ofBytes_short (by omega), length]
  -- The head is all of it.
  refuses_part count enough fewer := absurd fewer (Nat.not_lt.2 enough)

theorem sizeField_of_lt {size : Nat} (fits : size < 0x100000000) :
    sizeField size = .ok (UInt32.ofNat size) := if_pos fits

theorem sizeField_of_le {size : Nat} (large : 0x100000000 ≤ size) :
    sizeField size = .error (.payloadTooLarge "compressed image" size 32) :=
  if_neg (Nat.not_lt.2 large)

theorem new_of_lt {compressed uncompressed : Nat} (algorithm : CompressionAlgorithm)
    (left : compressed < 0x100000000) (right : uncompressed < 0x100000000) :
    new algorithm compressed uncompressed =
      .ok ⟨algorithm, UInt32.ofNat compressed, UInt32.ofNat uncompressed⟩ := by
  unfold new
  rw [sizeField_of_lt left, sizeField_of_lt right]
  rfl

/-- The compressed size is judged first. -/
theorem new_eq_error_iff {algorithm : CompressionAlgorithm} {compressed uncompressed : Nat}
    {error : HeaderError} : new algorithm compressed uncompressed = .error error ↔
      (0xffffffff < compressed ∧ error = .payloadTooLarge "compressed image" compressed 32) ∨
        (compressed ≤ 0xffffffff ∧ 0xffffffff < uncompressed ∧
          error = .payloadTooLarge "compressed image" uncompressed 32) := by
  -- Split in the order in which the sizes are judged.
  rcases Nat.lt_or_ge compressed 0x100000000 with left | left
  · rcases Nat.lt_or_ge uncompressed 0x100000000 with right | right
    · rw [new_of_lt algorithm left right]
      simp only [reduceCtorEq, false_iff]
      omega
    · have refused : new algorithm compressed uncompressed =
          .error (.payloadTooLarge "compressed image" uncompressed 32) := by
        unfold new
        rw [sizeField_of_lt left, sizeField_of_le right]
        rfl
      rw [refused, Except.error.injEq]
      exact ⟨fun same => .inr ⟨by omega, right, same.symm⟩, by
        rintro (⟨large, -⟩ | ⟨-, -, rfl⟩)
        · omega
        · rfl⟩
  · have refused : new algorithm compressed uncompressed =
        .error (.payloadTooLarge "compressed image" compressed 32) := by
      unfold new
      rw [sizeField_of_le left]
      rfl
    rw [refused, Except.error.injEq]
    exact ⟨fun same => .inl ⟨left, same.symm⟩, by
      rintro (⟨-, rfl⟩ | ⟨small, -⟩)
      · rfl
      · omega⟩

end Compression

/-- A header is made exactly if its sizes fit their fields, and then its bytes hold these sizes,
whole and in their place, and reading undoes writing. -/
theorem headers_undo :
    (∀ keyType key,
      (∀ error, PublicKey.new keyType key = .error error ↔
        0xffff < key.length ∧ error = .payloadTooLarge "public key" key.length 16) ∧
      (key.length ≤ 0xffff → ∃ header, PublicKey.new keyType key = .ok header ∧
        header.keyType = keyType ∧ header.key = key ∧ header.size = 8 + key.length ∧
        numberAt header.toBytes 4 2 = key.length ∧
        Undoes PublicKey.ofBytes header header.toBytes 8 header.size "public key header"
          "public key")) ∧
    (∀ scheme hash signature,
      (∀ error, Signature.new scheme hash signature = .error error ↔
        0xffff < signature.length ∧
          error = .payloadTooLarge "signature" signature.length 16) ∧
      (signature.length ≤ 0xffff → ∃ header, Signature.new scheme hash signature = .ok header ∧
        header.scheme = scheme ∧ header.hash = hash ∧ header.signature = signature ∧
        header.size = 8 + signature.length ∧ numberAt header.toBytes 4 2 = signature.length ∧
        Undoes Signature.ofBytes header header.toBytes 8 header.size "signature header"
          "signature")) ∧
    (∀ algorithm compressed uncompressed,
      (∀ error, Compression.new algorithm compressed uncompressed = .error error ↔
        (0xffffffff < compressed ∧ error = .payloadTooLarge "compressed image" compressed 32) ∨
          (compressed ≤ 0xffffffff ∧ 0xffffffff < uncompressed ∧
            error = .payloadTooLarge "compressed image" uncompressed 32)) ∧
      (compressed ≤ 0xffffffff → uncompressed ≤ 0xffffffff →
        ∃ header, Compression.new algorithm compressed uncompressed = .ok header ∧
          header.algorithm = algorithm ∧ header.compressed.toNat = compressed ∧
          header.uncompressed.toNat = uncompressed ∧
          numberAt header.toBytes 4 4 = compressed ∧ numberAt header.toBytes 8 4 = uncompressed ∧
          Undoes Compression.ofBytes header header.toBytes 16 16 "compression header"
            "compression header")) ∧
    ∀ slots room, (encode slots).length ≤ room →
      writeSlots slots { room } =
        ({ room := room - (encode slots).length, written := encode slots }, .ok ()) := by
  refine ⟨fun keyType key => ⟨fun error => PublicKey.new_eq_error_iff, fun fits => ?_⟩,
    fun scheme hash signature => ⟨fun error => Signature.new_eq_error_iff, fun fits => ?_⟩,
    fun algorithm compressed uncompressed =>
      ⟨fun error => Compression.new_eq_error_iff, fun left right => ?_⟩,
    fun slots room enough => writeSlots_of_le slots { room } enough⟩
  · have small : key.length < 0x10000 := Nat.lt_succ_of_le fits
    refine ⟨⟨keyType, key, small⟩, dif_pos small, rfl, rfl, rfl, ?_, PublicKey.undoes _⟩
    rw [PublicKey.toBytes_eq]
    exact numberAt_frame PublicKey.length_tag _ _ _ _ small
  · refine ⟨⟨scheme, hash, signature, fits⟩, dif_pos fits, rfl, rfl, rfl, rfl, ?_,
      Signature.undoes _⟩
    rw [Signature.toBytes_eq]
    exact numberAt_frame Signature.length_tag _ _ _ _ (Nat.lt_succ_of_le fits)
  · have left : compressed < 0x100000000 := Nat.lt_succ_of_le left
    have right : uncompressed < 0x100000000 := Nat.lt_succ_of_le right
    have numbers := (Compression.mk algorithm (UInt32.ofNat compressed)
      (UInt32.ofNat uncompressed)).numberAt_toBytes []
    rw [List.append_nil] at numbers
    have compressed_eq : (UInt32.ofNat compressed).toNat = compressed :=
      UInt32.toNat_ofNat_of_lt' left
    have uncompressed_eq : (UInt32.ofNat uncompressed).toNat = uncompressed :=
      UInt32.toNat_ofNat_of_lt' right
    exact ⟨_, Compression.new_of_lt algorithm left right, rfl, compressed_eq, uncompressed_eq,
      numbers.1.trans compressed_eq, numbers.2.trans uncompressed_eq, Compression.undoes _⟩

/-- A key of three bytes is read back with a byte behind it and refused without its last byte, two
sizes of an image are read back, and a signature of 65536 bytes has no header. -/
theorem smallHeaders_undo :
    (∃ header, PublicKey.new .rsa [1, 2, 3] = .ok header ∧
      header.toBytes = [0x50, 0x55, 0x42, 0x4b, 3, 0, 1, 0, 1, 2, 3] ∧
      PublicKey.ofBytes (header.toBytes ++ [7]) = .ok header ∧
      PublicKey.ofBytes (header.toBytes.take 10) = .error (.truncated "public key" 11 10)) ∧
    Signature.new .rsaPss .sm3 (List.replicate 0x10000 0) =
      .error (.payloadTooLarge "signature" 0x10000 16) ∧
    ∃ header, Compression.new .lzma 0x01020304 0xffffffff = .ok header ∧
      header.toBytes = [0x4c, 0x5a, 0x4d, 0x41, 4, 3, 2, 1, 255, 255, 255, 255, 0, 0, 0, 0] ∧
      Compression.ofBytes (header.toBytes ++ [7]) = .ok header ∧
      Compression.ofBytes (header.toBytes.take 15) =
        .error (.truncated "compression header" 16 15) := by
  obtain ⟨keys, signatures, compressions, -⟩ := headers_undo
  refine ⟨?_, ?_, ?_⟩
  · obtain ⟨header, made, -, -, -, -, undo⟩ := (keys .rsa [1, 2, 3]).2 (by decide)
    cases made
    exact ⟨_, rfl, by decide, undo.decodes [7], undo.refuses_part 10 (by decide) (by decide)⟩
  · exact ((signatures .rsaPss .sm3 (List.replicate 0x10000 0)).1 _).2
      ⟨by rw [List.length_replicate]; decide, by rw [List.length_replicate]⟩
  · obtain ⟨header, made, -, -, -, -, -, undo⟩ :=
      (compressions .lzma 0x01020304 0xffffffff).2 (by decide) (by decide)
    cases made
    exact ⟨_, rfl, by decide, undo.decodes [7], undo.refuses_head 15 (by decide)⟩

end BoardSchema.Image
