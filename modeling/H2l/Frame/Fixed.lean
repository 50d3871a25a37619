import H2l.Frame.Codec

/-!
# Control frames in both directions

PRIORITY, RST_STREAM, GOAWAY and WINDOW_UPDATE keep a fixed number of octets. Their decoders
accept exactly the payloads described here, every frame that one of them returns is read back, and
the octets it keeps are written back as they were, up to a reserved bit (`controlFormats_exact`).
-/

namespace H2l

open Base

/-- A control frame with its codec, and what the codec is to do. -/
structure ControlFormat (F : Type) where
  kind : Kind
  load : Head → List Byte → Except Error F
  encode : F → List Byte
  /-- The frames that are received on streams of 31 bits. -/
  WellFormed : F → Prop
  /-- The payloads that are accepted after a header. -/
  Accepts : Head → List Byte → Prop
  /-- The octets of a payload that are kept. -/
  kept : List Byte → List Byte

/-- The codec does what the format says. -/
structure ControlFormat.Exact {F : Type} (format : ControlFormat F) : Prop where
  image : ∀ frame, format.WellFormed frame ↔ ∃ head payload, head.kind = format.kind ∧
    head.streamId.Valid ∧ format.load head payload = .ok frame
  reads : ∀ frame, format.WellFormed frame → format.load
    (Head.parse ((format.encode frame).take 9)) ((format.encode frame).drop 9) = .ok frame
  accepts : ∀ head payload, head.kind = format.kind →
    ((∃ frame, format.load head payload = .ok frame) ↔ format.Accepts head payload)
  writes : ∀ head payload frame, head.kind = format.kind →
    format.load head payload = .ok frame → (format.encode frame).drop 9 = format.kept payload

/-- The number in four bytes whose top bit is reserved. -/
def lowBits (bytes : List Byte) : Nat := beNat (clearTop bytes)

/-- PRIORITY: ids have 31 bits, and no stream depends on itself. -/
def Priority.format : ControlFormat Priority where
  kind := .priority
  load := Priority.load
  encode := Priority.encode
  WellFormed frame := frame.streamId.Valid ∧ frame.dependency.dependencyId.Valid ∧
    frame.dependency.dependencyId ≠ frame.streamId
  Accepts head payload := payload.length = 5 ∧
    lowBits (payload.take 4) ≠ head.streamId.raw.toNat
  kept payload := payload.take 5

/-- RST_STREAM: the id has 31 bits. -/
def Reset.format : ControlFormat Reset where
  kind := .reset
  load := Reset.load
  encode := Reset.encode
  WellFormed frame := frame.streamId.Valid
  Accepts _ payload := payload.length = 4
  kept payload := payload.take 4

/-- GOAWAY: the last stream has 31 bits. -/
def GoAway.format : ControlFormat GoAway where
  kind := .goAway
  load _ payload := GoAway.load payload
  encode := GoAway.encode
  WellFormed frame := frame.lastStreamId.Valid
  Accepts _ payload := 8 ≤ payload.length
  kept payload := clearTop (payload.take 8)

/-- WINDOW_UPDATE: the increment has 31 bits, and is not zero. -/
def WindowUpdate.format : ControlFormat WindowUpdate where
  kind := .windowUpdate
  load := WindowUpdate.load
  encode := WindowUpdate.encode
  WellFormed frame := frame.streamId.Valid ∧ 1 ≤ frame.sizeIncrement.toNat ∧
    frame.sizeIncrement.toNat ≤ 2 ^ 31 - 1
  Accepts _ payload := payload.length = 4 ∧ lowBits payload ≠ 0
  kept payload := clearTop (payload.take 4)

namespace StreamId

/-- The mask keeps the highest bit and nothing else. -/
theorem and_mask (word : Word) :
    word &&& mask = if word.getLsbD 31 then mask else 0 :=
  BitVec.and_twoPow word 31

/-- The reserved bit put back. -/
theorem restore_mask (word : Word) :
    (if word &&& mask == mask then (word &&& ~~~mask) ||| 0x80000000 else word &&& ~~~mask) =
      word := by
  have whole : (word &&& ~~~mask) ||| (word &&& mask) = word := by
    rw [← BitVec.and_or_distrib_left, BitVec.not_or_self, BitVec.and_allOnes]
  rw [and_mask] at whole ⊢
  cases bit : word.getLsbD 31 with
  | true => rw [bit] at whole; exact whole
  | false => rw [bit] at whole; simpa [mask] using whole

/-- An identifier with the reserved bit set, as it is read. -/
theorem parse_exclusive {word : Word} (small : word.toNat < 2 ^ 31) (exclusive : Bool) :
    parse (put32 (if exclusive then word ||| 0x80000000 else word)) = (⟨word⟩, exclusive) := by
  have low : word &&& ~~~mask = word := cleared_of_lt small
  have clear : word &&& mask = 0 := by
    rw [← low, BitVec.and_assoc, BitVec.not_and_self]
    exact BitVec.and_zero
  have set : (0x80000000 : Word) = mask := rfl
  rw [← List.append_nil (put32 _), parse_put32]
  cases exclusive with
  | true => simp [set, BitVec.and_or_distrib_right, low, clear]
  | false =>
      have unset : ((0 : Word) == mask) = false := rfl
      simp only [Bool.false_eq_true, if_false, low, clear, unset]

end StreamId

/-- A format is exact when `load` accepts what it says and returns a value of the header and the
payload, and the payload of every well-formed frame loads to the frame. -/
theorem ControlFormat.Exact.of_value {F : Type} {format : ControlFormat F}
    (value : Head → List Byte → F) (stream : F → StreamId) (body : F → List Byte)
    (other : format.kind ≠ .binCode)
    (encodes : ∀ frame, format.encode frame =
      Head.encode ⟨format.kind, 0, stream frame⟩ (body frame).length ++ body frame)
    (streams : ∀ frame, format.WellFormed frame → (stream frame).Valid)
    (reads : ∀ frame, format.WellFormed frame →
      format.load ⟨format.kind, 0, stream frame⟩ (body frame) = .ok frame)
    (loads : ∀ head payload frame, format.load head payload = .ok frame ↔
      format.Accepts head payload ∧ frame = value head payload)
    (received : ∀ head payload, format.Accepts head payload → head.streamId.Valid →
      format.WellFormed (value head payload))
    (writes : ∀ head payload, format.Accepts head payload →
      body (value head payload) = format.kept payload) : format.Exact where
  image frame := by
    constructor
    · exact fun wellFormed => ⟨_, _, rfl, streams frame wellFormed, reads frame wellFormed⟩
    · rintro ⟨head, payload, -, valid, loaded⟩
      obtain ⟨accepted, rfl⟩ := (loads head payload frame).mp loaded
      exact received head payload accepted valid
  reads frame wellFormed := by
    have valid := streams frame wellFormed
    rw [encodes, Head.parse_take other valid, Head.drop_encode, reads frame wellFormed]
  accepts head payload _ := by
    constructor
    · rintro ⟨frame, loaded⟩
      exact ((loads head payload frame).mp loaded).1
    · exact fun accepted => ⟨_, (loads head payload _).mpr ⟨accepted, rfl⟩⟩
  writes head payload frame _ loaded := by
    obtain ⟨accepted, rfl⟩ := (loads head payload frame).mp loaded
    rw [encodes, Head.drop_encode, writes head payload accepted]

namespace Priority

/-- The dependency is another stream than the frame's own. -/
theorem dependency_ne_iff {payload : List Byte} (five : payload.length = 5) (head : Head) :
    (StreamId.parse (payload.take 4)).1 ≠ head.streamId ↔
      lowBits (payload.take 4) ≠ head.streamId.raw.toNat := by
  have first : (payload.take 4).length = 4 := by rw [List.length_take]; omega
  rw [StreamId.parse_of_length first, lowBits, ← StreamId.cleared_be32 first, Ne, Ne,
    BitVec.toNat_inj, ← StreamId.mk.injEq]

/-- The PRIORITY codec is exact: only a dependency on the stream itself is refused. -/
theorem format_exact : format.Exact := by
  apply ControlFormat.Exact.of_value
    (fun head payload => ⟨head.streamId, (StreamId.parse (payload.take 4)).1, payload.getD 4 0,
      (StreamId.parse (payload.take 4)).2⟩)
    streamId (fun frame => frame.dependency.encode)
  case other => decide
  case encodes => intro frame; simp [format, encode, StreamDependency.encode]
  case streams => exact fun _ wellFormed => wellFormed.1
  case reads =>
    rintro ⟨streamId, ⟨dependencyId⟩, weight, exclusive⟩ ⟨-, valid, distinct⟩
    have taken : (StreamDependency.encode ⟨⟨dependencyId⟩, weight, exclusive⟩).take 4 =
        put32 (if exclusive then dependencyId ||| 0x80000000 else dependencyId) :=
      List.take_left' (put32_length _)
    have five : (StreamDependency.encode ⟨⟨dependencyId⟩, weight, exclusive⟩).length = 5 := by
      simp [StreamDependency.encode]
    have parsed := StreamId.parse_exclusive valid exclusive
    refine load_eq_ok.mpr ⟨five, ?_, ?_⟩
    · rw [taken, parsed]
      exact distinct
    · rw [taken, parsed]
      simp [StreamDependency.encode]
  case loads =>
    intro head payload frame
    have accepts : format.Accepts head payload ↔ payload.length = 5 ∧
        (StreamId.parse (payload.take 4)).1 ≠ head.streamId :=
      and_congr_right fun five => (dependency_ne_iff five head).symm
    rw [accepts, and_assoc]
    exact load_eq_ok
  case received =>
    rintro head payload ⟨five, distinct⟩ valid
    exact ⟨valid, StreamId.parse_valid _, (dependency_ne_iff five head).mpr distinct⟩
  case writes =>
    rintro head payload ⟨five, -⟩
    have first : (payload.take 4).length = 4 := by rw [List.length_take]; omega
    have fifth : 4 < payload.length := by omega
    simp only [StreamDependency.encode, StreamId.parse_of_length first, StreamId.restore_mask,
      put32_be32 first, List.getD_eq_getElem?_getD, List.getElem?_eq_getElem fifth,
      Option.getD_some]
    exact List.take_append_getElem fifth

end Priority

/-- The RST_STREAM codec is exact, whatever the error code. -/
theorem Reset.format_exact : format.Exact := by
  apply ControlFormat.Exact.of_value (fun head payload => ⟨head.streamId, ⟨be32 payload⟩⟩)
    streamId (fun frame => put32 frame.errorCode.code)
  case other => decide
  case encodes => exact fun _ => rfl
  case streams => exact fun _ wellFormed => wellFormed
  case reads => exact fun frame _ => load_eq_ok.mpr ⟨put32_length _, by rw [be32_put32]⟩
  case loads => exact fun _ _ _ => load_eq_ok
  case received => exact fun _ _ _ valid => valid
  case writes =>
    intro head payload (four : payload.length = 4)
    exact (put32_be32 four).trans (List.take_of_length_le (by omega)).symm

/-- The GOAWAY codec is exact: eight bytes are read, and what follows them is dropped. -/
theorem GoAway.format_exact : format.Exact := by
  apply ControlFormat.Exact.of_value
    (fun _ payload =>
      ⟨⟨be32 (payload.take 4) &&& ~~~StreamId.mask⟩, ⟨be32 ((payload.drop 4).take 4)⟩⟩)
    (fun _ => StreamId.zero)
    (fun frame => put32 frame.lastStreamId.raw ++ put32 frame.errorCode.code)
  case other => decide
  case encodes => intro frame; simp [format, encode]
  case streams => intro _ _; decide
  case reads => exact load_payload
  case loads => exact fun _ _ _ => load_eq_ok
  case received => exact fun _ payload _ _ => StreamId.parse_valid payload
  case writes =>
    intro head payload (enough : 8 ≤ payload.length)
    have first : (payload.take 4).length = 4 := by rw [List.length_take]; omega
    have second : ((payload.drop 4).take 4).length = 4 := by
      rw [List.length_take, List.length_drop]
      omega
    have nonempty : payload.take 4 ≠ [] := List.ne_nil_of_length_eq_add_one first
    rw [StreamId.put32_cleared first, put32_be32 second, ← clearTop_append nonempty,
      ← List.take_add]
    rfl

namespace WindowUpdate

/-- An increment is zero when all bits under the reserved one are. -/
theorem increment_ne_zero_iff {payload : List Byte} (four : payload.length = 4) :
    be32 payload &&& ~~~sizeIncrementMask ≠ 0 ↔ lowBits payload ≠ 0 := by
  rw [lowBits, ← StreamId.cleared_be32 four, Ne, ← BitVec.toNat_inj]
  rfl

/-- The WINDOW_UPDATE codec is exact: the reserved bit is dropped, and zero is refused. -/
theorem format_exact : format.Exact := by
  apply ControlFormat.Exact.of_value
    (fun head payload => ⟨head.streamId, be32 payload &&& ~~~sizeIncrementMask⟩)
    streamId (fun frame => put32 frame.sizeIncrement)
  case other => decide
  case encodes => exact fun _ => rfl
  case streams => exact fun _ wellFormed => wellFormed.1
  case reads =>
    rintro frame ⟨-, low, high⟩
    exact load_payload frame _ rfl (by omega) (by rintro zero; simp [zero] at low)
  case loads =>
    intro head payload frame
    have accepts : format.Accepts head payload ↔ payload.length = 4 ∧
        be32 payload &&& ~~~sizeIncrementMask ≠ 0 :=
      and_congr_right fun four => (increment_ne_zero_iff four).symm
    rw [accepts, and_assoc]
    exact load_eq_ok
  case received =>
    rintro head payload ⟨four, positive⟩ valid
    have below := StreamId.cleared_toNat (be32 payload)
    rw [lowBits, ← StreamId.cleared_be32 four] at positive
    refine ⟨valid, Nat.pos_of_ne_zero positive, ?_⟩
    change (be32 payload &&& ~~~StreamId.mask).toNat ≤ _
    omega
  case writes =>
    rintro head payload ⟨four, -⟩
    exact (StreamId.put32_cleared four).trans
      (congrArg clearTop (List.take_of_length_le (by omega)).symm)

end WindowUpdate

/-- All four control frames are read, accepted and written as their formats say. -/
theorem controlFormats_exact :
    Priority.format.Exact ∧ Reset.format.Exact ∧ GoAway.format.Exact ∧
      WindowUpdate.format.Exact :=
  ⟨Priority.format_exact, Reset.format_exact, GoAway.format_exact, WindowUpdate.format_exact⟩

end H2l
