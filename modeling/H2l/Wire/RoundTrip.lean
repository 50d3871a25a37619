import H2l.Frame.Grammar
import H2l.Wire.Walk

/-!
# From any writer to the client's reader

The bytes that `Frame.writeTo` emits, one frame after another and cut anywhere,
are read back by the client's frame loop (`frameLoop_written`): every frame wholly
before the cut is delivered, and the rest ends the loop with an I/O error.
-/

namespace H2l

open Base

namespace Frame

/-- The fields of a frame that its decoder restricts. -/
def InRange : Frame → Prop
  | data frame => frame.WellPadded
  | settings frame => frame = Settings.ack ∨ frame.isAck = false ∧ frame.InRange
  | goAway frame => frame.lastStreamId.Valid
  | windowUpdate frame => frame.sizeIncrement ≠ 0 ∧ frame.sizeIncrement.toNat < 2 ^ 31
  | _ => True

/-- A frame that may be written: identifiers of 31 bits, a payload that a header can
announce, and fields in range. -/
structure Writable (frame : Frame) : Prop where
  stream : ∀ head, frame.head = some head → head.streamId.Valid
  sized : frame.body.length < 2 ^ 24
  inRange : frame.InRange

/-- What the client delivers for a written frame: the frame itself for the kinds it
handles, `unknown` for the others, and nothing for a frame that is not written. -/
def received : Frame → Option Frame
  | priority _ | reset _ | continuation _ | binCode _ => some unknown
  | unknown => none
  | frame => some frame

/-- The frames whose bytes lie wholly among the first `count`. -/
def wholeFrames : Nat → List Frame → List Frame
  | _, [] => []
  | count, frame :: rest =>
      if frame.writeTo.length ≤ count then
        frame :: wholeFrames (count - frame.writeTo.length) rest
      else []

/-- The header as the reader sees it: the code of a bincode frame reads as `unknown`. -/
def wireHead (head : Head) : Head := { head with kind := Kind.new head.kind.code }

theorem wireHead_kind_ne {head : Head} (other : head.kind ≠ .binCode) : wireHead head = head := by
  obtain ⟨kind, flags, streamId⟩ := head
  simp only [wireHead, Kind.new_code, if_neg other]

theorem writeTo_of_head {frame : Frame} {head : Head} (written : frame.head = some head) :
    frame.writeTo = head.encode frame.body.length ++ frame.body := by
  rw [writeTo_eq, written]

theorem writeTo_length {frame : Frame} {head : Head} (written : frame.head = some head) :
    frame.writeTo.length = 9 + frame.body.length := by
  rw [writeTo_of_head written, List.length_append, Head.encode_length]

/-- Only `unknown` has no header. -/
theorem eq_unknown_of_head {frame : Frame} (unwritten : frame.head = none) : frame = unknown := by
  cases frame with
  | unknown => rfl
  | _ => cases unwritten

/-- The client takes every written payload, and decodes it to the frame it stands for. -/
theorem Writable.decode {frame : Frame} {head : Head} (writable : frame.Writable)
    (written : frame.head = some head) :
    ∃ image, frame.received = some image ∧
      Endpoint.client.decode (wireHead head) frame.body = .ok image := by
  have inRange := writable.inRange
  cases frame with
  | data frame =>
      cases written
      refine ⟨data frame, rfl, ?_⟩
      have loaded : Data.load frame.head (data frame).body = .ok frame := frame.load_head inRange
      rw [wireHead_kind_ne (by simp [Data.head])]
      simp only [Endpoint.decode, Data.head] at loaded ⊢
      rw [loaded]
      rfl
  | headers frame =>
      cases written
      refine ⟨headers frame, rfl, ?_⟩
      rw [wireHead_kind_ne (by simp [Headers.head])]
      simp only [Endpoint.decode, Headers.head, withHeaders, body, Headers.asBytes, frame.new_eq]
  | settings frame =>
      cases written
      refine ⟨settings frame, rfl, ?_⟩
      have loaded := frame.load_entries frame.head rfl rfl inRange
      rw [wireHead_kind_ne (by simp [Settings.head])]
      simp only [Endpoint.decode, Settings.head, body] at loaded ⊢
      rw [loaded]
      rfl
  | goAway frame =>
      cases written
      refine ⟨goAway frame, rfl, ?_⟩
      rw [wireHead_kind_ne (by simp)]
      simp only [Endpoint.decode, body, frame.load_payload inRange]
      rfl
  | windowUpdate frame =>
      cases written
      refine ⟨windowUpdate frame, rfl, ?_⟩
      rw [wireHead_kind_ne (by simp)]
      simp only [Endpoint.decode, body]
      rw [frame.load_payload _ rfl inRange.2 inRange.1]
      rfl
  | priority frame => cases written; exact ⟨unknown, rfl, rfl⟩
  | reset frame => cases written; exact ⟨unknown, rfl, rfl⟩
  | continuation frame => cases written; exact ⟨unknown, rfl, rfl⟩
  | binCode frame => cases written; exact ⟨unknown, rfl, rfl⟩
  | unknown => cases written

/-- No written header is refused by the client. -/
theorem not_refused {frame : Frame} {head : Head} (written : frame.head = some head) :
    Endpoint.client.refusal (wireHead head) frame.body.length = none := by
  cases frame with
  | settings frame =>
      cases written
      have short : (settings frame).body.length ≤ 36 := by
        simp only [body, ← Settings.payloadLen_eq]
        exact frame.payloadLen_le
      have fits : ¬ 256 < (settings frame).body.length := by omega
      exact if_neg fits
  | unknown => cases written
  | _ => cases written; rfl

/-- The client takes as many bytes as were written. -/
theorem bodyLength_written {frame : Frame} {head : Head} (written : frame.head = some head) :
    bodyLength (wireHead head) frame.body.length = frame.body.length := by
  cases frame with
  | windowUpdate frame => cases written; simp [body, bodyLength]
  | unknown => cases written
  | _ => cases written; rfl

/-- Nine bytes from the front of written bytes are the header of the first frame. -/
theorem front_written {frame : Frame} {head : Head} (writable : frame.Writable)
    (written : frame.head = some head) {bytes rest : List Byte}
    (front : bytes <+: frame.writeTo ++ rest) (enough : 9 ≤ bytes.length) :
    headAt bytes = wireHead head ∧ lengthAt bytes = frame.body.length := by
  obtain ⟨more, whole⟩ := front
  have nine : bytes.take 9 = head.encode frame.body.length ++ [] := by
    rw [← List.take_append_of_le_length enough, whole, writeTo_of_head written,
      List.append_assoc, List.append_nil]
    exact List.take_left' (head.encode_length _)
  have cleared : head.streamId.raw &&& ~~~StreamId.mask = head.streamId.raw :=
    StreamId.cleared_of_lt (writable.stream head written)
  constructor
  · rw [headAt, nine, Head.parse_encode, cleared]
    rfl
  · rw [lengthAt, nine, Head.payloadLength_encode]
    exact Nat.mod_eq_of_lt writable.sized

/-- A frame wholly there is delivered, and the bytes after it are left. -/
theorem delivers_written {frame : Frame} {head : Head} (writable : frame.Writable)
    (written : frame.head = some head) {input : TcpInput} {rest : List Byte}
    (front : input.content <+: frame.writeTo ++ rest)
    (whole : frame.writeTo.length ≤ input.content.length) :
    ∃ image after, frame.received = some image ∧
      Endpoint.client.readFrame input = (.ok image, after) ∧
      after.content = input.content.drop frame.writeTo.length := by
  have length := writeTo_length written
  obtain ⟨atHead, atLength⟩ := front_written writable written front (by omega)
  obtain ⟨image, received, decodes⟩ := writable.decode written
  have taken : bodyLengthAt input.content = frame.body.length := by
    rw [bodyLengthAt, atHead, atLength, bodyLength_written written]
  have lengths : (input.content.drop 9).length = input.content.length - 9 := List.length_drop
  have theBody : bodyAt input.content = frame.body := by
    obtain ⟨more, split⟩ := front
    have onward : input.content.drop 9 ++ more = frame.body ++ rest := by
      rw [← List.drop_append_of_le_length (by omega), split, writeTo_of_head written,
        List.append_assoc]
      exact List.drop_left' (head.encode_length _)
    rw [bodyAt, taken, ← List.take_append_of_le_length (by omega), onward, List.take_left]
  cases turn .client input with
  | short short => omega
  | refused _ cause _ refuses =>
      rw [atHead, atLength, not_refused written] at refuses
      cases refuses
  | cut _ _ short => omega
  | whole _ _ _ after turn rest =>
      refine ⟨image, after, received, ?_, ?_⟩
      · rw [turn, atHead, theBody, decodes]
      · rw [rest, afterFrame, List.drop_drop, taken, length]

/-- A frame cut short is not delivered. -/
theorem fails_cut {frame : Frame} {head : Head} (writable : frame.Writable)
    (written : frame.head = some head) {input : TcpInput} {rest : List Byte}
    (front : input.content <+: frame.writeTo ++ rest)
    (cut : input.content.length < frame.writeTo.length) :
    ∃ err after, Endpoint.client.readFrame input = (.err (.io err), after) := by
  have length := writeTo_length written
  cases turn .client input with
  | short _ after turn => exact ⟨_, after, turn⟩
  | refused enough cause _ refuses =>
      obtain ⟨atHead, atLength⟩ := front_written writable written front enough
      rw [atHead, atLength, not_refused written] at refuses
      cases refuses
  | cut _ _ _ after turn => exact ⟨_, after, turn⟩
  | whole enough _ full =>
      obtain ⟨atHead, atLength⟩ := front_written writable written front enough
      rw [bodyLengthAt, atHead, atLength, bodyLength_written written, List.length_drop] at full
      omega

/-- What follows a frame that is wholly there is again a front of what was written. -/
theorem front_drop {bytes first rest : List Byte} (front : bytes <+: first ++ rest)
    (whole : first.length ≤ bytes.length) : bytes.drop first.length <+: rest := by
  obtain ⟨more, split⟩ := front
  refine ⟨more, ?_⟩
  rw [← List.drop_append_of_le_length whole, split, List.drop_left]

end Frame

open H2l.Frame

/-- The client delivers, in order, every frame that lies wholly before the cut, and then
fails on the rest. -/
theorem frameLoop_written (frames : List Frame) (writable : ∀ frame ∈ frames, frame.Writable)
    (input : TcpInput) (front : input.content <+: frames.flatMap writeTo) :
    Loop.values (Client.frameLoop input) =
        (wholeFrames input.content.length frames).filterMap received ∧
      ∃ err, (Client.frameLoop input).exit = .failed (.io err) := by
  induction frames generalizing input with
  | nil =>
      have ended : input.content = [] := List.prefix_nil.mp front
      cases turn .client input with
      | short _ after turn =>
          have run : Client.frameLoop input = ⟨[], .failed _⟩ := Loop.run_err turn
          rw [run]
          exact ⟨rfl, _, rfl⟩
      | refused enough => simp [ended] at enough
      | cut enough => simp [ended] at enough
      | whole enough => simp [ended] at enough
  | cons frame rest ih =>
      rw [List.flatMap_cons] at front
      have first := writable frame List.mem_cons_self
      have others : ∀ frame ∈ rest, frame.Writable :=
        fun frame member => writable frame (List.mem_cons_of_mem _ member)
      cases written : frame.head with
      | none =>
          obtain rfl := eq_unknown_of_head written
          exact ih others input front
      | some head =>
          by_cases whole : frame.writeTo.length ≤ input.content.length
          · obtain ⟨image, after, received, delivers, left⟩ :=
              delivers_written first written front whole
            have run : Client.frameLoop input = ⟨(image, after) ::
                (Client.frameLoop after).delivered, (Client.frameLoop after).exit⟩ :=
              Loop.run_ok (readFrame_drains .client) delivers
            obtain ⟨values, exit⟩ := ih others after (left ▸ front_drop front whole)
            rw [run]
            refine ⟨?_, exit⟩
            rw [left, List.length_drop] at values
            rw [wholeFrames, if_pos whole, List.filterMap_cons, received, ← values]
            rfl
          · obtain ⟨err, after, fails⟩ := fails_cut first written front (Nat.not_le.mp whole)
            have run : Client.frameLoop input = ⟨[], .failed _⟩ := Loop.run_err fails
            rw [run, wholeFrames, if_neg whole]
            exact ⟨rfl, err, rfl⟩

/-- An acknowledgement, a DATA frame that ends its stream, a frame of a kind the client
drops, and a window update. -/
def greeting : List Frame :=
  [.settings Settings.ack, .data ⟨⟨1⟩, [0x68, 0x69], DataFlags.endStream, none, rfl, rfl⟩,
    .continuation ⟨⟨1⟩, [0x21]⟩, .windowUpdate ⟨⟨1⟩, 5⟩]

/-- The greeting cut inside its last frame. -/
def cutGreeting : TcpInput := Source.ofContent ((greeting.flatMap writeTo).take 40) none

theorem greeting_writable : ∀ frame ∈ greeting, frame.Writable := by
  intro frame member
  simp only [greeting, List.mem_cons, List.not_mem_nil, or_false] at member
  rcases member with rfl | rfl | rfl | rfl
  · exact ⟨by rintro head ⟨⟩; decide, by decide, .inl rfl⟩
  · exact ⟨by rintro head ⟨⟩; decide, by decide, nofun⟩
  · exact ⟨by rintro head ⟨⟩; decide, by decide, trivial⟩
  · exact ⟨by rintro head ⟨⟩; decide, by decide, by decide, by decide⟩

/-- A greeting that is cut inside its last frame. -/
theorem cutGreeting_read :
    Loop.values (Client.frameLoop cutGreeting) =
        [.settings Settings.ack, .data ⟨⟨1⟩, [0x68, 0x69], DataFlags.endStream, none, rfl, rfl⟩,
          .unknown] ∧
      ∃ err, (Client.frameLoop cutGreeting).exit = .failed (.io err) := by
  have read := frameLoop_written greeting greeting_writable cutGreeting
    (by rw [cutGreeting, Source.content_ofContent]; exact List.take_prefix _ _)
  have whole : (wholeFrames cutGreeting.content.length greeting).filterMap received =
      [.settings Settings.ack, .data ⟨⟨1⟩, [0x68, 0x69], DataFlags.endStream, none, rfl, rfl⟩,
        .unknown] := by decide
  rw [whole] at read
  exact read

end H2l
