import H2l.Frame.Builder
import H2l.Wire.Relay
import Mathlib.Data.List.Basic
import Mathlib.Data.List.TakeWhile

/-!
# What has been read, written again

Whatever bytes an endpoint is given, the frames that it delivers may be written, and either
endpoint reads them again (`rereads`): reading and writing once more changes nothing.
-/

namespace H2l

open Base H2l.Frame

/-- A pad length is recorded from the payload. -/
theorem Data.wellPadded_of_load {head : Head} {payload : List Byte} {frame : Data}
    (loads : load head payload = .ok frame) : frame.WellPadded := by
  unfold load at loads
  split at loads
  · cases loads
  · split at loads
    · split at loads
      next checked =>
        cases loads
        rintro _ ⟨⟩
        exact checked
      next => cases loads
    · cases loads
      rintro _ ⟨⟩

/-- Settings that are loaded are an acknowledgement, or in range. -/
theorem Settings.inRange_of_load {head : Head} {payload : List Byte} {settings : Settings}
    (loads : load head payload = .ok settings) :
    settings = ack ∨ settings.isAck = false ∧ settings.InRange := by
  cases acks : head.acks with
  | true =>
      rw [load_of_grammatical (grammatical_of_load loads), if_pos acks] at loads
      cases loads
      exact .inl rfl
  | false =>
      have allowed : ∀ id val, settings.field id = some val → Allowed (id, val) :=
        fun _ _ => allowed_of_load loads
      exact .inr ⟨(isAck_of_load loads).trans acks,
        fun val has => (allowed_push val).mp (allowed 2 val has),
        fun val has => Nat.not_lt.mp ((allowed_window val).mp (allowed 4 val has)),
        fun val has => Classical.not_not.mp ((allowed_size val).mp (allowed 5 val has))⟩

/-- The stream of a GOAWAY frame is read without its reserved bit. -/
theorem GoAway.valid_of_load {payload : List Byte} {frame : GoAway}
    (loads : load payload = .ok frame) : frame.lastStreamId.Valid := by
  obtain ⟨-, rfl⟩ := load_eq_ok.mp loads
  simp only [StreamId.Valid, StreamId.cleared_toNat]
  omega

theorem WindowUpdate.inRange_of_load {head : Head} {payload : List Byte} {frame : WindowUpdate}
    (loads : load head payload = .ok frame) :
    frame.sizeIncrement ≠ 0 ∧ frame.sizeIncrement.toNat < 2 ^ 31 := by
  obtain ⟨-, positive, rfl⟩ := load_eq_ok.mp loads
  refine ⟨positive, ?_⟩
  have cleared := StreamId.cleared_toNat (be32 payload)
  exact cleared ▸ Nat.mod_lt _ (by decide)

/-- A frame that may be written, and that no endpoint stops at. -/
structure Frame.Passable (frame : Frame) : Prop where
  writable : frame.Writable
  goesOn : ∀ endpoint, frame.goesOn endpoint

theorem Settings.passable_of_load {head : Head} {payload : List Byte} {settings : Settings}
    (loads : load head payload = .ok settings) : (Frame.settings settings).Passable where
  writable := by
    refine ⟨by rintro _ ⟨⟩; exact (by decide : StreamId.zero.Valid), ?_, inRange_of_load loads⟩
    have bound := settings.payloadLen_le
    simp only [Frame.body, ← payloadLen_eq]
    omega
  goesOn endpoint := by cases endpoint <;> rfl

/-- What an endpoint makes of a payload. -/
inductive Decoded : Endpoint → Head → List Byte → Frame → Prop where
  | padded {head : Head} {body : List Byte} {frame : Data}
      (loads : Data.load head body = .ok frame) : Decoded .client head body (.data frame)
  | bare {head : Head} {body : List Byte} (nonzero : head.streamId.isZero = false) :
      Decoded .server head body
        (.data ⟨head.streamId, body, FlagSet.empty, none, nonzero, Frame.recorded_empty⟩)
  | headers {endpoint : Endpoint} {head : Head} {body : List Byte} :
      Decoded endpoint head body (.headers (Headers.new head.streamId body))
  | settings {endpoint : Endpoint} {head : Head} {body : List Byte} {frame : Settings}
      (loads : Settings.load head body = .ok frame) : Decoded endpoint head body (.settings frame)
  | goAway {endpoint : Endpoint} {head : Head} {body : List Byte} {frame : GoAway}
      (loads : GoAway.load body = .ok frame) : Decoded endpoint head body (.goAway frame)
  | windowUpdate {endpoint : Endpoint} {head : Head} {body : List Byte} {frame : WindowUpdate}
      (loads : WindowUpdate.load head body = .ok frame) :
      Decoded endpoint head body (.windowUpdate frame)
  | unknown {head : Head} {body : List Byte} : Decoded .client head body .unknown

/-- A decoder that is wrapped returns the frame of what it loads. -/
theorem loads_of_map {α : Type} {loaded : Except Error α} {wrap : α → Frame} {frame : Frame}
    (decoded : (Outcome.ofExcept loaded).map wrap = .ok frame) :
    ∃ value, loaded = .ok value ∧ frame = wrap value := by
  cases loaded with
  | error error => cases decoded
  | ok value => cases decoded; exact ⟨value, rfl, rfl⟩

/-- What was decoded says which reader decoded it. -/
theorem decoded_of_ok {endpoint : Endpoint} {head : Head} {body : List Byte} {frame : Frame}
    (decoded : endpoint.decode head body = .ok frame) : Decoded endpoint head body frame := by
  unfold Endpoint.decode at decoded
  split at decoded
  · cases endpoint with
    | server =>
        simp only [Frame.withData, Data.new] at decoded
        split at decoded <;> cases decoded
        next nonzero => exact .bare (by simpa using nonzero)
    | client =>
        obtain ⟨data, loads, rfl⟩ := loads_of_map decoded
        exact .padded loads
  · cases decoded
    exact .headers
  · obtain ⟨settings, loads, rfl⟩ := loads_of_map decoded
    exact .settings loads
  · obtain ⟨goAway, loads, rfl⟩ := loads_of_map decoded
    exact .goAway loads
  · obtain ⟨update, loads, rfl⟩ := loads_of_map decoded
    exact .windowUpdate loads
  · cases endpoint with
    | server => cases decoded
    | client => cases decoded; exact .unknown

section Decodes

variable {endpoint : Endpoint} {head : Head} {body : List Byte} {frame : Frame}

/-- What is decoded from a payload behind a header may be written. -/
theorem Decoded.writable (decoded : Decoded endpoint head body frame)
    (stream : head.streamId.Valid) (sized : body.length < 2 ^ 24) : frame.Writable := by
  cases decoded with
  | padded loads =>
      obtain ⟨sameStream, sameBody, -⟩ := Data.load_eq_ok loads
      refine ⟨?_, ?_, Data.wellPadded_of_load loads⟩
      · rintro _ ⟨⟩
        rw [Data.head, sameStream]
        exact stream
      · rw [Frame.body, Data.asBytes, sameBody]
        exact sized
  | bare => exact ⟨by rintro _ ⟨⟩; exact stream, sized, by rintro _ ⟨⟩⟩
  | headers => exact ⟨by rintro _ ⟨⟩; exact stream, sized, trivial⟩
  | settings loads => exact (Settings.passable_of_load loads).writable
  | goAway loads =>
      exact ⟨by rintro _ ⟨⟩; decide, by simp [Frame.body], GoAway.valid_of_load loads⟩
  | windowUpdate loads =>
      obtain ⟨-, -, same⟩ := WindowUpdate.load_eq_ok.mp loads
      refine ⟨?_, by simp [Frame.body], WindowUpdate.inRange_of_load loads⟩
      rintro _ ⟨⟩
      exact same ▸ stream
  | unknown => exact ⟨by rintro _ ⟨⟩, by decide, trivial⟩

/-- Every endpoint goes on after what one of them delivers. -/
theorem Decoded.goesOn (decoded : Decoded endpoint head body frame) (second : Endpoint) :
    frame.goesOn second := by
  cases decoded <;> cases second <;> rfl

/-- The endpoints whose frames an endpoint delivers as they are. -/
def Endpoint.Returns (first second : Endpoint) : Prop := second = .client ∨ first = .server

/-- What is delivered again is the frame itself; nothing is delivered for an unknown frame. -/
theorem Decoded.image (decoded : Decoded endpoint head body frame) {second : Endpoint}
    (returns : endpoint.Returns second) :
    frame.image second = if frame = .unknown then none else some frame := by
  rcases returns with rfl | rfl
  · cases decoded <;> rfl
  · cases second <;> cases decoded <;> rfl

end Decodes

/-- A frame that is decoded from a payload behind a header. -/
def Deliverable (endpoint : Endpoint) (frame : Frame) : Prop :=
  ∃ head body, head.streamId.Valid ∧ body.length < 2 ^ 24 ∧ Decoded endpoint head body frame

theorem lengthAt_lt (bytes : List Byte) : lengthAt bytes < 2 ^ 24 := by
  have bound := beNat_lt ((bytes.take 9).take 3)
  have three : ((bytes.take 9).take 3).length ≤ 3 := List.length_take_le _ _
  exact bound.trans_le (Nat.pow_le_pow_right (by decide) three)

theorem deliverable_of_readFrame {endpoint : Endpoint} {input after : TcpInput} {frame : Frame}
    (delivers : endpoint.readFrame input = (.ok frame, after)) : Deliverable endpoint frame := by
  obtain ⟨-, -, full, decoded, -, -⟩ := delivered_cases delivers
  refine ⟨_, _, Head.parse_streamId_valid _, ?_, decoded_of_ok decoded⟩
  have bound := lengthAt_lt input.content
  rw [bodyAt_length full, bodyLengthAt, bodyLength]
  split <;> omega

/-- Every frame of the frame loop is one that its reader can deliver. -/
theorem deliverable_of_loop (endpoint : Endpoint) (input : TcpInput) :
    ∀ frame ∈ Loop.values (endpoint.frameLoop input), Deliverable endpoint frame := by
  rw [endpoint.frameLoop_eq]
  exact Loop.forall_values (readFrame_drains endpoint) deliverable_of_readFrame input

section Lists

variable {endpoint second : Endpoint} {frames : List Frame}

/-- Every frame that is delivered can be written and read again. -/
theorem passable_of_loop (endpoint : Endpoint) (input : TcpInput) :
    ∀ frame ∈ Loop.values (endpoint.frameLoop input), frame.Passable := by
  intro frame member
  obtain ⟨head, body, stream, sized, decoded⟩ := deliverable_of_loop endpoint input frame member
  exact ⟨decoded.writable stream sized, decoded.goesOn⟩

/-- No endpoint stops among passable frames. -/
theorem takeWhile_of_passable (passable : ∀ frame ∈ frames, frame.Passable) :
    frames.takeWhile (Frame.goesOn second) = frames :=
  List.takeWhile_eq_self_iff.mpr fun frame member => (passable frame member).goesOn second

theorem images_of_deliverable (deliverable : ∀ frame ∈ frames, Deliverable endpoint frame)
    (returns : endpoint.Returns second) :
    frames.filterMap (Frame.image second) = frames.filter (· ≠ .unknown) := by
  rw [← List.filterMap_eq_filter]
  refine List.filterMap_congr fun frame member => ?_
  obtain ⟨head, body, -, -, decoded⟩ := deliverable frame member
  rw [decoded.image returns]
  by_cases known : frame = .unknown <;> simp [known, Option.guard]

end Lists

/-- What a reader writes that writes all it delivers. -/
def rewritten (endpoint : Endpoint) (input : TcpInput) : List Byte :=
  (Loop.values (endpoint.frameLoop input)).flatMap Frame.writeTo

/-- What an endpoint makes of the first bytes that a reader has written again. -/
structure Rereads (first second : Endpoint) (input again : TcpInput) : Prop where
  values : Loop.values (second.frameLoop again) =
    (wholeFrames again.content.length (Loop.values (first.frameLoop input))).filterMap
      (Frame.image second)
  failed : ∃ err, (second.frameLoop again).exit = .failed (.io err)
  /-- All of the bytes come back as frames, and as bytes. -/
  returned : first.Returns second → again.content = rewritten first input →
    Loop.values (second.frameLoop again) =
        (Loop.values (first.frameLoop input)).filter (· ≠ .unknown) ∧
      rewritten second again = rewritten first input

/-- Among enough bytes every frame is whole. -/
theorem wholeFrames_all {count : Nat} {frames : List Frame}
    (enough : (frames.flatMap writeTo).length ≤ count) : wholeFrames count frames = frames := by
  induction frames generalizing count with
  | nil => rfl
  | cons frame rest ih =>
      rw [List.flatMap_cons, List.length_append] at enough
      rw [wholeFrames, if_pos (by omega), ih (by omega)]

/-- Nothing is written for an unknown frame. -/
theorem written_of_known (frames : List Frame) :
    (frames.filter (· ≠ .unknown)).flatMap writeTo = frames.flatMap writeTo := by
  induction frames with
  | nil => rfl
  | cons frame rest ih =>
      by_cases known : frame = .unknown
      · subst known
        exact ih
      · rw [List.filter_cons_of_pos (by simpa using known), List.flatMap_cons, List.flatMap_cons,
          ih]

/-- Whatever bytes an endpoint is given, what it delivers may be written again: either endpoint
reads the whole frames among the first bytes of it and does not unwind, and where frames are
delivered as they are, reading and writing them once more changes nothing. -/
theorem rereads (first second : Endpoint) (input again : TcpInput)
    (front : again.content <+: rewritten first input) : Rereads first second input again := by
  have passable := passable_of_loop first input
  have loop := loop_written second _ (fun frame member => (passable frame member).writable) again
    front
  have values : Loop.values (second.frameLoop again) =
      (wholeFrames again.content.length (Loop.values (first.frameLoop input))).filterMap
        (image second) := by
    rw [loop.values, imagesWithin, takeWhile_of_passable passable]
  refine ⟨values, loop.failed (.inl (takeWhile_of_passable passable)), fun returns whole => ?_⟩
  have back : Loop.values (second.frameLoop again) =
      (Loop.values (first.frameLoop input)).filter (· ≠ .unknown) := by
    rw [values, wholeFrames_all (by rw [whole, rewritten]), images_of_deliverable (deliverable_of_loop first input) returns]
  exact ⟨back, by rw [rewritten, back, written_of_known, rewritten]⟩

/-- A padded DATA frame with all flags and the reserved bit. -/
def untidyPeer : TcpInput :=
  Source.ofContent [0, 0, 3, 0, 0xff, 0x80, 0, 0, 1, 1, 42, 0] none

/-- Padding and reserved bits of a peer, and what is left of them after a rewrite. -/
theorem untidyPeer_rereads :
    rewritten .client untidyPeer = [0, 0, 3, 0, 0x9, 0, 0, 0, 1, 1, 42, 0] ∧
      Rereads .client .client untidyPeer (Source.ofContent (rewritten .client untidyPeer) none) :=
  ⟨by decide, rereads .client .client _ _ (by simp [Source.content_ofContent])⟩

end H2l
