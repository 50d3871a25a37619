import H2l.Wire.Agreement
import H2l.Wire.RoundTrip

/-!
# From any writer to either reader

The frame loop of the server reads written frames back as the client's does, up to the first
of a kind that it does not handle: there it unwinds (`loop_written`). DATA comes through
the server without its flags, and with the padding still in its payload.
-/

namespace H2l

open Base

/-- A byte string that an endpoint reads as one frame. -/
structure Spells (endpoint : Endpoint) (bytes : List Byte) (delivered : Frame) : Prop where
  taken : endpoint.refusal (headAt bytes) (lengthAt bytes) = none
  length : bytes.length = 9 + bodyLengthAt bytes
  decoded : endpoint.decode (headAt bytes) (bodyAt bytes) = .ok delivered

/-- A header does not depend on what follows it. -/
theorem header_of_front {bytes first rest : List Byte} (front : bytes <+: first ++ rest)
    (enough : 9 ≤ bytes.length) (header : 9 ≤ first.length) :
    headAt bytes = headAt first ∧ lengthAt bytes = lengthAt first := by
  obtain ⟨more, split⟩ := front
  have nine : bytes.take 9 = first.take 9 := by
    rw [← List.take_append_of_le_length enough, split, List.take_append_of_le_length header]
  rw [headAt, headAt, lengthAt, lengthAt, nine]
  exact ⟨rfl, rfl⟩

/-- What is spelled is delivered when it is wholly there, and what follows is left. -/
theorem Spells.delivers {endpoint : Endpoint} {bytes rest : List Byte} {delivered : Frame}
    (spells : Spells endpoint bytes delivered) {input : TcpInput}
    (front : input.content <+: bytes ++ rest) (whole : bytes.length ≤ input.content.length) :
    ∃ after, endpoint.readFrame input = (.ok delivered, after) ∧
      after.content = input.content.drop bytes.length ∧ after.ending = input.ending := by
  have length := spells.length
  obtain ⟨atHead, atLength⟩ := header_of_front front (by omega) (by omega)
  have taken : bodyLengthAt input.content = bodyLengthAt bytes := by
    rw [bodyLengthAt, atHead, atLength, bodyLengthAt]
  have theBody : bodyAt input.content = bodyAt bytes := by
    obtain ⟨after, split⟩ := List.prefix_of_prefix_length_le (List.prefix_append _ _) front whole
    have exact : (bytes.drop 9).length = bodyLengthAt bytes := by rw [List.length_drop]; omega
    rw [bodyAt, bodyAt, taken, ← split, List.drop_append_of_le_length (by omega),
      List.take_append_of_le_length (by omega)]
  have lengths : (input.content.drop 9).length = input.content.length - 9 := List.length_drop
  cases turn endpoint input with
  | short short => omega
  | refused _ cause _ refuses =>
      rw [atHead, atLength, spells.taken] at refuses
      cases refuses
  | cut _ _ short => omega
  | whole _ _ _ after turn rest ending =>
      refine ⟨after, ?_, ?_, ending⟩
      · rw [turn, atHead, theBody, spells.decoded]
      · rw [rest, afterFrame, List.drop_drop, taken, length]

/-- What is spelled is not delivered when it is cut short. -/
theorem Spells.fails {endpoint : Endpoint} {bytes rest : List Byte} {delivered : Frame}
    (spells : Spells endpoint bytes delivered) {input : TcpInput}
    (front : input.content <+: bytes ++ rest) (cut : input.content.length < bytes.length) :
    ∃ err after, endpoint.readFrame input = (.err (.io err), after) := by
  have length := spells.length
  cases turn endpoint input with
  | short _ after turn => exact ⟨_, after, turn⟩
  | cut _ _ _ after turn => exact ⟨_, after, turn⟩
  | refused enough cause _ refuses =>
      obtain ⟨atHead, atLength⟩ := header_of_front front enough (by omega)
      rw [atHead, atLength, spells.taken] at refuses
      cases refuses
  | whole enough _ full =>
      obtain ⟨atHead, atLength⟩ := header_of_front front enough (by omega)
      rw [bodyLengthAt, atHead, atLength, ← bodyLengthAt, List.length_drop] at full
      omega

namespace Frame

/-- A frame that the loop of an endpoint goes on after. -/
def goesOn : Endpoint → Frame → Bool
  | .server, priority _ | .server, reset _ | .server, continuation _ | .server, binCode _ => false
  | _, _ => true

/-- A frame without flags records no pad length. -/
theorem recorded_empty : (none : Option Byte).isSome = DataFlags.isPadded FlagSet.empty := rfl

/-- What the server delivers for a written frame. -/
def relayed : Frame → Option Frame
  | data frame =>
      some (data ⟨frame.streamId, frame.data, FlagSet.empty, none, frame.nonzero, recorded_empty⟩)
  | priority _ | reset _ | continuation _ | binCode _ | unknown => none
  | frame => some frame

/-- What an endpoint delivers for a written frame. -/
def image : Endpoint → Frame → Option Frame
  | .server => relayed
  | .client => received

/-- What an endpoint delivers for the whole ones of the frames, up to the first that it does not
handle. -/
def imagesWithin (endpoint : Endpoint) (count : Nat) (frames : List Frame) : List Frame :=
  (wholeFrames count (frames.takeWhile (goesOn endpoint))).filterMap (image endpoint)

/-- A frame that is wholly there is delivered. -/
theorem imagesWithin_cons {endpoint : Endpoint} {count : Nat} {frame delivered : Frame}
    {rest : List Frame} (goes : goesOn endpoint frame)
    (image : frame.image endpoint = some delivered) (whole : frame.writeTo.length ≤ count) :
    imagesWithin endpoint count (frame :: rest) =
      delivered :: imagesWithin endpoint (count - frame.writeTo.length) rest := by
  rw [imagesWithin, List.takeWhile_cons_of_pos goes, wholeFrames, if_pos whole,
    List.filterMap_cons, image]
  rfl

/-- A frame that is not written is passed over. -/
theorem imagesWithin_unknown (endpoint : Endpoint) (count : Nat) (rest : List Frame) :
    imagesWithin endpoint count (unknown :: rest) = imagesWithin endpoint count rest := by
  cases endpoint <;> rfl

/-- What is whole comes first. -/
theorem wholeFrames_front (count : Nat) (frames : List Frame) :
    wholeFrames count frames <+: frames := by
  induction frames generalizing count with
  | nil => exact List.prefix_rfl
  | cons frame rest ih =>
      rw [wholeFrames]
      split
      · exact (List.prefix_cons_inj frame).mpr (ih _)
      · exact List.nil_prefix

/-- The loop does not get to the header of a frame that the endpoint does not handle. -/
def Unreached (endpoint : Endpoint) (count : Nat) (frames : List Frame) : Prop :=
  frames.takeWhile (goesOn endpoint) = frames ∨
    count < ((frames.takeWhile (goesOn endpoint)).flatMap writeTo).length + 9

instance (endpoint : Endpoint) (count : Nat) (frames : List Frame) :
    Decidable (Unreached endpoint count frames) :=
  inferInstanceAs (Decidable (_ ∨ _))

/-- The server handles the kinds that its loop goes on after. -/
theorem isHandled_written {frame : Frame} {head : Head} (written : frame.head = some head) :
    (wireHead head).kind.isHandled = goesOn .server frame := by
  cases frame with
  | unknown => cases written
  | _ =>
      cases written
      rfl

/-- No header of a handled frame is refused. -/
theorem unrefused_written {endpoint : Endpoint} {frame : Frame} {head : Head}
    (written : frame.head = some head) (goes : goesOn endpoint frame) :
    endpoint.refusal (wireHead head) frame.body.length = none := by
  cases endpoint with
  | client => exact not_refused written
  | server =>
      have handled : (wireHead head).kind.isHandled := by rw [isHandled_written written, goes]
      rw [refusal_agrees handled, not_refused written]

/-- Every other header is. -/
theorem refused_written {endpoint : Endpoint} {frame : Frame} {head : Head}
    (written : frame.head = some head) (stops : goesOn endpoint frame = false) (length : Nat) :
    endpoint.refusal (wireHead head) length = some .unreachable := by
  cases endpoint with
  | client => cases stops
  | server =>
      have unhandled := isHandled_written written
      rw [stops] at unhandled
      generalize wireHead head = head at unhandled
      obtain ⟨kind, flags, streamId⟩ := head
      cases kind <;> first | rfl | cases unhandled

/-- An endpoint decodes a written payload to the image of its frame. -/
theorem Writable.decodeAt {endpoint : Endpoint} {frame : Frame} {head : Head}
    (writable : frame.Writable) (written : frame.head = some head)
    (goes : goesOn endpoint frame) :
    ∃ delivered, frame.image endpoint = some delivered ∧
      endpoint.decode (wireHead head) frame.body = .ok delivered := by
  obtain ⟨delivered, received, decodes⟩ := writable.decode written
  cases endpoint with
  | client => exact ⟨delivered, received, decodes⟩
  | server =>
      cases frame with
      | data frame =>
          cases written
          refine ⟨_, rfl, ?_⟩
          rw [wireHead_kind_ne (by simp [Data.head])]
          have stream : ¬ frame.streamId.isZero = true := by simp [frame.nonzero]
          exact congrArg (Outcome.map data) (dif_neg stream)
      | priority | reset | continuation | binCode => cases goes
      | unknown => cases written
      | _ =>
          cases written
          cases received
          exact ⟨_, rfl, decodes⟩

/-- The bytes of a handled frame spell its image. -/
theorem spells_written {endpoint : Endpoint} {frame : Frame} {head : Head}
    (writable : frame.Writable) (written : frame.head = some head)
    (goes : goesOn endpoint frame) :
    ∃ delivered, frame.image endpoint = some delivered ∧
      Spells endpoint frame.writeTo delivered := by
  have length := writeTo_length written
  obtain ⟨atHead, atLength⟩ := front_written writable written
    (List.prefix_append frame.writeTo []) (by omega)
  obtain ⟨delivered, image, decodes⟩ := writable.decodeAt written goes
  have taken : bodyLengthAt frame.writeTo = frame.body.length := by
    rw [bodyLengthAt, atHead, atLength, bodyLength_written written]
  have theBody : bodyAt frame.writeTo = frame.body := by
    rw [bodyAt, taken, writeTo_of_head written, List.drop_left' (head.encode_length _),
      List.take_length]
  refine ⟨delivered, image, ?_, ?_, ?_⟩
  · rw [atHead, atLength, unrefused_written written goes]
  · rw [taken, length]
  · rw [atHead, theBody, decodes]

/-- The header of a frame that is not handled unwinds the loop, unless it is cut. -/
theorem unwinds_at {endpoint : Endpoint} {frame : Frame} {head : Head} (writable : frame.Writable)
    (written : frame.head = some head) (stops : goesOn endpoint frame = false) {input : TcpInput}
    {rest : List Byte} (front : input.content <+: frame.writeTo ++ rest) :
    (input.content.length < 9 ∧
      ∃ err after, endpoint.readFrame input = (.err (.io err), after)) ∨
    9 ≤ input.content.length ∧
      ∃ after, endpoint.readFrame input = (.panic .unreachable, after) := by
  have refuses : 9 ≤ input.content.length →
      endpoint.refusal (headAt input.content) (lengthAt input.content) = some .unreachable := by
    intro enough
    rw [(front_written writable written front enough).1, refused_written written stops]
  cases turn endpoint input with
  | short short after turn => exact .inl ⟨short, _, after, turn⟩
  | refused enough cause after refuses' turn =>
      rw [refuses enough] at refuses'
      cases refuses'
      exact .inr ⟨enough, after, turn⟩
  | cut enough reads | whole enough reads =>
      rw [refuses enough] at reads
      cases reads

end Frame

open H2l.Frame

/-- What the loop of an endpoint makes of written bytes. -/
structure ReadsWritten (endpoint : Endpoint) (frames : List Frame) (input : TcpInput) : Prop where
  values : Loop.values (endpoint.frameLoop input) =
    imagesWithin endpoint input.content.length frames
  failed : Unreached endpoint input.content.length frames →
    ∃ err, (endpoint.frameLoop input).exit = .failed (.io err)
  unwound : ¬ Unreached endpoint input.content.length frames →
    (endpoint.frameLoop input).exit = .panicked .unreachable

variable {endpoint : Endpoint} {frame delivered : Frame} {frames rest : List Frame}
  {input after : TcpInput}

/-- A loop that fails before anything is delivered, where nothing is whole. -/
theorem readsWritten_of_fails {err : IoError}
    (fails : endpoint.readFrame input = (.err (.io err), after))
    (nothing : imagesWithin endpoint input.content.length frames = [])
    (unreached : Unreached endpoint input.content.length frames) :
    ReadsWritten endpoint frames input := by
  have run : endpoint.frameLoop input = ⟨[], .failed (.io err)⟩ := by
    rw [endpoint.frameLoop_eq, Loop.run_err fails]
  refine ⟨?_, fun _ => ⟨err, by rw [run]⟩, fun reached => absurd unreached reached⟩
  rw [run, nothing]
  rfl

/-- A loop that unwinds before anything is delivered. -/
theorem readsWritten_of_unwinds
    (unwinds : endpoint.readFrame input = (.panic .unreachable, after))
    (nothing : imagesWithin endpoint input.content.length frames = [])
    (reached : ¬ Unreached endpoint input.content.length frames) :
    ReadsWritten endpoint frames input := by
  have run : endpoint.frameLoop input = ⟨[], .panicked .unreachable⟩ := by
    rw [endpoint.frameLoop_eq, Loop.run_panic unwinds]
  refine ⟨?_, fun unreached => absurd unreached reached, fun _ => by rw [run]⟩
  rw [run, nothing]
  rfl

/-- One more frame is delivered. -/
theorem ReadsWritten.cons (goes : goesOn endpoint frame)
    (image : frame.image endpoint = some delivered)
    (delivers : endpoint.readFrame input = (.ok delivered, after))
    (whole : frame.writeTo.length ≤ input.content.length)
    (left : after.content = input.content.drop frame.writeTo.length)
    (further : ReadsWritten endpoint rest after) :
    ReadsWritten endpoint (frame :: rest) input := by
  have run : endpoint.frameLoop input = ⟨(delivered, after) ::
      (endpoint.frameLoop after).delivered, (endpoint.frameLoop after).exit⟩ := by
    simp only [endpoint.frameLoop_eq]
    exact Loop.run_ok (readFrame_drains endpoint) delivers
  have taken : (frame :: rest).takeWhile (goesOn endpoint) =
      frame :: rest.takeWhile (goesOn endpoint) := List.takeWhile_cons_of_pos goes
  have length : after.content.length = input.content.length - frame.writeTo.length := by
    rw [left, List.length_drop]
  have reach : Unreached endpoint after.content.length rest ↔
      Unreached endpoint input.content.length (frame :: rest) := by
    simp only [Unreached, taken, length, List.flatMap_cons, List.length_append, List.cons.injEq,
      true_and]
    refine or_congr Iff.rfl ⟨fun short => ?_, fun short => ?_⟩ <;> omega
  constructor
  · rw [run, imagesWithin_cons goes image whole, ← length]
    exact congrArg (delivered :: ·) further.values
  · rw [← reach, run]
    exact further.failed
  · rw [← reach, run]
    exact further.unwound

/-- A frame that is not written is passed over. -/
theorem ReadsWritten.unknown (further : ReadsWritten endpoint rest input) :
    ReadsWritten endpoint (.unknown :: rest) input := by
  have taken : (Frame.unknown :: rest).takeWhile (goesOn endpoint) =
      .unknown :: rest.takeWhile (goesOn endpoint) := by
    cases endpoint <;> rfl
  have reach : Unreached endpoint input.content.length (.unknown :: rest) ↔
      Unreached endpoint input.content.length rest := by
    simp only [Unreached, taken, List.flatMap_cons, writeTo, List.nil_append, List.cons.injEq,
      true_and]
  refine ⟨?_, fun unreached => further.failed (reach.mp unreached),
    fun reached => further.unwound fun unreached => reached (reach.mpr unreached)⟩
  rw [further.values, imagesWithin_unknown]

/-- An endpoint delivers, in order, every frame that lies wholly before the cut and before the first
that it does not handle; there it unwinds, and elsewhere it fails on the rest. -/
theorem loop_written (endpoint : Endpoint) (frames : List Frame)
    (writable : ∀ frame ∈ frames, frame.Writable) (input : TcpInput)
    (front : input.content <+: frames.flatMap writeTo) : ReadsWritten endpoint frames input := by
  induction frames generalizing input with
  | nil =>
      have ended : input.content = [] := List.prefix_nil.mp front
      cases turn endpoint input with
      | short _ after turn => exact readsWritten_of_fails turn rfl (.inl rfl)
      | refused enough | cut enough | whole enough => simp [ended] at enough
  | cons frame rest ih =>
      rw [List.flatMap_cons] at front
      have first := writable frame List.mem_cons_self
      have others : ∀ frame ∈ rest, frame.Writable :=
        fun frame member => writable frame (List.mem_cons_of_mem _ member)
      cases written : frame.head with
      | none =>
          obtain rfl := eq_unknown_of_head written
          exact (ih others input front).unknown
      | some head =>
          cases goes : goesOn endpoint frame with
          | false =>
              have stops : (frame :: rest).takeWhile (goesOn endpoint) = [] :=
                List.takeWhile_cons_of_neg (by simp [goes])
              have nothing : imagesWithin endpoint input.content.length (frame :: rest) = [] := by
                rw [imagesWithin, stops]
                rfl
              have reach : Unreached endpoint input.content.length (frame :: rest) ↔
                  input.content.length < 9 := by
                simp [Unreached, stops]
              rcases unwinds_at first written goes front with
                ⟨short, err, after, fails⟩ | ⟨enough, after, unwinds⟩
              · exact readsWritten_of_fails fails nothing (reach.mpr short)
              · refine readsWritten_of_unwinds unwinds nothing fun unreached => ?_
                have short := reach.mp unreached
                omega
          | true =>
              obtain ⟨delivered, image, spells⟩ := spells_written first written goes
              by_cases whole : frame.writeTo.length ≤ input.content.length
              · obtain ⟨after, delivers, left, -⟩ := spells.delivers front whole
                exact .cons goes image delivers whole left
                  (ih others after (left ▸ front_drop front whole))
              · obtain ⟨err, after, fails⟩ := spells.fails front (Nat.not_le.mp whole)
                have taken : (frame :: rest).takeWhile (goesOn endpoint) =
                    frame :: rest.takeWhile (goesOn endpoint) := List.takeWhile_cons_of_pos goes
                refine readsWritten_of_fails fails ?_ (.inr ?_)
                · rw [imagesWithin, taken, wholeFrames, if_neg whole]
                  rfl
                · simp only [taken, List.flatMap_cons, List.length_append]
                  omega

/-- The server gets to a frame that it does not handle, where the client goes on. -/
example : ¬ Unreached .server 40 greeting ∧ Unreached .client 40 greeting := by decide

end H2l
