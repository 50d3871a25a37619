import H2l.Wire.Panic

/-!
# The two readers side by side

The server and the client read a byte string alike up to the first frame on which
they disagree: a kind the server does not handle, or a DATA frame for stream zero
or with a flag that the server drops (`sameReading_iff`).
-/

namespace H2l

open Base

/-- Both frame phases deliver the same frames, have consumed as much after each one, and
end alike. -/
structure SameReading (input : TcpInput) : Prop where
  frames : Loop.values (Link.frameLoop input) = Loop.values (Client.frameLoop input)
  consumed : (Link.frameLoop input).delivered.map
      (fun delivery => input.content.length - delivery.2.content.length) =
    (Client.frameLoop input).delivered.map
      (fun delivery => input.content.length - delivery.2.content.length)
  exit : (Link.frameLoop input).exit = (Client.frameLoop input).exit

/-- A complete header on which the endpoints agree. -/
structure FrameAgrees (place : List Byte) : Prop where
  handled : (headAt place).kind.isHandled
  data : (headAt place).kind = .data → 9 + lengthAt place ≤ place.length →
    (headAt place).streamId.isZero = false ∧ (headAt place).flags &&& 0x9 = 0

/-- The state after a delivery depends on the header alone. -/
theorem delivered_after {endpoint : Endpoint} {input after : TcpInput} {frame : Frame}
    (delivers : endpoint.readFrame input = (.ok frame, after)) :
    after = (TcpInput.readExact (bodyLengthAt input.content) (input.readExact 9).2).2 := by
  obtain ⟨enough, reads, -⟩ := delivered_cases delivers
  obtain ⟨middle, heads, -⟩ := Source.readExact_of_le IoError.unexpectedEof enough
  have run : endpoint.readFrame input = readBody (bodyLengthAt input.content)
      (endpoint.decode (headAt input.content)) middle := by
    have head : readHead input = (.ok (headAt input.content, lengthAt input.content), middle) := by
      simp only [readHead, TcpInput.readExact, heads]
      rfl
    simp only [endpoint.readFrame_eq, head, endpoint.readPayload_eq, reads]
    rfl
  have second : (input.readExact 9).2 = middle := by rw [TcpInput.readExact, heads]
  rw [run] at delivers
  rw [second]
  cases body : TcpInput.readExact (bodyLengthAt input.content) middle with
  | mk result final =>
      simp only [readBody, body] at delivers
      cases result with
      | ok data => exact (congrArg Prod.snd delivers).symm
      | error err => cases congrArg Prod.fst delivers

/-- After the same frame both endpoints are at the same place. -/
theorem readFrame_lockstep : Loop.Lockstep Link.readFrame Client.readFrame := by
  intro input frame next next' server client
  rw [@delivered_after .server _ _ _ server, @delivered_after .client _ _ _ client]

/-- Apart from DATA, the handled kinds are decoded alike. -/
theorem decode_agrees {head : Head} (handled : head.kind.isHandled) (other : head.kind ≠ .data)
    (body : List Byte) : Endpoint.server.decode head body = Endpoint.client.decode head body := by
  obtain ⟨kind, flags, streamId⟩ := head
  cases kind <;> simp_all [Endpoint.decode, Kind.isHandled]

/-- Both ends give up before a payload at the same headers. -/
theorem refusal_agrees {head : Head} (handled : head.kind.isHandled) (length : Nat) :
    Endpoint.server.refusal head length = Endpoint.client.refusal head length := by
  obtain ⟨kind, flags, streamId⟩ := head
  cases kind <;> simp_all [Endpoint.refusal, Kind.isHandled]

/-- DATA is decoded alike exactly on a stream and without a defined flag. -/
theorem decode_data_agrees_iff {head : Head} (kind : head.kind = .data) (body : List Byte) :
    Endpoint.server.decode head body = Endpoint.client.decode head body ↔
      head.streamId.isZero = false ∧ head.flags &&& 0x9 = 0 := by
  obtain ⟨_, flags, streamId⟩ := head
  obtain rfl : _ = Kind.data := kind
  simp only [Endpoint.decode, Frame.withData]
  by_cases zero : streamId.isZero
  · simp [Data.new, Data.load, zero]
  · have stream : streamId.isZero = false := by simpa using zero
    constructor
    · intro same
      refine ⟨stream, ?_⟩
      simp only [Data.new, dif_neg zero] at same
      cases loaded : Data.load ⟨.data, flags, streamId⟩ body with
      | error error => rw [loaded] at same; cases same
      | ok data =>
          rw [loaded] at same
          obtain ⟨-, -, sameFlags⟩ := Data.load_eq_ok loaded
          have none : data.flags = FlagSet.empty := by
            have values : Frame.data _ = Frame.data data := Outcome.ok.inj same
            rw [← Frame.data.inj values]
          rw [sameFlags] at none
          exact congrArg FlagSet.bits none
    · rintro ⟨-, none⟩
      have plain : DataFlags.load flags = FlagSet.empty := FlagSet.ext none
      have unpadded : DataFlags.isPadded FlagSet.empty = false := by decide
      simp [Data.new, Data.load, stream, plain, unpadded]

/-- The outcome of a turn, as a function of the bytes and of how they end. -/
theorem readFrame_outcome (endpoint : Endpoint) (input : TcpInput) :
    (endpoint.readFrame input).1 =
      if input.content.length < 9 then .err (.io (input.shortage .unexpectedEof))
      else match endpoint.refusal (headAt input.content) (lengthAt input.content) with
        | some cause => .panic cause
        | none =>
            if (input.content.drop 9).length < bodyLengthAt input.content then
              .err (.io (input.shortage .unexpectedEof))
            else endpoint.decode (headAt input.content) (bodyAt input.content) := by
  cases turn endpoint input with
  | short short _ turn => simp [turn, short]
  | refused enough _ _ refuses turn => simp [turn, Nat.not_lt.mpr enough, refuses]
  | cut enough reads short _ turn =>
      simp only [turn, if_neg (Nat.not_lt.mpr enough), reads, if_pos short]
  | whole enough reads full _ turn =>
      simp only [turn, if_neg (Nat.not_lt.mpr enough), reads, if_neg (Nat.not_lt.mpr full)]

/-- A kind that only the client handles. -/
theorem unhandled_ne {input : TcpInput} (enough : 9 ≤ input.content.length)
    (unhandled : ¬ (headAt input.content).kind.isHandled) :
    (Endpoint.server.readFrame input).1 ≠ (Endpoint.client.readFrame input).1 := by
  rw [readFrame_outcome, readFrame_outcome, if_neg (Nat.not_lt.mpr enough),
    if_neg (Nat.not_lt.mpr enough)]
  generalize headAt input.content = head at unhandled
  obtain ⟨kind, flags, streamId⟩ := head
  cases kind <;> simp [Kind.isHandled] at unhandled <;>
    simp only [Endpoint.refusal, Endpoint.decode] <;> split <;> intro same <;> cases same

/-- One turn has the same outcome at both endpoints exactly when they agree on the header. -/
theorem outcome_eq_iff (input : TcpInput) :
    (Endpoint.server.readFrame input).1 = (Endpoint.client.readFrame input).1 ↔
      (9 ≤ input.content.length → FrameAgrees input.content) := by
  by_cases enough : 9 ≤ input.content.length
  · by_cases handled : (headAt input.content).kind.isHandled
    · rw [readFrame_outcome, readFrame_outcome, if_neg (Nat.not_lt.mpr enough),
        if_neg (Nat.not_lt.mpr enough), refusal_agrees handled]
      by_cases kind : (headAt input.content).kind = .data
      · have reads : Endpoint.client.refusal (headAt input.content) (lengthAt input.content) =
            none := by simp [Endpoint.refusal, kind]
        have agrees := decode_data_agrees_iff kind (bodyAt input.content)
        have length := bodyLengthAt_data kind
        have lengths : (input.content.drop 9).length = input.content.length - 9 := List.length_drop
        simp only [reads]
        by_cases short : (input.content.drop 9).length < bodyLengthAt input.content
        · simp only [if_pos short, true_iff]
          exact fun _ => ⟨handled, fun _ whole => by omega⟩
        · rw [if_neg short, if_neg short, agrees]
          exact ⟨fun same _ => ⟨handled, fun _ _ => same⟩,
            fun holds => (holds enough).data kind (by omega)⟩
      · rw [decode_agrees handled kind]
        exact ⟨fun _ _ => ⟨handled, fun data => absurd data kind⟩, fun _ => rfl⟩
    · constructor
      · exact fun same => absurd same (unhandled_ne enough handled)
      · exact fun agrees => absurd (agrees enough).handled handled
  · rw [readFrame_outcome, readFrame_outcome, if_pos (Nat.not_le.mp enough),
      if_pos (Nat.not_le.mp enough)]
    exact ⟨fun _ more => absurd more enough, fun _ => rfl⟩

/-- The two frame phases read a byte string alike exactly when they agree on every header
the server reads. -/
theorem sameReading_iff (input : TcpInput) :
    SameReading input ↔
      ∀ place, Reads .server input.content place → 9 ≤ place.length → FrameAgrees place := by
  constructor
  · intro same place reads
    obtain ⟨reached, visits, rfl⟩ := visits_of_reads reads rfl
    have outcomes := Loop.outcomes_eq_of_values_eq (readFrame_drains .server)
      (readFrame_drains .client) readFrame_lockstep visits same.frames same.exit
    exact (outcome_eq_iff reached).mp outcomes
  · intro agrees
    have outcomes : ∀ reached, Loop.Visits Endpoint.server.readFrame input reached →
        (Endpoint.server.readFrame reached).1 = (Endpoint.client.readFrame reached).1 := by
      intro reached visits
      exact (outcome_eq_iff reached).mpr (agrees _ (reads_of_visits visits))
    have traces : Link.frameLoop input = Client.frameLoop input :=
      Loop.run_eq_of_outcomes_eq (readFrame_drains .server) (readFrame_drains .client)
        readFrame_lockstep input outcomes
    exact ⟨by rw [traces], by rw [traces], by rw [traces]⟩

/-- A DATA frame that ends its stream. -/
def endingData : TcpInput := Source.ofContent [0, 0, 1, 0, 1, 0, 0, 0, 1, 0x21] none

/-- The client delivers the frame with its flag, the server without. -/
theorem endingData_not_same : ¬ SameReading endingData := by
  intro same
  have frames := same.frames
  revert frames
  decide

end H2l
