import H2l.Wire.Panic

/-!
# Panics of a client connection

`sessionSafe_iff` says exactly which answers of a server unwind the handshake or
the frame phase of a client: SETTINGS headers whose length exceeds one of the two
fixed buffers.
-/

namespace H2l

open Base

/-- Every answer of a server ends in an error value. -/
def SessionSafe (stream : TcpStream) : Prop :=
  (∃ err, Client.session stream = .refused err) ∨
    ∃ err, Client.session stream = .left (.failed err)

/-- The payload of the server's first frame. -/
def firstPayload (bytes : List Byte) : List Byte := (bytes.drop 9).take (lengthAt bytes)

/-- The client's handshake completes on these bytes. -/
def Handshakes (bytes : List Byte) : Prop :=
  9 + lengthAt bytes ≤ bytes.length ∧ (headAt bytes).kind = .settings ∧
    lengthAt bytes ≤ Client.handshakeCapacity ∧
    (Settings.load (headAt bytes) (firstPayload bytes)).isOk

/-- What a server may answer without unwinding the client, once both writes of the
handshake succeeded. -/
structure ClientSafe (bytes : List Byte) : Prop where
  first : 9 ≤ bytes.length → (headAt bytes).kind = .settings →
    lengthAt bytes ≤ Client.handshakeCapacity
  frames : Handshakes bytes → ∀ place, Reads .client (bytes.drop (9 + lengthAt bytes)) place →
    9 ≤ place.length → (headAt place).kind = .settings → lengthAt place ≤ 256

/-- The frame loop of a client unwinds exactly at a SETTINGS header beyond the buffer. -/
theorem client_frameLoop_panics_iff (input : TcpInput) :
    (∃ cause, (Client.frameLoop input).exit = .panicked cause) ↔
      ¬ ∀ place, Reads .client input.content place → 9 ≤ place.length →
        (headAt place).kind = .settings → lengthAt place ≤ 256 := by
  have loop := @frameLoop_panics_iff .client
    (fun place => 9 ≤ place.length ∧ (headAt place).kind = .settings ∧ 256 < lengthAt place)
    client_panics_iff input
  simpa only [Endpoint.frameLoop, Classical.not_forall, exists_prop, Nat.not_le] using loop

/-- How reading the server's first frame ends. -/
inductive FirstFrame (stream : TcpStream) : Prop where
  /-- An error, or a panic where the length exceeds the buffer. -/
  | refused (err : HandshakeError) (after : TcpStream)
      (reads : Client.readServerSettings stream = (.err err, after))
      (first : 9 ≤ stream.input.content.length → (headAt stream.input.content).kind = .settings →
        lengthAt stream.input.content ≤ Client.handshakeCapacity)
      (fails : ¬ Handshakes stream.input.content)
  | panicked (cause : Panic) (after : TcpStream)
      (reads : Client.readServerSettings stream = (.panic cause, after))
      (enough : 9 ≤ stream.input.content.length)
      (kind : (headAt stream.input.content).kind = .settings)
      (long : Client.handshakeCapacity < lengthAt stream.input.content)
  /-- The settings, and what follows their frame. -/
  | accepted (settings : Settings) (after : TcpStream)
      (reads : Client.readServerSettings stream = (.ok settings, after))
      (completes : Handshakes stream.input.content)
      (rest : after.input.content =
        stream.input.content.drop (9 + lengthAt stream.input.content))

/-- A header that is cut off. -/
theorem firstFrame_of_cut {stream : TcpStream} (short : stream.input.content.length < 9) :
    FirstFrame stream := by
  obtain ⟨after, heads, -⟩ := Source.readExact_of_lt IoError.unexpectedEof short
  refine .refused (.io (stream.input.shortage .unexpectedEof)) { stream with input := after } ?_
    (fun more => absurd short (Nat.not_lt.mpr more)) fun completes => ?_
  · simp only [Client.readServerSettings, TcpStream.readExact, TcpInput.readExact, heads]
  · have whole := completes.1
    omega

/-- A header of another kind. -/
theorem firstFrame_of_kind {stream : TcpStream} (enough : 9 ≤ stream.input.content.length)
    (other : (headAt stream.input.content).kind ≠ .settings) : FirstFrame stream := by
  obtain ⟨middle, heads, -⟩ := Source.readExact_of_le IoError.unexpectedEof enough
  refine .refused .unknownProtocol { stream with input := middle } ?_
    (fun _ settings => absurd settings other) fun completes => other completes.2.1
  simp only [headAt] at other
  simp only [Client.readServerSettings, TcpStream.readExact, TcpInput.readExact, heads,
    if_neg other]

/-- A SETTINGS header beyond the buffer. -/
theorem firstFrame_of_long {stream : TcpStream} (enough : 9 ≤ stream.input.content.length)
    (kind : (headAt stream.input.content).kind = .settings)
    (long : Client.handshakeCapacity < lengthAt stream.input.content) : FirstFrame stream := by
  obtain ⟨middle, heads, -⟩ := Source.readExact_of_le IoError.unexpectedEof enough
  refine .panicked .slice { stream with input := middle } ?_ enough kind long
  simp only [headAt, lengthAt] at kind long
  simp only [Client.readServerSettings, TcpStream.readExact, TcpInput.readExact, heads,
    if_pos kind, if_pos long]

/-- A SETTINGS header within the buffer: its payload is cut off, refused or accepted. -/
theorem firstFrame_of_within {stream : TcpStream} (enough : 9 ≤ stream.input.content.length)
    (kind : (headAt stream.input.content).kind = .settings)
    (within : ¬ Client.handshakeCapacity < lengthAt stream.input.content) :
    FirstFrame stream := by
  have first : 9 ≤ stream.input.content.length → (headAt stream.input.content).kind = .settings →
      lengthAt stream.input.content ≤ Client.handshakeCapacity := fun _ _ => Nat.not_lt.mp within
  obtain ⟨middle, heads, rest, -⟩ := Source.readExact_of_le IoError.unexpectedEof enough
  have remaining : middle.content.length = stream.input.content.length - 9 := by
    rw [rest, List.length_drop]
  by_cases full : lengthAt stream.input.content ≤ middle.content.length
  · obtain ⟨after, body, rest', -⟩ := Source.readExact_of_le IoError.unexpectedEof full
    have whole : 9 + lengthAt stream.input.content ≤ stream.input.content.length := by omega
    rw [rest] at body rest'
    cases loaded : Settings.load (headAt stream.input.content)
        (firstPayload stream.input.content) with
    | ok settings =>
        refine .accepted settings { stream with input := after } ?_
          ⟨whole, kind, Nat.not_lt.mp within, by rw [loaded]; rfl⟩ (by rw [rest', List.drop_drop])
        simp only [headAt, lengthAt, firstPayload] at kind within body loaded
        simp only [Client.readServerSettings, TcpStream.readExact, TcpInput.readExact, heads,
          if_pos kind, if_neg within, body, loaded]
    | error err =>
        refine .refused (.frame err) { stream with input := after } ?_ first fun completes => ?_
        · simp only [headAt, lengthAt, firstPayload] at kind within body loaded
          simp only [Client.readServerSettings, TcpStream.readExact, TcpInput.readExact, heads,
            if_pos kind, if_neg within, body, loaded]
        · have decodes := completes.2.2.2
          rw [loaded] at decodes
          cases decodes
  · obtain ⟨after, body, -⟩ := Source.readExact_of_lt IoError.unexpectedEof (Nat.not_le.mp full)
    refine .refused (.io (middle.shortage .unexpectedEof)) { stream with input := after } ?_ first
      fun completes => ?_
    · simp only [headAt, lengthAt] at kind within body
      simp only [Client.readServerSettings, TcpStream.readExact, TcpInput.readExact, heads,
        if_pos kind, if_neg within, body]
    · have whole := completes.1
      omega

/-- The server's first frame is refused, unwinds the handshake or is its settings. -/
theorem firstFrame_cases (stream : TcpStream) : FirstFrame stream := by
  by_cases enough : 9 ≤ stream.input.content.length
  · by_cases kind : (headAt stream.input.content).kind = .settings
    · by_cases long : Client.handshakeCapacity < lengthAt stream.input.content
      · exact firstFrame_of_long enough kind long
      · exact firstFrame_of_within enough kind long
    · exact firstFrame_of_kind enough kind
  · exact firstFrame_of_cut (Nat.not_le.mp enough)

/-- A peer that takes fewer than two writes is refused. -/
theorem session_of_unwritable {stream : TcpStream} (closed : stream.writable < 2) :
    ∃ err, Client.session stream = .refused err := by
  obtain ⟨input, writable, sent⟩ := stream
  match writable, closed with
  | 0, _ => exact ⟨.io (.os 32), rfl⟩
  | 1, _ => exact ⟨.io (.os 32), rfl⟩

/-- A handshake that completes has written its two pieces. -/
theorem writable_of_shaken {stream after : TcpStream} {settings : Settings}
    (shaken : Client.handshake stream = (.ok settings, after)) : 2 ≤ stream.writable := by
  refine Nat.le_of_not_lt fun closed => ?_
  obtain ⟨err, refused⟩ := session_of_unwritable closed
  simp only [Client.session, shaken] at refused
  split at refused <;> cases refused

/-- Two successful writes are followed by the server's first frame. -/
theorem handshake_of_writable {stream : TcpStream} (opened : 2 ≤ stream.writable) :
    ∃ greeted : TcpStream, Client.handshake stream = Client.readServerSettings greeted ∧
      greeted.input = stream.input := by
  obtain ⟨input, writable, sent⟩ := stream
  match writable, opened with
  | _ + 2, _ => exact ⟨⟨input, _, _⟩, rfl, rfl⟩

/-- The answers that never unwind a client are exactly these. -/
theorem sessionSafe_iff (stream : TcpStream) :
    SessionSafe stream ↔ (2 ≤ stream.writable → ClientSafe stream.input.content) := by
  by_cases opened : 2 ≤ stream.writable
  · obtain ⟨greeted, shaken, input⟩ := handshake_of_writable opened
    rw [← input]
    cases firstFrame_cases greeted with
    | refused err after reads first fails =>
        have ends : Client.session stream = .refused err := by
          simp only [Client.session, shaken, reads]
        exact ⟨fun _ _ => ⟨first, fun completes => absurd completes fails⟩,
          fun _ => .inl ⟨err, ends⟩⟩
    | panicked cause after reads enough kind long =>
        have ends : Client.session stream = .panicked cause := by
          simp only [Client.session, shaken, reads]
        constructor
        · simp [SessionSafe, ends]
        · intro safe
          have within := (safe opened).first enough kind
          omega
    | accepted settings after reads completes rest =>
        have frames := client_frameLoop_panics_iff after.input
        rw [rest] at frames
        have first : 9 ≤ greeted.input.content.length →
            (headAt greeted.input.content).kind = .settings →
            lengthAt greeted.input.content ≤ Client.handshakeCapacity := fun _ _ => completes.2.2.1
        cases exit : (Client.frameLoop after.input).exit with
        | failed error =>
            have ends : Client.session stream = .left (.failed error) := by
              simp only [Client.session, shaken, reads, exit]
            refine ⟨fun _ _ => ⟨first, fun _ => ?_⟩, fun _ => .inr ⟨error, ends⟩⟩
            refine Classical.not_not.mp fun unwinds => ?_
            obtain ⟨cause, panics⟩ := frames.mpr unwinds
            rw [exit] at panics
            cases panics
        | panicked cause =>
            have ends : Client.session stream = .panicked cause := by
              simp only [Client.session, shaken, reads, exit]
            constructor
            · simp [SessionSafe, ends]
            · intro safe
              exact absurd ((safe opened).frames completes) (frames.mp ⟨cause, exit⟩)
        | unfinished => exact absurd exit (Loop.run_exit_ne_unfinished (readFrame_drains .client) _)
  · exact ⟨fun _ more => absurd more opened,
      fun _ => .inl (session_of_unwritable (Nat.not_le.mp opened))⟩

/-- A server that answers with a SETTINGS header of 1025 bytes. -/
def overlongSettings : TcpStream :=
  ⟨Source.ofContent [0, 4, 1, 4, 0, 0, 0, 0, 0] none, 2, []⟩

/-- The header alone unwinds the client's handshake. -/
theorem overlongSettings_not_safe : ¬ SessionSafe overlongSettings := by
  have ends : Client.session overlongSettings = .panicked .slice := by decide
  simp [SessionSafe, ends]

end H2l
