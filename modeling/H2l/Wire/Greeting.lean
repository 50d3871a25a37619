import H2l.Client.Safety
import H2l.Link.Preface
import H2l.Wire.Relay

/-!
# How two endpoints greet each other

A client opens with the preface and a SETTINGS frame of its own. A server that is given
the opening, cut anywhere, delivers these settings and then what the client writes
(`opening_delivered`); a client whose peer begins with SETTINGS completes its handshake with
them and then reads what the peer writes (`settings_greeted`).
-/

namespace H2l

open Base H2l.Frame

/-- What a client writes before anything else. -/
def Consts.clientOpening : List Byte := http20Preface ++ http20Settings

/-- The settings that a client offers. -/
def Settings.offered : Settings :=
  { default with
    enablePush := some 0, maxConcurrentStreams := some 100, initialWindowSize := some 0x40000000 }

/-- Either endpoint reads the opening's frame as the offered settings. -/
theorem spells_offered (endpoint : Endpoint) :
    Spells endpoint Consts.http20Settings (.settings Settings.offered) := by
  cases endpoint <;> exact ⟨by decide, by decide, by decide⟩

/-- What a server delivers for the first bytes of an opening and of the frames after it. -/
def openingImages (count : Nat) (frames : List Frame) : List Frame :=
  if 51 ≤ count then
    .settings Settings.offered :: imagesWithin .server (count - 51) frames
  else []

/-- What the loop of a server makes of the first bytes of an opening, behind the preface. -/
structure OpeningRead (frames : List Frame) (input : TcpInput) : Prop where
  values : Loop.values (Link.frameLoop input) =
    if 27 ≤ input.content.length then
      .settings Settings.offered :: imagesWithin .server (input.content.length - 27) frames
    else []
  failed : input.content.length < 27 ∨ Unreached .server (input.content.length - 27) frames →
    ∃ err, (Link.frameLoop input).exit = .failed (.io err)
  unwound : 27 ≤ input.content.length → ¬ Unreached .server (input.content.length - 27) frames →
    (Link.frameLoop input).exit = .panicked .unreachable

/-- Reading the settings and what a peer writes behind them. -/
theorem opening_read {frames : List Frame} (writable : ∀ frame ∈ frames, frame.Writable)
    {input : TcpInput}
    (front : input.content <+: Consts.http20Settings ++ frames.flatMap writeTo) :
    OpeningRead frames input := by
  have spells := spells_offered .server
  have length : Consts.http20Settings.length = 27 := by decide
  have loop : Link.frameLoop input = _ := Endpoint.server.frameLoop_eq input
  by_cases whole : 27 ≤ input.content.length
  · obtain ⟨after, delivers, left, -⟩ := spells.delivers front (by omega)
    have further := loop_written .server frames writable after
      (left ▸ front_drop front (by omega))
    have rest : after.content.length = input.content.length - 27 := by
      rw [left, List.length_drop, length]
    have goes : Link.frameLoop input = ⟨(.settings Settings.offered, after) ::
        (Link.frameLoop after).delivered, (Link.frameLoop after).exit⟩ := by
      rw [loop, Loop.run_ok (readFrame_drains .server) delivers]
      rfl
    have values : Loop.values (Link.frameLoop after) = _ := further.values
    refine ⟨?_, fun unreached => ?_, fun _ reached => ?_⟩
    · rw [goes, if_pos whole, ← rest, ← values]
      rfl
    · rw [goes]
      rw [← rest] at unreached
      exact further.failed (unreached.resolve_left (by omega))
    · rw [goes]
      rw [← rest] at reached
      exact further.unwound reached
  · obtain ⟨err, after, fails⟩ := spells.fails front (by omega)
    rw [Loop.run_err fails] at loop
    refine ⟨?_, fun _ => ⟨err, by rw [loop]⟩, fun enough => absurd enough whole⟩
    rw [loop, if_neg whole]
    rfl

/-- What a server makes of the first bytes of an opening and of the frames after it. -/
structure OpeningDelivered (parse : HttpParser) (token : Token) (frames : List Frame)
    (stream : TcpStream) : Prop where
  shaken : (Link.handshake parse stream).1 = .ok ()
  silent : (Link.handshake parse stream).2.sent = stream.sent
  delivered : ∀ word, Link.delivered parse token word stream =
    openingImages stream.input.content.length frames
  failed : stream.input.content.length < 51 ∨
      Unreached .server (stream.input.content.length - 51) frames →
    ∃ err, (Link.frameLoop (Link.handshake parse stream).2.input).exit = .failed (.io err)
  unwound : 51 ≤ stream.input.content.length →
    ¬ Unreached .server (stream.input.content.length - 51) frames →
      (Link.frameLoop (Link.handshake parse stream).2.input).exit = .panicked .unreachable

/-- Reading a preface writes nothing. -/
theorem priorKnowledge_sent (stream : TcpStream) :
    (Link.handshakeHttp2PriorKnowledge stream).2.sent = stream.sent := by
  by_cases enough : 24 ≤ stream.input.content.length
  · obtain ⟨after, reads, -, -⟩ := priorKnowledge_of_le enough
    rw [reads]
  · obtain ⟨after, reads, -⟩ := priorKnowledge_of_lt (Nat.not_le.mp enough)
    rw [reads]

/-- Whatever the parser, a server that is given the opening completes its handshake without an
answer, and delivers the offered settings and then what the client writes. -/
theorem opening_delivered (parse : HttpParser) (token : Token) (frames : List Frame)
    (writable : ∀ frame ∈ frames, frame.Writable) (stream : TcpStream)
    (front : stream.input.content <+: Consts.clientOpening ++ frames.flatMap writeTo) :
    OpeningDelivered parse token frames stream := by
  rw [Consts.clientOpening, List.append_assoc] at front
  have length : Consts.http20Preface.length = 24 := by decide
  have skips : SkipsUpgrade stream := by
    by_cases short : stream.input.content.length < 24
    · exact .inl short
    · right
      obtain ⟨more, split⟩ := List.prefix_of_prefix_length_le (List.prefix_append _ _) front
        (by omega)
      rw [← split, List.take_left' length]
  obtain ⟨returns, rest⟩ := handshake_of_skips parse skips
  have shaken : (Link.handshake parse stream).1 = .ok () := by rw [returns]
  have after : (Link.handshake parse stream).2.input.content =
      stream.input.content.drop 24 := by rw [returns, rest]
  have read : OpeningRead frames (Link.handshake parse stream).2.input := by
    refine opening_read writable ?_
    rw [after]
    by_cases whole : 24 ≤ stream.input.content.length
    · rw [← length]
      exact front_drop front (by omega)
    · rw [List.drop_of_length_le (by omega)]
      exact List.nil_prefix
  have left : (Link.handshake parse stream).2.input.content.length =
      stream.input.content.length - 24 := by rw [after, List.length_drop]
  refine ⟨shaken, by rw [returns]; exact priorKnowledge_sent stream, fun word => ?_,
    fun fails => ?_, fun whole reached => ?_⟩
  · rw [delivered_of_calm token word (by simp [shaken]), read.values, openingImages, left,
      Nat.sub_sub]
    by_cases whole : 51 ≤ stream.input.content.length
    · rw [if_pos whole, if_pos (by omega)]
    · rw [if_neg whole, if_neg (by omega)]
  · refine read.failed ?_
    rw [left, Nat.sub_sub]
    exact fails.imp (fun short => by omega) id
  · refine read.unwound (by omega) ?_
    rwa [left, Nat.sub_sub]

/-- Bytes that are spelled as settings are a SETTINGS frame that the decoder accepts. -/
theorem settings_of_spells {bytes : List Byte} {settings : Settings}
    (spells : Spells .client bytes (.settings settings)) :
    (headAt bytes).kind = .settings ∧ lengthAt bytes ≤ 256 ∧ bytes.length = 9 + lengthAt bytes ∧
      Settings.load (headAt bytes) (bytes.drop 9) = .ok settings := by
  obtain ⟨taken, length, decoded⟩ := spells
  have body : bodyAt bytes = bytes.drop 9 := by
    rw [bodyAt, List.take_of_length_le]
    rw [List.length_drop]
    omega
  rw [body] at decoded
  rw [bodyLengthAt] at length
  generalize headAt bytes = head at taken length decoded
  obtain ⟨kind, flags, streamId⟩ := head
  cases kind with
  | settings =>
      have bound : ¬ 256 < lengthAt bytes := by
        intro long
        simp [Endpoint.refusal, long] at taken
      refine ⟨rfl, by omega, length, ?_⟩
      simp only [Endpoint.decode] at decoded
      cases loaded : Settings.load ⟨.settings, flags, streamId⟩ (bytes.drop 9) with
      | error err => rw [loaded] at decoded; cases decoded
      | ok settings => rw [loaded] at decoded; cases decoded; rfl
  | data | goAway | windowUpdate =>
      simp only [Endpoint.decode] at decoded
      generalize Outcome.ofExcept _ = loaded at decoded
      cases loaded <;> cases decoded
  | _ => cases decoded

/-- The first frame of a peer, wholly there, is the result of the handshake. -/
theorem readServerSettings_of_spells {bytes rest : List Byte} {settings : Settings}
    (spells : Spells .client bytes (.settings settings)) {stream : TcpStream}
    (front : stream.input.content <+: bytes ++ rest)
    (whole : bytes.length ≤ stream.input.content.length) :
    ∃ after, Client.readServerSettings stream = (.ok settings, { stream with input := after }) ∧
      after.content = stream.input.content.drop bytes.length := by
  obtain ⟨kind, bound, length, loaded⟩ := settings_of_spells spells
  obtain ⟨atHead, atLength⟩ := header_of_front front (by omega) (by omega)
  obtain ⟨more, split⟩ := List.prefix_of_prefix_length_le (List.prefix_append _ _) front whole
  have payload : (stream.input.content.drop 9).take (lengthAt bytes) = bytes.drop 9 := by
    have exact : (bytes.drop 9).length = lengthAt bytes := by rw [List.length_drop]; omega
    rw [← split, List.drop_append_of_le_length (by omega), ← exact, List.take_left]
  obtain ⟨middle, heads, left, -⟩ := Source.readExact_of_le IoError.unexpectedEof
    (show 9 ≤ stream.input.content.length by omega)
  have remaining : middle.content.length = stream.input.content.length - 9 := by
    rw [left, List.length_drop]
  obtain ⟨after, body, rest', -⟩ := Source.readExact_of_le IoError.unexpectedEof
    (show lengthAt bytes ≤ middle.content.length by omega)
  rw [left, payload] at body
  refine ⟨after, ?_, by rw [rest', left, List.drop_drop, length]⟩
  rw [← atHead] at kind loaded
  rw [← atLength] at body bound
  have within : ¬ Client.handshakeCapacity < lengthAt stream.input.content := by
    rw [Client.handshakeCapacity]
    omega
  simp only [headAt, lengthAt] at kind within body loaded
  simp only [Client.readServerSettings, TcpStream.readExact, TcpInput.readExact, heads,
    if_pos kind, if_neg within, body, loaded]

/-- The first frame of a peer, cut short, is an I/O error. -/
theorem readServerSettings_of_cut {bytes rest : List Byte} {settings : Settings}
    (spells : Spells .client bytes (.settings settings)) {stream : TcpStream}
    (front : stream.input.content <+: bytes ++ rest)
    (cut : stream.input.content.length < bytes.length) :
    ∃ err after, Client.readServerSettings stream =
      (.err (.io err), { stream with input := after }) := by
  obtain ⟨kind, bound, length, -⟩ := settings_of_spells spells
  by_cases enough : 9 ≤ stream.input.content.length
  · obtain ⟨atHead, atLength⟩ := header_of_front front enough (by omega)
    obtain ⟨middle, heads, left, -⟩ := Source.readExact_of_le IoError.unexpectedEof enough
    have remaining : middle.content.length = stream.input.content.length - 9 := by
      rw [left, List.length_drop]
    obtain ⟨after, body, -⟩ := Source.readExact_of_lt IoError.unexpectedEof
      (show middle.content.length < lengthAt bytes by omega)
    refine ⟨middle.shortage .unexpectedEof, after, ?_⟩
    rw [← atHead] at kind
    rw [← atLength] at body bound
    have within : ¬ Client.handshakeCapacity < lengthAt stream.input.content := by
      rw [Client.handshakeCapacity]
      omega
    simp only [headAt, lengthAt] at kind within body
    simp only [Client.readServerSettings, TcpStream.readExact, TcpInput.readExact, heads,
      if_pos kind, if_neg within, body]
  · obtain ⟨after, heads, -⟩ := Source.readExact_of_lt IoError.unexpectedEof (Nat.not_le.mp enough)
    refine ⟨stream.input.shortage .unexpectedEof, after, ?_⟩
    simp only [Client.readServerSettings, TcpStream.readExact, TcpInput.readExact, heads]

/-- Two successful writes of a handshake are the opening. -/
theorem handshake_opens {stream : TcpStream} (opened : 2 ≤ stream.writable) :
    Client.handshake stream = Client.readServerSettings
      ⟨stream.input, stream.writable - 2, stream.sent ++ Consts.clientOpening⟩ := by
  obtain ⟨input, writable, sent⟩ := stream
  rw [Consts.clientOpening, ← List.append_assoc]
  match writable, opened with
  | _ + 2, _ => rfl

/-- What a client makes of a peer that begins with these settings. -/
structure SettingsGreeted (settings : Settings) (frames : List Frame) (stream : TcpStream) :
    Prop where
  sent : (Client.handshake stream).2.sent = stream.sent ++ Consts.clientOpening
  shaken : (Frame.settings settings).writeTo.length ≤ stream.input.content.length →
    (Client.handshake stream).1 = .ok settings ∧
      ReadsWritten .client frames (Client.handshake stream).2.input
  cut : stream.input.content.length < (Frame.settings settings).writeTo.length →
    ∃ err, (Client.handshake stream).1 = .err (.io err)

/-- A client whose peer writes settings and then frames opens, takes the settings, and reads the
frames; it fails if the connection ends inside the settings. -/
theorem settings_greeted (settings : Settings) (frames : List Frame)
    (first : (Frame.settings settings).Writable) (writable : ∀ frame ∈ frames, frame.Writable)
    (stream : TcpStream) (opened : 2 ≤ stream.writable)
    (front : stream.input.content <+: (Frame.settings settings :: frames).flatMap writeTo) :
    SettingsGreeted settings frames stream := by
  rw [List.flatMap_cons] at front
  obtain ⟨delivered, image, spells⟩ := @spells_written .client _ _ first rfl rfl
  cases image
  have opens := handshake_opens opened
  by_cases whole : (Frame.settings settings).writeTo.length ≤ stream.input.content.length
  · obtain ⟨after, reads, left⟩ := @readServerSettings_of_spells _ _ _ spells
      ⟨stream.input, stream.writable - 2, stream.sent ++ Consts.clientOpening⟩ front whole
    rw [reads] at opens
    refine ⟨by rw [opens], fun _ => ?_, fun cut => absurd whole (Nat.not_le.mpr cut)⟩
    rw [opens]
    exact ⟨rfl, loop_written .client frames writable after (left ▸ front_drop front whole)⟩
  · obtain ⟨err, after, reads⟩ := @readServerSettings_of_cut _ _ _ spells
      ⟨stream.input, stream.writable - 2, stream.sent ++ Consts.clientOpening⟩ front
      (Nat.not_le.mp whole)
    rw [reads] at opens
    exact ⟨by rw [opens], fun more => absurd more whole, fun _ => ⟨err, by rw [opens]⟩⟩

theorem offered_writable : (Frame.settings Settings.offered).Writable := by
  refine ⟨by rintro head ⟨⟩; decide, by decide, .inr ⟨rfl, ?_, ?_, nofun⟩⟩
  · rintro val ⟨⟩
    decide
  · rintro val ⟨⟩
    decide

/-- What either end of a connection writes, cut anywhere, the other end reads. -/
theorem connection_written (settings : Settings) (frames : List Frame)
    (first : (Frame.settings settings).Writable) (writable : ∀ frame ∈ frames, frame.Writable)
    (stream : TcpStream) :
    (stream.input.content <+: Consts.clientOpening ++ frames.flatMap writeTo →
      ∀ parse token, OpeningDelivered parse token frames stream) ∧
    (2 ≤ stream.writable →
      stream.input.content <+: (Frame.settings settings :: frames).flatMap writeTo →
        SettingsGreeted settings frames stream) :=
  ⟨fun front parse token => opening_delivered parse token frames writable stream front,
    settings_greeted settings frames first writable stream⟩

/-- An opening and the greeting after it, cut inside its last frame. -/
def openedGreeting : TcpStream :=
  ⟨Source.ofContent (Consts.clientOpening ++ (greeting.flatMap writeTo).take 40) none, 1, []⟩

theorem openedGreeting_front :
    openedGreeting.input.content <+: Consts.clientOpening ++ greeting.flatMap writeTo := by
  rw [openedGreeting, Source.content_ofContent]
  exact (List.prefix_append_right_inj _).mpr (List.take_prefix _ _)

/-- The frames of the greeting, and the settings before them. -/
theorem openedGreeting_delivered :
    (Link.delivered (fun _ => .incomplete) ⟨7⟩ LinkFlags.none.bits openedGreeting).length = 3 := by
  have written := (connection_written Settings.offered greeting offered_writable
    greeting_writable openedGreeting).1 openedGreeting_front (fun _ => .incomplete) ⟨7⟩
  rw [written.delivered, openedGreeting, Source.content_ofContent]
  decide

end H2l
