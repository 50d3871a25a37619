import H2l.Wire.Panic

/-!
# Panics of a server link

`readLoopSafe_iff` says exactly which streams a peer can send without unwinding
the read loop of a link. Beside the headers at which the frame loop unwinds, the
HTTP/1.1 parse of the upgrade buffer can fail.
-/

namespace H2l

open Base

/-- The bytes that decide the first preface are missing or are the preface. -/
def SkipsUpgrade (stream : TcpStream) : Prop :=
  stream.input.content.length < 24 ∨ stream.input.content.take 24 = Consts.http20Preface

instance (stream : TcpStream) : Decidable (SkipsUpgrade stream) :=
  inferInstanceAs (Decidable (_ ∨ _))

/-- The single read of the HTTP/1.1 upgrade. -/
def upgradeRead (stream : TcpStream) : Except IoError (List Byte) × TcpInput :=
  (stream.input.readExact 24).2.read (Link.upgradeCapacity - 24)

/-- The parser accepts the buffer of the upgrade, if it is ever built. -/
def UpgradeParses (parse : HttpParser) (stream : TcpStream) : Prop :=
  ¬ SkipsUpgrade stream → ∀ data after, upgradeRead stream = (.ok data, after) →
    parse (Link.upgradeBuffer (stream.input.content.take 24 ++ data)) ≠ .invalid

/-- The parsed buffer is an upgrade request. -/
def upgrades (parse : HttpParser) (received : List Byte) : Bool :=
  match parse (Link.upgradeBuffer received) with
  | .complete headers => Link.asksUpgrade headers
  | _ => false

/-- The bytes at which the server's frame loop starts. -/
def unread (parse : HttpParser) (stream : TcpStream) : List Byte :=
  if SkipsUpgrade stream then stream.input.content.drop 24
  else
    match upgradeRead stream with
    | (.ok data, after) =>
        if upgrades parse (stream.input.content.take 24 ++ data) && stream.writable != 0 then
          after.content.drop 24
        else after.content
    | (.error _, after) => after.content

/-- Fewer than 24 bytes are an I/O error, and the upgrade is not tried. -/
theorem priorKnowledge_of_lt {stream : TcpStream} (short : stream.input.content.length < 24) :
    ∃ after, Link.handshakeHttp2PriorKnowledge stream =
        (.error (stream.input.shortage .unexpectedEof, none), { stream with input := after }) ∧
      after.content = [] := by
  obtain ⟨after, reads, rest, -⟩ := Source.readExact_of_lt IoError.unexpectedEof short
  refine ⟨after, ?_, rest⟩
  simp only [Link.handshakeHttp2PriorKnowledge, TcpStream.readExact, TcpInput.readExact, reads]

/-- With 24 bytes or more the first of them decide. -/
theorem priorKnowledge_of_le {stream : TcpStream} (enough : 24 ≤ stream.input.content.length) :
    ∃ after, Link.handshakeHttp2PriorKnowledge stream =
        (if stream.input.content.take 24 = Consts.http20Preface then .ok ()
          else .error (.unsupported "Not HTTP/2.0", some (stream.input.content.take 24)),
          { stream with input := after }) ∧
      after = (stream.input.readExact 24).2 ∧ after.content = stream.input.content.drop 24 := by
  obtain ⟨after, reads, rest, -⟩ := Source.readExact_of_le IoError.unexpectedEof enough
  refine ⟨after, ?_, by rw [TcpInput.readExact, reads], rest⟩
  simp only [Link.handshakeHttp2PriorKnowledge, TcpStream.readExact, TcpInput.readExact, reads]
  split <;> rfl

/-- The preface after an upgrade takes twenty-four bytes, whatever it returns. -/
theorem handshakeUpgraded_spec (stream : TcpStream) :
    (∀ cause, (Link.handshakeUpgraded stream).1 ≠ .panic cause) ∧
      (Link.handshakeUpgraded stream).2.input.content = stream.input.content.drop 24 := by
  unfold Link.handshakeUpgraded
  by_cases enough : 24 ≤ stream.input.content.length
  · obtain ⟨after, reads, -, rest⟩ := priorKnowledge_of_le enough
    rw [reads]
    by_cases preface : stream.input.content.take 24 = Consts.http20Preface <;>
      simp [preface, rest]
  · obtain ⟨after, reads, rest⟩ := priorKnowledge_of_lt (Nat.not_le.mp enough)
    rw [reads]
    simp [rest, List.drop_of_length_le (Nat.le_of_not_le enough)]

/-- Without the preface the handshake hands the bytes it read to the upgrade. -/
theorem handshake_of_not_skips (parse : HttpParser) {stream : TcpStream}
    (upgrade : ¬ SkipsUpgrade stream) :
    Link.handshake parse stream =
      match Link.handshakeHttp11Upgrade parse (stream.input.content.take 24)
          { stream with input := (stream.input.readExact 24).2 } with
      | (.ok (), upgraded) => Link.handshakeUpgraded upgraded
      | (.err err, final) => (.err err, final)
      | (.panic cause, final) => (.panic cause, final) := by
  have enough : 24 ≤ stream.input.content.length :=
    Nat.not_lt.mp fun short => upgrade (.inl short)
  obtain ⟨middle, reads, rfl, -⟩ := priorKnowledge_of_le enough
  rw [if_neg fun preface => upgrade (.inr preface)] at reads
  unfold Link.handshake
  exact reads ▸ rfl

/-- The upgrade reads once and fails with the error of the read. -/
theorem upgrade_of_error (parse : HttpParser) {stream : TcpStream} {err : IoError}
    {after : TcpInput} (upgrade : ¬ SkipsUpgrade stream)
    (once : upgradeRead stream = (.error err, after)) :
    Link.handshakeHttp11Upgrade parse (stream.input.content.take 24)
        { stream with input := (stream.input.readExact 24).2 } =
      (.err err, { stream with input := after }) := by
  have fetched : (stream.input.content.take 24).length = 24 := by
    rw [List.length_take, Nat.min_eq_left (Nat.not_lt.mp fun short => upgrade (.inl short))]
  unfold upgradeRead at once
  simp only [Link.handshakeHttp11Upgrade, TcpStream.read, fetched, once]

/-- The upgrade answers by what the parser reports on the buffer. -/
theorem upgrade_of_ok (parse : HttpParser) {stream : TcpStream} {data : List Byte}
    {after : TcpInput} (upgrade : ¬ SkipsUpgrade stream)
    (once : upgradeRead stream = (.ok data, after)) :
    Link.handshakeHttp11Upgrade parse (stream.input.content.take 24)
        { stream with input := (stream.input.readExact 24).2 } =
      match parse (Link.upgradeBuffer (stream.input.content.take 24 ++ data)) with
      | .invalid => (.panic .unwrap, { stream with input := after })
      | .incomplete =>
          (.err (.unsupported "Not HTTP/1.1 Upgrade: h2c"), { stream with input := after })
      | .complete headers =>
          if Link.asksUpgrade headers then
            match TcpStream.writeAll Consts.http11SwitchingProtocols
                { stream with input := after } with
            | (.ok (), final) => (.ok (), final)
            | (.error err, final) => (.err err, final)
          else
            (.err (.unsupported "Not HTTP/1.1 Upgrade: h2c"), { stream with input := after }) := by
  have fetched : (stream.input.content.take 24).length = 24 := by
    rw [List.length_take, Nat.min_eq_left (Nat.not_lt.mp fun short => upgrade (.inl short))]
  have reads : TcpStream.read (Link.upgradeCapacity - (stream.input.content.take 24).length)
      { stream with input := (stream.input.readExact 24).2 } =
        (.ok data, { stream with input := after }) := by
    unfold upgradeRead at once
    simp only [TcpStream.read, fetched, once]
  unfold Link.handshakeHttp11Upgrade
  exact reads ▸ rfl

/-- A handshake that does not look for an upgrade cannot unwind. -/
theorem handshake_of_skips (parse : HttpParser) {stream : TcpStream} (skips : SkipsUpgrade stream) :
    Link.handshake parse stream =
      (.ok (), (Link.handshakeHttp2PriorKnowledge stream).2) ∧
      (Link.handshakeHttp2PriorKnowledge stream).2.input.content =
        stream.input.content.drop 24 := by
  by_cases enough : 24 ≤ stream.input.content.length
  · obtain ⟨after, reads, -, rest⟩ := priorKnowledge_of_le enough
    rw [if_pos (skips.resolve_left (Nat.not_lt.mpr enough))] at reads
    simp [Link.handshake, reads, rest]
  · obtain ⟨after, reads, rest⟩ := priorKnowledge_of_lt (Nat.not_le.mp enough)
    simp [Link.handshake, reads, rest, List.drop_of_length_le (Nat.le_of_not_le enough)]

/-- Once the second read is known, so is the buffer that the parser gets. -/
theorem upgradeParses_iff {parse : HttpParser} {stream : TcpStream}
    (upgrade : ¬ SkipsUpgrade stream) {data : List Byte} {after : TcpInput}
    (once : upgradeRead stream = (.ok data, after)) :
    UpgradeParses parse stream ↔
      parse (Link.upgradeBuffer (stream.input.content.take 24 ++ data)) ≠ .invalid := by
  constructor
  · exact fun every => every upgrade data after once
  · intro valid _ data' after' again
    rw [once] at again
    cases again
    exact valid

/-- The handshake unwinds exactly when the buffer of an upgrade does not parse; otherwise
it leaves `unread`. -/
theorem handshake_spec (parse : HttpParser) (stream : TcpStream) :
    (UpgradeParses parse stream ∧ (∀ cause, (Link.handshake parse stream).1 ≠ .panic cause) ∧
      (Link.handshake parse stream).2.input.content = unread parse stream) ∨
    (¬ UpgradeParses parse stream ∧ (Link.handshake parse stream).1 = .panic .unwrap) := by
  by_cases skips : SkipsUpgrade stream
  · obtain ⟨returns, rest⟩ := handshake_of_skips parse skips
    refine .inl ⟨fun upgrade => absurd skips upgrade, ?_⟩
    rw [unread, if_pos skips, returns]
    exact ⟨by simp, rest⟩
  · rw [unread, if_neg skips]
    cases once : upgradeRead stream with
    | mk result after =>
        have returns := handshake_of_not_skips parse skips
        cases result with
        | error err =>
            rw [upgrade_of_error parse skips once] at returns
            refine .inl ⟨fun _ data after' again => ?_, by simp [returns], by simp [returns]⟩
            rw [once] at again
            cases again
        | ok data =>
            rw [upgrade_of_ok parse skips once] at returns
            rw [upgradeParses_iff skips once]
            cases status : parse (Link.upgradeBuffer (stream.input.content.take 24 ++ data)) with
            | invalid => simp [returns, status]
            | incomplete => simp [returns, status, upgrades]
            | complete headers =>
                refine .inl ⟨by simp, ?_⟩
                by_cases asks : Link.asksUpgrade headers
                · cases writable : stream.writable with
                  | zero => simp [returns, status, upgrades, asks, TcpStream.writeAll, writable]
                  | succ more =>
                      obtain ⟨calm, rest⟩ := handshakeUpgraded_spec
                        ⟨after, more, stream.sent ++ Consts.http11SwitchingProtocols⟩
                      simp [returns, status, upgrades, asks, TcpStream.writeAll, writable, calm,
                        rest]
                · simp [returns, status, upgrades, asks]

/-- The read loop never unwinds: it sends the frames it delivered and then a notice that
its side is closed. Its write loop may have closed before it. -/
def ReadLoopSafe (parse : HttpParser) (token : Token) (stream : TcpStream) : Prop :=
  ∀ word, word = LinkFlags.none.bits ∨ word = LinkFlags.writeClosed.bits →
    (Link.readLoop parse token word stream).panic = none ∧
      ∃ (frames : List Frame) (flags : LinkFlags),
        (Link.readLoop parse token word stream).sent =
          frames.map (fun frame => .frame frame (some token)) ++ [.linkChanged flags token] ∧
        FlagSet.contains flags LinkFlags.readClosed

/-- What a peer may send without unwinding the read loop of a server link. -/
structure ServerSafe (parse : HttpParser) (stream : TcpStream) : Prop where
  upgrade : UpgradeParses parse stream
  frames : ∀ place, Reads .server (unread parse stream) place → 9 ≤ place.length → FrameSafe place

/-- A handshake that panics unwinds the read loop. -/
theorem readLoop_of_panic {parse : HttpParser} {stream : TcpStream} {cause : Panic}
    (token : Token) (word : Word) (unwinds : (Link.handshake parse stream).1 = .panic cause) :
    (Link.readLoop parse token word stream).panic = some cause := by
  cases shaken : Link.handshake parse stream with
  | mk result after =>
      obtain rfl : result = .panic cause := by simpa [shaken] using unwinds
      simp only [Link.readLoop, shaken]

/-- A handshake that does not unwind is followed by the frame loop, whatever it returned. -/
theorem readLoop_of_calm {parse : HttpParser} {stream : TcpStream} (token : Token) (word : Word)
    (calm : ∀ cause, (Link.handshake parse stream).1 ≠ .panic cause) :
    Link.readLoop parse token word stream =
      let trace := Link.frameLoop (Link.handshake parse stream).2.input
      let frames := trace.delivered.map fun delivery => .frame delivery.1 (some token)
      match trace.exit with
      | .panicked cause => ⟨frames, word, some cause⟩
      | _ => ⟨frames ++ [.linkChanged (Link.flags (Link.addFlags .readClosed word)) token],
          Link.addFlags .readClosed word, none⟩ := by
  unfold Link.readLoop
  generalize Link.handshake parse stream = shaken at calm ⊢
  obtain ⟨result, after⟩ := shaken
  cases result with
  | ok value => rfl
  | err error => rfl
  | panic cause => exact absurd rfl (calm cause)

/-- The reader's bit survives the exact match of `flags`, before and after the writer's. -/
theorem publishes_readClosed {word : Word}
    (either : word = LinkFlags.none.bits ∨ word = LinkFlags.writeClosed.bits) :
    FlagSet.contains (Link.flags (Link.addFlags .readClosed word)) LinkFlags.readClosed := by
  rcases either with rfl | rfl <;> decide

/-- The frame loop of a link unwinds exactly when it reads an unsafe header. -/
theorem server_frameLoop_panics_iff (input : TcpInput) :
    (∃ cause, (Link.frameLoop input).exit = .panicked cause) ↔
      ¬ ∀ place, Reads .server input.content place → 9 ≤ place.length → FrameSafe place := by
  have turns : ∀ input : TcpInput,
      (∃ cause after, Endpoint.server.readFrame input = (.panic cause, after)) ↔
        9 ≤ input.content.length ∧ ¬ FrameSafe input.content := server_panics_iff
  have loop := @frameLoop_panics_iff .server
    (fun place => 9 ≤ place.length ∧ ¬ FrameSafe place) turns input
  simpa only [Endpoint.frameLoop, Classical.not_forall, exists_prop] using loop

/-- The bytes that never unwind the read loop of a server link are exactly these. -/
theorem readLoopSafe_iff (parse : HttpParser) (token : Token) (stream : TcpStream) :
    ReadLoopSafe parse token stream ↔ ServerSafe parse stream := by
  rcases handshake_spec parse stream with ⟨parses, calm, rest⟩ | ⟨invalid, unwinds⟩
  · have frames := server_frameLoop_panics_iff (Link.handshake parse stream).2.input
    rw [rest] at frames
    constructor
    · intro safe
      refine ⟨parses, Classical.byContradiction fun unsafeFrame => ?_⟩
      obtain ⟨cause, exit⟩ := frames.mpr unsafeFrame
      have returns := (safe _ (.inl rfl)).1
      rw [readLoop_of_calm token _ calm] at returns
      simp [exit] at returns
    · intro safe word either
      rw [readLoop_of_calm token word calm]
      have published := publishes_readClosed either
      cases exit : (Link.frameLoop (Link.handshake parse stream).2.input).exit with
      | panicked cause => exact absurd safe.frames (frames.mp ⟨cause, exit⟩)
      | failed error =>
          simp only [exit]
          refine ⟨trivial, Loop.values (Link.frameLoop (Link.handshake parse stream).2.input), _,
            ?_, published⟩
          rw [Loop.values, List.map_map]
          rfl
      | unfinished => exact absurd exit (Loop.run_exit_ne_unfinished (readFrame_drains .server) _)
  · constructor
    · intro safe
      have returns := (safe _ (.inl rfl)).1
      rw [readLoop_of_panic token _ unwinds] at returns
      cases returns
    · intro safe
      exact absurd safe.upgrade invalid

/-- The preface and a PRIORITY frame, as clients send them. -/
def prioritized : TcpStream :=
  ⟨Source.ofContent (Consts.http20Preface ++
    [0, 0, 5, 2, 0, 0, 0, 0, 1, 0, 0, 0, 3, 16]) none, 1, []⟩

/-- A PRIORITY frame unwinds the read loop before it announces its end. -/
theorem prioritized_not_safe : ¬ ReadLoopSafe (fun _ => .incomplete) ⟨7⟩ prioritized := by
  intro safe
  have returns := (safe _ (.inl rfl)).1
  revert returns
  decide

end H2l
