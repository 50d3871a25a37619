import H2l.Link.Safety

/-!
# Frames and the preface before them

The frame loop of a link starts whatever its handshake returned. A frame is delivered
without the preface before it exactly when a handshake failed and the bytes that it
left begin with a frame that the server accepts (`framesPrefaced_iff`).
-/

namespace H2l

open Base

/-- The frame that a message carries. -/
def Transaction.carried : Transaction → Option Frame
  | Transaction.frame carried _ => some carried
  | _ => none

/-- The frames that a read loop put on the shared channel. -/
def Link.delivered (parse : HttpParser) (token : Token) (word : Word) (stream : TcpStream) :
    List Frame :=
  (Link.readLoop parse token word stream).sent.filterMap Transaction.carried

/-- The preface stands right before `rest`: at the front of the connection, or after an upgrade
request that the server could answer. -/
def PrefaceBefore (parse : HttpParser) (stream : TcpStream) (rest : List Byte) : Prop :=
  stream.input.content = Consts.http20Preface ++ rest ∨
    ¬ SkipsUpgrade stream ∧ ∃ data after, upgradeRead stream = (.ok data, after) ∧
      upgrades parse (stream.input.content.take 24 ++ data) ∧ stream.writable ≠ 0 ∧
      after.content = Consts.http20Preface ++ rest

/-- Frames are delivered only from behind the preface, and never after a handshake that failed. -/
structure FramesPrefaced (parse : HttpParser) (token : Token) (word : Word)
    (stream : TcpStream) : Prop where
  preface : Link.delivered parse token word stream ≠ [] →
    PrefaceBefore parse stream (Link.handshake parse stream).2.input.content
  answered : Link.delivered parse token word stream ≠ [] →
    stream.input.content.take 24 = Consts.http20Preface ∨
      (Link.handshake parse stream).2.sent = stream.sent ++ Consts.http11SwitchingProtocols
  failed : ∀ err, (Link.handshake parse stream).1 = .err err →
    Link.delivered parse token word stream = []

/-- A byte string that begins with a frame the server accepts. -/
def StartsFrame (bytes : List Byte) : Prop :=
  9 + bodyLengthAt bytes ≤ bytes.length ∧ Endpoint.server.accepts (headAt bytes) (bodyAt bytes)

/-- What is wrong with the preface at the front of a byte string that ends so. -/
def prefaceError (ending : Option IoError) (bytes : List Byte) : Option IoError :=
  if bytes.length < 24 then some (ending.getD .unexpectedEof)
  else if bytes.take 24 = Consts.http20Preface then none
  else some (.unsupported "Not HTTP/2.0")

/-- The peer sends neither the preface nor an upgrade request that the server can answer and that
the preface follows. A request that does not parse unwinds the handshake instead. -/
def HandshakeFails (parse : HttpParser) (stream : TcpStream) : Prop :=
  ¬ SkipsUpgrade stream ∧
    ((∃ err after, upgradeRead stream = (.error err, after)) ∨
      ∃ data after, upgradeRead stream = (.ok data, after) ∧
        parse (Link.upgradeBuffer (stream.input.content.take 24 ++ data)) ≠ .invalid ∧
        (upgrades parse (stream.input.content.take 24 ++ data) → stream.writable ≠ 0 →
          prefaceError after.ending after.content ≠ none))

variable {parse : HttpParser} {stream : TcpStream}

/-- The messages of a read loop carry the frames it delivered. -/
theorem carried_of_delivered (token : Token) (delivered : List (Frame × TcpInput)) :
    (delivered.map fun delivery => Transaction.frame delivery.1 (some token)).filterMap
      Transaction.carried = delivered.map Prod.fst := by
  induction delivered with
  | nil => rfl
  | cons delivery delivered ih => exact congrArg (delivery.1 :: ·) ih

/-- After a handshake that returns, the frames of the frame loop are delivered. -/
theorem delivered_of_calm (token : Token) (word : Word)
    (calm : ∀ cause, (Link.handshake parse stream).1 ≠ .panic cause) :
    Link.delivered parse token word stream =
      Loop.values (Link.frameLoop (Link.handshake parse stream).2.input) := by
  have frames := carried_of_delivered token
    (Link.frameLoop (Link.handshake parse stream).2.input).delivered
  rw [Link.delivered, readLoop_of_calm token word calm, Loop.values]
  cases exit : (Link.frameLoop (Link.handshake parse stream).2.input).exit with
  | panicked cause => simpa only [exit] using frames
  | failed error =>
      simp only [exit, List.filterMap_append, frames]
      exact List.append_nil _
  | unfinished =>
      simp only [exit, List.filterMap_append, frames]
      exact List.append_nil _

/-- After a handshake that panics nothing is. -/
theorem delivered_of_panic {cause : Panic} (token : Token) (word : Word)
    (unwinds : (Link.handshake parse stream).1 = .panic cause) :
    Link.delivered parse token word stream = [] := by
  cases shaken : Link.handshake parse stream with
  | mk result after =>
      obtain rfl : result = .panic cause := by simpa [shaken] using unwinds
      simp only [Link.delivered, Link.readLoop, shaken, List.filterMap_nil]

/-- The frame loop delivers something exactly when its input begins with a frame. -/
theorem values_ne_nil_iff (input : TcpInput) :
    Loop.values (Link.frameLoop input) ≠ [] ↔ StartsFrame input.content := by
  have loop : Link.frameLoop input = _ := Endpoint.server.frameLoop_eq input
  rw [StartsFrame, ← delivers_iff .server input, loop]
  constructor
  · intro some
    refine Classical.byContradiction fun none => some (Loop.values_eq_nil ?_)
    exact fun frame after delivers => none ⟨frame, after, delivers⟩
  · rintro ⟨frame, after, delivers⟩
    rw [Loop.run_ok (readFrame_drains .server) delivers]
    exact List.cons_ne_nil _ _

/-- The preface after an upgrade is read whole and compared. -/
theorem handshakeUpgraded_result (stream : TcpStream) :
    (Link.handshakeUpgraded stream).1 =
        .ofError (prefaceError stream.input.ending stream.input.content) ∧
      (Link.handshakeUpgraded stream).2.sent = stream.sent := by
  unfold Link.handshakeUpgraded prefaceError
  by_cases enough : 24 ≤ stream.input.content.length
  · obtain ⟨after, reads, -, -⟩ := priorKnowledge_of_le enough
    rw [reads, if_neg (Nat.not_lt.mpr enough)]
    by_cases preface : stream.input.content.take 24 = Consts.http20Preface <;>
      simp [preface, Outcome.ofError]
  · obtain ⟨after, reads, -⟩ := priorKnowledge_of_lt (Nat.not_le.mp enough)
    rw [reads, if_pos (Nat.not_le.mp enough)]
    exact ⟨rfl, rfl⟩

section Upgrade

variable {data : List Byte} {after : TcpInput} (upgrade : ¬ SkipsUpgrade stream)

include upgrade

/-- An error of the second read ends the handshake. -/
theorem handshake_of_unread (parse : HttpParser) {err : IoError}
    (once : upgradeRead stream = (.error err, after)) :
    Link.handshake parse stream = (.err err, { stream with input := after }) := by
  rw [handshake_of_not_skips parse upgrade, upgrade_of_error parse upgrade once]

variable (once : upgradeRead stream = (.ok data, after))

include once

/-- A request that the parser refuses unwinds the handshake. -/
theorem handshake_of_invalid
    (invalid : parse (Link.upgradeBuffer (stream.input.content.take 24 ++ data)) = .invalid) :
    Link.handshake parse stream = (.panic .unwrap, { stream with input := after }) := by
  rw [handshake_of_not_skips parse upgrade, upgrade_of_ok parse upgrade once, invalid]

/-- A buffer that holds no upgrade request is refused without an answer. -/
theorem handshake_of_refused
    (parses : parse (Link.upgradeBuffer (stream.input.content.take 24 ++ data)) ≠ .invalid)
    (refused : upgrades parse (stream.input.content.take 24 ++ data) = false) :
    Link.handshake parse stream =
      (.err (.unsupported "Not HTTP/1.1 Upgrade: h2c"), { stream with input := after }) := by
  rw [handshake_of_not_skips parse upgrade, upgrade_of_ok parse upgrade once]
  unfold upgrades at refused
  cases status : parse (Link.upgradeBuffer (stream.input.content.take 24 ++ data)) with
  | invalid => exact absurd status parses
  | incomplete => rfl
  | complete headers =>
      rw [status] at refused
      simp only [refused, Bool.false_eq_true, if_false]

/-- An upgrade request is answered, if the socket still takes the answer. -/
theorem handshake_of_upgrades
    (accepted : upgrades parse (stream.input.content.take 24 ++ data)) :
    Link.handshake parse stream =
      match stream.writable with
      | 0 => (.err (.os 32), { stream with input := after })
      | writable + 1 => Link.handshakeUpgraded
          ⟨after, writable, stream.sent ++ Consts.http11SwitchingProtocols⟩ := by
  rw [handshake_of_not_skips parse upgrade, upgrade_of_ok parse upgrade once]
  unfold upgrades at accepted
  cases status : parse (Link.upgradeBuffer (stream.input.content.take 24 ++ data)) with
  | invalid => rw [status] at accepted; cases accepted
  | incomplete => rw [status] at accepted; cases accepted
  | complete headers =>
      rw [status] at accepted
      simp only [accepted, if_true, TcpStream.writeAll]
      cases stream.writable <;> rfl

/-- With the upgrade's buffer read, a handshake fails by what the buffer holds and what follows. -/
theorem handshakeFails_iff (parse : HttpParser) :
    HandshakeFails parse stream ↔
      parse (Link.upgradeBuffer (stream.input.content.take 24 ++ data)) ≠ .invalid ∧
        (upgrades parse (stream.input.content.take 24 ++ data) → stream.writable ≠ 0 →
          prefaceError after.ending after.content ≠ none) := by
  constructor
  · rintro ⟨-, ⟨err, after', again⟩ | ⟨data', after', again, fails⟩⟩
    · cases once.symm.trans again
    · cases once.symm.trans again
      exact fails
  · exact fun fails => ⟨upgrade, .inr ⟨data, after, once, fails⟩⟩

end Upgrade

/-- There is no error exactly when the bytes start with the preface. -/
theorem prefaceError_eq_none_iff (ending : Option IoError) (bytes : List Byte) :
    prefaceError ending bytes = none ↔ bytes = Consts.http20Preface ++ bytes.drop 24 := by
  unfold prefaceError
  constructor
  · intro right
    by_cases short : bytes.length < 24
    · rw [if_pos short] at right
      cases right
    · rw [if_neg short] at right
      by_cases preface : bytes.take 24 = Consts.http20Preface
      · rw [← preface, List.take_append_drop]
      · rw [if_neg preface] at right
        cases right
  · intro split
    have long : Consts.http20Preface.length = 24 := by decide
    have lengths := congrArg List.length split
    rw [List.length_append, long] at lengths
    have preface : bytes.take 24 = Consts.http20Preface := by
      rw [split, List.take_left' long]
    rw [if_neg (by omega), if_pos preface]

/-- The three ends of a handshake: it unwinds, it fails, or it leaves what follows the preface. -/
inductive HandshakeEnd (parse : HttpParser) (stream : TcpStream) : Prop where
  | unwound (cause : Panic) (returns : (Link.handshake parse stream).1 = .panic cause)
      (passes : ¬ HandshakeFails parse stream)
  | failed (err : IoError) (returns : (Link.handshake parse stream).1 = .err err)
      (fails : HandshakeFails parse stream)
  | drained (returns : (Link.handshake parse stream).1 = .ok ())
      (passes : ¬ HandshakeFails parse stream)
      (rest : (Link.handshake parse stream).2.input.content = [])
  | prefaced (returns : (Link.handshake parse stream).1 = .ok ())
      (passes : ¬ HandshakeFails parse stream)
      (preface : PrefaceBefore parse stream (Link.handshake parse stream).2.input.content)
      (answered : stream.input.content.take 24 = Consts.http20Preface ∨
        (Link.handshake parse stream).2.sent = stream.sent ++ Consts.http11SwitchingProtocols)

/-- An answered upgrade ends as the preface after it does. -/
theorem handshakeEnd_of_upgrades {data : List Byte} {after : TcpInput} {writable : Nat}
    (upgrade : ¬ SkipsUpgrade stream) (once : upgradeRead stream = (.ok data, after))
    (accepted : upgrades parse (stream.input.content.take 24 ++ data))
    (parses : parse (Link.upgradeBuffer (stream.input.content.take 24 ++ data)) ≠ .invalid)
    (more : stream.writable = writable + 1) : HandshakeEnd parse stream := by
  have returns := handshake_of_upgrades upgrade once accepted
  rw [more] at returns
  dsimp only at returns
  obtain ⟨result, sent⟩ := handshakeUpgraded_result
    ⟨after, writable, stream.sent ++ Consts.http11SwitchingProtocols⟩
  have rest := (handshakeUpgraded_spec
    ⟨after, writable, stream.sent ++ Consts.http11SwitchingProtocols⟩).2
  rw [← returns] at result sent rest
  have fails := handshakeFails_iff upgrade once parse
  cases wrong : prefaceError after.ending after.content with
  | some err =>
      refine .failed err (by rw [result, wrong]; rfl) (fails.mpr ⟨parses, fun _ _ => ?_⟩)
      rw [wrong]
      exact Option.some_ne_none err
  | none =>
      refine .prefaced (by rw [result, wrong]; rfl) ?_ (.inr ⟨upgrade, data, after, once, accepted,
        by omega, ?_⟩) (.inr sent)
      · exact fun both => (fails.mp both).2 accepted (by omega) wrong
      · rw [rest]
        exact (prefaceError_eq_none_iff _ _).mp wrong

/-- Every handshake ends in one of these ways. -/
theorem handshake_end (parse : HttpParser) (stream : TcpStream) : HandshakeEnd parse stream := by
  by_cases skips : SkipsUpgrade stream
  · obtain ⟨returns, after⟩ := handshake_of_skips parse skips
    have rest : (Link.handshake parse stream).2.input.content = stream.input.content.drop 24 := by
      rw [returns, after]
    have passes : ¬ HandshakeFails parse stream := fun fails => fails.1 skips
    rcases skips with short | preface
    · refine .drained (by rw [returns]) passes ?_
      rw [rest, List.drop_of_length_le (Nat.le_of_lt short)]
    · refine .prefaced (by rw [returns]) passes (.inl ?_) (.inl preface)
      rw [rest, ← preface, List.take_append_drop]
  · cases once : upgradeRead stream with
    | mk result after =>
        cases result with
        | error err =>
            have returns := handshake_of_unread skips parse once
            exact .failed err (by rw [returns]) ⟨skips, .inl ⟨err, after, once⟩⟩
        | ok data =>
            have fails := handshakeFails_iff skips once parse
            by_cases invalid :
                parse (Link.upgradeBuffer (stream.input.content.take 24 ++ data)) = .invalid
            · exact .unwound .unwrap (by rw [handshake_of_invalid skips once invalid])
                fun both => (fails.mp both).1 invalid
            · cases accepted : upgrades parse (stream.input.content.take 24 ++ data) with
              | false =>
                  refine .failed _ (by rw [handshake_of_refused skips once invalid accepted])
                    (fails.mpr ⟨invalid, fun asks => ?_⟩)
                  rw [accepted] at asks
                  cases asks
              | true =>
                  cases writable : stream.writable with
                  | zero =>
                      have returns := handshake_of_upgrades skips once accepted
                      rw [writable] at returns
                      exact .failed _ (by rw [returns])
                        (fails.mpr ⟨invalid, fun _ more => absurd writable more⟩)
                  | succ more => exact handshakeEnd_of_upgrades skips once accepted invalid writable

/-- Frames come only from behind the preface exactly when a handshake that fails leaves no frame
for the frame loop to find. -/
theorem framesPrefaced_iff (parse : HttpParser) (token : Token) (word : Word)
    (stream : TcpStream) :
    FramesPrefaced parse token word stream ↔
      ¬ (HandshakeFails parse stream ∧ StartsFrame (unread parse stream)) := by
  have frames : (∀ cause, (Link.handshake parse stream).1 ≠ .panic cause) →
      (Link.delivered parse token word stream ≠ [] ↔
        StartsFrame (Link.handshake parse stream).2.input.content) := fun calm => by
    rw [delivered_of_calm token word calm, values_ne_nil_iff]
  have silent_prefaced : Link.delivered parse token word stream = [] →
      FramesPrefaced parse token word stream := fun silent =>
    ⟨fun some => absurd silent some, fun some => absurd silent some, fun _ _ => silent⟩
  cases handshake_end parse stream with
  | unwound cause returns passes =>
      exact iff_of_true (silent_prefaced (delivered_of_panic token word returns))
        fun both => passes both.1
  | failed err returns fails =>
      have calm : ∀ cause, (Link.handshake parse stream).1 ≠ .panic cause := by simp [returns]
      have rest : (Link.handshake parse stream).2.input.content = unread parse stream := by
        rcases handshake_spec parse stream with ⟨-, -, rest⟩ | ⟨-, unwinds⟩
        · exact rest
        · exact absurd unwinds (calm _)
      have starts := frames calm
      rw [rest] at starts
      constructor
      · intro prefaced both
        exact starts.mpr both.2 (prefaced.failed err returns)
      · intro apart
        refine silent_prefaced (Classical.byContradiction fun some => ?_)
        exact apart ⟨fails, starts.mp some⟩
  | drained returns passes rest =>
      have starts := frames (by simp [returns])
      refine iff_of_true (silent_prefaced (Classical.byContradiction fun some => ?_))
        fun both => passes both.1
      have enough := (starts.mp some).1
      rw [rest, List.length_nil] at enough
      omega
  | prefaced returns passes preface answered =>
      refine iff_of_true ⟨fun _ => preface, fun _ => answered, fun err failed => ?_⟩
        fun both => passes both.1
      cases returns.symm.trans failed

/-- A request for a page. -/
def pageRequest : List Byte :=
  ("GET / HTTP/1.1\r\nHost: a\r\n\r\n").toList.map fun char => BitVec.ofNat 8 char.toNat

/-- The request, and a HEADERS frame after it. -/
def unprefaced : TcpStream where
  input := ⟨[pageRequest, [0, 0, 1, 1, 5, 0, 0, 0, 1, 0x82]], none, by decide⟩
  writable := 1
  sent := []

/-- The request is no upgrade, the handshake fails, and the frame is delivered all the same. -/
theorem unprefaced_delivered :
    ¬ FramesPrefaced (fun _ => .complete [⟨"Host", [0x61]⟩]) ⟨7⟩ LinkFlags.none.bits
      unprefaced := by
  intro prefaced
  have silent := prefaced.failed (.unsupported "Not HTTP/1.1 Upgrade: h2c") (by decide)
  revert silent
  decide

end H2l
