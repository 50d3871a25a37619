import H2l.Link.Preface

/-!
# Streams cut in different ways

The frame loop fills its buffers, so the frames it delivers depend on the bytes alone
(`values_frameLoop`). The upgrade reads once and parses whatever arrived, so a link
serves a byte string alike under all cuts when the parser decides the same after every
count that this one read may return and nothing that the later reads could take begins
there; and only then, unless frames begin everywhere (`segmentationFree_iff_or_crowded`).
-/

namespace H2l

open Base

/-- The frame at the front of a byte string, if the server accepts it, and what follows it. -/
def wireTurn (bytes : List Byte) : Outcome Unit Frame × List Byte :=
  if 9 + bodyLengthAt bytes ≤ bytes.length ∧
      Endpoint.server.accepts (headAt bytes) (bodyAt bytes) then
    match Endpoint.server.decode (headAt bytes) (bodyAt bytes) with
    | .ok frame => (.ok frame, afterFrame bytes)
    | _ => (.err (), bytes)
  else (.err (), bytes)

/-- The frames at the front of a byte string. -/
def framesFrom (bytes : List Byte) : List Frame := Loop.values (Loop.run List.length wireTurn bytes)

/-- Every turn of the frame loop takes bytes away. -/
theorem wireTurn_drains : Loop.Drains List.length wireTurn := by
  intro bytes frame rest delivers
  unfold wireTurn at delivers
  split at delivers
  next whole =>
    split at delivers
    next =>
      cases delivers
      simp only [afterFrame, List.length_drop]
      omega
    next => cases delivers
  next => cases delivers

/-- The frame loop is viewed on its bytes as the walk. -/
theorem readFrame_views :
    Loop.Views (fun input : TcpInput => input.content) Link.readFrame wireTurn where
  delivers := by
    intro input frame after delivers
    obtain ⟨enough, reads, full, decoded, rest, -⟩ := @delivered_cases .server _ _ _ delivers
    have accepted := (delivers_iff .server input).mp ⟨frame, after, delivers⟩
    simp only [wireTurn, if_pos accepted, decoded, rest]
  delivered := by
    intro input frame rest delivers
    unfold wireTurn at delivers
    split at delivers
    next accepted =>
      obtain ⟨frame', after, delivers'⟩ := (delivers_iff .server input).mpr accepted
      rw [(delivered_cases delivers').2.2.2.1] at delivers
      cases delivers
      exact ⟨after, delivers'⟩
    next => cases delivers

/-- The frames that a link delivers depend on the bytes alone. -/
theorem values_frameLoop (input : TcpInput) :
    Loop.values (Link.frameLoop input) = framesFrom input.content :=
  Loop.values_eq_of_views readFrame_views (readFrame_drains .server) wireTurn_drains input

/-- What a link makes of a stream: the result of its handshake, the bytes it has answered and the
frames it delivers. -/
structure Service where
  result : Outcome IoError Unit
  response : List Byte
  frames : List Frame

/-- The service of a link, whose token and flags word do not matter. -/
def Link.serve (parse : HttpParser) (token : Token) (word : Word) (stream : TcpStream) :
    Service where
  result := (Link.handshake parse stream).1
  response := (Link.handshake parse stream).2.sent
  frames := Link.delivered parse token word stream

/-- A fresh connection on which the given bytes arrive, cut in some way. -/
structure Carries (bytes : List Byte) (ending : Option IoError) (writable : Nat)
    (stream : TcpStream) : Prop where
  content : stream.input.content = bytes
  ending : stream.input.ending = ending
  writable : stream.writable = writable
  fresh : stream.sent = []

/-- Any two cuts of the bytes are served alike. -/
def SegmentationFree (parse : HttpParser) (token : Token) (word : Word) (bytes : List Byte)
    (ending : Option IoError) (writable : Nat) : Prop :=
  ∀ first second, Carries bytes ending writable first → Carries bytes ending writable second →
    Link.serve parse token word first = Link.serve parse token word second

/-- What the parser makes of the bytes that the upgrade has received. -/
inductive Verdict where
  | invalid
  | refused
  | accepted
deriving DecidableEq, Repr

/-- The parser's answer on the zero-filled buffer, and whether it names `Upgrade: h2c`. -/
def verdict (parse : HttpParser) (received : List Byte) : Verdict :=
  if parse (Link.upgradeBuffer received) = .invalid then .invalid
  else if upgrades parse received then .accepted else .refused

/-- The counts of bytes that the one read of the upgrade may return. -/
def Readable (rest : List Byte) (count : Nat) : Prop :=
  count ≤ rest.length ∧ count ≤ Link.upgradeCapacity - 24 ∧ (count = 0 → rest = [])

/-- An upgrade request is complete after so many bytes, and the socket takes the answer. -/
def Answers (parse : HttpParser) (bytes : List Byte) (writable count : Nat) : Prop :=
  verdict parse (bytes.take (24 + count)) = .accepted ∧ writable ≠ 0

/-- The parser decides the same after every count that the one read may return, and none of them
stops where a later read could find something: no frame that the server accepts begins there, or,
behind an answer, neither a preface there nor such a frame behind it. -/
structure CountFree (parse : HttpParser) (bytes : List Byte) (ending : Option IoError)
    (writable : Nat) : Prop where
  decides : ∀ count other, Readable (bytes.drop 24) count → Readable (bytes.drop 24) other →
    verdict parse (bytes.take (24 + count)) = verdict parse (bytes.take (24 + other))
  unanswered : ∀ count, Readable (bytes.drop 24) count →
    verdict parse (bytes.take (24 + count)) ≠ .invalid → ¬ Answers parse bytes writable count →
      ¬ StartsFrame (bytes.drop (24 + count))
  unprefaced : ∀ count, Readable (bytes.drop 24) count → Answers parse bytes writable count →
    (bytes.drop (24 + count)).take 24 ≠ Consts.http20Preface
  /-- A preface fits into what is left after every count or after none. An error of the socket may
  also read like a wrong preface. -/
  left : ending = some (.unsupported "Not HTTP/2.0") ∨
    ∀ count other, Readable (bytes.drop 24) count → Readable (bytes.drop 24) other →
      Answers parse bytes writable count →
        (bytes.length < 24 + count + 24 ↔ bytes.length < 24 + other + 24)
  answered : ∀ count, Readable (bytes.drop 24) count → Answers parse bytes writable count →
    ¬ StartsFrame (bytes.drop (24 + count + 24))

/-- A frame that the server accepts begins wherever the one read may stop, or so many bytes
behind each of these places. -/
def Crowded (bytes : List Byte) (behind : Nat) : Prop :=
  ∀ count, Readable (bytes.drop 24) count → StartsFrame (bytes.drop (24 + count + behind))

/-- The upgrade decides the same after one count of bytes as after the other, and the reads that
go on from there find the same preface and the same frames. -/
structure ReadsAlike (parse : HttpParser) (bytes : List Byte) (ending : Option IoError)
    (writable count other : Nat) : Prop where
  decides : verdict parse (bytes.take (24 + count)) = verdict parse (bytes.take (24 + other))
  unanswered : verdict parse (bytes.take (24 + count)) = .refused ∨
      verdict parse (bytes.take (24 + count)) = .accepted ∧ writable = 0 →
    framesFrom (bytes.drop (24 + count)) = framesFrom (bytes.drop (24 + other))
  answered : verdict parse (bytes.take (24 + count)) = .accepted → writable ≠ 0 →
    prefaceError ending (bytes.drop (24 + count)) =
        prefaceError ending (bytes.drop (24 + other)) ∧
      framesFrom (bytes.drop (24 + count + 24)) = framesFrom (bytes.drop (24 + other + 24))

/-- The service of a link whose upgrade has received so many bytes after the first preface. -/
def serviceAfter (parse : HttpParser) (bytes : List Byte) (ending : Option IoError)
    (writable count : Nat) : Service :=
  match verdict parse (bytes.take (24 + count)), writable with
  | .invalid, _ => ⟨.panic .unwrap, [], []⟩
  | .refused, _ =>
      ⟨.err (.unsupported "Not HTTP/1.1 Upgrade: h2c"), [], framesFrom (bytes.drop (24 + count))⟩
  | .accepted, 0 => ⟨.err (.os 32), [], framesFrom (bytes.drop (24 + count))⟩
  | .accepted, _ + 1 =>
      ⟨.ofError (prefaceError ending (bytes.drop (24 + count))), Consts.http11SwitchingProtocols,
        framesFrom (bytes.drop (24 + count + 24))⟩

/-- Two counts are served alike exactly when the server reads alike after them. -/
theorem serviceAfter_eq_iff (parse : HttpParser) (bytes : List Byte) (ending : Option IoError)
    (writable count other : Nat) :
    serviceAfter parse bytes ending writable count =
        serviceAfter parse bytes ending writable other ↔
      ReadsAlike parse bytes ending writable count other := by
  have answer : Consts.http11SwitchingProtocols ≠ [] := by decide
  constructor
  · intro same
    have decides : verdict parse (bytes.take (24 + count)) =
        verdict parse (bytes.take (24 + other)) := by
      unfold serviceAfter at same
      cases left : verdict parse (bytes.take (24 + count)) <;>
        cases right : verdict parse (bytes.take (24 + other)) <;> cases writable <;>
        simp_all [Outcome.ofError]
    refine ⟨decides, ?_, ?_⟩ <;> unfold serviceAfter at same <;> rw [← decides] at same
    · rintro (refused | ⟨accepted, rfl⟩)
      · simpa [refused] using same
      · simpa [accepted] using same
    · intro accepted more
      obtain ⟨writable, rfl⟩ := Nat.exists_eq_succ_of_ne_zero more
      simpa [accepted] using same
  · intro alike
    unfold serviceAfter
    rw [← alike.decides]
    cases decided : verdict parse (bytes.take (24 + count)) with
    | invalid => rfl
    | refused => simp [alike.unanswered (.inl decided)]
    | accepted =>
        cases writable with
        | zero => simp [alike.unanswered (.inr ⟨decided, rfl⟩)]
        | succ more => simp [alike.answered decided (Nat.succ_ne_zero more)]

section Serving

variable {parse : HttpParser} {token : Token} {word : Word} {bytes : List Byte}
  {ending : Option IoError} {writable : Nat} {stream : TcpStream}

/-- What a link whose handshake returns makes of its peer. -/
theorem serve_of_calm {shaken : Outcome IoError Unit × TcpStream}
    (returns : Link.handshake parse stream = shaken) (calm : ∀ cause, shaken.1 ≠ .panic cause) :
    Link.serve parse token word stream =
      ⟨shaken.1, shaken.2.sent, framesFrom shaken.2.input.content⟩ := by
  have frames := @delivered_of_calm parse stream token word (by rw [returns]; exact calm)
  rw [values_frameLoop] at frames
  rw [Link.serve, frames, returns]

/-- Without an upgrade the service depends on the bytes alone. -/
theorem serve_of_skips (carries : Carries bytes ending writable stream)
    (skips : SkipsUpgrade stream) :
    Link.serve parse token word stream = ⟨.ok (), [], framesFrom (bytes.drop 24)⟩ := by
  obtain ⟨returns, rest⟩ := handshake_of_skips parse skips
  have sent : (Link.handshakeHttp2PriorKnowledge stream).2.sent = [] := by
    rcases Nat.lt_or_ge stream.input.content.length 24 with short | enough
    · obtain ⟨after, reads, -⟩ := priorKnowledge_of_lt short
      rw [reads]
      exact carries.fresh
    · obtain ⟨after, reads, -, -⟩ := priorKnowledge_of_le enough
      rw [reads]
      exact carries.fresh
  rw [serve_of_calm returns (by simp), sent, rest, carries.content]

/-- The service after the one read of the upgrade depends on how much it returned. -/
theorem serve_of_received (carries : Carries bytes ending writable stream)
    (upgrade : ¬ SkipsUpgrade stream) {data : List Byte} {after : TcpInput}
    (once : upgradeRead stream = (.ok data, after))
    (received : bytes.take 24 ++ data = bytes.take (24 + data.length))
    (rest : after.content = bytes.drop (24 + data.length)) (tail : after.ending = ending) :
    Link.serve parse token word stream =
      serviceAfter parse bytes ending writable data.length := by
  have buffer : stream.input.content.take 24 ++ data = bytes.take (24 + data.length) := by
    rw [carries.content, received]
  have decided : verdict parse (bytes.take (24 + data.length)) =
      if parse (Link.upgradeBuffer (stream.input.content.take 24 ++ data)) = .invalid then .invalid
      else if upgrades parse (stream.input.content.take 24 ++ data) then .accepted
      else .refused := by
    rw [buffer]
    rfl
  unfold serviceAfter
  rw [decided]
  by_cases invalid : parse (Link.upgradeBuffer (stream.input.content.take 24 ++ data)) = .invalid
  · have returns := handshake_of_invalid upgrade once invalid
    have silent := delivered_of_panic token word (congrArg Prod.fst returns)
    rw [if_pos invalid, Link.serve, silent, returns, carries.fresh]
  · rw [if_neg invalid]
    cases accepted : upgrades parse (stream.input.content.take 24 ++ data) with
    | false =>
        have returns := handshake_of_refused upgrade once invalid accepted
        rw [serve_of_calm returns (by simp), carries.fresh, rest]
        rfl
    | true =>
        have returns := handshake_of_upgrades upgrade once accepted
        rw [carries.writable, carries.fresh] at returns
        cases writable with
        | zero =>
            rw [serve_of_calm returns (by simp), rest]
            rfl
        | succ more =>
            obtain ⟨result, sent⟩ := handshakeUpgraded_result
              ⟨after, more, [] ++ Consts.http11SwitchingProtocols⟩
            obtain ⟨calm, final⟩ := handshakeUpgraded_spec
              ⟨after, more, [] ++ Consts.http11SwitchingProtocols⟩
            rw [serve_of_calm returns calm, result, sent, final, rest, tail, List.drop_drop]
            rfl

/-- With an upgrade the service depends on the count that the one read returned, unless the read
finds an error and nothing else. -/
theorem serve_cases (carries : Carries bytes ending writable stream)
    (upgrade : ¬ SkipsUpgrade stream) :
    ((bytes.drop 24 = [] → ending = none) ∧ ∃ count, Readable (bytes.drop 24) count ∧
      Link.serve parse token word stream = serviceAfter parse bytes ending writable count) ∨
    ∃ err, bytes.drop 24 = [] ∧ ending = some err ∧
      Link.serve parse token word stream = ⟨.err err, [], framesFrom []⟩ := by
  obtain ⟨enough, -⟩ := not_or.mp upgrade
  obtain ⟨first, reads, content, tail⟩ :=
    Source.readExact_of_le IoError.unexpectedEof (Nat.not_lt.mp enough)
  rw [carries.content] at content
  rw [carries.ending] at tail
  have start : upgradeRead stream = first.read (Link.upgradeCapacity - 24) := by
    rw [upgradeRead, TcpInput.readExact, reads]
  by_cases ended : first.content = []
  · have once := @Source.read_of_empty _ _ (Link.upgradeCapacity - 24) first ended
    rw [← start, tail] at once
    cases ending with
    | none =>
        refine .inl ⟨fun _ => rfl, 0, ⟨Nat.zero_le _, Nat.zero_le _, fun _ => content ▸ ended⟩, ?_⟩
        exact serve_of_received carries upgrade once (List.append_nil _) content tail
    | some err =>
        have returns := handshake_of_unread upgrade parse once
        refine .inr ⟨err, content ▸ ended, rfl, ?_⟩
        rw [serve_of_calm returns (by simp), carries.fresh, ended]
  · obtain ⟨data, after, once, filled, fits, split, tail'⟩ :=
      Source.read_of_content (Link.upgradeCapacity - 24) (by decide) ended
    rw [← start] at once
    rw [content] at split
    have lengths := congrArg List.length split
    rw [List.length_append] at lengths
    refine .inl ⟨fun none => absurd (content ▸ none) ended, data.length,
      ⟨by omega, fits, fun none => ?_⟩, ?_⟩
    · exact absurd (List.length_eq_zero_iff.mp none) filled
    · refine serve_of_received carries upgrade once ?_ ?_ (tail'.trans tail)
      · rw [List.take_add, split, List.take_left]
      · rw [← List.drop_drop, split, List.drop_left]

/-- Any readable count can be what the one read returns. -/
theorem serve_of_readable (parse : HttpParser) (token : Token) (word : Word)
    (ending : Option IoError) (writable : Nat) {count : Nat}
    (enough : 24 ≤ bytes.length) (other : bytes.take 24 ≠ Consts.http20Preface)
    (readable : Readable (bytes.drop 24) count) (some : count ≠ 0) :
    ∃ stream, Carries bytes ending writable stream ∧
      Link.serve parse token word stream = serviceAfter parse bytes ending writable count := by
  have taken : ((bytes.drop 24).take count).length = count :=
    List.length_take_of_le readable.1
  have filled : (bytes.drop 24).take count ≠ [] := fun none => some (by rw [← taken, none]; rfl)
  let pieces := [bytes.take 24, (bytes.drop 24).take count, (bytes.drop 24).drop count]
  let stream : TcpStream := ⟨Source.ofPieces pieces ending, writable, []⟩
  have content : stream.input.content = bytes := by
    simp only [stream, pieces, Source.content_ofPieces, List.flatten_cons, List.flatten_nil,
      List.append_nil, List.take_append_drop]
  have carries : Carries bytes ending writable stream := ⟨content, rfl, rfl, rfl⟩
  have upgrade : ¬ SkipsUpgrade stream := by
    rw [SkipsUpgrade, content]
    exact not_or.mpr ⟨Nat.not_lt.mpr enough, other⟩
  have once : upgradeRead stream =
      (.ok ((bytes.drop 24).take count),
        Source.ofPieces [(bytes.drop 24).drop count] ending) := by
    have first := Source.readExact_ofPieces IoError.unexpectedEof
      [(bytes.drop 24).take count, (bytes.drop 24).drop count] ending (by decide)
      (List.length_take_of_le enough)
    rw [upgradeRead, TcpInput.readExact, first]
    exact Source.read_ofPieces _ ending filled (by rw [taken]; exact readable.2.1)
  refine ⟨stream, carries, ?_⟩
  have service := @serve_of_received parse token word _ _ _ _ carries upgrade _ _ once
    (by rw [taken, List.take_add])
    (by rw [taken, Source.content_ofPieces, List.flatten_singleton, List.drop_drop]) rfl
  rwa [taken] at service

end Serving

/-- A byte string is served alike under all cuts exactly when it is short, begins with the preface,
or is served alike after all counts that the one read of the upgrade may return. -/
theorem segmentationFree_iff_readsAlike (parse : HttpParser) (token : Token) (word : Word)
    (bytes : List Byte) (ending : Option IoError) (writable : Nat) :
    SegmentationFree parse token word bytes ending writable ↔
      bytes.length < 24 ∨ bytes.take 24 = Consts.http20Preface ∨
        ∀ count other, Readable (bytes.drop 24) count → Readable (bytes.drop 24) other →
          ReadsAlike parse bytes ending writable count other := by
  by_cases short : bytes.length < 24
  · refine iff_of_true (fun first second carries carries' => ?_) (.inl short)
    rw [serve_of_skips carries (.inl (carries.content ▸ short)),
      serve_of_skips carries' (.inl (carries'.content ▸ short))]
  by_cases preface : bytes.take 24 = Consts.http20Preface
  · refine iff_of_true (fun first second carries carries' => ?_) (.inr (.inl preface))
    rw [serve_of_skips carries (.inr (carries.content ▸ preface)),
      serve_of_skips carries' (.inr (carries'.content ▸ preface))]
  have upgrade : ∀ {stream}, Carries bytes ending writable stream → ¬ SkipsUpgrade stream := by
    intro stream carries
    rw [SkipsUpgrade, carries.content]
    exact not_or.mpr ⟨short, preface⟩
  constructor
  · refine fun free => .inr (.inr fun count other readable readable' => ?_)
    rw [← serviceAfter_eq_iff]
    by_cases ended : bytes.drop 24 = []
    · have zero : count = 0 := by simpa [ended] using readable.1
      have zero' : other = 0 := by simpa [ended] using readable'.1
      rw [zero, zero']
    · obtain ⟨first, carries, served⟩ := serve_of_readable parse token word ending writable
        (Nat.not_lt.mp short) preface readable fun none => ended (readable.2.2 none)
      obtain ⟨second, carries', served'⟩ := serve_of_readable parse token word ending writable
        (Nat.not_lt.mp short) preface readable' fun none => ended (readable'.2.2 none)
      rw [← served, ← served', free first second carries carries']
  · intro condition first second carries carries'
    have alike := (condition.resolve_left short).resolve_left preface
    rcases @serve_cases parse token word _ _ _ _ carries (upgrade carries) with
      ⟨ends, count, readable, served⟩ | ⟨err, ended, fails, served⟩ <;>
    rcases @serve_cases parse token word _ _ _ _ carries' (upgrade carries') with
      ⟨ends', other, readable', served'⟩ | ⟨err', ended', fails', served'⟩
    · rw [served, served', serviceAfter_eq_iff]
      exact alike count other readable readable'
    · cases (ends ended').symm.trans fails'
    · cases (ends' ended).symm.trans fails
    · cases fails.symm.trans fails'
      rw [served, served']

/-- The walk finds a frame exactly where one begins. -/
theorem framesFrom_eq_nil_iff (bytes : List Byte) : framesFrom bytes = [] ↔ ¬ StartsFrame bytes := by
  have some := values_ne_nil_iff (Source.ofContent bytes none)
  rw [values_frameLoop, Source.content_ofContent] at some
  rw [← some, Classical.not_not]

/-- The preface does not begin at two places next to each other. -/
theorem preface_apart {bytes : List Byte} (here : bytes.take 24 = Consts.http20Preface) :
    (bytes.drop 1).take 24 ≠ Consts.http20Preface := by
  intro there
  have second : (bytes.drop 1).take 1 = (Consts.http20Preface.drop 1).take 1 := by
    rw [← here, List.drop_take, List.take_take]
    rfl
  have first : (bytes.drop 1).take 1 = Consts.http20Preface.take 1 := by
    rw [← there, List.take_take]
    rfl
  have same := second.symm.trans first
  revert same
  decide

/-- A preface that is found after one count is not found after the next. -/
theorem preface_moves {bytes : List Byte} {ending : Option IoError} {count : Nat}
    (found : prefaceError ending (bytes.drop count) = none) :
    prefaceError ending (bytes.drop (count + 1)) ≠ none := by
  have long : Consts.http20Preface.length = 24 := by decide
  have begins : ∀ {rest : List Byte}, prefaceError ending rest = none →
      rest.take 24 = Consts.http20Preface := by
    intro rest none
    rw [(prefaceError_eq_none_iff ending rest).mp none, ← long, List.take_left]
  intro next
  refine preface_apart (begins found) ?_
  rw [List.drop_drop]
  exact begins next

section Counts

variable {parse : HttpParser} {bytes : List Byte} {ending : Option IoError} {writable : Nat}

/-- Where no preface is found, its error is decided by how much is left. -/
theorem prefaceError_of_unprefaced {rest : List Byte}
    (other : rest.take 24 ≠ Consts.http20Preface) :
    prefaceError ending rest =
      some (if rest.length < 24 then ending.getD .unexpectedEof
        else .unsupported "Not HTTP/2.0") := by
  unfold prefaceError
  rw [if_neg other]
  split <;> rfl

/-- Where nothing can be found after any count, the reads go on alike. -/
theorem CountFree.readsAlike (free : CountFree parse bytes ending writable) {count other : Nat}
    (readable : Readable (bytes.drop 24) count) (readable' : Readable (bytes.drop 24) other) :
    ReadsAlike parse bytes ending writable count other where
  decides := free.decides count other readable readable'
  unanswered := by
    have decides := free.decides count other readable readable'
    intro unanswered
    have silent : verdict parse (bytes.take (24 + count)) ≠ .invalid ∧
        ¬ Answers parse bytes writable count := by
      rcases unanswered with refused | ⟨accepted, broken⟩
      · exact ⟨by simp [refused], by simp [Answers, refused]⟩
      · exact ⟨by simp [accepted], by simp [Answers, broken]⟩
    have silent' : ¬ Answers parse bytes writable other := by
      rw [Answers, ← decides]
      exact silent.2
    rw [(framesFrom_eq_nil_iff _).mpr (free.unanswered count readable silent.1 silent.2),
      (framesFrom_eq_nil_iff _).mpr (free.unanswered other readable' (decides ▸ silent.1) silent')]
  answered := by
    intro accepted more
    have answers : Answers parse bytes writable count := ⟨accepted, more⟩
    have answers' : Answers parse bytes writable other :=
      ⟨free.decides count other readable readable' ▸ accepted, more⟩
    refine ⟨?_, ?_⟩
    · rw [prefaceError_of_unprefaced (free.unprefaced count readable answers),
        prefaceError_of_unprefaced (free.unprefaced other readable' answers')]
      rcases free.left with ending | left
      · simp [ending]
      · have same := left count other readable readable' answers
        simp only [List.length_drop]
        have short : ∀ count, bytes.length - (24 + count) < 24 ↔
            bytes.length < 24 + count + 24 := fun count => by omega
        simp only [short, same]
    · rw [(framesFrom_eq_nil_iff _).mpr (free.answered count readable answers),
        (framesFrom_eq_nil_iff _).mpr (free.answered other readable' answers')]

/-- Behind an answer the preface is found after no count that may be returned. -/
theorem unprefaced_of_readsAlike {count : Nat} (readable : Readable (bytes.drop 24) count)
    (alike : ∀ other, Readable (bytes.drop 24) other →
      ReadsAlike parse bytes ending writable count other)
    (answers : Answers parse bytes writable count) :
    (bytes.drop (24 + count)).take 24 ≠ Consts.http20Preface := by
  intro preface
  have lengths := congrArg List.length preface
  have long : Consts.http20Preface.length = 24 := by decide
  rw [List.length_take, List.length_drop, long] at lengths
  have found : prefaceError ending (bytes.drop (24 + count)) = none := by
    rw [prefaceError, if_neg (by rw [List.length_drop]; omega), if_pos preface]
  have filled : bytes.drop 24 ≠ [] := List.ne_nil_of_length_pos (by rw [List.length_drop]; omega)
  have positive : count ≠ 0 := fun zero => filled (readable.2.2 zero)
  have stays : ∀ other, Readable (bytes.drop 24) other →
      prefaceError ending (bytes.drop (24 + other)) = none := fun other readable' =>
    ((alike other readable').answered answers.1 answers.2).1.symm.trans found
  have within := readable.2.1
  have capacity : Link.upgradeCapacity = 4098 := rfl
  by_cases last : count = Link.upgradeCapacity - 24
  · -- The one read has filled the buffer, so it could also have returned one byte less.
    have before := stays (count - 1) ⟨by rw [List.length_drop]; omega, by omega,
      fun zero => by omega⟩
    have moves := preface_moves before
    rw [show 24 + (count - 1) + 1 = 24 + count by omega] at moves
    exact moves found
  · have after := stays (count + 1) ⟨by rw [List.length_drop]; omega, by omega,
      fun zero => by omega⟩
    exact preface_moves found after

/-- What reads alike after all counts is free of them, unless frames begin everywhere. -/
theorem countFree_or_crowded
    (alike : ∀ count other, Readable (bytes.drop 24) count → Readable (bytes.drop 24) other →
      ReadsAlike parse bytes ending writable count other) :
    CountFree parse bytes ending writable ∨ Crowded bytes 0 ∨ Crowded bytes 24 := by
  by_cases crowded : Crowded bytes 0 ∨ Crowded bytes 24
  · exact .inr crowded
  simp only [Crowded, not_or, Classical.not_forall] at crowded
  obtain ⟨⟨first, readable, clear⟩, second, readable', clear'⟩ := crowded
  have unprefaced : ∀ count, Readable (bytes.drop 24) count →
      Answers parse bytes writable count →
        (bytes.drop (24 + count)).take 24 ≠ Consts.http20Preface := fun count within answers =>
    unprefaced_of_readsAlike within (fun other => alike count other within) answers
  refine .inl ⟨fun count other within within' => (alike count other within within').decides,
    fun count within valid silent => ?_, unprefaced, ?_, fun count within answers => ?_⟩
  · have unanswered : verdict parse (bytes.take (24 + count)) = .refused ∨
        verdict parse (bytes.take (24 + count)) = .accepted ∧ writable = 0 := by
      cases decided : verdict parse (bytes.take (24 + count)) with
      | invalid => exact absurd decided valid
      | refused => exact .inl rfl
      | accepted => exact .inr ⟨rfl, Classical.byContradiction fun more => silent ⟨decided, more⟩⟩
    rw [← framesFrom_eq_nil_iff, (alike count first within readable).unanswered unanswered,
      framesFrom_eq_nil_iff]
    exact clear
  · by_cases same : ending = some (.unsupported "Not HTTP/2.0")
    · exact .inl same
    · refine .inr fun count other within within' answers => ?_
      have answers' : Answers parse bytes writable other :=
        ⟨(alike count other within within').decides ▸ answers.1, answers.2⟩
      have error := ((alike count other within within').answered answers.1 answers.2).1
      rw [prefaceError_of_unprefaced (unprefaced count within answers),
        prefaceError_of_unprefaced (unprefaced other within' answers'), List.length_drop,
        List.length_drop, Option.some.injEq] at error
      have apart : ending.getD .unexpectedEof ≠ .unsupported "Not HTTP/2.0" := by
        cases ending with
        | none => simp
        | some err => simpa using same
      by_cases short : bytes.length - (24 + count) < 24 <;>
        by_cases short' : bytes.length - (24 + other) < 24 <;>
        simp only [short, short', if_true, if_false] at error
      · omega
      · exact absurd error apart
      · exact absurd error.symm apart
      · omega
  · have frames := ((alike count second within readable').answered answers.1 answers.2).2
    rw [← framesFrom_eq_nil_iff, frames, framesFrom_eq_nil_iff]
    exact clear'

end Counts

/-- A byte string that fits into the buffer of the upgrade is not crowded. -/
theorem not_crowded_of_fits {bytes : List Byte} (fits : bytes.length ≤ Link.upgradeCapacity)
    (behind : Nat) : ¬ Crowded bytes behind := by
  intro crowded
  have readable : Readable (bytes.drop 24) (bytes.drop 24).length :=
    ⟨Nat.le_refl _, by rw [List.length_drop]; omega, List.length_eq_zero_iff.mp⟩
  have starts := (crowded _ readable).1
  simp only [List.length_drop] at starts
  omega

/-- A byte string is served alike under all cuts when it is short, begins with the preface, or is
free of the counts that the one read of the upgrade may return; and only then, unless it is longer
than the buffer of the upgrade and frames begin everywhere in it. -/
theorem segmentationFree_iff_or_crowded (parse : HttpParser) (token : Token) (word : Word)
    (bytes : List Byte) (ending : Option IoError) (writable : Nat) :
    (bytes.length < 24 ∨ bytes.take 24 = Consts.http20Preface ∨
        CountFree parse bytes ending writable →
      SegmentationFree parse token word bytes ending writable) ∧
    (SegmentationFree parse token word bytes ending writable →
      bytes.length < 24 ∨ bytes.take 24 = Consts.http20Preface ∨
        CountFree parse bytes ending writable ∨
        Link.upgradeCapacity < bytes.length ∧ (Crowded bytes 0 ∨ Crowded bytes 24)) := by
  have alike := segmentationFree_iff_readsAlike parse token word bytes ending writable
  constructor
  · intro condition
    refine alike.mpr (condition.imp id (.imp id fun free count other readable readable' => ?_))
    exact free.readsAlike readable readable'
  · intro free
    refine (alike.mp free).imp id (.imp id fun reads => ?_)
    refine (countFree_or_crowded reads).imp id fun crowded => ⟨?_, crowded⟩
    refine Nat.lt_of_not_le fun fits => ?_
    exact crowded.elim (not_crowded_of_fits fits 0) (not_crowded_of_fits fits 24)

/-- A request to go on with HTTP/2. -/
def upgradeRequest : List Byte :=
  ("GET / HTTP/1.1\r\nUpgrade: h2c\r\n\r\n").toList.map fun char => BitVec.ofNat 8 char.toNat

/-- A parser that knows this request, whatever follows it. -/
def knowsRequest : HttpParser := fun buffer =>
  if upgradeRequest.isPrefixOf buffer then .complete [⟨"Upgrade", Consts.h2c⟩] else .invalid

/-- Sent in two pieces the request is upgraded and the preface after it found; sent in one, the
read of the request has taken the preface with it. -/
theorem coalesced_not_free :
    ¬ SegmentationFree knowsRequest ⟨7⟩ LinkFlags.none.bits
      (upgradeRequest ++ Consts.http20Preface) none 1 := by
  intro free
  have served := free
    ⟨Source.ofPieces [upgradeRequest, Consts.http20Preface] none, 1, []⟩
    ⟨Source.ofPieces [upgradeRequest ++ Consts.http20Preface] none, 1, []⟩
    ⟨by decide, rfl, rfl, rfl⟩ ⟨by decide, rfl, rfl, rfl⟩
  have results := congrArg Service.result served
  revert results
  decide

end H2l
