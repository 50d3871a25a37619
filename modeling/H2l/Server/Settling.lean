import H2l.Base.Measure
import H2l.Server.Inbound

/-!
# A server left to itself

The network, the clock and user code decide when a connection comes and what is sent to
it; everything else is work of the server's tasks, and each peer's stream ends. `server_settles` bounds the work that a
state still holds, in whatever order the tasks take their steps, and says where it ends:
with every connection read to its end and its content handed over, unless the forward loop
has left.
-/

namespace H2l

open Base

/-- A step of a task on the sockets that the network has brought it. -/
def ServerLabel.Works : ServerLabel → Prop
  | read _ | write _ _ | forward | register | announceExit | main => True
  | _ => False

/-- The steps of an exit sequence, and those that its message will take. -/
def ExitPc.work : ExitPc → Nat
  | load => 11
  | store _ => 10
  | reload => 9
  | announce _ => 8
  | finished => 0

/-- Every frame takes nine bytes at least, and no more steps than that. -/
def ReaderPc.work : ReaderPc → Nat
  | handshaking stream => stream.input.content.length + 13
  | reading input => input.content.length + 12
  | delivering _ rest => rest.content.length + 20
  | closing pc => pc.work
  | panicked => 0

/-- A frame is written in two steps, which its place in the queue pays for. -/
def WriterPc.work : WriterPc → Nat
  | receiving => 11
  | writing _ => 12
  | closing pc => pc.work

/-- Both loops of a link, and two steps for every frame in its queue. -/
def LinkState.work (link : LinkState) : Nat :=
  link.reader.work + link.writer.work + 2 * link.outgoing.items.length

/-- The forward loop answers a message with two transactions at most. -/
def ForwardPc.work : ForwardPc → Nat
  | handling _ => 6
  | acknowledging _ => 3
  | calling _ _ => 1
  | _ => 0

/-- A message that the accept loop has in hand still has to be handled. -/
def AcceptPc.work : AcceptPc → Nat
  | registering _ | announcing => 8
  | _ => 0

/-- `join` waits for the accept loop and then for the forward loop. -/
def MainPc.work : MainPc → Nat
  | awaitingAccept => 2
  | awaitingForward => 1
  | returned => 0

/-- The tasks wait for something new from outside. -/
structure Settled (state : ServerState) : Prop where
  forward : state.forward = .receiving
  channel : state.channel.items = []
  accept : state.accept.work = 0
  readers : ∀ ref link, state.link ref = some link → link.reader.ended
  writers : ∀ ref link, state.link ref = some link →
    link.writer = .receiving ∧ link.outgoing.items = [] ∨ link.writer.ended

/-- A bound for the steps that the tasks can take before something new comes from outside. -/
def ServerState.work (state : ServerState) : Nat :=
  total LinkState.work state.created + 7 * state.channel.items.length + state.forward.work +
    state.accept.work + state.main.work

variable {parse : HttpParser} {state after : ServerState} {trace : List (ServerState × ServerLabel)}

theorem priorKnowledge_content_le (stream : TcpStream) :
    (Link.handshakeHttp2PriorKnowledge stream).2.input.content.length ≤
      stream.input.content.length := by
  have reads := Source.readExact_content_le IoError.unexpectedEof 24 stream.input
  unfold Link.handshakeHttp2PriorKnowledge TcpStream.readExact TcpInput.readExact
  cases result : Source.readExact IoError.unexpectedEof 24 stream.input with
  | mk outcome rest =>
      rw [result] at reads
      cases outcome with
      | error err => exact reads
      | ok magic => dsimp only; split <;> exact reads

theorem upgraded_content_le (stream : TcpStream) :
    (Link.handshakeUpgraded stream).2.input.content.length ≤ stream.input.content.length := by
  have reads := priorKnowledge_content_le stream
  unfold Link.handshakeUpgraded
  split
  all_goals simp_all

theorem upgrade_content_le (parse : HttpParser) (fetched : List Byte) (stream : TcpStream) :
    (Link.handshakeHttp11Upgrade parse fetched stream).2.input.content.length ≤
      stream.input.content.length := by
  have reads := Source.read_content_le (Link.upgradeCapacity - fetched.length) stream.input
  have writes : ∀ stream : TcpStream,
      (stream.writeAll Consts.http11SwitchingProtocols).2.input = stream.input := by
    intro stream
    unfold TcpStream.writeAll
    split <;> rfl
  unfold Link.handshakeHttp11Upgrade TcpStream.read
  cases result : stream.input.read (Link.upgradeCapacity - fetched.length) with
  | mk outcome rest =>
      rw [result] at reads
      cases outcome with
      | error err => exact reads
      | ok data =>
          dsimp only
          split
          · exact reads
          · exact reads
          · split
            · have kept := writes { stream with input := rest }
              split
              all_goals
                next sent => rw [sent] at kept; dsimp only at kept; rw [kept]; exact reads
            · exact reads

/-- A handshake leaves no more to read. -/
theorem handshake_content_le (parse : HttpParser) (stream : TcpStream) :
    (Link.handshake parse stream).2.input.content.length ≤ stream.input.content.length := by
  have first := priorKnowledge_content_le stream
  unfold Link.handshake
  split
  next data middle reads =>
    rw [reads] at first
    have second := upgrade_content_le parse data middle
    split
    next upgraded answers =>
      rw [answers] at second
      exact Nat.le_trans (upgraded_content_le upgraded) (Nat.le_trans second first)
    all_goals
      next answers => rw [answers] at second; exact Nat.le_trans second first
  all_goals
    next reads => rw [reads] at first; exact first

/-- A step of an exit sequence, with the message that it sends. -/
theorem advance_work {side : Side} {word word' : Word} {pc next : ExitPc}
    {message : Option LinkFlags} (advances : pc.advance side word = some (next, word', message)) :
    next.work + 7 * message.toList.length < pc.work := by
  cases pc with
  | finished => cases advances
  | _ => cases advances; simp [ExitPc.work]

/-- Every turn of a read loop brings the work down, its message included. -/
theorem ReadTurn.work {link next : LinkState} {sent : Option Transaction}
    (turn : ReadTurn parse link next sent) : next.work + 7 * sent.toList.length < link.work := by
  cases turn with
  | @shaken stream pc calm =>
      have fewer := handshake_content_le parse stream
      simp only [LinkState.work, pc, ReaderPc.work, Option.toList_none, List.length_nil]
      omega
  | shakeUnwound pc | unwound pc =>
      simp only [LinkState.work, pc, ReaderPc.work, Option.toList_none, List.length_nil]
      omega
  | fetched pc reads =>
      have fewer := @readFrame_takes .server _ _ _ reads
      simp only [LinkState.work, pc, ReaderPc.work, Option.toList_none, List.length_nil]
      omega
  | ended pc =>
      simp only [LinkState.work, pc, ReaderPc.work, ExitPc.work, Option.toList_none,
        List.length_nil]
      omega
  | delivered pc =>
      simp only [LinkState.work, pc, ReaderPc.work, Option.toList_some, List.length_singleton]
      omega
  | @exits pc after word message place advances =>
      have smaller := advance_work advances
      have length : (message.map fun flags =>
          Transaction.linkChanged flags link.token).toList.length = message.toList.length := by
        cases message <;> rfl
      simp only [LinkState.work, place, ReaderPc.work, length]
      omega

theorem received_work (tr : Transaction) : (WriterPc.received tr).work ≤ 12 := by
  unfold WriterPc.received
  split
  any_goals split
  all_goals simp [WriterPc.work, ExitPc.work]

/-- Every turn of a write loop brings the work down, its message included. -/
theorem WriteTurn.work {link next : LinkState} {written : Bool} {sent : Option Transaction}
    (turn : WriteTurn link written next sent) :
    next.work + 7 * sent.toList.length < link.work := by
  cases turn with
  | @received tr outgoing pc receives =>
      have items := Channel.recv_items receives
      have less := received_work tr
      have waiting : WriterPc.receiving.work = 11 := rfl
      simp only [LinkState.work, pc, waiting, items, List.length_cons, Option.toList_none,
        List.length_nil]
      omega
  | wrote pc | failed pc =>
      simp only [LinkState.work, pc, WriterPc.work, ExitPc.work, Option.toList_none,
        List.length_nil]
      omega
  | @exits pc after word message place advances =>
      have smaller := advance_work advances
      have length : (message.map fun flags =>
          Transaction.linkChanged flags link.token).toList.length = message.toList.length := by
        cases message <;> rfl
      simp only [LinkState.work, place, WriterPc.work, length]
      omega

/-- A step of a link's loop. -/
theorem loop_work {label : ServerLabel} (turn : LoopTurn parse state label after) :
    after.work < state.work := by
  have moved : ∀ {ref : LinkRef} {link next : LinkState} {sent : Option Transaction}
      {channel : Channel Message 4096}, state.link ref = some link →
      next.work + 7 * sent.toList.length < link.work →
      channel.items = state.channel.items ++ (sent.map fun body => ⟨body, some ref⟩).toList →
      ServerState.work { state with created := state.created.set ref.index next, channel } <
        state.work := by
    intro ref link next sent channel found smaller items
    have links := total_set LinkState.work found next
    have length : channel.items.length = state.channel.items.length + sent.toList.length := by
      rw [items, List.length_append]
      cases sent <;> rfl
    simp only [ServerState.work, length]
    omega
  cases turn with
  | read found turn items => exact moved found turn.work items
  | wrote found turn items => exact moved found turn.work items

/-- A transaction sent to a link is received and written at most. -/
theorem send_work {link next : LinkState} {tr : Transaction} (sends : link.send tr = .ok next) :
    next.work = link.work + 2 := by
  obtain ⟨alive, outgoing, queued, rfl⟩ := send_ok sends
  simp only [LinkState.work, Channel.trySend_items queued, List.length_append,
    List.length_singleton]
  omega

theorem HandleMove.created_work {tr : Transaction} (move : HandleMove state tr after) :
    total LinkState.work after.created ≤ total LinkState.work state.created + 2 := by
  cases move with
  | @sent token ref link next pc looked listed found sends =>
      obtain ⟨notice, sends⟩ := sends
      have links := total_set LinkState.work found next
      rw [send_work sends] at links
      simp only [ServerState.setLink]
      omega
  | _ => exact Nat.le_add_right _ _

theorem HandleMove.forward_work {tr : Transaction} (move : HandleMove state tr after) :
    after.forward.work ≤ 3 := by
  have free := move.free
  cases pc : after.forward with
  | handling message => rw [pc] at free; cases free
  | _ => simp [ForwardPc.work]

/-- Every move of the forward loop brings the work down. -/
theorem forward_work (move : ForwardMove state after) : after.work < state.work := by
  cases move with
  | received pc receives =>
      simp only [ServerState.work, pc, Channel.recv_items receives, List.length_cons,
        ForwardPc.work]
      omega
  | @handled message pc =>
      have moves := handle_move state message.body
      have links := moves.created_work
      have next := moves.forward_work
      have before : state.forward.work = 6 := by rw [pc]; rfl
      simp only [ServerState.work, before, moves.frame.channel, moves.frame.accept,
        moves.frame.main]
      omega
  | @acknowledged token pc =>
      have moves : HandleMove state (.frame (.settings Settings.ack) token) _ :=
        @sendUnwrap_move state _ (.frame (.settings Settings.ack) token) _ .receiving rfl rfl
          (by simp)
      have links := moves.created_work
      have next : (state.sendUnwrap (token.getD ⟨0⟩) (.frame (.settings Settings.ack) token)
          .receiving).forward.work = 0 := by
        rw [sendUnwrap_forward]
        split <;> rfl
      have before : state.forward.work = 3 := by rw [pc]; rfl
      simp only [ServerState.work, before, moves.frame.channel, moves.frame.accept,
        moves.frame.main, next]
      omega
  | @called tr last pc =>
      have next : (if last then ForwardPc.exited else .receiving).work = 0 := by
        cases last <;> rfl
      have before : state.forward.work = 1 := by rw [pc]; rfl
      simp only [ServerState.work, before, next]
      omega

/-- A message of the accept loop. -/
theorem posted_work {message : Message} {sent : ServerState} (place : state.accept.work = 8)
    (sends : state.enqueue message = some sent) {accept : AcceptPc} (idle : accept.work = 0) :
    ServerState.work { sent with accept } < state.work := by
  obtain ⟨channel, rfl, items⟩ := enqueue_eq sends
  simp only [ServerState.work, items, place, idle, List.length_append, List.length_singleton]
  omega

/-- Every step of a task takes work away. -/
theorem server_shrinks (parse : HttpParser) :
    (serverMachine parse).Shrinks ServerLabel.Works ServerState.work := by
  intro state label after works taken
  cases label with
  | read ref => exact loop_work (loop_turn rfl taken)
  | write ref written => exact loop_work (loop_turn rfl taken)
  | forward => exact forward_work (forward_move taken)
  | register =>
      simp only [serverMachine, ServerState.step, ServerState.acceptStep, ServerState.userStep,
        Option.or_none] at taken
      split at taken
      next ref place =>
        obtain ⟨sent, sends, rfl⟩ := Option.map_eq_some_iff.mp taken
        exact posted_work (by rw [place]; rfl) sends rfl
      next => cases taken
  | announceExit =>
      simp only [serverMachine, ServerState.step, ServerState.acceptStep, ServerState.userStep,
        Option.or_none] at taken
      split at taken
      next place =>
        obtain ⟨sent, sends, rfl⟩ := Option.map_eq_some_iff.mp taken
        exact posted_work (by rw [place]; rfl) sends rfl
      next => cases taken
  | main =>
      simp only [serverMachine, ServerState.step, ServerState.acceptStep, ServerState.userStep,
        Option.or_none] at taken
      split at taken
      next place =>
        split at taken <;> cases taken
        simp [ServerState.work, place, MainPc.work]
      next place =>
        split at taken <;> cases taken
        simp [ServerState.work, place, MainPc.work]
      next => cases taken
  | _ => exact works.elim

/-- A reader that cannot move has ended, unless the shared channel is full. -/
theorem reader_atRest {ref : LinkRef} {link : LinkState}
    (rests : (serverMachine parse).step state (.read ref) = none)
    (room : state.channel.items.length < 4096) (found : state.link ref = some link) :
    link.reader.ended := by
  have sends : ∀ message, ∃ sent, state.enqueue message = some sent := fun message => by
    obtain ⟨channel, sends, -⟩ := Channel.trySend_of_lt message room
    exact ⟨_, by rw [ServerState.enqueue, sends]; rfl⟩
  have still : state.readStep parse ref link = none := by
    simpa only [serverMachine, ServerState.step, found, Option.bind_some] using rests
  cases pc : link.reader with
  | panicked => rfl
  | handshaking stream =>
      simp only [ServerState.readStep, pc] at still
      split at still <;> cases still
  | reading input =>
      simp only [ServerState.readStep, pc] at still
      split at still <;> cases still
  | delivering frame rest =>
      obtain ⟨sent, sends⟩ := sends ⟨.frame frame (some link.token), some ref⟩
      simp [ServerState.readStep, pc, sends] at still
  | closing exit =>
      cases exit with
      | finished => rfl
      | announce flags =>
          obtain ⟨sent, sends⟩ := sends ⟨.linkChanged flags link.token, some ref⟩
          simp [ServerState.readStep, pc, ExitPc.advance, ServerState.exitStep, sends] at still
      | _ => simp [ServerState.readStep, pc, ExitPc.advance, ServerState.exitStep] at still

/-- A writer that cannot move waits with nothing queued or has ended, unless the shared channel is
full. -/
theorem writer_atRest {ref : LinkRef} {link : LinkState}
    (rests : (serverMachine parse).step state (.write ref true) = none)
    (room : state.channel.items.length < 4096) (found : state.link ref = some link) :
    link.writer = .receiving ∧ link.outgoing.items = [] ∨ link.writer.ended := by
  have sends : ∀ message, ∃ sent, state.enqueue message = some sent := fun message => by
    obtain ⟨channel, sends, -⟩ := Channel.trySend_of_lt message room
    exact ⟨_, by rw [ServerState.enqueue, sends]; rfl⟩
  have still : state.writeStep ref true link = none := by
    simpa only [serverMachine, ServerState.step, found, Option.bind_some] using rests
  cases pc : link.writer with
  | receiving =>
      simp only [ServerState.writeStep, pc, Option.map_eq_none_iff,
        Channel.recv_eq_none_iff] at still
      exact .inl ⟨rfl, still⟩
  | writing tr => simp [ServerState.writeStep, pc] at still
  | closing exit =>
      cases exit with
      | finished => exact .inr rfl
      | announce flags =>
          obtain ⟨sent, sends⟩ := sends ⟨.linkChanged flags link.token, some ref⟩
          simp [ServerState.writeStep, pc, ExitPc.advance, ServerState.exitStep, sends] at still
      | _ => simp [ServerState.writeStep, pc, ExitPc.advance, ServerState.exitStep] at still

/-- Tasks that cannot move have settled, unless the forward loop has left. -/
theorem settled_of_atRest (rests : (serverMachine parse).AtRest ServerLabel.Works state) :
    state.forward = .exited ∨ state.forward = .panicked ∨ Settled state := by
  have idle : state.forwardStep = none := rests .forward trivial
  cases pc : state.forward with
  | exited => exact .inl rfl
  | panicked => exact .inr (.inl rfl)
  | receiving =>
      simp only [ServerState.forwardStep, pc, Option.map_eq_none_iff,
        Channel.recv_eq_none_iff] at idle
      have room : state.channel.items.length < 4096 := by rw [idle]; decide
      refine .inr (.inr ⟨pc, idle, ?_,
        fun ref link found => reader_atRest (rests (.read ref) trivial) room found,
        fun ref link found => writer_atRest (rests (.write ref true) trivial) room found⟩)
      have registers := rests .register trivial
      have announces := rests .announceExit trivial
      cases place : state.accept with
      | registering ref =>
          obtain ⟨channel, sends, -⟩ := Channel.trySend_of_lt (⟨.newLink ref, none⟩ : Message) room
          simp [serverMachine, ServerState.step, ServerState.acceptStep, ServerState.userStep,
            place, ServerState.enqueue, sends] at registers
      | announcing =>
          obtain ⟨channel, sends, -⟩ :=
            Channel.trySend_of_lt (⟨.serverChanged .acceptLoopExited, none⟩ : Message) room
          simp [serverMachine, ServerState.step, ServerState.acceptStep, ServerState.userStep,
            place, ServerState.enqueue, sends] at announces
      | _ => rfl
  | _ => simp [ServerState.forwardStep, pc] at idle

end H2l
