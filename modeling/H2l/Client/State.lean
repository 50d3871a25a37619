import H2l.Base.Channel
import H2l.Base.Machine
import H2l.Client.Read

/-!
# The state of a client

The maintenance loop, the two loops of the current connection, the forward loop
and the two channels. The flags word and the raw token are shared; every load and
every store of them is a step of its own.
-/

namespace H2l

open Base

/-- A message of a client's channel. The number of the connection it is about is not part of
the message. -/
structure ClientMessage where
  body : Transaction
  connection : Nat
deriving DecidableEq

/-- The flags stored in a word; undeclared bits are dropped. -/
def clientFlags (word : Word) : ClientFlags := FlagSet.truncate 0x3f word

/-- Where the exit sequence of a read or write loop stands. -/
inductive ClientExitPc where
  | load
  | store (loaded : ClientFlags)
  /-- About to load the flags of the message. -/
  | reload
  /-- About to load the token of the message. -/
  | reloadToken (flags : ClientFlags)
  | announce (flags : ClientFlags) (token : Token)
  | finished
deriving DecidableEq

namespace ClientExitPc

/-- One atomic step: where the sequence stands next, the word it leaves, and what it sends. -/
def advance (own : ClientFlags) (word : Word) (rawToken : Nat) :
    ClientExitPc → Option (ClientExitPc × Word × Option Transaction)
  | load => some (store (clientFlags word), word, none)
  | store loaded => some (reload, (FlagSet.union loaded own).bits, none)
  | reload => some (reloadToken (clientFlags word), word, none)
  | reloadToken flags => some (announce flags ⟨rawToken⟩, word, none)
  | announce flags token => some (finished, word, some (.clientChanged flags token))
  | finished => none

end ClientExitPc

/-- Where a client's read loop stands. -/
inductive ClientReaderPc where
  | reading (input : TcpInput)
  /-- About to load the token of a frame. -/
  | naming (frame : Frame) (rest : TcpInput)
  | delivering (frame : Frame) (token : Token) (rest : TcpInput)
  /-- About to shut the socket down. -/
  | shutting
  | closing (pc : ClientExitPc)
  | panicked

/-- Where a client's write loop stands. -/
inductive ClientWriterPc where
  | receiving
  | writing (tr : Transaction)
  /-- Emptying the outgoing channel. -/
  | flushing
  | closing (pc : ClientExitPc)
deriving DecidableEq

namespace ClientWriterPc

/-- What the loop does with a transaction it received. -/
def received : Transaction → ClientWriterPc
  | .bytes data token => writing (.bytes data token)
  | .frame frame token => writing (.frame frame token)
  | .clientChanged flags _ =>
      if FlagSet.contains flags ClientFlags.readClosed then flushing else receiving
  | _ => receiving

/-- A message is written, ends the loop or is dropped. -/
theorem received_cases (tr : Transaction) :
    received tr = writing tr ∨ received tr = flushing ∨ received tr = receiving := by
  cases tr with
  | bytes data token => exact .inl rfl
  | frame frame token => exact .inl rfl
  | clientChanged flags token =>
      simp only [received]
      by_cases closed : FlagSet.contains flags ClientFlags.readClosed = true
      · exact .inr (.inl (if_pos closed))
      · exact .inr (.inr (if_neg closed))
  | _ => exact .inr (.inr rfl)

end ClientWriterPc

/-- What a completed handshake leaves: the settings of the server and the unread input. -/
structure Session where
  settings : Settings
  input : TcpInput

/-- Where the maintenance loop stands. -/
inductive MantainPc where
  /-- About to test `exit_loop` at the head of the loop. -/
  | head
  | connecting
  /-- Waiting before the next attempt. -/
  | delaying
  | storeToken (token : Nat) (session : Session)
  | handshakedLoad (session : Session)
  | handshakedStore (loaded : ClientFlags) (session : Session)
  | loadFlags (session : Session)
  | loadToken (flags : ClientFlags) (session : Session)
  | announce (flags : ClientFlags) (token : Token) (session : Session)
  | loadSettingsToken (session : Session)
  | sendSettings (token : Token) (session : Session)
  | spawn (input : TcpInput)
  /-- Waiting for both loops of the connection. -/
  | awaiting
  | removeLoad
  | removeStore (loaded : ClientFlags)
  | clearToken
  | loadReconnected
  | reconnectedLoad
  | reconnectedStore (loaded : ClientFlags)
  /-- Out of the loop, about to store `exit_loop`. -/
  | storeExit
  | exitedLoad
  | exitedStore (loaded : ClientFlags)
  | returned
  | panicked

/-- Where a client's forward loop stands. -/
inductive ClientForwardPc where
  | receiving
  | handling (message : ClientMessage)
  /-- About to load the flags of a notice for the write loop. -/
  | loadFlags (message : ClientMessage)
  | loadToken (message : ClientMessage) (flags : ClientFlags)
  | notifying (message : ClientMessage) (flags : ClientFlags) (token : Token)
  | calling (message : ClientMessage)
  | exited
deriving DecidableEq

/-- Where the thread of `Client::spawn` stands. -/
inductive ClientMainPc where
  | awaitingMantain
  | awaitingForward
  | returned
deriving DecidableEq, Repr

/-- A running client. -/
structure ClientState where
  autoReconnect : Bool
  exitLoop : Bool
  word : Word
  rawToken : Nat
  incoming : Channel ClientMessage 4096
  outgoing : Channel ClientMessage 4096
  mantain : MantainPc
  /-- The loops of the current connection, while the maintenance loop waits for them. -/
  reader : Option ClientReaderPc
  writer : Option ClientWriterPc
  forward : ClientForwardPc
  main : ClientMainPc
  /-- How many handshakes have completed. -/
  connections : Nat
  /-- The messages the forward loop has received. -/
  consumed : List ClientMessage
  /-- What the user's closure was called with. -/
  callbacks : List Transaction

namespace ClientState

/-- A client as `spawn` leaves it: no socket, and a maintenance loop about to connect. -/
def start (autoReconnect : Bool) : ClientState :=
  ⟨autoReconnect, false, 0, 0, .empty, .empty, .head, none, none, .receiving, .awaitingMantain, 0,
    [], []⟩

/-- Send on the incoming channel, waiting while it is full. -/
def deliver (state : ClientState) (body : Transaction) : Option ClientState :=
  (state.incoming.trySend ⟨body, state.connections⟩).map fun incoming => { state with incoming }

end ClientState

end H2l
