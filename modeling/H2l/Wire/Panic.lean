import H2l.Wire.Walk

/-!
# Panics of the frame loops

One turn of a frame loop unwinds on headers that `server_panics_iff` and
`client_panics_iff` list: the unhandled kinds, the fixed buffers of the SETTINGS
readers and the stream assertion of DATA frames. `frameLoop_panics_iff` carries
this to whole loops, over the places they read.
-/

namespace H2l

open Base

/-- The kinds that the server dispatches on. -/
def Kind.isHandled : Kind → Bool
  | .data | .headers | .settings | .goAway | .windowUpdate => true
  | _ => false

/-- A header that the server's readers take without a panic. -/
structure FrameSafe (place : List Byte) : Prop where
  handled : (headAt place).kind.isHandled
  settings : (headAt place).kind = .settings → lengthAt place ≤ 256
  data : (headAt place).kind = .data → 9 + lengthAt place ≤ place.length →
    (headAt place).streamId.isZero = false

/-- The server refuses exactly the unhandled kinds and the SETTINGS frames that exceed
the buffer. -/
theorem server_refusal_eq_none_iff (head : Head) (length : Nat) :
    Endpoint.server.refusal head length = none ↔
      head.kind.isHandled ∧ (head.kind = .settings → length ≤ 256) := by
  obtain ⟨kind, flags, streamId⟩ := head
  cases kind <;> simp [Endpoint.refusal, Kind.isHandled]

/-- The client refuses exactly the SETTINGS frames that exceed the buffer. -/
theorem client_refusal_eq_none_iff (head : Head) (length : Nat) :
    Endpoint.client.refusal head length = none ↔ (head.kind = .settings → length ≤ 256) := by
  obtain ⟨kind, flags, streamId⟩ := head
  cases kind <;> simp [Endpoint.refusal]

/-- Among the handled kinds, the server's decoders panic exactly on DATA for stream zero. -/
theorem server_decode_panics_iff {head : Head} (handled : head.kind.isHandled)
    (body : List Byte) :
    (∃ cause, Endpoint.server.decode head body = .panic cause) ↔
      head.kind = .data ∧ head.streamId.isZero := by
  obtain ⟨kind, flags, streamId⟩ := head
  cases kind
  case data =>
    by_cases zero : streamId.isZero <;>
      simp [Endpoint.decode, Frame.withData, Data.new, zero]
  all_goals simp_all [Endpoint.decode, Kind.isHandled]

/-- The client's decoders never panic. -/
theorem client_decode_ne_panic (head : Head) (body : List Byte) (cause : Panic) :
    Endpoint.client.decode head body ≠ .panic cause := by
  obtain ⟨kind, flags, streamId⟩ := head
  cases kind
  all_goals simp [Endpoint.decode]

theorem bodyLengthAt_data {bytes : List Byte} (kind : (headAt bytes).kind = .data) :
    bodyLengthAt bytes = lengthAt bytes := by
  simp [bodyLengthAt, bodyLength, kind]

/-- One turn of the server's loop panics exactly on an unsafe header. -/
theorem server_panics_iff (input : TcpInput) :
    (∃ cause after, Endpoint.server.readFrame input = (.panic cause, after)) ↔
      9 ≤ input.content.length ∧ ¬ FrameSafe input.content := by
  cases turn .server input with
  | short short after turn => simp [turn, Nat.not_le.mpr short]
  | refused enough cause after refuses turn =>
      have unsafeHeader : ¬ FrameSafe input.content := by
        intro safe
        have reads := (server_refusal_eq_none_iff _ _).mpr ⟨safe.handled, safe.settings⟩
        rw [refuses] at reads
        cases reads
      simp [turn, enough, unsafeHeader]
  | cut enough reads short after turn =>
      obtain ⟨handled, settings⟩ := (server_refusal_eq_none_iff _ _).mp reads
      have safe : FrameSafe input.content := by
        refine ⟨handled, settings, fun kind whole => ?_⟩
        rw [bodyLengthAt_data kind, List.length_drop] at short
        omega
      simp [turn, safe]
  | whole enough reads full after turn rest ending =>
      obtain ⟨handled, settings⟩ := (server_refusal_eq_none_iff _ _).mp reads
      have panics := server_decode_panics_iff handled (bodyAt input.content)
      constructor
      · rintro ⟨cause, after', unwinds⟩
        rw [turn, Prod.mk.injEq] at unwinds
        obtain ⟨kind, zero⟩ := panics.mp ⟨cause, unwinds.1⟩
        refine ⟨enough, fun safe => ?_⟩
        have length := bodyLengthAt_data kind
        rw [length, List.length_drop] at full
        rw [safe.data kind (by omega)] at zero
        cases zero
      · rintro ⟨-, unsafeHeader⟩
        have bad : (headAt input.content).kind = .data ∧
            (headAt input.content).streamId.isZero := by
          refine Classical.byContradiction fun good => unsafeHeader ⟨handled, settings, ?_⟩
          intro kind _
          simpa [kind] using good
        obtain ⟨cause, unwinds⟩ := panics.mpr bad
        exact ⟨cause, after, by rw [turn, unwinds]⟩

/-- One turn of the client's loop panics exactly on a SETTINGS header beyond the buffer. -/
theorem client_panics_iff (input : TcpInput) :
    (∃ cause after, Endpoint.client.readFrame input = (.panic cause, after)) ↔
      9 ≤ input.content.length ∧ (headAt input.content).kind = .settings ∧
        256 < lengthAt input.content := by
  have bounded := client_refusal_eq_none_iff (headAt input.content) (lengthAt input.content)
  cases turn .client input with
  | short short after turn => simp [turn, Nat.not_le.mpr short]
  | refused enough cause after refuses turn =>
      rw [refuses] at bounded
      simpa [turn, enough] using bounded
  | cut enough reads short after turn =>
      have within := bounded.mp reads
      simpa [turn, enough] using within
  | whole enough reads full after turn rest ending =>
      have within := bounded.mp reads
      have decodes := client_decode_ne_panic (headAt input.content) (bodyAt input.content)
      simpa [turn, enough, decodes] using within

/-- A frame loop panics exactly when a turn at one of the places it reads does. -/
theorem frameLoop_panics_iff {endpoint : Endpoint} {bad : List Byte → Prop}
    (turns : ∀ input : TcpInput,
      (∃ cause after, endpoint.readFrame input = (.panic cause, after)) ↔ bad input.content)
    (input : TcpInput) :
    (∃ cause, (endpoint.frameLoop input).exit = .panicked cause) ↔
      ∃ place, Reads endpoint input.content place ∧ bad place := by
  simp only [endpoint.frameLoop_eq, Loop.run_panics_iff (readFrame_drains endpoint)]
  constructor
  · rintro ⟨cause, reached, visits, after, unwinds⟩
    exact ⟨reached.content, reads_of_visits visits, (turns reached).mp ⟨cause, after, unwinds⟩⟩
  · rintro ⟨place, reads, isBad⟩
    obtain ⟨reached, visits, rfl⟩ := visits_of_reads reads rfl
    obtain ⟨cause, after, unwinds⟩ := (turns reached).mpr isBad
    exact ⟨cause, reached, visits, after, unwinds⟩

end H2l
