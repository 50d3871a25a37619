import H2l.Frame.Codec
import H2l.Frame.Grammar

/-!
# Settings that the public API builds

A `Settings` value starts as the default, as an acknowledgement or as a loaded frame, and setters
change its fields. Only `set_max_frame_size` checks its argument, and the setters also work on an
acknowledgement. `roundTrips_iff` says after which calls the decoder returns what was built.
-/

namespace H2l

open Base

/-- A call of a setter. -/
inductive SettingsCall where
  | setInitialWindowSize (size : Option Word)
  | setMaxConcurrentStreams (max : Option Word)
  | setMaxFrameSize (size : Option Word)
  | setMaxHeaderListSize (size : Option Word)
  | setEnablePush (enable : Bool)
deriving DecidableEq

namespace SettingsCall

/-- The settings after one call, or the panic of its assertion. -/
def run (settings : Settings) : SettingsCall → Outcome Error Settings
  | setInitialWindowSize size => .ok (settings.setInitialWindowSize size)
  | setMaxConcurrentStreams max => .ok (settings.setMaxConcurrentStreams max)
  | setMaxFrameSize size => settings.setMaxFrameSize size
  | setMaxHeaderListSize size => .ok (settings.setMaxHeaderListSize size)
  | setEnablePush enable => .ok (settings.setEnablePush enable)

/-- The identifier of the field that a call sets, and its new value. -/
def assignment : SettingsCall → Nat × Option Word
  | setInitialWindowSize size => (4, size)
  | setMaxConcurrentStreams max => (3, max)
  | setMaxFrameSize size => (5, size)
  | setMaxHeaderListSize size => (6, size)
  | setEnablePush enable => (2, some (if enable then 1 else 0))

end SettingsCall

namespace Settings

/-- The value after a sequence of calls, unless one of them panics. -/
def build (settings : Settings) : List SettingsCall → Outcome Error Settings
  | [] => .ok settings
  | call :: rest =>
      match call.run settings with
      | .ok next => next.build rest
      | .err error => .err error
      | .panic cause => .panic cause

/-- What a value may start as. -/
inductive Obtained : Settings → Prop where
  | default : Obtained default
  | ack : Obtained ack
  | loaded {head payload settings} (loads : load head payload = .ok settings) : Obtained settings

/-- The peer that splits the encoded bytes into header and payload reads the same value. -/
def RoundTrips (settings : Settings) : Prop :=
  load (Head.parse (settings.encode.take 9)) (settings.encode.drop 9) = .ok settings

/-- The last window that was set is in range, and on an acknowledgement every field that was set
has been unset again. -/
structure Encodable (start : Settings) (calls : List SettingsCall) : Prop where
  window : ∀ size, lastValue 4 (calls.map SettingsCall.assignment) = some (some size) →
    size.toNat ≤ maxInitialWindowSize
  bare : start.isAck → ∀ id value,
    lastValue id (calls.map SettingsCall.assignment) = some value → value = none

/-- Every field but the initial window size has a value that the decoder accepts. -/
def Checked (settings : Settings) : Prop :=
  ∀ id val, id ≠ 4 → settings.field id = some val → Allowed (id, val)

section Build

variable {start settings : Settings} {calls : List SettingsCall}

/-- A call stores its value under its identifier, and the checked setter a value in range. -/
theorem run_ok {call : SettingsCall} {next : Settings} (ran : call.run settings = .ok next) :
    next = settings.store call.assignment.1 call.assignment.2 ∧
      (call.assignment.1 ≠ 4 → ∀ val ∈ call.assignment.2, Allowed (call.assignment.1, val)) := by
  cases call with
  | setMaxFrameSize size =>
      simp only [SettingsCall.run, setMaxFrameSize] at ran
      split at ran <;> cases ran
      next inRange =>
        exact ⟨rfl, fun _ val member => (allowed_size val).mpr (not_not_intro (inRange val member))⟩
  | setEnablePush enable =>
      cases ran
      refine ⟨rfl, fun _ val member => ?_⟩
      obtain rfl := Option.some.inj member
      cases enable <;> decide
  | _ =>
      cases ran
      refine ⟨rfl, fun other val _ => ?_⟩
      simp_all [SettingsCall.assignment, allowed_iff]

/-- Calls that succeed in a row succeed one by one. -/
theorem build_cons_ok {call : SettingsCall} (built : start.build (call :: calls) = .ok settings) :
    ∃ next, call.run start = .ok next ∧ next.build calls = .ok settings := by
  simp only [build] at built
  split at built
  next next ran => exact ⟨next, ran, built⟩
  next => cases built
  next => cases built

/-- What every call keeps holds of what is built. -/
theorem build_induction {P : Settings → Prop} (built : start.build calls = .ok settings)
    (holds : P start)
    (keeps : ∀ {kept next : Settings} (call : SettingsCall), P kept → call.run kept = .ok next →
      P next) : P settings := by
  induction calls generalizing start with
  | nil => cases built; exact holds
  | cons call rest ih =>
      obtain ⟨next, ran, further⟩ := build_cons_ok built
      exact ih further (keeps call holds ran)

/-- Calls that do not panic are assignments to the fields. -/
theorem build_eq (built : start.build calls = .ok settings) :
    settings = (calls.map SettingsCall.assignment).foldl
      (fun kept assignment => kept.store assignment.1 assignment.2) start := by
  induction calls generalizing start with
  | nil => cases built; rfl
  | cons call rest ih =>
      obtain ⟨next, ran, further⟩ := build_cons_ok built
      rw [List.map_cons, List.foldl_cons, ← (run_ok ran).1]
      exact ih further

/-- A parameter has the last value it was set to, and else the one it started with. -/
theorem field_build (built : start.build calls = .ok settings) {id : Nat} (known : Known id) :
    settings.field id =
      (lastValue id (calls.map SettingsCall.assignment)).getD (start.field id) := by
  have last : settings.field id =
      ((lastValue id (calls.map SettingsCall.assignment)).map fun value => value).getD
        (start.field id) :=
    build_eq built ▸ foldl_lastValue
      (fun kept assignment => field_store known kept assignment.1 assignment.2) _ start
  rwa [Option.map_id'] at last

/-- No call of a setter changes the flags. -/
theorem flags_build (built : start.build calls = .ok settings) : settings.flags = start.flags := by
  refine build_induction (P := fun kept => kept.flags = start.flags) built rfl
    fun call same ran => ?_
  rw [(run_ok ran).1, store_flags, same]

/-- Storing a value that its setter accepts keeps the parameters checked. -/
theorem checked_store {id : Nat} {value : Option Word} (checked : start.Checked)
    (inRange : id ≠ 4 → ∀ val ∈ value, Allowed (id, val)) : (start.store id value).Checked := by
  intro key val other has
  by_cases known : Known key
  · rw [field_store known] at has
    split at has
    next same =>
      subst same
      exact inRange other val has
    next => exact checked key val other has
  · rw [field_unknown _ known] at has
    cases has

/-- The calls keep every checked field in range. -/
theorem checked_build (built : start.build calls = .ok settings) (checked : start.Checked) :
    settings.Checked := by
  refine build_induction (P := Checked) built checked fun call checked ran => ?_
  obtain ⟨rfl, inRange⟩ := run_ok ran
  exact checked_store checked inRange

/-- Every value that is loaded is in range. -/
theorem allowed_of_load {head : Head} {payload : List Byte}
    (loads : load head payload = .ok settings) {id : Nat} {val : Word}
    (has : settings.field id = some val) : Allowed (id, val) := by
  by_cases known : Known id
  · rw [field_load loads known] at has
    have member := mem_of_lastValue has
    cases grammatical_of_load loads with
    | ack _ _ empty => rw [empty] at member; cases member
    | plain _ _ _ allowed => exact allowed _ member
  · rw [field_unknown _ known] at has
    cases has

/-- Settings that were read hold values that the loader accepts. -/
theorem Obtained.allowed (obtained : Obtained start) {id : Nat} {val : Word}
    (has : start.field id = some val) : Allowed (id, val) := by
  cases obtained with
  | default => cases (field_default id).symm.trans has
  | ack => cases (field_default id).symm.trans has
  | loaded loads => exact allowed_of_load loads has

/-- An acknowledgement starts without fields. -/
theorem Obtained.bare (obtained : Obtained start) (acks : start.isAck) (id : Nat) :
    start.field id = none := by
  cases obtained with
  | default => exact field_default id
  | ack => exact field_default id
  | loaded loads =>
      by_cases known : Known id
      · rw [field_load loads known]
        cases grammatical_of_load loads with
        | ack _ _ empty => rw [empty]; rfl
        | plain _ plain => rw [isAck_of_load loads, plain] at acks; cases acks
      · exact field_unknown _ known

end Build

section RoundTrip

variable {start settings : Settings} {calls : List SettingsCall}

/-- All three starts are checked. -/
theorem Obtained.checked (obtained : Obtained start) : start.Checked :=
  fun _ _ _ has => obtained.allowed has

/-- Calls set known fields. -/
theorem known_of_assigned {id : Nat} {value : Option Word}
    (assigned : lastValue id (calls.map SettingsCall.assignment) = some value) : Known id := by
  obtain ⟨call, -, is⟩ := List.mem_map.mp (mem_of_lastValue assigned)
  obtain rfl : call.assignment.1 = id := by rw [is]
  cases call <;> simp [SettingsCall.assignment, Known]

/-- A field that was set holds the last value. -/
theorem field_assigned (built : start.build calls = .ok settings) {id : Nat}
    {value : Option Word}
    (assigned : lastValue id (calls.map SettingsCall.assignment) = some value) :
    settings.field id = value := by
  rw [field_build built (known_of_assigned assigned), assigned, Option.getD_some]

/-- A field that was not set is as it was. -/
theorem field_unassigned (built : start.build calls = .ok settings) {id : Nat}
    (unassigned : lastValue id (calls.map SettingsCall.assignment) = none) :
    settings.field id = start.field id := by
  by_cases known : Known id
  · rw [field_build built known, unassigned, Option.getD_none]
  · rw [field_unknown _ known, field_unknown _ known]

/-- The calls on an acknowledgement must leave it without fields. -/
theorem bare_iff (obtained : Obtained start) (acks : start.isAck)
    (built : start.build calls = .ok settings) :
    (∀ id, settings.field id = none) ↔ Encodable start calls := by
  constructor
  · intro bare
    have unset : ∀ id value, lastValue id (calls.map SettingsCall.assignment) = some value →
        value = none := fun id value assigned => by rw [← field_assigned built assigned, bare]
    refine ⟨fun size assigned => ?_, fun _ => unset⟩
    cases unset 4 _ assigned
  · intro encodable id
    cases last : lastValue id (calls.map SettingsCall.assignment) with
    | none => rw [field_unassigned built last, obtained.bare acks]
    | some value => rw [field_assigned built last, encodable.bare acks id value last]

/-- The calls on other settings must leave a window in range. -/
theorem inRange_iff (obtained : Obtained start) (plain : start.isAck = false)
    (built : start.build calls = .ok settings) :
    (∀ id val, settings.field id = some val → Allowed (id, val)) ↔ Encodable start calls := by
  constructor
  · intro inRange
    refine ⟨fun size assigned => ?_, fun acks => absurd acks (by simp [plain])⟩
    exact Nat.not_lt.mp ((allowed_window size).mp (inRange 4 size (field_assigned built assigned)))
  · intro encodable id val has
    by_cases window : id = 4
    · subst window
      cases last : lastValue 4 (calls.map SettingsCall.assignment) with
      | none => exact obtained.allowed (field_unassigned built last ▸ has)
      | some value =>
          rw [field_assigned built last] at has
          subst has
          exact (allowed_window val).mpr (Nat.not_lt.mpr (encodable.window val last))
    · exact checked_build built obtained.checked id val window has

/-- The decoder returns what the calls built exactly when they leave a window in range and no
field on an acknowledgement. -/
theorem roundTrips_iff (obtained : Obtained start) (built : start.build calls = .ok settings) :
    settings.RoundTrips ↔ Encodable start calls := by
  have kept : settings.isAck = start.isAck := congrArg SettingsFlags.isAck (flags_build built)
  have stream : StreamId.zero.Valid := by decide
  have parsed : Head.parse (settings.encode.take 9) = settings.head :=
    Head.parse_take (show Kind.settings ≠ .binCode by decide) stream _ _
  rw [RoundTrips, parsed, encode, Head.drop_encode, load_entries_iff rfl rfl, kept]
  cases acks : start.isAck with
  | true => exact bare_iff obtained acks built
  | false => exact inRange_iff obtained acks built

end RoundTrip

/-- The initial window that the protocol has by default survives the wire. -/
theorem roundTrips_window : RoundTrips { default with initialWindowSize := some 65535 } ↔
    Encodable default [.setInitialWindowSize (some 65535)] :=
  roundTrips_iff .default rfl

/-- A window of 2^31 can be set and encoded, and the decoder rejects it. -/
theorem oversizedWindow_lost :
    ¬ ∀ start calls settings, Obtained start → start.build calls = .ok settings →
      settings.RoundTrips := by
  intro accepts
  have loads : RoundTrips { default with initialWindowSize := some (1 <<< 31) } :=
    accepts default [.setInitialWindowSize (some (1 <<< 31))] _ .default rfl
  cases loads

end Settings

end H2l
