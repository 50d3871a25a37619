import H2l.Frame.Head

/-!
# SETTINGS frames

A SETTINGS payload is a sequence of six-byte entries. `Settings.load` folds them
into the six optional fields, the last value of an identifier winning;
`Settings.encode` writes the fields that are present in a fixed order.
-/

namespace H2l

open Base

/-- One known setting with its value. -/
inductive Setting where
  | headerTableSize (val : Word)
  | enablePush (val : Word)
  | maxConcurrentStreams (val : Word)
  | initialWindowSize (val : Word)
  | maxFrameSize (val : Word)
  | maxHeaderListSize (val : Word)
deriving DecidableEq, Repr

namespace Setting

/-- Unknown identifiers have no setting. -/
def fromId (id : Nat) (val : Word) : Option Setting :=
  match id with
  | 1 => some (headerTableSize val)
  | 2 => some (enablePush val)
  | 3 => some (maxConcurrentStreams val)
  | 4 => some (initialWindowSize val)
  | 5 => some (maxFrameSize val)
  | 6 => some (maxHeaderListSize val)
  | _ => none

/-- Parse a six-byte entry. -/
def load (raw : List Byte) : Option Setting :=
  let id : BitVec 16 := (raw.getD 0 0).setWidth 16 <<< 8 ||| (raw.getD 1 0).setWidth 16
  fromId id.toNat (unpackOctets4 raw 2)

/-- The identifier and value that `encode` writes. -/
def parts : Setting → Nat × Word
  | headerTableSize val => (1, val)
  | enablePush val => (2, val)
  | maxConcurrentStreams val => (3, val)
  | initialWindowSize val => (4, val)
  | maxFrameSize val => (5, val)
  | maxHeaderListSize val => (6, val)

/-- The id in two octets, the value in four. -/
def encode (setting : Setting) : List Byte :=
  toBe 2 setting.parts.1 ++ put32 setting.parts.2

/-- An entry has six bytes. -/
@[simp] theorem encode_length (setting : Setting) : setting.encode.length = 6 := by
  simp [encode]

end Setting

/-- The flags of a SETTINGS frame. -/
abbrev SettingsFlags := FlagSet (0x1 : Byte)

namespace SettingsFlags

/-- The frame acknowledges settings. -/
def ack : SettingsFlags := ⟨0x1, by decide⟩

/-- The known flags among the bits. -/
def load (bits : Byte) : SettingsFlags := FlagSet.truncate 0x1 bits

/-- Whether ACK is set. -/
def isAck (flags : SettingsFlags) : Bool := FlagSet.intersects flags ack

/-- The ACK flag is the lowest bit. -/
theorem isAck_load (bits : Byte) : (load bits).isAck = bits.getLsbD 0 := by
  have bit : bits &&& 1#8 = (BitVec.ofBool (bits.getLsbD 0)).setWidth 8 :=
    BitVec.and_one_eq_setWidth_ofBool_getLsbD
  simp only [load, isAck, ack, FlagSet.truncate, FlagSet.intersects]
  change (bits &&& 1#8 &&& 1#8 != 0) = _
  rw [BitVec.and_assoc, BitVec.and_self, bit]
  cases bits.getLsbD 0 <;> rfl

/-- A set of flags is determined by its only flag. -/
theorem eq_ite_isAck (flags : SettingsFlags) :
    flags = if flags.isAck then ack else FlagSet.empty := by
  have bit : flags.isAck = flags.bits.getLsbD 0 := by
    rw [← isAck_load, load, FlagSet.truncate_self]
  have whole : flags.bits = (BitVec.ofBool (flags.bits.getLsbD 0)).setWidth 8 :=
    flags.declared.symm.trans BitVec.and_one_eq_setWidth_ofBool_getLsbD
  apply FlagSet.ext
  rw [← bit] at whole
  rw [whole]
  cases flags.isAck <;> rfl

end SettingsFlags

/-- A SETTINGS frame. -/
structure Settings where
  flags : SettingsFlags
  headerTableSize : Option Word
  enablePush : Option Word
  maxConcurrentStreams : Option Word
  initialWindowSize : Option Word
  maxFrameSize : Option Word
  maxHeaderListSize : Option Word
deriving DecidableEq

namespace Settings

/-- The lower bound of MAX_FRAME_SIZE. -/
def defaultMaxFrameSize : Nat := 16384

/-- The upper bound of INITIAL_WINDOW_SIZE. -/
def maxInitialWindowSize : Nat := 2 ^ 31 - 1

/-- The upper bound of MAX_FRAME_SIZE. -/
def maxMaxFrameSize : Nat := 2 ^ 24 - 1

/-- No flags and no fields. -/
def default : Settings := ⟨FlagSet.empty, none, none, none, none, none, none⟩

/-- An acknowledgement. -/
def ack : Settings := { default with flags := SettingsFlags.ack }

/-- Whether the frame acknowledges settings. -/
def isAck (settings : Settings) : Bool := settings.flags.isAck

/-- No bound is checked. -/
def setInitialWindowSize (settings : Settings) (size : Option Word) : Settings :=
  { settings with initialWindowSize := size }

/-- No bound is checked. -/
def setMaxConcurrentStreams (settings : Settings) (max : Option Word) : Settings :=
  { settings with maxConcurrentStreams := max }

/-- Of the setters only this one checks its argument, and panics. -/
def setMaxFrameSize {ε : Type} (settings : Settings) (size : Option Word) : Outcome ε Settings :=
  if ∀ val ∈ size, defaultMaxFrameSize ≤ val.toNat ∧ val.toNat ≤ maxMaxFrameSize then
    .ok { settings with maxFrameSize := size }
  else .panic .assertion

/-- No bound is checked. -/
def setMaxHeaderListSize (settings : Settings) (size : Option Word) : Settings :=
  { settings with maxHeaderListSize := size }

/-- Enabled is 1, disabled is 0. -/
def setEnablePush (settings : Settings) (enable : Bool) : Settings :=
  { settings with enablePush := some (if enable then 1 else 0) }

/-- The body of the loop of `load`: record one entry, or reject its value. -/
def record (settings : Settings) : Option Setting → Except Error Settings
  | some (.headerTableSize val) => .ok { settings with headerTableSize := some val }
  | some (.enablePush val) =>
      if val = 0 ∨ val = 1 then .ok { settings with enablePush := some val }
      else .error .invalidSettingValue
  | some (.maxConcurrentStreams val) => .ok { settings with maxConcurrentStreams := some val }
  | some (.initialWindowSize val) =>
      if val.toNat > maxInitialWindowSize then .error .invalidSettingValue
      else .ok { settings with initialWindowSize := some val }
  | some (.maxFrameSize val) =>
      if ¬ (defaultMaxFrameSize ≤ val.toNat ∧ val.toNat ≤ maxMaxFrameSize) then
        .error .invalidSettingValue
      else .ok { settings with maxFrameSize := some val }
  | some (.maxHeaderListSize val) => .ok { settings with maxHeaderListSize := some val }
  | none => .ok settings

/-- The loop of `load` over the six-byte chunks. The length was checked to be a
multiple of six, so no shorter chunk is left over. -/
def recordChunks (settings : Settings) : List Byte → Except Error Settings
  | a :: b :: c :: d :: e :: f :: rest =>
      match settings.record (Setting.load [a, b, c, d, e, f]) with
      | .ok settings => recordChunks settings rest
      | .error error => .error error
  | _ => .ok settings

/-- The two error variants of the length checks stand as in the source: an ACK with
a payload is `invalidPayloadLength`, a ragged payload `invalidPayloadAckSettings`. -/
def load (head : Head) (payload : List Byte) : Except Error Settings :=
  if ¬ head.streamId.isZero then .error .invalidStreamId
  else if (SettingsFlags.load head.flags).isAck then
    if ¬ payload.isEmpty then .error .invalidPayloadLength else .ok ack
  else if payload.length % 6 ≠ 0 then .error .invalidPayloadAckSettings
  else recordChunks default payload

/-- The settings that `for_each` visits, in its order. -/
def entries (settings : Settings) : List Setting :=
  settings.headerTableSize.toList.map .headerTableSize ++
    (settings.enablePush.toList.map .enablePush ++
      (settings.maxConcurrentStreams.toList.map .maxConcurrentStreams ++
        (settings.initialWindowSize.toList.map .initialWindowSize ++
          (settings.maxFrameSize.toList.map .maxFrameSize ++
            settings.maxHeaderListSize.toList.map .maxHeaderListSize))))

/-- Six octets for each setting. -/
def payloadLen (settings : Settings) : Nat := settings.entries.foldl (fun len _ => len + 6) 0

/-- The head, always of stream 0. -/
def head (settings : Settings) : Head := ⟨.settings, settings.flags.bits, StreamId.zero⟩

/-- The head and the settings, in the order of `entries`. -/
def encode (settings : Settings) : List Byte :=
  settings.head.encode settings.payloadLen ++ settings.entries.flatMap Setting.encode

/-- What goes to the socket. -/
def writeTo (settings : Settings) : List Byte := settings.encode

/-- The values that `record` accepts. -/
structure InRange (settings : Settings) : Prop where
  enablePush : ∀ val, settings.enablePush = some val → val = 0 ∨ val = 1
  initialWindowSize : ∀ val, settings.initialWindowSize = some val →
    val.toNat ≤ maxInitialWindowSize
  maxFrameSize : ∀ val, settings.maxFrameSize = some val →
    defaultMaxFrameSize ≤ val.toNat ∧ val.toNat ≤ maxMaxFrameSize

/-- Adding six for every entry is what `payload_len` does. -/
theorem foldl_six (entries : List Setting) (len : Nat) :
    entries.foldl (fun len _ => len + 6) len = len + 6 * entries.length := by
  induction entries generalizing len with
  | nil => rfl
  | cons entry rest ih =>
      rw [List.foldl_cons, ih, List.length_cons]
      omega

/-- Six octets are counted for each entry. -/
theorem payloadLen_eq_mul (settings : Settings) :
    settings.payloadLen = 6 * settings.entries.length := by
  rw [payloadLen, foldl_six, Nat.zero_add]

/-- A payload has six bytes for every entry. -/
theorem flatMap_encode_length (entries : List Setting) :
    (entries.flatMap Setting.encode).length = 6 * entries.length := by
  induction entries with
  | nil => rfl
  | cons entry rest ih =>
      rw [List.flatMap_cons, List.length_append, Setting.encode_length, ih, List.length_cons]
      omega

/-- The length counted by `payload_len` is that of the encoded entries. -/
theorem payloadLen_eq (settings : Settings) :
    settings.payloadLen = (settings.entries.flatMap Setting.encode).length := by
  rw [payloadLen_eq_mul, flatMap_encode_length]

/-- A field gives one entry at most. -/
theorem optional_length_le {α β : Type} (f : α → β) (field : Option α) :
    (field.toList.map f).length ≤ 1 := by
  cases field <;> simp

/-- At most six entries are written. -/
theorem payloadLen_le (settings : Settings) : settings.payloadLen ≤ 36 := by
  have a := optional_length_le Setting.headerTableSize settings.headerTableSize
  have b := optional_length_le Setting.enablePush settings.enablePush
  have c := optional_length_le Setting.maxConcurrentStreams settings.maxConcurrentStreams
  have d := optional_length_le Setting.initialWindowSize settings.initialWindowSize
  have e := optional_length_le Setting.maxFrameSize settings.maxFrameSize
  have f := optional_length_le Setting.maxHeaderListSize settings.maxHeaderListSize
  rw [payloadLen_eq_mul]
  simp only [entries, List.length_append]
  omega

end Settings

end H2l
