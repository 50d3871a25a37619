import H2l.Base.Assign
import H2l.Frame.Settings

/-!
# The grammar of SETTINGS payloads

What a SETTINGS frame may look like, apart from the loop that reads it. `Settings.load` accepts
the payloads of the grammar and no others, and keeps the last value of every identifier
(`load_grammar`); the entries that the writer emits are read back when they are of the grammar
(`load_entries_iff`). A rejected frame is reported by the rule that it breaks unless that is one
of the two rules about lengths, whose errors stand in each other's place (`namesCause_iff`).
-/

namespace H2l

open Base

/-- The ACK bit of a SETTINGS header. -/
def Head.acks (head : Head) : Bool := head.flags.getLsbD 0

namespace Settings

/-- The six-byte entries of a payload, each an identifier and a value. -/
def rawEntries : List Byte → List (Nat × Word)
  | a :: b :: c :: d :: e :: f :: rest => (beNat [a, b], be32 [c, d, e, f]) :: rawEntries rest
  | _ => []

/-- The identifiers that have a field. -/
def Known (id : Nat) : Prop := 1 ≤ id ∧ id ≤ 6

instance (id : Nat) : Decidable (Known id) := inferInstanceAs (Decidable (_ ∧ _))

/-- The value of an entry is in the range of its identifier. -/
structure Allowed (entry : Nat × Word) : Prop where
  enablePush : entry.1 = 2 → entry.2.toNat ≤ 1
  initialWindowSize : entry.1 = 4 → entry.2.toNat ≤ 2 ^ 31 - 1
  maxFrameSize : entry.1 = 5 → 2 ^ 14 ≤ entry.2.toNat ∧ entry.2.toNat ≤ 2 ^ 24 - 1

/-- The three parameters whose values are bounded. -/
theorem allowed_iff (entry : Nat × Word) :
    Allowed entry ↔ (entry.1 = 2 → entry.2.toNat ≤ 1) ∧
      (entry.1 = 4 → entry.2.toNat ≤ 2 ^ 31 - 1) ∧
      (entry.1 = 5 → 2 ^ 14 ≤ entry.2.toNat ∧ entry.2.toNat ≤ 2 ^ 24 - 1) :=
  ⟨fun ⟨push, window, size⟩ => ⟨push, window, size⟩,
    fun ⟨push, window, size⟩ => ⟨push, window, size⟩⟩

instance (entry : Nat × Word) : Decidable (Allowed entry) :=
  decidable_of_iff _ (allowed_iff entry).symm

/-- The SETTINGS frames that a peer may send. -/
inductive Grammatical (head : Head) (payload : List Byte) : Prop where
  | ack (stream : head.streamId = StreamId.zero) (acks : head.acks = true)
      (empty : payload = [])
  | plain (stream : head.streamId = StreamId.zero) (plain : head.acks = false)
      (whole : payload.length % 6 = 0) (allowed : ∀ entry ∈ rawEntries payload, Allowed entry)

/-- The field of an identifier. -/
def field (id : Nat) (settings : Settings) : Option Word :=
  match id with
  | 1 => settings.headerTableSize
  | 2 => settings.enablePush
  | 3 => settings.maxConcurrentStreams
  | 4 => settings.initialWindowSize
  | 5 => settings.maxFrameSize
  | 6 => settings.maxHeaderListSize
  | _ => none

/-- Change the field of an identifier. -/
def store (settings : Settings) (id : Nat) (value : Option Word) : Settings :=
  match id with
  | 1 => { settings with headerTableSize := value }
  | 2 => { settings with enablePush := value }
  | 3 => { settings with maxConcurrentStreams := value }
  | 4 => { settings with initialWindowSize := value }
  | 5 => { settings with maxFrameSize := value }
  | 6 => { settings with maxHeaderListSize := value }
  | _ => settings

/-- What an entry leaves, its value not yet checked. -/
def storeEntry (settings : Settings) (entry : Nat × Word) : Settings :=
  settings.store entry.1 (some entry.2)

/-- How a payload may change under the eyes of a receiver that keeps the last value of every
known identifier. -/
inductive Varies (payload other : List Byte) : Prop where
  /-- Entries of unknown identifiers are put in anywhere, or taken out. -/
  | inserted (known : ((rawEntries other).filter fun entry => Known entry.1) =
      (rawEntries payload).filter fun entry => Known entry.1)
  /-- The entries of every identifier stay in their order. -/
  | reordered (same : ∀ id, ((rawEntries other).filter fun entry => entry.1 = id) =
      (rawEntries payload).filter fun entry => entry.1 = id)

/-- Loading accepts the grammar, and keeps the flag and the last value of every identifier. -/
structure LoadsGrammar (head : Head) (payload : List Byte) : Prop where
  accepted : (∃ settings, load head payload = .ok settings) ↔ Grammatical head payload
  flag : ∀ settings, load head payload = .ok settings → settings.isAck = head.acks
  fields : ∀ settings, load head payload = .ok settings →
    ∀ id, Known id → settings.field id = lastValue id (rawEntries payload)
  unmoved : ∀ settings other, load head payload = .ok settings → Varies payload other →
    (head.acks = true → other = []) → other.length % 6 = 0 →
    load head other = .ok settings

/-- The first rule that a frame breaks, by the error that is documented for it: the stream, the
payload of an ACK, the length, and the entries from left to right. -/
def firstViolation (head : Head) (payload : List Byte) : Option Error :=
  if head.streamId ≠ StreamId.zero then some .invalidStreamId
  else if head.acks then if payload = [] then none else some .invalidPayloadAckSettings
  else if payload.length % 6 ≠ 0 then some .invalidPayloadLength
  else (rawEntries payload).findSome? fun entry =>
    if Allowed entry then none else some .invalidSettingValue

/-- The error of a rejected frame is the one documented for the first rule that it breaks. -/
def NamesCause (head : Head) (payload : List Byte) : Prop :=
  ∀ error, load head payload = .error error → firstViolation head payload = some error

/-- The six parameters that have a field. -/
theorem Known.cases {id : Nat} (known : Known id) :
    id = 1 ∨ id = 2 ∨ id = 3 ∨ id = 4 ∨ id = 5 ∨ id = 6 := by
  obtain ⟨low, high⟩ := known
  omega

/-- A field is changed by the entries of its identifier alone. -/
theorem field_store {key : Nat} (known : Known key) (settings : Settings) (id : Nat)
    (value : Option Word) :
    (settings.store id value).field key = if id = key then value else settings.field key := by
  obtain rfl | rfl | rfl | rfl | rfl | rfl := known.cases
  all_goals
    unfold store
    split <;> simp_all [field]

/-- No field holds an unknown parameter. -/
theorem field_unknown {id : Nat} (settings : Settings) (unknown : ¬ Known id) :
    settings.field id = none := by
  unfold field
  split
  all_goals first | rfl | exact absurd (by decide) unknown

/-- By default no parameter is set. -/
theorem field_default (id : Nat) : default.field id = none := by
  unfold field
  split <;> rfl

/-- Storing a parameter keeps the flags. -/
theorem store_flags (settings : Settings) (id : Nat) (value : Option Word) :
    (settings.store id value).flags = settings.flags := by
  unfold store
  split <;> rfl

/-- ENABLE_PUSH is a truth value. -/
theorem allowed_push (val : Word) : Allowed (2, val) ↔ val = 0 ∨ val = 1 := by
  have small : val.toNat ≤ 1 ↔ val.toNat = (0 : Word).toNat ∨ val.toNat = (1 : Word).toNat := by
    change _ ↔ val.toNat = 0 ∨ val.toNat = 1
    omega
  rw [allowed_iff, ← BitVec.toNat_inj, ← BitVec.toNat_inj, ← small]
  simp

/-- The bound that `load` has for INITIAL_WINDOW_SIZE. -/
theorem allowed_window (val : Word) :
    Allowed (4, val) ↔ ¬ val.toNat > maxInitialWindowSize := by
  rw [allowed_iff, Nat.not_lt, maxInitialWindowSize]
  simp

/-- The range that `load` has for MAX_FRAME_SIZE. -/
theorem allowed_size (val : Word) :
    Allowed (5, val) ↔ ¬ ¬ (defaultMaxFrameSize ≤ val.toNat ∧ val.toNat ≤ maxMaxFrameSize) := by
  rw [allowed_iff, Classical.not_not, defaultMaxFrameSize, maxMaxFrameSize]
  simp

/-- The loop body, on an entry: its value is checked, then it replaces the field. -/
theorem record_fromId (settings : Settings) (id : Nat) (val : Word) :
    settings.record (Setting.fromId id val) =
      if Allowed (id, val) then .ok (settings.store id (some val))
      else .error .invalidSettingValue := by
  unfold Setting.fromId
  split
  case h_2 => simp only [allowed_push, record, store]
  case h_4 => simp only [allowed_window, record, store, ite_not]
  case h_5 => simp only [allowed_size, record, store, ite_not]
  case h_7 =>
    have unchanged : settings.store id (some val) = settings := by
      unfold store
      split <;> simp_all
    have free : Allowed (id, val) := by
      rw [allowed_iff]
      simp_all
    simp only [record, unchanged, if_pos free]
  all_goals simp [allowed_iff, record, store]

/-- The entry that `Setting::load` parses. -/
theorem setting_load_eq (a b c d e f : Byte) :
    Setting.load [a, b, c, d, e, f] = Setting.fromId (beNat [a, b]) (be32 [c, d, e, f]) := by
  have high := a.isLt
  have low := b.isLt
  have id : (a.setWidth 16 <<< 8 ||| b.setWidth 16).toNat = beNat [a, b] := by
    simp only [BitVec.toNat_or, BitVec.toNat_shiftLeft, BitVec.toNat_setWidth]
    rw [Nat.mod_eq_of_lt (show a.toNat < 2 ^ 16 by omega),
      Nat.mod_eq_of_lt (show b.toNat < 2 ^ 16 by omega),
      Nat.mod_eq_of_lt (show a.toNat <<< 8 < 2 ^ 16 by rw [Nat.shiftLeft_eq]; omega),
      ← Nat.shiftLeft_add_eq_or_of_lt (by omega), Nat.shiftLeft_eq]
    simp [beNat]
  simp only [Setting.load, unpackOctets4_eq, List.getD_cons_zero, List.getD_cons_succ, id]

/-- The loop stores every entry, or stops at the first whose value is out of range. -/
theorem recordChunks_eq (settings : Settings) (payload : List Byte) :
    settings.recordChunks payload =
      if ∀ entry ∈ rawEntries payload, Allowed entry then
        .ok ((rawEntries payload).foldl storeEntry settings)
      else .error .invalidSettingValue := by
  fun_induction recordChunks settings payload with
  | case1 settings a b c d e f rest next recorded ih =>
      rw [setting_load_eq, record_fromId] at recorded
      split at recorded <;> cases recorded
      next allowed =>
        simp only [rawEntries, List.forall_mem_cons, allowed, true_and, ih, List.foldl_cons,
          storeEntry]
  | case2 settings a b c d e f rest error recorded =>
      rw [setting_load_eq, record_fromId] at recorded
      split at recorded <;> cases recorded
      next rejected => simp only [rawEntries, List.forall_mem_cons, rejected, false_and, if_false]
  | case3 payload settings short =>
      have none : rawEntries payload = [] := by
        unfold rawEntries
        split
        next => exact absurd rfl (short _ _ _ _ _ _ _)
        next => rfl
      simp [none]

/-- What the loop leaves in a field. -/
theorem field_foldl {key : Nat} (known : Known key) (settings : Settings)
    (entries : List (Nat × Word)) :
    (entries.foldl storeEntry settings).field key =
      ((lastValue key entries).map some).getD (settings.field key) :=
  foldl_lastValue (fun kept entry => field_store known kept entry.1 (some entry.2)) entries settings

/-- Storing any entries keeps the flags. -/
theorem foldl_storeEntry_flags (settings : Settings) (entries : List (Nat × Word)) :
    (entries.foldl storeEntry settings).flags = settings.flags := by
  induction entries generalizing settings with
  | nil => rfl
  | cons entry rest ih => rw [List.foldl_cons, ih, storeEntry, store_flags]

/-- Settings are their flags and their six fields. -/
theorem eq_of_fields {first second : Settings} (flags : first.flags = second.flags)
    (fields : ∀ id, Known id → first.field id = second.field id) : first = second := by
  cases first
  cases second
  have table := fields 1 (by decide)
  have push := fields 2 (by decide)
  have streams := fields 3 (by decide)
  have window := fields 4 (by decide)
  have size := fields 5 (by decide)
  have list := fields 6 (by decide)
  simp only [field] at flags table push streams window size list
  simp only [flags, table, push, streams, window, size, list]

section Load

variable {head : Head} {payload : List Byte}

/-- The checks of `load`, in its order. -/
theorem load_eq (head : Head) (payload : List Byte) : load head payload =
    if ¬ head.streamId = StreamId.zero then .error .invalidStreamId
    else if head.acks then if ¬ payload = [] then .error .invalidPayloadLength else .ok ack
    else if payload.length % 6 ≠ 0 then .error .invalidPayloadAckSettings
    else if ∀ entry ∈ rawEntries payload, Allowed entry then
      .ok ((rawEntries payload).foldl storeEntry default)
    else .error .invalidSettingValue := by
  simp only [load, SettingsFlags.isAck_load, recordChunks_eq, StreamId.isZero_iff,
    List.isEmpty_iff, Head.acks]
  rfl

/-- SETTINGS on a stream are rejected. -/
theorem load_of_stream (stream : head.streamId ≠ StreamId.zero) :
    load head payload = .error .invalidStreamId := by
  rw [load_eq, if_pos stream]

/-- An acknowledgement must be empty. -/
theorem load_of_ack (stream : head.streamId = StreamId.zero)
    (acks : head.acks = true) :
    load head payload = if payload = [] then .ok ack else .error .invalidPayloadLength := by
  rw [load_eq, if_neg (not_not_intro stream), if_pos acks, ite_not]

/-- A payload that is not made of whole entries is rejected. -/
theorem load_of_ragged (stream : head.streamId = StreamId.zero)
    (plain : head.acks = false) (ragged : payload.length % 6 ≠ 0) :
    load head payload = .error .invalidPayloadAckSettings := by
  rw [load_eq, if_neg (not_not_intro stream), if_neg (by simp [plain]), if_pos ragged]

/-- Whole entries are stored in order when every value is allowed. -/
theorem load_of_whole (stream : head.streamId = StreamId.zero)
    (plain : head.acks = false) (whole : payload.length % 6 = 0) :
    load head payload =
      if ∀ entry ∈ rawEntries payload, Allowed entry then
        .ok ((rawEntries payload).foldl storeEntry default)
      else .error .invalidSettingValue := by
  rw [load_eq, if_neg (not_not_intro stream), if_neg (by simp [plain]),
    if_neg (not_not_intro whole)]

/-- A frame of the grammar is read entry by entry. -/
theorem load_of_grammatical (grammatical : Grammatical head payload) :
    load head payload = .ok (if head.acks then ack
      else (rawEntries payload).foldl storeEntry default) := by
  cases grammatical with
  | ack stream acks empty => rw [load_of_ack stream acks, if_pos empty, if_pos acks]
  | plain stream plain whole allowed =>
      rw [load_of_whole stream plain whole, if_pos allowed, if_neg (by simp [plain])]

/-- Only the grammar is accepted. -/
theorem grammatical_of_load {settings : Settings} (loads : load head payload = .ok settings) :
    Grammatical head payload := by
  by_cases stream : head.streamId = StreamId.zero
  · cases acks : head.acks with
    | true =>
        rw [load_of_ack stream acks] at loads
        split at loads
        next empty => exact .ack stream acks empty
        next => cases loads
    | false =>
        by_cases whole : payload.length % 6 = 0
        · rw [load_of_whole stream acks whole] at loads
          split at loads
          next allowed => exact .plain stream acks whole allowed
          next => cases loads
        · rw [load_of_ragged stream acks whole] at loads
          cases loads
  · rw [load_of_stream stream] at loads
    cases loads

/-- Every field of what is loaded is the last value of its identifier. -/
theorem field_load {settings : Settings} (loads : load head payload = .ok settings) {id : Nat}
    (known : Known id) : settings.field id = lastValue id (rawEntries payload) := by
  have grammatical := grammatical_of_load loads
  rw [load_of_grammatical grammatical] at loads
  cases loads
  cases grammatical with
  | ack stream acks empty =>
      rw [if_pos acks, empty]
      exact field_default id
  | plain stream plain whole allowed =>
      rw [if_neg (by simp [plain]), field_foldl known]
      cases lastValue id (rawEntries payload) with
      | some value => rfl
      | none => exact field_default id

/-- Only ACK remains of the flags of a header. -/
theorem flags_of_load {settings : Settings} (loads : load head payload = .ok settings) :
    settings.flags = if head.acks then SettingsFlags.ack else FlagSet.empty := by
  rw [load_of_grammatical (grammatical_of_load loads)] at loads
  cases loads
  split
  next => rfl
  next => rw [foldl_storeEntry_flags]; rfl

/-- What was read is an acknowledgement when its header says so. -/
theorem isAck_of_load {settings : Settings} (loads : load head payload = .ok settings) :
    settings.isAck = head.acks := by
  rw [isAck, flags_of_load loads]
  cases head.acks <;> rfl

end Load

section Encoding

/-- An encoded setting is one entry. -/
theorem rawEntries_encode (setting : Setting) (rest : List Byte) :
    rawEntries (setting.encode ++ rest) = setting.parts :: rawEntries rest := by
  obtain ⟨a, b, c, d, octets⟩ : ∃ a b c d, put32 setting.parts.2 = [a, b, c, d] :=
    ⟨_, _, _, _, rfl⟩
  have value : be32 [a, b, c, d] = setting.parts.2 := by rw [← octets, be32_put32]
  rw [Setting.encode, octets]
  cases setting <;> simp_all [toBe, rawEntries, Setting.parts, beNat]

/-- Entries are read as they were encoded. -/
theorem rawEntries_flatMap (entries : List Setting) :
    rawEntries (entries.flatMap Setting.encode) = entries.map Setting.parts := by
  induction entries with
  | nil => rfl
  | cons entry rest ih => rw [List.flatMap_cons, rawEntries_encode, ih, List.map_cons]

/-- The entries that are written are the fields that are present. -/
theorem mem_parts_iff (settings : Settings) (id : Nat) (val : Word) :
    (id, val) ∈ settings.entries.map Setting.parts ↔ settings.field id = some val := by
  by_cases known : Known id
  · obtain rfl | rfl | rfl | rfl | rfl | rfl := known.cases
    all_goals simp [entries, Setting.parts, field]
  · rw [field_unknown settings known]
    refine iff_of_false (fun member => known ?_) (by simp)
    obtain ⟨entry, -, is⟩ := List.mem_map.mp member
    obtain rfl : entry.parts.1 = id := by rw [is]
    cases entry <;> simp [Setting.parts, Known]

/-- Settings are written without entries exactly when they have no fields. -/
theorem entries_eq_nil_iff (settings : Settings) :
    settings.entries = [] ↔ ∀ id, settings.field id = none := by
  rw [← List.map_eq_nil_iff (f := Setting.parts), List.eq_nil_iff_forall_not_mem]
  constructor
  · intro empty id
    cases has : settings.field id with
    | none => rfl
    | some val => exact absurd ((mem_parts_iff settings id val).mpr has) (empty _)
  · intro bare entry member
    rw [mem_parts_iff settings entry.1 entry.2, bare] at member
    cases member

/-- The entries of settings are a payload of the grammar exactly when an acknowledgement has none
and the others are in range. -/
theorem grammatical_entries_iff {settings : Settings} {head : Head}
    (stream : head.streamId = StreamId.zero) (acks : head.acks = settings.isAck) :
    Grammatical head (settings.entries.flatMap Setting.encode) ↔
      if settings.isAck then ∀ id, settings.field id = none
      else ∀ id val, settings.field id = some val → Allowed (id, val) := by
  have bare : settings.entries.flatMap Setting.encode = [] ↔ settings.entries = [] := by
    rw [← List.length_eq_zero_iff, flatMap_encode_length, ← List.length_eq_zero_iff]
    omega
  constructor
  · rintro (⟨_, is, empty⟩ | ⟨_, is, _, allowed⟩)
    · rw [← acks, if_pos is, ← entries_eq_nil_iff]
      exact bare.mp empty
    · rw [← acks, if_neg (by simp [is])]
      rw [rawEntries_flatMap] at allowed
      exact fun id val has => allowed _ ((mem_parts_iff settings id val).mpr has)
  · intro accepted
    split at accepted
    next is => exact .ack stream (acks.trans is) (bare.mpr ((entries_eq_nil_iff _).mpr accepted))
    next is =>
      refine .plain stream (by simpa [acks] using is) ?_ ?_
      · rw [flatMap_encode_length, Nat.mul_mod_right]
      · rw [rawEntries_flatMap]
        exact fun entry member => accepted _ _ ((mem_parts_iff settings _ _).mp member)

/-- What the writer emits, the decoder returns, if it is of the grammar. -/
theorem load_entries_iff {settings : Settings} {head : Head}
    (stream : head.streamId = StreamId.zero) (sameFlags : head.flags = settings.flags.bits) :
    load head (settings.entries.flatMap Setting.encode) = .ok settings ↔
      if settings.isAck then ∀ id, settings.field id = none
      else ∀ id val, settings.field id = some val → Allowed (id, val) := by
  have acks : head.acks = settings.isAck := by
    rw [Head.acks, sameFlags, ← SettingsFlags.isAck_load, SettingsFlags.load, FlagSet.truncate_self]
    rfl
  rw [← grammatical_entries_iff stream acks]
  constructor
  · exact grammatical_of_load
  · intro grammatical
    have loads := load_of_grammatical grammatical
    rw [loads]
    congr 1
    refine eq_of_fields ?_ fun id known => ?_
    · rw [flags_of_load loads, acks]
      exact (SettingsFlags.eq_ite_isAck settings.flags).symm
    · rw [field_load loads known, rawEntries_flatMap]
      exact lastValue_eq_of_mem_iff (mem_parts_iff settings id)

/-- A value within its range is one that the loader accepts. -/
theorem InRange.allowed {settings : Settings} (inRange : settings.InRange) {id : Nat} {val : Word}
    (has : settings.field id = some val) : Allowed (id, val) := by
  unfold field at has
  split at has
  case h_2 => exact (allowed_push val).mpr (inRange.enablePush val has)
  case h_4 => exact (allowed_window val).mpr (Nat.not_lt.mpr (inRange.initialWindowSize val has))
  case h_5 => exact (allowed_size val).mpr (not_not_intro (inRange.maxFrameSize val has))
  all_goals simp_all [allowed_iff]

/-- What the writer of settings in range emits, the decoder returns. -/
theorem load_entries (settings : Settings) (head : Head) (stream : head.streamId.isZero)
    (sameFlags : head.flags = settings.flags.bits)
    (written : settings = ack ∨ settings.isAck = false ∧ settings.InRange) :
    load head (settings.entries.flatMap Setting.encode) = .ok settings := by
  rw [load_entries_iff ((StreamId.isZero_iff _).mp stream) sameFlags]
  rcases written with rfl | ⟨plain, inRange⟩
  · exact field_default
  · rw [if_neg (by simp [plain])]
    exact fun id val has => inRange.allowed has

end Encoding

section Variations

variable {payload other : List Byte}

/-- The entries of a known identifier stay as they are. -/
theorem Varies.same (varies : Varies payload other) {id : Nat} (known : Known id) :
    ((rawEntries other).filter fun entry => entry.1 = id) =
      (rawEntries payload).filter fun entry => entry.1 = id := by
  cases varies with
  | inserted same =>
      have among : ∀ entries : List (Nat × Word),
          (entries.filter fun entry => entry.1 = id) =
            (entries.filter fun entry => Known entry.1).filter fun entry => entry.1 = id := by
        intro entries
        rw [List.filter_filter]
        congr 1
        funext entry
        by_cases is : entry.1 = id <;> simp [is, known]
      rw [among, among (rawEntries payload), same]
  | reordered same => exact same id

/-- No entry of an unknown identifier is rejected. -/
theorem Varies.allowed (varies : Varies payload other)
    (allowed : ∀ entry ∈ rawEntries payload, Allowed entry) :
    ∀ entry ∈ rawEntries other, Allowed entry := by
  intro entry member
  by_cases known : Known entry.1
  · have kept : entry ∈ (rawEntries other).filter fun other => other.1 = entry.1 :=
      List.mem_filter.mpr ⟨member, by simp⟩
    rw [varies.same known] at kept
    exact allowed entry (List.mem_filter.mp kept).1
  · rw [allowed_iff]
    refine ⟨fun is => ?_, fun is => ?_, fun is => ?_⟩ <;> exact absurd (by rw [is]; decide) known

end Variations

/-- Loading accepts exactly the grammar, with the last value of every identifier. -/
theorem load_grammar (head : Head) (payload : List Byte) : LoadsGrammar head payload where
  accepted := ⟨fun ⟨_, loads⟩ => grammatical_of_load loads,
    fun grammatical => ⟨_, load_of_grammatical grammatical⟩⟩
  flag settings loads := isAck_of_load loads
  fields settings loads id known := field_load loads known
  unmoved settings other loads varies bare whole := by
    have grammatical : Grammatical head other := by
      cases grammatical_of_load loads with
      | ack stream acks empty => exact .ack stream acks (bare acks)
      | plain stream plain _ allowed => exact .plain stream plain whole (varies.allowed allowed)
    have again := load_of_grammatical grammatical
    rw [again]
    congr 1
    apply eq_of_fields
    · rw [flags_of_load again, flags_of_load loads]
    · intro id known
      rw [field_load again known, field_load loads known]
      exact lastValue_congr (varies.same known)

/-- The leftmost entry out of range is found. -/
theorem firstRejected {entries : List (Nat × Word)}
    (rejected : ¬ ∀ entry ∈ entries, Allowed entry) :
    (entries.findSome? fun entry =>
      if Allowed entry then none else some Error.invalidSettingValue) =
      some .invalidSettingValue := by
  cases found : entries.findSome? fun entry =>
      if Allowed entry then none else some Error.invalidSettingValue with
  | none =>
      refine absurd (fun entry member => ?_) rejected
      simpa using List.findSome?_eq_none_iff.mp found entry member
  | some error =>
      obtain ⟨entry, -, names⟩ := List.exists_of_findSome?_eq_some found
      split at names <;> cases names
      rfl

/-- A SETTINGS error names its cause exactly where the stream is to blame or neither rule about
lengths is broken. -/
theorem namesCause_iff (head : Head) (payload : List Byte) :
    NamesCause head payload ↔ head.streamId ≠ StreamId.zero ∨
      if head.acks then payload = [] else payload.length % 6 = 0 := by
  by_cases stream : head.streamId = StreamId.zero
  case neg =>
    refine iff_of_true (fun error loads => ?_) (.inl stream)
    rw [load_of_stream stream] at loads
    cases loads
    rw [firstViolation, if_pos stream]
  cases acks : head.acks with
  | true =>
      simp only [NamesCause, load_of_ack stream acks, firstViolation, stream, acks]
      by_cases empty : payload = [] <;> simp [empty]
  | false =>
      by_cases whole : payload.length % 6 = 0
      · refine iff_of_true (fun error loads => ?_) (.inr (by simpa using whole))
        rw [load_of_whole stream acks whole] at loads
        split at loads <;> cases loads
        next rejected =>
          simp only [firstViolation, stream, acks, whole]
          exact firstRejected rejected
      · refine iff_of_false (fun names => ?_) (by simp [stream, whole])
        have named := names _ (load_of_ragged stream acks whole)
        simp [firstViolation, stream, acks, whole] at named

/-- An acknowledgement with a payload is reported as one of a wrong length. -/
theorem acknowledgement_not_named :
    ¬ NamesCause ⟨.settings, 0x1, StreamId.zero⟩ [0] := by
  intro names
  have named := names .invalidPayloadLength rfl
  cases named

end Settings

end H2l
