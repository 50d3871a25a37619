import H2l.Base.Machine
import H2l.Transaction

/-!
# What a server is for

A registry keeps the attached links under their tokens and tells the application what
happens to them. Each link has an inbox with the frames of its peer; they are looked at
one by one, and the application is told of those that carry content. Nothing here is about
tasks, channels or sockets.
-/

namespace H2l

open Base

/-- DATA and HEADERS are for the application; the other kinds are not. -/
def Frame.isContent : Frame → Bool
  | data _ | headers _ => true
  | _ => false

/-- The content that the application is handed. -/
def Transaction.content : Transaction → Option Frame
  | .frame carried _ => if carried.isContent then some carried else none
  | _ => none

/-- A link, and the frames of its peer that were not looked at. -/
structure Peer where
  token : Token
  inbox : List Frame

/-- What the application is told, and of which link. -/
abbrev Report := Option LinkRef × Transaction

/-- What a server is for: it tells an application which links there are and what their peers send.
-/
structure Registry where
  /-- Every link so far, indexed by its `LinkRef`. -/
  peers : List Peer
  table : Token → Option LinkRef
  told : List Report
  closed : Bool

/-- Peers join, the registry looks at them one by one, and in the end it closes. -/
inductive RegistryEvent where
  /-- A link with the frames that its peer sends. -/
  | join (token : Token) (inbox : List Frame)
  | attach (ref : LinkRef)
  /-- The oldest frame in the inbox of a link is looked at. -/
  | look (ref : LinkRef)
  | detach (ref : LinkRef)
  | close

namespace Registry

/-- Nobody has joined, and nothing was told. -/
def start : Registry := ⟨[], fun _ => none, [], false⟩

/-- The peer behind a reference. -/
def peer (registry : Registry) (ref : LinkRef) : Option Peer := registry.peers[ref.index]?

/-- Tell the application something about a link, or about the server. -/
def tell (registry : Registry) (subject : Option LinkRef) (tr : Transaction) : Registry :=
  { registry with told := registry.told ++ [(subject, tr)] }

/-- Enter a link under a token, or strike the entry out. -/
def list (registry : Registry) (token : Token) (entry : Option LinkRef) : Registry :=
  { registry with table := fun other => if other = token then entry else registry.table other }

/-- A link is attached only where no other stands. -/
def attach (registry : Registry) (ref : LinkRef) (peer : Peer) : Option Registry :=
  if registry.table peer.token = none then
    some ((registry.list peer.token (some ref)).tell (some ref)
      (.linkChanged .attached peer.token))
  else none

/-- A link that is detached takes no other with it. -/
def detach (registry : Registry) (ref : LinkRef) (peer : Peer) : Option Registry :=
  if registry.table peer.token = none ∨ registry.table peer.token = some ref then
    some ((registry.list peer.token none).tell (some ref) (.linkChanged .detached peer.token))
  else none

/-- Of the frames that are looked at, the application is told only those with content. -/
def look (registry : Registry) (ref : LinkRef) (peer : Peer) : Option Registry :=
  match peer.inbox with
  | [] => none
  | frame :: rest =>
      let peers := registry.peers.set ref.index ⟨peer.token, rest⟩
      some (if frame.isContent then
        Registry.tell { registry with peers } (some ref) (.frame frame (some peer.token))
      else { registry with peers })

/-- After the close nothing moves but the arrival of further peers. -/
def step (registry : Registry) : RegistryEvent → Option Registry
  | .join token inbox => some { registry with peers := registry.peers ++ [⟨token, inbox⟩] }
  | .attach ref =>
      if registry.closed then none else (registry.peer ref).bind (registry.attach ref)
  | .look ref => if registry.closed then none else (registry.peer ref).bind (registry.look ref)
  | .detach ref =>
      if registry.closed then none else (registry.peer ref).bind (registry.detach ref)
  | .close =>
      if registry.closed then none
      else some { registry.tell none (.serverChanged .forwardLoopExited) with closed := true }

end Registry

/-- Every run of a registry. -/
def registryMachine : Machine Registry RegistryEvent where
  initial registry := registry = .start
  step := Registry.step

/-- What a report does to the table that an application keeps for itself. -/
def Report.record (table : Token → Option LinkRef) : Report → Token → Option LinkRef
  | (some ref, .linkChanged flags token) =>
      if flags = .attached then fun other => if other = token then some ref else table other
      else if flags = .detached then fun other => if other = token then none else table other
      else table
  | _ => table

/-- The table of an application that goes by what it is told. -/
def tableOf (told : List Report) : Token → Option LinkRef :=
  told.foldl Report.record fun _ => none

/-- The content that the application was handed of a link. -/
def contentOf (ref : LinkRef) (told : List Report) : List Frame :=
  told.filterMap fun report => if report.1 = some ref then report.2.content else none

/-- The inbox that an event brings. -/
def RegistryEvent.joined : RegistryEvent → Option (List Frame)
  | join _ inbox => some inbox
  | _ => none

/-- The inboxes that links came with. -/
def joined (trace : List (Registry × RegistryEvent)) : List (List Frame) :=
  trace.filterMap fun taken => taken.2.joined

/-- What can happen to a registry. -/
inductive RegistryMove (registry : Registry) : RegistryEvent → Registry → Prop where
  | joined {token inbox} : RegistryMove registry (.join token inbox)
      { registry with peers := registry.peers ++ [⟨token, inbox⟩] }
  | attached {ref peer} (running : registry.closed = false) (found : registry.peer ref = some peer)
      (free : registry.table peer.token = none) : RegistryMove registry (.attach ref)
      ((registry.list peer.token (some ref)).tell (some ref) (.linkChanged .attached peer.token))
  | handed {ref peer frame rest} (running : registry.closed = false)
      (found : registry.peer ref = some peer) (front : peer.inbox = frame :: rest)
      (content : frame.isContent) : RegistryMove registry (.look ref)
      (Registry.tell { registry with peers := registry.peers.set ref.index ⟨peer.token, rest⟩ }
        (some ref) (.frame frame (some peer.token)))
  | passed {ref peer frame rest} (running : registry.closed = false)
      (found : registry.peer ref = some peer) (front : peer.inbox = frame :: rest)
      (other : frame.isContent = false) : RegistryMove registry (.look ref)
      { registry with peers := registry.peers.set ref.index ⟨peer.token, rest⟩ }
  | detached {ref peer} (running : registry.closed = false) (found : registry.peer ref = some peer)
      (own : registry.table peer.token = none ∨ registry.table peer.token = some ref) :
      RegistryMove registry (.detach ref)
        ((registry.list peer.token none).tell (some ref) (.linkChanged .detached peer.token))
  | closed (running : registry.closed = false) : RegistryMove registry .close
      { registry.tell none (.serverChanged .forwardLoopExited) with closed := true }

variable {registry after : Registry} {event : RegistryEvent}
  {trace : List (Registry × RegistryEvent)}

/-- Every step of a registry is one of these moves. -/
theorem registry_move (taken : registryMachine.step registry event = some after) :
    RegistryMove registry event after := by
  cases event with
  | join token inbox =>
      cases taken
      exact .joined
  | close =>
      simp only [registryMachine, Registry.step] at taken
      split at taken
      · cases taken
      next running =>
        cases taken
        exact .closed (by simpa using running)
  | attach ref =>
      simp only [registryMachine, Registry.step] at taken
      split at taken
      · cases taken
      next running =>
        obtain ⟨peer, found, taken⟩ := Option.bind_eq_some_iff.mp taken
        simp only [Registry.attach] at taken
        split at taken <;> cases taken
        next free => exact .attached (by simpa using running) found free
  | detach ref =>
      simp only [registryMachine, Registry.step] at taken
      split at taken
      · cases taken
      next running =>
        obtain ⟨peer, found, taken⟩ := Option.bind_eq_some_iff.mp taken
        simp only [Registry.detach] at taken
        split at taken <;> cases taken
        next own => exact .detached (by simpa using running) found own
  | look ref =>
      simp only [registryMachine, Registry.step] at taken
      split at taken
      · cases taken
      next running =>
        obtain ⟨peer, found, taken⟩ := Option.bind_eq_some_iff.mp taken
        simp only [Registry.look] at taken
        split at taken
        · cases taken
        next frame rest front =>
          cases taken
          cases content : frame.isContent with
          | true => exact .handed (by simpa using running) found front content
          | false => exact .passed (by simpa using running) found front content

theorem tableOf_snoc (told : List Report) (report : Report) :
    tableOf (told ++ [report]) = Report.record (tableOf told) report := by
  simp [tableOf, List.foldl_append]

theorem contentOf_snoc (ref : LinkRef) (told : List Report) (report : Report) :
    contentOf ref (told ++ [report]) = contentOf ref told ++
      (if report.1 = some ref then report.2.content else none).toList := by
  cases seen : if report.1 = some ref then report.2.content else none <;>
    simp [contentOf, List.filterMap_append, seen]

/-- Nothing was handed of a link that no report is about. -/
theorem contentOf_eq_nil {ref : LinkRef} {told : List Report}
    (silent : ∀ report ∈ told, report.1 ≠ some ref) : contentOf ref told = [] := by
  refine List.filterMap_eq_nil_iff.mpr fun report member => ?_
  rw [if_neg (silent report member)]

theorem joined_snoc (trace : List (Registry × RegistryEvent)) (registry : Registry)
    (event : RegistryEvent) :
    joined (trace ++ [(registry, event)]) = joined trace ++ event.joined.toList := by
  cases seen : event.joined <;> simp [joined, seen]

/-- What an application is told at the end, and never before. -/
def closing : Report := (none, .serverChanged .forwardLoopExited)

/-- Of a link's inbox, what was looked at is its front, and the application was handed the content
of it. -/
structure Looked (registry : Registry) (ref : LinkRef) (inbox : List Frame) (peer : Peer)
    (looked : List Frame) : Prop where
  found : registry.peer ref = some peer
  split : looked ++ peer.inbox = inbox
  handed : contentOf ref registry.told = looked.filter Frame.isContent

/-- What a registry keeps. -/
structure RegistryInv (inboxes : List (List Frame)) (registry : Registry) : Prop where
  /-- An application that goes by what it is told knows the table. -/
  table : registry.table = tableOf registry.told
  length : registry.peers.length = inboxes.length
  known : ∀ report ∈ registry.told, ∀ ref, report.1 = some ref →
    ref.index < registry.peers.length
  looked : ∀ ref inbox, inboxes[ref.index]? = some inbox →
    ∃ peer looked, Looked registry ref inbox peer looked
  closed : if registry.closed then ∃ earlier, registry.told = earlier ++ [closing] ∧
    closing ∉ earlier else closing ∉ registry.told

/-- A peer that is there has joined. -/
theorem peer_lt {ref : LinkRef} {peer : Peer} (found : registry.peer ref = some peer) :
    ref.index < registry.peers.length :=
  (List.getElem?_eq_some_iff.mp found).choose

theorem peer_set {peers : List Peer} {ref other : LinkRef} {next : Peer}
    (bound : ref.index < peers.length) :
    (peers.set ref.index next)[other.index]? =
      if other = ref then some next else peers[other.index]? := by
  rw [List.getElem?_set]
  by_cases same : ref.index = other.index
  · have refs : other = ref := by cases ref; cases other; simp_all
    rw [if_pos same, if_pos bound, if_pos refs]
  · have refs : other ≠ ref := fun eq => same (by rw [eq])
    rw [if_neg same, if_neg refs]

/-- The invariant holds of the empty registry. -/
theorem registryInv_start : RegistryInv [] .start :=
  ⟨rfl, rfl, by simp [Registry.start], by simp, by simp [Registry.start]⟩

/-- A report about a link that is not content of it leaves what was looked at. -/
theorem Looked.told {ref : LinkRef} {inbox looked : List Frame} {peer : Peer} {report : Report}
    (sees : Looked registry ref inbox peer looked) (found : after.peer ref = some peer)
    (told : after.told = registry.told ++ [report])
    (other : report.1 = some ref → report.2.content = none) :
    Looked after ref inbox peer looked where
  found := found
  split := sees.split
  handed := by
    have nothing : (if report.1 = some ref then report.2.content else none) = none := by
      split
      next about => exact other about
      next => rfl
    rw [told, contentOf_snoc, nothing, Option.toList_none, List.append_nil, sees.handed]

section Step

variable {inboxes : List (List Frame)} {ref : LinkRef} {peer : Peer}

/-- A registry that tells the application something about the table. -/
theorem registryInv_tell {entry : Option LinkRef} {tr : Transaction}
    (inv : RegistryInv inboxes registry) (running : registry.closed = false)
    (found : registry.peer ref = some peer)
    (records : Report.record registry.table (some ref, tr) =
      (registry.list peer.token entry).table) (silent : tr.content = none) :
    RegistryInv inboxes ((registry.list peer.token entry).tell (some ref) tr) where
  table := by
    have told := tableOf_snoc registry.told (some ref, tr)
    rw [← inv.table, records] at told
    exact told.symm
  length := inv.length
  known := by
    intro report member other about
    rcases List.mem_append.mp member with earlier | last
    · exact inv.known report earlier other about
    · obtain rfl := List.mem_singleton.mp last
      cases about
      exact peer_lt found
  looked := by
    intro other inbox came
    obtain ⟨peer', looked, sees⟩ := inv.looked other inbox came
    exact ⟨peer', looked, sees.told sees.found rfl fun _ => silent⟩
  closed := by
    have open' := inv.closed
    rw [running, if_neg Bool.false_ne_true] at open'
    have still : ((registry.list peer.token entry).tell (some ref) tr).closed = false := running
    rw [still, if_neg Bool.false_ne_true]
    intro member
    rcases List.mem_append.mp member with earlier | last
    · exact open' earlier
    · cases List.mem_singleton.mp last

/-- What was looked at after one more frame of a link. -/
theorem Looked.next {inbox looked rest : List Frame} {frame : Frame}
    {other : LinkRef} {peer' : Peer} (sees : Looked registry other inbox peer' looked)
    (found : registry.peer ref = some peer) (front : peer.inbox = frame :: rest)
    (peers : after.peers = registry.peers.set ref.index ⟨peer.token, rest⟩)
    (told : ∀ seen, contentOf seen after.told = contentOf seen registry.told ++
      if seen = ref then [frame].filter Frame.isContent else []) :
    ∃ peer looked, Looked after other inbox peer looked := by
  have there : after.peer other = if other = ref then some ⟨peer.token, rest⟩
      else registry.peer other := by
    rw [Registry.peer, peers, peer_set (peer_lt found), Registry.peer]
  by_cases same : other = ref
  · subst same
    obtain rfl : peer' = peer := Option.some.inj (sees.found.symm.trans found)
    refine ⟨⟨peer'.token, rest⟩, looked ++ [frame], by rw [there, if_pos rfl], ?_, ?_⟩
    · rw [← sees.split, front, List.append_assoc]
      rfl
    · rw [told, if_pos rfl, sees.handed, List.filter_append]
  · refine ⟨peer', looked, by rw [there, if_neg same, sees.found], sees.split, ?_⟩
    rw [told, if_neg same, List.append_nil, sees.handed]

/-- A link that joins has not been looked at. -/
theorem registryInv_join {token : Token} {inbox : List Frame} (inv : RegistryInv inboxes registry) :
    RegistryInv (inboxes ++ [inbox])
      { registry with peers := registry.peers ++ [⟨token, inbox⟩] } where
  table := inv.table
  length := by simp [inv.length]
  known := by
    intro report member ref about
    have bound := inv.known report member ref about
    simp only [List.length_append, List.length_singleton]
    omega
  looked := by
    intro ref inbox' came
    by_cases old : ref.index < inboxes.length
    · rw [List.getElem?_append_left old] at came
      obtain ⟨peer, looked, sees⟩ := inv.looked ref inbox' came
      refine ⟨peer, looked, ?_, sees.split, sees.handed⟩
      rw [Registry.peer, List.getElem?_append_left (inv.length ▸ old)]
      exact sees.found
    · have fresh : ref.index = inboxes.length := by
        have bound := (List.getElem?_eq_some_iff.mp came).choose
        simp only [List.length_append, List.length_singleton] at bound
        omega
      rw [fresh, List.getElem?_concat_length] at came
      cases came
      refine ⟨⟨token, inbox⟩, [], ?_, List.nil_append _, ?_⟩
      · rw [Registry.peer, fresh, ← inv.length, List.getElem?_concat_length]
      · refine contentOf_eq_nil fun report member about => ?_
        have bound := inv.known report member ref about
        rw [inv.length] at bound
        omega
  closed := inv.closed

/-- A frame is looked at, and handed over if it is content. -/
theorem registryInv_look {frame : Frame} {rest : List Frame} (inv : RegistryInv inboxes registry)
    (running : registry.closed = false) (found : registry.peer ref = some peer)
    (front : peer.inbox = frame :: rest)
    (peers : after.peers = registry.peers.set ref.index ⟨peer.token, rest⟩)
    (table : after.table = registry.table) (closed : after.closed = registry.closed)
    (told : after.told = registry.told ++ if frame.isContent then
      [(some ref, .frame frame (some peer.token))] else []) : RegistryInv inboxes after where
  table := by
    rw [table, inv.table, told]
    split
    · rw [tableOf_snoc]
      rfl
    · rw [List.append_nil]
  length := by rw [peers, List.length_set, inv.length]
  known := by
    intro report member other about
    rw [peers, List.length_set]
    rw [told] at member
    rcases List.mem_append.mp member with earlier | last
    · exact inv.known report earlier other about
    · split at last
      · obtain rfl := List.mem_singleton.mp last
        cases about
        exact peer_lt found
      · cases last
  looked := by
    intro other inbox came
    obtain ⟨peer', looked, sees⟩ := inv.looked other inbox came
    refine sees.next found front peers fun seen => ?_
    rw [told]
    split
    next content =>
      rw [contentOf_snoc]
      by_cases same : seen = ref
      · simp [same, Transaction.content, content]
      · simp [same, Ne.symm same]
    next other => simp [other]
  closed := by
    have kept := inv.closed
    rw [running, if_neg Bool.false_ne_true] at kept
    rw [closed, running, if_neg Bool.false_ne_true, told]
    intro member
    rcases List.mem_append.mp member with earlier | last
    · exact kept earlier
    · split at last
      · cases List.mem_singleton.mp last
      · cases last

/-- Closing keeps the invariant. -/
theorem registryInv_close (inv : RegistryInv inboxes registry) (running : registry.closed = false) :
    RegistryInv inboxes
      { registry.tell none (.serverChanged .forwardLoopExited) with closed := true } where
  table := inv.table.trans (tableOf_snoc registry.told closing).symm
  length := inv.length
  known := by
    intro report member ref about
    rcases List.mem_append.mp member with earlier | last
    · exact inv.known report earlier ref about
    · obtain rfl := List.mem_singleton.mp last
      cases about
  looked := by
    intro ref inbox came
    obtain ⟨peer, looked, sees⟩ := inv.looked ref inbox came
    exact ⟨peer, looked, sees.told sees.found rfl nofun⟩
  closed := by
    have kept := inv.closed
    rw [running, if_neg Bool.false_ne_true] at kept
    exact ⟨registry.told, rfl, kept⟩

/-- Every event keeps what a registry keeps. -/
theorem registryInv_of_move (inv : RegistryInv inboxes registry)
    (move : RegistryMove registry event after) :
    RegistryInv (inboxes ++ event.joined.toList) after := by
  have idle : event.joined = none → RegistryInv inboxes after →
      RegistryInv (inboxes ++ event.joined.toList) after := by
    intro none kept
    rwa [none, Option.toList_none, List.append_nil]
  cases move with
  | joined => exact registryInv_join inv
  | attached running found free => exact idle rfl (registryInv_tell inv running found rfl rfl)
  | detached running found own => exact idle rfl (registryInv_tell inv running found rfl rfl)
  | handed running found front content =>
      refine idle rfl (registryInv_look inv running found front rfl rfl rfl ?_)
      rw [if_pos content]
      rfl
  | passed running found front other =>
      refine idle rfl (registryInv_look inv running found front rfl rfl rfl ?_)
      simp [other]
  | closed running => exact idle rfl (registryInv_close inv running)

end Step

/-- Every run keeps the invariant, of the inboxes that joined in it. -/
theorem registryInv_of_run (run : registryMachine.Run .start trace registry) :
    RegistryInv (joined trace) registry := by
  refine @Machine.Run.traceInvariant _ _ _
    (fun trace registry => RegistryInv (joined trace) registry) _ _ _ run registryInv_start ?_
  intro trace before event after _ inv taken
  rw [joined_snoc]
  exact registryInv_of_move inv (registry_move taken)

end H2l
