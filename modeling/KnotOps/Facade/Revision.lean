import KnotOps.Machine

/-! The revision that a client sends with its requests.
The daemon answers a handshake and a commit with a revision, which the handles
keep and send with the next commit or `up`; a failed commit gives its handle back
and a recheck is a new handshake.  A session is what its caller holds, with every
request that has been sent and its reply.  The replies are arbitrary. -/

namespace KnotOps.Facade

open Machine

/-- The status codes of gRPC. -/
inductive Code where
  | ok | cancelled | unknown | invalidArgument | deadlineExceeded | notFound | alreadyExists
  | permissionDenied | resourceExhausted | failedPrecondition | aborted | outOfRange
  | unimplemented | internal | unavailable | dataLoss | unauthenticated
deriving DecidableEq, Repr

structure Status where
  code : Code
  message : String
deriving DecidableEq, Repr

/-- The errors that a request can end in. -/
inductive ClientError where
  | protocol (status : Status)
  | contract (message : String)
  | wrongRevision
deriving DecidableEq, Repr

abbrev Reply (α : Type) := Except Status α

def callRpc {α : Type} : Reply α → Except ClientError α
  | .ok response => .ok response
  | .error status =>
    if status.code = .aborted then .error .wrongRevision else .error (.protocol status)

def executeTaskCmd (reply : Reply (Option String)) : Except ClientError String :=
  match callRpc reply with
  | .error error => .error error
  | .ok (some taskId) => .ok taskId
  | .ok none => .error (.contract "daemon did not return an 'x-task-id' header")

structure HandshakeRequest (M : Type) where
  workspaceId : String
  manifest : Option M

structure HandshakeResponse where
  state : Int
  revision : String

structure CommitRequest (M : Type) where
  workspaceId : String
  manifest : Option M
  expectedRevision : String

structure CommitResponse where
  revision : String
  servicesAdded : List String
  servicesRemoved : List String
  servicesChanged : List String

structure UpRequest where
  workspaceId : String
  services : List String
  expectedRevision : String
  prune : Bool

inductive ManifestSyncState where
  | unspecified
  | inSync
  | outOfSync
  | unregistered
deriving DecidableEq, Repr

def ManifestSyncState.tryFrom : Int → Option ManifestSyncState
  | 0 => some unspecified
  | 1 => some inSync
  | 2 => some outOfSync
  | 3 => some unregistered
  | _ => none

structure ControlHandle where
  workspaceId : String
  expectedRevision : String
deriving DecidableEq, Repr

structure UncommittedHandle (M : Type) where
  controller : ControlHandle
  toCommit : M

inductive DaemonSession (M : Type) where
  | ready (control : ControlHandle)
  | uncommitted (handle : UncommittedHandle M)

structure CommitSummary where
  servicesAdded : List String
  servicesRemoved : List String
  servicesChanged : List String

def CommitSummary.from (response : CommitResponse) : CommitSummary :=
  ⟨response.servicesAdded, response.servicesRemoved, response.servicesChanged⟩

structure Committed where
  control : ControlHandle
  summary : CommitSummary

structure CommitError (M : Type) where
  handle : UncommittedHandle M
  source : ClientError

variable {M : Type}

/-- `ConnectedHandle::handshake`: the request, and what the reply makes of it. -/
def ConnectedHandle.handshake (workspaceId : String) (workspaceManifest : M)
    (reply : Reply HandshakeResponse) :
    HandshakeRequest M × Except ClientError (DaemonSession M) :=
  (⟨workspaceId, some workspaceManifest⟩,
    match callRpc reply with
    | .error error => .error error
    | .ok res =>
      let controller : ControlHandle := ⟨workspaceId, res.revision⟩
      match ManifestSyncState.tryFrom res.state with
      | some .outOfSync | some .unregistered =>
        .ok (.uncommitted ⟨controller, workspaceManifest⟩)
      | some .inSync => .ok (.ready controller)
      | some .unspecified | none =>
        .error (.contract ("unexpected workspace state: " ++ toString res.state)))

namespace ControlHandle

def setRevision (handle : ControlHandle) (revision : String) : ControlHandle :=
  { handle with expectedRevision := revision }

def up (handle : ControlHandle) (services : List String) (prune : Bool)
    (reply : Reply (Option String)) : UpRequest × Except ClientError String :=
  (⟨handle.workspaceId, services, handle.expectedRevision, prune⟩, executeTaskCmd reply)

def recheck (handle : ControlHandle) (manifest : M) (reply : Reply HandshakeResponse) :
    HandshakeRequest M × Except ClientError (DaemonSession M) :=
  ConnectedHandle.handshake handle.workspaceId manifest reply

end ControlHandle

namespace UncommittedHandle

/-- The request, the handle as it is left, and the result. -/
def innerCommit (handle : UncommittedHandle M) (reply : Reply CommitResponse) :
    CommitRequest M × UncommittedHandle M × Except ClientError CommitSummary :=
  let request : CommitRequest M :=
    ⟨handle.controller.workspaceId, some handle.toCommit, handle.controller.expectedRevision⟩
  match callRpc reply with
  | .error error => (request, handle, .error error)
  | .ok res =>
    (request, { handle with controller := handle.controller.setRevision res.revision },
      .ok (CommitSummary.from res))

def commit (handle : UncommittedHandle M) (reply : Reply CommitResponse) :
    CommitRequest M × Except (CommitError M) Committed :=
  match handle.innerCommit reply with
  | (request, handle, .ok summary) => (request, .ok ⟨handle.controller, summary⟩)
  | (request, handle, .error source) => (request, .error ⟨handle, source⟩)

def discard (handle : UncommittedHandle M) : ControlHandle := handle.controller

end UncommittedHandle

/-- The handle that the caller has; `closed` when an error has consumed it. -/
inductive Client (M : Type) where
  | connected
  | uncommitted (handle : UncommittedHandle M)
  | control (handle : ControlHandle)
  | closed

def Client.afterHandshake : Except ClientError (DaemonSession M) → Client M
  | .ok (.ready handle) => control handle
  | .ok (.uncommitted handle) => uncommitted handle
  | .error _ => closed

def Client.afterCommit : Except (CommitError M) Committed → Client M
  | .ok committed => control committed.control
  | .error error => uncommitted error.handle

inductive Exchange (M : Type) where
  | handshake (request : HandshakeRequest M) (reply : Reply HandshakeResponse)
  | commit (request : CommitRequest M) (reply : Reply CommitResponse)
  | up (request : UpRequest) (reply : Reply (Option String))

inductive SessionAction (M : Type) where
  | handshake (workspaceId : String) (manifest : M) (reply : Reply HandshakeResponse)
  | commit (reply : Reply CommitResponse)
  | discard
  | recheck (manifest : M) (reply : Reply HandshakeResponse)
  | up (services : List String) (prune : Bool) (reply : Reply (Option String))

structure ClientSession (M : Type) where
  client : Client M
  exchanges : List (Exchange M)

namespace Exchange

def revision? : Exchange M → Option String
  | handshake _ (.ok response) => some response.revision
  | commit _ (.ok response) => some response.revision
  | handshake _ (.error _) | commit _ (.error _) | up _ _ => none

def handshakeWorkspace? : Exchange M → Option String
  | handshake request _ => some request.workspaceId
  | commit _ _ | up _ _ => none

def handshakeManifest? : Exchange M → Option M
  | handshake request _ => request.manifest
  | commit _ _ | up _ _ => none

end Exchange

def lastRevision (exchanges : List (Exchange M)) : Option String :=
  (exchanges.filterMap Exchange.revision?).getLast?

def firstWorkspace (exchanges : List (Exchange M)) : Option String :=
  (exchanges.filterMap Exchange.handshakeWorkspace?).head?

def lastManifest (exchanges : List (Exchange M)) : Option M :=
  (exchanges.filterMap Exchange.handshakeManifest?).getLast?

/-- The request carries what the exchanges before it say. -/
def Exchange.Follows (before : List (Exchange M)) : Exchange M → Prop
  | handshake request _ =>
    firstWorkspace before = none ∨ firstWorkspace before = some request.workspaceId
  | commit request _ =>
    lastRevision before = some request.expectedRevision ∧
      firstWorkspace before = some request.workspaceId ∧
      ∃ manifest, request.manifest = some manifest ∧ lastManifest before = some manifest
  | up request _ =>
    lastRevision before = some request.expectedRevision ∧
      firstWorkspace before = some request.workspaceId

def Tracked (exchanges : List (Exchange M)) : Prop :=
  ∀ before exchange after, exchanges = before ++ exchange :: after → exchange.Follows before

namespace ClientSession

def start : ClientSession M := ⟨.connected, []⟩

def sent (s : ClientSession M) (client : Client M) (exchange : Exchange M) : ClientSession M :=
  ⟨client, s.exchanges ++ [exchange]⟩

def step (s : ClientSession M) (action : SessionAction M) : Option (ClientSession M) :=
  match s.client, action with
  | .connected, .handshake workspaceId manifest reply =>
    let (request, result) := ConnectedHandle.handshake workspaceId manifest reply
    some (s.sent (.afterHandshake result) (.handshake request reply))
  | .uncommitted handle, .commit reply =>
    let (request, result) := handle.commit reply
    some (s.sent (.afterCommit result) (.commit request reply))
  | .uncommitted handle, .discard => some { s with client := .control handle.discard }
  | .control handle, .recheck manifest reply =>
    let (request, result) := handle.recheck manifest reply
    some (s.sent (.afterHandshake result) (.handshake request reply))
  | .control handle, .up services prune reply =>
    let (request, _) := handle.up services prune reply
    some (s.sent (.control handle) (.up request reply))
  | _, _ => none

end ClientSession

section Traces

variable {exchanges : List (Exchange M)} {e : Exchange M}

theorem lastRevision_concat :
    lastRevision (exchanges ++ [e]) = e.revision?.or (lastRevision exchanges) := by
  cases found : e.revision? <;> simp [lastRevision, found]

theorem lastManifest_concat :
    lastManifest (exchanges ++ [e]) = e.handshakeManifest?.or (lastManifest exchanges) := by
  cases found : e.handshakeManifest? <;> simp [lastManifest, found]

theorem firstWorkspace_concat :
    firstWorkspace (exchanges ++ [e]) = (firstWorkspace exchanges).or e.handshakeWorkspace? := by
  cases found : e.handshakeWorkspace? <;> simp [firstWorkspace, found, List.head?_append]

theorem Tracked.concat (h : Tracked exchanges) (follows : e.Follows exchanges) :
    Tracked (exchanges ++ [e]) := by
  intro before exchange after split
  obtain rfl | ⟨front, last, rfl⟩ := List.eq_nil_or_concat after
  · obtain ⟨same, single⟩ := List.append_inj' split rfl
    rw [← same, ← List.head_eq_of_cons_eq single]
    exact follows
  · rw [List.concat_eq_append, ← List.cons_append, ← List.append_assoc] at split
    exact h before exchange front (List.append_inj_left' split rfl)

end Traces

def ControlHandle.Follows (exchanges : List (Exchange M)) (handle : ControlHandle) : Prop :=
  lastRevision exchanges = some handle.expectedRevision ∧
    firstWorkspace exchanges = some handle.workspaceId

def Client.Follows (exchanges : List (Exchange M)) : Client M → Prop
  | connected => exchanges = []
  | uncommitted handle =>
    handle.controller.Follows exchanges ∧ lastManifest exchanges = some handle.toCommit
  | control handle => handle.Follows exchanges
  | closed => True

section Handles

variable {exchanges : List (Exchange M)}

theorem callRpc_ok {α : Type} {reply : Reply α} {response : α}
    (succeeded : callRpc reply = .ok response) : reply = .ok response := by
  cases reply with
  | ok answer => rw [Except.ok.inj succeeded]
  | error status =>
    simp only [callRpc] at succeeded
    split_ifs at succeeded

theorem handshake_follows {workspaceId : String} (manifest : M) (reply : Reply HandshakeResponse)
    (workspace : firstWorkspace exchanges = none ∨ firstWorkspace exchanges = some workspaceId) :
    (Client.afterHandshake (ConnectedHandle.handshake workspaceId manifest reply).2).Follows
      (exchanges ++ [.handshake ⟨workspaceId, some manifest⟩ reply]) := by
  have first : firstWorkspace (exchanges ++ [.handshake ⟨workspaceId, some manifest⟩ reply]) =
      some workspaceId := by
    rw [firstWorkspace_concat]
    obtain none | same := workspace
    · simp [none, Exchange.handshakeWorkspace?]
    · simp [same]
  have last : lastManifest (exchanges ++ [.handshake ⟨workspaceId, some manifest⟩ reply]) =
      some manifest := by
    simp [lastManifest_concat, Exchange.handshakeManifest?]
  cases answered : callRpc reply with
  | error error =>
    simp only [ConnectedHandle.handshake, answered]
    trivial
  | ok res =>
    have revision : lastRevision (exchanges ++ [.handshake ⟨workspaceId, some manifest⟩ reply]) =
        some res.revision := by
      simp [lastRevision_concat, callRpc_ok answered, Exchange.revision?]
    simp only [ConnectedHandle.handshake, answered]
    split
    · exact ⟨⟨revision, first⟩, last⟩
    · exact ⟨⟨revision, first⟩, last⟩
    · exact ⟨revision, first⟩
    · trivial
    · trivial

theorem commit_error {handle : UncommittedHandle M} {reply : Reply CommitResponse}
    {error : CommitError M} (failed : (handle.commit reply).2 = .error error) :
    error.handle = handle := by
  cases answered : callRpc reply with
  | ok res => simp [UncommittedHandle.commit, UncommittedHandle.innerCommit, answered] at failed
  | error source =>
    simp only [UncommittedHandle.commit, UncommittedHandle.innerCommit, answered] at failed
    rw [← Except.error.inj failed]

theorem commit_request (handle : UncommittedHandle M) (reply : Reply CommitResponse) :
    (handle.commit reply).1 =
      ⟨handle.controller.workspaceId, some handle.toCommit,
        handle.controller.expectedRevision⟩ := by
  cases answered : callRpc reply <;>
    simp [UncommittedHandle.commit, UncommittedHandle.innerCommit, answered]

theorem commit_follows {handle : UncommittedHandle M} (reply : Reply CommitResponse)
    (inv : (Client.uncommitted handle).Follows exchanges) :
    (Client.afterCommit (handle.commit reply).2).Follows
      (exchanges ++ [.commit (handle.commit reply).1 reply]) := by
  have first : ∀ request : CommitRequest M,
      firstWorkspace (exchanges ++ [.commit request reply]) = firstWorkspace exchanges := by
    intro request
    simp [firstWorkspace_concat, Exchange.handshakeWorkspace?]
  have last : ∀ request : CommitRequest M,
      lastManifest (exchanges ++ [.commit request reply]) = lastManifest exchanges := by
    intro request
    simp [lastManifest_concat, Exchange.handshakeManifest?]
  obtain ⟨⟨revision, workspace⟩, manifest⟩ := inv
  cases answered : reply with
  | ok res =>
    simp only [UncommittedHandle.commit, UncommittedHandle.innerCommit, callRpc]
    refine ⟨?_, ?_⟩
    · simp [lastRevision_concat, Exchange.revision?, ControlHandle.setRevision]
    · rw [← answered, first, workspace]
      rfl
  | error status =>
    cases returned : (handle.commit (.error status)).2 with
    | ok committed =>
      simp only [UncommittedHandle.commit, UncommittedHandle.innerCommit, callRpc] at returned
      split_ifs at returned
    | error error =>
      rw [← answered, Client.afterCommit, commit_error returned]
      refine ⟨⟨?_, ?_⟩, ?_⟩
      · rw [lastRevision_concat, answered]
        exact revision
      · rw [first, workspace]
      · rw [last, manifest]

end Handles

namespace ClientSession

variable {s next : ClientSession M}

structure Inv (s : ClientSession M) : Prop where
  client : s.client.Follows s.exchanges
  tracked : Tracked s.exchanges

theorem start_inv : (start : ClientSession M).Inv :=
  ⟨rfl, fun before exchange after split => absurd split (by simp [start])⟩

theorem step_inv {action : SessionAction M} (inv : s.Inv) (taken : s.step action = some next) :
    next.Inv := by
  obtain ⟨client, exchanges⟩ := s
  obtain ⟨follows, tracked⟩ := inv
  simp only [step] at taken
  split at taken
  · rename_i workspaceId manifest reply
    have unused : exchanges = [] := follows
    have fresh : firstWorkspace exchanges = none := by
      rw [unused]
      rfl
    rw [← Option.some.inj taken]
    exact ⟨handshake_follows manifest reply (.inl fresh), tracked.concat (.inl fresh)⟩
  · rename_i handle reply
    rw [← Option.some.inj taken]
    refine ⟨commit_follows reply follows, tracked.concat ?_⟩
    rw [commit_request]
    exact ⟨follows.1.1, follows.1.2, _, rfl, follows.2⟩
  · rw [← Option.some.inj taken]
    exact ⟨follows.1, tracked⟩
  · rename_i handle manifest reply
    rw [← Option.some.inj taken]
    exact ⟨handshake_follows manifest reply (.inr follows.2), tracked.concat (.inr follows.2)⟩
  · rename_i handle services prune reply
    rw [← Option.some.inj taken]
    refine ⟨⟨?_, ?_⟩, tracked.concat follows⟩
    · rw [sent, lastRevision_concat]
      exact follows.1
    · rw [sent, firstWorkspace_concat, follows.2]
      rfl
  · cases taken

end ClientSession

open ClientSession

/-- Every commit and every `up` carries the revision of the last successful handshake
or commit and the workspace of the first handshake, every commit carries the manifest
of the last handshake, and a failed commit gives back the handle as it was. -/
theorem requests_carry_last_revision (actions : List (SessionAction M)) {s : ClientSession M}
    (reached : run step start actions = some s) :
    Tracked s.exchanges ∧
      ∀ (handle : UncommittedHandle M) (reply : Reply CommitResponse) (error : CommitError M),
        (handle.commit reply).2 = .error error → error.handle = handle := by
  have inv := run_invariant Inv (fun _ _ _ => step_inv) start_inv reached
  exact ⟨inv.tracked, fun _ _ _ failed => commit_error failed⟩

def committedOnRetry : List (SessionAction String) :=
  [.handshake "ws" "a" (.ok ⟨2, "r1"⟩), .commit (.error ⟨.unavailable, "down"⟩),
    .commit (.ok ⟨"r2", ["db"], [], []⟩), .up [] false (.ok (some "t1")),
    .recheck "b" (.ok ⟨1, "r3"⟩), .up ["db"] true (.error ⟨.aborted, "revision"⟩)]

theorem requests_carry_last_revision_committedOnRetry :
    ∃ s, run step start committedOnRetry = some s ∧ s.exchanges.length = 6 ∧
      Tracked s.exchanges := by
  obtain ⟨s, reached, sent⟩ : ∃ s : ClientSession String,
      run step start committedOnRetry = some s ∧ s.exchanges.length = 6 := ⟨_, rfl, rfl⟩
  exact ⟨s, reached, sent, (requests_carry_last_revision committedOnRetry reached).1⟩

end KnotOps.Facade
