import KnotOps.Grpc.Bind

/-! Servers and clients that meet at socket paths, on Unix.
Servers bind one after another, also at the path of another one, accept what is in their
backlog and end; a client calls the connector with a path.  The socket of a path belongs to
the server that made it, but a listener that ends removes whatever is at its path. -/

namespace KnotOps.Grpc

open Machine

universe u

structure Server (C : Type u) where
  path : Path
  bufferSize : Nat
  incoming : IpcIncoming C IoError bufferSize
  /-- The connections that wait for an `accept`. -/
  backlog : List C
  /-- The connections made to it so far. -/
  made : List C
  crashed : Bool

structure Transport (C : Type u) where
  fs : FileSystem
  /-- Who has made the socket of a path. -/
  owner : Path → Option Nat
  servers : List (Server C)

inductive TransportAction (C : Type u) where
  | bind (o : BindOutcomes) (path : Path) (bufferSize : Nat)
  | call (path : Path) (c : C) (refused : Option IoError)
  | server (n : Nat) (a : IpcIncoming.Action C IoError)
  | crash (n : Nat)
  | remove (path : Path)

namespace Server

variable {C : Type u} [DecidableEq C]

omit [DecidableEq C] in
def listening (s : Server C) : Bool :=
  match s.incoming.task with
  | .select | .send _ => !s.crashed
  | .finished => false

def connected (s : Server C) (c : C) : Server C :=
  { s with backlog := s.backlog ++ [c], made := s.made ++ [c] }

/-- A step of the acceptor or of its stream; what is accepted comes from the backlog. -/
def advance (s : Server C) (a : IpcIncoming.Action C IoError) : Option (Server C) :=
  if s.crashed then none
  else
    match a with
    | .accept (.ok c) =>
      if s.backlog.head? = some c then
        (s.incoming.step a).map fun incoming => { s with incoming, backlog := s.backlog.tail }
      else none
    | .accept (.error _) | .closed | .send | .poll | .drop | .aborted =>
      (s.incoming.step a).map fun incoming => { s with incoming }

def Ends (s : Server C) (a : IpcIncoming.Action C IoError) : Prop :=
  s.listening = true ∧ ∃ next ∈ s.advance a, next.listening = false

instance (s : Server C) : DecidablePred s.Ends := fun a =>
  inferInstanceAs (Decidable (_ ∧ ∃ next ∈ s.advance a, _))

end Server

namespace Transport

variable {C : Type u} [DecidableEq C]

def start (fs : FileSystem) : Transport C := ⟨fs, fun _ => none, []⟩

def listens (s : Transport C) (n : Nat) : Bool := s.servers[n]?.any Server.listening

def listenerAt (s : Transport C) (path : Path) : Option Nat :=
  if s.fs path = some .socket then (s.owner path).filter s.listens else none

/-- `IpcConnector::call`. -/
def call (p : Platform) (s : Transport C) (refused : Option IoError) (path : Path) :
    Except IoError Nat :=
  match resolveSocketName p path with
  | .error e => .error e
  -- no pipes on Unix
  | .ok (.nsName _) => .error (.os "NotFound")
  | .ok (.fsName path) =>
    match s.listenerAt path, refused with
    | some n, none => .ok n
    | some _, some e => .error e
    | none, _ => .error (.os "ConnectionRefused")

def setServer (s : Transport C) (n : Nat) (server : Server C) : Transport C :=
  { s with servers := s.servers.set n server }

/-- A step of a server; the end of its task drops the listener. -/
def advance (p : Platform) (s : Transport C) (n : Nat) (a : IpcIncoming.Action C IoError) :
    Option (Transport C) :=
  match s.servers[n]? with
  | none => none
  | some server =>
    (server.advance a).map fun next =>
      { s.setServer n next with
        fs := if server.Ends a then p.dropListener (.fsName server.path) s.fs else s.fs }

def step (p : Platform) (s : Transport C) : TransportAction C → Option (Transport C)
  | .bind o path bufferSize =>
    match bind p o path bufferSize s.fs with
    | (some (.ok incoming), fs) =>
      some {
        fs
        owner := Function.update s.owner path (some s.servers.length)
        servers := s.servers ++ [⟨path, bufferSize, incoming, [], [], false⟩] }
    | (some (.error _), fs) | (none, fs) => some { s with fs }
  | .call path c refused =>
    match s.call p refused path with
    | .ok n => s.servers[n]?.map fun server => s.setServer n (server.connected c)
    | .error _ => some s
  | .server n a => s.advance p n a
  | .crash n => s.servers[n]?.map fun server => s.setServer n { server with crashed := true }
  | .remove path => some { s with fs := Function.update s.fs path none }

end Transport

section Bind

variable {C : Type u} {p : Platform} {o : BindOutcomes} {path q : Path} {fs : FileSystem}

theorem resolveSocketName_unix (unix : p.target = .unix) {name : Name}
    (resolved : resolveSocketName p path = .ok name) : name = .fsName path := by
  unfold resolveSocketName at resolved
  split_ifs at resolved
  rw [unix] at resolved
  dsimp only at resolved
  split at resolved
  · cases resolved
  · exact (Except.ok.inj resolved).symm

theorem removeExisting_elsewhere (other : q ≠ path) : removeExisting o path fs q = fs q := by
  by_cases removed : Removed o path fs
  · rw [removeExisting, removeFile_of_removed removed]
    exact Function.update_of_ne other none fs
  · rw [removeExisting_of_not_removed removed]

theorem createTokio_fsName {refused : Option IoError}
    (created : (p.createTokio refused (.fsName path) fs).1 = .ok ()) :
    fs path = none ∧ (p.createTokio refused (.fsName path) fs).2 =
      Function.update fs path (some .socket) := by
  refine ⟨?_, p.created refused path fs created⟩
  by_contra taken
  obtain ⟨e, failed⟩ := p.taken refused path fs (Option.isSome_iff_ne_none.mpr taken)
  rw [failed] at created
  cases created

/-- On Unix a successful `bind` has a free path to put its socket at, and any other has at
most removed what was there. -/
theorem bind_unix (unix : p.target = .unix) (o : BindOutcomes) (path : Path) (fs : FileSystem)
    (bufferSize : Nat) :
    (∃ positive : 0 < bufferSize, resolveSocketName p path = .ok (.fsName path) ∧
      removeExisting o path fs path = none ∧
      bind (C := C) p o path bufferSize fs =
        (some (.ok (.new positive)),
          Function.update (removeExisting o path fs) path (some .socket))) ∨
    (∃ result, (∀ incoming, result ≠ some (.ok incoming)) ∧
      bind (C := C) p o path bufferSize fs = (result, removeExisting o path fs)) := by
  cases resolved : resolveSocketName p path with
  | error e => exact .inr ⟨some (.error e), by simp, bind_of_noListener (.inl resolved) bufferSize⟩
  | ok name =>
    obtain rfl := resolveSocketName_unix unix resolved
    cases created : (p.createTokio o.createTokio (.fsName path) (removeExisting o path fs)).1 with
    | error e =>
      have failed : NoListener p o path fs e := .inr ⟨.fsName path, resolved, created⟩
      exact .inr ⟨some (.error e), by simp, bind_of_noListener failed bufferSize⟩
    | ok _ =>
      obtain ⟨free, placed⟩ := createTokio_fsName created
      have outcome : p.createTokio o.createTokio (.fsName path) (removeExisting o path fs) =
          (.ok (), Function.update (removeExisting o path fs) path (some .socket)) :=
        Prod.ext created placed
      have dropped : p.dropListener (.fsName path)
          (Function.update (removeExisting o path fs) path (some .socket)) =
            removeExisting o path fs := by
        rw [p.dropped, Function.update_idem, ← free, Function.update_eq_self]
      cases permissions : o.setPermissions with
      | some e =>
        refine .inr ⟨some (.error e), by simp, ?_⟩
        simp only [bind, resolved, outcome, unix, permissions, dropped]
      | none =>
        by_cases positive : 0 < bufferSize
        · refine .inl ⟨positive, rfl, free, ?_⟩
          simp only [bind, resolved, outcome, unix, permissions, dif_pos positive]
        · refine .inr ⟨none, by simp, ?_⟩
          simp only [bind, resolved, outcome, unix, permissions, dif_neg positive, dropped]

end Bind

namespace Server

variable {C : Type u} [DecidableEq C] {s next : Server C} {a : IpcIncoming.Action C IoError}

def Takes (s : Server C) : IpcIncoming.Action C IoError → List C → Prop
  | .accept (.ok c), rest => s.backlog = c :: rest
  | .accept (.error _), rest | .closed, rest | .send, rest | .poll, rest | .drop, rest
  | .aborted, rest => rest = s.backlog

theorem advance_cases (taken : s.advance a = some next) :
    s.crashed = false ∧ ∃ incoming rest, s.incoming.step a = some incoming ∧ s.Takes a rest ∧
      next = { s with incoming, backlog := rest } := by
  unfold advance at taken
  split_ifs at taken with crashed
  refine ⟨by simpa using crashed, ?_⟩
  cases a with
  | accept connRes =>
    cases connRes with
    | ok c =>
      dsimp only at taken
      split_ifs at taken with first
      obtain ⟨incoming, stepped, rfl⟩ := Option.map_eq_some_iff.mp taken
      obtain ⟨rest, waiting⟩ := List.head?_eq_some_iff.mp first
      exact ⟨incoming, rest, stepped, waiting, by rw [waiting, List.tail_cons]⟩
    | error e =>
      obtain ⟨incoming, stepped, rfl⟩ := Option.map_eq_some_iff.mp taken
      exact ⟨incoming, s.backlog, stepped, rfl, rfl⟩
  | closed | send | poll | drop | aborted =>
    obtain ⟨incoming, stepped, rfl⟩ := Option.map_eq_some_iff.mp taken
    exact ⟨incoming, s.backlog, stepped, rfl, rfl⟩

omit [DecidableEq C] in
theorem listening_eq_true :
    s.listening = true ↔ s.crashed = false ∧ s.incoming.task ≠ .finished := by
  unfold listening
  split <;> simp_all

theorem listening_advance (taken : s.advance a = some next) :
    next.listening = true ↔ s.listening = true ∧ ¬s.Ends a := by
  obtain ⟨alive, incoming, rest, stepped, -, same⟩ := advance_cases taken
  constructor
  · intro listens
    have goes_on : incoming.task ≠ .finished := by
      rw [same] at listens
      exact (listening_eq_true.mp listens).2
    refine ⟨listening_eq_true.mpr ⟨alive, fun ended => ?_⟩, fun ⟨_, other, found, stopped⟩ => ?_⟩
    · exact goes_on (IpcIncoming.finished_step ended stepped)
    · obtain rfl := Option.some.inj (taken.symm.trans found)
      rw [listens] at stopped
      cases stopped
  · rintro ⟨listens, goes_on⟩
    by_contra stopped
    exact goes_on ⟨listens, next, taken, by simpa using stopped⟩

inductive Move (s : Server C) : Server C → Prop
  | connected (c : C) : Move s (s.connected c)
  | advanced {a : IpcIncoming.Action C IoError} {next : Server C}
      (taken : s.advance a = some next) : Move s next
  | crashed : Move s { s with crashed := true }

theorem Move.path (moved : s.Move next) : next.path = s.path := by
  cases moved with
  | connected | crashed => rfl
  | advanced taken =>
    obtain ⟨-, incoming, rest, -, -, rfl⟩ := advance_cases taken
    rfl

end Server

namespace Transport

variable {C : Type u} [DecidableEq C] {p : Platform} {s next : Transport C} {path : Path}
  {n k : Nat}

/-- The step leaves the server at the path alone. -/
def Spares (path : Path) (n : Nat) (s : Transport C) : TransportAction C → Prop
  | .bind o other _ => other = path → ¬Removed o path s.fs
  | .call _ _ _ => True
  | .server k a => ∀ server ∈ s.servers[k]?, server.path = path → ¬server.Ends a
  | .crash k => k ≠ n
  | .remove other => other ≠ path

def Owned (s : Transport C) : Prop :=
  ∀ path k, s.owner path = some k → ∃ server, s.servers[k]? = some server ∧ server.path = path

structure Inv (n : Nat) (s : Transport C) : Prop where
  known : n < s.servers.length
  owned : s.Owned

omit [DecidableEq C] in
theorem listenerAt_eq_some : s.listenerAt path = some n ↔
    s.fs path = some .socket ∧ s.owner path = some n ∧ s.listens n = true := by
  unfold listenerAt
  split_ifs with socket
  · simp [socket, Option.filter_eq_some_iff]
  · simp [socket]

omit [DecidableEq C] in
theorem listens_of_held {server : Server C} (held : s.servers[n]? = some server) :
    s.listens n = server.listening := by
  simp [listens, held]

omit [DecidableEq C] in
theorem listens_setServer_self {server : Server C} (known : k < s.servers.length) :
    (s.setServer k server).listens k = server.listening := by
  simp [listens, setServer, known]

omit [DecidableEq C] in
theorem listens_setServer_other {server : Server C} (other : n ≠ k) :
    (s.setServer k server).listens n = s.listens n := by
  simp [listens, setServer, Ne.symm other]

def bound (s : Transport C) (path : Path) (bufferSize : Nat) (positive : 0 < bufferSize)
    (fs : FileSystem) : Transport C where
  fs := Function.update fs path (some .socket)
  owner := Function.update s.owner path (some s.servers.length)
  servers := s.servers ++ [⟨path, bufferSize, .new positive, [], [], false⟩]

theorem step_bind (unix : p.target = .unix) {o : BindOutcomes} {bufferSize : Nat}
    (taken : s.step p (.bind o path bufferSize) = some next) :
    (∃ positive, resolveSocketName p path = .ok (.fsName path) ∧
      removeExisting o path s.fs path = none ∧
      next = s.bound path bufferSize positive (removeExisting o path s.fs)) ∨
    next = { s with fs := removeExisting o path s.fs } := by
  simp only [step] at taken
  obtain ⟨positive, resolved, free, bound⟩ | ⟨result, failed, bound⟩ :=
    bind_unix (C := C) unix o path s.fs bufferSize
  · rw [bound] at taken
    exact .inl ⟨positive, resolved, free, (Option.some.inj taken).symm⟩
  · rw [bound] at taken
    right
    cases result with
    | none => exact (Option.some.inj taken).symm
    | some result =>
      cases result with
      | ok incoming => exact absurd rfl (failed incoming)
      | error e => exact (Option.some.inj taken).symm

omit [DecidableEq C] in
theorem listens_bound {bufferSize : Nat} {positive : 0 < bufferSize} {fs : FileSystem}
    (known : n < s.servers.length) :
    (s.bound path bufferSize positive fs).listens n = s.listens n := by
  simp [listens, bound, List.getElem?_append_left known]

theorem exact_bind (unix : p.target = .unix) (inv : s.Inv n) {o : BindOutcomes} {other : Path}
    {bufferSize : Nat} (taken : s.step p (.bind o other bufferSize) = some next) :
    next.listenerAt path = some n ↔
      s.listenerAt path = some n ∧ s.Spares path n (.bind o other bufferSize) := by
  simp only [listenerAt_eq_some, Spares]
  obtain ⟨positive, -, free, rfl⟩ | rfl := step_bind unix taken
  · rw [listens_bound inv.known]
    by_cases here : other = path
    · subst here
      constructor
      · rintro ⟨-, owner, -⟩
        have newest : s.servers.length = n := by simpa [bound] using owner
        exact absurd newest (Nat.ne_of_gt inv.known)
      · rintro ⟨⟨socket, -⟩, kept⟩
        rw [removeExisting_of_not_removed (kept rfl), socket] at free
        cases free
    · have apart : path ≠ other := Ne.symm here
      simp [bound, Function.update_of_ne apart, removeExisting_elsewhere apart, here]
  · have listens_same (fs : FileSystem) : { s with fs }.listens n = s.listens n := rfl
    by_cases here : other = path
    · subst here
      by_cases removed : Removed o other s.fs
      · simp [removeExisting_of_removed removed, removed]
      · simp [removeExisting_of_not_removed removed, removed]
    · simp [removeExisting_elsewhere (Ne.symm here), listens_same, here]

theorem exact_advance (inv : s.Inv n) {a : IpcIncoming.Action C IoError}
    (taken : s.advance p k a = some next) :
    next.listenerAt path = some n ↔
      s.listenerAt path = some n ∧ s.Spares path n (.server k a) := by
  unfold advance at taken
  cases held : s.servers[k]? with
  | none => simp [held] at taken
  | some server =>
    simp only [held, Option.map_eq_some_iff] at taken
    obtain ⟨after, stepped, rfl⟩ := taken
    have listens_on := Server.listening_advance stepped
    have inside : k < s.servers.length := (List.getElem?_eq_some_iff.mp held).1
    simp only [listenerAt_eq_some, Spares, held, Option.mem_some_iff, forall_eq']
    have listens_same (fs : FileSystem) :
        ({ s.setServer k after with fs } : Transport C).listens n =
          (s.setServer k after).listens n := rfl
    rw [listens_same]
    by_cases ends : server.Ends a
    · by_cases at_path : server.path = path
      · -- the listener that ends takes the socket with it, whoever has made that
        simp [ends, at_path, p.dropped]
      · have fs_same : p.dropListener (.fsName server.path) s.fs path = s.fs path := by
          rw [p.dropped, Function.update_of_ne (Ne.symm at_path)]
        have not_owner (owner : s.owner path = some n) : k ≠ n := by
          rintro rfl
          obtain ⟨same, found, here⟩ := inv.owned path k owner
          obtain rfl := Option.some.inj (held.symm.trans found)
          exact at_path here
        simp only [if_pos ends, fs_same, at_path, false_imp_iff, and_true]
        refine and_congr_right fun _ => and_congr_right fun owner => ?_
        rw [listens_setServer_other (Ne.symm (not_owner owner))]
    · have same : (s.setServer k after).listens n = s.listens n := by
        by_cases here : n = k
        · subst here
          rw [listens_setServer_self inside, listens_of_held held, Bool.eq_iff_iff, listens_on]
          simp [ends]
        · exact listens_setServer_other here
      simp only [same, ends, not_false_eq_true, implies_true, and_true]
      rfl

omit [DecidableEq C] in
theorem exact_crash {server : Server C} (held : s.servers[k]? = some server) :
    (s.setServer k { server with crashed := true }).listenerAt path = some n ↔
      s.listenerAt path = some n ∧ k ≠ n := by
  have inside : k < s.servers.length := (List.getElem?_eq_some_iff.mp held).1
  have dead : ({ server with crashed := true } : Server C).listening = false := by
    unfold Server.listening
    split <;> rfl
  simp only [listenerAt_eq_some]
  by_cases here : k = n
  · subst here
    simp [listens_setServer_self inside, dead]
  · rw [listens_setServer_other (Ne.symm here)]
    simp [here, setServer]

theorem exact_step (unix : p.target = .unix) (inv : s.Inv n) {a : TransportAction C}
    (taken : s.step p a = some next) :
    next.listenerAt path = some n ↔ s.listenerAt path = some n ∧ s.Spares path n a := by
  cases a with
  | bind o other bufferSize => exact exact_bind unix inv taken
  | call other c refused =>
    simp only [step] at taken
    split at taken
    · next k reached =>
      obtain ⟨server, held, rfl⟩ := Option.map_eq_some_iff.mp taken
      have inside : k < s.servers.length := (List.getElem?_eq_some_iff.mp held).1
      have same : (s.setServer k (server.connected c)).listens n = s.listens n := by
        by_cases here : n = k
        · subst here
          rw [listens_setServer_self inside, listens_of_held held]
          rfl
        · exact listens_setServer_other here
      simp only [listenerAt_eq_some, same, Spares, and_true]
      rfl
    · rw [← Option.some.inj taken]
      simp [Spares]
  | server k a => exact exact_advance inv taken
  | crash k =>
    obtain ⟨server, held, rfl⟩ := Option.map_eq_some_iff.mp taken
    exact exact_crash held
  | remove other =>
    rw [← Option.some.inj taken]
    simp only [listenerAt_eq_some, Spares]
    by_cases here : other = path
    · subst here
      simp
    · simp only [Function.update_of_ne (Ne.symm here), here, ne_eq, not_false_eq_true, and_true]
      rfl

omit [DecidableEq C] in
theorem Owned.setServer (owned : s.Owned) {server later : Server C}
    (held : s.servers[k]? = some server) (same : later.path = server.path) :
    (s.setServer k later).Owned := by
  intro path m owner
  obtain ⟨found, there, at_path⟩ := owned path m owner
  by_cases here : m = k
  · subst here
    obtain rfl := Option.some.inj (held.symm.trans there)
    have inside := (List.getElem?_eq_some_iff.mp held).1
    exact ⟨later, by simp [Transport.setServer, inside], same.trans at_path⟩
  · exact ⟨found, by simpa [Transport.setServer, Ne.symm here] using there, at_path⟩

omit [DecidableEq C] in
theorem Owned.bound (owned : s.Owned) {bufferSize : Nat} {positive : 0 < bufferSize}
    {fs : FileSystem} : (s.bound path bufferSize positive fs).Owned := by
  intro other k owner
  by_cases here : other = path
  · subst here
    have newest : s.servers.length = k := by simpa [Transport.bound] using owner
    subst newest
    exact ⟨⟨other, bufferSize, .new positive, [], [], false⟩, by simp [Transport.bound], rfl⟩
  · have old : s.owner other = some k := by simpa [Transport.bound, here] using owner
    obtain ⟨server, held, at_path⟩ := owned other k old
    have inside := (List.getElem?_eq_some_iff.mp held).1
    refine ⟨server, ?_, at_path⟩
    simpa [Transport.bound, List.getElem?_append_left inside] using held

inductive Move (s : Transport C) : Transport C → Prop
  | bound (path : Path) {bufferSize : Nat} (positive : 0 < bufferSize) (fs : FileSystem) :
      Move s (s.bound path bufferSize positive fs)
  | server {i : Nat} {server later : Server C} (held : s.servers[i]? = some server)
      (moved : server.Move later) (fs : FileSystem) : Move s { s.setServer i later with fs }
  | files (fs : FileSystem) : Move s { s with fs }

theorem step_move (unix : p.target = .unix) {a : TransportAction C}
    (taken : s.step p a = some next) : s.Move next := by
  cases a with
  | bind o path bufferSize =>
    obtain ⟨positive, -, -, rfl⟩ | rfl := step_bind unix taken
    · exact .bound path positive _
    · exact .files _
  | call path c refused =>
    simp only [step] at taken
    split at taken
    · obtain ⟨server, held, rfl⟩ := Option.map_eq_some_iff.mp taken
      exact .server held (.connected c) s.fs
    · rw [← Option.some.inj taken]
      exact .files s.fs
  | server k a =>
    simp only [step, advance] at taken
    split at taken
    · cases taken
    · next server held =>
      obtain ⟨later, stepped, rfl⟩ := Option.map_eq_some_iff.mp taken
      exact .server held (.advanced stepped) _
  | crash k =>
    obtain ⟨server, held, rfl⟩ := Option.map_eq_some_iff.mp taken
    exact .server held .crashed s.fs
  | remove path => exact Option.some.inj taken ▸ .files _

theorem Inv.step (inv : s.Inv n) (moved : s.Move next) : next.Inv n := by
  cases moved with
  | bound path positive fs =>
    exact ⟨by simpa [Transport.bound] using Nat.lt_succ_of_lt inv.known, inv.owned.bound⟩
  | server held moved fs =>
    exact ⟨by simpa [Transport.setServer] using inv.known, inv.owned.setServer held moved.path⟩
  | files fs => exact ⟨inv.known, inv.owned⟩

theorem Owned.step (owned : s.Owned) (moved : s.Move next) : next.Owned := by
  cases moved with
  | bound path positive fs => exact owned.bound
  | server held moved fs => exact owned.setServer held moved.path
  | files fs => exact owned

omit [DecidableEq C] in
theorem start_owned (fs : FileSystem) : (start fs : Transport C).Owned := nofun

omit [DecidableEq C] in
theorem call_eq_ok (unix : p.target = .unix) :
    s.call p none path = .ok n ↔
      resolveSocketName p path = .ok (.fsName path) ∧ s.listenerAt path = some n := by
  unfold call
  cases resolved : resolveSocketName p path with
  | error e => simp
  | ok name =>
    obtain rfl := resolveSocketName_unix unix resolved
    cases reached : s.listenerAt path <;> simp [reached]

/-- The server that has bound to a path is reached there exactly as long as nobody removes
its socket: it must not stop, nobody may bind to the path again, and no listener of the path
may end, its own or one that was there before it. -/
theorem newest_server_reached_iff (unix : p.target = .unix) {fs : FileSystem}
    {before after : List (TransportAction C)} {s bound t : Transport C} {o : BindOutcomes}
    {bufferSize : Nat} (started : run (step p) (start fs) before = some s)
    (binds : s.step p (.bind o path bufferSize) = some bound)
    (served : s.servers.length < bound.servers.length)
    (went : run (step p) bound after = some t) :
    t.call p none path = .ok s.servers.length ↔
      Guarded (Spares path s.servers.length) (step p) bound after := by
  have owned : s.Owned := run_invariant Owned
    (fun _ _ _ owned taken => owned.step (step_move unix taken)) (start_owned fs) started
  obtain ⟨positive, resolved, -, rfl⟩ | rfl := step_bind unix binds
  · have inv : (s.bound path bufferSize positive (removeExisting o path s.fs)).Inv
        s.servers.length := ⟨served, owned.bound⟩
    have newest : (s.bound path bufferSize positive (removeExisting o path s.fs)).listenerAt path =
        some s.servers.length := by
      rw [listenerAt_eq_some]
      refine ⟨Function.update_self .., Function.update_self .., ?_⟩
      simp [listens, Transport.bound, Server.listening, IpcIncoming.new]
    rw [call_eq_ok unix, run_guarded_iff (Inv s.servers.length)
      (fun t : Transport C => t.listenerAt path = some s.servers.length)
      (fun _ _ _ inv taken => inv.step (step_move unix taken))
      (fun _ _ _ inv taken => exact_step unix inv taken) inv went]
    simp [resolved, newest]
  · exact absurd served (Nat.lt_irrefl _)

def rebindsAfterDrop : List (TransportAction Nat) :=
  [.bind ⟨none, none, none⟩ [0x61] 64, .server 0 .drop, .bind ⟨none, none, none⟩ [0x61] 64,
    .server 0 .aborted]

theorem newest_server_reached_iff_rebindsAfterDrop :
    ∃ t, run (step unixPlatform) (start fun _ => none) rebindsAfterDrop = some t ∧
      t.call unixPlatform none [0x61] ≠ .ok 1 := by
  have went : run (step unixPlatform) (start fun _ => none) rebindsAfterDrop = some _ := rfl
  have started : run (step unixPlatform) (start fun _ => none) (rebindsAfterDrop.take 2) =
      some _ := rfl
  refine ⟨_, went, fun answered => ?_⟩
  have spared := (newest_server_reached_iff rfl started
    (show step unixPlatform _ (.bind ⟨none, none, none⟩ [0x61] 64) = some _ from rfl) (by decide)
    (show run (step unixPlatform) _ [.server 0 .aborted] = some _ from rfl)).mp answered
  exact spared.1 _ rfl rfl ⟨rfl, _, rfl, rfl⟩

end Transport

end KnotOps.Grpc
