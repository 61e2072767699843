import KnotOps.Facade.Recognition
import KnotOps.Sys.Wait

/-! A daemon that lives among its clients.
Any number of clients connect, kill what they find hung and clean what they find stale,
one access at a time, on one runtime directory and one operating system.  A file is only
ever removed once the daemon whose PID the lock file held has exited. -/

namespace KnotOps.Facade

open Machine
open KnotOps.Sys (Os OsAction ProcessMetadata ProcessError Handle Backend Call
  processNamesMatch extract pollReadableNow)

/-- `StaleHandle::clean` after its look for a socket. -/
inductive CleanPhase where
  | removeSocket
  | removeLock
  | returned (ok : Bool)
deriving DecidableEq, Repr

structure Clients (ι : Type) where
  os : Os
  lock : Option (Option String)
  socket : Bool
  client : ι → Inspection
  cleaning : ι → Option CleanPhase
  /-- The processes at each removal of a file. -/
  removals : List Os

inductive ClientAction (ι : Type) where
  | os (a : OsAction)
  | files (lock : Option (Option String)) (socket : Bool)
  | connect (i : ι) (ok : Bool) (failure : Option String)
  | kill (i : ι) (failure : Option String) (waited : Except ProcessError Bool)
  | clean (i : ι) (ok : Bool)

instance : DecidablePred Confirms
  | .ok true | .error .notRunning => .isTrue trivial
  | .ok false | .error .reused | .error (.mismatch _ _) | .error (.io _) => .isFalse id

def Inspection.holdsStale (s : Inspection) : Bool :=
  match s.phase with
  | .returned (.ok .stale) | .killed (.ok _) => true
  | _ => false

namespace Clients

variable {ι : Type} [DecidableEq ι]

def inspection (s : Clients ι) (i : ι) : Inspection :=
  { s.client i with
    lock := s.lock
    socket := s.socket
    binding := { (s.client i).binding with os := s.os } }

def setClient (s : Clients ι) (i : ι) (c : Inspection) : Clients ι :=
  { s with client := Function.update s.client i c }

def setCleaning (s : Clients ι) (i : ι) (phase : CleanPhase) : Clients ι :=
  { s with cleaning := Function.update s.cleaning i (some phase) }

/-- One step of `clean`; `ok` is whether a removal ends without another error than that
the file is not found. -/
def clean (s : Clients ι) (i : ι) (ok : Bool) : Option (Clients ι) :=
  match s.cleaning i with
  | none =>
    if (s.inspection i).holdsStale then
      some (s.setCleaning i (if s.socket then .removeSocket else .removeLock))
    else none
  | some .removeSocket =>
    if ok && s.socket then
      some ({ s with socket := false, removals := s.removals ++ [s.os] }.setCleaning i .removeLock)
    else some (s.setCleaning i (.returned false))
  | some .removeLock =>
    if ok then
      if s.lock.isSome then
        some ({ s with lock := none, removals := s.removals ++ [s.os] }.setCleaning i
          (.returned true))
      else some (s.setCleaning i (.returned true))
    else some (s.setCleaning i (.returned false))
  | some (.returned _) => none

def step (backend : Backend) (handle : ι → KillHandle) (expected : String) (s : Clients ι) :
    ClientAction ι → Option (Clients ι)
  | .os a =>
    (s.os.step a).map fun os => { s with os, client := fun i => (s.inspection i).observe a os }
  | .files lock socket => some { s with lock, socket }
  | .connect i ok failure =>
    ((s.inspection i).connect backend expected ok failure).map (s.setClient i)
  | .kill i failure waited =>
    ((s.inspection i).kill (handle i) failure waited).map (s.setClient i)
  | .clean i ok => s.clean i ok

def start (os : Os) (lock : Option (Option String)) (socket : Bool) : Clients ι :=
  ⟨os, lock, socket, fun _ => .start, fun _ => none, []⟩

end Clients

def Lives (os : Os) (m : ProcessMetadata) : Prop := pollReadableNow os m.identity = false

instance (os : Os) (m : ProcessMetadata) : Decidable (Lives os m) :=
  inferInstanceAs (Decidable (_ = _))

theorem Lives.current {os : Os} {m : ProcessMetadata} (lives : Lives os m) :
    os.current m.identity.pid = some m.identity := by
  unfold Lives pollReadableNow at lives
  split at lives
  · next p held =>
    have same : p.startTime = m.identity.startTime := by
      by_contra other
      simp [other] at lives
    rw [Os.current, held, Option.map_some, same]
  · cases lives

theorem Lives.step_back {os next : Os} {m : ProcessMetadata} {a : OsAction}
    (started : m.identity ∈ os.started) (taken : os.step a = some next) (lives : Lives next m) :
    Lives os m := by
  by_contra gone
  have readable : pollReadableNow os m.identity = true := by simpa [Lives] using gone
  rw [Lives, Sys.pollReadableNow_step started readable taken] at lives
  cases lives

theorem syscall_notRunning {os : Os} {h : Handle} {checked : Bool} {failure : Option String}
    (failed : h.syscall os checked failure = .failed .notRunning) :
    os.current h.bound.pid ≠ some h.bound := by
  cases failure with
  | some kind => cases h <;> cases failed
  | none =>
    cases h with
    | linux processRef =>
      simp only [Handle.syscall, Sys.pidfdSendSignal] at failed
      split_ifs at failed with running
      exact running
    | macos fingerprint =>
      intro held
      have found : os.current fingerprint.pid = some fingerprint.identity := held
      obtain ⟨p, there, -⟩ := Option.map_eq_some_iff.mp found
      simp only [Handle.syscall] at failed
      split_ifs at failed
      · simp [Sys.killPid, found] at failed
      · simp only [Sys.ensurePidNotReused, extract, there, Option.map_some] at failed
        split_ifs at failed
        cases failed

namespace Inspection

variable {backend : Backend} {handle : KillHandle} {expected : String} {s next : Inspection}

theorem connect_frame {ok : Bool} {failure : Option String} (inv : s.Inv backend expected)
    (taken : s.connect backend expected ok failure = some next) :
    next.lock = s.lock ∧ next.socket = s.socket ∧ next.binding.os = s.binding.os := by
  have stands := inv.stands
  obtain ⟨lock, socket, binding, phase, content, delivered⟩ := s
  cases phase with
  | connect | checkSocket | dial =>
    rw [← Option.some.inj taken]
    exact ⟨rfl, rfl, rfl⟩
  | readLock =>
    simp only [Inspection.connect] at taken
    split at taken <;> rw [← Option.some.inj taken] <;> exact ⟨rfl, rfl, rfl⟩
  | bind pid =>
    simp only [Inspection.connect] at taken
    split at taken
    · rw [← Option.some.inj taken]
      exact ⟨rfl, rfl, rfl⟩
    all_goals
      obtain ⟨later, advanced, rfl⟩ := Option.map_eq_some_iff.mp taken
      exact ⟨rfl, rfl, (Sys.Binding.advance_phase inv.recorded stands.2.1 advanced).1⟩
  | returned | kill | killed => cases taken

theorem kill_frame {failure : Option String} {waited : Except ProcessError Bool}
    (taken : s.kill handle failure waited = some next) :
    next.lock = s.lock ∧ next.socket = s.socket ∧ next.binding.os = s.binding.os := by
  cases kill_move taken with
  | begins | passes | sends => exact ⟨rfl, rfl, rfl⟩
  | @waited p phase | @failed p phase =>
    obtain eq | eq := settle_cases handle s p phase _ <;> rw [eq] <;> exact ⟨rfl, rfl, rfl⟩

def awaited (s : Inspection) : Option (Sys.PlatformProcess Handle) :=
  match s.phase with
  | .kill p _ call => if call.ops = [] then some p else none
  | _ => none

/-- A wait reports the exit of its process only when that has exited. -/
def ReportsTruly (s : Inspection) (waited : Except ProcessError Bool) : Prop :=
  ∀ p ∈ s.awaited, Confirms waited → pollReadableNow s.binding.os p.handle.bound = true

instance (s : Inspection) (waited : Except ProcessError Bool) :
    Decidable (s.ReportsTruly waited) :=
  inferInstanceAs (Decidable (∀ p ∈ s.awaited, _))

def Spares (m : ProcessMetadata) (s : Inspection) : Prop :=
  match s.phase with
  | .kill p _ _ => p.metadata = m
  | .killed (.ok _) => False
  | _ => True

theorem spares_of_connecting {m : ProcessMetadata} (connects : s.connecting = true) :
    s.Spares m := by
  obtain ⟨lock, socket, binding, phase, content, delivered⟩ := s
  cases phase with
  | connect | checkSocket | dial | readLock | bind | returned => trivial
  | kill | killed => cases connects

theorem spares_settle {m : ProcessMetadata} {p : Sys.PlatformProcess Handle} {phase : KillPhase}
    {result : Except ProcessError Bool} (same : p.metadata = m) (lost : ¬Confirms result) :
    (s.settle handle p phase result).Spares m := by
  obtain eq | eq := settle_cases handle s p phase result <;> rw [eq]
  · exact same
  · cases done : handle.conclude result with
    | ok stale => exact absurd (KillHandle.conclude_ok done) lost
    | error => trivial

theorem spares_kill {m : ProcessMetadata} {failure : Option String}
    {waited : Except ProcessError Bool} (inv : s.Inv backend expected)
    (known : s.Recognises m) (spared : s.Spares m) (lives : Lives s.binding.os m)
    (truly : s.ReportsTruly waited) (taken : s.kill handle failure waited = some next) :
    next.Spares m := by
  have stands := inv.stands
  cases kill_move taken with
  | begins hung =>
    rw [Recognises, hung] at known
    obtain other | ⟨h, found⟩ := known
    · cases other
    · simp only [Except.ok.injEq, ConnectState.hung.injEq] at found
      rw [found]
      rfl
  | passes killing | sends killing =>
    rw [Spares, killing] at spared
    exact spared
  | @waited p _ _ killing done =>
    have waits : p ∈ s.awaited := by simp [awaited, killing, done]
    rw [Spares, killing] at spared
    rw [Stands, killing] at stands
    apply spares_settle spared
    intro confirmed
    have exited := truly p waits confirmed
    rw [stands.1.bound, spared, lives] at exited
    cases exited
  | failed killing ops failed =>
    rw [Spares, killing] at spared
    rw [Stands, killing] at stands
    apply spares_settle spared
    intro confirmed
    obtain rfl := confirms_error.mp confirmed
    apply syscall_notRunning failed
    rw [stands.2.2.1, stands.1.bound, spared]
    exact lives.current

end Inspection

namespace Clients

variable {ι : Type} [DecidableEq ι] {backend : Backend} {handle : ι → KillHandle}
  {expected : String} {m : ProcessMetadata} {s next : Clients ι}

/-- As long as the daemon lives it keeps its name, its lock file is left alone by everybody
but the clients, and what they read of it does not fail. -/
def Undisturbed (m : ProcessMetadata) (s : Clients ι) : ClientAction ι → Prop
  | .connect _ _ failure => Lives s.os m → extract s.os m.pid = some m ∧ failure = none
  | .kill i _ waited => (s.inspection i).ReportsTruly waited
  | .files lock _ => Lives s.os m → readAsU32 lock.join = some m.pid
  | .os _ | .clean _ _ => True

instance (s : Clients ι) : DecidablePred (s.Undisturbed m)
  | .connect _ _ _ => inferInstanceAs (Decidable (_ → _))
  | .kill _ _ _ => inferInstanceAs (Decidable (Inspection.ReportsTruly _ _))
  | .files _ _ => inferInstanceAs (Decidable (_ → _))
  | .os _ | .clean _ _ => inferInstanceAs (Decidable True)

structure Knows (backend : Backend) (expected : String) (m : ProcessMetadata) (c : Inspection) :
    Prop where
  inv : c.Inv backend expected
  recognises : Lives c.binding.os m → c.Recognises m
  spares : Lives c.binding.os m → c.Spares m

structure Kept (backend : Backend) (expected : String) (m : ProcessMetadata) (s : Clients ι) :
    Prop where
  started : m.identity ∈ s.os.started
  locked : Lives s.os m → readAsU32 s.lock.join = some m.pid
  knows : ∀ i, Knows backend expected m (s.inspection i)
  untouched : Lives s.os m → ∀ i, s.cleaning i = none
  removals : ∀ os ∈ s.removals, ¬Lives os m

theorem Knows.files {c : Inspection} (h : Knows backend expected m c)
    (lock : Option (Option String)) (socket : Bool) :
    Knows backend expected m { c with lock, socket } :=
  ⟨⟨h.inv.recorded, h.inv.stands, h.inv.reaches⟩, h.recognises, h.spares⟩

theorem Knows.observe {c : Inspection} (h : Knows backend expected m c) {a : OsAction} {os : Os}
    (started : m.identity ∈ c.binding.os.started) (moved : c.binding.os.step a = some os) :
    Knows backend expected m (c.observe a os) := by
  have same : (c.observe a os).binding.os = os := by
    obtain ⟨lock, socket, binding, phase, content, delivered⟩ := c
    cases phase with
    | connect | checkSocket | dial | readLock | bind | returned | kill | killed => rfl
  refine ⟨h.inv.os moved, fun lives => ?_, fun lives => ?_⟩
  · rw [same] at lives
    exact Inspection.recognises_os (h.recognises (lives.step_back started moved)) a os
  · rw [same] at lives
    have spared := h.spares (lives.step_back started moved)
    obtain ⟨lock, socket, binding, phase, content, delivered⟩ := c
    cases phase <;> exact spared

theorem Knows.connect {c later : Inspection} (h : Knows backend expected m c)
    (named : processNamesMatch m.name expected = true) {ok : Bool} {failure : Option String}
    (lives : Lives c.binding.os m → c.DaemonLives m (.connect ok failure))
    (taken : c.connect backend expected ok failure = some later) :
    Knows backend expected m later := by
  obtain ⟨-, -, same⟩ := Inspection.connect_frame h.inv taken
  refine ⟨h.inv.connect taken, fun living => ?_, fun _ => ?_⟩
  · rw [same] at living
    exact Inspection.recognises_connect named (h.recognises living) (lives living) taken
  · exact Inspection.spares_of_connecting (Inspection.connecting_of_connect taken)

theorem Knows.kill {c later : Inspection} (h : Knows backend expected m c) {handle : KillHandle}
    {failure : Option String} {waited : Except ProcessError Bool} (truly : c.ReportsTruly waited)
    (taken : c.kill handle failure waited = some later) : Knows backend expected m later := by
  obtain ⟨-, -, same⟩ := Inspection.kill_frame taken
  refine ⟨h.inv.kill taken, fun _ => Inspection.recognises_kill taken, fun living => ?_⟩
  rw [same] at living
  exact Inspection.spares_kill h.inv (h.recognises living) (h.spares living) living truly taken

theorem Knows.holdsStale {c : Inspection} (h : Knows backend expected m c)
    (lives : Lives c.binding.os m) : c.holdsStale = false := by
  have known := h.recognises lives
  have spared := h.spares lives
  obtain ⟨lock, socket, binding, phase, content, delivered⟩ := c
  cases phase with
  | returned result =>
    obtain rfl | ⟨process, rfl⟩ := known <;> rfl
  | killed result =>
    cases result with
    | ok stale => cases spared
    | error => rfl
  | connect | checkSocket | dial | readLock | bind | kill => rfl

theorem inspection_setClient {i : ι} {c : Inspection} (lock : c.lock = s.lock)
    (socket : c.socket = s.socket) (os : c.binding.os = s.os) (j : ι) :
    (s.setClient i c).inspection j = if j = i then c else s.inspection j := by
  by_cases here : j = i
  · subst here
    simp only [inspection, setClient, Function.update_self, if_true, ← lock, ← socket, ← os]
  · simp [inspection, setClient, here]

omit [DecidableEq ι] in
theorem inspection_observe (s : Clients ι) (a : OsAction) (os : Os) (i : ι) :
    { s with os, client := fun i => (s.inspection i).observe a os }.inspection i =
      (s.inspection i).observe a os := by
  simp only [inspection, Inspection.observe]
  generalize s.client i = c
  obtain ⟨lock, socket, binding, phase, content, delivered⟩ := c
  cases phase <;> rfl

theorem Kept.setClient (h : s.Kept backend expected m) {i : ι} {c : Inspection}
    (lock : c.lock = s.lock) (socket : c.socket = s.socket) (os : c.binding.os = s.os)
    (knows : Knows backend expected m c) : (s.setClient i c).Kept backend expected m := by
  refine ⟨h.started, h.locked, fun j => ?_, h.untouched, h.removals⟩
  rw [inspection_setClient lock socket os]
  split_ifs
  · exact knows
  · exact h.knows j

omit [DecidableEq ι] in
theorem Kept.cleaned (h : s.Kept backend expected m) (gone : ¬Lives s.os m) {next : Clients ι}
    (os : next.os = s.os) (client : next.client = s.client)
    (removals : next.removals = s.removals ∨ next.removals = s.removals ++ [s.os]) :
    next.Kept backend expected m := by
  have lost : ¬Lives next.os m := os ▸ gone
  refine ⟨os ▸ h.started, fun lives => absurd lives lost, fun i => ?_,
    fun lives => absurd lives lost, fun r member => ?_⟩
  · have same : next.inspection i =
        { s.inspection i with lock := next.lock, socket := next.socket } := by
      simp only [inspection, os, client]
    rw [same]
    exact (h.knows i).files _ _
  · obtain same | more := removals
    · exact h.removals r (same ▸ member)
    · rw [more, List.mem_append, List.mem_singleton] at member
      obtain old | rfl := member
      · exact h.removals r old
      · exact gone

theorem clean_frame {i : ι} {ok : Bool} (taken : s.clean i ok = some next) :
    next.os = s.os ∧ next.client = s.client ∧
      (next.removals = s.removals ∨ next.removals = s.removals ++ [s.os]) := by
  unfold clean at taken
  split at taken
  · split_ifs at taken <;> rw [← Option.some.inj taken] <;> exact ⟨rfl, rfl, .inl rfl⟩
  · split_ifs at taken <;> rw [← Option.some.inj taken]
    · exact ⟨rfl, rfl, .inr rfl⟩
    · exact ⟨rfl, rfl, .inl rfl⟩
  · split_ifs at taken <;> rw [← Option.some.inj taken]
    · exact ⟨rfl, rfl, .inr rfl⟩
    · exact ⟨rfl, rfl, .inl rfl⟩
    · exact ⟨rfl, rfl, .inl rfl⟩
  · cases taken

theorem Kept.clean (h : s.Kept backend expected m) {i : ι} {ok : Bool}
    (taken : s.clean i ok = some next) : next.Kept backend expected m := by
  have gone : ¬Lives s.os m := by
    intro lives
    have fresh : (s.inspection i).holdsStale = false := (h.knows i).holdsStale lives
    simp [Clients.clean, h.untouched lives i, fresh] at taken
  obtain ⟨os, client, removals⟩ := clean_frame taken
  exact h.cleaned gone os client removals

theorem Kept.step (named : processNamesMatch m.name expected = true) {a : ClientAction ι}
    (h : s.Kept backend expected m) (undisturbed : s.Undisturbed m a)
    (taken : s.step backend handle expected a = some next) : next.Kept backend expected m := by
  cases a with
  | os a =>
    obtain ⟨os, moved, rfl⟩ := Option.map_eq_some_iff.mp taken
    have back (lives : Lives os m) : Lives s.os m := lives.step_back h.started moved
    refine ⟨Sys.Os.step_started moved h.started, fun lives => h.locked (back lives), fun i => ?_,
      fun lives => h.untouched (back lives), h.removals⟩
    rw [inspection_observe]
    exact (h.knows i).observe h.started moved
  | files lock socket =>
    rw [← Option.some.inj taken]
    exact ⟨h.started, undisturbed, fun i => (h.knows i).files lock socket, h.untouched,
      h.removals⟩
  | connect i ok failure =>
    obtain ⟨later, made, rfl⟩ := Option.map_eq_some_iff.mp taken
    obtain ⟨lock, socket, os⟩ := Inspection.connect_frame (h.knows i).inv made
    apply h.setClient lock socket os
    refine (h.knows i).connect named (fun lives => ?_) made
    obtain ⟨running, read⟩ := undisturbed lives
    exact ⟨running, h.locked lives, read⟩
  | kill i failure waited =>
    obtain ⟨later, made, rfl⟩ := Option.map_eq_some_iff.mp taken
    obtain ⟨lock, socket, os⟩ := Inspection.kill_frame made
    exact h.setClient lock socket os ((h.knows i).kill undisturbed made)
  | clean i ok => exact h.clean taken

omit [DecidableEq ι] in
theorem start_kept {os : Os} {lock : Option (Option String)} (socket : Bool)
    (recorded : os.Recorded) (running : extract os m.pid = some m)
    (locked : readAsU32 lock.join = some m.pid) :
    (start os lock socket : Clients ι).Kept backend expected m := by
  refine ⟨recorded m.pid m.identity (Sys.Os.extract_eq_some running).2, fun _ => locked,
    fun i => ?_, fun _ _ => rfl, by simp [start]⟩
  refine ⟨⟨recorded, ⟨rfl, rfl⟩, Inspection.reaches_of_undelivered rfl⟩, fun _ => rfl,
    fun _ => trivial⟩

/-- A daemon whose PID the lock file holds keeps its files as long as it lives: whatever its
clients do at the same time, none of them removes one before it has exited. -/
theorem living_daemon_keeps_files (backend : Backend) (handle : ι → KillHandle)
    {expected : String} {m : ProcessMetadata}
    (named : processNamesMatch m.name expected = true) {os : Os} (recorded : os.Recorded)
    (running : extract os m.pid = some m) {lock : Option (Option String)} {socket : Bool}
    (locked : readAsU32 lock.join = some m.pid) {actions : List (ClientAction ι)} {s : Clients ι}
    (undisturbed : Guarded (Undisturbed m) (step backend handle expected) (start os lock socket)
      actions)
    (reached : run (step backend handle expected) (start os lock socket) actions = some s) :
    (Lives s.os m → readAsU32 s.lock.join = some m.pid ∧ ∀ i, s.cleaning i = none) ∧
    ∀ os ∈ s.removals, ¬Lives os m := by
  have kept := run_guarded (Kept backend expected m)
    (fun _ _ _ kept undisturbed taken => kept.step named undisturbed taken)
    (start_kept socket recorded running locked) undisturbed reached
  exact ⟨fun lives => ⟨kept.locked lives, kept.untouched lives⟩, kept.removals⟩

def hungDaemon : Os := ⟨fun pid => if pid = 7 then some ⟨"knotd", 100, false⟩ else none, [⟨7, 100⟩]⟩

def killsAndCleans : List (ClientAction Bool) :=
  [.connect true true none, .connect false true none, .connect true false none,
    .connect false false none, .connect true true none, .connect false true none,
    .connect true true none, .connect true true none, .connect true true none,
    .connect true true none, .connect true true none, .kill true none (.ok true),
    .kill true none (.ok true), .kill true none (.ok true), .connect false true none,
    .os (.exit 7), .kill true none (.ok true), .clean true true, .clean true true,
    .connect false true none, .clean true true]

theorem living_daemon_keeps_files_killsAndCleans :
    ∃ s, run (step .linux (fun _ : Bool => ⟨"run", "knotd", ⟨10, 10⟩⟩) "knotd")
        (start hungDaemon (some (some "7")) true) killsAndCleans = some s ∧
      s.removals.length = 2 ∧ ∀ os ∈ s.removals, ¬Lives os ⟨7, "knotd", 100⟩ := by
  have recorded : hungDaemon.Recorded :=
    Sys.Os.step_recorded (a := .spawn 7 "knotd" 100) rfl Sys.Os.empty_recorded
  have undisturbed : Guarded (Undisturbed ⟨7, "knotd", 100⟩)
      (step .linux (fun _ : Bool => ⟨"run", "knotd", ⟨10, 10⟩⟩) "knotd")
      (start hungDaemon (some (some "7")) true) killsAndCleans := by decide
  have reached : run (step .linux (fun _ : Bool => ⟨"run", "knotd", ⟨10, 10⟩⟩) "knotd")
      (start hungDaemon (some (some "7")) true) killsAndCleans = some _ := rfl
  exact ⟨_, reached, rfl,
    (living_daemon_keeps_files _ _ (by decide) recorded rfl (by decide) undisturbed reached).2⟩

end Clients

end KnotOps.Facade
