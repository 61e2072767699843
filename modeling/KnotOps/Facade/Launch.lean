import KnotOps.Sys.Spawn
import KnotOps.Facade.Kill

/-! `OfflineHandle::launch`: a daemon is spawned, and connected to until its socket
answers.
The calls made are counted, and the child exits when some number of them has
been made, if ever; the daemon is unattended when a failed launch leaves it
running without a request to kill it.  The path of the socket is one and the
same in every attempt to connect. -/

namespace KnotOps.Facade

open KnotOps.Sys

variable {P C σ : Type}

structure OfflineHandle where
  daemonPath : List UInt8
  policy : KillPolicy
deriving DecidableEq, Repr

structure LaunchFailed where
  message : String
  binaryPath : String
  error : String
deriving DecidableEq, Repr

def ProcessError.display : ProcessError → String
  | .notRunning => "process is not running"
  | .mismatch expected actual =>
    "process name mismatch: expected '" ++ expected ++ "', got '" ++ actual ++ "'"
  | .reused => "process reused"
  | .io _ => "io error"

structure LaunchOutcomes (P C σ : Type) extends SpawnOutcomes P where
  /-- The attempts to connect. -/
  connect : Nat → Option C
  /-- The backend of the process when it is to be killed. -/
  backend : P → σ
  /-- After how many calls the child has exited. -/
  exit : Option Nat

structure Launched (C : Type) where
  /-- No result is a panic. -/
  result : Option (Except LaunchFailed C)
  calls : Nat
  killing : List CallRecord

def maxRetries : Nat := 40

/-- The loop of `launch` from an attempt on, with the attempts made when it ends. -/
def connectFrom (connect : Nat → Option C) : (retries attempt : Nat) → Option C × Nat
  | 0, attempt => (none, attempt)
  | retries + 1, attempt =>
    match connect attempt with
    | some handle => (some handle, attempt + 1)
    | none => connectFrom connect retries (attempt + 1)

def OfflineHandle.launch (handle : OfflineHandle) (control : ProcessControl σ)
    (o : LaunchOutcomes P C σ) : Launched C :=
  match spawnWithArgs handle.daemonPath o.toSpawnOutcomes with
  | (none, calls) => ⟨none, calls, []⟩
  | (some (.error error), calls) =>
    ⟨some (.error ⟨"failed to execute daemon binary", toStringLossy handle.daemonPath,
      ProcessError.display error⟩), calls, []⟩
  | (some (.ok process), calls) =>
    match connectFrom o.connect maxRetries 0 with
    | (some connected, attempts) => ⟨some (.ok connected), calls + attempts, []⟩
    | (none, attempts) =>
      let (_, k) :=
        PlatformProcess.kill control.logged handle.policy.gracefulTimeout ⟨o.backend process, []⟩
      ⟨some (.error ⟨"daemon process was spawned, but IPC socket never appeared",
        toStringLossy handle.daemonPath, "socket not found"⟩), calls + attempts, k.calls⟩

theorem connectFrom_eq_none (connect : Nat → Option C) (retries attempt : Nat)
    (failed : ∀ k, attempt ≤ k → k < attempt + retries → connect k = none) :
    connectFrom connect retries attempt = (none, attempt + retries) := by
  induction retries generalizing attempt with
  | zero => rfl
  | succ retries ih =>
    rw [connectFrom, failed attempt (by omega) (by omega)]
    have rest := ih (attempt + 1) fun k from_next before => failed k (by omega) (by omega)
    have same : attempt + 1 + retries = attempt + (retries + 1) := by omega
    exact same ▸ rest

theorem connectFrom_eq_some {connect : Nat → Option C} {retries attempt k : Nat}
    (inside : attempt ≤ k ∧ k < attempt + retries) (answers : connect k ≠ none) :
    ∃ handle attempts, connectFrom connect retries attempt = (some handle, attempts) := by
  induction retries generalizing attempt with
  | zero => omega
  | succ retries ih =>
    rw [connectFrom]
    cases answer : connect attempt with
    | some handle => exact ⟨handle, _, rfl⟩
    | none =>
      have later : attempt ≠ k := fun same => answers (same ▸ answer)
      exact ih (by omega)

theorem kill_calls (control : ProcessControl σ) (timeout : Nat) (s : σ) :
    (∀ error, (control.checkPermissions s).1 = .error error →
      (PlatformProcess.kill control.logged timeout ⟨s, []⟩).2.calls =
        [.checkPermissions (.error error)]) ∧
    ((control.checkPermissions s).1 = .ok () →
      ∃ result, .kill result ∈ (PlatformProcess.kill control.logged timeout ⟨s, []⟩).2.calls) := by
  constructor
  · intro error denied
    simp [PlatformProcess.kill, signalAndWait, Killing.log, denied]
  · intro allowed
    refine ⟨(control.kill (control.checkPermissions s).2).1, ?_⟩
    simp only [PlatformProcess.kill, signalAndWait, ProcessControl.logged, Killing.log, allowed]
    cases sent : (control.kill (control.checkPermissions s).2).1 <;> simp

namespace OfflineHandle

variable {handle : OfflineHandle} {control : ProcessControl σ} {o : LaunchOutcomes P C σ}
  {name : List UInt8} {pid : Pid} {n : Nat}

/-- The binding of the child ends with the attempt `n`. -/
def BindingEnds (o : LaunchOutcomes P C σ) (name : List UInt8) (pid : Pid) (n : Nat) : Prop :=
  Retry.Ends (fun k => Transient (o.bind pid (toStringLossy name) k)) 0 maxAttempts n

theorem spawnWithArgs_eq (named : fileName handle.daemonPath = some name)
    (spawn : o.spawn = .ok (some pid)) (ends : BindingEnds o name pid n) :
    spawnWithArgs handle.daemonPath o.toSpawnOutcomes =
      (some (o.bind pid (toStringLossy name) n), n + 2) := by
  obtain ⟨m, ends', eq⟩ := bindAfterSpawn_eq (o.bind pid (toStringLossy name))
  obtain rfl : n = m := Retry.Ends.unique ends ends'
  simp only [spawnWithArgs, named, spawn, eq]
  rw [Nat.add_comm]

theorem launch_unbound (named : fileName handle.daemonPath = some name)
    (spawn : o.spawn = .ok (some pid)) (ends : BindingEnds o name pid n) {error : ProcessError}
    (unbound : o.bind pid (toStringLossy name) n = .error error) :
    handle.launch control o = ⟨some (.error ⟨"failed to execute daemon binary",
      toStringLossy handle.daemonPath, ProcessError.display error⟩), n + 2, []⟩ := by
  rw [launch, spawnWithArgs_eq named spawn ends, unbound]

theorem launch_connected (named : fileName handle.daemonPath = some name)
    (spawn : o.spawn = .ok (some pid)) (ends : BindingEnds o name pid n) {process : P}
    (bound : o.bind pid (toStringLossy name) n = .ok process) {k : Nat} (inside : k < maxRetries)
    (answers : o.connect k ≠ none) :
    ∃ connected, (handle.launch control o).result = some (.ok connected) := by
  have reached : 0 ≤ k ∧ k < 0 + maxRetries := ⟨Nat.zero_le k, by omega⟩
  obtain ⟨connected, attempts, found⟩ := connectFrom_eq_some reached answers
  refine ⟨connected, ?_⟩
  rw [launch, spawnWithArgs_eq named spawn ends, bound]
  simp only [found]

theorem launch_unconnected (named : fileName handle.daemonPath = some name)
    (spawn : o.spawn = .ok (some pid)) (ends : BindingEnds o name pid n) {process : P}
    (bound : o.bind pid (toStringLossy name) n = .ok process)
    (silent : ∀ k < maxRetries, o.connect k = none) :
    handle.launch control o = ⟨some (.error
      ⟨"daemon process was spawned, but IPC socket never appeared",
        toStringLossy handle.daemonPath, "socket not found"⟩), n + 2 + maxRetries,
      (PlatformProcess.kill control.logged handle.policy.gracefulTimeout
        ⟨o.backend process, []⟩).2.calls⟩ := by
  have silent' := connectFrom_eq_none o.connect maxRetries 0 fun k _ inside => silent k (by omega)
  rw [launch, spawnWithArgs_eq named spawn ends, bound]
  simp only [silent', Nat.zero_add]

theorem launch_unrecognised {o : LaunchOutcomes (PlatformProcess Handle) C σ} {startTime : Nat}
    (named : fileName handle.daemonPath = some name)
    (stable : StableWindow pid name startTime o.toSpawnOutcomes)
    (other : ¬ processNamesMatch (linuxName name) (toStringLossy name) = true) :
    handle.launch control o = ⟨some (.error ⟨"failed to execute daemon binary",
      toStringLossy handle.daemonPath,
      ProcessError.display (.mismatch (toStringLossy name) (linuxName name))⟩), 21, []⟩ := by
  have mismatch (k : Nat) : o.bind pid (toStringLossy name) k =
      .error (.mismatch (toStringLossy name) (linuxName name)) := by
    rw [stable.bind_eq k, Binding.stableResult, if_neg other]
  have ends : BindingEnds o name pid 19 :=
    ⟨by omega, by decide, fun k _ _ => ⟨_, mismatch k, rfl⟩, fun _ => rfl⟩
  exact launch_unbound named stable.spawn ends (mismatch 19)

def CreatesChild (handle : OfflineHandle) (o : LaunchOutcomes P C σ) : Prop :=
  (fileName handle.daemonPath).isSome ∧ ∃ child, o.spawn = .ok child

/-- After a failed launch no child is there, or it has exited, or it was to be killed. -/
def Attended (handle : OfflineHandle) (control : ProcessControl σ) (o : LaunchOutcomes P C σ) :
    Prop :=
  ∀ failed, (handle.launch control o).result = some (.error failed) →
    ¬ handle.CreatesChild o ∨
    ExitedBy o.exit ((handle.launch control o).calls + (handle.launch control o).killing.length) ∨
    ∃ result, .kill result ∈ (handle.launch control o).killing

/-- Where the launch lets go of the child the child has exited: where no PID is there
to bind, where the binding ends in an error, and where the permission to kill it is
not given. -/
structure LetsGoOfExited (control : ProcessControl σ) (o : LaunchOutcomes P C σ)
    (name : List UInt8) (child : Option Pid) : Prop where
  absent : child = none → ExitedBy o.exit 1
  unbound : ∀ pid n error, child = some pid → BindingEnds o name pid n →
    o.bind pid (toStringLossy name) n = .error error → ExitedBy o.exit (n + 2)
  denied : ∀ pid n process error, child = some pid → BindingEnds o name pid n →
    o.bind pid (toStringLossy name) n = .ok process →
    (∀ k < maxRetries, o.connect k = none) →
    (control.checkPermissions (o.backend process)).1 = .error error →
    ExitedBy o.exit (n + 2 + maxRetries + 1)

theorem attended_absent (named : fileName handle.daemonPath = some name)
    (spawn : o.spawn = .ok none) : handle.Attended control o ↔ ExitedBy o.exit 1 := by
  have created : handle.CreatesChild o := ⟨by simp [named], none, spawn⟩
  have failed : handle.launch control o = ⟨some (.error ⟨"failed to execute daemon binary",
      toStringLossy handle.daemonPath, "io error"⟩), 1, []⟩ := by
    have spawned : spawnWithArgs handle.daemonPath o.toSpawnOutcomes =
        (some (.error (.io "Failed to get child PID")), 1) := by
      simp only [spawnWithArgs, named, spawn]
    rw [launch, spawned]
    rfl
  simp [Attended, failed, created]

theorem attended_unbound (named : fileName handle.daemonPath = some name)
    (spawn : o.spawn = .ok (some pid)) (ends : BindingEnds o name pid n) {error : ProcessError}
    (unbound : o.bind pid (toStringLossy name) n = .error error) :
    handle.Attended control o ↔ ExitedBy o.exit (n + 2) := by
  have created : handle.CreatesChild o := ⟨by simp [named], _, spawn⟩
  have failed : handle.launch control o = _ := launch_unbound named spawn ends unbound
  simp [Attended, failed, created]

theorem attended_unconnected (named : fileName handle.daemonPath = some name)
    (spawn : o.spawn = .ok (some pid)) (ends : BindingEnds o name pid n) {process : P}
    (bound : o.bind pid (toStringLossy name) n = .ok process)
    (silent : ∀ k < maxRetries, o.connect k = none) :
    handle.Attended control o ↔
      ∀ error, (control.checkPermissions (o.backend process)).1 = .error error →
        ExitedBy o.exit (n + 2 + maxRetries + 1) := by
  have created : handle.CreatesChild o := ⟨by simp [named], _, spawn⟩
  have failed : handle.launch control o = _ := launch_unconnected named spawn ends bound silent
  obtain ⟨refused, requested⟩ :=
    kill_calls control handle.policy.gracefulTimeout (o.backend process)
  cases check : (control.checkPermissions (o.backend process)).1 with
  | ok =>
    refine iff_of_true (fun _ _ => .inr (.inr ?_)) (fun error impossible => by cases impossible)
    rw [failed]
    exact requested check
  | error error =>
    have calls := refused error check
    simp [Attended, failed, created, calls]

theorem attended_present (named : fileName handle.daemonPath = some name)
    (spawn : o.spawn = .ok (some pid)) :
    handle.Attended control o ↔ LetsGoOfExited control o name (some pid) := by
  obtain ⟨n, ends, -⟩ := bindAfterSpawn_eq (o.bind pid (toStringLossy name))
  have only {id : Pid} {m : Nat} (same : some pid = some id) (ends' : BindingEnds o name id m) :
      id = pid ∧ m = n := by
    obtain rfl := Option.some.inj same
    exact ⟨rfl, Retry.Ends.unique ends' ends⟩
  cases result : o.bind pid (toStringLossy name) n with
  | error error =>
    rw [attended_unbound named spawn ends result]
    constructor
    · intro exited
      refine ⟨by simp, fun id m _ same ends' _ => ?_, fun id m process _ same ends' bound => ?_⟩
      · obtain ⟨rfl, rfl⟩ := only same ends'
        exact exited
      · obtain ⟨rfl, rfl⟩ := only same ends'
        rw [result] at bound
        cases bound
    · intro h
      exact h.unbound pid n error rfl ends result
  | ok process =>
    by_cases silent : ∀ k < maxRetries, o.connect k = none
    · rw [attended_unconnected named spawn ends result silent]
      constructor
      · intro exited
        refine ⟨by simp, fun id m _ same ends' unbound => ?_,
          fun id m process' error same ends' bound _ denied => ?_⟩
        · obtain ⟨rfl, rfl⟩ := only same ends'
          rw [result] at unbound
          cases unbound
        · obtain ⟨rfl, rfl⟩ := only same ends'
          rw [result] at bound
          obtain rfl := Except.ok.inj bound
          exact exited error denied
      · intro h error
        exact h.denied pid n process error rfl ends result silent
    · obtain ⟨k, inside, answers⟩ : ∃ k, k < maxRetries ∧ o.connect k ≠ none := by
        simpa using silent
      obtain ⟨connected, ok⟩ : ∃ connected,
          (handle.launch control o).result = some (.ok connected) :=
        launch_connected named spawn ends result inside answers
      refine iff_of_true (fun failed is_error => ?_) ⟨by simp, fun id m _ same ends' unbound => ?_,
        fun id m process' error same ends' bound silent' => absurd (silent' k inside) answers⟩
      · rw [ok] at is_error
        cases is_error
      · obtain ⟨rfl, rfl⟩ := only same ends'
        rw [result] at unbound
        cases unbound

end OfflineHandle

/-- A failed launch leaves no running child behind exactly when it lets go of exited
children only. -/
theorem launch_attended_iff (handle : OfflineHandle) (control : ProcessControl σ)
    (o : LaunchOutcomes P C σ) :
    handle.Attended control o ↔ ∀ name child, fileName handle.daemonPath = some name →
      o.spawn = .ok child → OfflineHandle.LetsGoOfExited control o name child := by
  by_cases created : handle.CreatesChild o
  · obtain ⟨has_name, child, spawn⟩ := created
    obtain ⟨name, named⟩ := Option.isSome_iff_exists.mp has_name
    have only : (∀ name child, fileName handle.daemonPath = some name → o.spawn = .ok child →
        OfflineHandle.LetsGoOfExited control o name child) ↔
        OfflineHandle.LetsGoOfExited control o name child := by
      simp [named, spawn]
    rw [only]
    cases child with
    | none =>
      rw [OfflineHandle.attended_absent named spawn]
      exact ⟨fun exited => ⟨fun _ => exited, by simp, by simp⟩, fun h => h.absent rfl⟩
    | some pid => exact OfflineHandle.attended_present named spawn
  · refine iff_of_true (fun _ _ => .inl created) fun name child named spawn => ?_
    exact absurd ⟨by simp [named], child, spawn⟩ created

/-- The child runs on while 20 attempts to bind it see the name that Linux has cut. -/
theorem launch_abandons_long_name :
    let o : LaunchOutcomes (PlatformProcess Handle) Unit Unit :=
      ⟨leftAlone 7 "knotd-supervised".toUTF8.data.toList 100, fun _ => some (), fun _ => (), none⟩
    StableWindow 7 "knotd-supervised".toUTF8.data.toList 100 o.toSpawnOutcomes ∧
    ∀ control : ProcessControl Unit,
      OfflineHandle.launch ⟨supervisedPath, ⟨3000, 5000⟩⟩ control o =
        ⟨some (.error ⟨"failed to execute daemon binary", "/opt/knot/bin/knotd-supervised",
          "process name mismatch: expected 'knotd-supervised', got 'knotd-supervise'"⟩), 21, []⟩ ∧
      ¬ OfflineHandle.Attended ⟨supervisedPath, ⟨3000, 5000⟩⟩ control o := by
  intro o
  have stable := leftAlone_stable 7 "knotd-supervised".toUTF8.data.toList 100
  refine ⟨stable, fun control => ?_⟩
  have named : fileName supervisedPath = some "knotd-supervised".toUTF8.data.toList := by decide
  have texts : toStringLossy supervisedPath = "/opt/knot/bin/knotd-supervised" ∧
      ProcessError.display (.mismatch (toStringLossy "knotd-supervised".toUTF8.data.toList)
        (linuxName "knotd-supervised".toUTF8.data.toList)) =
        "process name mismatch: expected 'knotd-supervised', got 'knotd-supervise'" := by decide
  have failed : OfflineHandle.launch ⟨supervisedPath, ⟨3000, 5000⟩⟩ control o = _ :=
    OfflineHandle.launch_unrecognised named stable (by decide)
  rw [texts.1, texts.2] at failed
  refine ⟨failed, fun attended => ?_⟩
  rcases attended _ (congrArg Launched.result failed) with absent | ⟨_, exited, -⟩ | requested
  · exact absent ⟨by rw [named]; rfl, _, rfl⟩
  · cases exited
  · obtain ⟨result, member⟩ := requested
    rw [failed] at member
    cases member

end KnotOps.Facade
