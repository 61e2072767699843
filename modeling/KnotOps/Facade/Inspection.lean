import KnotOps.Facade.Kill
import KnotOps.Facade.LockFile
import KnotOps.Sys.Bind
import KnotOps.Sys.Signals

/-! `ClientBuilder::connect`, and `KillHandle::kill` on the handle it returns.
On Linux and macOS the two are followed one access at a time: others rewrite the files
and the operating system goes on between any two of them.  What `connect` has read of the
lock file is kept, and every signal of `kill` with the process that it reached. -/

namespace KnotOps.Facade

open Machine
open KnotOps.Sys (Os OsAction Pid ProcessMetadata ProcessError Handle Instance Backend Binding
  BindPhase Call Signal Delivery Op HeldBy processNamesMatch extract)

inductive ConnectState where
  | offline
  | connected
  | stale
  | hung (process : Sys.PlatformProcess Handle)
deriving DecidableEq, Repr

/-- Where the client stands: in `connect`, at its result, or in `kill`. -/
inductive InspectionPhase where
  | connect
  | checkSocket
  | dial
  | readLock
  | bind (pid : Pid)
  | returned (result : Except String ConnectState)
  | kill (process : Sys.PlatformProcess Handle) (phase : KillPhase) (call : Call)
  | killed (result : Except SignalError StaleHandle)

structure Inspection where
  /-- The content of the lock file, if there is one; none where it is not UTF-8. -/
  lock : Option (Option String)
  socket : Bool
  binding : Binding Handle
  phase : InspectionPhase
  /-- What the lock file held when it was read. -/
  content : Option String
  delivered : List Delivery

inductive InspectionAction where
  | files (lock : Option (Option String)) (socket : Bool)
  | os (a : OsAction)
  | connect (ok : Bool) (failure : Option String)
  | kill (failure : Option String) (waited : Except ProcessError Bool)

def bindState : Except ProcessError (Sys.PlatformProcess Handle) → Except String ConnectState
  | .ok process => .ok (.hung process)
  | .error .notRunning | .error .reused | .error (.mismatch _ _) => .ok .stale
  | .error (.io kind) => .error kind

theorem bindState_hung {result : Except ProcessError (Sys.PlatformProcess Handle)}
    {p : Sys.PlatformProcess Handle} (hung : bindState result = .ok (.hung p)) :
    result = .ok p := by
  match result with
  | .ok q => simpa [bindState] using hung
  | .error .notRunning | .error .reused | .error (.mismatch _ _) | .error (.io _) =>
    simp [bindState] at hung

def KillPhase.ops : KillPhase → List Op
  | graceful => Sys.PlatformProcess.terminate
  | forceful => Sys.PlatformProcess.kill

namespace Inspection

def start : Inspection := ⟨none, false, .start, .connect, none, []⟩

def goto (s : Inspection) (phase : InspectionPhase) : Inspection := { s with phase }

/-- One step of `connect`; `ok` is whether the dial succeeds, and `failure` that of a
read or of a lookup. -/
def connect (backend : Backend) (expected : String) (s : Inspection) (ok : Bool)
    (failure : Option String) : Option Inspection :=
  match s.phase with
  | .connect => some (s.goto (if s.lock.isSome then .dial else .checkSocket))
  | .checkSocket => some (s.goto (.returned (.ok (if s.socket then .stale else .offline))))
  | .dial => some (s.goto (if ok then .returned (.ok .connected) else .readLock))
  | .readLock =>
    let content := if failure.isSome then none else s.lock.join
    match readAsU32 content with
    | some pid => some { s.goto (.bind pid) with content }
    | none => some (s.goto (.returned (.ok .stale)))
  | .bind pid =>
    match s.binding.phase with
    | .returned result => some (s.goto (.returned (bindState result)))
    | .extract | .compare _ | .bind _ | .extractAfter _ _ =>
      (s.binding.advance backend.platform pid expected failure).map fun binding =>
        { s with binding }
  | .returned _ | .kill _ _ _ | .killed _ => none

def beginPhase (s : Inspection) (process : Sys.PlatformProcess Handle) (phase : KillPhase) :
    Inspection :=
  s.goto (.kill process phase (.start process.handle phase.ops))

/-- A graceful phase that runs out of time is followed by a forceful one. -/
def settle (handle : KillHandle) (s : Inspection) (process : Sys.PlatformProcess Handle) :
    KillPhase → Except ProcessError Bool → Inspection
  | .graceful, .ok false => s.beginPhase process .forceful
  | _, result => s.goto (.killed (handle.conclude result))

def deliver (s : Inspection) (handle : Handle) (op : Op) (receiver : Instance) : Inspection :=
  { s with delivered :=
      if op.signal = .zero then s.delivered
      else s.delivered ++ [⟨handle.bound, receiver, op.signal⟩] }

/-- One step of `kill`: a system call of an operation, or the wait after both, which sends
nothing and may answer anything. -/
def kill (handle : KillHandle) (s : Inspection) (failure : Option String)
    (waited : Except ProcessError Bool) : Option Inspection :=
  match s.phase with
  | .returned (.ok (.hung process)) =>
    some (s.beginPhase process
      (if handle.policy.gracefulTimeout = 0 then .forceful else .graceful))
  | .kill process phase call =>
    match call.ops with
    | [] => some (s.settle handle process phase waited)
    | op :: rest =>
      match call.handle.syscall s.binding.os call.checked failure with
      | .checked => some (s.goto (.kill process phase call.pass))
      | .sent receiver =>
        some ((s.goto (.kill process phase (call.finish rest))).deliver call.handle op receiver)
      | .failed error => some (s.settle handle process phase (.error error))
  | _ => none

def observe (s : Inspection) (a : OsAction) (os : Os) : Inspection :=
  match s.phase with
  | .bind pid => { s with binding := s.binding.observe pid os }
  | .kill process phase call =>
    { s with binding := { s.binding with os }, phase := .kill process phase (call.observe a) }
  | _ => { s with binding := { s.binding with os } }

def step (backend : Backend) (handle : KillHandle) (expected : String) (s : Inspection) :
    InspectionAction → Option Inspection
  | .files lock socket => some { s with lock, socket }
  | .os a => (s.binding.os.step a).map (s.observe a)
  | .connect ok failure => s.connect backend expected ok failure
  | .kill failure waited => s.kill handle failure waited

end Inspection

/-- The process held the PID that the lock file named from the first read of its metadata
to the second, has the expected name, and is the one that the handle is on. -/
structure LockedDaemon (expected : String) (content : Option String)
    (holders : List (Option Instance)) (p : Sys.PlatformProcess Handle) : Prop where
  read : ∃ text, content = some text ∧ LockText p.metadata.pid text.toList
  bound : p.handle.bound = p.metadata.identity
  name : processNamesMatch p.metadata.name expected = true
  seen : some p.metadata.identity ∈ holders
  held : HeldBy holders p.metadata.identity

def Opened (backend : Backend) (holders : List (Option Instance)) : BindPhase Handle → Prop
  | .extract | .returned (.error _) => True
  | .compare _ | .bind _ => holders ≠ []
  | .extractAfter _ handle => holders ≠ [] ∧ handle.backend = backend
  | .returned (.ok p) => holders ≠ [] ∧ p.handle.backend = backend

section Opened

variable {backend : Backend} {pid : Pid} {expected : String} {b next : Binding Handle}

theorem opened_observe (h : Opened backend b.holders b.phase) (os : Os) :
    Opened backend (b.observe pid os).holders (b.observe pid os).phase := by
  obtain ⟨_, phase, holders⟩ := b
  cases phase with
  | extract => trivial
  | compare | bind => exact List.append_ne_nil_of_left_ne_nil h _
  | extractAfter => exact ⟨List.append_ne_nil_of_left_ne_nil h.1 _, h.2⟩
  | returned => exact h

theorem opened_advance {failure : Option String} (h : Opened backend b.holders b.phase)
    (taken : b.advance backend.platform pid expected failure = some next) :
    Opened backend next.holders next.phase := by
  obtain ⟨os, phase, holders⟩ := b
  cases phase with
  | extract =>
    simp only [Binding.advance] at taken
    split at taken <;> rw [← Option.some.inj taken]
    · exact List.cons_ne_nil _ _
    · trivial
  | compare metadata =>
    simp only [Binding.advance] at taken
    split_ifs at taken <;> rw [← Option.some.inj taken]
    · exact h
    · trivial
  | bind metadata =>
    simp only [Binding.advance] at taken
    split at taken
    · rw [← Option.some.inj taken]
      trivial
    · split at taken <;> rw [← Option.some.inj taken]
      · exact ⟨h, Handle.bind_backend ‹_›⟩
      · trivial
  | extractAfter metadata handle =>
    simp only [Binding.advance] at taken
    split at taken
    · split_ifs at taken <;> rw [← Option.some.inj taken]
      · exact h
      · trivial
    · rw [← Option.some.inj taken]
      trivial
  | returned result => cases taken

end Opened

def KillPhase.signals : KillPhase → List Signal
  | graceful => [.sigterm]
  | forceful => [.sigterm, .sigkill]

def pending (ops : List Op) : List Signal := (ops.map Op.signal).filter (· ≠ .zero)

theorem KillPhase.signals_sublist (phase : KillPhase) :
    phase.signals.Sublist [.sigterm, .sigkill] := by
  cases phase with
  | graceful => exact List.sublist_append_left [Signal.sigterm] [Signal.sigkill]
  | forceful => exact List.Sublist.refl _

theorem KillPhase.pending_ops (phase : KillPhase) :
    (pending phase.ops).Sublist phase.signals := by
  cases phase with
  | graceful => exact List.Sublist.refl _
  | forceful => exact List.sublist_append_right [Signal.sigterm] [Signal.sigkill]

theorem pending_cons (op : Op) (rest : List Op) :
    pending (op :: rest) =
      if op.signal = .zero then pending rest else op.signal :: pending rest := by
  by_cases zero : op.signal = .zero <;> simp [pending, zero]

namespace Inspection

variable {backend : Backend} {handle : KillHandle} {expected : String} {s next : Inspection}

inductive KillMove (handle : KillHandle) (s : Inspection) (failure : Option String)
    (waited : Except ProcessError Bool) : Inspection → Prop
  | begins {p : Sys.PlatformProcess Handle} (hung : s.phase = .returned (.ok (.hung p)))
      (phase : KillPhase) : KillMove handle s failure waited (s.beginPhase p phase)
  | passes {p : Sys.PlatformProcess Handle} {phase : KillPhase} {call : Call}
      (killing : s.phase = .kill p phase call) {op : Op} {rest : List Op}
      (ops : call.ops = op :: rest)
      (passed : call.handle.syscall s.binding.os call.checked failure = .checked) :
      KillMove handle s failure waited (s.goto (.kill p phase call.pass))
  | sends {p : Sys.PlatformProcess Handle} {phase : KillPhase} {call : Call}
      (killing : s.phase = .kill p phase call) {op : Op} {rest : List Op}
      (ops : call.ops = op :: rest) {receiver : Instance}
      (sent : call.handle.syscall s.binding.os call.checked failure = .sent receiver) :
      KillMove handle s failure waited
        ((s.goto (.kill p phase (call.finish rest))).deliver call.handle op receiver)
  | waited {p : Sys.PlatformProcess Handle} {phase : KillPhase} {call : Call}
      (killing : s.phase = .kill p phase call) (done : call.ops = []) :
      KillMove handle s failure waited (s.settle handle p phase waited)
  | failed {p : Sys.PlatformProcess Handle} {phase : KillPhase} {call : Call}
      (killing : s.phase = .kill p phase call) {op : Op} {rest : List Op}
      (ops : call.ops = op :: rest) {error : ProcessError}
      (failed : call.handle.syscall s.binding.os call.checked failure = .failed error) :
      KillMove handle s failure waited (s.settle handle p phase (.error error))

theorem kill_move {failure : Option String} {waited : Except ProcessError Bool}
    (taken : s.kill handle failure waited = some next) : KillMove handle s failure waited next := by
  unfold Inspection.kill at taken
  split at taken
  · next p hung =>
    rw [← Option.some.inj taken]
    exact .begins hung _
  · next p phase call killing =>
    split at taken
    · next done =>
      rw [← Option.some.inj taken]
      exact .waited killing done
    · next op rest ops =>
      split at taken <;> rw [← Option.some.inj taken]
      · next passed => exact .passes killing ops passed
      · next receiver sent => exact .sends killing ops sent
      · next error failed => exact .failed killing ops failed
  · cases taken

theorem settle_cases (handle : KillHandle) (s : Inspection) (p : Sys.PlatformProcess Handle)
    (phase : KillPhase) (result : Except ProcessError Bool) :
    s.settle handle p phase result = s.beginPhase p .forceful ∨
      s.settle handle p phase result = s.goto (.killed (handle.conclude result)) := by
  unfold settle
  split
  · exact .inl rfl
  · exact .inr rfl

def Stands (backend : Backend) (expected : String) (s : Inspection) : Prop :=
  match s.phase with
  | .connect | .checkSocket | .dial | .readLock => s.binding.phase = .extract ∧ s.delivered = []
  | .bind pid =>
    (∃ text, s.content = some text ∧ LockText pid text.toList) ∧
      s.binding.phase.Inv backend.platform pid expected s.binding.os s.binding.holders ∧
      Opened backend s.binding.holders s.binding.phase ∧ s.delivered = []
  | .returned result =>
    (∀ p, result = .ok (.hung p) →
      LockedDaemon expected s.content s.binding.holders p ∧ p.handle.backend = backend) ∧
      s.delivered = []
  | .kill p phase call =>
    LockedDaemon expected s.content s.binding.holders p ∧ p.handle.backend = backend ∧
      call.handle = p.handle ∧ call.Sound s.binding.os ∧
      (s.delivered.map Delivery.signal ++ pending call.ops).Sublist phase.signals
  | .killed _ => (s.delivered.map Delivery.signal).Sublist [.sigterm, .sigkill]

/-- The signal has reached the PID of a daemon that the lock file named, and on Linux that
daemon. -/
def Reaches (backend : Backend) (expected : String) (s : Inspection) (d : Delivery) : Prop :=
  ∃ p, LockedDaemon expected s.content s.binding.holders p ∧ d.receiver.pid = p.metadata.pid ∧
    (backend = .linux → d.receiver = p.metadata.identity)

structure Inv (backend : Backend) (expected : String) (s : Inspection) : Prop where
  recorded : s.binding.os.Recorded
  stands : s.Stands backend expected
  reaches : ∀ d ∈ s.delivered, s.Reaches backend expected d

theorem start_inv : start.Inv backend expected :=
  ⟨Sys.Os.empty_recorded, ⟨rfl, rfl⟩, by simp [start]⟩

theorem reaches_of_undelivered (undelivered : s.delivered = []) :
    ∀ d ∈ s.delivered, s.Reaches backend expected d := by
  simp [undelivered]

theorem Inv.os (inv : s.Inv backend expected) {a : OsAction} {os : Os}
    (moved : s.binding.os.step a = some os) : (s.observe a os).Inv backend expected := by
  have recorded := Sys.Os.step_recorded moved inv.recorded
  have stands := inv.stands
  have reaches := inv.reaches
  obtain ⟨lock, socket, binding, phase, content, delivered⟩ := s
  cases phase with
  | bind pid =>
    obtain ⟨read, known, opened, undelivered⟩ := stands
    have kept := Binding.observe_phase known moved
    exact ⟨recorded, ⟨read, kept, opened_observe opened os, undelivered⟩,
      reaches_of_undelivered undelivered⟩
  | kill p phase call =>
    obtain ⟨daemon, backed, same, sound, signals⟩ := stands
    exact ⟨recorded, ⟨daemon, backed, same, sound.observe moved, signals⟩, reaches⟩
  | connect | checkSocket | dial | readLock | returned | killed =>
    exact ⟨recorded, stands, reaches⟩

theorem lockedDaemon {pid : Pid} {os : Os} {content : Option String}
    {holders : List (Option Instance)} {p : Sys.PlatformProcess Handle}
    (read : ∃ text, content = some text ∧ LockText pid text.toList)
    (known : (BindPhase.returned (.ok p)).Inv backend.platform pid expected os holders)
    (opened : Opened backend holders (.returned (.ok p))) :
    LockedDaemon expected content holders p := by
  obtain ⟨same_pid, bound, name, held⟩ := known
  obtain ⟨holder, seen⟩ := List.exists_mem_of_ne_nil _ opened.1
  exact ⟨same_pid ▸ read, bound, name, held holder seen ▸ seen, held⟩

theorem Inv.connect (inv : s.Inv backend expected) {ok : Bool} {failure : Option String}
    (taken : s.connect backend expected ok failure = some next) :
    next.Inv backend expected := by
  have recorded := inv.recorded
  have stands := inv.stands
  obtain ⟨lock, socket, binding, phase, content, delivered⟩ := s
  cases phase with
  | connect =>
    obtain ⟨first, rfl⟩ := stands
    rw [← Option.some.inj taken]
    refine ⟨recorded, ?_, by simp [goto]⟩
    cases lock <;> exact ⟨first, rfl⟩
  | checkSocket =>
    obtain ⟨first, rfl⟩ := stands
    rw [← Option.some.inj taken]
    refine ⟨recorded, ?_, by simp [goto]⟩
    exact ⟨by cases socket <;> simp, rfl⟩
  | dial =>
    obtain ⟨first, rfl⟩ := stands
    rw [← Option.some.inj taken]
    refine ⟨recorded, ?_, by simp [goto]⟩
    cases ok
    · exact ⟨first, rfl⟩
    · exact ⟨by simp, rfl⟩
  | readLock =>
    obtain ⟨first, rfl⟩ : binding.phase = .extract ∧ delivered = [] := stands
    simp only [Inspection.connect] at taken
    split at taken <;> rw [← Option.some.inj taken]
    · next pid found =>
      refine ⟨recorded, ⟨?_, ?_, ?_, rfl⟩, by simp [goto]⟩
      · obtain ⟨text, same, -⟩ := Option.bind_eq_some_iff.mp found
        exact ⟨text, same, LockText.of_read (same ▸ found)⟩
      · rw [goto, first]
        trivial
      · rw [goto, first]
        trivial
    · exact ⟨recorded, ⟨by simp, rfl⟩, by simp [goto]⟩
  | bind pid =>
    obtain ⟨read, known, opened, rfl⟩ := stands
    simp only [Inspection.connect] at taken
    split at taken
    · next result phase =>
      rw [← Option.some.inj taken]
      refine ⟨recorded, ⟨fun p hung => ?_, rfl⟩, by simp [goto]⟩
      obtain rfl := bindState_hung hung
      rw [phase] at known opened
      exact ⟨lockedDaemon read known opened, opened.2⟩
    all_goals
      obtain ⟨later, advanced, rfl⟩ := Option.map_eq_some_iff.mp taken
      obtain ⟨same, kept⟩ := Binding.advance_phase recorded known advanced
      exact ⟨same ▸ recorded, ⟨read, kept, opened_advance opened advanced, rfl⟩, by simp⟩
  | returned | kill | killed => cases taken

theorem reaches_of_sent {os : Os} {content : Option String} {holders : List (Option Instance)}
    {p : Sys.PlatformProcess Handle} {call : Call} {failure : Option String} {receiver : Instance}
    (daemon : LockedDaemon expected content holders p) (backed : p.handle.backend = backend)
    (same : call.handle = p.handle) (sound : call.Sound os)
    (sent : call.handle.syscall os call.checked failure = .sent receiver) :
    receiver.pid = p.metadata.pid ∧ (backend = .linux → receiver = p.metadata.identity) := by
  obtain ⟨-, held, unchecked⟩ := Sys.syscall_sent sent
  rw [same, daemon.bound] at held unchecked
  constructor
  · obtain ⟨proc, -, rfl⟩ := Option.map_eq_some_iff.mp held
    rfl
  · intro linux
    -- only a macOS handle is checked before the signal
    apply unchecked
    by_contra checked
    obtain ⟨fingerprint, macos⟩ := sound.macos (by simpa using checked)
    rw [linux, ← same, macos] at backed
    cases backed

theorem Inv.beginPhase (inv : s.Inv backend expected) {p : Sys.PlatformProcess Handle}
    (daemon : LockedDaemon expected s.content s.binding.holders p)
    (backed : p.handle.backend = backend) (phase : KillPhase)
    (signals : (s.delivered.map Delivery.signal ++ pending phase.ops).Sublist phase.signals) :
    (s.beginPhase p phase).Inv backend expected :=
  ⟨inv.recorded, ⟨daemon, backed, rfl, Call.start_sound _ _ _, signals⟩, inv.reaches⟩

theorem Inv.settle (inv : s.Inv backend expected) {p : Sys.PlatformProcess Handle}
    (daemon : LockedDaemon expected s.content s.binding.holders p)
    (backed : p.handle.backend = backend) {phase : KillPhase}
    (signals : (s.delivered.map Delivery.signal).Sublist phase.signals)
    (result : Except ProcessError Bool) :
    (s.settle handle p phase result).Inv backend expected := by
  have last := signals.trans phase.signals_sublist
  match phase, result with
  | .graceful, .ok false =>
    exact inv.beginPhase daemon backed .forceful (signals.append_right [Signal.sigkill])
  | .graceful, .ok true | .graceful, .error _ | .forceful, _ =>
    exact ⟨inv.recorded, last, inv.reaches⟩

theorem Inv.kill (inv : s.Inv backend expected) {failure : Option String}
    {waited : Except ProcessError Bool} (taken : s.kill handle failure waited = some next) :
    next.Inv backend expected := by
  have stands := inv.stands
  cases kill_move taken with
  | begins hung phase =>
    rw [Stands, hung] at stands
    obtain ⟨found, undelivered⟩ := stands
    obtain ⟨daemon, backed⟩ := found _ rfl
    apply inv.beginPhase daemon backed
    rw [undelivered]
    exact KillPhase.pending_ops _
  | @passes p phase call killing op rest ops passed =>
    rw [Stands, killing] at stands
    obtain ⟨daemon, backed, same, sound, signals⟩ := stands
    obtain ⟨macos, -, held⟩ := Sys.syscall_checked passed
    have checked := call.pass_sound macos inv.recorded held
    refine ⟨inv.recorded, ⟨daemon, backed, same, checked, ?_⟩, inv.reaches⟩
    simpa [goto, Call.pass, ops, pending_cons] using signals
  | @sends p phase call killing op rest ops receiver sent =>
    rw [Stands, killing] at stands
    obtain ⟨daemon, backed, same, sound, signals⟩ := stands
    rw [ops, pending_cons] at signals
    have ended := Call.finish_sound s.binding.os call rest
    refine ⟨inv.recorded, ⟨daemon, backed, same, ended, ?_⟩, fun d member => ?_⟩
    · by_cases zero : op.signal = .zero
      · simpa [goto, deliver, Call.finish, zero] using signals
      · simpa [goto, deliver, Call.finish, zero] using signals
    · by_cases zero : op.signal = .zero
      · simp only [goto, deliver, zero, if_true] at member
        exact inv.reaches d member
      · simp only [goto, deliver, zero, if_false, List.mem_append, List.mem_singleton] at member
        obtain old | rfl := member
        · exact inv.reaches d old
        · exact ⟨p, daemon, reaches_of_sent daemon backed same sound sent⟩
  | waited killing | failed killing =>
    rw [Stands, killing] at stands
    obtain ⟨daemon, backed, -, -, signals⟩ := stands
    exact inv.settle daemon backed ((List.sublist_append_left _ _).trans signals) _

theorem Inv.signals (inv : s.Inv backend expected) :
    (s.delivered.map Delivery.signal).Sublist [.sigterm, .sigkill] := by
  have stands := inv.stands
  unfold Stands at stands
  split at stands
  · simp [stands.2]
  · simp [stands.2]
  · simp [stands.2]
  · simp [stands.2]
  · simp [stands.2.2.2]
  · simp [stands.2]
  · next phase call _ =>
    exact ((List.sublist_append_left _ _).trans stands.2.2.2.2).trans phase.signals_sublist
  · exact stands

theorem Inv.step (inv : s.Inv backend expected) {a : InspectionAction}
    (taken : s.step backend handle expected a = some next) : next.Inv backend expected := by
  cases a with
  | files lock socket =>
    rw [← Option.some.inj taken]
    exact ⟨inv.recorded, inv.stands, inv.reaches⟩
  | os a =>
    obtain ⟨os, moved, rfl⟩ := Option.map_eq_some_iff.mp taken
    exact inv.os moved
  | connect ok failure => exact inv.connect taken
  | kill failure waited => exact inv.kill taken

/-- A hung daemon is one that the lock file named, and `kill` asks at most once for its
termination and then at most once forces it; on Linux nobody else ever gets a signal. -/
theorem kill_reaches_locked_daemon (backend : Backend) (handle : KillHandle) (expected : String)
    {actions : List InspectionAction} {s : Inspection}
    (reached : run (step backend handle expected) start actions = some s) :
    (∀ p, s.phase = .returned (.ok (.hung p)) →
      LockedDaemon expected s.content s.binding.holders p) ∧
    (s.delivered.map Delivery.signal).Sublist [.sigterm, .sigkill] ∧
    ∀ d ∈ s.delivered, s.Reaches backend expected d := by
  have inv := run_invariant (Inv backend expected) (fun _ _ _ inv taken => inv.step taken)
    start_inv reached
  refine ⟨fun p hung => ?_, inv.signals, inv.reaches⟩
  have stands := inv.stands
  rw [Stands, hung] at stands
  exact (stands.1 p rfl).1

def findsHung : List InspectionAction :=
  [.os (.spawn 7 "knotd" 100), .files (some (some "7\n")) true, .connect true none,
    .connect false none, .connect true none, .connect true none, .connect true none,
    .connect true none, .connect true none, .connect true none, .files (some (some "8")) true]

def killsHung : List InspectionAction :=
  findsHung ++ [.kill none (.ok true), .kill none (.ok true), .kill none (.ok true),
    .kill none (.ok false), .kill none (.ok true), .kill none (.ok true), .kill none (.ok true)]

theorem kill_reaches_locked_daemon_killsHung :
    ∃ s, run (step .linux ⟨"run", "knotd", ⟨10, 10⟩⟩ "knotd") start killsHung = some s ∧
      s.delivered =
        [⟨⟨7, 100⟩, ⟨7, 100⟩, .sigterm⟩, ⟨⟨7, 100⟩, ⟨7, 100⟩, .sigkill⟩] ∧
      ∀ d ∈ s.delivered, s.Reaches .linux "knotd" d := by
  have reached :
      run (step .linux ⟨"run", "knotd", ⟨10, 10⟩⟩ "knotd") start killsHung = some _ := rfl
  exact ⟨_, reached, rfl, (kill_reaches_locked_daemon _ _ _ reached).2.2⟩

end Inspection

end KnotOps.Facade
