import Mathlib.Data.List.Basic

/-! Processes, and the handles bound to them.
The operating system gives each PID to at most one process at a time; a process
that has exited holds its PID until it is reaped, and a PID with a start time
names one process instance for ever.  A Linux handle owns a pidfd, which names
the instance it was opened on; a macOS handle is the metadata it was given, and
is compared with the metadata of the PID before each use. -/

namespace KnotOps.Sys

abbrev Pid := Nat

structure ProcessMetadata where
  pid : Pid
  name : String
  startTime : Nat
deriving DecidableEq, Repr

structure Instance where
  pid : Pid
  startTime : Nat
deriving DecidableEq, Repr

def ProcessMetadata.identity (m : ProcessMetadata) : Instance :=
  ⟨m.pid, m.startTime⟩

inductive ProcessError where
  | notRunning
  | reused
  | mismatch (expected actual : String)
  | io (kind : String)
deriving DecidableEq, Repr

structure Proc where
  name : String
  startTime : Nat
  exited : Bool
deriving DecidableEq, Repr

/-- Who holds which PID, and the instances that have been started. -/
structure Os where
  holder : Pid → Option Proc
  started : List Instance

inductive OsAction where
  | spawn (pid : Pid) (name : String) (startTime : Nat)
  | exit (pid : Pid)
  | reap (pid : Pid)
  | rename (pid : Pid) (name : String)
deriving DecidableEq, Repr

def OsAction.SpawnsAt : OsAction → Pid → Prop
  | .spawn other _ _, pid => other = pid
  | .exit _, _ | .reap _, _ | .rename _ _, _ => False

instance (pid : Pid) : (a : OsAction) → Decidable (a.SpawnsAt pid)
  | .spawn other _ _ => inferInstanceAs (Decidable (other = pid))
  | .exit _ | .reap _ | .rename _ _ => inferInstanceAs (Decidable False)

namespace Os

def empty : Os := ⟨fun _ => none, []⟩

def setHolder (os : Os) (pid : Pid) (p : Option Proc) : Os :=
  { os with holder := fun q => if q = pid then p else os.holder q }

def step (os : Os) : OsAction → Option Os
  | .spawn pid name startTime =>
    if os.holder pid = none ∧ ⟨pid, startTime⟩ ∉ os.started then
      some { os.setHolder pid (some ⟨name, startTime, false⟩) with
        started := ⟨pid, startTime⟩ :: os.started }
    else none
  | .exit pid => (os.holder pid).map fun p => os.setHolder pid (some { p with exited := true })
  | .reap pid =>
    match os.holder pid with
    | some p => if p.exited then some (os.setHolder pid none) else none
    | none => none
  | .rename pid name => (os.holder pid).map fun p => os.setHolder pid (some { p with name })

def current (os : Os) (pid : Pid) : Option Instance :=
  (os.holder pid).map fun p => ⟨pid, p.startTime⟩

def isRunning (os : Os) (i : Instance) : Prop :=
  os.current i.pid = some i

instance (os : Os) : DecidablePred os.isRunning := fun _ => inferInstanceAs (Decidable (_ = _))

end Os

/-- `ProcessMetadata::extract`: one observation of the process table. -/
def extract (os : Os) (pid : Pid) : Option ProcessMetadata :=
  (os.holder pid).map fun p => ⟨pid, p.name, p.startTime⟩

inductive Backend where
  | linux
  | macos
deriving DecidableEq, Repr

inductive Handle where
  | linux (processRef : Instance)
  | macos (fingerprint : ProcessMetadata)
deriving DecidableEq, Repr

namespace Handle

def backend : Handle → Backend
  | linux _ => .linux
  | macos _ => .macos

def bound : Handle → Instance
  | linux processRef => processRef
  | macos fingerprint => fingerprint.identity

/-- `ProcessControl::bind`: `pidfd_open` opens the process that holds the PID
now; on macOS the metadata is kept. -/
def bind (os : Os) (metadata : ProcessMetadata) : Backend → Except ProcessError Handle
  | .linux =>
    match os.current metadata.pid with
    | some holder => .ok (linux holder)
    | none => .error .notRunning
  | .macos => .ok (macos metadata)

theorem bind_backend {os : Os} {metadata : ProcessMetadata} {b : Backend} {h : Handle}
    (opened : bind os metadata b = .ok h) : h.backend = b := by
  cases b with
  | linux =>
    simp only [bind] at opened
    split at opened
    · rw [← Except.ok.inj opened]
      rfl
    · cases opened
  | macos =>
    rw [← Except.ok.inj opened]
    rfl

end Handle

/-- `ensure_pid_not_reused`, where the lookup itself does not fail. -/
def ensurePidNotReused (os : Os) (fingerprint : ProcessMetadata) : Except ProcessError Unit :=
  match extract os fingerprint.pid with
  | some metadata => if metadata = fingerprint then .ok () else .error .reused
  | none => .error .notRunning

def eqIgnoreAsciiCase (a b : String) : Bool :=
  a.toList.map Char.toLower = b.toList.map Char.toLower

/-- `process_names_match` where names are not normalised, that is not on Windows. -/
def processNamesMatch (actual expected : String) : Bool :=
  eqIgnoreAsciiCase actual expected

namespace Os

variable {os next : Os} {pid : Pid}

theorem extract_eq_some {m : ProcessMetadata} (found : extract os pid = some m) :
    m.pid = pid ∧ os.current pid = some m.identity := by
  obtain ⟨p, held, rfl⟩ := Option.map_eq_some_iff.mp found
  simp [current, held, ProcessMetadata.identity]

theorem step_current {a : OsAction} (taken : os.step a = some next) (pid : Pid) :
    (a.SpawnsAt pid ∧ os.current pid = none ∧
        ∃ i, next.current pid = some i ∧ i ∉ os.started ∧ i ∈ next.started) ∨
      (¬a.SpawnsAt pid ∧ (next.current pid = os.current pid ∨ next.current pid = none)) := by
  cases a with
  | spawn other name startTime =>
    simp only [step] at taken
    split_ifs at taken with free
    rw [← Option.some.inj taken]
    by_cases here : other = pid
    · left
      subst here
      refine ⟨rfl, by simp [current, free.1], ⟨other, startTime⟩, ?_, free.2, ?_⟩
      · simp [current, setHolder]
      · exact List.mem_cons_self
    · right
      refine ⟨here, .inl ?_⟩
      simp [current, setHolder, Ne.symm here]
  | exit other =>
    obtain ⟨p, held, eq⟩ := Option.map_eq_some_iff.mp taken
    rw [← eq]
    refine .inr ⟨id, .inl ?_⟩
    by_cases here : pid = other
    · simp [current, setHolder, here, held]
    · simp [current, setHolder, here]
  | reap other =>
    simp only [step] at taken
    split at taken
    · split_ifs at taken
      rw [← Option.some.inj taken]
      refine .inr ⟨id, ?_⟩
      by_cases here : pid = other
      · simp [current, setHolder, here]
      · simp [current, setHolder, here]
    · cases taken
  | rename other name =>
    obtain ⟨p, held, eq⟩ := Option.map_eq_some_iff.mp taken
    rw [← eq]
    refine .inr ⟨id, .inl ?_⟩
    by_cases here : pid = other
    · simp [current, setHolder, here, held]
    · simp [current, setHolder, here]

theorem step_started {a : OsAction} (taken : os.step a = some next) {i : Instance}
    (old : i ∈ os.started) : i ∈ next.started := by
  cases a with
  | spawn other name startTime =>
    simp only [step] at taken
    split_ifs at taken
    rw [← Option.some.inj taken]
    exact List.mem_cons_of_mem _ old
  | exit other =>
    obtain ⟨p, -, eq⟩ := Option.map_eq_some_iff.mp taken
    exact eq ▸ old
  | reap other =>
    simp only [step] at taken
    split at taken
    · split_ifs at taken
      exact Option.some.inj taken ▸ old
    · cases taken
  | rename other name =>
    obtain ⟨p, -, eq⟩ := Option.map_eq_some_iff.mp taken
    exact eq ▸ old

def Recorded (os : Os) : Prop :=
  ∀ pid i, os.current pid = some i → i ∈ os.started

theorem empty_recorded : Recorded empty := by
  intro pid i held
  cases held

theorem step_recorded {a : OsAction} (taken : os.step a = some next) (inv : os.Recorded) :
    next.Recorded := by
  intro pid i held
  obtain ⟨-, -, j, now, -, new⟩ | ⟨-, same | free⟩ := step_current taken pid
  · rw [now] at held
    exact Option.some.inj held ▸ new
  · rw [same] at held
    exact step_started taken (inv pid i held)
  · rw [free] at held
    cases held

end Os

end KnotOps.Sys
