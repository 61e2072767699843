import KnotOps.Sys.Process

/-! `KillHandle::kill`: a graceful phase and then a forceful one.
Each phase is a permission check, a signal and a wait on a process of any
backend; a logged backend keeps every call of its operations with its result.  A
state of the backend has a time and a timeline of the process, which the calls may
change: when it exits, if ever.  A backend is truthful when what it reports agrees
with the timeline. -/

namespace KnotOps.Facade

open KnotOps.Sys (ProcessError)

variable {σ : Type}

/-- The operations of a `ProcessControl`, on a backend state with a clock. -/
structure ProcessControl (σ : Type) where
  checkPermissions : σ → Except ProcessError Unit × σ
  kill : σ → Except ProcessError Unit × σ
  terminate : σ → Except ProcessError Unit × σ
  wait (timeout : Nat) : σ → Except ProcessError Bool × σ
  now : σ → Nat

/-- The process has exited at the time, or before it. -/
def ExitedBy (exitTime : Option Nat) (time : Nat) : Prop :=
  ∃ exit, exitTime = some exit ∧ exit ≤ time

def ProcessControl.Exited (control : ProcessControl σ) (exitTime : σ → Option Nat) (s : σ) :
    Prop :=
  ExitedBy (exitTime s) (control.now s)

structure Truthful (control : ProcessControl σ) (exitTime : σ → Option Nat) : Prop where
  checkPermissions : ∀ s, (control.checkPermissions s).1 = .error .notRunning →
    control.Exited exitTime (control.checkPermissions s).2
  kill : ∀ s, (control.kill s).1 = .error .notRunning →
    control.Exited exitTime (control.kill s).2
  terminate : ∀ s, (control.terminate s).1 = .error .notRunning →
    control.Exited exitTime (control.terminate s).2
  wait_notRunning : ∀ timeout s, (control.wait timeout s).1 = .error .notRunning →
    control.Exited exitTime (control.wait timeout s).2
  wait_exited : ∀ timeout s, (control.wait timeout s).1 = .ok true →
    control.Exited exitTime (control.wait timeout s).2
  wait_running : ∀ timeout s, (control.wait timeout s).1 = .ok false →
    ¬ExitedBy (exitTime (control.wait timeout s).2) (control.now s + timeout)

inductive KillPhase where
  | graceful
  | forceful
deriving DecidableEq, Repr

inductive CallRecord where
  | checkPermissions (result : Except ProcessError Unit)
  | kill (result : Except ProcessError Unit)
  | terminate (result : Except ProcessError Unit)
  | wait (start timeout : Nat) (result : Except ProcessError Bool)

namespace CallRecord

def error? : CallRecord → Option ProcessError
  | checkPermissions (.error error) | kill (.error error) | terminate (.error error)
  | wait _ _ (.error error) => some error
  | checkPermissions (.ok _) | kill (.ok _) | terminate (.ok _) | wait _ _ (.ok _) => none

/-- The termination request that the call is. -/
def request? : CallRecord → Option KillPhase
  | terminate _ => some .graceful
  | kill _ => some .forceful
  | checkPermissions _ | wait _ _ _ => none

end CallRecord

/-- A backend with the calls made of it so far. -/
structure Killing (σ : Type) where
  backend : σ
  calls : List CallRecord

def Killing.log {α : Type} (k : Killing σ) (record : Except ProcessError α → CallRecord)
    (done : Except ProcessError α × σ) : Except ProcessError α × Killing σ :=
  (done.1, ⟨done.2, k.calls ++ [record done.1]⟩)

/-- The same operations, each of which keeps a record of its calls. -/
def ProcessControl.logged (control : ProcessControl σ) : ProcessControl (Killing σ) where
  checkPermissions k := k.log .checkPermissions (control.checkPermissions k.backend)
  kill k := k.log .kill (control.kill k.backend)
  terminate k := k.log .terminate (control.terminate k.backend)
  wait timeout k :=
    k.log (.wait (control.now k.backend) timeout) (control.wait timeout k.backend)
  now k := control.now k.backend

/-- `PlatformProcess::terminate` and `PlatformProcess::kill`, which differ in the
signal that they send. -/
def signalAndWait (control : ProcessControl σ) (signal : σ → Except ProcessError Unit × σ)
    (timeout : Nat) (s : σ) : Except ProcessError Bool × σ :=
  match control.checkPermissions s with
  | (.error error, s) => (.error error, s)
  | (.ok (), s) =>
    match signal s with
    | (.error error, s) => (.error error, s)
    | (.ok (), s) => control.wait timeout s

def PlatformProcess.terminate (control : ProcessControl σ) (timeout : Nat) (s : σ) :
    Except ProcessError Bool × σ :=
  signalAndWait control control.terminate timeout s

def PlatformProcess.kill (control : ProcessControl σ) (timeout : Nat) (s : σ) :
    Except ProcessError Bool × σ :=
  signalAndWait control control.kill timeout s

structure KillPolicy where
  gracefulTimeout : Nat
  forceTimeout : Nat
deriving DecidableEq, Repr

structure StaleHandle where
  runtimeDir : String
  daemonPath : String
  policy : KillPolicy
deriving DecidableEq, Repr

structure KillHandle where
  runtimeDir : String
  daemonPath : String
  policy : KillPolicy
deriving DecidableEq, Repr

inductive SignalError where
  | processError (error : ProcessError)
  | notResponding
deriving DecidableEq, Repr

namespace KillHandle

def stale (handle : KillHandle) : StaleHandle :=
  ⟨handle.runtimeDir, handle.daemonPath, handle.policy⟩

def force (handle : KillHandle) (control : ProcessControl σ) (s : σ) :
    Except SignalError StaleHandle × σ :=
  match PlatformProcess.kill control handle.policy.forceTimeout s with
  | (.ok true, s) => (.ok handle.stale, s)
  | (.ok false, s) => (.error .notResponding, s)
  | (.error .notRunning, s) => (.ok handle.stale, s)
  | (.error error, s) => (.error (.processError error), s)

def kill (handle : KillHandle) (control : ProcessControl σ) (s : σ) :
    Except SignalError StaleHandle × σ :=
  if handle.policy.gracefulTimeout = 0 then handle.force control s
  else
    match PlatformProcess.terminate control handle.policy.gracefulTimeout s with
    | (.ok true, s) => (.ok handle.stale, s)
    | (.ok false, s) => handle.force control s
    | (.error .notRunning, s) => (.ok handle.stale, s)
    | (.error (.mismatch expected actual), s) =>
      (.error (.processError (.mismatch expected actual)), s)
    | (.error (.io kind), s) => (.error (.processError (.io kind)), s)
    | (.error error, s) => (.error (.processError error), s)

end KillHandle

def ProcessControl.signal (control : ProcessControl σ) :
    KillPhase → σ → Except ProcessError Unit × σ
  | .graceful => control.terminate
  | .forceful => control.kill

namespace CallRecord

def signal : KillPhase → Except ProcessError Unit → CallRecord
  | .graceful => .terminate
  | .forceful => .kill

@[simp] theorem request?_checkPermissions (result : Except ProcessError Unit) :
    (checkPermissions result).request? = none := rfl

@[simp] theorem request?_wait (start timeout : Nat) (result : Except ProcessError Bool) :
    (wait start timeout result).request? = none := rfl

@[simp] theorem request?_signal (phase : KillPhase) (result : Except ProcessError Unit) :
    (signal phase result).request? = some phase := by
  cases phase <;> rfl

@[simp] theorem error?_signal_ok (phase : KillPhase) :
    (signal phase (.ok ())).error? = none := by
  cases phase <;> rfl

@[simp] theorem error?_signal_error (phase : KillPhase) (error : ProcessError) :
    (signal phase (.error error)).error? = some error := by
  cases phase <;> rfl

@[simp] theorem signal_ne_wait (phase : KillPhase) (sent : Except ProcessError Unit)
    (start timeout : Nat) (result : Except ProcessError Bool) :
    signal phase sent ≠ .wait start timeout result := by
  cases phase <;> simp [signal]

end CallRecord

inductive PhaseCalls (phase : KillPhase) (timeout : Nat) :
    Except ProcessError Bool → List CallRecord → Prop
  | denied (error : ProcessError) :
      PhaseCalls phase timeout (.error error) [.checkPermissions (.error error)]
  | refused (error : ProcessError) :
      PhaseCalls phase timeout (.error error)
        [.checkPermissions (.ok ()), .signal phase (.error error)]
  | waited (start : Nat) (result : Except ProcessError Bool) :
      PhaseCalls phase timeout result
        [.checkPermissions (.ok ()), .signal phase (.ok ()), .wait start timeout result]

def Confirms : Except ProcessError Bool → Prop
  | .ok true | .error .notRunning => True
  | .ok false | .error _ => False

structure Ends (control : ProcessControl σ) (exitTime : σ → Option Nat)
    (result : Except ProcessError Bool) (calls : List CallRecord) (backend : σ) : Prop where
  confirmed : Confirms result → control.Exited exitTime backend
  running : ∀ start timeout, calls.getLast? = some (.wait start timeout (.ok false)) →
    ¬ExitedBy (exitTime backend) (start + timeout)

theorem confirms_error {error : ProcessError} :
    Confirms (.error error) ↔ error = .notRunning := by
  cases error <;> simp [Confirms]

section Phase

variable {control : ProcessControl σ} {exitTime : σ → Option Nat}

theorem Truthful.signal (truthful : Truthful control exitTime) (phase : KillPhase) (s : σ)
    (gone : (control.signal phase s).1 = .error .notRunning) :
    control.Exited exitTime (control.signal phase s).2 := by
  cases phase with
  | graceful => exact truthful.terminate s gone
  | forceful => exact truthful.kill s gone

@[simp] theorem logged_checkPermissions (control : ProcessControl σ) (k : Killing σ) :
    control.logged.checkPermissions k =
      k.log .checkPermissions (control.checkPermissions k.backend) := rfl

@[simp] theorem logged_wait (control : ProcessControl σ) (timeout : Nat) (k : Killing σ) :
    control.logged.wait timeout k =
      k.log (.wait (control.now k.backend) timeout) (control.wait timeout k.backend) := rfl

@[simp] theorem logged_signal (control : ProcessControl σ) (phase : KillPhase) (k : Killing σ) :
    control.logged.signal phase k = k.log (.signal phase) (control.signal phase k.backend) := by
  cases phase <;> rfl

theorem signalAndWait_calls (truthful : Truthful control exitTime) (phase : KillPhase)
    (timeout : Nat) (k : Killing σ) :
    ∃ result calls backend,
      signalAndWait control.logged (control.logged.signal phase) timeout k =
        (result, ⟨backend, k.calls ++ calls⟩) ∧
      signalAndWait control (control.signal phase) timeout k.backend = (result, backend) ∧
      PhaseCalls phase timeout result calls ∧ Ends control exitTime result calls backend := by
  have check_true := truthful.checkPermissions k.backend
  cases checks : control.checkPermissions k.backend with
  | mk check s =>
    rw [checks] at check_true
    cases check with
    | error error =>
      refine ⟨_, _, s, by simp [signalAndWait, Killing.log, checks],
        by simp [signalAndWait, checks], .denied error, ?_, ?_⟩
      · intro gone
        exact check_true (by rw [confirms_error.mp gone])
      · simp
    | ok _ =>
      have signal_true := truthful.signal phase s
      cases sent : control.signal phase s with
      | mk answer s' =>
        rw [sent] at signal_true
        cases answer with
        | error error =>
          refine ⟨_, _, s', ?_, ?_, .refused error, ?_, ?_⟩
          · simp [signalAndWait, Killing.log, checks, sent]
          · simp [signalAndWait, checks, sent]
          · intro gone
            exact signal_true (by rw [confirms_error.mp gone])
          · simp
        | ok _ =>
          have exited := truthful.wait_exited timeout s'
          have vanished := truthful.wait_notRunning timeout s'
          have running := truthful.wait_running timeout s'
          cases waits : control.wait timeout s' with
          | mk result last =>
            rw [waits] at exited vanished running
            refine ⟨result, _, last, ?_, ?_, .waited (control.now s') result, ?_, ?_⟩
            · simp [signalAndWait, Killing.log, checks, sent, waits]
            · simp [signalAndWait, checks, sent, waits]
            · intro gone
              match result, gone with
              | .ok true, _ => exact exited rfl
              | .error error, gone => exact vanished (by rw [confirms_error.mp gone])
            · intro start limit final
              simp only [List.getLast?_cons_cons, List.getLast?_singleton, Option.some.injEq,
                CallRecord.wait.injEq] at final
              obtain ⟨rfl, rfl, same⟩ := final
              exact running same

end Phase

namespace PhaseCalls

variable {phase : KillPhase} {timeout : Nat} {result : Except ProcessError Bool}
  {calls : List CallRecord}

theorem ne_nil (h : PhaseCalls phase timeout result calls) : calls ≠ [] := by
  cases h <;> exact List.cons_ne_nil _ _

theorem checks_first (h : PhaseCalls phase timeout result calls) :
    ∃ answer, calls.head? = some (.checkPermissions answer) := by
  cases h <;> exact ⟨_, rfl⟩

theorem first_request (h : PhaseCalls phase timeout result calls) {rest : List CallRecord}
    (allowed : calls = .checkPermissions (.ok ()) :: rest) :
    rest.head?.bind CallRecord.request? = some phase := by
  cases h with
  | denied => cases allowed
  | refused | waited =>
    obtain ⟨-, rfl⟩ := List.cons.inj allowed
    simp

theorem requests (h : PhaseCalls phase timeout result calls) :
    (calls.filterMap CallRecord.request?).Sublist [phase] := by
  cases h <;> simp [List.filterMap_cons]

theorem stops (h : PhaseCalls phase timeout result calls) {c : CallRecord}
    (mem : c ∈ calls.dropLast) :
    c.error? = none ∧ ∀ start timeout, c ≠ .wait start timeout (.ok true) := by
  cases h with
  | denied => cases mem
  | refused =>
    obtain rfl : c = .checkPermissions (.ok ()) := by simpa using mem
    exact ⟨rfl, by simp⟩
  | waited =>
    obtain rfl | rfl : c = .checkPermissions (.ok ()) ∨ c = .signal phase (.ok ()) := by
      simpa using mem
    · exact ⟨rfl, by simp⟩
    · simp

theorem of_error (h : PhaseCalls phase timeout result calls) {c : CallRecord} (mem : c ∈ calls)
    {error : ProcessError} (failed : c.error? = some error) :
    result = .error error ∧ calls.getLast? = some c := by
  cases h with
  | denied e =>
    rw [List.mem_singleton.mp mem] at failed ⊢
    simpa [CallRecord.error?] using failed
  | refused e =>
    simp only [List.mem_cons, List.not_mem_nil, or_false] at mem
    obtain rfl | rfl := mem
    · cases failed
    · simpa using failed
  | waited start =>
    simp only [List.mem_cons, List.not_mem_nil, or_false] at mem
    obtain rfl | rfl | rfl := mem
    · cases failed
    · simp at failed
    · cases result with
      | ok _ => cases failed
      | error e => simpa [CallRecord.error?] using failed

theorem exists_error {error : ProcessError} (h : PhaseCalls phase timeout (.error error) calls) :
    ∃ c ∈ calls, c.error? = some error := by
  cases h with
  | denied => exact ⟨_, List.mem_cons_self, rfl⟩
  | refused => exact ⟨_, List.mem_cons_of_mem _ List.mem_cons_self, by simp⟩
  | waited start => exact ⟨.wait start timeout (.error error), by simp, rfl⟩

theorem exists_wait {exited : Bool} (h : PhaseCalls phase timeout (.ok exited) calls) :
    ∃ start, calls = [.checkPermissions (.ok ()), .signal phase (.ok ()),
      .wait start timeout (.ok exited)] := by
  cases h with
  | waited start => exact ⟨start, rfl⟩

end PhaseCalls

def KillHandle.conclude (handle : KillHandle) :
    Except ProcessError Bool → Except SignalError StaleHandle
  | .ok true | .error .notRunning => .ok handle.stale
  | .ok false => .error .notResponding
  | .error error => .error (.processError error)

theorem KillHandle.conclude_ok {handle : KillHandle} {result : Except ProcessError Bool}
    {stale : StaleHandle} (done : handle.conclude result = .ok stale) : Confirms result := by
  match result with
  | .ok true => trivial
  | .ok false => cases done
  | .error .notRunning => trivial
  | .error .reused | .error (.mismatch _ _) | .error (.io _) => cases done

theorem KillHandle.conclude_error (handle : KillHandle) {error : ProcessError}
    (other : error ≠ .notRunning) :
    handle.conclude (.error error) = .error (.processError error) := by
  cases error with
  | notRunning => exact absurd rfl other
  | reused | mismatch | io => rfl

theorem KillHandle.conclude_notResponding {handle : KillHandle}
    {result : Except ProcessError Bool}
    (failed : handle.conclude result = .error .notResponding) : result = .ok false := by
  match result with
  | .ok false => rfl
  | .ok true | .error .notRunning | .error .reused | .error (.mismatch _ _) | .error (.io _) =>
    cases failed

theorem KillHandle.conclude_stale {handle : KillHandle} {result : Except ProcessError Bool}
    {stale : StaleHandle} (done : handle.conclude result = .ok stale) : stale = handle.stale := by
  match result with
  | .ok true | .error .notRunning => exact (Except.ok.inj done).symm
  | .ok false | .error .reused | .error (.mismatch _ _) | .error (.io _) => cases done

theorem KillHandle.force_eq (handle : KillHandle) (control : ProcessControl σ) (s : σ) :
    handle.force control s =
      (handle.conclude (PlatformProcess.kill control handle.policy.forceTimeout s).1,
        (PlatformProcess.kill control handle.policy.forceTimeout s).2) := by
  unfold force
  generalize PlatformProcess.kill control handle.policy.forceTimeout s = done
  obtain ⟨result, s'⟩ := done
  match result with
  | .ok true | .ok false | .error .notRunning | .error .reused | .error (.mismatch _ _)
    | .error (.io _) => rfl

theorem KillHandle.kill_eq (handle : KillHandle) (control : ProcessControl σ) (s : σ)
    (asked : handle.policy.gracefulTimeout ≠ 0)
    (settled : (PlatformProcess.terminate control handle.policy.gracefulTimeout s).1 ≠ .ok false) :
    handle.kill control s =
      (handle.conclude (PlatformProcess.terminate control handle.policy.gracefulTimeout s).1,
        (PlatformProcess.terminate control handle.policy.gracefulTimeout s).2) := by
  rw [kill, if_neg asked]
  generalize PlatformProcess.terminate control handle.policy.gracefulTimeout s = done at settled ⊢
  obtain ⟨result, s'⟩ := done
  match result with
  | .ok false => exact absurd rfl settled
  | .ok true | .error .notRunning | .error .reused | .error (.mismatch _ _) | .error (.io _) => rfl

theorem KillHandle.kill_escalates (handle : KillHandle) (control : ProcessControl σ)
    (s : σ) (asked : handle.policy.gracefulTimeout ≠ 0)
    (timedOut : (PlatformProcess.terminate control handle.policy.gracefulTimeout s).1 = .ok false) :
    handle.kill control s = handle.force control
      (PlatformProcess.terminate control handle.policy.gracefulTimeout s).2 := by
  rw [kill, if_neg asked]
  generalize PlatformProcess.terminate control handle.policy.gracefulTimeout s = done at timedOut ⊢
  obtain ⟨result, s'⟩ := done
  obtain rfl : result = .ok false := timedOut
  rfl

inductive KillCalls (policy : KillPolicy) : Except ProcessError Bool → List CallRecord → Prop
  | forced {result : Except ProcessError Bool} {calls : List CallRecord}
      (skipped : policy.gracefulTimeout = 0)
      (force : PhaseCalls .forceful policy.forceTimeout result calls) :
      KillCalls policy result calls
  | graceful {result : Except ProcessError Bool} {calls : List CallRecord}
      (asked : policy.gracefulTimeout ≠ 0)
      (terminate : PhaseCalls .graceful policy.gracefulTimeout result calls)
      (settled : result ≠ .ok false) : KillCalls policy result calls
  | escalated {result : Except ProcessError Bool} {before calls : List CallRecord}
      (asked : policy.gracefulTimeout ≠ 0)
      (terminate : PhaseCalls .graceful policy.gracefulTimeout (.ok false) before)
      (force : PhaseCalls .forceful policy.forceTimeout result calls) :
      KillCalls policy result (before ++ calls)

theorem KillHandle.force_calls {control : ProcessControl σ} {exitTime : σ → Option Nat}
    (truthful : Truthful control exitTime) (handle : KillHandle) (k : Killing σ) :
    ∃ result calls backend,
      handle.force control.logged k = (handle.conclude result, ⟨backend, k.calls ++ calls⟩) ∧
        handle.force control k.backend = (handle.conclude result, backend) ∧
        PhaseCalls .forceful handle.policy.forceTimeout result calls ∧
        Ends control exitTime result calls backend := by
  obtain ⟨result, calls, backend, logged, plain, phase, ends⟩ :=
    signalAndWait_calls truthful .forceful handle.policy.forceTimeout k
  have killed : PlatformProcess.kill control.logged handle.policy.forceTimeout k =
      (result, ⟨backend, k.calls ++ calls⟩) := logged
  have killed' : PlatformProcess.kill control handle.policy.forceTimeout k.backend =
      (result, backend) := plain
  exact ⟨result, calls, backend, by rw [handle.force_eq, killed], by rw [handle.force_eq, killed'],
    phase, ends⟩

theorem KillHandle.kill_calls {control : ProcessControl σ} {exitTime : σ → Option Nat}
    (truthful : Truthful control exitTime) (handle : KillHandle) (backend : σ) :
    ∃ result calls last,
      handle.kill control.logged ⟨backend, []⟩ = (handle.conclude result, ⟨last, calls⟩) ∧
        handle.kill control backend = (handle.conclude result, last) ∧
        KillCalls handle.policy result calls ∧ Ends control exitTime result calls last := by
  by_cases skipped : handle.policy.gracefulTimeout = 0
  · obtain ⟨result, calls, last, logged, plain, phase, ends⟩ :=
      handle.force_calls truthful ⟨backend, []⟩
    refine ⟨result, calls, last, ?_, ?_, .forced skipped phase, ends⟩
    · rw [kill, if_pos skipped, logged]
      rfl
    · rw [kill, if_pos skipped, plain]
  · obtain ⟨answer, before, s, logged, plain, asked, first⟩ :=
      signalAndWait_calls truthful .graceful handle.policy.gracefulTimeout ⟨backend, []⟩
    have terminated : PlatformProcess.terminate control.logged handle.policy.gracefulTimeout
        ⟨backend, []⟩ = (answer, ⟨s, before⟩) := logged
    have terminated' : PlatformProcess.terminate control handle.policy.gracefulTimeout backend =
        (answer, s) := plain
    by_cases timedOut : answer = .ok false
    · obtain ⟨result, calls, last, forced, forced', phase, second⟩ :=
        handle.force_calls truthful ⟨s, before⟩
      rw [timedOut] at asked terminated terminated'
      refine ⟨result, before ++ calls, last, ?_, ?_, .escalated skipped asked phase,
        second.confirmed, ?_⟩
      · rw [handle.kill_escalates _ _ skipped (by rw [terminated]), terminated, forced]
      · rw [handle.kill_escalates _ _ skipped (by rw [terminated']), terminated', forced']
      · intro start timeout final
        rw [List.getLast?_append_of_ne_nil before phase.ne_nil] at final
        exact second.running start timeout final
    · refine ⟨answer, before, s, ?_, ?_, .graceful skipped asked timedOut, first⟩
      · rw [handle.kill_eq _ _ skipped (by rw [terminated]; exact timedOut), terminated]
      · rw [handle.kill_eq _ _ skipped (by rw [terminated']; exact timedOut), terminated']

namespace KillCalls

variable {policy : KillPolicy} {result : Except ProcessError Bool} {calls : List CallRecord}

theorem checks_first (h : KillCalls policy result calls) :
    ∃ answer, calls.head? = some (.checkPermissions answer) := by
  cases h with
  | forced skipped force => exact force.checks_first
  | graceful asked terminate settled => exact terminate.checks_first
  | escalated asked terminate force =>
    obtain ⟨start, rfl⟩ := terminate.exists_wait
    exact ⟨_, rfl⟩

theorem first_request (h : KillCalls policy result calls) {rest : List CallRecord}
    (allowed : calls = .checkPermissions (.ok ()) :: rest) :
    rest.head?.bind CallRecord.request? =
      some (if policy.gracefulTimeout = 0 then .forceful else .graceful) := by
  cases h with
  | forced skipped force => rw [force.first_request allowed, if_pos skipped]
  | graceful asked terminate settled => rw [terminate.first_request allowed, if_neg asked]
  | escalated asked terminate force =>
    obtain ⟨start, rfl⟩ := terminate.exists_wait
    obtain ⟨-, rfl⟩ := List.cons.inj allowed
    rw [if_neg asked]
    rfl

theorem requests (h : KillCalls policy result calls) :
    (calls.filterMap CallRecord.request?).Sublist [.graceful, .forceful] := by
  cases h with
  | forced skipped force => exact force.requests.cons _
  | graceful asked terminate settled =>
    have single : List.Sublist [KillPhase.graceful] [.graceful, .forceful] := by decide
    exact terminate.requests.trans single
  | escalated asked terminate force =>
    rw [List.filterMap_append]
    exact terminate.requests.append force.requests

theorem skips_graceful (h : KillCalls policy result calls)
    (skipped : policy.gracefulTimeout = 0) :
    KillPhase.graceful ∉ calls.filterMap CallRecord.request? := by
  cases h with
  | forced skipped force =>
    intro asked
    have only := force.requests.subset asked
    simp at only
  | graceful asked | escalated asked => exact absurd skipped asked

theorem escalates (h : KillCalls policy result calls)
    (forceful : KillPhase.forceful ∈ calls.filterMap CallRecord.request?) :
    policy.gracefulTimeout = 0 ∨ ∃ start,
      [.checkPermissions (.ok ()), .terminate (.ok ()),
        .wait start policy.gracefulTimeout (.ok false)] <+: calls := by
  cases h with
  | forced skipped force => exact .inl skipped
  | graceful asked terminate settled =>
    have only := terminate.requests.subset forceful
    simp at only
  | escalated asked terminate force =>
    obtain ⟨start, rfl⟩ := terminate.exists_wait
    exact .inr ⟨start, List.prefix_append _ _⟩

theorem stops (h : KillCalls policy result calls) {c : CallRecord} (mem : c ∈ calls.dropLast) :
    c.error? = none ∧ ∀ start timeout, c ≠ .wait start timeout (.ok true) := by
  cases h with
  | forced skipped force => exact force.stops mem
  | graceful asked terminate settled => exact terminate.stops mem
  | escalated asked terminate force =>
    rw [List.dropLast_append_of_ne_nil force.ne_nil, List.mem_append] at mem
    obtain before | mem := mem
    · obtain ⟨start, rfl⟩ := terminate.exists_wait
      simp only [List.mem_cons, List.not_mem_nil, or_false] at before
      obtain rfl | rfl | rfl := before <;> exact ⟨rfl, by simp [CallRecord.signal]⟩
    · exact force.stops mem

theorem of_error (h : KillCalls policy result calls) {c : CallRecord} (mem : c ∈ calls)
    {error : ProcessError} (failed : c.error? = some error) :
    result = .error error ∧ calls.getLast? = some c := by
  cases h with
  | forced skipped force => exact force.of_error mem failed
  | graceful asked terminate settled => exact terminate.of_error mem failed
  | escalated asked terminate force =>
    obtain mem | mem := List.mem_append.mp mem
    · cases (terminate.of_error mem failed).1
    · obtain ⟨returned, last⟩ := force.of_error mem failed
      refine ⟨returned, ?_⟩
      rw [List.getLast?_append_of_ne_nil _ force.ne_nil]
      exact last

theorem exists_error {error : ProcessError} (h : KillCalls policy (.error error) calls) :
    ∃ c ∈ calls, c.error? = some error := by
  cases h with
  | forced skipped force => exact force.exists_error
  | graceful asked terminate settled => exact terminate.exists_error
  | escalated asked terminate force =>
    obtain ⟨c, mem, failed⟩ := force.exists_error
    exact ⟨c, List.mem_append_right _ mem, failed⟩

theorem exists_wait (h : KillCalls policy (.ok false) calls) :
    ∃ start, [.kill (.ok ()), .wait start policy.forceTimeout (.ok false)] <:+ calls := by
  have forced {calls : List CallRecord}
      (force : PhaseCalls .forceful policy.forceTimeout (.ok false) calls) :
      ∃ start, [.kill (.ok ()), .wait start policy.forceTimeout (.ok false)] <:+ calls := by
    obtain ⟨start, rfl⟩ := force.exists_wait
    exact ⟨start, List.suffix_cons _ _⟩
  cases h with
  | forced skipped force => exact forced force
  | graceful asked terminate settled => exact absurd rfl settled
  | escalated asked terminate force =>
    obtain ⟨start, last⟩ := forced force
    exact ⟨start, last.trans (List.suffix_append _ _)⟩

end KillCalls

theorem Ends.of_suffix {control : ProcessControl σ} {exitTime : σ → Option Nat}
    {result : Except ProcessError Bool} {calls : List CallRecord} {backend : σ}
    (ends : Ends control exitTime result calls backend) {c : CallRecord} {start timeout : Nat}
    (last : [c, .wait start timeout (.ok false)] <:+ calls) :
    ¬ExitedBy (exitTime backend) (start + timeout) := by
  obtain ⟨before, rfl⟩ := last
  exact ends.running start timeout (by simp)

/-- `kill` with a truthful backend. -/
structure Kills (control : ProcessControl σ) (exitTime : σ → Option Nat) (policy : KillPolicy)
    (result : Except SignalError StaleHandle) (k : Killing σ) : Prop where
  sound : ∀ stale, result = .ok stale → control.Exited exitTime k.backend
  checks_first : ∃ answer, k.calls.head? = some (.checkPermissions answer)
  first_request : ∀ rest, k.calls = .checkPermissions (.ok ()) :: rest →
    rest.head?.bind CallRecord.request? =
      some (if policy.gracefulTimeout = 0 then .forceful else .graceful)
  requests : (k.calls.filterMap CallRecord.request?).Sublist [.graceful, .forceful]
  skips_graceful : policy.gracefulTimeout = 0 →
    KillPhase.graceful ∉ k.calls.filterMap CallRecord.request?
  escalates : KillPhase.forceful ∈ k.calls.filterMap CallRecord.request? →
    policy.gracefulTimeout = 0 ∨ ∃ start,
      [.checkPermissions (.ok ()), .terminate (.ok ()),
        .wait start policy.gracefulTimeout (.ok false)] <+: k.calls
  stops : ∀ c ∈ k.calls.dropLast,
    c.error? = none ∧ ∀ start timeout, c ≠ .wait start timeout (.ok true)
  returns_error : ∀ c ∈ k.calls, ∀ error, c.error? = some error → error ≠ .notRunning →
    result = .error (.processError error) ∧ k.calls.getLast? = some c
  completes : (∀ c ∈ k.calls, ∀ error, c.error? = some error → error = .notRunning) →
    (∀ start answer, [.kill (.ok ()), .wait start policy.forceTimeout answer] <:+: k.calls →
      ExitedBy (exitTime k.backend) (start + policy.forceTimeout)) →
    ∃ stale, result = .ok stale

theorem kill_sound_and_escalates (control : ProcessControl σ) (exitTime : σ → Option Nat)
    (truthful : Truthful control exitTime) (handle : KillHandle) (backend : σ) :
    ∃ calls, handle.kill control.logged ⟨backend, []⟩ =
        ((handle.kill control backend).1, ⟨(handle.kill control backend).2, calls⟩) ∧
      Kills control exitTime handle.policy (handle.kill control backend).1
        ⟨(handle.kill control backend).2, calls⟩ := by
  obtain ⟨result, calls, last, logged, plain, shape, ends⟩ := handle.kill_calls truthful backend
  rw [logged, plain]
  refine ⟨calls, rfl, ?_⟩
  constructor
  · intro stale ok
    exact ends.confirmed (KillHandle.conclude_ok ok)
  · exact shape.checks_first
  · intro rest allowed
    exact shape.first_request allowed
  · exact shape.requests
  · exact shape.skips_graceful
  · exact shape.escalates
  · intro c mem
    exact shape.stops mem
  · intro c mem error failed other
    obtain ⟨returned, final⟩ := shape.of_error mem failed
    rw [returned]
    exact ⟨handle.conclude_error other, final⟩
  · intro harmless inTime
    match result with
    | .ok true => exact ⟨_, rfl⟩
    | .ok false =>
      obtain ⟨start, waited⟩ := shape.exists_wait
      exact absurd (inTime start _ waited.isInfix) (ends.of_suffix waited)
    | .error error =>
      obtain ⟨c, mem, failed⟩ := shape.exists_error
      rw [harmless c mem error failed]
      exact ⟨_, rfl⟩

/-- A process that ignores `terminate` and exits some time after `kill`; a state is
the time and the timeline. -/
def ignoresTerminate (delay : Nat) : ProcessControl (Nat × Option Nat) where
  checkPermissions s := (.ok (), s)
  kill s := (.ok (), (s.1, s.2.or (some (s.1 + delay))))
  terminate s := (.ok (), s)
  wait timeout s := (.ok (s.2.any (· ≤ s.1 + timeout)), (s.1 + timeout, s.2))
  now s := s.1

theorem ignoresTerminate_truthful (delay : Nat) : Truthful (ignoresTerminate delay) Prod.snd := by
  constructor
  · intro s failed
    cases failed
  · intro s failed
    cases failed
  · intro s failed
    cases failed
  · intro timeout s failed
    cases failed
  · intro timeout s exited
    have reached : s.2.any (· ≤ s.1 + timeout) = true := Except.ok.inj exited
    obtain ⟨exit, same, early⟩ := (Option.any_eq_true _ _).mp reached
    exact ⟨exit, same, of_decide_eq_true early⟩
  · rintro timeout s running ⟨exit, same, reached⟩
    have late : s.2.any (· ≤ s.1 + timeout) = false := Except.ok.inj running
    rw [show s.2 = some exit from same] at late
    exact absurd reached (of_decide_eq_false late)

theorem kill_sound_and_escalates_ignoresTerminate :
    ∃ calls, KillHandle.kill ⟨"run", "knotd", ⟨200, 100⟩⟩ (ignoresTerminate 30).logged
        ⟨(0, none), []⟩ = (.ok ⟨"run", "knotd", ⟨200, 100⟩⟩, ⟨(300, some 230), calls⟩) ∧
      Kills (ignoresTerminate 30) Prod.snd ⟨200, 100⟩ (.ok ⟨"run", "knotd", ⟨200, 100⟩⟩)
        ⟨(300, some 230), calls⟩ :=
  kill_sound_and_escalates (ignoresTerminate 30) Prod.snd (ignoresTerminate_truthful 30)
    ⟨"run", "knotd", ⟨200, 100⟩⟩ (0, none)

end KnotOps.Facade
