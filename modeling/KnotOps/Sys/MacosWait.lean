import KnotOps.Poll
import KnotOps.Sys.Process

/-! `MacosProcessHandle::wait` between the steps of the operating system.
macOS has no pidfd, so the wait is a polling loop: it compares the metadata of the PID
with the fingerprint, at most once every 100 milliseconds, until the PID is free, is
another process's, or the deadline has come.  Time is in nanoseconds and passes between
any two steps.  A process that has exited and has not been reaped holds its PID, and
is there for the loop. -/

namespace KnotOps.Sys

open Machine Poll

namespace Os

variable {os next : Os} {a : OsAction} {i : Instance}

theorem isRunning_of_step (taken : os.step a = some next) (started : i ∈ os.started)
    (running : next.isRunning i) : os.isRunning i := by
  obtain ⟨-, -, j, now, new, -⟩ | ⟨-, same | free⟩ := step_current taken i.pid
  · rw [isRunning, now] at running
    exact absurd started (Option.some.inj running ▸ new)
  · rwa [isRunning, same] at running
  · rw [isRunning, free] at running
    cases running

end Os

/-- `MacosProcessHandle::check_identity`, where the lookup itself does not fail. -/
def checkIdentity (os : Os) (fingerprint : ProcessMetadata) : Except ProcessError Bool :=
  match extract os fingerprint.pid with
  | some metadata => if metadata = fingerprint then .ok true else .error .reused
  | none => .ok false

def existsNow (os : Os) (fingerprint : ProcessMetadata) (failure : Option String) :
    Except ProcessError Bool :=
  match failure with
  | some kind => .error (.io kind)
  | none => checkIdentity os fingerprint

def lookupAnswer : Except ProcessError Bool → Option (Except ProcessError Unit)
  | .ok true => none
  | .ok false => some (.ok ())
  | .error error => some (.error error)

section Lookup

variable {os : Os} {fingerprint : ProcessMetadata} {failure : Option String}

theorem existsNow_ok {found : Bool} (looked : existsNow os fingerprint failure = .ok found) :
    (found = true ∧ os.isRunning fingerprint.identity) ∨
      (found = false ∧ ¬ os.isRunning fingerprint.identity) := by
  cases failure with
  | some kind => cases looked
  | none =>
    simp only [existsNow, checkIdentity] at looked
    cases held : extract os fingerprint.pid with
    | none =>
      rw [held] at looked
      refine .inr ⟨(Except.ok.inj looked).symm, fun running => ?_⟩
      have free : os.holder fingerprint.pid = none := Option.map_eq_none_iff.mp held
      simp [Os.isRunning, Os.current, ProcessMetadata.identity, free] at running
    | some metadata =>
      simp only [held] at looked
      split_ifs at looked with same
      rw [same] at held
      exact .inl ⟨(Except.ok.inj looked).symm, (Os.extract_eq_some held).2⟩

theorem existsNow_reused (looked : existsNow os fingerprint failure = .error .reused) :
    failure = none ∧ ∃ metadata, extract os fingerprint.pid = some metadata ∧
      (os.isRunning fingerprint.identity →
        metadata.identity = fingerprint.identity ∧ metadata.name ≠ fingerprint.name) := by
  cases failure with
  | some kind => cases looked
  | none =>
    simp only [existsNow, checkIdentity] at looked
    cases held : extract os fingerprint.pid with
    | none =>
      rw [held] at looked
      cases looked
    | some metadata =>
      simp only [held] at looked
      split_ifs at looked with same
      refine ⟨rfl, metadata, rfl, fun running => ?_⟩
      have current := (Os.extract_eq_some held).2
      have identity : metadata.identity = fingerprint.identity :=
        Option.some.inj (current.symm.trans running)
      refine ⟨identity, fun name => same ?_⟩
      obtain ⟨pid, startTime⟩ := Instance.mk.inj identity
      cases metadata
      cases fingerprint
      simp_all

end Lookup

def pollInterval : Nat := 100000000

inductive MacosWaitAction where
  | os (a : OsAction)
  | tick (duration : Nat)
  | lookup (failure : Option String)
  | clock
  | sleep
  | wake
deriving DecidableEq, Repr

structure MacosWait where
  os : Os
  fingerprint : ProcessMetadata
  loop : Loop (Except ProcessError Unit)
  /-- When the process gave up its PID. -/
  goneAt : Option Nat
  /-- What the last lookup has read. -/
  read : Option ProcessMetadata

namespace MacosWait

/-- A step of the operating system is seen by nobody but the reader. -/
def observe (s : MacosWait) (os : Os) : MacosWait :=
  { s with
    os
    goneAt := if os.isRunning s.fingerprint.identity then s.goneAt
      else s.goneAt.or (some s.loop.now) }

def loopAction (s : MacosWait) : MacosWaitAction → Option (Action (Except ProcessError Unit))
  | .os _ => none
  | .tick duration => some (.tick duration)
  | .lookup failure => some (.probe (lookupAnswer (existsNow s.os s.fingerprint failure)))
  | .clock => some .clock
  | .sleep => some .sleep
  | .wake => some .wake

def reading (s : MacosWait) : MacosWaitAction → Option ProcessMetadata
  | .lookup none => extract s.os s.fingerprint.pid
  | .lookup (some _) => none
  | .os _ | .tick _ | .clock | .sleep | .wake => s.read

def step (s : MacosWait) : MacosWaitAction → Option MacosWait
  | .os a => (s.os.step a).map s.observe
  | a => (s.loopAction a).bind fun action =>
    (s.loop.step pollInterval action).map fun loop => { s with loop, read := s.reading a }

def start (os : Os) (fingerprint : ProcessMetadata) (now timeout : Nat) : MacosWait :=
  ⟨os, fingerprint, .start now timeout,
    if os.isRunning fingerprint.identity then none else some now, none⟩

def result (s : MacosWait) : Option (Except ProcessError Bool) :=
  match s.loop.phase with
  | .answered (.ok ()) => some (.ok true)
  | .answered (.error error) => some (.error error)
  | .gaveUp => some (.ok false)
  | .probe | .clock | .sleep _ | .asleep _ => none

/-- The deadline does not pass between a lookup and the reading of the clock. -/
def Timely (s : MacosWait) : MacosWaitAction → Prop
  | .tick duration =>
    s.loop.phase = .clock → s.loop.now < s.loop.deadline →
      s.loop.now + duration < s.loop.deadline
  | .os _ | .lookup _ | .clock | .sleep | .wake => True

instance (s : MacosWait) : DecidablePred s.Timely
  | .tick _ => inferInstanceAs (Decidable (_ → _ → _))
  | .os _ | .lookup _ | .clock | .sleep | .wake => inferInstanceAs (Decidable True)

def own : MacosWaitAction → Bool
  | .os _ | .tick _ => false
  | .lookup _ | .clock | .sleep | .wake => true

def looks : MacosWaitAction → Bool
  | .lookup _ => true
  | .os _ | .tick _ | .clock | .sleep | .wake => false

variable {s next : MacosWait} {a : MacosWaitAction}

theorem step_cases (taken : s.step a = some next) :
    (∃ action os, a = .os action ∧ s.os.step action = some os ∧ next = s.observe os) ∨
      ∃ action loop, s.loopAction a = some action ∧ s.loop.step pollInterval action = some loop ∧
        next = { s with loop, read := s.reading a } := by
  cases a with
  | os action =>
    obtain ⟨os, moved, eq⟩ := Option.map_eq_some_iff.mp taken
    exact .inl ⟨action, os, rfl, moved, eq.symm⟩
  | tick | lookup | clock | sleep | wake =>
    unfold step at taken
    obtain ⟨action, is_loop, moved⟩ := Option.bind_eq_some_iff.mp taken
    obtain ⟨loop, moved, eq⟩ := Option.map_eq_some_iff.mp moved
    exact .inr ⟨action, loop, is_loop, moved, eq.symm⟩

theorem loopAction_kind {action : Action (Except ProcessError Unit)}
    (is_loop : s.loopAction a = some action) :
    action.own = own a ∧ action.probes = looks a := by
  cases a with
  | os => cases is_loop
  | tick | lookup | clock | sleep | wake => exact Option.some.inj is_loop ▸ ⟨rfl, rfl⟩

theorem run_loop {actions : List MacosWaitAction} (reached : run step s actions = some next) :
    ∃ loopActions, run (Loop.step pollInterval) s.loop loopActions = some next.loop ∧
      loopActions.countP Action.own = actions.countP own ∧
      loopActions.countP Action.probes = actions.countP looks := by
  induction actions generalizing s with
  | nil => exact ⟨[], congrArg some (congrArg loop (Option.some.inj reached)), rfl, rfl⟩
  | cons a actions ih =>
    obtain ⟨mid, taken, rest⟩ := run_cons_eq_some.mp reached
    obtain ⟨loopActions, later, steps, lookups⟩ := ih rest
    obtain ⟨action, os, rfl, -, rfl⟩ | ⟨action, loop, is_loop, moved, rfl⟩ := step_cases taken
    · exact ⟨loopActions, later, by simp [steps, own], by simp [lookups, looks]⟩
    · obtain ⟨is_own, is_lookup⟩ := loopAction_kind is_loop
      refine ⟨action :: loopActions, run_cons_eq_some.mpr ⟨loop, moved, later⟩, ?_, ?_⟩
      · rw [List.countP_cons, List.countP_cons, steps, is_own]
      · rw [List.countP_cons, List.countP_cons, lookups, is_lookup]

theorem step_of_loop {action : Action (Except ProcessError Unit)}
    {loop : Loop (Except ProcessError Unit)} (is_loop : s.loopAction a = some action)
    (moved : s.loop.step pollInterval action = some loop) :
    s.step a = some { s with loop, read := s.reading a } := by
  cases a with
  | os => cases is_loop
  | tick | lookup | clock | sleep | wake => simp [step, is_loop, moved]

theorem run_pause {pause : Nat} {action : Action (Except ProcessError Unit)}
    (is_loop : s.loopAction a = some action)
    (goes_on : (run (Loop.step pollInterval) s.loop [.tick pause, action]).isSome) :
    (run step s [.tick pause, a]).isSome := by
  obtain ⟨loop, reached⟩ := Option.isSome_iff_exists.mp goes_on
  obtain ⟨ticked, first, last⟩ := run_cons_eq_some.mp reached
  obtain ⟨moved, second, -⟩ := run_cons_eq_some.mp last
  have paused : s.step (.tick pause) = some { s with loop := ticked } := step_of_loop rfl first
  have same : ({ s with loop := ticked } : MacosWait).loopAction a = some action := by
    cases a <;> exact is_loop
  simp [run, paused, step_of_loop same second]

theorem result_eq_false : s.result = some (.ok false) ↔ s.loop.phase = .gaveUp := by
  unfold result
  split <;> simp_all

theorem result_eq_none : s.result = none ↔ ¬ s.loop.Returned := by
  unfold result Loop.Returned
  split <;> simp_all

structure Inv (begun timeout : Nat) (s : MacosWait) : Prop where
  started : s.fingerprint.identity ∈ s.os.started
  gone : s.goneAt = none ↔ s.os.isRunning s.fingerprint.identity
  timed : s.loop.Timed begun timeout pollInterval
  exited : s.result = some (.ok true) → s.goneAt ≠ none
  reused : s.result = some (.error .reused) → ∃ metadata, s.read = some metadata ∧
    (s.goneAt ≠ none ∨
      metadata.identity = s.fingerprint.identity ∧ metadata.name ≠ s.fingerprint.name)

theorem start_inv {os : Os} {fingerprint : ProcessMetadata}
    (started : fingerprint.identity ∈ os.started) (now timeout : Nat) :
    (start os fingerprint now timeout).Inv now timeout where
  started := started
  gone := by by_cases running : os.isRunning fingerprint.identity <;> simp [start, running]
  timed := Loop.start_timed (by decide) now timeout
  exited := by simp [start, Loop.start, result]
  reused := by simp [start, Loop.start, result]

theorem Inv.of_loop {begun timeout : Nat} {loop : Loop (Except ProcessError Unit)}
    (inv : s.Inv begun timeout) (timed : loop.Timed begun timeout pollInterval)
    (told : ({ s with loop, read := s.reading a } : MacosWait).result = none ∨
      loop.phase = s.loop.phase ∧ s.reading a = s.read ∨ loop.phase = .gaveUp ∨
      ∃ failure answer, a = .lookup failure ∧ loop.phase = .answered answer ∧
        lookupAnswer (existsNow s.os s.fingerprint failure) = some answer) :
    ({ s with loop, read := s.reading a } : MacosWait).Inv begun timeout where
  started := inv.started
  gone := inv.gone
  timed := timed
  exited returned := by
    obtain unreturned | ⟨phase, -⟩ | gaveUp | ⟨failure, answer, -, phase, now⟩ := told
    · rw [unreturned] at returned
      cases returned
    · exact inv.exited (by simpa [result, phase] using returned)
    · simp [result, gaveUp] at returned
    · cases looked : existsNow s.os s.fingerprint failure with
      | error error =>
        obtain rfl : .error error = answer := by simpa [looked, lookupAnswer] using now
        simp [result, phase] at returned
      | ok found =>
        obtain ⟨rfl, -⟩ | ⟨rfl, freed⟩ := existsNow_ok looked
        · simp [looked, lookupAnswer] at now
        · exact fun none => freed (inv.gone.mp none)
  reused returned := by
    obtain unreturned | ⟨phase, read⟩ | gaveUp | ⟨failure, answer, rfl, phase, now⟩ := told
    · rw [unreturned] at returned
      cases returned
    · have before := inv.reused (by simpa [result, phase] using returned)
      rwa [← read] at before
    · simp [result, gaveUp] at returned
    · cases looked : existsNow s.os s.fingerprint failure with
      | ok found =>
        cases found with
        | true => simp [looked, lookupAnswer] at now
        | false =>
          obtain rfl : .ok () = answer := by simpa [looked, lookupAnswer] using now
          simp [result, phase] at returned
      | error error =>
        obtain rfl : .error error = answer := by simpa [looked, lookupAnswer] using now
        obtain rfl : error = .reused := by simpa [result, phase] using returned
        obtain ⟨rfl, metadata, read, other⟩ := existsNow_reused looked
        refine ⟨metadata, read, ?_⟩
        by_cases running : s.os.isRunning s.fingerprint.identity
        · exact .inr (other running)
        · exact .inl fun none => running (inv.gone.mp none)

theorem Inv.observe {begun timeout : Nat} {action : OsAction} {os : Os}
    (inv : s.Inv begun timeout) (moved : s.os.step action = some os) :
    (s.observe os).Inv begun timeout := by
  have keeps (gone : s.goneAt ≠ none) : (s.observe os).goneAt ≠ none := by
    simp only [MacosWait.observe]
    split_ifs
    · exact gone
    · simp
  refine ⟨Os.step_started moved inv.started, ?_, inv.timed,
    fun returned => keeps (inv.exited returned), fun returned => ?_⟩
  · by_cases running : os.isRunning s.fingerprint.identity
    · have before := inv.gone.mpr (Os.isRunning_of_step moved inv.started running)
      simp [MacosWait.observe, running, before]
    · simp [MacosWait.observe, running]
  · obtain ⟨metadata, read, other⟩ := inv.reused returned
    exact ⟨metadata, read, other.imp_left keeps⟩

theorem Inv.step {begun timeout : Nat} (inv : s.Inv begun timeout) (taken : s.step a = some next) :
    next.Inv begun timeout := by
  obtain ⟨action, os, rfl, moved, rfl⟩ | ⟨action, loop, is_loop, moved, rfl⟩ := step_cases taken
  · exact inv.observe moved
  · refine inv.of_loop (inv.timed.step moved) ?_
    obtain ⟨d, rfl, rfl⟩ | ⟨probed, rfl, phase, rfl⟩ | ⟨rfl, phase, -, rfl⟩ |
      ⟨rfl, phase, -, rfl⟩ | ⟨d, rfl, phase, rfl⟩ | ⟨w, rfl, phase, -, rfl⟩ :=
      Loop.step_cases moved
    · cases a with
      | tick duration => exact .inr (.inl ⟨rfl, rfl⟩)
      | os | lookup | clock | sleep | wake => cases is_loop
    · cases a with
      | lookup failure =>
        obtain rfl := Action.probe.inj (Option.some.inj is_loop)
        cases told : lookupAnswer (existsNow s.os s.fingerprint failure) with
        | none => exact .inl (by simp [result])
        | some answer => exact .inr (.inr (.inr ⟨failure, answer, rfl, by simp, told⟩))
      | os | tick | clock | sleep | wake => cases is_loop
    · exact .inr (.inr (.inl rfl))
    · exact .inl (by simp [result])
    · exact .inl (by simp [result])
    · exact .inl (by simp [result])

def Seen (s : MacosWait) : Prop :=
  s.loop.phase = .clock ∨ s.loop.phase = .gaveUp → s.loop.deadline ≤ s.loop.now →
    ∀ gone, s.goneAt = some gone → s.loop.deadline ≤ gone

theorem Seen.step {begun timeout : Nat} (inv : s.Inv begun timeout) (seen : s.Seen)
    (timely : s.Timely a) (taken : s.step a = some next) : next.Seen := by
  obtain ⟨action, os, rfl, moved, rfl⟩ | ⟨action, loop, is_loop, moved, rfl⟩ := step_cases taken
  · intro waits expired gone at_gone
    cases before : s.goneAt with
    | none =>
      have now : s.loop.now = gone := by
        simp only [MacosWait.observe, before] at at_gone
        split_ifs at at_gone
        exact Option.some.inj at_gone
      exact now ▸ expired
    | some earlier =>
      have same : earlier = gone := by
        simpa [MacosWait.observe, before] using at_gone
      exact same ▸ seen waits expired earlier before
  · obtain ⟨d, rfl, rfl⟩ | ⟨probed, rfl, phase, rfl⟩ | ⟨rfl, phase, expired, rfl⟩ |
      ⟨rfl, phase, -, rfl⟩ | ⟨d, rfl, phase, rfl⟩ | ⟨w, rfl, phase, -, rfl⟩ :=
      Loop.step_cases moved
    · intro waits expired
      refine seen waits ?_
      rcases waits with clock | gaveUp
      · cases a with
        | tick duration =>
          obtain rfl := Action.tick.inj (Option.some.inj is_loop)
          have not_passed := timely clock
          simp only at expired
          omega
        | os | lookup | clock | sleep | wake => cases is_loop
      · have onTime := inv.timed.onTime
        rw [Loop.OnTime, show s.loop.phase = .gaveUp from gaveUp] at onTime
        exact onTime
    · intro waits expired gone at_gone
      cases a with
      | lookup failure =>
        obtain rfl := Action.probe.inj (Option.some.inj is_loop)
        cases looked : existsNow s.os s.fingerprint failure with
        | error error => simp [looked, lookupAnswer] at waits
        | ok found =>
          obtain ⟨rfl, running⟩ | ⟨rfl, -⟩ := existsNow_ok looked
          · have none := inv.gone.mpr running
            simp [none] at at_gone
          · simp [looked, lookupAnswer] at waits
      | os | tick | clock | sleep | wake => cases is_loop
    · exact fun _ _ => seen (.inl phase) expired
    · intro waits
      simp at waits
    · intro waits
      simp at waits
    · intro waits
      simp at waits

theorem start_seen (os : Os) (fingerprint : ProcessMetadata) (now timeout : Nat) :
    (start os fingerprint now timeout).Seen := by
  simp [Seen, start, Loop.start]

section Runs

variable {os : Os} {fingerprint : ProcessMetadata} {now timeout : Nat}
  {actions : List MacosWaitAction} {last : MacosWait}

/-- `Ok(true)` is returned only when the process has given up its PID, and `Reused`
only then or when the last lookup has read another name of it.  `Ok(false)` is returned
at the deadline or later, and if the deadline has not passed between a lookup and the
reading of the clock, the process has not gone before it. -/
theorem wait_tells_truth (started : fingerprint.identity ∈ os.started)
    (reached : run step (start os fingerprint now timeout) actions = some last) :
    (last.result = some (.ok true) → ¬ last.os.isRunning last.fingerprint.identity) ∧
    (last.result = some (.error .reused) → ∃ metadata, last.read = some metadata ∧
      (¬ last.os.isRunning last.fingerprint.identity ∨
        metadata.identity = last.fingerprint.identity ∧
          metadata.name ≠ last.fingerprint.name)) ∧
    (last.result = some (.ok false) → now + timeout ≤ last.loop.now ∧
      (Guarded Timely step (start os fingerprint now timeout) actions →
        ∀ gone, last.goneAt = some gone → now + timeout ≤ gone)) := by
  have inv := run_invariant (Inv now timeout) (fun _ _ _ inv taken => inv.step taken)
    (start_inv started now timeout) reached
  have freed (gone : last.goneAt ≠ none) : ¬ last.os.isRunning last.fingerprint.identity :=
    fun running => gone (inv.gone.mpr running)
  refine ⟨fun returned => freed (inv.exited returned), fun returned => ?_, fun returned => ?_⟩
  · obtain ⟨metadata, read, other⟩ := inv.reused returned
    exact ⟨metadata, read, other.imp_left freed⟩
  have gaveUp := result_eq_false.mp returned
  have expired := inv.timed.onTime
  rw [Loop.OnTime, gaveUp, inv.timed.deadline] at expired
  refine ⟨expired, fun timely gone at_gone => ?_⟩
  have seen := (run_guarded (fun s => s.Inv now timeout ∧ s.Seen)
    (fun _ _ _ known timely taken => ⟨known.1.step taken, known.2.step known.1 timely taken⟩)
    ⟨start_inv started now timeout, start_seen os fingerprint now timeout⟩ timely reached).2
  rw [← inv.timed.deadline] at expired ⊢
  exact seen (.inr gaveUp) expired gone at_gone

end Runs

def oneDaemon : Os :=
  ⟨fun pid => if pid = 7 then some ⟨"knotd", 100, false⟩ else none, [⟨7, 100⟩]⟩

def gonePastDeadline : List MacosWaitAction :=
  [.lookup none, .clock, .sleep, .tick pollInterval, .wake, .lookup none, .os (.exit 7),
    .os (.reap 7), .clock]

theorem wait_tells_truth_gonePastDeadline :
    ∃ last, run step (start oneDaemon ⟨7, "knotd", 100⟩ 0 pollInterval) gonePastDeadline =
        some last ∧
      last.result = some (.ok false) ∧
      ∀ gone, last.goneAt = some gone → 0 + pollInterval ≤ gone := by
  have reached : run step (start oneDaemon ⟨7, "knotd", 100⟩ 0 pollInterval) gonePastDeadline =
      some _ := rfl
  exact ⟨_, reached, rfl, ((wait_tells_truth (by decide) reached).2.2 rfl).2 (by decide)⟩

/-- The deadline passes between the lookup and the reading of the clock, and `Ok(false)`
is returned for a process that has gone before it. -/
theorem wait_misses_exit :
    ∃ last, run step (start oneDaemon ⟨7, "knotd", 100⟩ 0 pollInterval)
        [.lookup none, .os (.exit 7), .os (.reap 7), .tick pollInterval, .clock] = some last ∧
      last.result = some (.ok false) ∧ last.goneAt = some 0 := ⟨_, rfl, rfl, rfl⟩

section Runs

variable {os : Os} {fingerprint : ProcessMetadata} {now timeout : Nat}
  {actions : List MacosWaitAction} {last : MacosWait}

/-- The wait makes a bounded number of steps, with at most one lookup for each 100
milliseconds of its timeout and one more, and until it returns it can always make the
next one within 100 milliseconds. -/
theorem wait_returns (reached : run step (start os fingerprint now timeout) actions = some last) :
    actions.countP own ≤ 4 * ((timeout + pollInterval - 1) / pollInterval) + 2 ∧
    actions.countP looks ≤ (timeout + pollInterval - 1) / pollInterval + 1 ∧
    (last.result = none → ∀ failure, ∃ pause ≤ pollInterval, ∃ a, own a = true ∧
      (∀ other, a = .lookup other → other = failure) ∧
      (run step last [.tick pause, a]).isSome) := by
  have positive : 0 < pollInterval := by decide
  obtain ⟨loopActions, loop_reached, steps, lookups⟩ := run_loop reached
  have bounded := Loop.run_bounded positive loop_reached
  rw [steps, lookups] at bounded
  refine ⟨bounded.1, bounded.2, fun unreturned failure => ?_⟩
  have timed := run_invariant (Loop.Timed now timeout pollInterval)
    (fun _ _ _ h taken => h.step taken) (Loop.start_timed positive now timeout) loop_reached
  obtain ⟨pause, short, action, is_own, asks, goes_on⟩ := Loop.goes_on timed
    (result_eq_none.mp unreturned) (lookupAnswer (existsNow last.os last.fingerprint failure))
  refine ⟨pause, short, ?_⟩
  cases action with
  | tick => cases is_own
  | probe answer =>
    obtain rfl := asks answer rfl
    exact ⟨.lookup failure, rfl, fun _ same => (MacosWaitAction.lookup.inj same).symm,
      run_pause rfl goes_on⟩
  | clock => exact ⟨.clock, rfl, nofun, run_pause rfl goes_on⟩
  | sleep => exact ⟨.sleep, rfl, nofun, run_pause rfl goes_on⟩
  | wake => exact ⟨.wake, rfl, nofun, run_pause rfl goes_on⟩

end Runs

theorem wait_returns_gonePastDeadline :
    gonePastDeadline.countP own ≤ 6 ∧ gonePastDeadline.countP looks ≤ 2 := by
  have reached : run step (start oneDaemon ⟨7, "knotd", 100⟩ 0 pollInterval) gonePastDeadline =
      some _ := rfl
  exact ⟨(wait_returns reached).1, (wait_returns reached).2.1⟩

end MacosWait

end KnotOps.Sys
