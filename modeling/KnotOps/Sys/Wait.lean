import KnotOps.Machine
import KnotOps.Sys.Signals

/-! `PlatformProcess::wait` on Linux between the steps of the operating system.
Any number of waits run on one process, each with its own timeout: signal 0 is
sent through the pidfd, and then the pidfd is polled, once if the timeout is
zero and otherwise until it is readable or the timeout is over.  The pidfd is
readable from the exit on, signal 0 fails from the reaping on, and the readiness
that the runtime reports is that of the pidfd. -/

namespace KnotOps.Sys

open Machine

/-- `poll_readable_now`: the process of the pidfd has exited, reaped or not. -/
def pollReadableNow (os : Os) (processRef : Instance) : Bool :=
  match os.holder processRef.pid with
  | some p => decide (p.startTime ≠ processRef.startTime) || p.exited
  | none => true

inductive WaitPhase where
  | check
  | wait
  | returned (result : Except ProcessError Bool)
deriving DecidableEq

def WaitPhase.remaining : WaitPhase → Nat
  | check => 2
  | wait => 1
  | returned _ => 0

structure WaitCall where
  timeout : Nat
  phase : WaitPhase
  /-- The process had exited when the wait began. -/
  afterExit : Bool
  /-- A wait had returned `Ok(true)` when this one began. -/
  afterTrue : Bool

namespace WaitCall

def start (timeout : Nat) (afterExit afterTrue : Bool) : WaitCall :=
  ⟨timeout, .check, afterExit, afterTrue⟩

def finish (w : WaitCall) (result : Except ProcessError Bool) : WaitCall :=
  { w with phase := .returned result }

/-- The next step of a wait; while the pidfd is not readable it has none. -/
def advance (os : Os) (processRef : Instance) (w : WaitCall) : Option WaitCall :=
  match w.phase with
  | .check =>
    match pidfdSendSignal os processRef with
    | .failed error => some (w.finish (.error error))
    | .sent _ | .checked => some { w with phase := .wait }
  | .wait =>
    if w.timeout = 0 then some (w.finish (.ok (pollReadableNow os processRef)))
    else if pollReadableNow os processRef then some (w.finish (.ok true))
    else none
  | .returned _ => none

/-- The timeout is over; the pidfd is polled before that is looked at. -/
def elapse (os : Os) (processRef : Instance) (w : WaitCall) : Option WaitCall :=
  match w.phase with
  | .wait =>
    if w.timeout = 0 then none
    else if pollReadableNow os processRef then some (w.finish (.ok true))
    else some (w.finish (.ok false))
  | .check | .returned _ => none

def IsTrue (w : WaitCall) : Prop := w.phase = .returned (.ok true)

/-- A wait begun after the exit has not returned anything but `Ok(true)`. -/
def Stable (w : WaitCall) : Prop :=
  w.afterExit = true → ∀ result, w.phase = .returned result → result = .ok true

end WaitCall

structure Waits where
  os : Os
  processRef : Instance
  waits : List WaitCall

inductive WaitAction where
  | os (a : OsAction)
  | call (timeout : Nat)
  | advance (wait : Nat)
  | elapse (wait : Nat)
deriving DecidableEq, Repr

namespace Waits

def reported (s : Waits) : Bool :=
  s.waits.any fun w => match w.phase with
    | .returned (.ok true) => true
    | _ => false

def setWait (s : Waits) (i : Nat) (w : WaitCall) : Waits := { s with waits := s.waits.set i w }

def step (s : Waits) : WaitAction → Option Waits
  | .os a => (s.os.step a).map fun os => { s with os }
  | .call timeout =>
    some { s with
      waits := s.waits ++ [.start timeout (pollReadableNow s.os s.processRef) s.reported] }
  | .advance i => do
    let w ← s.waits[i]?
    return s.setWait i (← w.advance s.os s.processRef)
  | .elapse i => do
    let w ← s.waits[i]?
    return s.setWait i (← w.elapse s.os s.processRef)

def Stable (s : Waits) : Prop := ∀ w ∈ s.waits, w.Stable

/-- No wait begun after the exit makes its permission check after the reaping. -/
def ChecksInTime (s : Waits) : WaitAction → Prop
  | .advance i =>
    ∀ w ∈ s.waits[i]?, w.phase = .check → w.afterExit = true → s.os.isRunning s.processRef
  | .os _ | .call _ | .elapse _ => True

instance (s : Waits) : DecidablePred s.ChecksInTime
  | .advance i => inferInstanceAs (Decidable (∀ w ∈ s.waits[i]?, _))
  | .os _ | .call _ | .elapse _ => inferInstanceAs (Decidable True)

structure Inv (s : Waits) : Prop where
  started : s.processRef ∈ s.os.started
  exited : ∀ w ∈ s.waits, w.afterExit = true ∨ w.IsTrue → pollReadableNow s.os s.processRef = true
  later : ∀ w ∈ s.waits, w.afterTrue = true → w.afterExit = true

end Waits

theorem pollReadableNow_step {os next : Os} {processRef : Instance} {a : OsAction}
    (started : processRef ∈ os.started) (readable : pollReadableNow os processRef = true)
    (taken : os.step a = some next) : pollReadableNow next processRef = true := by
  cases a with
  | spawn pid name startTime =>
    simp only [Os.step] at taken
    split_ifs at taken with free
    rw [← Option.some.inj taken]
    by_cases here : processRef.pid = pid
    · have other : startTime ≠ processRef.startTime := by
        rintro rfl
        exact free.2 (here ▸ started)
      simp [pollReadableNow, Os.setHolder, here, other]
    · simpa [pollReadableNow, Os.setHolder, here] using readable
  | exit pid =>
    obtain ⟨p, held, rfl⟩ := Option.map_eq_some_iff.mp taken
    by_cases here : processRef.pid = pid
    · simp [pollReadableNow, Os.setHolder, here]
    · simpa [pollReadableNow, Os.setHolder, here] using readable
  | reap pid =>
    simp only [Os.step] at taken
    split at taken
    · split_ifs at taken
      rw [← Option.some.inj taken]
      by_cases here : processRef.pid = pid
      · simp [pollReadableNow, Os.setHolder, here]
      · simpa [pollReadableNow, Os.setHolder, here] using readable
    · cases taken
  | rename pid name =>
    obtain ⟨p, held, rfl⟩ := Option.map_eq_some_iff.mp taken
    by_cases here : processRef.pid = pid
    · subst here
      simpa [pollReadableNow, Os.setHolder, held] using readable
    · simpa [pollReadableNow, Os.setHolder, here] using readable

namespace WaitCall

variable {os : Os} {processRef : Instance} {w next : WaitCall}

theorem advance_eq_some (taken : w.advance os processRef = some next) :
    (w.phase = .check ∧ os.isRunning processRef ∧ next = { w with phase := .wait }) ∨
      (w.phase = .check ∧ ¬ os.isRunning processRef ∧ next = w.finish (.error .notRunning)) ∨
      (w.phase = .wait ∧ next = w.finish (.ok (pollReadableNow os processRef))) := by
  cases phase : w.phase with
  | check =>
    simp only [advance, phase, pidfdSendSignal] at taken
    by_cases running : os.isRunning processRef
    · rw [if_pos running] at taken
      exact .inl ⟨rfl, running, (Option.some.inj taken).symm⟩
    · rw [if_neg running] at taken
      exact .inr (.inl ⟨rfl, running, (Option.some.inj taken).symm⟩)
  | wait =>
    simp only [advance, phase] at taken
    split_ifs at taken with zero readable
    · exact .inr (.inr ⟨rfl, (Option.some.inj taken).symm⟩)
    · exact .inr (.inr ⟨rfl, by rw [readable]; exact (Option.some.inj taken).symm⟩)
  | returned result => simp [advance, phase] at taken

theorem elapse_eq_some (taken : w.elapse os processRef = some next) :
    w.phase = .wait ∧ next = w.finish (.ok (pollReadableNow os processRef)) := by
  cases phase : w.phase with
  | wait =>
    simp only [elapse, phase] at taken
    split_ifs at taken with zero readable
    · exact ⟨rfl, by rw [readable]; exact (Option.some.inj taken).symm⟩
    · rw [Bool.not_eq_true] at readable
      exact ⟨rfl, by rw [readable]; exact (Option.some.inj taken).symm⟩
  | check | returned => simp [elapse, phase] at taken

theorem advance_of_readable (readable : pollReadableNow os processRef = true)
    (left : 0 < w.phase.remaining) :
    ∃ next, w.advance os processRef = some next ∧ next.phase.remaining < w.phase.remaining := by
  cases phase : w.phase with
  | check =>
    simp only [advance, phase, pidfdSendSignal]
    by_cases running : os.isRunning processRef
    · rw [if_pos running]
      exact ⟨_, rfl, by simp [WaitPhase.remaining]⟩
    · rw [if_neg running]
      exact ⟨_, rfl, by simp [WaitPhase.remaining, finish]⟩
  | wait =>
    simp only [advance, phase, readable, if_true]
    split_ifs <;> exact ⟨_, rfl, by simp [WaitPhase.remaining, finish]⟩
  | returned result => simp [phase, WaitPhase.remaining] at left

theorem stable_of_phase (unreturned : ∀ result, w.phase ≠ .returned result) : w.Stable :=
  fun _ result returned => absurd returned (unreturned result)

theorem finish_stable_iff (w : WaitCall) (result : Except ProcessError Bool) :
    (w.finish result).Stable ↔ (w.afterExit = true → result = .ok true) := by
  simp [Stable, finish]

theorem finish_isTrue_iff (w : WaitCall) (result : Except ProcessError Bool) :
    (w.finish result).IsTrue ↔ result = .ok true := by
  simp [IsTrue, finish]

end WaitCall

theorem forall_mem_set_iff {α : Type} {p : α → Prop} {l : List α} {i : Nat} {x y : α}
    (at_i : l[i]? = some x) (holds : p x) : (∀ z ∈ l.set i y, p z) ↔ (∀ z ∈ l, p z) ∧ p y := by
  constructor
  · intro all
    have inside : i < l.length := (List.getElem?_eq_some_iff.mp at_i).1
    refine ⟨fun z member => ?_, all y (List.mem_set inside y)⟩
    obtain ⟨j, at_j⟩ := List.mem_iff_getElem?.mp member
    by_cases same : i = j
    · subst same
      rw [at_i] at at_j
      exact Option.some.inj at_j ▸ holds
    · exact all z (List.mem_iff_getElem?.mpr ⟨j, by rwa [List.getElem?_set_ne same]⟩)
  · rintro ⟨all, new⟩ z member
    rcases List.mem_or_eq_of_mem_set member with old | rfl
    · exact all z old
    · exact new

namespace Waits

variable {s next : Waits}

theorem reported_iff (s : Waits) : s.reported = true ↔ ∃ w ∈ s.waits, w.IsTrue := by
  simp only [reported, List.any_eq_true]
  refine exists_congr fun w => and_congr_right fun _ => ?_
  rw [WaitCall.IsTrue]
  split
  · next same => simp [same]
  · next other => exact iff_of_false (by simp) other

theorem step_advance {i : Nat} (taken : s.step (.advance i) = some next) :
    ∃ w w', s.waits[i]? = some w ∧ w.advance s.os s.processRef = some w' ∧
      next = s.setWait i w' := by
  obtain ⟨w, at_i, taken⟩ := Option.bind_eq_some_iff.mp taken
  obtain ⟨w', moved, taken⟩ := Option.bind_eq_some_iff.mp taken
  exact ⟨w, w', at_i, moved, (Option.some.inj taken).symm⟩

theorem step_elapse {i : Nat} (taken : s.step (.elapse i) = some next) :
    ∃ w w', s.waits[i]? = some w ∧ w.elapse s.os s.processRef = some w' ∧
      next = s.setWait i w' := by
  obtain ⟨w, at_i, taken⟩ := Option.bind_eq_some_iff.mp taken
  obtain ⟨w', moved, taken⟩ := Option.bind_eq_some_iff.mp taken
  exact ⟨w, w', at_i, moved, (Option.some.inj taken).symm⟩

theorem Inv.setWait (inv : Inv s) {i : Nat} {w w' : WaitCall} (at_i : s.waits[i]? = some w)
    (exit : w'.afterExit = w.afterExit) (later : w'.afterTrue = w.afterTrue)
    (seen : w'.IsTrue → pollReadableNow s.os s.processRef = true) : Inv (s.setWait i w') := by
  have member : w ∈ s.waits := List.mem_of_getElem? at_i
  refine ⟨inv.started, fun z inside => ?_, fun z inside => ?_⟩
  · rcases List.mem_or_eq_of_mem_set inside with old | rfl
    · exact inv.exited z old
    · rintro (after | isTrue)
      · exact inv.exited w member (.inl (exit ▸ after))
      · exact seen isTrue
  · rcases List.mem_or_eq_of_mem_set inside with old | rfl
    · exact inv.later z old
    · rw [exit, later]
      exact inv.later w member

theorem Inv.step (inv : Inv s) {a : WaitAction} (taken : s.step a = some next) : Inv next := by
  cases a with
  | os a =>
    obtain ⟨os, moved, rfl⟩ := Option.map_eq_some_iff.mp taken
    exact ⟨Os.step_started moved inv.started,
      fun w member known => pollReadableNow_step inv.started (inv.exited w member known) moved,
      inv.later⟩
  | call timeout =>
    rw [← Option.some.inj taken]
    refine ⟨inv.started, fun w member => ?_, fun w member => ?_⟩
    · rcases List.mem_append.mp member with old | new
      · exact inv.exited w old
      · obtain rfl := List.mem_singleton.mp new
        simp [WaitCall.start, WaitCall.IsTrue]
    · rcases List.mem_append.mp member with old | new
      · exact inv.later w old
      · obtain rfl := List.mem_singleton.mp new
        intro reported
        obtain ⟨earlier, inside, isTrue⟩ := (reported_iff s).mp reported
        exact inv.exited earlier inside (.inr isTrue)
  | advance i =>
    obtain ⟨w, w', at_i, moved, rfl⟩ := step_advance taken
    obtain ⟨-, -, rfl⟩ | ⟨-, -, rfl⟩ | ⟨-, rfl⟩ := WaitCall.advance_eq_some moved
    · exact inv.setWait at_i rfl rfl (by simp [WaitCall.IsTrue])
    · exact inv.setWait at_i rfl rfl (by simp [WaitCall.finish_isTrue_iff])
    · exact inv.setWait at_i rfl rfl (by simp [WaitCall.finish_isTrue_iff])
  | elapse i =>
    obtain ⟨w, w', at_i, moved, rfl⟩ := step_elapse taken
    obtain ⟨-, rfl⟩ := WaitCall.elapse_eq_some moved
    exact inv.setWait at_i rfl rfl (by simp [WaitCall.finish_isTrue_iff])

theorem stable_setWait_iff {i : Nat} {w w' : WaitCall} (at_i : s.waits[i]? = some w)
    (unreturned : ∀ result, w.phase ≠ .returned result) :
    (s.setWait i w').Stable ↔ s.Stable ∧ w'.Stable :=
  forall_mem_set_iff at_i (WaitCall.stable_of_phase unreturned)

theorem Inv.step_stable_iff (inv : Inv s) {a : WaitAction} (taken : s.step a = some next) :
    next.Stable ↔ s.Stable ∧ s.ChecksInTime a := by
  -- a poll after the exit finds the pidfd readable
  have polled {i : Nat} {w : WaitCall} (at_i : s.waits[i]? = some w) :
      (w.finish (.ok (pollReadableNow s.os s.processRef))).Stable := by
    rw [WaitCall.finish_stable_iff]
    intro after
    rw [inv.exited w (List.mem_of_getElem? at_i) (.inl after)]
  cases a with
  | os a =>
    obtain ⟨os, -, rfl⟩ := Option.map_eq_some_iff.mp taken
    exact (and_iff_left trivial).symm
  | call timeout =>
    rw [← Option.some.inj taken]
    have new : (WaitCall.start timeout (pollReadableNow s.os s.processRef) s.reported).Stable :=
      WaitCall.stable_of_phase (by simp [WaitCall.start])
    simp only [Stable, List.forall_mem_append, List.forall_mem_singleton, ChecksInTime]
    exact and_congr_right fun _ => iff_of_true new trivial
  | advance i =>
    obtain ⟨w, w', at_i, moved, rfl⟩ := step_advance taken
    have allowed : s.ChecksInTime (.advance i) ↔
        (w.phase = .check → w.afterExit = true → s.os.isRunning s.processRef) := by
      simp [ChecksInTime, at_i]
    rw [allowed]
    obtain ⟨phase, running, rfl⟩ | ⟨phase, reaped, rfl⟩ | ⟨phase, rfl⟩ :=
      WaitCall.advance_eq_some moved
    · rw [stable_setWait_iff at_i (by simp [phase])]
      exact and_congr_right fun _ =>
        iff_of_true (WaitCall.stable_of_phase (by simp)) fun _ _ => running
    · rw [stable_setWait_iff at_i (by simp [phase]), WaitCall.finish_stable_iff]
      simp [phase, reaped]
    · rw [stable_setWait_iff at_i (by simp [phase])]
      exact and_congr_right fun _ => iff_of_true (polled at_i) (by simp [phase])
  | elapse i =>
    obtain ⟨w, w', at_i, moved, rfl⟩ := step_elapse taken
    obtain ⟨phase, rfl⟩ := WaitCall.elapse_eq_some moved
    rw [stable_setWait_iff at_i (by simp [phase])]
    exact and_congr_right fun _ => iff_of_true (polled at_i) trivial

def start (os : Os) (processRef : Instance) : Waits := ⟨os, processRef, []⟩

theorem start_inv {os : Os} {processRef : Instance} (started : processRef ∈ os.started) :
    Inv (start os processRef) := ⟨started, by simp [start], by simp [start]⟩

/-- The waits begun after the exit have returned nothing but `Ok(true)` exactly when
none of them has made its permission check after the reaping.  Every wait begun after
an `Ok(true)` is one of them, and none of them can be kept from returning. -/
theorem wait_stable_iff {os : Os} {processRef : Instance} (started : processRef ∈ os.started)
    {actions : List WaitAction} {last : Waits}
    (reached : run step (start os processRef) actions = some last) :
    (last.Stable ↔ Guarded ChecksInTime step (start os processRef) actions) ∧
    (∀ w ∈ last.waits, w.afterTrue = true → w.afterExit = true) ∧
    ∀ w ∈ last.waits, w.afterExit = true → 0 < w.phase.remaining →
      ∃ next, w.advance last.os last.processRef = some next ∧
        next.phase.remaining < w.phase.remaining := by
  have inv := run_invariant Inv (fun _ _ _ inv taken => inv.step taken) (start_inv started) reached
  have stable := run_guarded_iff Inv Stable (fun _ _ _ inv taken => inv.step taken)
    (fun _ _ _ inv taken => inv.step_stable_iff taken) (start_inv started) reached
  have none : (start os processRef).Stable := by simp [start, Stable]
  exact ⟨stable.trans (and_iff_right none), inv.later,
    fun w member after => WaitCall.advance_of_readable (inv.exited w member (.inl after))⟩

def oneChild : Os :=
  ⟨fun pid => if pid = 7 then some ⟨"knotd", 100, false⟩ else none, [⟨7, 100⟩]⟩

def checkedInTime : List WaitAction :=
  [.call 5, .advance 0, .os (.exit 7), .call 0, .advance 1, .os (.reap 7), .advance 0, .advance 1]

theorem wait_stable_iff_unreaped :
    ∃ last, run step (start oneChild ⟨7, 100⟩) checkedInTime = some last ∧ last.Stable := by
  have reached : run step (start oneChild ⟨7, 100⟩) checkedInTime = some _ := rfl
  exact ⟨_, reached, (wait_stable_iff (by decide) reached).1.mpr (by decide)⟩

/-- The first wait reports the exit, and once the child has been reaped the second one
reports an error. -/
theorem wait_forgets_exit :
    ∃ last, run step (start oneChild ⟨7, 100⟩)
        [.os (.exit 7), .call 5, .advance 0, .advance 0, .os (.reap 7), .call 5, .advance 1] =
          some last ∧
      last.waits = [⟨5, .returned (.ok true), true, false⟩,
        ⟨5, .returned (.error .notRunning), true, true⟩] ∧ ¬ last.Stable := by
  refine ⟨_, rfl, rfl, fun stable => ?_⟩
  have impossible := stable ⟨5, .returned (.error .notRunning), true, true⟩
    (List.mem_cons_of_mem _ List.mem_cons_self) rfl _ rfl
  cases impossible

end Waits

end KnotOps.Sys
