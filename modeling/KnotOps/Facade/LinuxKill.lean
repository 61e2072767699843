import Mathlib.Data.Nat.Find
import KnotOps.Facade.Kill
import KnotOps.Sys.Wait

/-! The Linux backend of `KillHandle::kill`.
A call of the backend is made at one instant of a timeline of the operating system;
what a signal does to the rest of the timeline, how long the calls take and which other
errors they end with is up to the world.  The backend is truthful of the instant at
which the process of its pidfd exits, so that the results of `kill` are results about
that process. -/

namespace KnotOps.Facade

open Machine
open KnotOps.Sys (Os Instance Signal ProcessError pollReadableNow pidfdSendSignal)

/-- The operating system at each instant from the opening of the pidfd on. -/
structure Timeline (processRef : Instance) where
  os : Nat → Os
  follows : ∀ t, ∃ actions, run Os.step (os t) actions = some (os (t + 1))
  started : processRef ∈ (os 0).started

namespace Timeline

variable {processRef : Instance} (line : Timeline processRef)

theorem started_at (t : Nat) : processRef ∈ (line.os t).started := by
  induction t with
  | zero => exact line.started
  | succ t ih =>
    obtain ⟨actions, later⟩ := line.follows t
    exact run_invariant (fun os => processRef ∈ os.started)
      (fun _ _ _ known taken => Os.step_started taken known) ih later

def exitedAt (t : Nat) : Bool := pollReadableNow (line.os t) processRef

theorem exitedAt_succ {t : Nat} (exited : line.exitedAt t = true) :
    line.exitedAt (t + 1) = true := by
  obtain ⟨actions, later⟩ := line.follows t
  exact (run_invariant (fun os => processRef ∈ os.started ∧ pollReadableNow os processRef = true)
    (fun _ _ _ known taken =>
      ⟨Os.step_started taken known.1, Sys.pollReadableNow_step known.1 known.2 taken⟩)
    ⟨line.started_at t, exited⟩ later).2

theorem exitedAt_mono {t u : Nat} (le : t ≤ u) (exited : line.exitedAt t = true) :
    line.exitedAt u = true := by
  induction le with
  | refl => exact exited
  | step _ ih => exact line.exitedAt_succ ih

open Classical in
noncomputable def exitTime : Option Nat :=
  if h : ∃ t, line.exitedAt t = true then some (Nat.find h) else none

theorem exitedBy_iff (t : Nat) : ExitedBy line.exitTime t ↔ line.exitedAt t = true := by
  classical
  constructor
  · rintro ⟨exit, found, le⟩
    unfold exitTime at found
    split_ifs at found with exits
    have exited := Nat.find_spec exits
    rw [Option.some.inj found] at exited
    exact line.exitedAt_mono le exited
  · intro exited
    have exits : ∃ t, line.exitedAt t = true := ⟨t, exited⟩
    exact ⟨Nat.find exits, by simp [exitTime, exits], Nat.find_min' exits exited⟩

end Timeline

structure Watched (processRef : Instance) where
  line : Timeline processRef
  now : Nat

structure World (processRef : Instance) where
  /-- Another error of a system call than `ESRCH`. -/
  failure : Watched processRef → Option String
  /-- A signal changes what comes after it. -/
  respond : Signal → Watched processRef → Watched processRef
  forward : ∀ signal s, s.now ≤ (respond signal s).now
  keeps : ∀ signal s, ∀ t ≤ s.now, (respond signal s).line.os t = s.line.os t
  /-- How late a timer fires. -/
  late : Watched processRef → Nat

namespace LinuxProcessHandle

variable {processRef : Instance} (world : World processRef)

/-- `send_signal` through the pidfd. -/
def sendSignal (signal : Signal) (s : Watched processRef) :
    Except ProcessError Unit × Watched processRef :=
  match world.failure s with
  | some kind => (.error (.io kind), world.respond signal s)
  | none =>
    match pidfdSendSignal (s.line.os s.now) processRef with
    | .failed error => (.error error, world.respond signal s)
    | .sent _ | .checked => (.ok (), world.respond signal s)

/-- `wait`: the pidfd is polled once, or it is waited for until it is readable or the
timer has fired, the pidfd being looked at first. -/
def wait (timeout : Nat) (s : Watched processRef) : Except ProcessError Bool × Watched processRef :=
  match world.failure s with
  | some kind => (.error (.io kind), s)
  | none =>
    if timeout = 0 then (.ok (s.line.exitedAt s.now), s)
    else
      let fired := timeout + world.late s
      match (List.range (fired + 1)).find? fun passed => s.line.exitedAt (s.now + passed) with
      | some passed => (.ok true, { s with now := s.now + passed })
      | none => (.ok false, { s with now := s.now + fired })

def control : ProcessControl (Watched processRef) where
  checkPermissions := sendSignal world .zero
  kill := sendSignal world .sigkill
  terminate := sendSignal world .sigterm
  wait := wait world
  now := Watched.now

theorem sendSignal_notRunning {signal : Signal} {s : Watched processRef}
    (failed : (sendSignal world signal s).1 = .error .notRunning) :
    (control world).Exited (fun s => s.line.exitTime) (sendSignal world signal s).2 := by
  have state : (sendSignal world signal s).2 = world.respond signal s := by
    unfold sendSignal
    split
    · rfl
    · split <;> rfl
  rw [state, ProcessControl.Exited, Timeline.exitedBy_iff]
  have reaped : ¬ (s.line.os s.now).isRunning processRef := by
    intro running
    unfold sendSignal at failed
    split at failed
    · cases failed
    · simp [pidfdSendSignal, running] at failed
  have readable : s.line.exitedAt s.now = true := by
    unfold Timeline.exitedAt pollReadableNow
    split
    · next p held =>
      have other : p.startTime ≠ processRef.startTime := fun same =>
        reaped (by simp [Os.isRunning, Os.current, held, same])
      simp [other]
    · rfl
  apply Timeline.exitedAt_mono _ (world.forward signal s)
  rw [Timeline.exitedAt, world.keeps signal s s.now (Nat.le_refl _)]
  exact readable

theorem wait_ok {timeout : Nat} {s : Watched processRef} {exited : Bool}
    (waited : (wait world timeout s).1 = .ok exited) :
    (wait world timeout s).2.line = s.line ∧
      (exited = true → s.line.exitedAt (wait world timeout s).2.now = true) ∧
      (exited = false → s.line.exitedAt (s.now + timeout) = false) := by
  unfold wait at waited ⊢
  split at waited
  · cases waited
  · split_ifs at waited ⊢ with zero
    · have found := Except.ok.inj waited
      refine ⟨rfl, fun gone => found.trans gone, fun there => ?_⟩
      rw [zero]
      exact found.trans there
    · dsimp only at waited ⊢
      split at waited
      · next passed found =>
        obtain rfl := Except.ok.inj waited
        exact ⟨rfl, fun _ => by simpa using List.find?_some found, nofun⟩
      · next none_found =>
        obtain rfl := Except.ok.inj waited
        refine ⟨rfl, nofun, fun _ => ?_⟩
        -- the timer fires at the deadline or later, and the pidfd is not readable then
        have inside : timeout ∈ List.range (timeout + world.late s + 1) :=
          List.mem_range.mpr (by omega)
        simpa using List.find?_eq_none.mp none_found timeout inside

theorem truthful : Truthful (control world) fun s => s.line.exitTime where
  checkPermissions _ failed := sendSignal_notRunning world failed
  kill _ failed := sendSignal_notRunning world failed
  terminate _ failed := sendSignal_notRunning world failed
  wait_notRunning timeout s failed := by
    simp only [control, wait] at failed
    split at failed
    · cases failed
    · split_ifs at failed
      split at failed <;> cases failed
  wait_exited timeout s waited := by
    obtain ⟨line, gone, -⟩ := wait_ok world waited
    rw [ProcessControl.Exited, Timeline.exitedBy_iff]
    simp only [control, line]
    exact gone rfl
  wait_running timeout s waited := by
    obtain ⟨line, -, there⟩ := wait_ok world waited
    rw [Timeline.exitedBy_iff]
    simp only [control, line]
    simpa using there rfl

/-- On Linux `kill` returns `Ok` only when the process of the pidfd has exited, which it
then has for ever, and `NotResponding` only when that process was there at the end of the
forceful timeout. -/
theorem kill_is_about_bound_process (handle : KillHandle) (s : Watched processRef)
    {result : Except SignalError StaleHandle} {k : Killing (Watched processRef)}
    (killed : handle.kill (control world).logged ⟨s, []⟩ = (result, k)) :
    (∀ stale, result = .ok stale → ∀ t ≥ k.backend.now, k.backend.line.exitedAt t = true) ∧
    (result = .error .notResponding → ∃ start,
      [.kill (.ok ()), .wait start handle.policy.forceTimeout (.ok false)] <:+ k.calls ∧
        k.backend.line.exitedAt (start + handle.policy.forceTimeout) = false) := by
  obtain ⟨answer, calls, last, done, -, shape, ends⟩ := handle.kill_calls (truthful world) s
  obtain ⟨rfl, rfl⟩ := Prod.mk.inj (killed.symm.trans done)
  refine ⟨fun stale ok t later => ?_, fun failed => ?_⟩
  · have exited := ends.confirmed (KillHandle.conclude_ok ok)
    rw [ProcessControl.Exited, Timeline.exitedBy_iff] at exited
    exact last.line.exitedAt_mono later exited
  · rw [KillHandle.conclude_notResponding failed] at shape
    obtain ⟨start, waited⟩ := shape.exists_wait
    refine ⟨start, waited, ?_⟩
    have running := ends.of_suffix waited
    rw [Timeline.exitedBy_iff] at running
    simpa using running

def exitingAtFive (t : Nat) : Os :=
  Sys.Waits.oneChild.setHolder 7 (some ⟨"knotd", 100, Nat.ble 5 t⟩)

theorem exitingAtFive_follows (t : Nat) :
    ∃ actions, run Os.step (exitingAtFive t) actions = some (exitingAtFive (t + 1)) := by
  by_cases last : t = 4
  · refine ⟨[.exit 7], ?_⟩
    simp only [last, exitingAtFive, run, Os.step, Os.setHolder]
    refine congrArg some (congrArg (Os.mk · _) (funext fun pid => ?_))
    by_cases here : pid = 7 <;> simp [here]
  · have same : Nat.ble 5 (t + 1) = Nat.ble 5 t := by
      rw [Bool.eq_iff_iff, Nat.ble_eq, Nat.ble_eq]
      omega
    exact ⟨[], by rw [exitingAtFive, exitingAtFive, same]; rfl⟩

def exitsAtFive : Timeline ⟨7, 100⟩ := ⟨exitingAtFive, exitingAtFive_follows, by decide⟩

def unresponsive (processRef : Instance) : World processRef where
  failure _ := none
  respond _ s := s
  forward _ s := Nat.le_refl s.now
  keeps _ _ _ _ := rfl
  late _ := 0

theorem kill_is_about_bound_process_exitsAtFive :
    ∃ k : Killing (Watched ⟨7, 100⟩),
      KillHandle.kill ⟨"run", "knotd", ⟨10, 10⟩⟩ (control (unresponsive ⟨7, 100⟩)).logged
        ⟨⟨exitsAtFive, 0⟩, []⟩ = (.ok ⟨"run", "knotd", ⟨10, 10⟩⟩, k) ∧
      ∀ t ≥ k.backend.now, k.backend.line.exitedAt t = true := by
  have killed : KillHandle.kill ⟨"run", "knotd", ⟨10, 10⟩⟩ (control (unresponsive ⟨7, 100⟩)).logged
      ⟨⟨exitsAtFive, 0⟩, []⟩ = (.ok ⟨"run", "knotd", ⟨10, 10⟩⟩, _) := rfl
  exact ⟨_, killed, (kill_is_about_bound_process _ _ _ killed).1 _ rfl⟩

end LinuxProcessHandle

end KnotOps.Facade
