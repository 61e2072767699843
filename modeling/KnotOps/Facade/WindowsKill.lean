import KnotOps.Facade.Kill

/-! The Windows backend of `KillHandle::kill`.
The handle keeps the process object, so that a process that has exited is not forgotten;
what is read of it is its exit code, and `STILL_ACTIVE` is the code 259.  Time is in
nanoseconds, of which a wait keeps the milliseconds, and `u32::MAX` milliseconds are for
ever.  What a termination does to the rest of the process, which other errors the calls
end with and how late a timer fires is up to the world. -/

namespace KnotOps.Facade

open KnotOps.Sys (ProcessError)

/-- What the handle is on, at the time of a call: when the process exits, if ever, and with
which code. -/
structure ProcessObject where
  now : Nat
  exit : Option (Nat × Nat)
deriving DecidableEq, Repr

namespace ProcessObject

def exitTime (s : ProcessObject) : Option Nat := s.exit.map Prod.fst

def Exited (s : ProcessObject) : Prop := ExitedBy s.exitTime s.now

theorem exitedBy_iff {s : ProcessObject} {time : Nat} :
    ExitedBy s.exitTime time ↔ ∃ exit code, s.exit = some (exit, code) ∧ exit ≤ time := by
  simp [ExitedBy, exitTime]

end ProcessObject

namespace WindowsProcessHandle

def stillActive : Nat := 259

def infinite : Nat := 4294967295

/-- The exit code, as `GetExitCodeProcess` gives it. -/
def exitCode (s : ProcessObject) : Nat :=
  match s.exit with
  | some (exit, code) => if exit ≤ s.now then code else stillActive
  | none => stillActive

structure World where
  /-- `TerminateProcess` fails for a process that has not exited. -/
  terminateFailure : ProcessObject → Option String
  queryFailure : ProcessObject → Option String
  waitFailure : ProcessObject → Option String
  /-- The blocking task of a wait is given up. -/
  joinFailure : String
  /-- A termination, that succeeds or not, changes what comes after it. -/
  respond : ProcessObject → ProcessObject
  forward : ∀ s, s.now ≤ (respond s).now
  keeps : ∀ s, s.Exited → (respond s).exit = s.exit
  /-- How late a timer fires. -/
  late : ProcessObject → Nat

variable (world : World)

def isProcessExited (s : ProcessObject) : Except String Bool :=
  match world.queryFailure s with
  | some error => .error error
  | none => .ok (exitCode s ≠ stillActive)

/-- `TerminateProcess`; a process that has exited cannot be terminated. -/
def terminateProcess (s : ProcessObject) : Option String :=
  if s.exit.any (·.1 ≤ s.now) then some "Access is denied. (os error 5)"
  else world.terminateFailure s

def kill (s : ProcessObject) : Except ProcessError Unit × ProcessObject :=
  match terminateProcess world s with
  | none => (.ok (), world.respond s)
  | some error =>
    match isProcessExited world (world.respond s) with
    | .error query => (.error (.io query), world.respond s)
    | .ok true => (.ok (), world.respond s)
    | .ok false => (.error (.io error), world.respond s)

def terminate (s : ProcessObject) : Except ProcessError Unit × ProcessObject := kill world s

def timeoutMs (timeout : Nat) : Nat := min (timeout / 1000000) infinite

/-- `wait`: without a limit only the end of the process or of the task ends it. -/
def wait (timeout : Nat) (s : ProcessObject) : Except ProcessError Bool × ProcessObject :=
  match world.waitFailure s with
  | some error => (.error (.io error), s)
  | none =>
    if timeoutMs timeout = infinite then
      match s.exit with
      | some (exit, _) => (.ok true, { s with now := max s.now exit })
      | none => (.error (.io world.joinFailure), s)
    else
      let fired := s.now + timeoutMs timeout * 1000000 + world.late s
      match s.exit with
      | some (exit, _) =>
        if exit ≤ fired then (.ok true, { s with now := max s.now exit })
        else (.ok false, { s with now := fired })
      | none => (.ok false, { s with now := fired })

def control : ProcessControl ProcessObject where
  checkPermissions s := (.ok (), s)
  kill := kill world
  terminate := terminate world
  wait := wait world
  now := ProcessObject.now

/-- The process was there at the end of the milliseconds of a timeout, which are not for
ever. -/
structure TimedOut (s : ProcessObject) (start timeout : Nat) : Prop where
  finite : timeoutMs timeout < infinite
  running : ¬ ExitedBy s.exitTime (start + timeoutMs timeout * 1000000)

theorem timeoutMs_lt {timeout : Nat} (finite : timeoutMs timeout ≠ infinite) :
    timeoutMs timeout < infinite :=
  Nat.lt_of_le_of_ne (Nat.min_le_right _ _) finite

theorem wait_ok {timeout : Nat} {s : ProcessObject} {exited : Bool}
    (waited : (wait world timeout s).1 = .ok exited) :
    (exited = true → (wait world timeout s).2.Exited) ∧
      (exited = false → TimedOut (wait world timeout s).2 s.now timeout) := by
  obtain ⟨now, exit⟩ := s
  unfold wait at waited ⊢
  split at waited
  · cases waited
  · split_ifs at waited ⊢ with for_ever
    · cases exit with
      | none => cases waited
      | some exit =>
        obtain rfl := Except.ok.inj waited
        refine ⟨fun _ => ?_, nofun⟩
        exact ProcessObject.exitedBy_iff.mpr ⟨_, _, rfl, Nat.le_max_right _ _⟩
    · have finite := timeoutMs_lt for_ever
      cases exit with
      | none =>
        obtain rfl := Except.ok.inj waited
        exact ⟨nofun, fun _ => ⟨finite, by simp [ProcessObject.exitedBy_iff]⟩⟩
      | some exit =>
        dsimp only at waited ⊢
        split_ifs at waited ⊢ with early
        · obtain rfl := Except.ok.inj waited
          refine ⟨fun _ => ?_, nofun⟩
          exact ProcessObject.exitedBy_iff.mpr ⟨_, _, rfl, Nat.le_max_right _ _⟩
        · obtain rfl := Except.ok.inj waited
          refine ⟨nofun, fun _ => ⟨finite, fun by_then => early ?_⟩⟩
          obtain ⟨time, code, same, reached⟩ := ProcessObject.exitedBy_iff.mp by_then
          obtain rfl := Option.some.inj same
          exact Nat.le_trans reached (Nat.le_add_right _ _)

theorem kill_snd (s : ProcessObject) : (kill world s).2 = world.respond s := by
  unfold kill
  split
  · rfl
  · split <;> rfl

theorem kill_ne_notRunning (s : ProcessObject) : (kill world s).1 ≠ .error .notRunning := by
  unfold kill
  split
  · simp
  · split <;> simp

theorem wait_ne_notRunning (timeout : Nat) (s : ProcessObject) :
    (wait world timeout s).1 ≠ .error .notRunning := by
  obtain ⟨now, exit⟩ := s
  unfold wait
  split
  · simp
  · split_ifs
    · cases exit <;> simp
    · cases exit with
      | none => simp
      | some exit =>
        dsimp only
        split_ifs <;> simp

theorem signal_eq (phase : KillPhase) : (control world).signal phase = kill world := by
  cases phase <;> rfl

theorem phase_cases (phase : KillPhase) (timeout : Nat) (k : Killing ProcessObject) :
    (∃ error calls, (kill world k.backend).1 = .error error ∧
      signalAndWait (control world).logged ((control world).logged.signal phase) timeout k =
        (.error error, ⟨world.respond k.backend, calls⟩)) ∨
    ∃ calls, (kill world k.backend).1 = .ok () ∧
      signalAndWait (control world).logged ((control world).logged.signal phase) timeout k =
        ((wait world timeout (world.respond k.backend)).1,
          ⟨(wait world timeout (world.respond k.backend)).2, calls ++
            [.signal phase (.ok ()), .wait (world.respond k.backend).now timeout
              (wait world timeout (world.respond k.backend)).1]⟩) := by
  have after := kill_snd world k.backend
  have allowed : (control world).checkPermissions k.backend = (.ok (), k.backend) := rfl
  cases killed : kill world k.backend with
  | mk answer s =>
    obtain rfl : s = world.respond k.backend := by rw [← after, killed]
    cases answer with
    | error error =>
      refine .inl ⟨error, k.calls ++ [.checkPermissions (.ok ()), .signal phase (.error error)],
        rfl, ?_⟩
      simp [signalAndWait, Killing.log, allowed, signal_eq, killed]
    | ok _ =>
      refine .inr ⟨k.calls ++ [.checkPermissions (.ok ())], rfl, ?_⟩
      have waited : (control world).wait = wait world := rfl
      have clock : (control world).now = ProcessObject.now := rfl
      simp [signalAndWait, Killing.log, allowed, signal_eq, killed, waited, clock]

structure PhaseTold (phase : KillPhase) (timeout : Nat) (result : Except ProcessError Bool)
    (k : Killing ProcessObject) : Prop where
  exited : result = .ok true → k.backend.Exited
  running : result = .ok false → ∃ start,
    [.signal phase (.ok ()), .wait start timeout (.ok false)] <:+ k.calls ∧
      TimedOut k.backend start timeout
  known : result ≠ .error .notRunning

theorem phase_told (phase : KillPhase) (timeout : Nat) (k : Killing ProcessObject) :
    PhaseTold phase timeout
      (signalAndWait (control world).logged ((control world).logged.signal phase) timeout k).1
      (signalAndWait (control world).logged ((control world).logged.signal phase) timeout k).2 := by
  obtain ⟨error, calls, failed, ends⟩ | ⟨calls, -, ends⟩ := phase_cases world phase timeout k
  · rw [ends]
    have other := kill_ne_notRunning world k.backend
    rw [failed] at other
    exact ⟨nofun, nofun, fun same => other (by rw [Except.error.inj same])⟩
  · rw [ends]
    refine ⟨fun gone => (wait_ok world gone).1 rfl, fun there => ?_, wait_ne_notRunning world _ _⟩
    refine ⟨(world.respond k.backend).now, ?_, (wait_ok world there).2 rfl⟩
    rw [there]
    exact List.suffix_append _ _

structure Quiet : Prop where
  query : ∀ s, world.queryFailure s = none
  wait : ∀ s, world.waitFailure s = none

theorem wait_exited (quiet : Quiet world) (timeout : Nat) {s : ProcessObject} (exited : s.Exited) :
    (wait world timeout s).1 = .ok true := by
  obtain ⟨now, exit⟩ := s
  obtain ⟨time, code, rfl, past⟩ := ProcessObject.exitedBy_iff.mp exited
  have past : time ≤ now := past
  simp only [wait, quiet.wait]
  split_ifs
  · rfl
  · rfl
  · omega

theorem kill_exited (quiet : Quiet world) {s : ProcessObject} {time code : Nat}
    (exit : s.exit = some (time, code)) (past : time ≤ s.now) :
    (kill world s).1 =
      if code = stillActive then .error (.io "Access is denied. (os error 5)") else .ok () := by
  have exited : s.Exited := ProcessObject.exitedBy_iff.mpr ⟨time, code, exit, past⟩
  have kept : (world.respond s).exit = some (time, code) := (world.keeps s exited).trans exit
  have denied : terminateProcess world s = some "Access is denied. (os error 5)" := by
    simp [terminateProcess, exit, past]
  have read : exitCode (world.respond s) = code := by
    simp only [exitCode, kept, if_pos (Nat.le_trans past (world.forward s))]
  simp only [kill, denied, isProcessExited, quiet.query, read]
  by_cases active : code = stillActive <;> simp [active]

/-- What the result of `kill` says of the process. -/
structure KillTold (handle : KillHandle) (result : Except SignalError StaleHandle)
    (k : Killing ProcessObject) : Prop where
  exited : ∀ stale, result = .ok stale → stale = handle.stale ∧ k.backend.Exited
  running : result = .error .notResponding → ∃ start,
    [.kill (.ok ()), .wait start handle.policy.forceTimeout (.ok false)] <:+ k.calls ∧
      TimedOut k.backend start handle.policy.forceTimeout

theorem conclude_told {handle : KillHandle} {result : Except ProcessError Bool}
    {k : Killing ProcessObject} {phase : KillPhase} {timeout : Nat}
    (told : PhaseTold phase timeout result k)
    (last : result = .ok false → phase = .forceful ∧ timeout = handle.policy.forceTimeout) :
    KillTold handle (handle.conclude result) k := by
  refine ⟨fun stale ok => ⟨KillHandle.conclude_stale ok, ?_⟩, fun failed => ?_⟩
  · have confirms := KillHandle.conclude_ok ok
    match result, confirms with
    | .ok true, _ => exact told.exited rfl
    | .error error, gone => exact absurd (by rw [confirms_error.mp gone]) told.known
  · have there := KillHandle.conclude_notResponding failed
    obtain ⟨rfl, rfl⟩ := last there
    exact told.running there

theorem force_told (handle : KillHandle) (k : Killing ProcessObject) :
    KillTold handle (handle.force (control world).logged k).1
      (handle.force (control world).logged k).2 := by
  rw [handle.force_eq]
  exact conclude_told (phase_told world .forceful handle.policy.forceTimeout k) fun _ => ⟨rfl, rfl⟩

theorem kill_told (handle : KillHandle) (k : Killing ProcessObject) :
    KillTold handle (handle.kill (control world).logged k).1
      (handle.kill (control world).logged k).2 := by
  by_cases asked : handle.policy.gracefulTimeout = 0
  · rw [KillHandle.kill, if_pos asked]
    exact force_told world handle k
  · by_cases timedOut :
      (PlatformProcess.terminate (control world).logged handle.policy.gracefulTimeout k).1 =
        .ok false
    · rw [handle.kill_escalates _ _ asked timedOut]
      exact force_told world handle _
    · rw [handle.kill_eq _ _ asked timedOut]
      exact conclude_told (phase_told world .graceful handle.policy.gracefulTimeout k)
        fun there => absurd there timedOut

theorem phase_exited (quiet : Quiet world) (phase : KillPhase) (timeout : Nat)
    {k : Killing ProcessObject} {time code : Nat} (exit : k.backend.exit = some (time, code))
    (past : time ≤ k.backend.now) :
    (signalAndWait (control world).logged ((control world).logged.signal phase) timeout k).1 =
      if code = stillActive then .error (.io "Access is denied. (os error 5)") else .ok true := by
  have killed := kill_exited world quiet exit past
  have exited : k.backend.Exited := ProcessObject.exitedBy_iff.mpr ⟨time, code, exit, past⟩
  have after : (world.respond k.backend).Exited :=
    ProcessObject.exitedBy_iff.mpr ⟨time, code, (world.keeps _ exited).trans exit,
      Nat.le_trans past (world.forward _)⟩
  by_cases active : code = stillActive
  · rw [if_pos active] at killed ⊢
    obtain ⟨error, calls, failed, ends⟩ | ⟨calls, succeeded, -⟩ := phase_cases world phase timeout k
    · rw [ends]
      exact congrArg Except.error (Except.error.inj (failed.symm.trans killed))
    · rw [killed] at succeeded
      cases succeeded
  · rw [if_neg active] at killed ⊢
    obtain ⟨error, calls, failed, -⟩ | ⟨calls, -, ends⟩ := phase_cases world phase timeout k
    · rw [killed] at failed
      cases failed
    · rw [ends]
      exact wait_exited world quiet timeout after

theorem kill_of_exited (quiet : Quiet world) (handle : KillHandle) {k : Killing ProcessObject}
    {time code : Nat} (exit : k.backend.exit = some (time, code)) (past : time ≤ k.backend.now) :
    (handle.kill (control world).logged k).1 = handle.conclude
      (if code = stillActive then .error (.io "Access is denied. (os error 5)") else .ok true) := by
  by_cases asked : handle.policy.gracefulTimeout = 0
  · rw [KillHandle.kill, if_pos asked, handle.force_eq]
    exact congrArg handle.conclude
      (phase_exited world quiet .forceful handle.policy.forceTimeout exit past)
  · have ended :
        (PlatformProcess.terminate (control world).logged handle.policy.gracefulTimeout k).1 = _ :=
      phase_exited world quiet .graceful handle.policy.gracefulTimeout exit past
    rw [handle.kill_eq _ _ asked (by rw [ended]; split_ifs <;> simp), ended]

/-- On Windows `kill` returns `Ok` only when the process has exited, and `NotResponding` only
when it was there at the end of a forceful timeout, which is not for ever.  A process that
has exited already is killed with success unless its exit code is 259. -/
theorem kill_exact (handle : KillHandle) (s : ProcessObject)
    {result : Except SignalError StaleHandle} {k : Killing ProcessObject}
    (killed : handle.kill (control world).logged ⟨s, []⟩ = (result, k)) :
    (∀ stale, result = .ok stale → stale = handle.stale ∧ k.backend.Exited) ∧
    (result = .error .notResponding → ∃ start,
      [.kill (.ok ()), .wait start handle.policy.forceTimeout (.ok false)] <:+ k.calls ∧
        TimedOut k.backend start handle.policy.forceTimeout) ∧
    (Quiet world → ∀ time code, s.exit = some (time, code) → time ≤ s.now →
      (result = .ok handle.stale ↔ code ≠ stillActive)) := by
  have told := kill_told world handle ⟨s, []⟩
  rw [killed] at told
  refine ⟨told.exited, told.running, fun quiet time code exit past => ?_⟩
  have returned := kill_of_exited world quiet handle (k := ⟨s, []⟩) exit past
  rw [killed] at returned
  rw [show result = _ from returned]
  by_cases active : code = stillActive <;> simp [active, KillHandle.conclude]

def obedient : World where
  terminateFailure _ := none
  queryFailure _ := none
  waitFailure _ := none
  joinFailure := "task was cancelled"
  respond s := if s.exit.any (·.1 ≤ s.now) then s else { s with exit := some (s.now, 1) }
  forward s := by split_ifs <;> exact Nat.le_refl _
  keeps s exited := by
    obtain ⟨time, code, exit, past⟩ := ProcessObject.exitedBy_iff.mp exited
    simp [exit, past]
  late _ := 0

theorem kill_exact_stillActive :
    ∃ result k, KillHandle.kill ⟨"run", "knotd", ⟨200, 100⟩⟩ (control obedient).logged
        ⟨⟨10, some (5, 259)⟩, []⟩ = (result, k) ∧
      result ≠ .ok ⟨"run", "knotd", ⟨200, 100⟩⟩ := by
  have killed : KillHandle.kill ⟨"run", "knotd", ⟨200, 100⟩⟩ (control obedient).logged
      ⟨⟨10, some (5, 259)⟩, []⟩ = (_, _) := rfl
  have quiet : Quiet obedient := ⟨fun _ => rfl, fun _ => rfl⟩
  have exact_code := (kill_exact _ _ _ killed).2.2 quiet 5 259 rfl (by decide)
  exact ⟨_, _, killed, fun ok => exact_code.mp ok rfl⟩

end WindowsProcessHandle

end KnotOps.Facade
