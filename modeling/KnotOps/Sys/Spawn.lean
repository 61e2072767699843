import KnotOps.Retry
import KnotOps.Utf8
import KnotOps.Sys.Bind

/-! `PlatformProcess::spawn_with_args`: a child is created and bound under the
name of its executable.
Paths are bytes, as on Unix.  What the operating system does is given by its
outcomes, one for the creation and one for each attempt to bind; the arguments
and the streams of the child go to it unread.  The detached task that reaps the
child has no part in the result. -/

namespace KnotOps.Sys

open Machine Retry

variable {P : Type}

def toStringLossy (bytes : List UInt8) : String := String.ofList (Utf8.lossy bytes)

/-- `Path::file_name`: empty components and `.` are no names, and neither is a last
component `..`. -/
def fileName (path : List UInt8) : Option (List UInt8) :=
  match ((path.splitOn 0x2F).filter fun c => c ≠ [] ∧ c ≠ [0x2E]).getLast? with
  | some c => if c = [0x2E, 0x2E] then none else some c
  | none => none

def ProcessError.transient : ProcessError → Bool
  | mismatch _ _ | notRunning => true
  | reused | io _ => false

structure SpawnOutcomes (P : Type) where
  /-- `Command::spawn`, with the PID that `child.id()` has for the child. -/
  spawn : Except ProcessError (Option Pid)
  /-- The attempts to bind a PID under a name. -/
  bind : Pid → String → Nat → Except ProcessError P

def maxAttempts : Nat := 20

inductive RetryCall where
  | bind (attempt : Nat)
  | sleep (millis : Nat)
deriving DecidableEq, Repr

def RetryCall.isBind : RetryCall → Bool
  | bind _ => true
  | sleep _ => false

/-- `RETRY_DELAY`. -/
def retryDelay : Nat := 5

/-- The loop of `bind_after_spawn` from an attempt on, with the calls that it makes; no
result is the panic of `expect`. -/
def bindCallsFrom (bind : Nat → Except ProcessError P) :
    (left attempt : Nat) → (lastErr : Option ProcessError) →
      Option (Except ProcessError P) × List RetryCall
  | 0, _, lastErr => (lastErr.map .error, [])
  | left + 1, attempt, _ =>
    match bind attempt with
    | .ok process => (some (.ok process), [.bind attempt])
    | .error error =>
      if error.transient then
        let (result, calls) := bindCallsFrom bind left (attempt + 1) (some error)
        -- the delay is for another attempt only
        let pause := if attempt + 1 < maxAttempts then [.sleep retryDelay] else []
        (result, .bind attempt :: pause ++ calls)
      else (some (.error error), [.bind attempt])

def bindAfterSpawnCalls (bind : Nat → Except ProcessError P) :
    Option (Except ProcessError P) × List RetryCall :=
  bindCallsFrom bind maxAttempts 0 none

def bindAfterSpawn (bind : Nat → Except ProcessError P) : Option (Except ProcessError P) × Nat :=
  let (result, calls) := bindAfterSpawnCalls bind
  (result, calls.countP RetryCall.isBind)

/-- The result, and how many calls have been made: the creation and the attempts to
bind. -/
def spawnWithArgs (binary : List UInt8) (o : SpawnOutcomes P) :
    Option (Except ProcessError P) × Nat :=
  match fileName binary with
  | none => (some (.error (.io ("failed to get file name: " ++ toStringLossy binary))), 0)
  | some name =>
    match o.spawn with
    | .error error => (some (.error error), 1)
    | .ok none => (some (.error (.io "Failed to get child PID")), 1)
    | .ok (some id) =>
      let (result, attempts) := bindAfterSpawn (o.bind id (toStringLossy name))
      (result, 1 + attempts)

def Transient (result : Except ProcessError P) : Prop :=
  ∃ error, result = .error error ∧ error.transient = true

def attemptCalls (first count : Nat) : List RetryCall :=
  ((List.range' first count).map RetryCall.bind).intersperse (.sleep retryDelay)

@[simp] theorem attemptCalls_one (first : Nat) : attemptCalls first 1 = [.bind first] := rfl

theorem attemptCalls_succ (first count : Nat) :
    attemptCalls first (count + 2) =
      .bind first :: .sleep retryDelay :: attemptCalls (first + 1) (count + 1) := rfl

theorem bindCallsFrom_eq (bind : Nat → Except ProcessError P) (left attempt : Nat)
    (lastErr : Option ProcessError) (total : attempt + left + 1 = maxAttempts) :
    ∃ n, Ends (fun k => Transient (bind k)) attempt maxAttempts n ∧
      bindCallsFrom bind (left + 1) attempt lastErr =
        (some (bind n), attemptCalls attempt (n - attempt + 1)) := by
  induction left generalizing attempt lastErr with
  | zero =>
    refine ⟨attempt, .here (by omega) fun _ => by omega, ?_⟩
    have final : ¬ attempt + 1 < maxAttempts := by omega
    rw [bindCallsFrom, Nat.sub_self]
    cases result : bind attempt with
    | ok process => rfl
    | error error => simp [bindCallsFrom, final]
  | succ left ih =>
    rw [bindCallsFrom]
    cases result : bind attempt with
    | ok process =>
      have final : ¬ Transient (bind attempt) := by simp [Transient, result]
      refine ⟨attempt, .here (by omega) fun again => absurd again final, ?_⟩
      rw [result, Nat.sub_self]
      rfl
    | error error =>
      by_cases passes : error.transient = true
      · obtain ⟨n, ends, eq⟩ := ih (attempt + 1) (some error) (by omega)
        have more : attempt + 1 < maxAttempts := by omega
        have started := ends.started
        obtain ⟨later, rfl⟩ : ∃ later, n = attempt + 1 + later := ⟨n - (attempt + 1), by omega⟩
        refine ⟨_, .later ⟨error, result, passes⟩ ends, ?_⟩
        rw [show attempt + 1 + later - attempt + 1 = later + 2 by omega, attemptCalls_succ]
        rw [show attempt + 1 + later - (attempt + 1) + 1 = later + 1 by omega] at eq
        simp [passes, more, eq]
      · have final : ¬ Transient (bind attempt) := by simp [Transient, result, passes]
        refine ⟨attempt, .here (by omega) fun again => absurd again final, ?_⟩
        simp [result, passes]

/-- The loop ends with the first outcome that cannot pass, or with the last of its
attempts, and it pauses between two attempts and nowhere else. -/
theorem bindAfterSpawnCalls_eq (bind : Nat → Except ProcessError P) :
    ∃ n, Ends (fun k => Transient (bind k)) 0 maxAttempts n ∧
      bindAfterSpawnCalls bind = (some (bind n), attemptCalls 0 (n + 1)) :=
  bindCallsFrom_eq bind 19 0 none rfl

theorem countP_attemptCalls (first count : Nat) :
    (attemptCalls first count).countP RetryCall.isBind = count := by
  induction count generalizing first with
  | zero => rfl
  | succ count ih =>
    cases count with
    | zero => rfl
    | succ count =>
      rw [attemptCalls_succ, List.countP_cons_of_pos rfl, List.countP_cons_of_neg (by decide), ih]

theorem bindAfterSpawn_eq (bind : Nat → Except ProcessError P) :
    ∃ n, Ends (fun k => Transient (bind k)) 0 maxAttempts n ∧
      bindAfterSpawn bind = (some (bind n), n + 1) := by
  obtain ⟨n, ends, eq⟩ := bindAfterSpawnCalls_eq bind
  refine ⟨n, ends, ?_⟩
  simp only [bindAfterSpawn, eq, countP_attemptCalls]

theorem bind_after_spawn_exact (bind : Nat → Except ProcessError P) :
    (∀ n < maxAttempts, (∀ k < n, Transient (bind k)) → ¬ Transient (bind n) →
      bindAfterSpawnCalls bind = (some (bind n), attemptCalls 0 (n + 1))) ∧
    ((∀ k < maxAttempts, Transient (bind k)) →
      bindAfterSpawnCalls bind = (some (bind (maxAttempts - 1)), attemptCalls 0 maxAttempts)) ∧
    (bindAfterSpawnCalls bind).1 ≠ none ∧
    bindAfterSpawn bind = ((bindAfterSpawnCalls bind).1,
      (bindAfterSpawnCalls bind).2.countP RetryCall.isBind) := by
  obtain ⟨n, ends, eq⟩ := bindAfterSpawnCalls_eq bind
  refine ⟨fun m bounded earlier final => ?_, fun all => ?_, by simp [eq], rfl⟩
  · have same : n = m := ends.unique
      ⟨Nat.zero_le m, bounded, fun k _ before => earlier k before, fun again => absurd again final⟩
    rw [eq, same]
  · have same : n = maxAttempts - 1 := ends.unique
      ⟨Nat.zero_le _, by decide, fun k _ before => all k (by omega), fun _ => rfl⟩
    rw [eq, same]
    rfl

/-- The name that Linux has for a process: the file name cut to its first bytes. -/
def linuxName (file : List UInt8) : String := toStringLossy (file.take 15)

theorem toLower_eq_replacement {c : Char} (h : c.toLower = Utf8.replacement.toLower) :
    c = Utf8.replacement := by
  have kept : Utf8.replacement.toLower = Utf8.replacement := by decide
  rw [kept] at h
  delta Char.toLower at h
  by_cases upper : c.val ≥ 'A'.val ∧ c.val ≤ 'Z'.val
  · rw [dif_pos upper] at h
    have shifted : c.val + ('a'.val - 'A'.val) = Utf8.replacement.val := congrArg Char.val h
    have large : c.val = Utf8.replacement.val - ('a'.val - 'A'.val) := by
      rw [← shifted, UInt32.add_sub_cancel]
    have bounds := upper.2
    rw [large] at bounds
    exact absurd bounds (by decide)
  · rwa [dif_neg upper] at h

/-- A child is recognised when its name is not cut, or when the cut does not show. -/
theorem linuxName_matches_iff (file : List UInt8) :
    processNamesMatch (linuxName file) (toStringLossy file) = true ↔
      file.length ≤ 15 ∨ Utf8.CutHidden 15 (Utf8.sequences file) := by
  simp only [processNamesMatch, eqIgnoreAsciiCase, linuxName, toStringLossy, String.toList_ofList,
    decide_eq_true_eq]
  exact Utf8.lossy_take_iff Char.toLower (fun _ => toLower_eq_replacement) 15 file

namespace Binding

variable {pid : Pid} {expected : String} {child : Proc} {b next : Binding Handle}

/-- No lookup fails, and what holds the PID stays as it is. -/
def Undisturbed (pid : Pid) (expected : String) (b : Binding Handle) (a : BindAction) : Prop :=
  (∀ kind, a ≠ .advance (some kind)) ∧
    ∀ next, b.step Backend.linux.platform pid expected a = some next →
      next.os.holder pid = b.os.holder pid

def metadataOf (pid : Pid) (child : Proc) : ProcessMetadata := ⟨pid, child.name, child.startTime⟩

def boundTo (pid : Pid) (child : Proc) : PlatformProcess Handle :=
  ⟨.linux ⟨pid, child.startTime⟩, metadataOf pid child⟩

def stableResult (pid : Pid) (expected : String) (child : Proc) :
    Except ProcessError (PlatformProcess Handle) :=
  if processNamesMatch child.name expected then .ok (boundTo pid child)
  else .error (.mismatch expected child.name)

def StablePhase (pid : Pid) (expected : String) (child : Proc) : BindPhase Handle → Prop
  | .extract => True
  | .compare metadata => metadata = metadataOf pid child
  | .bind metadata =>
    metadata = metadataOf pid child ∧ processNamesMatch child.name expected = true
  | .extractAfter metadata handle =>
    (⟨handle, metadata⟩ : PlatformProcess Handle) = boundTo pid child ∧
      processNamesMatch child.name expected = true
  | .returned result => result = stableResult pid expected child

structure Stable (pid : Pid) (expected : String) (child : Proc) (b : Binding Handle) : Prop where
  holder : b.os.holder pid = some child
  phase : StablePhase pid expected child b.phase

theorem Stable.extract (h : Stable pid expected child b) :
    spawnExtractMetadata b.os pid none = .ok (metadataOf pid child) := by
  simp [spawnExtractMetadata, Sys.extract, h.holder, metadataOf]

theorem Stable.advance (h : Stable pid expected child b)
    (taken : b.advance Backend.linux.platform pid expected none = some next) :
    Stable pid expected child next := by
  have known := h.phase
  cases phase : b.phase with
  | extract =>
    simp only [Binding.advance, phase, h.extract, Option.some.injEq] at taken
    rw [← taken]
    exact ⟨h.holder, rfl⟩
  | compare metadata =>
    rw [phase] at known
    obtain rfl : metadata = metadataOf pid child := known
    simp only [Binding.advance, phase] at taken
    split_ifs at taken with same
    · rw [← Option.some.inj taken]
      exact ⟨h.holder, rfl, same⟩
    · rw [← Option.some.inj taken]
      exact ⟨h.holder, (if_neg same).symm⟩
  | bind metadata =>
    rw [phase] at known
    obtain ⟨rfl, same⟩ := known
    have current : b.os.current pid = some ⟨pid, child.startTime⟩ := by
      simp [Os.current, h.holder]
    have opened : Backend.linux.platform.bind b.os (metadataOf pid child) =
        .ok (.linux ⟨pid, child.startTime⟩) := by
      simp [Backend.platform, Handle.bind, metadataOf, current]
    simp only [Binding.advance, phase, opened, Option.some.injEq] at taken
    rw [← taken]
    exact ⟨h.holder, rfl, same⟩
  | extractAfter metadata handle =>
    rw [phase] at known
    obtain ⟨eq, same⟩ := known
    obtain ⟨rfl, rfl⟩ := PlatformProcess.mk.inj eq
    simp only [Binding.advance, phase, h.extract, if_pos, Option.some.injEq] at taken
    rw [← taken]
    exact ⟨h.holder, (if_pos same).symm⟩
  | returned result => simp [Binding.advance, phase] at taken

theorem Stable.step (h : Stable pid expected child b) {a : BindAction}
    (undisturbed : Undisturbed pid expected b a)
    (taken : b.step Backend.linux.platform pid expected a = some next) :
    Stable pid expected child next := by
  have holder := (undisturbed.2 next taken).trans h.holder
  cases a with
  | os a =>
    obtain ⟨os, -, rfl⟩ := Option.map_eq_some_iff.mp taken
    exact ⟨holder, h.phase⟩
  | advance failure =>
    cases failure with
    | some kind => exact absurd rfl (undisturbed.1 kind)
    | none => exact h.advance taken

theorem advance_os {failure : Option String}
    (taken : b.advance Backend.linux.platform pid expected failure = some next) :
    next.os = b.os := by
  unfold Binding.advance at taken
  repeat' split at taken
  all_goals cases taken <;> rfl

theorem advance_undisturbed (b : Binding Handle) : Undisturbed pid expected b (.advance none) :=
  ⟨by simp, fun _ taken => by rw [advance_os taken]⟩

theorem Stable.run (h : Stable pid expected child b) {actions : List BindAction}
    (undisturbed : Guarded (Undisturbed pid expected)
      (Binding.step Backend.linux.platform pid expected) b actions)
    (reached : Machine.run (Binding.step Backend.linux.platform pid expected) b actions = some next) :
    Stable pid expected child next :=
  run_guarded (Stable pid expected child)
    (fun _ _ _ stable allowed taken => stable.step allowed taken) h undisturbed reached

end Binding

/-- The attempts of one window: while each of them runs, the child holds its PID. -/
structure StableWindow (pid : Pid) (file : List UInt8) (startTime : Nat)
    (o : SpawnOutcomes (PlatformProcess Handle)) : Prop where
  spawn : o.spawn = .ok (some pid)
  attempts : ∀ k, ∃ os actions b,
    os.holder pid = some ⟨linuxName file, startTime, false⟩ ∧
    Guarded (Binding.Undisturbed pid (toStringLossy file))
      (Binding.step Backend.linux.platform pid (toStringLossy file)) ⟨os, .extract, []⟩ actions ∧
    run (Binding.step Backend.linux.platform pid (toStringLossy file)) ⟨os, .extract, []⟩ actions =
      some b ∧
    b.phase = .returned (o.bind pid (toStringLossy file) k)

theorem StableWindow.bind_eq {pid : Pid} {file : List UInt8} {startTime : Nat}
    {o : SpawnOutcomes (PlatformProcess Handle)} (h : StableWindow pid file startTime o) (k : Nat) :
    o.bind pid (toStringLossy file) k =
      Binding.stableResult pid (toStringLossy file) ⟨linuxName file, startTime, false⟩ := by
  obtain ⟨os, actions, b, holder, undisturbed, reached, phase⟩ := h.attempts k
  have start : Binding.Stable pid (toStringLossy file) ⟨linuxName file, startTime, false⟩
      ⟨os, .extract, []⟩ := ⟨holder, trivial⟩
  have known := (start.run undisturbed reached).phase
  rw [phase] at known
  exact known

theorem Binding.finishes (pid : Pid) (expected : String) (b : Binding Handle) :
    ∃ actions last result,
      Guarded (Binding.Undisturbed pid expected)
        (Binding.step Backend.linux.platform pid expected) b actions ∧
      run (Binding.step Backend.linux.platform pid expected) b actions = some last ∧
      last.phase = .returned result := by
  induction measured : b.phase.remaining using Nat.strongRecOn generalizing b with
  | ind n ih =>
    cases phase : b.phase with
    | returned result => exact ⟨[], b, result, trivial, rfl, phase⟩
    | _ =>
      obtain ⟨next, taken, closer⟩ := b.proceeds (by simp [phase, BindPhase.remaining]) none
      obtain ⟨actions, last, result, undisturbed, reached, returned⟩ :=
        ih next.phase.remaining (measured ▸ closer) next rfl
      refine ⟨.advance none :: actions, last, result, ⟨advance_undisturbed b, ?_⟩,
        run_cons_eq_some.mpr ⟨next, taken, reached⟩, returned⟩
      intro other also
      rw [taken] at also
      exact Option.some.inj also ▸ undisturbed

def leftAlone (pid : Pid) (file : List UInt8) (startTime : Nat) :
    SpawnOutcomes (PlatformProcess Handle) where
  spawn := .ok (some pid)
  bind id expected _ := Binding.stableResult id expected ⟨linuxName file, startTime, false⟩

theorem leftAlone_stable (pid : Pid) (file : List UInt8) (startTime : Nat) :
    StableWindow pid file startTime (leftAlone pid file startTime) := by
  refine ⟨rfl, fun k => ?_⟩
  have start : Binding.Stable pid (toStringLossy file) ⟨linuxName file, startTime, false⟩
      ⟨Os.empty.setHolder pid (some ⟨linuxName file, startTime, false⟩), .extract, []⟩ :=
    ⟨if_pos rfl, trivial⟩
  obtain ⟨actions, last, result, undisturbed, reached, returned⟩ :=
    Binding.finishes pid (toStringLossy file)
      ⟨Os.empty.setHolder pid (some ⟨linuxName file, startTime, false⟩), .extract, []⟩
  have known := (start.run undisturbed reached).phase
  rw [returned] at known
  rw [show result = (leftAlone pid file startTime).bind pid (toStringLossy file) k from known]
    at returned
  exact ⟨_, actions, last, start.holder, undisturbed, reached, returned⟩

theorem spawnWithArgs_const {path name : List UInt8} (named : fileName path = some name) {pid : Pid}
    {o : SpawnOutcomes P} (spawn : o.spawn = .ok (some pid)) {result : Except ProcessError P}
    (const : ∀ k, o.bind pid (toStringLossy name) k = result) :
    (spawnWithArgs path o).1 = some result := by
  obtain ⟨n, -, eq⟩ := bindAfterSpawn_eq (o.bind pid (toStringLossy name))
  simp only [spawnWithArgs, named, spawn, eq, const]

/-- A child that stays alive with stable metadata is bound, under its own PID, exactly
when its file name has at most 15 bytes or the cut to 15 bytes does not show. -/
theorem spawn_recognised_iff {path name : List UInt8} (named : fileName path = some name)
    {pid : Pid} {startTime : Nat} {o : SpawnOutcomes (PlatformProcess Handle)}
    (stable : StableWindow pid name startTime o) :
    (∃ process, (spawnWithArgs path o).1 = some (.ok process) ∧ process.metadata.pid = pid ∧
        process.handle.bound = ⟨pid, startTime⟩) ↔
      name.length ≤ 15 ∨ Utf8.CutHidden 15 (Utf8.sequences name) := by
  have result := spawnWithArgs_const named stable.spawn stable.bind_eq
  rw [result, ← linuxName_matches_iff, Binding.stableResult]
  by_cases same : processNamesMatch (linuxName name) (toStringLossy name) = true
  · rw [if_pos same]
    exact iff_of_true ⟨_, rfl, rfl, rfl⟩ same
  · rw [if_neg same]
    refine iff_of_false ?_ same
    rintro ⟨process, impossible, -⟩
    cases impossible

def supervisedPath : List UInt8 := "/opt/knot/bin/knotd-supervised".toUTF8.data.toList

theorem spawn_recognised_iff_knotd :
    ∃ process, (spawnWithArgs "/usr/bin/./knotd".toUTF8.data.toList
        (leftAlone 7 "knotd".toUTF8.data.toList 100)).1 = some (.ok process) ∧
      process.metadata.pid = 7 ∧ process.handle.bound = ⟨7, 100⟩ :=
  (spawn_recognised_iff (by decide) (leftAlone_stable 7 "knotd".toUTF8.data.toList 100)).mpr
    (.inl (by decide))

/-- The child lives on, and all attempts see another name than the one expected. -/
theorem spawn_refuses_long_name :
    ∃ o, StableWindow 7 "knotd-supervised".toUTF8.data.toList 100 o ∧
      fileName supervisedPath = some "knotd-supervised".toUTF8.data.toList ∧
      (spawnWithArgs supervisedPath o).1 =
        some (.error (.mismatch "knotd-supervised" "knotd-supervise")) :=
  ⟨leftAlone 7 "knotd-supervised".toUTF8.data.toList 100, leftAlone_stable _ _ _, by decide,
    by decide⟩

end KnotOps.Sys
