import KnotOps.Machine
import KnotOps.Sys.Process

/-! Signals sent through process handles.
Any number of handles are bound, and any number of calls of `kill`, `terminate`
and `check_permissions` run on them, one system call a step, between the steps of
the operating system.  Every signal is kept with the instance that it reached.
A Linux call is one `pidfd_send_signal`; a macOS call reads the metadata of the
PID first and sends to the bare PID afterwards. -/

namespace KnotOps.Sys

open Machine

inductive Signal where
  | zero
  | sigterm
  | sigkill
deriving DecidableEq, Repr

inductive Op where
  | checkPermissions
  | kill
  | terminate
deriving DecidableEq, Repr

def Op.signal : Op → Signal
  | checkPermissions => .zero
  | kill => .sigkill
  | terminate => .sigterm

/-- The operations of `PlatformProcess::kill`; the wait after them sends nothing. -/
def PlatformProcess.kill : List Op := [.checkPermissions, .kill]

/-- The operations of `PlatformProcess::terminate`. -/
def PlatformProcess.terminate : List Op := [.checkPermissions, .terminate]

inductive SyscallResult where
  /-- The PID still has the metadata of the fingerprint. -/
  | checked
  /-- The signal has reached an instance, and the operation returns `Ok`. -/
  | sent (receiver : Instance)
  | failed (error : ProcessError)
deriving DecidableEq, Repr

/-- `pidfd_send_signal`. -/
def pidfdSendSignal (os : Os) (processRef : Instance) : SyscallResult :=
  if os.isRunning processRef then .sent processRef else .failed .notRunning

/-- `kill(2)`: whoever holds the PID now gets the signal. -/
def killPid (os : Os) (pid : Pid) : SyscallResult :=
  match os.current pid with
  | some holder => .sent holder
  | none => .failed .notRunning

/-- The next system call of an operation on the handle; on macOS `checked` tells
whether `ensure_pid_not_reused` has passed. -/
def Handle.syscall (os : Os) (checked : Bool) (failure : Option String) : Handle → SyscallResult
  | linux processRef =>
    match failure with
    | some kind => .failed (.io kind)
    | none => pidfdSendSignal os processRef
  | macos fingerprint =>
    match failure with
    | some kind => .failed (.io kind)
    | none =>
      if checked then killPid os fingerprint.pid
      else match ensurePidNotReused os fingerprint with
        | .ok () => .checked
        | .error error => .failed error

/-- A sequence of operations on one handle, each followed by `?`.  `reused` is set
when a process is started at the PID after the identity check of the operation
that is being run. -/
structure Call where
  handle : Handle
  ops : List Op
  checked : Bool
  reused : Bool
  error : Option ProcessError
deriving DecidableEq, Repr

structure Delivery where
  bound : Instance
  receiver : Instance
  signal : Signal
deriving DecidableEq, Repr

structure Signals where
  os : Os
  handles : List Handle
  calls : List Call
  delivered : List Delivery

inductive SignalAction where
  | os (a : OsAction)
  | bind (metadata : ProcessMetadata)
  | call (handle : Nat) (ops : List Op)
  | advance (call : Nat) (failure : Option String)
deriving DecidableEq, Repr

namespace Call

def start (handle : Handle) (ops : List Op) : Call := ⟨handle, ops, false, false, none⟩

def observe (c : Call) (a : OsAction) : Call :=
  { c with reused := c.reused || decide (a.SpawnsAt c.handle.bound.pid) }

def pass (c : Call) : Call := { c with checked := true, reused := false }

def finish (c : Call) (rest : List Op) : Call := { c with ops := rest, checked := false }

def fail (c : Call) (error : ProcessError) : Call := { c with ops := [], error := some error }

structure Sound (os : Os) (c : Call) : Prop where
  macos : c.checked → ∃ fingerprint, c.handle = .macos fingerprint
  known : c.checked → c.handle.bound ∈ os.started
  kept : c.checked → ¬c.reused →
    os.current c.handle.bound.pid = some c.handle.bound ∨
      os.current c.handle.bound.pid = none
  lost : c.checked → c.reused → os.current c.handle.bound.pid ≠ some c.handle.bound

end Call

namespace Signals

def start : Signals := ⟨.empty, [], [], []⟩

def deliver (s : Signals) (handle : Handle) (op : Op) (receiver : Instance) : Signals :=
  { s with delivered :=
      if op.signal = .zero then s.delivered
      else s.delivered ++ [⟨handle.bound, receiver, op.signal⟩] }

def setCall (s : Signals) (i : Nat) (c : Call) : Signals := { s with calls := s.calls.set i c }

def advance (s : Signals) (i : Nat) (failure : Option String) : Option Signals :=
  match s.calls[i]? with
  | none => none
  | some c =>
    match c.ops with
    | [] => none
    | op :: rest =>
      match c.handle.syscall s.os c.checked failure with
      | .checked => some (s.setCall i c.pass)
      | .sent receiver => some ((s.setCall i (c.finish rest)).deliver c.handle op receiver)
      | .failed error => some (s.setCall i (c.fail error))

def step (backend : Backend) (s : Signals) : SignalAction → Option Signals
  | .os a => (s.os.step a).map fun os => { s with os, calls := s.calls.map (·.observe a) }
  | .bind metadata =>
    match Handle.bind s.os metadata backend with
    | .ok handle => some { s with handles := s.handles ++ [handle] }
    | .error _ => some s
  | .call h ops => s.handles[h]?.map fun handle => { s with calls := s.calls ++ [.start handle ops] }
  | .advance i failure => s.advance i failure

def ReachesBound (s : Signals) : Prop :=
  ∀ d ∈ s.delivered, d.receiver = d.bound

/-- `kill(2)` is about to be made for a `kill` or a `terminate` while its PID is held
and a process has been started at that PID since the identity check. -/
def SendsAfterReuse (s : Signals) : SignalAction → Prop
  | .advance i none =>
    ∃ c ∈ s.calls[i]?, c.checked ∧ c.reused ∧ (s.os.current c.handle.bound.pid).isSome ∧
      ∃ op ∈ c.ops.head?, op.signal ≠ .zero
  | .advance _ (some _) | .os _ | .bind _ | .call _ _ => False

instance (s : Signals) : DecidablePred s.SendsAfterReuse
  | .advance i none => inferInstanceAs (Decidable (∃ c ∈ s.calls[i]?, _))
  | .advance _ (some _) | .os _ | .bind _ | .call _ _ => inferInstanceAs (Decidable False)

structure Inv (s : Signals) : Prop where
  recorded : s.os.Recorded
  sound : ∀ c ∈ s.calls, c.Sound s.os

end Signals

section Syscalls

variable {os : Os} {h : Handle} {checked : Bool} {failure : Option String}

theorem syscall_checked (passed : h.syscall os checked failure = .checked) :
    (∃ fingerprint, h = .macos fingerprint) ∧ checked = false ∧
      os.current h.bound.pid = some h.bound := by
  cases h with
  | linux processRef =>
    cases failure with
    | some kind => cases passed
    | none =>
      simp only [Handle.syscall, pidfdSendSignal] at passed
      split_ifs at passed
  | macos fingerprint =>
    cases failure with
    | some kind => cases passed
    | none =>
      cases checked with
      | true =>
        simp only [Handle.syscall, killPid, if_true] at passed
        split at passed <;> cases passed
      | false =>
        refine ⟨⟨fingerprint, rfl⟩, rfl, ?_⟩
        simp only [Handle.syscall, ensurePidNotReused, Bool.false_eq_true, if_false] at passed
        cases found : extract os fingerprint.pid with
        | none => simp [found] at passed
        | some metadata =>
          by_cases same : metadata = fingerprint
          · rw [same] at found
            exact (Os.extract_eq_some found).2
          · simp [found, same] at passed

theorem syscall_sent {receiver : Instance} (sent : h.syscall os checked failure = .sent receiver) :
    failure = none ∧ os.current h.bound.pid = some receiver ∧
      (checked = false → receiver = h.bound) := by
  cases failure with
  | some kind => cases h <;> cases sent
  | none =>
    refine ⟨rfl, ?_⟩
    cases h with
    | linux processRef =>
      simp only [Handle.syscall, pidfdSendSignal] at sent
      split_ifs at sent with running
      rw [← SyscallResult.sent.inj sent]
      exact ⟨running, fun _ => rfl⟩
    | macos fingerprint =>
      cases checked with
      | true =>
        simp only [Handle.syscall, killPid, if_true] at sent
        cases held : os.current fingerprint.pid with
        | none => simp [held] at sent
        | some holder =>
          have same : holder = receiver := by simpa [held] using sent
          exact ⟨same ▸ held, by simp⟩
      | false =>
        simp only [Handle.syscall, ensurePidNotReused, Bool.false_eq_true, if_false] at sent
        cases found : extract os fingerprint.pid with
        | none => simp [found] at sent
        | some metadata => by_cases same : metadata = fingerprint <;> simp [found, same] at sent

theorem syscall_failed {error : ProcessError} {fingerprint : ProcessMetadata}
    (failed : (Handle.macos fingerprint).syscall os true none = .failed error) :
    os.current fingerprint.pid = none := by
  simp only [Handle.syscall, killPid, if_true] at failed
  cases held : os.current fingerprint.pid with
  | none => rfl
  | some holder => simp [held] at failed

end Syscalls

namespace Call

variable {os next : Os} {c : Call}

theorem start_sound (os : Os) (handle : Handle) (ops : List Op) : (start handle ops).Sound os :=
  ⟨by simp [start], by simp [start], by simp [start], by simp [start]⟩

theorem Sound.observe {a : OsAction} (inv : c.Sound os) (taken : os.step a = some next) :
    (c.observe a).Sound next := by
  refine ⟨inv.macos, fun checked => Os.step_started taken (inv.known checked), ?_, ?_⟩
  · intro checked unused
    have before : ¬c.reused ∧ ¬a.SpawnsAt c.handle.bound.pid := by
      simpa [Call.observe, not_or] using unused
    obtain ⟨starts, -⟩ | ⟨-, same | free⟩ := Os.step_current taken c.handle.bound.pid
    · exact absurd starts before.2
    · have kept := inv.kept checked before.1
      rw [← same] at kept
      exact kept
    · exact .inr free
  · intro checked reused
    obtain ⟨-, -, i, now, new, -⟩ | ⟨other, same | free⟩ :=
      Os.step_current taken c.handle.bound.pid
    · -- the instance of the handle has been started before, and none is started twice
      intro held
      have eq : i = c.handle.bound := Option.some.inj (now.symm.trans held)
      exact new (eq ▸ inv.known checked)
    · have before : c.reused := by simpa [Call.observe, other] using reused
      have lost := inv.lost checked before
      rw [← same] at lost
      exact lost
    · intro held
      have impossible := free.symm.trans held
      cases impossible

theorem pass_sound (mac : ∃ fingerprint, c.handle = .macos fingerprint) (recorded : os.Recorded)
    (held : os.current c.handle.bound.pid = some c.handle.bound) : c.pass.Sound os :=
  ⟨fun _ => mac, fun _ => recorded _ _ held, fun _ _ => .inl held, by simp [pass]⟩

theorem finish_sound (os : Os) (c : Call) (rest : List Op) : (c.finish rest).Sound os :=
  ⟨by simp [finish], by simp [finish], by simp [finish], by simp [finish]⟩

theorem Sound.fail (inv : c.Sound os) (error : ProcessError) : (c.fail error).Sound os :=
  ⟨inv.macos, inv.known, inv.kept, inv.lost⟩

theorem Sound.receiver_eq_bound_iff (inv : c.Sound os) {failure : Option String}
    {receiver : Instance} (sent : c.handle.syscall os c.checked failure = .sent receiver) :
    receiver = c.handle.bound ↔ ¬(c.checked ∧ c.reused) := by
  obtain ⟨-, held, unchecked⟩ := syscall_sent sent
  constructor
  · rintro eq ⟨checked, reused⟩
    exact inv.lost checked reused (eq ▸ held)
  · intro safe
    by_cases checked : c.checked = true
    · have unused : ¬c.reused := fun reused => safe ⟨checked, reused⟩
      obtain kept | free := inv.kept checked unused
      · exact Option.some.inj (held.symm.trans kept)
      · rw [free] at held
        cases held
    · exact unchecked (by simpa using checked)

end Call

namespace Signals

variable {backend : Backend} {s next : Signals}

theorem deliver_reachesBound (s : Signals) (h : Handle) (op : Op) (receiver : Instance) :
    (s.deliver h op receiver).ReachesBound ↔
      s.ReachesBound ∧ (op.signal ≠ .zero → receiver = h.bound) := by
  by_cases zero : op.signal = .zero
  · simp [deliver, ReachesBound, zero]
  · simp [deliver, ReachesBound, zero, or_imp, forall_and]

theorem advance_cases {i : Nat} {failure : Option String}
    (taken : s.advance i failure = some next) :
    ∃ c op rest, s.calls[i]? = some c ∧ c.ops = op :: rest ∧
      ((c.handle.syscall s.os c.checked failure = .checked ∧ next = s.setCall i c.pass) ∨
        (∃ receiver, c.handle.syscall s.os c.checked failure = .sent receiver ∧
          next = (s.setCall i (c.finish rest)).deliver c.handle op receiver) ∨
        ∃ error, c.handle.syscall s.os c.checked failure = .failed error ∧
          next = s.setCall i (c.fail error)) := by
  simp only [advance] at taken
  split at taken
  · cases taken
  · rename_i c found
    split at taken
    · cases taken
    · rename_i op rest ops
      refine ⟨c, op, rest, found, ops, ?_⟩
      split at taken
      · exact .inl ⟨‹_›, (Option.some.inj taken).symm⟩
      · exact .inr (.inl ⟨_, ‹_›, (Option.some.inj taken).symm⟩)
      · exact .inr (.inr ⟨_, ‹_›, (Option.some.inj taken).symm⟩)

theorem setCall_inv (inv : s.Inv) (i : Nat) {c : Call} (sound : c.Sound s.os) :
    (s.setCall i c).Inv := by
  refine ⟨inv.recorded, fun other mem => ?_⟩
  obtain old | eq := List.mem_or_eq_of_mem_set mem
  · exact inv.sound other old
  · rw [eq]
    exact sound

theorem advance_inv {i : Nat} {failure : Option String} (inv : s.Inv)
    (taken : s.advance i failure = some next) : next.Inv := by
  obtain ⟨c, op, rest, found, -, passed | sent | failed⟩ := advance_cases taken
  · obtain ⟨mac, -, held⟩ := syscall_checked passed.1
    rw [passed.2]
    exact setCall_inv inv i (c.pass_sound mac inv.recorded held)
  · obtain ⟨receiver, -, eq⟩ := sent
    have after := setCall_inv inv i (c.finish_sound s.os rest)
    rw [eq]
    exact ⟨after.recorded, after.sound⟩
  · obtain ⟨error, -, eq⟩ := failed
    have sound := inv.sound c (List.mem_of_getElem? found)
    rw [eq]
    exact setCall_inv inv i (sound.fail error)

theorem step_inv {a : SignalAction} (inv : s.Inv) (taken : step backend s a = some next) :
    next.Inv := by
  cases a with
  | os a =>
    obtain ⟨os, moved, eq⟩ := Option.map_eq_some_iff.mp taken
    rw [← eq]
    refine ⟨Os.step_recorded moved inv.recorded, fun c mem => ?_⟩
    obtain ⟨old, present, same⟩ := List.mem_map.mp mem
    rw [← same]
    exact (inv.sound old present).observe moved
  | bind metadata =>
    simp only [step] at taken
    split at taken <;> rw [← Option.some.inj taken] <;> exact ⟨inv.recorded, inv.sound⟩
  | call h ops =>
    obtain ⟨handle, -, eq⟩ := Option.map_eq_some_iff.mp taken
    rw [← eq]
    refine ⟨inv.recorded, fun c mem => ?_⟩
    obtain old | new := List.mem_append.mp mem
    · exact inv.sound c old
    · rw [List.mem_singleton.mp new]
      exact Call.start_sound s.os handle ops
  | advance i failure => exact advance_inv inv taken

theorem start_inv : start.Inv :=
  ⟨Os.empty_recorded, fun c mem => absurd mem (by simp [start])⟩

theorem advance_reachesBound {i : Nat} {failure : Option String} (inv : s.Inv)
    (taken : s.advance i failure = some next) :
    next.ReachesBound ↔ s.ReachesBound ∧ ¬s.SendsAfterReuse (.advance i failure) := by
  obtain ⟨c, op, rest, found, ops, passed | sent | failed⟩ := advance_cases taken
  · obtain ⟨-, unchecked, -⟩ := syscall_checked passed.1
    have safe : ¬s.SendsAfterReuse (.advance i failure) := by
      cases failure <;> simp [SendsAfterReuse, found, unchecked]
    rw [passed.2]
    simp [safe, setCall, ReachesBound]
  · obtain ⟨receiver, sent, eq⟩ := sent
    obtain ⟨succeeded, held, -⟩ := syscall_sent sent
    have receives := (inv.sound c (List.mem_of_getElem? found)).receiver_eq_bound_iff sent
    have misses : s.SendsAfterReuse (.advance i none) ↔
        c.checked ∧ c.reused ∧ op.signal ≠ .zero := by
      simp [SendsAfterReuse, found, ops, held]
    rw [eq, deliver_reachesBound, receives, succeeded, misses]
    simp only [setCall, ReachesBound]
    tauto
  · obtain ⟨error, failed, eq⟩ := failed
    have safe : ¬s.SendsAfterReuse (.advance i failure) := by
      cases failure with
      | some kind => simp [SendsAfterReuse]
      | none =>
        simp only [SendsAfterReuse, found, Option.mem_some_iff, exists_eq_left']
        rintro ⟨checked, -, held, -⟩
        obtain ⟨fingerprint, mac⟩ := (inv.sound c (List.mem_of_getElem? found)).macos checked
        rw [mac, checked] at failed
        have free := syscall_failed failed
        simp [mac, Handle.bound, ProcessMetadata.identity, free] at held
    rw [eq]
    simp [safe, setCall, ReachesBound]

theorem step_reachesBound {a : SignalAction} (inv : s.Inv) (taken : step backend s a = some next) :
    next.ReachesBound ↔ s.ReachesBound ∧ ¬s.SendsAfterReuse a := by
  cases a with
  | os a =>
    obtain ⟨os, -, eq⟩ := Option.map_eq_some_iff.mp taken
    simp [← eq, ReachesBound, SendsAfterReuse]
  | bind metadata =>
    simp only [step] at taken
    split at taken <;> simp [← Option.some.inj taken, ReachesBound, SendsAfterReuse]
  | call h ops =>
    obtain ⟨handle, -, eq⟩ := Option.map_eq_some_iff.mp taken
    simp [← eq, ReachesBound, SendsAfterReuse]
  | advance i failure => exact advance_reachesBound inv taken

def Of (backend : Backend) (s : Signals) : Prop :=
  (∀ h ∈ s.handles, h.backend = backend) ∧ ∀ c ∈ s.calls, c.handle.backend = backend

theorem start_of (backend : Backend) : start.Of backend :=
  ⟨fun h mem => absurd mem (by simp [start]), fun c mem => absurd mem (by simp [start])⟩

theorem setCall_of (inv : s.Of backend) {i : Nat} {c c' : Call} (found : s.calls[i]? = some c)
    (same : c'.handle = c.handle) : (s.setCall i c').Of backend := by
  refine ⟨inv.1, fun other mem => ?_⟩
  obtain old | eq := List.mem_or_eq_of_mem_set mem
  · exact inv.2 other old
  · rw [eq, same]
    exact inv.2 c (List.mem_of_getElem? found)

theorem step_of {a : SignalAction} (inv : s.Of backend) (taken : step backend s a = some next) :
    next.Of backend := by
  cases a with
  | os a =>
    obtain ⟨os, -, eq⟩ := Option.map_eq_some_iff.mp taken
    rw [← eq]
    refine ⟨inv.1, fun c mem => ?_⟩
    obtain ⟨old, present, same⟩ := List.mem_map.mp mem
    rw [← same]
    exact inv.2 old present
  | bind metadata =>
    simp only [step] at taken
    split at taken
    · rename_i handle bound
      rw [← Option.some.inj taken]
      refine ⟨fun h mem => ?_, inv.2⟩
      obtain old | new := List.mem_append.mp mem
      · exact inv.1 h old
      · rw [List.mem_singleton.mp new]
        exact Handle.bind_backend bound
    · exact Option.some.inj taken ▸ inv
  | call h ops =>
    obtain ⟨handle, found, eq⟩ := Option.map_eq_some_iff.mp taken
    rw [← eq]
    refine ⟨inv.1, fun c mem => ?_⟩
    obtain old | new := List.mem_append.mp mem
    · exact inv.2 c old
    · rw [List.mem_singleton.mp new]
      exact inv.1 handle (List.mem_of_getElem? found)
  | advance i failure =>
    obtain ⟨c, op, rest, found, -, passed | sent | failed⟩ := advance_cases taken
    · rw [passed.2]
      exact setCall_of inv found rfl
    · obtain ⟨receiver, -, eq⟩ := sent
      have after : (s.setCall i (c.finish rest)).Of backend := setCall_of inv found rfl
      rw [eq]
      exact ⟨after.1, after.2⟩
    · obtain ⟨error, -, eq⟩ := failed
      rw [eq]
      exact setCall_of inv found rfl

theorem linux_not_sendsAfterReuse (inv : s.Inv) (linux : s.Of .linux) (a : SignalAction) :
    ¬s.SendsAfterReuse a := by
  match a with
  | .advance i none =>
    rintro ⟨c, found, checked, -⟩
    have mem := List.mem_of_getElem? (Option.mem_def.mp found)
    obtain ⟨fingerprint, mac⟩ := (inv.sound c mem).macos checked
    have kind := linux.2 c mem
    rw [mac] at kind
    cases kind
  | .advance _ (some _) | .os _ | .bind _ | .call _ _ => exact id

end Signals

open Signals

/-- Every signal reaches the instance of its handle in exactly the runs where no
`kill(2)` is made after the PID has been reused. -/
theorem signals_reach_bound_iff (backend : Backend) (actions : List SignalAction) {s : Signals}
    (reached : run (step backend) start actions = some s) :
    s.ReachesBound ↔ Guarded (fun s a => ¬s.SendsAfterReuse a) (step backend) start actions := by
  have nothing : start.ReachesBound := fun d mem => absurd mem (by simp [start])
  have exact := run_guarded_iff Inv ReachesBound (fun _ _ _ => step_inv)
    (fun _ _ _ => step_reachesBound) start_inv reached
  rw [exact]
  simp [nothing]

/-- On Linux every signal reaches the instance that its handle was bound to. -/
theorem linux_signals_reach_bound (actions : List SignalAction) {s : Signals}
    (reached : run (step .linux) start actions = some s) : s.ReachesBound := by
  have inv := run_invariant (fun s => s.Inv ∧ s.Of .linux ∧ s.ReachesBound)
    (fun s a next inv taken => ⟨step_inv inv.1 taken, step_of inv.2.1 taken,
      (step_reachesBound inv.1 taken).mpr
        ⟨inv.2.2, linux_not_sendsAfterReuse inv.1 inv.2.1 a⟩⟩)
    ⟨start_inv, start_of .linux, fun d mem => absurd mem (by simp [start])⟩ reached
  exact inv.2.2

def killedAfterReuse : List SignalAction :=
  [.os (.spawn 7 "knotd" 100), .bind ⟨7, "knotd", 100⟩, .call 0 [.kill], .advance 0 none,
    .os (.exit 7), .os (.reap 7), .os (.spawn 7 "other" 200), .advance 0 none]

/-- The identity check passes, the PID is reused, and the signal goes to the
process that holds it now. -/
theorem kill_reaches_reused_pid :
    ∃ s, run (step .macos) start killedAfterReuse = some s ∧
      s.delivered = [⟨⟨7, 100⟩, ⟨7, 200⟩, .sigkill⟩] ∧ ¬s.ReachesBound := by
  have ends : (run (step .macos) start killedAfterReuse).map (·.delivered) =
      some [⟨⟨7, 100⟩, ⟨7, 200⟩, .sigkill⟩] := by decide
  obtain ⟨s, reached, delivered⟩ := Option.map_eq_some_iff.mp ends
  refine ⟨s, reached, delivered, fun reaches => ?_⟩
  have same := reaches ⟨⟨7, 100⟩, ⟨7, 200⟩, .sigkill⟩ (by simp [delivered])
  revert same
  decide

def killedInTime : List SignalAction :=
  [.os (.spawn 7 "knotd" 100), .bind ⟨7, "knotd", 100⟩, .call 0 PlatformProcess.kill,
    .advance 0 none, .advance 0 none, .advance 0 none, .os (.exit 7), .advance 0 none]

theorem signals_reach_bound_iff_killedInTime :
    ∃ s, run (step .macos) start killedInTime = some s ∧
      s.delivered = [⟨⟨7, 100⟩, ⟨7, 100⟩, .sigkill⟩] ∧ s.ReachesBound := by
  have ends : (run (step .macos) start killedInTime).map (·.delivered) =
      some [⟨⟨7, 100⟩, ⟨7, 100⟩, .sigkill⟩] := by decide
  obtain ⟨s, reached, delivered⟩ := Option.map_eq_some_iff.mp ends
  exact ⟨s, reached, delivered, (signals_reach_bound_iff .macos _ reached).mpr (by decide)⟩

end KnotOps.Sys
