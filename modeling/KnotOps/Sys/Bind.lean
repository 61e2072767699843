import KnotOps.Machine
import KnotOps.Sys.Process

/-! `PlatformProcess::bind` between the steps of the operating system.
The metadata of a PID is read, the name is compared, a handle is opened and the
metadata is read again, one step each.  A binding remembers who held the PID
from its first read to its second.  The handle is opened between the two reads,
and what ties it to them is that no instance holds a PID twice. -/

namespace KnotOps.Sys

open Machine

variable {H : Type}

/-- What `bind` uses of a platform: its `T::bind` opens the process that holds the
PID now, or keeps the metadata. -/
structure Platform (H : Type) where
  bind : Os → ProcessMetadata → Except ProcessError H
  bound : H → Instance
  bind_bound : ∀ {os metadata handle}, bind os metadata = .ok handle →
    os.current metadata.pid = some (bound handle) ∨ bound handle = metadata.identity
  processNamesMatch : String → String → Bool

def Backend.platform (backend : Backend) : Platform Handle where
  bind os metadata := Handle.bind os metadata backend
  bound := Handle.bound
  bind_bound {os metadata handle} opened := by
    cases backend with
    | linux =>
      left
      cases held : os.current metadata.pid with
      | none => simp [Handle.bind, held] at opened
      | some holder =>
        have same : Handle.linux holder = handle := by simpa [Handle.bind, held] using opened
        rw [← same]
        rfl
    | macos =>
      right
      rw [← Except.ok.inj opened]
      rfl
  processNamesMatch := processNamesMatch

structure PlatformProcess (H : Type) where
  handle : H
  metadata : ProcessMetadata
deriving DecidableEq, Repr

def spawnExtractMetadata (os : Os) (pid : Pid) (failure : Option String) :
    Except ProcessError ProcessMetadata :=
  match failure with
  | some kind => .error (.io kind)
  | none =>
    match extract os pid with
    | some metadata => .ok metadata
    | none => .error .notRunning

inductive BindPhase (H : Type) where
  | extract
  | compare (metadata : ProcessMetadata)
  | bind (metadata : ProcessMetadata)
  | extractAfter (metadata : ProcessMetadata) (handle : H)
  | returned (result : Except ProcessError (PlatformProcess H))

def BindPhase.remaining : BindPhase H → Nat
  | extract => 4
  | compare _ => 3
  | .bind _ => 2
  | extractAfter _ _ => 1
  | returned _ => 0

structure Binding (H : Type) where
  os : Os
  phase : BindPhase H
  /-- Who has held the PID, in every state from the first read to the second. -/
  holders : List (Option Instance)

inductive BindAction where
  | os (a : OsAction)
  | advance (failure : Option String)
deriving DecidableEq, Repr

namespace Binding

def start : Binding H := ⟨.empty, .extract, []⟩

def goto (b : Binding H) (phase : BindPhase H) : Binding H := { b with phase }

def observe (b : Binding H) (pid : Pid) (os : Os) : Binding H :=
  { b with
    os
    holders := match b.phase with
      | .extract | .returned _ => b.holders
      | .compare _ | .bind _ | .extractAfter _ _ => b.holders ++ [os.current pid] }

def advance (platform : Platform H) (pid : Pid) (expected : String) (b : Binding H)
    (failure : Option String) : Option (Binding H) :=
  match b.phase with
  | .extract =>
    match spawnExtractMetadata b.os pid failure with
    | .ok metadata => some { b.goto (.compare metadata) with holders := [b.os.current pid] }
    | .error error => some (b.goto (.returned (.error error)))
  | .compare metadata =>
    if platform.processNamesMatch metadata.name expected then some (b.goto (.bind metadata))
    else some (b.goto (.returned (.error (.mismatch expected metadata.name))))
  | .bind metadata =>
    match failure with
    | some kind => some (b.goto (.returned (.error (.io kind))))
    | none =>
      match platform.bind b.os metadata with
      | .ok handle => some (b.goto (.extractAfter metadata handle))
      | .error error => some (b.goto (.returned (.error error)))
  | .extractAfter metadata handle =>
    match spawnExtractMetadata b.os pid failure with
    | .ok metadataAfter =>
      if metadata = metadataAfter then some (b.goto (.returned (.ok ⟨handle, metadataAfter⟩)))
      else some (b.goto (.returned (.error (.mismatch expected metadataAfter.name))))
    | .error error => some (b.goto (.returned (.error error)))
  | .returned _ => none

def step (platform : Platform H) (pid : Pid) (expected : String) (b : Binding H) :
    BindAction → Option (Binding H)
  | .os a => (b.os.step a).map (b.observe pid)
  | .advance failure => b.advance platform pid expected failure

def Proceeds (platform : Platform H) (pid : Pid) (expected : String) (b : Binding H) : Prop :=
  ∀ failure, ∃ next, b.step platform pid expected (.advance failure) = some next ∧
    next.phase.remaining < b.phase.remaining

end Binding

def HeldBy (holders : List (Option Instance)) (i : Instance) : Prop :=
  ∀ holder ∈ holders, holder = some i

/-- The PID has been vacated or has changed hands since the first read. -/
def Binding.ChangedHands (b : Binding H) : Prop :=
  ¬∃ i, HeldBy b.holders i

structure Holding (os : Os) (holders : List (Option Instance)) (pid : Pid)
    (metadata : ProcessMetadata) : Prop where
  pid_eq : metadata.pid = pid
  known : metadata.identity ∈ os.started
  heldBy_iff : HeldBy holders metadata.identity ↔ os.current pid = some metadata.identity

def BindPhase.Inv (platform : Platform H) (pid : Pid) (expected : String) (os : Os)
    (holders : List (Option Instance)) : BindPhase H → Prop
  | .extract => True
  | .compare metadata => Holding os holders pid metadata
  | .bind metadata =>
    Holding os holders pid metadata ∧ platform.processNamesMatch metadata.name expected
  | .extractAfter metadata handle =>
    Holding os holders pid metadata ∧ platform.processNamesMatch metadata.name expected ∧
      (HeldBy holders metadata.identity → platform.bound handle = metadata.identity)
  | .returned (.ok p) =>
    p.metadata.pid = pid ∧ platform.bound p.handle = p.metadata.identity ∧
      platform.processNamesMatch p.metadata.name expected ∧ HeldBy holders p.metadata.identity
  | .returned (.error _) => True

section Steps

variable {platform : Platform H} {pid : Pid} {expected : String} {b next : Binding H}
  {os next_os : Os} {holders : List (Option Instance)} {metadata : ProcessMetadata}

theorem heldBy_append {holder : Option Instance} {i : Instance} :
    HeldBy (holders ++ [holder]) i ↔ HeldBy holders i ∧ holder = some i := by
  simp [HeldBy, or_imp, forall_and]

theorem holding_extract (recorded : os.Recorded) (found : extract os pid = some metadata) :
    Holding os [os.current pid] pid metadata := by
  obtain ⟨same, held⟩ := Os.extract_eq_some found
  exact ⟨same, recorded pid _ held, by simp [HeldBy, held]⟩

theorem Holding.observe (inv : Holding os holders pid metadata) {a : OsAction}
    (taken : os.step a = some next_os) :
    Holding next_os (holders ++ [next_os.current pid]) pid metadata := by
  refine ⟨inv.pid_eq, Os.step_started taken inv.known, ?_⟩
  rw [heldBy_append]
  constructor
  · intro all
    exact all.2
  · intro held
    refine ⟨?_, held⟩
    obtain ⟨-, -, i, now, new, -⟩ | ⟨-, same | free⟩ := Os.step_current taken pid
    · have eq : i = metadata.identity := Option.some.inj (now.symm.trans held)
      rw [eq] at new
      exact absurd inv.known new
    · rw [inv.heldBy_iff, ← same]
      exact held
    · have impossible := free.symm.trans held
      cases impossible

theorem Holding.bound_eq (inv : Holding os holders pid metadata) {handle : H}
    (opened : platform.bind os metadata = .ok handle) (held : HeldBy holders metadata.identity) :
    platform.bound handle = metadata.identity := by
  obtain current | kept := platform.bind_bound opened
  · rw [inv.pid_eq, inv.heldBy_iff.mp held] at current
    exact (Option.some.inj current).symm
  · exact kept

theorem Holding.heldBy_extract (inv : Holding os holders pid metadata)
    (found : extract os pid = some metadata) : HeldBy holders metadata.identity := by
  obtain ⟨-, held⟩ := Os.extract_eq_some found
  rw [inv.heldBy_iff]
  exact held

theorem spawnExtractMetadata_ok {failure : Option String}
    (read : spawnExtractMetadata os pid failure = .ok metadata) :
    extract os pid = some metadata := by
  cases failure with
  | some kind => cases read
  | none =>
    cases found : extract os pid with
    | none => simp [spawnExtractMetadata, found] at read
    | some other => simpa [spawnExtractMetadata, found] using read

namespace Binding

structure Inv (platform : Platform H) (pid : Pid) (expected : String) (b : Binding H) : Prop where
  recorded : b.os.Recorded
  phase : b.phase.Inv platform pid expected b.os b.holders

theorem observe_phase (inv : b.phase.Inv platform pid expected b.os b.holders) {a : OsAction}
    (taken : b.os.step a = some next_os) :
    (b.observe pid next_os).phase.Inv platform pid expected next_os
      (b.observe pid next_os).holders := by
  obtain ⟨os, phase, holders⟩ := b
  cases phase with
  | extract => trivial
  | compare metadata => exact Holding.observe inv taken
  | bind metadata => exact ⟨inv.1.observe taken, inv.2⟩
  | extractAfter metadata handle =>
    refine ⟨inv.1.observe taken, inv.2.1, fun held => inv.2.2 ?_⟩
    exact (heldBy_append.mp held).1
  | returned result =>
    cases result with
    | ok p => exact inv
    | error error => trivial

theorem advance_phase {failure : Option String} (recorded : b.os.Recorded)
    (inv : b.phase.Inv platform pid expected b.os b.holders)
    (taken : b.advance platform pid expected failure = some next) :
    next.os = b.os ∧ next.phase.Inv platform pid expected next.os next.holders := by
  obtain ⟨os, phase, holders⟩ := b
  cases phase with
  | extract =>
    simp only [advance] at taken
    split at taken <;> rw [← Option.some.inj taken]
    · rename_i metadata read
      exact ⟨rfl, holding_extract recorded (spawnExtractMetadata_ok read)⟩
    · exact ⟨rfl, trivial⟩
  | compare metadata =>
    simp only [advance] at taken
    split_ifs at taken with same <;> rw [← Option.some.inj taken]
    · exact ⟨rfl, inv, same⟩
    · exact ⟨rfl, trivial⟩
  | bind metadata =>
    simp only [advance] at taken
    split at taken
    · rw [← Option.some.inj taken]
      exact ⟨rfl, trivial⟩
    · split at taken <;> rw [← Option.some.inj taken]
      · rename_i handle opened
        exact ⟨rfl, inv.1, inv.2, inv.1.bound_eq opened⟩
      · exact ⟨rfl, trivial⟩
  | extractAfter metadata handle =>
    simp only [advance] at taken
    split at taken
    · rename_i metadataAfter read
      split_ifs at taken with same <;> rw [← Option.some.inj taken]
      · rw [← same] at read
        have held := inv.1.heldBy_extract (spawnExtractMetadata_ok read)
        rw [← same]
        exact ⟨rfl, inv.1.pid_eq, inv.2.2 held, inv.2.1, held⟩
      · exact ⟨rfl, trivial⟩
    · rw [← Option.some.inj taken]
      exact ⟨rfl, trivial⟩
  | returned result => cases taken

theorem step_inv {a : BindAction} (inv : b.Inv platform pid expected)
    (taken : b.step platform pid expected a = some next) : next.Inv platform pid expected := by
  cases a with
  | os a =>
    obtain ⟨next_os, moved, eq⟩ := Option.map_eq_some_iff.mp taken
    rw [← eq]
    exact ⟨Os.step_recorded moved inv.recorded, observe_phase inv.phase moved⟩
  | advance failure =>
    obtain ⟨same, phase⟩ := advance_phase inv.recorded inv.phase taken
    exact ⟨same ▸ inv.recorded, phase⟩

theorem start_inv : (start : Binding H).Inv platform pid expected :=
  ⟨Os.empty_recorded, trivial⟩

theorem proceeds (b : Binding H) (unfinished : b.phase.remaining ≠ 0) :
    b.Proceeds platform pid expected := by
  intro failure
  obtain ⟨os, phase, holders⟩ := b
  cases phase with
  | extract =>
    cases read : spawnExtractMetadata os pid failure <;>
      simp [step, advance, read, goto, BindPhase.remaining]
  | compare metadata =>
    cases same : platform.processNamesMatch metadata.name expected <;>
      simp [step, advance, same, goto, BindPhase.remaining]
  | bind metadata =>
    cases failure with
    | some kind => simp [step, advance, goto, BindPhase.remaining]
    | none =>
      cases opened : platform.bind os metadata <;>
        simp [step, advance, opened, goto, BindPhase.remaining]
  | extractAfter metadata handle =>
    cases read : spawnExtractMetadata os pid failure with
    | error error => simp [step, advance, read, goto, BindPhase.remaining]
    | ok metadataAfter =>
      by_cases same : metadata = metadataAfter <;>
        simp [step, advance, read, same, goto, BindPhase.remaining]
  | returned result => exact absurd rfl unfinished

end Binding

end Steps

open Binding

/-- `Ok` comes with a handle on the instance of the metadata, which held the PID from
the first read to the second and has the expected name; when no instance held the
PID all that time `bind` returns an error. -/
theorem bind_is_race_free (platform : Platform H) (pid : Pid) (expected : String)
    (actions : List BindAction) {b : Binding H}
    (reached : run (step platform pid expected) start actions = some b) :
    (∀ p, b.phase = .returned (.ok p) →
      p.metadata.pid = pid ∧ platform.bound p.handle = p.metadata.identity ∧
        platform.processNamesMatch p.metadata.name expected ∧
        HeldBy b.holders p.metadata.identity) ∧
      (b.ChangedHands →
        (∃ error, b.phase = .returned (.error error)) ∨ b.Proceeds platform pid expected) := by
  have inv := run_invariant (Inv platform pid expected) (fun _ _ _ => step_inv) start_inv reached
  constructor
  · intro p returned
    have phase := inv.phase
    rw [returned] at phase
    exact phase
  · intro changed
    cases returned : b.phase with
    | returned result =>
      left
      cases result with
      | error error => exact ⟨error, rfl⟩
      | ok p =>
        have phase := inv.phase
        rw [returned] at phase
        exact absurd ⟨_, phase.2.2.2⟩ changed
    | _ =>
      right
      exact b.proceeds (by simp [returned, BindPhase.remaining])

def boundInTime : List BindAction :=
  [.os (.spawn 7 "KnotD" 100), .advance none, .advance none, .os (.rename 7 "knotd"),
    .advance none, .os (.rename 7 "KnotD"), .advance none]

theorem bind_is_race_free_boundInTime :
    ∃ b, run (step Backend.linux.platform 7 "knotd") start boundInTime = some b ∧
      b.phase = .returned (.ok ⟨.linux ⟨7, 100⟩, ⟨7, "KnotD", 100⟩⟩) ∧
      HeldBy b.holders ⟨7, 100⟩ := by
  obtain ⟨b, reached, returned⟩ : ∃ b,
      run (step Backend.linux.platform 7 "knotd") start boundInTime = some b ∧
        b.phase = .returned (.ok ⟨.linux ⟨7, 100⟩, ⟨7, "KnotD", 100⟩⟩) := ⟨_, rfl, rfl⟩
  have safe := bind_is_race_free Backend.linux.platform 7 "knotd" boundInTime reached
  exact ⟨b, reached, returned, (safe.1 _ returned).2.2.2⟩

end KnotOps.Sys
