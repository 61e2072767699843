import KnotOps.Facade.Inspection
import KnotOps.Facade.Recovery

/-! `connect` system call by system call, and the coarse `connect` of the recovery.
The recovery of a runtime directory knows nothing of the process table: a lock file is the
PID that it parses to, and its client is told how a binding has ended.  Every run of the
client is one of the coarse client. -/

namespace KnotOps.Facade

open Machine
open KnotOps.Sys (Os OsAction ProcessError Handle Backend)

def InspectionPhase.coarse : InspectionPhase → Phase
  | connect => .connect
  | checkSocket => .checkSocket
  | dial => .dial
  | readLock => .readLock
  | bind pid => .bind pid
  | returned (.ok .offline) => .offline
  | returned (.ok .connected) => .connected
  | returned (.ok .stale) => .stale 0
  | returned (.ok (.hung _)) | kill _ _ _ | killed _ => .hung
  | returned (.error _) => .failed

def bindAnswer : Except ProcessError (Sys.PlatformProcess Handle) → BindResult
  | .ok _ => .bound
  | .error .notRunning => .notRunning
  | .error .reused => .reused
  | .error (.mismatch _ _) => .mismatch
  | .error (.io _) => .io

inductive CoarseAction where
  | files (dir : RuntimeDir)
  | client (answer : Answer)

def CoarseAction.rewrites : CoarseAction → Option RuntimeDir
  | files dir => some dir
  | client _ => none

/-- One client in `connect`, and others that rewrite the files. -/
def Recovery.inspect (r : Recovery Unit) : CoarseAction → Option (Recovery Unit)
  | .files dir => some { r with dir }
  | .client answer => r.connect () answer (r.phase ())

namespace Inspection

variable {backend : Backend} {handle : KillHandle} {expected : String} {s next : Inspection}

def coarseDir (lock : Option (Option String)) (socket : Bool) : RuntimeDir :=
  ⟨lock.map fun content => ⟨none, readAsU32 content⟩, if socket then some ⟨none⟩ else none⟩

def coarse (s : Inspection) : Recovery Unit :=
  ⟨.unix, coarseDir s.lock s.socket, 0, fun _ => s.phase.coarse, []⟩

/-- How an action leaves the files, if it rewrites them. -/
def rewrites : InspectionAction → Option RuntimeDir
  | .files lock socket => some (coarseDir lock socket)
  | .os _ | .connect _ _ | .kill _ _ => none

theorem coarse_goto (s : Inspection) (phase : InspectionPhase) :
    (s.goto phase).coarse = s.coarse.goto () phase.coarse := by
  simp [coarse, goto, Recovery.goto]

theorem connect_bindAnswer (r : Recovery Unit) (first : r.launched = 0) (pid : Nat)
    (result : Except ProcessError (Sys.PlatformProcess Handle)) :
    r.connect () ⟨true, bindAnswer result⟩ (.bind pid) =
      some (r.goto () (InspectionPhase.returned (bindState result)).coarse) := by
  match result with
  | .ok p => rfl
  | .error .notRunning | .error .reused | .error (.mismatch _ _) =>
    rw [Recovery.connect, bindAnswer, first]
    rfl
  | .error (.io _) => rfl

theorem connect_coarse {ok : Bool} {failure : Option String}
    (taken : s.connect backend expected ok failure = some next) :
    next.coarse = s.coarse ∨ ∃ answer, s.coarse.inspect (.client answer) = some next.coarse := by
  obtain ⟨lock, socket, binding, phase, content, delivered⟩ := s
  cases phase with
  | connect =>
    rw [← Option.some.inj taken, coarse_goto]
    refine .inr ⟨⟨true, .io⟩, ?_⟩
    cases lock <;> rfl
  | checkSocket =>
    rw [← Option.some.inj taken, coarse_goto]
    refine .inr ⟨⟨true, .io⟩, ?_⟩
    cases socket <;> rfl
  | dial =>
    rw [← Option.some.inj taken, coarse_goto]
    refine .inr ⟨⟨ok, .io⟩, ?_⟩
    cases ok <;> rfl
  | readLock =>
    refine .inr ⟨⟨failure.isNone, .io⟩, ?_⟩
    have same : (if failure.isNone then (coarseDir lock socket).lock.bind (·.pid) else none) =
        readAsU32 (if failure.isSome then none else lock.join) := by
      cases failure <;> cases lock <;> simp [coarseDir, readAsU32]
    simp only [Inspection.connect] at taken
    simp only [Recovery.inspect, Recovery.connect, coarse, InspectionPhase.coarse, same]
    generalize readAsU32 (if failure.isSome then none else lock.join) = read at taken ⊢
    cases read with
    | some pid =>
      rw [← Option.some.inj taken]
      rfl
    | none =>
      rw [← Option.some.inj taken]
      rfl
  | bind pid =>
    simp only [Inspection.connect] at taken
    split at taken
    · next result ended =>
      rw [← Option.some.inj taken, coarse_goto]
      exact .inr ⟨⟨true, bindAnswer result⟩, connect_bindAnswer _ rfl pid result⟩
    all_goals
      obtain ⟨later, -, rfl⟩ := Option.map_eq_some_iff.mp taken
      exact .inl rfl
  | returned | kill | killed => cases taken

theorem kill_coarse {failure : Option String} {waited : Except ProcessError Bool}
    (taken : s.kill handle failure waited = some next) : next.coarse = s.coarse := by
  have stays {phase : InspectionPhase} (hung : s.phase.coarse = .hung)
      (after : phase.coarse = .hung) : (s.goto phase).coarse = s.coarse := by
    simp only [coarse, goto, hung, after]
  have settled (hung : s.phase.coarse = .hung) (p : Sys.PlatformProcess Handle)
      (phase : KillPhase) (result : Except ProcessError Bool) :
      (s.settle handle p phase result).coarse = s.coarse := by
    obtain eq | eq := settle_cases handle s p phase result <;> rw [eq] <;> exact stays hung rfl
  cases kill_move taken with
  | begins hung => exact stays (by rw [hung]; rfl) rfl
  | passes killing | sends killing => exact stays (by rw [killing]; rfl) rfl
  | waited killing | failed killing => exact settled (by rw [killing]; rfl) _ _ _

theorem os_coarse (s : Inspection) (a : OsAction) (os : Os) :
    (s.observe a os).coarse = s.coarse := by
  obtain ⟨lock, socket, binding, phase, content, delivered⟩ := s
  cases phase <;> rfl

theorem step_coarse {a : InspectionAction}
    (taken : s.step backend handle expected a = some next) :
    (next.coarse = s.coarse ∧ rewrites a = none) ∨
      ∃ move, s.coarse.inspect move = some next.coarse ∧ move.rewrites = rewrites a := by
  cases a with
  | files lock socket =>
    rw [← Option.some.inj taken]
    exact .inr ⟨.files (coarseDir lock socket), rfl, rfl⟩
  | os a =>
    obtain ⟨os, -, rfl⟩ := Option.map_eq_some_iff.mp taken
    exact .inl ⟨os_coarse s a os, rfl⟩
  | connect ok failure =>
    obtain same | ⟨answer, moved⟩ := connect_coarse taken
    · exact .inl ⟨same, rfl⟩
    · exact .inr ⟨_, moved, rfl⟩
  | kill failure waited => exact .inl ⟨kill_coarse taken, rfl⟩

/-- What a client does system call by system call is, in every run, a run of the coarse
`connect` between the same rewritings of the files. -/
theorem run_refines_recovery (backend : Backend) (handle : KillHandle) (expected : String)
    {actions : List InspectionAction}
    (reached : run (step backend handle expected) s actions = some next) :
    ∃ moves, run Recovery.inspect s.coarse moves = some next.coarse ∧
      moves.filterMap CoarseAction.rewrites = actions.filterMap rewrites := by
  induction actions generalizing s with
  | nil => exact ⟨[], congrArg (some ∘ coarse) (Option.some.inj reached), rfl⟩
  | cons a actions ih =>
    obtain ⟨mid, taken, rest⟩ := run_cons_eq_some.mp reached
    obtain ⟨moves, later, rewritten⟩ := ih rest
    obtain ⟨same, kept⟩ | ⟨move, moved, kept⟩ := step_coarse taken
    · exact ⟨moves, same ▸ later, by rw [List.filterMap_cons_none kept, rewritten]⟩
    · refine ⟨move :: moves, run_cons_eq_some.mpr ⟨_, moved, later⟩, ?_⟩
      rw [List.filterMap_cons, List.filterMap_cons, kept, rewritten]

theorem run_refines_recovery_findsHung :
    ∃ moves last, run Recovery.inspect (Recovery.start .unix none false) moves = some last ∧
      last.phase () = .hung ∧ moves.filterMap CoarseAction.rewrites =
        [coarseDir (some (some "7\n")) true, coarseDir (some (some "8")) true] := by
  have reached :
      run (step .linux ⟨"run", "knotd", ⟨10, 10⟩⟩ "knotd") start findsHung = some _ := rfl
  obtain ⟨moves, coarse, rewritten⟩ := run_refines_recovery _ _ _ reached
  exact ⟨moves, _, coarse, rfl, rewritten⟩

end Inspection

end KnotOps.Facade
