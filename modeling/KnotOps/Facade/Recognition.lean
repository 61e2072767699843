import KnotOps.Facade.Inspection

/-! What `ClientBuilder::connect` makes of a daemon that is there.
`connect` is bounded, and it does not wait: each of its steps is possible as soon as the
one before is done.  A daemon that runs under its name, with its PID in the lock file, is
never mistaken for one that has gone. -/

namespace KnotOps.Facade

open Machine
open KnotOps.Sys (Os OsAction ProcessMetadata ProcessError Handle Backend Binding BindPhase
  processNamesMatch extract)

namespace Inspection

variable {backend : Backend} {handle : KillHandle} {expected : String} {s next : Inspection}

def connects : InspectionAction → Bool
  | .connect _ _ => true
  | .files _ _ | .os _ | .kill _ _ => false

def remaining (s : Inspection) : Nat :=
  match s.phase with
  | .connect => 8
  | .dial => 7
  | .readLock => 6
  | .bind _ => s.binding.phase.remaining + 1
  | .checkSocket => 1
  | .returned _ | .kill _ _ _ | .killed _ => 0

theorem remaining_le (phase : BindPhase Handle) : phase.remaining ≤ 4 := by
  cases phase <;> simp [BindPhase.remaining]

theorem connect_lowers {ok : Bool} {failure : Option String}
    (taken : s.connect backend expected ok failure = some next) :
    next.remaining < s.remaining := by
  obtain ⟨lock, socket, binding, phase, content, delivered⟩ := s
  cases phase with
  | connect =>
    rw [← Option.some.inj taken]
    cases lock <;> simp [goto, remaining]
  | checkSocket =>
    rw [← Option.some.inj taken]
    simp [goto, remaining]
  | dial =>
    rw [← Option.some.inj taken]
    cases ok <;> simp [goto, remaining]
  | readLock =>
    have few := remaining_le binding.phase
    simp only [Inspection.connect] at taken
    split at taken <;> rw [← Option.some.inj taken]
    · simp only [goto, remaining]
      omega
    · simp [goto, remaining]
  | bind pid =>
    simp only [Inspection.connect] at taken
    split at taken
    · rw [← Option.some.inj taken]
      simp [goto, remaining]
    all_goals
      next phase =>
      have goes_on : binding.Proceeds backend.platform pid expected :=
        binding.proceeds (by simp [phase, BindPhase.remaining])
      obtain ⟨later, advanced, lower⟩ := goes_on failure
      obtain ⟨binding', moved, rfl⟩ := Option.map_eq_some_iff.mp taken
      obtain rfl := Option.some.inj (advanced.symm.trans moved)
      exact Nat.succ_lt_succ lower
  | returned | kill | killed => cases taken

def connecting (s : Inspection) : Bool :=
  match s.phase with
  | .kill _ _ _ | .killed _ => false
  | _ => true

theorem connecting_of_connect {ok : Bool} {failure : Option String}
    (taken : s.connect backend expected ok failure = some next) : next.connecting = true := by
  obtain ⟨lock, socket, binding, phase, content, delivered⟩ := s
  cases phase with
  | connect =>
    rw [← Option.some.inj taken]
    cases lock <;> rfl
  | checkSocket =>
    rw [← Option.some.inj taken]
    rfl
  | dial =>
    rw [← Option.some.inj taken]
    cases ok <;> rfl
  | readLock =>
    simp only [Inspection.connect] at taken
    split at taken <;> rw [← Option.some.inj taken] <;> rfl
  | bind pid =>
    simp only [Inspection.connect] at taken
    split at taken
    · rw [← Option.some.inj taken]
      rfl
    all_goals
      obtain ⟨later, -, rfl⟩ := Option.map_eq_some_iff.mp taken
      rfl
  | returned | kill | killed => cases taken

theorem connect_goes_on (s : Inspection) (ok : Bool) (failure : Option String)
    (left : 0 < s.remaining) : (s.connect backend expected ok failure).isSome := by
  obtain ⟨lock, socket, binding, phase, content, delivered⟩ := s
  cases phase with
  | connect | checkSocket | dial => rfl
  | readLock =>
    simp only [Inspection.connect]
    split <;> rfl
  | bind pid =>
    simp only [Inspection.connect]
    split
    · rfl
    all_goals
      next phase =>
      have goes_on : binding.Proceeds backend.platform pid expected :=
        binding.proceeds (by simp [phase, BindPhase.remaining])
      obtain ⟨later, advanced, -⟩ := goes_on failure
      rw [Option.isSome_map]
      exact Option.isSome_iff_exists.mpr ⟨later, advanced⟩
  | returned | kill | killed => simp [remaining] at left

theorem kill_remaining {failure : Option String} {waited : Except ProcessError Bool}
    (taken : s.kill handle failure waited = some next) : next.remaining = 0 ∧ s.remaining = 0 := by
  have settled (p : Sys.PlatformProcess Handle) (phase : KillPhase)
      (result : Except ProcessError Bool) : (s.settle handle p phase result).remaining = 0 := by
    obtain eq | eq := settle_cases handle s p phase result <;> rw [eq] <;> rfl
  cases kill_move taken with
  | begins hung => exact ⟨rfl, by simp [remaining, hung]⟩
  | passes killing | sends killing => exact ⟨rfl, by simp [remaining, killing]⟩
  | waited killing | failed killing => exact ⟨settled _ _ _, by simp [remaining, killing]⟩

theorem step_remaining {a : InspectionAction}
    (taken : s.step backend handle expected a = some next) :
    next.remaining + (if connects a then 1 else 0) ≤ s.remaining := by
  cases a with
  | files lock socket =>
    rw [← Option.some.inj taken]
    exact Nat.le_refl _
  | os a =>
    obtain ⟨os, -, rfl⟩ := Option.map_eq_some_iff.mp taken
    obtain ⟨lock, socket, binding, phase, content, delivered⟩ := s
    cases phase <;> exact Nat.le_refl _
  | connect ok failure => exact connect_lowers taken
  | kill failure waited =>
    obtain ⟨after, before⟩ := kill_remaining taken
    simp [after, before, connects]

/-- Whenever `connect` makes a step the daemon runs under its name, the lock file holds its
PID, and nothing that is read fails. -/
def DaemonLives (m : ProcessMetadata) (s : Inspection) : InspectionAction → Prop
  | .connect _ failure =>
    extract s.binding.os m.pid = some m ∧ readAsU32 s.lock.join = some m.pid ∧ failure = none
  | .files _ _ | .os _ | .kill _ _ => True

instance (m : ProcessMetadata) (s : Inspection) : DecidablePred (s.DaemonLives m)
  | .connect _ _ => inferInstanceAs (Decidable (_ ∧ _ ∧ _))
  | .files _ _ | .os _ | .kill _ _ => inferInstanceAs (Decidable True)

def Sees (m : ProcessMetadata) : BindPhase Handle → Prop
  | .extract => True
  | .compare metadata | .bind metadata | .extractAfter metadata _ => metadata = m
  | .returned result => ∃ h, result = .ok ⟨h, m⟩

theorem sees_advance {m : ProcessMetadata} {b later : Binding Handle}
    (named : processNamesMatch m.name expected = true) (lives : extract b.os m.pid = some m)
    (sees : Sees m b.phase)
    (taken : b.advance backend.platform m.pid expected none = some later) :
    Sees m later.phase := by
  obtain ⟨os, phase, holders⟩ := b
  have read : Sys.spawnExtractMetadata os m.pid none = .ok m := by
    simp only [Sys.spawnExtractMetadata, lives]
  cases phase with
  | extract =>
    simp only [Binding.advance, read] at taken
    rw [← Option.some.inj taken]
    rfl
  | compare metadata =>
    obtain rfl : metadata = m := sees
    have same : backend.platform.processNamesMatch metadata.name expected = true := named
    simp only [Binding.advance, same, if_true] at taken
    rw [← Option.some.inj taken]
    rfl
  | bind metadata =>
    obtain rfl : metadata = m := sees
    simp only [Binding.advance] at taken
    split at taken
    · rw [← Option.some.inj taken]
      rfl
    · next error failed =>
      obtain ⟨-, held⟩ := Sys.Os.extract_eq_some lives
      cases backend with
      | linux => simp [Backend.platform, Handle.bind, held] at failed
      | macos => cases failed
  | extractAfter metadata handle =>
    obtain rfl : metadata = m := sees
    simp only [Binding.advance, read, if_true] at taken
    rw [← Option.some.inj taken]
    exact ⟨handle, rfl⟩
  | returned => cases taken

def Recognises (m : ProcessMetadata) (s : Inspection) : Prop :=
  match s.phase with
  | .connect | .dial | .readLock => s.binding.phase = .extract
  | .checkSocket => False
  | .bind pid => pid = m.pid ∧ Sees m s.binding.phase
  | .returned result => result = .ok .connected ∨ ∃ h, result = .ok (.hung ⟨h, m⟩)
  | .kill _ _ _ | .killed _ => True

theorem recognises_connect {m : ProcessMetadata} {ok : Bool} {failure : Option String}
    (named : processNamesMatch m.name expected = true) (known : s.Recognises m)
    (lives : s.DaemonLives m (.connect ok failure))
    (taken : s.connect backend expected ok failure = some next) : next.Recognises m := by
  obtain ⟨running, locked, rfl⟩ := lives
  obtain ⟨lock, socket, binding, phase, content, delivered⟩ := s
  cases phase with
  | connect =>
    rw [← Option.some.inj taken]
    cases lock with
    | none => cases locked
    | some text => exact known
  | checkSocket => cases known
  | dial =>
    rw [← Option.some.inj taken]
    cases ok
    · exact known
    · exact .inl rfl
  | readLock =>
    have found : readAsU32 lock.join = some m.pid := locked
    simp only [Inspection.connect, Option.isSome_none, Bool.false_eq_true, if_false, found] at taken
    rw [← Option.some.inj taken]
    have first : binding.phase = .extract := known
    refine ⟨rfl, ?_⟩
    rw [goto, first]
    trivial
  | bind pid =>
    obtain ⟨rfl, sees⟩ := known
    simp only [Inspection.connect] at taken
    split at taken
    · next result phase =>
      rw [phase] at sees
      obtain ⟨h, rfl⟩ := sees
      rw [← Option.some.inj taken]
      exact .inr ⟨h, rfl⟩
    all_goals
      obtain ⟨later, advanced, rfl⟩ := Option.map_eq_some_iff.mp taken
      exact ⟨rfl, sees_advance named running sees advanced⟩
  | returned | kill | killed => cases taken

theorem recognises_os {m : ProcessMetadata} (known : s.Recognises m) (a : OsAction) (os : Os) :
    (s.observe a os).Recognises m := by
  obtain ⟨lock, socket, binding, phase, content, delivered⟩ := s
  cases phase <;> exact known

theorem recognises_kill {m : ProcessMetadata} {failure : Option String}
    {waited : Except ProcessError Bool} (taken : s.kill handle failure waited = some next) :
    next.Recognises m := by
  have settled (p : Sys.PlatformProcess Handle) (phase : KillPhase)
      (result : Except ProcessError Bool) : (s.settle handle p phase result).Recognises m := by
    obtain eq | eq := settle_cases handle s p phase result <;> rw [eq] <;> trivial
  cases kill_move taken with
  | begins | passes | sends => trivial
  | waited | failed => exact settled _ _ _

theorem recognises_step {m : ProcessMetadata} {a : InspectionAction}
    (named : processNamesMatch m.name expected = true) (known : s.Recognises m)
    (lives : s.DaemonLives m a) (taken : s.step backend handle expected a = some next) :
    next.Recognises m := by
  cases a with
  | files lock socket => exact Option.some.inj taken ▸ known
  | os a =>
    obtain ⟨os, -, rfl⟩ := Option.map_eq_some_iff.mp taken
    exact recognises_os known a os
  | connect ok failure => exact recognises_connect named known lives taken
  | kill failure waited => exact recognises_kill taken

/-- `connect` returns after eight steps at most and never waits for the world between them;
if the daemon lives whenever it makes a step, it is connected to or found hung, and never
taken for a stale or an offline one. -/
theorem connect_recognises_living_daemon (backend : Backend) (handle : KillHandle)
    {expected : String} {actions : List InspectionAction} {s : Inspection}
    (reached : run (step backend handle expected) start actions = some s) :
    actions.countP connects ≤ 8 ∧
    (0 < s.remaining →
      ∀ ok failure, (s.step backend handle expected (.connect ok failure)).isSome) ∧
    ∀ m : ProcessMetadata, processNamesMatch m.name expected = true →
      Guarded (DaemonLives m) (step backend handle expected) start actions →
      ∀ result, s.phase = .returned result →
        result = .ok .connected ∨ ∃ h, result = .ok (.hung ⟨h, m⟩) := by
  have most : s.remaining + actions.countP connects ≤ start.remaining :=
    run_countP_le (fun _ _ _ taken => step_remaining taken) reached
  have eight : start.remaining = 8 := rfl
  refine ⟨by omega, fun left ok failure => connect_goes_on s ok failure left, ?_⟩
  intro m named lives result returned
  have preserved (s : Inspection) (a : InspectionAction) (t : Inspection) (known : s.Recognises m)
      (lives : s.DaemonLives m a) (taken : s.step backend handle expected a = some t) :
      t.Recognises m := recognises_step named known lives taken
  have first : start.Recognises m := rfl
  have known := run_guarded (Recognises m) preserved first lives reached
  rwa [Recognises, returned] at known

theorem connect_recognises_living_daemon_findsHung :
    ∃ s, run (step .macos ⟨"run", "knotd", ⟨10, 10⟩⟩ "KnotD") start findsHung = some s ∧
      s.phase = .returned (.ok (.hung ⟨.macos ⟨7, "knotd", 100⟩, ⟨7, "knotd", 100⟩⟩)) ∧
      findsHung.countP connects ≤ 8 ∧
      ∀ result, s.phase = .returned result →
        result = .ok .connected ∨ ∃ h, result = .ok (.hung ⟨h, ⟨7, "knotd", 100⟩⟩) := by
  have lives : Guarded (DaemonLives ⟨7, "knotd", 100⟩)
      (step .macos ⟨"run", "knotd", ⟨10, 10⟩⟩ "KnotD") start findsHung := by decide
  have reached :
      run (step .macos ⟨"run", "knotd", ⟨10, 10⟩⟩ "KnotD") start findsHung = some _ := rfl
  obtain ⟨bounded, -, recognised⟩ := connect_recognises_living_daemon _ _ reached
  exact ⟨_, reached, rfl, bounded, recognised ⟨7, "knotd", 100⟩ (by decide) lives⟩

end Inspection

end KnotOps.Facade
