import KnotOps.Facade.LivingDaemon

/-! Clients that do not wait for each other.
Whatever the other clients, the operating system and those who rewrite the files do in
between, a client is done after a bounded number of steps of its own, and a `clean` that
succeeds leaves an offline directory. -/

namespace KnotOps.Facade

open Machine
open KnotOps.Sys (Os OsAction ProcessError Handle Backend Call Op)

def callLeft (call : Call) : Nat :=
  match call.ops with
  | [] => 1
  | _ :: rest => 2 * rest.length + if call.checked then 2 else 3

theorem callLeft_finish (call : Call) (rest : List Op) :
    callLeft (call.finish rest) = 2 * rest.length + 1 := by
  cases rest with
  | nil => rfl
  | cons op rest =>
    simp only [callLeft, Call.finish, List.length_cons, Bool.false_eq_true, if_false]
    omega

def KillPhase.after : KillPhase → Nat
  | graceful => 5
  | forceful => 0

namespace Inspection

variable {backend : Backend} {handle : KillHandle} {expected : String} {s next : Inspection}

def left (s : Inspection) : Nat :=
  match s.phase with
  | .connect | .checkSocket | .dial | .readLock | .bind _ => s.remaining + 11
  | .returned (.ok (.hung _)) => 11
  | .kill _ phase call => callLeft call + phase.after
  | .returned _ | .killed _ => 0

theorem left_of_remaining (remains : 0 < s.remaining) : s.left = s.remaining + 11 := by
  obtain ⟨lock, socket, binding, phase, content, delivered⟩ := s
  cases phase with
  | connect | checkSocket | dial | readLock | bind => rfl
  | returned | kill | killed => simp [remaining] at remains

theorem left_le_of_connecting (connects : s.connecting = true) : s.left ≤ s.remaining + 11 := by
  obtain ⟨lock, socket, binding, phase, content, delivered⟩ := s
  cases phase with
  | connect | checkSocket | dial | readLock | bind => exact Nat.le_refl _
  | returned result =>
    unfold left
    split <;> simp_all [remaining]
  | kill | killed => cases connects

theorem left_connect {ok : Bool} {failure : Option String}
    (taken : s.connect backend expected ok failure = some next) : next.left < s.left := by
  have lower : next.remaining < s.remaining := connect_lowers taken
  have now : s.left = s.remaining + 11 := left_of_remaining (by omega)
  have later : next.left ≤ next.remaining + 11 :=
    left_le_of_connecting (connecting_of_connect taken)
  omega

theorem left_beginPhase (s : Inspection) (p : Sys.PlatformProcess Handle) (phase : KillPhase) :
    (s.beginPhase p phase).left = 5 + phase.after := by
  cases phase <;> rfl

theorem left_settle (handle : KillHandle) (s : Inspection) (p : Sys.PlatformProcess Handle)
    (phase : KillPhase) (result : Except ProcessError Bool) :
    (s.settle handle p phase result).left ≤ phase.after := by
  cases phase with
  | graceful =>
    obtain eq | eq := settle_cases handle s p .graceful result <;> rw [eq]
    · exact Nat.le_refl _
    · exact Nat.zero_le _
  | forceful => exact Nat.le_refl _

theorem left_kill {failure : Option String} {waited : Except ProcessError Bool}
    (taken : s.kill handle failure waited = some next) : next.left < s.left := by
  cases kill_move taken with
  | begins hung phase =>
    have now : s.left = 11 := by simp [left, hung]
    have most : phase.after ≤ 5 := by cases phase <;> decide
    rw [left_beginPhase]
    omega
  | @passes p phase call killing op rest ops passed =>
    obtain ⟨-, unchecked, -⟩ := Sys.syscall_checked passed
    simp [left, goto, killing, callLeft, Call.pass, ops, unchecked]
  | @sends p phase call killing op rest ops receiver sent =>
    have later := callLeft_finish call rest
    have now : 2 * rest.length + 2 ≤ callLeft call := by
      simp only [callLeft, ops]
      split_ifs <;> omega
    simp only [left, goto, deliver, killing]
    omega
  | @waited p phase call killing done =>
    have later := left_settle handle s p phase waited
    simp only [left, killing, callLeft, done] at later ⊢
    omega
  | @failed p phase call killing op rest ops error failed =>
    have later := left_settle handle s p phase (.error error)
    simp only [left, killing, callLeft, ops] at later ⊢
    split_ifs <;> omega

theorem kill_goes_on {p : Sys.PlatformProcess Handle} {phase : KillPhase} {call : Call}
    (killing : s.phase = .kill p phase call) (failure : Option String)
    (waited : Except ProcessError Bool) : (s.kill handle failure waited).isSome := by
  simp only [Inspection.kill, killing]
  split
  · rfl
  · split <;> rfl

theorem left_observe (s : Inspection) (a : OsAction) (os : Os) : (s.observe a os).left = s.left := by
  obtain ⟨lock, socket, binding, phase, content, delivered⟩ := s
  cases phase <;> rfl

def Ended (s : Inspection) : Prop :=
  match s.phase with
  | .returned (.ok .offline) | .returned (.ok .connected) | .returned (.error _)
  | .killed (.error _) => True
  | _ => False

theorem ended_or_next (handle : KillHandle) (s : Inspection) :
    s.Ended ∨ 0 < s.remaining ∨ s.holdsStale = true ∨
      ∀ failure waited, (s.kill handle failure waited).isSome := by
  obtain ⟨lock, socket, binding, phase, content, delivered⟩ := s
  cases phase with
  | connect | checkSocket | dial | readLock | bind => exact .inr (.inl (Nat.succ_pos _))
  | returned result =>
    cases result with
    | error kind => exact .inl trivial
    | ok state =>
      cases state with
      | offline | connected => exact .inl trivial
      | stale => exact .inr (.inr (.inl rfl))
      | hung process => exact .inr (.inr (.inr fun _ _ => rfl))
  | kill => exact .inr (.inr (.inr (kill_goes_on rfl)))
  | killed result =>
    cases result with
    | error kind => exact .inl trivial
    | ok stale => exact .inr (.inr (.inl rfl))

end Inspection

def CleanPhase.left : Option CleanPhase → Nat
  | none => 3
  | some removeSocket => 2
  | some removeLock => 1
  | some (returned _) => 0

def ClientAction.isOf {ι : Type} [DecidableEq ι] (i : ι) : ClientAction ι → Bool
  | .connect j _ _ | .kill j _ _ | .clean j _ => decide (j = i)
  | .os _ | .files _ _ => false

def ClientAction.rewrites {ι : Type} : ClientAction ι → Bool
  | .files _ _ => true
  | .os _ | .connect _ _ _ | .kill _ _ _ | .clean _ _ => false

namespace Clients

variable {ι : Type} [DecidableEq ι] {backend : Backend} {handle : ι → KillHandle}
  {expected : String} {s next : Clients ι}

/-- How many steps of the client are left at most. -/
def left (s : Clients ι) (i : ι) : Nat := (s.client i).left + CleanPhase.left (s.cleaning i)

theorem left_setClient {i j : ι} {c : Inspection} (lower : c.left < (s.client j).left) :
    (s.setClient j c).left i + (if j = i then 1 else 0) ≤ s.left i := by
  by_cases here : j = i
  · subst here
    simp only [left, setClient, Function.update_self, if_true]
    omega
  · simp [left, setClient, here, Ne.symm here]

theorem clean_cleaning {i : ι} {ok : Bool} (taken : s.clean i ok = some next) :
    ∃ phase, next.cleaning = Function.update s.cleaning i (some phase) ∧
      CleanPhase.left (some phase) < CleanPhase.left (s.cleaning i) := by
  unfold clean at taken
  split at taken
  · next fresh =>
    split_ifs at taken <;> rw [← Option.some.inj taken] <;>
      exact ⟨_, rfl, by rw [fresh]; decide⟩
  · next removing =>
    split_ifs at taken <;> rw [← Option.some.inj taken] <;>
      exact ⟨_, rfl, by rw [removing]; simp [CleanPhase.left]⟩
  · next removing =>
    split_ifs at taken <;> rw [← Option.some.inj taken] <;>
      exact ⟨_, rfl, by rw [removing]; simp [CleanPhase.left]⟩
  · cases taken

theorem left_step (i : ι) {a : ClientAction ι}
    (taken : s.step backend handle expected a = some next) :
    next.left i + (if a.isOf i then 1 else 0) ≤ s.left i := by
  cases a with
  | os a =>
    obtain ⟨os, -, rfl⟩ := Option.map_eq_some_iff.mp taken
    have same := (s.inspection i).left_observe a os
    exact Nat.le_of_eq (congrArg (· + CleanPhase.left (s.cleaning i)) same)
  | files lock socket =>
    rw [← Option.some.inj taken]
    exact Nat.le_refl _
  | connect j ok failure =>
    obtain ⟨later, made, rfl⟩ := Option.map_eq_some_iff.mp taken
    have lower : later.left < (s.inspection j).left := Inspection.left_connect made
    simpa [ClientAction.isOf] using left_setClient lower
  | kill j failure waited =>
    obtain ⟨later, made, rfl⟩ := Option.map_eq_some_iff.mp taken
    have lower : later.left < (s.inspection j).left := Inspection.left_kill made
    simpa [ClientAction.isOf] using left_setClient lower
  | clean j ok =>
    obtain ⟨-, client, -⟩ := clean_frame taken
    obtain ⟨phase, cleaning, lower⟩ := clean_cleaning taken
    by_cases here : j = i
    · subst here
      simp only [left, client, cleaning, Function.update_self, ClientAction.isOf, decide_true,
        if_true]
      omega
    · simp [left, client, cleaning, ClientAction.isOf, here, Ne.symm here]

def Finished (s : Clients ι) (i : ι) : Prop :=
  match s.cleaning i with
  | none => (s.client i).Ended
  | some (.returned _) => True
  | some .removeSocket | some .removeLock => False

/-- The next step of the client is possible, however it ends. -/
def GoesOn (backend : Backend) (handle : ι → KillHandle) (expected : String) (s : Clients ι)
    (i : ι) : Prop :=
  (∀ ok failure, (s.step backend handle expected (.connect i ok failure)).isSome) ∨
  (∀ failure waited, (s.step backend handle expected (.kill i failure waited)).isSome) ∨
  ∀ ok, (s.step backend handle expected (.clean i ok)).isSome

theorem clean_goes_on {i : ι} {phase : CleanPhase} (cleaning : s.cleaning i = some phase)
    (going : 0 < CleanPhase.left (some phase)) (ok : Bool) : (s.clean i ok).isSome := by
  cases phase with
  | removeSocket | removeLock =>
    simp only [clean, cleaning]
    split_ifs <;> rfl
  | returned => cases going

theorem finished_or_goesOn (backend : Backend) (handle : ι → KillHandle) (expected : String)
    (s : Clients ι) (i : ι) : s.Finished i ∨ s.GoesOn backend handle expected i := by
  cases cleaning : s.cleaning i with
  | some phase =>
    cases phase with
    | removeSocket | removeLock => exact .inr (.inr (.inr (clean_goes_on cleaning (by decide))))
    | returned ok => exact .inl (by simp [Finished, cleaning])
  | none =>
    obtain ended | connects | stale | kills := (s.inspection i).ended_or_next (handle i)
    · rw [Finished, cleaning]
      exact .inl ended
    · refine .inr (.inl fun ok failure => ?_)
      rw [step, Option.isSome_map]
      exact (s.inspection i).connect_goes_on ok failure connects
    · exact .inr (.inr (.inr fun ok => by simp [step, clean, cleaning, stale]))
    · refine .inr (.inr (.inl fun failure waited => ?_))
      rw [step, Option.isSome_map]
      exact kills failure waited

/-- However the steps of the clients fall between each other and between those of the
processes and of the files, a client is done after 22 steps of its own at most, and until
then its next step is possible. -/
theorem clients_wait_free (backend : Backend) (handle : ι → KillHandle) (expected : String)
    {os : Os} {lock : Option (Option String)} {socket : Bool} {actions : List (ClientAction ι)}
    {s : Clients ι}
    (reached : run (step backend handle expected) (start os lock socket) actions = some s)
    (i : ι) :
    actions.countP (·.isOf i) ≤ 22 ∧ (s.Finished i ∨ s.GoesOn backend handle expected i) := by
  have most : s.left i + actions.countP (·.isOf i) ≤ (start os lock socket : Clients ι).left i :=
    run_countP_le (fun _ _ _ taken => left_step i taken) reached
  have first : (start os lock socket : Clients ι).left i = 22 := rfl
  exact ⟨by omega, finished_or_goesOn backend handle expected s i⟩

def takesAllSteps : List (ClientAction Bool) :=
  [.connect true true none, .connect true false none, .connect false true none,
    .connect true true none, .connect true true none, .connect true true none,
    .connect true true none, .connect true true none, .connect true true none,
    .kill true none (.ok true), .kill true none (.ok true), .kill true none (.ok true),
    .kill true none (.ok true), .kill true none (.ok true), .kill true none (.ok false),
    .kill true none (.ok true), .kill true none (.ok true), .kill true none (.ok true),
    .connect false false none, .kill true none (.ok true), .os (.exit 7),
    .kill true none (.ok true), .os (.reap 7), .clean true true, .os (.spawn 7 "other" 200),
    .clean true true, .connect false true none, .clean true true]

theorem clients_wait_free_takesAllSteps :
    ∃ s, run (step .macos (fun _ : Bool => ⟨"run", "knotd", ⟨10, 10⟩⟩) "knotd")
        (start hungDaemon (some (some "7")) true) takesAllSteps = some s ∧
      takesAllSteps.countP (·.isOf true) = 22 ∧ s.Finished true ∧
      (s.Finished false ∨
        s.GoesOn .macos (fun _ : Bool => ⟨"run", "knotd", ⟨10, 10⟩⟩) "knotd" false) := by
  have reached : run (step .macos (fun _ : Bool => ⟨"run", "knotd", ⟨10, 10⟩⟩) "knotd")
      (start hungDaemon (some (some "7")) true) takesAllSteps = some _ := rfl
  exact ⟨_, reached, rfl, trivial, (clients_wait_free _ _ _ reached false).2⟩

def Removed (s : Clients ι) (i : ι) : Prop :=
  match s.cleaning i with
  | some .removeLock => s.socket = false
  | some (.returned true) => s.lock = none ∧ s.socket = false
  | none | some .removeSocket | some (.returned false) => True

theorem Removed.own {i : ι} {ok : Bool} (removed : s.Removed i)
    (taken : s.clean i ok = some next) : next.Removed i := by
  unfold clean at taken
  split at taken
  · split_ifs at taken <;> rw [← Option.some.inj taken]
    · simp [Removed, setCleaning]
    · next absent => simpa [Removed, setCleaning] using absent
  · split_ifs at taken <;> rw [← Option.some.inj taken] <;> simp [Removed, setCleaning]
  · next cleaning =>
    rw [Removed, cleaning] at removed
    split_ifs at taken <;> rw [← Option.some.inj taken]
    · simpa [Removed, setCleaning] using removed
    · next absent => simpa [Removed, setCleaning] using ⟨by simpa using absent, removed⟩
    · simp [Removed, setCleaning]
  · cases taken

theorem clean_files {i : ι} {ok : Bool} (taken : s.clean i ok = some next) :
    (s.lock = none → next.lock = none) ∧ (s.socket = false → next.socket = false) := by
  unfold clean at taken
  split at taken
  · split_ifs at taken <;> rw [← Option.some.inj taken] <;> exact ⟨id, id⟩
  · split_ifs at taken <;> rw [← Option.some.inj taken]
    · exact ⟨id, fun _ => rfl⟩
    · exact ⟨id, id⟩
  · split_ifs at taken <;> rw [← Option.some.inj taken]
    · exact ⟨fun _ => rfl, id⟩
    · exact ⟨id, id⟩
    · exact ⟨id, id⟩
  · cases taken

omit [DecidableEq ι] in
theorem Removed.frame {i : ι} (removed : s.Removed i) {next : Clients ι}
    (cleaning : next.cleaning i = s.cleaning i) (lock : s.lock = none → next.lock = none)
    (socket : s.socket = false → next.socket = false) : next.Removed i := by
  rw [Removed] at removed ⊢
  rw [cleaning]
  cases here : s.cleaning i with
  | none => trivial
  | some phase =>
    cases phase with
    | removeSocket => trivial
    | removeLock =>
      rw [here] at removed
      exact socket removed
    | returned ok =>
      rw [here] at removed
      cases ok with
      | true => exact ⟨lock removed.1, socket removed.2⟩
      | false => trivial

theorem Removed.step {i : ι} {a : ClientAction ι} (removed : s.Removed i)
    (kept : a.rewrites = false) (taken : s.step backend handle expected a = some next) :
    next.Removed i := by
  cases a with
  | os a =>
    obtain ⟨os, -, rfl⟩ := Option.map_eq_some_iff.mp taken
    exact removed
  | files lock socket => cases kept
  | connect j ok failure =>
    obtain ⟨later, -, rfl⟩ := Option.map_eq_some_iff.mp taken
    exact removed
  | kill j failure waited =>
    obtain ⟨later, -, rfl⟩ := Option.map_eq_some_iff.mp taken
    exact removed
  | clean j ok =>
    by_cases own : j = i
    · subst own
      exact removed.own taken
    · obtain ⟨phase, cleaning, -⟩ := clean_cleaning taken
      obtain ⟨lock, socket⟩ := clean_files taken
      exact removed.frame (by rw [cleaning, Function.update_of_ne (Ne.symm own)]) lock socket

theorem connect_offline {j : ι} (fresh : (s.client j).phase = .connect) (lock : s.lock = none)
    (socket : s.socket = false) (ok ok' : Bool) (failure failure' : Option String) :
    ∃ t, run (step backend handle expected) s
        [.connect j ok failure, .connect j ok' failure'] = some t ∧
      (t.client j).phase = .returned (.ok .offline) := by
  have absent : (s.inspection j).connect backend expected ok failure =
      some ((s.inspection j).goto .checkSocket) := by
    simp [Inspection.connect, inspection, fresh, lock]
  have first : s.step backend handle expected (.connect j ok failure) =
      some (s.setClient j ((s.inspection j).goto .checkSocket)) := by
    rw [step, absent, Option.map_some]
  generalize checking : s.setClient j ((s.inspection j).goto .checkSocket) = mid at first
  have nothing : (mid.inspection j).connect backend expected ok' failure' =
      some ((mid.inspection j).goto (.returned (.ok .offline))) := by
    simp [← checking, Inspection.connect, inspection, setClient, Inspection.goto, socket]
  have second : mid.step backend handle expected (.connect j ok' failure') =
      some (mid.setClient j ((mid.inspection j).goto (.returned (.ok .offline)))) := by
    rw [step, nothing, Option.map_some]
  refine ⟨_, run_cons_eq_some.mpr ⟨mid, first, run_cons_eq_some.mpr ⟨_, second, rfl⟩⟩, ?_⟩
  simp [setClient, Inspection.goto]

/-- A `clean` that succeeds leaves an offline directory, however many clients connect, kill
and clean at the same time, as long as nobody writes the files. -/
theorem clean_leaves_offline (backend : Backend) (handle : ι → KillHandle) (expected : String)
    {s t : Clients ι} {i : ι} (fresh : s.cleaning i = none) {actions : List (ClientAction ι)}
    (kept : ∀ a ∈ actions, a.rewrites = false)
    (reached : run (step backend handle expected) s actions = some t)
    (cleaned : t.cleaning i = some (.returned true)) :
    t.lock = none ∧ t.socket = false ∧
    ∀ j, (t.client j).phase = .connect → ∀ ok failure ok' failure',
      ∃ u, run (step backend handle expected) t
          [.connect j ok failure, .connect j ok' failure'] = some u ∧
        (u.client j).phase = .returned (.ok .offline) := by
  have start : s.Removed i := by simp [Removed, fresh]
  have allowed : Guarded (fun _ a => a.rewrites = false) (step backend handle expected) s actions :=
    guarded_of_forall (fun a member _ => kept a member) s
  have removed := run_guarded (Removed · i)
    (fun _ _ _ removed kept taken => removed.step kept taken) start allowed reached
  rw [Removed, cleaned] at removed
  obtain ⟨lock, socket⟩ := removed
  exact ⟨lock, socket, fun j new ok failure ok' failure' =>
    connect_offline new lock socket ok ok' failure failure'⟩

def cleansTogether : List (ClientAction (Fin 3)) :=
  [.connect 0 true none, .connect 1 true none, .connect 0 false none, .connect 1 false none,
    .connect 0 true none, .connect 1 true none, .clean 0 true, .clean 1 true, .clean 0 true,
    .clean 1 true, .clean 0 true]

theorem clean_leaves_offline_cleansTogether :
    ∃ t u, run (step .linux (fun _ : Fin 3 => ⟨"run", "knotd", ⟨10, 10⟩⟩) "knotd")
        (start .empty (some (some "knotd")) true) cleansTogether = some t ∧
      t.cleaning 1 = some (.returned false) ∧
      run (step .linux (fun _ : Fin 3 => ⟨"run", "knotd", ⟨10, 10⟩⟩) "knotd") t
        [.connect 2 true none, .connect 2 true none] = some u ∧
      (u.client 2).phase = .returned (.ok .offline) := by
  have kept : ∀ a ∈ cleansTogether, a.rewrites = false := by
    simp [cleansTogether, ClientAction.rewrites]
  have reached : run (step .linux (fun _ : Fin 3 => ⟨"run", "knotd", ⟨10, 10⟩⟩) "knotd")
      (start .empty (some (some "knotd")) true) cleansTogether = some _ := rfl
  obtain ⟨-, -, offline⟩ := clean_leaves_offline _ _ _ (i := 0) rfl kept reached rfl
  obtain ⟨u, connected, found⟩ := offline 2 rfl true none true none
  exact ⟨_, u, reached, rfl, connected, found⟩

end Clients

end KnotOps.Facade
