import KnotOps.Facade.Recovery

/-! Cleanups on Unix while no daemon touches the directory.
`StaleHandle::clean` by one client or by several at once, with arbitrary answers
of the disk, cut off at any step; what is left is read by a later `connect`.
The lock goes last, so an interrupted cleanup leaves a directory that is not
taken for an offline one.  The socket is removed after a check, the lock with a
tolerant removal: two cleanups can meet on the socket, and then one of them
fails. -/

namespace KnotOps.Facade

open Machine

namespace Recovery

variable {ι : Type} [DecidableEq ι]

def cleanBy (r : Recovery ι) (a : ι × Answer) : Option (Recovery ι) :=
  r.clean a.1 a.2 (r.phase a.1)

/-- A step of `clean` in which a removal of an existing file succeeds. -/
def removeBy (r : Recovery ι) (i : ι) : Option (Recovery ι) :=
  r.cleanBy (i, ⟨true, .io⟩)

def connectBy (i : ι) (r : Recovery ι) (answer : Answer) : Option (Recovery ι) :=
  r.connect i answer (r.phase i)

def cleaning (dir : RuntimeDir) (seen : ι → Nat) : Recovery ι :=
  ⟨.unix, dir, 0, fun i => .stale (seen i), []⟩

@[simp] theorem goto_here (r : Recovery ι) (i : ι) (phase : Phase) :
    (r.goto i phase).phase i = phase := if_pos rfl

theorem goto_other (r : Recovery ι) {i j : ι} (phase : Phase) (other : j ≠ i) :
    (r.goto i phase).phase j = r.phase j := if_neg other

inductive CleanMove (answer : Answer) (dir : RuntimeDir) : Phase → Phase → RuntimeDir → Prop
  | found {seen : Nat} (present : dir.socket.isSome) :
      CleanMove answer dir (.stale seen) (.removeSocket seen) dir
  | notFound {seen : Nat} (absent : dir.socket = none) :
      CleanMove answer dir (.stale seen) (.removeLock seen) dir
  | socket {seen : Nat} (ok : answer.ok = true) (present : dir.socket.isSome) :
      CleanMove answer dir (.removeSocket seen) (.removeLock seen) { dir with socket := none }
  | socketError {seen : Nat} (error : answer.ok = false ∨ dir.socket = none) :
      CleanMove answer dir (.removeSocket seen) .failed dir
  | lock {seen : Nat} (ok : answer.ok = true) :
      CleanMove answer dir (.removeLock seen) .offline { dir with lock := none }
  | lockError {seen : Nat} (error : answer.ok = false) :
      CleanMove answer dir (.removeLock seen) .failed dir

theorem cleanBy_move {r next : Recovery ι} {i : ι} {answer : Answer} (unix : r.platform = .unix)
    (taken : r.cleanBy (i, answer) = some next) :
    next.platform = .unix ∧ ∃ phase, CleanMove answer r.dir (r.phase i) phase next.dir ∧
      next.phase = (r.goto i phase).phase := by
  simp only [cleanBy] at taken
  cases phase : r.phase i with
  | stale seen =>
    simp only [phase, clean, unix] at taken
    split_ifs at taken with present <;> rw [← Option.some.inj taken]
    · exact ⟨unix, _, .found present, rfl⟩
    · exact ⟨unix, _, .notFound (by simpa using present), rfl⟩
  | removeSocket seen =>
    simp only [phase, clean] at taken
    by_cases ok : answer.ok = true
    · rw [if_pos ok] at taken
      split at taken <;> rename_i file <;> rw [← Option.some.inj taken]
      · exact ⟨unix, _, .socket ok (by simp [file]), rfl⟩
      · exact ⟨unix, _, .socketError (.inr file), rfl⟩
    · rw [if_neg ok] at taken
      rw [← Option.some.inj taken]
      exact ⟨unix, _, .socketError (.inl (by simpa using ok)), rfl⟩
  | removeLock seen =>
    simp only [phase, clean] at taken
    by_cases ok : answer.ok = true
    · rw [if_pos ok] at taken
      split at taken <;> rename_i file <;> rw [← Option.some.inj taken]
      · exact ⟨unix, _, .lock ok, rfl⟩
      · refine ⟨unix, .offline, ?_, rfl⟩
        have same : r.dir = { r.dir with lock := none } := by rw [← file]
        rw [goto, same]
        exact .lock ok
    · rw [if_neg ok] at taken
      rw [← Option.some.inj taken]
      exact ⟨unix, _, .lockError (by simpa using ok), rfl⟩
  | connect | checkSocket | dial | readLock | bind | connected | hung | failed | offline
    | launched => simp [phase, clean] at taken

def PhaseClean (dir : RuntimeDir) : Phase → Prop
  | .stale _ | .removeSocket _ | .failed => True
  | .removeLock _ => dir.socket = none
  | .offline => dir = ⟨none, none⟩
  | _ => False

theorem CleanMove.own {answer : Answer} {dir dir' : RuntimeDir} {phase phase' : Phase}
    (move : CleanMove answer dir phase phase' dir') (h : PhaseClean dir phase) :
    PhaseClean dir' phase' := by
  cases move with
  | found | socketError | lockError => trivial
  | notFound absent => exact absent
  | socket => rfl
  | lock =>
    have gone : dir.socket = none := h
    rw [gone]
    rfl

theorem CleanMove.other {answer : Answer} {dir dir' : RuntimeDir} {phase phase' waiting : Phase}
    (move : CleanMove answer dir phase phase' dir') (h : PhaseClean dir waiting) :
    PhaseClean dir' waiting := by
  cases move with
  | found | notFound | socketError | lockError => exact h
  | socket | lock =>
    cases waiting with
    | stale | removeSocket | failed => trivial
    | removeLock => first | rfl | exact h
    | offline =>
      have empty : dir = ⟨none, none⟩ := h
      rw [empty]
      rfl
    | connect | checkSocket | dial | readLock | bind | connected | hung | launched => cases h

theorem CleanMove.lock_last {answer : Answer} {dir dir' : RuntimeDir} {phase phase' : Phase}
    (move : CleanMove answer dir phase phase' dir') (h : PhaseClean dir phase)
    (present : dir.lock.isSome) (gone : dir'.lock = none) : dir.socket = none := by
  cases move with
  | lock => exact h
  | found | notFound | socket | socketError | lockError =>
    have absent : dir.lock = none := gone
    simp [absent] at present

structure Cleaning (r : Recovery ι) : Prop where
  unix : r.platform = .unix
  phases : ∀ i, PhaseClean r.dir (r.phase i)

omit [DecidableEq ι] in
theorem cleaning_cleaning (dir : RuntimeDir) (seen : ι → Nat) :
    (cleaning dir seen).Cleaning :=
  ⟨rfl, fun _ => trivial⟩

theorem Cleaning.step {r next : Recovery ι} (h : r.Cleaning) {a : ι × Answer}
    (taken : r.cleanBy a = some next) : next.Cleaning := by
  obtain ⟨unix, phase, move, moved⟩ := cleanBy_move h.unix taken
  refine ⟨unix, fun j => ?_⟩
  rw [moved]
  by_cases here : j = a.1
  · rw [here, goto_here]
    exact move.own (h.phases a.1)
  · rw [goto_other _ _ here]
    exact move.other (h.phases j)

theorem Cleaning.goto {r : Recovery ι} (h : r.Cleaning) (i : ι) {phase : Phase}
    (clean : PhaseClean r.dir phase) : (r.goto i phase).Cleaning := by
  refine ⟨h.unix, fun j => ?_⟩
  by_cases here : j = i
  · rw [here, goto_here]
    exact clean
  · rw [goto_other _ _ here]
    exact h.phases j

def cleanRank : Phase → Nat
  | .stale _ => 3
  | .removeSocket _ => 2
  | .removeLock _ => 1
  | _ => 0

theorem CleanMove.rank {answer : Answer} {dir dir' : RuntimeDir} {phase phase' : Phase}
    (move : CleanMove answer dir phase phase' dir') : cleanRank phase' < cleanRank phase := by
  cases move <;> simp [cleanRank]

theorem CleanMove.failed_iff {answer : Answer} {dir dir' : RuntimeDir} {phase phase' : Phase}
    (ok : answer.ok = true) (move : CleanMove answer dir phase phase' dir') :
    phase' = .failed ↔ (∃ seen, phase = .removeSocket seen) ∧ dir.socket = none := by
  cases move with
  | found | notFound | lock => simp
  | socket _ present => simpa using Option.isSome_iff_ne_none.mp present
  | socketError error => simpa [ok] using error
  | lockError error => simp [ok] at error

theorem CleanMove.removesFound {answer : Answer} {dir dir' : RuntimeDir} {phase phase' : Phase}
    (move : CleanMove answer dir phase phase' dir') {seen : Nat}
    (removing : phase' = .removeSocket seen) : dir'.socket.isSome := by
  cases move with
  | found present => exact present
  | notFound | socket | socketError | lock | lockError => cases removing

theorem Cleaning.stopped {r : Recovery ι} (h : r.Cleaning) {a : ι × Answer}
    (stopped : r.cleanBy a = none) : r.phase a.1 = .offline ∨ r.phase a.1 = .failed := by
  have clean := h.phases a.1
  simp only [cleanBy] at stopped
  cases phase : r.phase a.1 with
  | stale seen =>
    simp only [phase, Recovery.clean, h.unix] at stopped
    split_ifs at stopped
  | removeSocket seen =>
    simp only [phase, Recovery.clean] at stopped
    split at stopped <;> cases stopped
  | removeLock seen =>
    simp only [phase, Recovery.clean] at stopped
    split_ifs at stopped
    split at stopped <;> cases stopped
  | offline => exact .inl rfl
  | failed => exact .inr rfl
  | connect | checkSocket | dial | readLock | bind | connected | hung | launched =>
    rw [phase] at clean
    cases clean

def removeAlone (i : ι) (r : Recovery ι) (_ : Unit) : Option (Recovery ι) :=
  r.removeBy i

theorem Cleaning.removes {r : Recovery ι} (h : r.Cleaning) (i : ι) (seen : Nat) :
    Leads (removeAlone i) (fun s => s.Cleaning ∧ s.phase i = .offline)
      (r.goto i (.stale seen)) := by
  apply leads_of_rank
    (fun s : Recovery ι => s.Cleaning ∧ s.phase i ≠ .failed ∧
      ∀ seen, s.phase i = .removeSocket seen → s.dir.socket.isSome)
    (fun s => cleanRank (s.phase i))
  · rintro s ⟨⟩ t ⟨cleaning, live, present⟩ taken
    obtain ⟨-, phase, move, moved⟩ := cleanBy_move cleaning.unix taken
    have arrived : t.phase i = phase := by rw [moved, goto_here]
    rw [arrived]
    refine ⟨⟨cleaning.step taken, fun failed => ?_, fun _ => move.removesFound⟩, move.rank⟩
    obtain ⟨⟨seen, removing⟩, gone⟩ := (move.failed_iff rfl).mp failed
    simpa [gone] using present seen removing
  · rintro s ⟨cleaning, live, -⟩ stuck
    exact ⟨cleaning, (cleaning.stopped (stuck ())).resolve_right live⟩
  · rw [goto_here]
    exact ⟨h.goto i trivial, nofun, nofun⟩

def PhaseConnect (dir : RuntimeDir) : Phase → Prop
  | .connect => True
  | .checkSocket => dir.lock = none
  | .dial | .readLock | .bind _ | .connected | .hung | .failed | .stale _ => dir ≠ ⟨none, none⟩
  | .offline => dir = ⟨none, none⟩
  | _ => False

def connectRank : Phase → Nat
  | .connect => 4
  | .dial => 3
  | .readLock => 2
  | .checkSocket | .bind _ => 1
  | _ => 0

theorem connectBy_move {r next : Recovery ι} {i : ι} {answer : Answer} (unix : r.platform = .unix)
    (h : PhaseConnect r.dir (r.phase i)) (taken : r.connectBy i answer = some next) :
    ∃ phase, next = r.goto i phase ∧ PhaseConnect r.dir phase ∧
      connectRank phase < connectRank (r.phase i) := by
  simp only [connectBy] at taken
  cases phase : r.phase i with
  | connect =>
    simp only [phase, connect, unix] at taken
    split_ifs at taken with present <;> refine ⟨_, (Option.some.inj taken).symm, ?_, by decide⟩
    · intro empty
      simp [empty] at present
    · exact Option.not_isSome_iff_eq_none.mp present
  | checkSocket =>
    simp only [phase, connect] at taken
    split_ifs at taken with present <;> refine ⟨_, (Option.some.inj taken).symm, ?_, by
      simp [connectRank]⟩
    · intro empty
      simp [empty] at present
    · rw [phase] at h
      have noLock : r.dir.lock = none := h
      have noSocket : r.dir.socket = none := by simpa using present
      change r.dir = ⟨none, none⟩
      rw [← noLock, ← noSocket]
  | dial =>
    rw [phase] at h
    simp only [phase, connect] at taken
    refine ⟨_, (Option.some.inj taken).symm, ?_, ?_⟩ <;> split_ifs
    · exact h
    · exact h
    · decide
    · decide
  | readLock =>
    rw [phase] at h
    simp only [phase, connect] at taken
    split at taken <;> exact ⟨_, (Option.some.inj taken).symm, h, by simp [connectRank]⟩
  | bind pid =>
    rw [phase] at h
    simp only [phase, connect] at taken
    split at taken <;> exact ⟨_, (Option.some.inj taken).symm, h, by simp [connectRank]⟩
  | connected | hung | failed | stale | removeSocket | removeLock | offline | launched =>
    simp [phase, connect] at taken

/-- A call of `connect` returns, and returns an offline handle exactly when the
directory is empty. -/
theorem connect_leads {r : Recovery ι} (unix : r.platform = .unix) (i : ι) :
    Leads (connectBy i) (fun s => s.phase i = .offline ↔ r.dir = ⟨none, none⟩)
      (r.goto i .connect) := by
  apply leads_of_rank
    (fun s : Recovery ι => s.platform = .unix ∧ s.dir = r.dir ∧ PhaseConnect r.dir (s.phase i))
    (fun s => connectRank (s.phase i))
  · rintro s answer t ⟨unix, same, seen⟩ taken
    obtain ⟨phase, rfl, seen', lower⟩ := connectBy_move unix (same ▸ seen) taken
    rw [goto_here]
    exact ⟨⟨unix, same, same ▸ seen'⟩, lower⟩
  · rintro s ⟨unix, same, seen⟩ stuck
    have stopped := stuck ⟨true, .io⟩
    simp only [connectBy] at stopped
    cases phase : s.phase i with
    | connect | checkSocket =>
      simp only [phase, connect, unix] at stopped
      split_ifs at stopped
    | dial | bind => simp [phase, connect] at stopped
    | readLock =>
      simp only [phase, connect] at stopped
      split at stopped <;> cases stopped
    | connected | hung | failed | stale =>
      rw [phase] at seen
      exact iff_of_false (by simp) seen
    | offline =>
      rw [phase] at seen
      exact iff_of_true rfl seen
    | removeSocket | removeLock | launched =>
      rw [phase] at seen
      cases seen
  · exact ⟨unix, rfl, by rw [goto_here]; trivial⟩

theorem Cleaning.connect_offline {r : Recovery ι} (h : r.Cleaning) {i : ι}
    (offline : r.phase i = .offline) (j : ι) :
    Leads (connectBy j) (fun s => s.phase j = .offline) (r.goto j .connect) := by
  have empty : r.dir = ⟨none, none⟩ := by
    have clean := h.phases i
    rwa [offline] at clean
  exact (connect_leads h.unix j).imp fun s exact => exact.mpr empty

end Recovery

/-- `clean` on Unix with any answers, cut off after any step: the lock goes only
once the socket is gone, a later `connect` takes the directory for an offline one
after a complete cleanup and never while a file is left, and a later cleanup
whose removals succeed completes. -/
theorem clean_crash_safe {ι : Type} [DecidableEq ι] (dir : RuntimeDir) (seen : ι → Nat) (i : ι)
    {answers : List Answer} {r : Recovery ι}
    (reached : run (fun r answer => r.cleanBy (i, answer)) (Recovery.cleaning dir seen) answers =
      some r) :
    (∀ answer next, r.cleanBy (i, answer) = some next → r.dir.lock.isSome →
      next.dir.lock = none → r.dir.socket = none) ∧
    (r.phase i = .offline → ∀ j,
      Leads (Recovery.connectBy j) (fun s => s.phase j = .offline) (r.goto j .connect)) ∧
    (r.dir ≠ ⟨none, none⟩ → ∀ j,
      Leads (Recovery.connectBy j) (fun s => s.phase j ≠ .offline) (r.goto j .connect)) ∧
    ∀ j seen, Leads (Recovery.removeAlone j)
      (fun s => s.phase j = .offline ∧ ∀ k,
        Leads (Recovery.connectBy k) (fun t => t.phase k = .offline) (s.goto k .connect))
      (r.goto j (.stale seen)) := by
  have h : r.Cleaning := run_invariant Recovery.Cleaning (fun _ _ _ h => h.step)
    (Recovery.cleaning_cleaning dir seen) reached
  refine ⟨fun answer next taken present gone => ?_, fun offline => h.connect_offline offline,
    fun left j => ?_, fun j seen => ?_⟩
  · obtain ⟨-, phase, move, -⟩ := Recovery.cleanBy_move h.unix taken
    exact move.lock_last (h.phases i) present gone
  · exact (Recovery.connect_leads h.unix j).imp fun s exact => mt exact.mp left
  · exact (h.removes j seen).imp fun s done => ⟨done.2, done.1.connect_offline done.2⟩

def leftovers : RuntimeDir :=
  ⟨some ⟨none, some 7⟩, some ⟨none⟩⟩

theorem clean_crash_safe_lock_left :
    ∃ r, run (fun r answer => r.cleanBy (0, answer))
        (Recovery.cleaning leftovers fun _ : Fin 2 => 0)
        [⟨true, .io⟩, ⟨true, .io⟩, ⟨false, .io⟩] = some r ∧
      r.phase 0 = .failed ∧ ∀ j,
        Leads (Recovery.connectBy j) (fun s => s.phase j ≠ .offline) (r.goto j .connect) := by
  refine ⟨_, rfl, rfl, ?_⟩
  apply (clean_crash_safe leftovers (fun _ : Fin 2 => 0) 0
    (show run _ _ [⟨true, .io⟩, ⟨true, .io⟩, ⟨false, .io⟩] = _ from rfl)).2.2.1
  decide

namespace Recovery

variable {ι : Type} [DecidableEq ι]

def Returned (r : Recovery ι) (i : ι) : Prop :=
  r.phase i = .offline ∨ r.phase i = .failed

def aboutToRemoveSocket : Phase → Bool
  | .removeSocket _ => true
  | _ => false

/-- A client may remove the socket only while it is there: no other client has
removed it since the check. -/
def SocketInPlace (r : Recovery ι) (i : ι) : Prop :=
  aboutToRemoveSocket (r.phase i) = true → r.dir.socket.isSome = true

instance (r : Recovery ι) : DecidablePred r.SocketInPlace :=
  fun _ => inferInstanceAs (Decidable (_ → _))

theorem removeBy_noFailure_iff {r next : Recovery ι} {i : ι} (h : r.Cleaning)
    (taken : r.removeBy i = some next) :
    (∀ j, next.phase j ≠ .failed) ↔ (∀ j, r.phase j ≠ .failed) ∧ r.SocketInPlace i := by
  obtain ⟨-, phase, move, moved⟩ := cleanBy_move h.unix taken
  have failing : phase = .failed ↔ ¬ r.SocketInPlace i := by
    rw [move.failed_iff rfl, SocketInPlace]
    cases r.phase i <;> simp [aboutToRemoveSocket]
  rw [moved]
  constructor
  · intro live
    have inPlace : r.SocketInPlace i := by
      by_contra gone
      exact live i (by rw [goto_here, failing.mpr gone])
    refine ⟨fun j => ?_, inPlace⟩
    by_cases here : j = i
    · intro failed
      rw [← here, failed] at move
      cases move
    · rw [← goto_other r phase here]
      exact live j
  · rintro ⟨live, inPlace⟩ j
    by_cases here : j = i
    · rw [here, goto_here]
      exact fun failed => failing.mp failed inPlace
    · rw [goto_other _ _ here]
      exact live j

theorem removeBy_count {r s : Recovery ι} (h : r.Cleaning) {clients : List ι}
    (reached : run removeBy r clients = some s) (i : ι) :
    clients.count i + cleanRank (s.phase i) ≤ cleanRank (r.phase i) := by
  induction clients generalizing r with
  | nil =>
    rw [← Option.some.inj reached]
    simp
  | cons j clients ih =>
    obtain ⟨next, taken, rest⟩ := run_cons_eq_some.mp reached
    obtain ⟨-, phase, move, moved⟩ := cleanBy_move h.unix taken
    have after := ih (h.step taken) rest
    rw [moved] at after
    by_cases here : i = j
    · rw [here, goto_here] at after
      have lower := move.rank
      rw [here, List.count_cons_self]
      omega
    · rw [goto_other _ _ here] at after
      rwa [List.count_cons_of_ne (Ne.symm here)]

end Recovery

/-- Cleanups of one directory by any number of clients: each returns after at most
three steps of its own, and those that have returned have all succeeded, with an
empty directory left, exactly when no client tried to remove a socket that another
had removed after its check. -/
theorem cleans_succeed_iff {ι : Type} [DecidableEq ι] (dir : RuntimeDir) (seen : ι → Nat)
    {clients : List ι} {r : Recovery ι}
    (reached : run Recovery.removeBy (Recovery.cleaning dir seen) clients = some r) :
    (∀ i, clients.count i ≤ 3 ∧ (r.removeBy i = none ↔ r.Returned i)) ∧
    ((∀ i, r.Returned i → r.phase i = .offline ∧ r.dir = ⟨none, none⟩) ↔
      Guarded Recovery.SocketInPlace Recovery.removeBy (Recovery.cleaning dir seen) clients) := by
  have start := Recovery.cleaning_cleaning dir seen
  have h : r.Cleaning := run_invariant Recovery.Cleaning (fun _ _ _ h => h.step) start reached
  refine ⟨fun i => ⟨?_, ?_⟩, ?_⟩
  · have count := Recovery.removeBy_count start reached i
    simp only [Recovery.cleaning, Recovery.cleanRank] at count
    omega
  · refine ⟨h.stopped, ?_⟩
    rintro (offline | failed)
    · simp [Recovery.removeBy, Recovery.cleanBy, offline, Recovery.clean]
    · simp [Recovery.removeBy, Recovery.cleanBy, failed, Recovery.clean]
  · have fresh : ∀ i, (Recovery.cleaning dir seen).phase i ≠ .failed := fun _ => by
      simp [Recovery.cleaning]
    have live : (∀ i, r.phase i ≠ .failed) ↔ (∀ i, (Recovery.cleaning dir seen).phase i ≠ .failed) ∧
        Guarded Recovery.SocketInPlace Recovery.removeBy (Recovery.cleaning dir seen) clients :=
      run_guarded_iff Recovery.Cleaning (fun s : Recovery ι => ∀ i, s.phase i ≠ .failed)
        (fun _ _ _ h => h.step) (fun _ _ _ h => Recovery.removeBy_noFailure_iff h) start reached
    rw [and_iff_right fresh] at live
    rw [← live]
    constructor
    · intro succeeded i failed
      have offline := (succeeded i (.inr failed)).1
      exact absurd (failed.symm.trans offline) (by simp)
    · intro live i returned
      have offline := returned.resolve_right (live i)
      have clean := h.phases i
      rw [offline] at clean
      exact ⟨offline, clean⟩

theorem cleans_succeed_in_turn :
    ∃ r, run Recovery.removeBy (Recovery.cleaning leftovers fun _ : Fin 2 => 0)
        [0, 0, 0, 1, 1] = some r ∧
      ∀ i, r.Returned i → r.phase i = .offline ∧ r.dir = ⟨none, none⟩ := by
  refine ⟨_, rfl, ?_⟩
  apply (cleans_succeed_iff leftovers (fun _ : Fin 2 => 0)
    (show run _ _ [0, 0, 0, 1, 1] = _ from rfl)).2.mpr
  decide

/-- Both clients find the socket, the first removes it, and the second fails. -/
theorem clean_fails_after_other_removal :
    ∃ r, run Recovery.removeBy (Recovery.cleaning leftovers fun _ : Fin 2 => 0)
        [0, 1, 0, 1, 0] = some r ∧
      (∀ i, r.Returned i) ∧ r.phase 0 = .offline ∧ r.phase 1 = .failed := by
  refine ⟨_, rfl, fun i => ?_, rfl, rfl⟩
  match i with
  | 0 => exact .inl rfl
  | 1 => exact .inr rfl

end KnotOps.Facade
