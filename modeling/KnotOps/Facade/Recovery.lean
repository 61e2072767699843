import KnotOps.Machine

/-! Recovery of a runtime directory by several clients.
Each client runs `connect`, then `clean` on a stale handle, then `launch`, one
file-system access a step; the answers of the socket, the process table and the
disk are arbitrary.  A launched daemon creates its lock file and its socket at
any later time.  Files carry the daemon that created them and every deletion is
kept with the number of daemons launched when its client was told that the
directory is stale: what `clean` may delete are files of older daemons. -/

namespace KnotOps.Facade

open Machine

inductive Platform where
  | unix
  | windows
deriving DecidableEq, Repr

/-- Daemons are numbered in the order of their launches; files with no origin
were not made by any of these. -/
abbrev Origin := Option Nat

structure LockFile where
  origin : Origin
  pid : Option Nat
deriving DecidableEq, Repr

structure SocketFile where
  origin : Origin
deriving DecidableEq, Repr

structure RuntimeDir where
  lock : Option LockFile
  socket : Option SocketFile
deriving DecidableEq, Repr

inductive BindResult where
  | bound
  | notRunning
  | reused
  | mismatch
  | io
deriving DecidableEq, Repr

/-- Where a client stands; a stale handle remembers how many daemons had been
launched when `connect` returned it. -/
inductive Phase where
  | connect
  | checkSocket
  | dial
  | readLock
  | bind (pid : Nat)
  | connected
  | hung
  | failed
  | stale (seen : Nat)
  | removeSocket (seen : Nat)
  | removeLock (seen : Nat)
  | offline
  | launched (daemon : Nat)
deriving DecidableEq, Repr

namespace Phase

def staleHandle : Phase → Option Nat
  | stale seen | removeSocket seen | removeLock seen => some seen
  | _ => none

def deletes : Phase → Option Nat
  | removeSocket seen | removeLock seen => some seen
  | _ => none

end Phase

structure Deletion where
  origin : Origin
  seen : Nat
deriving DecidableEq, Repr

/-- The file was not made by a daemon launched after the classification. -/
def Deletion.Stale (d : Deletion) : Prop :=
  ∀ daemon, d.origin = some daemon → daemon < d.seen

structure Recovery (ι : Type) where
  platform : Platform
  dir : RuntimeDir
  launched : Nat
  phase : ι → Phase
  deletions : List Deletion

/-- What the environment answers to one step of a client: whether the call
succeeds, and what `bind` returns. -/
structure Answer where
  ok : Bool
  bind : BindResult
deriving DecidableEq, Repr

inductive RecoveryAction (ι : Type) where
  | client (i : ι) (answer : Answer)
  | createLock (origin : Origin) (pid : Option Nat)
  | createSocket (origin : Origin)

namespace Recovery

variable {ι : Type} [DecidableEq ι]

def start (platform : Platform) (lock : Option (Option Nat)) (socket : Bool) : Recovery ι :=
  ⟨platform, ⟨lock.map (⟨none, ·⟩), if socket then some ⟨none⟩ else none⟩, 0,
    fun _ => .connect, []⟩

def goto (r : Recovery ι) (i : ι) (phase : Phase) : Recovery ι :=
  { r with phase := fun j => if j = i then phase else r.phase j }

def delete (r : Recovery ι) (origin : Origin) (seen : Nat) (dir : RuntimeDir) : Recovery ι :=
  { r with dir, deletions := r.deletions ++ [⟨origin, seen⟩] }

def connect (r : Recovery ι) (i : ι) (answer : Answer) : Phase → Option (Recovery ι)
  | .connect =>
    if r.dir.lock.isSome then some (r.goto i .dial)
    else match r.platform with
      | .unix => some (r.goto i .checkSocket)
      | .windows => some (r.goto i .offline)
  | .checkSocket =>
    if r.dir.socket.isSome then some (r.goto i (.stale r.launched)) else some (r.goto i .offline)
  | .dial => some (r.goto i (if answer.ok then .connected else .readLock))
  | .readLock =>
    match if answer.ok then r.dir.lock.bind (·.pid) else none with
    | some pid => some (r.goto i (.bind pid))
    | none => some (r.goto i (.stale r.launched))
  | .bind _ =>
    match answer.bind with
    | .bound => some (r.goto i .hung)
    | .notRunning | .reused | .mismatch => some (r.goto i (.stale r.launched))
    | .io => some (r.goto i .failed)
  | _ => none

def clean (r : Recovery ι) (i : ι) (answer : Answer) : Phase → Option (Recovery ι)
  | .stale seen =>
    match r.platform with
    | .unix =>
      if r.dir.socket.isSome then some (r.goto i (.removeSocket seen))
      else some (r.goto i (.removeLock seen))
    | .windows => some (r.goto i (.removeLock seen))
  | .removeSocket seen =>
    match if answer.ok then r.dir.socket else none with
    | some file =>
      some ((r.delete file.origin seen { r.dir with socket := none }).goto i (.removeLock seen))
    | none => some (r.goto i .failed)
  | .removeLock seen =>
    if answer.ok then
      match r.dir.lock with
      | some file =>
        some ((r.delete file.origin seen { r.dir with lock := none }).goto i .offline)
      | none => some (r.goto i .offline)
    else some (r.goto i .failed)
  | _ => none

/-- `Process::spawn`; the connection loop after it does not touch the directory. -/
def launch (r : Recovery ι) (i : ι) (answer : Answer) : Phase → Option (Recovery ι)
  | .offline =>
    if answer.ok then
      some ({ r with launched := r.launched + 1 }.goto i (.launched r.launched))
    else some (r.goto i .failed)
  | _ => none

def Exists (r : Recovery ι) (origin : Origin) : Prop :=
  ∀ daemon, origin = some daemon → daemon < r.launched

instance (r : Recovery ι) : DecidablePred r.Exists
  | none => .isTrue fun _ h => by cases h
  | some daemon => decidable_of_iff (daemon < r.launched) (by simp [Exists])

def step (r : Recovery ι) : RecoveryAction ι → Option (Recovery ι)
  | .client i answer =>
    match r.phase i with
    | .connect | .checkSocket | .dial | .readLock | .bind _ => r.connect i answer (r.phase i)
    | .stale _ | .removeSocket _ | .removeLock _ => r.clean i answer (r.phase i)
    | .offline => r.launch i answer (r.phase i)
    | .connected | .hung | .failed | .launched _ => none
  | .createLock origin pid =>
    if r.Exists origin then
      some { r with dir := { r.dir with lock := some ⟨origin, pid⟩ } }
    else none
  | .createSocket origin =>
    if r.Exists origin then
      some { r with dir := { r.dir with socket := some ⟨origin⟩ } }
    else none

def Keeps (r : Recovery ι) (phase phase' : Phase) : Prop :=
  ∀ seen, phase'.staleHandle = some seen → phase.staleHandle = some seen ∨ seen = r.launched

omit [DecidableEq ι] in
theorem keeps_none (r : Recovery ι) (phase : Phase) {phase' : Phase}
    (none_held : phase'.staleHandle = none) : r.Keeps phase phase' :=
  fun seen held => by
    rw [none_held] at held
    cases held

omit [DecidableEq ι] in
theorem keeps_same (r : Recovery ι) {phase phase' : Phase}
    (same : phase'.staleHandle = phase.staleHandle) : r.Keeps phase phase' :=
  fun _ held => .inl (same ▸ held)

omit [DecidableEq ι] in
theorem keeps_stale (r : Recovery ι) (phase : Phase) : r.Keeps phase (.stale r.launched) :=
  fun _ held => .inr (Option.some.inj held).symm

theorem connect_cases {r next : Recovery ι} {i : ι} {answer : Answer} {phase : Phase}
    (taken : r.connect i answer phase = some next) :
    ∃ phase', r.Keeps phase phase' ∧ next = r.goto i phase' := by
  cases phase with
  | connect =>
    simp only [connect] at taken
    split_ifs at taken
    · exact ⟨_, r.keeps_none _ rfl, (Option.some.inj taken).symm⟩
    · split at taken <;> exact ⟨_, r.keeps_none _ rfl, (Option.some.inj taken).symm⟩
  | checkSocket =>
    simp only [connect] at taken
    split_ifs at taken
    · exact ⟨_, r.keeps_stale _, (Option.some.inj taken).symm⟩
    · exact ⟨_, r.keeps_none _ rfl, (Option.some.inj taken).symm⟩
  | dial =>
    refine ⟨_, r.keeps_none _ ?_, (Option.some.inj taken).symm⟩
    split_ifs <;> rfl
  | readLock =>
    simp only [connect] at taken
    split at taken
    · exact ⟨_, r.keeps_none _ rfl, (Option.some.inj taken).symm⟩
    · exact ⟨_, r.keeps_stale _, (Option.some.inj taken).symm⟩
  | bind pid =>
    simp only [connect] at taken
    split at taken
    · exact ⟨_, r.keeps_none _ rfl, (Option.some.inj taken).symm⟩
    · exact ⟨_, r.keeps_stale _, (Option.some.inj taken).symm⟩
    · exact ⟨_, r.keeps_stale _, (Option.some.inj taken).symm⟩
    · exact ⟨_, r.keeps_stale _, (Option.some.inj taken).symm⟩
    · exact ⟨_, r.keeps_none _ rfl, (Option.some.inj taken).symm⟩
  | connected | hung | failed | stale | removeSocket | removeLock | offline | launched =>
    cases taken

inductive Removes (dir : RuntimeDir) : Origin → RuntimeDir → Prop
  | socket {file : SocketFile} (present : dir.socket = some file) :
      Removes dir file.origin { dir with socket := none }
  | lock {file : LockFile} (present : dir.lock = some file) :
      Removes dir file.origin { dir with lock := none }

theorem clean_cases {r next : Recovery ι} {i : ι} {answer : Answer} {phase : Phase}
    (taken : r.clean i answer phase = some next) :
    ∃ phase', r.Keeps phase phase' ∧
      (next = r.goto i phase' ∨
        ∃ seen origin dir, phase.deletes = some seen ∧ Removes r.dir origin dir ∧
          next = (r.delete origin seen dir).goto i phase') := by
  cases phase with
  | stale seen =>
    simp only [clean] at taken
    split at taken
    · split_ifs at taken
      · exact ⟨.removeSocket seen, r.keeps_same rfl, .inl (Option.some.inj taken).symm⟩
      · exact ⟨.removeLock seen, r.keeps_same rfl, .inl (Option.some.inj taken).symm⟩
    · exact ⟨.removeLock seen, r.keeps_same rfl, .inl (Option.some.inj taken).symm⟩
  | removeSocket seen =>
    simp only [clean] at taken
    split at taken
    · rename_i file present
      have inPlace : r.dir.socket = some file := by
        split_ifs at present
        exact present
      exact ⟨.removeLock seen, r.keeps_same rfl,
        .inr ⟨seen, _, _, rfl, .socket inPlace, (Option.some.inj taken).symm⟩⟩
    · exact ⟨_, r.keeps_none _ rfl, .inl (Option.some.inj taken).symm⟩
  | removeLock seen =>
    simp only [clean] at taken
    split_ifs at taken
    · split at taken
      · rename_i file present
        exact ⟨_, r.keeps_none _ rfl,
          .inr ⟨seen, _, _, rfl, .lock present, (Option.some.inj taken).symm⟩⟩
      · exact ⟨_, r.keeps_none _ rfl, .inl (Option.some.inj taken).symm⟩
    · exact ⟨_, r.keeps_none _ rfl, .inl (Option.some.inj taken).symm⟩
  | connect | checkSocket | dial | readLock | bind | connected | hung | failed | offline
    | launched => cases taken

theorem launch_cases {r next : Recovery ι} {i : ι} {answer : Answer} {phase : Phase}
    (taken : r.launch i answer phase = some next) :
    phase = .offline ∧ (next = r.goto i .failed ∨
      next = { r with launched := r.launched + 1 }.goto i (.launched r.launched)) := by
  cases phase with
  | offline =>
    simp only [launch] at taken
    split_ifs at taken
    · exact ⟨rfl, .inr (Option.some.inj taken).symm⟩
    · exact ⟨rfl, .inl (Option.some.inj taken).symm⟩
  | connect | checkSocket | dial | readLock | bind | connected | hung | failed | stale
    | removeSocket | removeLock | launched => cases taken

theorem client_cases {r next : Recovery ι} {i : ι} {answer : Answer}
    (taken : r.step (.client i answer) = some next) :
    (∃ phase', r.Keeps (r.phase i) phase' ∧
      (next = r.goto i phase' ∨
        ∃ seen origin dir, (r.phase i).deletes = some seen ∧ Removes r.dir origin dir ∧
          next = (r.delete origin seen dir).goto i phase')) ∨
      (r.phase i = .offline ∧
        next = { r with launched := r.launched + 1 }.goto i (.launched r.launched)) := by
  simp only [step] at taken
  split at taken
  · exact .inl ((connect_cases taken).imp fun _ moved => ⟨moved.1, .inl moved.2⟩)
  · exact .inl ((connect_cases taken).imp fun _ moved => ⟨moved.1, .inl moved.2⟩)
  · exact .inl ((connect_cases taken).imp fun _ moved => ⟨moved.1, .inl moved.2⟩)
  · exact .inl ((connect_cases taken).imp fun _ moved => ⟨moved.1, .inl moved.2⟩)
  · exact .inl ((connect_cases taken).imp fun _ moved => ⟨moved.1, .inl moved.2⟩)
  · exact .inl (clean_cases taken)
  · exact .inl (clean_cases taken)
  · exact .inl (clean_cases taken)
  · obtain ⟨offline, failed | launched⟩ := launch_cases taken
    · exact .inl ⟨_, r.keeps_none _ rfl, .inl failed⟩
    · exact .inr ⟨offline, launched⟩
  · cases taken
  · cases taken
  · cases taken
  · cases taken

omit [DecidableEq ι] in
theorem Exists.mono {r next : Recovery ι} {origin : Origin} (made : r.Exists origin)
    (later : r.launched ≤ next.launched) : next.Exists origin :=
  fun daemon eq => Nat.lt_of_lt_of_le (made daemon eq) later

structure Safe (r : Recovery ι) : Prop where
  lock : ∀ file, r.dir.lock = some file → r.Exists file.origin
  socket : ∀ file, r.dir.socket = some file → r.Exists file.origin
  deletions : ∀ d ∈ r.deletions, d.Stale

omit [DecidableEq ι] in
theorem start_safe (platform : Platform) (lock : Option (Option Nat)) (socket : Bool) :
    (start platform lock socket : Recovery ι).Safe := by
  refine ⟨fun file present daemon eq => ?_, fun file present daemon eq => ?_, ?_⟩
  · obtain ⟨pid, -, rfl⟩ := Option.map_eq_some_iff.mp present
    cases eq
  · simp only [start] at present
    split_ifs at present
    rw [← Option.some.inj present] at eq
    cases eq
  · simp [start]

omit [DecidableEq ι] in
theorem Safe.delete {r : Recovery ι} (h : r.Safe) {origin : Origin} {dir : RuntimeDir}
    (removes : Removes r.dir origin dir) : (r.delete origin r.launched dir).Safe := by
  have made : r.Exists origin := by
    cases removes with
    | socket present => exact h.socket _ present
    | lock present => exact h.lock _ present
  refine ⟨fun file present => ?_, fun file present => ?_, fun d member => ?_⟩
  · cases removes with
    | socket => exact h.lock file present
    | lock => cases present
  · cases removes with
    | socket => cases present
    | lock => exact h.socket file present
  · rcases List.mem_append.mp member with old | new
    · exact h.deletions d old
    · rw [List.mem_singleton.mp new]
      exact made

/-- A client may delete a file only while no daemon has been launched since its
`connect` returned the stale handle. -/
def NothingLaunched (r : Recovery ι) : RecoveryAction ι → Prop
  | .client i _ => ∀ seen, (r.phase i).deletes = some seen → seen = r.launched
  | .createLock .. | .createSocket .. => True

instance (r : Recovery ι) : DecidablePred r.NothingLaunched
  | .client i _ =>
    match h : (r.phase i).deletes with
    | none => .isTrue fun seen eq => by rw [h] at eq; cases eq
    | some seen => decidable_of_iff (seen = r.launched) (by simp [NothingLaunched, h])
  | .createLock .. => .isTrue trivial
  | .createSocket .. => .isTrue trivial

theorem step_safe {r next : Recovery ι} {a : RecoveryAction ι} (h : r.Safe)
    (allowed : r.NothingLaunched a) (taken : r.step a = some next) : next.Safe := by
  cases a with
  | client i answer =>
    rcases client_cases taken with
      ⟨phase, -, rfl | ⟨seen, origin, dir, deletes, removes, rfl⟩⟩ | ⟨-, rfl⟩
    · exact ⟨h.lock, h.socket, h.deletions⟩
    · rw [allowed seen deletes]
      have safe := h.delete removes
      exact ⟨safe.lock, safe.socket, safe.deletions⟩
    · exact ⟨fun file present => (h.lock file present).mono (Nat.le_succ _),
        fun file present => (h.socket file present).mono (Nat.le_succ _), h.deletions⟩
  | createLock origin pid =>
    simp only [step] at taken
    split_ifs at taken with made
    rw [← Option.some.inj taken]
    refine ⟨fun file present => ?_, h.socket, h.deletions⟩
    rw [← Option.some.inj present]
    exact made
  | createSocket origin =>
    simp only [step] at taken
    split_ifs at taken with made
    rw [← Option.some.inj taken]
    refine ⟨h.lock, fun file present => ?_, h.deletions⟩
    rw [← Option.some.inj present]
    exact made

def LaunchesAlone (r : Recovery ι) : RecoveryAction ι → Prop
  | .client i _ => r.phase i = .offline → ∀ j, (r.phase j).staleHandle = none
  | .createLock .. | .createSocket .. => True

def Current (r : Recovery ι) : Prop :=
  ∀ j seen, (r.phase j).staleHandle = some seen → seen = r.launched

theorem goto_current {r : Recovery ι} (h : r.Current) {i : ι} {phase : Phase}
    (keeps : r.Keeps (r.phase i) phase) : (r.goto i phase).Current := by
  intro j seen held
  by_cases here : j = i
  · simp only [goto, if_pos here] at held
    rcases keeps seen held with before | now
    · exact h i seen before
    · exact now
  · simp only [goto, if_neg here] at held
    exact h j seen held

theorem step_current {r next : Recovery ι} {a : RecoveryAction ι} (h : r.Current)
    (allowed : r.LaunchesAlone a) (taken : r.step a = some next) : next.Current := by
  cases a with
  | client i answer =>
    rcases client_cases taken with
      ⟨phase, keeps, rfl | ⟨seen, origin, dir, -, -, rfl⟩⟩ | ⟨offline, rfl⟩
    · exact goto_current h keeps
    · exact goto_current h keeps
    · intro j seen held
      have none_held := allowed offline j
      by_cases here : j = i
      · simp only [goto, if_pos here] at held
        cases held
      · simp only [goto, if_neg here, none_held] at held
        cases held
  | createLock origin pid =>
    simp only [step] at taken
    split_ifs at taken
    rw [← Option.some.inj taken]
    exact h
  | createSocket origin =>
    simp only [step] at taken
    split_ifs at taken
    rw [← Option.some.inj taken]
    exact h

/-- Launches that wait for the stale handles keep the deletions apart from them. -/
theorem nothingLaunched_of_launchesAlone {platform : Platform} {lock : Option (Option Nat)}
    {socket : Bool} {actions : List (RecoveryAction ι)}
    (allowed : Guarded LaunchesAlone step (start platform lock socket) actions) :
    Guarded NothingLaunched step (start platform lock socket) actions := by
  apply allowed.imp Current (fun _ _ _ => step_current)
  · intro r a current _
    cases a with
    | client i answer =>
      intro seen deletes
      apply current i seen
      cases phase : r.phase i with
      | removeSocket | removeLock => simpa [phase, Phase.deletes, Phase.staleHandle] using deletes
      | _ => simp [phase, Phase.deletes] at deletes
    | createLock | createSocket => trivial
  · intro j seen held
    cases held

end Recovery

/-- Where no daemon is launched between a classification and the deletions that
follow it, no file of a later daemon is deleted. -/
theorem clean_deletes_stale_files {ι : Type} [DecidableEq ι] (platform : Platform)
    (lock : Option (Option Nat)) (socket : Bool) {actions : List (RecoveryAction ι)}
    {r : Recovery ι}
    (allowed : Guarded Recovery.NothingLaunched Recovery.step
      (Recovery.start platform lock socket) actions)
    (reached : run Recovery.step (Recovery.start platform lock socket) actions = some r) :
    ∀ d ∈ r.deletions, d.Stale :=
  (run_guarded Recovery.Safe (fun _ _ _ => Recovery.step_safe)
    (Recovery.start_safe platform lock socket) allowed reached).deletions

def recoversAlone : List (RecoveryAction (Fin 2)) :=
  [.client 0 ⟨true, .io⟩, .client 0 ⟨false, .io⟩, .client 0 ⟨true, .io⟩,
    .client 0 ⟨true, .notRunning⟩, .client 0 ⟨true, .io⟩, .client 0 ⟨true, .io⟩,
    .client 0 ⟨true, .io⟩, .createLock (some 0) (some 8), .createSocket (some 0)]

theorem recoversAlone_deletes_stale_files :
    ∃ r, run Recovery.step (Recovery.start .unix (some (some 7)) false) recoversAlone = some r ∧
      ∀ d ∈ r.deletions, d.Stale := by
  have runs : (run Recovery.step (Recovery.start .unix (some (some 7)) false)
      recoversAlone).isSome := by decide
  have allowed : Guarded Recovery.NothingLaunched Recovery.step
      (Recovery.start .unix (some (some 7)) false) recoversAlone := by decide
  obtain ⟨r, reached⟩ := Option.isSome_iff_exists.mp runs
  exact ⟨r, reached, clean_deletes_stale_files _ _ _ allowed reached⟩

/-- The second client is told that the directory is stale, the first one recovers
it, and the second then deletes the socket and the lock of the new daemon. -/
theorem clean_deletes_files_of_new_daemon :
    ∃ r, run Recovery.step (Recovery.start .unix (some (some 7)) false)
        ([.client 1 ⟨true, .io⟩, .client 1 ⟨false, .io⟩, .client 1 ⟨true, .io⟩,
          .client 1 ⟨true, .notRunning⟩] ++ recoversAlone ++
          [.client 1 ⟨true, .io⟩, .client 1 ⟨true, .io⟩, .client 1 ⟨true, .io⟩]) = some r ∧
      ¬ ∀ d ∈ r.deletions, d.Stale := by
  refine ⟨_, rfl, fun stale => ?_⟩
  have removed := stale ⟨some 0, 0⟩ (by decide) 0 rfl
  exact Nat.lt_irrefl 0 removed

end KnotOps.Facade
