import Mathlib.Logic.Function.Basic
import KnotOps.Utf8
import KnotOps.Grpc.Acceptor

/-! `IpcIncoming::bind`: what is at the socket path is removed, the path is
resolved to the name of an endpoint, the listener is created and its socket
restricted to the owner.
Paths are bytes, and a file system says what is at each of them.  The answers of
the operating system and of `interprocess` are given; an operation that fails
leaves the file system as it was. -/

namespace KnotOps.Grpc

universe u

abbrev Path := List UInt8

inductive Entry where
  | file (contents : List UInt8)
  | symlink (target : Path)
  | socket
  | directory
deriving DecidableEq, Repr

abbrev FileSystem := Path → Option Entry

inductive IoError where
  | invalidInput (message : String)
  | os (kind : String)
deriving DecidableEq, Repr

inductive Name where
  | fsName (path : Path)
  | nsName (name : String)
deriving DecidableEq, Repr

inductive Target where
  | unix
  | windows
deriving DecidableEq, Repr

/-- What creating and dropping a listener do to the file system: a taken path is refused, and
a creation that fails changes nothing. -/
structure Interprocess where
  /-- `create_tokio`, with the reason for which the system refuses. -/
  createTokio : Option IoError → Name → FileSystem → Except IoError Unit × FileSystem
  dropListener : Name → FileSystem → FileSystem
  refused : ∀ e name fs, ∃ e', (createTokio (some e) name fs).1 = .error e'
  taken : ∀ refused path fs, (fs path).isSome →
    ∃ e, (createTokio refused (.fsName path) fs).1 = .error e
  free : ∀ name fs, (∀ path, name = .fsName path → fs path = none) →
    (createTokio none name fs).1 = .ok ()
  failed : ∀ refused name fs e, (createTokio refused name fs).1 = .error e →
    (createTokio refused name fs).2 = fs
  created : ∀ refused path fs, (createTokio refused (.fsName path) fs).1 = .ok () →
    (createTokio refused (.fsName path) fs).2 = Function.update fs path (some .socket)
  dropped : ∀ path fs, dropListener (.fsName path) fs = Function.update fs path none

structure Platform extends Interprocess where
  target : Target
  display : Path → String
  /-- `file_name` of the path, where it is text. -/
  fileName : Path → Option String
  /-- Why `to_fs_name` refuses a path, if it does. -/
  toFsName : Path → Option String
  /-- Why `to_ns_name` refuses a name, if it does. -/
  toNsName : String → Option String

/-- `std::fs::remove_file`, with the reason for which the system refuses. -/
def removeFile (refused : Option IoError) (path : Path) (fs : FileSystem) :
    Except IoError FileSystem :=
  if 0 ∈ path then .error (.invalidInput "file name contained an unexpected NUL byte")
  else if path = [] then .error (.os "NotFound")
  else
    match fs path with
    | none => .error (.os "NotFound")
    | some .directory => .error (.os "IsADirectory")
    | some (.file _) | some (.symlink _) | some .socket =>
      match refused with
      | some error => .error error
      | none => .ok (Function.update fs path none)

def resolveSocketName (p : Platform) (path : Path) : Except IoError Name :=
  if path = [] then .error (.invalidInput ("Socket path is empty: " ++ p.display path))
  else if p.target = .unix ∧ 100 < path.length then
    .error (.invalidInput
      ("Unix socket path is too long (limit 100 chars): " ++ p.display path))
  else
    match p.target with
    | .windows =>
      match p.fileName path with
      | none =>
        .error (.invalidInput
          ("Socket path does not have a valid file name: " ++ p.display path))
      | some name =>
        match p.toNsName name with
        | some e =>
          .error (.invalidInput ("Failed to create Windows namespace socket name: " ++ e))
        | none => .ok (.nsName name)
    | .unix =>
      match p.toFsName path with
      | some e => .error (.invalidInput ("Failed to create Unix socket path: " ++ e))
      | none => .ok (.fsName path)

/-- Why the system refuses a call that could succeed. -/
structure BindOutcomes where
  remove : Option IoError
  createTokio : Option IoError
  setPermissions : Option IoError

variable {C : Type u}

def removeExisting (o : BindOutcomes) (path : Path) (fs : FileSystem) : FileSystem :=
  match removeFile o.remove path fs with
  | .ok removed => removed
  | .error _ => fs

/-- The result and the file system after it; no result is the panic of a channel
without room. -/
def bind (p : Platform) (o : BindOutcomes) (path : Path) (bufferSize : Nat) (fs : FileSystem) :
    Option (Except IoError (IpcIncoming C IoError bufferSize)) × FileSystem :=
  let fs := removeExisting o path fs
  match resolveSocketName p path with
  | .error e => (some (.error e), fs)
  | .ok name =>
    match p.createTokio o.createTokio name fs with
    | (.error e, fs) => (some (.error e), fs)
    | (.ok (), fs) =>
      match p.target, o.setPermissions with
      | .unix, some e => (some (.error e), p.dropListener name fs)
      | .unix, none | .windows, _ =>
        if positive : 0 < bufferSize then (some (.ok (.new positive)), fs)
        else (none, p.dropListener name fs)

/-- What `remove_file` takes away. -/
structure Removed (o : BindOutcomes) (path : Path) (fs : FileSystem) : Prop where
  entry : ∃ entry, fs path = some entry ∧ entry ≠ .directory
  named : path ≠ [] ∧ 0 ∉ path
  permitted : o.remove = none

def Resolves (p : Platform) (path : Path) : Prop :=
  path ≠ [] ∧
    match p.target with
    | .unix => path.length ≤ 100 ∧ p.toFsName path = none
    | .windows => ∃ name, p.fileName path = some name ∧ p.toNsName name = none

variable {p : Platform} {o : BindOutcomes} {path : Path} {fs : FileSystem}

theorem removeFile_of_removed (h : Removed o path fs) :
    removeFile o.remove path fs = .ok (Function.update fs path none) := by
  obtain ⟨⟨entry, found, plain⟩, ⟨nonempty, no_nul⟩, permitted⟩ := h
  unfold removeFile
  rw [if_neg no_nul, if_neg nonempty, found, permitted]
  cases entry with
  | directory => exact absurd rfl plain
  | file | symlink | socket => rfl

theorem removeFile_of_not_removed (h : ¬ Removed o path fs) :
    ∃ e, removeFile o.remove path fs = .error e := by
  unfold removeFile
  by_cases nul : 0 ∈ path
  · exact ⟨_, if_pos nul⟩
  by_cases empty : path = []
  · exact ⟨_, by rw [if_neg nul, if_pos empty]⟩
  rw [if_neg nul, if_neg empty]
  cases found : fs path with
  | none => exact ⟨_, rfl⟩
  | some entry =>
    cases refused : o.remove with
    | some error => cases entry <;> exact ⟨_, rfl⟩
    | none =>
      cases entry with
      | directory => exact ⟨_, rfl⟩
      | file | symlink | socket =>
        exact absurd ⟨⟨_, found, by simp⟩, ⟨empty, nul⟩, refused⟩ h

theorem resolves_iff : Resolves p path ↔ ∃ name, resolveSocketName p path = .ok name := by
  rw [Resolves, resolveSocketName]
  by_cases empty : path = []
  · simp [empty]
  rw [if_neg empty]
  cases target : p.target with
  | unix =>
    by_cases long : 100 < path.length
    · simp [long, Nat.not_le.mpr long]
    · cases refused : p.toFsName path <;> simp [empty, long, Nat.le_of_not_lt long]
  | windows =>
    cases named : p.fileName path with
    | none => simp
    | some name => cases refused : p.toNsName name <;> simp [empty, refused]

theorem resolveSocketName_fsName {other : Path}
    (resolved : resolveSocketName p path = .ok (.fsName other)) : other = path := by
  unfold resolveSocketName at resolved
  repeat' split at resolved
  all_goals simp_all

theorem removeExisting_of_removed (h : Removed o path fs) :
    removeExisting o path fs path = none := by
  rw [removeExisting, removeFile_of_removed h]
  exact Function.update_self path none fs

theorem removeExisting_of_not_removed (h : ¬ Removed o path fs) :
    removeExisting o path fs = fs := by
  obtain ⟨e, kept⟩ := removeFile_of_not_removed h
  rw [removeExisting, kept]

/-- `bind` fails because the path has no endpoint, or because its listener cannot be
created. -/
def NoListener (p : Platform) (o : BindOutcomes) (path : Path) (fs : FileSystem)
    (e : IoError) : Prop :=
  resolveSocketName p path = .error e ∨
    ∃ name, resolveSocketName p path = .ok name ∧
      (p.createTokio o.createTokio name (removeExisting o path fs)).1 = .error e

theorem bind_of_noListener {e : IoError} (h : NoListener p o path fs e) (bufferSize : Nat) :
    bind (C := C) p o path bufferSize fs = (some (.error e), removeExisting o path fs) := by
  rcases h with unresolved | ⟨name, resolved, uncreated⟩
  · simp only [bind, unresolved]
  · have outcome : p.createTokio o.createTokio name (removeExisting o path fs) =
        (.error e, removeExisting o path fs) := Prod.ext uncreated (p.failed _ _ _ _ uncreated)
    simp only [bind, resolved, outcome]

theorem noListener_of_removed_iff (removed : Removed o path fs) :
    (∃ e, NoListener p o path fs e) ↔ ¬ (Resolves p path ∧ o.createTokio = none) := by
  constructor
  · rintro ⟨e, failed⟩ ⟨resolves, permitted⟩
    obtain ⟨name, resolved⟩ := resolves_iff.mp resolves
    rcases failed with unresolved | ⟨other, resolved', uncreated⟩
    · rw [resolved] at unresolved
      cases unresolved
    · obtain rfl : name = other := Except.ok.inj (resolved.symm.trans resolved')
      have created : (p.createTokio none name (removeExisting o path fs)).1 = .ok () := by
        refine p.free name _ fun other same => ?_
        subst same
        rw [resolveSocketName_fsName resolved]
        exact removeExisting_of_removed removed
      rw [permitted, created] at uncreated
      cases uncreated
  · intro fails
    cases resolved : resolveSocketName p path with
    | error e => exact ⟨e, .inl resolved⟩
    | ok name =>
      have resolves : Resolves p path := resolves_iff.mpr ⟨name, resolved⟩
      obtain ⟨e, refused⟩ : ∃ e, o.createTokio = some e :=
        Option.ne_none_iff_exists'.mp fun permitted => fails ⟨resolves, permitted⟩
      obtain ⟨e', uncreated⟩ := p.refused e name (removeExisting o path fs)
      exact ⟨e', .inr ⟨name, resolved, refused ▸ uncreated⟩⟩

/-- What was at the path is still there after each such failure exactly when it could
not be removed, or there is no such failure. -/
theorem bind_keeps_file_iff (p : Platform) (o : BindOutcomes) (path : Path) (bufferSize : Nat)
    (fs : FileSystem) :
    (∀ e after entry, NoListener p o path fs e →
        bind (C := C) p o path bufferSize fs = (some (.error e), after) →
        fs path = some entry → after path = some entry) ↔
      (Removed o path fs → Resolves p path ∧ o.createTokio = none) := by
  constructor
  · intro keeps removed
    by_contra fails
    obtain ⟨e, failed⟩ := (noListener_of_removed_iff removed).mpr fails
    obtain ⟨entry, found, _⟩ := removed.entry
    have kept := keeps e _ entry failed (bind_of_noListener failed bufferSize) found
    rw [removeExisting_of_removed removed] at kept
    cases kept
  · intro safe e after entry failed returned found
    rw [bind_of_noListener failed] at returned
    obtain ⟨_, rfl⟩ := Prod.mk.inj returned
    by_cases removed : Removed o path fs
    · exact absurd (safe removed) ((noListener_of_removed_iff removed).mp ⟨e, failed⟩)
    · rw [removeExisting_of_not_removed removed]
      exact found

def sockets : Interprocess where
  createTokio
    | none, .fsName path, fs =>
      if (fs path).isSome then (.error (.os "AddrInUse"), fs)
      else (.ok (), Function.update fs path (some .socket))
    | none, .nsName _, fs => (.ok (), fs)
    | some e, _, fs => (.error e, fs)
  dropListener
    | .fsName path, fs => Function.update fs path none
    | .nsName _, fs => fs
  refused e _ _ := ⟨e, rfl⟩
  taken refused path fs taken := by
    cases refused with
    | none => exact ⟨.os "AddrInUse", by simp [taken]⟩
    | some e => exact ⟨e, rfl⟩
  free name fs free := by
    cases name with
    | fsName path => simp [free path rfl]
    | nsName => rfl
  failed refused name fs e failed := by
    match refused, name with
    | some _, _ | none, .nsName _ => rfl
    | none, .fsName path =>
      dsimp only at failed ⊢
      split_ifs at failed ⊢
      rfl
  created refused path fs created := by
    cases refused with
    | some => cases created
    | none =>
      dsimp only at created ⊢
      split_ifs at created ⊢
      rfl
  dropped _ _ := rfl

/-- A Unix system on which `interprocess` takes every path. -/
def unixPlatform : Platform where
  toInterprocess := sockets
  target := .unix
  display path := String.ofList (Utf8.lossy path)
  fileName _ := none
  toFsName _ := none
  toNsName _ := none

theorem bind_keeps_file_iff_directory :
    ∃ (e : IoError) (after : FileSystem),
      bind (C := Unit) unixPlatform ⟨none, none, none⟩ [0x61] 64 (fun _ => some .directory) =
        (some (.error e), after) ∧ after [0x61] = some .directory := by
  have failed : NoListener unixPlatform ⟨none, none, none⟩ [0x61] (fun _ => some .directory)
      (.os "AddrInUse") := .inr ⟨.fsName [0x61], rfl, rfl⟩
  have kept : ¬ Removed ⟨none, none, none⟩ [0x61] fun _ => some .directory :=
    fun ⟨⟨entry, found, plain⟩, _, _⟩ => plain (Option.some.inj found).symm
  have keeps := (bind_keeps_file_iff (C := Unit) unixPlatform ⟨none, none, none⟩ [0x61] 64
    fun _ => some .directory).mpr fun removed => absurd removed kept
  exact ⟨_, _, bind_of_noListener failed 64,
    keeps _ _ _ failed (bind_of_noListener failed 64) rfl⟩

def longPath : Path := List.replicate 101 0x61

/-- The path is too long for a socket, and the file that was there is gone. -/
theorem bind_destroys_file :
    ∃ (fs : FileSystem) (e : IoError) (after : FileSystem),
      fs longPath = some (.file [0x6B]) ∧
      NoListener unixPlatform ⟨none, none, none⟩ longPath fs e ∧
      bind (C := Unit) unixPlatform ⟨none, none, none⟩ longPath 64 fs =
        (some (.error e), after) ∧
      after longPath = none := by
  have removed : Removed ⟨none, none, none⟩ longPath fun _ => some (.file [0x6B]) :=
    ⟨⟨_, rfl, by decide⟩, by decide, rfl⟩
  have long : NoListener unixPlatform ⟨none, none, none⟩ longPath (fun _ => some (.file [0x6B]))
      (.invalidInput ("Unix socket path is too long (limit 100 chars): " ++
        unixPlatform.display longPath)) := .inl rfl
  exact ⟨_, _, _, rfl, long, bind_of_noListener long 64, removeExisting_of_removed removed⟩

end KnotOps.Grpc
