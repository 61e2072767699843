import KnotOps.Facade.Revision

/-! The clients of one daemon.
Any number of clients run their sessions on any workspaces, and others change the
workspaces between their requests.  The daemon is not part of the repository; a
step is one that it can take by the contract of `proto/knot/v1`: a handshake
leaves the configuration alone, a commit or an `up` is carried out on the
expected revision only, a commit of what is committed already changes nothing,
and a revision of a workspace names one configuration.  The reply to a request
that has been carried out may be lost. -/

namespace KnotOps.Facade

open Machine

universe u

structure Workspace (M : Type) where
  revision : String
  manifest : Option M
deriving DecidableEq, Repr

variable {M : Type}

namespace Exchange

def workspace : Exchange M → String
  | handshake request _ => request.workspaceId
  | commit request _ => request.workspaceId
  | up request _ => request.workspaceId

/-- The daemon can answer so; `done` tells whether it has carried the request out. -/
def Answers (before after : Workspace M) (done : Bool) : Exchange M → Prop
  | handshake request reply =>
    after.manifest = before.manifest ∧
      match reply with
      | .ok response =>
        response.revision = after.revision ∧
          (ManifestSyncState.tryFrom response.state = some .inSync →
            after.manifest = request.manifest)
      | .error _ => True
  | commit request reply =>
    (done = true → after.manifest = request.manifest ∧
        (before.revision = request.expectedRevision ∨ after = before)) ∧
      (done = false → after = before) ∧
      match reply with
      | .ok response => done = true ∧ response.revision = after.revision
      | .error _ => True
  | up request reply =>
    after = before ∧ (done = true → before.revision = request.expectedRevision) ∧
      match reply with
      | .ok _ => done = true
      | .error _ => True

instance [DecidableEq M] (before after : Workspace M) (done : Bool) :
    DecidablePred (Answers before after done)
  | handshake _ (.ok _) | handshake _ (.error _) => inferInstanceAs (Decidable (_ ∧ _))
  | commit _ (.ok _) | commit _ (.error _) => inferInstanceAs (Decidable ((_ → _) ∧ (_ → _) ∧ _))
  | up _ (.ok _) | up _ (.error _) => inferInstanceAs (Decidable (_ ∧ (_ → _) ∧ _))

def agreement? : Exchange M → Option (Option M)
  | handshake request (.ok response) =>
    some (if ManifestSyncState.tryFrom response.state = some .inSync then request.manifest else none)
  | commit request (.ok _) => some request.manifest
  | handshake _ (.error _) | commit _ (.error _) | up _ _ => none

end Exchange

/-- The manifest of the client when the daemon has it too: it has committed it, or
was told that it is in sync, and no later handshake says otherwise. -/
def agreed (exchanges : List (Exchange M)) : Option M :=
  (exchanges.filterMap Exchange.agreement?).getLast?.join

theorem agreed_concat (exchanges : List (Exchange M)) (e : Exchange M) :
    agreed (exchanges ++ [e]) = e.agreement?.getD (agreed exchanges) := by
  cases found : e.agreement? <;> simp [agreed, found]

theorem agreement?_isSome (e : Exchange M) : e.agreement?.isSome = e.revision?.isSome := by
  cases e with
  | handshake request reply => cases reply <;> rfl
  | commit request reply => cases reply <;> rfl
  | up => rfl

structure Execution (ι M : Type) where
  client : ι
  manifest : Option M
  seen : Option M
  agreed : Option M
  own : Option M
deriving DecidableEq, Repr

structure Replacement (ι M : Type) where
  client : ι
  manifest : Option M
  replaced : Option M
  seen : Option M
deriving DecidableEq, Repr

structure Workspaces (ι M : Type) where
  registry : String → Workspace M
  sessions : ι → ClientSession M
  /-- The configuration with which the daemon last told the client a revision. -/
  seen : ι → Option M
  /-- What the workspaces have been. -/
  past : List (String × Workspace M)
  executions : List (Execution ι M)
  replacements : List (Replacement ι M)

inductive WorkspacesAction (ι M : Type) where
  | client (i : ι) (action : SessionAction M) (after : Workspace M) (done : Bool)
  | other (workspace : String) (after : Workspace M)

namespace Workspaces

variable {ι : Type} [DecidableEq ι] [DecidableEq M]

def start (workspaces : List (String × Workspace M)) (default : Workspace M) : Workspaces ι M :=
  ⟨fun id => ((workspaces.find? (·.1 = id)).map (·.2)).getD default,
    fun _ => .start, fun _ => none, [], [], []⟩

def setSession (s : Workspaces ι M) (i : ι) (session : ClientSession M) : Workspaces ι M :=
  { s with sessions := fun j => if j = i then session else s.sessions j }

def record (s : Workspaces ι M) (workspace : String) (after : Workspace M) : Workspaces ι M :=
  { s with
    registry := fun id => if id = workspace then after else s.registry id
    past := s.past ++ [(workspace, s.registry workspace)] }

def tell (s : Workspaces ι M) (i : ι) (manifest : Option M) : Workspaces ι M :=
  { s with seen := fun j => if j = i then manifest else s.seen j }

def execute (s : Workspaces ι M) (i : ι) (before : Workspace M) : Exchange M → Workspaces ι M
  | .up _ _ =>
    { s with executions := s.executions ++
        [⟨i, before.manifest, s.seen i, agreed (s.sessions i).exchanges,
          lastManifest (s.sessions i).exchanges⟩] }
  | .commit request _ =>
    { s with replacements := s.replacements ++
        [⟨i, request.manifest, before.manifest, s.seen i⟩] }
  | .handshake _ _ => s

def Names (s : Workspaces ι M) (workspace : String) (after : Workspace M) : Prop :=
  ((s.registry workspace).revision = after.revision →
      (s.registry workspace).manifest = after.manifest) ∧
    ∀ p ∈ s.past, p.1 = workspace → p.2.revision = after.revision → p.2.manifest = after.manifest

instance (s : Workspaces ι M) (workspace : String) (after : Workspace M) :
    Decidable (s.Names workspace after) :=
  inferInstanceAs (Decidable ((_ → _) ∧ _))

def answer (s : Workspaces ι M) (i : ι) (exchange : Exchange M) (after : Workspace M)
    (done : Bool) : Workspaces ι M :=
  let before := s.registry exchange.workspace
  let s := if done then s.execute i before exchange else s
  let s := s.record exchange.workspace after
  if exchange.revision?.isSome then s.tell i after.manifest else s

def step (s : Workspaces ι M) : WorkspacesAction ι M → Option (Workspaces ι M)
  | .client i action after done => do
    let next ← (s.sessions i).step action
    match next.exchanges[(s.sessions i).exchanges.length]? with
    | none => some (s.setSession i next)
    | some exchange =>
      if exchange.Answers (s.registry exchange.workspace) after done ∧
          s.Names exchange.workspace after then
        some ((s.answer i exchange after done).setSession i next)
      else none
  | .other workspace after =>
    if s.Names workspace after then some (s.record workspace after) else none

end Workspaces

theorem ClientSession.step_sends {s next : ClientSession M} {action : SessionAction M}
    (taken : s.step action = some next) :
    next.exchanges = s.exchanges ∨ ∃ e, next.exchanges = s.exchanges ++ [e] := by
  obtain ⟨client, exchanges⟩ := s
  simp only [ClientSession.step] at taken
  split at taken
  · rw [← Option.some.inj taken]
    exact .inr ⟨_, rfl⟩
  · rw [← Option.some.inj taken]
    exact .inr ⟨_, rfl⟩
  · rw [← Option.some.inj taken]
    exact .inl rfl
  · rw [← Option.some.inj taken]
    exact .inr ⟨_, rfl⟩
  · rw [← Option.some.inj taken]
    exact .inr ⟨_, rfl⟩
  · cases taken

theorem Exchange.Follows.workspace_eq {before : List (Exchange M)} {e : Exchange M}
    (h : e.Follows before) : firstWorkspace (before ++ [e]) = some e.workspace := by
  rw [firstWorkspace_concat]
  cases e with
  | handshake request reply =>
    rcases h with none | same
    · simp [none, handshakeWorkspace?, workspace]
    · simp [same, workspace]
  | commit request reply => simp [h.2.1, workspace]
  | up request reply => simp [h.2, workspace]

namespace Workspaces

variable {ι : Type} [DecidableEq ι] [DecidableEq M] {s t : Workspaces ι M}

def Had (s : Workspaces ι M) (workspace : String) (w : Workspace M) : Prop :=
  s.registry workspace = w ∨ (workspace, w) ∈ s.past

omit [DecidableEq ι] [DecidableEq M] in
theorem names_iff {workspace : String} {after : Workspace M} :
    s.Names workspace after ↔
      ∀ w, s.Had workspace w → w.revision = after.revision → w.manifest = after.manifest := by
  constructor
  · rintro ⟨now, past⟩ w (rfl | earlier)
    · exact now
    · exact past _ earlier rfl
  · intro h
    refine ⟨h _ (.inl rfl), ?_⟩
    rintro ⟨_, w⟩ earlier rfl
    exact h w (.inr earlier)

omit [DecidableEq ι] [DecidableEq M] in
theorem record_had {workspace id : String} {after w : Workspace M} :
    (s.record workspace after).Had id w ↔ s.Had id w ∨ id = workspace ∧ after = w := by
  by_cases here : id = workspace
  · subst here
    simp only [Had, record, if_true, List.mem_append, List.mem_singleton, Prod.mk.injEq, true_and]
    rw [eq_comm (a := w)]
    tauto
  · simp [Had, record, here]

omit [DecidableEq M] in
@[simp] theorem setSession_self (i : ι) (session : ClientSession M) :
    (s.setSession i session).sessions i = session := if_pos rfl

omit [DecidableEq M] in
theorem setSession_other {i j : ι} (other : j ≠ i) (session : ClientSession M) :
    (s.setSession i session).sessions j = s.sessions j := if_neg other

theorem step_cases {a : WorkspacesAction ι M} (taken : s.step a = some t) :
    (∃ i action after done next, a = .client i action after done ∧
        (s.sessions i).step action = some next ∧
        next.exchanges = (s.sessions i).exchanges ∧ t = s.setSession i next) ∨
      (∃ i action after done next e, a = .client i action after done ∧
        (s.sessions i).step action = some next ∧
        next.exchanges = (s.sessions i).exchanges ++ [e] ∧
        e.Answers (s.registry e.workspace) after done ∧ s.Names e.workspace after ∧
        t = (s.answer i e after done).setSession i next) ∨
      ∃ workspace after, s.Names workspace after ∧ t = s.record workspace after := by
  cases a with
  | client i action after done =>
    obtain ⟨next, moved, rest⟩ := Option.bind_eq_some_iff.mp taken
    rcases ClientSession.step_sends moved with quiet | ⟨e, sent⟩
    · rw [quiet, List.getElem?_eq_none (Nat.le_refl _)] at rest
      exact .inl ⟨i, action, after, done, next, rfl, moved, quiet, (Option.some.inj rest).symm⟩
    · rw [sent, List.getElem?_concat_length] at rest
      simp only at rest
      split_ifs at rest with allowed
      exact .inr (.inl ⟨i, action, after, done, next, e, rfl, moved, sent, allowed.1, allowed.2,
        (Option.some.inj rest).symm⟩)
  | other workspace after =>
    simp only [step] at taken
    split_ifs at taken with allowed
    exact .inr (.inr ⟨workspace, after, allowed, (Option.some.inj taken).symm⟩)

section Answer

variable {i : ι} {e : Exchange M} {after : Workspace M} {done : Bool}

omit [DecidableEq M] in
@[simp] theorem answer_sessions : (s.answer i e after done).sessions = s.sessions := by
  simp only [answer]
  cases e <;> cases done <;> simp only [execute] <;> split_ifs <;> rfl

omit [DecidableEq M] in
theorem answer_had {id : String} {w : Workspace M} :
    (s.answer i e after done).Had id w ↔ s.Had id w ∨ id = e.workspace ∧ after = w := by
  rw [← record_had]
  simp only [answer, Had]
  cases e <;> cases done <;> simp only [execute] <;> split_ifs <;> rfl

omit [DecidableEq M] in
theorem answer_seen (j : ι) : (s.answer i e after done).seen j =
    if j = i ∧ e.revision?.isSome then after.manifest else s.seen j := by
  by_cases told : e.revision?.isSome = true
  · simp only [answer, told, if_true, tell, and_true]
    cases e <;> cases done <;> rfl
  · rw [if_neg fun h => told h.2]
    simp only [answer, if_neg told]
    cases e <;> cases done <;> rfl

omit [DecidableEq M] in
theorem answer_executions {x : Execution ι M} (new : x ∈ (s.answer i e after done).executions) :
    x ∈ s.executions ∨ ∃ request reply, e = .up request reply ∧ done = true ∧
      x = ⟨i, (s.registry e.workspace).manifest, s.seen i, agreed (s.sessions i).exchanges,
        lastManifest (s.sessions i).exchanges⟩ := by
  cases e with
  | up request reply =>
    cases done with
    | false => exact .inl (by simpa [answer, record, Exchange.revision?] using new)
    | true =>
      rcases List.mem_append.mp (show x ∈ s.executions ++ [_] from new) with old | added
      · exact .inl old
      · exact .inr ⟨request, reply, rfl, rfl, List.mem_singleton.mp added⟩
  | handshake | commit =>
    refine .inl ?_
    simp only [answer] at new
    cases done <;> split_ifs at new <;> exact new

omit [DecidableEq M] in
theorem answer_replacements {x : Replacement ι M}
    (new : x ∈ (s.answer i e after done).replacements) :
    x ∈ s.replacements ∨ ∃ request reply, e = .commit request reply ∧ done = true ∧
      x = ⟨i, request.manifest, (s.registry e.workspace).manifest, s.seen i⟩ := by
  cases e with
  | commit request reply =>
    cases done with
    | false =>
      simp only [answer, Bool.false_eq_true, if_false] at new
      split_ifs at new <;> exact .inl new
    | true =>
      have added : x ∈ s.replacements ++
          [⟨i, request.manifest, (s.registry request.workspaceId).manifest, s.seen i⟩] := by
        simp only [answer] at new
        split_ifs at new <;> exact new
      rcases List.mem_append.mp added with old | added
      · exact .inl old
      · exact .inr ⟨request, reply, rfl, rfl, List.mem_singleton.mp added⟩
  | handshake | up =>
    refine .inl ?_
    simp only [answer] at new
    cases done <;> split_ifs at new <;> exact new

end Answer

structure Informed (s : Workspaces ι M) (exchanges : List (Exchange M)) (seen : Option M) :
    Prop where
  told : ∀ revision, lastRevision exchanges = some revision →
    ∃ workspace, firstWorkspace exchanges = some workspace ∧ s.Had workspace ⟨revision, seen⟩
  agrees : ∀ manifest, agreed exchanges = some manifest → seen = some manifest

structure Inv (s : Workspaces ι M) : Prop where
  session : ∀ i, (s.sessions i).Inv
  informed : ∀ i, s.Informed (s.sessions i).exchanges (s.seen i)
  names : ∀ workspace v w, s.Had workspace v → s.Had workspace w → v.revision = w.revision →
    v.manifest = w.manifest
  executions : ∀ x ∈ s.executions,
    x.manifest = x.seen ∧ ∀ manifest, x.agreed = some manifest → x.manifest = some manifest
  replacements : ∀ x ∈ s.replacements, x.replaced = x.manifest ∨ x.replaced = x.seen

omit [DecidableEq ι] [DecidableEq M] in
theorem start_inv (workspaces : List (String × Workspace M)) (default : Workspace M) :
    (start workspaces default : Workspaces ι M).Inv where
  session _ := ClientSession.start_inv
  informed _ :=
    ⟨by simp [start, ClientSession.start, lastRevision],
      by simp [start, ClientSession.start, Facade.agreed]⟩
  names workspace v w hv hw _ := by
    rcases hv with rfl | past
    · rcases hw with rfl | past
      · rfl
      · simp [start] at past
    · simp [start] at past
  executions x member := by simp [start] at member
  replacements x member := by simp [start] at member

omit [DecidableEq ι] [DecidableEq M] in
theorem Informed.seen_eq {exchanges : List (Exchange M)} {seen : Option M}
    (h : s.Informed exchanges seen)
    (names : ∀ workspace v w, s.Had workspace v → s.Had workspace w →
      v.revision = w.revision → v.manifest = w.manifest) {workspace revision : String}
    (last : lastRevision exchanges = some revision)
    (first : firstWorkspace exchanges = some workspace)
    (current : (s.registry workspace).revision = revision) :
    (s.registry workspace).manifest = seen := by
  obtain ⟨id, first', had⟩ := h.told revision last
  obtain rfl : id = workspace := Option.some.inj (first'.symm.trans first)
  exact names id _ _ (.inl rfl) had current

omit [DecidableEq ι] [DecidableEq M] in
theorem Informed.mono {exchanges : List (Exchange M)} {seen : Option M}
    (h : s.Informed exchanges seen) (keeps : ∀ id w, s.Had id w → t.Had id w) :
    t.Informed exchanges seen :=
  ⟨fun revision last =>
    let ⟨workspace, first, had⟩ := h.told revision last
    ⟨workspace, first, keeps _ _ had⟩, h.agrees⟩

omit [DecidableEq ι] [DecidableEq M] in
theorem Informed.concat {exchanges : List (Exchange M)} {seen : Option M} {e : Exchange M}
    {after : Workspace M} {done : Bool} (h : s.Informed exchanges seen)
    (follows : e.Follows exchanges) (answers : e.Answers (s.registry e.workspace) after done)
    (keeps : ∀ id w, s.Had id w → t.Had id w) (has : t.Had e.workspace after) :
    t.Informed (exchanges ++ [e]) (if e.revision?.isSome then after.manifest else seen) := by
  have on := follows.workspace_eq
  cases revised : e.revision? with
  | none =>
    have silent : e.agreement? = none := by
      simpa [revised] using agreement?_isSome e
    refine ⟨fun revision last => ?_, fun manifest agrees => ?_⟩
    · rw [lastRevision_concat, revised] at last
      obtain ⟨workspace, first, had⟩ := h.told revision last
      exact ⟨workspace, by rw [firstWorkspace_concat, first]; rfl, keeps _ _ had⟩
    · rw [agreed_concat, silent] at agrees
      exact h.agrees manifest agrees
  | some told =>
    have same : told = after.revision ∧
        ∀ manifest, agreed (exchanges ++ [e]) = some manifest → after.manifest = some manifest := by
      rw [agreed_concat]
      cases e with
      | handshake request reply =>
        cases reply with
        | error status => cases revised
        | ok response =>
          refine ⟨(Option.some.inj revised).symm.trans answers.2.1, fun manifest agrees => ?_⟩
          simp only [Exchange.agreement?, Option.getD_some] at agrees
          split_ifs at agrees with in_sync
          exact (answers.2.2 in_sync).trans agrees
      | commit request reply =>
        cases reply with
        | error status => cases revised
        | ok response =>
          refine ⟨(Option.some.inj revised).symm.trans answers.2.2.2, fun manifest agrees => ?_⟩
          exact (answers.1 answers.2.2.1).1.trans agrees
      | up request reply => cases revised
    refine ⟨fun revision last => ⟨e.workspace, on, ?_⟩, same.2⟩
    rw [lastRevision_concat, revised] at last
    obtain rfl : told = revision := Option.some.inj last
    rw [same.1]
    exact has

omit [DecidableEq ι] [DecidableEq M] in
theorem names_after {workspace : String} {after : Workspace M} (fresh : s.Names workspace after)
    (names : ∀ id v w, s.Had id v → s.Had id w → v.revision = w.revision →
      v.manifest = w.manifest) {id : String} {v w : Workspace M}
    (hv : s.Had id v ∨ id = workspace ∧ after = v) (hw : s.Had id w ∨ id = workspace ∧ after = w)
    (same : v.revision = w.revision) : v.manifest = w.manifest := by
  rcases hv with hv | ⟨rfl, rfl⟩
  · rcases hw with hw | ⟨rfl, rfl⟩
    · exact names id v w hv hw same
    · exact names_iff.mp fresh v hv same
  · rcases hw with hw | ⟨-, rfl⟩
    · exact (names_iff.mp fresh w hw same.symm).symm
    · rfl

theorem step_inv {a : WorkspacesAction ι M} (inv : s.Inv) (taken : s.step a = some t) : t.Inv := by
  rcases step_cases taken with ⟨i, action, -, -, next, -, moved, quiet, rfl⟩ |
    ⟨i, action, after, done, next, e, -, moved, sent, answers, fresh, rfl⟩ |
    ⟨workspace, after, fresh, rfl⟩
  · refine ⟨fun j => ?_, fun j => ?_, inv.names, inv.executions, inv.replacements⟩
    · by_cases here : j = i
      · rw [here, setSession_self]
        exact ClientSession.step_inv (inv.session i) moved
      · rw [setSession_other here]
        exact inv.session j
    · have informed : (s.setSession i next).Informed (s.sessions j).exchanges (s.seen j) :=
        (inv.informed j).mono fun _ _ had => had
      by_cases here : j = i
      · subst here
        rw [setSession_self, quiet]
        exact informed
      · rw [setSession_other here]
        exact informed
  · have session := ClientSession.step_inv (inv.session i) moved
    have follows : e.Follows (s.sessions i).exchanges := session.tracked _ e [] sent
    have keeps (id : String) (w : Workspace M) (had : s.Had id w) :
        ((s.answer i e after done).setSession i next).Had id w := answer_had.mpr (.inl had)
    have has : ((s.answer i e after done).setSession i next).Had e.workspace after :=
      answer_had.mpr (.inr ⟨rfl, rfl⟩)
    refine ⟨fun j => ?_, fun j => ?_, fun id v w hv hw => ?_, fun x member => ?_,
      fun x member => ?_⟩
    · by_cases here : j = i
      · rw [here, setSession_self]
        exact session
      · rw [setSession_other here, answer_sessions]
        exact inv.session j
    · by_cases here : j = i
      · subst here
        rw [setSession_self, sent]
        simpa [setSession, answer_seen] using (inv.informed j).concat follows answers keeps has
      · rw [setSession_other here, answer_sessions]
        simpa [setSession, answer_seen, here] using (inv.informed j).mono keeps
    · exact names_after fresh inv.names (answer_had.mp hv) (answer_had.mp hw)
    · rcases answer_executions member with old | ⟨request, reply, rfl, rfl, rfl⟩
      · exact inv.executions x old
      · have seen := (inv.informed i).seen_eq inv.names follows.1 follows.2 (answers.2.1 rfl)
        exact ⟨seen, fun manifest agrees => seen.trans ((inv.informed i).agrees manifest agrees)⟩
    · rcases answer_replacements member with old | ⟨request, reply, rfl, rfl, rfl⟩
      · exact inv.replacements x old
      · obtain ⟨now, expected | unchanged⟩ := answers.1 rfl
        · exact .inr ((inv.informed i).seen_eq inv.names follows.1 follows.2.1 expected)
        · exact .inl (unchanged ▸ now)
  · refine ⟨inv.session, fun j => (inv.informed j).mono fun _ _ had => record_had.mpr (.inl had),
      fun id v w hv hw => ?_, inv.executions, inv.replacements⟩
    exact names_after fresh inv.names (record_had.mp hv) (record_had.mp hw)

end Workspaces

def ClientSession.Settled (s : ClientSession M) : Prop :=
  ∀ handle, s.client = .control handle →
    ∃ manifest, agreed s.exchanges = some manifest ∧ lastManifest s.exchanges = some manifest

theorem ClientSession.step_settled {s next : ClientSession M} {action : SessionAction M}
    (inv : s.Inv) (settled : s.Settled) (taken : s.step action = some next)
    (kept : action ≠ .discard) : next.Settled := by
  obtain ⟨client, exchanges⟩ := s
  have shaken (workspaceId : String) (manifest : M) (reply : Reply HandshakeResponse) :
      (ClientSession.mk (.afterHandshake (ConnectedHandle.handshake workspaceId manifest reply).2)
        (exchanges ++ [.handshake ⟨workspaceId, some manifest⟩ reply])).Settled := by
    intro handle control
    refine ⟨manifest, ?_, by simp [lastManifest_concat, Exchange.handshakeManifest?]⟩
    cases reply with
    | error status =>
      simp only [ConnectedHandle.handshake, callRpc] at control
      split_ifs at control <;> cases control
    | ok response =>
      simp only [ConnectedHandle.handshake, callRpc] at control
      split at control <;> try cases control
      rename_i in_sync
      simp [agreed_concat, Exchange.agreement?, in_sync]
  simp only [ClientSession.step] at taken
  split at taken
  · rw [← Option.some.inj taken]
    exact shaken _ _ _
  · rename_i held reply
    rw [← Option.some.inj taken]
    intro handle control
    refine ⟨held.toCommit, ?_, ?_⟩
    · cases answered : reply with
      | ok response =>
        simp [ClientSession.sent, agreed_concat, Exchange.agreement?, commit_request]
      | error status =>
        subst answered
        cases failed : (held.commit (.error status)).2 with
        | error error =>
          simp only [ClientSession.sent, failed, Client.afterCommit] at control
          cases control
        | ok committed =>
          simp only [UncommittedHandle.commit, UncommittedHandle.innerCommit, callRpc] at failed
          split_ifs at failed
    · rw [ClientSession.sent, lastManifest_concat]
      exact inv.client.2
  · exact absurd rfl kept
  · rw [← Option.some.inj taken]
    exact shaken _ _ _
  · rename_i held services prune reply
    rw [← Option.some.inj taken]
    intro handle control
    obtain ⟨manifest, agrees, own⟩ := settled held rfl
    refine ⟨manifest, ?_, ?_⟩
    · rw [ClientSession.sent, agreed_concat]
      exact agrees
    · rw [ClientSession.sent, lastManifest_concat]
      exact own
  · cases taken

theorem ClientSession.control_of_up {s next : ClientSession M} {action : SessionAction M}
    {request : UpRequest} {reply : Reply (Option String)} (taken : s.step action = some next)
    (sent : next.exchanges = s.exchanges ++ [.up request reply]) :
    ∃ handle, s.client = .control handle := by
  obtain ⟨client, exchanges⟩ := s
  simp only [ClientSession.step] at taken
  split at taken
  · rw [← Option.some.inj taken] at sent
    simp [ClientSession.sent] at sent
  · rw [← Option.some.inj taken] at sent
    simp [ClientSession.sent] at sent
  · rw [← Option.some.inj taken] at sent
    simp at sent
  · exact ⟨_, rfl⟩
  · exact ⟨_, rfl⟩
  · cases taken

namespace Workspaces

variable {ι : Type} [DecidableEq ι] [DecidableEq M] {s t : Workspaces ι M}

/-- The client goes on with the configuration of the daemon. -/
def Discards (i : ι) : WorkspacesAction ι M → Prop
  | .client j .discard _ _ => j = i
  | .client _ _ _ _ | .other _ _ => False

instance (i : ι) : DecidablePred (Discards (M := M) i)
  | .client j .discard _ _ => inferInstanceAs (Decidable (j = i))
  | .client _ (.handshake ..) _ _ | .client _ (.commit _) _ _ | .client _ (.recheck ..) _ _
  | .client _ (.up ..) _ _ | .other _ _ => inferInstanceAs (Decidable False)

structure RunsOwn (i : ι) (s : Workspaces ι M) : Prop where
  settled : (s.sessions i).Settled
  executions : ∀ x ∈ s.executions, x.client = i →
    ∃ manifest, x.agreed = some manifest ∧ x.own = some manifest

theorem step_runsOwn {i : ι} {a : WorkspacesAction ι M} (inv : s.Inv) (own : RunsOwn i s)
    (kept : ¬ Discards i a) (taken : s.step a = some t) : RunsOwn i t := by
  have settles {j : ι} {action : SessionAction M} {after : Workspace M} {done : Bool}
      {next : ClientSession M} (same : a = .client j action after done)
      (moved : (s.sessions j).step action = some next) (here : i = j) : next.Settled := by
    subst here
    refine ClientSession.step_settled (inv.session i) own.settled moved ?_
    rintro rfl
    exact kept (same ▸ rfl)
  rcases step_cases taken with ⟨j, action, after, done, next, same, moved, -, rfl⟩ |
    ⟨j, action, after, done, next, e, same, moved, sent, -, -, rfl⟩ | ⟨workspace, after, -, rfl⟩
  · refine ⟨?_, own.executions⟩
    by_cases here : i = j
    · rw [here, setSession_self]
      exact settles same moved here
    · rw [setSession_other here]
      exact own.settled
  · refine ⟨?_, fun x member mine => ?_⟩
    · by_cases here : i = j
      · rw [here, setSession_self]
        exact settles same moved here
      · rw [setSession_other here, answer_sessions]
        exact own.settled
    · rcases answer_executions member with old | ⟨request, reply, rfl, -, rfl⟩
      · exact own.executions x old mine
      · obtain rfl : j = i := mine
        obtain ⟨handle, control⟩ := ClientSession.control_of_up moved sent
        exact own.settled handle control
  · exact ⟨own.settled, own.executions⟩

end Workspaces

open Workspaces

section Runs

variable {ι : Type} [DecidableEq ι] [DecidableEq M] (workspaces : List (String × Workspace M))
  (default : Workspace M) {actions : List (WorkspacesAction ι M)} {s : Workspaces ι M}

theorem reached_inv (reached : run step (start workspaces default) actions = some s) : s.Inv :=
  run_invariant Inv (fun _ _ _ => step_inv) (start_inv workspaces default) reached

/-- Every `up` that is carried out runs the configuration with which the daemon last
told its client a revision, and where the two had agreed on a manifest, that one. -/
theorem up_runs_what_client_saw
    (reached : run step (start workspaces default) actions = some s) :
    ∀ x ∈ s.executions,
      x.manifest = x.seen ∧ ∀ manifest, x.agreed = some manifest → x.manifest = some manifest :=
  (reached_inv workspaces default reached).executions

def contended : List (WorkspacesAction Bool String) :=
  [.client true (.handshake "w" "a" (.ok ⟨3, "r0"⟩)) ⟨"r0", none⟩ false,
    .client false (.handshake "w" "b" (.ok ⟨3, "r0"⟩)) ⟨"r0", none⟩ false,
    .client true (.commit (.error ⟨.unavailable, "reset"⟩)) ⟨"r1", some "a"⟩ true,
    .client false (.commit (.error ⟨.aborted, "revision"⟩)) ⟨"r1", some "a"⟩ false,
    .client true (.commit (.ok ⟨"r1", [], [], []⟩)) ⟨"r1", some "a"⟩ true,
    .client true (.up [] false (.ok (some "t1"))) ⟨"r1", some "a"⟩ true,
    .client false .discard ⟨"r1", some "a"⟩ false,
    .client false (.recheck "b" (.ok ⟨2, "r1"⟩)) ⟨"r1", some "a"⟩ false,
    .client false (.commit (.ok ⟨"r2", [], [], ["db"]⟩)) ⟨"r2", some "b"⟩ true,
    .client true (.up [] false (.error ⟨.aborted, "revision"⟩)) ⟨"r2", some "b"⟩ false,
    .client false (.up ["db"] true (.ok (some "t2"))) ⟨"r2", some "b"⟩ true]

theorem up_runs_what_client_saw_contended :
    ∃ s, run step (start [] ⟨"r0", none⟩) contended = some s ∧
      s.executions.map (·.manifest) = [some "a", some "b"] ∧
      s.executions.map (·.seen) = [some "a", some "b"] := by
  obtain ⟨s, reached, ran⟩ : ∃ s : Workspaces Bool String,
      run step (start [] ⟨"r0", none⟩) contended = some s ∧
        s.executions.map (·.manifest) = [some "a", some "b"] := ⟨_, rfl, rfl⟩
  refine ⟨s, reached, ran, ?_⟩
  rw [← ran, List.map_inj_left]
  exact fun x member => (up_runs_what_client_saw [] ⟨"r0", none⟩ reached x member).1.symm

/-- A commit that is carried out changes nothing, or replaces the configuration with
which the daemon last told its client a revision. -/
theorem commit_replaces_what_client_saw
    (reached : run step (start workspaces default) actions = some s) :
    ∀ x ∈ s.replacements, x.replaced = x.manifest ∨ x.replaced = x.seen :=
  (reached_inv workspaces default reached).replacements

theorem commit_replaces_what_client_saw_contended :
    ∃ s, run step (start [] ⟨"r0", none⟩) contended = some s ∧ s.replacements.length = 3 ∧
      ∀ x ∈ s.replacements, x.replaced = x.manifest ∨ x.replaced = x.seen := by
  obtain ⟨s, reached, count⟩ : ∃ s : Workspaces Bool String,
      run step (start [] ⟨"r0", none⟩) contended = some s ∧ s.replacements.length = 3 :=
    ⟨_, rfl, rfl⟩
  exact ⟨s, reached, count, commit_replaces_what_client_saw [] ⟨"r0", none⟩ reached⟩

/-- A client that never discards its changes runs its own manifest with every `up` that
is carried out for it. -/
theorem up_runs_own_manifest (i : ι)
    (reached : run step (start workspaces default) actions = some s)
    (kept : ∀ a ∈ actions, ¬ Discards i a) :
    ∀ x ∈ s.executions, x.client = i → x.own ≠ none ∧ x.manifest = x.own := by
  have own := run_guarded (fun s : Workspaces ι M => s.Inv ∧ RunsOwn i s)
    (fun _ _ _ h allowed taken => ⟨step_inv h.1 taken, step_runsOwn h.1 h.2 allowed taken⟩)
    ⟨start_inv workspaces default,
      fun handle control => by simp [start, ClientSession.start] at control,
      fun x member => by simp [start] at member⟩
    (guarded_of_forall (fun a member _ => kept a member) _) reached
  intro x member mine
  obtain ⟨manifest, agrees, has⟩ := own.2.executions x member mine
  exact ⟨by simp [has], by rw [has, (own.1.executions x member).2 manifest agrees]⟩

theorem up_runs_own_manifest_contended :
    ∃ s, run step (start [] ⟨"r0", none⟩) contended = some s ∧
      ∀ x ∈ s.executions, x.client = true → x.own ≠ none ∧ x.manifest = x.own := by
  obtain ⟨s, reached⟩ : ∃ s : Workspaces Bool String,
      run step (start [] ⟨"r0", none⟩) contended = some s := ⟨_, rfl⟩
  exact ⟨s, reached, up_runs_own_manifest [] ⟨"r0", none⟩ true reached (by decide)⟩

end Runs

end KnotOps.Facade
