import KnotOps.Channel
import KnotOps.Machine

/-! `IpcIncoming` after its `bind`: the acceptor task and the stream.
The task selects between the closure of the channel and the next `accept`, and
sends what was accepted outside the select.  A connection or an error that an
`accept` gives is data of the run; a select that drops a pending `accept` loses
nothing of it.  What was accepted and what the polls gave is kept. -/

namespace KnotOps.Grpc

open Machine

universe u v

variable {C : Type u} {E : Type v} {bufferSize : Nat}

structure IpcServerStream (C : Type u) where
  inner : C
deriving DecidableEq, Repr

abbrev Item (C : Type u) (E : Type v) := Except E (IpcServerStream C)

/-- `conn_res.map(IpcServerStream::new)`. -/
def mappedRes (connRes : Except E C) : Item C E := connRes.map IpcServerStream.mk

inductive Poll (α : Type u) where
  | ready (value : α)
  | pending
deriving DecidableEq, Repr

inductive AcceptorTask (C : Type u) (E : Type v) where
  | select
  | send (item : Item C E)
  | finished

structure IpcIncoming (C : Type u) (E : Type v) (bufferSize : Nat) where
  channel : Channel (Item C E) bufferSize
  task : AcceptorTask C E
  /-- The receiver has not been dropped. -/
  alive : Bool
  /-- The results of `accept` so far. -/
  accepted : List (Except E C)
  /-- The results of `poll_next` so far. -/
  polls : List (Poll (Option (Item C E)))

def Poll.item? {α : Type u} : Poll (Option α) → Option α
  | ready value => value
  | pending => none

namespace IpcIncoming

def new (positive : 0 < bufferSize) : IpcIncoming C E bufferSize :=
  ⟨.empty positive, .select, true, [], []⟩

def yielded (s : IpcIncoming C E bufferSize) : List (Item C E) := s.polls.filterMap Poll.item?

/-- What the task holds between an `accept` and the end of its send. -/
def held (s : IpcIncoming C E bufferSize) : List (Item C E) :=
  match s.task with
  | .send item => [item]
  | .select | .finished => []

def pollNext (s : IpcIncoming C E bufferSize) :
    Poll (Option (Item C E)) × Channel (Item C E) bufferSize :=
  match s.channel.recv with
  | some (item, channel) => (.ready (some item), channel)
  | none =>
    match s.task with
    | .finished => (.ready none, s.channel)
    | .select | .send _ => (.pending, s.channel)

inductive Action (C : Type u) (E : Type v) where
  /-- The select takes the branch of `accept`. -/
  | accept (connRes : Except E C)
  /-- The select takes the branch of `closed`. -/
  | closed
  /-- The send ends. -/
  | send
  | poll
  | drop
  /-- The task is stopped where it waits. -/
  | aborted

def step (s : IpcIncoming C E bufferSize) : Action C E → Option (IpcIncoming C E bufferSize)
  | .accept connRes =>
    match s.task with
    | .select =>
      some { s with task := .send (mappedRes connRes), accepted := s.accepted ++ [connRes] }
    | .send _ | .finished => none
  | .closed =>
    match s.task with
    | .select => if s.alive then none else some { s with task := .finished }
    | .send _ | .finished => none
  | .send =>
    match s.task with
    | .send item =>
      -- without a receiver the send fails, which breaks the loop
      if s.alive then (s.channel.send item).map fun channel => { s with channel, task := .select }
      else some { s with task := .finished }
    | .select | .finished => none
  | .poll =>
    if s.alive then
      some { s with channel := s.pollNext.2, polls := s.polls ++ [s.pollNext.1] }
    else none
  | .drop =>
    if s.alive then some { s with alive := false, channel := .empty s.channel.positive } else none
  | .aborted => if s.alive then none else some { s with task := .finished }

structure Faithful (s : IpcIncoming C E bufferSize) : Prop where
  accounted : s.accepted.map mappedRes = s.yielded ++ s.channel.items ++ s.held
  running : s.task ≠ .finished
  endless : .ready none ∉ s.polls

theorem new_faithful (positive : 0 < bufferSize) :
    Faithful (new positive : IpcIncoming C E bufferSize) where
  accounted := rfl
  running := by simp [new]
  endless := List.not_mem_nil

variable {s t : IpcIncoming C E bufferSize}

theorem Faithful.accept (h : Faithful s) {connRes : Except E C}
    (taken : s.step (.accept connRes) = some t) : Faithful t := by
  cases task : s.task with
  | select =>
    simp only [step, task, Option.some.injEq] at taken
    subst taken
    have before := h.accounted
    simp only [held, task, List.append_nil] at before
    refine ⟨?_, by simp, h.endless⟩
    rw [List.map_append, before]
    rfl
  | send item => simp [step, task] at taken
  | finished => exact absurd task h.running

theorem Faithful.send (h : Faithful s) (alive : s.alive = true)
    (taken : s.step .send = some t) : Faithful t := by
  cases task : s.task with
  | send item =>
    simp only [step, task, alive, if_true, Option.map_eq_some_iff] at taken
    obtain ⟨channel, sent, rfl⟩ := taken
    have before := h.accounted
    simp only [held, task] at before
    refine ⟨?_, by simp, h.endless⟩
    simp only [held, yielded, Channel.send_items sent, List.append_nil]
    rw [before, List.append_assoc]
    rfl
  | select => simp [step, task] at taken
  | finished => exact absurd task h.running

theorem Faithful.poll (h : Faithful s) (alive : s.alive = true)
    (taken : s.step .poll = some t) : Faithful t := by
  simp only [step, alive, if_true, Option.some.injEq] at taken
  subst taken
  cases received : s.channel.recv with
  | some found =>
    obtain ⟨item, channel⟩ := found
    have polled : s.pollNext = (.ready (some item), channel) := by rw [pollNext, received]
    have before := h.accounted
    rw [Channel.recv_items received] at before
    simp only [polled]
    refine ⟨?_, h.running, by simpa using h.endless⟩
    simp only [yielded, held, List.filterMap_append] at before ⊢
    rw [before]
    simp [Poll.item?]
  | none =>
    have polled : s.pollNext = (.pending, s.channel) := by
      rw [pollNext, received]
      cases task : s.task with
      | finished => exact absurd task h.running
      | select | send item => rfl
    simp only [polled]
    refine ⟨?_, h.running, by simpa using h.endless⟩
    have before := h.accounted
    simp only [yielded, held, List.filterMap_append] at before ⊢
    rw [before]
    simp [Poll.item?]

theorem alive_of_step {a : Action C E} (taken : s.step a = some t) (alive : t.alive = true) :
    s.alive = true := by
  cases dead : s.alive with
  | true => rfl
  | false =>
    cases a <;> cases task : s.task <;> simp [step, task, dead] at taken <;> subst taken <;>
      simp at alive

theorem Faithful.step (h : Faithful s) (alive : s.alive = true) {a : Action C E}
    (taken : s.step a = some t) (still : t.alive = true) : Faithful t := by
  cases a with
  | accept connRes => exact h.accept taken
  | send => exact h.send alive taken
  | poll => exact h.poll alive taken
  | closed => cases task : s.task <;> simp [IpcIncoming.step, task, alive] at taken
  | aborted => simp [IpcIncoming.step, alive] at taken
  | drop =>
    simp only [IpcIncoming.step, alive, if_true, Option.some.injEq] at taken
    subst taken
    cases still

theorem faithful_of_run {positive : 0 < bufferSize} {actions : List (Action C E)}
    (reached : run step (new positive) actions = some s) (alive : s.alive = true) : Faithful s :=
  run_invariant (fun s => s.alive = true → Faithful s)
    (fun _ _ _ before taken still =>
      have alive := alive_of_step taken still
      (before alive).step alive taken still)
    (fun _ => new_faithful positive) reached alive

theorem Faithful.yielded_isPrefix (h : Faithful s) : s.yielded <+: s.accepted.map mappedRes := by
  rw [h.accounted, List.append_assoc]
  exact List.prefix_append _ _

theorem Faithful.undelivered (h : Faithful s) :
    s.accepted.length ≤ s.yielded.length + (bufferSize + 1) := by
  have lengths := congrArg List.length h.accounted
  have bounded := s.channel.bounded
  have one : s.held.length ≤ 1 := by
    rw [held]
    split <;> simp
  simp only [List.length_map, List.length_append] at lengths
  omega

def Delivers (a : Action C E) : Prop := a = .send ∨ a = .poll

theorem Faithful.drains (h : Faithful s) (alive : s.alive = true) :
    ∃ actions t, (∀ a ∈ actions, Delivers a) ∧ Machine.run IpcIncoming.step s actions = some t ∧
      t.yielded = s.accepted.map mappedRes := by
  induction measured : 2 * s.held.length + s.channel.items.length
    using Nat.strongRecOn generalizing s with
  | ind n ih =>
    -- a step that delivers, and the rest from the induction
    have after {a : Action C E} {t : IpcIncoming C E bufferSize} (delivers : Delivers a)
        (taken : s.step a = some t) (still : t.alive = true) (same : t.accepted = s.accepted)
        (less : 2 * t.held.length + t.channel.items.length < n) :
        ∃ actions t, (∀ a ∈ actions, Delivers a) ∧
          Machine.run IpcIncoming.step s actions = some t ∧
          t.yielded = s.accepted.map mappedRes := by
      obtain ⟨actions, last, deliver, reached, all⟩ :=
        ih _ less (h.step alive taken still) still rfl
      exact ⟨a :: actions, last, List.forall_mem_cons.mpr ⟨delivers, deliver⟩,
        run_cons_eq_some.mpr ⟨t, taken, reached⟩, same ▸ all⟩
    by_cases queued : s.channel.items = []
    · cases task : s.task with
      | select =>
        refine ⟨[], s, by simp, rfl, ?_⟩
        rw [h.accounted, queued]
        simp [held, task]
      | send item =>
        obtain ⟨channel, sent⟩ := s.channel.send_of_room
          (by simpa [queued] using s.channel.positive) item
        refine after (t := { s with channel, task := .select }) (.inl rfl) ?_ alive rfl ?_
        · simp [IpcIncoming.step, task, alive, sent]
        · rw [← measured]
          simp [held, task, Channel.send_items sent, queued]
      | finished => exact absurd task h.running
    · obtain ⟨item, channel, received⟩ := Channel.recv_of_items queued
      have polled : s.pollNext = (.ready (some item), channel) := by rw [pollNext, received]
      refine after (t := { s with channel, polls := s.polls ++ [.ready (some item)] }) (.inr rfl)
        ?_ alive rfl ?_
      · simp [IpcIncoming.step, alive, polled]
      · rw [← measured, Channel.recv_items received]
        simp [held]

theorem finished_step {a : Action C E} (ended : s.task = .finished) (taken : s.step a = some t) :
    t.task = .finished := by
  cases a with
  | accept | closed | send => simp [step, ended] at taken
  | poll | drop =>
    simp only [step] at taken
    split_ifs at taken
    rw [← Option.some.inj taken]
    exact ended
  | aborted =>
    simp only [step] at taken
    split_ifs at taken
    rw [← Option.some.inj taken]

def Action.accepts : Action C E → List (Except E C)
  | .accept connRes => [connRes]
  | .closed | .send | .poll | .drop | .aborted => []

theorem accepted_step {a : Action C E} (taken : s.step a = some t) :
    t.accepted = s.accepted ++ a.accepts := by
  cases a with
  | accept connRes =>
    simp only [step] at taken
    split at taken
    · rw [← Option.some.inj taken]
      rfl
    · cases taken
    · cases taken
  | closed =>
    simp only [step] at taken
    split at taken
    · split_ifs at taken
      rw [← Option.some.inj taken]
      exact (List.append_nil _).symm
    · cases taken
    · cases taken
  | send =>
    simp only [step] at taken
    split at taken
    · split_ifs at taken
      · obtain ⟨channel, -, rfl⟩ := Option.map_eq_some_iff.mp taken
        exact (List.append_nil _).symm
      · rw [← Option.some.inj taken]
        exact (List.append_nil _).symm
    · cases taken
    · cases taken
  | poll | drop | aborted =>
    simp only [step] at taken
    split_ifs at taken
    rw [← Option.some.inj taken]
    exact (List.append_nil _).symm

theorem delivers_alive {a : Action C E} (delivers : Delivers a)
    (taken : s.step a = some t) (alive : s.alive = true) : t.alive = true := by
  obtain rfl | rfl := delivers
  · simp only [step] at taken
    split at taken
    · rw [if_pos alive] at taken
      obtain ⟨channel, -, rfl⟩ := Option.map_eq_some_iff.mp taken
      exact alive
    · cases taken
    · cases taken
  · simp only [step, if_pos alive] at taken
    rw [← Option.some.inj taken]
    exact alive

theorem filterMap_mappedRes (results : List (Except E C)) :
    (results.map mappedRes).filterMap Except.toOption =
      (results.filterMap Except.toOption).map IpcServerStream.mk := by
  rw [List.filterMap_map, List.map_filterMap]
  congr 1
  funext result
  cases result <;> rfl

/-- In every state of every run in which the `IpcIncoming` has not been dropped. -/
theorem acceptor_loses_nothing (positive : 0 < bufferSize) {actions : List (Action C E)}
    {s : IpcIncoming C E bufferSize} (reached : run step (new positive) actions = some s)
    (alive : s.alive = true) :
    s.yielded <+: s.accepted.map mappedRes ∧
    s.accepted.length ≤ s.yielded.length + (bufferSize + 1) ∧
    .ready none ∉ s.polls ∧ s.task ≠ .finished ∧
    ∃ more t, (∀ a ∈ more, Delivers a) ∧ run step s more = some t ∧
      t.yielded = s.accepted.map mappedRes :=
  have faithful := faithful_of_run reached alive
  ⟨faithful.yielded_isPrefix, faithful.undelivered, faithful.endless, faithful.running,
    faithful.drains alive⟩

def betweenConnections : List (Action Nat String) :=
  [.accept (.ok 1), .send, .accept (.error "EMFILE"), .poll, .send, .accept (.ok 2), .poll]

theorem acceptor_loses_nothing_error :
    ∃ s : IpcIncoming Nat String 1,
      run step (new Nat.zero_lt_one) betweenConnections = some s ∧
      s.yielded = [.ok ⟨1⟩, .error "EMFILE"] ∧ s.accepted.length ≤ s.yielded.length + 2 := by
  refine ⟨⟨⟨[], Nat.zero_lt_one, Nat.zero_le 1⟩, .send (.ok ⟨2⟩), true,
    [.ok 1, .error "EMFILE", .ok 2],
    [.ready (some (.ok ⟨1⟩)), .ready (some (.error "EMFILE"))]⟩, rfl, rfl, ?_⟩
  have reached : run step (new Nat.zero_lt_one : IpcIncoming Nat String 1) betweenConnections =
      some _ := rfl
  exact (acceptor_loses_nothing Nat.zero_lt_one reached rfl).2.1

end IpcIncoming

end KnotOps.Grpc
