import KnotOps.Grpc.Transport

/-! The way of a connection from the connector to the stream of its server.
Each server is an `IpcIncoming` that has run on its own, whose `accept` takes what clients
have put in its backlog, so what is known of the acceptor is known of each of them. -/

namespace KnotOps.Grpc

open Machine

universe u

namespace Server

variable {C : Type u} [DecidableEq C] {s later : Server C}

structure Sound (s : Server C) : Prop where
  ran : ∃ positive actions, run IpcIncoming.step (.new positive) actions = some s.incoming
  made : s.made = s.incoming.accepted.filterMap Except.toOption ++ s.backlog

theorem Sound.move (h : s.Sound) (moved : s.Move later) : later.Sound := by
  cases moved with
  | connected c => exact ⟨h.ran, by simp [Server.connected, h.made]⟩
  | crashed => exact ⟨h.ran, h.made⟩
  | @advanced a _ taken =>
    obtain ⟨-, incoming, rest, stepped, takes, rfl⟩ := advance_cases taken
    obtain ⟨positive, actions, ran⟩ := h.ran
    refine ⟨⟨positive, actions ++ [a], ?_⟩, ?_⟩
    · rw [run_append, ran]
      simpa [run] using stepped
    · have before := h.made
      cases a with
      | accept connRes =>
        cases connRes with
        | ok c =>
          have waiting : s.backlog = c :: rest := takes
          simp [before, IpcIncoming.accepted_step stepped, IpcIncoming.Action.accepts, waiting,
            Except.toOption]
        | error e =>
          obtain rfl : rest = s.backlog := takes
          simp [before, IpcIncoming.accepted_step stepped, IpcIncoming.Action.accepts,
            Except.toOption]
      | closed | send | poll | drop | aborted =>
        obtain rfl : rest = s.backlog := takes
        simp [before, IpcIncoming.accepted_step stepped, IpcIncoming.Action.accepts]

omit [DecidableEq C] in
theorem Sound.faithful (h : s.Sound) (alive : s.incoming.alive = true) :
    s.incoming.Faithful := by
  obtain ⟨positive, actions, ran⟩ := h.ran
  exact IpcIncoming.faithful_of_run ran alive

theorem run_delivers {actions : List (IpcIncoming.Action C IoError)} {s : Server C}
    {t : IpcIncoming C IoError s.bufferSize} (running : s.crashed = false)
    (deliver : ∀ a ∈ actions, IpcIncoming.Delivers a)
    (ran : run IpcIncoming.step s.incoming actions = some t) :
    run Server.advance s actions = some { s with incoming := t } := by
  induction actions generalizing s with
  | nil =>
    obtain rfl := Option.some.inj ran
    rfl
  | cons a actions ih =>
    obtain ⟨delivers, rest⟩ := List.forall_mem_cons.mp deliver
    obtain ⟨incoming, stepped, later⟩ := run_cons_eq_some.mp ran
    have advanced : s.advance a = some { s with incoming } := by
      obtain rfl | rfl := delivers <;> simp [advance, running, stepped]
    rw [run_cons_eq_some]
    exact ⟨_, advanced, ih (s := { s with incoming }) running rest later⟩

theorem Sound.emptied (sound : s.Sound) (alive : s.incoming.alive = true)
    (running : s.crashed = false) :
    ∃ actions later, run Server.advance s actions = some later ∧ later.Sound ∧
      later.incoming.alive = true ∧ later.crashed = false ∧ later.backlog = s.backlog ∧
      later.made = s.made ∧ later.incoming.task = .select ∧
      later.incoming.yielded = later.incoming.accepted.map mappedRes := by
  obtain ⟨positive, past, before⟩ := sound.ran
  obtain ⟨actions, t, deliver, ran, all⟩ := (sound.faithful alive).drains alive
  have whole : run IpcIncoming.step (.new positive) (past ++ actions) = some t := by
    rw [run_append, before]
    exact ran
  have kept : t.alive = true ∧ t.accepted = s.incoming.accepted := by
    have allowed : Guarded (fun _ => IpcIncoming.Delivers) IpcIncoming.step s.incoming actions :=
      guarded_of_forall (fun a member _ => deliver a member) s.incoming
    refine run_guarded (fun t => t.alive = true ∧ t.accepted = s.incoming.accepted) ?_ ⟨alive, rfl⟩
      allowed ran
    rintro u a v ⟨still, same⟩ delivers taken
    refine ⟨IpcIncoming.delivers_alive delivers taken still, ?_⟩
    have none_accepted : a.accepts = [] := by obtain rfl | rfl := delivers <;> rfl
    rw [IpcIncoming.accepted_step taken, none_accepted, List.append_nil, same]
  have faithful := IpcIncoming.faithful_of_run whole kept.1
  have everything : t.yielded = t.accepted.map mappedRes := by rw [all, kept.2]
  have nothing_held : t.held = [] := by
    have accounted := faithful.accounted
    rw [← everything, List.append_assoc, List.self_eq_append_right] at accounted
    exact (List.append_eq_nil_iff.mp accounted).2
  have ready : t.task = .select := by
    cases task : t.task with
    | select => rfl
    | send item => simp [IpcIncoming.held, task] at nothing_held
    | finished => exact absurd task faithful.running
  exact ⟨actions, { s with incoming := t }, run_delivers running deliver ran,
    ⟨⟨positive, _, whole⟩, by rw [kept.2]; exact sound.made⟩, kept.1, running, rfl, rfl, ready,
    everything⟩

theorem Sound.delivered (sound : s.Sound) (alive : s.incoming.alive = true)
    (running : s.crashed = false) :
    ∃ actions later, run Server.advance s actions = some later ∧
      later.incoming.yielded.filterMap Except.toOption = s.made.map IpcServerStream.mk := by
  induction waiting : s.backlog generalizing s with
  | nil =>
    obtain ⟨actions, later, ran, sound', -, -, backlog, made, -, all⟩ := sound.emptied alive running
    refine ⟨actions, later, ran, ?_⟩
    rw [all, IpcIncoming.filterMap_mappedRes, ← made, sound'.made, backlog, waiting,
      List.append_nil]
  | cons c rest ih =>
    obtain ⟨actions, ready, ran, sound', alive', running', backlog, made, task, -⟩ :=
      sound.emptied alive running
    obtain ⟨incoming, stepped, still⟩ : ∃ incoming,
        ready.incoming.step (.accept (.ok c)) = some incoming ∧ incoming.alive = true := by
      simp only [IpcIncoming.step, task]
      exact ⟨_, rfl, alive'⟩
    have taken : ready.advance (.accept (.ok c)) =
        some { ready with incoming, backlog := rest } := by
      simp [advance, running', backlog, waiting, stepped]
    obtain ⟨more, later, went, all⟩ := ih (sound'.move (.advanced taken)) still running' rfl
    refine ⟨actions ++ .accept (.ok c) :: more, later, ?_, ?_⟩
    · rw [run_append, ran]
      exact run_cons_eq_some.mpr ⟨_, taken, went⟩
    · rw [all, ← made]

end Server

namespace Transport

variable {C : Type u} [DecidableEq C] {p : Platform} {s next : Transport C} {n : Nat}

theorem sound_step (sound : ∀ server ∈ s.servers, server.Sound) (moved : s.Move next) :
    ∀ server ∈ next.servers, server.Sound := by
  intro server member
  cases moved with
  | bound path positive fs =>
    obtain old | new := List.mem_append.mp member
    · exact sound server old
    · obtain rfl := List.mem_singleton.mp new
      exact ⟨⟨positive, [], rfl⟩, rfl⟩
  | server held moved fs =>
    obtain old | rfl := List.mem_or_eq_of_mem_set member
    · exact sound server old
    · exact (sound _ (List.mem_of_getElem? held)).move moved
  | files fs => exact sound server member

theorem run_server {actions : List (IpcIncoming.Action C IoError)} {server later : Server C}
    (held : s.servers[n]? = some server) (ran : run Server.advance server actions = some later) :
    ∃ t, run (step p) s (actions.map (.server n)) = some t ∧ t.servers[n]? = some later := by
  induction actions generalizing s server with
  | nil =>
    obtain rfl := Option.some.inj ran
    exact ⟨s, rfl, held⟩
  | cons a actions ih =>
    obtain ⟨next, taken, rest⟩ := run_cons_eq_some.mp ran
    have inside : n < s.servers.length := (List.getElem?_eq_some_iff.mp held).1
    have advanced : s.advance p n a = some { s.setServer n next with
        fs := if server.Ends a then p.dropListener (.fsName server.path) s.fs else s.fs } := by
      simp [advance, held, taken]
    obtain ⟨t, went, at_end⟩ := ih (s := { s.setServer n next with
      fs := if server.Ends a then p.dropListener (.fsName server.path) s.fs else s.fs })
      (by simp [setServer, inside]) rest
    exact ⟨t, run_cons_eq_some.mpr ⟨_, advanced, went⟩, at_end⟩

/-- The connections that clients have made to a server come out of its stream once, in the
order in which they were made, or still wait; and as long as it runs and is not dropped, its
own steps can bring all of them out. -/
theorem connections_delivered (unix : p.target = .unix) {fs : FileSystem}
    {actions : List (TransportAction C)} {s : Transport C}
    (reached : run (step p) (start fs) actions = some s) {server : Server C}
    (held : s.servers[n]? = some server) (alive : server.incoming.alive = true) :
    server.made.map IpcServerStream.mk =
      (server.incoming.yielded ++ server.incoming.channel.items ++
        server.incoming.held).filterMap Except.toOption ++
        server.backlog.map IpcServerStream.mk ∧
    (server.crashed = false → ∃ (more : List (IpcIncoming.Action C IoError)) (t : Transport C)
      (later : Server C),
      run (step p) s (more.map (.server n)) = some t ∧ t.servers[n]? = some later ∧
        later.incoming.yielded.filterMap Except.toOption = server.made.map IpcServerStream.mk) := by
  have all_sound := run_invariant (fun s : Transport C => ∀ server ∈ s.servers, server.Sound)
    (fun _ _ _ sound taken => sound_step sound (step_move unix taken))
    (by simp [start]) reached
  have sound := all_sound server (List.mem_of_getElem? held)
  constructor
  · rw [← (sound.faithful alive).accounted, IpcIncoming.filterMap_mappedRes, sound.made,
      List.map_append]
  · intro running
    obtain ⟨more, later, ran, all⟩ := sound.delivered alive running
    obtain ⟨t, went, at_end⟩ := run_server (p := p) held ran
    exact ⟨more, t, later, went, at_end, all⟩

def servesFirst : List (TransportAction Nat) :=
  [.bind ⟨none, none, none⟩ [0x61] 64, .call [0x61] 5 none, .call [0x61] 6 none,
    .server 0 (.accept (.ok 5)), .server 0 .send, .server 0 .poll]

theorem connections_delivered_servesFirst :
    ∃ s server, run (step unixPlatform) (start fun _ => none) servesFirst = some s ∧
      s.servers[0]? = some server ∧ server.made = [5, 6] ∧
      ∃ (more : List (IpcIncoming.Action Nat IoError)) (t : Transport Nat) (later : Server Nat),
        run (step unixPlatform) s (more.map (.server 0)) = some t ∧
          t.servers[0]? = some later ∧
          later.incoming.yielded.filterMap Except.toOption =
            server.made.map IpcServerStream.mk := by
  have reached : run (step unixPlatform) (start fun _ => none) servesFirst = some _ := rfl
  exact ⟨_, _, reached, rfl, rfl, (connections_delivered rfl reached rfl rfl).2 rfl⟩

end Transport

end KnotOps.Grpc
