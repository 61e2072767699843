import KnotOps.Machine
import Mathlib.Data.Nat.Init

/-! Polling until a deadline.
The loop probes.  Without an answer it reads the clock; at the deadline it gives up,
and before it sleeps for what is left or for an interval, whichever is shorter.  Time
passes at every point of the loop, and what a probe answers is up to whoever runs
it. -/

namespace KnotOps.Poll

open Machine

universe u

variable {ρ : Type u}

inductive Phase (ρ : Type u) where
  | probe
  | clock
  | sleep (duration : Nat)
  | asleep (wake : Nat)
  | answered (answer : ρ)
  | gaveUp
deriving DecidableEq, Repr

inductive Action (ρ : Type u) where
  | tick (duration : Nat)
  | probe (answer : Option ρ)
  | clock
  | sleep
  | wake
deriving DecidableEq, Repr

def Action.own : Action ρ → Bool
  | tick _ => false
  | probe _ | clock | sleep | wake => true

def Action.probes : Action ρ → Bool
  | probe _ => true
  | tick _ | clock | sleep | wake => false

structure Loop (ρ : Type u) where
  now : Nat
  deadline : Nat
  phase : Phase ρ
  /-- How often the loop has slept. -/
  rounds : Nat
deriving DecidableEq, Repr

namespace Loop

def start (now timeout : Nat) : Loop ρ := ⟨now, now + timeout, .probe, 0⟩

def step (interval : Nat) (s : Loop ρ) : Action ρ → Option (Loop ρ)
  | .tick duration => some { s with now := s.now + duration }
  | .probe answer =>
    match s.phase with
    | .probe => some { s with phase := answer.elim .clock .answered }
    | _ => none
  | .clock =>
    match s.phase with
    | .clock =>
      if s.deadline ≤ s.now then some { s with phase := .gaveUp }
      else some { s with phase := .sleep (min (s.deadline - s.now) interval) }
    | _ => none
  | .sleep =>
    match s.phase with
    | .sleep duration => some { s with phase := .asleep (s.now + duration) }
    | _ => none
  | .wake =>
    match s.phase with
    | .asleep wake =>
      if wake ≤ s.now then some { s with phase := .probe, rounds := s.rounds + 1 } else none
    | _ => none

/-- The steps that the loop has made. -/
def spent (s : Loop ρ) : Nat :=
  4 * s.rounds + match s.phase with
    | .probe => 0
    | .clock | .answered _ => 1
    | .sleep _ | .gaveUp => 2
    | .asleep _ => 3

def probed (s : Loop ρ) : Nat :=
  s.rounds + match s.phase with
    | .probe => 0
    | .clock | .sleep _ | .asleep _ | .answered _ | .gaveUp => 1

def Returned (s : Loop ρ) : Prop :=
  match s.phase with
  | .answered _ | .gaveUp => True
  | .probe | .clock | .sleep _ | .asleep _ => False

/-- A round takes an interval, unless the deadline comes first. -/
def OnTime (start interval : Nat) (s : Loop ρ) : Prop :=
  match s.phase with
  | .probe | .clock => min (start + s.rounds * interval) s.deadline ≤ s.now
  | .sleep duration =>
    start + s.rounds * interval < s.deadline ∧ duration ≤ interval ∧
      min (start + (s.rounds + 1) * interval) s.deadline ≤ s.now + duration
  | .asleep wake =>
    start + s.rounds * interval < s.deadline ∧ wake ≤ s.now + interval ∧
      min (start + (s.rounds + 1) * interval) s.deadline ≤ wake
  | .answered _ => True
  | .gaveUp => s.deadline ≤ s.now

structure Timed (start timeout interval : Nat) (s : Loop ρ) : Prop where
  deadline : s.deadline = start + timeout
  rounds : s.rounds * interval < timeout + interval
  onTime : s.OnTime start interval

variable {interval begun timeout : Nat} {s t : Loop ρ}

theorem start_timed (positive : 0 < interval) (now timeout : Nat) :
    (start now timeout : Loop ρ).Timed now timeout interval where
  deadline := rfl
  rounds := by simp only [start]; omega
  onTime := by simp [OnTime, start]

theorem step_cases {a : Action ρ} (taken : s.step interval a = some t) :
    (∃ duration, a = .tick duration ∧ t = { s with now := s.now + duration }) ∨
      (∃ answer, a = .probe answer ∧ s.phase = .probe ∧
        t = { s with phase := answer.elim .clock .answered }) ∨
      (a = .clock ∧ s.phase = .clock ∧ s.deadline ≤ s.now ∧ t = { s with phase := .gaveUp }) ∨
      (a = .clock ∧ s.phase = .clock ∧ s.now < s.deadline ∧
        t = { s with phase := .sleep (min (s.deadline - s.now) interval) }) ∨
      (∃ duration, a = .sleep ∧ s.phase = .sleep duration ∧
        t = { s with phase := .asleep (s.now + duration) }) ∨
      (∃ wake, a = .wake ∧ s.phase = .asleep wake ∧ wake ≤ s.now ∧
        t = { s with phase := .probe, rounds := s.rounds + 1 }) := by
  cases a with
  | tick duration => exact .inl ⟨duration, rfl, (Option.some.inj taken).symm⟩
  | probe answer =>
    simp only [step] at taken
    split at taken
    · next phase => exact .inr (.inl ⟨answer, rfl, phase, (Option.some.inj taken).symm⟩)
    · cases taken
  | clock =>
    simp only [step] at taken
    split at taken
    · next phase =>
      split_ifs at taken with expired
      · exact .inr (.inr (.inl ⟨rfl, phase, expired, (Option.some.inj taken).symm⟩))
      · exact .inr (.inr (.inr (.inl ⟨rfl, phase, Nat.lt_of_not_le expired,
          (Option.some.inj taken).symm⟩)))
    · cases taken
  | sleep =>
    simp only [step] at taken
    split at taken
    · next duration phase =>
      exact .inr (.inr (.inr (.inr (.inl ⟨duration, rfl, phase, (Option.some.inj taken).symm⟩))))
    · cases taken
  | wake =>
    simp only [step] at taken
    split at taken
    · next wake phase =>
      split_ifs at taken with awake
      exact .inr (.inr (.inr (.inr (.inr ⟨wake, rfl, phase, awake,
        (Option.some.inj taken).symm⟩))))
    · cases taken

theorem Timed.step {a : Action ρ} (h : s.Timed begun timeout interval)
    (taken : s.step interval a = some t) : t.Timed begun timeout interval := by
  obtain ⟨deadline, rounds, onTime⟩ := h
  have next : (s.rounds + 1) * interval = s.rounds * interval + interval := Nat.succ_mul ..
  obtain ⟨d, rfl, rfl⟩ | ⟨answer, rfl, phase, rfl⟩ | ⟨rfl, phase, expired, rfl⟩ |
    ⟨rfl, phase, before, rfl⟩ | ⟨d, rfl, phase, rfl⟩ | ⟨w, rfl, phase, awake, rfl⟩ :=
    step_cases taken
  · refine ⟨deadline, rounds, ?_⟩
    unfold OnTime at onTime ⊢
    cases phase : s.phase <;> simp only [phase] at onTime ⊢ <;> omega
  · refine ⟨deadline, rounds, ?_⟩
    simp only [OnTime, phase] at onTime
    cases answer with
    | none => exact onTime
    | some answer => trivial
  · exact ⟨deadline, rounds, expired⟩
  · refine ⟨deadline, rounds, ?_⟩
    simp only [OnTime, phase] at onTime ⊢
    omega
  · refine ⟨deadline, rounds, ?_⟩
    simp only [OnTime, phase] at onTime ⊢
    omega
  · simp only [OnTime, phase] at onTime
    exact ⟨deadline, by simp only; omega, by simp only [OnTime]; omega⟩

theorem step_spent {a : Action ρ} (taken : s.step interval a = some t) :
    t.spent = s.spent + if a.own then 1 else 0 := by
  obtain ⟨d, rfl, rfl⟩ | ⟨answer, rfl, phase, rfl⟩ | ⟨rfl, phase, -, rfl⟩ | ⟨rfl, phase, -, rfl⟩ |
    ⟨d, rfl, phase, rfl⟩ | ⟨w, rfl, phase, -, rfl⟩ := step_cases taken
  · rfl
  · cases answer <;> simp [spent, phase, Action.own]
  · simp [spent, phase, Action.own]
  · simp [spent, phase, Action.own]
  · simp [spent, phase, Action.own]
  · simp [spent, phase, Action.own]
    omega

theorem step_probed {a : Action ρ} (taken : s.step interval a = some t) :
    t.probed = s.probed + if a.probes then 1 else 0 := by
  obtain ⟨d, rfl, rfl⟩ | ⟨answer, rfl, phase, rfl⟩ | ⟨rfl, phase, -, rfl⟩ | ⟨rfl, phase, -, rfl⟩ |
    ⟨d, rfl, phase, rfl⟩ | ⟨w, rfl, phase, -, rfl⟩ := step_cases taken
  · rfl
  · cases answer <;> simp [probed, phase, Action.probes]
  · simp [probed, phase, Action.probes]
  · simp [probed, phase, Action.probes]
  · simp [probed, phase, Action.probes]
  · simp [probed, phase, Action.probes]

theorem Timed.rounds_le (h : s.Timed begun timeout interval) (positive : 0 < interval) :
    s.rounds ≤ (timeout + interval - 1) / interval := by
  rw [Nat.le_div_iff_mul_le positive]
  have := h.rounds
  omega

theorem Timed.spent_le (h : s.Timed begun timeout interval) (positive : 0 < interval) :
    s.spent ≤ 4 * ((timeout + interval - 1) / interval) + 2 := by
  have rounds := h.rounds_le positive
  have onTime := h.onTime
  have deadline := h.deadline
  -- a loop that is asleep has a round before it
  have asleep (early : begun + s.rounds * interval < s.deadline) :
      s.rounds + 1 ≤ (timeout + interval - 1) / interval := by
    rw [Nat.le_div_iff_mul_le positive, Nat.succ_mul]
    omega
  unfold spent
  unfold OnTime at onTime
  cases phase : s.phase with
  | probe | clock | answered | gaveUp | sleep =>
    simp only
    omega
  | asleep wake =>
    simp only [phase] at onTime ⊢
    have := asleep onTime.1
    omega

theorem run_bounded (positive : 0 < interval) {now : Nat} {actions : List (Action ρ)}
    (reached : run (step interval) (start now timeout) actions = some s) :
    actions.countP Action.own ≤ 4 * ((timeout + interval - 1) / interval) + 2 ∧
      actions.countP Action.probes ≤ (timeout + interval - 1) / interval + 1 := by
  have timed := run_invariant (Timed now timeout interval) (fun _ _ _ h taken => h.step taken)
    (start_timed positive now timeout) reached
  have spent := run_countP (fun _ _ _ taken => step_spent taken) reached
  have probed := run_countP (fun _ _ _ taken => step_probed taken) reached
  have most := timed.spent_le positive
  have rounds := timed.rounds_le positive
  simp only [Loop.spent, Loop.probed, start] at spent probed most
  refine ⟨by omega, ?_⟩
  cases phase : s.phase <;> simp only [phase] at probed <;> omega

theorem goes_on (h : s.Timed begun timeout interval) (unreturned : ¬ s.Returned)
    (answer : Option ρ) :
    ∃ wait ≤ interval, ∃ a : Action ρ, a.own = true ∧ (∀ b, a = .probe b → b = answer) ∧
      (run (step interval) s [.tick wait, a]).isSome := by
  have onTime := h.onTime
  unfold OnTime at onTime
  cases phase : s.phase with
  | probe => exact ⟨0, Nat.zero_le _, .probe answer, rfl, by simp, by simp [run, step, phase]⟩
  | clock =>
    refine ⟨0, Nat.zero_le _, .clock, rfl, by simp, ?_⟩
    by_cases expired : s.deadline ≤ s.now <;> simp [run, step, phase, expired]
  | sleep duration => exact ⟨0, Nat.zero_le _, .sleep, rfl, by simp, by simp [run, step, phase]⟩
  | asleep wake =>
    simp only [phase] at onTime
    have awake : wake ≤ s.now + (wake - s.now) := by omega
    exact ⟨wake - s.now, by omega, .wake, rfl, by simp, by simp [run, step, phase, awake]⟩
  | answered | gaveUp => simp [Returned, phase] at unreturned

end Loop

end KnotOps.Poll
