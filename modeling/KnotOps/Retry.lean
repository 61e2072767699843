import Mathlib.Data.List.Basic

/-! Loops that try again for a bounded number of times.
The attempts are numbered, and `again` tells after which of them the loop goes
on if it may.  `Ends` says which attempt is the last one; a loop is shown to
stop there by the rules `Ends.here` and `Ends.later`, one for each branch. -/

namespace KnotOps.Retry

/-- Of the attempts from `start` and before `stop`, `n` is the last one made. -/
structure Ends (again : Nat → Prop) (start stop n : Nat) : Prop where
  started : start ≤ n
  inside : n < stop
  earlier : ∀ k, start ≤ k → k < n → again k
  last : again n → n + 1 = stop

namespace Ends

variable {again : Nat → Prop} {start stop n m : Nat}

theorem here (inside : start < stop) (last : again start → start + 1 = stop) :
    Ends again start stop start :=
  ⟨Nat.le_refl _, inside, fun k from_start before => by omega, last⟩

theorem later (goes_on : again start) (h : Ends again (start + 1) stop n) :
    Ends again start stop n := by
  refine ⟨by have := h.started; omega, h.inside, fun k from_start before => ?_, h.last⟩
  by_cases first : k = start
  · exact first ▸ goes_on
  · exact h.earlier k (by omega) before

theorem unique (h : Ends again start stop n) (h' : Ends again start stop m) : n = m := by
  have stopped {i j : Nat} (hi : Ends again start stop i) (hj : Ends again start stop j) :
      ¬ i < j := fun before => by
    have reached := hi.last (hj.earlier i hi.started before)
    have inside := hj.inside
    omega
  have first := stopped h h'
  have second := stopped h' h
  omega

end Ends

end KnotOps.Retry
