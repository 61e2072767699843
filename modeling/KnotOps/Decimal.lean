import Mathlib.Algebra.Ring.Nat
import Mathlib.Data.List.DropRight

/-! Decimal numbers below a bound, and text with something around it.
The digits are read from the left with a check of the bound at each; a number that is too
large is found out at the digit that makes it so.  `trim` takes what satisfies a predicate
off both ends. -/

namespace KnotOps.Decimal

universe u

def addDigit (bound acc : Nat) (c : Char) : Option Nat :=
  if c.isDigit then
    let n := 10 * acc + (c.toNat - '0'.toNat)
    if n < bound then some n else none
  else none

def read (bound : Nat) (digits : List Char) : Option Nat :=
  digits.foldlM (addDigit bound) 0

theorem addDigit_eq_some {bound acc n : Nat} {c : Char} :
    addDigit bound acc c = some n ↔
      c.isDigit = true ∧ 10 * acc + (c.toNat - '0'.toNat) = n ∧ n < bound := by
  unfold addDigit
  by_cases digit : c.isDigit = true
  · by_cases fits : 10 * acc + (c.toNat - '0'.toNat) < bound
    · simp only [digit, fits, if_true, Option.some.injEq, true_and]
      exact ⟨fun same => ⟨same, same ▸ fits⟩, fun h => h.1⟩
    · simp only [digit, fits, if_true, if_false, true_and]
      refine iff_of_false nofun ?_
      rintro ⟨rfl, inside⟩
      exact fits inside
  · simp [digit]

theorem le_ofDigitChars (digits : List Char) (acc : Nat) :
    acc ≤ Nat.ofDigitChars 10 digits acc := by
  induction digits generalizing acc with
  | nil => simp
  | cons c digits ih =>
    rw [Nat.ofDigitChars_cons]
    exact Nat.le_trans (by omega) (ih _)

theorem foldlM_eq_some {bound acc n : Nat} {digits : List Char} (inside : acc < bound) :
    digits.foldlM (addDigit bound) acc = some n ↔
      (∀ c ∈ digits, c.isDigit = true) ∧ Nat.ofDigitChars 10 digits acc = n ∧ n < bound := by
  induction digits generalizing acc with
  | nil =>
    simp only [List.foldlM_nil, Option.pure_def, Option.some.injEq, List.not_mem_nil,
      false_implies, implies_true, true_and, Nat.ofDigitChars_nil]
    exact ⟨fun same => ⟨same, same ▸ inside⟩, fun h => h.1⟩
  | cons c digits ih =>
    rw [List.foldlM_cons, Option.bind_eq_bind, Option.bind_eq_some_iff, Nat.ofDigitChars_cons,
      List.forall_mem_cons]
    constructor
    · rintro ⟨next, added, later⟩
      obtain ⟨digit, rfl, fits⟩ := addDigit_eq_some.mp added
      obtain ⟨digits, value, small⟩ := (ih fits).mp later
      exact ⟨⟨digit, digits⟩, value, small⟩
    · rintro ⟨⟨digit, digits⟩, value, small⟩
      have fits := Nat.lt_of_le_of_lt (le_ofDigitChars _ _) (value ▸ small)
      exact ⟨_, addDigit_eq_some.mpr ⟨digit, rfl, fits⟩, (ih fits).mpr ⟨digits, value, small⟩⟩

theorem read_eq_some {bound n : Nat} {digits : List Char} (positive : 0 < bound) :
    read bound digits = some n ↔
      (∀ c ∈ digits, c.isDigit = true) ∧ Nat.ofDigitChars 10 digits 0 = n ∧ n < bound :=
  foldlM_eq_some positive

theorem ofDigitChars_lt {digits : List Char} (all : ∀ c ∈ digits, c.isDigit = true) :
    Nat.ofDigitChars 10 digits 0 < 10 ^ digits.length := by
  induction digits with
  | nil => simp
  | cons c digits ih =>
    obtain ⟨digit, all⟩ := List.forall_mem_cons.mp all
    have low := ih all
    have small : c.toNat - '0'.toNat ≤ 9 := by
      have high := (Char.isDigit_iff_toNat.mp digit).2
      simp at high ⊢
      omega
    have shifted := Nat.mul_le_mul_left (10 ^ digits.length) small
    rw [Nat.ofDigitChars_cons, Nat.ofDigitChars_eq_ofDigitChars_zero, List.length_cons,
      Nat.pow_succ]
    simp only [Nat.mul_zero, Nat.zero_add]
    omega

theorem ofDigitChars_front (front : List Char) {back : List Char}
    (all : ∀ c ∈ back, c.isDigit = true) :
    Nat.ofDigitChars 10 front 0 = Nat.ofDigitChars 10 (front ++ back) 0 / 10 ^ back.length := by
  have split : Nat.ofDigitChars 10 back (Nat.ofDigitChars 10 front 0) =
      10 ^ back.length * Nat.ofDigitChars 10 front 0 + Nat.ofDigitChars 10 back 0 :=
    Nat.ofDigitChars_eq_ofDigitChars_zero
  rw [Nat.ofDigitChars_append, split, Nat.mul_add_div (Nat.pow_pos (by decide)),
    Nat.div_eq_of_lt (ofDigitChars_lt all), Nat.add_zero]

section Trim

variable {α : Type u} {p : α → Bool}

def trim (p : α → Bool) (l : List α) : List α := (l.dropWhile p).rdropWhile p

theorem trim_split (p : α → Bool) (l : List α) :
    ∃ lead trail, l = lead ++ (trim p l ++ trail) ∧ (∀ x ∈ lead, p x = true) ∧
      ∀ x ∈ trail, p x = true := by
  refine ⟨l.takeWhile p, (l.dropWhile p).rtakeWhile p, ?_, fun x => List.mem_takeWhile_imp, ?_⟩
  · rw [trim, List.rdropWhile_append_rtakeWhile, List.takeWhile_append_dropWhile]
  · intro x member
    exact List.mem_rtakeWhile_imp member

theorem dropWhile_lead {lead rest : List α} (leads : ∀ x ∈ lead, p x = true)
    (first : ∀ x ∈ rest.head?, p x = false) : (lead ++ rest).dropWhile p = rest := by
  rw [List.dropWhile_append_of_pos leads]
  cases rest with
  | nil => rfl
  | cons x rest => simp [first x rfl]

theorem trim_append {lead text trail : List α} (leads : ∀ x ∈ lead, p x = true)
    (trails : ∀ x ∈ trail, p x = true) (nonempty : text ≠ [])
    (first : ∀ x ∈ text.head?, p x = false) (last : ∀ x ∈ text.getLast?, p x = false) :
    trim p (lead ++ (text ++ trail)) = text := by
  have begins : (text ++ trail).head? = text.head? := List.head?_append_of_ne_nil _ nonempty
  have ends : text.reverse.head? = text.getLast? := List.head?_reverse
  have behind : (trail.reverse ++ text.reverse).dropWhile p = text.reverse :=
    dropWhile_lead (fun x member => trails x (List.mem_reverse.mp member)) (ends ▸ last)
  rw [trim, dropWhile_lead leads (begins ▸ first), List.rdropWhile, List.reverse_append, behind,
    List.reverse_reverse]

end Trim

end KnotOps.Decimal
