import KnotOps.Decimal
import KnotOps.Text

/-! The PID in the lock file, as `ClientBuilder::read_as_u32` reads it.
The content is none when the file cannot be read or is not UTF-8.  A daemon writes its
PID in decimal; what a client accepts is more than that, and it cannot tell a lock file
that is cut off from one that is not. -/

namespace KnotOps.Facade

open Decimal
open Text (isWhitespace)

/-- `u32::from_str`: a sign may be `+`, and may not be all there is. -/
def parseU32 : List Char → Option Nat
  | [] | ['+'] | ['-'] => none
  | '+' :: digits => read (2 ^ 32) digits
  | digits => read (2 ^ 32) digits

def readAsU32 (content : Option String) : Option Nat :=
  content.bind fun content => parseU32 (trim isWhitespace content.toList)

/-- The texts that a PID is read from. -/
inductive LockText (pid : Nat) : List Char → Prop
  | mk {lead sign digits trail : List Char} (leads : ∀ c ∈ lead, isWhitespace c = true)
      (signed : sign = [] ∨ sign = ['+']) (nonempty : digits ≠ [])
      (all : ∀ c ∈ digits, c.isDigit = true) (value : Nat.ofDigitChars 10 digits 0 = pid)
      (fits : pid < 2 ^ 32) (trails : ∀ c ∈ trail, isWhitespace c = true) :
      LockText pid (lead ++ ((sign ++ digits) ++ trail))

theorem isWhitespace_of_isDigit {c : Char} (digit : c.isDigit = true) : isWhitespace c = false := by
  obtain ⟨low, high⟩ := Char.isDigit_iff_toNat.mp digit
  simp only [isWhitespace, Bool.or_eq_false_iff, Bool.and_eq_false_imp, decide_eq_false_iff_not,
    decide_eq_true_eq]
  simp at low high
  omega

theorem parseU32_eq_some {src : List Char} {pid : Nat} :
    parseU32 src = some pid ↔ ∃ sign digits, src = sign ++ digits ∧ (sign = [] ∨ sign = ['+']) ∧
      digits ≠ [] ∧ read (2 ^ 32) digits = some pid := by
  constructor
  · intro parsed
    unfold parseU32 at parsed
    split at parsed
    · cases parsed
    · cases parsed
    · cases parsed
    · next digits nonempty => exact ⟨['+'], digits, rfl, .inr rfl, nonempty, parsed⟩
    · next nonempty _ _ _ => exact ⟨[], src, rfl, .inl rfl, nonempty, parsed⟩
  · rintro ⟨sign, digits, rfl, signed, nonempty, found⟩
    obtain ⟨c, rest, rfl⟩ := List.exists_cons_of_ne_nil nonempty
    have digit := ((read_eq_some (by decide)).mp found).1 c List.mem_cons_self
    rcases signed with rfl | rfl
    · have plus : c ≠ '+' := by
        rintro rfl
        cases digit
      have minus : c ≠ '-' := by
        rintro rfl
        cases digit
      simpa [parseU32, plus, minus] using found
    · simpa [parseU32] using found

theorem unspaced {sign digits : List Char} (signed : sign = [] ∨ sign = ['+'])
    (nonempty : digits ≠ []) (all : ∀ c ∈ digits, c.isDigit = true) :
    (∀ c ∈ (sign ++ digits).head?, isWhitespace c = false) ∧
      ∀ c ∈ (sign ++ digits).getLast?, isWhitespace c = false := by
  constructor
  · intro c first
    rcases signed with rfl | rfl
    · exact isWhitespace_of_isDigit (all c (List.mem_of_mem_head? first))
    · obtain rfl : '+' = c := Option.some.inj first
      decide
  · intro c last
    rw [List.getLast?_append_of_ne_nil _ nonempty] at last
    exact isWhitespace_of_isDigit (all c (List.mem_of_mem_getLast? last))

theorem LockText.of_read {content : String} {pid : Nat}
    (found : readAsU32 (some content) = some pid) : LockText pid content.toList := by
  rw [readAsU32, Option.bind_some, parseU32_eq_some] at found
  obtain ⟨sign, digits, text, signed, nonempty, found⟩ := found
  obtain ⟨all, value, fits⟩ := (read_eq_some (by decide)).mp found
  obtain ⟨lead, trail, split, leads, trails⟩ := trim_split isWhitespace content.toList
  rw [split, text]
  exact .mk leads signed nonempty all value fits trails

theorem LockText.read {content : String} {pid : Nat} (accepted : LockText pid content.toList) :
    readAsU32 (some content) = some pid := by
  rw [readAsU32, Option.bind_some, parseU32_eq_some]
  generalize content.toList = text at accepted
  cases accepted with
  | @mk lead sign digits trail leads signed nonempty all value fits trails =>
    obtain ⟨first, last⟩ := unspaced signed nonempty all
    rw [trim_append leads trails (by simp [nonempty]) first last]
    exact ⟨sign, digits, rfl, signed, nonempty, (read_eq_some (by decide)).mpr ⟨all, value, fits⟩⟩

/-- A lock file is accepted exactly when it holds decimal digits of a number below 2^32,
after a plus sign or none, and whitespace around them. -/
theorem readAsU32_eq_some_iff {content : String} {pid : Nat} :
    readAsU32 (some content) = some pid ↔ LockText pid content.toList :=
  ⟨LockText.of_read, LockText.read⟩

/-- What the daemon writes is read as its PID, and cut off after any digit it is read as a
smaller one: the PID without the digits that are lost. -/
theorem read_cut_off {pid : Nat} (fits : pid < 2 ^ 32) {front back : List Char}
    (cut : front ++ back = Nat.toDigits 10 pid) (nonempty : front ≠ []) :
    readAsU32 (some (String.ofList front)) = some (pid / 10 ^ back.length) ∧
      (back ≠ [] → pid / 10 ^ back.length < pid) := by
  have all : ∀ c ∈ front ++ back, c.isDigit = true := fun c member =>
    Nat.isDigit_of_mem_toDigits (by decide) (by decide) (cut ▸ member)
  have value := ofDigitChars_front front fun c member => all c (List.mem_append_right _ member)
  rw [cut, Nat.ofDigitChars_ten_toDigits] at value
  constructor
  · apply LockText.read
    have text : (String.ofList front).toList = [] ++ (([] ++ front) ++ []) := by simp
    rw [text]
    exact .mk nofun (.inl rfl) nonempty (fun c member => all c (List.mem_append_left _ member))
      value (Nat.lt_of_le_of_lt (Nat.div_le_self ..) fits) nofun
  · intro lost
    have positive : 0 < pid := by
      refine Nat.pos_of_ne_zero fun zero => ?_
      have one := congrArg List.length cut
      rw [zero, Nat.toDigits_zero, List.length_append] at one
      have := List.length_pos_iff.mpr nonempty
      have := List.length_pos_iff.mpr lost
      simp only [List.length_singleton] at one
      omega
    exact Nat.div_lt_self positive (Nat.one_lt_pow (by simpa using lost) (by decide))

theorem read_cut_off_1234 :
    readAsU32 (some (String.ofList ['1', '2'])) = some (1234 / 10 ^ 2) ∧ 1234 / 10 ^ 2 < 1234 := by
  obtain ⟨found, smaller⟩ :=
    @read_cut_off 1234 (by decide) ['1', '2'] ['3', '4'] (by decide) (by decide)
  exact ⟨found, smaller (by decide)⟩

end KnotOps.Facade
