import KnotOps.Utf8
import KnotOps.Sys.Process

/-! `process_names_match` on Windows.
A name is normalised by its bytes: the last four are split off and compared with
the suffix.  `SameName` is what the comparison is for, and is in characters. -/

namespace KnotOps.Sys

open Utf8

namespace Windows

def suffix : String := ".exe"

/-- `none` is the panic of `split_at`. -/
def normalizeProcessName (name : String) : Option String :=
  if byteLength name.toList ≤ byteLength suffix.toList then some name
  else
    (splitAt (byteLength name.toList - byteLength suffix.toList) name.toList).map
      fun (base, tail) =>
        if eqIgnoreAsciiCase (String.ofList tail) suffix then String.ofList base else name

def processNamesMatch (actual expected : String) : Option Bool := do
  let actual ← normalizeProcessName actual
  let expected ← normalizeProcessName expected
  some (eqIgnoreAsciiCase actual expected)

def dropSuffix (name : String) : String :=
  let start := name.toList.length - suffix.toList.length
  if 0 < start ∧ eqIgnoreAsciiCase (String.ofList (name.toList.drop start)) suffix then
    String.ofList (name.toList.take start)
  else name

/-- The names are equal up to case after the suffix is dropped. -/
def SameName (a b : String) : Prop :=
  eqIgnoreAsciiCase (dropSuffix a) (dropSuffix b) = true

instance (a b : String) : Decidable (SameName a b) := inferInstanceAs (Decidable (_ = _))

theorem sameName_equivalence : Equivalence SameName where
  refl a := by simp [SameName, eqIgnoreAsciiCase]
  symm h := by
    simp only [SameName, eqIgnoreAsciiCase, decide_eq_true_eq] at h ⊢
    exact h.symm
  trans h h' := by
    simp only [SameName, eqIgnoreAsciiCase, decide_eq_true_eq] at h h' ⊢
    exact h.trans h'

/-- The name has no more bytes than the suffix, or a character begins as many bytes
before its end. -/
def Splits (name : String) : Prop :=
  byteLength name.toList ≤ byteLength suffix.toList ∨
    ∃ base tail, base ++ tail = name.toList ∧ byteLength tail = byteLength suffix.toList

theorem eqIgnoreAsciiCase_byteLength {a b : String} (same : eqIgnoreAsciiCase a b = true) :
    byteLength a.toList = byteLength b.toList := by
  simp only [eqIgnoreAsciiCase, decide_eq_true_eq] at same
  rw [← byteLength_map_toLower, same, byteLength_map_toLower]

theorem eqIgnoreAsciiCase_length {a b : String} (same : eqIgnoreAsciiCase a b = true) :
    a.toList.length = b.toList.length := by
  simp only [eqIgnoreAsciiCase, decide_eq_true_eq] at same
  simpa using congrArg List.length same

theorem dropSuffix_of_split {name : String} {base tail : List Char}
    (split : base ++ tail = name.toList) (length : byteLength tail = byteLength suffix.toList)
    (long : base ≠ []) :
    dropSuffix name =
      if eqIgnoreAsciiCase (String.ofList tail) suffix then String.ofList base else name := by
  simp only [dropSuffix, ← split]
  by_cases same : eqIgnoreAsciiCase (String.ofList tail) suffix = true
  · have count : tail.length = suffix.toList.length := by
      simpa using eqIgnoreAsciiCase_length same
    have start : (base ++ tail).length - suffix.toList.length = base.length := by
      rw [List.length_append, count, Nat.add_sub_cancel]
    rw [start, List.drop_left, List.take_left, if_pos ⟨List.length_pos_iff.mpr long, same⟩,
      if_pos same]
  · rw [if_neg same, if_neg]
    intro ⟨_, other⟩
    have bytes := eqIgnoreAsciiCase_byteLength other
    rw [String.toList_ofList, ← length] at bytes
    rw [(append_inj_of_byteLength (List.take_append_drop _ _) bytes).2] at other
    exact same other

theorem dropSuffix_of_short {name : String}
    (short : byteLength name.toList ≤ byteLength suffix.toList) : dropSuffix name = name := by
  have bytes : byteLength suffix.toList = suffix.toList.length := by decide
  have length := length_le_byteLength name.toList
  rw [dropSuffix, if_neg]
  intro ⟨positive, _⟩
  omega

theorem normalizeProcessName_of_splits {name : String} (splits : Splits name) :
    normalizeProcessName name = some (dropSuffix name) := by
  unfold normalizeProcessName
  split_ifs with short
  · rw [dropSuffix_of_short short]
  · obtain ⟨base, tail, split, length⟩ := splits.resolve_left short
    have total := congrArg byteLength split
    rw [byteLength_append, length] at total
    have long : base ≠ [] := by
      rintro rfl
      rw [byteLength, Nat.zero_add] at total
      exact short (Nat.le_of_eq total.symm)
    rw [splitAt_eq_some.mpr ⟨split, by omega⟩, dropSuffix_of_split split length long]
    rfl

theorem normalizeProcessName_eq_none {name : String} (splits : ¬ Splits name) :
    normalizeProcessName name = none := by
  have long : ¬ byteLength name.toList ≤ byteLength suffix.toList := fun short =>
    splits (.inl short)
  rw [normalizeProcessName, if_neg long, Option.map_eq_none_iff, Option.eq_none_iff_forall_ne_some]
  rintro ⟨base, tail⟩ found
  obtain ⟨split, length⟩ := splitAt_eq_some.mp found
  have total := congrArg byteLength split
  rw [byteLength_append] at total
  exact splits (.inr ⟨base, tail, split, by omega⟩)

theorem processNamesMatch_of_splits {a b : String} (splits : Splits a) (splits' : Splits b) :
    processNamesMatch a b = some (decide (SameName a b)) := by
  have same : eqIgnoreAsciiCase (dropSuffix a) (dropSuffix b) = decide (SameName a b) := by
    rw [Bool.eq_iff_iff, decide_eq_true_iff]
    rfl
  rw [processNamesMatch, normalizeProcessName_of_splits splits,
    normalizeProcessName_of_splits splits', ← same]
  rfl

/-- The comparison is total and the intended one on the names that split, and it is an
equivalence on them. -/
theorem processNamesMatch_iff (a b : String) :
    (processNamesMatch a b = some (decide (SameName a b)) ↔ Splits a ∧ Splits b) ∧
    Equivalence fun a b : {name // Splits name} => processNamesMatch a b = some true := by
  constructor
  · constructor
    · intro total
      constructor
      · by_contra splits
        simp [processNamesMatch, normalizeProcessName_eq_none splits] at total
      · by_contra splits
        simp [processNamesMatch, normalizeProcessName_eq_none splits] at total
    · rintro ⟨splits, splits'⟩
      exact processNamesMatch_of_splits splits splits'
  · have same (a b : {name // Splits name}) :
        processNamesMatch a b = some true ↔ SameName a b := by
      simp [processNamesMatch_of_splits a.2 b.2]
    simp only [same]
    exact ⟨fun a => sameName_equivalence.refl a, sameName_equivalence.symm,
      sameName_equivalence.trans⟩

/-- The fourth byte from the end is the second of the first character. -/
theorem processNamesMatch_panics : processNamesMatch "éabc" "éabc" = none := by decide

end Windows

end KnotOps.Sys
