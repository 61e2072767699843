import Mathlib.Data.List.Basic

/-! UTF-8: lossy decoding, and splitting at a byte offset.
A text is read as sequences: a first byte, and as many of the next bytes as are
within the bounds that the first one sets for them.  A sequence that lacks a
byte, or whose first byte cannot be first, is shown as one replacement
character.  Cutting the bytes of a text cuts at most one sequence, and
`lossy_take_iff` says when the cut does not show.  A text of characters can be
split at the offsets where a character begins, and at no others. -/

namespace KnotOps.Utf8

universe u

def replacement : Char := '\uFFFD'

/-- The bounds of the bytes after a first byte. -/
def followers (lead : UInt8) : Option (List (UInt8 × UInt8)) :=
  if lead ≤ 0x7F then some []
  else if lead < 0xC2 then none
  else if lead ≤ 0xDF then some [(0x80, 0xBF)]
  else if lead = 0xE0 then some [(0xA0, 0xBF), (0x80, 0xBF)]
  else if lead = 0xED then some [(0x80, 0x9F), (0x80, 0xBF)]
  else if lead ≤ 0xEF then some [(0x80, 0xBF), (0x80, 0xBF)]
  else if lead = 0xF0 then some [(0x90, 0xBF), (0x80, 0xBF), (0x80, 0xBF)]
  else if lead ≤ 0xF3 then some [(0x80, 0xBF), (0x80, 0xBF), (0x80, 0xBF)]
  else if lead = 0xF4 then some [(0x80, 0x8F), (0x80, 0xBF), (0x80, 0xBF)]
  else none

def fitting : List (UInt8 × UInt8) → List UInt8 → Nat
  | (low, high) :: bounds, b :: bytes =>
    if low ≤ b ∧ b ≤ high then fitting bounds bytes + 1 else 0
  | _, _ => 0

/-- How many bytes belong to the sequence of the first byte. -/
def follow (lead : UInt8) (bytes : List UInt8) : Nat :=
  fitting ((followers lead).getD []) bytes

def payload : Nat → Nat
  | 0 => 128
  | 1 => 32
  | 2 => 16
  | _ => 8

def scalar (lead : UInt8) (tail : List UInt8) : Char :=
  Char.ofNat (tail.foldl (fun value b => value * 64 + b.toNat % 64)
    (lead.toNat % payload tail.length))

/-- What one sequence is shown as. -/
def glyph : List UInt8 → Char
  | [] => replacement
  | lead :: tail =>
    if (followers lead).map List.length = some tail.length then scalar lead tail else replacement

/-- The sequences after the next `skip` bytes. -/
def split : Nat → List UInt8 → List (List UInt8)
  | _, [] => []
  | skip + 1, _ :: bytes => split skip bytes
  | 0, lead :: bytes => (lead :: bytes.take (follow lead bytes)) :: split (follow lead bytes) bytes

def sequences (bytes : List UInt8) : List (List UInt8) := split 0 bytes

def lossy (bytes : List UInt8) : List Char := (sequences bytes).map glyph

example : lossy [0x61, 0xC3, 0xA9, 0xF0, 0x90, 0x80, 0x62] = ['a', 'é', replacement, 'b'] := by
  decide

theorem split_eq_drop (skip : Nat) (bytes : List UInt8) :
    split skip bytes = sequences (bytes.drop skip) := by
  induction bytes generalizing skip with
  | nil => cases skip <;> rfl
  | cons lead bytes ih =>
    cases skip with
    | zero => rfl
    | succ skip => exact ih skip

theorem sequences_cons (lead : UInt8) (bytes : List UInt8) :
    sequences (lead :: bytes) =
      (lead :: bytes.take (follow lead bytes)) :: sequences (bytes.drop (follow lead bytes)) := by
  rw [← split_eq_drop]
  rfl

theorem fitting_take (bounds : List (UInt8 × UInt8)) (bytes : List UInt8) (k : Nat) :
    fitting bounds (bytes.take k) = min k (fitting bounds bytes) := by
  induction bounds generalizing bytes k with
  | nil => simp [fitting]
  | cons bound bounds ih =>
    obtain ⟨low, high⟩ := bound
    cases bytes with
    | nil => simp [fitting]
    | cons b bytes =>
      cases k with
      | zero => simp [fitting]
      | succ k =>
        rw [List.take_succ_cons, fitting, fitting, ih]
        split_ifs <;> omega

theorem fitting_le (bounds : List (UInt8 × UInt8)) (bytes : List UInt8) :
    fitting bounds bytes ≤ bounds.length := by
  induction bounds generalizing bytes with
  | nil => simp [fitting]
  | cons bound bounds ih =>
    obtain ⟨low, high⟩ := bound
    cases bytes with
    | nil => simp [fitting]
    | cons b bytes =>
      rw [fitting, List.length_cons]
      have rest := ih bytes
      split_ifs <;> omega

theorem fitting_le_bytes (bounds : List (UInt8 × UInt8)) (bytes : List UInt8) :
    fitting bounds bytes ≤ bytes.length := by
  have all := fitting_take bounds bytes bytes.length
  rw [List.take_length] at all
  omega

theorem follow_le (lead : UInt8) (bytes : List UInt8) : follow lead bytes ≤ bytes.length :=
  fitting_le_bytes _ bytes

theorem follow_take (lead : UInt8) (bytes : List UInt8) (k : Nat) :
    follow lead (bytes.take k) = min k (follow lead bytes) :=
  fitting_take _ bytes k

theorem glyph_cut {lead : UInt8} {bytes : List UInt8} {k : Nat} (cut : k < follow lead bytes) :
    glyph (lead :: bytes.take k) = replacement := by
  have incomplete : (followers lead).map List.length ≠ some (bytes.take k).length := by
    intro complete
    obtain ⟨bounds, known, length⟩ := Option.map_eq_some_iff.mp complete
    have few := fitting_le bounds bytes
    have enough := fitting_le_bytes bounds bytes
    rw [follow, known, Option.getD_some] at cut
    rw [List.length_take] at length
    omega
  rw [glyph, if_neg incomplete]

/-- The last sequence starts before the cut, and is shown as a replacement. -/
def CutHidden (k : Nat) (seqs : List (List UInt8)) : Prop :=
  ∃ front last, seqs = front ++ [last] ∧ front.flatten.length < k ∧ glyph last = replacement

theorem cutHidden_cons {k : Nat} {first : List UInt8} {rest : List (List UInt8)} :
    CutHidden k (first :: rest) ↔
      (rest = [] ∧ 0 < k ∧ glyph first = replacement) ∨ CutHidden (k - first.length) rest := by
  constructor
  · rintro ⟨front, last, split, before, shown⟩
    rcases List.cons_eq_append_iff.mp split with ⟨rfl, one⟩ | ⟨front, rfl, tail⟩
    · obtain ⟨rfl, rfl⟩ := List.cons.inj one
      exact .inl ⟨rfl, by simpa using before, shown⟩
    · rw [List.flatten_cons, List.length_append] at before
      exact .inr ⟨front, last, tail, by omega, shown⟩
  · rintro (⟨rfl, inside, shown⟩ | ⟨front, last, rfl, before, shown⟩)
    · exact ⟨[], first, rfl, inside, shown⟩
    · refine ⟨first :: front, last, rfl, ?_, shown⟩
      rw [List.flatten_cons, List.length_append]
      omega

theorem sequences_eq_nil {bytes : List UInt8} : sequences bytes = [] ↔ bytes = [] := by
  cases bytes with
  | nil => simp [sequences, split]
  | cons lead bytes => simp [sequences_cons]

theorem sequences_cut {lead : UInt8} {bytes : List UInt8} {k : Nat} (cut : k < follow lead bytes) :
    sequences (lead :: bytes.take k) = [lead :: bytes.take k] := by
  rw [sequences_cons, follow_take, Nat.min_eq_left (Nat.le_of_lt cut), List.take_take, Nat.min_self,
    List.drop_take_self]
  rfl

theorem sequences_take {lead : UInt8} {bytes : List UInt8} {k : Nat} (later : follow lead bytes ≤ k) :
    sequences (lead :: bytes.take k) = (lead :: bytes.take (follow lead bytes)) ::
      sequences ((bytes.drop (follow lead bytes)).take (k - follow lead bytes)) := by
  rw [sequences_cons, follow_take, Nat.min_eq_right later, List.take_take, Nat.min_eq_left later,
    List.drop_take]

/-- The text without what comes after the cut is shown as the whole text, up to a
rendering of the characters, when nothing comes after the cut, or when the cut
goes through the last sequence and that is shown as a replacement. -/
theorem lossy_take_iff {β : Type u} (render : Char → β)
    (distinct : ∀ c, render c = render replacement → c = replacement) (k : Nat)
    (bytes : List UInt8) :
    (lossy (bytes.take k)).map render = (lossy bytes).map render ↔
      bytes.length ≤ k ∨ CutHidden k (sequences bytes) := by
  induction length : bytes.length using Nat.strongRecOn generalizing bytes k with
  | ind n ih =>
    cases bytes with
    | nil => simp [← length]
    | cons lead bytes =>
      have inside := follow_le lead bytes
      have first : (lead :: bytes.take (follow lead bytes)).length = follow lead bytes + 1 := by
        rw [List.length_cons, List.length_take, Nat.min_eq_left inside]
      rw [List.length_cons] at length
      cases k with
      | zero => simp [lossy, sequences, split, CutHidden, ← length]
      | succ k =>
        rw [List.take_succ_cons, lossy, lossy, sequences_cons lead bytes, cutHidden_cons, first,
          Nat.add_sub_add_right]
        rcases Nat.lt_or_ge k (follow lead bytes) with cut | later
        · rw [sequences_cut cut]
          have none_hidden : ¬ CutHidden (k - follow lead bytes)
              (sequences (bytes.drop (follow lead bytes))) := by
            rintro ⟨front, last, -, before, -⟩
            omega
          have shown : render replacement =
              render (glyph (lead :: bytes.take (follow lead bytes))) ↔
              glyph (lead :: bytes.take (follow lead bytes)) = replacement :=
            ⟨fun same => distinct _ same.symm, fun same => by rw [same]⟩
          simp only [List.map_cons, List.map_nil, glyph_cut cut, List.cons.injEq, shown,
            List.nil_eq, List.map_eq_nil_iff]
          have longer : ¬ n ≤ k + 1 := by omega
          simp [none_hidden, longer, and_comm]
        · rw [sequences_take later]
          have rest := ih _ (by rw [List.length_drop]; omega) (k - follow lead bytes)
            (bytes.drop (follow lead bytes)) rfl
          simp only [List.map_cons, List.cons.injEq, true_and]
          rw [lossy, lossy] at rest
          rw [rest, List.length_drop]
          have ends : sequences (bytes.drop (follow lead bytes)) = [] → n ≤ k + 1 := by
            intro none
            have short := List.drop_eq_nil_iff.mp (sequences_eq_nil.mp none)
            omega
          have lengths : bytes.length - follow lead bytes ≤ k - follow lead bytes ↔ n ≤ k + 1 := by
            omega
          rw [lengths]
          constructor
          · rintro (short | hidden)
            · exact .inl short
            · exact .inr (.inr hidden)
          · rintro (short | ⟨none, -⟩ | hidden)
            · exact .inl short
            · exact .inl (ends none)
            · exact .inr hidden

def byteLength : List Char → Nat
  | [] => 0
  | c :: text => c.utf8Size + byteLength text

@[simp] theorem byteLength_append (front back : List Char) :
    byteLength (front ++ back) = byteLength front + byteLength back := by
  induction front with
  | nil => simp [byteLength]
  | cons c front ih => simp [byteLength, ih, Nat.add_assoc]

theorem length_le_byteLength (text : List Char) : text.length ≤ byteLength text := by
  induction text with
  | nil => exact Nat.le_refl 0
  | cons c text ih =>
    have positive := c.utf8Size_pos
    simp only [List.length_cons, byteLength]
    omega

theorem byteLength_eq_zero {text : List Char} (empty : byteLength text = 0) : text = [] := by
  have length := length_le_byteLength text
  exact List.eq_nil_of_length_eq_zero (by omega)

/-- `str::split_at`; `none` is its panic. -/
def splitAt : Nat → List Char → Option (List Char × List Char)
  | 0, text => some ([], text)
  | _ + 1, [] => none
  | mid + 1, c :: text =>
    if c.utf8Size ≤ mid + 1 then
      (splitAt (mid + 1 - c.utf8Size) text).map fun (front, back) => (c :: front, back)
    else none

theorem splitAt_eq_some {mid : Nat} {text front back : List Char} :
    splitAt mid text = some (front, back) ↔ front ++ back = text ∧ byteLength front = mid := by
  induction text generalizing mid front with
  | nil =>
    cases mid with
    | zero =>
      simp only [splitAt, Option.some.injEq, Prod.mk.injEq, List.append_eq_nil_iff]
      constructor
      · rintro ⟨rfl, rfl⟩
        exact ⟨⟨rfl, rfl⟩, rfl⟩
      · rintro ⟨⟨rfl, rfl⟩, -⟩
        exact ⟨rfl, rfl⟩
    | succ mid =>
      simp only [splitAt, reduceCtorEq, List.append_eq_nil_iff, false_iff]
      rintro ⟨⟨rfl, -⟩, length⟩
      cases length
  | cons c text ih =>
    have positive := c.utf8Size_pos
    cases mid with
    | zero =>
      simp only [splitAt, Option.some.injEq, Prod.mk.injEq]
      constructor
      · rintro ⟨rfl, rfl⟩
        exact ⟨rfl, rfl⟩
      · rintro ⟨whole, length⟩
        obtain rfl := byteLength_eq_zero length
        exact ⟨rfl, whole.symm⟩
    | succ mid =>
      rw [splitAt]
      split_ifs with fits
      · simp only [Option.map_eq_some_iff, Prod.mk.injEq, Prod.exists]
        constructor
        · rintro ⟨rest, back', found, rfl, rfl⟩
          obtain ⟨whole, length⟩ := ih.mp found
          refine ⟨congrArg (c :: ·) whole, ?_⟩
          simp only [byteLength, length]
          omega
        · rintro ⟨whole, length⟩
          cases front with
          | nil => cases length
          | cons first rest =>
            obtain ⟨rfl, same⟩ := List.cons.inj whole
            rw [byteLength] at length
            exact ⟨rest, back, ih.mpr ⟨same, by omega⟩, rfl, rfl⟩
      · simp only [false_iff]
        rintro ⟨whole, length⟩
        cases front with
        | nil => cases length
        | cons first rest =>
          obtain ⟨rfl, -⟩ := List.cons.inj whole
          rw [byteLength] at length
          omega

theorem append_inj_of_byteLength {front front' back back' : List Char}
    (same : front ++ back = front' ++ back') (length : byteLength back = byteLength back') :
    front = front' ∧ back = back' := by
  have total := congrArg byteLength same
  rw [byteLength_append, byteLength_append, length] at total
  have first := splitAt_eq_some.mpr ⟨same, Nat.add_right_cancel total⟩
  have second : splitAt (byteLength front') (front' ++ back') = some (front', back') :=
    splitAt_eq_some.mpr ⟨rfl, rfl⟩
  rw [first] at second
  exact ⟨congrArg Prod.fst (Option.some.inj second), congrArg Prod.snd (Option.some.inj second)⟩

theorem utf8Size_ascii {c : Char} (ascii : c.val ≤ 127) : c.utf8Size = 1 :=
  if_pos ascii

theorem utf8Size_toLower (c : Char) : c.toLower.utf8Size = c.utf8Size := by
  delta Char.toLower
  by_cases upper : c.val ≥ 'A'.val ∧ c.val ≤ 'Z'.val
  · have high : c.val.toNat ≤ 90 := UInt32.le_iff_toNat_le.mp upper.2
    have before : c.val ≤ 127 := UInt32.le_iff_toNat_le.mpr (Nat.le_trans high (by decide))
    have after : c.val + ('a'.val - 'A'.val) ≤ 127 := by
      have shift : ('a'.val - 'A'.val).toNat = 32 := by decide
      have limit : (127 : UInt32).toNat = 127 := by decide
      rw [UInt32.le_iff_toNat_le, UInt32.toNat_add, shift, limit]
      omega
    rw [dif_pos upper, utf8Size_ascii before]
    exact utf8Size_ascii after
  · rw [dif_neg upper]

theorem byteLength_map_toLower (text : List Char) :
    byteLength (text.map Char.toLower) = byteLength text := by
  induction text with
  | nil => rfl
  | cons c text ih => rw [List.map_cons, byteLength, byteLength, utf8Size_toLower, ih]

end KnotOps.Utf8
