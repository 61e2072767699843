import Mathlib.Data.List.Nodup
import Mathlib.Logic.Function.Basic

/-! Insertion of an element immediately after another one in a list.
The position is given by the element it follows, not by an index; a list that
lacks it is returned as it is.  A list is cut at an element by `upTo` and `below`,
and a list of blocks is one list under the blocks of an order. -/

namespace KnotOps.Splice

universe u v

variable {α : Type u} [DecidableEq α]

def spliceAfter (x y : α) : List α → List α
  | [] => []
  | z :: rest => if z = x then z :: y :: rest else z :: spliceAfter x y rest

theorem spliceAfter_append {x y : α} {front back : List α} (fresh : x ∉ front) :
    spliceAfter x y (front ++ x :: back) = front ++ x :: y :: back := by
  induction front with
  | nil => simp [spliceAfter]
  | cons z front ih =>
    have differs : z ≠ x := fun same => fresh (same ▸ List.mem_cons_self)
    simp [spliceAfter, differs, ih (fun h => fresh (List.mem_cons_of_mem z h))]

theorem spliceAfter_perm {x : α} (y : α) {l : List α} (present : x ∈ l) :
    (spliceAfter x y l).Perm (y :: l) := by
  induction l with
  | nil => cases present
  | cons z rest ih =>
    by_cases same : z = x
    · rw [spliceAfter, if_pos same]
      exact .swap y z rest
    · have later : x ∈ rest := (List.mem_cons.mp present).resolve_left fun h => same h.symm
      rw [spliceAfter, if_neg same]
      exact ((ih later).cons z).trans (.swap y z rest)

theorem filter_spliceAfter {keep : α → Bool} {x y : α} (keepX : keep x) (keepY : keep y)
    (l : List α) : (spliceAfter x y l).filter keep = spliceAfter x y (l.filter keep) := by
  induction l with
  | nil => rfl
  | cons z rest ih =>
    by_cases same : z = x
    · subst same
      simp [spliceAfter, keepX, keepY]
    · by_cases kept : keep z <;> simp [spliceAfter, same, kept, ih]

theorem getLast?_spliceAfter {x y : α} {l : List α} (present : x ∈ l) (nodup : l.Nodup) :
    (spliceAfter x y l).getLast? = if l.getLast? = some x then some y else l.getLast? := by
  obtain ⟨front, back, rfl⟩ := List.append_of_mem present
  have split := List.nodup_append'.mp nodup
  have fresh : x ∉ front := fun member => split.2.2 member List.mem_cons_self
  rw [spliceAfter_append fresh]
  rcases List.eq_nil_or_concat back with rfl | ⟨back, z, rfl⟩
  · simp
  · have other : z ≠ x := fun same => by
      have tail := (List.nodup_cons.mp split.2.1).1
      simp [same] at tail
    have inserted : front ++ x :: y :: (back ++ [z]) = (front ++ x :: y :: back) ++ [z] := by simp
    have before : front ++ x :: (back ++ [z]) = (front ++ x :: back) ++ [z] := by simp
    rw [List.concat_eq_append, inserted, before, List.getLast?_concat, List.getLast?_concat]
    simp [other]

theorem spliceAfter_append_left {x y : α} {front back : List α} (present : x ∈ front) :
    spliceAfter x y (front ++ back) = spliceAfter x y front ++ back := by
  induction front with
  | nil => cases present
  | cons z front ih =>
    by_cases same : z = x
    · simp [spliceAfter, same]
    · have later : x ∈ front := (List.mem_cons.mp present).resolve_left fun h => same h.symm
      simp [spliceAfter, same, ih later]

theorem spliceAfter_append_right {x y : α} {front back : List α} (fresh : x ∉ front) :
    spliceAfter x y (front ++ back) = front ++ spliceAfter x y back := by
  induction front with
  | nil => rfl
  | cons z front ih =>
    have differs : z ≠ x := fun same => fresh (same ▸ List.mem_cons_self)
    simp [spliceAfter, differs, ih (fun h => fresh (List.mem_cons_of_mem z h))]

/-- The elements up to the first occurrence of one, with it. -/
def upTo (a : α) : List α → List α
  | [] => []
  | z :: rest => if z = a then [z] else z :: upTo a rest

def below (a : α) : List α → List α
  | [] => []
  | z :: rest => if z = a then rest else below a rest

theorem upTo_append_below (a : α) (l : List α) : upTo a l ++ below a l = l := by
  induction l with
  | nil => rfl
  | cons z rest ih => by_cases same : z = a <;> simp [upTo, below, same, ih]

theorem spliceAfter_eq_cut {a : α} (y : α) {l : List α} (present : a ∈ l) :
    spliceAfter a y l = upTo a l ++ y :: below a l := by
  induction l with
  | nil => cases present
  | cons z rest ih =>
    by_cases same : z = a
    · simp [spliceAfter, upTo, below, same]
    · have later : a ∈ rest := (List.mem_cons.mp present).resolve_left fun h => same h.symm
      simp [spliceAfter, upTo, below, same, ih later]

theorem upTo_append {a : α} {front : List α} (fresh : a ∉ front) (back : List α) :
    upTo a (front ++ a :: back) = front ++ [a] := by
  induction front with
  | nil => simp [upTo]
  | cons z front ih =>
    have differs : z ≠ a := fun same => fresh (same ▸ List.mem_cons_self)
    simp [upTo, differs, ih (fun h => fresh (List.mem_cons_of_mem z h))]

theorem filter_upTo {keep : α → Bool} {a : α} (kept : keep a) (l : List α) :
    (upTo a l).filter keep = upTo a (l.filter keep) := by
  induction l with
  | nil => rfl
  | cons z rest ih =>
    by_cases same : z = a
    · simp [upTo, same, kept]
    · by_cases keeps : keep z <;> simp [upTo, same, keeps, ih]

/-- Below an insertion the list is cut where it was cut before, unless it was cut at the
element that the new one follows: then it is cut at the new one. -/
theorem upTo_spliceAfter {a t y : α} {l : List α} (fresh : y ∉ l) (present : a ∈ l) :
    upTo (if a = t then y else a) (spliceAfter t y l) = spliceAfter t y (upTo a l) := by
  induction l with
  | nil => cases present
  | cons z rest ih =>
    have differs : z ≠ y := fun same => fresh (same ▸ List.mem_cons_self)
    by_cases same : z = a
    · subst same
      by_cases target : z = t
      · simp [spliceAfter, upTo, target, target ▸ differs]
      · simp [spliceAfter, upTo, target]
    · have later : a ∈ rest := (List.mem_cons.mp present).resolve_left fun h => same h.symm
      have other : y ≠ a := fun h => fresh (List.mem_cons_of_mem z (h ▸ later))
      have rest_eq := ih (fun h => fresh (List.mem_cons_of_mem z h)) later
      by_cases target : z = t
      · have elsewhere : a ≠ t := fun h => same (target.trans h.symm)
        simp [spliceAfter, upTo, target, elsewhere, elsewhere.symm, other]
      · have cut : z ≠ if a = t then y else a := by split <;> assumption
        simp [spliceAfter, upTo, target, same, cut, rest_eq]

section Blocks

variable {ι : Type v} [DecidableEq ι] {f : ι → List α} {order : List ι} {i : ι}

omit [DecidableEq α] in
theorem flatMap_update (outside : i ∉ order) (block : List α) :
    order.flatMap (Function.update f i block) = order.flatMap f := by
  refine List.flatMap_congr fun j member => ?_
  have other : j ≠ i := fun same => outside (same ▸ member)
  rw [Function.update_of_ne other]

theorem spliceAfter_flatMap {x y : α} (nodup : order.Nodup) (present : x ∈ f i)
    (alone : ∀ j ≠ i, x ∉ f j) :
    spliceAfter x y (order.flatMap f) =
      order.flatMap (Function.update f i (spliceAfter x y (f i))) := by
  induction order with
  | nil => rfl
  | cons j order ih =>
    obtain ⟨outside, nodup⟩ := List.nodup_cons.mp nodup
    rw [List.flatMap_cons, List.flatMap_cons]
    by_cases same : j = i
    · subst same
      rw [spliceAfter_append_left present, flatMap_update outside, Function.update_self]
    · rw [spliceAfter_append_right (alone j same), ih nodup, Function.update_of_ne same]

end Blocks

end KnotOps.Splice
