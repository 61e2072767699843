import Mathlib.Data.List.Basic

/-! Bounded channels, first in, first out.
A send waits while the channel is full, a receive while it is empty, and neither
changes the channel while it waits.  A channel has room for at least one item. -/

namespace KnotOps

universe u

structure Channel (α : Type u) (capacity : Nat) where
  items : List α
  positive : 0 < capacity
  bounded : items.length ≤ capacity

namespace Channel

variable {α : Type u} {capacity : Nat}

def empty (positive : 0 < capacity) : Channel α capacity := ⟨[], positive, Nat.zero_le _⟩

def send (c : Channel α capacity) (item : α) : Option (Channel α capacity) :=
  if room : c.items.length < capacity then
    some { c with
      items := c.items ++ [item]
      bounded := by rwa [List.length_append] }
  else none

def recv : Channel α capacity → Option (α × Channel α capacity)
  | ⟨[], _, _⟩ => none
  | ⟨item :: items, positive, bounded⟩ =>
    some (item, ⟨items, positive, Nat.le_of_succ_le bounded⟩)

@[simp] theorem empty_items (positive : 0 < capacity) :
    (empty positive : Channel α capacity).items = [] := rfl

variable {c next : Channel α capacity} {item : α}

theorem send_items (sent : c.send item = some next) : next.items = c.items ++ [item] := by
  rw [send] at sent
  split_ifs at sent
  rw [← Option.some.inj sent]

theorem send_of_room (room : c.items.length < capacity) (item : α) :
    ∃ next, c.send item = some next := ⟨_, dif_pos room⟩

theorem recv_items (received : c.recv = some (item, next)) : c.items = item :: next.items := by
  match c with
  | ⟨[], _, _⟩ => cases received
  | ⟨first :: items, _, _⟩ =>
    obtain ⟨rfl, rfl⟩ := Prod.mk.inj (Option.some.inj received)
    rfl

theorem recv_of_items (waiting : c.items ≠ []) : ∃ item next, c.recv = some (item, next) := by
  match c with
  | ⟨[], _, _⟩ => exact absurd rfl waiting
  | ⟨first :: items, _, _⟩ => exact ⟨first, _, rfl⟩

end Channel

end KnotOps
