import Mathlib.Init

/-!
# Watch channels

A single-value broadcast channel: the channel keeps the last value and counts
its updates, a receiver keeps the count it has seen. A receiver that waits for
a change is woken by any update it has not seen, also when the senders are gone;
only with nothing unseen does it learn that the channel is closed.
-/

namespace Lib

universe u

/-- The shared part of a watch channel. -/
structure Watch (α : Type u) where
  value : α
  version : Nat
deriving Repr

namespace Watch

variable {α : Type u}

/-- A fresh channel. -/
def channel (a : α) : Watch α := ⟨a, 0⟩

/-- Replace the value and wake the receivers. -/
def send (c : Watch α) (a : α) : Watch α := ⟨a, c.version + 1⟩

/-- What a new receiver has seen: the value at that moment. -/
def subscribe (c : Watch α) : Nat := c.version

/-- There is an update that a receiver with count `seen` has not seen. -/
def Unseen (c : Watch α) (seen : Nat) : Prop := seen ≠ c.version

instance (c : Watch α) (seen : Nat) : Decidable (c.Unseen seen) :=
  inferInstanceAs (Decidable (seen ≠ c.version))

@[simp] theorem send_value (c : Watch α) (a : α) : (c.send a).value = a := rfl

@[simp] theorem send_version (c : Watch α) (a : α) : (c.send a).version = c.version + 1 := rfl

/-- A receiver that has seen everything so far has not seen the next update. -/
theorem unseen_send {c : Watch α} {seen : Nat} (h : seen ≤ c.version) (a : α) :
    (c.send a).Unseen seen := by
  unfold Unseen
  rw [send_version]
  omega

end Watch

end Lib
