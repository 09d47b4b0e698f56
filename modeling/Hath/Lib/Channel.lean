import Mathlib.Init

/-!
# Bounded channels

A channel of a given capacity with fair senders: `send` waits for room behind the sends
that wait already, `trySend` gives up when there is no room or somebody waits, and a
sender that is dropped while it waits leaves no trace.

* `Bounded` — the capacity holds;
* `queue_of_acquire`, `queue_of_trySend`, `queue_of_recv` — what enters at one end leaves at
  the other.
-/

namespace Lib

universe u

/-- What is in the channel and what waits to get in, oldest first. -/
structure Channel (α : Type u) where
  queue : List α
  waiting : List α
deriving DecidableEq, Repr

namespace Channel

variable {α : Type u} {capacity : Nat} {c c' : Channel α} {a : α}

def empty : Channel α := ⟨[], []⟩

/-- A sender begins to wait; it may be admitted at once. -/
def send (c : Channel α) (a : α) : Channel α := { c with waiting := c.waiting ++ [a] }

/-- The sender at the position is dropped. -/
def cancel (c : Channel α) (i : Nat) : Channel α := { c with waiting := c.waiting.eraseIdx i }

/-- The oldest sender gets in. -/
def acquire (capacity : Nat) (c : Channel α) : Option (α × Channel α) :=
  match c.waiting with
  | a :: rest => if c.queue.length < capacity then some (a, ⟨c.queue ++ [a], rest⟩) else none
  | [] => none

def trySend (capacity : Nat) (c : Channel α) (a : α) : Option (Channel α) :=
  if c.waiting = [] ∧ c.queue.length < capacity then some ⟨c.queue ++ [a], []⟩ else none

def recv (c : Channel α) : Option (α × Channel α) :=
  match c.queue with
  | a :: rest => some (a, { c with queue := rest })
  | [] => none

/-- There are no more items than the capacity allows. -/
def Bounded (capacity : Nat) (c : Channel α) : Prop := c.queue.length ≤ capacity

@[simp] theorem send_queue (c : Channel α) (a : α) : (c.send a).queue = c.queue := rfl

@[simp] theorem send_waiting (c : Channel α) (a : α) : (c.send a).waiting = c.waiting ++ [a] := rfl

@[simp] theorem cancel_queue (c : Channel α) (i : Nat) : (c.cancel i).queue = c.queue := rfl

/-- Dropping a sender changes no count it is not part of. -/
theorem countP_cancel {p : α → Bool} {i : Nat} (hi : c.waiting[i]? = some a) (hp : p a = false) :
    (c.cancel i).waiting.countP p = c.waiting.countP p := by
  show (c.waiting.eraseIdx i).countP p = c.waiting.countP p
  generalize c.waiting = l at hi
  induction l generalizing i with
  | nil => cases hi
  | cons b l ih =>
      cases i with
      | zero =>
          cases hi
          simp [hp]
      | succ i => rw [List.eraseIdx_cons_succ, List.countP_cons, List.countP_cons, ih hi]

theorem bounded_empty : (empty : Channel α).Bounded capacity := Nat.zero_le _

theorem queue_of_acquire (h : c.acquire capacity = some (a, c')) :
    c'.queue = c.queue ++ [a] ∧ c.waiting = a :: c'.waiting ∧ c'.Bounded capacity := by
  unfold acquire at h
  split at h
  · rename_i b rest hwaiting
    rw [Option.ite_none_right_eq_some, Option.some.injEq, Prod.mk.injEq] at h
    rcases h with ⟨hroom, rfl, rfl⟩
    refine ⟨rfl, hwaiting, ?_⟩
    show (c.queue ++ [b]).length ≤ capacity
    rw [List.length_append, List.length_singleton]
    exact hroom
  · cases h

theorem queue_of_trySend (h : c.trySend capacity a = some c') :
    c'.queue = c.queue ++ [a] ∧ c'.waiting = c.waiting ∧ c'.Bounded capacity := by
  unfold trySend at h
  rw [Option.ite_none_right_eq_some, Option.some.injEq] at h
  rcases h with ⟨⟨hwaiting, hroom⟩, rfl⟩
  refine ⟨rfl, hwaiting.symm, ?_⟩
  show (c.queue ++ [a]).length ≤ capacity
  rw [List.length_append, List.length_singleton]
  exact hroom

theorem queue_of_recv (h : c.recv = some (a, c')) :
    c.queue = a :: c'.queue ∧ c'.waiting = c.waiting ∧
      (c.Bounded capacity → c'.Bounded capacity) := by
  unfold recv at h
  split at h
  · rename_i b rest hqueue
    rw [Option.some.injEq, Prod.mk.injEq] at h
    rcases h with ⟨rfl, rfl⟩
    refine ⟨hqueue, rfl, ?_⟩
    unfold Bounded
    rw [hqueue, List.length_cons]
    exact Nat.le_of_succ_le
  · cases h

end Channel

end Lib
