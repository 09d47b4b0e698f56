import Mathlib.Init

/-!
# Edge-triggered notifications

A `Notify` counts its broadcasts. A `Notified` future keeps the count of the moment
it was created; a broadcast wakes the futures that exist and leaves nothing behind
for the later ones, so a future is woken when the count has moved past its own.
-/

namespace Lib

/-- The shared part: how often the waiters have been notified. -/
structure Notify where
  calls : Nat
deriving DecidableEq, Repr

/-- A future that waits for the next broadcast. -/
structure Notified where
  seen : Nat
deriving DecidableEq, Repr

namespace Notify

/-- A notification nobody has been sent. -/
def new : Notify := ⟨0⟩

/-- Wake every future that exists. -/
def notifyWaiters (n : Notify) : Notify := ⟨n.calls + 1⟩

/-- Create a future. -/
def notified (n : Notify) : Notified := ⟨n.calls⟩

/-- The future `f` has been woken. -/
def Woken (n : Notify) (f : Notified) : Prop := f.seen < n.calls

instance (n : Notify) (f : Notified) : Decidable (n.Woken f) :=
  inferInstanceAs (Decidable (f.seen < n.calls))

/-- The future was created no later than now. -/
def Issued (n : Notify) (f : Notified) : Prop := f.seen ≤ n.calls

theorem issued_notified (n : Notify) : n.Issued n.notified := Nat.le_refl _

/-- A broadcast wakes every future created before it. -/
theorem woken_notifyWaiters {n : Notify} {f : Notified} (h : n.Issued f) :
    n.notifyWaiters.Woken f := by
  show f.seen < n.calls + 1
  unfold Issued at h
  omega

/-- A future created after the last broadcast is not woken. -/
theorem not_woken_notified (n : Notify) : ¬ n.Woken n.notified := Nat.lt_irrefl _

/-- Futures stay issued when others are notified. -/
theorem Issued.notifyWaiters {n : Notify} {f : Notified} (h : n.Issued f) :
    n.notifyWaiters.Issued f := by
  show f.seen ≤ n.calls + 1
  unfold Issued at h
  omega

end Notify

end Lib
