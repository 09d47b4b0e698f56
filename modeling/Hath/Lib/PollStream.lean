import Mathlib.Init

/-!
# Poll streams — streams of chunks that are polled

A consumer polls a stream and gets one of four answers: nothing yet, a chunk,
an error, or the end. What happens between two polls (a background task runs,
an I/O call returns) is the environment's choice and is given to the poll, so
that a stream is a function and a schedule is a list of choices.

* `PollStream.collect` — what a consumer has received after a schedule, and
  `PollStream.after`, where the stream is then;
* `PollStream.Delivers` — under every schedule of admitted choices the consumer
  receives a prefix of one fixed content, sees the end exactly when it has the
  whole of it, never sees an error, and gets to the end when the environment
  keeps working;
* `PollStream.Ranked` — the rule for proving it: a state function `rest` for
  what is still to come and a rank that every poll lowers, unless it is a
  pending one in which the environment did nothing;
* `PollStream.sum` — a stream that is one of two, ranked if both are.
-/

namespace Lib

universe u v w x

/-- The answer of a poll: not yet, or a result. -/
inductive Poll (α : Type u) where
  | pending
  | ready (a : α)
deriving DecidableEq, Repr

/-- A polled stream of chunks. `poll s w` polls in state `s`, `w` being what the
environment did since the last poll; `ready none` is the end of the stream. -/
structure PollStream (σ : Type u) (ω : Type v) (ε : Type w) (β : Type x) where
  poll : σ → ω → σ × Poll (Option (Except ε (List β)))

namespace PollStream

variable {σ : Type u} {ω : Type v} {ε : Type w} {β : Type x}

/-- How far a consumer has got. -/
inductive Outcome (ε : Type w) where
  | streaming
  | ended
  | failed (e : ε)
deriving DecidableEq, Repr

/-- Poll along a schedule: the data received, and whether the stream is still
open. A consumer polls no more after the end or an error. -/
def collect (S : PollStream σ ω ε β) : σ → List ω → List β × Outcome ε
  | _, [] => ([], .streaming)
  | s, w :: ws =>
      match S.poll s w with
      | (s', .pending) => collect S s' ws
      | (_, .ready none) => ([], .ended)
      | (_, .ready (some (.error e))) => ([], .failed e)
      | (s', .ready (some (.ok bytes))) =>
          (bytes ++ (collect S s' ws).1, (collect S s' ws).2)

/-- The state of the stream after the polls of a schedule. -/
def after (S : PollStream σ ω ε β) (s : σ) (ws : List ω) : σ :=
  ws.foldl (fun s w => (S.poll s w).1) s

section Collect

variable {S : PollStream σ ω ε β} {s s' : σ} {w : ω}

theorem collect_pending (h : S.poll s w = (s', .pending)) (ws : List ω) :
    S.collect s (w :: ws) = S.collect s' ws := by
  rw [collect, h]

theorem collect_end (h : S.poll s w = (s', .ready none)) (ws : List ω) :
    S.collect s (w :: ws) = ([], .ended) := by
  rw [collect, h]

theorem collect_error {e : ε} (h : S.poll s w = (s', .ready (some (.error e)))) (ws : List ω) :
    S.collect s (w :: ws) = ([], .failed e) := by
  rw [collect, h]

theorem collect_data {bytes : List β} (h : S.poll s w = (s', .ready (some (.ok bytes))))
    (ws : List ω) :
    S.collect s (w :: ws) = (bytes ++ (S.collect s' ws).1, (S.collect s' ws).2) := by
  rw [collect, h]

theorem after_cons (S : PollStream σ ω ε β) (s : σ) (w : ω) (ws : List ω) :
    S.after s (w :: ws) = S.after (S.poll s w).1 ws := rfl

/-- Polling goes on where a shorter schedule stopped. -/
theorem collect_append {ws : List ω} (h : (S.collect s ws).2 = .streaming) (ws' : List ω) :
    S.collect s (ws ++ ws') =
      ((S.collect s ws).1 ++ (S.collect (S.after s ws) ws').1,
        (S.collect (S.after s ws) ws').2) := by
  induction ws generalizing s with
  | nil => rfl
  | cons w ws ih =>
      rw [List.cons_append, after_cons]
      rcases hpoll : S.poll s w with ⟨s', _ | (_ | e | bytes)⟩
      · rw [collect_pending hpoll] at h ⊢
        rw [collect_pending hpoll]
        exact ih h
      · rw [collect_end hpoll] at h
        cases h
      · rw [collect_error hpoll] at h
        cases h
      · rw [collect_data hpoll] at h ⊢
        rw [collect_data hpoll, ih h, List.append_assoc]

/-- Nothing comes after the end or an error. -/
theorem collect_append_stopped {ws : List ω} (h : (S.collect s ws).2 ≠ .streaming)
    (ws' : List ω) : S.collect s (ws ++ ws') = S.collect s ws := by
  induction ws generalizing s with
  | nil => exact absurd rfl h
  | cons w ws ih =>
      rw [List.cons_append]
      rcases hpoll : S.poll s w with ⟨s', _ | (_ | e | bytes)⟩
      · rw [collect_pending hpoll] at h
        rw [collect_pending hpoll, collect_pending hpoll]
        exact ih h
      · rw [collect_end hpoll, collect_end hpoll]
      · rw [collect_error hpoll, collect_error hpoll]
      · rw [collect_data hpoll] at h
        rw [collect_data hpoll, collect_data hpoll, ih h]

/-- More polls bring more data. -/
theorem collect_mono (S : PollStream σ ω ε β) (s : σ) (ws ws' : List ω) :
    (S.collect s ws).1 <+: (S.collect s (ws ++ ws')).1 := by
  by_cases h : (S.collect s ws).2 = .streaming
  · rw [collect_append h]
    exact List.prefix_append _ _
  · refine ⟨[], ?_⟩
    rw [collect_append_stopped h, List.append_nil]

end Collect

section Delivery

variable (S : PollStream σ ω ε β) (admitted works : ω → Prop)

/-- The stream in state `s` delivers `out`: whatever the admitted schedule, the
data received is a prefix of `out`, no error is seen, the end is seen only with
all of `out`, and a schedule with enough working entries reaches it. -/
structure Delivers [DecidablePred works] (s : σ) (out : List β) : Prop where
  received : ∀ ws, (∀ w ∈ ws, admitted w) → (S.collect s ws).1 <+: out
  clean : ∀ ws, (∀ w ∈ ws, admitted w) → ∀ e, (S.collect s ws).2 ≠ .failed e
  complete : ∀ ws, (∀ w ∈ ws, admitted w) → (S.collect s ws).2 = .ended →
    (S.collect s ws).1 = out
  ends : ∃ n, ∀ ws, (∀ w ∈ ws, admitted w) → n ≤ ws.countP (works ·) →
    (S.collect s ws).2 = .ended

/-- What one poll may do to the content still to come and to the rank. -/
def PollOk (Inv : σ → Prop) (rest : σ → List β) (rank : σ → Nat) (s : σ) (w : ω) :
    σ × Poll (Option (Except ε (List β))) → Prop
  | (s', .pending) =>
      Inv s' ∧ rest s' = rest s ∧ rank s' ≤ rank s ∧ (works w → rank s' < rank s)
  | (s', .ready (some (.ok bytes))) =>
      Inv s' ∧ rest s = bytes ++ rest s' ∧ rank s' < rank s
  | (_, .ready (some (.error _))) => False
  | (_, .ready none) => rest s = []

/-- A stream whose every admitted poll is `PollOk`. -/
structure Ranked (Inv : σ → Prop) (rest : σ → List β) (rank : σ → Nat) : Prop where
  poll_ok : ∀ s w, Inv s → admitted w → PollOk works Inv rest rank s w (S.poll s w)

end Delivery

namespace Ranked

variable {S : PollStream σ ω ε β} {admitted works : ω → Prop}
  {Inv : σ → Prop} {rest : σ → List β} {rank : σ → Nat}

/-- What a consumer has received is a prefix of what was to come, all of it at
the end, and no error is seen. -/
theorem collect_ok (hR : Ranked S admitted works Inv rest rank) :
    ∀ (ws : List ω) (s : σ), Inv s → (∀ w ∈ ws, admitted w) →
      (S.collect s ws).1 <+: rest s ∧
      (∀ e, (S.collect s ws).2 ≠ .failed e) ∧
      ((S.collect s ws).2 = .ended → (S.collect s ws).1 = rest s) := by
  intro ws
  induction ws with
  | nil =>
      intro s _ _
      refine ⟨List.nil_prefix, fun e h => ?_, fun h => ?_⟩
      · cases h
      · cases h
  | cons w ws ih =>
      intro s hs hws
      have hw : admitted w := hws w List.mem_cons_self
      have hws' : ∀ w' ∈ ws, admitted w' := fun w' h => hws w' (List.mem_cons_of_mem _ h)
      have hpoll := hR.poll_ok s w hs hw
      rw [collect]
      unfold PollOk at hpoll
      split at hpoll <;> rename_i heq <;> rw [heq]
      · -- pending: the content to come is the same
        rcases hpoll with ⟨hi, hrest, -, -⟩
        rw [← hrest]
        exact ih _ hi hws'
      · -- a chunk: the rest of the schedule delivers the rest of the content
        rename_i s' bytes
        rcases hpoll with ⟨hi, hrest, -⟩
        rcases ih s' hi hws' with ⟨hpre, hclean, hend⟩
        refine ⟨?_, hclean, fun h => ?_⟩
        · rw [hrest]
          exact (List.prefix_append_right_inj bytes).mpr hpre
        · show bytes ++ (S.collect s' ws).1 = rest s
          rw [hrest, hend h]
      · exact absurd hpoll id
      · -- the end: nothing was to come
        have hnil : rest s = [] := hpoll
        refine ⟨List.nil_prefix, fun e h => ?_, fun _ => hnil.symm⟩
        cases h

/-- Every working entry lowers the rank, so a schedule with more of them than
the rank ends the stream. -/
theorem collect_ends (hR : Ranked S admitted works Inv rest rank) [DecidablePred works] :
    ∀ (ws : List ω) (s : σ), Inv s → (∀ w ∈ ws, admitted w) →
      rank s < ws.countP (works ·) → (S.collect s ws).2 = .ended := by
  intro ws
  induction ws with
  | nil =>
      intro s _ _ h
      exact absurd h (Nat.not_lt_zero _)
  | cons w ws ih =>
      intro s hs hws hcount
      have hw : admitted w := hws w List.mem_cons_self
      have hws' : ∀ w' ∈ ws, admitted w' := fun w' h => hws w' (List.mem_cons_of_mem _ h)
      have hpoll := hR.poll_ok s w hs hw
      rw [List.countP_cons] at hcount
      rw [collect]
      unfold PollOk at hpoll
      split at hpoll <;> rename_i heq <;> rw [heq]
      · -- pending: a working entry has lowered the rank, an idle one is not counted
        rcases hpoll with ⟨hi, -, hle, hlt⟩
        apply ih _ hi hws'
        by_cases hwork : works w
        · have := hlt hwork
          simp only [hwork, decide_true, if_true] at hcount
          omega
        · simp only [hwork, decide_false, Bool.false_eq_true, if_false] at hcount
          omega
      · rcases hpoll with ⟨hi, -, hlt⟩
        apply ih _ hi hws'
        split at hcount <;> omega
      · exact absurd hpoll id

/-- A ranked stream delivers what is still to come. -/
theorem delivers (hR : Ranked S admitted works Inv rest rank) [DecidablePred works] {s : σ}
    (hs : Inv s) : Delivers S admitted works s (rest s) where
  received ws hws := (collect_ok hR ws s hs hws).1
  clean ws hws := (collect_ok hR ws s hs hws).2.1
  complete ws hws := (collect_ok hR ws s hs hws).2.2
  ends := ⟨rank s + 1, fun ws hws hcount => collect_ends hR ws s hs hws hcount⟩

end Ranked

/-! ## Streams of two kinds -/

/-- A stream that is one of two. -/
def sum {τ : Type u} (S : PollStream σ ω ε β) (T : PollStream τ ω ε β) :
    PollStream (σ ⊕ τ) ω ε β where
  poll
    | .inl s, w => Prod.map .inl id (S.poll s w)
    | .inr t, w => Prod.map .inr id (T.poll t w)

section Sum

variable {τ : Type u} {S : PollStream σ ω ε β} {T : PollStream τ ω ε β}
  {admitted works : ω → Prop} {InvS : σ → Prop} {InvT : τ → Prop}
  {restS : σ → List β} {restT : τ → List β} {rankS : σ → Nat} {rankT : τ → Nat}

/-- If both kinds are ranked, so is the stream that is either. -/
theorem Ranked.sum (hS : Ranked S admitted works InvS restS rankS)
    (hT : Ranked T admitted works InvT restT rankT) :
    Ranked (PollStream.sum S T) admitted works (Sum.elim InvS InvT) (Sum.elim restS restT)
      (Sum.elim rankS rankT) where
  poll_ok st w hst hw := by
    cases st with
    | inl s =>
        have h := hS.poll_ok s w hst hw
        show PollOk _ _ _ _ _ _ (Prod.map Sum.inl id (S.poll s w))
        unfold PollOk at h
        split at h <;> rename_i heq <;> rw [heq] <;> exact h
    | inr t =>
        have h := hT.poll_ok t w hst hw
        show PollOk _ _ _ _ _ _ (Prod.map Sum.inr id (T.poll t w))
        unfold PollOk at h
        split at h <;> rename_i heq <;> rw [heq] <;> exact h

end Sum

end PollStream

end Lib
