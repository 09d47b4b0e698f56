import Hath.Lib.Loop
import Hath.Server.TruncateBody

/-!
# Hath.Server.TruncateSound — a cut body from its first poll to its end

The three methods of `TruncateBody` over whole runs: any inner body, polled any number
of times in any environment. `poll_frame` polls the inner body once, so the two run in
step; `size_hint` and `is_end_stream` are asked at any point between two polls.

Bodies made from streams have no trailers, so every frame is a data frame.

The limit is looked at only after the inner body has been polled. An inner error is
passed on even if the limit has been used up, and the sender of `accept_loop_h3` resets
the stream for it.

* `collect_take` — the data of the cut body is the beginning of the inner data;
* `truncate_sound` — data, hint and end of the cut body at every point of a run;
* `truncate_errors_iff` — when an error comes after the last byte.
-/

namespace Hath

open Lib

/-! ## Size hints -/

/-- `http_body::SizeHint`. -/
structure SizeHint where
  lower : Nat
  upper : Option Nat
deriving DecidableEq, Repr

namespace SizeHint

/-- `set_upper`, which asserts that the new bound is not below the lower one. -/
def setUpper (hint : SizeHint) (value : Nat) : Option SizeHint :=
  if hint.lower ≤ value then some { hint with upper := some value } else none

/-- `set_exact`. -/
def setExact (_ : SizeHint) (value : Nat) : SizeHint := { lower := value, upper := some value }

/-- The hint brackets an amount of which `amount m` is there after `m` more polls. -/
structure Brackets (hint : SizeHint) (amount : Nat → Nat) : Prop where
  lower : ∃ m, hint.lower ≤ amount m
  upper : ∀ u, hint.upper = some u → ∀ m, amount m ≤ u

end SizeHint

namespace TruncateBody

variable {σ ω ε : Type}

/-- `size_hint`; a failed assertion is `none`. -/
def sizeHint (hint : σ → SizeHint) (b : TruncateBody σ) : Option SizeHint :=
  let inner := hint b.inner
  if b.limit ≤ inner.lower then some (inner.setExact b.limit)
  else match inner.upper with
    | some max => inner.setUpper (min b.limit max)
    | none => inner.setUpper b.limit

/-- `is_end_stream`. -/
def isEndStream (isEnd : σ → Bool) (b : TruncateBody σ) : Bool := isEnd b.inner

/-! ## In step with the inner body -/

section

variable {S : PollStream σ ω ε UInt8}

theorem pollFrame_inner (b : TruncateBody σ) (w : ω) :
    (pollFrame S b w).1.inner = (S.poll b.inner w).1 := by
  unfold pollFrame
  rcases S.poll b.inner w with ⟨inner, _ | (_ | e | data)⟩
  · rfl
  · rfl
  · rfl
  · dsimp only
    split
    · rfl
    · split <;> rfl

theorem after_inner (b : TruncateBody σ) (ws : List ω) :
    ((stream S).after b ws).inner = S.after b.inner ws := by
  induction ws generalizing b with
  | nil => rfl
  | cons w ws ih =>
      rw [PollStream.after_cons, PollStream.after_cons, ih]
      exact congrArg (S.after · ws) (pollFrame_inner b w)

theorem poll_pending {b : TruncateBody σ} {w : ω} {inner : σ}
    (h : S.poll b.inner w = (inner, .pending)) :
    (stream S).poll b w = ({ b with inner }, .pending) := by
  show pollFrame S b w = _
  rw [pollFrame, h]

theorem poll_end {b : TruncateBody σ} {w : ω} {inner : σ}
    (h : S.poll b.inner w = (inner, .ready none)) :
    (stream S).poll b w = ({ b with inner }, .ready none) := by
  show pollFrame S b w = _
  rw [pollFrame, h]

theorem poll_error {b : TruncateBody σ} {w : ω} {inner : σ} {e : ε}
    (h : S.poll b.inner w = (inner, .ready (some (.error e)))) :
    (stream S).poll b w = ({ b with inner }, .ready (some (.error e))) := by
  show pollFrame S b w = _
  rw [pollFrame, h]

/-- A frame of the inner body, and what becomes of it. -/
theorem poll_data {b : TruncateBody σ} {w : ω} {inner : σ} {data : Bytes}
    (h : S.poll b.inner w = (inner, .ready (some (.ok data)))) :
    (b.limit = 0 ∧ (stream S).poll b w = ({ b with inner }, .ready none)) ∨
    (0 < b.limit ∧ (stream S).poll b w =
      ({ limit := b.limit - data.length, inner }, .ready (some (.ok (data.take b.limit))))) := by
  show (_ ∧ pollFrame S b w = _) ∨ (_ ∧ pollFrame S b w = _)
  unfold pollFrame
  rw [h]
  dsimp only
  split
  · rename_i h0
    exact .inl ⟨h0, rfl⟩
  · rename_i h0
    refine .inr ⟨Nat.pos_of_ne_zero h0, ?_⟩
    split
    · rename_i hlong
      rw [Nat.sub_eq_zero_of_le (Nat.le_of_lt hlong)]
    · rename_i hshort
      rw [List.take_of_length_le (Nat.le_of_not_lt hshort)]

/-- The data of the cut body is the beginning of the inner data. -/
theorem collect_take (ws : List ω) (b : TruncateBody σ) :
    ((stream S).collect b ws).1 = (S.collect b.inner ws).1.take b.limit := by
  induction ws generalizing b with
  | nil => exact (List.take_nil).symm
  | cons w ws ih =>
      rcases hpoll : S.poll b.inner w with ⟨inner, _ | (_ | e | data)⟩
      · rw [PollStream.collect_pending hpoll, PollStream.collect_pending (poll_pending hpoll), ih]
      · rw [PollStream.collect_end hpoll, PollStream.collect_end (poll_end hpoll), List.take_nil]
      · rw [PollStream.collect_error hpoll, PollStream.collect_error (poll_error hpoll),
          List.take_nil]
      · rw [PollStream.collect_data hpoll]
        rcases poll_data hpoll with ⟨h0, hframe⟩ | ⟨hpos, hframe⟩
        · rw [PollStream.collect_end hframe, h0, List.take_zero]
        · rw [PollStream.collect_data hframe, ih, List.take_append]

/-- The cut body is open only while the inner one is. -/
theorem collect_streaming {ws : List ω} {b : TruncateBody σ}
    (h : ((stream S).collect b ws).2 = .streaming) : (S.collect b.inner ws).2 = .streaming := by
  induction ws generalizing b with
  | nil => rfl
  | cons w ws ih =>
      rcases hpoll : S.poll b.inner w with ⟨inner, _ | (_ | e | data)⟩
      · rw [PollStream.collect_pending (poll_pending hpoll)] at h
        rw [PollStream.collect_pending hpoll]
        exact ih h
      · rw [PollStream.collect_end (poll_end hpoll)] at h
        cases h
      · rw [PollStream.collect_error (poll_error hpoll)] at h
        cases h
      · rw [PollStream.collect_data hpoll]
        rcases poll_data hpoll with ⟨-, hframe⟩ | ⟨-, hframe⟩
        · rw [PollStream.collect_end hframe] at h
          cases h
        · rw [PollStream.collect_data hframe] at h
          exact ih h

/-- It ends with the inner body, or when the limit has been used up. -/
theorem collect_ended {ws : List ω} {b : TruncateBody σ}
    (h : ((stream S).collect b ws).2 = .ended) :
    (S.collect b.inner ws).2 = .ended ∨ b.limit ≤ (S.collect b.inner ws).1.length := by
  induction ws generalizing b with
  | nil => cases h
  | cons w ws ih =>
      rcases hpoll : S.poll b.inner w with ⟨inner, _ | (_ | e | data)⟩
      · rw [PollStream.collect_pending (poll_pending hpoll)] at h
        rw [PollStream.collect_pending hpoll]
        exact ih h
      · rw [PollStream.collect_end hpoll]
        exact .inl rfl
      · rw [PollStream.collect_error (poll_error hpoll)] at h
        cases h
      · rw [PollStream.collect_data hpoll]
        rcases poll_data hpoll with ⟨h0, -⟩ | ⟨-, hframe⟩
        · rw [h0]
          exact .inr (Nat.zero_le _)
        · rw [PollStream.collect_data hframe] at h
          rcases ih h with hend | hlen
          · exact .inl hend
          · refine .inr ?_
            have hlen : b.limit - data.length ≤ (S.collect inner ws).1.length := hlen
            rw [List.length_append]
            omega

/-- After the end of the cut body, more inner data changes nothing. -/
theorem collect_ended_take {ws : List ω} {b : TruncateBody σ}
    (h : ((stream S).collect b ws).2 = .ended) (ws' : List ω) :
    (S.collect b.inner (ws ++ ws')).1.take b.limit = ((stream S).collect b ws).1 := by
  rw [collect_take]
  by_cases hopen : (S.collect b.inner ws).2 = .streaming
  · rcases collect_ended h with hend | hlen
    · rw [hend] at hopen
      cases hopen
    · rw [PollStream.collect_append hopen]
      exact List.take_append_of_le_length hlen
  · rw [PollStream.collect_append_stopped hopen]

end

/-! ## Data, hint and end -/

section

variable {S : PollStream σ ω ε UInt8}

/-- How many bytes the next `m` polls bring. -/
def coming (S : PollStream σ ω ε UInt8) (s : σ) (w : Nat → ω) (m : Nat) : Nat :=
  (S.collect s (Loop.firsts w m)).1.length

/-- What an inner body says about itself at a point of its run is true. -/
structure Honest (S : PollStream σ ω ε UInt8) (hint : σ → SizeHint) (isEnd : σ → Bool) (s : σ)
    (w : Nat → ω) : Prop where
  order : ∀ u, (hint s).upper = some u → (hint s).lower ≤ u
  brackets : (hint s).Brackets (coming S s w)
  ended : isEnd s = true → ∀ m, coming S s w m = 0

theorem coming_stream (b : TruncateBody σ) (w : Nat → ω) (m : Nat) :
    coming (stream S) b w m = min b.limit (coming S b.inner w m) := by
  unfold coming
  rw [collect_take, List.length_take]

/-- Each branch of `size_hint` keeps the bounds in order and around what is to come. -/
theorem sizeHint_brackets {hint : σ → SizeHint} {isEnd : σ → Bool} {b : TruncateBody σ}
    {w : Nat → ω} (h : Honest S hint isEnd b.inner w) :
    ∃ out, sizeHint hint b = some out ∧ (∀ u, out.upper = some u → out.lower ≤ u) ∧
      out.Brackets (coming (stream S) b w) := by
  rcases h.brackets.lower with ⟨m, hm⟩
  have hcut (u : Nat) (hu : ∀ m, coming S b.inner w m ≤ u) (m : Nat) :
      coming (stream S) b w m ≤ min b.limit u := by
    rw [coming_stream]
    have := hu m
    omega
  have hlimit (m : Nat) : coming (stream S) b w m ≤ b.limit := by
    rw [coming_stream]
    exact Nat.min_le_left _ _
  unfold sizeHint
  dsimp only
  split
  · -- the inner body has at least as much
    rename_i hle
    refine ⟨_, rfl, fun u hu => Nat.le_of_eq (Option.some.inj hu), ⟨m, ?_⟩, ?_⟩
    · rw [coming_stream]
      exact Nat.le_min.mpr ⟨Nat.le_refl _, Nat.le_trans hle hm⟩
    · intro u hu m
      cases hu
      exact hlimit m
  · rename_i hlt
    have hlower : (hint b.inner).lower ≤ coming (stream S) b w m := by
      rw [coming_stream]
      omega
    split
    · rename_i max hmax
      have hord := h.order max hmax
      refine ⟨_, if_pos (by omega), ?_, ⟨m, hlower⟩, ?_⟩
      · intro u hu
        cases hu
        show (hint b.inner).lower ≤ min b.limit max
        omega
      · intro u hu
        cases hu
        exact hcut max (h.brackets.upper max hmax)
    · refine ⟨_, if_pos (by omega), ?_, ⟨m, hlower⟩, ?_⟩
      · intro u hu
        cases hu
        show (hint b.inner).lower ≤ b.limit
        omega
      · intro u hu
        cases hu
        exact hlimit

end

/-- **A cut body is sound over a sound inner body, at every point of every run.** -/
theorem truncate_sound (S : PollStream σ ω ε UInt8) (hint : σ → SizeHint) (isEnd : σ → Bool)
    (s : σ) (limit : Nat) (w : Nat → ω)
    (hhonest : ∀ n, (S.collect s (Loop.firsts w n)).2 = .streaming →
      Honest S hint isEnd (S.after s (Loop.firsts w n)) fun i => w (n + i)) (n : Nat) :
    (∀ m, ((stream S).collect (new s limit) (Loop.firsts w n)).1 <+:
      (S.collect s (Loop.firsts w (n + m))).1.take limit) ∧
    (((stream S).collect (new s limit) (Loop.firsts w n)).2 = .ended → ∀ m,
      ((stream S).collect (new s limit) (Loop.firsts w n)).1 =
        (S.collect s (Loop.firsts w (n + m))).1.take limit) ∧
    (((stream S).collect (new s limit) (Loop.firsts w n)).2 = .streaming →
      let b := (stream S).after (new s limit) (Loop.firsts w n)
      (∃ out, sizeHint hint b = some out ∧ (∀ u, out.upper = some u → out.lower ≤ u) ∧
        out.Brackets (coming (stream S) b fun i => w (n + i))) ∧
      (isEndStream isEnd b = true → ∀ m, coming (stream S) b (fun i => w (n + i)) m = 0)) := by
  refine ⟨?_, ?_, ?_⟩
  · intro m
    rw [collect_take, Loop.firsts_add]
    exact (PollStream.collect_mono S s _ _).take limit
  · intro hend m
    rw [Loop.firsts_add]
    exact (collect_ended_take hend _).symm
  · intro hopen
    have hinner := hhonest n (collect_streaming hopen)
    have hat : ((stream S).after (new s limit) (Loop.firsts w n)).inner =
        S.after s (Loop.firsts w n) := after_inner _ _
    rw [← hat] at hinner
    refine ⟨sizeHint_brackets hinner, ?_⟩
    intro hlast m
    rw [coming_stream, hinner.ended hlast m, Nat.min_zero]

/-! ## A body from a script -/

/-- A body that gives the answers of a list: `none` is a pending poll. -/
def script : PollStream (List (Option (Except IoError Bytes))) Unit IoError UInt8 where
  poll
    | [], _ => ([], .ready none)
    | none :: rest, _ => (rest, .pending)
    | some answer :: rest, _ => (rest, .ready (some answer))

/-- The data of a script, up to an error. -/
def scriptBytes : List (Option (Except IoError Bytes)) → Bytes
  | [] => []
  | none :: rest => scriptBytes rest
  | some (.ok data) :: rest => data ++ scriptBytes rest
  | some (.error _) :: _ => []

/-- The exact hint. -/
def scriptHint (s : List (Option (Except IoError Bytes))) : SizeHint :=
  { lower := (scriptBytes s).length, upper := some (scriptBytes s).length }

theorem collect_script (s : List (Option (Except IoError Bytes))) (ws : List Unit) :
    (script.collect s ws).1 <+: scriptBytes s ∧
      (s.length < ws.length → (script.collect s ws).1 = scriptBytes s) := by
  induction ws generalizing s with
  | nil => exact ⟨List.nil_prefix, nofun⟩
  | cons w ws ih =>
      cases s with
      | nil =>
          have hpoll : script.poll [] w = ([], .ready none) := rfl
          rw [PollStream.collect_end hpoll]
          exact ⟨List.nil_prefix, fun _ => rfl⟩
      | cons answer rest =>
          have hshort (h : (answer :: rest).length < (w :: ws).length) :
              rest.length < ws.length := by
            simpa using h
          rcases answer with _ | (e | data)
          · have hpoll : script.poll (none :: rest) w = (rest, .pending) := rfl
            rw [PollStream.collect_pending hpoll]
            exact ⟨(ih rest).1, fun h => (ih rest).2 (hshort h)⟩
          · have hpoll : script.poll (some (.error e) :: rest) w =
                (rest, .ready (some (.error e))) := rfl
            rw [PollStream.collect_error hpoll]
            exact ⟨List.nil_prefix, fun _ => rfl⟩
          · have hpoll : script.poll (some (.ok data) :: rest) w =
                (rest, .ready (some (.ok data))) := rfl
            rw [PollStream.collect_data hpoll]
            refine ⟨(List.prefix_append_right_inj data).mpr (ih rest).1, ?_⟩
            intro h
            exact congrArg (data ++ ·) ((ih rest).2 (hshort h))

theorem script_honest (s : List (Option (Except IoError Bytes))) (w : Nat → Unit) :
    Honest script scriptHint (·.isEmpty) s w where
  order u hu := Nat.le_of_eq (Option.some.inj hu)
  brackets := by
    refine ⟨⟨s.length + 1, ?_⟩, ?_⟩
    · refine Nat.le_of_eq (congrArg List.length ((collect_script s _).2 ?_).symm)
      simp [Loop.firsts]
    · intro u hu m
      cases hu
      exact (collect_script s _).1.length_le
  ended hend m := by
    rw [List.isEmpty_iff.mp hend]
    exact Nat.le_zero.mp (collect_script [] (Loop.firsts w m)).1.length_le

/-- Four bytes cut to three, after a pending poll. -/
theorem truncate_sound_abcd :
    (∃ out, sizeHint scriptHint ((stream script).after
        (new [none, some (.ok [97, 98, 99, 100])] 3) (Loop.firsts (fun _ => ()) 1)) = some out ∧
      (∀ u, out.upper = some u → out.lower ≤ u) ∧
      out.Brackets (coming (stream script) ((stream script).after
        (new [none, some (.ok [97, 98, 99, 100])] 3) (Loop.firsts (fun _ => ()) 1)) fun _ => ())) ∧
    ((stream script).collect (new [none, some (.ok [97, 98, 99, 100])] 3)
        (Loop.firsts (fun _ => ()) 3)).2 = .ended ∧
    ((stream script).collect (new [none, some (.ok [97, 98, 99, 100])] 3)
      (Loop.firsts (fun _ => ()) 3)).1 = [97, 98, 99] := by
  have hsound := truncate_sound script scriptHint (·.isEmpty)
    [none, some (.ok [97, 98, 99, 100])] 3 (fun _ => ()) fun n _ => script_honest _ _
  refine ⟨((hsound 1).2.2 (by decide)).1, by decide, ?_⟩
  exact (hsound 3).2.1 (by decide) 0

/-! ## Errors -/

/-- What became of a response over HTTP/3. -/
inductive Sent where
  | sending
  | finished
  /-- `stop_stream(H3_INTERNAL_ERROR)`. -/
  | reset
  /-- `send_data` has failed. -/
  | gone
deriving DecidableEq, Repr

/-- `send_body` of `accept_loop_h3`: what has been sent of a body after these polls, each
with whether the data could be sent. -/
def sendBody {τ : Type} (T : PollStream τ ω ε UInt8) : τ → List (ω × Bool) → Bytes × Sent
  | _, [] => ([], .sending)
  | t, (w, ok) :: ws =>
      match T.poll t w with
      | (t', .pending) => sendBody T t' ws
      | (_, .ready none) => ([], .finished)
      | (_, .ready (some (.error _))) => ([], .reset)
      | (t', .ready (some (.ok data))) =>
          if ok then (data ++ (sendBody T t' ws).1, (sendBody T t' ws).2) else ([], .gone)

/-- The frames of a run, up to its end or an error. -/
def frames (S : PollStream σ ω ε UInt8) : σ → List ω → List Bytes
  | _, [] => []
  | s, w :: ws =>
      match S.poll s w with
      | (s', .pending) => frames S s' ws
      | (_, .ready none) => []
      | (_, .ready (some (.error _))) => []
      | (s', .ready (some (.ok data))) => data :: frames S s' ws

/-- Without the last frame there are less than `limit` bytes, so no frame came after the
limit was reached. -/
def Open (limit : Nat) (frames : List Bytes) : Prop :=
  frames = [] ∨ frames.dropLast.flatten.length < limit

/-- The inner body fails in its first answer after `limit` bytes. -/
def LateError (S : PollStream σ ω ε UInt8) (s : σ) (limit : Nat) (ws : List ω) : Prop :=
  (∃ e, (S.collect s ws).2 = .failed e) ∧ limit ≤ (S.collect s ws).1.length ∧
    Open limit (frames S s ws)

section

variable {S : PollStream σ ω ε UInt8}

theorem open_cons {limit : Nat} (hpos : 0 < limit) (data : Bytes) (fs : List Bytes) :
    Open limit (data :: fs) ↔ Open (limit - data.length) fs := by
  unfold Open
  cases fs with
  | nil => simp [hpos]
  | cons f fs =>
      rw [List.dropLast_cons_cons, List.flatten_cons, List.length_append]
      simp only [reduceCtorEq, false_or]
      omega

theorem not_open_zero (data : Bytes) (fs : List Bytes) : ¬ Open 0 (data :: fs) := by
  rintro (h | h)
  · cases h
  · exact Nat.not_lt_zero _ h

/-- The cut body passes an inner error on unless a frame after the limit has ended it. -/
theorem failed_iff (ws : List ω) (b : TruncateBody σ) (e : ε) :
    ((stream S).collect b ws).2 = .failed e ↔
      (S.collect b.inner ws).2 = .failed e ∧ Open b.limit (frames S b.inner ws) := by
  induction ws generalizing b with
  | nil =>
      constructor
      · nofun
      · nofun
  | cons w ws ih =>
      unfold frames
      rcases hpoll : S.poll b.inner w with ⟨inner, _ | (_ | e' | data)⟩
      · rw [PollStream.collect_pending (poll_pending hpoll), PollStream.collect_pending hpoll]
        exact ih _
      · rw [PollStream.collect_end (poll_end hpoll), PollStream.collect_end hpoll]
        simp
      · rw [PollStream.collect_error (poll_error hpoll), PollStream.collect_error hpoll]
        simp [Open]
      · rw [PollStream.collect_data hpoll]
        rcases poll_data hpoll with ⟨h0, hframe⟩ | ⟨hpos, hframe⟩
        · rw [PollStream.collect_end hframe, h0]
          simp [not_open_zero]
        · rw [PollStream.collect_data hframe]
          dsimp only
          rw [open_cons hpos]
          exact ih _

/-- The stream is reset for an error of the body, with the data before it sent. -/
theorem failed_of_reset {τ : Type} {T : PollStream τ ω ε UInt8} {ws : List (ω × Bool)} {t : τ}
    (h : (sendBody T t ws).2 = .reset) :
    ∃ e, T.collect t (ws.map Prod.fst) = ((sendBody T t ws).1, .failed e) := by
  induction ws generalizing t with
  | nil => cases h
  | cons head ws ih =>
      rcases head with ⟨w, ok⟩
      rw [List.map_cons]
      rcases hpoll : T.poll t w with ⟨t', _ | (_ | e | data)⟩
      · rw [sendBody, hpoll] at h ⊢
        rw [PollStream.collect_pending hpoll]
        exact ih h
      · rw [sendBody, hpoll] at h
        cases h
      · rw [sendBody, hpoll, PollStream.collect_error hpoll]
        exact ⟨e, rfl⟩
      · rw [sendBody, hpoll] at h ⊢
        rw [PollStream.collect_data hpoll]
        dsimp only at h ⊢
        split at h
        · rename_i hok
          rcases ih h with ⟨e, he⟩
          rw [if_pos hok, he]
          exact ⟨e, rfl⟩
        · cases h

theorem failed_early_iff (s : σ) (limit : Nat) (ws : List ω) :
    (∀ e, ((stream S).collect (new s limit) ws).2 = .failed e →
      ((stream S).collect (new s limit) ws).1.length < limit) ↔ ¬ LateError S s limit ws := by
  have hlen : ((stream S).collect (new s limit) ws).1.length =
      min limit (S.collect s ws).1.length := by
    rw [collect_take, List.length_take]
    rfl
  constructor
  · rintro h ⟨⟨e, hfail⟩, hlate, hopen⟩
    have hcut := h e ((failed_iff ws (new s limit) e).mpr ⟨hfail, hopen⟩)
    omega
  · intro h e hcut
    rcases (failed_iff ws (new s limit) e).mp hcut with ⟨hfail, hopen⟩
    by_contra hlate
    exact h ⟨⟨e, hfail⟩, by omega, hopen⟩

end

/-- **A cut body fails, and an HTTP/3 response of it is reset, before the last byte only,
exactly if the inner body does not fail in its first answer after the limit.** -/
theorem truncate_errors_iff (S : PollStream σ ω ε UInt8) (s : σ) (limit : Nat)
    (ws : List (ω × Bool)) :
    ((∀ e, ((stream S).collect (new s limit) (ws.map Prod.fst)).2 = .failed e →
        ((stream S).collect (new s limit) (ws.map Prod.fst)).1.length < limit) ∧
      ((sendBody (stream S) (new s limit) ws).2 = .reset →
        (sendBody (stream S) (new s limit) ws).1.length < limit)) ↔
    ¬ LateError S s limit (ws.map Prod.fst) := by
  rw [← failed_early_iff]
  constructor
  · intro h
    exact h.1
  · intro h
    refine ⟨h, ?_⟩
    intro hreset
    rcases failed_of_reset hreset with ⟨e, he⟩
    have hearly := h e (by rw [he])
    rw [he] at hearly
    exact hearly

/-- Three bytes, cut at three, and then an error: the response is reset although all of it
has been sent. -/
theorem late_error_resets :
    ((stream script).collect (new [some (.ok [97, 98, 99]), some (.error .os)] 3) [(), ()]) =
        ([97, 98, 99], .failed .os) ∧
      sendBody (stream script) (new [some (.ok [97, 98, 99]), some (.error .os)] 3)
        [((), true), ((), true)] = ([97, 98, 99], .reset) := by
  decide

end TruncateBody

end Hath
