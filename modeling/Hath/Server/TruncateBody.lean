import Hath.Basic
import Hath.Lib.PollStream

/-!
# Hath.Server.TruncateBody — a body cut to a length

`TruncateBody` of `server/util.rs`: passes the frames of an inner body on until
`limit` bytes are through, and then ends with the inner body's next frame. It
is generic in the inner body, as in the source; the inner bodies of this
program are made from streams and have data frames only.

* `pollFrame_ranked` — if the inner body delivers some content, the truncated
  body delivers its first `limit` bytes.
-/

namespace Hath

open Lib

/-- The truncating body: what may still pass, and the inner body. -/
structure TruncateBody (σ : Type) where
  limit : Nat
  inner : σ
deriving DecidableEq, Repr

namespace TruncateBody

section

variable {σ ω ε : Type} (S : PollStream σ ω ε UInt8)

/-- `TruncateBody::new`. -/
def new (inner : σ) (limit : Nat) : TruncateBody σ := { limit, inner }

/-- `TruncateBody::poll_frame`. The limit is looked at only once the inner body
has a frame. -/
def pollFrame (b : TruncateBody σ) (w : ω) :
    TruncateBody σ × Poll (Option (Except ε Bytes)) :=
  match S.poll b.inner w with
  | (inner, .pending) => ({ b with inner }, .pending)
  | (inner, .ready none) => ({ b with inner }, .ready none)
  | (inner, .ready (some (.ok data))) =>
      if b.limit = 0 then ({ b with inner }, .ready none)
      else if data.length > b.limit then
        ({ limit := 0, inner }, .ready (some (.ok (data.take b.limit))))
      else ({ limit := b.limit - data.length, inner }, .ready (some (.ok data)))
  | (inner, .ready (some (.error e))) => ({ b with inner }, .ready (some (.error e)))

/-- The truncating body as a stream. -/
def stream : PollStream (TruncateBody σ) ω ε UInt8 where
  poll := pollFrame S

end

/-! ## Delivery -/

variable {σ ω ε : Type} {S : PollStream σ ω ε UInt8} {admitted works : ω → Prop}
  {Inv : σ → Prop} {rest : σ → Bytes} {rank : σ → Nat}

/-- One poll of the truncated body: each of the source's branches lets through
the part of the inner frame that is below the limit. -/
theorem pollFrame_ok (b : TruncateBody σ) (w : ω)
    (h : PollStream.PollOk works Inv rest rank b.inner w (S.poll b.inner w)) :
    PollStream.PollOk works (fun b => Inv b.inner) (fun b => (rest b.inner).take b.limit)
      (fun b => rank b.inner) b w (pollFrame S b w) := by
  unfold pollFrame
  unfold PollStream.PollOk at h
  split at h <;> rename_i heq <;> rw [heq]
  · rcases h with ⟨hi, hrest, hle, hlt⟩
    exact ⟨hi, congrArg (List.take b.limit) hrest, hle, hlt⟩
  · rename_i inner data
    rcases h with ⟨hi, hrest, hlt⟩
    dsimp only
    split
    · -- everything has passed: the frame is dropped and the body ends
      rename_i h0
      show (rest b.inner).take b.limit = []
      rw [h0, List.take_zero]
    split
    · -- the frame is cut and the limit used up
      rename_i hlong
      refine ⟨hi, ?_, hlt⟩
      show (rest b.inner).take b.limit = data.take b.limit ++ (rest inner).take 0
      rw [hrest, List.take_append, Nat.sub_eq_zero_of_le (Nat.le_of_lt hlong)]
    · -- the frame passes whole and the limit counts down
      rename_i hshort
      refine ⟨hi, ?_, hlt⟩
      show (rest b.inner).take b.limit = data ++ (rest inner).take (b.limit - data.length)
      rw [hrest, List.take_append, List.take_of_length_le (Nat.le_of_not_lt hshort)]
  · exact absurd h id
  · have hnil : rest b.inner = [] := h
    show (rest b.inner).take b.limit = []
    rw [hnil, List.take_nil]

/-- A truncated body delivers the first `limit` bytes of what the inner body
delivers. -/
theorem pollFrame_ranked (hS : PollStream.Ranked S admitted works Inv rest rank) :
    PollStream.Ranked (stream S) admitted works (fun b => Inv b.inner)
      (fun b => (rest b.inner).take b.limit) (fun b => rank b.inner) where
  poll_ok b w hb hw := pollFrame_ok b w (hS.poll_ok b.inner w hb hw)

end TruncateBody

end Hath
