import Hath.Basic
import Hath.Lib.Splice

/-!
# Hath.Server.DateHeader — the cached `Date` header

`date_header.rs` keeps the rendered date of a thread and renders it again when the clock has
gone past `next_update`, the start of the next second. The date is written piece by piece
into a buffer of its length, over the one before. Times are nanoseconds since 1970, and a
`SystemTime` may go back.

The pieces that `HttpDate` writes for a second are a parameter; `none` stands for a panic.

* `render_spec` — the buffer holds the date, whatever it held before;
* `date_current` — the header over any history of calls.
-/

namespace Hath.DateHeader

open Lib

/-! ## Definitions -/

/-- `DATE_VALUE_LENGTH`. -/
def dateValueLength : Nat := 29

structure CachedDate where
  bytes : Bytes
  pos : Nat
  headerValue : Bytes
  nextUpdate : Int
deriving DecidableEq

/-- What `HeaderValue::from_bytes` takes. -/
def visible (b : UInt8) : Bool := (32 ≤ b ∧ b ≠ 127) ∨ b = 9

/-- `Duration::new(1, 0)`, in nanoseconds. -/
def second : Int := 1000000000

/-- The second of a time since 1970. -/
def secondOf (time : Int) : Nat := (time / second).toNat

section

variable (date : Nat → List Bytes)

/-- `write_str`: the slice must be within the buffer. -/
def CachedDate.writeStr (c : CachedDate) (s : Bytes) : Option CachedDate :=
  if c.pos + s.length ≤ c.bytes.length then
    some { c with bytes := splice 0 c.bytes c.pos s, pos := c.pos + s.length }
  else none

/-- `HttpDate::from`, and what is written of it. -/
def pieces (now : Int) : Option (List Bytes) :=
  if 0 ≤ now ∧ now / second < 253402300800 then some (date (secondOf now)) else none

/-- `render_http2`. -/
def CachedDate.renderHttp2 (c : CachedDate) : Option CachedDate :=
  if c.bytes.all visible then some { c with headerValue := c.bytes } else none

/-- `render`. -/
def CachedDate.render (c : CachedDate) (now : Int) : Option CachedDate := do
  let date ← pieces date now
  let c ← date.foldlM CachedDate.writeStr { c with pos := 0 }
  c.renderHttp2

/-- `update`. -/
def CachedDate.update (c : CachedDate) (now : Int) : Option CachedDate := do
  let nanos := if 0 ≤ now then now % second else 0
  let c ← c.render date now
  some { c with nextUpdate := now + second - nanos }

/-- `new`, at a reading of the clock. -/
def CachedDate.new (now : Int) : Option CachedDate :=
  CachedDate.update date ⟨List.replicate dateValueLength 0, 0, [], now⟩ now

/-- `check`, at a reading of the clock. -/
def CachedDate.check (c : CachedDate) (now : Int) : Option CachedDate :=
  if c.nextUpdate < now then c.update date now else some c

/-- The calls of `update_and_header_value` in a thread, the first at `start`. -/
def calls (start : Int) (times : List Int) : Option CachedDate := do
  let c ← CachedDate.new date start
  times.foldlM (CachedDate.check date) c

end

/-- The dates are what `HttpDate` writes: `Sun, 06 Nov 1994 08:49:37 GMT`. -/
structure Fixed (date : Nat → List Bytes) : Prop where
  length : ∀ n, (date n).flatten.length = dateValueLength
  visible : ∀ n, (date n).flatten.all visible = true

/-- A time after 1970 and before the year 9999. -/
def InRange (time : Int) : Prop := 0 ≤ time ∧ time / second < 253402300800

instance (time : Int) : Decidable (InRange time) := inferInstanceAs (Decidable (_ ∧ _))

/-! ## Rendering -/

theorem splice_at {file data : Bytes} {pos : Nat} (h : pos + data.length ≤ file.length) :
    splice 0 file pos data = file.take pos ++ data ++ file.drop (pos + data.length) := by
  unfold splice
  rw [Nat.sub_eq_zero_of_le (by omega), List.replicate_zero, List.append_nil]

/-- The pieces come one behind the other, and the buffer keeps its length. -/
theorem write_spec (strs : List Bytes) {c : CachedDate}
    (h : c.pos + strs.flatten.length ≤ c.bytes.length) :
    ∃ c', strs.foldlM CachedDate.writeStr c = some c' ∧ c'.bytes.length = c.bytes.length ∧
      c'.bytes.take (c.pos + strs.flatten.length) = c.bytes.take c.pos ++ strs.flatten ∧
      c'.nextUpdate = c.nextUpdate := by
  induction strs generalizing c with
  | nil =>
      refine ⟨c, rfl, rfl, ?_, rfl⟩
      simp
  | cons s strs ih =>
      rw [List.flatten_cons, List.length_append] at h
      have hs : c.pos + s.length ≤ c.bytes.length := by omega
      have hwritten := splice_at hs
      have hlength : (splice 0 c.bytes c.pos s).length = c.bytes.length := by
        rw [hwritten]
        simp only [List.length_append, List.length_take, List.length_drop]
        omega
      have hnext : c.writeStr s =
          some { c with bytes := splice 0 c.bytes c.pos s, pos := c.pos + s.length } := if_pos hs
      rcases ih (c := { c with bytes := splice 0 c.bytes c.pos s, pos := c.pos + s.length })
        (by dsimp only; omega) with ⟨c', hc', hbytes, htake, hupdate⟩
      refine ⟨c', ?_, hbytes.trans hlength, ?_, hupdate⟩
      · rw [List.foldlM_cons, hnext]
        exact hc'
      · -- the first piece stands before the others
        have hfirst : (splice 0 c.bytes c.pos s).take (c.pos + s.length) =
            c.bytes.take c.pos ++ s := by
          rw [hwritten]
          refine List.take_left' ?_
          rw [List.length_append, List.length_take]
          omega
        rw [List.flatten_cons, List.length_append, ← Nat.add_assoc, htake, hfirst,
          List.append_assoc]

section

variable {date : Nat → List Bytes}

/-- The date fills the buffer. -/
theorem render_spec (hdate : Fixed date) {c : CachedDate}
    (hc : c.bytes.length = dateValueLength) {now : Int}
    (hnow : InRange now) :
    ∃ c', c.render date now = some c' ∧ c'.bytes.length = dateValueLength ∧
      c'.headerValue = (date (secondOf now)).flatten := by
  have hlength := hdate.length (secondOf now)
  rcases write_spec (date (secondOf now)) (c := { c with pos := 0 }) (by dsimp only; omega) with
    ⟨c', hc', hbytes, htake, -⟩
  have hfull : c'.bytes = (date (secondOf now)).flatten := by
    rw [Nat.zero_add, List.take_of_length_le (by dsimp only at hbytes; omega)] at htake
    exact htake
  refine ⟨{ c' with headerValue := c'.bytes }, ?_, hbytes.trans hc, hfull⟩
  have hpieces : pieces date now = some (date (secondOf now)) := if_pos hnow
  have hvisible : c'.renderHttp2 = some { c' with headerValue := c'.bytes } := by
    unfold CachedDate.renderHttp2
    rw [if_pos (by rw [hfull]; exact hdate.visible _)]
  unfold CachedDate.render
  rw [hpieces, Option.bind_eq_bind, Option.bind_some, hc', Option.bind_eq_bind, Option.bind_some,
    hvisible]

/-- The cache has the date of a second that was read, and the end of that second. -/
structure Current (date : Nat → List Bytes) (read : List Int) (c : CachedDate) (h : Nat) :
    Prop where
  length : c.bytes.length = dateValueLength
  header : c.headerValue = (date h).flatten
  next : c.nextUpdate = (h + 1) * second
  read : ∃ time ∈ read, 0 ≤ time ∧ secondOf time = h

theorem update_spec (hdate : Fixed date) {c : CachedDate}
    (hc : c.bytes.length = dateValueLength) {now : Int}
    (hnow : InRange now) {read : List Int} (hread : now ∈ read) :
    ∃ c', c.update date now = some c' ∧ Current date read c' (secondOf now) := by
  rcases render_spec hdate hc hnow with ⟨c', hc', hbytes, hheader⟩
  refine ⟨{ c' with nextUpdate := now + second - now % second }, ?_, hbytes, hheader, ?_,
    now, hread, hnow.1, rfl⟩
  · unfold CachedDate.update
    rw [hc', if_pos hnow.1]
    rfl
  · have hlow := hnow.1
    unfold secondOf second
    dsimp only
    omega

/-- A call keeps the date of a second that has been read; it is that of the time of the
call, or the clock has not gone past its end. -/
theorem check_spec (hdate : Fixed date) {c : CachedDate} {read : List Int} {h : Nat}
    (hc : Current date read c h) {now : Int} (hnow : InRange now) :
    ∃ c' h', c.check date now = some c' ∧ Current date (now :: read) c' h' ∧
      (h' = secondOf now ∨ now ≤ (h' + 1) * second) := by
  unfold CachedDate.check
  split
  · rcases update_spec hdate hc.length hnow List.mem_cons_self with ⟨c', hc', hcurrent⟩
    exact ⟨c', _, hc', hcurrent, .inl rfl⟩
  · rename_i hlate
    rcases hc.read with ⟨time, hmem, hread⟩
    refine ⟨c, h, rfl,
      ⟨hc.length, hc.header, hc.next, time, List.mem_cons_of_mem _ hmem, hread⟩, ?_⟩
    right
    rw [← hc.next]
    exact Int.not_lt.mp hlate

/-- The same over a list of calls. -/
theorem checks_spec (hdate : Fixed date) (times : List Int) {c : CachedDate} {read : List Int}
    {h : Nat} (hc : Current date read c h) (hrange : ∀ time ∈ times, InRange time) :
    ∃ c' h', times.foldlM (CachedDate.check date) c = some c' ∧
      Current date (times.reverse ++ read) c' h' := by
  induction times generalizing c read h with
  | nil => exact ⟨c, h, rfl, hc⟩
  | cons time times ih =>
      rcases check_spec hdate hc (hrange time List.mem_cons_self) with ⟨c', h', hc', hcurrent, -⟩
      rcases ih hcurrent fun t ht => hrange t (List.mem_cons_of_mem _ ht) with
        ⟨c'', h'', hc'', hcurrent'⟩
      refine ⟨c'', h'', ?_, ?_⟩
      · rw [List.foldlM_cons, hc']
        exact hc''
      · rw [List.reverse_cons, List.append_assoc]
        exact hcurrent'

/-- Over any history of calls between 1970 and 9999, also if the clock goes back: no call
panics, and the header is the date of the second of the call, or that of an earlier reading
whose second has not been left behind. If the clock has not gone back, the header is that of
the second of the call, unless the call comes in the first nanosecond of it. -/
theorem date_current (hdate : Fixed date) (start : Int) (times : List Int) (now : Int)
    (hstart : InRange start) (htimes : ∀ time ∈ times, InRange time) (hnow : InRange now) :
    ∃ c h, calls date start (times ++ [now]) = some c ∧ c.headerValue = (date h).flatten ∧
      (h = secondOf now ∨
        now ≤ (h + 1) * second ∧ ∃ time ∈ start :: times, secondOf time = h) ∧
      ((∀ time ∈ start :: times, time ≤ now) → h = secondOf now ∨ now = (h + 1) * second) := by
  rcases update_spec hdate (c := ⟨List.replicate dateValueLength 0, 0, [], start⟩)
    List.length_replicate hstart (List.mem_singleton_self start) with ⟨c, hc, hcurrent⟩
  rcases checks_spec hdate times hcurrent htimes with ⟨c', h', hc', hcurrent'⟩
  rcases check_spec hdate hcurrent' hnow with ⟨c'', h'', hc'', hcurrent'', hlast⟩
  refine ⟨c'', h'', ?_, hcurrent''.header, ?_, ?_⟩
  · show (CachedDate.update date _ start).bind _ = _
    rw [hc, Option.bind_some, List.foldlM_append, hc']
    show (CachedDate.check date c' now).bind _ = _
    rw [hc'']
    rfl
  · rcases hlast with hsame | hlate
    · exact .inl hsame
    · rcases hcurrent''.read with ⟨time, hmem, -, hsecond⟩
      rcases List.mem_cons.mp hmem with rfl | hmem
      · exact .inl hsecond.symm
      · refine .inr ⟨hlate, time, ?_, hsecond⟩
        simpa [or_comm] using hmem
  · intro hforward
    rcases hlast with hsame | hlate
    · exact .inl hsame
    · rcases hcurrent''.read with ⟨time, hmem, hpositive, hsecond⟩
      have hle : time ≤ now := by
        rcases List.mem_cons.mp hmem with rfl | hmem
        · exact Int.le_refl _
        · exact hforward time (by simpa [or_comm] using hmem)
      unfold secondOf second at *
      omega

/-- The date at a second of the first minute of 1970; `HttpDate` writes it in one piece. -/
def minuteDate (second : Nat) : Bytes :=
  ("Thu, 01 Jan 1970 00:00:".toList ++ [Nat.digitChar (second / 10), Nat.digitChar (second % 10)] ++
    " GMT".toList).map fun c => UInt8.ofNat c.toNat

theorem minuteDate_fixed :
    ∀ n < 60, (minuteDate n).length = dateValueLength ∧ (minuteDate n).all visible = true := by
  decide +kernel

/-- The dates of the first minute, which come again with every later one. -/
def firstMinute (n : Nat) : List Bytes := [minuteDate (n % 60)]

theorem firstMinute_fixed : Fixed firstMinute := by
  constructor
  all_goals
    intro n
    have hlt : n % 60 < 60 := Nat.mod_lt _ (by decide)
    rw [firstMinute, List.flatten_singleton]
  · exact (minuteDate_fixed _ hlt).1
  · exact (minuteDate_fixed _ hlt).2

example : firstMinute 4 =
    ["Thu, 01 Jan 1970 00:00:04 GMT".toList.map fun c => UInt8.ofNat c.toNat] := by decide +kernel

/-- A call in the first nanosecond of the fifth second gets the date of the fourth. -/
theorem date_current_boundary :
    ∃ c, calls firstMinute 4200000000 ([4300000000] ++ [5000000000]) = some c ∧
      c.headerValue = (firstMinute 4).flatten := by
  rcases date_current firstMinute_fixed 4200000000 [4300000000] 5000000000 (by decide) (by decide)
    (by decide) with ⟨c, h, hc, hheader, -, -⟩
  have hrun : (calls firstMinute 4200000000 ([4300000000] ++ [5000000000])).map
      CachedDate.headerValue = some (firstMinute 4).flatten := by decide +kernel
  rw [hc] at hrun
  exact ⟨c, hc, Option.some.inj hrun⟩

end

end Hath.DateHeader
