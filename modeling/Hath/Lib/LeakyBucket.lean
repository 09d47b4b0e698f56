import Mathlib.Data.List.Infix

/-!
# Leaky buckets

A bucket drips one drop in every `unit` of time. A hit adds a drop; when it fills
the bucket to `limit`, hits are refused for `penalty`. What a bucket answers depends
on the times of its own hits only.

* `hit` — one hit, with its answer;
* `answers` — the answers to a list of hits, with `answers_append` for more hits;
* `answers_false_iff` — no hit is refused exactly if no stretch of consecutive hits is
  longer than what drips between them and the bucket take;
* `passed_window` — whatever the hits, no window of time lets more through.
-/

namespace Lib

/-- The parameters of a bucket. -/
structure LeakyBucket where
  unit : Nat
  limit : Nat
  penalty : Nat

namespace LeakyBucket

/-- What a bucket holds: `level` drops at the time `since`, refusing until `closed`. -/
structure Content where
  level : Nat
  since : Nat
  closed : Nat
deriving DecidableEq, Repr

variable (p : LeakyBucket)

/-- A bucket nobody has hit. -/
def empty : Content := ⟨0, 0, 0⟩

/-- The drops that are left at the time `now`. -/
def levelAt (b : Content) (now : Nat) : Nat := b.level - (now - b.since) / p.unit

/-- One hit: whether it is refused, and what the bucket holds then. -/
def hit (b : Content) (now : Nat) : Bool × Content :=
  if now < b.closed then (true, b)
  else if p.limit ≤ p.levelAt b now + 1 then
    (true, ⟨p.levelAt b now + 1, now, now + p.penalty⟩)
  else (false, ⟨p.levelAt b now + 1, now, b.closed⟩)

/-- What a bucket holds after a list of hits. -/
def after (b : Content) : List Nat → Content
  | [] => b
  | t :: times => after (p.hit b t).2 times

/-- The answers to a list of hits. -/
def answers (b : Content) : List Nat → List Bool
  | [] => []
  | t :: times => (p.hit b t).1 :: answers (p.hit b t).2 times

theorem answers_append (b : Content) (times times' : List Nat) :
    p.answers b (times ++ times') = p.answers b times ++ p.answers (p.after b times) times' := by
  induction times generalizing b with
  | nil => rfl
  | cons t times ih =>
      simp only [List.cons_append, answers, after, List.cons.injEq, true_and]
      exact ih _

theorem after_snoc (b : Content) (times : List Nat) (now : Nat) :
    p.after b (times ++ [now]) = (p.hit (p.after b times) now).2 := by
  induction times generalizing b with
  | nil => rfl
  | cons t times ih => exact ih _

theorem answers_snoc (b : Content) (times : List Nat) (now : Nat) :
    p.answers b (times ++ [now]) = p.answers b times ++ [(p.hit (p.after b times) now).1] :=
  p.answers_append b times [now]

/-! ## One hit -/

theorem hit_closed {b : Content} {now : Nat} (h : now < b.closed) : p.hit b now = (true, b) := by
  rw [hit, if_pos h]

theorem hit_open {b : Content} {now : Nat} (h : ¬ now < b.closed) :
    p.hit b now =
      if p.limit ≤ p.levelAt b now + 1 then
        (true, ⟨p.levelAt b now + 1, now, now + p.penalty⟩)
      else (false, ⟨p.levelAt b now + 1, now, b.closed⟩) := by
  rw [hit, if_neg h]

/-! ## Rates -/

/-- What drips between consecutive hits, each pause for itself. -/
def leak : List Nat → Nat
  | t :: t' :: times => (t' - t) / p.unit + leak (t' :: times)
  | _ => 0

theorem leak_singleton (t : Nat) : p.leak [t] = 0 := rfl

theorem leak_snoc (times : List Nat) (t t' : Nat) :
    p.leak (times ++ [t, t']) = p.leak (times ++ [t]) + (t' - t) / p.unit := by
  induction times with
  | nil => exact Nat.add_comm _ _
  | cons a times ih =>
      cases times with
      | nil =>
          show _ + p.leak ([] ++ [t, t']) = _ + p.leak ([] ++ [t]) + _
          omega
      | cons b times =>
          show _ + p.leak (b :: times ++ [t, t']) = _ + p.leak (b :: times ++ [t]) + _
          omega

/-- No stretch of consecutive hits is longer than the bucket and the leak take. -/
def WithinRate (times : List Nat) : Prop :=
  ∀ w, w ≠ [] → w <:+: times → w.length < p.limit + p.leak w

variable {p}

theorem WithinRate.of_append {times times' : List Nat} (h : p.WithinRate (times ++ times')) :
    p.WithinRate times := by
  intro w hw hin
  exact h w hw (hin.trans (List.prefix_append times times').isInfix)

/-- A hit that is not refused. -/
theorem hit_eq_of_false {b : Content} {now : Nat} (hclosed : b.closed = 0)
    (h : (p.hit b now).1 = false) :
    p.levelAt b now + 1 < p.limit ∧ (p.hit b now).2 = ⟨p.levelAt b now + 1, now, 0⟩ := by
  have hopen : ¬ now < b.closed := by omega
  rw [p.hit_open hopen] at h ⊢
  split at h
  · cases h
  · rename_i hlow
    rw [if_neg hlow, hclosed]
    exact ⟨by omega, rfl⟩

theorem hit_false_of_low {b : Content} {now : Nat} (hclosed : b.closed = 0)
    (hlow : p.levelAt b now + 1 < p.limit) : (p.hit b now).1 = false := by
  rw [p.hit_open (by omega), if_neg (by omega)]

/-- The bucket after hits of which none was refused, `times` and then `t`: its level is the
longest overhang of a stretch that ends there. -/
structure Overhang (p : LeakyBucket) (times : List Nat) (t : Nat) (b : Content) : Prop where
  closed : b.closed = 0
  since : b.since = t
  low : b.level < p.limit
  bound : ∀ w, w <:+ times → w.length + 1 ≤ b.level + p.leak (w ++ [t])
  reached : ∃ w, w <:+ times ∧ b.level + p.leak (w ++ [t]) = w.length + 1

theorem Overhang.first {t : Nat} (h : (p.hit empty t).1 = false) :
    Overhang p [] t (p.hit empty t).2 := by
  rcases hit_eq_of_false rfl h with ⟨hlow, hb⟩
  have hzero : p.levelAt empty t = 0 := Nat.zero_sub _
  rw [hzero] at hlow hb
  rw [hb]
  refine ⟨rfl, rfl, hlow, ?_, [], List.suffix_refl _, rfl⟩
  intro w hw
  rw [List.suffix_nil.mp hw]
  exact Nat.le_refl 1

theorem Overhang.next {times : List Nat} {t t' : Nat} {b : Content} (ho : Overhang p times t b)
    (h : (p.hit b t').1 = false) : Overhang p (times ++ [t]) t' (p.hit b t').2 := by
  rcases hit_eq_of_false ho.closed h with ⟨hlow, hb⟩
  have hlevel : p.levelAt b t' = b.level - (t' - t) / p.unit := by
    unfold levelAt
    rw [ho.since]
  rw [hlevel] at hlow hb
  rw [hb]
  have hleak : ∀ v : List Nat, p.leak (v ++ [t] ++ [t']) =
      p.leak (v ++ [t]) + (t' - t) / p.unit := by
    intro v
    rw [List.append_assoc]
    exact p.leak_snoc v t t'
  refine ⟨rfl, rfl, hlow, ?_, ?_⟩
  · intro w hw
    simp only
    rcases List.suffix_concat_iff.mp hw with rfl | ⟨v, rfl, hv⟩
    · exact Nat.le_add_left 1 _
    · have hbound := ho.bound v hv
      rw [hleak, List.length_append, List.length_singleton]
      omega
  · -- the pause empties the bucket, or the stretch goes on
    simp only
    by_cases hdry : b.level ≤ (t' - t) / p.unit
    · refine ⟨[], List.nil_suffix, ?_⟩
      rw [Nat.sub_eq_zero_of_le hdry]
      rfl
    · rcases ho.reached with ⟨v, hv, heq⟩
      refine ⟨v ++ [t], List.suffix_concat_iff.mpr (.inr ⟨v, rfl, hv⟩), ?_⟩
      rw [hleak, List.length_append, List.length_singleton]
      omega

theorem overhang_of_false (times : List Nat) (t : Nat)
    (h : ∀ a ∈ p.answers empty (times ++ [t]), a = false) :
    Overhang p times t (p.after empty (times ++ [t])) := by
  induction times using List.reverseRecOn generalizing t with
  | nil => exact Overhang.first (h _ List.mem_cons_self)
  | append_singleton times u ih =>
      rw [p.answers_snoc] at h
      have hbefore := ih u fun a ha => h a (List.mem_append_left _ ha)
      rw [p.after_snoc]
      exact hbefore.next (h _ (List.mem_append_right _ List.mem_cons_self))

/-- No hit is refused exactly if every stretch of consecutive hits is within the rate. -/
theorem answers_false_iff (times : List Nat) :
    (∀ a ∈ p.answers empty times, a = false) ↔ p.WithinRate times := by
  constructor
  · rintro h w hw ⟨pre, post, rfl⟩
    rcases List.eq_nil_or_concat' w with rfl | ⟨v, t, rfl⟩
    · exact absurd rfl hw
    · rw [p.answers_append] at h
      have hpart := overhang_of_false (pre ++ v) t fun a ha => h a (List.mem_append_left _ (by
        rwa [List.append_assoc] at ha))
      have hbound := hpart.bound v (List.suffix_append pre v)
      have hlow := hpart.low
      rw [List.length_append, List.length_singleton]
      omega
  · intro h
    induction times using List.reverseRecOn with
    | nil =>
        intro a ha
        cases ha
    | append_singleton times t ih =>
        have hfalse := ih h.of_append
        rw [p.answers_snoc]
        intro a ha
        rcases List.mem_append.mp ha with ha | ha
        · exact hfalse a ha
        · rw [List.mem_singleton.mp ha]
          -- the hit itself is a stretch within the rate
          have hone := h [t] (List.cons_ne_nil _ _) (List.suffix_append times [t]).isInfix
          rw [leak_singleton, List.length_singleton] at hone
          rcases List.eq_nil_or_concat' times with rfl | ⟨front, u, rfl⟩
          · refine hit_false_of_low rfl ?_
            show 0 - _ + 1 < _
            rw [Nat.zero_sub]
            exact hone
          · have ho := overhang_of_false front u hfalse
            refine hit_false_of_low ho.closed ?_
            unfold levelAt
            rw [ho.since]
            rcases ho.reached with ⟨v, hv, heq⟩
            have hstretch : v ++ [u] ++ [t] <:+ front ++ [u] ++ [t] :=
              List.suffix_concat_iff.mpr (.inr ⟨v ++ [u], rfl,
                List.suffix_concat_iff.mpr (.inr ⟨v, rfl, hv⟩)⟩)
            have hrate := h _ (List.concat_ne_nil _ _) hstretch.isInfix
            rw [List.append_assoc, List.cons_append, List.nil_append, p.leak_snoc,
              List.length_append] at hrate
            simp only [List.length_cons, List.length_nil] at hrate
            omega

/-! ## What passes -/

variable (p) in
/-- The hits that are not refused. -/
def passed (times : List Nat) : List Nat :=
  ((times.zip (p.answers empty times)).filter fun x => !x.2).map Prod.fst

theorem length_answers (b : Content) (times : List Nat) :
    (p.answers b times).length = times.length := by
  induction times generalizing b with
  | nil => rfl
  | cons t times ih => exact congrArg (· + 1) (ih _)

theorem passed_snoc (times : List Nat) (t : Nat) :
    p.passed (times ++ [t]) =
      p.passed times ++ if (p.hit (p.after empty times) t).1 then [] else [t] := by
  unfold passed
  rw [p.answers_snoc, List.zip_append (length_answers empty times).symm, List.filter_append,
    List.map_append]
  cases (p.hit (p.after empty times) t).1 <;> rfl

/-- The hits from the time `a` on that were not refused are in the bucket or have dripped out
since. -/
structure Filled (p : LeakyBucket) (a : Nat) (times : List Nat) (b : Content) : Prop where
  since : ∀ now, (∀ t ∈ times, t ≤ now) → b.since ≤ now
  early : b.since < a → (p.passed times).countP (a ≤ ·) = 0
  bound : (p.passed times).countP (a ≤ ·) ≤ b.level + (b.since - a) / p.unit

theorem levelAt_add {b : Content} {a t : Nat} (ha : a ≤ b.since) (ht : b.since ≤ t) :
    b.level + (b.since - a) / p.unit ≤ p.levelAt b t + (t - a) / p.unit := by
  have hle : (b.since - a) / p.unit + (t - b.since) / p.unit ≤
      (b.since - a + (t - b.since)) / p.unit := Nat.div_add_div_le_add_div
  rw [show b.since - a + (t - b.since) = t - a by omega] at hle
  unfold levelAt
  omega

theorem Filled.next {a t : Nat} {times : List Nat} (hf : Filled p a times (p.after empty times))
    (hsorted : ∀ u ∈ times, u ≤ t) : Filled p a (times ++ [t]) (p.after empty (times ++ [t])) := by
  have hle : (p.after empty times).since ≤ t := hf.since t hsorted
  have hlast : ∀ now, (∀ u ∈ times ++ [t], u ≤ now) → t ≤ now := by
    intro now h
    exact h t (List.mem_append_right _ List.mem_cons_self)
  -- what was in the bucket has dripped for some time
  have hbefore : (p.passed times).countP (a ≤ ·) ≤
      p.levelAt (p.after empty times) t + (t - a) / p.unit := by
    by_cases ha : a ≤ (p.after empty times).since
    · exact hf.bound.trans (levelAt_add ha hle)
    · rw [hf.early (by omega)]
      exact Nat.zero_le _
  rw [p.after_snoc]
  by_cases hclosed : t < (p.after empty times).closed
  · have hhit := p.hit_closed hclosed
    have hsame : p.passed (times ++ [t]) = p.passed times := by
      rw [passed_snoc, hhit, if_pos rfl, List.append_nil]
    rw [hhit]
    refine ⟨fun now h => hle.trans (hlast now h), ?_, ?_⟩
    · rw [hsame]
      exact hf.early
    · rw [hsame]
      exact hf.bound
  · have hcount : (p.passed (times ++ [t])).countP (a ≤ ·) ≤
        (p.passed times).countP (a ≤ ·) + if a ≤ t then 1 else 0 := by
      rw [passed_snoc, List.countP_append]
      split
      · exact Nat.le_add_right _ _
      · simp
    have hhit : (p.hit (p.after empty times) t).2.level = p.levelAt (p.after empty times) t + 1 ∧
        (p.hit (p.after empty times) t).2.since = t := by
      rw [p.hit_open hclosed]
      split <;> exact ⟨rfl, rfl⟩
    refine ⟨?_, ?_, ?_⟩
    · rw [hhit.2]
      exact hlast
    · rw [hhit.2]
      intro hta
      rw [if_neg (by omega)] at hcount
      have hearly := hf.early (by omega)
      omega
    · rw [hhit.1, hhit.2]
      split at hcount <;> omega

theorem filled (a : Nat) (times : List Nat) (hsorted : times.Pairwise (· ≤ ·)) :
    Filled p a times (p.after empty times) := by
  induction times using List.reverseRecOn with
  | nil => exact ⟨fun now _ => Nat.zero_le now, fun _ => rfl, Nat.zero_le _⟩
  | append_singleton times t ih =>
      rcases List.pairwise_append.mp hsorted with ⟨hbefore, -, hlast⟩
      exact (ih hbefore).next fun u hu => hlast u hu t List.mem_cons_self

/-- However often the bucket is hit: in a closed window of `d`, fewer hits than its limit and
what drips out in `d` are not refused. -/
theorem passed_window {times : List Nat} (hlimit : 0 < p.limit)
    (hsorted : times.Pairwise (· ≤ ·)) (a d : Nat) :
    (p.passed times).countP (fun t => a ≤ t ∧ t ≤ a + d) < p.limit + d / p.unit := by
  induction times using List.reverseRecOn with
  | nil => exact Nat.add_pos_left hlimit _
  | append_singleton times t ih =>
      rcases List.pairwise_append.mp hsorted with ⟨hbefore, -, hlast⟩
      have hle : ∀ u ∈ times, u ≤ t := fun u hu => hlast u hu t List.mem_cons_self
      have hih := ih hbefore
      cases hhit : (p.hit (p.after empty times) t).1 with
      | true =>
          rw [passed_snoc, hhit, if_pos rfl, List.append_nil]
          exact hih
      | false =>
          by_cases hin : t ≤ a + d
          · -- the window holds what has come since `a`
            have hfilled := filled (p := p) a (times ++ [t]) hsorted
            have hall : (p.passed (times ++ [t])).countP (fun u => a ≤ u ∧ u ≤ a + d) ≤
                (p.passed (times ++ [t])).countP (a ≤ ·) := by
              refine List.countP_mono_left ?_
              intro u _ hu
              exact decide_eq_true (of_decide_eq_true hu).1
            have hopen : ¬ t < (p.after empty times).closed := by
              intro hclosed
              rw [p.hit_closed hclosed] at hhit
              cases hhit
            have hbound := hfilled.bound
            rw [p.after_snoc, p.hit_open hopen] at hbound
            rw [p.hit_open hopen] at hhit
            split at hbound
            · rename_i hfull
              rw [if_pos hfull] at hhit
              cases hhit
            · rename_i hlow
              have hmono : (t - a) / p.unit ≤ d / p.unit := Nat.div_le_div_right (by omega)
              simp only at hbound
              omega
          · rw [passed_snoc, List.countP_append, hhit]
            have hnone : [t].countP (fun u => a ≤ u ∧ u ≤ a + d) = 0 := by
              simp [hin]
            simp only [Bool.false_eq_true, if_false, hnone, Nat.add_zero]
            exact hih

end LeakyBucket

end Lib
