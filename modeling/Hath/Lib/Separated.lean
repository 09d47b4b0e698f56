import Mathlib.Data.List.Basic

/-!
# Lists of fields

Lists in which an element `a` separates fields, written `x ++ a :: z`. A field is
determined where it cannot contain the separator itself.

* `first_inj`, `last_inj` — taking off the first or the last field;
* `span_inj` — taking off a first field that ends where its kind of elements ends;
* `shifted_ne` — a text cannot end both in a field before `k` and in a field after it;
* `not_mem_of_mem_splitOn`, `mem_of_mem_splitOn` — what `splitOn` gives are fields of the
  list.
-/

namespace Lib.Separated

universe u

variable {α : Type u} {a : α}

/-- The first field is determined. -/
theorem first_inj {x₁ x₂ z₁ z₂ : List α} (h₁ : a ∉ x₁) (h₂ : a ∉ x₂)
    (h : x₁ ++ a :: z₁ = x₂ ++ a :: z₂) : x₁ = x₂ ∧ z₁ = z₂ := by
  induction x₁ generalizing x₂ with
  | nil =>
      cases x₂ with
      | nil => exact ⟨rfl, (List.cons.inj h).2⟩
      | cons b x₂ =>
          rw [List.nil_append, List.cons_append] at h
          exact absurd ((List.cons.inj h).1 ▸ List.mem_cons_self) h₂
  | cons c x₁ ih =>
      cases x₂ with
      | nil =>
          rw [List.nil_append, List.cons_append] at h
          exact absurd ((List.cons.inj h).1 ▸ List.mem_cons_self) h₁
      | cons b x₂ =>
          rw [List.cons_append, List.cons_append] at h
          rcases List.cons.inj h with ⟨rfl, htail⟩
          rcases ih (fun hm => h₁ (List.mem_cons_of_mem _ hm))
            (fun hm => h₂ (List.mem_cons_of_mem _ hm)) htail with ⟨rfl, rfl⟩
          exact ⟨rfl, rfl⟩

theorem reverse_append_cons (x z : List α) :
    (x ++ a :: z).reverse = z.reverse ++ a :: x.reverse := by
  rw [List.reverse_append, List.reverse_cons, List.append_assoc]
  rfl

/-- The last field is determined. -/
theorem last_inj {x₁ x₂ z₁ z₂ : List α} (h₁ : a ∉ z₁) (h₂ : a ∉ z₂)
    (h : x₁ ++ a :: z₁ = x₂ ++ a :: z₂) : x₁ = x₂ ∧ z₁ = z₂ := by
  have hrev : z₁.reverse ++ a :: x₁.reverse = z₂.reverse ++ a :: x₂.reverse := by
    rw [← reverse_append_cons, ← reverse_append_cons, h]
  rcases first_inj (fun hm => h₁ (List.mem_reverse.mp hm)) (fun hm => h₂ (List.mem_reverse.mp hm))
    hrev with ⟨hz, hx⟩
  exact ⟨List.reverse_injective hx, List.reverse_injective hz⟩

theorem takeWhile_field {p : α → Bool} {x z : List α} (hx : ∀ c ∈ x, p c = true)
    (hz : ∀ c ∈ z.head?, p c = false) : (x ++ z).takeWhile p = x := by
  rw [List.takeWhile_append_of_pos hx]
  cases z with
  | nil => rw [List.takeWhile_nil, List.append_nil]
  | cons c z =>
      have hc : p c = false := hz c rfl
      rw [List.takeWhile_cons_of_neg (by rw [hc]; decide), List.append_nil]

/-- A first field of elements of one kind is determined. -/
theorem span_inj {p : α → Bool} {x₁ x₂ z₁ z₂ : List α} (hx₁ : ∀ c ∈ x₁, p c = true)
    (hx₂ : ∀ c ∈ x₂, p c = true) (hz₁ : ∀ c ∈ z₁.head?, p c = false)
    (hz₂ : ∀ c ∈ z₂.head?, p c = false) (h : x₁ ++ z₁ = x₂ ++ z₂) : x₁ = x₂ ∧ z₁ = z₂ := by
  have hx : x₁ = x₂ := by
    rw [← takeWhile_field hx₁ hz₁, h, takeWhile_field hx₂ hz₂]
  rw [hx] at h
  exact ⟨hx, List.append_cancel_left h⟩

/-- A list with a separator has a last field. -/
theorem exists_last {x : List α} (h : a ∈ x) : ∃ y z, x = y ++ a :: z ∧ a ∉ z := by
  rcases List.eq_append_cons_of_mem (List.mem_reverse.mpr h) with ⟨as, bs, heq, has⟩
  refine ⟨bs.reverse, as.reverse, ?_, ?_⟩
  · rw [← List.reverse_reverse x, heq, reverse_append_cons]
  · intro hm
    exact has (List.mem_reverse.mp hm)

/-- A list that ends in the field `d` and then in the fields `k` does not end in `k` and
then in another field `e`: the fields of `k` would all be `e`, and so would `d`. -/
theorem shifted_ne {d e : List α} (hd : a ∉ d) (he : a ∉ e) (hne : d ≠ e) (k p y : List α) :
    p ++ a :: (d ++ a :: k) ≠ y ++ a :: (k ++ a :: e) := by
  induction hn : k.length using Nat.strongRecOn generalizing k with
  | ind n ih =>
      intro h
      have h : (p ++ a :: d) ++ a :: k = (y ++ a :: k) ++ a :: e := by
        simpa only [List.append_assoc, List.cons_append] using h
      by_cases hk : a ∈ k
      · -- the last field of `k` is `e`; go on without it
        rcases exists_last hk with ⟨k', l, rfl, hl⟩
        have hlast : (p ++ a :: (d ++ a :: k')) ++ a :: l = (y ++ a :: (k' ++ a :: l)) ++ a :: e := by
          simpa only [List.append_assoc, List.cons_append] using h
        rcases last_inj hl he hlast with ⟨hrest, rfl⟩
        exact ih k'.length (by rw [← hn]; simp) k' rfl hrest
      · rcases last_inj hk he h with ⟨hrest, rfl⟩
        exact hne (last_inj hd he hrest).2

/-- The pieces that `splitOn` makes do not contain the separator. -/
theorem not_mem_of_mem_splitOn [BEq α] [LawfulBEq α] {xs l : List α} (h : l ∈ xs.splitOn a) :
    a ∉ l := by
  induction xs generalizing l with
  | nil =>
      rw [List.splitOn_nil, List.mem_singleton] at h
      rw [h]
      exact List.not_mem_nil
  | cons x xs ih =>
      rw [List.splitOn_cons_eq_if_modifyHead] at h
      split at h
      · rcases List.mem_cons.mp h with rfl | h
        · exact List.not_mem_nil
        · exact ih h
      · rename_i hx
        cases hs : xs.splitOn a with
        | nil =>
            rw [hs] at h
            cases h
        | cons p ps =>
            rw [hs, List.modifyHead_cons] at h
            rw [hs] at ih
            rcases List.mem_cons.mp h with rfl | h
            · intro hm
              rcases List.mem_cons.mp hm with rfl | hm
              · exact hx (beq_self_eq_true _)
              · exact ih List.mem_cons_self hm
            · exact ih (List.mem_cons_of_mem p h)

/-- What stands in a piece stands in the list. -/
theorem mem_of_mem_splitOn [BEq α] [LawfulBEq α] {xs l : List α} (h : l ∈ xs.splitOn a) {c : α}
    (hc : c ∈ l) : c ∈ xs := by
  induction xs generalizing l with
  | nil =>
      rw [List.splitOn_nil, List.mem_singleton] at h
      rw [h] at hc
      exact hc
  | cons x xs ih =>
      rw [List.splitOn_cons_eq_if_modifyHead] at h
      split at h
      · rcases List.mem_cons.mp h with rfl | h
        · cases hc
        · exact List.mem_cons_of_mem x (ih h hc)
      · cases hs : xs.splitOn a with
        | nil =>
            rw [hs] at h
            cases h
        | cons p ps =>
            rw [hs, List.modifyHead_cons] at h
            rw [hs] at ih
            rcases List.mem_cons.mp h with rfl | h
            · rcases List.mem_cons.mp hc with rfl | hc
              · exact List.mem_cons_self
              · exact List.mem_cons_of_mem x (ih List.mem_cons_self hc)
            · exact List.mem_cons_of_mem x (ih (List.mem_cons_of_mem p h) hc)

/-- Text without a separator in front of a list goes to its first field. -/
theorem splitOn_append_of_not_mem [BEq α] [LawfulBEq α] {x : List α} (h : a ∉ x) (y : List α) :
    (x ++ y).splitOn a = (y.splitOn a).modifyHead (x ++ ·) := by
  induction x with
  | nil =>
      rw [List.nil_append]
      cases y.splitOn a <;> rfl
  | cons c x ih =>
      have hc : (c == a) = false := by
        rw [beq_eq_false_iff_ne]
        rintro rfl
        exact h List.mem_cons_self
      rw [List.cons_append, List.splitOn_cons_eq_if_modifyHead, hc,
        ih (fun hm => h (List.mem_cons_of_mem c hm))]
      cases y.splitOn a <;> rfl

end Lib.Separated
