import Mathlib.Algebra.GroupWithZero.Nat
import Mathlib.Data.List.Basic
import Mathlib.Data.List.Induction
import Mathlib.Logic.Function.Basic

/-!
# Recounting bins

Items are tallied by key, bin after bin. Every bin has a home key and an announced
size: if the tally of the home key already has that size, the bin is trusted and
skipped, else the tally of the home key is cleared and the items of the bin are added,
each under its own key.

* `length_le_run` — a tally only grows while no bin has its key as home;
* `run_cases` — if no two bins share a key, a tally has been cleared or is complete;
* `run_eq_accounted` — it is complete if the size of every later bin of that home fits;
* `run_cleared` — and empty if one does not.
-/

namespace Lib.Recount

universe u v

/-- A bin: its home key, the size it announces and its items. -/
structure Bin (κ : Type u) (ι : Type v) where
  home : κ
  size : Nat
  items : List ι

variable {κ : Type u} {ι : Type v} [DecidableEq κ] (key : ι → κ)

/-- The items of a bin under a key. -/
def itemsOf (b : Bin κ ι) (k : κ) : List ι := b.items.filter fun i => key i = k

/-- One bin. -/
def step (g : κ → List ι) (b : Bin κ ι) : κ → List ι :=
  if b.size = (g b.home).length then g
  else fun k => (if k = b.home then [] else g k) ++ itemsOf key b k

/-- All bins, in order. -/
def run (g : κ → List ι) (bs : List (Bin κ ι)) : κ → List ι := bs.foldl (step key) g

/-- All the items under a key. -/
def accounted (bs : List (Bin κ ι)) (k : κ) : List ι := bs.flatMap fun b => itemsOf key b k

variable {key}

/-! ## Steps -/

section

variable {g : κ → List ι} {b : Bin κ ι} {k : κ}

theorem step_trusted (h : b.size = (g b.home).length) : step key g b = g := if_pos h

theorem step_home (h : b.size ≠ (g b.home).length) :
    step key g b b.home = itemsOf key b b.home := by
  unfold step
  rw [if_neg h]
  simp

theorem step_other (h : b.size ≠ (g b.home).length) (hk : k ≠ b.home) :
    step key g b k = g k ++ itemsOf key b k := by
  unfold step
  rw [if_neg h]
  simp [hk]

variable (key) in
/-- The two outcomes of a step, for one key. -/
theorem step_cases (g : κ → List ι) (b : Bin κ ι) (k : κ) :
    (b.size = (g b.home).length ∧ step key g b k = g k) ∨
    (b.size ≠ (g b.home).length ∧ k = b.home ∧ step key g b k = itemsOf key b k) ∨
    (b.size ≠ (g b.home).length ∧ k ≠ b.home ∧ step key g b k = g k ++ itemsOf key b k) := by
  by_cases h : b.size = (g b.home).length
  · exact .inl ⟨h, congrFun (step_trusted h) k⟩
  · by_cases hk : k = b.home
    · subst hk
      exact .inr (.inl ⟨h, rfl, step_home h⟩)
    · exact .inr (.inr ⟨h, hk, step_other h hk⟩)

theorem mem_step {i : ι} (h : i ∈ step key g b k) : i ∈ g k ∨ i ∈ itemsOf key b k := by
  rcases step_cases key g b k with ⟨-, heq⟩ | ⟨-, -, heq⟩ | ⟨-, -, heq⟩
  · exact .inl (heq ▸ h)
  · exact .inr (heq ▸ h)
  · exact List.mem_append.mp (heq ▸ h)

variable (key) in
theorem length_step_le (g : κ → List ι) (b : Bin κ ι) (k : κ) :
    (step key g b k).length ≤ (g k).length + b.items.length := by
  have hitems : (itemsOf key b k).length ≤ b.items.length := List.length_filter_le _ _
  rcases step_cases key g b k with ⟨-, heq⟩ | ⟨-, -, heq⟩ | ⟨-, -, heq⟩
  · rw [heq]
    omega
  · rw [heq]
    omega
  · rw [heq, List.length_append]
    omega

theorem length_le_step (h : b.home ≠ k) : (g k).length ≤ (step key g b k).length := by
  rcases step_cases key g b k with ⟨-, heq⟩ | ⟨-, hk, -⟩ | ⟨-, -, heq⟩
  · exact Nat.le_of_eq (congrArg List.length heq.symm)
  · exact absurd hk.symm h
  · rw [heq, List.length_append]
    omega

end

/-! ## Runs -/

theorem run_append (g : κ → List ι) (bs cs : List (Bin κ ι)) :
    run key g (bs ++ cs) = run key (run key g bs) cs := List.foldl_append

theorem run_cons (g : κ → List ι) (b : Bin κ ι) (bs : List (Bin κ ι)) :
    run key g (b :: bs) = run key (step key g b) bs := rfl

section

variable {g : κ → List ι} {bs : List (Bin κ ι)} {k : κ}

/-- A tally grows while it is not cleared. -/
theorem length_le_run (h : ∀ b ∈ bs, b.home ≠ k) : (g k).length ≤ (run key g bs k).length := by
  induction bs generalizing g with
  | nil => exact Nat.le_refl _
  | cons b bs ih =>
      calc (g k).length ≤ (step key g b k).length := length_le_step (h b List.mem_cons_self)
        _ ≤ (run key (step key g b) bs k).length := ih fun c hc => h c (List.mem_cons_of_mem b hc)

theorem mem_run {i : ι} (h : i ∈ run key g bs k) : i ∈ g k ∨ ∃ b ∈ bs, i ∈ itemsOf key b k := by
  induction bs generalizing g with
  | nil => exact .inl h
  | cons b bs ih =>
      rcases ih h with h | ⟨c, hc, h⟩
      · rcases mem_step h with h | h
        · exact .inl h
        · exact .inr ⟨b, List.mem_cons_self, h⟩
      · exact .inr ⟨c, List.mem_cons_of_mem b hc, h⟩

variable (key) in
theorem length_run_le (g : κ → List ι) (bs : List (Bin κ ι)) (k : κ) :
    (run key g bs k).length ≤ (g k).length + (bs.map fun b => b.items.length).sum := by
  induction bs generalizing g with
  | nil => exact Nat.le_refl _
  | cons b bs ih =>
      have htail := ih (step key g b)
      have hstep := length_step_le key g b k
      rw [List.map_cons, List.sum_cons, run_cons]
      omega

/-- An empty tally stays empty when no bin has an item for it. -/
theorem run_eq_nil (hg : g k = []) (h : ∀ b ∈ bs, itemsOf key b k = []) : run key g bs k = [] := by
  rw [List.eq_nil_iff_forall_not_mem]
  intro i hi
  rcases mem_run hi with hi | ⟨b, hb, hi⟩
  · rw [hg] at hi
    cases hi
  · rw [h b hb] at hi
    cases hi

end

/-! ## Bins that share no key -/

variable (key) in
/-- No key has items in both bins, and a bin with items is the only one to have items
under its home key. -/
def Apart (b c : Bin κ ι) : Prop :=
  (∀ k, itemsOf key b k = [] ∨ itemsOf key c k = []) ∧
  (b.items = [] ∨ itemsOf key c b.home = []) ∧ (c.items = [] ∨ itemsOf key b c.home = [])

variable (key) in
/-- The size of the bin `c` is the number of items that `b` has under its home key. -/
def Fits (b c : Bin κ ι) : Prop :=
  itemsOf key b c.home = [] ∨ c.size = (itemsOf key b c.home).length

theorem accounted_append (bs cs : List (Bin κ ι)) (k : κ) :
    accounted key (bs ++ cs) k = accounted key bs k ++ accounted key cs k := List.flatMap_append

theorem accounted_eq_nil {bs : List (Bin κ ι)} {k : κ} :
    accounted key bs k = [] ↔ ∀ b ∈ bs, itemsOf key b k = [] := List.flatMap_eq_nil_iff

theorem accounted_singleton (b : Bin κ ι) (k : κ) : accounted key [b] k = itemsOf key b k :=
  List.flatMap_singleton _ _

section

variable {g : κ → List ι} {bs : List (Bin κ ι)} {b : Bin κ ι} {k : κ}

/-- With another bin's items under a key, this one has none. -/
theorem itemsOf_eq_nil (hapart : ∀ a ∈ bs, Apart key a b) (h : accounted key bs k ≠ []) :
    itemsOf key b k = [] := by
  by_contra hb
  apply h
  rw [accounted_eq_nil]
  intro a ha
  rcases (hapart a ha).1 k with hnil | hnil
  · exact hnil
  · exact absurd hnil hb

/-- Only one bin has the items of a key. -/
theorem accounted_eq (hapart : bs.Pairwise (Apart key)) (hb : b ∈ bs)
    (hne : itemsOf key b k ≠ []) : accounted key bs k = itemsOf key b k := by
  induction bs with
  | nil => cases hb
  | cons a bs ih =>
      rw [List.pairwise_cons] at hapart
      rw [← List.singleton_append, accounted_append, accounted_singleton]
      rcases List.mem_cons.mp hb with rfl | hb
      · have hrest : accounted key bs k = [] := by
          rw [accounted_eq_nil]
          intro c hc
          rcases (hapart.1 c hc).1 k with hnil | hnil
          · exact absurd hnil hne
          · exact hnil
        rw [hrest, List.append_nil]
      · rcases (hapart.1 b hb).1 k with hnil | hnil
        · rw [hnil, List.nil_append, ih hapart.2 hb]
        · exact absurd hnil hne

/-- A bin that is trusted in a cleared or complete tally has no items. -/
theorem items_of_trusted (hg : ∀ k, g k = [] ∨ g k = accounted key bs k)
    (hapart : ∀ a ∈ bs, Apart key a b) (hsize : b.items ≠ [] → b.size ≠ 0)
    (h : b.size = (g b.home).length) : b.items = [] := by
  by_contra hne
  have hhome : g b.home = [] := by
    rcases hg b.home with hnil | heq
    · exact hnil
    · rw [heq, accounted_eq_nil]
      intro a ha
      rcases (hapart a ha).2.2 with hnil | hnil
      · exact absurd hnil hne
      · exact hnil
  rw [hhome] at h
  exact hsize hne h

/-- A step keeps the tallies cleared or complete. -/
theorem step_weak (hg : ∀ k, g k = [] ∨ g k = accounted key bs k)
    (hapart : ∀ a ∈ bs, Apart key a b) (hsize : b.items ≠ [] → b.size ≠ 0) (k : κ) :
    step key g b k = [] ∨ step key g b k = accounted key (bs ++ [b]) k := by
  rw [accounted_append, accounted_singleton]
  rcases step_cases key g b k with ⟨htrust, heq⟩ | ⟨-, -, heq⟩ | ⟨-, -, heq⟩
  · have hitems : itemsOf key b k = [] := by
      rw [itemsOf, items_of_trusted hg hapart hsize htrust]
      rfl
    rw [heq, hitems, List.append_nil]
    exact hg k
  · by_cases hacc : accounted key bs k = []
    · rw [heq, hacc]
      exact .inr rfl
    · rw [heq, itemsOf_eq_nil hapart hacc]
      exact .inl rfl
  · by_cases hacc : accounted key bs k = []
    · have hnil : g k = [] := by
        rcases hg k with h | h
        · exact h
        · rw [h, hacc]
      rw [heq, hnil, hacc]
      exact .inr rfl
    · rw [heq, itemsOf_eq_nil hapart hacc, List.append_nil, List.append_nil]
      exact hg k

/-- If no two bins share a key, every tally has been cleared or is complete. -/
theorem run_cases (hapart : bs.Pairwise (Apart key))
    (hsize : ∀ b ∈ bs, b.items ≠ [] → b.size ≠ 0) (k : κ) :
    run key (fun _ => []) bs k = [] ∨ run key (fun _ => []) bs k = accounted key bs k := by
  induction bs using List.reverseRecOn generalizing k with
  | nil => exact .inl rfl
  | append_singleton bs b ih =>
      rw [List.pairwise_append] at hapart
      rw [run_append]
      apply step_weak
      · intro k
        exact ih hapart.1 (fun c hc => hsize c (List.mem_append_left _ hc)) k
      · intro a ha
        exact hapart.2.2 a ha b List.mem_cons_self
      · exact hsize b (List.mem_append_right _ List.mem_cons_self)

/-- If moreover the later bins of a home fit, every tally is complete. -/
theorem run_eq_accounted (hapart : bs.Pairwise fun b c => Apart key b c ∧ Fits key b c)
    (hsize : ∀ b ∈ bs, b.items ≠ [] → b.size ≠ 0) (k : κ) :
    run key (fun _ => []) bs k = accounted key bs k := by
  induction bs using List.reverseRecOn generalizing k with
  | nil => rfl
  | append_singleton bs b ih =>
      rw [List.pairwise_append] at hapart
      have hlast : ∀ a ∈ bs, Apart key a b ∧ Fits key a b :=
        fun a ha => hapart.2.2 a ha b List.mem_cons_self
      have hg := fun k => ih hapart.1 (fun c hc => hsize c (List.mem_append_left _ hc)) k
      have hb := hsize b (List.mem_append_right _ List.mem_cons_self)
      rw [run_append, accounted_append, accounted_singleton]
      show step key (run key (fun _ => []) bs) b k = _
      rcases step_cases key (run key (fun _ => []) bs) b k with
        ⟨htrust, heq⟩ | ⟨hfail, rfl, heq⟩ | ⟨-, -, heq⟩
      · have hitems : itemsOf key b k = [] := by
          rw [itemsOf, items_of_trusted (fun k => .inr (hg k)) (fun a ha => (hlast a ha).1) hb htrust]
          rfl
        rw [heq, hg, hitems, List.append_nil]
      · -- a bin that has the items of this key would have made this one trusted
        have hnil : accounted key bs b.home = [] := by
          rw [accounted_eq_nil]
          intro a ha
          by_contra hne
          apply hfail
          rw [hg, accounted_eq (hapart.1.imp fun h => h.1) ha hne]
          exact (hlast a ha).2.resolve_left hne
        rw [heq, hnil, List.nil_append]
      · rw [heq, hg]

/-- A later bin of the home of `b` that does not fit leaves the tally empty. -/
theorem run_cleared {pre mid post : List (Bin κ ι)} {c : Bin κ ι}
    (hapart : (pre ++ b :: (mid ++ c :: post)).Pairwise (Apart key))
    (hsize : ∀ d ∈ pre ++ b :: (mid ++ c :: post), d.items ≠ [] → d.size ≠ 0)
    (hne : itemsOf key b c.home ≠ []) (hfit : c.size ≠ (itemsOf key b c.home).length) :
    run key (fun _ => []) (pre ++ b :: (mid ++ c :: post)) c.home = [] := by
  have hform : pre ++ b :: (mid ++ c :: post) = (pre ++ b :: mid) ++ c :: post := by
    rw [List.append_assoc, List.cons_append]
  rw [hform] at hapart hsize ⊢
  rw [List.pairwise_append, List.pairwise_cons] at hapart
  have hbin : b ∈ pre ++ b :: mid := List.mem_append_right _ List.mem_cons_self
  -- the other bins have nothing under this key
  have hothers : ∀ d ∈ c :: post, itemsOf key d c.home = [] := by
    intro d hd
    rcases (hapart.2.2 b hbin d hd).1 c.home with hnil | hnil
    · exact absurd hnil hne
    · exact hnil
  have hbefore := run_cases hapart.1 (fun d hd => hsize d (List.mem_append_left _ hd)) c.home
  rw [accounted_eq hapart.1 hbin hne] at hbefore
  rw [run_append, run_cons]
  apply run_eq_nil
  · rcases step_cases key (run key (fun _ => []) (pre ++ b :: mid)) c c.home with
      ⟨htrust, heq⟩ | ⟨-, -, heq⟩ | ⟨-, hk, -⟩
    · rw [heq]
      rcases hbefore with hnil | hfull
      · exact hnil
      · rw [hfull] at htrust
        exact absurd htrust hfit
    · rw [heq]
      exact hothers c List.mem_cons_self
    · exact absurd rfl hk
  · intro d hd
    exact hothers d (List.mem_cons_of_mem c hd)

end

end Lib.Recount
