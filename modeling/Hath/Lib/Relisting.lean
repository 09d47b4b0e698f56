import Mathlib.Data.List.Basic
import Mathlib.Data.List.Forall2

/-!
# Lists up to order

`Relisting R l l'`: the list `l'` has the elements of `l` in another order, each one
replaced by an element that `R` relates to it. It is kept by the list operations that
treat the elements one by one.
-/

namespace Lib

universe u v

variable {α : Type u} {β : Type v} {R : α → α → Prop} {S : β → β → Prop}

/-- Another order of a list, up to a relation of the elements. -/
def Relisting (R : α → α → Prop) (l l' : List α) : Prop :=
  ∃ mid, l.Perm mid ∧ List.Forall₂ R mid l'

namespace Relisting

theorem nil : Relisting R [] [] := ⟨[], List.Perm.refl [], List.Forall₂.nil⟩

theorem of_perm (hR : ∀ a, R a a) {l l' : List α} (h : l.Perm l') : Relisting R l l' :=
  ⟨l', h, List.forall₂_same.mpr fun a _ => hR a⟩

theorem append {l l' k k' : List α} (hl : Relisting R l l') (hk : Relisting R k k') :
    Relisting R (l ++ k) (l' ++ k') := by
  rcases hl with ⟨mid, hperm, hrel⟩
  rcases hk with ⟨mid', hperm', hrel'⟩
  exact ⟨mid ++ mid', hperm.append hperm', List.rel_append hrel hrel'⟩

/-- A permutation before a relisting. -/
theorem perm_trans {l k l' : List α} (hp : l.Perm k) (h : Relisting R k l') : Relisting R l l' := by
  rcases h with ⟨mid, hperm, hrel⟩
  exact ⟨mid, hp.trans hperm, hrel⟩

theorem flatMap {f : α → List β} {l l' : List α} (h : Relisting R l l')
    (hf : ∀ a b, R a b → Relisting S (f a) (f b)) : Relisting S (l.flatMap f) (l'.flatMap f) := by
  rcases h with ⟨mid, hperm, hrel⟩
  apply perm_trans (hperm.flatMap_right f)
  clear hperm
  induction hrel with
  | nil => exact nil
  | cons hab _ ih =>
      rw [List.flatMap_cons, List.flatMap_cons]
      exact append (hf _ _ hab) ih

theorem filterMap {f : α → Option β} {l l' : List α} (h : Relisting R l l')
    (hf : ∀ a b, R a b → Relisting S (f a).toList (f b).toList) :
    Relisting S (l.filterMap f) (l'.filterMap f) := by
  rw [List.filterMap_eq_flatMap_toList, List.filterMap_eq_flatMap_toList]
  exact flatMap h hf

theorem map_perm {f : α → β} {l l' : List α} (h : Relisting R l l')
    (hf : ∀ a b, R a b → f a = f b) : (l.map f).Perm (l'.map f) := by
  rcases h with ⟨mid, hperm, hrel⟩
  apply (hperm.map f).trans
  clear hperm
  induction hrel with
  | nil => exact List.Perm.refl []
  | cons hab _ ih =>
      rw [List.map_cons, List.map_cons, hf _ _ hab]
      exact ih.cons _

/-- Every element of the new list stands for one of the old. -/
theorem exists_of_mem {l l' : List α} (h : Relisting R l l') {b : α} (hb : b ∈ l') :
    ∃ a ∈ l, R a b := by
  rcases h with ⟨mid, hperm, hrel⟩
  suffices hmid : ∃ a ∈ mid, R a b by
    rcases hmid with ⟨a, ha, hab⟩
    exact ⟨a, hperm.mem_iff.mpr ha, hab⟩
  clear hperm
  induction hrel with
  | nil => cases hb
  | cons hac _ ih =>
      rcases List.mem_cons.mp hb with rfl | hb
      · exact ⟨_, List.mem_cons_self, hac⟩
      · rcases ih hb with ⟨a, ha, hab⟩
        exact ⟨a, List.mem_cons_of_mem _ ha, hab⟩

end Relisting

end Lib
