import Mathlib.Algebra.Order.BigOperators.Group.Finset
import Mathlib.Data.Finset.Max
import Mathlib.Data.Prod.Lex
import Hath.CacheManager.Cleaner
import Hath.Lib.Endless

/-!
# Hath.CacheManager.CleanerEnds — when the loop of the cleaner ends

Entries are never taken out of `cache_state`, so a range that has nothing to delete can
be selected again and again. Its stamp then comes to rest at the time of its last file,
or at the current time if there is no file. The loop ends as long as every turn with such
a range leaves a range below that stamp where something can be deleted; otherwise the
barren range can be selected for ever.

* `turn_barren` — a turn with a barren range moves its stamp and nothing else;
* `turn_descends` — any other turn lowers a measure;
* `cleaner_ends` — the two together;
* `late_files_endless` — a stamp near the end of the `i64` has a cutoff before all files.
-/

namespace Hath.Cleaner

open Lib

/-! ## Fruitful and barren ranges -/

/-- The cache file of the name is on the disk. -/
def hasTarget (disk : Disk) (e : Text × Meta) : Bool :=
  match CacheFileInfo.fromFileId e.1 with
  | none => false
  | some info => (disk.file? info.staticRange info.fileName).isSome

/-- A visit of the file lowers `need_free` or deletes a file: its name parses, and it has
a size or its cache file is on the disk. -/
def live (disk : Disk) (e : Text × Meta) : Bool :=
  (CacheFileInfo.fromFileId e.1).isSome && (0 < e.2.realSize.toNat || hasTarget disk e)

/-- The turn with the range ends the loop or comes, sooner or later, to a file that
counts. -/
def Fruitful (disk : Disk) (r : Text) : Prop :=
  disk.dir r = none ∨ ∃ e ∈ disk.files r, live disk e = true

instance (disk : Disk) (r : Text) : Decidable (Fruitful disk r) :=
  inferInstanceAs (Decidable (_ ∨ _))

/-- The time of the last file of a range. -/
def latest (disk : Disk) (r : Text) : Option Int := ((disk.files r).map fun e => e.2.mtime).max?

/-- Where the stamp of a barren range comes to rest. -/
def resting (disk : Disk) (r : Text) (now : Int) : Int := unixSeconds ((latest disk r).getD now)

/-- The cutoff of the turn does not overflow. -/
def Fits (s : State) (t : Turn) : Prop :=
  -2 ^ 63 ≤ s.cache.oldest t.sr + offset (s.cache.oldest t.sr) t.utcNow ∧
    s.cache.oldest t.sr + offset (s.cache.oldest t.sr) t.utcNow < 2 ^ 63

/-- If the selected range is barren, another one with an older stamp than its resting
stamp is not. -/
def Harmless (s : State) (t : Turn) : Prop :=
  Fruitful s.disk t.sr ∨ ∃ r ∈ s.cache.keys, Fruitful s.disk r ∧
    s.cache.oldest r < resting s.disk t.sr t.fileNow

/-! ## Visits -/

theorem live_iff {disk : Disk} {e : Text × Meta} :
    live disk e = true ↔ ∃ info, CacheFileInfo.fromFileId e.1 = some info ∧
      (0 < e.2.realSize.toNat ∨ ∃ m, disk.file? info.staticRange info.fileName = some m) := by
  unfold live hasTarget
  cases CacheFileInfo.fromFileId e.1 with
  | none => simp
  | some info => simp [Option.isSome_iff_exists]

/-- A visit of a file that does not count changes nothing. -/
theorem visit_of_not_live {s : State} {x : Item} (h : live s.disk x.entry = false) :
    visit s x = s := by
  have hno : ¬ live s.disk x.entry = true := by simp [h]
  rw [live_iff] at hno
  rcases visit_cases s x with ⟨hsame, -⟩ | ⟨info, hinfo, -, ⟨hvisit, -⟩ | ⟨m, hm, -, -⟩⟩
  · exact hsame
  · have hzero : x.info.realSize.toNat = 0 := by
      by_contra hpos
      exact hno ⟨info, hinfo, .inl (Nat.pos_of_ne_zero hpos)⟩
    rw [hvisit, hzero]
    rfl
  · exact absurd ⟨info, hinfo, .inr ⟨m, hm⟩⟩ hno

/-- What can still be counted: the bytes to be freed, and the files of tracked ranges
whose cache file is there. -/
def weight (s : State) : Nat :=
  (if s.broken then 0 else 1) + s.needFree +
    ∑ k ∈ s.cache.keys, (s.disk.files k).countP (hasTarget s.disk)

theorem hasTarget_unlink {disk : Disk} {r name : Text} {e : Text × Meta}
    (h : hasTarget (disk.unlink r name) e = true) : hasTarget disk e = true := by
  unfold hasTarget at h ⊢
  cases hinfo : CacheFileInfo.fromFileId e.1 with
  | none =>
      rw [hinfo] at h
      cases h
  | some info =>
      rw [hinfo] at h
      rcases Option.isSome_iff_exists.mp h with ⟨m, hm⟩
      have hmem := (disk.files_unlink_subset r name _).mem (Disk.file?_eq_some.mp hm)
      exact Option.isSome_iff_exists.mpr ⟨m, Disk.file?_eq_some.mpr hmem⟩

/-- The cache file itself is gone. -/
theorem not_hasTarget_unlink {disk : Disk} {e : Text × Meta} {info : CacheFileInfo}
    (h : CacheFileInfo.fromFileId e.1 = some info) :
    hasTarget (disk.unlink info.staticRange info.fileName) e = false := by
  unfold hasTarget
  rw [h]
  simp only
  rw [Option.isSome_eq_false_iff, Option.isNone_iff_eq_none, Disk.file?_eq_none]
  intro m hm
  rw [Disk.files_unlink_self] at hm
  simpa using (List.mem_filter.mp hm).2

theorem countP_unlink_le (disk : Disk) (r name k : Text) :
    ((disk.unlink r name).files k).countP (hasTarget (disk.unlink r name)) ≤
      (disk.files k).countP (hasTarget disk) := by
  calc ((disk.unlink r name).files k).countP (hasTarget (disk.unlink r name))
      ≤ ((disk.unlink r name).files k).countP (hasTarget disk) :=
        List.countP_mono_left fun e _ he => hasTarget_unlink he
    _ ≤ (disk.files k).countP (hasTarget disk) := (disk.files_unlink_subset r name k).countP_le

theorem visit_weight_le (s : State) (x : Item) : weight (visit s x) ≤ weight s := by
  rcases visit_cases s x with ⟨hsame, -⟩ | ⟨info, -, -, ⟨hvisit, -⟩ | ⟨m, -, -, hvisit⟩⟩
  · rw [hsame]
  · rw [hvisit]
    unfold weight
    simp only
    omega
  · have hsum : ∑ k ∈ s.cache.keys,
        ((s.disk.unlink info.staticRange info.fileName).files k).countP
          (hasTarget (s.disk.unlink info.staticRange info.fileName)) ≤
        ∑ k ∈ s.cache.keys, (s.disk.files k).countP (hasTarget s.disk) :=
      Finset.sum_le_sum fun k _ => countP_unlink_le s.disk _ _ k
    rw [hvisit]
    unfold weight
    simp only [Cache.removeFile_keys]
    omega

theorem foldl_visit_weight_le (items : List Item) (s : State) :
    weight (items.foldl visit s) ≤ weight s := by
  induction items generalizing s with
  | nil => exact Nat.le_refl _
  | cons x items ih => exact Nat.le_trans (ih (visit s x)) (visit_weight_le s x)

/-- A predicate that loses an element of the list. -/
theorem countP_lt {α : Type} {p q : α → Bool} {l : List α} {a : α}
    (h : ∀ x, p x = true → q x = true)
    (hmem : a ∈ l) (hp : p a = false) (hq : q a = true) : l.countP p < l.countP q := by
  rcases List.append_of_mem hmem with ⟨l₁, l₂, rfl⟩
  have h₁ : l₁.countP p ≤ l₁.countP q := List.countP_mono_left fun x _ => h x
  have h₂ : l₂.countP p ≤ l₂.countP q := List.countP_mono_left fun x _ => h x
  rw [List.countP_append, List.countP_append, List.countP_cons_of_neg (by simp [hp]),
    List.countP_cons_of_pos hq]
  omega

/-- A visit of a file that counts. -/
theorem visit_weight_lt {s : State} {x : Item} {r : Text} (hr : r ∈ s.cache.keys)
    (hmem : x.entry ∈ s.disk.files r) (hclean : x.measured = true ∧ x.removed = true)
    (hneed : 0 < s.needFree) (hlive : live s.disk x.entry = true) :
    weight (visit s x) < weight s := by
  rcases live_iff.mp hlive with ⟨info, hinfo, hcounts⟩
  rcases visit_cases s x with ⟨-, hno⟩ | ⟨info', hinfo', -, ⟨hvisit, hno⟩ | ⟨m, hm, -, hvisit⟩⟩
  · rcases hno with hno | hno
    · exact absurd (hno.symm.trans hinfo) nofun
    · rw [hclean.1] at hno
      cases hno
  · -- no cache file: the file has a size
    have hsame : info' = info := Option.some.inj (hinfo'.symm.trans hinfo)
    rw [hsame] at hno
    have hpos : 0 < x.info.realSize.toNat := by
      rcases hcounts with hpos | ⟨m, hm⟩
      · exact hpos
      · rcases hno with hno | hno
        · rw [hno] at hm
          cases hm
        · rw [hclean.2] at hno
          cases hno
    rw [hvisit]
    unfold weight
    simp only
    omega
  · -- the cache file is deleted, and the visited file has none any more
    have hsame : info' = info := Option.some.inj (hinfo'.symm.trans hinfo)
    rw [hsame] at hm hvisit
    have hone : ((s.disk.unlink info.staticRange info.fileName).files r).countP
          (hasTarget (s.disk.unlink info.staticRange info.fileName)) <
        (s.disk.files r).countP (hasTarget s.disk) := by
      have htarget : hasTarget s.disk x.entry = true := by
        unfold hasTarget
        rw [show CacheFileInfo.fromFileId x.entry.1 = some info from hinfo]
        exact Option.isSome_iff_exists.mpr ⟨m, hm⟩
      have hgone : hasTarget (s.disk.unlink info.staticRange info.fileName) x.entry = false :=
        not_hasTarget_unlink hinfo
      calc ((s.disk.unlink info.staticRange info.fileName).files r).countP
            (hasTarget (s.disk.unlink info.staticRange info.fileName))
          ≤ (s.disk.files r).countP
              (hasTarget (s.disk.unlink info.staticRange info.fileName)) :=
            (s.disk.files_unlink_subset _ _ r).countP_le
        _ < (s.disk.files r).countP (hasTarget s.disk) :=
            countP_lt (fun _ he => hasTarget_unlink he) hmem hgone htarget
    have hsum : ∑ k ∈ s.cache.keys,
        ((s.disk.unlink info.staticRange info.fileName).files k).countP
          (hasTarget (s.disk.unlink info.staticRange info.fileName)) <
        ∑ k ∈ s.cache.keys, (s.disk.files k).countP (hasTarget s.disk) :=
      Finset.sum_lt_sum (fun k _ => countP_unlink_le s.disk _ _ k) ⟨r, hr, hone⟩
    rw [hvisit]
    unfold weight
    simp only [Cache.removeFile_keys]
    omega

/-- The visits of a turn change nothing, or lower the weight. -/
theorem foldl_visit_cases {s : State} {r : Text} (hr : r ∈ s.cache.keys) (hneed : 0 < s.needFree)
    {items : List Item} (hmem : ∀ x ∈ items, x.entry ∈ s.disk.files r)
    (hclean : ∀ x ∈ items, x.measured = true ∧ x.removed = true) :
    (items.foldl visit s = s ∧ ∀ x ∈ items, live s.disk x.entry = false) ∨
      (weight (items.foldl visit s) < weight s ∧ ∃ x ∈ items, live s.disk x.entry = true) := by
  induction items with
  | nil => exact .inl ⟨rfl, fun x hx => absurd hx List.not_mem_nil⟩
  | cons x items ih =>
      rw [List.foldl_cons]
      cases hlive : live s.disk x.entry with
      | true =>
          refine .inr ⟨?_, x, List.mem_cons_self, hlive⟩
          calc weight (items.foldl visit (visit s x))
              ≤ weight (visit s x) := foldl_visit_weight_le items (visit s x)
            _ < weight s :=
              visit_weight_lt hr (hmem x List.mem_cons_self) (hclean x List.mem_cons_self) hneed
                hlive
      | false =>
          rw [visit_of_not_live hlive]
          rcases ih (fun y hy => hmem y (List.mem_cons_of_mem x hy))
              (fun y hy => hclean y (List.mem_cons_of_mem x hy)) with
            ⟨hsame, hdead⟩ | ⟨hlt, y, hy, hylive⟩
          · refine .inl ⟨hsame, ?_⟩
            intro y hy
            rcases List.mem_cons.mp hy with rfl | hy
            · exact hlive
            · exact hdead y hy
          · exact .inr ⟨hlt, y, List.mem_cons_of_mem x hy, hylive⟩

/-! ## Turns -/

/-- The last of the sorted files has the latest time. -/
theorem getLast_mtime {disk : Disk} {r : Text} {items : List Item}
    (hsorted : items.Pairwise fun x y => x.info.mtime ≤ y.info.mtime)
    (hperm : (items.map Item.entry).Perm (disk.files r)) :
    (items.getLast?.map fun x => x.info.mtime) = latest disk r := by
  have htimes : (items.map fun x => x.info.mtime).Perm
      ((disk.files r).map fun e => e.2.mtime) := by
    have h := hperm.map fun e => e.2.mtime
    rwa [List.map_map] at h
  rcases List.eq_nil_or_concat' items with rfl | ⟨front, x, rfl⟩
  · have hnil : (disk.files r).map (fun e => e.2.mtime) = [] := htimes.symm.eq_nil
    unfold latest
    rw [hnil]
    rfl
  · have hmax : latest disk r = some x.info.mtime := by
      unfold latest
      rw [List.max?_eq_some_iff]
      constructor
      · rw [← htimes.mem_iff, List.mem_map]
        exact ⟨x, by simp, rfl⟩
      · intro b hb
        rw [← htimes.mem_iff, List.mem_map] at hb
        rcases hb with ⟨y, hy, rfl⟩
        rcases List.mem_append.mp hy with hy | hy
        · exact (List.pairwise_append.mp hsorted).2.2 y hy x List.mem_cons_self
        · rw [List.mem_singleton.mp hy]
    rw [hmax]
    simp

theorem le_latest {disk : Disk} {r : Text} {e : Text × Meta} (h : e ∈ disk.files r) (now : Int) :
    unixSeconds e.2.mtime ≤ resting disk r now := by
  have hmem : e.2.mtime ∈ (disk.files r).map fun e => e.2.mtime := List.mem_map_of_mem h
  unfold resting latest
  cases hmax : ((disk.files r).map fun e => e.2.mtime).max? with
  | none =>
      rw [List.max?_eq_none_iff] at hmax
      rw [hmax] at hmem
      cases hmem
  | some m =>
      have hle := (List.max?_eq_some_iff.mp hmax).2 _ hmem
      exact Int.ediv_le_ediv (by decide) hle

/-- A file beyond the cutoff is newer than the stamp. -/
theorem oldest_lt_of_cutOff {s : State} {t : Turn} {time : Int} (hfits : Fits s t)
    (h : cutOff s t < time) : s.cache.oldest t.sr < unixSeconds time := by
  have hpos := offset_pos (s.cache.oldest t.sr) t.utcNow
  unfold cutOff cutOffAt fromUnixTime at h
  rw [i64Add_of_fits hfits.1 hfits.2] at h
  unfold unixSeconds
  omega

/-- A turn without failures lowers the weight by a file that counts, or moves the stamp of
its range and nothing else: to its resting place, or to a file beyond the cutoff. -/
theorem turn_cases {s : State} {t : Turn} {items : List Item} (hen : Enabled s t)
    (hclean : Clean s t) (hlist : t.listing = some items) :
    (weight (turn s t) < weight s ∧ Fruitful s.disk t.sr) ∨
    ∃ o, turn s t = { s with cache := s.cache.setOldest t.sr o, clock := t.fileNow } ∧
      ((o = resting s.disk t.sr t.fileNow ∧ ∀ e ∈ s.disk.files t.sr, live s.disk e = false) ∨
        ∃ e ∈ s.disk.files t.sr, o = unixSeconds e.2.mtime ∧ cutOff s t < e.2.mtime) := by
  rcases hen with ⟨-, hneed, holdest, -, -, hlisted⟩
  rcases hlisted items hlist with ⟨-, hsorted, -⟩
  rcases hclean.2 items hlist with ⟨hperm, hflags⟩
  have hmem : ∀ x ∈ items, x.entry ∈ s.disk.files t.sr := fun x hx =>
    hperm.mem_iff.mp (List.mem_map_of_mem hx)
  rcases turn_spec s hlist with ⟨visited, rest, newOldest, hitems, hturn, -, -, hend⟩
  have hvisited : ∀ x ∈ visited, x ∈ items := by
    intro x hx
    rw [hitems]
    exact List.mem_append_left rest hx
  rcases foldl_visit_cases holdest.1 hneed (fun x hx => hmem x (hvisited x hx))
      (fun x hx => hflags x (hvisited x hx)) with ⟨hsame, hdead⟩ | ⟨hlt, x, hx, hlive⟩
  · right
    rw [hsame] at hturn hend
    refine ⟨_, hturn, ?_⟩
    rcases hend with ⟨hrest, hnew⟩ | ⟨x, later, hrest, hnew, hstop⟩
    · left
      rw [hnew, getLast_mtime hsorted hperm]
      refine ⟨rfl, ?_⟩
      intro e he
      rcases List.mem_map.mp (hperm.mem_iff.mpr he) with ⟨x, hx, rfl⟩
      rw [hitems, hrest, List.append_nil] at hx
      exact hdead x hx
    · right
      refine ⟨x.entry, hmem x ?_, congrArg unixSeconds hnew, ?_⟩
      · rw [hitems, hrest]
        exact List.mem_append_right visited List.mem_cons_self
      · exact hstop.resolve_right (Nat.ne_of_gt hneed)
  · left
    refine ⟨?_, .inr ⟨x.entry, hmem x (hvisited x hx), hlive⟩⟩
    rw [hturn]
    exact hlt

theorem listing_of_clean {s : State} {t : Turn} (hclean : Clean s t)
    (hdir : s.disk.dir t.sr ≠ none) :
    ∃ items, t.listing = some items := by
  cases hlist : t.listing with
  | none => exact absurd (hclean.1.mp hlist) hdir
  | some items => exact ⟨items, rfl⟩

/-- A turn with a barren range moves its stamp, not beyond its resting place. -/
theorem turn_barren {s : State} {t : Turn} (hen : Enabled s t) (hclean : Clean s t)
    (hbarren : ¬ Fruitful s.disk t.sr) :
    ∃ o, turn s t = { s with cache := s.cache.setOldest t.sr o, clock := t.fileNow } ∧
      o ≤ resting s.disk t.sr t.fileNow := by
  rcases listing_of_clean hclean fun hnone => hbarren (.inl hnone) with ⟨items, hlist⟩
  rcases turn_cases hen hclean hlist with ⟨-, hfruit⟩ | ⟨o, hturn, hstamp⟩
  · exact absurd hfruit hbarren
  · refine ⟨o, hturn, ?_⟩
    rcases hstamp with ⟨rfl, -⟩ | ⟨e, he, rfl, -⟩
    · exact Int.le_refl _
    · exact le_latest he _

/-! ## The measure -/

/-- How far the stamps can still go before they have come to rest. -/
def climb (s : State) : Nat :=
  ∑ k ∈ s.cache.keys,
    if s.disk.files k = [] then 0 else (resting s.disk k 0 - s.cache.oldest k).toNat

/-- The empty ranges that are not newer than any fruitful one. -/
def idle (s : State) : Finset Text :=
  s.cache.keys.filter fun r => s.disk.files r = [] ∧ s.disk.dir r ≠ none ∧
    ∀ b ∈ s.cache.keys, Fruitful s.disk b → s.cache.oldest r ≤ s.cache.oldest b

/-- The weight first, then the stamps, then the empty ranges. -/
def measure (s : State) : ℕ ×ₗ ℕ ×ₗ ℕ := toLex (weight s, toLex (climb s, (idle s).card))

theorem resting_of_ne_nil {disk : Disk} {r : Text} (h : disk.files r ≠ []) (now now' : Int) :
    resting disk r now = resting disk r now' := by
  unfold resting latest
  cases hmax : ((disk.files r).map fun e => e.2.mtime).max? with
  | none =>
      rw [List.max?_eq_none_iff, List.map_eq_nil_iff] at hmax
      exact absurd hmax h
  | some m => rfl

section

variable {s : State} {t : Turn} {o : Int}

/-- Moving a stamp keeps the weight. -/
theorem weight_setOldest (now : Int) :
    weight { s with cache := s.cache.setOldest t.sr o, clock := now } = weight s := rfl

/-- A stamp that rises to at most its resting place. -/
theorem climb_lt (hkey : t.sr ∈ s.cache.keys) (hfiles : s.disk.files t.sr ≠ []) (now : Int)
    (hlow : s.cache.oldest t.sr < o) (hhigh : o ≤ resting s.disk t.sr now) :
    climb { s with cache := s.cache.setOldest t.sr o, clock := now } < climb s := by
  unfold climb
  apply Finset.sum_lt_sum
  · intro k _
    simp only
    split
    · exact Nat.le_refl _
    · by_cases hk : k = t.sr
      · subst hk
        rw [s.cache.setOldest_oldest_self hkey]
        omega
      · rw [s.cache.setOldest_oldest_of_ne o hk]
  · refine ⟨t.sr, hkey, ?_⟩
    rw [resting_of_ne_nil hfiles now 0] at hhigh
    simp only
    rw [if_neg hfiles, if_neg hfiles, s.cache.setOldest_oldest_self hkey]
    omega

/-- The stamp of an empty range does not matter to the others. -/
theorem climb_empty (hfiles : s.disk.files t.sr = []) (now : Int) :
    climb { s with cache := s.cache.setOldest t.sr o, clock := now } = climb s := by
  unfold climb
  apply Finset.sum_congr rfl
  intro k _
  by_cases hk : k = t.sr
  · subst hk
    simp only
    rw [if_pos hfiles, if_pos hfiles]
  · simp only
    rw [s.cache.setOldest_oldest_of_ne o hk]

/-- An empty range that becomes newer than a fruitful one. -/
theorem idle_lt (holdest : s.cache.Oldest t.sr) (hfiles : s.disk.files t.sr = [])
    (hdir : s.disk.dir t.sr ≠ none) {b : Text} (hb : b ∈ s.cache.keys) (hfruit : Fruitful s.disk b)
    (hlt : s.cache.oldest b < o) (now : Int) :
    (idle { s with cache := s.cache.setOldest t.sr o, clock := now }).card < (idle s).card := by
  have hbarren : ¬ Fruitful s.disk t.sr := by
    rintro (hnone | ⟨e, he, -⟩)
    · exact hdir hnone
    · rw [hfiles] at he
      cases he
  have hne : ∀ r, Fruitful s.disk r → r ≠ t.sr := by
    rintro r hr rfl
    exact hbarren hr
  apply Finset.card_lt_card
  rw [Finset.ssubset_iff_of_subset]
  · -- the range itself is no longer among them
    refine ⟨t.sr, ?_, ?_⟩
    · exact Finset.mem_filter.mpr ⟨holdest.1, hfiles, hdir, fun r hr _ => holdest.2 r hr⟩
    · intro hmem
      have hle := (Finset.mem_filter.mp hmem).2.2.2 b hb hfruit
      simp only at hle
      rw [s.cache.setOldest_oldest_self holdest.1,
        s.cache.setOldest_oldest_of_ne o (hne b hfruit)] at hle
      omega
  · intro r hr
    rcases Finset.mem_filter.mp hr with ⟨hkey, hnil, hd, hall⟩
    refine Finset.mem_filter.mpr ⟨hkey, hnil, hd, ?_⟩
    intro c hc hcf
    have hle := hall c hc hcf
    simp only at hle
    rw [s.cache.setOldest_oldest_of_ne o (hne c hcf)] at hle
    by_cases hr' : r = t.sr
    · rw [hr']
      exact holdest.2 c hc
    · rwa [s.cache.setOldest_oldest_of_ne o hr'] at hle

/-- A harmless turn without failures lowers the measure. -/
theorem turn_descends (hen : Enabled s t) (hclean : Clean s t) (hfits : Fits s t)
    (hharm : Harmless s t) :
    measure (turn s t) < measure s := by
  unfold measure
  rw [Prod.Lex.toLex_lt_toLex]
  have holdest : s.cache.Oldest t.sr := hen.2.2.1
  cases hlist : t.listing with
  | none =>
      left
      have hturn : turn s t = { s with clock := t.fileNow, broken := true } := by
        unfold turn
        rw [hlist]
      rw [hturn]
      unfold weight
      simp only [hen.1, if_true, Bool.false_eq_true, if_false]
      omega
  | some items =>
      rcases turn_cases hen hclean hlist with ⟨hlt, -⟩ | ⟨o, hturn, hstamp⟩
      · exact .inl hlt
      · right
        rw [hturn]
        refine ⟨weight_setOldest t.fileNow, ?_⟩
        show toLex _ < toLex _
        rw [Prod.Lex.toLex_lt_toLex]
        have hdir : s.disk.dir t.sr ≠ none := (hen.2.2.2.2.2 items hlist).1
        by_cases hfiles : s.disk.files t.sr = []
        · -- an empty range takes the current time
          right
          refine ⟨climb_empty hfiles t.fileNow, ?_⟩
          have ho : o = resting s.disk t.sr t.fileNow := by
            rcases hstamp with ⟨ho, -⟩ | ⟨e, he, -⟩
            · exact ho
            · rw [hfiles] at he
              cases he
          rcases hharm with (hnone | ⟨e, he, -⟩) | ⟨b, hb, hfruit, hlt⟩
          · exact absurd hnone hdir
          · rw [hfiles] at he
            cases he
          · rw [← ho] at hlt
            exact idle_lt holdest hfiles hdir hb hfruit hlt t.fileNow
        · left
          rcases hstamp with ⟨rfl, hdead⟩ | ⟨e, he, rfl, hcut⟩
          · -- all files are visited: the range is barren, and its stamp comes to rest
            apply climb_lt holdest.1 hfiles t.fileNow _ (Int.le_refl _)
            rcases hharm with (hnone | ⟨e, he, hlive⟩) | ⟨b, hb, -, hlt⟩
            · exact absurd hnone hdir
            · rw [hdead e he] at hlive
              cases hlive
            · exact Int.lt_of_le_of_lt (holdest.2 b hb) hlt
          · exact climb_lt holdest.1 hfiles t.fileNow (oldest_lt_of_cutOff hfits hcut)
              (le_latest he _)

end

/-! ## Selected for ever -/

/-- The files of a range as a turn without failures lists them. -/
def listFiles (disk : Disk) (r : Text) : List Item :=
  ((disk.files r).mergeSort fun e f => decide (e.2.mtime ≤ f.2.mtime)).map fun e =>
    ⟨e.1, e.2, true, true⟩

theorem listFiles_entry (disk : Disk) (r : Text) :
    ((listFiles disk r).map Item.entry).Perm (disk.files r) := by
  unfold listFiles
  rw [List.map_map]
  have hid : (Item.entry ∘ fun e : Text × Meta => ⟨e.1, e.2, true, true⟩) = id := rfl
  rw [hid, List.map_id]
  exact List.mergeSort_perm _ _

theorem listFiles_sorted (disk : Disk) (r : Text) :
    (listFiles disk r).Pairwise fun x y => x.info.mtime ≤ y.info.mtime := by
  unfold listFiles
  rw [List.pairwise_map]
  have hsorted : ((disk.files r).mergeSort fun e f => decide (e.2.mtime ≤ f.2.mtime)).Pairwise
      fun e f => decide (e.2.mtime ≤ f.2.mtime) = true :=
    List.pairwise_mergeSort (by simpa using fun _ _ _ => Int.le_trans)
      (by simpa using fun _ _ => Int.le_total _ _) _
  exact hsorted.imp fun h => of_decide_eq_true h

/-- The turn with a range whose directory is there, at a clock that stands still. -/
def stillTurn (s : State) (r : Text) : Turn := ⟨r, s.clock, some (listFiles s.disk r), s.clock⟩

theorem stillTurn_enabled {s : State} {r : Text} (hbroken : s.broken = false)
    (hneed : 0 < s.needFree) (holdest : s.cache.Oldest r) (hdir : s.disk.dir r ≠ none) :
    Enabled s (stillTurn s r) := by
  refine ⟨hbroken, hneed, holdest, Int.le_refl _, Int.le_refl _, ?_⟩
  intro items hitems
  cases hitems
  exact ⟨hdir, listFiles_sorted s.disk r, (listFiles_entry s.disk r).subperm⟩

theorem stillTurn_clean {s : State} {r : Text} (hdir : s.disk.dir r ≠ none) :
    Clean s (stillTurn s r) := by
  constructor
  · exact ⟨nofun, fun h => absurd h hdir⟩
  · intro items hitems
    cases hitems
    refine ⟨listFiles_entry s.disk r, ?_⟩
    intro x hx
    rcases List.mem_map.mp hx with ⟨e, -, rfl⟩
    exact ⟨rfl, rfl⟩

/-- The barren range is not newer than its resting stamp, and no fruitful range is older
than that. -/
def Stuck (r : Text) (s : State) : Prop :=
  s.broken = false ∧ 0 < s.needFree ∧ r ∈ s.cache.keys ∧ ¬ Fruitful s.disk r ∧
    s.cache.oldest r ≤ resting s.disk r s.clock ∧
    ∀ b ∈ s.cache.keys, Fruitful s.disk b → resting s.disk r s.clock ≤ s.cache.oldest b

/-- One of the oldest ranges is barren then. -/
theorem Stuck.barren {r : Text} {s : State} (h : Stuck r s) :
    ∃ c, s.cache.Oldest c ∧ ¬ Fruitful s.disk c := by
  rcases h with ⟨-, -, hkey, hbarren, hrest, hfruit⟩
  rcases s.cache.keys.exists_min_image s.cache.oldest ⟨r, hkey⟩ with ⟨c, hc, hmin⟩
  by_cases hcf : Fruitful s.disk c
  · refine ⟨r, ⟨hkey, ?_⟩, hbarren⟩
    intro k hk
    calc s.cache.oldest r ≤ resting s.disk r s.clock := hrest
      _ ≤ s.cache.oldest c := hfruit c hc hcf
      _ ≤ s.cache.oldest k := hmin k hk
  · exact ⟨c, ⟨hc, hmin⟩, hcf⟩

/-- A barren turn keeps what a fruitful range and the clock say. -/
theorem Stuck.of_turn {s : State} {t : Turn} {r : Text} {o : Int}
    (hbroken : s.broken = false) (hneed : 0 < s.needFree) (hbarren : ¬ Fruitful s.disk t.sr)
    (hkey : r ∈ s.cache.keys) (hr : ¬ Fruitful s.disk r)
    (hrest : (s.cache.setOldest t.sr o).oldest r ≤ resting s.disk r t.fileNow)
    (hfruit : ∀ b ∈ s.cache.keys, Fruitful s.disk b →
      resting s.disk r t.fileNow ≤ s.cache.oldest b) :
    Stuck r { s with cache := s.cache.setOldest t.sr o, clock := t.fileNow } := by
  refine ⟨hbroken, hneed, hkey, hr, hrest, ?_⟩
  intro b hb hbf
  have hne : b ≠ t.sr := by
    rintro rfl
    exact hbarren hbf
  simp only
  rw [s.cache.setOldest_oldest_of_ne o hne]
  exact hfruit b hb hbf

theorem Stuck.step {r : Text} {s : State} (start : State) (h : Stuck r s) :
    ∃ t s', Clean s t ∧ (machine start).step s t = some s' ∧ Stuck r s' := by
  rcases h.barren with ⟨c, holdest, hbarren⟩
  rcases h with ⟨hbroken, hneed, hkey, hr, hrest, hfruit⟩
  have hdir : s.disk.dir c ≠ none := fun hnone => hbarren (.inl hnone)
  have hen := stillTurn_enabled hbroken hneed holdest hdir
  have hclean := stillTurn_clean hdir
  rcases turn_barren hen hclean hbarren with ⟨o, hturn, ho⟩
  refine ⟨stillTurn s c, turn s (stillTurn s c), hclean, step_of_enabled hen, ?_⟩
  rw [hturn]
  apply Stuck.of_turn hbroken hneed hbarren hkey hr _ hfruit
  by_cases hc : r = c
  · subst hc
    rw [show (stillTurn s r).sr = r from rfl, s.cache.setOldest_oldest_self hkey]
    exact ho
  · rw [show (stillTurn s c).sr = c from rfl, s.cache.setOldest_oldest_of_ne o hc]
    exact hrest

/-- After a turn that is not harmless the loop need not end. -/
theorem endless_of_not_harmless {s : State} {t : Turn} (start : State) (hen : Enabled s t)
    (hclean : Clean s t) (hharm : ¬ Harmless s t) : (machine start).Endless Clean s := by
  unfold Harmless at hharm
  rw [not_or, not_exists] at hharm
  rcases hharm with ⟨hbarren, hnone⟩
  rcases turn_barren hen hclean hbarren with ⟨o, hturn, ho⟩
  have hkey : t.sr ∈ s.cache.keys := hen.2.2.1.1
  have hstuck : Stuck t.sr (turn s t) := by
    rw [hturn]
    apply Stuck.of_turn hen.1 hen.2.1 hbarren hkey hbarren
    · rw [s.cache.setOldest_oldest_self hkey]
      exact ho
    · intro b hb hbf
      by_contra hlt
      exact hnone b ⟨hb, hbf, Int.not_le.mp hlt⟩
  exact Machine.Endless.cons hclean (step_of_enabled hen)
    (Machine.endless_of_invariant (fun s hs => hs.step start) hstuck)

/-- **The cleaner ends as long as its turns are harmless.** Without failures there is no
endless run of harmless turns whose cutoffs do not overflow, from whatever state the loop is
entered; and from a state where a turn without failures is not harmless there is one that
never ends. -/
theorem cleaner_ends (start : State) :
    (∀ s, ¬ (machine start).Endless (fun s t => Clean s t ∧ Fits s t ∧ Harmless s t) s) ∧
      ∀ s t, Enabled s t → Clean s t → ¬ Harmless s t → (machine start).Endless Clean s := by
  constructor
  · apply Machine.not_endless wellFounded_lt measure
    intro s t s' hok hs
    rcases step_cases hs with ⟨hen, rfl⟩
    exact turn_descends hen hok.1 hok.2.1 hok.2.2
  · intro s t hen hclean hharm
    exact endless_of_not_harmless start hen hclean hharm

/-! ## A cutoff that overflows -/

/-- A time in the last day that fits into an `i64`. -/
def Late (secs : Int) : Prop := 2 ^ 63 - 86400 ≤ secs ∧ secs < 2 ^ 63

/-- Every tracked range has files, and its stamp and its files are of the last day. -/
def AllLate (s : State) : Prop :=
  s.broken = false ∧ 0 < s.needFree ∧ s.cache.keys.Nonempty ∧
    ∀ r ∈ s.cache.keys, Late (s.cache.oldest r) ∧ s.disk.files r ≠ [] ∧
      ∀ e ∈ s.disk.files r, Late (unixSeconds e.2.mtime)

/-- The cutoff behind a late stamp is before all late files. -/
theorem cutOffAt_lt_of_late {oldest time : Int} (h : Late oldest) (htime : Late (unixSeconds time))
    (utcNow : Int) : cutOffAt oldest utcNow < time := by
  unfold Late unixSeconds at *
  have hdate : ¬ HasDate oldest := by
    unfold HasDate
    omega
  have hoffset : offset oldest utcNow = 86400 := by
    unfold offset
    simp [hdate]
  unfold cutOffAt fromUnixTime
  rw [hoffset, i64Add_of_overflow (by omega) (by omega)]
  omega

theorem AllLate.step {s : State} (start : State) (h : AllLate s) :
    ∃ t s', Clean s t ∧ (machine start).step s t = some s' ∧ AllLate s' := by
  rcases h with ⟨hbroken, hneed, hkeys, hlate⟩
  rcases s.cache.keys.exists_min_image s.cache.oldest hkeys with ⟨r, hr, hmin⟩
  rcases hlate r hr with ⟨hold, hfiles, htimes⟩
  have hdir : s.disk.dir r ≠ none := by
    intro hnone
    unfold Disk.files at hfiles
    rw [hnone] at hfiles
    exact hfiles rfl
  have hen := stillTurn_enabled hbroken hneed ⟨hr, hmin⟩ hdir
  have hmem : ∀ x ∈ listFiles s.disk r, x.entry ∈ s.disk.files r := fun x hx =>
    (listFiles_entry s.disk r).mem_iff.mp (List.mem_map_of_mem hx)
  refine ⟨stillTurn s r, turn s (stillTurn s r), stillTurn_clean hdir, step_of_enabled hen, ?_⟩
  rcases turn_spec s (t := stillTurn s r) rfl with ⟨visited, rest, o, hitems, hturn, hcut, -, hend⟩
  -- no file is visited, and the first one gives its time to the stamp
  have hnone : visited = [] := by
    refine List.eq_nil_iff_forall_not_mem.mpr ?_
    intro x hx
    have hx' : x ∈ listFiles s.disk r := by
      rw [hitems]
      exact List.mem_append_left rest hx
    have hlt := cutOffAt_lt_of_late hold (htimes _ (hmem x hx')) s.clock
    exact absurd (hcut x hx) (Int.not_le.mpr hlt)
  have ho : Late (unixSeconds o) := by
    rcases hend with ⟨hrest, -⟩ | ⟨x, later, hrest, rfl, -⟩
    · rw [hnone, hrest] at hitems
      have hempty := (listFiles_entry s.disk r).symm
      rw [hitems] at hempty
      exact absurd hempty.eq_nil hfiles
    · refine htimes _ (hmem x ?_)
      rw [hitems, hrest]
      exact List.mem_append_right visited List.mem_cons_self
  rw [hturn, hnone]
  refine ⟨hbroken, hneed, hkeys, ?_⟩
  intro k hk
  refine ⟨?_, (hlate k hk).2⟩
  show Late ((s.cache.setOldest r _).oldest k)
  by_cases hkr : k = r
  · subst hkr
    rw [s.cache.setOldest_oldest_self hk]
    exact ho
  · rw [s.cache.setOldest_oldest_of_ne _ hkr]
    exact (hlate k hk).1

/-- Files of the last day are never deleted, and the loop does not end. -/
theorem late_files_endless (start : State) {s : State} (h : AllLate s) :
    (machine start).Endless Clean s :=
  Machine.endless_of_invariant (fun _ hs => hs.step start) h

/-! ## An emptied range -/

/-- `cache_state` after the only file of a range has been imported and removed. -/
def emptied : Cache := (Cache.empty.addFile "a999".toList 4096 0).removeFile "a999".toList 4096

/-- The empty directory is all there is. -/
def emptyDir : Disk where
  dir := Function.update (fun _ => none) "a999".toList (some [])
  nodup := by
    intro r d hd
    by_cases hr : r = "a999".toList
    · subst hr
      rw [Function.update_self] at hd
      cases hd
      exact List.nodup_nil
    · rw [Function.update_of_ne hr] at hd
      cases hd

/-- The limit is far away, and the disk is full. -/
def fullDisk : State := start emptied emptyDir (10 * size100MB) (some 0) 0

theorem fullDisk_not_harmless : ¬ Harmless fullDisk ⟨"a999".toList, 0, some [], 0⟩ := by
  have hbarren : ¬ Fruitful fullDisk.disk "a999".toList := by decide
  rintro (hfruit | ⟨r, hr, hfruit, -⟩)
  · exact hbarren hfruit
  · have hkey : r = "a999".toList := by
      simpa [fullDisk, start, emptied, Cache.addFile, Cache.empty] using hr
    rw [hkey] at hfruit
    exact hbarren hfruit

/-- The emptied range is selected for ever. -/
theorem emptied_range_endless : (machine fullDisk).Endless Clean fullDisk := by
  apply endless_of_not_harmless fullDisk (t := ⟨"a999".toList, 0, some [], 0⟩)
  · decide
  · decide
  · exact fullDisk_not_harmless

theorem cleaner_ends_fullDisk :
    ¬ (machine fullDisk).Endless (fun s t => Clean s t ∧ Fits s t ∧ Harmless s t) fullDisk ∧
      (machine fullDisk).Endless Clean fullDisk := by
  have h := cleaner_ends fullDisk
  exact ⟨h.1 fullDisk, h.2 fullDisk _ (by decide) (by decide) fullDisk_not_harmless⟩

end Hath.Cleaner
