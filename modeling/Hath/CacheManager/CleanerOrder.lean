import Hath.CacheManager.Cleaner

/-!
# Hath.CacheManager.CleanerOrder — the cleaner deletes the oldest files, and no more

Without failures, and with every valid file at its `to_path` location, the deletion loop
unlinks exactly the valid files it visits. The directory is read in the order of the
times, so they are the first of the range; `need_free` is what the goal and the log leave;
and the entries of `cache_state` go down with the directory.

* `visit_placed` — what a visit does then;
* `Tidy` — the invariant of the run;
* `cleaner_oldest_first` — the order, the amount, the stamp and the counts.
-/

namespace Hath.Cleaner

open Lib

/-! ## Valid files -/

/-- The name parses. -/
def valid (e : Text × Meta) : Bool := (CacheFileInfo.fromFileId e.1).isSome

def validFiles (disk : Disk) (r : Text) : List (Text × Meta) := (disk.files r).filter valid

/-- The total of the sizes. -/
def sizes (files : List (Text × Meta)) : Nat := (files.map fun e => e.2.realSize.toNat).sum

/-- Every valid file lies at its `to_path` location. -/
def Placed (disk : Disk) : Prop :=
  ∀ r, ∀ e ∈ disk.files r, ∀ info, CacheFileInfo.fromFileId e.1 = some info →
    info.staticRange = r ∧ info.fileName = e.1

/-- Counts and sizes are those of the valid files, for every tracked range. -/
def Exact (cache : Cache) (disk : Disk) : Prop :=
  ∀ r ∈ cache.keys, (cache.entry.fileCount r).toNat = (validFiles disk r).length ∧
    (cache.entry.size r).toNat = sizes (validFiles disk r)

/-- The tracked bytes on the disk. -/
def onDisk (cache : Cache) (disk : Disk) : Nat := ∑ r ∈ cache.keys, sizes (validFiles disk r)

/-- The deletion of a file of a range. -/
def deletion (r : Text) (e : Text × Meta) : Deletion := ⟨r, e.1, e.2⟩

theorem freed_deletion (r : Text) (e : Text × Meta) : freed [deletion r e] = e.2.realSize.toNat :=
  Nat.add_zero _

theorem validFiles_unlink_of_ne (disk : Disk) {r k : Text} (name : Text) (h : k ≠ r) :
    validFiles (disk.unlink r name) k = validFiles disk k := by
  unfold validFiles
  rw [Disk.files_unlink_of_ne disk name h]

/-- Unlinking a valid file takes it out of the list, and no other one. -/
theorem validFiles_unlink {disk : Disk} {r : Text} {e : Text × Meta} (hmem : e ∈ disk.files r)
    (hvalid : valid e = true) :
    (validFiles disk r).Perm (e :: validFiles (disk.unlink r e.1) r) := by
  have hnodup : ((validFiles disk r).map Prod.fst).Nodup :=
    Assoc.nodup_filter (disk.files_nodup r) valid
  have hrest : validFiles (disk.unlink r e.1) r =
      (validFiles disk r).filter fun f => f.1 ≠ e.1 := by
    unfold validFiles
    rw [Disk.files_unlink_self, List.filter_comm]
  rw [hrest]
  exact Assoc.perm_cons_filter hnodup (List.mem_filter.mpr ⟨hmem, hvalid⟩)

theorem Placed.unlink {disk : Disk} (h : Placed disk) (r name : Text) :
    Placed (disk.unlink r name) := by
  intro k e he
  exact h k e ((disk.files_unlink_subset r name k).mem he)

/-! ## Visits -/

/-- A visit without failures of a file of the range: the file is deleted if it is valid. -/
theorem visit_placed {s : State} {x : Item} {r : Text} (hplaced : Placed s.disk)
    (hmem : x.entry ∈ s.disk.files r) (hclean : x.measured = true ∧ x.removed = true) :
    (valid x.entry = false ∧ visit s x = s) ∨
    (valid x.entry = true ∧ visit s x = { s with
      needFree := s.needFree - x.info.realSize.toNat
      disk := s.disk.unlink r x.name
      cache := s.cache.removeFile r x.info.realSize
      log := s.log ++ [deletion r x.entry] }) := by
  rcases visit_cases s x with ⟨hsame, hno⟩ | ⟨info, hinfo, -, hdone⟩
  · left
    rcases hno with hno | hno
    · refine ⟨?_, hsame⟩
      unfold valid
      rw [show CacheFileInfo.fromFileId x.entry.1 = none from hno]
      rfl
    · rw [hclean.1] at hno
      cases hno
  · right
    have hvalid : valid x.entry = true := by
      unfold valid
      rw [show CacheFileInfo.fromFileId x.entry.1 = some info from hinfo]
      rfl
    rcases hplaced r x.entry hmem info hinfo with ⟨hrange, hname⟩
    have hfile : s.disk.file? info.staticRange info.fileName = some x.info := by
      rw [hrange, hname]
      exact Disk.file?_eq_some.mpr hmem
    refine ⟨hvalid, ?_⟩
    rcases hdone with ⟨-, hno⟩ | ⟨m, hm, -, hvisit⟩
    · rw [hfile, hclean.2] at hno
      simp at hno
    · rw [hfile] at hm
      cases hm
      rw [hvisit, hrange, hname]
      rfl

/-- A file of another name is still there afterwards. -/
theorem visit_still {s : State} {x y : Item} {r : Text} (hplaced : Placed s.disk)
    (hmem : x.entry ∈ s.disk.files r) (hclean : x.measured = true ∧ x.removed = true)
    (hy : y.entry ∈ s.disk.files r) (hne : y.name ≠ x.name) :
    y.entry ∈ (visit s x).disk.files r := by
  rcases visit_placed hplaced hmem hclean with ⟨-, hvisit⟩ | ⟨-, hvisit⟩
  · rw [hvisit]
    exact hy
  · rw [hvisit]
    simp only
    rw [Disk.files_unlink_self, List.mem_filter]
    exact ⟨hy, decide_eq_true hne⟩

/-- The visits of a turn without failures delete the valid ones of the files. -/
theorem foldl_visit_deletes {s : State} {r : Text} {items : List Item} (hplaced : Placed s.disk)
    (hmem : ∀ x ∈ items, x.entry ∈ s.disk.files r) (hnodup : (items.map Item.name).Nodup)
    (hclean : ∀ x ∈ items, x.measured = true ∧ x.removed = true) :
    (items.foldl visit s).log =
        s.log ++ ((items.map Item.entry).filter valid).map (deletion r) ∧
      (validFiles s.disk r).Perm ((items.map Item.entry).filter valid ++
        validFiles (items.foldl visit s).disk r) ∧
      ∀ k, k ≠ r → (items.foldl visit s).disk.files k = s.disk.files k := by
  induction items generalizing s with
  | nil => exact ⟨(List.append_nil _).symm, List.Perm.refl _, fun _ _ => rfl⟩
  | cons x items ih =>
      rw [List.map_cons, List.nodup_cons] at hnodup
      have hflags : ∀ y ∈ items, y.measured = true ∧ y.removed = true :=
        fun y hy => hclean y (List.mem_cons_of_mem x hy)
      rw [List.foldl_cons, List.map_cons]
      rcases visit_placed hplaced (hmem x List.mem_cons_self) (hclean x List.mem_cons_self) with
        ⟨hno, hvisit⟩ | ⟨hvalid, hvisit⟩
      · rw [hvisit, List.filter_cons_of_neg (by simp [hno])]
        exact ih hplaced (fun y hy => hmem y (List.mem_cons_of_mem x hy)) hnodup.2 hflags
      · have hstill : ∀ y ∈ items, y.entry ∈ (visit s x).disk.files r := by
          intro y hy
          have hne : y.name ≠ x.name := fun h => hnodup.1 (h ▸ List.mem_map_of_mem hy)
          exact visit_still hplaced (hmem x List.mem_cons_self) (hclean x List.mem_cons_self)
            (hmem y (List.mem_cons_of_mem x hy)) hne
        have hplaced' : Placed (visit s x).disk := by
          rw [hvisit]
          exact hplaced.unlink r x.name
        rcases ih hplaced' hstill hnodup.2 hflags with ⟨hlog, hperm, hother⟩
        rw [List.filter_cons_of_pos hvalid, List.map_cons]
        refine ⟨?_, ?_, ?_⟩
        · rw [hlog, hvisit]
          simp
        · have hhead : (validFiles s.disk r).Perm (x.entry :: validFiles (visit s x).disk r) := by
            rw [hvisit]
            exact validFiles_unlink (hmem x List.mem_cons_self) hvalid
          exact hhead.trans (hperm.cons x.entry)
        · intro k hk
          rw [hother k hk, hvisit]
          exact Disk.files_unlink_of_ne s.disk x.name hk

/-! ## The invariant -/

/-- With `goal` to free and `total` bytes at the start: the entries are exact, `need_free`
is what is missing to the goal, every deletion came before the goal was met, and what is
not on the disk any more has been deleted. -/
structure Tidy (goal total : Nat) (s : State) : Prop where
  placed : Placed s.disk
  exact : Exact s.cache s.disk
  need : s.needFree = goal - freed s.log
  before : ∀ pre d post, s.log = pre ++ d :: post → freed pre < goal
  balance : onDisk s.cache s.disk + freed s.log = total

theorem sizes_perm {l l' : List (Text × Meta)} (h : l.Perm l') : sizes l = sizes l' :=
  (h.map _).sum_eq

theorem sizes_cons (e : Text × Meta) (l : List (Text × Meta)) :
    sizes (e :: l) = e.2.realSize.toNat + sizes l := by
  unfold sizes
  rw [List.map_cons, List.sum_cons]

/-- `remove_file` on a tracked range. -/
theorem Cache.removeFile_counts (cache : Cache) {r : Text} (hr : r ∈ cache.keys) (size : U64) :
    (cache.removeFile r size).entry.fileCount r = cache.entry.fileCount r - 1 ∧
      (cache.removeFile r size).entry.size r = cache.entry.size r - size := by
  rcases Option.isSome_iff_exists.mp ((cache.mem_keys r).mp hr) with ⟨c, hc⟩
  unfold StateMap.fileCount StateMap.size
  rw [removeFile_entry, StateMap.removeFile, Function.update_self, hc]
  exact ⟨rfl, rfl⟩

theorem Cache.removeFile_counts_of_ne (cache : Cache) {r k : Text} (hk : k ≠ r) (size : U64) :
    (cache.removeFile r size).entry.fileCount k = cache.entry.fileCount k ∧
      (cache.removeFile r size).entry.size k = cache.entry.size k := by
  unfold StateMap.fileCount StateMap.size
  rw [removeFile_entry, StateMap.removeFile, Function.update_of_ne hk]
  exact ⟨rfl, rfl⟩

section

variable {cache : Cache} {disk : Disk} {r : Text} {e : Text × Meta}

/-- A deletion keeps the entries exact. -/
theorem Exact.unlink (h : Exact cache disk) (hr : r ∈ cache.keys) (hmem : e ∈ disk.files r)
    (hvalid : valid e = true) : Exact (cache.removeFile r e.2.realSize) (disk.unlink r e.1) := by
  intro k hk
  by_cases hkr : k = r
  · subst hkr
    rcases h k hr with ⟨hcount, hsize⟩
    have hperm := validFiles_unlink hmem hvalid
    rw [hperm.length_eq, List.length_cons] at hcount
    rw [sizes_perm hperm, sizes_cons] at hsize
    rcases cache.removeFile_counts hr e.2.realSize with ⟨hcount', hsize'⟩
    rw [hcount', hsize']
    constructor
    · rw [BitVec.toNat_sub_of_le]
      · rw [hcount]
        rfl
      · rw [BitVec.le_def, hcount]
        exact Nat.le_add_left 1 _
    · rw [BitVec.toNat_sub_of_le]
      · omega
      · rw [BitVec.le_def]
        omega
  · rcases cache.removeFile_counts_of_ne hkr e.2.realSize with ⟨hcount', hsize'⟩
    rw [hcount', hsize', validFiles_unlink_of_ne disk e.1 hkr]
    exact h k hk

/-- A deletion takes the size of the file off the disk. -/
theorem onDisk_unlink (hr : r ∈ cache.keys) (hmem : e ∈ disk.files r) (hvalid : valid e = true) :
    onDisk cache (disk.unlink r e.1) + e.2.realSize.toNat = onDisk cache disk := by
  unfold onDisk
  rw [← Finset.add_sum_erase _ _ hr, ← Finset.add_sum_erase _ _ hr]
  have hothers : ∑ k ∈ cache.keys.erase r, sizes (validFiles (disk.unlink r e.1) k) =
      ∑ k ∈ cache.keys.erase r, sizes (validFiles disk k) := by
    apply Finset.sum_congr rfl
    intro k hk
    rw [validFiles_unlink_of_ne disk e.1 (Finset.ne_of_mem_erase hk)]
  have hself : sizes (validFiles disk r) =
      e.2.realSize.toNat + sizes (validFiles (disk.unlink r e.1) r) := by
    rw [sizes_perm (validFiles_unlink hmem hvalid), sizes_cons]
  rw [hothers, hself]
  omega

end

/-- A deletion while something is left to free. -/
theorem Tidy.visit {goal total : Nat} {s : State} {x : Item} {r : Text} (h : Tidy goal total s)
    (hr : r ∈ s.cache.keys) (hneed : 0 < s.needFree) (hmem : x.entry ∈ s.disk.files r)
    (hclean : x.measured = true ∧ x.removed = true) : Tidy goal total (visit s x) := by
  rcases visit_placed h.placed hmem hclean with ⟨-, hvisit⟩ | ⟨hvalid, hvisit⟩
  · rw [hvisit]
    exact h
  · have hlow : freed s.log < goal := by
      have hleft := h.need
      omega
    have hexact : Exact (s.cache.removeFile r x.info.realSize) (s.disk.unlink r x.name) :=
      h.exact.unlink (e := x.entry) hr hmem hvalid
    rw [hvisit]
    refine ⟨h.placed.unlink r x.name, hexact, ?_, ?_, ?_⟩
    · simp only
      rw [h.need, freed_append, freed_deletion]
      exact Nat.sub_sub _ _ _
    · intro pre d post hlog
      simp only at hlog
      rcases List.eq_nil_or_concat' post with rfl | ⟨front, d', rfl⟩
      · have hpre : pre = s.log := (List.append_inj_left' hlog rfl).symm
        rw [hpre]
        exact hlow
      · have hsplit : s.log ++ [deletion r x.entry] = (pre ++ d :: front) ++ [d'] := by
          rw [hlog]
          simp
        exact h.before pre d front (List.append_inj_left' hsplit rfl)
    · have hdisk : onDisk s.cache (s.disk.unlink r x.entry.1) + x.entry.2.realSize.toNat =
          onDisk s.cache s.disk := onDisk_unlink hr hmem hvalid
      have hbalance := h.balance
      have hkeys : onDisk (s.cache.removeFile r x.info.realSize) (s.disk.unlink r x.name) =
          onDisk s.cache (s.disk.unlink r x.entry.1) := rfl
      simp only
      rw [hkeys, freed_append, freed_deletion]
      omega

theorem foldl_visit_tidy {goal total : Nat} {s : State} {r : Text} {items : List Item}
    (h : Tidy goal total s) (hr : r ∈ s.cache.keys)
    (hmem : ∀ x ∈ items, x.entry ∈ s.disk.files r) (hnodup : (items.map Item.name).Nodup)
    (hclean : ∀ x ∈ items, x.measured = true ∧ x.removed = true)
    (hneed : ∀ pre x post, items = pre ++ x :: post → 0 < (pre.foldl visit s).needFree) :
    Tidy goal total (items.foldl visit s) := by
  induction items generalizing s with
  | nil => exact h
  | cons x items ih =>
      rw [List.map_cons, List.nodup_cons] at hnodup
      have hx := hmem x List.mem_cons_self
      have hflags := hclean x List.mem_cons_self
      rw [List.foldl_cons]
      apply ih (h.visit hr (hneed [] x items rfl) hx hflags)
      · rw [visit_keys]
        exact hr
      · intro y hy
        have hne : y.name ≠ x.name := fun hname => hnodup.1 (hname ▸ List.mem_map_of_mem hy)
        exact visit_still h.placed hx hflags (hmem y (List.mem_cons_of_mem x hy)) hne
      · exact hnodup.2
      · exact fun y hy => hclean y (List.mem_cons_of_mem x hy)
      · intro pre y post hsplit
        exact hneed (x :: pre) y post (by rw [hsplit]; rfl)

/-- The stamp and the clock do not matter. -/
theorem Tidy.restamp {goal total : Nat} {s : State} (h : Tidy goal total s) (r : Text)
    (o now : Int) :
    Tidy goal total { s with cache := s.cache.setOldest r o, clock := now } := by
  refine ⟨h.placed, ?_, h.need, h.before, h.balance⟩
  intro k hk
  rcases s.cache.setOldest_counts r o k with ⟨hcount, hsize⟩
  simp only
  rw [hcount, hsize]
  exact h.exact k hk

/-! ## Turns and runs -/

/-- What an iteration does to the selected range: the files it deletes are the first of the
valid files in the order of their times, none of them beyond the cutoff, and the new stamp
is not newer than a valid file that is left. -/
def OldestFirst (s : State) (t : Turn) (s' : State) : Prop :=
  ∃ deleted kept, (validFiles s.disk t.sr).Perm (deleted ++ kept) ∧
    (deleted ++ kept).Pairwise (fun e f => e.2.mtime ≤ f.2.mtime) ∧
    s'.log = s.log ++ deleted.map (deletion t.sr) ∧
    (validFiles s'.disk t.sr).Perm kept ∧
    (∀ k, k ≠ t.sr → s'.disk.files k = s.disk.files k) ∧
    (∀ e ∈ deleted, e.2.mtime ≤ cutOff s t) ∧
    ∀ e ∈ kept, s'.cache.oldest t.sr ≤ unixSeconds e.2.mtime

/-- The first of the files that are left is the oldest of them. -/
theorem first_le_left {items visited later : List Item} {x y : Item}
    (hsorted : items.Pairwise fun x y => x.info.mtime ≤ y.info.mtime)
    (hitems : items = visited ++ x :: later) (hy : y ∈ x :: later) :
    x.info.mtime ≤ y.info.mtime := by
  rw [hitems] at hsorted
  rcases List.mem_cons.mp hy with rfl | hy
  · exact Int.le_refl _
  · exact (List.pairwise_cons.mp (List.pairwise_append.mp hsorted).2.1).1 y hy

/-- An iteration whose range has no directory. -/
theorem turn_tidy_missing {goal total : Nat} {s : State} {t : Turn} (h : Tidy goal total s)
    (hclean : Clean s t) (hlist : t.listing = none) :
    Tidy goal total (turn s t) ∧ OldestFirst s t (turn s t) := by
  have hturn : turn s t = { s with clock := t.fileNow, broken := true } := by
    unfold turn
    rw [hlist]
  have hnone : validFiles s.disk t.sr = [] := by
    unfold validFiles Disk.files
    rw [hclean.1.mp hlist]
    rfl
  rw [hturn]
  refine ⟨⟨h.placed, h.exact, h.need, h.before, h.balance⟩, [], [], ?_⟩
  rw [hnone]
  exact ⟨List.Perm.nil, List.Pairwise.nil, (List.append_nil _).symm,
    List.Perm.nil, fun _ _ => rfl, nofun, nofun⟩

/-- An iteration without failures. -/
theorem turn_tidy {goal total : Nat} {s : State} {t : Turn} (h : Tidy goal total s)
    (hen : Enabled s t) (hclean : Clean s t) :
    Tidy goal total (turn s t) ∧ OldestFirst s t (turn s t) := by
  rcases hen with ⟨-, -, holdest, -, -, hlisted⟩
  cases hlist : t.listing with
  | none => exact turn_tidy_missing h hclean hlist
  | some items =>
      rcases hlisted items hlist with ⟨-, hsorted, -⟩
      rcases hclean.2 items hlist with ⟨hperm, hflags⟩
      rcases turn_spec s hlist with ⟨visited, rest, o, hitems, hturn, hcut, hneed, hend⟩
      have hnodup : (items.map Item.name).Nodup := by
        have hnames := (hperm.map Prod.fst).nodup_iff.mpr (s.disk.files_nodup t.sr)
        rwa [List.map_map] at hnames
      have hmem : ∀ x ∈ items, x.entry ∈ s.disk.files t.sr := fun x hx =>
        hperm.mem_iff.mp (List.mem_map_of_mem hx)
      have hvisited : ∀ x ∈ visited, x ∈ items := by
        intro x hx
        rw [hitems]
        exact List.mem_append_left rest hx
      have hmem' : ∀ x ∈ visited, x.entry ∈ s.disk.files t.sr :=
        fun x hx => hmem x (hvisited x hx)
      have hflags' : ∀ x ∈ visited, x.measured = true ∧ x.removed = true :=
        fun x hx => hflags x (hvisited x hx)
      have hnodup' : (visited.map Item.name).Nodup := by
        rw [hitems, List.map_append, List.nodup_append] at hnodup
        exact hnodup.1
      rw [hturn]
      constructor
      · exact (foldl_visit_tidy h holdest.1 hmem' hnodup' hflags' hneed).restamp t.sr _ t.fileNow
      · rcases foldl_visit_deletes h.placed hmem' hnodup' hflags' with ⟨hlog, hleft, hother⟩
        have hall : (validFiles s.disk t.sr).Perm
            ((visited.map Item.entry).filter valid ++ (rest.map Item.entry).filter valid) := by
          rw [← List.filter_append, ← List.map_append, ← hitems]
          exact (hperm.filter valid).symm
        refine ⟨_, _, hall, ?_, hlog, ?_, hother, ?_, ?_⟩
        · rw [← List.filter_append, ← List.map_append, ← hitems]
          have hmap : (items.map Item.entry).Pairwise fun e f => e.2.mtime ≤ f.2.mtime :=
            List.pairwise_map.mpr hsorted
          exact hmap.filter valid
        · exact (List.perm_append_left_iff _).mp (hleft.symm.trans hall)
        · intro e he
          rcases List.mem_map.mp (List.mem_filter.mp he).1 with ⟨x, hx, rfl⟩
          exact hcut x hx
        · intro e he
          rcases List.mem_map.mp (List.mem_filter.mp he).1 with ⟨y, hy, rfl⟩
          rcases hend with ⟨hrest, -⟩ | ⟨x, later, hrest, ho, -⟩
          · rw [hrest] at hy
            cases hy
          · -- the loop stopped at the first of the files that are left
            rw [hrest] at hitems hy
            have hle := first_le_left hsorted hitems hy
            have hkey : t.sr ∈ (visited.foldl visit s).cache.keys := by
              rw [foldl_visit_keys]
              exact holdest.1
            simp only
            rw [Cache.setOldest_oldest_self _ hkey, ho]
            exact Int.ediv_le_ediv (by decide) hle

/-- A sum that does not overflow. -/
theorem toNat_sum {ι : Type} [DecidableEq ι] (keys : Finset ι) (f : ι → U64)
    (h : ∑ k ∈ keys, (f k).toNat < 2 ^ 64) : (∑ k ∈ keys, f k).toNat = ∑ k ∈ keys, (f k).toNat := by
  induction keys using Finset.induction_on with
  | empty => rfl
  | insert k keys hk ih =>
      rw [Finset.sum_insert hk] at h
      rw [Finset.sum_insert hk, Finset.sum_insert hk, BitVec.toNat_add, ih (by omega)]
      exact Nat.mod_eq_of_lt h

theorem totalSize_toNat {cache : Cache} {disk : Disk} (h : Exact cache disk)
    (hfits : onDisk cache disk < 2 ^ 64) : cache.totalSize.toNat = onDisk cache disk := by
  have hsum : ∑ r ∈ cache.keys, (cache.entry.size r).toNat = onDisk cache disk :=
    Finset.sum_congr rfl fun r hr => (h r hr).2
  unfold Cache.totalSize
  rw [toNat_sum _ _ (by rw [hsum]; exact hfits), hsum]

theorem saturatingSub_toNat (a b : U64) : (saturatingSub a b).toNat = a.toNat - b.toNat := by
  unfold saturatingSub
  split
  · rename_i hle
    exact BitVec.toNat_sub_of_le hle
  · rename_i hlt
    rw [BitVec.le_def] at hlt
    show 0 = _
    omega

/-- The start asks for at least what is over the limit. -/
theorem needFree_ge (total sizeLimit : U64) (diskFree : Option U64)
    (hfits : total.toNat + size100MB.toNat < 2 ^ 64) :
    total.toNat ≤ sizeLimit.toNat + (needFree total sizeLimit diskFree).toNat := by
  have hover := saturatingSub_toNat total sizeLimit
  -- the low disk only adds to it, and so does the minimum
  have hraise : ∀ need : U64, total.toNat - sizeLimit.toNat ≤ need.toNat →
      total.toNat ≤ sizeLimit.toNat +
        (if need = 0 then 0 else if need < size100MB then size100MB else need : U64).toNat := by
    intro need hneed
    split
    · rename_i hzero
      have hnone : need.toNat = 0 := by
        rw [hzero]
        rfl
      show _ ≤ _ + 0
      omega
    · split
      · rename_i hsmall
        rw [BitVec.lt_def] at hsmall
        omega
      · omega
  unfold needFree
  apply hraise
  cases diskFree with
  | none => exact Nat.le_of_eq hover.symm
  | some free =>
      simp only
      split
      · have hextra := saturatingSub_toNat size100MB free
        rw [BitVec.toNat_add_of_lt (by omega)]
        omega
      · exact Nat.le_of_eq hover.symm

/-- **The cleaner deletes the oldest files first and no more than it needs.** For a disk
whose valid files lie at their `to_path` locations and an exact `cache_state`, in every
state that the loop reaches without failures: every deletion was made before the goal was
met, the entries are exact, and if nothing is left to free the tracked total is within
the limit (as far as the sums of the code do not overflow); and every further iteration
deletes the oldest valid files of its range. -/
theorem cleaner_oldest_first (cache : Cache) (disk : Disk) (sizeLimit : U64)
    (diskFree : Option U64) (clock : Int) (hplaced : Placed disk) (hexact : Exact cache disk)
    {s : State}
    (hrun : (machine (start cache disk sizeLimit diskFree clock)).Reach Clean s) :
    (∀ pre d post, s.log = pre ++ d :: post →
        freed pre < (needFree cache.totalSize sizeLimit diskFree).toNat) ∧
      Exact s.cache s.disk ∧
      (onDisk cache disk + size100MB.toNat < 2 ^ 64 → s.needFree = 0 →
        s.cache.totalSize ≤ sizeLimit) ∧
      ∀ t s', Clean s t → step s t = some s' → OldestFirst s t s' := by
  have htidy : Tidy (needFree cache.totalSize sizeLimit diskFree).toNat (onDisk cache disk) s := by
    apply Machine.Reach.invariant _ _ hrun
    · rintro s rfl
      exact ⟨hplaced, hexact, rfl, by simp [start], rfl⟩
    · intro s t s' hI hclean hs
      rcases step_cases hs with ⟨hen, rfl⟩
      exact (turn_tidy hI hen hclean).1
  refine ⟨htidy.before, htidy.exact, ?_, ?_⟩
  · intro hfits hzero
    have hbalance := htidy.balance
    have hneed := htidy.need
    have hgoal := needFree_ge cache.totalSize sizeLimit diskFree
    rw [totalSize_toNat hexact (by omega)] at hgoal
    rw [BitVec.le_def, totalSize_toNat htidy.exact (by omega)]
    have hlow := hgoal hfits
    omega
  · intro t s' hclean hs
    rcases step_cases hs with ⟨hen, rfl⟩
    exact (turn_tidy htidy hen hclean).2

/-- The file `abc` and one that is not valid, in the range of `abc`. -/
def mixedDisk : Disk where
  dir := Function.update (fun _ => none) "a999".toList
    (some [("x".toList, .file ⟨5, 4096⟩), (abcInfo.fileName, .file ⟨7, size100MB⟩)])
  nodup := by
    intro r d hd
    by_cases hr : r = "a999".toList
    · subst hr
      rw [Function.update_self] at hd
      cases hd
      decide +kernel
    · rw [Function.update_of_ne hr] at hd
      cases hd

theorem mixedDisk_files (r : Text) : mixedDisk.files r =
    if r = "a999".toList then
      [("x".toList, ⟨5, 4096⟩), (abcInfo.fileName, ⟨7, size100MB⟩)] else [] := by
  unfold Disk.files mixedDisk
  simp only [Function.update_apply]
  split <;> rfl

theorem mixedDisk_placed : Placed mixedDisk := by
  intro r e he info hinfo
  rw [mixedDisk_files] at he
  split at he
  · rename_i hr
    rcases List.mem_cons.mp he with rfl | he
    · have hno : CacheFileInfo.fromFileId "x".toList = none := by decide +kernel
      exact absurd (hno.symm.trans hinfo) nofun
    · cases List.mem_singleton.mp he
      cases abcInfo_id.1.symm.trans hinfo
      exact ⟨abcInfo_id.2.trans hr.symm, rfl⟩
  · cases he

theorem mixedDisk_exact : Exact (Cache.empty.addFile "a999".toList size100MB 0) mixedDisk := by
  intro r hr
  have hsr : r = "a999".toList := by simpa [Cache.addFile, Cache.empty] using hr
  subst hsr
  have hvalid : validFiles mixedDisk "a999".toList = [(abcInfo.fileName, ⟨7, size100MB⟩)] := by
    unfold validFiles
    rw [mixedDisk_files, if_pos rfl]
    decide +kernel
  rw [hvalid]
  decide +kernel

/-- The turn that deletes the file. -/
def mixedTurn : Turn where
  sr := "a999".toList
  utcNow := 9
  listing := some [⟨"x".toList, ⟨5, 4096⟩, true, true⟩,
    ⟨abcInfo.fileName, ⟨7, size100MB⟩, true, true⟩]
  fileNow := 9

theorem cleaner_oldest_first_mixed :
    Placed mixedDisk ∧ Exact (Cache.empty.addFile "a999".toList size100MB 0) mixedDisk ∧
      ∃ s, (machine (start (Cache.empty.addFile "a999".toList size100MB 0) mixedDisk 0 none 0)).Reach
          Clean s ∧ s.log = [deletion "a999".toList (abcInfo.fileName, ⟨7, size100MB⟩)] ∧
        s.cache.totalSize ≤ 0 := by
  refine ⟨mixedDisk_placed, mixedDisk_exact, ?_⟩
  obtain ⟨s, hs, hlog, hzero⟩ := Machine.reach_of_runIf Clean
    (M := machine (start (Cache.empty.addFile "a999".toList size100MB 0) mixedDisk 0 none 0)) rfl
    [mixedTurn] (fun s => s.log = [deletion "a999".toList (abcInfo.fileName, ⟨7, size100MB⟩)] ∧
      s.needFree = 0) (by decide +kernel)
  have hfits : onDisk (Cache.empty.addFile "a999".toList size100MB 0) mixedDisk +
      size100MB.toNat < 2 ^ 64 := by decide +kernel
  exact ⟨s, hs, hlog,
    (cleaner_oldest_first _ _ _ _ _ mixedDisk_placed mixedDisk_exact hs).2.2.1 hfits hzero⟩

end Hath.Cleaner
