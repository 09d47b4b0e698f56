import Hath.CacheManager.Cleaner

/-!
# Hath.CacheManager.CleanerGoal — what the cleaner has freed when it returns

When the loop is left, `need_free` should have been unlinked or nothing should be left to
unlink. Two places work against that: a directory that cannot be opened ends the loop
whatever lies in the other ranges, and `need_free` goes down by the size of a file even
if its removal has failed or met another file.

* `foldl_visit_unlinks` — visits that unlink the visited file keep `need_free` and what has
  been unlinked together;
* `cleaner_frees_or_runs_dry` — runs in which neither happens reach the goal.
-/

namespace Hath.Cleaner

open Lib

/-- What can be opened and what can be removed. -/
structure Access where
  opens : Text → Bool
  removes : Text → Text → Bool

/-- A valid cache file that the cleaner could delete: it lies where its id says, in a
directory that can be opened, and its removal works. -/
def Removable (access : Access) (r : Text) (e : Text × Meta) : Prop :=
  access.opens r = true ∧ access.removes r e.1 = true ∧
    ∃ info, CacheFileInfo.fromFileId e.1 = some info ∧ info.staticRange = r ∧ info.fileName = e.1

/-- No removable file is left in a tracked range. -/
def Dry (access : Access) (s : State) : Prop :=
  ∀ r ∈ s.cache.keys, ∀ e ∈ s.disk.files r, ¬ Removable access r e

/-- The cleaner has returned: `need_free` is used up, the loop was left by its `break`, or
no range is tracked. -/
def Returned (s : State) : Prop := s.needFree = 0 ∨ s.broken = true ∨ s.cache.keys = ∅

/-- What a visit of the file takes off `need_free`. -/
def counted (x : Item) : Nat :=
  if (CacheFileInfo.fromFileId x.name).isSome && x.measured then x.info.realSize.toNat else 0

/-- `remove_cache` unlinks the listed file itself: it lies where its id says, and its removal
works. A removal that fails does no harm to a file without blocks. -/
def Unlinks (sr : Text) (x : Item) : Prop :=
  ∀ info, CacheFileInfo.fromFileId x.name = some info → x.measured = true →
    if x.removed then info.staticRange = sr ∧ info.fileName = x.name
    else x.info.realSize = 0

/-- The directory of the selected range can be opened, and the files that the deletion loop
comes to are unlinked: those up to the cutoff, as long as the ones before do not make up
`need_free`. -/
def Sound (s : State) (t : Turn) : Prop :=
  t.listing ≠ none ∧
    ∀ items ∈ t.listing, ∀ pre x post, items = pre ++ x :: post → x.info.mtime ≤ cutOff s t →
      (pre.map counted).sum < s.needFree → Unlinks t.sr x

/-! ## Visits -/

theorem visit_needFree (s : State) (x : Item) :
    (visit s x).needFree = s.needFree - counted x := by
  unfold counted
  rcases visit_cases s x with ⟨hsame, hno⟩ | ⟨info, hinfo, hmeasured, hvisit⟩
  · rw [hsame]
    rcases hno with hno | hno <;> simp [hno]
  · rw [hinfo, hmeasured]
    rcases hvisit with ⟨hvisit, -⟩ | ⟨m, -, -, hvisit⟩ <;> rw [hvisit] <;> rfl

theorem foldl_visit_needFree (items : List Item) (s : State) :
    (items.foldl visit s).needFree = s.needFree - (items.map counted).sum := by
  induction items generalizing s with
  | nil => rfl
  | cons x items ih =>
      rw [List.foldl_cons, ih, visit_needFree, List.map_cons, List.sum_cons, Nat.sub_sub]

/-- A visit that unlinks the file keeps `need_free` and what has been unlinked together, and
leaves the other files. -/
theorem visit_unlinks {s : State} {sr : Text} {x : Item} (hmem : x.entry ∈ s.disk.files sr)
    (hunlinks : Unlinks sr x) :
    freed s.log + s.needFree ≤ freed (visit s x).log + (visit s x).needFree ∧
      ∀ e ∈ s.disk.files sr, e.1 ≠ x.name → e ∈ (visit s x).disk.files sr := by
  rcases visit_cases s x with
    ⟨hsame, -⟩ | ⟨info, hinfo, hmeasured, ⟨hvisit, hno⟩ | ⟨m, hm, hremoved, hvisit⟩⟩
  · rw [hsame]
    exact ⟨Nat.le_refl _, fun e he _ => he⟩
  · -- nothing is unlinked: the removal has failed, and there was nothing to take off
    have hsize := hunlinks info hinfo hmeasured
    have hzero : x.info.realSize.toNat = 0 := by
      split at hsize
      · rename_i hremoved
        rcases hno with hno | hno
        · rw [hsize.1, hsize.2, Disk.file?_eq_none] at hno
          exact absurd hmem (hno x.info)
        · rw [hremoved] at hno
          cases hno
      · rw [hsize]
        rfl
    rw [hvisit, hzero]
    exact ⟨Nat.le_refl _, fun e he _ => he⟩
  · have hplace := hunlinks info hinfo hmeasured
    rw [if_pos hremoved] at hplace
    rw [hplace.1, hplace.2] at hm hvisit
    have hsame : m = x.info := by
      rw [Disk.file?_eq_some.mpr hmem] at hm
      exact (Option.some.inj hm).symm
    have hlog : freed [(⟨sr, x.name, m⟩ : Deletion)] = m.realSize.toNat := Nat.add_zero _
    rw [hvisit]
    constructor
    · simp only
      rw [freed_append, hlog, hsame]
      omega
    · intro e he hne
      simp only
      rw [Disk.files_unlink_self]
      exact List.mem_filter.mpr ⟨he, decide_eq_true hne⟩

theorem foldl_visit_unlinks {s : State} {sr : Text} {items : List Item}
    (hmem : ∀ x ∈ items, x.entry ∈ s.disk.files sr) (hnodup : (items.map Item.name).Nodup)
    (hunlinks : ∀ x ∈ items, Unlinks sr x) :
    freed s.log + s.needFree ≤
      freed (items.foldl visit s).log + (items.foldl visit s).needFree := by
  induction items generalizing s with
  | nil => exact Nat.le_refl _
  | cons x items ih =>
      rw [List.map_cons, List.nodup_cons] at hnodup
      rcases visit_unlinks (hmem x List.mem_cons_self) (hunlinks x List.mem_cons_self) with
        ⟨hfreed, hleft⟩
      have htail : ∀ y ∈ items, y.entry ∈ (visit s x).disk.files sr := by
        intro y hy
        have hne : y.name ≠ x.name := fun hname => hnodup.1 (hname ▸ List.mem_map_of_mem hy)
        exact hleft _ (hmem y (List.mem_cons_of_mem x hy)) hne
      calc freed s.log + s.needFree
          ≤ freed (visit s x).log + (visit s x).needFree := hfreed
        _ ≤ _ := ih htail hnodup.2 fun y hy => hunlinks y (List.mem_cons_of_mem x hy)

/-! ## Runs -/

/-- What is still to be freed and what has been unlinked make up the goal, and the loop
has not been left by its `break`. -/
def Owed (goal : Nat) (s : State) : Prop := goal ≤ freed s.log + s.needFree ∧ s.broken = false

theorem Owed.turn {goal : Nat} {s : State} {t : Turn} (h : Owed goal s) (hen : Enabled s t)
    (hsound : Sound s t) : Owed goal (turn s t) := by
  rcases h with ⟨hgoal, -⟩
  rcases hsound with ⟨hopen, hfiles⟩
  cases hlist : t.listing with
  | none => exact absurd hlist hopen
  | some items =>
      rcases hen with ⟨hbroken, -, -, -, -, hlisted⟩
      have hsub := (hlisted items hlist).2.2
      rcases turn_spec s hlist with ⟨visited, rest, o, hitems, hturn, hcut, hneed, -⟩
      have hvisited : visited.Sublist items := by
        rw [hitems]
        exact List.sublist_append_left visited rest
      have hmem : ∀ x ∈ visited, x.entry ∈ s.disk.files t.sr := fun x hx =>
        hsub.subset (List.mem_map_of_mem (hvisited.mem hx))
      have hnodup : (visited.map Item.name).Nodup := by
        rcases hsub with ⟨listed, hperm, hsublist⟩
        have hnames : ((items.map Item.entry).map Prod.fst).Nodup :=
          (hperm.map Prod.fst).nodup_iff.mp
            ((hsublist.map Prod.fst).nodup (s.disk.files_nodup t.sr))
        rw [List.map_map] at hnames
        exact (hvisited.map Item.name).nodup hnames
      have hunlinks : ∀ x ∈ visited, Unlinks t.sr x := by
        intro x hx
        rcases List.append_of_mem hx with ⟨pre, post, hv⟩
        refine hfiles items hlist pre x (post ++ rest) ?_ (hcut x hx) ?_
        · rw [hitems, hv, List.append_assoc, List.cons_append]
        · have hpos := hneed pre x post hv
          rw [foldl_visit_needFree] at hpos
          omega
      rw [hturn]
      constructor
      · exact Nat.le_trans hgoal (foldl_visit_unlinks hmem hnodup hunlinks)
      · exact (foldl_visit_broken visited s).trans hbroken

/-- **The cleaner frees what it set out to free, or nothing is left.** In every run in which
the selected directories can be opened and the files that the deletion loop comes to are
unlinked: when the cleaner returns, the files that were unlinked make up `need_free` as it was
at the start, or no removable valid file is left in a tracked range. -/
theorem cleaner_frees_or_runs_dry (access : Access) (cache : Cache) (disk : Disk)
    (sizeLimit : U64) (diskFree : Option U64) (clock : Int) {s : State}
    (hrun : (machine (start cache disk sizeLimit diskFree clock)).Reach Sound s)
    (hret : Returned s) :
    (needFree cache.totalSize sizeLimit diskFree).toNat ≤ freed s.log ∨ Dry access s := by
  have howed : Owed (needFree cache.totalSize sizeLimit diskFree).toNat s := by
    apply Machine.Reach.invariant _ _ hrun
    · rintro s rfl
      exact ⟨Nat.le_add_left _ _, rfl⟩
    · intro s t s' hI hsound hs
      rcases step_cases hs with ⟨hen, rfl⟩
      exact hI.turn hen hsound
  rcases howed with ⟨hgoal, hbroken⟩
  rcases hret with hzero | hleft | hempty
  · left
    rwa [hzero] at hgoal
  · rw [hbroken] at hleft
    cases hleft
  · right
    intro r hr
    rw [hempty] at hr
    cases hr

/-- A file of `size100MB`, at its place. -/
def abcDisk : Disk where
  dir := Function.update (fun _ => none) "a999".toList
    (some [(abcInfo.fileName, .file ⟨0, size100MB⟩)])
  nodup := by
    intro r d hd
    by_cases hr : r = "a999".toList
    · subst hr
      rw [Function.update_self] at hd
      cases hd
      exact List.nodup_singleton _
    · rw [Function.update_of_ne hr] at hd
      cases hd

theorem abcDisk_files : abcDisk.files "a999".toList = [(abcInfo.fileName, ⟨0, size100MB⟩)] := by
  have hdir : abcDisk.dir "a999".toList = some [(abcInfo.fileName, .file ⟨0, size100MB⟩)] := by
    simp only [abcDisk, Function.update_self]
  unfold Disk.files
  rw [hdir]
  rfl

/-- The turn that deletes it. -/
def abcTurn : Turn := ⟨"a999".toList, 0, some [⟨abcInfo.fileName, ⟨0, size100MB⟩, true, true⟩], 0⟩

/-- A full disk, and the file is tracked. -/
def abcStart : State :=
  start (Cache.empty.addFile "a999".toList size100MB 0) abcDisk (10 * size100MB) (some 0) 0

theorem abcTurn_sound : Sound abcStart abcTurn := by
  refine ⟨Option.some_ne_none _, ?_⟩
  intro items hitems pre x post hsplit hcut hneed info hinfo hmeasured
  cases hitems
  have hx : x ∈ pre ++ x :: post := List.mem_append_right pre List.mem_cons_self
  rw [← hsplit, List.mem_singleton] at hx
  subst hx
  rw [abcInfo_id.1] at hinfo
  cases hinfo
  exact ⟨abcInfo_id.2, rfl⟩

theorem cleaner_frees_or_runs_dry_abc :
    ∃ s, (machine abcStart).Reach Sound s ∧ Returned s ∧
      ((needFree (Cache.empty.addFile "a999".toList size100MB 0).totalSize (10 * size100MB)
          (some 0)).toNat ≤ freed s.log ∨ Dry ⟨fun _ => true, fun _ _ => true⟩ s) := by
  have hen : Enabled abcStart abcTurn := by decide +kernel
  have hreach : (machine abcStart).Reach Sound (turn abcStart abcTurn) :=
    .step abcTurn (.init rfl) abcTurn_sound (step_of_enabled hen)
  have hret : Returned (turn abcStart abcTurn) := .inl (by decide +kernel)
  exact ⟨_, hreach, hret, cleaner_frees_or_runs_dry _ _ _ _ _ _ hreach hret⟩

/-- The range `b000` is tracked too and has the older stamp, but its directory is gone. -/
def missingStart : State :=
  start ((Cache.empty.addFile "b000".toList 4096 0).addFile "a999".toList size100MB 1) abcDisk
    (10 * size100MB) (some 0) 0

/-- The missing directory ends the loop: nothing has been unlinked, and the file of `a999`
is left. -/
theorem missing_range_stops_cleaner :
    ∃ s, (machine missingStart).Reachable s ∧ Returned s ∧
      ¬ (missingStart.needFree ≤ freed s.log ∨
        Dry ⟨fun r => r ≠ "b000".toList, fun _ _ => true⟩ s) := by
  have hen : Enabled missingStart ⟨"b000".toList, 0, none, 0⟩ := by decide +kernel
  refine ⟨turn missingStart ⟨"b000".toList, 0, none, 0⟩,
    .step _ (.init rfl) trivial (step_of_enabled hen), .inr (.inl rfl), ?_⟩
  rintro (hgoal | hdry)
  · revert hgoal
    decide +kernel
  · refine hdry "a999".toList (by decide) (abcInfo.fileName, ⟨0, size100MB⟩) ?_ ?_
    · show _ ∈ abcDisk.files "a999".toList
      rw [abcDisk_files]
      exact List.mem_singleton_self _
    · exact ⟨by decide, rfl, abcInfo, abcInfo_id.1, abcInfo_id.2, rfl⟩

end Hath.Cleaner
