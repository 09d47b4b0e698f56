import Mathlib.Data.BitVec
import Mathlib.Algebra.BigOperators.Group.List.Lemmas
import Hath.CacheManager.FileInfo
import Hath.CacheManager.State
import Hath.Lib.Assoc

/-!
# Hath.CacheManager.Import — `import_cache` and its failures

An import makes the directory, removes the old file, moves the new one into place and
adds its size to `cache_state`. Every step can fail on its own, and the code goes on or
returns without looking at what lies on the disk. The model runs the call on the files of
the range's directory for every combination of outcomes.

The path of the file is the directory of the range and the file name in it
(`toPath_eq`). `place` is the name under which the system finds the path in that
directory; it is `none` if a separator in the file type leads elsewhere.

* `Tracks` — an entry of `cache_state` that agrees with a directory;
* `importCache_exact_iff` — the outcomes that keep it so.
-/

namespace Hath.Import

open Lib

/-! ## The call -/

/-- What the call works on: `cache_state`, the files in the directory of the range with
their allocated sizes, and the file at the path if that leads elsewhere. -/
structure Site where
  state : StateMap Text
  files : List (Text × U64)
  beyond : Option U64
  nodup : (files.map Prod.fst).Nodup

/-- What `copy` does. -/
inductive Copy where
  | done
  /-- An error, after a part of the target has been written or before. -/
  | failed (written : Option U64)
deriving DecidableEq

/-- The outcomes of the steps. -/
structure Outcome where
  /-- The directory is there, or it could be made. -/
  dir : Bool
  /-- `remove_cache` meets no error. -/
  removal : Bool
  rename : Bool
  copy : Copy
  /-- The allocated size of the imported file. -/
  size : U64
  /-- `async_filesize` gives it. -/
  measured : Bool
  /-- The current time, for a new entry. -/
  now : Int
deriving DecidableEq

/-- The file at the path. -/
def Site.target (place : Option Text) (s : Site) : Option U64 :=
  match place with
  | some name => s.files.lookup name
  | none => s.beyond

/-- `remove_file` on the path. -/
def Site.unlink (place : Option Text) (s : Site) : Site :=
  match place with
  | some name =>
      { s with files := s.files.filter fun e => e.1 ≠ name, nodup := Assoc.nodup_filter s.nodup _ }
  | none => { s with beyond := none }

/-- A file is written to the path, over whatever was there. -/
def Site.put (place : Option Text) (size : U64) (s : Site) : Site :=
  match place with
  | some name =>
      { s with
        files := (name, size) :: s.files.filter fun e => e.1 ≠ name
        nodup := by
          rw [List.map_cons, List.nodup_cons]
          refine ⟨?_, Assoc.nodup_filter s.nodup _⟩
          intro h
          rcases List.mem_map.mp h with ⟨e, he, hname⟩
          simpa [hname] using (List.mem_filter.mp he).2 }
  | none => { s with beyond := some size }

/-- `remove_cache`. -/
def removeCache (place : Option Text) (sr : Text) (works : Bool) (s : Site) : Site :=
  match s.target place with
  | none => s
  | some size =>
      if works then { s.unlink place with state := s.state.removeFile sr size } else s

/-- What follows the move: the file is in place, and its size is added if it can be read. -/
def addFile (place : Option Text) (sr : Text) (o : Outcome) (s : Site) : Site :=
  if o.measured then { s.put place o.size with state := s.state.addFile sr o.size o.now }
  else s.put place o.size

/-- `CacheManager::import_cache`. -/
def importCache (place : Option Text) (sr : Text) (o : Outcome) (s : Site) : Site :=
  if o.dir then
    -- the result of `remove_cache` is not looked at
    let s := removeCache place sr o.removal s
    if o.rename then addFile place sr o s
    else
      match o.copy with
      | .done => addFile place sr o s
      | .failed (some written) => s.put place written
      | .failed none => s
  else s

/-! ## Exact entries -/

/-- The total of the sizes, as `u64`. -/
def total (files : List (Text × U64)) : U64 := (files.map Prod.snd).sum

/-- The entry agrees with a directory of `count` files of `size` bytes; without an entry
there are none. -/
def Tracks (e : Option CacheState) (count : Nat) (size : U64) : Prop :=
  match e with
  | none => count = 0 ∧ size = 0
  | some c => c.fileCount = count ∧ c.size = size

/-- `cache_state` is exact for the range. -/
def Exact (sr : Text) (s : Site) : Prop := Tracks (s.state sr) s.files.length (total s.files)

section

variable {e : Option CacheState} {n : Nat} {a b : U64}

theorem Tracks.removeFile {size : U64} (h : Tracks e (n + 1) (size + a)) :
    Tracks (e.map (·.removeFile size)) n a := by
  cases e with
  | none => exact absurd h.1 (Nat.succ_ne_zero n)
  | some c =>
      rcases h with ⟨hcount, hsize⟩
      constructor
      · rw [CacheState.removeFile_fileCount, hcount, Nat.cast_add, Nat.cast_one,
          add_sub_cancel_right]
      · rw [CacheState.removeFile_size, hsize, add_sub_cancel_left]

theorem Tracks.addFile (h : Tracks e n a) (size : U64) (now : Int) :
    Tracks (some ((e.getD (.fresh now)).addFile size)) (n + 1) (size + a) := by
  have hstart : (e.getD (.fresh now)).fileCount = n ∧ (e.getD (.fresh now)).size = a := by
    cases e with
    | none =>
        rcases h with ⟨rfl, rfl⟩
        exact ⟨rfl, rfl⟩
    | some c => exact h
  constructor
  · rw [CacheState.addFile_fileCount, hstart.1, Nat.cast_add, Nat.cast_one]
  · rw [CacheState.addFile_size, hstart.2, add_comm]

/-- The counts of two directories with the same entry. -/
theorem Tracks.count_eq {m : Nat} (h : Tracks e n a) (h' : Tracks e m b) : (n : U64) = m := by
  cases e with
  | none => rw [h.1, h'.1]
  | some c => rw [← h.1, ← h'.1]

theorem Tracks.size_iff (h : Tracks e n a) : Tracks e n b ↔ a = b := by
  cases e with
  | none =>
      rcases h with ⟨rfl, rfl⟩
      exact ⟨fun hb => hb.2.symm, fun hb => ⟨rfl, hb.symm⟩⟩
  | some c => exact ⟨fun hb => h.2.symm.trans hb.2, fun hb => ⟨h.1, h.2.trans hb⟩⟩

/-- One file more or less makes a difference. -/
theorem Tracks.not_succ (h : Tracks e n a) : ¬ Tracks e (n + 1) b := by
  intro hb
  have hcount := h.count_eq hb
  rw [Nat.cast_add, Nat.cast_one] at hcount
  have hzero : (0 : U64) = 1 := by
    apply add_left_cancel (a := (n : U64))
    rwa [add_zero]
  exact absurd hzero (by decide)

end

/-! ## Where the accounts come out right -/

/-- The size of what `rename` or `copy` leaves at the path, `none` if neither touches it. -/
def Outcome.written (o : Outcome) : Option U64 :=
  if o.rename then some o.size
  else
    match o.copy with
    | .done => some o.size
    | .failed written => written

/-- The file is moved and its size can be read. -/
def Outcome.added (o : Outcome) : Bool := (o.rename || o.copy == .done) && o.measured

/-- The outcomes that keep the entry exact. In the directory of the range, the path is not
touched, or the file is added and no old one was left by a failed removal, or it is not
added and replaces an old one of the same size. Elsewhere, the entry loses what it gains. -/
def Accounted (place : Option Text) (sr : Text) (o : Outcome) (s : Site) : Prop :=
  o.dir = false ∨
    match place with
    | some name =>
        ∀ size ∈ o.written, (if o.removal then none else s.files.lookup name) =
          if o.added then none else some size
    | none =>
        (if o.removal ∧ (s.state sr).isSome then s.beyond else none) =
          if o.added then some o.size else none

theorem written_of_added {o : Outcome} (h : o.added = true) : o.written = some o.size := by
  unfold Outcome.added at h
  unfold Outcome.written
  rw [Bool.and_eq_true, Bool.or_eq_true, beq_iff_eq] at h
  rcases h.1 with hrename | hcopy
  · rw [if_pos hrename]
  · rw [hcopy]
    split <;> rfl

theorem put_state (place : Option Text) (size : U64) (s : Site) :
    (s.put place size).state = s.state := by
  cases place <;> rfl

/-- The import once the directory is there. -/
theorem importCache_eq (place : Option Text) (sr : Text) {o : Outcome} (s : Site)
    (hdir : o.dir = true) :
    (importCache place sr o s).state =
        (if o.added then (removeCache place sr o.removal s).state.addFile sr o.size o.now
          else (removeCache place sr o.removal s).state) ∧
      (importCache place sr o s).files =
        match o.written with
        | none => (removeCache place sr o.removal s).files
        | some size => ((removeCache place sr o.removal s).put place size).files := by
  unfold importCache Outcome.written Outcome.added addFile
  rw [if_pos hdir]
  simp only
  cases o.rename with
  | true => cases o.measured <;> simp [put_state]
  | false =>
      cases o.copy with
      | done => cases o.measured <;> simp [put_state]
      | failed written => cases written <;> simp [put_state]

/-- The file of a name and the others. -/
theorem lookup_split {files : List (Text × U64)} (hnodup : (files.map Prod.fst).Nodup) {name : Text}
    {size : U64} (h : files.lookup name = some size) :
    files.length = (files.filter fun e => e.1 ≠ name).length + 1 ∧
      total files = size + total (files.filter fun e => e.1 ≠ name) := by
  have hperm := Assoc.perm_cons_filter hnodup ((Assoc.lookup_eq_some hnodup).mp h)
  refine ⟨hperm.length_eq, ?_⟩
  exact (hperm.map Prod.snd).sum_eq

theorem filter_of_lookup {files : List (Text × U64)} (hnodup : (files.map Prod.fst).Nodup)
    {name : Text} (h : files.lookup name = none) : files.filter (fun e => e.1 ≠ name) = files := by
  apply Assoc.filter_ne_of_not_mem
  intro hmem
  rcases List.mem_map.mp hmem with ⟨⟨k, size⟩, he, rfl⟩
  rw [(Assoc.lookup_eq_some hnodup).mpr he] at h
  cases h

/-- The files of other names. -/
def others (name : Text) (s : Site) : List (Text × U64) := s.files.filter fun e => e.1 ≠ name

section

variable {s : Site} {place : Option Text} {sr name : Text} {works : Bool} {size : U64}

theorem removeCache_of_none (h : s.target place = none) : removeCache place sr works s = s := by
  unfold removeCache
  rw [h]

theorem removeCache_fails : removeCache place sr false s = s := by
  unfold removeCache
  split <;> rfl

theorem removeCache_works (h : s.target place = some size) :
    removeCache place sr true s = { s.unlink place with state := s.state.removeFile sr size } := by
  unfold removeCache
  rw [h]
  rfl

/-- After a removal that has left no old file. -/
theorem removeCache_of_left_none (h : Exact sr s)
    (hleft : (if works then none else s.files.lookup name) = none) :
    (removeCache (some name) sr works s).files = others name s ∧
      Tracks ((removeCache (some name) sr works s).state sr) (others name s).length
        (total (others name s)) := by
  cases hl : s.files.lookup name with
  | none =>
      have hothers : others name s = s.files := filter_of_lookup s.nodup hl
      have hsame : removeCache (some name) sr works s = s := removeCache_of_none hl
      rw [hothers, hsame]
      exact ⟨rfl, h⟩
  | some size =>
      cases works with
      | false =>
          rw [hl] at hleft
          cases hleft
      | true =>
          rcases lookup_split s.nodup hl with ⟨hlength, htotal⟩
          unfold Exact at h
          rw [hlength, htotal] at h
          have hgone : removeCache (some name) sr true s =
              { s.unlink (some name) with state := s.state.removeFile sr size } :=
            removeCache_works hl
          rw [hgone]
          refine ⟨rfl, ?_⟩
          show Tracks (s.state.removeFile sr size sr) _ _
          rw [StateMap.removeFile, Function.update_self]
          exact h.removeFile

/-- After a removal that has left an old file. -/
theorem removeCache_of_left_some (h : Exact sr s)
    (hleft : (if works then none else s.files.lookup name) = some size) :
    removeCache (some name) sr works s = s ∧
      Tracks (s.state sr) ((others name s).length + 1) (size + total (others name s)) := by
  cases works with
  | true => cases hleft
  | false =>
      rcases lookup_split s.nodup hleft with ⟨hlength, htotal⟩
      unfold Exact at h
      rw [hlength, htotal] at h
      exact ⟨removeCache_fails, h⟩

theorem others_removeCache : others name (removeCache (some name) sr works s) = others name s := by
  cases hl : s.target (some name) with
  | none => rw [removeCache_of_none hl]
  | some size =>
      cases works with
      | false => rw [removeCache_fails]
      | true =>
          rw [removeCache_works hl]
          show List.filter _ (List.filter _ _) = _
          rw [List.filter_filter]
          simp [others]

end

theorem length_put (name : Text) (size : U64) (s : Site) :
    (s.put (some name) size).files.length = (others name s).length + 1 := rfl

theorem total_put (name : Text) (size : U64) (s : Site) :
    total (s.put (some name) size).files = size + total (others name s) := rfl

/-- A removal, whether it works or not. -/
theorem removeCache_exact {sr name : Text} {works : Bool} {s : Site} (h : Exact sr s) :
    Exact sr (removeCache (some name) sr works s) := by
  unfold Exact
  cases hleft : (if works then none else s.files.lookup name) with
  | none =>
      rcases removeCache_of_left_none h hleft with ⟨hothers, htracks⟩
      rw [hothers]
      exact htracks
  | some old =>
      rw [(removeCache_of_left_some h hleft).1]
      exact h

/-- An import into the directory of the range. -/
theorem exact_in_dir {sr name : Text} {o : Outcome} {s : Site} (h : Exact sr s)
    (hdir : o.dir = true) :
    Exact sr (importCache (some name) sr o s) ↔
      ∀ size ∈ o.written, (if o.removal then none else s.files.lookup name) =
        if o.added then none else some size := by
  rcases importCache_eq (some name) sr s hdir with ⟨hstate, hfiles⟩
  unfold Exact
  rw [hstate, hfiles]
  cases hwritten : o.written with
  | none =>
      -- the path is not touched
      have hadded : o.added = false := by
        cases hadded : o.added with
        | false => rfl
        | true =>
            rw [written_of_added hadded] at hwritten
            cases hwritten
      refine iff_of_true ?_ (by simp)
      rw [hadded]
      exact removeCache_exact h
  | some size =>
      simp only [Option.mem_some_iff, forall_eq']
      rw [length_put, total_put, others_removeCache]
      cases hleft : (if o.removal then none else s.files.lookup name) with
      | none =>
          rcases removeCache_of_left_none h hleft with ⟨-, htracks⟩
          cases hadded : o.added with
          | true =>
              have hsize : size = o.size :=
                Option.some.inj (hwritten.symm.trans (written_of_added hadded))
              refine iff_of_true ?_ rfl
              have hadd := htracks.addFile o.size o.now
              rw [hsize]
              simpa [StateMap.addFile] using hadd
          | false => exact iff_of_false htracks.not_succ nofun
      | some old =>
          rcases removeCache_of_left_some h hleft with ⟨hsame, htracks⟩
          rw [hsame]
          cases hadded : o.added with
          | true =>
              -- the old file is counted as well as the one that replaced it
              refine iff_of_false ?_ nofun
              intro hexact
              have hboth := htracks.addFile o.size o.now
              rw [if_pos rfl, StateMap.addFile, Function.update_self] at hexact
              exact hexact.not_succ hboth
          | false =>
              simp only [Bool.false_eq_true, if_false]
              rw [htracks.size_iff, add_left_inj, Option.some.injEq]

/-- The entry of the range after a removal elsewhere. -/
theorem removeCache_elsewhere (sr : Text) (works : Bool) (s : Site) :
    (removeCache none sr works s).files = s.files ∧
      (removeCache none sr works s).state sr =
        match if works ∧ (s.state sr).isSome then s.beyond else none with
        | none => s.state sr
        | some old => (s.state sr).map (·.removeFile old) := by
  cases works with
  | false =>
      rw [removeCache_fails]
      simp
  | true =>
      cases hold : s.beyond with
      | none =>
          have hsame : removeCache none sr true s = s := removeCache_of_none hold
          rw [hsame]
          simp
      | some old =>
          have hgone : removeCache none sr true s =
              { s.unlink none with state := s.state.removeFile sr old } := removeCache_works hold
          rw [hgone]
          refine ⟨rfl, ?_⟩
          show s.state.removeFile sr old sr = _
          rw [StateMap.removeFile, Function.update_self]
          cases s.state sr <;> simp

/-- An import whose path leads out of the directory. -/
theorem exact_elsewhere {sr : Text} {o : Outcome} {s : Site} (h : Exact sr s)
    (hdir : o.dir = true) :
    Exact sr (importCache none sr o s) ↔
      (if o.removal ∧ (s.state sr).isSome then s.beyond else none) =
        if o.added then some o.size else none := by
  rcases importCache_eq none sr s hdir with ⟨hstate, hfiles⟩
  rcases removeCache_elsewhere sr o.removal s with ⟨hsame, hentry⟩
  have hfiles' : (importCache none sr o s).files = s.files := by
    rw [hfiles]
    cases o.written <;> exact hsame
  unfold Exact at h ⊢
  rw [hstate, hfiles']
  cases hold : (if o.removal ∧ (s.state sr).isSome then s.beyond else none) with
  | none =>
      rw [hold] at hentry
      cases hadded : o.added with
      | false =>
          rw [if_neg (by decide), hentry]
          exact iff_of_true h rfl
      | true =>
          rw [if_pos rfl, StateMap.addFile, Function.update_self, hentry]
          refine iff_of_false ?_ nofun
          intro hexact
          exact hexact.not_succ (h.addFile o.size o.now)
  | some old =>
      rw [hold] at hentry
      obtain ⟨c, hc⟩ : ∃ c, s.state sr = some c := by
        cases he : s.state sr with
        | none => simp [he] at hold
        | some c => exact ⟨c, rfl⟩
      rw [hc] at h hentry
      rcases h with ⟨hcount, hsize⟩
      cases hadded : o.added with
      | false =>
          rw [if_neg (by decide), hentry]
          refine iff_of_false ?_ nofun
          rintro ⟨hless, -⟩
          rw [CacheState.removeFile_fileCount, ← hcount, sub_eq_self] at hless
          exact absurd hless (by decide)
      | true =>
          rw [if_pos rfl, StateMap.addFile, Function.update_self, hentry, if_pos rfl,
            Option.some.injEq]
          show (c.fileCount - 1 + 1 = _ ∧ c.size - old + o.size = _) ↔ _
          rw [sub_add_cancel, hcount, hsize, sub_add_eq_add_sub, add_sub_assoc, add_eq_left,
            sub_eq_zero, eq_comm (a := old)]
          exact and_iff_right rfl

/-- **An import keeps `cache_state` exact under just these outcomes.** For every state in
which the entry of the range is exact and every combination of outcomes. -/
theorem importCache_exact_iff (place : Option Text) (sr : Text) (o : Outcome) (s : Site)
    (h : Exact sr s) : Exact sr (importCache place sr o s) ↔ Accounted place sr o s := by
  unfold Accounted
  cases hdir : o.dir with
  | false =>
      have hnothing : importCache place sr o s = s := by
        unfold importCache
        rw [hdir]
        rfl
      rw [hnothing]
      exact iff_of_true h (.inl rfl)
  | true =>
      rw [or_iff_right (by decide)]
      cases place with
      | some name => exact exact_in_dir h hdir
      | none => exact exact_elsewhere h hdir

/-- A range without files. -/
def emptySite : Site := ⟨fun _ => none, [], none, List.nodup_nil⟩

/-- The temporary file lies on another file system, and the disk is full after a page. -/
def diskFull : Outcome := ⟨true, true, false, .failed (some 4096), 8192, true, 0⟩

/-- The page stays in the directory and is not counted. -/
theorem cut_copy_not_counted :
    Exact "a999".toList emptySite ∧
      ¬ Exact "a999".toList
        (importCache (some abcInfo.fileName) "a999".toList diskFull emptySite) := by
  have hexact : Exact "a999".toList emptySite := ⟨rfl, rfl⟩
  refine ⟨hexact, ?_⟩
  rintro ⟨hcount, -⟩
  revert hcount
  decide +kernel

/-- A range with the file, and its entry. -/
def occupiedSite : Site where
  state := fun _ => some ⟨1, 8192, 0⟩
  files := [(abcInfo.fileName, 8192)]
  beyond := none
  nodup := List.nodup_singleton _

/-- The old file cannot be removed, nor its successor moved; it is copied over the old one,
and its size cannot be read. -/
def copiedOver : Outcome := ⟨true, false, false, .done, 8192, false, 0⟩

theorem importCache_exact_replaced :
    Exact "a999".toList occupiedSite ∧
      Exact "a999".toList (importCache (some abcInfo.fileName) "a999".toList copiedOver
        occupiedSite) := by
  have hexact : Exact "a999".toList occupiedSite := ⟨rfl, by decide +kernel⟩
  refine ⟨hexact, (importCache_exact_iff _ _ _ _ hexact).mpr (.inr ?_)⟩
  intro size hsize
  obtain rfl : (8192 : U64) = size := Option.some.inj hsize
  show [(abcInfo.fileName, (8192 : U64))].lookup abcInfo.fileName = some 8192
  rw [List.lookup_cons_self]

end Hath.Import
