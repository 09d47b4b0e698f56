import Mathlib.Algebra.Order.BigOperators.Group.List
import Hath.CacheManager.ScanTally

/-!
# Hath.CacheManager.ScanExact — what the scan counts and what can be served

`get_file` and `remove_cache` look for a file at `to_path` of its id, and nowhere else.
The scan adds every file whose name parses, wherever it lies and however its name is
spelt, to the range in its name. So its counts are those of the files that can be served
only if there are no others (`Placed`), and if no second directory that matches a range
has made the scan clear the range's entry again (`Alone`).

* `scan_exact` — then the scan is exact, in every order of listing; and where there is
  one directory for a range, or the files are placed, only then;
* `scan_counts_unservable` — a file with an upper-case name is counted and not found.
-/

namespace Hath.Scan

open Lib Lib.Recount

/-! ## The claim -/

/-- The path of an entry of a directory. -/
def entryPath (cacheDir : Text) (x : Located) (name : Text) : Text :=
  CacheFileInfo.push (CacheFileInfo.push (CacheFileInfo.push cacheDir x.l1) x.l2) name

/-- The size of a file that lies at `to_path` of its parsed name. -/
def servableOf (cacheDir : Text) (x : Located) (e : Text × Node) : Option U64 :=
  match e.2, CacheFileInfo.fromFileId e.1 with
  | .file m, some info =>
      if entryPath cacheDir x e.1 = info.toPath cacheDir then some m.realSize else none
  | _, _ => none

/-- The sizes of the files of a directory that can be served. -/
def servable (cacheDir : Text) (x : Located) (d : Dir) : List U64 :=
  d.filterMap (servableOf cacheDir x)

/-- The directory that `check_cache_usage` derives from a key. -/
def Located.IsDirOf (x : Located) (k : Text) : Prop :=
  k.length = 4 ∧ x.l1 = k.take 2 ∧ x.l2 = k.drop 2

/-- What the scan adds for an entry. -/
def addedOf (verify : Bool) (e : Text × Node) : Option (Text × U64 × Int) :=
  match examine verify e.1 e.2 with
  | .add sr size mtime => some (sr, size, mtime)
  | _ => none

section

variable (cacheDir : Text) (staticRange : List Text) (verify : Bool) (now : Int)

/-- After a scan from an empty state every key is the name of a directory, and the entry
of a directory counts the files in it that can be served; a directory without an entry
has none. -/
def Exact (root : List (Text × Node1)) : Prop :=
  ∀ m left, fullScan staticRange verify now root = some (m, left) →
    (∀ k, m k ≠ none → ∃ x ∈ located staticRange root, x.IsDirOf k) ∧
    ∀ p ∈ (located staticRange root).zip left, ∀ k, p.1.IsDirOf k →
      m.fileCount k = ((servable cacheDir p.1 p.2.2).length : U64) ∧
        m.size k = (servable cacheDir p.1 p.2.2).sum

/-- Every file that the scan adds lies where it can be served. -/
def Placed (dirs : List Located) : Prop :=
  ∀ x ∈ dirs, ∀ e ∈ x.dir, (addedOf verify e).isSome → (servableOf cacheDir x e).isSome

/-- Any other directory that matches the range of a directory with files has as many
entries as that one has files. -/
def Alone (dirs : List Located) : Prop :=
  ∀ x ∈ dirs, ∀ y ∈ dirs, (x.l1, x.l2) ≠ (y.l1, y.l2) → y.sr = x.l1 ++ x.l2 →
    added verify x.dir = [] ∨ y.dir.length = (added verify x.dir).length

end

/-- One directory for a range. -/
def OneDir (dirs : List Located) : Prop := (dirs.map fun x => x.sr).Nodup

/-! ## The claim about the tally -/

theorem servable_length_le (cacheDir : Text) (x : Located) (d : Dir) :
    (servable cacheDir x d).length ≤ d.length := List.length_filterMap_le _ _

theorem finalDir_length_le (verify : Bool) (g : Text → List (Text × U64 × Int)) (x : Located) :
    (finalDir verify g x).length ≤ x.dir.length := by
  unfold finalDir
  split
  · exact Nat.le_refl _
  · exact List.length_filter_le _ _

theorem tally_length_le (verify : Bool) (dirs : List Located) (k : Text) :
    (tally verify dirs k).length ≤ (dirs.map fun x => x.dir.length).sum := by
  have hrun := length_run_le Prod.fst (fun _ : Text => ([] : List (Text × U64 × Int)))
    (dirs.map (Located.bin verify)) k
  have hitems : ((dirs.map (Located.bin verify)).map fun b => b.items.length).sum ≤
      (dirs.map fun x => x.dir.length).sum := by
    rw [List.map_map]
    apply List.sum_le_sum
    intro x _
    exact added_length_le verify x.dir
  calc (tally verify dirs k).length
      ≤ 0 + ((dirs.map (Located.bin verify)).map fun b => b.items.length).sum := hrun
    _ ≤ (dirs.map fun x => x.dir.length).sum := by omega

/-- `Exact`, of the tally. -/
def ExactTally (cacheDir : Text) (verify : Bool) (dirs : List Located) : Prop :=
  (∀ k, tally verify dirs k ≠ [] → ∃ x ∈ dirs, x.IsDirOf k) ∧
  ∀ before x after, dirs = before ++ x :: after → ∀ k, x.IsDirOf k →
    (tally verify dirs k).length =
        (servable cacheDir x (finalDir verify (tally verify before) x)).length ∧
      (sizes (tally verify dirs k)).sum =
        (servable cacheDir x (finalDir verify (tally verify before) x)).sum

/-- The state at the end of a scan that gets to its end. -/
theorem fullScan_cases (staticRange : List Text) (verify : Bool) (now : Int)
    (root : List (Text × Node1)) :
    (fullScan staticRange verify now root = none ∧ located staticRange root = []) ∨
    fullScan staticRange verify now root =
      some (scanDirs verify now (fun _ => none) ((located staticRange root).map Located.entry)) := by
  unfold fullScan scanCache
  rw [rangeDirs_eq]
  simp only
  split
  · rename_i hempty
    left
    refine ⟨rfl, ?_⟩
    rw [List.length_map] at hempty
    exact List.length_eq_zero_iff.mp hempty.1
  · exact .inr rfl

theorem exactTally_nil (cacheDir : Text) (verify : Bool) : ExactTally cacheDir verify [] := by
  constructor
  · intro k hk
    exact absurd rfl hk
  · intro before x after h
    have := congrArg List.length h
    simp at this

section

variable {cacheDir : Text} {verify : Bool} {now : Int} {dirs : List Located} {m : StateMap Text}

theorem key_iff (hrep : Represents now m (tally verify dirs)) (k : Text) :
    m k ≠ none ↔ tally verify dirs k ≠ [] := by
  rw [hrep k, Ne, build_eq_none]

/-- The counters do not wrap. -/
theorem fileCount_iff (hfew : (dirs.map fun x => x.dir.length).sum < 2 ^ 64)
    (hrep : Represents now m (tally verify dirs)) {before after : List Located} {x : Located}
    (hdirs : dirs = before ++ x :: after) (k : Text) :
    m.fileCount k =
        ((servable cacheDir x (finalDir verify (tally verify before) x)).length : U64) ↔
      (tally verify dirs k).length =
        (servable cacheDir x (finalDir verify (tally verify before) x)).length := by
  have hlen := servable_length_le cacheDir x (finalDir verify (tally verify before) x)
  have hfinal := finalDir_length_le verify (tally verify before) x
  have htally := tally_length_le verify dirs k
  have hx : x.dir.length ≤ (dirs.map fun x => x.dir.length).sum := by
    rw [hdirs, List.map_append, List.map_cons, List.sum_append, List.sum_cons]
    omega
  rw [hrep.fileCount]
  exact ofNat_eq_iff (by omega) (by omega)

theorem exact_of_represents {left : List (Text × Dir)}
    (hfew : (dirs.map fun x => x.dir.length).sum < 2 ^ 64)
    (hrep : Represents now m (tally verify dirs))
    (hleft : ∀ x l, (x, l) ∈ dirs.zip left ↔ ∃ before after, dirs = before ++ x :: after ∧
      l = (x.sr, finalDir verify (tally verify before) x)) :
    ((∀ k, m k ≠ none → ∃ x ∈ dirs, x.IsDirOf k) ∧
      ∀ p ∈ dirs.zip left, ∀ k, p.1.IsDirOf k →
        m.fileCount k = ((servable cacheDir p.1 p.2.2).length : U64) ∧
          m.size k = (servable cacheDir p.1 p.2.2).sum) ↔
      ExactTally cacheDir verify dirs := by
  constructor
  · rintro ⟨hkeys, hcounts⟩
    constructor
    · intro k hk
      exact hkeys k ((key_iff hrep k).mpr hk)
    · intro before x after hdirs k hk
      have hmem := (hleft x _).mpr ⟨before, after, hdirs, rfl⟩
      rcases hcounts _ hmem k hk with ⟨hc, hs⟩
      exact ⟨(fileCount_iff hfew hrep hdirs k).mp hc, (hrep.size k).symm.trans hs⟩
  · rintro ⟨hkeys, hcounts⟩
    constructor
    · intro k hk
      exact hkeys k ((key_iff hrep k).mp hk)
    · rintro ⟨x, l⟩ hmem k hk
      rcases (hleft x l).mp hmem with ⟨before, after, hdirs, rfl⟩
      rcases hcounts before x after hdirs k hk with ⟨hc, hs⟩
      exact ⟨(fileCount_iff hfew hrep hdirs k).mpr hc, (hrep.size k).trans hs⟩

end

/-- A scan is exact if its tally is. -/
theorem exact_iff {cacheDir : Text} {staticRange : List Text} {verify : Bool} {now : Int}
    {root : List (Text × Node1)} (h : Listing (located staticRange root)) :
    Exact cacheDir staticRange verify now root ↔
      ExactTally cacheDir verify (located staticRange root) := by
  unfold Exact
  rcases fullScan_cases staticRange verify now root with ⟨hnone, hempty⟩ | hscan
  · rw [hnone, hempty]
    constructor
    · intro _
      exact exactTally_nil cacheDir verify
    · intro _ m left hm
      cases hm
  · have hfew : ∀ k : Text, ((fun _ => [] : Text → List (Text × U64 × Int)) k).length +
        ((located staticRange root).map fun x => x.dir.length).sum < 2 ^ 64 := by
      intro k
      simpa using h.few
    have hstart : Represents now (fun _ => none) fun _ => [] := fun _ => rfl
    rw [hscan, ← exact_of_represents h.few (scanDirs_represents hstart _ hfew)
      (mem_zip_left hstart _ hfew)]
    constructor
    · intro hexact
      exact hexact _ _ rfl
    · intro hexact m left heq
      rw [Option.some.inj heq] at hexact
      exact hexact

/-! ## Entries -/

section

variable {cacheDir : Text} {verify : Bool} {e : Text × Node}

theorem added_eq (verify : Bool) (d : Dir) : added verify d = d.filterMap (addedOf verify) := rfl

theorem addedOf_eq_some {f : Text × U64 × Int} (h : addedOf verify e = some f) :
    ∃ m info, e.2 = .file m ∧ CacheFileInfo.fromFileId e.1 = some info ∧
      f = (info.staticRange, m.realSize, m.mtime) := by
  rcases e with ⟨name, node⟩
  cases node with
  | dir => cases h
  | file m =>
      cases hinfo : CacheFileInfo.fromFileId name with
      | none => simp [addedOf, examine, hinfo] at h
      | some info =>
          refine ⟨m, info, rfl, rfl, ?_⟩
          simp only [addedOf, examine, hinfo] at h
          split_ifs at h
          cases h
          rfl

theorem servableOf_eq_some {x : Located} {s : U64} (h : servableOf cacheDir x e = some s) :
    ∃ m info, e.2 = .file m ∧ CacheFileInfo.fromFileId e.1 = some info ∧
      entryPath cacheDir x e.1 = info.toPath cacheDir ∧ s = m.realSize := by
  rcases e with ⟨name, node⟩
  cases node with
  | dir => cases h
  | file m =>
      cases hinfo : CacheFileInfo.fromFileId name with
      | none => simp [servableOf, hinfo] at h
      | some info =>
          simp only [servableOf, hinfo] at h
          split at h
          · rename_i hpath
            exact ⟨m, info, rfl, rfl, hpath, (Option.some.inj h).symm⟩
          · cases h

/-- The keys that files are added to are in lower case. -/
theorem staticRange_lower (info : CacheFileInfo) :
    info.staticRange.map Char.toLower = info.staticRange := by
  have hdigit : ∀ n : Fin 16, (Nat.digitChar n).toLower = Nat.digitChar n := by decide
  have hlower : ∀ c ∈ info.staticRange, c.toLower = c := by
    intro c hc
    rcases List.mem_flatMap.mp hc with ⟨b, -, hc⟩
    have hb := b.toNat_lt
    rcases List.mem_cons.mp hc with rfl | hc
    · exact hdigit ⟨b.toNat / 16, by omega⟩
    · rw [List.mem_singleton.mp hc]
      exact hdigit ⟨b.toNat % 16, by omega⟩
  rw [List.map_congr_left hlower, List.map_id']

/-- The directory of a file that can be served is the one of its range. -/
theorem isDirOf_of_path {x : Located} {info : CacheFileInfo} (h1 : IsName x.l1) (h2 : IsName x.l2)
    (he : IsName e.1) (hpath : entryPath cacheDir x e.1 = info.toPath cacheDir) :
    x.IsDirOf info.staticRange := by
  have hcomp := congrArg components hpath
  rcases CacheFileInfo.components_toPath info cacheDir with ⟨name, htoPath⟩
  rw [htoPath, CacheFileInfo.components_targetDir] at hcomp
  unfold entryPath at hcomp
  rw [components_push_name he, components_push_name h2, components_push_name h1] at hcomp
  simp only [List.append_assoc, List.cons_append, List.nil_append] at hcomp
  have hnames := List.append_cancel_left hcomp
  simp only [List.cons.injEq, Component.normal.injEq] at hnames
  rcases CacheFileInfo.encode_hash info with ⟨a, b, c, d, rest, hhash, hsr⟩
  rw [hhash] at hnames
  rw [hsr]
  exact ⟨rfl, hnames.1, hnames.2.1⟩

end

theorem Located.IsDirOf.key {x : Located} {k : Text} (h : x.IsDirOf k) : k = x.l1 ++ x.l2 := by
  rw [h.2.1, h.2.2, List.take_append_drop]

/-- A key has one directory. -/
theorem Located.IsDirOf.place {x y : Located} {k : Text} (hx : x.IsDirOf k) (hy : y.IsDirOf k) :
    (x.l1, x.l2) = (y.l1, y.l2) := by
  rw [hx.2.1, hx.2.2, hy.2.1, hy.2.2]

theorem mem_added {verify : Bool} {d : Dir} {f : Text × U64 × Int} :
    f ∈ added verify d ↔ ∃ e ∈ d, addedOf verify e = some f := by
  rw [added_eq, List.mem_filterMap]

theorem added_lower {verify : Bool} {d : Dir} {f : Text × U64 × Int} (hf : f ∈ added verify d) :
    f.1.map Char.toLower = f.1 := by
  rcases mem_added.mp hf with ⟨e, -, he⟩
  rcases addedOf_eq_some he with ⟨m, info, -, -, rfl⟩
  exact staticRange_lower info

section

variable {cacheDir : Text} {verify : Bool} {dirs : List Located} {x y : Located} {k : Text}

/-- A directory is matched to its own key, where that is in lower case too. -/
theorem Listing.sr_eq (h : Listing dirs) (hx : x ∈ dirs) (hk : x.IsDirOf k)
    (hlow : k.map Char.toLower = k) (hsr : x.sr.map Char.toLower = x.sr) : x.sr = k := by
  rw [← hsr, ← h.matched x hx, ← hk.key, hlow]

/-- Where a file can be served, the directory is that of the range in its name. -/
theorem Listing.isDirOf (h : Listing dirs) (hx : x ∈ dirs) {e : Text × Node} (he : e ∈ x.dir)
    {s : U64} (hs : servableOf cacheDir x e = some s) :
    ∃ m info, e.2 = .file m ∧ CacheFileInfo.fromFileId e.1 = some info ∧ s = m.realSize ∧
      x.IsDirOf info.staticRange := by
  rcases servableOf_eq_some hs with ⟨m, info, hnode, hinfo, hpath, rfl⟩
  rcases h.plain x hx with ⟨h1, h2, hfiles⟩
  exact ⟨m, info, hnode, hinfo, rfl, isDirOf_of_path h1 h2 (hfiles e he) hpath⟩

/-- The key of a directory with files that can be served is in lower case. -/
theorem Listing.key_lower (h : Listing dirs) (hx : x ∈ dirs) (hk : x.IsDirOf k)
    (hne : servable cacheDir x x.dir ≠ []) : k.map Char.toLower = k := by
  rcases List.exists_mem_of_ne_nil _ hne with ⟨s, hs⟩
  rcases List.mem_filterMap.mp hs with ⟨e, he, hs⟩
  rcases h.isDirOf hx he hs with ⟨m, info, -, -, -, hinfo⟩
  rw [hk.key, ← hinfo.key]
  exact staticRange_lower info

/-! ## Placed files -/

/-- A placed file is in the directory of its range. -/
theorem Placed.isDirOf (hp : Placed cacheDir verify dirs) (h : Listing dirs) (hx : x ∈ dirs)
    {f : Text × U64 × Int} (hf : f ∈ added verify x.dir) : x.IsDirOf f.1 := by
  rcases mem_added.mp hf with ⟨e, he, hadd⟩
  rcases Option.isSome_iff_exists.mp (hp x hx e he (by rw [hadd]; rfl)) with ⟨s, hs⟩
  rcases h.isDirOf hx he hs with ⟨m, info, -, hinfo, -, hdir⟩
  rcases addedOf_eq_some hadd with ⟨m', info', -, hinfo', rfl⟩
  rw [hinfo] at hinfo'
  cases hinfo'
  exact hdir

theorem isDirOf_of_items (hp : Placed cacheDir verify dirs) (h : Listing dirs) (hx : x ∈ dirs)
    (hne : itemsOf Prod.fst (x.bin verify) k ≠ []) : x.IsDirOf k ∧ k.map Char.toLower = k := by
  rcases List.exists_mem_of_ne_nil _ hne with ⟨f, hf⟩
  rcases List.mem_filter.mp hf with ⟨hf, hk⟩
  have hk : f.1 = k := of_decide_eq_true hk
  rw [← hk]
  exact ⟨hp.isDirOf h hx hf, added_lower hf⟩

/-- All the files of a directory are under the key of the directory. -/
theorem itemsOf_eq_added (hp : Placed cacheDir verify dirs) (h : Listing dirs) (hx : x ∈ dirs)
    (hk : x.IsDirOf k) : itemsOf Prod.fst (x.bin verify) k = added verify x.dir := by
  apply List.filter_eq_self.mpr
  intro f hf
  rw [decide_eq_true_eq, hk.key, (hp.isDirOf h hx hf).key]

/-- Only the directory of a range has files that are added to the range of a directory
with files. -/
theorem same_place (hp : Placed cacheDir verify dirs) (h : Listing dirs) (hx : x ∈ dirs)
    (hy : y ∈ dirs) (hitems : added verify x.dir ≠ [])
    (hhome : itemsOf Prod.fst (y.bin verify) x.sr ≠ []) : (x.l1, x.l2) = (y.l1, y.l2) := by
  rcases List.exists_mem_of_ne_nil _ hitems with ⟨f, hf⟩
  rcases isDirOf_of_items hp h hy hhome with ⟨hy', hlow⟩
  have hx' := hp.isDirOf h hx hf
  -- both ranges are in lower case, so the match of `x` is its own key
  rw [h.sr_eq hx hx' (added_lower hf) hlow] at hy'
  exact hx'.place hy'

theorem apart_of_placed (hp : Placed cacheDir verify dirs) (h : Listing dirs) (hx : x ∈ dirs)
    (hy : y ∈ dirs) (hne : (x.l1, x.l2) ≠ (y.l1, y.l2)) :
    Apart Prod.fst (x.bin verify) (y.bin verify) := by
  refine ⟨?_, ?_, ?_⟩
  · intro k
    by_contra hboth
    rw [not_or] at hboth
    exact hne ((isDirOf_of_items hp h hx hboth.1).1.place (isDirOf_of_items hp h hy hboth.2).1)
  · by_contra hboth
    rw [not_or] at hboth
    exact hne (same_place hp h hx hy hboth.1 hboth.2)
  · by_contra hboth
    rw [not_or] at hboth
    exact hne (same_place hp h hy hx hboth.1 hboth.2).symm

theorem fits_of_alone (hp : Placed cacheDir verify dirs) (ha : Alone verify dirs)
    (h : Listing dirs) (hx : x ∈ dirs) (hy : y ∈ dirs) (hne : (x.l1, x.l2) ≠ (y.l1, y.l2)) :
    Fits Prod.fst (x.bin verify) (y.bin verify) := by
  by_cases hitems : itemsOf Prod.fst (x.bin verify) y.sr = []
  · exact .inl hitems
  · right
    -- `y` matches the key of `x`, and `Alone` leaves it no other count
    have hdir := (isDirOf_of_items hp h hx hitems).1
    have hall : itemsOf Prod.fst (x.bin verify) y.sr = added verify x.dir :=
      itemsOf_eq_added hp h hx hdir
    show y.dir.length = (itemsOf Prod.fst (x.bin verify) y.sr).length
    rw [hall] at hitems ⊢
    exact (ha x hx y hy hne hdir.key).resolve_left hitems

theorem size_ne_zero (x : Located) (hne : (x.bin verify).items ≠ []) : (x.bin verify).size ≠ 0 := by
  intro hzero
  have hdir : x.dir = [] := List.length_eq_zero_iff.mp hzero
  apply hne
  show added verify x.dir = []
  rw [hdir]
  rfl

/-- The bins of a listing of placed files. -/
theorem bins_apart (hp : Placed cacheDir verify dirs) (h : Listing dirs) :
    (dirs.map (Located.bin verify)).Pairwise (Apart Prod.fst) := by
  have hplaces := h.distinct
  rw [List.Nodup, List.pairwise_map] at hplaces
  rw [List.pairwise_map]
  apply hplaces.imp_of_mem
  intro x y hx hy hne
  exact apart_of_placed hp h hx hy hne

variable (verify) in
theorem bins_size (dirs : List Located) :
    ∀ b ∈ dirs.map (Located.bin verify), b.items ≠ [] → b.size ≠ 0 := by
  intro b hb
  rcases List.mem_map.mp hb with ⟨x, -, rfl⟩
  exact size_ne_zero x

end

/-! ## What is left of a directory -/

/-- The scan does not delete the entry. -/
def keeps (verify : Bool) (e : Text × Node) : Bool :=
  match examine verify e.1 e.2 with
  | .delete => false
  | _ => true

theorem kept_eq (verify : Bool) (d : Dir) : kept verify d = d.filter (keeps verify) := rfl

/-- An entry is deleted, is nothing to the scan or to `get_file`, or is added. -/
theorem entry_cases (verify : Bool) (e : Text × Node) :
    (keeps verify e = false ∧ addedOf verify e = none) ∨
    (keeps verify e = true ∧ addedOf verify e = none ∧
      ∀ cacheDir x, servableOf cacheDir x e = none) ∨
    (keeps verify e = true ∧ ∃ m info, e.2 = .file m ∧
      CacheFileInfo.fromFileId e.1 = some info ∧
      addedOf verify e = some (info.staticRange, m.realSize, m.mtime)) := by
  rcases e with ⟨name, node⟩
  cases node with
  | dir => exact .inr (.inl ⟨rfl, rfl, fun _ _ => rfl⟩)
  | file m =>
      cases hinfo : CacheFileInfo.fromFileId name with
      | none =>
          refine .inr (.inl ⟨?_, ?_, ?_⟩)
          · simp [keeps, examine, hinfo]
          · simp [addedOf, examine, hinfo]
          · intro cacheDir x
            simp [servableOf, hinfo]
      | some info =>
          by_cases hlen : m.len ≠ info.fileSize
          · exact .inl ⟨by simp [keeps, examine, hinfo, hlen], by simp [addedOf, examine, hinfo, hlen]⟩
          · by_cases hhash : verify = true ∧ m.sha1 ≠ info.hash
            · exact .inl ⟨by simp [keeps, examine, hinfo, hlen, hhash],
                by simp [addedOf, examine, hinfo, hlen, hhash]⟩
            · refine .inr (.inr ⟨?_, m, info, rfl, rfl, ?_⟩)
              · simp only [keeps, examine, hinfo, if_neg hlen, if_neg hhash]
              · simp only [addedOf, examine, hinfo, if_neg hlen, if_neg hhash]

section

variable {cacheDir : Text} {verify : Bool} {dirs : List Located} {x y : Located} {k : Text}

theorem servable_append (cacheDir : Text) (x : Located) (d d' : Dir) :
    servable cacheDir x (d ++ d') = servable cacheDir x d ++ servable cacheDir x d' :=
  List.filterMap_append

theorem added_append (verify : Bool) (d d' : Dir) :
    added verify (d ++ d') = added verify d ++ added verify d' := List.filterMap_append

theorem kept_append (verify : Bool) (d d' : Dir) :
    kept verify (d ++ d') = kept verify d ++ kept verify d' := List.filter_append _ _

/-- With placed files, what is left of a scanned directory are the files that were
added. -/
theorem servable_kept (hp : Placed cacheDir verify dirs) (hx : x ∈ dirs) :
    servable cacheDir x (kept verify x.dir) = sizes (added verify x.dir) := by
  -- the induction runs over a part of the directory
  suffices hall : ∀ d : Dir, (∀ e ∈ d, e ∈ x.dir) →
      servable cacheDir x (kept verify d) = sizes (added verify d) from hall x.dir fun _ he => he
  intro d
  induction d with
  | nil =>
      intro _
      rfl
  | cons e d ih =>
      intro hd
      have ih := ih fun e' he' => hd e' (List.mem_cons_of_mem e he')
      rw [kept_eq] at ih ⊢
      rw [added_eq] at ih ⊢
      rcases entry_cases verify e with ⟨hkeep, hadd⟩ | ⟨hkeep, hadd, hserve⟩ |
        ⟨hkeep, m, info, hnode, hinfo, hadd⟩
      · rw [List.filter_cons_of_neg (by simp [hkeep]), List.filterMap_cons_none hadd, ih]
      · rw [List.filter_cons_of_pos hkeep, List.filterMap_cons_none hadd, servable,
          List.filterMap_cons_none (hserve cacheDir x)]
        exact ih
      -- an added file can be served, with the size that was added
      · rcases Option.isSome_iff_exists.mp
          (hp x hx e (hd e List.mem_cons_self) (by rw [hadd]; rfl)) with ⟨s, hs⟩
        rcases servableOf_eq_some hs with ⟨m', info', hnode', -, -, rfl⟩
        rw [hnode] at hnode'
        cases hnode'
        rw [List.filter_cons_of_pos hkeep, List.filterMap_cons_some hadd, servable,
          List.filterMap_cons_some hs]
        exact congrArg _ ih

variable (cacheDir verify) in
/-- In general they are some of those added to the directory's own range. -/
theorem servable_kept_le (h : Listing dirs) (hx : x ∈ dirs) (hk : x.IsDirOf k) (d : Dir)
    (hd : ∀ e ∈ d, e ∈ x.dir) :
    (servable cacheDir x (kept verify d)).length ≤
      ((added verify d).filter fun f => f.1 = k).length := by
  induction d with
  | nil => exact Nat.le_refl _
  | cons e d ih =>
      have ih := ih fun e' he' => hd e' (List.mem_cons_of_mem e he')
      rw [kept_eq] at ih ⊢
      rw [added_eq] at ih ⊢
      rcases entry_cases verify e with ⟨hkeep, hadd⟩ | ⟨hkeep, hadd, hserve⟩ |
        ⟨hkeep, m, info, hnode, hinfo, hadd⟩
      · rw [List.filter_cons_of_neg (by simp [hkeep]), List.filterMap_cons_none hadd]
        exact ih
      · rw [List.filter_cons_of_pos hkeep, List.filterMap_cons_none hadd, servable,
          List.filterMap_cons_none (hserve cacheDir x)]
        exact ih
      · rw [List.filter_cons_of_pos hkeep, List.filterMap_cons_some hadd, servable]
        cases hs : servableOf cacheDir x e with
        -- it may count for the key, and is not served
        | none =>
            rw [List.filterMap_cons_none hs]
            apply Nat.le_trans ih
            exact ((List.sublist_cons_self _ _).filter _).length_le
        | some s =>
            rcases h.isDirOf hx (hd e List.mem_cons_self) hs with ⟨m', info', -, hinfo', -, hdir⟩
            rw [hinfo] at hinfo'
            cases hinfo'
            have hkey : info.staticRange = k := by rw [hdir.key, ← hk.key]
            rw [List.filterMap_cons_some hs, List.filter_cons_of_pos (by simpa using hkey),
              List.length_cons, List.length_cons]
            exact Nat.succ_le_succ ih

/-- Fewer, if a file of that range cannot be served. -/
theorem servable_kept_lt (h : Listing dirs) (hx : x ∈ dirs) (hk : x.IsDirOf k)
    {e : Text × Node} (he : e ∈ x.dir) {f : Text × U64 × Int} (hadd : addedOf verify e = some f)
    (hf : f.1 = k) (hserve : servableOf cacheDir x e = none) :
    (servable cacheDir x (kept verify x.dir)).length <
      ((added verify x.dir).filter fun f => f.1 = k).length := by
  rcases List.append_of_mem he with ⟨d, d', hdir⟩
  have hd := servable_kept_le cacheDir verify h hx hk d fun e' he' => by
    rw [hdir]
    exact List.mem_append_left _ he'
  have hd' := servable_kept_le cacheDir verify h hx hk d' fun e' he' => by
    rw [hdir]
    exact List.mem_append_right _ (List.mem_cons_of_mem e he')
  have hkeep : servable cacheDir x (kept verify [e]) = [] := by
    rw [kept_eq]
    by_cases hkeep : keeps verify e = true
    · rw [List.filter_cons_of_pos hkeep, List.filter_nil]
      exact List.filterMap_cons_none hserve
    · rw [List.filter_cons_of_neg hkeep, List.filter_nil]
      rfl
  have hone : (added verify [e]).filter (fun f => f.1 = k) = [f] := by
    rw [added_eq, List.filterMap_cons_some hadd, List.filterMap_nil,
      List.filter_cons_of_pos (by simpa using hf), List.filter_nil]
  rw [hdir, ← List.singleton_append, kept_append, kept_append, servable_append, servable_append,
    added_append, added_append, List.filter_append, List.filter_append, hkeep, hone]
  simp only [List.length_append, List.length_cons, List.length_nil]
  omega

theorem servable_lt (cacheDir : Text) (x : Located) {e : Text × Node} {d : Dir} (he : e ∈ d)
    (hserve : servableOf cacheDir x e = none) : (servable cacheDir x d).length < d.length := by
  rcases List.append_of_mem he with ⟨d₁, d₂, rfl⟩
  have h₁ := servable_length_le cacheDir x d₁
  have h₂ := servable_length_le cacheDir x d₂
  rw [servable_append, List.length_append, List.length_append, List.length_cons, servable,
    servable, List.filterMap_cons_none hserve]
  exact Nat.add_lt_add_of_le_of_lt h₁ (Nat.lt_succ_of_le h₂)

/-! ## Directories whose count is trusted -/

theorem Listing.place_ne {before after : List Located} (h : Listing (before ++ x :: after))
    (hy : y ∈ before ∨ y ∈ after) : (y.l1, y.l2) ≠ (x.l1, x.l2) := by
  have hplaces := h.distinct
  rw [List.map_append, List.map_cons, List.nodup_middle, List.nodup_cons] at hplaces
  intro heq
  apply hplaces.1
  rw [← heq, List.mem_append]
  rcases hy with hy | hy
  · exact .inl (List.mem_map.mpr ⟨y, hy, rfl⟩)
  · exact .inr (List.mem_map.mpr ⟨y, hy, rfl⟩)

/-- What has been tallied under a key was added from some directory. -/
theorem mem_tally {f : Text × U64 × Int} (hf : f ∈ tally verify dirs k) :
    ∃ y ∈ dirs, itemsOf Prod.fst (y.bin verify) k ≠ [] ∧ k.map Char.toLower = k := by
  rcases mem_run hf with hf | ⟨b, hb, hf⟩
  · cases hf
  · rcases List.mem_map.mp hb with ⟨y, hy, rfl⟩
    refine ⟨y, hy, List.ne_nil_of_mem hf, ?_⟩
    rcases List.mem_filter.mp hf with ⟨hf, hk⟩
    rw [← of_decide_eq_true hk]
    exact added_lower hf

/-- A directory whose count is trusted is empty, or its range is its own key. -/
theorem trusted_cases (h : Listing dirs) (hx : x ∈ dirs) (hk : x.IsDirOf k)
    (hlow : k.map Char.toLower = k) {before : List Located}
    (htrust : x.dir.length = (tally verify before x.sr).length) : x.dir = [] ∨ x.sr = k := by
  by_cases hnil : tally verify before x.sr = []
  · left
    rw [hnil] at htrust
    exact List.length_eq_zero_iff.mp htrust
  · right
    rcases List.exists_mem_of_ne_nil _ hnil with ⟨f, hf⟩
    rcases mem_tally hf with ⟨-, -, -, hsr⟩
    exact h.sr_eq hx hk hlow hsr

/-- With placed files, no file of a directory whose count is trusted can be served. -/
theorem servable_of_trusted {before after : List Located}
    (hp : Placed cacheDir verify (before ++ x :: after)) (h : Listing (before ++ x :: after))
    (hk : x.IsDirOf k) (htrust : x.dir.length = (tally verify before x.sr).length) :
    servable cacheDir x x.dir = [] := by
  have hx : x ∈ before ++ x :: after := List.mem_append_right _ List.mem_cons_self
  by_contra hne
  rcases trusted_cases h hx hk (h.key_lower hx hk hne) htrust with hdir | hsr
  · rw [hdir] at hne
    exact hne rfl
  · -- the files were tallied from another directory of the key
    have htally : tally verify before x.sr ≠ [] := by
      intro hnil
      rw [hnil] at htrust
      rw [List.length_eq_zero_iff.mp htrust] at hne
      exact hne rfl
    rcases List.exists_mem_of_ne_nil _ htally with ⟨f, hf⟩
    rcases mem_tally hf with ⟨y, hy, hitems, -⟩
    have hy' := (isDirOf_of_items hp h (List.mem_append_left _ hy) hitems).1
    rw [hsr] at hy'
    exact h.place_ne (.inl hy) (hy'.place hk)

/-- With placed files, nothing is added where nothing can be served. -/
theorem added_eq_nil (hp : Placed cacheDir verify dirs) (hx : x ∈ dirs)
    (hnil : servable cacheDir x x.dir = []) : added verify x.dir = [] := by
  rw [added_eq, List.filterMap_eq_nil_iff]
  intro e he
  by_contra hne
  have hs := hp x hx e he (Option.isSome_iff_ne_none.mpr hne)
  rw [List.filterMap_eq_nil_iff.mp hnil e he] at hs
  cases hs

/-- With placed files, the files left in a directory are those that were added. -/
theorem servable_finalDir {before after : List Located}
    (hp : Placed cacheDir verify (before ++ x :: after)) (h : Listing (before ++ x :: after))
    (hk : x.IsDirOf k) :
    servable cacheDir x (finalDir verify (tally verify before) x) = sizes (added verify x.dir) := by
  have hx : x ∈ before ++ x :: after := List.mem_append_right _ List.mem_cons_self
  unfold finalDir
  split
  · rename_i htrust
    have hnil := servable_of_trusted hp h hk htrust
    rw [hnil, added_eq_nil hp hx hnil]
    rfl
  · exact servable_kept hp hx

/-! ## Placed and alone is enough -/

theorem accounted_dir (hp : Placed cacheDir verify dirs) (h : Listing dirs) (hx : x ∈ dirs)
    (hk : x.IsDirOf k) :
    accounted Prod.fst (dirs.map (Located.bin verify)) k = added verify x.dir := by
  have hitems := itemsOf_eq_added hp h hx hk
  by_cases hne : itemsOf Prod.fst (x.bin verify) k = []
  · rw [← hitems, hne, accounted_eq_nil]
    intro b hb
    rcases List.mem_map.mp hb with ⟨y, hy, rfl⟩
    -- a second directory of the key would be `x` itself
    by_contra hy'
    have hplace := (isDirOf_of_items hp h hy hy').1.place hk
    have hsame : y = x := List.inj_on_of_nodup_map h.distinct hy hx hplace
    rw [hsame] at hy'
    exact hy' hne
  · rw [accounted_eq (bins_apart hp h) (List.mem_map_of_mem hx) hne, hitems]

theorem exactTally_of_placed (hp : Placed cacheDir verify dirs) (ha : Alone verify dirs)
    (h : Listing dirs) : ExactTally cacheDir verify dirs := by
  have hbins : (dirs.map (Located.bin verify)).Pairwise
      fun b c => Apart Prod.fst b c ∧ Fits Prod.fst b c := by
    have hplaces := h.distinct
    rw [List.Nodup, List.pairwise_map] at hplaces
    rw [List.pairwise_map]
    apply hplaces.imp_of_mem
    intro x y hx hy hne
    exact ⟨apart_of_placed hp h hx hy hne, fits_of_alone hp ha h hx hy hne⟩
  have htally : ∀ k, tally verify dirs k = accounted Prod.fst (dirs.map (Located.bin verify)) k :=
    run_eq_accounted hbins (bins_size verify dirs)
  constructor
  · intro k hk
    rcases List.exists_mem_of_ne_nil _ hk with ⟨f, hf⟩
    rcases mem_tally hf with ⟨y, hy, hitems, -⟩
    exact ⟨y, hy, (isDirOf_of_items hp h hy hitems).1⟩
  · rintro before x after rfl k hk
    have hx : x ∈ before ++ x :: after := List.mem_append_right _ List.mem_cons_self
    rw [htally, accounted_dir hp h hx hk, servable_finalDir hp h hk]
    refine ⟨?_, rfl⟩
    unfold sizes
    rw [List.length_map]

/-! ## Alone is necessary -/

/-- A later directory of another size leaves the key of `x` without an entry. -/
theorem fits_of_exactTally {pre mid post : List Located}
    (hp : Placed cacheDir verify (pre ++ x :: (mid ++ y :: post)))
    (h : Listing (pre ++ x :: (mid ++ y :: post)))
    (hexact : ExactTally cacheDir verify (pre ++ x :: (mid ++ y :: post)))
    (hsr : y.sr = x.l1 ++ x.l2) :
    added verify x.dir = [] ∨ y.dir.length = (added verify x.dir).length := by
  have hx : x ∈ pre ++ x :: (mid ++ y :: post) := List.mem_append_right _ List.mem_cons_self
  by_contra hboth
  rw [not_or] at hboth
  rcases List.exists_mem_of_ne_nil _ hboth.1 with ⟨f, hf⟩
  have hdir : x.IsDirOf y.sr := by
    have hf' := hp.isDirOf h hx hf
    rw [hf'.key, ← hsr] at hf'
    exact hf'
  have hitems : itemsOf Prod.fst (x.bin verify) (y.bin verify).home = added verify x.dir :=
    itemsOf_eq_added hp h hx hdir
  have hapart := bins_apart hp h
  have hsize := bins_size verify (pre ++ x :: (mid ++ y :: post))
  -- nothing between the two touches the key, and `y` clears it
  have hcleared : tally verify (pre ++ x :: (mid ++ y :: post)) y.sr = [] := by
    simp only [List.map_append, List.map_cons] at hapart hsize
    unfold tally
    simp only [List.map_append, List.map_cons]
    apply run_cleared hapart hsize
    · rw [hitems]
      exact hboth.1
    · rw [hitems]
      exact hboth.2
  have hcount := (hexact.2 pre x (mid ++ y :: post) rfl y.sr hdir).1
  rw [hcleared, servable_finalDir hp h hdir, sizes, List.length_map] at hcount
  exact hboth.1 (List.length_eq_zero_iff.mp hcount.symm)

/-- Two elements of a list, in one order or the other. -/
theorem split_two {a b : Located} (ha : a ∈ dirs) (hb : b ∈ dirs) (hne : a ≠ b) :
    (∃ pre mid post, dirs = pre ++ a :: (mid ++ b :: post)) ∨
      ∃ pre mid post, dirs.reverse = pre ++ a :: (mid ++ b :: post) := by
  rcases List.append_of_mem ha with ⟨pre, post, rfl⟩
  rcases List.mem_append.mp hb with hb | hb
  · right
    rcases List.append_of_mem hb with ⟨pre, mid, rfl⟩
    exact ⟨post.reverse, mid.reverse, pre.reverse, by simp⟩
  · left
    rcases List.mem_cons.mp hb with rfl | hb
    · exact absurd rfl hne
    · rcases List.append_of_mem hb with ⟨mid, post, rfl⟩
      exact ⟨pre, mid, post, rfl⟩

theorem alone_of_exactTally (hp : Placed cacheDir verify dirs) (h : Listing dirs)
    (hrev : Listing dirs.reverse) (hexact : ExactTally cacheDir verify dirs)
    (hexact' : ExactTally cacheDir verify dirs.reverse) : Alone verify dirs := by
  intro x hx y hy hne hsr
  have hxy : x ≠ y := by
    rintro rfl
    exact hne rfl
  rcases split_two hx hy hxy with ⟨pre, mid, post, rfl⟩ | ⟨pre, mid, post, heq⟩
  · exact fits_of_exactTally hp h hexact hsr
  · have hp' : Placed cacheDir verify dirs.reverse :=
      fun z hz => hp z (List.mem_reverse.mp hz)
    rw [heq] at hrev hexact' hp'
    exact fits_of_exactTally hp' hrev hexact' hsr

/-! ## Placed is necessary, with one directory for a range -/

theorem tally_append (verify : Bool) (pre post : List Located) :
    tally verify (pre ++ post) =
      run Prod.fst (tally verify pre) (post.map (Located.bin verify)) := by
  unfold tally
  rw [List.map_append, run_append]

theorem tally_le {pre post : List Located} (hne : ∀ y ∈ post, y.sr ≠ k) :
    (tally verify pre k).length ≤ (tally verify (pre ++ post) k).length := by
  rw [tally_append]
  apply length_le_run
  intro b hb
  rcases List.mem_map.mp hb with ⟨y, hy, rfl⟩
  exact hne y hy

theorem tally_snoc_le {pre post : List Located} (hne : ∀ y ∈ post, y.sr ≠ k) :
    (tally verify (pre ++ [x]) k).length ≤ (tally verify (pre ++ x :: post) k).length := by
  rw [List.append_cons pre x post]
  exact tally_le hne

/-- The files of a directory that is scanned are tallied. -/
theorem items_le_tally {before : List Located}
    (hfail : x.dir.length ≠ (tally verify before x.sr).length) (k : Text) :
    (itemsOf Prod.fst (x.bin verify) k).length ≤ (tally verify (before ++ [x]) k).length := by
  rw [tally_append]
  show _ ≤ (step Prod.fst (tally verify before) (x.bin verify) k).length
  rcases step_cases Prod.fst (tally verify before) (x.bin verify) k with
    ⟨htrust, -⟩ | ⟨-, -, heq⟩ | ⟨-, -, heq⟩
  · exact absurd htrust hfail
  · exact Nat.le_of_eq (congrArg List.length heq.symm)
  · rw [heq, List.length_append]
    omega

/-- After a directory has been scanned its key counts at least what is left in it. -/
theorem servable_le_tally (h : Listing dirs) (hx : x ∈ dirs) (hk : x.IsDirOf k)
    (hlow : k.map Char.toLower = k) (before : List Located) :
    (servable cacheDir x (finalDir verify (tally verify before) x)).length ≤
      (tally verify (before ++ [x]) k).length := by
  unfold finalDir
  split
  · rename_i htrust
    rcases trusted_cases h hx hk hlow htrust with hdir | hsr
    · rw [hdir]
      exact Nat.zero_le _
    · have hsame : tally verify (before ++ [x]) = tally verify before := by
        rw [tally_append]
        exact step_trusted (b := x.bin verify) htrust
      rw [hsame, ← hsr, ← htrust]
      exact servable_length_le cacheDir x x.dir
  · rename_i hfail
    calc (servable cacheDir x (kept verify x.dir)).length
        ≤ (itemsOf Prod.fst (x.bin verify) k).length :=
          servable_kept_le cacheDir verify h hx hk x.dir fun _ he => he
      _ ≤ (tally verify (before ++ [x]) k).length := items_le_tally hfail k

variable (cacheDir verify) in
/-- If the key is not cleared, what is left comes on top. -/
theorem servable_add_le_tally (h : Listing dirs) (hx : x ∈ dirs) (hk : x.IsDirOf k)
    (hlow : k.map Char.toLower = k) (hsr : x.sr ≠ k) (before : List Located) :
    (tally verify before k).length +
        (servable cacheDir x (finalDir verify (tally verify before) x)).length ≤
      (tally verify (before ++ [x]) k).length := by
  rw [tally_append]
  show _ ≤ (step Prod.fst (tally verify before) (x.bin verify) k).length
  unfold finalDir
  split
  · rename_i htrust
    rw [step_trusted (b := x.bin verify) htrust]
    rcases trusted_cases h hx hk hlow htrust with hdir | hsr'
    · rw [hdir]
      exact Nat.le_refl _
    · exact absurd hsr' hsr
  · rename_i hfail
    have hle := servable_kept_le cacheDir verify h hx hk x.dir
      fun _ he => he
    rw [step_other (b := x.bin verify) hfail (Ne.symm hsr), List.length_append]
    exact Nat.add_le_add_left hle _

theorem OneDir.eq (ho : OneDir dirs) (hx : x ∈ dirs) (hy : y ∈ dirs) (hsr : x.sr = y.sr) : x = y :=
  List.inj_on_of_nodup_map ho hx hy hsr

/-- Only the directory of a key is matched to it. -/
theorem OneDir.sr_ne (ho : OneDir dirs) (h : Listing dirs) (hx : x ∈ dirs) (hy : y ∈ dirs)
    (hk : k = x.l1 ++ x.l2) (hne : y ≠ x) : y.sr ≠ k := by
  intro hsr
  have hmatch := h.matched y hy
  rw [hsr, hk] at hmatch
  exact hne (ho.eq hx hy (h.coherent x hx y hy hmatch.symm)).symm

section

variable {before after : List Located} {e : Text × Node} {f : Text × U64 × Int}

/-- A directory with a misplaced file is not trusted. -/
theorem not_trusted (h : Listing (before ++ x :: after)) (ho : OneDir (before ++ x :: after))
    (hexact : ExactTally cacheDir verify (before ++ x :: after)) (he : e ∈ x.dir)
    (hserve : servableOf cacheDir x e = none) :
    x.dir.length ≠ (tally verify before x.sr).length := by
  have hx : x ∈ before ++ x :: after := List.mem_append_right _ List.mem_cons_self
  intro htrust
  have hone := ho
  rw [OneDir, List.map_append, List.map_cons, List.nodup_middle, List.nodup_cons] at hone
  -- its key keeps the count until the end
  have hgrow : x.dir.length ≤ (tally verify (before ++ x :: after) x.sr).length := by
    rw [htrust, ← List.singleton_append, ← List.append_assoc]
    have hsame : tally verify (before ++ [x]) = tally verify before := by
      rw [tally_append]
      exact step_trusted (b := x.bin verify) htrust
    rw [← hsame]
    apply tally_le
    intro y hy hsr
    exact hone.1 (List.mem_append_right _ (List.mem_map.mpr ⟨y, hy, hsr⟩))
  have hpos := List.length_pos_of_mem he
  rcases hexact.1 x.sr (List.ne_nil_of_length_pos (by omega)) with ⟨z, hz, hdir⟩
  -- the directory of the key is this one
  have hzx : z = x := by
    by_contra hne
    exact ho.sr_ne h hz hx hdir.key (Ne.symm hne) rfl
  rw [hzx] at hdir
  have hcount := (hexact.2 before x after rfl x.sr hdir).1
  rw [finalDir, if_pos htrust] at hcount
  have hless := servable_lt cacheDir x he hserve
  omega

variable (cacheDir) in
/-- The directory of the key came before: the files of `x` are on top of what is left
there. -/
theorem servable_lt_before {z : Located} {pre mid : List Located}
    (h : Listing (pre ++ z :: (mid ++ x :: after))) (hdir : z.IsDirOf k)
    (hlow : k.map Char.toLower = k) (hother : ∀ y ∈ mid ++ x :: after, y.sr ≠ k)
    (hfail : x.dir.length ≠ (tally verify (pre ++ z :: mid) x.sr).length)
    (hitem : 0 < (itemsOf Prod.fst (x.bin verify) k).length) :
    (servable cacheDir z (finalDir verify (tally verify pre) z)).length <
      (tally verify (pre ++ z :: (mid ++ x :: after)) k).length := by
  have hz : z ∈ pre ++ z :: (mid ++ x :: after) := List.mem_append_right _ List.mem_cons_self
  have hxk : x.sr ≠ k := hother x (List.mem_append_right _ List.mem_cons_self)
  have hstep : (tally verify (pre ++ z :: mid ++ [x]) k).length =
      (tally verify (pre ++ z :: mid) k).length +
        (itemsOf Prod.fst (x.bin verify) k).length := by
    rw [tally_append, ← List.length_append]
    exact congrArg List.length (step_other (b := x.bin verify) hfail (Ne.symm hxk))
  calc (servable cacheDir z (finalDir verify (tally verify pre) z)).length
      ≤ (tally verify (pre ++ [z]) k).length := servable_le_tally h hz hdir hlow pre
    _ ≤ (tally verify (pre ++ z :: mid) k).length :=
        tally_snoc_le fun y hy => hother y (List.mem_append_left _ hy)
    _ < (tally verify (pre ++ z :: mid ++ [x]) k).length := by omega
    _ ≤ (tally verify (pre ++ z :: mid ++ x :: after) k).length :=
        tally_snoc_le fun y hy => hother y (List.mem_append_right _ (List.mem_cons_of_mem x hy))
    _ = (tally verify (pre ++ z :: (mid ++ x :: after)) k).length := by
        rw [List.append_assoc, List.cons_append]

variable (cacheDir) in
/-- The directory of the key comes later and does not clear it. -/
theorem servable_lt_after {z : Located} {mid post : List Located}
    (h : Listing ((before ++ x :: mid) ++ z :: post)) (hdir : z.IsDirOf k)
    (hlow : k.map Char.toLower = k) (hother : ∀ y ∈ mid ++ z :: post, y.sr ≠ k)
    (hfail : x.dir.length ≠ (tally verify before x.sr).length)
    (hitem : 0 < (itemsOf Prod.fst (x.bin verify) k).length) :
    (servable cacheDir z (finalDir verify (tally verify (before ++ x :: mid)) z)).length <
      (tally verify ((before ++ x :: mid) ++ z :: post) k).length := by
  have hz : z ∈ (before ++ x :: mid) ++ z :: post := List.mem_append_right _ List.mem_cons_self
  have hzk : z.sr ≠ k := hother z (List.mem_append_right _ List.mem_cons_self)
  have hpos : 0 < (tally verify (before ++ x :: mid) k).length := by
    calc 0 < (itemsOf Prod.fst (x.bin verify) k).length := hitem
      _ ≤ (tally verify (before ++ [x]) k).length := items_le_tally hfail k
      _ ≤ (tally verify (before ++ x :: mid) k).length :=
          tally_snoc_le fun y hy => hother y (List.mem_append_left _ hy)
  have hsum := servable_add_le_tally cacheDir verify h hz hdir hlow hzk
    (before ++ x :: mid)
  calc (servable cacheDir z (finalDir verify (tally verify (before ++ x :: mid)) z)).length
      < (tally verify ((before ++ x :: mid) ++ [z]) k).length := by omega
    _ ≤ (tally verify ((before ++ x :: mid) ++ z :: post) k).length :=
        tally_snoc_le fun y hy => hother y (List.mem_append_right _ (List.mem_cons_of_mem z hy))

/-- A misplaced file stays counted if its key is not cleared later. -/
theorem misplaced_absurd (h : Listing (before ++ x :: after)) (ho : OneDir (before ++ x :: after))
    (hexact : ExactTally cacheDir verify (before ++ x :: after)) (he : e ∈ x.dir)
    (hadd : addedOf verify e = some f) (hserve : servableOf cacheDir x e = none)
    (hafter : ∀ y ∈ after, y.sr ≠ f.1) : False := by
  have hx : x ∈ before ++ x :: after := List.mem_append_right _ List.mem_cons_self
  have hf : f ∈ added verify x.dir := mem_added.mpr ⟨e, he, hadd⟩
  have hlow := added_lower hf
  have hitem : 0 < (itemsOf Prod.fst (x.bin verify) f.1).length :=
    List.length_pos_of_mem (List.mem_filter.mpr ⟨hf, decide_eq_true rfl⟩)
  have hfail := not_trusted h ho hexact he hserve
  have hgrow : (itemsOf Prod.fst (x.bin verify) f.1).length ≤
      (tally verify (before ++ x :: after) f.1).length :=
    Nat.le_trans (items_le_tally hfail f.1) (tally_snoc_le hafter)
  -- so its key has an entry, and must have a directory
  rcases hexact.1 f.1 (List.ne_nil_of_length_pos (by omega)) with ⟨z, hz, hdir⟩
  rcases List.mem_append.mp hz with hz' | hz'
  · rcases List.append_of_mem hz' with ⟨pre, mid, rfl⟩
    have hform : pre ++ z :: mid ++ x :: after = pre ++ z :: (mid ++ x :: after) := by simp
    rw [hform] at h ho hexact
    have hother : ∀ y ∈ mid ++ x :: after, y.sr ≠ f.1 := by
      intro y hy
      apply ho.sr_ne h (List.mem_append_right _ List.mem_cons_self)
        (List.mem_append_right _ (List.mem_cons_of_mem z hy)) hdir.key
      intro heq
      exact h.place_ne (.inr hy) (by rw [heq])
    have hless := servable_lt_before cacheDir h hdir hlow hother hfail hitem
    have hcount := (hexact.2 pre z (mid ++ x :: after) rfl f.1 hdir).1
    omega
  · rcases List.mem_cons.mp hz' with rfl | hz'
    · -- it is this directory: fewer files are left than were added
      have hcount := (hexact.2 before z after rfl f.1 hdir).1
      rw [finalDir, if_neg hfail] at hcount
      have hless : (servable cacheDir z (kept verify z.dir)).length <
          (itemsOf Prod.fst (z.bin verify) f.1).length :=
        servable_kept_lt h hx hdir he hadd rfl hserve
      omega
    · rcases List.append_of_mem hz' with ⟨mid, post, rfl⟩
      have hform : before ++ x :: (mid ++ z :: post) = (before ++ x :: mid) ++ z :: post := by simp
      rw [hform] at h hexact
      have hless := servable_lt_after cacheDir h hdir hlow hafter hfail hitem
      have hcount := (hexact.2 (before ++ x :: mid) z post rfl f.1 hdir).1
      omega

end

theorem OneDir.reverse (ho : OneDir dirs) : OneDir dirs.reverse := by
  unfold OneDir
  rw [List.map_reverse]
  exact List.nodup_reverse.mpr ho

/-- In one of the two orders the key of a misplaced file is not cleared after it. -/
theorem placed_of_exactTally (h : Listing dirs) (hrev : Listing dirs.reverse) (ho : OneDir dirs)
    (hexact : ExactTally cacheDir verify dirs)
    (hexact' : ExactTally cacheDir verify dirs.reverse) : Placed cacheDir verify dirs := by
  intro x hx e he hadd
  by_contra hserve
  rw [Bool.not_eq_true, Option.isSome_eq_false_iff, Option.isNone_iff_eq_none] at hserve
  rcases Option.isSome_iff_exists.mp hadd with ⟨f, hadd⟩
  rcases List.append_of_mem hx with ⟨before, after, rfl⟩
  by_cases hafter : ∀ y ∈ after, y.sr ≠ f.1
  · exact misplaced_absurd h ho hexact he hadd hserve hafter
  · have hform : (before ++ x :: after).reverse = after.reverse ++ x :: before.reverse := by simp
    have ho' := ho.reverse
    rw [hform] at hrev ho' hexact'
    apply misplaced_absurd hrev ho' hexact' he hadd hserve
    intro z hz hsr
    apply hafter
    intro y hy hsr'
    have hbefore : z ∈ before := List.mem_reverse.mp hz
    have hzy : z = y := ho.eq (List.mem_append_left _ hbefore)
      (List.mem_append_right _ (List.mem_cons_of_mem x hy)) (hsr.trans hsr'.symm)
    -- a directory is not in both parts
    rw [OneDir, List.map_append] at ho
    exact List.disjoint_of_nodup_append ho (List.mem_map_of_mem hbefore)
      (List.mem_map_of_mem (List.mem_cons_of_mem x (hzy ▸ hy)))

/-- One directory for a range is always alone. -/
theorem OneDir.alone (ho : OneDir dirs) (h : Listing dirs) : Alone verify dirs := by
  intro x hx y hy hne hsr
  have hyx : y ≠ x := by
    rintro rfl
    exact hne rfl
  exact absurd hsr (ho.sr_ne h hx hy rfl hyx)

/-! ## The order of the listings -/

theorem Placed.relisting {dirs' : List Located} (hp : Placed cacheDir verify dirs)
    (hsame : Relisting Located.Same dirs dirs') : Placed cacheDir verify dirs' := by
  intro y hy e he hadd
  rcases hsame.exists_of_mem hy with ⟨x, hx, h1, h2, -, hdir⟩
  have hpath : servableOf cacheDir y e = servableOf cacheDir x e := by
    unfold servableOf entryPath
    rw [h1, h2]
  rw [hpath]
  exact hp x hx e (hdir.mem_iff.mpr he) hadd

theorem Alone.relisting {dirs' : List Located} (ha : Alone verify dirs)
    (hsame : Relisting Located.Same dirs dirs') : Alone verify dirs' := by
  intro y hy y' hy' hne hsr
  rcases hsame.exists_of_mem hy with ⟨x, hx, h1, h2, -, hdir⟩
  rcases hsame.exists_of_mem hy' with ⟨x', hx', h1', h2', hsr', hdir'⟩
  have hadded : (added verify x.dir).Perm (added verify y.dir) := hdir.filterMap _
  rw [← h1, ← h2, ← h1', ← h2'] at hne
  rw [← h1, ← h2, ← hsr'] at hsr
  rcases ha x hx x' hx' hne hsr with hnil | hlen
  · rw [hnil] at hadded
    exact .inl hadded.symm.eq_nil
  · right
    rw [← hdir'.length_eq, ← hadded.length_eq]
    exact hlen

end

/-- If the files that the scan adds are placed, and directories with files alone in their
ranges, the scan is exact in every order of listing. If there is one directory for a
range, or the files are placed, that is also necessary. -/
theorem scan_exact (cacheDir : Text) (staticRange : List Text) (verify : Bool) (now : Int)
    (root : List (Text × Node1)) (htree : IsTree staticRange root) :
    (Placed cacheDir verify (located staticRange root) ∧ Alone verify (located staticRange root) →
      ∀ root', SameTree root root' → Exact cacheDir staticRange verify now root') ∧
    (Placed cacheDir verify (located staticRange root) ∨ OneDir (located staticRange root) →
      (∀ root', SameTree root root' → Exact cacheDir staticRange verify now root') →
        Placed cacheDir verify (located staticRange root) ∧
          Alone verify (located staticRange root)) := by
  have h := htree.listing
  constructor
  · rintro ⟨hp, ha⟩ root' hsame
    have hdirs := sameTree_located staticRange hsame
    have h' := h.relisting hdirs
    rw [exact_iff h']
    exact exactTally_of_placed (hp.relisting hdirs) (ha.relisting hdirs) h'
  · intro hcase hexact
    have hdirs := sameTree_located staticRange (sameTree_revTree root)
    have hrev := h.relisting hdirs
    have hfirst := (exact_iff h).mp (hexact root (sameTree_refl root))
    have hlast := (exact_iff hrev).mp (hexact (revTree root) (sameTree_revTree root))
    rw [located_revTree] at hrev hlast
    rcases hcase with hp | ho
    · exact ⟨hp, alone_of_exactTally hp h hrev hfirst hlast⟩
    · exact ⟨placed_of_exactTally h hrev ho hfirst hlast, ho.alone h⟩

/-! ### Concrete trees -/

instance {α : Type} (l : List (Text × α)) : Decidable (Names l) :=
  inferInstanceAs (Decidable (_ ∧ _))

theorem twoDirs_isTree {a b : Dir} (ha : Names a) (hb : Names b)
    (hlen : ((located twoRanges (twoDirs a b)).map fun x => x.dir.length).sum < 2 ^ 64) :
    IsTree twoRanges (twoDirs a b) where
  names := by
    constructor
    · show ["a9".toList, "b0".toList].Nodup
      decide
    · intro e he
      rcases List.mem_cons.mp he with rfl | he
      · show IsName "a9".toList
        decide +kernel
      · rw [List.mem_singleton.mp he]
        show IsName "b0".toList
        decide +kernel
  names1 := by
    intro l1 entries h
    have hname : ∀ (n : Text) (d : Dir), IsName n → Names [(n, Node2.dir d)] := by
      intro n d hn
      refine ⟨List.nodup_singleton n, ?_⟩
      intro e he
      rw [List.mem_singleton.mp he]
      exact hn
    rcases List.mem_cons.mp h with h | h
    · cases h
      exact hname _ a (by decide +kernel)
    · cases List.mem_singleton.mp h
      exact hname _ b (by decide +kernel)
  names2 := by
    intro l1 entries h l2 d hd
    rcases List.mem_cons.mp h with h | h
    · cases h
      cases List.mem_singleton.mp hd
      exact ha
    · cases List.mem_singleton.mp h
      cases List.mem_singleton.mp hd
      exact hb
  few := hlen

/-- Three files, each in its place. -/
theorem scan_exact_twoRanges :
    IsTree twoRanges (twoDirs [abcEntry, nextEntry] [b1Entry]) ∧
      Exact "cache".toList twoRanges false 0 (twoDirs [abcEntry, nextEntry] [b1Entry]) := by
  have htree : IsTree twoRanges (twoDirs [abcEntry, nextEntry] [b1Entry]) :=
    twoDirs_isTree (by decide +kernel) (by decide +kernel) (by decide +kernel)
  refine ⟨htree, (scan_exact "cache".toList twoRanges false 0 _ htree).1 ⟨?_, ?_⟩ _
    (sameTree_refl _)⟩
  · unfold Placed
    decide +kernel
  · unfold Alone
    decide +kernel

/-- The id of `abc` in upper case. -/
def upperEntry : Text × Node := entryOf "A9993E364706816ABA3E25717850C26C9CD0D89D-3-jpg" 3 4096

/-- In the directory of its range, a file with an upper-case name is counted, and cannot
be served. -/
theorem scan_counts_unservable :
    IsTree twoRanges (twoDirs [upperEntry] []) ∧
      ((fullScan twoRanges false 0 (twoDirs [upperEntry] [])).map
        fun r => r.1.fileCount "a999".toList) = some 1 ∧
      ¬ Exact "cache".toList twoRanges false 0 (twoDirs [upperEntry] []) := by
  have htree : IsTree twoRanges (twoDirs [upperEntry] []) :=
    twoDirs_isTree (by decide +kernel) (by decide +kernel) (by decide +kernel)
  refine ⟨htree, by decide +kernel, ?_⟩
  rw [exact_iff htree.listing]
  intro hexact
  have hcount := (hexact.2 [] ⟨"a9".toList, "99".toList, "a999".toList, [upperEntry]⟩
    [⟨"b0".toList, "00".toList, "b000".toList, []⟩] (by decide +kernel) "a999".toList
    (by unfold Located.IsDirOf; decide +kernel)).1
  revert hcount
  decide +kernel

end Hath.Scan
