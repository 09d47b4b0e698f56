import Hath.CacheManager.Contained
import Hath.CacheManager.Scan
import Hath.Lib.Recount
import Hath.Lib.Relisting

/-!
# Hath.CacheManager.ScanTally — the scan as a recount

The directories of a scan with their places in the tree (`Located`), and the state of
the scan as a tally of files: the entry of a range is what its files add up to, and a
directory is a bin whose home is the range it matches.

* `scanDir_represents` — one directory is one step of the recount;
* `scanDirs_represents`, `mem_zip_left` — so is a whole scan, with what it leaves in
  every directory;
* `sameTree_located` — another listing of a tree has the same directories.
-/

namespace Hath.Scan

open Lib Lib.Recount

/-! ## Directories and their places -/

/-- A directory of a static range and where it was found. -/
structure Located where
  l1 : Text
  l2 : Text
  sr : Text
  dir : Dir
deriving DecidableEq

/-- The directories of `rangeDirs`, with their names. -/
def located (staticRange : List Text) (root : List (Text × Node1)) : List Located :=
  root.flatMap fun (l1, node1) =>
    match node1 with
    | .file => []
    | .dir entries => entries.filterMap fun (l2, node2) =>
        match node2 with
        | .file => none
        | .dir d => (staticRange.find? (eqIgnoreAsciiCase (l1 ++ l2))).map fun sr => ⟨l1, l2, sr, d⟩

/-- A directory as the scan handles it. -/
def Located.entry (x : Located) : Text × Dir := (x.sr, x.dir)

theorem rangeDirs_eq (staticRange : List Text) (root : List (Text × Node1)) :
    rangeDirs staticRange root = (located staticRange root).map Located.entry := by
  unfold rangeDirs located
  rw [List.map_flatMap]
  congr 1
  funext ⟨l1, node1⟩
  cases node1 with
  | file => rfl
  | dir entries =>
      show entries.filterMap _ = (entries.filterMap _).map _
      rw [List.map_filterMap]
      congr 1
      funext ⟨l2, node2⟩
      cases node2 with
      | file => rfl
      | dir d =>
          show Option.map _ _ = Option.map _ (Option.map _ _)
          rw [Option.map_map]
          rfl

/-- The bin of a directory. -/
def Located.bin (verify : Bool) (x : Located) : Bin Text (Text × U64 × Int) where
  home := x.sr
  size := x.dir.length
  items := added verify x.dir

/-- The tally of a scan that starts from an empty state. -/
def tally (verify : Bool) (dirs : List Located) : Text → List (Text × U64 × Int) :=
  run Prod.fst (fun _ => []) (dirs.map (Located.bin verify))

/-- What the scan leaves of a directory that it comes to with a tally. -/
def finalDir (verify : Bool) (g : Text → List (Text × U64 × Int)) (x : Located) : Dir :=
  if x.dir.length = (g x.sr).length then x.dir else kept verify x.dir

/-! ## The state of the scan -/

section

variable {verify : Bool} {now : Int}

/-- The entries are what the tallied files add up to. -/
def Represents (now : Int) (m : StateMap Text) (g : Text → List (Text × U64 × Int)) : Prop :=
  ∀ k, m k = build now none (g k)

/-- The entries after adding files of any ranges. -/
theorem foldl_scanFile_apply (files : List (Text × U64 × Int)) (m : StateMap Text) (k : Text) :
    files.foldl (fun m f => m.scanFile f.1 f.2.1 f.2.2 now) m k =
      build now (m k) (files.filter fun f => f.1 = k) := by
  induction files generalizing m with
  | nil => rfl
  | cons f files ih =>
      rw [List.foldl_cons, ih]
      by_cases hf : f.1 = k
      · rw [List.filter_cons_of_pos (by simpa using hf), build_cons, ← hf]
        simp [StateMap.scanFile]
      · rw [List.filter_cons_of_neg (by simpa using hf)]
        simp [StateMap.scanFile, Ne.symm hf]

theorem build_append (e : Option CacheState) (files files' : List (Text × U64 × Int)) :
    build now (build now e files) files' = build now e (files ++ files') :=
  List.foldl_append.symm

theorem build_eq_none {files : List (Text × U64 × Int)} : build now none files = none ↔ files = [] := by
  constructor
  · intro h
    by_contra hne
    rcases List.exists_cons_of_ne_nil hne with ⟨f, rest, rfl⟩
    have hsome : ∀ (l : List (Text × U64 × Int)) (c : CacheState), build now (some c) l ≠ none := by
      intro l
      induction l with
      | nil =>
          intro c hc
          cases hc
      | cons f l ih =>
          intro c
          exact ih _
    exact hsome rest _ h
  · rintro rfl
    rfl

section

variable {m : StateMap Text} {g : Text → List (Text × U64 × Int)}

theorem Represents.fileCount (h : Represents now m g) (k : Text) :
    m.fileCount k = ((g k).length : U64) := by
  unfold StateMap.fileCount
  rw [h k, build_fileCount]
  simp

theorem Represents.size (h : Represents now m g) (k : Text) : m.size k = (sizes (g k)).sum := by
  unfold StateMap.size
  rw [h k, build_size]
  simp

/-- The comparison of counts, for numbers that fit the counter. -/
theorem ofNat_eq_iff {a b : Nat} (ha : a < 2 ^ 64) (hb : b < 2 ^ 64) :
    BitVec.ofNat 64 a = (b : U64) ↔ a = b := by
  show BitVec.ofNat 64 a = BitVec.ofNat 64 b ↔ a = b
  constructor
  · intro h
    have h := congrArg BitVec.toNat h
    rwa [BitVec.toNat_ofNat, BitVec.toNat_ofNat, Nat.mod_eq_of_lt ha, Nat.mod_eq_of_lt hb] at h
  · rintro rfl
    rfl

/-- One directory of the scan is one step of the recount. -/
theorem scanDir_represents (h : Represents now m g) (x : Located) (hlen : x.dir.length < 2 ^ 64)
    (hg : (g x.sr).length < 2 ^ 64) :
    Represents now (scanDir verify now m x.sr x.dir).1 (step Prod.fst g (x.bin verify)) ∧
      (scanDir verify now m x.sr x.dir).2 = finalDir verify g x := by
  unfold scanDir finalDir
  rw [h.fileCount]
  by_cases htrust : x.dir.length = (g x.sr).length
  · rw [if_pos ((ofNat_eq_iff hlen hg).mpr htrust), if_pos htrust]
    refine ⟨?_, rfl⟩
    -- a trusted directory leaves the state alone
    rw [step_trusted (b := x.bin verify) htrust]
    exact h
  · rw [if_neg (fun heq => htrust ((ofNat_eq_iff hlen hg).mp heq)), if_neg htrust]
    refine ⟨?_, rfl⟩
    intro k
    -- a recounted one clears the range it matches, then adds its files wherever they belong
    show (added verify x.dir).foldl _ (m.clear x.sr) k = _
    rw [foldl_scanFile_apply]
    by_cases hk : k = x.sr
    · subst hk
      -- what an earlier directory put into this range is forgotten
      have hhome : step Prod.fst g (x.bin verify) x.sr = itemsOf Prod.fst (x.bin verify) x.sr :=
        step_home (b := x.bin verify) htrust
      rw [hhome]
      simp only [StateMap.clear, Function.update_self]
      rfl
    · rw [step_other (b := x.bin verify) htrust hk, ← build_append, ← h k]
      simp only [StateMap.clear, Function.update_of_ne hk]
      rfl

end

theorem added_length_le (verify : Bool) (d : Dir) : (added verify d).length ≤ d.length :=
  List.length_filterMap_le _ _

/-- A scan is a recount, as long as the counters do not wrap. -/
theorem scanDirs_represents {m : StateMap Text} {g : Text → List (Text × U64 × Int)}
    (h : Represents now m g) (dirs : List Located)
    (hfew : ∀ k, (g k).length + (dirs.map fun x => x.dir.length).sum < 2 ^ 64) :
    Represents now (scanDirs verify now m (dirs.map Located.entry)).1
      (run Prod.fst g (dirs.map (Located.bin verify))) := by
  induction dirs generalizing m g with
  | nil => exact h
  | cons x dirs ih =>
      simp only [List.map_cons, List.sum_cons] at hfew
      have hx := hfew x.sr
      apply ih (scanDir_represents h x (by omega) (by omega)).1
      intro k
      have hk := hfew k
      have hstep := length_step_le Prod.fst g (x.bin verify) k
      have hadded : (x.bin verify).items.length ≤ x.dir.length := added_length_le verify x.dir
      omega

/-- What is left in the directories: each one as it was left when the scan came to it. -/
theorem mem_zip_left {m : StateMap Text} {g : Text → List (Text × U64 × Int)}
    (h : Represents now m g) (dirs : List Located)
    (hfew : ∀ k, (g k).length + (dirs.map fun x => x.dir.length).sum < 2 ^ 64) (x : Located)
    (left : Text × Dir) :
    (x, left) ∈ dirs.zip (scanDirs verify now m (dirs.map Located.entry)).2 ↔
      ∃ before after, dirs = before ++ x :: after ∧
        left = (x.sr, finalDir verify (run Prod.fst g (before.map (Located.bin verify))) x) := by
  induction dirs generalizing m g with
  | nil => simp
  | cons y dirs ih =>
      simp only [List.map_cons, List.sum_cons] at hfew
      have hy := hfew y.sr
      obtain ⟨hrep, hfinal⟩ : Represents now (scanDir verify now m y.sr y.dir).1
            (step Prod.fst g (y.bin verify)) ∧
          (scanDir verify now m y.sr y.dir).2 = finalDir verify g y :=
        scanDir_represents h y (by omega) (by omega)
      have hfew' : ∀ k, (step Prod.fst g (y.bin verify) k).length +
          (dirs.map fun x => x.dir.length).sum < 2 ^ 64 := by
        intro k
        have hk := hfew k
        have hstep := length_step_le Prod.fst g (y.bin verify) k
        have hadded : (y.bin verify).items.length ≤ y.dir.length := added_length_le verify y.dir
        omega
      have hzip : (y :: dirs).zip (scanDirs verify now m ((y :: dirs).map Located.entry)).2 =
          (y, (y.sr, finalDir verify g y)) ::
            dirs.zip (scanDirs verify now (scanDir verify now m y.sr y.dir).1
              (dirs.map Located.entry)).2 := by
        rw [← hfinal]
        rfl
      -- the first directory is left as it was found or swept with the tally `g`, the others
      -- come after it
      rw [hzip, List.mem_cons, ih hrep hfew']
      constructor
      · rintro (heq | ⟨before, after, rfl, rfl⟩)
        · rcases Prod.mk.inj heq with ⟨rfl, rfl⟩
          exact ⟨[], dirs, rfl, rfl⟩
        · exact ⟨y :: before, after, rfl, rfl⟩
      · rintro ⟨before, after, hdirs, rfl⟩
        cases before with
        | nil =>
            rcases List.cons.inj hdirs with ⟨rfl, rfl⟩
            exact .inl rfl
        | cons z before =>
            rcases List.cons.inj hdirs with ⟨rfl, rfl⟩
            exact .inr ⟨before, after, rfl, rfl⟩

end

/-! ## Trees and their listings -/

/-- The names of a directory: plain and distinct. -/
def Names {α : Type} (l : List (Text × α)) : Prop :=
  (l.map Prod.fst).Nodup ∧ ∀ e ∈ l, IsName e.1

/-- The content of a cache directory. Its range directories have fewer entries than a
`u64` can count. -/
structure IsTree (staticRange : List Text) (root : List (Text × Node1)) : Prop where
  names : Names root
  names1 : ∀ l1 entries, (l1, Node1.dir entries) ∈ root → Names entries
  names2 : ∀ l1 entries, (l1, Node1.dir entries) ∈ root →
    ∀ l2 d, (l2, Node2.dir d) ∈ entries → Names d
  few : ((located staticRange root).map fun x => x.dir.length).sum < 2 ^ 64

def SameNode2 : Node2 → Node2 → Prop
  | .file, .file => True
  | .dir d, .dir d' => d.Perm d'
  | _, _ => False

def SameNode1 : Node1 → Node1 → Prop
  | .file, .file => True
  | .dir e, .dir e' => Relisting (fun a b => a.1 = b.1 ∧ SameNode2 a.2 b.2) e e'
  | _, _ => False

/-- The same tree, every directory of it listed in any order. -/
def SameTree (root root' : List (Text × Node1)) : Prop :=
  Relisting (fun a b => a.1 = b.1 ∧ SameNode1 a.2 b.2) root root'

/-- The same directory, listed in any order. -/
def Located.Same (x y : Located) : Prop :=
  x.l1 = y.l1 ∧ x.l2 = y.l2 ∧ x.sr = y.sr ∧ x.dir.Perm y.dir

theorem mem_located {staticRange : List Text} {root : List (Text × Node1)} {x : Located} :
    x ∈ located staticRange root ↔ ∃ entries, (x.l1, Node1.dir entries) ∈ root ∧
      (x.l2, Node2.dir x.dir) ∈ entries ∧
      staticRange.find? (eqIgnoreAsciiCase (x.l1 ++ x.l2)) = some x.sr := by
  unfold located
  rw [List.mem_flatMap]
  constructor
  · rintro ⟨⟨l1, node1⟩, hroot, hx⟩
    cases node1 with
    | file => cases hx
    | dir entries =>
        rcases List.mem_filterMap.mp hx with ⟨⟨l2, node2⟩, hentries, hx⟩
        cases node2 with
        | file => cases hx
        | dir d =>
            rcases Option.map_eq_some_iff.mp hx with ⟨sr, hsr, rfl⟩
            exact ⟨entries, hroot, hentries, hsr⟩
  · rintro ⟨entries, hroot, hentries, hsr⟩
    refine ⟨(x.l1, .dir entries), hroot, List.mem_filterMap.mpr ⟨(x.l2, .dir x.dir), hentries, ?_⟩⟩
    show Option.map _ _ = _
    rw [hsr]
    rfl

/-- Another listing of a tree has the same directories in another order. -/
theorem sameTree_located (staticRange : List Text) {root root' : List (Text × Node1)}
    (h : SameTree root root') :
    Relisting Located.Same (located staticRange root) (located staticRange root') := by
  unfold located
  apply Relisting.flatMap h
  rintro ⟨l1, node1⟩ ⟨l1', node1'⟩ ⟨hl1, hnode⟩
  simp only at hl1 hnode
  subst hl1
  match node1, node1', hnode with
  | .file, .file, _ => exact Relisting.nil
  | .dir e, .dir e', hnode =>
      apply Relisting.filterMap hnode
      rintro ⟨l2, node2⟩ ⟨l2', node2'⟩ ⟨hl2, hnode2⟩
      simp only at hl2 hnode2
      subst hl2
      match node2, node2', hnode2 with
      | .file, .file, _ => exact Relisting.nil
      | .dir d, .dir d', hperm =>
          simp only
          cases hsr : staticRange.find? (eqIgnoreAsciiCase (l1 ++ l2)) with
          | none => exact Relisting.nil
          | some sr =>
              exact ⟨[⟨l1, l2, sr, d⟩], List.Perm.refl _,
                .cons ⟨rfl, rfl, rfl, hperm⟩ .nil⟩

/-- The listing from the end. -/
def revTree (root : List (Text × Node1)) : List (Text × Node1) :=
  root.reverse.map fun e => (e.1, match e.2 with
    | .file => .file
    | .dir entries => .dir entries.reverse)

theorem sameNode2_refl (node : Node2) : SameNode2 node node := by
  cases node with
  | file => exact trivial
  | dir d => exact List.Perm.refl d

theorem sameNode1_refl (node : Node1) : SameNode1 node node := by
  cases node with
  | file => exact trivial
  | dir entries =>
      exact Relisting.of_perm (fun a => ⟨rfl, sameNode2_refl a.2⟩) (List.Perm.refl entries)

theorem sameTree_refl (root : List (Text × Node1)) : SameTree root root :=
  Relisting.of_perm (fun a => ⟨rfl, sameNode1_refl a.2⟩) (List.Perm.refl root)

theorem sameTree_revTree (root : List (Text × Node1)) : SameTree root (revTree root) := by
  refine ⟨root.reverse, root.reverse_perm.symm, ?_⟩
  unfold revTree
  rw [List.forall₂_map_right_iff, List.forall₂_same]
  rintro ⟨l1, node⟩ -
  refine ⟨rfl, ?_⟩
  cases node with
  | file => exact trivial
  | dir entries =>
      exact Relisting.of_perm (fun a => ⟨rfl, sameNode2_refl a.2⟩) entries.reverse_perm.symm

theorem located_revTree (staticRange : List Text) (root : List (Text × Node1)) :
    located staticRange (revTree root) = (located staticRange root).reverse := by
  unfold located revTree
  rw [List.flatMap_map, List.reverse_flatMap]
  congr 1
  funext ⟨l1, node⟩
  cases node with
  | file => rfl
  | dir entries =>
      show entries.reverse.filterMap _ = (entries.filterMap _).reverse
      rw [List.filterMap_reverse]

/-- What the scan can rely on in the directories it finds. -/
structure Listing (dirs : List Located) : Prop where
  distinct : (dirs.map fun x => (x.l1, x.l2)).Nodup
  plain : ∀ x ∈ dirs, IsName x.l1 ∧ IsName x.l2 ∧ ∀ e ∈ x.dir, IsName e.1
  matched : ∀ x ∈ dirs, (x.l1 ++ x.l2).map Char.toLower = x.sr.map Char.toLower
  coherent : ∀ x ∈ dirs, ∀ y ∈ dirs,
    (x.l1 ++ x.l2).map Char.toLower = (y.l1 ++ y.l2).map Char.toLower → x.sr = y.sr
  few : (dirs.map fun x => x.dir.length).sum < 2 ^ 64

theorem l1_of_mem {staticRange : List Text} {l1 : Text} {node1 : Node1} {x : Located}
    (hx : x ∈ located staticRange [(l1, node1)]) : x.l1 = l1 := by
  rcases mem_located.mp hx with ⟨entries, hroot, -, -⟩
  exact (Prod.mk.inj (List.mem_singleton.mp hroot)).1

/-- Directories of a tree have distinct places. -/
theorem located_distinct {staticRange : List Text} {root : List (Text × Node1)}
    (h : IsTree staticRange root) :
    ((located staticRange root).map fun x => (x.l1, x.l2)).Nodup := by
  rw [List.Nodup, List.pairwise_map]
  unfold located
  rw [List.pairwise_flatMap]
  constructor
  · -- in one directory of the first level the second names differ
    rintro ⟨l1, node1⟩ hroot
    cases node1 with
    | file => exact List.Pairwise.nil
    | dir entries =>
        have hnames := (h.names1 l1 entries hroot).1
        rw [List.Nodup, List.pairwise_map] at hnames
        show (entries.filterMap _).Pairwise _
        rw [List.pairwise_filterMap]
        apply hnames.imp
        rintro ⟨l2, node2⟩ ⟨l2', node2'⟩ hne x hx y hy heq
        cases node2 with
        | file => cases hx
        | dir d =>
            cases node2' with
            | file => cases hy
            | dir d' =>
                rcases Option.map_eq_some_iff.mp hx with ⟨_, _, rfl⟩
                rcases Option.map_eq_some_iff.mp hy with ⟨_, _, rfl⟩
                exact hne (Prod.mk.inj heq).2
  · -- in two of them the first ones do
    have hnames := h.names.1
    rw [List.Nodup, List.pairwise_map] at hnames
    apply hnames.imp
    rintro ⟨l1, node1⟩ ⟨l1', node1'⟩ hne x hx y hy heq
    have hx1 : x.l1 = l1 :=
      l1_of_mem (List.mem_flatMap.mpr ⟨(l1, node1), List.mem_singleton_self _, hx⟩)
    have hy1 : y.l1 = l1' :=
      l1_of_mem (List.mem_flatMap.mpr ⟨(l1', node1'), List.mem_singleton_self _, hy⟩)
    exact hne (hx1.symm.trans ((Prod.mk.inj heq).1.trans hy1))

theorem IsTree.listing {staticRange : List Text} {root : List (Text × Node1)}
    (h : IsTree staticRange root) : Listing (located staticRange root) where
  distinct := located_distinct h
  plain := by
    intro x hx
    rcases mem_located.mp hx with ⟨entries, hroot, hentries, -⟩
    exact ⟨h.names.2 _ hroot, (h.names1 _ _ hroot).2 _ hentries,
      (h.names2 _ _ hroot _ _ hentries).2⟩
  matched := by
    intro x hx
    rcases mem_located.mp hx with ⟨entries, -, -, hsr⟩
    have hmatch : eqIgnoreAsciiCase (x.l1 ++ x.l2) x.sr = true := List.find?_some hsr
    exact eq_of_beq hmatch
  coherent := by
    intro x hx y hy heq
    rcases mem_located.mp hx with ⟨-, -, -, hsr⟩
    rcases mem_located.mp hy with ⟨-, -, -, hsr'⟩
    -- the search of `static_range` sees only the lower-case text
    have hsame : eqIgnoreAsciiCase (x.l1 ++ x.l2) = eqIgnoreAsciiCase (y.l1 ++ y.l2) := by
      funext sr
      unfold eqIgnoreAsciiCase
      rw [heq]
    rw [hsame, hsr'] at hsr
    exact (Option.some.inj hsr).symm
  few := h.few

/-- The order of the listings does not matter to it. -/
theorem Listing.relisting {dirs dirs' : List Located} (h : Listing dirs)
    (hsame : Relisting Located.Same dirs dirs') : Listing dirs' where
  distinct := by
    have hperm := hsame.map_perm (f := fun x => (x.l1, x.l2))
      fun x y hxy => Prod.ext hxy.1 hxy.2.1
    exact hperm.nodup_iff.mp h.distinct
  plain := by
    intro y hy
    rcases hsame.exists_of_mem hy with ⟨x, hx, h1, h2, -, hdir⟩
    rcases h.plain x hx with ⟨hl1, hl2, hfiles⟩
    exact ⟨h1 ▸ hl1, h2 ▸ hl2, fun e he => hfiles e (hdir.mem_iff.mpr he)⟩
  matched := by
    intro y hy
    rcases hsame.exists_of_mem hy with ⟨x, hx, h1, h2, hsr, -⟩
    rw [← h1, ← h2, ← hsr]
    exact h.matched x hx
  coherent := by
    intro y hy y' hy' heq
    rcases hsame.exists_of_mem hy with ⟨x, hx, h1, h2, hsr, -⟩
    rcases hsame.exists_of_mem hy' with ⟨x', hx', h1', h2', hsr', -⟩
    rw [← h1, ← h2, ← h1', ← h2'] at heq
    rw [← hsr, ← hsr']
    exact h.coherent x hx x' hx' heq
  few := by
    have hperm := hsame.map_perm (f := fun x => x.dir.length) fun x y hxy => hxy.2.2.2.length_eq
    rw [← hperm.sum_eq]
    exact h.few

end Hath.Scan
