import Hath.CacheManager.Accounting

/-!
# Hath.CacheManager.AccountingExact — the accounting of quiet runs

The invariant behind `cache_state` while `scan_cache` runs next to imports and
removals. `Accounts` says which files should be counted when some calls are between
their change of the directory and their update of the entry; `ScanInv` says how far
each entry agrees with that at each point of the scan.

* `inv_move`, `inv_change`, `inv_settle` — the three kinds of steps of a call;
* `exact_of_quiet` — the result; `import_counted_twice` is a run of the code that is
  not quiet.
-/

namespace Hath.Accounting

open Lib

/-! ## The invariant -/

section

variable {File Range Op : Type} [DecidableEq File] [DecidableEq Range]
  (range : File → Range) (size : File → U64) (valid : File → Bool) (junk : Range → Nat)
  (call : Op → Call File)

/-- What `cache_state` should count: the valid files on disk that no call has yet to
add, and those deleted that a call has yet to subtract. -/
def Accounts (s : St File Range Op) (A : Finset File) : Prop :=
  ∀ f, f ∈ A ↔ valid f = true ∧
    ((f ∈ s.disk ∧ ∀ o, (s.op o).placed = true → (call o).file ≠ f) ∨
      ∃ o, s.op o = .unlinked ∧ (call o).file = f)

/-- The entries of a directory that are no valid files. -/
def extra (s : St File Range Op) (sr : Range) : Nat :=
  ((filesIn range sr s.disk).filter fun f => valid f = false).card + junk sr

/-- At most one call is pending on a file, and its file is where the call has put it. -/
structure OpInv (s : St File Range Op) : Prop where
  single : ∀ o p, (s.op o).pending = true → (s.op p).pending = true →
    (call o).file = (call p).file → o = p
  placed : ∀ o, (s.op o).placed = true → (call o).file ∈ s.disk
  unlinked : ∀ o, s.op o = .unlinked → (call o).file ∉ s.disk
  valid : ∀ o, (s.op o).pending = true → valid (call o).file = true
  imports : ∀ o, s.op o = .renaming → ∃ f, call o = .importCache f

/-- How far the entries agree with `A`: those of the directories to come as far as
they did at the start, those already scanned exactly, and the one being rebuilt
exactly up to the files that are still to be added. -/
structure ScanInv (dirs : List Range) (s : St File Range Op) (A : Finset File) : Prop where
  nodup : (s.scan.current.toList ++ s.scan.rest).Nodup
  stale : ∀ sr ∈ s.scan.rest,
    Stale size (s.cache sr) (filesIn range sr A) (extra range valid junk s sr)
  exact : ∀ sr ∈ dirs, sr ∉ s.scan.rest → s.scan.current ≠ some sr →
    Exact size (s.cache sr) (filesIn range sr A)
  quiet : ∀ o, (s.op o).pending = true → s.scan.window ≠ some (range (call o).file)
  comparing : ∀ sr n rest, s.scan = .comparing sr n rest →
    Stale size (s.cache sr) (filesIn range sr A) (extra range valid junk s sr) ∧
    n = (((filesIn range sr A).card + extra range valid junk s sr : Nat) : U64)
  cleared : ∀ sr rest, s.scan = .listing sr rest → s.cache sr = none
  waiting : ∀ f ∈ s.scan.todo, f ∈ s.disk ∧ Free call s f
  adding : ∀ sr listed statted rest, s.scan = .adding sr listed statted rest →
    (∀ f ∈ listed ∪ statted, range f = sr) ∧ Disjoint listed statted ∧
    Exact size (s.cache sr) (filesIn range sr A \ (listed ∪ statted))

def Inv (dirs : List Range) (s : St File Range Op) : Prop :=
  OpInv valid call s ∧ ∃ A, Accounts valid call s A ∧ ScanInv range size valid junk call dirs s A

end

section

variable {File Range Op : Type} [DecidableEq File] [DecidableEq Range] [DecidableEq Op]
  {range : File → Range} {size : File → U64} {valid : File → Bool} {junk : Range → Nat}
  {call : Op → Call File} {dirs : List Range} {s s' : St File Range Op} {A : Finset File}

omit [DecidableEq Op] in
/-- A step that changes neither the scan nor an entry: the directories it touches are
not in the window and its file is not waited for. -/
theorem scanInv_frame (hi : ScanInv range size valid junk call dirs s A)
    (hscan : s'.scan = s.scan) (hcache : s'.cache = s.cache)
    (hinvalid : ∀ f, valid f = false → (f ∈ s'.disk ↔ f ∈ s.disk))
    (htodo : ∀ f ∈ s.scan.todo, f ∈ s.disk → f ∈ s'.disk)
    (hpend : ∀ o, (s'.op o).pending = true → (s.op o).pending = true ∨
      (s.scan.window ≠ some (range (call o).file) ∧ (call o).file ∉ s.scan.todo)) :
    ScanInv range size valid junk call dirs s' A := by
  have hextra : ∀ sr, extra range valid junk s' sr = extra range valid junk s sr := by
    intro sr
    unfold extra
    congr 2
    ext f
    simp only [filesIn, Finset.mem_filter]
    constructor
    · rintro ⟨⟨hf, hr⟩, hv⟩
      exact ⟨⟨(hinvalid f hv).mp hf, hr⟩, hv⟩
    · rintro ⟨⟨hf, hr⟩, hv⟩
      exact ⟨⟨(hinvalid f hv).mpr hf, hr⟩, hv⟩
  rcases hi with ⟨nodup, stale, exact', quiet, comparing, cleared, waiting, adding⟩
  refine ⟨?_, ?_, ?_, ?_, ?_, ?_, ?_, ?_⟩
  · rwa [hscan]
  · intro sr hsr
    rw [hextra, hcache]
    exact stale sr (hscan ▸ hsr)
  · intro sr hsr hrest hcur
    rw [hcache]
    exact exact' sr hsr (hscan ▸ hrest) (hscan ▸ hcur)
  · intro o ho
    rw [hscan]
    rcases hpend o ho with hold | ⟨hwindow, -⟩
    · exact quiet o hold
    · exact hwindow
  · intro sr n rest hpc
    rw [hextra, hcache]
    exact comparing sr n rest (hscan ▸ hpc)
  · intro sr rest hpc
    rw [hcache]
    exact cleared sr rest (hscan ▸ hpc)
  · intro f hf
    rw [hscan] at hf
    rcases waiting f hf with ⟨hdisk, hfree⟩
    refine ⟨htodo f hf hdisk, ?_⟩
    intro o ho
    rcases hpend o ho with hold | ⟨-, hnew⟩
    · exact hfree o hold
    · rintro rfl
      exact hnew hf
  · intro sr listed statted rest hpc
    rw [hcache]
    exact adding sr listed statted rest (hscan ▸ hpc)

end

/-! ### Steps of a call -/

section

variable {File Range Op : Type} [DecidableEq File] [DecidableEq Range] [DecidableEq Op]
  {range : File → Range} {size : File → U64} {valid : File → Bool} {junk : Range → Nat}
  {call : Op → Call File} {dirs : List Range} {s s' : St File Range Op} {A : Finset File} {o : Op}

theorem OpPc.pending_eq (pc : OpPc) :
    pc.pending = true ↔ pc.placed = true ∨ pc = .unlinked := by
  cases pc <;> simp [OpPc.pending, OpPc.placed]

omit [DecidableEq File] in
theorem afterRemove_spec (c : Call File) :
    (afterRemove c).pending = false ∧ (afterRemove c).placed = false ∧
    (afterRemove c = .renaming → ∃ f, c = .importCache f) := by
  cases c with
  | importCache f => exact ⟨rfl, rfl, fun _ => ⟨f, rfl⟩⟩
  | removeCache f => exact ⟨rfl, rfl, by simp [afterRemove]⟩

/-- A call moves on without a change that has to be accounted for. -/
theorem inv_move {pc : OpPc} (hi : Inv range size valid junk call dirs s)
    (hplaced : pc.placed = (s.op o).placed) (hpc : pc ≠ .unlinked) (hop : s.op o ≠ .unlinked)
    (himport : pc = .renaming → ∃ f, call o = .importCache f) :
    Inv range size valid junk call dirs (s.setOp o pc) := by
  rcases hi with ⟨hops, A, hacc, hscan⟩
  have hsame : ∀ p, ((s.setOp o pc).op p).placed = (s.op p).placed := by
    intro p
    by_cases hp : p = o
    · simp [hp, hplaced]
    · simp [hp]
  have hunl : ∀ p, (s.setOp o pc).op p = .unlinked ↔ s.op p = .unlinked := by
    intro p
    by_cases hp : p = o
    · simp [hp, hpc, hop]
    · simp [hp]
  have hpend : ∀ p, ((s.setOp o pc).op p).pending = true ↔ (s.op p).pending = true := by
    intro p
    rw [OpPc.pending_eq, OpPc.pending_eq, hsame, hunl]
  refine ⟨⟨?_, ?_, ?_, ?_, ?_⟩, A, ?_, ?_⟩
  · intro p q hp hq
    exact hops.single p q ((hpend p).mp hp) ((hpend q).mp hq)
  · intro p hp
    exact hops.placed p (hsame p ▸ hp)
  · intro p hp
    exact hops.unlinked p ((hunl p).mp hp)
  · intro p hp
    exact hops.valid p ((hpend p).mp hp)
  · intro p hp
    by_cases hpo : p = o
    · subst hpo
      exact himport (by simpa using hp)
    · exact hops.imports p (by simpa [hpo] using hp)
  · intro f
    rw [hacc f]
    simp only [hsame, hunl]
    rfl
  · exact scanInv_frame hscan rfl rfl (fun _ _ => Iff.rfl) (fun _ _ h => h)
      fun p hp => .inl ((hpend p).mp hp)

/-- What a step of call `o` on its file leaves alone: the other calls, none of which is
pending on the file, and the other files. -/
structure Frame (call : Op → Call File) (s s' : St File Range Op) (o : Op) : Prop where
  ops : ∀ p, p ≠ o → s'.op p = s.op p
  disk : ∀ f, f ≠ (call o).file → (f ∈ s'.disk ↔ f ∈ s.disk)
  free : ∀ p, p ≠ o → (s.op p).pending = true → (call p).file ≠ (call o).file

omit [DecidableEq File] [DecidableEq Range] [DecidableEq Op] in
theorem opInv_step (hi : OpInv valid call s) (hf : Frame call s s' o)
    (hplaced : (s'.op o).placed = true → (call o).file ∈ s'.disk)
    (hunlinked : s'.op o = .unlinked → (call o).file ∉ s'.disk)
    (hvalid : (s'.op o).pending = true → valid (call o).file = true)
    (himport : s'.op o = .renaming → ∃ f, call o = .importCache f) : OpInv valid call s' := by
  refine ⟨?_, ?_, ?_, ?_, ?_⟩
  · intro p q hp hq hpq
    by_cases hpo : p = o
    · by_cases hqo : q = o
      · rw [hpo, hqo]
      · rw [hf.ops q hqo] at hq
        exact absurd (hpo ▸ hpq).symm (hf.free q hqo hq)
    · rw [hf.ops p hpo] at hp
      by_cases hqo : q = o
      · exact absurd (hqo ▸ hpq) (hf.free p hpo hp)
      · exact hi.single p q hp (hf.ops q hqo ▸ hq) hpq
  · intro p hp
    by_cases hpo : p = o
    · subst hpo
      exact hplaced hp
    · rw [hf.ops p hpo] at hp
      have hne := hf.free p hpo ((OpPc.pending_eq _).mpr (.inl hp))
      exact (hf.disk _ hne).mpr (hi.placed p hp)
  · intro p hp
    by_cases hpo : p = o
    · subst hpo
      exact hunlinked hp
    · rw [hf.ops p hpo] at hp
      have hne := hf.free p hpo ((OpPc.pending_eq _).mpr (.inr hp))
      exact fun h => hi.unlinked p hp ((hf.disk _ hne).mp h)
  · intro p hp
    by_cases hpo : p = o
    · subst hpo
      exact hvalid hp
    · exact hi.valid p (hf.ops p hpo ▸ hp)
  · intro p hp
    by_cases hpo : p = o
    · subst hpo
      exact himport hp
    · exact hi.imports p (hf.ops p hpo ▸ hp)

omit [DecidableEq File] [DecidableEq Range] [DecidableEq Op] in
theorem accounts_step {B : Finset File} (hacc : Accounts valid call s A)
    (hf : Frame call s s' o) (hrest : ∀ f, f ≠ (call o).file → (f ∈ B ↔ f ∈ A))
    (hown : (call o).file ∈ B ↔ valid (call o).file = true ∧
      (((call o).file ∈ s'.disk ∧ (s'.op o).placed = false) ∨ s'.op o = .unlinked)) :
    Accounts valid call s' B := by
  intro f
  by_cases hfo : f = (call o).file
  · -- only `o` can be pending on its file
    subst hfo
    rw [hown]
    have hplaced : (∀ p, (s'.op p).placed = true → (call p).file ≠ (call o).file) ↔
        (s'.op o).placed = false := by
      constructor
      · intro h
        by_contra hne
        exact h o (by simpa using hne) rfl
      · intro h p hp
        have hpo : p ≠ o := by
          rintro rfl
          rw [h] at hp
          cases hp
        exact hf.free p hpo ((OpPc.pending_eq _).mpr (.inl (hf.ops p hpo ▸ hp)))
    have hunl : (∃ p, s'.op p = .unlinked ∧ (call p).file = (call o).file) ↔
        s'.op o = .unlinked := by
      constructor
      · rintro ⟨p, hp, hpf⟩
        by_cases hpo : p = o
        · rwa [hpo] at hp
        · exact absurd hpf (hf.free p hpo ((OpPc.pending_eq _).mpr (.inr (hf.ops p hpo ▸ hp))))
      · intro h
        exact ⟨o, h, rfl⟩
    rw [hplaced, hunl]
  · rw [hrest f hfo, hacc f, hf.disk f hfo]
    have hops : ∀ p, (call p).file = f → s'.op p = s.op p := by
      rintro p rfl
      refine hf.ops p ?_
      rintro rfl
      exact hfo rfl
    have hplaced : (∀ p, (s'.op p).placed = true → (call p).file ≠ f) ↔
        ∀ p, (s.op p).placed = true → (call p).file ≠ f := by
      constructor
      · intro h p hp hpf
        exact h p (hops p hpf ▸ hp) hpf
      · intro h p hp hpf
        exact h p (hops p hpf ▸ hp) hpf
    have hunl : (∃ p, s'.op p = .unlinked ∧ (call p).file = f) ↔
        ∃ p, s.op p = .unlinked ∧ (call p).file = f := by
      constructor
      · rintro ⟨p, hp, hpf⟩
        exact ⟨p, hops p hpf ▸ hp, hpf⟩
      · rintro ⟨p, hp, hpf⟩
        exact ⟨p, (hops p hpf).trans hp, hpf⟩
    rw [hplaced, hunl]

omit [DecidableEq File] [DecidableEq Range] [DecidableEq Op] in
/-- A file no call is pending on is accounted for if it is there. -/
theorem mem_of_free (hacc : Accounts valid call s A) {f : File} (hfree : Free call s f) :
    f ∈ A ↔ valid f = true ∧ f ∈ s.disk := by
  rw [hacc]
  refine and_congr_right fun _ => ⟨?_, ?_⟩
  · rintro (⟨hin, -⟩ | ⟨p, hp, hpf⟩)
    · exact hin
    · exact absurd hpf (hfree p ((OpPc.pending_eq _).mpr (.inr hp)))
  · intro hin
    exact .inl ⟨hin, fun p hp => hfree p ((OpPc.pending_eq _).mpr (.inl hp))⟩

/-- A valid file is put into place or deleted outside the window of the scan, and the
call has yet to update the entry: what is accounted for stays the same. -/
theorem inv_change {disk : Finset File} {pc : OpPc} (hi : Inv range size valid junk call dirs s)
    (hvalid : valid (call o).file = true)
    (hdisk : ∀ f, f ≠ (call o).file → (f ∈ disk ↔ f ∈ s.disk))
    (hpc : pc.placed = true ∧ (call o).file ∈ disk ∧ (call o).file ∉ s.disk ∨
      pc = .unlinked ∧ (call o).file ∉ disk ∧ (call o).file ∈ s.disk)
    (hwindow : s.scan.window ≠ some (range (call o).file)) (htodo : (call o).file ∉ s.scan.todo)
    (hfree : Free call s (call o).file) :
    Inv range size valid junk call dirs ({ s with disk := disk }.setOp o pc) := by
  rcases hi with ⟨hops, A, hacc, hscan⟩
  have hframe : Frame call s ({ s with disk := disk }.setOp o pc) o := by
    refine ⟨?_, hdisk, fun p _ => hfree p⟩
    intro p hp
    simp [hp]
  have hself : ({ s with disk := disk }.setOp o pc).op o = pc := by simp
  have hne : pc ≠ .renaming := by
    rintro rfl
    rcases hpc with ⟨hpc, -⟩ | ⟨hpc, -⟩ <;> cases hpc
  refine ⟨opInv_step hops hframe ?_ ?_ (fun _ => hvalid) ?_, A, ?_, ?_⟩
  · rw [hself]
    rcases hpc with ⟨-, hin, -⟩ | ⟨rfl, -⟩
    · exact fun _ => hin
    · intro h
      cases h
  · rw [hself]
    rcases hpc with ⟨hpl, -⟩ | ⟨-, hout, -⟩
    · rintro rfl
      cases hpl
    · exact fun _ => hout
  · rw [hself]
    exact fun h => absurd h hne
  · refine accounts_step hacc hframe (fun _ _ => Iff.rfl) ?_
    -- before the step nothing was pending on the file
    rw [mem_of_free hacc hfree, and_iff_right hvalid, hself]
    rcases hpc with ⟨hpl, hin, hout⟩ | ⟨rfl, hout, hin⟩
    · have hnot : pc ≠ .unlinked := by
        rintro rfl
        cases hpl
      simp [hout, hpl, hnot]
    · simp [hin, hvalid]
  · refine scanInv_frame hscan rfl rfl ?_ ?_ ?_
    · intro f hf
      refine hdisk f ?_
      rintro rfl
      rw [hvalid] at hf
      cases hf
    · intro f hf hin
      refine (hdisk f ?_).mpr hin
      rintro rfl
      exact htodo hf
    · intro p hp
      by_cases hpo : p = o
      · rw [hpo]
        exact .inr ⟨hwindow, htodo⟩
      · exact .inl (hframe.ops p hpo ▸ hp)

end

/-! ### Updates of an entry -/

section

variable {File Range Op : Type} [DecidableEq File] [DecidableEq Range] [DecidableEq Op]
  {range : File → Range} {size : File → U64} {valid : File → Bool} {junk : Range → Nat}
  {call : Op → Call File} {dirs : List Range} {s s' : St File Range Op} {A : Finset File} {o : Op}

omit [DecidableEq File] [DecidableEq Op] in
theorem filesIn_congr {B : Finset File} {f : File} (hB : ∀ g, g ≠ f → (g ∈ B ↔ g ∈ A)) {sr : Range}
    (hsr : sr ≠ range f) : filesIn range sr B = filesIn range sr A := by
  ext g
  simp only [filesIn, Finset.mem_filter, and_congr_left_iff]
  rintro rfl
  refine hB g ?_
  rintro rfl
  exact hsr rfl

omit [DecidableEq Op] in
/-- The entry of one range changes together with the set it accounts for. -/
theorem scanInv_settle {f : File} {e : Option CacheState} {B : Finset File}
    (hi : ScanInv range size valid junk call dirs s A) (hscan : s'.scan = s.scan)
    (hdisk : s'.disk = s.disk) (hcache : s'.cache = Function.update s.cache (range f) e)
    (hpend : ∀ o, (s'.op o).pending = true → (s.op o).pending = true)
    (hwindow : s.scan.window ≠ some (range f)) (htodo : f ∉ s.scan.todo)
    (hB : ∀ g, g ≠ f → (g ∈ B ↔ g ∈ A))
    (hexact : ∀ T, f ∉ T → Exact size (s.cache (range f)) (filesIn range (range f) A \ T) →
      Exact size e (filesIn range (range f) B \ T))
    (hstale : ∀ n, Stale size (s.cache (range f)) (filesIn range (range f) A) n →
      Stale size e (filesIn range (range f) B) n) :
    ScanInv range size valid junk call dirs s' B := by
  have hself : s'.cache (range f) = e := by simp [hcache]
  have hother : ∀ sr, sr ≠ range f → s'.cache sr = s.cache sr := by
    intro sr hsr
    simp [hcache, hsr]
  have hextra : ∀ sr, extra range valid junk s' sr = extra range valid junk s sr := by
    intro sr
    rw [extra, extra, hdisk]
  -- the other entries and their files are untouched
  have hstale' : ∀ sr, Stale size (s.cache sr) (filesIn range sr A) (extra range valid junk s sr) →
      Stale size (s'.cache sr) (filesIn range sr B) (extra range valid junk s' sr) := by
    intro sr h
    rw [hextra]
    by_cases hsr : sr = range f
    · subst hsr
      rw [hself]
      exact hstale _ h
    · rw [hother sr hsr, filesIn_congr hB hsr]
      exact h
  have hexact' : ∀ sr T, f ∉ T → Exact size (s.cache sr) (filesIn range sr A \ T) →
      Exact size (s'.cache sr) (filesIn range sr B \ T) := by
    intro sr T hT h
    by_cases hsr : sr = range f
    · subst hsr
      rw [hself]
      exact hexact T hT h
    · rw [hother sr hsr, filesIn_congr hB hsr]
      exact h
  refine ⟨?_, ?_, ?_, ?_, ?_, ?_, ?_, ?_⟩
  · rw [hscan]
    exact hi.nodup
  · intro sr hsr
    rw [hscan] at hsr
    exact hstale' sr (hi.stale sr hsr)
  · intro sr hsr hrest hcur
    rw [hscan] at hrest hcur
    have h := hexact' sr ∅ (by simp)
    simp only [Finset.sdiff_empty] at h
    exact h (hi.exact sr hsr hrest hcur)
  · intro p hp
    rw [hscan]
    exact hi.quiet p (hpend p hp)
  · intro sr n rest hpc
    rw [hscan] at hpc
    rcases hi.comparing sr n rest hpc with ⟨hst, hn⟩
    have hsr : sr ≠ range f := by
      rintro rfl
      exact hwindow (by simp [hpc, ScanPc.window])
    refine ⟨hstale' sr hst, ?_⟩
    rw [hextra, filesIn_congr hB hsr]
    exact hn
  · intro sr rest hpc
    rw [hscan] at hpc
    have hsr : sr ≠ range f := by
      rintro rfl
      exact hwindow (by simp [hpc, ScanPc.window])
    rw [hother sr hsr]
    exact hi.cleared sr rest hpc
  · intro g hg
    rw [hscan] at hg
    rcases hi.waiting g hg with ⟨hin, hfree⟩
    refine ⟨hdisk ▸ hin, ?_⟩
    intro p hp
    exact hfree p (hpend p hp)
  · intro sr listed statted rest hpc
    rw [hscan] at hpc
    rcases hi.adding sr listed statted rest hpc with ⟨hranges, hdisj, hex⟩
    rw [hpc] at htodo
    exact ⟨hranges, hdisj, hexact' sr _ htodo hex⟩

/-- The call that is pending on a file settles it. -/
theorem inv_settle {e : Option CacheState} {B : Finset File} {pc : OpPc}
    (hi : Inv range size valid junk call dirs s) (hop : (s.op o).pending = true)
    (hpc : pc.pending = false) (himport : pc = .renaming → ∃ f, call o = .importCache f)
    (hacc : Accounts valid call s A) (hscan : ScanInv range size valid junk call dirs s A)
    (hB : ∀ g, g ≠ (call o).file → (g ∈ B ↔ g ∈ A))
    (hown : (call o).file ∈ B ↔ (call o).file ∈ s.disk)
    (hexact : ∀ T, (call o).file ∉ T →
      Exact size (s.cache (range (call o).file)) (filesIn range (range (call o).file) A \ T) →
      Exact size e (filesIn range (range (call o).file) B \ T))
    (hstale : ∀ n,
      Stale size (s.cache (range (call o).file)) (filesIn range (range (call o).file) A) n →
      Stale size e (filesIn range (range (call o).file) B) n) :
    Inv range size valid junk call dirs
      ({ s with cache := Function.update s.cache (range (call o).file) e }.setOp o pc) := by
  rcases hi with ⟨hops, -⟩
  set t := { s with cache := Function.update s.cache (range (call o).file) e }.setOp o pc with ht
  have hself : t.op o = pc := by simp [ht]
  have hplaced : pc.placed = false := by cases pc <;> simp_all [OpPc.pending, OpPc.placed]
  have hunl : pc ≠ .unlinked := by
    rintro rfl
    cases hpc
  have hframe : Frame call s t o := by
    refine ⟨?_, fun _ _ => Iff.rfl, ?_⟩
    · intro p hp
      simp [ht, hp]
    · intro p hp hpend hpf
      exact hp (hops.single p o hpend hop hpf)
  refine ⟨opInv_step hops hframe ?_ ?_ ?_ ?_, B, ?_, ?_⟩
  · rw [hself, hplaced]
    simp
  · rw [hself]
    exact fun h => absurd h hunl
  · rw [hself, hpc]
    simp
  · rwa [hself]
  · refine accounts_step hacc hframe hB ?_
    rw [hown, hself]
    simp [hplaced, hunl, hops.valid o hop, ht]
  · refine scanInv_settle hscan rfl rfl rfl ?_ (hscan.quiet o hop) ?_ hB hexact hstale
    · intro p hp
      by_cases hpo : p = o
      · rw [hpo]
        exact hop
      · exact hframe.ops p hpo ▸ hp
    · intro hmem
      exact (hscan.waiting _ hmem).2 o hop rfl

theorem inv_dec (hi : Inv range size valid junk call dirs s) (hop : s.op o = .unlinked) :
    Inv range size valid junk call dirs
      ({ s with cache := s.cache.removeFile (range (call o).file) (size (call o).file) }.setOp o
        (afterRemove (call o))) := by
  have hi' := hi
  rcases hi with ⟨hops, A, hacc, hscan⟩
  have hpend : (s.op o).pending = true := by simp [hop, OpPc.pending]
  -- an unlinked file is accounted for until the decrement
  have hmem : (call o).file ∈ A := (hacc _).mpr ⟨hops.valid o hpend, .inr ⟨o, hop, rfl⟩⟩
  rcases afterRemove_spec (call o) with ⟨hpc, -, himport⟩
  have hfiles : ∀ sr, filesIn range sr (A.erase (call o).file) =
      (filesIn range sr A).erase (call o).file := fun sr => Finset.filter_erase _ _ _
  refine inv_settle hi' hpend hpc himport hacc hscan ?_ ?_ ?_ ?_ (B := A.erase (call o).file)
  · intro g hg
    simp [hg]
  · simp [hops.unlinked o hop]
  · intro T hT hex
    have hin : (call o).file ∈ filesIn range (range (call o).file) A \ T := by
      simp [filesIn, hmem, hT]
    have hset : filesIn range (range (call o).file) (A.erase (call o).file) \ T =
        (filesIn range (range (call o).file) A \ T).erase (call o).file := by
      rw [hfiles, Finset.erase_sdiff_comm]
    rw [hset]
    exact exact_remove hex hin
  · intro n hst
    rw [hfiles]
    exact stale_remove hst (by simp [filesIn, hmem])

theorem inv_add (hi : Inv range size valid junk call dirs s) (hop : s.op o = .sized) (now : Int) :
    Inv range size valid junk call dirs
      ({ s with
        cache := s.cache.addFile (range (call o).file) (size (call o).file) now }.setOp o
        .done) := by
  have hi' := hi
  rcases hi with ⟨hops, A, hacc, hscan⟩
  have hpend : (s.op o).pending = true := by simp [hop, OpPc.pending]
  have hplaced : (s.op o).placed = true := by simp [hop, OpPc.placed]
  -- a placed file is not accounted for yet, and no other call holds it
  have hmem : (call o).file ∉ A := by
    rw [hacc]
    rintro ⟨-, ⟨-, hnone⟩ | ⟨p, hp, hpf⟩⟩
    · exact hnone o hplaced rfl
    · have hpo := hops.single p o (by simp [hp, OpPc.pending]) hpend hpf
      rw [hpo, hop] at hp
      cases hp
  have hfiles : filesIn range (range (call o).file) (insert (call o).file A) =
      insert (call o).file (filesIn range (range (call o).file) A) := by
    simp [filesIn, Finset.filter_insert]
  refine inv_settle hi' hpend rfl (by simp) hacc hscan ?_ ?_ ?_ ?_ (B := insert (call o).file A)
  · intro g hg
    simp [hg]
  · simp [hops.placed o hplaced]
  · intro T hT hex
    rw [hfiles, Finset.insert_sdiff_of_notMem _ hT]
    exact exact_add hex (by simp [filesIn, hmem]) now
  · intro n hst
    rw [hfiles]
    exact stale_add hst (by simp [filesIn, hmem]) now

end

/-! ### Steps of the scan -/

section

variable {File Range Op : Type} [DecidableEq File] [DecidableEq Range]
  {range : File → Range} {size : File → U64} {valid : File → Bool} {junk : Range → Nat}
  {call : Op → Call File} {dirs : List Range} {s s' : St File Range Op} {A : Finset File}

omit [DecidableEq File] [DecidableEq Range] in
/-- A step that moves no call and leaves the disk alone. -/
theorem opInv_congr (hi : OpInv valid call s) (hop : s'.op = s.op) (hdisk : s'.disk = s.disk) :
    OpInv valid call s' := by
  refine ⟨?_, ?_, ?_, ?_, ?_⟩ <;> rw [hop]
  · exact hi.single
  · rw [hdisk]
    exact hi.placed
  · rw [hdisk]
    exact hi.unlinked
  · exact hi.valid
  · exact hi.imports

/-- What the invariant says while the scan is at a given point. -/
theorem ScanInv.at_pc (hi : ScanInv range size valid junk call dirs s A) {pc : ScanPc File Range}
    (hpc : s.scan = pc) :
    (pc.current.toList ++ pc.rest).Nodup ∧
    (∀ sr ∈ pc.rest,
      Stale size (s.cache sr) (filesIn range sr A) (extra range valid junk s sr)) ∧
    (∀ sr ∈ dirs, sr ∉ pc.rest → pc.current ≠ some sr →
      Exact size (s.cache sr) (filesIn range sr A)) ∧
    (∀ o, (s.op o).pending = true → pc.window ≠ some (range (call o).file)) ∧
    ∀ f ∈ pc.todo, f ∈ s.disk ∧ Free call s f := by
  subst hpc
  exact ⟨hi.nodup, hi.stale, hi.exact, hi.quiet, hi.waiting⟩

omit [DecidableEq File] in
/-- The scan changes the entry of the current range only: the others stay as stale or
as exact as they were. -/
theorem others_of_current {cache : StateMap Range} {sr : Range} {rest : List Range}
    {n : Range → Nat} (hother : ∀ r, r ≠ sr → cache r = s.cache r) (hnodup : (sr :: rest).Nodup)
    (hstale : ∀ r ∈ rest, Stale size (s.cache r) (filesIn range r A) (n r))
    (hexact : ∀ r ∈ dirs, r ∉ rest → some sr ≠ some r →
      Exact size (s.cache r) (filesIn range r A)) :
    (∀ r ∈ rest, Stale size (cache r) (filesIn range r A) (n r)) ∧
    ∀ r ∈ dirs, r ∉ rest → some sr ≠ some r → Exact size (cache r) (filesIn range r A) := by
  constructor
  · intro r hr
    have hne : r ≠ sr := by
      rintro rfl
      exact (List.nodup_cons.mp hnodup).1 hr
    rw [hother r hne]
    exact hstale r hr
  · intro r hr hrest hcur
    have hne : r ≠ sr := by
      rintro rfl
      exact hcur rfl
    rw [hother r hne]
    exact hexact r hr hrest hcur

omit [DecidableEq File] in
/-- In a directory without pending calls the valid files are accounted for. -/
theorem filesIn_of_free (hacc : Accounts valid call s A) {sr : Range}
    (hfree : ∀ o, (s.op o).pending = true → range (call o).file ≠ sr) :
    filesIn range sr A = (filesIn range sr s.disk).filter fun f => valid f = true := by
  ext f
  simp only [filesIn, Finset.mem_filter]
  constructor
  · rintro ⟨hf, rfl⟩
    have hfree' : Free call s f := fun o ho hof => hfree o ho (hof ▸ rfl)
    rcases (mem_of_free hacc hfree').mp hf with ⟨hv, hin⟩
    exact ⟨⟨hin, rfl⟩, hv⟩
  · rintro ⟨⟨hin, rfl⟩, hv⟩
    have hfree' : Free call s f := fun o ho hof => hfree o ho (hof ▸ rfl)
    exact ⟨(mem_of_free hacc hfree').mpr ⟨hv, hin⟩, rfl⟩

omit [DecidableEq File] in
variable (junk) in
/-- The number of entries the scan counts. -/
theorem card_filesIn (sr : Range) (h : filesIn range sr A =
      (filesIn range sr s.disk).filter fun f => valid f = true) :
    (filesIn range sr s.disk).card + junk sr =
      (filesIn range sr A).card + extra range valid junk s sr := by
  have hsplit := Finset.card_filter_add_card_filter_not (s := filesIn range sr s.disk)
    (fun f => valid f = true)
  simp only [Bool.not_eq_true] at hsplit
  rw [h, extra, ← hsplit]
  ring

theorem count_inv (hi : Inv range size valid junk call dirs s)
    (hok : Quiet range valid call s .count) {sr : Range} {rest : List Range}
    (hpc : s.scan = .counting (sr :: rest)) :
    Inv range size valid junk call dirs
      { s with
        scan := .comparing sr (BitVec.ofNat 64 ((filesIn range sr s.disk).card + junk sr)) rest } := by
  rcases hi with ⟨hops, A, hacc, hscan⟩
  have hfree : ∀ o, (s.op o).pending = true → range (call o).file ≠ sr := by
    intro o ho hsr
    exact hok o ho (by simp [hpc, ScanPc.next, hsr])
  have hcard := card_filesIn junk sr (filesIn_of_free hacc hfree)
  rcases hscan.at_pc hpc with ⟨hnodup, hstale, hexact, -, -⟩
  refine ⟨opInv_congr hops rfl rfl, A, hacc, hnodup, ?_, ?_, ?_, ?_, by simp,
    by simp [ScanPc.todo], by simp⟩
  · intro r hr
    exact hstale r (List.mem_cons_of_mem _ hr)
  · intro r hr hrest hcur
    have hne : r ≠ sr := by
      rintro rfl
      exact hcur rfl
    refine hexact r hr ?_ (by simp [ScanPc.current])
    simpa [ScanPc.rest, hne] using hrest
  · intro o ho hwin
    exact hfree o ho (Option.some.inj hwin).symm
  · intro r n rest' h
    rcases ScanPc.comparing.inj h with ⟨rfl, rfl, rfl⟩
    refine ⟨hstale sr (List.mem_cons_self ..), ?_⟩
    rw [hcard]
    rfl

theorem compare_inv (hi : Inv range size valid junk call dirs s) {sr : Range} {n : U64}
    {rest : List Range} (hpc : s.scan = .comparing sr n rest) :
    Inv range size valid junk call dirs
      { s with
        scan := if n = s.cache.fileCount sr then .counting rest else .resetting sr rest } := by
  rcases hi with ⟨hops, A, hacc, hscan⟩
  rcases hscan.comparing sr n rest hpc with ⟨hst, hn⟩
  rcases hscan.at_pc hpc with ⟨hnodup, hstale, hexact, hquiet, -⟩
  refine ⟨opInv_congr hops rfl rfl, A, hacc, ?_⟩
  split
  · -- the counts match: the entry is trusted
    rename_i hmatch
    refine ⟨(List.nodup_cons.mp hnodup).2, hstale, ?_, by simp [ScanPc.window], by simp, by simp,
      by simp [ScanPc.todo], by simp⟩
    intro r hr hrest _
    by_cases hsr : r = sr
    · subst hsr
      exact exact_of_match hst (hn ▸ hmatch)
    · exact hexact r hr hrest (by simpa [ScanPc.current] using Ne.symm hsr)
  · exact ⟨hnodup, hstale, hexact, hquiet, by simp, by simp, by simp [ScanPc.todo], by simp⟩

theorem reset_inv (hi : Inv range size valid junk call dirs s) {sr : Range} {rest : List Range}
    (hpc : s.scan = .resetting sr rest) :
    Inv range size valid junk call dirs
      { s with cache := s.cache.clear sr, scan := .listing sr rest } := by
  rcases hi with ⟨hops, A, hacc, hscan⟩
  rcases hscan.at_pc hpc with ⟨hnodup, hstale, hexact, hquiet, -⟩
  have hother : ∀ r, r ≠ sr → s.cache.clear sr r = s.cache r := by
    intro r hr
    simp [StateMap.clear, hr]
  rcases others_of_current hother hnodup hstale hexact with ⟨hstale', hexact'⟩
  refine ⟨opInv_congr hops rfl rfl, A, hacc, hnodup, hstale', hexact', hquiet, by simp, ?_,
    by simp [ScanPc.todo], by simp⟩
  · intro r rest' h
    rcases ScanPc.listing.inj h with ⟨rfl, rfl⟩
    simp [StateMap.clear]

theorem list_inv (hi : Inv range size valid junk call dirs s) {sr : Range} {rest : List Range}
    (hpc : s.scan = .listing sr rest) :
    Inv range size valid junk call dirs
      { s with scan := .adding sr (filesIn range sr s.disk) ∅ rest } := by
  rcases hi with ⟨hops, A, hacc, hscan⟩
  rcases hscan.at_pc hpc with ⟨hnodup, hstale, hexact, hquiet, -⟩
  have hnone := hscan.cleared sr rest hpc
  have hfree : ∀ o, (s.op o).pending = true → range (call o).file ≠ sr := by
    intro o ho hsr
    exact hquiet o ho (by simp [ScanPc.window, hsr])
  refine ⟨opInv_congr hops rfl rfl, A, hacc, hnodup, hstale, hexact, by simp [ScanPc.window],
    by simp, by simp, ?_, ?_⟩
  · intro f hf
    simp only [ScanPc.todo, Finset.union_empty, filesIn, Finset.mem_filter] at hf
    refine ⟨hf.1, ?_⟩
    intro o ho hof
    exact hfree o ho (hof ▸ hf.2)
  · intro r listed statted rest' h
    rcases ScanPc.adding.inj h with ⟨rfl, rfl, rfl, rfl⟩
    refine ⟨?_, Finset.disjoint_empty_right _, ?_⟩
    · intro f hf
      simp only [Finset.union_empty, filesIn, Finset.mem_filter] at hf
      exact hf.2
    · -- everything accounted for has been listed
      show Exact size (s.cache sr) _
      rw [hnone, Finset.union_empty, filesIn_of_free hacc hfree]
      exact Finset.sdiff_eq_empty_iff_subset.mpr (Finset.filter_subset _ _)

omit [DecidableEq Range] in
theorem erase_union_insert {listed statted : Finset File} {f : File} (hf : f ∈ listed) :
    listed.erase f ∪ insert f statted = listed ∪ statted := by
  ext g
  simp only [Finset.mem_union, Finset.mem_erase, Finset.mem_insert]
  constructor
  · rintro (⟨-, hg⟩ | rfl | hg)
    · exact .inl hg
    · exact .inl hf
    · exact .inr hg
  · rintro (hg | hg)
    · by_cases hgf : g = f
      · exact .inr (.inl hgf)
      · exact .inl ⟨hgf, hg⟩
    · exact .inr (.inr hg)

theorem scanStat_inv (hi : Inv range size valid junk call dirs s) {sr : Range}
    {listed statted : Finset File} {rest : List Range} {f : File}
    (hpc : s.scan = .adding sr listed statted rest) (hf : f ∈ listed) :
    Inv range size valid junk call dirs
      { s with scan := .adding sr (listed.erase f) (if f ∈ s.disk then insert f statted else statted)
                 rest } := by
  rcases hi with ⟨hops, A, hacc, hscan⟩
  rcases hscan.at_pc hpc with ⟨hnodup, hstale, hexact, -, hwaiting⟩
  rcases hscan.adding sr listed statted rest hpc with ⟨hranges, hdisj, hex⟩
  -- no call is pending on a listed file, so it is still there
  have hin : f ∈ s.disk := (hwaiting f (Finset.mem_union_left _ hf)).1
  rw [if_pos hin]
  refine ⟨opInv_congr hops rfl rfl, A, hacc, hnodup, hstale, hexact, by simp [ScanPc.window],
    by simp, by simp, ?_, ?_⟩
  · simp only [ScanPc.todo, erase_union_insert hf]
    exact hwaiting
  · intro r listed' statted' rest' h
    rcases ScanPc.adding.inj h with ⟨rfl, rfl, rfl, rfl⟩
    rw [erase_union_insert hf]
    refine ⟨hranges, ?_, hex⟩
    rw [Finset.disjoint_insert_right]
    exact ⟨Finset.notMem_erase _ _, hdisj.mono_left (Finset.erase_subset _ _)⟩

omit [DecidableEq Range] in
theorem union_erase {listed statted : Finset File} {f : File} (hf : f ∉ listed) :
    listed ∪ statted.erase f = (listed ∪ statted).erase f := by
  rw [Finset.erase_union_distrib, Finset.erase_eq_of_notMem hf]

/-- The scan adds a file: the entry now counts it, and it is not waited for any more. -/
theorem scanAdd_inv (hi : Inv range size valid junk call dirs s) {sr : Range}
    {listed statted : Finset File} {rest : List Range} {f : File}
    (hpc : s.scan = .adding sr listed statted rest) (hf : f ∈ statted) (hvalid : valid f = true)
    (mtime now : Int) :
    Inv range size valid junk call dirs
      { s with
        cache := s.cache.scanFile (range f) (size f) mtime now
        scan := .adding sr listed (statted.erase f) rest } := by
  rcases hi with ⟨hops, A, hacc, hscan⟩
  rcases hscan.at_pc hpc with ⟨hnodup, hstale, hexact, -, hwaiting⟩
  rcases hscan.adding sr listed statted rest hpc with ⟨hranges, hdisj, hex⟩
  have hmem : f ∈ listed ∪ statted := Finset.mem_union_right _ hf
  have hnot : f ∉ listed := Finset.disjoint_right.mp hdisj hf
  have hsr : range f = sr := hranges f hmem
  rcases hwaiting f hmem with ⟨hin, hfree⟩
  have hA : f ∈ A := (mem_of_free hacc hfree).mpr ⟨hvalid, hin⟩
  have hother : ∀ r, r ≠ sr → s.cache.scanFile (range f) (size f) mtime now r = s.cache r := by
    intro r hr
    simp [StateMap.scanFile, hsr, hr]
  rcases others_of_current hother hnodup hstale hexact with ⟨hstale', hexact'⟩
  refine ⟨opInv_congr hops rfl rfl, A, hacc, hnodup, hstale', hexact', by simp [ScanPc.window],
    by simp, by simp, ?_, ?_⟩
  · intro g hg
    refine hwaiting g ?_
    simp only [ScanPc.todo, union_erase hnot] at hg
    exact Finset.mem_of_mem_erase hg
  · intro r listed' statted' rest' h
    rcases ScanPc.adding.inj h with ⟨rfl, rfl, rfl, rfl⟩
    rw [union_erase hnot]
    refine ⟨fun g hg => hranges g (Finset.mem_of_mem_erase hg),
      hdisj.mono_right (Finset.erase_subset _ _), ?_⟩
    have hset : filesIn range sr A \ (listed ∪ statted).erase f =
        insert f (filesIn range sr A \ (listed ∪ statted)) :=
      Finset.sdiff_erase (by simp [filesIn, hA, hsr])
    rw [hset]
    have hadd := exact_add hex (f := f) (by simp [hmem]) now
    show Exact size (s.cache.scanFile (range f) (size f) mtime now sr) _
    simp only [StateMap.scanFile, hsr, Function.update_self]
    simpa [Exact] using hadd

/-- The scan deletes a file that is not valid, and so counted nowhere. -/
theorem scanDelete_inv (hi : Inv range size valid junk call dirs s) {sr : Range}
    {listed statted : Finset File} {rest : List Range} {f : File}
    (hpc : s.scan = .adding sr listed statted rest) (hf : f ∈ statted)
    (hvalid : valid f = false) :
    Inv range size valid junk call dirs
      { s with disk := s.disk.erase f, scan := .adding sr listed (statted.erase f) rest } := by
  rcases hi with ⟨hops, A, hacc, hscan⟩
  rcases hscan.at_pc hpc with ⟨hnodup, hstale, hexact, -, hwaiting⟩
  rcases hscan.adding sr listed statted rest hpc with ⟨hranges, hdisj, hex⟩
  have hmem : f ∈ listed ∪ statted := Finset.mem_union_right _ hf
  have hnot : f ∉ listed := Finset.disjoint_right.mp hdisj hf
  have hsr : range f = sr := hranges f hmem
  have hne : ∀ g, valid g = true → g ≠ f := by
    rintro g hg rfl
    rw [hg] at hvalid
    cases hvalid
  have hA : f ∉ A := by
    rw [hacc, hvalid]
    simp
  have hextra : ∀ r, r ≠ sr → extra range valid junk { s with
      disk := s.disk.erase f, scan := .adding sr listed (statted.erase f) rest } r =
      extra range valid junk s r := by
    intro r hr
    have hfiles : filesIn range r (s.disk.erase f) = filesIn range r s.disk :=
      filesIn_congr (f := f) (fun g hg => by simp [hg]) (by rwa [hsr])
    simp only [extra, hfiles]
  refine ⟨⟨hops.single, ?_, ?_, hops.valid, hops.imports⟩, A, ?_, hnodup, ?_, hexact,
    by simp [ScanPc.window], by simp, by simp, ?_, ?_⟩
  · intro o ho
    have hv := hops.valid o ((OpPc.pending_eq _).mpr (.inl ho))
    exact Finset.mem_erase.mpr ⟨hne _ hv, hops.placed o ho⟩
  · intro o ho hin
    exact hops.unlinked o ho (Finset.mem_of_mem_erase hin)
  · intro g
    rw [hacc g]
    refine and_congr_right fun hg => ?_
    simp [hne g hg]
  · intro r hr
    rw [hextra r (by rintro rfl; exact (List.nodup_cons.mp hnodup).1 hr)]
    exact hstale r hr
  · intro g hg
    simp only [ScanPc.todo, union_erase hnot] at hg
    rcases hwaiting g (Finset.mem_of_mem_erase hg) with ⟨hin, hfree⟩
    exact ⟨Finset.mem_erase.mpr ⟨Finset.ne_of_mem_erase hg, hin⟩, hfree⟩
  · intro r listed' statted' rest' h
    rcases ScanPc.adding.inj h with ⟨rfl, rfl, rfl, rfl⟩
    rw [union_erase hnot]
    refine ⟨fun g hg => hranges g (Finset.mem_of_mem_erase hg),
      hdisj.mono_right (Finset.erase_subset _ _), ?_⟩
    have hset : filesIn range sr A \ (listed ∪ statted).erase f =
        filesIn range sr A \ (listed ∪ statted) := by
      ext g
      simp only [Finset.mem_sdiff, Finset.mem_erase, not_and_or, not_not]
      refine and_congr_right fun hg => ⟨?_, .inr⟩
      rintro (rfl | hg')
      · exact absurd (Finset.mem_filter.mp hg).1 hA
      · exact hg'
    rw [hset]
    exact hex

theorem nextDir_inv (hi : Inv range size valid junk call dirs s) {sr : Range} {rest : List Range}
    (hpc : s.scan = .adding sr ∅ ∅ rest) :
    Inv range size valid junk call dirs { s with scan := .counting rest } := by
  rcases hi with ⟨hops, A, hacc, hscan⟩
  rcases hscan.at_pc hpc with ⟨hnodup, hstale, hexact, -, -⟩
  rcases hscan.adding sr ∅ ∅ rest hpc with ⟨-, -, hex⟩
  refine ⟨opInv_congr hops rfl rfl, A, hacc, (List.nodup_cons.mp hnodup).2, hstale, ?_,
    by simp [ScanPc.window], by simp, by simp, by simp [ScanPc.todo], by simp⟩
  intro r hr hrest _
  by_cases hsr : r = sr
  · subst hsr
    simpa using hex
  · exact hexact r hr hrest (by simpa [ScanPc.current] using Ne.symm hsr)

end

/-! ## Whole runs -/

section

variable {File Range Op : Type} [DecidableEq File] [DecidableEq Range] [DecidableEq Op]
  {range : File → Range} {size : File → U64} {valid : File → Bool} {junk : Range → Nat}
  {call : Op → Call File} {dirs : List Range} {s s' : St File Range Op}

theorem opStep_inv {a : Act File Op} {o : Op}
    (himport : ∀ o f, call o = .importCache f → valid f = true)
    (hi : Inv range size valid junk call dirs s) (hok : Quiet range valid call s a)
    (ha : a = .stat o ∨ a = .unlink o ∨ a = .dec o ∨ a = .rename o ∨ a = .measure o ∨
      ∃ now, a = .add o now)
    (hs : opStep range size call s o a = some s') : Inv range size valid junk call dirs s' := by
  rcases afterRemove_spec (call o) with ⟨hpend, hplaced, hrenaming⟩
  have hnot : afterRemove (call o) ≠ .unlinked := by
    intro h
    rw [h] at hpend
    cases hpend
  rcases ha with rfl | rfl | rfl | rfl | rfl | ⟨now, rfl⟩ <;>
    simp only [opStep, Option.ite_none_right_eq_some, Option.some.injEq] at hs <;>
    rcases hs with ⟨hop, rfl⟩
  · -- stat
    split
    · exact inv_move hi (by simp [hop, OpPc.placed]) (by simp) (by simp [hop]) (by simp)
    · exact inv_move hi (by rw [hplaced, hop]; rfl) hnot (by simp [hop]) hrenaming
  · -- unlink, or the file is gone by now
    split
    · rename_i hin
      rcases hok hin with ⟨hvalid, hwindow, htodo, hfree⟩
      refine inv_change hi hvalid ?_ (.inr ⟨rfl, Finset.notMem_erase _ _, hin⟩) hwindow htodo hfree
      intro f hf
      simp [hf]
    · exact inv_move hi (by rw [hplaced, hop]; rfl) hnot (by simp [hop]) hrenaming
  · -- dec
    exact inv_dec hi hop
  · -- rename
    rcases hok with ⟨hnew, hwindow, hfree⟩
    rcases hi.1.imports o hop with ⟨f, hf⟩
    have hvalid : valid (call o).file = true := by
      rw [hf]
      exact himport o f hf
    have htodo : (call o).file ∉ s.scan.todo := by
      rcases hi with ⟨-, A, -, hscan⟩
      exact fun h => hnew (hscan.waiting _ h).1
    refine inv_change hi hvalid ?_ (.inl ⟨rfl, Finset.mem_insert_self _ _, hnew⟩) hwindow htodo
      hfree
    intro g hg
    simp [hg]
  · -- measure: the file is still there
    have hin : (call o).file ∈ s.disk := hi.1.placed o (by simp [hop, OpPc.placed])
    rw [if_pos hin]
    exact inv_move hi (by simp [hop, OpPc.placed]) (by simp) (by simp [hop]) (by simp)
  · -- add
    exact inv_add hi hop now

omit [DecidableEq Op] in
theorem scanStep_inv {a : Act File Op} (hi : Inv range size valid junk call dirs s)
    (hok : Quiet range valid call s a) (hs : scanStep range size valid junk s a = some s') :
    Inv range size valid junk call dirs s' := by
  cases a with
  | count =>
      simp only [scanStep] at hs
      split at hs
      · rename_i sr rest hpc
        obtain rfl := Option.some.inj hs
        exact count_inv hi hok hpc
      · cases hs
  | compare =>
      simp only [scanStep] at hs
      split at hs
      · rename_i sr n rest hpc
        obtain rfl := Option.some.inj hs
        exact compare_inv hi hpc
      · cases hs
  | reset =>
      simp only [scanStep] at hs
      split at hs
      · rename_i sr rest hpc
        obtain rfl := Option.some.inj hs
        exact reset_inv hi hpc
      · cases hs
  | list =>
      simp only [scanStep] at hs
      split at hs
      · rename_i sr rest hpc
        obtain rfl := Option.some.inj hs
        exact list_inv hi hpc
      · cases hs
  | scanStat f =>
      simp only [scanStep] at hs
      split at hs
      · rename_i sr listed statted rest hpc
        simp only [Option.ite_none_right_eq_some, Option.some.injEq] at hs
        rcases hs with ⟨hf, rfl⟩
        exact scanStat_inv hi hpc hf
      · cases hs
  | scanAdd f mtime now =>
      simp only [scanStep] at hs
      split at hs
      · rename_i sr listed statted rest hpc
        simp only [Option.ite_none_right_eq_some, Option.some.injEq] at hs
        rcases hs with ⟨⟨hf, hvalid⟩, rfl⟩
        exact scanAdd_inv hi hpc hf hvalid mtime now
      · cases hs
  | scanDelete f =>
      simp only [scanStep] at hs
      split at hs
      · rename_i sr listed statted rest hpc
        simp only [Option.ite_none_right_eq_some, Option.some.injEq] at hs
        rcases hs with ⟨⟨hf, hvalid⟩, rfl⟩
        exact scanDelete_inv hi hpc hf hvalid
      · cases hs
  | nextDir =>
      simp only [scanStep] at hs
      split at hs
      · rename_i sr listed statted rest hpc
        simp only [Option.ite_none_right_eq_some, Option.some.injEq] at hs
        rcases hs with ⟨⟨rfl, rfl⟩, rfl⟩
        exact nextDir_inv hi hpc
      · cases hs
  | _ => cases hs

theorem step_inv {a : Act File Op} (himport : ∀ o f, call o = .importCache f → valid f = true)
    (hi : Inv range size valid junk call dirs s) (hok : Quiet range valid call s a)
    (hs : step range size valid junk call s a = some s') :
    Inv range size valid junk call dirs s' := by
  cases a with
  | stat o | unlink o | dec o | rename o | measure o | add o now =>
      exact opStep_inv himport hi hok (by simp) hs
  | _ => exact scanStep_inv hi hok hs

variable (range size valid junk) in
/-- What the scan is started on: directories with fewer than `2^64` entries, and a
loaded entry is right whenever its count is the number of entries of its directory. -/
def Trusted (disk : Finset File) (cache : StateMap Range) (dirs : List Range) : Prop :=
  ∀ sr ∈ dirs, (filesIn range sr disk).card + junk sr < 2 ^ 64 ∧
    ∀ c, cache sr = some c →
      c.fileCount = (((filesIn range sr disk).card + junk sr : Nat) : U64) →
      Exact size (some c) (filesIn range sr (disk.filter fun f => valid f = true))

omit [DecidableEq File] in
theorem stale_of_trusted {e : Option CacheState} {B : Finset File} {n : Nat}
    (hbound : B.card + n < 2 ^ 64)
    (htrust : ∀ c, e = some c → c.fileCount = ((B.card + n : Nat) : U64) → Exact size (some c) B) :
    Stale size e B n := by
  unfold Stale
  cases e with
  | none => exact hbound
  | some c =>
      refine ⟨B.card - c.fileCount, ∑ f ∈ B, size f - c.size, by ring, by ring, ?_⟩
      intro hzero
      have hcount : c.fileCount = ((B.card + n : Nat) : U64) := by
        rw [Nat.cast_add]
        calc c.fileCount = c.fileCount + 0 := (add_zero _).symm
          _ = c.fileCount + (B.card - c.fileCount + n) := by rw [hzero]
          _ = B.card + n := by ring
      rcases htrust c rfl hcount with ⟨hc, hz⟩
      rw [hc, hz]
      simp

omit [DecidableEq Op] in
theorem init_inv {disk : Finset File} {cache : StateMap Range} (hdirs : dirs.Nodup)
    (htrust : Trusted range size valid junk disk cache dirs) :
    Inv range size valid junk call dirs (start disk cache dirs) := by
  have hacc : Accounts valid call (start disk cache dirs : St File Range Op)
      (disk.filter fun f => valid f = true) := by
    intro f
    simp [start, OpPc.placed, and_comm]
  refine ⟨⟨?_, ?_, ?_, ?_, ?_⟩, _, hacc, hdirs, ?_, ?_, ?_, ?_, ?_, ?_, ?_⟩ <;>
    simp only [start, ScanPc.rest, ScanPc.current, ScanPc.todo, ScanPc.window, OpPc.pending,
      OpPc.placed]
  · simp
  · simp
  · simp
  · simp
  · simp
  · intro sr hsr
    rcases htrust sr hsr with ⟨hbound, hexact⟩
    have hfiles : filesIn range sr (disk.filter fun f => valid f = true) =
        (filesIn range sr disk).filter fun f => valid f = true := by
      simp [filesIn, Finset.filter_filter, and_comm]
    have hcard : (filesIn range sr disk).card + junk sr =
        (filesIn range sr (disk.filter fun f => valid f = true)).card +
          extra range valid junk (start disk cache dirs : St File Range Op) sr :=
      card_filesIn (s := start disk cache dirs) junk sr hfiles
    rw [hcard] at hbound hexact
    exact stale_of_trusted hbound hexact
  · intro sr hsr hrest
    exact absurd hsr hrest
  · simp
  · simp
  · simp
  · simp
  · simp

theorem inv_of_reach {disk : Finset File} {cache : StateMap Range} (hdirs : dirs.Nodup)
    (himport : ∀ o f, call o = .importCache f → valid f = true)
    (htrust : Trusted range size valid junk disk cache dirs)
    (h : (machine range size valid junk call disk cache dirs).Reach (Quiet range valid call) s) :
    Inv range size valid junk call dirs s := by
  refine Machine.Reach.invariant ?_ ?_ h
  · rintro s rfl
    exact init_inv hdirs htrust
  · intro s a s' hi hok hs
    exact step_inv himport hi hok hs

/-- In every run in which no step falls into a gap: once the scan and all calls have
finished, the entry of every scanned range counts the valid files in its directory
and adds up their sizes. -/
theorem exact_of_quiet {disk : Finset File} {cache : StateMap Range} (hdirs : dirs.Nodup)
    (himport : ∀ o f, call o = .importCache f → valid f = true)
    (htrust : Trusted range size valid junk disk cache dirs)
    (h : (machine range size valid junk call disk cache dirs).Reach (Quiet range valid call) s)
    (hscan : s.scan = .counting []) (hops : ∀ o, s.op o = .idle ∨ s.op o = .done) :
    ∀ sr ∈ dirs,
      s.cache.fileCount sr =
        ((filesIn range sr (s.disk.filter fun f => valid f = true)).card : U64) ∧
      s.cache.size sr =
        ∑ f ∈ filesIn range sr (s.disk.filter fun f => valid f = true), size f := by
  rcases inv_of_reach hdirs himport htrust h with ⟨-, A, hacc, hi⟩
  intro sr hsr
  have hquiet : ∀ o, (s.op o).pending = false := by
    intro o
    rcases hops o with ho | ho <;> simp [ho, OpPc.pending]
  have hA : A = s.disk.filter fun f => valid f = true := by
    ext f
    rw [mem_of_free hacc (fun o ho => by simp [hquiet o] at ho), Finset.mem_filter, and_comm]
  have hexact := hi.exact sr hsr (by simp [hscan, ScanPc.rest]) (by simp [hscan, ScanPc.current])
  rw [← hA]
  unfold Exact at hexact
  unfold StateMap.fileCount StateMap.size
  cases hc : s.cache sr with
  | none =>
      rw [hc] at hexact
      simp [show filesIn range sr A = ∅ from hexact]
  | some c =>
      rw [hc] at hexact
      simpa using hexact

end

/-- An import renames its file into place, the scan then counts, resets, lists and
adds it, and only then does the import add it. -/
def countedTwice : List (Act Unit Unit) :=
  [.stat (), .rename (), .count, .compare, .reset, .list, .scanStat (), .scanAdd () 0 0, .nextDir,
    .measure (), .add () 0]

/-- Without the condition a single file of 4096 bytes ends up counted twice. -/
theorem import_counted_twice :
    ∃ s, (machine (fun _ => ()) (fun _ => 4096) (fun _ => true) (fun _ => 0)
        (fun _ : Unit => .importCache ()) ∅ (fun _ => none) [()]).Reachable s ∧
      s.scan = .counting [] ∧ (∀ o, s.op o = .done) ∧ s.disk.card = 1 ∧
      s.cache.fileCount () = 2 ∧ s.cache.size () = 8192 := by
  exact Machine.reachable_of_run rfl countedTwice _ (by decide +kernel)

section

variable {File Range Op : Type} [DecidableEq File] [DecidableEq Range] [Fintype Op]
  (range : File → Range) (valid : File → Bool) (call : Op → Call File) (s : St File Range Op)

instance (f : File) : Decidable (Free call s f) := inferInstanceAs (Decidable (∀ _, _))

instance : ∀ a, Decidable (Quiet range valid call s a)
  | .count => inferInstanceAs (Decidable (∀ _, _))
  | .unlink _ => inferInstanceAs (Decidable (_ → _ ∧ _ ∧ _ ∧ _))
  | .rename _ => inferInstanceAs (Decidable (_ ∧ _ ∧ _))
  | .stat _ | .dec _ | .measure _ | .add _ _ | .compare | .reset | .list | .scanStat _
  | .scanAdd _ _ _ | .scanDelete _ | .nextDir => isTrue trivial

end

/-- An import of file 1 and the removal of file 0, while the scan rebuilds the entry
of their range. -/
def sideCalls : Bool → Call (Fin 2)
  | false => .importCache 1
  | true => .removeCache 0

theorem exact_of_quiet_side :
    ∃ s, (machine (fun _ => ()) (fun f : Fin 2 => if f = 0 then 4096 else 8192) (fun _ => true)
        (fun _ => 0) sideCalls {0} (fun _ => none) [()]).Reach
        (Quiet (fun _ => ()) (fun _ => true) sideCalls) s ∧
      s.disk = {1} ∧ s.cache.fileCount () = 1 ∧ s.cache.size () = 8192 := by
  obtain ⟨s, hs, hscan, hops, hdisk⟩ := Machine.reach_of_runIf
    (M := machine (fun _ => ()) (fun f : Fin 2 => if f = 0 then 4096 else 8192) (fun _ => true)
      (fun _ => 0) sideCalls {0} (fun _ => none) [()])
    (Quiet (fun _ => ()) (fun _ => true) sideCalls) rfl
    [.count, .stat false, .compare, .reset, .list, .rename false, .scanStat 0, .measure false,
      .stat true, .scanAdd 0 7 9, .add false 9, .unlink true, .nextDir, .dec true]
    (fun s => s.scan = .counting [] ∧ (∀ o, s.op o = .idle ∨ s.op o = .done) ∧ s.disk = {1})
    (by decide +kernel)
  have hexact := exact_of_quiet (by decide) (fun _ _ _ => rfl) (by simp [Trusted, filesIn]) hs
    hscan hops () (by simp)
  rw [hdisk] at hexact
  exact ⟨s, hs, hdisk, hexact.1.trans (by decide), hexact.2.trans (by decide)⟩

end Hath.Accounting
