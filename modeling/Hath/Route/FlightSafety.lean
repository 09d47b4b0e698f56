import Mathlib.Data.Finset.Card
import Mathlib.Logic.Relation
import Hath.Route.Flight
import Hath.Route.Worker

/-!
# Hath.Route.FlightSafety — what the flights of `download_state` guarantee

The results about whole runs of the machine of `Flight`:

* `entry_has_owner` — an entry never outlives its guard, on any exit;
* `single_flight` — one download at a time per hash, in runs in which no entry is
  inserted while the guard of an earlier flight is alive;
* `failed_fetch_releases` — a fetch that fails before the first byte answers its
  waiters, in runs in which its initiator has left by then;
* `temp_outlives_readers` — a body stream finds its temp file, in runs in which no
  request is between its clone of the entry and its subscription when the worker
  starts the import.

The last three need their conditions; the trace next to each one is a run of the
code that breaks it. `worker_step_simulated` ties the worker of a flight to
`Worker`.
-/

namespace Hath.Flight

open Lib

section

variable {Req Hash : Type} [DecidableEq Req] [DecidableEq Hash] [Fintype Req]
  {hash : Req → Hash} {s s' : St Req Hash} {a : Act Req Hash}

/-! ## No stale entries -/

/-- Every entry of `download_state` has a live owner: the initiating request with
its guard, or the worker the guard moved to. Where none is left the slot is empty,
and the next request that misses the cache starts a new download. -/
theorem entry_has_owner (h : (machine hash).Reachable s) :
    (∀ k f, s.entry k = some f → hash f = k ∧
      ((s.req f).ownsGuard = true ∨ (s.worker f).ownsGuard = true)) ∧
    ∀ k, (∀ f, hash f = k → ¬ GuardLive s f) → s.entry k = none ∧
      ∀ r, hash r = k → s.req r = .missed →
        ∃ s', step hash s (.lock r) = some s' ∧ s'.entry k = some r ∧ s'.req r = .creating := by
  have hi := inv_of_reachable h
  refine ⟨hi.owned, ?_⟩
  intro k hdead
  have hnone : s.entry k = none := by
    by_contra hne
    rcases Option.ne_none_iff_exists'.mp hne with ⟨f, hf⟩
    rcases hi.owned k f hf with ⟨hk, hg⟩
    exact hdead f hk hg
  refine ⟨hnone, ?_⟩
  intro r hr hpc
  refine ⟨(s.setEntry (hash r) (some r)).setReq r .creating, ?_, by simp [hr], by simp⟩
  simp [step, reqStep, lockStep, hpc, hr, hnone]

/-- One request from its miss to the end of its body; the worker has removed the
entry and waits for the second time. -/
def soloTrace : List (Act (Fin 3) Unit) :=
  [.lookup 0, .lock 0, .createTemp 0, .srFetchOk 0, .subscribe 0, .check 0, .complete 0 5,
    .changed 0, .openTemp 0, .finish 0, .closed 0, .remove 0 true]

/-- A download in progress, and the same hash after its worker has ended. -/
theorem entry_has_owner_solo :
    (∃ s : St (Fin 3) Unit, (machine fun _ => ()).Reachable s ∧ s.entry () = some 0 ∧
      ((s.req 0).ownsGuard = true ∨ (s.worker 0).ownsGuard = true)) ∧
    ∃ s s' : St (Fin 3) Unit, (machine fun _ => ()).Reachable s ∧ s.worker 0 = .ended ∧
      s.entry () = none ∧ step (fun _ => ()) s (.lock 1) = some s' ∧ s'.entry () = some 1 := by
  constructor
  · obtain ⟨s, hs, he⟩ := Machine.reachable_of_run (M := machine fun _ : Fin 3 => ())
      ⟨fun _ => false, rfl⟩ [.lookup 0, .lock 0, .createTemp 0, .srFetchOk 0]
      (fun s => s.entry () = some 0) (by decide +kernel)
    exact ⟨s, hs, he, ((entry_has_owner hs).1 () 0 he).2⟩
  · obtain ⟨s, hs, hw, hr, hdead⟩ := Machine.reachable_of_run (M := machine fun _ : Fin 3 => ())
      ⟨fun _ => false, rfl⟩
      (soloTrace.append [.lookup 1, .closedAgain 0, .imported 0 .failed, .dropGuard 0, .dropTx 0])
      (fun s => s.worker 0 = .ended ∧ s.req 1 = .missed ∧ ∀ f, ¬ GuardLive s f) (by decide +kernel)
    rcases (entry_has_owner hs).2 () (fun f _ => hdead f) with ⟨hnone, hnext⟩
    rcases hnext 1 rfl hr with ⟨s', hstep, he, -⟩
    exact ⟨s, s', hs, hw, hnone, hstep, he⟩

/-! ## Single flight -/

/-- An insertion is *solo* when no earlier flight of the hash has its guard alive
and no request of the hash still waits for a temp path that was never published. -/
def Solo (hash : Req → Hash) (s : St Req Hash) (a : Act Req Hash) : Prop :=
  ∀ r, a = .lock r → s.entry (hash r) = none →
    (∀ f, hash f = hash r → ¬ GuardLive s f) ∧
    ∀ r' f, hash r' = hash r → s.req r' = .attached f → s.published f = true

instance (s : St Req Hash) (a : Act Req Hash) : Decidable (Solo hash s a) :=
  inferInstanceAs (Decidable (∀ _, _))

/-- Along solo insertions a hash has at most one live guard, and a request that
waits for an unpublished temp path finds its own flight in the map or nothing. -/
structure SingleInv (hash : Req → Hash) (s : St Req Hash) : Prop where
  base : Inv hash s
  unique : ∀ f g, hash f = hash g → GuardLive s f → GuardLive s g → f = g
  stale : ∀ r f g, s.req r = .attached f → s.published f = false →
    s.entry (hash r) = some g → g = f

omit [Fintype Req] in
theorem unique_step (hi : SingleInv hash s) (hok : Solo hash s a) (hs : Step hash s a s')
    (f g : Req) (hh : hash f = hash g) (hf : GuardLive s' f) (hg : GuardLive s' g) : f = g := by
  rcases guard_step hs hf with hf | ⟨ha, he⟩
  · rcases guard_step hs hg with hg | ⟨ha, he⟩
    · exact hi.unique f g hh hf hg
    · subst ha
      exact absurd hf ((hok _ rfl he).1 f hh)
  · subst ha
    rcases guard_step hs hg with hg | ⟨ha, -⟩
    · exact absurd hg ((hok _ rfl he).1 g hh.symm)
    · exact Act.lock.inj ha

omit [Fintype Req] in
/-- A request is attached because it was, or because this step cloned the entry. -/
theorem attached_step (hs : Step hash s a s') {r f : Req} (h : s'.req r = .attached f) :
    s.req r = .attached f ∨ s.entry (hash r) = some f := by
  have hl := local_step hs r
  rw [h] at hl
  generalize s.req r = p at *
  generalize s.worker r = w at *
  generalize s'.worker r = w' at *
  cases hl with
  | move hm =>
      cases hm with
      | attach he => exact .inr he
  | _ => exact .inl rfl

omit [Fintype Req] in
theorem stale_step (hi : SingleInv hash s) (hok : Solo hash s a) (hs : Step hash s a s')
    (r f g : Req) (hr : s'.req r = .attached f) (hpub : s'.published f = false)
    (hg : s'.entry (hash r) = some g) : g = f := by
  have hpub0 : s.published f = false := by
    by_contra hne
    have := published_step hs (by simpa using hne : s.published f = true)
    simp [hpub] at this
  rcases attached_step hs hr with hr0 | he
  · rcases entry_step hs (hash r) with heq | ⟨q, ha, hq, -, hnone, hsome, -⟩ | ⟨hnone, -⟩
    · exact hi.stale r f g hr0 hpub0 (heq ▸ hg)
    · -- an insertion while `r` waits in vain is not solo
      subst ha
      have hlive := (hok _ rfl (hq ▸ hnone)).2 r f hq.symm hr0
      simp [hpub0] at hlive
    · rw [hnone] at hg
      cases hg
  · rcases entry_step hs (hash r) with heq | ⟨q, -, -, -, hnone, -, -⟩ | ⟨hnone, -⟩
    · rw [heq, he] at hg
      exact (Option.some.inj hg).symm
    · rw [he] at hnone
      cases hnone
    · rw [hnone] at hg
      cases hg

theorem singleInv_of_reach (h : (machine hash).Reach (Solo hash) s) : SingleInv hash s := by
  refine Machine.Reach.invariant ?_ ?_ h
  · rintro s ⟨cached, rfl⟩
    refine ⟨init_inv cached, ?_, ?_⟩
    · simp [GuardLive, start, ReqPc.ownsGuard, WorkerPc.ownsGuard]
    · simp [start]
  · intro s a s' hi hok hs
    have hs := step_cases hs
    exact ⟨step_inv hi.base hs, unique_step hi hok hs, stale_step hi hok hs⟩

/-- In every run whose insertions are solo: an entry is removed only on behalf of
the flight it belongs to, and two workers of one hash never both fetch. -/
theorem single_flight (h : (machine hash).Reach (Solo hash) s) :
    (∀ a s', step hash s a = some s' → ∀ k f, s.entry k = some f → s'.entry k ≠ some f →
      remover s a = some f) ∧
    ∀ f g, hash f = hash g → s.worker f = .fetching → s.worker g = .fetching → f = g := by
  have hi := singleInv_of_reach h
  constructor
  · intro a s' hs k f hf hne
    rcases hi.base.owned k f hf with ⟨hk, hlive⟩
    rcases entry_step (step_cases hs) k with heq | ⟨r, -, -, -, hnone, -, -⟩ | ⟨-, g, hrem, hwho⟩
    · exact absurd (heq.trans hf) hne
    · rw [hf] at hnone
      cases hnone
    · rcases hwho with ⟨hg, hgk⟩ | ⟨r, hr, hpub, hrk⟩
      · rw [hrem, hi.unique g f (hgk.trans hk.symm) hg hlive]
      · rw [hrem, hi.stale r g f hr hpub (hrk ▸ hf)]
  · intro f g hh hf hg
    exact hi.unique f g hh (.inr (by simp [hf, WorkerPc.ownsGuard]))
      (.inr (by simp [hg, WorkerPc.ownsGuard]))

/-- Two downloads of one hash, one after the other: the second insertion is solo. -/
theorem single_flight_solo :
    ∃ s : St (Fin 3) Unit, (machine fun _ => ()).Reach (Solo fun _ => ()) s ∧
      s.worker 0 = .ended ∧ s.worker 1 = .fetching ∧ ∀ f, s.worker f = .fetching → f = 1 := by
  obtain ⟨s, hs, h0, h1⟩ := Machine.reach_of_runIf (M := machine fun _ : Fin 3 => ())
    (Solo fun _ => ()) ⟨fun _ => false, rfl⟩
    (soloTrace.append [.closedAgain 0, .lookup 1, .imported 0 .renamed, .dropTx 0, .dropGuard 0,
      .lock 1, .createTemp 1, .srFetchOk 1])
    (fun s => s.worker 0 = .ended ∧ s.worker 1 = .fetching) (by decide +kernel)
  exact ⟨s, hs, h0, h1, fun f hf => (single_flight hs).2 f 1 rfl hf h1⟩

/-- While worker 0 imports, request 1 misses the cache and starts its own download. -/
def staleGuardTrace : List (Act (Fin 3) Unit) :=
  soloTrace.append [.lookup 1, .lock 1, .createTemp 1, .srFetchOk 1, .lookup 2, .closedAgain 0,
    .imported 0 .renamed]

/-- Without the condition both halves fail: the guard of worker 0 removes the entry
of request 1, and request 2 then starts a second download next to the first. -/
theorem not_single_flight :
    (∃ s s' : St (Fin 3) Unit, (machine fun _ => ()).Reachable s ∧
      step (fun _ => ()) s (.dropGuard 0) = some s' ∧
      s.entry () = some 1 ∧ s.worker 1 = .fetching ∧ s'.entry () = none) ∧
    ∃ s : St (Fin 3) Unit, (machine fun _ => ()).Reachable s ∧
      s.worker 1 = .fetching ∧ s.worker 2 = .fetching := by
  constructor
  · obtain ⟨s, hs, he, h1, h0⟩ := Machine.reachable_of_run (M := machine fun _ : Fin 3 => ())
      ⟨fun _ => false, rfl⟩ staleGuardTrace
      (fun s => s.entry () = some 1 ∧ s.worker 1 = .fetching ∧ s.worker 0 = .returning)
      (by decide +kernel)
    refine ⟨s, (s.setEntry () none).setWorker 0 .guardDropped, hs, ?_, he, h1, by simp⟩
    simp [step, workerStep, h0]
  · exact Machine.reachable_of_run (M := machine fun _ : Fin 3 => ()) ⟨fun _ => false, rfl⟩
      (staleGuardTrace.append [.dropGuard 0, .lock 2, .createTemp 2, .srFetchOk 2])
      (fun s => s.worker 1 = .fetching ∧ s.worker 2 = .fetching) (by decide +kernel)

/-! ## A failed fetch -/

/-- A worker that ends without progress ends after its initiator: when the last of
its two values is dropped, the future of the initiating request is gone. -/
def InitiatorGone (s : St Req Hash) (a : Act Req Hash) : Prop :=
  ∀ f, (a = .dropTx f ∧ s.worker f = .guardDropped) ∨
      (a = .dropGuard f ∧ s.worker f = .txDropped) →
    (s.tx f).version = 0 → (s.req f).inHandler = false

instance (s : St Req Hash) (a : Act Req Hash) : Decidable (InitiatorGone s a) :=
  inferInstanceAs (Decidable (∀ _, _))

omit [DecidableEq Req] [DecidableEq Hash] [Fintype Req] in
theorem Move.inHandler {r : Req} {p q : ReqPc Req} (h : Move hash s r p q)
    (hp : p.afterSpawn = true) (hout : p.inHandler = false) : q.inHandler = false := by
  cases h <;> simp_all [ReqPc.afterSpawn, ReqPc.inHandler]

omit [Fintype Req] in
/-- A request past the spawn that has left the handler stays out of it. -/
theorem left_step (hs : Step hash s a s') {f : Req} (hafter : (s.req f).afterSpawn = true)
    (hout : (s.req f).inHandler = false) : (s'.req f).inHandler = false := by
  have hl := local_step hs f
  generalize s.req f = p at *
  generalize s.worker f = w at *
  generalize s'.req f = p' at *
  generalize s'.worker f = w' at *
  cases hl with
  | move hm => exact hm.inHandler hafter hout
  | insert _ _ | createTemp _ | spawn => cases hafter
  | giveUp hg _ => simp [ReqPc.afterSpawn_of_ownsGuard hg] at hafter
  | _ => exact hout

omit [Fintype Req] in
/-- A worker ends by dropping the second of its two values. -/
theorem ended_step (hs : Step hash s a s') {f : Req} (hf : s'.worker f = .ended) :
    s.worker f = .ended ∨ (a = .dropTx f ∧ s.worker f = .guardDropped) ∨
      (a = .dropGuard f ∧ s.worker f = .txDropped) := by
  have hl := local_step hs f
  rw [hf] at hl
  generalize s.req f = p at *
  generalize s.worker f = w at *
  generalize s'.req f = p' at *
  cases hl with
  | workerMove hm =>
      cases hm
      exact .inr (.inl ⟨rfl, rfl⟩)
  | dropGuard ha hm _ =>
      cases hm
      exact .inr (.inr ⟨ha, rfl⟩)
  | remove hw _ => rcases hw with hw | hw <;> cases hw
  | _ => exact .inl rfl

/-- The initiator of a flight that ended without progress is out of the handler. -/
structure ReleaseInv (hash : Req → Hash) (s : St Req Hash) : Prop where
  base : Inv hash s
  left : ∀ f, s.worker f = .ended → (s.tx f).version = 0 → (s.req f).inHandler = false

theorem releaseInv_of_reach (h : (machine hash).Reach InitiatorGone s) : ReleaseInv hash s := by
  refine Machine.Reach.invariant ?_ ?_ h
  · rintro s ⟨cached, rfl⟩
    exact ⟨init_inv cached, by simp [start]⟩
  · intro s a s' hi hok hs
    have hs := step_cases hs
    refine ⟨step_inv hi.base hs, ?_⟩
    intro f hf hv
    have hv0 : (s.tx f).version = 0 := Nat.le_zero.mp (hv ▸ version_step hs f)
    have hpast := ended_step hs hf
    have hborn := hi.base.born f (by rcases hpast with hw | ⟨-, hw⟩ | ⟨-, hw⟩ <;> simp [hw])
    rcases hpast with hw | hlast
    · exact left_step hs hborn.2 (hi.left f hw hv0)
    · exact left_step hs hborn.2 (hok f hlast hv0)

/-- A step of a request that has cloned an entry and not subscribed yet. -/
def Yields (hash : Req → Hash) (s s' : St Req Hash) : Prop :=
  ∃ r, step hash s (.waitTemp r) = some s' ∨ step hash s (.subscribe r) = some s'

variable (hash) in
/-- A request with a cloned entry of a published flight gives it up by its own steps. -/
theorem clone_yields {r f : Req} (hpub : s.published f = true) (hr : (s.req r).cloneOf = some f) :
    Relation.ReflTransGen (Yields hash) s (s.setReq r (.checking f (s.tx f).subscribe)) := by
  cases hpc : s.req r with
  | attached g =>
      obtain rfl : g = f := by simpa [hpc, ReqPc.cloneOf] using hr
      refine .head (b := s.setReq r (.located g)) ⟨r, .inl ?_⟩ (.single ⟨r, .inr ?_⟩)
      · simp [step, reqStep, hpc, hpub]
      · simp [step, reqStep]
  | located g =>
      obtain rfl : g = f := by simpa [hpc, ReqPc.cloneOf] using hr
      refine .single ⟨r, .inr ?_⟩
      simp [step, reqStep, hpc]
  | _ => simp [hpc, ReqPc.cloneOf] at hr

variable (hash) in
/-- All requests that have cloned the entry of a published flight can subscribe, and
nothing else changes. -/
theorem clones_yield {f : Req} (hpub : s.published f = true) :
    ∃ s', Relation.ReflTransGen (Yields hash) s s' ∧ (∀ r, (s'.req r).cloneOf ≠ some f) ∧
      (∀ r, (s.req r).cloneOf ≠ some f → s'.req r = s.req r) ∧
      s'.entry = s.entry ∧ s'.worker = s.worker ∧ s'.tx = s.tx := by
  -- by induction on the requests that hold a clone
  generalize hn : (Finset.univ.filter fun r => (s.req r).cloneOf = some f) = holders
  induction holders using Finset.strongInduction generalizing s with
  | H holders ih =>
    by_cases hne : ∃ r, (s.req r).cloneOf = some f
    · rcases hne with ⟨r, hr⟩
      have hstep := clone_yields hash hpub hr
      set t := s.setReq r (.checking f (s.tx f).subscribe) with ht
      have hlt : (Finset.univ.filter fun q => (t.req q).cloneOf = some f) ⊂ holders := by
        refine Finset.ssubset_iff_of_subset ?_ |>.mpr ⟨r, ?_, ?_⟩
        · intro q hq
          rw [← hn]
          by_cases hqr : q = r
          · simp [hqr, hr]
          · simpa [ht, hqr] using hq
        · simp [← hn, hr]
        · simp [ht, ReqPc.cloneOf]
      obtain ⟨s', hrun, hnone, hsame, he, hw, htx⟩ := ih _ hlt (s := t) hpub rfl
      refine ⟨s', hstep.trans hrun, hnone, ?_, he, hw, htx⟩
      intro q hq
      have hqr : q ≠ r := by
        rintro rfl
        exact hq hr
      rw [hsame q (by simpa [ht, hqr] using hq)]
      simp [ht, hqr]
    · push Not at hne
      exact ⟨s, .refl, hne, fun _ _ => rfl, rfl, rfl, rfl⟩

/-- In every run in which a fetch without progress ends after its initiator has
left: once such a worker has ended and its entry is gone, no request blocked in
`changed()` holds a sender of the progress channel, and every request that waits on
it gets its 404 — at once when no clone of the entry is left, else as soon as the
requests that hold one have subscribed. -/
theorem failed_fetch_releases (h : (machine hash).Reach InitiatorGone s) {f : Req}
    (hw : s.worker f = .ended) (hv : (s.tx f).version = 0) (he : s.entry (hash f) ≠ some f) :
    (∀ r g seen, s.req r = .waiting g seen → ¬ HoldsSender s r f) ∧
    (∀ r seen, s.req r = .waiting f seen → (∀ q, (s.req q).cloneOf ≠ some f) →
      step hash s (.notFound r) = some (s.setReq r .done)) ∧
    ∃ s', Relation.ReflTransGen (Yields hash) s s' ∧
      ∀ r seen, s.req r = .waiting f seen → s'.req r = .waiting f seen ∧
        step hash s' (.notFound r) = some (s'.setReq r .done) := by
  have hi := releaseInv_of_reach h
  have hleft := hi.left f hw hv
  -- with no clone left, every handle of the channel is gone
  have hdrained : ∀ t : St Req Hash, (∀ q, (t.req q).cloneOf ≠ some f) → t.req f = s.req f →
      t.entry = s.entry → t.worker = s.worker → t.tx = s.tx →
      ∀ r seen, s.req r = .waiting f seen → t.req r = .waiting f seen →
        step hash t (.notFound r) = some (t.setReq r .done) := by
    intro t hclone hreq hentry hworker htx r seen hr htr
    have hseen : seen = (s.tx f).version := by
      have := hi.base.seen r f seen (.inr hr)
      omega
    have hdead : ¬ SenderAlive hash t f := by
      rintro (⟨q, ⟨-, hq⟩ | hq⟩ | hq | hq)
      · rw [hreq, hleft] at hq
        cases hq
      · exact hclone q hq
      · exact he (hentry ▸ hq)
      · simp [hworker, hw, WorkerPc.holdsTx] at hq
    simp [step, reqStep, htr, hdead, Watch.Unseen, htx, hseen]
  refine ⟨?_, ?_, ?_⟩
  · rintro r g seen hr (⟨rfl, hin⟩ | hclone)
    · rw [hleft] at hin
      cases hin
    · simp [hr, ReqPc.cloneOf] at hclone
  · intro r seen hr hclone
    exact hdrained s hclone rfl rfl rfl rfl r seen hr hr
  · obtain ⟨s', hrun, hclone, hsame, hentry, hworker, htx⟩ :=
      clones_yield hash (hi.base.born f (by simp [hw])).1
    have hkeep : ∀ r, (s.req r).cloneOf = none → s'.req r = s.req r :=
      fun r hr => hsame r (by simp [hr])
    refine ⟨s', hrun, ?_⟩
    intro r seen hr
    have hr' : s'.req r = .waiting f seen := (hkeep r (by simp [hr, ReqPc.cloneOf])).trans hr
    refine ⟨hr', hdrained s' hclone (hkeep f ?_) hentry hworker htx r seen hr hr'⟩
    generalize s.req f = p at hleft
    cases p <;> first | rfl | cases hleft

/-- The initiator `p` of a fetch that fails before the first byte, and a second request. -/
def failTrace {Req : Type} (p q : Req) : List (Act Req Unit) :=
  [.lookup p, .lock p, .createTemp p, .srFetchOk p, .subscribe p, .check p, .lookup q, .lock q,
    .waitTemp q, .subscribe q, .check q]

/-- The handler of the initiator keeps its own `tx` while it waits: the worker is
gone, the entry is gone, and neither of the two waiting requests gets its 404. -/
theorem initiator_holds_sender :
    ∃ s : St (Fin 2) Unit, (machine fun _ => ()).Reachable s ∧ s.worker 0 = .ended ∧
      (s.tx 0).version = 0 ∧ s.entry () = none ∧ s.req 0 = .waiting 0 0 ∧ HoldsSender s 0 0 ∧
      s.req 1 = .waiting 0 0 ∧
      ∀ r, (step (fun _ => ()) s (.notFound r)).isNone = true := by
  exact Machine.reachable_of_run (M := machine fun _ : Fin 2 => ()) ⟨fun _ => false, rfl⟩
    ((failTrace 0 1).append [.fail 0, .dropGuard 0, .dropTx 0]) _ (by decide +kernel)

/-- The same fetch with the initiator cancelled before the worker ends. -/
theorem failed_fetch_releases_cancelled :
    ∃ s : St (Fin 2) Unit, (machine fun _ => ()).Reach InitiatorGone s ∧
      s.worker 0 = .ended ∧ s.req 1 = .waiting 0 0 ∧
      step (fun _ => ()) s (.notFound 1) = some (s.setReq 1 .done) := by
  obtain ⟨s, hs, hw, hv, he, hr, hc⟩ := Machine.reach_of_runIf (M := machine fun _ : Fin 2 => ())
    InitiatorGone ⟨fun _ => false, rfl⟩
    ((failTrace 0 1).append [.fail 0, .cancel 0, .dropGuard 0, .dropTx 0])
    (fun s => s.worker 0 = .ended ∧ (s.tx 0).version = 0 ∧ s.entry () ≠ some 0 ∧
      s.req 1 = .waiting 0 0 ∧ ∀ q, (s.req q).cloneOf ≠ some 0) (by decide +kernel)
  exact ⟨s, hs, hw, hr, (failed_fetch_releases hs hw hv he).2.1 1 0 hr hc⟩

/-! ## The temp file and its readers -/

/-- The second wait of a worker ends with no request on its way to a receiver:
every clone of the entry has been turned into one, the initiator's included. -/
def Settled (s : St Req Hash) (a : Act Req Hash) : Prop :=
  ∀ f, a = .closedAgain f → (∀ r, (s.req r).cloneOf ≠ some f) ∧ s.req f ≠ .spawned

instance (s : St Req Hash) (a : Act Req Hash) : Decidable (Settled s a) :=
  inferInstanceAs (Decidable (∀ _, _))

/-- No request has anything of flight `f`, or is about to subscribe to it. -/
structure Detached (s : St Req Hash) (f : Req) : Prop where
  clone : ∀ r, (s.req r).cloneOf ≠ some f
  receiver : ∀ r, (s.req r).receiverOf ≠ some f
  initiator : s.req f ≠ .spawned

omit [DecidableEq Req] [DecidableEq Hash] [Fintype Req] in
theorem Move.cloneOf {r f : Req} {p q : ReqPc Req} (h : Move hash s r p q)
    (hq : q.cloneOf = some f) : p.cloneOf = some f ∨ s.entry (hash r) = some f := by
  cases h with
  | attach he => exact .inr (he.trans hq)
  | waitTemp _ => exact .inl hq
  | _ => cases hq

omit [DecidableEq Req] [DecidableEq Hash] [Fintype Req] in
theorem Move.receiverOf {r f : Req} {p q : ReqPc Req} (h : Move hash s r p q)
    (hq : q.receiverOf = some f) :
    p.receiverOf = some f ∨ p.cloneOf = some f ∨ (p = .spawned ∧ r = f) := by
  cases h with
  | subscribe => exact .inr (.inl hq)
  | ownSubscribe => exact .inr (.inr ⟨rfl, Option.some.inj hq⟩)
  | wait | proceed | changed | openTemp _ => exact .inl hq
  | _ => cases hq

omit [Fintype Req] in
/-- A flight with a worker and without an entry gains no new readers. -/
theorem detached_step (hi : Inv hash s) (hs : Step hash s a s') {f : Req}
    (hw : s.worker f ≠ .unborn) (hne : s.entry (hash f) ≠ some f) (hd : Detached s f) :
    Detached s' f := by
  have hafter := (hi.born f hw).2
  refine ⟨?_, ?_, ?_⟩
  · intro r hr
    have hl := local_step hs r
    have hclone := hd.clone r
    generalize s.req r = p at *
    generalize s.worker r = w at *
    generalize s'.req r = p' at *
    generalize s'.worker r = w' at *
    cases hl with
    | move hm =>
        rcases hm.cloneOf hr with hp | he
        · exact hclone hp
        · exact hne ((hi.owned _ _ he).1 ▸ he)
    | insert _ _ | giveUp _ _ | createTemp _ | spawn => cases hr
    | _ => exact hclone hr
  · intro r hr
    have hl := local_step hs r
    have hclone := hd.clone r
    have hreceiver := hd.receiver r
    have hinit : s.req r = .spawned → r ≠ f := by
      rintro hsp rfl
      exact hd.initiator hsp
    generalize s.req r = p at *
    generalize s.worker r = w at *
    generalize s'.req r = p' at *
    generalize s'.worker r = w' at *
    cases hl with
    | move hm =>
        rcases hm.receiverOf hr with hp | hp | ⟨hp, rfl⟩
        · exact hreceiver hp
        · exact hclone hp
        · exact hinit hp rfl
    | insert _ _ | giveUp _ _ | createTemp _ | spawn => cases hr
    | _ => exact hreceiver hr
  · intro hsp
    have hl := local_step hs f
    have hinit := hd.initiator
    rw [hsp] at hl
    generalize s.req f = p at *
    generalize s.worker f = w at *
    generalize s'.worker f = w' at *
    cases hl with
    | move hm => cases hm
    | spawn => cases hafter
    | _ => exact hinit rfl

/-- From the import on, no request has anything of the flight; so none finds its
temp file gone. -/
structure TempInv (hash : Req → Hash) (s : St Req Hash) : Prop where
  base : Inv hash s
  detached : ∀ f, s.worker f = .importing ∨ s.tempGone f = true → Detached s f
  opened : ∀ r, s.req r ≠ .panicked

omit [Fintype Req] in
/-- A worker starts the import at the end of its second wait. -/
theorem importing_step (hs : Step hash s a s') {f : Req} (hf : s'.worker f = .importing) :
    s.worker f = .importing ∨
      (a = .closedAgain f ∧ s.worker f = .closingAgain ∧ ¬ Receiving s f) := by
  have hl := local_step hs f
  rw [hf] at hl
  generalize s.req f = p at *
  generalize s.worker f = w at *
  generalize s'.req f = p' at *
  cases hl with
  | workerMove hm =>
      cases hm with
      | closedAgain hrx => exact .inr ⟨rfl, rfl, hrx⟩
  | dropGuard _ hm _ => cases hm
  | remove hw _ => rcases hw with hw | hw <;> cases hw
  | _ => exact .inl rfl

omit [Fintype Req] in
theorem tempDetached_step (hi : TempInv hash s) (hok : Settled s a) (hs : Step hash s a s')
    (f : Req) (hf : s'.worker f = .importing ∨ s'.tempGone f = true) : Detached s' f := by
  have hb := hi.base
  have hpast : (s.worker f = .importing ∨ s.tempGone f = true) ∨
      (a = .closedAgain f ∧ s.worker f = .closingAgain ∧ ¬ Receiving s f) := by
    rcases hf with hf | hf
    · exact (importing_step hs hf).imp .inl id
    · exact .inl ((tempGone_step hs hf).elim .inr fun hw => .inl hw.1)
  rcases hpast with hpast | ⟨ha, hw, hrx⟩
  · refine detached_step hb hs ?_ (hb.removed f (.inr hpast)) (hi.detached f hpast)
    rcases hpast with hw | hgone
    · simp [hw]
    · intro hw
      have := hb.gone f hgone
      simp [hw, WorkerPc.afterLoop] at this
  · -- the second wait ends: no receiver is left, and by assumption none is coming
    refine detached_step hb hs (by simp [hw]) (hb.removed f (.inl hw)) ?_
    exact ⟨(hok f ha).1, fun r hr => hrx ⟨r, hr⟩, (hok f ha).2⟩

omit [Fintype Req] in
theorem opened_step (hi : TempInv hash s) (hs : Step hash s a s') (r : Req) :
    s'.req r ≠ .panicked := by
  intro hr
  have hl := local_step hs r
  have hopened := hi.opened r
  rw [hr] at hl
  cases hpc : s.req r with
  | responded f =>
      rw [hpc] at hl
      generalize s.worker r = w at *
      generalize s'.worker r = w' at *
      cases hl with
      | move hm =>
          cases hm with
          | openGone hgone =>
              exact (hi.detached f (.inr hgone)).receiver r (by simp [hpc, ReqPc.receiverOf])
  | _ =>
      rw [hpc] at hl hopened
      generalize s.worker r = w at *
      generalize s'.worker r = w' at *
      cases hl with
      | move hm => cases hm
      | _ => exact hopened rfl

theorem tempInv_of_reach (h : (machine hash).Reach Settled s) : TempInv hash s := by
  refine Machine.Reach.invariant ?_ ?_ h
  · rintro s ⟨cached, rfl⟩
    exact ⟨init_inv cached, by simp [start], by simp [start]⟩
  · intro s a s' hi hok hs
    have hs := step_cases hs
    exact ⟨step_inv hi.base hs, tempDetached_step hi hok hs, opened_step hi hs⟩

/-- In every run whose second waits end settled: a body stream that opens the temp
file of its download finds it there. -/
theorem temp_outlives_readers (h : (machine hash).Reach Settled s) :
    (∀ r, s.req r ≠ .panicked) ∧
    ∀ r f, s.req r = .responded f → s.tempGone f = false ∧
      step hash s (.openTemp r) = some (s.setReq r (.streaming f)) := by
  have hi := tempInv_of_reach h
  refine ⟨hi.opened, ?_⟩
  intro r f hr
  have hthere : s.tempGone f = false := by
    by_contra hgone
    refine (hi.detached f (.inr (by simpa using hgone))).receiver r ?_
    simp [hr, ReqPc.receiverOf]
  exact ⟨hthere, by simp [step, reqStep, hr, hthere]⟩

/-- Request 1 clones the entry, but subscribes only after the worker has waited
twice and moved the temp file: its body stream does not find the file. -/
theorem temp_moved_before_open :
    ∃ s : St (Fin 2) Unit, (machine fun _ => ()).Reachable s ∧
      s.req 1 = .responded 0 ∧ s.tempGone 0 = true ∧
      step (fun _ => ()) s (.openTemp 1) = some (s.setReq 1 .panicked) := by
  obtain ⟨s, hs, hr, hgone⟩ := Machine.reachable_of_run (M := machine fun _ : Fin 2 => ())
    ⟨fun _ => false, rfl⟩
    [.lookup 0, .lock 0, .createTemp 0, .srFetchOk 0, .subscribe 0, .check 0, .lookup 1, .lock 1,
      .complete 0 5, .changed 0, .openTemp 0, .finish 0, .closed 0, .remove 0 true, .closedAgain 0,
      .imported 0 .renamed, .waitTemp 1, .subscribe 1, .check 1]
    (fun s => s.req 1 = .responded 0 ∧ s.tempGone 0 = true) (by decide +kernel)
  exact ⟨s, hs, hr, hgone, by simp [step, reqStep, hr, hgone]⟩

/-- After the import of flight 0, request 1 opens the temp file of its own flight. -/
theorem temp_outlives_readers_second :
    ∃ s : St (Fin 3) Unit, (machine fun _ => ()).Reach Settled s ∧
      s.tempGone 0 = true ∧ s.req 1 = .responded 1 ∧
      step (fun _ => ()) s (.openTemp 1) = some (s.setReq 1 (.streaming 1)) := by
  obtain ⟨s, hs, hgone, hr⟩ := Machine.reach_of_runIf (M := machine fun _ : Fin 3 => ())
    Settled ⟨fun _ => false, rfl⟩
    (soloTrace.append [.lookup 1, .closedAgain 0, .imported 0 .renamed, .dropGuard 0, .dropTx 0,
      .lock 1, .createTemp 1, .srFetchOk 1, .subscribe 1, .publish 1 3, .check 1])
    (fun s => s.tempGone 0 = true ∧ s.req 1 = .responded 1) (by decide +kernel)
  exact ⟨s, hs, hgone, hr, ((temp_outlives_readers hs).2 1 1 hr).2⟩

/-! ## The worker of a flight is the download worker -/

/-- The phase of a flight's worker that a point of the download worker lies in. -/
def WorkerPc.ofPc : Worker.Pc → WorkerPc
  | .opening | .requesting | .streaming | .writing _ | .publishing | .flushing => .fetching
  | .closing => .closing
  | .removing => .removing
  | .closingAgain => .closingAgain
  | .importing => .importing
  | .ended | .noSource | .sliceOutOfBounds => .returning

/-- The worker of `f` stands where `w` stands and has published what `w` has. -/
structure Tracks (s : St Req Hash) (f : Req) (w : Worker.St) : Prop where
  pc : s.worker f = .ofPc w.pc
  tx : s.tx f = w.tx

variable {sha1 : Bytes → Digest} {info : CacheFileInfo} {sources : Nat} {w w' : Worker.St}
  {e : Worker.Event} {f : Req}

omit [DecidableEq Hash] [Fintype Req] in
/-- Both workers move on to the same phase and publish nothing. -/
theorem tracks_setWorker {pc : Worker.Pc} {phase : WorkerPc} (ht : Tracks s f w)
    (hphase : phase = .ofPc pc) : Tracks (s.setWorker f phase) f { w with pc := pc } := by
  refine ⟨?_, ht.tx⟩
  simp [hphase]

/-- A step of the download worker that stays in the retry loop or leaves it for good
and publishes nothing. -/
theorem tracks_quiet (ht : Tracks s f w) (hpc : WorkerPc.ofPc w.pc = .fetching)
    (hw' : WorkerPc.ofPc w'.pc = .fetching ∨ WorkerPc.ofPc w'.pc = .returning)
    (htx : w'.tx = w.tx) : Tracks s f w' ∨ ∃ a s', step hash s a = some s' ∧ Tracks s' f w' := by
  have hworker := ht.pc.trans hpc
  rcases hw' with hw' | hw'
  · exact .inl ⟨hworker.trans hw'.symm, ht.tx.trans htx.symm⟩
  · refine .inr ⟨.fail f, s.setWorker f .returning, by simp [step, workerStep, hworker], ?_, ?_⟩
    · simp [hw']
    · simp [ht.tx, htx]

theorem nextAttempt_phase (w : Worker.St) :
    (WorkerPc.ofPc (Worker.nextAttempt w).pc = .fetching ∨
      WorkerPc.ofPc (Worker.nextAttempt w).pc = .returning) ∧
    (Worker.nextAttempt w).tx = w.tx := by
  unfold Worker.nextAttempt
  split
  · exact ⟨.inl rfl, rfl⟩
  · exact ⟨.inr rfl, rfl⟩

/-- Every step of the download worker is a step of the worker of its flight, or does
not show there; its two waits end when no receiver is left. -/
theorem worker_step_simulated (hi : Worker.Inv sha1 info w) (ht : Tracks s f w)
    (hs : Worker.step sha1 info sources w e = some w')
    (hclosed : e = .closed ∨ e = .closedAgain → ¬ Receiving s f) :
    Tracks s f w' ∨ ∃ a s', step hash s a = some s' ∧ Tracks s' f w' := by
  cases e with
  | openFail | seekFail | streamErr =>
      simp only [Worker.step, Option.ite_none_right_eq_some, Option.some.injEq] at hs
      rcases hs with ⟨hpc, rfl⟩
      exact tracks_quiet ht (by rw [hpc]; rfl) (nextAttempt_phase _).1 (nextAttempt_phase _).2
  | opened =>
      simp only [Worker.step, Option.ite_none_right_eq_some, Option.some.injEq] at hs
      rcases hs with ⟨hpc, rfl⟩
      exact tracks_quiet ht (by rw [hpc]; rfl) (.inl rfl) rfl
  | requestFail _ | requestOk =>
      simp only [Worker.step, Option.ite_none_right_eq_some, Option.some.injEq] at hs
      rcases hs with ⟨hpc, rfl⟩
      unfold Worker.onRequest
      split_ifs
      all_goals
        first
          | exact tracks_quiet ht (by rw [hpc]; rfl) (.inr rfl) rfl
          | exact tracks_quiet ht (by rw [hpc]; rfl) (.inl rfl) rfl
          | exact tracks_quiet ht (by rw [hpc]; rfl) (nextAttempt_phase _).1 (nextAttempt_phase _).2
  | chunk bytes =>
      simp only [Worker.step, Option.ite_none_right_eq_some, Option.some.injEq] at hs
      rcases hs with ⟨hpc, rfl⟩
      unfold Worker.onChunk
      dsimp only
      split_ifs
      · exact tracks_quiet ht (by rw [hpc]; rfl) (.inl (by simp only [hpc]; rfl)) rfl
      · exact tracks_quiet ht (by rw [hpc]; rfl) (.inl rfl) rfl
      · exact tracks_quiet ht (by rw [hpc]; rfl) (.inr rfl) rfl
  | streamEnd =>
      simp only [Worker.step, Option.ite_none_right_eq_some, Option.some.injEq] at hs
      rcases hs with ⟨hpc, rfl⟩
      split
      · exact tracks_quiet ht (by rw [hpc]; rfl) (.inl rfl) rfl
      · exact tracks_quiet ht (by rw [hpc]; rfl) (nextAttempt_phase _).1 (nextAttempt_phase _).2
  | writeOk =>
      simp only [Worker.step] at hs
      split at hs
      · rename_i data hpc
        obtain rfl := Option.some.inj hs
        exact tracks_quiet ht (by rw [hpc]; rfl) (.inl rfl) rfl
      · cases hs
  | writeErr n =>
      simp only [Worker.step] at hs
      split at hs
      · rename_i data hpc
        obtain rfl := Option.some.inj hs
        exact tracks_quiet ht (by rw [hpc]; rfl) (.inr rfl) rfl
      · cases hs
  | flushFail =>
      simp only [Worker.step, Option.ite_none_right_eq_some, Option.some.injEq] at hs
      rcases hs with ⟨hpc, rfl⟩
      exact tracks_quiet ht (by rw [hpc]; rfl) (.inr rfl) rfl
  | publish =>
      simp only [Worker.step, Option.ite_none_right_eq_some, Option.some.injEq] at hs
      rcases hs with ⟨hpc, rfl⟩
      have hworker : s.worker f = .fetching := by rw [ht.pc, hpc]; rfl
      refine .inr ⟨.publish f w.progress, _, if_pos ⟨hworker, hi.moved hpc⟩, ?_, ?_⟩
      · exact hworker
      · simp [ht.tx]
  | flushOk =>
      simp only [Worker.step, Option.ite_none_right_eq_some, Option.some.injEq] at hs
      rcases hs with ⟨hpc, rfl⟩
      have hworker : s.worker f = .fetching := by rw [ht.pc, hpc]; rfl
      refine .inr ⟨.complete f w.progress, _, if_pos hworker, ?_, ?_⟩
      · simp [WorkerPc.ofPc]
      · simp [ht.tx]
  | closed =>
      simp only [Worker.step, Option.ite_none_right_eq_some, Option.some.injEq] at hs
      rcases hs with ⟨hpc, rfl⟩
      have hworker : s.worker f = .closing := by rw [ht.pc, hpc]; rfl
      exact .inr ⟨.closed f, _, if_pos ⟨hworker, hclosed (.inl rfl)⟩, tracks_setWorker ht rfl⟩
  | remove =>
      simp only [Worker.step, Option.ite_none_right_eq_some, Option.some.injEq] at hs
      rcases hs with ⟨hpc, rfl⟩
      have hworker : s.worker f = .removing := by rw [ht.pc, hpc]; rfl
      have hentry : Tracks (s.setEntry (hash f) none) f w := ⟨ht.pc, ht.tx⟩
      by_cases hhash : sha1 w.hasher = info.hash
      · rw [if_pos hhash]
        exact .inr ⟨.remove f true, _, if_pos hworker, tracks_setWorker hentry rfl⟩
      · rw [if_neg hhash]
        exact .inr ⟨.remove f false, _, if_pos hworker, tracks_setWorker hentry rfl⟩
  | closedAgain =>
      simp only [Worker.step, Option.ite_none_right_eq_some, Option.some.injEq] at hs
      rcases hs with ⟨hpc, rfl⟩
      have hworker : s.worker f = .closingAgain := by rw [ht.pc, hpc]; rfl
      exact .inr ⟨.closedAgain f, _, if_pos ⟨hworker, hclosed (.inr rfl)⟩, tracks_setWorker ht rfl⟩
  | imported =>
      simp only [Worker.step, Option.ite_none_right_eq_some, Option.some.injEq] at hs
      rcases hs with ⟨hpc, rfl⟩
      have hworker : s.worker f = .importing := by rw [ht.pc, hpc]; rfl
      refine .inr ⟨.imported f .renamed, _, if_pos hworker, tracks_setWorker ?_ rfl⟩
      exact ⟨ht.pc, ht.tx⟩

end

end Hath.Flight
