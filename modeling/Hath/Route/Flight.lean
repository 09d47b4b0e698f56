import Mathlib.Data.Fintype.Basic
import Mathlib.Logic.Function.Basic
import Hath.Lib.Machine
import Hath.Lib.Watch

/-!
# Hath.Route.Flight — requests, workers and `download_state`

On a cache miss `hath` either attaches to a running download of the same hash or
starts one: it inserts an entry into `download_state`, publishes a temp file,
asks the server for sources and spawns the worker. A *flight* is one such
download; it is named by the request that inserted its entry.

The machine below interleaves any number of requests and workers over any number
of hashes. One action is one piece of code between two points where another task
can run: an await, a locked section of `download_state`, the drop of a value that
others can see. What is shared is

* `entry` — `download_state`: the flight registered under a hash;
* `published` — the temp path has been sent on the flight's first channel;
* `tx` — the flight's progress channel;
* `tempGone` — `import_cache` has renamed the flight's temp file away;
* `cached` — `get_file` finds the file.

Who holds a sender or a receiver of a flight's progress channel, and who holds its
clean-up guard, is read off the program counters (`SenderAlive`, `Receiving`,
`GuardLive`). The contents of the temp file and the reads of a body stream are the
subject of `Worker` and `Proxied`; what follows from the invariant for whole runs is
in `FlightSafety`.
-/

namespace Hath.Flight

open Lib

section

variable {Req Hash : Type}

/-! ## State -/

/-- Where a request stands. `f` is the flight it is attached to, `seen` what its
progress receiver has seen. -/
inductive ReqPc (Req : Type) where
  /-- Not arrived, or still in `get_file`. -/
  | idle
  /-- Cache miss; about to lock `download_state`. -/
  | missed
  /-- Cloned the entry of `f`, in `tempfile.wait_for(Option::is_some)`. -/
  | attached (f : Req)
  /-- Has the temp path of `f`, not subscribed yet. -/
  | located (f : Req)
  /-- Inserted its entry, holds the guard, in `create_temp_file`. -/
  | creating
  /-- Temp path published, holds the guard, in `sr_fetch`. -/
  | fetching
  /-- Worker spawned and the guard moved into it, not subscribed yet. -/
  | spawned
  /-- Subscribed, about to look at the progress. -/
  | checking (f : Req) (seen : Nat)
  /-- Blocked in `rx.changed()`. -/
  | waiting (f : Req) (seen : Nat)
  /-- Response returned; the body stream has not opened the temp file yet. -/
  | responded (f : Req)
  /-- The body stream has opened the temp file. -/
  | streaming (f : Req)
  /-- `File::open(temp_path).await.unwrap()` failed. -/
  | panicked
  /-- The guard of a cancelled or rejected initiator has been dropped, its
  channel ends have not. -/
  | unwinding
  | done
deriving DecidableEq

/-- Where the worker of a flight stands. -/
inductive WorkerPc where
  /-- Not spawned. -/
  | unborn
  /-- In the retry loop. -/
  | fetching
  /-- First `tx2.closed()`. -/
  | closing
  /-- About to remove the entry. -/
  | removing
  /-- Second `tx2.closed()`. -/
  | closingAgain
  /-- In `import_cache`. -/
  | importing
  /-- Done; its captured values are about to be dropped. -/
  | returning
  /-- The guard is dropped, `tx2` is not. -/
  | guardDropped
  /-- `tx2` is dropped, the guard is not. -/
  | txDropped
  | ended
deriving DecidableEq

/-- What `import_cache` did to the temp file. -/
inductive ImportOutcome where
  | renamed
  | copied
  | failed
deriving DecidableEq

structure St (Req Hash : Type) where
  entry : Hash → Option Req
  req : Req → ReqPc Req
  worker : Req → WorkerPc
  published : Req → Bool
  tx : Req → Watch Nat
  tempGone : Req → Bool
  cached : Hash → Bool

/-- The actions of requests `r`, of workers of flight `f` and of the cache. -/
inductive Act (Req Hash : Type) where
  | lookup (r : Req)
  | lock (r : Req)
  | waitTemp (r : Req)
  | waitTempErr (r : Req)
  | createTemp (r : Req)
  | srFetchNone (r : Req)
  | srFetchOk (r : Req)
  | subscribe (r : Req)
  | check (r : Req)
  | changed (r : Req)
  | notFound (r : Req)
  | openTemp (r : Req)
  | finish (r : Req)
  | cancel (r : Req)
  | unwound (r : Req)
  | publish (f : Req) (progress : Nat)
  | complete (f : Req) (progress : Nat)
  | fail (f : Req)
  | closed (f : Req)
  | remove (f : Req) (hashOk : Bool)
  | closedAgain (f : Req)
  | imported (f : Req) (outcome : ImportOutcome)
  | dropGuard (f : Req)
  | dropTx (f : Req)
  | evict (h : Hash)
deriving DecidableEq

/-! ## Who holds what -/

/-- The handler future exists, so its local `tx` and `temp_tx` do. -/
def ReqPc.inHandler : ReqPc Req → Bool
  | .missed | .attached _ | .located _ | .creating | .fetching | .spawned
  | .checking _ _ | .waiting _ _ | .unwinding => true
  | _ => false

/-- The flight whose entry the request has cloned and not given up yet. -/
def ReqPc.cloneOf : ReqPc Req → Option Req
  | .attached f | .located f => some f
  | _ => none

/-- The flight whose progress the request has a receiver of. -/
def ReqPc.receiverOf : ReqPc Req → Option Req
  | .checking f _ | .waiting f _ | .responded f | .streaming f => some f
  | _ => none

/-- The request owns the guard of its own flight. -/
def ReqPc.ownsGuard : ReqPc Req → Bool
  | .creating | .fetching => true
  | _ => false

def WorkerPc.ownsGuard : WorkerPc → Bool
  | .fetching | .closing | .removing | .closingAgain | .importing | .returning
  | .txDropped => true
  | _ => false

def WorkerPc.holdsTx : WorkerPc → Bool
  | .fetching | .closing | .removing | .closingAgain | .importing | .returning
  | .guardDropped => true
  | _ => false

/-- The guard that removes the entry of flight `f` has not been dropped. -/
def GuardLive (s : St Req Hash) (f : Req) : Prop :=
  (s.req f).ownsGuard = true ∨ (s.worker f).ownsGuard = true

/-- Request `r` holds a sender of the progress channel of flight `f`: the
initiator its local `tx`, an attached request the cloned entry. -/
def HoldsSender (s : St Req Hash) (r f : Req) : Prop :=
  (r = f ∧ (s.req f).inHandler = true) ∨ (s.req r).cloneOf = some f

/-- Some request has a receiver of the progress channel of `f`. -/
def Receiving (s : St Req Hash) (f : Req) : Prop := ∃ r, (s.req r).receiverOf = some f

variable (hash : Req → Hash)

/-- Some sender of the progress channel of `f` is left: in a request, in the map
or in the worker. -/
def SenderAlive (s : St Req Hash) (f : Req) : Prop :=
  (∃ r, HoldsSender s r f) ∨ s.entry (hash f) = some f ∨ (s.worker f).holdsTx = true

variable [DecidableEq Req] [DecidableEq Hash] [Fintype Req]

instance (s : St Req Hash) (f : Req) : Decidable (GuardLive s f) :=
  inferInstanceAs (Decidable (_ ∨ _))

instance (s : St Req Hash) (r f : Req) : Decidable (HoldsSender s r f) :=
  inferInstanceAs (Decidable (_ ∨ _))

instance (s : St Req Hash) (f : Req) : Decidable (Receiving s f) :=
  inferInstanceAs (Decidable (∃ _, _))

instance (s : St Req Hash) (f : Req) : Decidable (SenderAlive hash s f) :=
  inferInstanceAs (Decidable (_ ∨ _ ∨ _))

/-! ## Steps -/

/-- Move request `r`. -/
@[simp] def St.setReq (s : St Req Hash) (r : Req) (pc : ReqPc Req) : St Req Hash :=
  { s with req := Function.update s.req r pc }

/-- Move the worker of `f`. -/
@[simp] def St.setWorker (s : St Req Hash) (f : Req) (pc : WorkerPc) : St Req Hash :=
  { s with worker := Function.update s.worker f pc }

/-- Write the map slot of a hash. -/
@[simp] def St.setEntry (s : St Req Hash) (h : Hash) (e : Option Req) : St Req Hash :=
  { s with entry := Function.update s.entry h e }

/-- The locked section: clone the entry of the hash, or insert one. -/
def lockStep (s : St Req Hash) (r : Req) : St Req Hash :=
  match s.entry (hash r) with
  | some f => s.setReq r (.attached f)
  | none => (s.setEntry (hash r) (some r)).setReq r .creating

/-- Dropping the future of a request at an await. An initiator that still has the
guard removes the entry first, whatever flight it is of. -/
def cancelStep (s : St Req Hash) (r : Req) : Option (St Req Hash) :=
  match s.req r with
  | .creating | .fetching => some ((s.setEntry (hash r) none).setReq r .unwinding)
  | .attached _ | .waiting _ _ | .responded _ | .streaming _ => some (s.setReq r .done)
  | _ => none

/-- Steps of a request. -/
def reqStep (s : St Req Hash) (r : Req) : Act Req Hash → Option (St Req Hash)
  | .lookup _ =>
      if s.req r = .idle then some (s.setReq r (if s.cached (hash r) then .done else .missed))
      else none
  | .lock _ => if s.req r = .missed then some (lockStep hash s r) else none
  | .waitTemp _ =>
      -- `wait_for(Option::is_some)`
      match s.req r with
      | .attached f => if s.published f then some (s.setReq r (.located f)) else none
      | _ => none
  | .waitTempErr _ =>
      -- `temp_tx` is dropped with nothing published: remove the entry, answer 404
      match s.req r with
      | .attached f =>
          if s.published f = false ∧ (s.req f).inHandler = false then
            some ((s.setEntry (hash r) none).setReq r .done)
          else none
      | _ => none
  | .createTemp _ =>
      if s.req r = .creating then
        some ({ s with published := Function.update s.published r true }.setReq r .fetching)
      else none
  | .srFetchNone _ =>
      -- the early return runs the guard, the rest of the handler is dropped after it
      if s.req r = .fetching then some ((s.setEntry (hash r) none).setReq r .unwinding)
      else none
  | .srFetchOk _ =>
      -- the guard moves into the worker
      if s.req r = .fetching then some ((s.setWorker r .fetching).setReq r .spawned) else none
  | .subscribe _ =>
      match s.req r with
      | .located f => some (s.setReq r (.checking f (s.tx f).subscribe))
      | .spawned => some (s.setReq r (.checking r (s.tx r).subscribe))
      | _ => none
  | .check _ =>
      match s.req r with
      | .checking f seen =>
          some (s.setReq r (if (s.tx f).value = 0 then .waiting f seen else .responded f))
      | _ => none
  | .changed _ =>
      match s.req r with
      | .waiting f seen =>
          if (s.tx f).Unseen seen then some (s.setReq r (.responded f)) else none
      | _ => none
  | .notFound _ =>
      -- `changed()` fails only once every sender is gone and nothing is unseen
      match s.req r with
      | .waiting f seen =>
          if ¬ (s.tx f).Unseen seen ∧ ¬ SenderAlive hash s f then some (s.setReq r .done)
          else none
      | _ => none
  | .openTemp _ =>
      -- `File::open(..).await.unwrap()`
      match s.req r with
      | .responded f => some (s.setReq r (if s.tempGone f then .panicked else .streaming f))
      | _ => none
  | .finish _ =>
      match s.req r with
      | .streaming _ => some (s.setReq r .done)
      | _ => none
  | .cancel _ => cancelStep hash s r
  | .unwound _ => if s.req r = .unwinding then some (s.setReq r .done) else none
  | _ => none

/-- Steps of the worker of `f`. -/
def workerStep (s : St Req Hash) (f : Req) : Act Req Hash → Option (St Req Hash)
  | .publish _ progress =>
      if s.worker f = .fetching ∧ 0 < progress then
        some { s with tx := Function.update s.tx f ((s.tx f).send progress) }
      else none
  | .complete _ progress =>
      if s.worker f = .fetching then
        some ({ s with tx := Function.update s.tx f ((s.tx f).send progress) }.setWorker f .closing)
      else none
  | .fail _ => if s.worker f = .fetching then some (s.setWorker f .returning) else none
  | .closed _ =>
      if s.worker f = .closing ∧ ¬ Receiving s f then some (s.setWorker f .removing) else none
  | .remove _ hashOk =>
      -- by hash as well; a wrong hash of the content ends the worker here
      if s.worker f = .removing then
        some ((s.setEntry (hash f) none).setWorker f (if hashOk then .closingAgain else .returning))
      else none
  | .closedAgain _ =>
      if s.worker f = .closingAgain ∧ ¬ Receiving s f then some (s.setWorker f .importing)
      else none
  | .imported _ outcome =>
      if s.worker f = .importing then
        some ({ s with
          tempGone := Function.update s.tempGone f (decide (outcome = ImportOutcome.renamed))
          cached := Function.update s.cached (hash f)
            (s.cached (hash f) || decide (outcome ≠ ImportOutcome.failed)) }.setWorker f .returning)
      else none
  | .dropGuard _ =>
      -- `remove(&hash)`, whatever flight the entry is of by now
      if s.worker f = .returning then
        some ((s.setEntry (hash f) none).setWorker f .guardDropped)
      else if s.worker f = .txDropped then some ((s.setEntry (hash f) none).setWorker f .ended)
      else none
  | .dropTx _ =>
      if s.worker f = .returning then some (s.setWorker f .txDropped)
      else if s.worker f = .guardDropped then some (s.setWorker f .ended)
      else none
  | _ => none

/-- One step of the system. -/
def step (s : St Req Hash) (a : Act Req Hash) : Option (St Req Hash) :=
  match a with
  | .lookup r | .lock r | .waitTemp r | .waitTempErr r | .createTemp r | .srFetchNone r
  | .srFetchOk r | .subscribe r | .check r | .changed r | .notFound r | .openTemp r
  | .finish r | .cancel r | .unwound r => reqStep hash s r a
  | .publish f _ | .complete f _ | .fail f | .closed f | .remove f _ | .closedAgain f
  | .imported f _ | .dropGuard f | .dropTx f => workerStep hash s f a
  | .evict h => some { s with cached := Function.update s.cached h false }

/-- No request has arrived; the cache holds anything. -/
def start (cached : Hash → Bool) : St Req Hash where
  entry _ := none
  req _ := .idle
  worker _ := .unborn
  published _ := false
  tx _ := Watch.channel 0
  tempGone _ := false
  cached := cached

def machine : Machine (St Req Hash) (Act Req Hash) where
  init s := ∃ cached, s = start cached
  step := step hash

/-! ## What one step can do

`Step` sorts the enabled steps by their effect on the shared state: most actions
only move one program counter (`Move`, `WorkerMove`), a few write the map or a
channel. Every proof below goes through `step_cases`. -/

variable {hash}

/-- Moves of a request that write nothing shared. -/
inductive Move (hash : Req → Hash) (s : St Req Hash) (r : Req) : ReqPc Req → ReqPc Req → Prop where
  | hit : Move hash s r .idle .done
  | miss : Move hash s r .idle .missed
  | attach {f : Req} : s.entry (hash r) = some f → Move hash s r .missed (.attached f)
  | waitTemp {f : Req} : s.published f = true → Move hash s r (.attached f) (.located f)
  | subscribe {f : Req} : Move hash s r (.located f) (.checking f (s.tx f).version)
  | ownSubscribe : Move hash s r .spawned (.checking r (s.tx r).version)
  | wait {f : Req} {seen : Nat} : Move hash s r (.checking f seen) (.waiting f seen)
  | proceed {f : Req} {seen : Nat} : Move hash s r (.checking f seen) (.responded f)
  | changed {f : Req} {seen : Nat} : Move hash s r (.waiting f seen) (.responded f)
  | openTemp {f : Req} : s.tempGone f = false → Move hash s r (.responded f) (.streaming f)
  | openGone {f : Req} : s.tempGone f = true → Move hash s r (.responded f) .panicked
  | leaveAttached {f : Req} : Move hash s r (.attached f) .done
  | leaveWaiting {f : Req} {seen : Nat} : Move hash s r (.waiting f seen) .done
  | leaveResponded {f : Req} : Move hash s r (.responded f) .done
  | leaveStreaming {f : Req} : Move hash s r (.streaming f) .done
  | unwound : Move hash s r .unwinding .done

/-- Moves of a worker that write nothing shared. -/
inductive WorkerMove (s : St Req Hash) (f : Req) : Act Req Hash → WorkerPc → WorkerPc → Prop where
  | fail : WorkerMove s f (.fail f) .fetching .returning
  | closed : ¬ Receiving s f → WorkerMove s f (.closed f) .closing .removing
  | closedAgain : ¬ Receiving s f → WorkerMove s f (.closedAgain f) .closingAgain .importing
  | dropTx : WorkerMove s f (.dropTx f) .returning .txDropped
  | dropTxLast : WorkerMove s f (.dropTx f) .guardDropped .ended

/-- The two places from which a worker's guard is dropped. -/
inductive GuardMove : WorkerPc → WorkerPc → Prop where
  | first : GuardMove .returning .guardDropped
  | last : GuardMove .txDropped .ended

inductive Step (hash : Req → Hash) (s : St Req Hash) : Act Req Hash → St Req Hash → Prop where
  | move {a : Act Req Hash} {r : Req} {q : ReqPc Req} :
      Move hash s r (s.req r) q → Step hash s a (s.setReq r q)
  | insert {r : Req} : s.req r = .missed → s.entry (hash r) = none →
      Step hash s (.lock r) ((s.setEntry (hash r) (some r)).setReq r .creating)
  | giveUp {a : Act Req Hash} {r : Req} : a = .srFetchNone r ∨ a = .cancel r →
      (s.req r).ownsGuard = true →
      Step hash s a ((s.setEntry (hash r) none).setReq r .unwinding)
  | sweep {r f : Req} : s.req r = .attached f → s.published f = false →
      Step hash s (.waitTempErr r) ((s.setEntry (hash r) none).setReq r .done)
  | createTemp {r : Req} : s.req r = .creating →
      Step hash s (.createTemp r)
        ({ s with published := Function.update s.published r true }.setReq r .fetching)
  | spawn {r : Req} : s.req r = .fetching →
      Step hash s (.srFetchOk r) ((s.setWorker r .fetching).setReq r .spawned)
  | workerMove {a : Act Req Hash} {f : Req} {q : WorkerPc} :
      WorkerMove s f a (s.worker f) q → Step hash s a (s.setWorker f q)
  | remove {f : Req} (hashOk : Bool) : s.worker f = .removing →
      Step hash s (.remove f hashOk)
        ((s.setEntry (hash f) none).setWorker f (if hashOk then .closingAgain else .returning))
  | dropGuard {f : Req} {q : WorkerPc} : GuardMove (s.worker f) q →
      Step hash s (.dropGuard f) ((s.setEntry (hash f) none).setWorker f q)
  | publish {f : Req} {progress : Nat} : s.worker f = .fetching →
      Step hash s (.publish f progress)
        { s with tx := Function.update s.tx f ((s.tx f).send progress) }
  | complete {f : Req} {progress : Nat} : s.worker f = .fetching →
      Step hash s (.complete f progress)
        ({ s with tx := Function.update s.tx f ((s.tx f).send progress) }.setWorker f .closing)
  | imported {f : Req} (gone : Bool) (cached : Hash → Bool) {a : Act Req Hash} :
      s.worker f = .importing →
      Step hash s a
        ({ s with tempGone := Function.update s.tempGone f gone, cached := cached }.setWorker f
          .returning)
  | evict {a : Act Req Hash} (cached : Hash → Bool) : Step hash s a { s with cached := cached }

/-- What a step is about. -/
inductive Kind where
  /-- A request and the entry of its hash. -/
  | entry
  /-- A request and the download it follows. -/
  | follow
  | worker
  | evict

def Act.kind : Act Req Hash → Kind
  | .lookup _ | .lock _ | .createTemp _ | .srFetchNone _ | .srFetchOk _ | .cancel _
  | .unwound _ => .entry
  | .waitTemp _ | .waitTempErr _ | .subscribe _ | .check _ | .changed _ | .notFound _
  | .openTemp _ | .finish _ => .follow
  | .publish _ _ | .complete _ _ | .fail _ | .closed _ | .remove _ _ | .closedAgain _
  | .imported _ _ | .dropGuard _ | .dropTx _ => .worker
  | .evict _ => .evict

variable {s s' : St Req Hash} {a : Act Req Hash}

omit [Fintype Req] in
/-- A cancelled request gives up its entry, or leaves from where it waits. -/
theorem cancel_cases {r : Req} (hs : cancelStep hash s r = some s') :
    Step hash s (.cancel r) s' := by
  unfold cancelStep at hs
  split at hs
  · rename_i hpc
    obtain rfl := Option.some.inj hs
    exact .giveUp (.inr rfl) (by simp [hpc, ReqPc.ownsGuard])
  · rename_i hpc
    obtain rfl := Option.some.inj hs
    exact .giveUp (.inr rfl) (by simp [hpc, ReqPc.ownsGuard])
  · rename_i hpc
    obtain rfl := Option.some.inj hs
    exact .move (hpc ▸ .leaveAttached)
  · rename_i hpc
    obtain rfl := Option.some.inj hs
    exact .move (hpc ▸ .leaveWaiting)
  · rename_i hpc
    obtain rfl := Option.some.inj hs
    exact .move (hpc ▸ .leaveResponded)
  · rename_i hpc
    obtain rfl := Option.some.inj hs
    exact .move (hpc ▸ .leaveStreaming)
  · cases hs

/-- A request that looks for its file, makes the entry and fetches, or gives it up. -/
theorem entry_cases (hkind : a.kind = .entry) (hs : step hash s a = some s') :
    Step hash s a s' := by
  cases a with
  | lookup r =>
      simp only [step, reqStep, Option.ite_none_right_eq_some, Option.some.injEq] at hs
      rcases hs with ⟨hpc, rfl⟩
      refine .move ?_
      rw [hpc]
      split
      · exact .hit
      · exact .miss
  | lock r =>
      simp only [step, reqStep, Option.ite_none_right_eq_some, Option.some.injEq] at hs
      rcases hs with ⟨hpc, rfl⟩
      unfold lockStep
      split
      · rename_i f hf
        exact .move (hpc ▸ .attach hf)
      · rename_i hf
        exact .insert hpc hf
  | createTemp r =>
      simp only [step, reqStep, Option.ite_none_right_eq_some, Option.some.injEq] at hs
      rcases hs with ⟨hpc, rfl⟩
      exact .createTemp hpc
  | srFetchNone r =>
      simp only [step, reqStep, Option.ite_none_right_eq_some, Option.some.injEq] at hs
      rcases hs with ⟨hpc, rfl⟩
      exact .giveUp (.inl rfl) (by simp [hpc, ReqPc.ownsGuard])
  | srFetchOk r =>
      simp only [step, reqStep, Option.ite_none_right_eq_some, Option.some.injEq] at hs
      rcases hs with ⟨hpc, rfl⟩
      exact .spawn hpc
  | cancel r =>
      exact cancel_cases hs
  | unwound r =>
      simp only [step, reqStep, Option.ite_none_right_eq_some, Option.some.injEq] at hs
      rcases hs with ⟨hpc, rfl⟩
      exact .move (hpc ▸ .unwound)
  | _ => cases hkind

/-- A request that waits for a download and follows it. -/
theorem follow_cases (hkind : a.kind = .follow) (hs : step hash s a = some s') :
    Step hash s a s' := by
  cases a with
  | waitTemp r =>
      simp only [step, reqStep] at hs
      split at hs
      · rename_i f hpc
        simp only [Option.ite_none_right_eq_some, Option.some.injEq] at hs
        rcases hs with ⟨hpub, rfl⟩
        exact .move (hpc ▸ .waitTemp hpub)
      · cases hs
  | waitTempErr r =>
      simp only [step, reqStep] at hs
      split at hs
      · rename_i f hpc
        simp only [Option.ite_none_right_eq_some, Option.some.injEq] at hs
        rcases hs with ⟨⟨hpub, -⟩, rfl⟩
        exact .sweep hpc hpub
      · cases hs
  | subscribe r =>
      simp only [step, reqStep] at hs
      split at hs
      · rename_i f hpc
        obtain rfl := Option.some.inj hs
        exact .move (hpc ▸ .subscribe)
      · rename_i hpc
        obtain rfl := Option.some.inj hs
        exact .move (hpc ▸ .ownSubscribe)
      · cases hs
  | check r =>
      simp only [step, reqStep] at hs
      split at hs
      · rename_i f seen hpc
        obtain rfl := Option.some.inj hs
        refine .move ?_
        rw [hpc]
        split
        · exact .wait
        · exact .proceed
      · cases hs
  | changed r =>
      simp only [step, reqStep] at hs
      split at hs
      · rename_i f seen hpc
        simp only [Option.ite_none_right_eq_some, Option.some.injEq] at hs
        rcases hs with ⟨-, rfl⟩
        exact .move (hpc ▸ .changed)
      · cases hs
  | notFound r =>
      simp only [step, reqStep] at hs
      split at hs
      · rename_i f seen hpc
        simp only [Option.ite_none_right_eq_some, Option.some.injEq] at hs
        rcases hs with ⟨-, rfl⟩
        exact .move (hpc ▸ .leaveWaiting)
      · cases hs
  | openTemp r =>
      simp only [step, reqStep] at hs
      split at hs
      · rename_i f hpc
        obtain rfl := Option.some.inj hs
        refine .move ?_
        rw [hpc]
        split
        · rename_i hgone
          exact .openGone hgone
        · rename_i hgone
          exact .openTemp (by simpa using hgone)
      · cases hs
  | finish r =>
      simp only [step, reqStep] at hs
      split at hs
      · rename_i f hpc
        obtain rfl := Option.some.inj hs
        exact .move (hpc ▸ .leaveStreaming)
      · cases hs
  | _ => cases hkind

/-- A worker. -/
theorem worker_cases (hkind : a.kind = .worker) (hs : step hash s a = some s') :
    Step hash s a s' := by
  cases a with
  | publish f progress =>
      simp only [step, workerStep, Option.ite_none_right_eq_some, Option.some.injEq] at hs
      rcases hs with ⟨⟨hpc, -⟩, rfl⟩
      exact .publish hpc
  | complete f progress =>
      simp only [step, workerStep, Option.ite_none_right_eq_some, Option.some.injEq] at hs
      rcases hs with ⟨hpc, rfl⟩
      exact .complete hpc
  | fail f =>
      simp only [step, workerStep, Option.ite_none_right_eq_some, Option.some.injEq] at hs
      rcases hs with ⟨hpc, rfl⟩
      exact .workerMove (hpc ▸ .fail)
  | closed f =>
      simp only [step, workerStep, Option.ite_none_right_eq_some, Option.some.injEq] at hs
      rcases hs with ⟨⟨hpc, hrx⟩, rfl⟩
      exact .workerMove (hpc ▸ .closed hrx)
  | remove f hashOk =>
      simp only [step, workerStep, Option.ite_none_right_eq_some, Option.some.injEq] at hs
      rcases hs with ⟨hpc, rfl⟩
      exact .remove hashOk hpc
  | closedAgain f =>
      simp only [step, workerStep, Option.ite_none_right_eq_some, Option.some.injEq] at hs
      rcases hs with ⟨⟨hpc, hrx⟩, rfl⟩
      exact .workerMove (hpc ▸ .closedAgain hrx)
  | imported f outcome =>
      simp only [step, workerStep, Option.ite_none_right_eq_some, Option.some.injEq] at hs
      rcases hs with ⟨hpc, rfl⟩
      exact .imported _ _ hpc
  | dropGuard f =>
      simp only [step, workerStep] at hs
      split at hs
      · rename_i hpc
        obtain rfl := Option.some.inj hs
        exact .dropGuard (hpc ▸ .first)
      · simp only [Option.ite_none_right_eq_some, Option.some.injEq] at hs
        rcases hs with ⟨hpc, rfl⟩
        exact .dropGuard (hpc ▸ .last)
  | dropTx f =>
      simp only [step, workerStep] at hs
      split at hs
      · rename_i hpc
        obtain rfl := Option.some.inj hs
        exact .workerMove (hpc ▸ .dropTx)
      · simp only [Option.ite_none_right_eq_some, Option.some.injEq] at hs
        rcases hs with ⟨hpc, rfl⟩
        exact .workerMove (hpc ▸ .dropTxLast)
  | _ => cases hkind

/-- Every step is one of the kinds of `Step`. -/
theorem step_cases (hs : step hash s a = some s') : Step hash s a s' := by
  cases hkind : a.kind with
  | entry => exact entry_cases hkind hs
  | follow => exact follow_cases hkind hs
  | worker => exact worker_cases hkind hs
  | evict =>
      cases a with
      | evict h =>
          obtain rfl := Option.some.inj hs
          exact .evict _
      | _ => cases hkind

end

section

variable {Req Hash : Type} [DecidableEq Req] [DecidableEq Hash] {hash : Req → Hash}
  {s s' : St Req Hash} {a : Act Req Hash}

/-! ## The parts of a step -/

/-- What one step does to the two program counters of flight `f`, with what it
does to the map where the guard of `f` is concerned. -/
inductive Local (hash : Req → Hash) (s s' : St Req Hash) (f : Req) (a : Act Req Hash) :
    ReqPc Req → WorkerPc → ReqPc Req → WorkerPc → Prop where
  | same {p : ReqPc Req} {w : WorkerPc} : Local hash s s' f a p w p w
  | move {p q : ReqPc Req} {w : WorkerPc} : Move hash s f p q → Local hash s s' f a p w q w
  | insert {w : WorkerPc} : a = .lock f → s.entry (hash f) = none →
      Local hash s s' f a .missed w .creating w
  | giveUp {p : ReqPc Req} {w : WorkerPc} : p.ownsGuard = true → s'.entry (hash f) = none →
      Local hash s s' f a p w .unwinding w
  | createTemp {w : WorkerPc} : s'.published f = true → Local hash s s' f a .creating w .fetching w
  | spawn {w : WorkerPc} : Local hash s s' f a .fetching w .spawned .fetching
  | workerMove {p : ReqPc Req} {w w' : WorkerPc} : WorkerMove s f a w w' →
      Local hash s s' f a p w p w'
  | remove {p : ReqPc Req} {w : WorkerPc} : w = .closingAgain ∨ w = .returning →
      s'.entry (hash f) = none → Local hash s s' f a p .removing p w
  | dropGuard {p : ReqPc Req} {w w' : WorkerPc} : a = .dropGuard f → GuardMove w w' →
      s'.entry (hash f) = none → Local hash s s' f a p w p w'
  | complete {p : ReqPc Req} : Local hash s s' f a p .fetching p .closing
  | imported {p : ReqPc Req} : Local hash s s' f a p .importing p .returning

theorem local_step (hs : Step hash s a s') (f : Req) :
    Local hash s s' f a (s.req f) (s.worker f) (s'.req f) (s'.worker f) := by
  cases hs with
  | @move _ r q hm =>
      by_cases hf : f = r
      · subst hf
        simpa using .move hm
      · simpa [hf] using .same
  | @insert r hpc he =>
      by_cases hf : f = r
      · subst hf
        simpa [hpc] using .insert rfl he
      · simpa [hf] using .same
  | @giveUp _ r _ hg =>
      by_cases hf : f = r
      · subst hf
        simpa using .giveUp hg (by simp)
      · simpa [hf] using .same
  | @sweep r g hpc _ =>
      by_cases hf : f = r
      · subst hf
        simpa [hpc] using .move .leaveAttached
      · simpa [hf] using .same
  | @createTemp r hpc =>
      by_cases hf : f = r
      · subst hf
        simpa [hpc] using .createTemp (by simp)
      · simpa [hf] using .same
  | @spawn r hpc =>
      by_cases hf : f = r
      · subst hf
        simpa [hpc] using .spawn
      · simpa [hf] using .same
  | @workerMove _ g q hm =>
      by_cases hf : f = g
      · subst hf
        simpa using .workerMove hm
      · simpa [hf] using .same
  | @remove g ok hpc =>
      by_cases hf : f = g
      · subst hf
        simpa [hpc] using .remove (by cases ok <;> simp) (by simp)
      · simpa [hf] using .same
  | @dropGuard g q hm =>
      by_cases hf : f = g
      · subst hf
        simpa using .dropGuard rfl hm (by simp)
      · simpa [hf] using .same
  | publish _ => exact .same
  | @complete g _ hpc =>
      by_cases hf : f = g
      · subst hf
        simpa [hpc] using .complete
      · simpa [hf] using .same
  | @imported g _ _ _ hpc =>
      by_cases hf : f = g
      · subst hf
        simpa [hpc] using .imported
      · simpa [hf] using .same
  | evict _ => exact .same

omit [DecidableEq Req] [DecidableEq Hash] in
theorem Move.ownsGuard {r : Req} {p q : ReqPc Req} (h : Move hash s r p q) :
    q.ownsGuard = false := by
  cases h <;> rfl

omit [DecidableEq Req] [DecidableEq Hash] in
theorem WorkerMove.ownsGuard {f : Req} {p q : WorkerPc} (h : WorkerMove s f a p q) :
    q.ownsGuard = p.ownsGuard := by
  cases h <;> rfl

/-- A guard comes to life only with the insertion of its entry. -/
theorem guard_step (hs : Step hash s a s') {f : Req} (h : GuardLive s' f) :
    GuardLive s f ∨ (a = .lock f ∧ s.entry (hash f) = none) := by
  have hl := local_step hs f
  unfold GuardLive at h ⊢
  generalize s.req f = p at *
  generalize s.worker f = w at *
  generalize s'.req f = p' at *
  generalize s'.worker f = w' at *
  cases hl with
  | same => exact .inl h
  | move hm => exact .inl (.inr (h.resolve_left (by simp [hm.ownsGuard])))
  | insert ha he => exact .inr ⟨ha, he⟩
  | giveUp hg _ => exact .inl (.inl hg)
  | createTemp _ | spawn => exact .inl (.inl rfl)
  | workerMove hm => exact .inl (h.imp id fun hw => hm.ownsGuard ▸ hw)
  | remove _ _ | complete | imported => exact .inl (.inr rfl)
  | dropGuard _ hm _ =>
      refine .inl (h.imp id fun hw => ?_)
      cases hm <;> cases hw

/-- A guard dies with its entry removed. -/
theorem guard_drop (hs : Step hash s a s') {f : Req} (h : GuardLive s f)
    (h' : ¬ GuardLive s' f) : s'.entry (hash f) = none := by
  have hl := local_step hs f
  unfold GuardLive at h h'
  generalize s.req f = p at *
  generalize s.worker f = w at *
  generalize s'.req f = p' at *
  generalize s'.worker f = w' at *
  cases hl with
  | same => exact absurd h h'
  | move hm =>
      rcases h with hp | hw
      · cases hm <;> cases hp
      · exact absurd (.inr hw) h'
  | insert _ _ | createTemp _ => exact absurd (.inl rfl) h'
  | giveUp _ he => exact he
  | spawn => exact absurd (.inr rfl) h'
  | workerMove hm => exact absurd (h.imp id fun hw => hm.ownsGuard.trans hw) h'
  | remove hw _ => exact absurd (.inr (by rcases hw with rfl | rfl <;> rfl)) h'
  | dropGuard _ _ he => exact he
  | complete | imported => exact absurd (.inr rfl) h'

theorem published_step (hs : Step hash s a s') {f : Req} (h : s.published f = true) :
    s'.published f = true := by
  cases hs with
  | @createTemp r hpc =>
      by_cases hf : f = r
      · simp [hf]
      · simpa [hf] using h
  | _ => exact h

theorem version_step (hs : Step hash s a s') (f : Req) :
    (s.tx f).version ≤ (s'.tx f).version := by
  cases hs with
  | @publish g _ _ | @complete g _ _ =>
      by_cases hf : f = g
      · simp [hf]
      · simp [hf]
  | _ => exact le_refl _

theorem tempGone_step (hs : Step hash s a s') {f : Req} (h : s'.tempGone f = true) :
    s.tempGone f = true ∨ (s.worker f = .importing ∧ s'.worker f = .returning) := by
  cases hs with
  | @imported g gone _ _ hpc =>
      by_cases hf : f = g
      · exact .inr ⟨hf ▸ hpc, by simp [hf]⟩
      · exact .inl (by simpa [hf] using h)
  | _ => exact .inl h

/-- The flight on whose behalf an action removes an entry. -/
def remover (s : St Req Hash) : Act Req Hash → Option Req
  | .srFetchNone r | .cancel r => some r
  | .remove f _ | .dropGuard f => some f
  | .waitTempErr r => (s.req r).cloneOf
  | _ => none

/-- A slot of the map stays, receives the entry of a request, or is cleared. It
is cleared through a live guard, or by a request that waits for a temp path that
will not come. -/
theorem entry_step (hs : Step hash s a s') (h : Hash) :
    s'.entry h = s.entry h ∨
    (∃ r, a = .lock r ∧ hash r = h ∧ s.req r = .missed ∧ s.entry h = none ∧
      s'.entry h = some r ∧ s'.req r = .creating) ∨
    (s'.entry h = none ∧ ∃ g, remover s a = some g ∧
      ((GuardLive s g ∧ hash g = h) ∨
        ∃ r, s.req r = .attached g ∧ s.published g = false ∧ hash r = h)) := by
  cases hs with
  | @insert r hpc he =>
      by_cases hh : h = hash r
      · exact .inr (.inl ⟨r, rfl, hh.symm, hpc, hh ▸ he, by simp [hh], by simp⟩)
      · exact .inl (by simp [hh])
  | @giveUp _ r ha hg =>
      by_cases hh : h = hash r
      · refine .inr (.inr ⟨by simp [hh], r, ?_, .inl ⟨.inl hg, hh.symm⟩⟩)
        rcases ha with rfl | rfl <;> rfl
      · exact .inl (by simp [hh])
  | @sweep r g hpc hpub =>
      by_cases hh : h = hash r
      · exact .inr (.inr ⟨by simp [hh], g, by simp [remover, hpc, ReqPc.cloneOf],
          .inr ⟨r, hpc, hpub, hh.symm⟩⟩)
      · exact .inl (by simp [hh])
  | @remove g ok hpc =>
      by_cases hh : h = hash g
      · exact .inr (.inr ⟨by simp [hh], g, rfl,
          .inl ⟨.inr (by simp [hpc, WorkerPc.ownsGuard]), hh.symm⟩⟩)
      · exact .inl (by simp [hh])
  | @dropGuard g q hm =>
      by_cases hh : h = hash g
      · refine .inr (.inr ⟨by simp [hh], g, rfl, .inl ⟨.inr ?_, hh.symm⟩⟩)
        generalize s.worker g = w at hm
        cases hm <;> rfl
      · exact .inl (by simp [hh])
  | _ => exact .inl rfl

/-! ## The invariant -/

/-- The request has spawned a worker. -/
def ReqPc.afterSpawn : ReqPc Req → Bool
  | .spawned | .checking _ _ | .waiting _ _ | .responded _ | .streaming _ | .panicked
  | .done => true
  | _ => false

/-- The worker has returned from `import_cache`, or never got there. -/
def WorkerPc.afterLoop : WorkerPc → Bool
  | .returning | .guardDropped | .txDropped | .ended => true
  | _ => false

/-- What holds in every reachable state: an entry belongs to a flight whose guard
is alive; a flight with a worker has a published temp path and an initiator past
the spawn; a receiver has seen no future version; a worker that has removed its
entry never finds it back, and the temp file goes only with the import. -/
structure Inv (hash : Req → Hash) (s : St Req Hash) : Prop where
  owned : ∀ h f, s.entry h = some f → hash f = h ∧ GuardLive s f
  born : ∀ f, s.worker f ≠ .unborn → s.published f = true ∧ (s.req f).afterSpawn = true
  temp : ∀ f, s.req f = .fetching → s.published f = true
  seen : ∀ r f n, s.req r = .checking f n ∨ s.req r = .waiting f n → n ≤ (s.tx f).version
  removed : ∀ f, s.worker f = .closingAgain ∨ s.worker f = .importing ∨ s.tempGone f = true →
    s.entry (hash f) ≠ some f
  gone : ∀ f, s.tempGone f = true → (s.worker f).afterLoop = true

omit [DecidableEq Req] [DecidableEq Hash] in
theorem init_inv (cached : Hash → Bool) : Inv hash (start cached) := by
  constructor <;> simp [start]

theorem owned_step (hi : Inv hash s) (hs : Step hash s a s') (h : Hash) (f : Req)
    (hf : s'.entry h = some f) : hash f = h ∧ GuardLive s' f := by
  rcases entry_step hs h with heq | ⟨r, -, hr, -, -, hsome, hpc⟩ | ⟨hnone, -⟩
  · -- the entry was there: had its guard died, the entry would be gone
    rw [heq] at hf
    rcases hi.owned h f hf with ⟨hh, hg⟩
    refine ⟨hh, ?_⟩
    by_contra hdead
    have hnone := guard_drop hs hg hdead
    rw [hh, heq, hf] at hnone
    cases hnone
  · obtain rfl : r = f := Option.some.inj (hsome.symm.trans hf)
    exact ⟨hr, .inl (by simp [hpc, ReqPc.ownsGuard])⟩
  · rw [hnone] at hf
    cases hf

omit [DecidableEq Req] in
theorem ReqPc.afterSpawn_of_ownsGuard {p : ReqPc Req} (h : p.ownsGuard = true) :
    p.afterSpawn = false := by
  cases p with
  | creating | fetching => rfl
  | _ => cases h

omit [DecidableEq Req] [DecidableEq Hash] in
theorem Move.afterSpawn {r : Req} {p q : ReqPc Req} (h : Move hash s r p q)
    (hp : p.afterSpawn = true) : q.afterSpawn = true := by
  cases h <;> first | rfl | cases hp

theorem born_step (hi : Inv hash s) (hs : Step hash s a s') (f : Req)
    (hf : s'.worker f ≠ .unborn) : s'.published f = true ∧ (s'.req f).afterSpawn = true := by
  have hl := local_step hs f
  have hborn := hi.born f
  have htemp := hi.temp f
  have hpub := published_step hs (f := f)
  generalize s.req f = p at *
  generalize s.worker f = w at *
  generalize s'.req f = p' at *
  generalize s'.worker f = w' at *
  cases hl with
  | same => exact (hborn hf).imp hpub id
  | move hm => exact (hborn hf).imp hpub hm.afterSpawn
  | insert _ _ | createTemp _ => exact absurd (hborn hf).2 (by simp [ReqPc.afterSpawn])
  | giveUp hg _ => exact absurd (hborn hf).2 (by simp [ReqPc.afterSpawn_of_ownsGuard hg])
  | spawn => exact ⟨hpub (htemp rfl), rfl⟩
  | workerMove hm => exact (hborn (by cases hm <;> simp)).imp hpub id
  | remove _ _ | complete | imported => exact (hborn (by simp)).imp hpub id
  | dropGuard _ hm _ => exact (hborn (by cases hm <;> simp)).imp hpub id

theorem temp_step (hi : Inv hash s) (hs : Step hash s a s') (f : Req)
    (hf : s'.req f = .fetching) : s'.published f = true := by
  have hl := local_step hs f
  have htemp := hi.temp f
  have hpub := published_step hs (f := f)
  generalize s.req f = p at *
  generalize s.worker f = w at *
  rw [hf] at hl
  generalize s'.worker f = w' at *
  cases hl with
  | same | workerMove _ | remove _ _ | dropGuard _ _ _ | complete | imported =>
      exact hpub (htemp rfl)
  | move hm => cases hm
  | createTemp h => exact h

theorem seen_step (hi : Inv hash s) (hs : Step hash s a s') (r f : Req) (n : Nat)
    (hr : s'.req r = .checking f n ∨ s'.req r = .waiting f n) : n ≤ (s'.tx f).version := by
  have hl := local_step hs r
  have hle := version_step hs f
  have hseen := hi.seen r f n
  generalize s.req r = p at *
  generalize s.worker r = w at *
  generalize s'.req r = p' at *
  generalize s'.worker r = w' at *
  cases hl with
  | same | workerMove _ | remove _ _ | dropGuard _ _ _ | complete | imported =>
      exact (hseen hr).trans hle
  | move hm =>
      cases hm with
      | subscribe | ownSubscribe =>
          obtain ⟨rfl, rfl⟩ : _ ∧ _ := by simpa using hr
          exact hle
      | wait =>
          obtain ⟨rfl, rfl⟩ : _ ∧ _ := by simpa using hr
          exact (hseen (.inl rfl)).trans hle
      | _ => simp at hr
  | _ => simp at hr

/-- The entry of a flight with a worker does not come back. -/
theorem entry_ne_step (hi : Inv hash s) (hs : Step hash s a s') {f : Req}
    (hw : s.worker f ≠ .unborn) (hne : s.entry (hash f) ≠ some f) :
    s'.entry (hash f) ≠ some f := by
  rcases entry_step hs (hash f) with heq | ⟨r, -, -, hpc, -, hsome, -⟩ | ⟨hnone, -⟩
  · rwa [heq]
  · intro hf
    obtain rfl : r = f := Option.some.inj (hsome.symm.trans hf)
    have hafter := (hi.born r hw).2
    simp [hpc, ReqPc.afterSpawn] at hafter
  · simp [hnone]

theorem removed_step (hi : Inv hash s) (hs : Step hash s a s') (f : Req)
    (hf : s'.worker f = .closingAgain ∨ s'.worker f = .importing ∨ s'.tempGone f = true) :
    s'.entry (hash f) ≠ some f := by
  -- either the worker is past the removal already, or this step removes the entry
  have hpast : (s.worker f = .closingAgain ∨ s.worker f = .importing ∨ s.tempGone f = true) ∨
      s'.entry (hash f) = none := by
    have hl := local_step hs f
    rcases hf with hf | hf | hf
    · rw [hf] at hl
      generalize s.req f = p at hl
      generalize s'.req f = p' at hl
      generalize s.worker f = w at hl ⊢
      cases hl with
      | remove _ he => exact .inr he
      | workerMove hm => cases hm
      | dropGuard _ hm _ => cases hm
      | _ => exact .inl (.inl rfl)
    · rw [hf] at hl
      generalize s.req f = p at hl
      generalize s'.req f = p' at hl
      generalize s.worker f = w at hl ⊢
      cases hl with
      | remove hw _ => rcases hw with hw | hw <;> cases hw
      | workerMove hm =>
          cases hm
          exact .inl (.inl rfl)
      | dropGuard _ hm _ => cases hm
      | _ => exact .inl (.inr (.inl rfl))
    · exact .inl (.inr ((tempGone_step hs hf).elim .inr fun hw => .inl hw.1))
  rcases hpast with hpast | hnone
  · refine entry_ne_step hi hs ?_ (hi.removed f hpast)
    rcases hpast with hw | hw | hgone
    · simp [hw]
    · simp [hw]
    · intro hw
      have := hi.gone f hgone
      simp [hw, WorkerPc.afterLoop] at this
  · simp [hnone]

theorem gone_step (hi : Inv hash s) (hs : Step hash s a s') (f : Req)
    (hf : s'.tempGone f = true) : (s'.worker f).afterLoop = true := by
  rcases tempGone_step hs hf with hgone | ⟨-, hw⟩
  · have hloop := hi.gone f hgone
    have hborn := hi.born f
    have hl := local_step hs f
    generalize s.req f = p at *
    generalize s.worker f = w at *
    generalize s'.req f = p' at *
    generalize s'.worker f = w' at *
    cases hl with
    | spawn =>
        have hafter := (hborn (by rintro rfl; cases hloop)).2
        cases hafter
    | workerMove hm => cases hm <;> first | rfl | cases hloop
    | dropGuard _ hm _ => cases hm <;> rfl
    | remove _ _ | complete | imported => cases hloop
    | _ => exact hloop
  · simp [hw, WorkerPc.afterLoop]

theorem step_inv (hi : Inv hash s) (hs : Step hash s a s') : Inv hash s' where
  owned := owned_step hi hs
  born := born_step hi hs
  temp := temp_step hi hs
  seen := seen_step hi hs
  removed := removed_step hi hs
  gone := gone_step hi hs

end

section

variable {Req Hash : Type} [DecidableEq Req] [DecidableEq Hash] [Fintype Req]
  {hash : Req → Hash} {s s' : St Req Hash} {a : Act Req Hash}

theorem inv_of_reachable (h : (machine hash).Reachable s) : Inv hash s := by
  refine Machine.Reachable.invariant ?_ ?_ h
  · rintro s ⟨cached, rfl⟩
    exact init_inv cached
  · intro s a s' hi hs
    exact step_inv hi (step_cases hs)

end

end Hath.Flight
