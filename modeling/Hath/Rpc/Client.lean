import Mathlib.Data.List.Basic
import Hath.Lib.Machine
import Hath.Net
import Hath.Rpc.Response

/-!
# Hath.Rpc.Client — calls to the RPC servers

The calls of `RPCClient` that go through `send_action`: up to three tries, a clock
check (`check_stat`) between two of them when the server reports an expired key, a
change of server when the answer's hash is wrong or no answer comes. A call is a
program counter that waits for one reply after the other; any number of calls can be
under way. A reply is a body or a transport error, and carries what the client draws or
reads while it handles it: the random choice of a server and the clock.

What a call prints to the log is left out. `get_cert` and `fetch_queue`, which do not
use `send_action` and do not touch the client's state, are not calls here.

* `handle_spec` — a reply that is not signed changes no more than the host;
* `only_signed_effects` — over every run of every sequence of calls.
-/

namespace Hath.Rpc

open Lib

/-! ## State -/

/-- `Settings`. -/
structure Settings where
  sizeLimit : Nat
  throttleBytes : Nat
  disableLogging : Bool
  maxConnection : Nat
  disableIpCheck : Bool
deriving DecidableEq

/-- The parts of `RPCClient` that change: the host of `api_base`, and the rest. -/
structure Client where
  host : Text
  clockOffset : Int
  rpcServers : List Text
  running : Bool
  settings : Settings
deriving DecidableEq

/-- What does not change, and the functions of other crates: SHA-1, and `set_host` of
the `url` crate, which gives the host that the URL then has or fails. -/
structure Env where
  sha1 : Bytes → Digest
  key : Text
  setHost : Text → Option Text

/-- `InitSettings`. -/
structure InitSettings where
  clientPort : Nat
  clientHost : Text
  verifyCache : Bool
  staticRange : List Text
deriving DecidableEq

/-- The errors of `login`. -/
inductive Error where
  | versionTooOld
  | apiResponseFail (failCode message : Text)
  | initSettingsMissing (settings : Text)
deriving DecidableEq

/-- `Error::connection_error`. -/
def Error.connectionError (message : String) : Error :=
  .apiResponseFail "CONNECTION_FAILED".toList message.toList

def apiVersion : Int := 181

def defaultServer : Text := "rpc.hentaiathome.net".toList

/-- `RPCClient::new`, with the host of the bootstrap server. -/
def Client.new (disableIpCheck : Bool) (maxConnection : Nat) (host : Text) : Client where
  host := host
  clockOffset := 0
  rpcServers := []
  running := false
  settings := ⟨2 ^ 64 - 1, 0, false, maxConnection, disableIpCheck⟩

/-! ## Settings and servers -/

/-- `Settings::update`. -/
def Settings.update (settings : Settings) (map : String → Option Text) : Settings :=
  { settings with
    sizeLimit := ((map "disklimit_bytes").bind (parseNat 64)).getD settings.sizeLimit
    throttleBytes := ((map "throttle_bytes").bind (parseNat 64)).getD settings.throttleBytes
    disableLogging := ((map "disable_logging").bind parseBool).getD false }

/-- The list without the first occurrence of the failed server, by `swap_remove`. -/
def withoutServer (servers : List Text) (host : Text) : List Text :=
  match servers.idxOf? host with
  | some pos => (servers.set pos (servers.getLast?.getD [])).dropLast
  | none => servers

/-- `change_server`, with the random choice; `none` where `set_host` fails and the
`unwrap` panics. -/
def changeServer (env : Env) (c : Client) (choice : Nat) : Option Client :=
  if c.rpcServers.length ≤ 1 then some c
  else
    let servers := withoutServer c.rpcServers c.host
    let server := servers[choice % servers.length]?.getD defaultServer
    (env.setHost server).map fun host => { c with host }

/-- The addresses of a `rpc_server_ip` setting. -/
def serverList (ips : Text) : List Text :=
  (ips.splitOn ';').filterMap fun s => (parseIp s).map IpAddr.canonicalText

/-- `update_settings`, and whether it panicked on the way. -/
def updateSettings (env : Env) (c : Client) (map : String → Option Text) (choice : Nat) :
    Client × Bool :=
  match map "rpc_server_ip" with
  | none => ({ c with settings := c.settings.update map }, false)
  | some ips =>
      let c := { c with rpcServers := serverList ips }
      match changeServer env c choice with
      | some c => ({ c with settings := c.settings.update map }, false)
      | none => (c, true)

/-! ## Replies -/

/-- What one request comes to. -/
structure Reply where
  /-- The body, or an error: `true` for a failed connection, a timeout or a server
  error, which make `send_action` change the server. -/
  result : Except Bool Text
  /-- The choice of a server. -/
  choice : Nat
  /-- What the clock and `chrono` make of a `server_time`: the offset in seconds, if
  the time is one that `chrono` can represent. -/
  offset : Int → Option Int

/-- `check_stat`, once its reply is there. -/
def checkStat (env : Env) (c : Client) (r : Reply) :
    Client × Except Error (Option (Int × Int)) :=
  match r.result with
  | .error _ => (c, .error (.connectionError "Failed to get initial stat from server."))
  | .ok body =>
      let res := parseResponse env.sha1 env.key c.host body
      if res.isOk then
        let offset := ((res.toMap "server_time").bind (parseInt 64)).bind r.offset
        let minVersion := (res.toMap "min_client_build").bind (parseInt 32)
        let newVersion := (res.toMap "cur_client_build").bind (parseInt 32)
        let c := { c with clockOffset := offset.getD c.clockOffset }
        match minVersion, newVersion with
        | some min, some new => (c, .ok (some (min, new)))
        | _, _ => (c, .ok none)
      else (c, .error (.apiResponseFail res.status (joinLines res.data)))

/-! ## Calls -/

/-- The calls, with their arguments. -/
inductive Call where
  | login
  | refreshSettings
  | getPurgelist (deltaTime : Nat)
  | connectCheck
  | srFetch (fileIndex xres fileId : Text)
  | dlFails (failures : List Text)
  | dlFetch (gid : Int) (page fileindex : Nat) (xres : Text) (retry : Nat)
  | stillAlive (resume : Bool)
  | notifyOverload
  | shutdown
deriving DecidableEq

/-- What a call returns. -/
inductive Output where
  /-- `Ok(InitSettings)` of `login`. -/
  | init (settings : InitSettings)
  /-- `Err` of `login`. -/
  | failed (error : Error)
  /-- `Some(data)`. -/
  | data (lines : List Text)
  /-- `Some(())` of `connect_check`. -/
  | connected
  /-- `None`. -/
  | nothing
  /-- The answer of `still_alive`. -/
  | alive (b : Bool)
  /-- `()`. -/
  | done
  /-- The call has panicked in `change_server`. -/
  | panicked
deriving DecidableEq

/-- What a call returns when `send_action` fails. -/
def Call.onError : Call → Output
  | .login => .failed (.connectionError "Failed to get a login response from server.")
  | .getPurgelist _ | .srFetch .. | .dlFetch .. | .connectCheck => .nothing
  | .stillAlive _ => .alive true
  | .refreshSettings | .dlFails _ | .notifyOverload | .shutdown => .done

/-- The settings that `login` returns. -/
def initSettings (map : String → Option Text) : Except Error InitSettings := do
  let clientPort ← match (map "port").bind (parseNat 16) with
    | some port => pure port
    | none => throw (.initSettingsMissing "port".toList)
  let clientHost ← match map "host" with
    | some host => pure host
    | none => throw (.initSettingsMissing "host".toList)
  let verifyCache := ((map "verify_cache").bind parseBool).getD false
  let staticRange := ((map "static_ranges").map (·.splitOn ';')).getD []
  pure { clientPort, clientHost, verifyCache, staticRange }

/-- What a call does with the response of `send_action`. -/
def Call.onResponse (env : Env) (c : Client) (choice : Nat) (res : ApiResponse) :
    Call → Client × Output
  | .login =>
      if res.isOk then
        match initSettings res.toMap with
        | .error e => (c, .failed e)
        | .ok init =>
            let (c, panicked) := updateSettings env c res.toMap choice
            (c, if panicked then .panicked else .init init)
      else (c, .failed (.apiResponseFail res.status (joinLines res.data)))
  | .refreshSettings =>
      if res.isOk then
        let (c, panicked) := updateSettings env c res.toMap choice
        (c, if panicked then .panicked else .done)
      else (c, .done)
  | .getPurgelist _ | .srFetch .. | .dlFetch .. =>
      if res.isOk then (c, .data res.data) else (c, .nothing)
  | .connectCheck =>
      if res.isOk then ({ c with running := true }, .connected) else (c, .nothing)
  | .stillAlive _ =>
      if res.isOk then (c, .alive true)
      else if "TERM_BAD_NETWORK".toList.isPrefixOf res.status ∨
          "FAIL_NOT_LOGGED_IN".toList.isPrefixOf res.status then (c, .alive false)
      else (c, .alive true)
  | .dlFails _ | .notifyOverload | .shutdown => (c, .done)

/-- Where a call stands. -/
inductive Pc where
  /-- `login` waits for the reply to `server_stat`. -/
  | loginStat
  /-- `send_action` waits for the reply to its try number `attempt`. -/
  | sending (attempt : Nat)
  /-- `check_stat` after an expired key in that try. -/
  | syncing (attempt : Nat)
  | returned (out : Output)
deriving DecidableEq

/-- The next round of the loop in `send_action`. -/
def nextTry (call : Call) (attempt : Nat) : Pc :=
  if attempt + 1 < 3 then .sending (attempt + 1) else .returned call.onError

/-- Change the server and go on, or panic. -/
def retryElsewhere (env : Env) (call : Call) (c : Client) (choice attempt : Nat) : Client × Pc :=
  match changeServer env c choice with
  | some c => (c, nextTry call attempt)
  | none => (c, .returned .panicked)

/-- A call gets its reply. -/
def handle (env : Env) (call : Call) (c : Client) (r : Reply) : Pc → Option (Client × Pc)
  | .loginStat =>
      let (c, stat) := checkStat env c r
      match stat with
      | .error e => some (c, .returned (.failed e))
      | .ok (some (min, _)) =>
          if apiVersion < min then some (c, .returned (.failed .versionTooOld))
          else some (c, .sending 0)
      | .ok none => some (c, .sending 0)
  | .sending attempt =>
      match r.result with
      | .error elsewhere =>
          if elsewhere then some (retryElsewhere env call c r.choice attempt)
          else some (c, nextTry call attempt)
      | .ok body =>
          let res := parseResponse env.sha1 env.key c.host body
          if res.isKeyExpired then some (c, .syncing attempt)
          else if res.isHashFail then some (retryElsewhere env call c r.choice attempt)
          else
            let (c, out) := call.onResponse env c r.choice res
            some (c, .returned out)
  | .syncing attempt => some ((checkStat env c r).1, nextTry call attempt)
  | .returned _ => none

/-- How a call starts: `shutdown` stops the client and sends nothing if it was not
running, `dl_fails` sends no empty list. -/
def Call.start (c : Client) : Call → Client × Pc
  | .login => (c, .loginStat)
  | .dlFails [] => (c, .returned .done)
  | .shutdown =>
      ({ c with running := false }, if c.running then .sending 0 else .returned .done)
  | _ => (c, .sending 0)

/-! ## Runs -/

/-- The client and its calls, in the order of their starts. -/
structure State where
  client : Client
  calls : List (Call × Pc)
deriving DecidableEq

/-- A call starts, or one gets a reply. -/
inductive Action where
  | start (call : Call)
  | reply (i : Nat) (r : Reply)

def step (env : Env) (s : State) : Action → Option State
  | .start call =>
      let (c, pc) := call.start s.client
      some ⟨c, s.calls ++ [(call, pc)]⟩
  | .reply i r =>
      s.calls[i]?.bind fun (call, pc) => (handle env call s.client r pc).map fun (c, pc) =>
        ⟨c, s.calls.set i (call, pc)⟩

/-- The client as a machine. -/
def machine (env : Env) : Machine State Action where
  init s := s.calls = [] ∧ ∃ disableIpCheck maxConnection host,
    s.client = Client.new disableIpCheck maxConnection host
  step := step env

/-! ## What a reply can do -/

/-- At most the host is another one. -/
def HostOnly (c c' : Client) : Prop := c' = { c with host := c'.host }

theorem HostOnly.refl (c : Client) : HostOnly c c := rfl

/-- The output brings nothing from a server: no settings, no data, no permission to
run. -/
def Output.Quiet : Output → Prop
  | .init _ | .data _ | .connected => False
  | .failed _ | .nothing | .alive _ | .done | .panicked => True

/-- The call is still under way or has a quiet output. -/
def Pc.Quiet : Pc → Prop
  | .returned out => out.Quiet
  | .loginStat | .sending _ | .syncing _ => True

/-- The reply is a signed answer with the lines `data`. -/
def Reply.SignedWith (env : Env) (r : Reply) (data : List Text) : Prop :=
  ∃ body, r.result = .ok body ∧ Signed env.sha1 env.key body data

theorem changeServer_hostOnly {env : Env} {c c' : Client} {choice : Nat}
    (h : changeServer env c choice = some c') : HostOnly c c' := by
  unfold changeServer at h
  split at h
  · cases h
    exact HostOnly.refl c
  · rcases Option.map_eq_some_iff.mp h with ⟨host, -, rfl⟩
    rfl

theorem onError_quiet (call : Call) : call.onError.Quiet := by
  cases call <;> trivial

theorem nextTry_quiet (call : Call) (attempt : Nat) : (nextTry call attempt).Quiet := by
  unfold nextTry
  split
  · trivial
  · exact onError_quiet call

theorem retryElsewhere_spec (env : Env) (call : Call) (c : Client) (choice attempt : Nat) :
    HostOnly c (retryElsewhere env call c choice attempt).1 ∧
      (retryElsewhere env call c choice attempt).2.Quiet := by
  unfold retryElsewhere
  split
  · rename_i c' hc
    exact ⟨changeServer_hostOnly hc, nextTry_quiet call attempt⟩
  · exact ⟨HostOnly.refl c, trivial⟩

/-- `check_stat` changes the client only by a signed answer. -/
theorem checkStat_spec (env : Env) (c : Client) (r : Reply) :
    (checkStat env c r).1 = c ∨ ∃ data, r.SignedWith env data := by
  unfold checkStat
  split
  · exact .inl rfl
  · rename_i body hbody
    simp only
    split
    · rename_i hok
      exact .inr ⟨_, body, hbody, parseResponse_ok hok⟩
    · exact .inl rfl

/-- A call uses a response that is not `OK` for nothing but its output. -/
theorem onResponse_quiet (env : Env) (c : Client) (choice : Nat) {res : ApiResponse}
    (h : res.isOk = false) (call : Call) :
    (call.onResponse env c choice res).1 = c ∧ (call.onResponse env c choice res).2.Quiet := by
  cases call with
  | stillAlive resume =>
      rw [Call.onResponse, if_neg (by rw [h]; decide)]
      split
      · exact ⟨rfl, trivial⟩
      · exact ⟨rfl, trivial⟩
  | _ =>
      constructor
      · simp [Call.onResponse, h]
      · simp [Call.onResponse, h, Output.Quiet]

/-- The data a call returns are those of the response. -/
theorem onResponse_data {env : Env} {c : Client} {choice : Nat} {res : ApiResponse} {call : Call}
    {data : List Text} (h : (call.onResponse env c choice res).2 = .data data) :
    data = res.data := by
  cases call <;> simp only [Call.onResponse] at h
  all_goals (repeat' split at h) <;> simp at h
  all_goals exact h.symm

/-- A reply that is not a signed answer changes no more than the host, and brings the
caller nothing; the data a caller gets are the lines of the signed answer. -/
theorem handle_spec {env : Env} {call : Call} {c c' : Client} {r : Reply} {pc pc' : Pc}
    (h : handle env call c r pc = some (c', pc')) :
    (HostOnly c c' ∧ pc'.Quiet) ∨
    ∃ data, r.SignedWith env data ∧ ∀ d, pc' = .returned (.data d) → d = data := by
  cases pc with
  | loginStat =>
      -- `login` looks at the clock first; it gives the caller nothing yet
      have hc : c' = (checkStat env c r).1 ∧ pc'.Quiet ∧
          ∀ d, pc' ≠ .returned (.data d) := by
        simp only [handle] at h
        repeat' split at h
        all_goals
          cases h
          exact ⟨rfl, trivial, fun d hd => by cases hd⟩
      rcases hc with ⟨rfl, hq, hd⟩
      rcases checkStat_spec env c r with heq | ⟨data, hsigned⟩
      · rw [heq]
        exact .inl ⟨HostOnly.refl c, hq⟩
      · exact .inr ⟨data, hsigned, fun d hpc => absurd hpc (hd d)⟩
  | sending attempt =>
      simp only [handle] at h
      split at h
      · -- a transport error
        split at h
        · have hspec := retryElsewhere_spec env call c r.choice attempt
          rw [Option.some.inj h] at hspec
          exact .inl hspec
        · cases h
          exact .inl ⟨HostOnly.refl c, nextTry_quiet call attempt⟩
      · rename_i body hbody
        -- an expired key: the clock is checked before the next try
        split at h
        · cases h
          exact .inl ⟨HostOnly.refl c, trivial⟩
        · split at h
          · have hspec := retryElsewhere_spec env call c r.choice attempt
            rw [Option.some.inj h] at hspec
            exact .inl hspec
          · cases h
            -- any other status goes to the call
            cases hok : (parseResponse env.sha1 env.key c.host body).isOk with
            | false =>
                rcases onResponse_quiet env c r.choice hok call with ⟨hc, hq⟩
                rw [hc]
                exact .inl ⟨HostOnly.refl c, hq⟩
            | true =>
                right
                refine ⟨_, ⟨body, hbody, parseResponse_ok hok⟩, ?_⟩
                intro d hd
                exact onResponse_data (Pc.returned.inj hd)
  | syncing attempt =>
      cases h
      rcases checkStat_spec env c r with heq | ⟨data, hsigned⟩
      · rw [heq]
        exact .inl ⟨HostOnly.refl c, nextTry_quiet call attempt⟩
      · refine .inr ⟨data, hsigned, ?_⟩
        intro d hd
        have hq := nextTry_quiet call attempt
        rw [hd] at hq
        exact hq.elim
  | returned out => cases h

/-! ## Runs -/

theorem HostOnly.trans {a b c : Client} (h : HostOnly a b) (h' : HostOnly b c) :
    HostOnly a c := by
  unfold HostOnly at h h' ⊢
  rw [h', h]

theorem step_reply {env : Env} {s s' : State} {i : Nat} {r : Reply}
    (h : step env s (.reply i r) = some s') :
    ∃ call pc pc', s.calls[i]? = some (call, pc) ∧
      handle env call s.client r pc = some (s'.client, pc') ∧
      s'.calls = s.calls.set i (call, pc') := by
  rcases Option.bind_eq_some_iff.mp h with ⟨⟨call, pc⟩, hi, h⟩
  rcases Option.map_eq_some_iff.mp h with ⟨⟨c, pc'⟩, hh, rfl⟩
  exact ⟨call, pc, pc', hi, hh, rfl⟩

/-- A call that starts has got nothing, and changes at most `running`, to `false`. -/
theorem start_spec (c : Client) (call : Call) :
    ((call.start c).1 = c ∨ (call.start c).1 = { c with running := false }) ∧
      (call.start c).2.Quiet := by
  cases call with
  | dlFails failures =>
      cases failures with
      | nil => exact ⟨.inl rfl, trivial⟩
      | cons f failures => exact ⟨.inl rfl, trivial⟩
  | shutdown =>
      refine ⟨.inr rfl, ?_⟩
      simp only [Call.start]
      split
      · trivial
      · trivial
  | _ => exact ⟨.inl rfl, trivial⟩

/-- The reply is no signed answer. -/
def Unsigned (env : Env) (_ : State) : Action → Prop
  | .start _ => True
  | .reply _ r => ¬ ∃ data, r.SignedWith env data

/-- Without a signed answer the client stays as `new` made it, but for the host, and
no call has brought anything. -/
structure Untouched (s : State) : Prop where
  client : ∃ disableIpCheck maxConnection host,
    HostOnly (Client.new disableIpCheck maxConnection host) s.client
  calls : ∀ p ∈ s.calls, p.2.Quiet

theorem step_untouched {env : Env} {s s' : State} {a : Action} (hi : Untouched s)
    (hok : Unsigned env s a) (h : step env s a = some s') : Untouched s' := by
  rcases hi.client with ⟨dis, conn, host, hhost⟩
  cases a with
  | start call =>
      cases h
      rcases start_spec s.client call with ⟨hc, hq⟩
      constructor
      · refine ⟨dis, conn, host, ?_⟩
        -- `new` leaves `running` down, and only a signed login raises it
        have hrun : { s.client with running := false } = s.client := by
          rw [hhost]
          rfl
        show HostOnly _ (call.start s.client).1
        rcases hc with hc | hc
        · rw [hc]
          exact hhost
        · rw [hc, hrun]
          exact hhost
      · intro p hp
        rcases List.mem_append.mp hp with hp | hp
        · exact hi.calls p hp
        · rw [List.mem_singleton.mp hp]
          exact hq
  | reply i r =>
      rcases step_reply h with ⟨call, pc, pc', -, hh, hcalls⟩
      rcases handle_spec hh with ⟨hc, hq⟩ | ⟨data, hsigned, -⟩
      · constructor
        · exact ⟨dis, conn, host, hhost.trans hc⟩
        · intro p hp
          rw [hcalls] at hp
          rcases List.mem_or_eq_of_mem_set hp with hp | rfl
          · exact hi.calls p hp
          · exact hq
      · exact absurd ⟨data, hsigned⟩ hok

/-- Only signed answers have effect. Whatever reply a call gets in any run: it is a signed
answer, and the data that the call returns are its lines, or it changes no more than
the host and the call returns nothing from it; the other calls stay where they are. A
call that starts sets `running` to `false` at most. In a run without a signed answer,
the client stays as it was made, but for the host. -/
theorem only_signed_effects (env : Env) :
    (∀ s, (machine env).Reachable s → ∀ i r s', step env s (.reply i r) = some s' →
      (∀ j, j ≠ i → s'.calls[j]? = s.calls[j]?) ∧
      ((∃ data, r.SignedWith env data ∧
          ∀ call d, s'.calls[i]? = some (call, .returned (.data d)) → d = data) ∨
        (HostOnly s.client s'.client ∧
          ∀ call pc, s'.calls[i]? = some (call, pc) → pc.Quiet))) ∧
    (∀ s, (machine env).Reachable s → ∀ call s', step env s (.start call) = some s' →
      (s'.client = s.client ∨ s'.client = { s.client with running := false }) ∧
      ∃ pc : Pc, s'.calls = s.calls ++ [(call, pc)] ∧ pc.Quiet) ∧
    (∀ s, (machine env).Reach (Unsigned env) s → Untouched s) := by
  refine ⟨?_, ?_, ?_⟩
  · intro s _ i r s' h
    -- one reply in an arbitrary state
    rcases step_reply h with ⟨call, pc, pc', hi, hh, hcalls⟩
    have hself : s'.calls[i]? = some (call, pc') := by
      rcases List.getElem?_eq_some_iff.mp hi with ⟨hlt, -⟩
      rw [hcalls, List.getElem?_set_self hlt]
    constructor
    · intro j hj
      rw [hcalls, List.getElem?_set_ne (Ne.symm hj)]
    · rcases handle_spec hh with ⟨hc, hq⟩ | ⟨data, hsigned, hdata⟩
      · right
        refine ⟨hc, ?_⟩
        intro call' pc'' heq
        rw [hself] at heq
        cases heq
        exact hq
      · left
        refine ⟨data, hsigned, ?_⟩
        intro call' d heq
        rw [hself] at heq
        cases heq
        exact hdata d rfl
  · intro s _ call s' h
    cases h
    rcases start_spec s.client call with ⟨hc, hq⟩
    exact ⟨hc, _, rfl, hq⟩
  · intro s hs
    -- a whole run without signed answers
    apply Machine.Reach.invariant (I := Untouched) _ _ hs
    · rintro s ⟨hcalls, dis, conn, host, hclient⟩
      constructor
      · refine ⟨dis, conn, host, ?_⟩
        rw [hclient]
        exact HostOnly.refl _
      · intro p hp
        rw [hcalls] at hp
        cases hp
    · intro s a s' hi hok h
      exact step_untouched hi hok h

/-- A client with the key `k`; the hosts are IPv4 addresses, which `set_host` takes as
they are. -/
def envK : Env := ⟨answerSha1, ['k'], some⟩

/-- A purge list that arrives in the second try, after an expired key and a clock check
that finds no server. -/
theorem only_signed_effects_purge :
    ∃ s r s', (machine envK).Reachable s ∧ step envK s (.reply 0 r) = some s' ∧
      s'.calls[0]? = some (.getPurgelist 43200, .returned (.data ["abc".toList])) ∧
      ∃ data, r.SignedWith envK data := by
  have hr : ∃ s, (machine envK).Reachable s ∧
      s.calls = [(.getPurgelist 43200, .sending 1)] ∧
        s.client = Client.new false 0 defaultServer :=
    Machine.reachable_of_run
      (show (machine envK).init ⟨Client.new false 0 defaultServer, []⟩ from
        ⟨rfl, false, 0, defaultServer, rfl⟩)
      [.start (.getPurgelist 43200), .reply 0 ⟨.ok "KEY_EXPIRED".toList, 0, some⟩,
        .reply 0 ⟨.error true, 0, some⟩]
      _ (by decide +kernel)
  rcases hr with ⟨⟨c, calls⟩, hs, hcalls, hclient⟩
  simp only at hcalls hclient
  subst hcalls hclient
  let r : Reply := ⟨.ok (signedAnswer answerSha1 ['k'] 1 ["abc".toList]), 0, some⟩
  have hstep : step envK ⟨Client.new false 0 defaultServer, [(.getPurgelist 43200, .sending 1)]⟩
      (.reply 0 r) = some ⟨Client.new false 0 defaultServer,
        [(.getPurgelist 43200, .returned (.data ["abc".toList]))]⟩ := by
    decide +kernel
  refine ⟨_, r, _, hs, hstep, rfl, ?_⟩
  rcases ((only_signed_effects envK).1 _ hs 0 r _ hstep).2 with ⟨data, hsigned, -⟩ | ⟨-, hq⟩
  · exact ⟨data, hsigned⟩
  · exact (hq _ _ rfl).elim

end Hath.Rpc
