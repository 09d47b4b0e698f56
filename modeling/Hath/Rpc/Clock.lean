import Hath.CacheManager.Cleaner
import Hath.Route.SpeedTest
import Hath.Rpc.Client

/-!
# Hath.Rpc.Clock — the clock of the RPC server

`check_stat` sets the clock offset from the `server_time` of a signed answer and from the
time the request took; `get_timestemp` adds it to the clock. What the client signs, and the
commands it takes from the server, are dated with the result.

Here the two sides have clocks of the same rate, and times are nanoseconds of the server's
clock: the client's shows `skew` more. The client is that of `Hath.Rpc.Client`.

* `checkStat_close` — what the offset is after a check;
* `timestemp_close` — what the client takes for the time of the server then;
* `servercmd_fresh` — which commands are in time.
-/

namespace Hath.Rpc

open Lib
open Cleaner (HasDate unixSeconds fromUnixTime)
open SpeedTest (WithinDrift servercmd)
open Signature (servercmdString)

/-! ## Definitions -/

/-- A time that `chrono` has a date for. -/
def dated (time : Int) : Option Int := if HasDate (unixSeconds time) then some time else none

/-- The offset that `check_stat` stores: `num_seconds` is truncated towards zero. -/
def syncOffset (requestTime now serverTime : Int) : Option Int :=
  (dated (fromUnixTime serverTime)).bind fun time =>
    (dated (time + requestTime / 4)).map fun time => (time - now).tdiv (fromUnixTime 1)

/-- `TimeDelta::try_seconds(secs).unwrap_or_default()`. -/
def trySeconds (secs : Int) : Int :=
  if -9223372036854775 ≤ secs ∧ secs ≤ 9223372036854775 then fromUnixTime secs else 0

/-- `get_timestemp`; `again` is the second reading of the clock. -/
def timestemp (offset now again : Int) : Int :=
  unixSeconds ((dated (now + trySeconds offset)).getD again)

/-- A request for the state of the server: when it is sent, when the server reads its clock
for the answer, when the answer has been received and when the client reads its own. -/
structure Exchange where
  sent : Int
  stamped : Int
  received : Int
  handled : Int

/-- The times of this era, with a wide margin. -/
def Plausible (time : Int) : Prop := 0 ≤ time ∧ time ≤ fromUnixTime 4000000000000

/-- It takes no more than the given seconds. -/
structure Exchange.Timed (x : Exchange) (seconds : Nat) : Prop where
  first : Plausible x.sent
  last : Plausible x.handled
  stamped : x.sent ≤ x.stamped
  received : x.stamped ≤ x.received
  handled : x.received ≤ x.handled
  within : x.handled ≤ x.sent + fromUnixTime seconds

/-- What `check_stat` makes of the answer. -/
def Exchange.offset (x : Exchange) (skew : Int) : Int → Option Int :=
  syncOffset (x.received - x.sent) (x.handled + skew)

/-- The offset makes up for the skew, up to the resolution and the request. -/
def Close (skew : Int) (seconds : Nat) (offset : Int) : Prop :=
  -fromUnixTime (2 + seconds) < fromUnixTime offset + skew ∧
    4 * (fromUnixTime offset + skew) < fromUnixTime (4 + seconds)

/-- A signed answer to `server_stat` has the time at which the server has made it. -/
def Honest (env : Env) (skew : Int) (seconds : Nat) (s : State) : Action → Prop
  | .start _ => True
  | .reply i r =>
      ∀ call pc, s.calls[i]? = some (call, pc) → (pc = .loginStat ∨ ∃ n, pc = .syncing n) →
        ∀ body, r.result = .ok body →
          (parseResponse env.sha1 env.key s.client.host body).isOk = true →
          ∃ x : Exchange, x.Timed seconds ∧ r.offset = x.offset skew ∧
            ((parseResponse env.sha1 env.key s.client.host body).toMap "server_time").bind
              (parseInt 64) = some (unixSeconds x.stamped)

/-- A `login` is past its clock check. -/
def Pc.Passed : Pc → Prop
  | .sending _ | .syncing _ | .returned (.init _) => True
  | _ => False

/-! ## The offset -/

section

variable {skew : Int} {seconds : Nat}

theorem tdiv_close (d : Int) : d - fromUnixTime 1 < fromUnixTime (d.tdiv (fromUnixTime 1)) ∧
    fromUnixTime (d.tdiv (fromUnixTime 1)) < d + fromUnixTime 1 := by
  have hpos : 0 < fromUnixTime 1 := by decide
  have hsum := Int.mul_tdiv_add_tmod d (fromUnixTime 1)
  have hlt := Int.tmod_lt_of_pos d hpos
  have hgt := Int.lt_tmod_of_pos d hpos
  unfold fromUnixTime at *
  omega

theorem dated_of_plausible {time : Int} (hlow : -fromUnixTime 8000000000000 ≤ time)
    (hhigh : time ≤ fromUnixTime 8000000000000) : dated time = some time := by
  unfold dated
  rw [if_pos]
  unfold HasDate unixSeconds
  unfold fromUnixTime at *
  omega

/-- The offset of a timed exchange is close. -/
theorem Exchange.Timed.offset {x : Exchange} (h : x.Timed seconds) (skew : Int) :
    ∃ offset, x.offset skew (unixSeconds x.stamped) = some offset ∧ Close skew seconds offset := by
  rcases h with ⟨⟨hsent, hsent'⟩, ⟨hhandled, hhandled'⟩, hstamped, hreceived, hlast, hwithin⟩
  have htime : fromUnixTime (unixSeconds x.stamped) ≤ x.stamped ∧
      x.stamped < fromUnixTime (unixSeconds x.stamped) + fromUnixTime 1 := by
    unfold fromUnixTime unixSeconds
    omega
  have hdated : dated (fromUnixTime (unixSeconds x.stamped)) =
      some (fromUnixTime (unixSeconds x.stamped)) := by
    apply dated_of_plausible
    · unfold fromUnixTime at *
      omega
    · unfold fromUnixTime at *
      omega
  have hlater : dated (fromUnixTime (unixSeconds x.stamped) + (x.received - x.sent) / 4) =
      some (fromUnixTime (unixSeconds x.stamped) + (x.received - x.sent) / 4) := by
    apply dated_of_plausible
    · unfold fromUnixTime at *
      omega
    · unfold fromUnixTime at *
      omega
  refine ⟨(fromUnixTime (unixSeconds x.stamped) + (x.received - x.sent) / 4 -
    (x.handled + skew)).tdiv (fromUnixTime 1), ?_, ?_⟩
  · unfold Exchange.offset syncOffset
    rw [hdated, Option.bind_some, hlater, Option.map_some]
  · have hround := tdiv_close (fromUnixTime (unixSeconds x.stamped) + (x.received - x.sent) / 4 -
      (x.handled + skew))
    revert hround
    generalize Int.tdiv _ _ = offset
    intro hround
    unfold Close
    unfold fromUnixTime at *
    omega

/-- What the client takes for the time of the server is behind it by the time the exchange
took and two seconds at most, and ahead by a quarter of it and two. -/
theorem timestemp_close {offset time : Int} (h : Close skew seconds offset)
    (hseconds : seconds ≤ 600) (htime : Plausible time)
    (hskew : Plausible skew ∨ Plausible (-skew)) (again : Int) :
    unixSeconds time - (2 + seconds) ≤ timestemp offset (time + skew) again ∧
      4 * timestemp offset (time + skew) again ≤ 4 * unixSeconds time + 8 + seconds := by
  rcases h with ⟨hlow, hhigh⟩
  have hdelta : trySeconds offset = fromUnixTime offset := by
    unfold trySeconds
    rw [if_pos]
    unfold Plausible fromUnixTime at *
    omega
  have hdated : dated (time + skew + fromUnixTime offset) =
      some (time + skew + fromUnixTime offset) := by
    apply dated_of_plausible
    · unfold Plausible fromUnixTime at *
      omega
    · unfold Plausible fromUnixTime at *
      omega
  unfold timestemp
  rw [hdelta, hdated, Option.getD_some]
  unfold fromUnixTime at hlow hhigh ⊢
  unfold unixSeconds
  omega

end

/-! ## The client -/

section

variable {env : Env} {c c' : Client} {r : Reply}

theorem HostOnly.clockOffset (h : HostOnly c c') : c'.clockOffset = c.clockOffset := by
  rw [show c' = { c with host := c'.host } from h]

theorem updateSettings_clockOffset (env : Env) (c : Client) (map : String → Option Text)
    (choice : Nat) : (updateSettings env c map choice).1.clockOffset = c.clockOffset := by
  unfold updateSettings
  split
  · rfl
  · dsimp only
    split
    · rename_i hchange
      exact (changeServer_hostOnly hchange).clockOffset
    · rfl

theorem onResponse_clockOffset (env : Env) (c : Client) (choice : Nat) (res : ApiResponse)
    (call : Call) : (call.onResponse env c choice res).1.clockOffset = c.clockOffset := by
  cases call with
  | login =>
      simp only [Call.onResponse]
      split
      · split
        · rfl
        · exact updateSettings_clockOffset env c _ choice
      · rfl
  | refreshSettings =>
      simp only [Call.onResponse]
      split
      · exact updateSettings_clockOffset env c _ choice
      · rfl
  | getPurgelist _ | srFetch _ _ _ | dlFetch _ _ _ _ _ | connectCheck | stillAlive _ | dlFails _
    | notifyOverload | shutdown =>
      simp only [Call.onResponse]
      repeat' split
      all_goals rfl

/-- Only a clock check moves the offset, and a login passes by one. -/
theorem handle_clock {call : Call} {pc pc' : Pc} (h : handle env call c r pc = some (c', pc')) :
    (c'.clockOffset = c.clockOffset ∨
      ((pc = .loginStat ∨ ∃ n, pc = .syncing n) ∧ c' = (checkStat env c r).1)) ∧
    (pc'.Passed → pc.Passed ∨
      (pc = .loginStat ∧ c' = (checkStat env c r).1 ∧ ∃ v, (checkStat env c r).2 = .ok v)) := by
  cases pc with
  | loginStat =>
      simp only [handle] at h
      split at h
      · cases h
        exact ⟨.inr ⟨.inl rfl, rfl⟩, fun hpassed => hpassed.elim⟩
      · rename_i hstat
        split at h
        · cases h
          exact ⟨.inr ⟨.inl rfl, rfl⟩, fun hpassed => hpassed.elim⟩
        · cases h
          exact ⟨.inr ⟨.inl rfl, rfl⟩, fun _ => .inr ⟨rfl, rfl, _, hstat⟩⟩
      · rename_i hstat
        cases h
        exact ⟨.inr ⟨.inl rfl, rfl⟩, fun _ => .inr ⟨rfl, rfl, _, hstat⟩⟩
  | sending attempt =>
      refine ⟨.inl ?_, fun _ => .inl trivial⟩
      simp only [handle] at h
      split at h
      · split at h
        · have hspec := retryElsewhere_spec env call c r.choice attempt
          rw [Option.some.inj h] at hspec
          exact hspec.1.clockOffset
        · cases h
          rfl
      · split at h
        · cases h
          rfl
        · split at h
          · have hspec := retryElsewhere_spec env call c r.choice attempt
            rw [Option.some.inj h] at hspec
            exact hspec.1.clockOffset
          · cases h
            exact onResponse_clockOffset env c r.choice _ call
  | syncing attempt =>
      cases h
      exact ⟨.inr ⟨.inr ⟨attempt, rfl⟩, rfl⟩, fun _ => .inl trivial⟩
  | returned out => cases h

/-- After an honest check the offset is close, or the check has failed and left it. -/
theorem checkStat_close {skew : Int} {seconds : Nat}
    (hhonest : ∀ body, r.result = .ok body →
      (parseResponse env.sha1 env.key c.host body).isOk = true →
      ∃ x : Exchange, x.Timed seconds ∧ r.offset = x.offset skew ∧
        ((parseResponse env.sha1 env.key c.host body).toMap "server_time").bind
          (parseInt 64) = some (unixSeconds x.stamped)) :
    Close skew seconds (checkStat env c r).1.clockOffset ∨
      ((checkStat env c r).1 = c ∧ ∀ v, (checkStat env c r).2 ≠ .ok v) := by
  unfold checkStat
  split
  · right
    refine ⟨rfl, ?_⟩
    intro v hv
    cases hv
  · rename_i body hbody
    simp only
    split
    · rename_i hok
      left
      rcases hhonest body hbody hok with ⟨x, htimed, hoffset, htime⟩
      rcases htimed.offset skew with ⟨offset, hx, hclose⟩
      rw [htime, Option.bind_some, hoffset, hx]
      split
      · exact hclose
      · exact hclose
    · right
      refine ⟨rfl, ?_⟩
      intro v hv
      cases hv

end

/-! ## Runs -/

section

variable {env : Env} {skew : Int} {seconds : Nat} {s s' : State}

/-- Once a login has passed, the offset is close. -/
def Synced (skew : Int) (seconds : Nat) (s : State) : Prop :=
  ∀ (i : Nat) (pc : Pc), s.calls[i]? = some (.login, pc) → pc.Passed →
    Close skew seconds s.client.clockOffset

theorem step_synced {a : Action} (hi : Synced skew seconds s)
    (hhonest : Honest env skew seconds s a)
    (h : step env s a = some s') : Synced skew seconds s' := by
  cases a with
  | start call =>
      cases h
      have hclock : (call.start s.client).1.clockOffset = s.client.clockOffset := by
        rcases (start_spec s.client call).1 with hc | hc
        · rw [hc]
        · rw [hc]
      intro i pc hi' hpassed
      show Close skew seconds (call.start s.client).1.clockOffset
      rw [hclock]
      rcases List.mem_append.mp (List.mem_of_getElem? hi') with hmem | hnew
      · rcases List.getElem?_of_mem hmem with ⟨j, hj⟩
        exact hi j pc hj hpassed
      · have heq := List.mem_singleton.mp hnew
        rw [← (Prod.mk.inj heq).1] at heq
        rw [(Prod.mk.inj heq).2] at hpassed
        exact hpassed.elim
  | reply i r =>
      rcases step_reply h with ⟨call, pc, pc', hcall, hhandle, hcalls⟩
      rcases handle_clock hhandle with ⟨hclock, hlogin⟩
      have hcheck := fun hwaits => checkStat_close (c := s.client) (hhonest call pc hcall hwaits)
      -- an offset that is close stays so
      have hkeep : Close skew seconds s.client.clockOffset →
          Close skew seconds s'.client.clockOffset := by
        intro hclose
        rcases hclock with hsame | ⟨hwaits, hsame⟩
        · rw [hsame]
          exact hclose
        · rw [hsame]
          rcases hcheck hwaits with hnew | ⟨hold, -⟩
          · exact hnew
          · rw [hold]
            exact hclose
      intro j pc'' hj hpassed
      rw [hcalls] at hj
      rcases List.mem_or_eq_of_mem_set (List.mem_of_getElem? hj) with hmem | heq
      · rcases List.getElem?_of_mem hmem with ⟨k, hk⟩
        exact hkeep (hi k pc'' hk hpassed)
      · rcases Prod.mk.inj heq with ⟨rfl, rfl⟩
        rcases hlogin hpassed with hbefore | ⟨rfl, hsame, v, hv⟩
        · exact hkeep (hi i pc hcall hbefore)
        · rw [hsame]
          rcases hcheck (.inl rfl) with hnew | ⟨-, hfailed⟩
          · exact hnew
          · exact absurd hv (hfailed v)

theorem synced_of_reach (h : (machine env).Reach (Honest env skew seconds) s) :
    Synced skew seconds s := by
  refine h.invariant (I := Synced skew seconds) ?_ ?_
  · rintro s ⟨hcalls, -⟩ i pc hi
    rw [hcalls] at hi
    cases hi
  · intro s a s' hi hhonest hs
    exact step_synced hi hhonest hs

/-- A rightly signed command from a server is refused for its time only. -/
theorem servercmd_forbidden_iff {peer : SpeedTest.Client} {table : Text → Char → Text → Text}
    {clock time : Int} {random : Nat → Nat} {command additional timeText : Text}
    (htime : parseInt 64 timeText = some time) :
    servercmd peer table true clock random command additional timeText
        (stringToHash peer.sha1 (servercmdString command additional peer.id time peer.key)) =
      .forbidden ↔ ¬ WithinDrift clock time := by
  unfold servercmd
  rw [htime]
  simp only [Bool.not_true, Bool.false_eq_true, if_false, ne_eq, not_true, or_false]
  constructor
  · intro h
    by_contra hwithin
    rw [if_neg (by simpa using hwithin)] at h
    repeat' split at h
    all_goals cases h
  · intro hdrift
    rw [if_pos hdrift]

/-- In every run of the calls with an honest server, after a login has passed its clock
check: a command that the server has signed is taken if it arrives within four minutes, and
refused if it arrives later than five minutes, three seconds and what the check took. -/
theorem servercmd_fresh (h : (machine env).Reach (Honest env skew seconds) s)
    (hseconds : seconds ≤ 200) (hskew : Plausible skew ∨ Plausible (-skew)) {i : Nat} {pc : Pc}
    (hlogin : s.calls[i]? = some (.login, pc)) (hpassed : pc.Passed)
    (signed arrives again : Int) (harrives : Plausible arrives) (horder : signed ≤ arrives)
    (peer : SpeedTest.Client) (table : Text → Char → Text → Text) (random : Nat → Nat)
    (command additional : Text) {timeText : Text}
    (htime : parseInt 64 timeText = some (unixSeconds signed)) :
    (arrives ≤ signed + fromUnixTime 240 →
      servercmd peer table true (timestemp s.client.clockOffset (arrives + skew) again) random
        command additional timeText (stringToHash peer.sha1
          (servercmdString command additional peer.id (unixSeconds signed) peer.key)) ≠
        .forbidden) ∧
    (signed + fromUnixTime (303 + seconds) ≤ arrives →
      servercmd peer table true (timestemp s.client.clockOffset (arrives + skew) again) random
        command additional timeText (stringToHash peer.sha1
          (servercmdString command additional peer.id (unixSeconds signed) peer.key)) =
        .forbidden) := by
  have hclose := synced_of_reach h i pc hlogin hpassed
  rcases timestemp_close hclose (by omega) harrives hskew again with ⟨hlow, hhigh⟩
  rw [ne_eq, servercmd_forbidden_iff htime, not_not]
  unfold WithinDrift
  unfold fromUnixTime
  unfold unixSeconds at hlow hhigh ⊢
  constructor
  · intro hsoon
    omega
  · intro hlate
    omega

end

/-- The server reads its clock a second after the request, and its answer takes three. -/
def statExchange : Exchange where
  sent := fromUnixTime 1600000000
  stamped := fromUnixTime 1600000001
  received := fromUnixTime 1600000004
  handled := fromUnixTime 1600000004

def statReply : Reply where
  result := .ok (signedAnswer answerSha1 ['k'] 1 ["server_time=1600000001".toList])
  choice := 0
  offset := statExchange.offset (fromUnixTime (-90))

theorem statExchange_timed : statExchange.Timed 4 := by
  constructor
  · constructor <;> decide
  · constructor <;> decide
  all_goals decide

/-- A clock that is ninety seconds slow, and a command that arrives after ten seconds. -/
theorem servercmd_fresh_slow :
    ∃ s, (machine envK).Reach (Honest envK (fromUnixTime (-90)) 4) s ∧ s.client.clockOffset = 88 ∧
      servercmd ⟨answerSha1, 1, ['k']⟩ (fun _ c _ => [c]) true
        (timestemp 88 (fromUnixTime 1600000110 + fromUnixTime (-90)) 0) id "still_alive".toList []
        "1600000100".toList (stringToHash answerSha1
          (servercmdString "still_alive".toList [] 1 1600000100 ['k'])) ≠ .forbidden := by
  have hstart : (machine envK).Reach (Honest envK (fromUnixTime (-90)) 4)
      ⟨Client.new false 0 defaultServer, [(.login, .loginStat)]⟩ :=
    .step (s := ⟨Client.new false 0 defaultServer, []⟩) (.start .login)
      (.init ⟨rfl, false, 0, defaultServer, rfl⟩) trivial rfl
  have hstat : step envK ⟨Client.new false 0 defaultServer, [(.login, .loginStat)]⟩
      (.reply 0 statReply) =
      some ⟨{ Client.new false 0 defaultServer with clockOffset := 88 },
        [(.login, .sending 0)]⟩ := by
    decide +kernel
  have hreach := Machine.Reach.step (M := machine envK) (.reply 0 statReply) hstart ?_ hstat
  · refine ⟨_, hreach, rfl, ?_⟩
    exact (servercmd_fresh (i := 0) hreach (by decide) (.inr (by constructor <;> decide)) rfl
      trivial (fromUnixTime 1600000100) (fromUnixTime 1600000110) 0 (by constructor <;> decide) (by decide)
      ⟨answerSha1, 1, ['k']⟩ (fun _ c _ => [c]) id "still_alive".toList [] (by decide +kernel)).1
      (by decide)
  · intro call pc _ _ body hbody _
    obtain rfl := Except.ok.inj hbody
    exact ⟨statExchange, statExchange_timed, rfl, by decide +kernel⟩

end Hath.Rpc
