import Hath.Route.Signature

/-!
# Hath.Route.SpeedTest — speed tests between two clients

A `threaded_proxy_test` command makes this client fetch test data from another one: it
builds URLs `/t/size/time/token/random`, and the peer's `speedtest` checks the token
and answers with `size` random bytes. Both ends are here: `servercmd` with its
commands, the URLs, the peer's route, and `random_response`.

A URL is kept as its parts; `url` writes the path as it is given, since it consists of
digits, a sign, hexadecimal digits and slashes. Differences of times are exact: a clock
is far from the ends of an `i64`.

* `bodySize_randomResponse` — the body has the requested size;
* `proxyTest_succeeds_iff` — the peer accepts the URLs if the time of the command is the
  time of the test.
-/

namespace Hath.SpeedTest

open Signature

/-! ## The sender -/

/-- `parse_additional`. -/
def parseAdditional (additional : Text) (key : String) : Option Text :=
  pairMap (additional.splitOn ';') key

/-- The arguments of a `threaded_proxy_test`. -/
structure ProxyTest where
  host : Text
  protocol : Text
  port : Nat
  size : Nat
  count : Nat
  timestamp : Nat
  token : Text
deriving DecidableEq

/-- The arguments in the additional text, with their defaults. -/
def ProxyTest.parse (additional : Text) : ProxyTest :=
  let get := parseAdditional additional
  { host := (get "hostname").getD []
    protocol := (get "protocol").getD "http".toList
    port := ((get "port").bind (parseNat 16)).getD 0
    size := ((get "testsize").bind (parseNat 32)).getD 0
    count := ((get "testcount").bind (parseNat 8)).getD 0
    timestamp := ((get "testtime").bind (parseNat 64)).getD 0
    token := (get "testkey").getD [] }

/-- An argument is missing or does not parse. -/
def ProxyTest.Bad (p : ProxyTest) : Prop :=
  p.host = [] ∨ p.port = 0 ∨ p.size = 0 ∨ p.count = 0 ∨ p.timestamp = 0 ∨ p.token = []

instance (p : ProxyTest) : Decidable p.Bad := inferInstanceAs (Decidable (_ ∨ _))

/-- A URL of the test. -/
structure Url where
  protocol : Text
  host : Text
  port : Nat
  path : Text
deriving DecidableEq

/-- The path of a test URL: size, the time of the command, token and a random number. -/
def testPath (size : Nat) (time : Int) (token : Text) (random : Nat) : Text :=
  "/t/".toList ++ natText size ++ '/' :: intText time ++ '/' :: token ++ '/' :: natText random

/-- The URLs of a test, one for each thread. -/
def ProxyTest.urls (p : ProxyTest) (time : Int) (random : Nat → Nat) : List Url :=
  (List.range p.count).map fun i =>
    ⟨p.protocol, p.host, p.port, testPath p.size time p.token (random i)⟩

/-- What `servercmd` does. -/
inductive Reaction where
  | badRequest
  | forbidden
  /-- `I feel FANTASTIC and I'm still alive`. -/
  | stillAlive
  /-- Fetch the URLs and report how many have the size. -/
  | proxyTest (size : Nat) (urls : List Url)
  /-- `random_response`. -/
  | random (size : Nat)
  /-- Send the command to the main loop. -/
  | send (command : Command)
  | invalidCommand
deriving DecidableEq

/-- A client with its id and key, and SHA-1. -/
structure Client where
  sha1 : Bytes → Digest
  id : Int
  key : Text

/-- `MAX_KEY_TIME_DRIFT.contains(&(clock - time))`. -/
def WithinDrift (clock time : Int) : Prop := -300 ≤ clock - time ∧ clock - time ≤ 300

instance (clock time : Int) : Decidable (WithinDrift clock time) :=
  inferInstanceAs (Decidable (_ ∧ _))

/-- `servercmd` on the segments of its path. `validServer` is the check of the address the
request comes from. -/
def servercmd (c : Client) (table : Text → Char → Text → Text) (validServer : Bool) (clock : Int)
    (random : Nat → Nat) (command additional timeText hash : Text) : Reaction :=
  match parseInt 64 timeText with
  | none => .badRequest
  | some time =>
      if !validServer then .forbidden
      else if ¬ WithinDrift clock time ∨
          stringToHash c.sha1 (servercmdString command additional c.id time c.key) ≠ hash then
        .forbidden
      else
        match dispatch table command with
        | some .stillAlive => .stillAlive
        | some .threadedProxyTest =>
            let p := ProxyTest.parse additional
            if p.Bad then .badRequest else .proxyTest p.size (p.urls time random)
        | some .speedTest =>
            .random (((parseAdditional additional "testsize").bind (parseNat 64)).getD 1000000)
        | some command => .send command
        | none => .invalidCommand

/-! ## The peer -/

/-- What the peer answers. -/
inductive Response where
  | badRequest
  | forbidden
  | notFound
  | ok (body : List Bytes)
deriving DecidableEq

def bufferSize : Nat := 16384

/-- The chunks of `random_response`, with `filled` bytes sent: full buffers, and a part of
one at the end. -/
def chunks (buffer : Bytes) (size filled : Nat) : List Bytes :=
  if filled < size then
    buffer.take (min (size - filled) bufferSize) ::
      chunks buffer size (filled + min (size - filled) bufferSize)
  else []
termination_by size - filled
decreasing_by
  unfold bufferSize
  omega

/-- `random_response`, with the random bytes of its buffer. -/
def randomResponse (buffer : Bytes) (size : Nat) : Response := .ok (chunks buffer size 0)

/-- `speedtest`. -/
def speedtest (c : Client) (clock : Int) (buffer : Bytes) (size : Nat) (time : Int) (hash : Text) :
    Response :=
  if ¬ WithinDrift clock time ∨ stringToHash c.sha1 (speedtestString size time c.id c.key) ≠ hash
  then .forbidden
  else randomResponse buffer size

/-- The route `/t/{size}/{time}/{hash}/{random}`. -/
def route (c : Client) (clock : Int) (buffer : Bytes) (path : Text) : Response :=
  match path.splitOn '/' with
  | [[], ['t'], size, time, hash, _] =>
      match parseNat 64 size, parseInt 64 time with
      | some size, some time => speedtest c clock buffer size time hash
      | _, _ => .badRequest
  | _ => .notFound

/-- The sender counts the answer as a success: all of its body arrives and has the size. -/
def Response.Succeeds (size : Nat) : Response → Prop
  | .ok body => (body.map List.length).sum = size
  | _ => False

/-! ## Bodies -/

/-- The body has the size that was asked for. -/
theorem chunks_length {buffer : Bytes} (hb : buffer.length = bufferSize) (size filled : Nat) :
    ((chunks buffer size filled).map List.length).sum = size - filled := by
  induction hn : size - filled using Nat.strongRecOn generalizing filled with
  | ind n ih =>
      rw [chunks]
      split
      · rename_i hlt
        have hstep : 0 < min (size - filled) bufferSize := by
          unfold bufferSize
          omega
        rw [List.map_cons, List.sum_cons, List.length_take, hb,
          ih _ (by omega) (filled + min (size - filled) bufferSize) rfl]
        omega
      · rw [List.map_nil, List.sum_nil]
        omega

theorem bodySize_randomResponse {buffer : Bytes} (hb : buffer.length = bufferSize) (size : Nat) :
    (randomResponse buffer size).Succeeds size := by
  show ((chunks buffer size 0).map List.length).sum = size
  rw [chunks_length hb, Nat.sub_zero]

/-! ## Both ends -/

/-- A test URL arrives at the peer's handler with the fields it was made of. -/
theorem route_testPath {c : Client} {clock : Int} {buffer : Bytes} {size : Nat} {time : Int}
    {token : Text} {random : Nat} (hsize : size < 2 ^ 64) (hlow : -2 ^ 63 ≤ time)
    (hhigh : time < 2 ^ 63) (htoken : '/' ∉ token) :
    route c clock buffer (testPath size time token random) =
      speedtest c clock buffer size time token := by
  have hnat : ∀ n, '/' ∉ natText n := fun n => not_mem_natText (by decide)
  have htime : '/' ∉ intText time := by
    rcases intText_eq time with ⟨-, h⟩ | ⟨-, h⟩
    · rw [h]
      exact hnat _
    · rw [h]
      intro hm
      rcases List.mem_cons.mp hm with hm | hm
      · exact absurd hm (by decide)
      · exact hnat _ hm
  have hsplit : (testPath size time token random).splitOn '/' =
      [[], ['t'], natText size, intText time, token, natText random] := by
    have hform : testPath size time token random = [] ++ '/' :: (['t'] ++ '/' :: (natText size ++
        '/' :: (intText time ++ '/' :: (token ++ '/' :: natText random)))) := by
      have hpre : "/t/".toList = ['/', 't', '/'] := by decide
      unfold testPath
      simp [hpre]
    rw [hform, List.splitOn_append_cons_self_of_not_mem (by decide),
      List.splitOn_append_cons_self_of_not_mem (by decide),
      List.splitOn_append_cons_self_of_not_mem (hnat size),
      List.splitOn_append_cons_self_of_not_mem htime,
      List.splitOn_append_cons_self_of_not_mem htoken, List.splitOn_eq_singleton (hnat random)]
  have hparse : parseInt 64 (intText time) = some time := parseInt_intText hlow hhigh
  unfold route
  rw [hsplit]
  simp only [parseNat_natText hsize, hparse]

/-- What it takes for `servercmd` to run a test. -/
theorem servercmd_proxyTest {c : Client} {table : Text → Char → Text → Text} {validServer : Bool}
    {clock : Int} {random : Nat → Nat} {command additional timeText hash : Text} {size : Nat}
    {urls : List Url}
    (h : servercmd c table validServer clock random command additional timeText hash =
      .proxyTest size urls) :
    ∃ time, parseInt 64 timeText = some time ∧ WithinDrift clock time ∧
      ¬ (ProxyTest.parse additional).Bad ∧ size = (ProxyTest.parse additional).size ∧
      urls = (ProxyTest.parse additional).urls time random := by
  unfold servercmd at h
  split at h
  · cases h
  · rename_i time htime
    split at h
    · cases h
    · split at h
      · cases h
      · rename_i hcheck
        split at h
        · cases h
        · simp only at h
          split at h
          · cases h
          · rename_i hbad
            cases h
            refine ⟨time, htime, ?_, hbad, rfl, rfl⟩
            by_contra hdrift
            exact hcheck (.inl hdrift)
        · cases h
        · cases h
        · cases h

theorem parse_size_lt (additional : Text) : (ProxyTest.parse additional).size < 2 ^ 64 := by
  unfold ProxyTest.parse
  simp only
  cases h : (parseAdditional additional "testsize").bind (parseNat 32) with
  | none => decide
  | some size =>
      rcases Option.bind_eq_some_iff.mp h with ⟨s, -, hs⟩
      have hlt := parseNat_lt hs
      rw [Option.getD_some]
      omega

/-- A test whose token was made for the peer, with the time of the test within the
peer's drift: the peer accepts every URL of it, and the sender counts a success,
exactly if the command was sent at the time of the test (or at one with the same
hash). -/
theorem proxyTest_succeeds_iff {sender peer : Client} {table : Text → Char → Text → Text}
    {validServer : Bool} {clock peerClock time : Int} {random : Nat → Nat} {buffer : Bytes}
    {command additional timeText hash : Text} {p : ProxyTest} {urls : List Url}
    (hp : ProxyTest.parse additional = p)
    (hcmd : servercmd sender table validServer clock random command additional timeText hash =
      .proxyTest p.size urls)
    (htime : parseInt 64 timeText = some time)
    (htoken : p.token =
      stringToHash peer.sha1 (speedtestString p.size p.timestamp peer.id peer.key))
    (hdrift : WithinDrift peerClock p.timestamp) (hb : buffer.length = bufferSize) :
    (∀ url ∈ urls, (route peer peerClock buffer url.path).Succeeds p.size) ↔
      time = p.timestamp ∨ (WithinDrift peerClock time ∧
        stringToHash peer.sha1 (speedtestString p.size time peer.id peer.key) =
          stringToHash peer.sha1 (speedtestString p.size p.timestamp peer.id peer.key)) := by
  rcases servercmd_proxyTest hcmd with ⟨t, ht, -, hgood, -, hurls⟩
  rw [Option.some.inj (ht.symm.trans htime)] at hurls
  have hsize := parse_size_lt additional
  rw [hp] at hgood hurls hsize
  rcases parseInt_bounds htime with ⟨hlow, hhigh⟩
  have hslash : '/' ∉ p.token := by
    rw [htoken]
    exact not_mem_stringToHash (by decide)
  have hcount : 0 < p.count := by
    apply Nat.pos_of_ne_zero
    intro h0
    exact hgood (.inr (.inr (.inr (.inl h0))))
  -- every URL meets the same check
  have hroute : ∀ r, route peer peerClock buffer (testPath p.size time p.token r) =
      speedtest peer peerClock buffer p.size time p.token := fun r =>
    route_testPath hsize hlow hhigh hslash
  have hall : (∀ url ∈ urls, (route peer peerClock buffer url.path).Succeeds p.size) ↔
      (speedtest peer peerClock buffer p.size time p.token).Succeeds p.size := by
    rw [hurls]
    constructor
    · intro h
      rw [← hroute (random 0)]
      exact h _ (List.mem_map.mpr ⟨0, List.mem_range.mpr hcount, rfl⟩)
    · intro h url hurl
      rcases List.mem_map.mp hurl with ⟨i, -, rfl⟩
      rw [hroute]
      exact h
  rw [hall, htoken, speedtest]
  by_cases hpass : WithinDrift peerClock time ∧
      stringToHash peer.sha1 (speedtestString p.size time peer.id peer.key) =
        stringToHash peer.sha1 (speedtestString p.size p.timestamp peer.id peer.key)
  · rw [if_neg (by rintro (h | h); exacts [h hpass.1, h hpass.2])]
    exact ⟨fun _ => .inr hpass, fun _ => bodySize_randomResponse hb _⟩
  · rw [if_pos (by by_contra hno; exact hpass ⟨by_contra fun h => hno (.inl h),
      by_contra fun h => hno (.inr h)⟩)]
    constructor
    · intro h
      exact h.elim
    · rintro (rfl | h)
      · exact absurd ⟨hdrift, rfl⟩ hpass
      · exact absurd h hpass

/-! ## Two tests

The client 1 is told at 1700000000 to fetch 20000 bytes in two threads from the client 2,
in a test of that second and in one of ten seconds before. -/

/-- SHA-1 of `hentai@home-speedtest-20000-1700000000-2-p`. -/
def sameDigest : Digest :=
  #v[0x65, 0x19, 0x86, 0x78, 0xa6, 0x69, 0xc1, 0xac, 0x07, 0x1b, 0xed, 0xd4, 0x2a, 0xe5, 0xd5, 0xce,
    0x84, 0x42, 0xc7, 0x87]

/-- SHA-1 of `hentai@home-speedtest-20000-1699999990-2-p`. -/
def earlierDigest : Digest :=
  #v[0x66, 0xa9, 0x74, 0xf0, 0x16, 0xee, 0xab, 0x41, 0x11, 0x52, 0x75, 0x14, 0x19, 0xcc, 0x8a, 0x4b,
    0x7e, 0x0a, 0xe0, 0xaf]

/-- The arguments of a test, as `servercmd` reads them. -/
def testArguments (testtime : Nat) (token : Digest) : ProxyTest :=
  ⟨"127.0.0.1".toList, "http".toList, 443, 20000, 2, testtime, encode token.toList⟩

/-- The additional text of the command. -/
def testAdditional (testtime : Nat) (token : Digest) : Text :=
  "hostname=127.0.0.1".toList ++ ";port=443".toList ++ ";testsize=20000".toList ++
    ";testcount=2".toList ++ ";testtime=".toList ++ natText testtime ++ ";testkey=".toList ++
    encode token.toList

/-- SHA-1 of the strings of the two tests. -/
def testSha1 : Bytes → Digest := sha1Table
  [(speedtestString 20000 1700000000 2 ['p'], sameDigest),
   (speedtestString 20000 1699999990 2 ['p'], earlierDigest),
   (servercmdString "threaded_proxy_test".toList (testAdditional 1700000000 sameDigest) 1
      1700000000 ['k'],
    #v[0x99, 0x9d, 0xd0, 0x30, 0x9f, 0x9c, 0xa1, 0x32, 0xdf, 0xeb, 0xe0, 0x18, 0xdf, 0x91, 0x7a, 0xec,
    0x92, 0x2d, 0x7c, 0x04]),
   (servercmdString "threaded_proxy_test".toList (testAdditional 1699999990 earlierDigest) 1
      1700000000 ['k'],
    #v[0xc6, 0x17, 0x71, 0xd4, 0xfa, 0x06, 0x9d, 0x8e, 0x69, 0x2d, 0x29, 0xd7, 0x24, 0x5b, 0xb8, 0x8f,
    0x12, 0x4b, 0x3f, 0xad])]

def testSender : Client := ⟨testSha1, 1, ['k']⟩

def testPeer : Client := ⟨testSha1, 2, ['p']⟩

/-- The command, with the hash it is signed with. -/
def testReaction (testtime : Nat) (token : Digest) : Reaction :=
  servercmd testSender (fun _ c _ => [c]) true 1700000000 (fun i => i)
    "threaded_proxy_test".toList (testAdditional testtime token) (natText 1700000000)
    (stringToHash testSha1 (servercmdString "threaded_proxy_test".toList
      (testAdditional testtime token) 1 1700000000 ['k']))

/-- A command sent at the time of its test. -/
theorem proxyTest_succeeds_same_time :
    testReaction 1700000000 sameDigest =
      .proxyTest 20000 ((testArguments 1700000000 sameDigest).urls 1700000000 (fun i => i)) ∧
    ∀ url ∈ (testArguments 1700000000 sameDigest).urls 1700000000 (fun i => i),
      (route testPeer 1700000123 (List.replicate bufferSize 0) url.path).Succeeds 20000 := by
  have hp : ProxyTest.parse (testAdditional 1700000000 sameDigest) =
      testArguments 1700000000 sameDigest := by
    decide +kernel
  have hcmd : testReaction 1700000000 sameDigest =
      .proxyTest 20000 ((testArguments 1700000000 sameDigest).urls 1700000000 (fun i => i)) := by
    decide +kernel
  have htime : parseInt 64 (natText 1700000000) = some 1700000000 := by decide +kernel
  have htoken : encode sameDigest.toList =
      stringToHash testPeer.sha1 (speedtestString 20000 1700000000 testPeer.id testPeer.key) := by
    decide +kernel
  have hdrift : WithinDrift 1700000123 1700000000 := by decide
  refine ⟨hcmd, ?_⟩
  exact (proxyTest_succeeds_iff hp hcmd htime htoken hdrift List.length_replicate).mpr (.inl rfl)

/-- A command sent ten seconds after the time of its test, with a token made for the peer
and a peer whose clock is exact: the peer refuses. -/
theorem proxyTest_refused :
    testReaction 1699999990 earlierDigest =
      .proxyTest 20000 ((testArguments 1699999990 earlierDigest).urls 1700000000 (fun i => i)) ∧
    encode earlierDigest.toList =
      stringToHash testSha1 (speedtestString 20000 1699999990 2 ['p']) ∧
    WithinDrift 1700000000 1699999990 ∧
    ¬ ∀ url ∈ (testArguments 1699999990 earlierDigest).urls 1700000000 (fun i => i),
      (route testPeer 1700000000 (List.replicate bufferSize 0) url.path).Succeeds 20000 := by
  refine ⟨by decide +kernel, by decide +kernel, by decide, ?_⟩
  intro h
  have hrefused : route testPeer 1700000000 (List.replicate bufferSize 0)
      (testPath 20000 1700000000 (encode earlierDigest.toList) 0) = .forbidden := by
    decide +kernel
  have hfirst := h ⟨"http".toList, "127.0.0.1".toList, 443,
    testPath 20000 1700000000 (encode earlierDigest.toList) 0⟩
    (List.mem_map.mpr ⟨0, by decide, rfl⟩)
  rw [hrefused] at hfirst
  exact hfirst

end Hath.SpeedTest
