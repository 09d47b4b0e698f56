import Hath.Route.SpeedTest

/-!
# Hath.Route.Keystamp — the token of a file request

`hath` takes a time and a hash out of the field `keystamp` of the request and compares
the hash with the one it makes itself from the time, the file id and the client's key.
The comparison is `starts_with`, with the text of the request as the beginning: how much
of the token has to be right is up to the request. The checks of `servercmd` and
`speedtest` compare for equality.

* `keystampOk_iff` — the hashes that are accepted;
* `stamp_request` — every time and hash that can be asked for;
* `keystamp_unique_iff` — there is one hash for a time only where there is none.
-/

namespace Hath.Keystamp

open Lib Signature SpeedTest

/-! ## The check -/

/-- The time and the hash of a request: the first two fields of `keystamp`. -/
def stamp (additional : Text) : Text × Text :=
  let fields := ((parseAdditional additional "keystamp").getD []).splitOn '-'
  ((fields[0]?).getD [], (fields[1]?).getD [])

/-- `a - b` at `i64`: an overflow panics in a build with overflow checks and wraps in one
without. -/
def i64Sub (checks : Bool) (a b : Int) : Option Int :=
  if -2 ^ 63 ≤ a - b ∧ a - b < 2 ^ 63 then some (a - b)
  else if checks then none
  else some (BitVec.ofInt 64 (a - b)).toInt

/-- `TTL.contains(time_diff)`; a time that does not parse is zero. A panic is no answer. -/
def withinTtl (checks : Bool) (now : Int) (time : Text) : Bool :=
  match i64Sub checks now ((parseInt 64 time).getD 0) with
  | some diff => -900 ≤ diff && diff ≤ 900
  | none => false

section

variable (sha1 : Bytes → Digest) (key : Text) (checks : Bool) (now : Int) (fileId : Text)

/-- The token of a time. -/
def token (time : Text) : Text := stringToHash sha1 (hathString time fileId key)

/-- The keystamp check of `hath`: the request is not answered with 403. -/
def keystampOk (additional : Text) : Bool :=
  let (time, hash) := stamp additional
  !(time.isEmpty || hash.isEmpty || !withinTtl checks now time ||
    !hash.isPrefixOf (token sha1 key fileId time))

/-- At most one hash is accepted for a time, over all requests. -/
def Unique (time : Text) : Prop :=
  ∀ additional additional', (stamp additional).1 = time → (stamp additional').1 = time →
    keystampOk sha1 key checks now fileId additional = true →
    keystampOk sha1 key checks now fileId additional' = true →
    (stamp additional).2 = (stamp additional').2

end

/-! ## Requests -/

/-- A text that a request can have in a field of its keystamp. -/
def Field (s : Text) : Prop := '-' ∉ s ∧ ';' ∉ s ∧ '=' ∉ s

instance (s : Text) : Decidable (Field s) := inferInstanceAs (Decidable (_ ∧ _))

/-- The request with this time and this hash. -/
def request (time hash : Text) : Text := "keystamp=".toList ++ time ++ '-' :: hash

theorem stamp_request {time hash : Text} (ht : Field time) (hh : Field hash) :
    stamp (request time hash) = (time, hash) := by
  rcases ht with ⟨htdash, htsemi, hteq⟩
  rcases hh with ⟨hhdash, hhsemi, hheq⟩
  have hshape : request time hash = "keystamp".toList ++ '=' :: (time ++ '-' :: hash) := by
    unfold request
    simp
  have hsemi : ';' ∉ request time hash := by
    rw [hshape]
    simp [htsemi, hhsemi]
  have heq : '=' ∉ time ++ '-' :: hash := by
    simp [hteq, hheq]
  have hvalue : parseAdditional (request time hash) "keystamp" = some (time ++ '-' :: hash) := by
    unfold parseAdditional pairMap pairs
    rw [List.splitOn_eq_singleton hsemi, List.filterMap_cons_some (b := ("keystamp".toList,
      time ++ '-' :: hash))]
    · rfl
    · rw [hshape, List.splitOn_append_cons_self_of_not_mem (by decide),
        List.splitOn_eq_singleton heq]
  unfold stamp
  rw [hvalue, Option.getD_some, List.splitOn_append_cons_self_of_not_mem htdash,
    List.splitOn_eq_singleton hhdash]
  rfl

/-- The value of a field in the additional text has none of its separators. -/
theorem parseAdditional_some {additional value : Text} {key : String}
    (h : parseAdditional additional key = some value) : ';' ∉ value ∧ '=' ∉ value := by
  rcases List.lookup_eq_some_iff.mp h with ⟨front, back, hlist, -⟩
  have hmem : (key.toList, value) ∈ pairs (additional.splitOn ';') := by
    rw [← List.mem_reverse, hlist]
    exact List.mem_append_right front List.mem_cons_self
  rcases List.mem_filterMap.mp hmem with ⟨kv, hkv, hpair⟩
  split at hpair
  · rename_i k v rest hsplit
    cases hpair
    have hvalue : value ∈ kv.splitOn '=' := by
      rw [hsplit]
      exact List.mem_cons_of_mem _ List.mem_cons_self
    refine ⟨?_, Separated.not_mem_of_mem_splitOn hvalue⟩
    intro hsemi
    exact Separated.not_mem_of_mem_splitOn hkv (Separated.mem_of_mem_splitOn hvalue hsemi)
  · cases hpair

/-- The time of a request is such a text. -/
theorem field_stamp (additional : Text) : Field (stamp additional).1 := by
  have hkeystamp : ';' ∉ (parseAdditional additional "keystamp").getD [] ∧
      '=' ∉ (parseAdditional additional "keystamp").getD [] := by
    cases hvalue : parseAdditional additional "keystamp" with
    | none => exact ⟨List.not_mem_nil, List.not_mem_nil⟩
    | some value => exact parseAdditional_some hvalue
  show Field ((((parseAdditional additional "keystamp").getD []).splitOn '-')[0]?.getD [])
  generalize (parseAdditional additional "keystamp").getD [] = keystamp at hkeystamp ⊢
  cases htime : (keystamp.splitOn '-')[0]? with
  | none =>
      rw [Option.getD_none]
      exact ⟨List.not_mem_nil, List.not_mem_nil, List.not_mem_nil⟩
  | some time =>
      have hmem := List.mem_of_getElem? htime
      refine ⟨Separated.not_mem_of_mem_splitOn hmem, ?_, ?_⟩
      · intro hsemi
        exact hkeystamp.1 (Separated.mem_of_mem_splitOn hmem hsemi)
      · intro heq
        exact hkeystamp.2 (Separated.mem_of_mem_splitOn hmem heq)

/-! ## Tokens -/

section

variable {sha1 : Bytes → Digest} {key : Text} {checks : Bool} {now : Int} {fileId : Text}

/-- The hashes that are accepted for a time. -/
theorem keystampOk_iff {additional : Text} :
    keystampOk sha1 key checks now fileId additional = true ↔
      (stamp additional).1 ≠ [] ∧ (stamp additional).2 ≠ [] ∧
        withinTtl checks now (stamp additional).1 = true ∧
        (stamp additional).2 <+: token sha1 key fileId (stamp additional).1 := by
  unfold keystampOk
  simp only [Bool.not_eq_true', Bool.or_eq_false_iff, List.isEmpty_eq_false_iff, ne_eq,
    Bool.not_eq_false', List.isPrefixOf_iff_prefix, and_assoc]

theorem token_length (time : Text) : (token sha1 key fileId time).length = 40 :=
  stringToHash_length sha1 _

theorem field_take_token (time : Text) (n : Nat) :
    Field ((token sha1 key fileId time).take n) := by
  have hnot {c : Char} (hc : isLowerHex c = false) : c ∉ (token sha1 key fileId time).take n :=
    fun hm => not_mem_stringToHash hc (List.mem_of_mem_take hm)
  exact ⟨hnot (by decide), hnot (by decide), hnot (by decide)⟩

/-- Any number of leading characters of the token passes. -/
theorem shortened_passes {time : Text} (ht : Field time) (hne : time ≠ [])
    (httl : withinTtl checks now time = true) {n : Nat} (hn : 0 < n) :
    keystampOk sha1 key checks now fileId
      (request time ((token sha1 key fileId time).take n)) = true := by
  rw [keystampOk_iff, stamp_request ht (field_take_token time n)]
  refine ⟨hne, ?_, httl, List.take_prefix _ _⟩
  intro hnil
  have hlen := congrArg List.length hnil
  rw [List.length_take, token_length, List.length_nil] at hlen
  omega

end

/-- **At most one hash is accepted for a time only if none is**: for an empty time, for one
outside the TTL, or for a text that is the time of no request. -/
theorem keystamp_unique_iff (sha1 : Bytes → Digest) (key : Text) (checks : Bool) (now : Int)
    (fileId time : Text) :
    Unique sha1 key checks now fileId time ↔
      time = [] ∨ withinTtl checks now time = false ∨ ¬ Field time := by
  constructor
  · intro hunique
    by_contra hnot
    rw [not_or, not_or, not_not, Bool.not_eq_false] at hnot
    rcases hnot with ⟨hne, httl, hfield⟩
    have hpass (n : Nat) (hn : 0 < n) : keystampOk sha1 key checks now fileId
        (request time ((token sha1 key fileId time).take n)) = true :=
      shortened_passes hfield hne httl hn
    -- one character of the token, and all of them
    have heq := hunique _ _ (by rw [stamp_request hfield (field_take_token time 1)])
      (by rw [stamp_request hfield (field_take_token time 40)]) (hpass 1 (by decide))
      (hpass 40 (by decide))
    rw [stamp_request hfield (field_take_token time 1),
      stamp_request hfield (field_take_token time 40)] at heq
    have hlen := congrArg List.length heq
    simp only [List.length_take, token_length] at hlen
    revert hlen
    decide
  · intro hnone additional additional' htime _ hok _
    rcases keystampOk_iff.mp hok with ⟨hne, -, httl, -⟩
    rw [htime] at hne httl
    rcases hnone with hempty | hout | hfield
    · exact absurd hempty hne
    · rw [hout] at httl
      cases httl
    · exact absurd (htime ▸ field_stamp additional) hfield

/-- The SHA-1 of the string that is hashed for the file `abc` at a time. -/
def stampDigest : Digest :=
  #v[0xeb, 0x35, 0x6b, 0xc2, 0xe0, 0x15, 0xeb, 0x61, 0xa7, 0x8b, 0xf3, 0x28, 0x5b, 0xf3, 0x6a, 0x6b,
    0xb8, 0xe6, 0x06, 0xca]

def stampSha1 : Bytes → Digest := sha1Table
  [("1700000000-a9993e364706816aba3e25717850c26c9cd0d89d-3-jpg-key-hotlinkthis".toList,
    stampDigest)]

/-- The first character of the token is as good as the token. -/
theorem one_character_passes :
    let ok := keystampOk stampSha1 "key".toList true 1700000000 abcInfo.fileName
    ok "keystamp=1700000000-eb356bc2e015eb61a78bf3285bf36a6bb8e606ca".toList = true ∧
      ok "keystamp=1700000000-e".toList = true ∧
      ¬ Unique stampSha1 "key".toList true 1700000000 abcInfo.fileName "1700000000".toList := by
  refine ⟨by decide +kernel, by decide +kernel, ?_⟩
  intro hunique
  have heq := hunique "keystamp=1700000000-eb356bc2e015eb61a78bf3285bf36a6bb8e606ca".toList
    "keystamp=1700000000-e".toList (by decide +kernel) (by decide +kernel) (by decide +kernel)
    (by decide +kernel)
  revert heq
  decide +kernel

end Hath.Keystamp
