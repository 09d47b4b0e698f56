import Hath.Text

/-!
# Hath.Rpc.Response — answers of the RPC servers

`RPCClient::parse_response` reads a status line `OK-time-hash`, checks that the hash
is the SHA-1 of the time, the client's key and the lines below, and gives the lines;
any other first line is a status of its own. `to_map` reads lines `key=value`.

* `parseResponse_ok` — an accepted answer is `Signed`;
* `parseResponse_signed_iff` — a signed answer is accepted if its time fits an `i32`.
-/

namespace Hath.Rpc

/-! ## The code -/

/-- `ApiResponse`. -/
structure ApiResponse where
  status : Text
  data : List Text
deriving DecidableEq

namespace ApiResponse

def isOk (res : ApiResponse) : Bool := res.status = "OK".toList

def isKeyExpired (res : ApiResponse) : Bool := res.status = "KEY_EXPIRED".toList

def isHashFail (res : ApiResponse) : Bool := res.status = "RESPONSE_HASH_FAILED".toList

/-- `to_map`. -/
def toMap (res : ApiResponse) (key : String) : Option Text := pairMap res.data key

end ApiResponse

/-- The text that a server signs: time, key and lines. -/
def hashBody (time : Int) (key : Text) (data : List Text) : Text :=
  intText time ++ '-' :: key ++ if data = [] then [] else '\n' :: joinLines data

/-- `RPCClient::parse_response`, with the client's key and the host of `api_base`. -/
def parseResponse (sha1 : Bytes → Digest) (key host res : Text) : ApiResponse :=
  match lines res with
  | [] => ⟨"NO_RESPONSE".toList, []⟩
  | s :: data =>
      if "OK".toList.isPrefixOf s then
        let statusLine := s.splitOn '-'
        let status := statusLine[0]?.getD []
        let time := (statusLine[1]?.bind (parseInt 32)).getD 0
        let hash := statusLine[2]?.getD []
        if hash ≠ [] ∧ stringToHash sha1 (hashBody time key data) = hash then ⟨status, data⟩
        else ⟨"RESPONSE_HASH_FAILED".toList, [host]⟩
      else ⟨s, data⟩

/-! ## Accepted answers -/

/-- The answer is signed with the client's key: its first line is `OK-t-h`, further
fields ignored, and `h` is the hash of the time `t`, read as an `i32` with zero for
what does not parse, and of the lines `data`. -/
def Signed (sha1 : Bytes → Digest) (key res : Text) (data : List Text) : Prop :=
  ∃ first t h more, lines res = first :: data ∧
    first.splitOn '-' = "OK".toList :: t :: h :: more ∧ h ≠ [] ∧
    h = stringToHash sha1 (hashBody ((parseInt 32 t).getD 0) key data)

/-- An answer with status `OK` is signed, and its data are the signed lines. -/
theorem parseResponse_ok {sha1 : Bytes → Digest} {key host res : Text}
    (h : (parseResponse sha1 key host res).isOk = true) :
    Signed sha1 key res (parseResponse sha1 key host res).data := by
  have hstatus : (parseResponse sha1 key host res).status = "OK".toList := of_decide_eq_true h
  clear h
  revert hstatus
  unfold parseResponse
  split
  · intro h
    exact absurd h (by decide)
  · rename_i s data hlines
    split
    · simp only
      split
      · rename_i hash
        intro hok
        simp only at hok
        rcases hash with ⟨hne, hh⟩
        -- the three fields exist, since the third is not empty
        rcases hs : s.splitOn '-' with _ | ⟨a, _ | ⟨t, _ | ⟨b, more⟩⟩⟩
        · simp [hs] at hne
        · simp [hs] at hne
        · simp [hs] at hne
        · simp only [hs, List.getElem?_cons_zero, Option.getD_some, List.getElem?_cons_succ,
            Option.bind_some] at hok hne hh
          refine ⟨s, t, b, more, hlines, ?_, hne, hh.symm⟩
          rw [hs, hok]
      · intro h
        simp only at h
        exact absurd h (by decide)
    · rename_i hok
      intro h
      simp only at h
      rw [h] at hok
      exact absurd rfl hok

/-! ## Signed answers -/

/-- A signed answer as a server sends it. -/
def signedAnswer (sha1 : Bytes → Digest) (key : Text) (t : Nat) (data : List Text) : Text :=
  joinLines (("OK-".toList ++ natText t ++ '-' :: stringToHash sha1 (hashBody t key data)) :: data)

theorem okLine_splitOn (sha1 : Bytes → Digest) (t : Nat) (s : Text) :
    ("OK-".toList ++ natText t ++ '-' :: stringToHash sha1 s).splitOn '-' =
      ["OK".toList, natText t, stringToHash sha1 s] := by
  have hOK : '-' ∉ "OK".toList := by decide
  have hform : "OK-".toList ++ natText t ++ '-' :: stringToHash sha1 s =
      "OK".toList ++ '-' :: (natText t ++ '-' :: stringToHash sha1 s) := by
    rw [show "OK-".toList = "OK".toList ++ ['-'] by decide]
    simp only [List.append_assoc, List.cons_append, List.nil_append]
  rw [hform, List.splitOn_append_cons_self_of_not_mem hOK,
    List.splitOn_append_cons_self_of_not_mem (not_mem_natText (by decide)),
    List.splitOn_eq_singleton (not_mem_stringToHash (by decide))]

theorem okLine_clean (sha1 : Bytes → Digest) (t : Nat) (s : Text) :
    CleanLine ("OK-".toList ++ natText t ++ '-' :: stringToHash sha1 s) := by
  have hmem : ∀ c : Char, c ∉ "OK-".toList → c.isDigit = false → c ≠ '-' →
      isLowerHex c = false → c ∉ "OK-".toList ++ natText t ++ '-' :: stringToHash sha1 s := by
    intro c h1 h2 h3 h4 hc
    rcases List.mem_append.mp hc with hc | hc
    · rcases List.mem_append.mp hc with hc | hc
      · exact h1 hc
      · exact not_mem_natText h2 hc
    · rcases List.mem_cons.mp hc with hc | hc
      · exact h3 hc
      · exact not_mem_stringToHash h4 hc
  refine ⟨?_, ?_, ?_⟩
  · rw [show "OK-".toList = 'O' :: "K-".toList by decide]
    simp
  · exact hmem '\r' (by decide) (by decide) (by decide) (by decide)
  · exact hmem '\n' (by decide) (by decide) (by decide) (by decide)

/-- A signed answer, with or without a newline at its end, is decoded exactly if and only
if its time fits an `i32` (or the hash of the text with the time zero happens to be the
same). -/
theorem parseResponse_signed_iff (sha1 : Bytes → Digest) (key host : Text) (t : Nat)
    (data : List Text) (hdata : ∀ d ∈ data, CleanLine d) (eol : Bool) :
    parseResponse sha1 key host
        (signedAnswer sha1 key t data ++ if eol then ['\n'] else []) = ⟨"OK".toList, data⟩ ↔
      t ≤ 2147483647 ∨
        stringToHash sha1 (hashBody 0 key data) = stringToHash sha1 (hashBody t key data) := by
  have hlines : lines (signedAnswer sha1 key t data ++ if eol then ['\n'] else []) =
      ("OK-".toList ++ natText t ++ '-' :: stringToHash sha1 (hashBody t key data)) :: data := by
    have hclean : ∀ l ∈ ("OK-".toList ++ natText t ++
        '-' :: stringToHash sha1 (hashBody t key data)) :: data, CleanLine l := by
      intro l hl
      rcases List.mem_cons.mp hl with rfl | hl
      · exact okLine_clean sha1 t _
      · exact hdata l hl
    rcases lines_joinLines (List.cons_ne_nil _ _) hclean with ⟨hplain, hnl⟩
    cases eol with
    | false => rw [if_neg (by decide), List.append_nil]; exact hplain
    | true => exact hnl
  have hpre : "OK".toList.isPrefixOf
      ("OK-".toList ++ natText t ++ '-' :: stringToHash sha1 (hashBody t key data)) = true := by
    rw [List.append_assoc, show "OK-".toList = ['O', 'K', '-'] by decide]
    rfl
  have htime : (parseInt 32 (natText t)).getD 0 = if t ≤ 2147483647 then (t : Int) else 0 := by
    rw [parseInt_natText]
    by_cases hle : t ≤ 2147483647
    · rw [if_pos hle, if_pos (by omega), Option.getD_some]
    · rw [if_neg hle, if_neg (by omega), Option.getD_none]
  have hne : stringToHash sha1 (hashBody t key data) ≠ [] := by
    intro h
    have hlen := stringToHash_length sha1 (hashBody t key data)
    rw [h] at hlen
    cases hlen
  unfold parseResponse
  rw [hlines]
  simp only [hpre, if_true, okLine_splitOn, List.getElem?_cons_zero, Option.getD_some,
    List.getElem?_cons_succ, Option.bind_some, htime]
  by_cases hle : t ≤ 2147483647
  · simp [hle, hne]
  · rw [if_neg hle]
    constructor
    · intro h
      right
      by_contra hno
      rw [if_neg (fun hc => hno hc.2)] at h
      have hstatus : "RESPONSE_HASH_FAILED".toList = "OK".toList := congrArg ApiResponse.status h
      exact absurd hstatus (by decide)
    · rintro (h | h)
      · exact absurd h hle
      · rw [if_pos ⟨hne, h⟩]

/-- SHA-1 of the texts of the answers below. -/
def answerSha1 : Bytes → Digest := sha1Table
  [("1-k\nabc".toList, #v[0x91, 0x64, 0x27, 0xe0, 0xe1, 0x12, 0x2e, 0x77, 0x0a, 0x6a, 0xaa, 0x62, 0xa6, 0x01, 0x92, 0xdc,
    0xa8, 0xeb, 0xb9, 0xdc]),
   ("2147483648-k".toList, #v[0xa2, 0x0e, 0x70, 0x59, 0x09, 0x84, 0x15, 0xd0, 0xf4, 0x43, 0x6a, 0x8e, 0x61, 0x61, 0x0c, 0x5b,
    0x52, 0xa0, 0x46, 0x53]),
   ("0-k".toList, #v[0x5d, 0xbd, 0x45, 0x76, 0x56, 0xfd, 0x90, 0xf6, 0x8a, 0x53, 0x37, 0x87, 0x04, 0x3b, 0x47, 0x36,
    0x1a, 0xda, 0xe2, 0xd4])]

/-- An answer of one line. -/
theorem parseResponse_signed_abc :
    parseResponse answerSha1 ['k'] [] (signedAnswer answerSha1 ['k'] 1 ["abc".toList]) =
      ⟨"OK".toList, ["abc".toList]⟩ := by
  have hclean : ∀ d ∈ ["abc".toList], CleanLine d := by
    unfold CleanLine
    decide
  have h := (parseResponse_signed_iff answerSha1 ['k'] [] 1 ["abc".toList] hclean false).mpr
    (.inl (by decide))
  rwa [if_neg (by decide), List.append_nil] at h

/-- The first second that does not fit: the signed answer is refused. -/
theorem signed_answer_refused :
    parseResponse answerSha1 ['k'] "rpc.hentaiathome.net".toList
        (signedAnswer answerSha1 ['k'] 2147483648 []) =
      ⟨"RESPONSE_HASH_FAILED".toList, ["rpc.hentaiathome.net".toList]⟩ ∧
    parseResponse answerSha1 ['k'] "rpc.hentaiathome.net".toList
        (signedAnswer answerSha1 ['k'] 2147483648 []) ≠ ⟨"OK".toList, []⟩ := by
  constructor <;> decide +kernel

end Hath.Rpc
