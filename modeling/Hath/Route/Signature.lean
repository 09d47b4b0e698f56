import Hath.Lib.Separated
import Hath.Text

/-!
# Hath.Route.Signature — the strings that authenticate requests

Three endpoints of the client check a hash that the server made with the client's key,
and `build_url` makes one for every request of the client. The hashed strings join
their fields with dashes and escape nothing; the requests are nevertheless determined
by them.

* `hashString_injective` — for one client, over all accepted requests of all kinds.

The command of a `servercmd` is compared in lower case. Characters outside ASCII are
lowered by a table of their own that may look at the rest of the string (as the rule
for the final sigma does); nothing depends on it.
-/

namespace Hath.Signature

open Lib

/-! ## Commands -/

/-- `str::to_lowercase`, with what stands before the rest of the string. -/
def toLowercaseFrom (table : Text → Char → Text → Text) (before : Text) : Text → Text
  | [] => []
  | c :: rest =>
      (if c.toNat < 128 then [c.toLower] else table before c rest) ++
        toLowercaseFrom table (before ++ [c]) rest

/-- `str::to_lowercase`. -/
def toLowercase (table : Text → Char → Text → Text) (s : Text) : Text :=
  toLowercaseFrom table [] s

/-- The commands that `servercmd` knows. -/
inductive Command where
  | stillAlive
  | threadedProxyTest
  | speedTest
  | refreshSettings
  | startDownloader
  | refreshCerts
deriving DecidableEq, Repr

/-- The names of the commands. -/
def commands : List (Text × Command) :=
  [("still_alive".toList, .stillAlive), ("threaded_proxy_test".toList, .threadedProxyTest),
    ("speed_test".toList, .speedTest), ("refresh_settings".toList, .refreshSettings),
    ("start_downloader".toList, .startDownloader), ("refresh_certs".toList, .refreshCerts)]

/-- The command that `servercmd` runs for a path segment. -/
def dispatch (table : Text → Char → Text → Text) (command : Text) : Option Command :=
  (commands.find? fun p => p.1 = toLowercase table command).map (·.2)

/-! ## Hashed strings -/

/-- The actions that the client sends. -/
def actions : List Text :=
  ["client_login".toList, "get_cert".toList, "get_blacklist".toList, "client_start".toList,
    "client_settings".toList, "srfetch".toList, "dlfails".toList, "fetchqueue".toList,
    "dlfetch".toList, "client_stop".toList, "still_alive".toList, "overload".toList,
    "server_stat".toList]

/-- The string that `servercmd` hashes. -/
def servercmdString (command additional : Text) (id time : Int) (key : Text) : Text :=
  "hentai@home-servercmd-".toList ++ command ++ '-' :: additional ++ '-' :: intText id ++
    '-' :: intText time ++ '-' :: key

/-- The string that `speedtest` hashes. -/
def speedtestString (size : Nat) (time id : Int) (key : Text) : Text :=
  "hentai@home-speedtest-".toList ++ natText size ++ '-' :: intText time ++ '-' :: intText id ++
    '-' :: key

/-- The string that `hath` hashes. -/
def hathString (time fileId key : Text) : Text :=
  time ++ '-' :: fileId ++ '-' :: key ++ "-hotlinkthis".toList

/-- The string that `build_url` hashes. -/
def buildUrlString (action additional : Text) (id timestamp : Int) (key : Text) : Text :=
  "hentai@home-".toList ++ action ++ '-' :: additional ++ '-' :: intText id ++
    '-' :: intText timestamp ++ '-' :: key

/-- The time text of a `hath` request: the first field of its keystamp. -/
def keystampTime (keystamp : Text) : Text := (keystamp.splitOn '-').headD []

/-- What is signed, per endpoint. -/
inductive Request where
  | servercmd (command additional : Text) (time : Int)
  | speedtest (size : Nat) (time : Int)
  | hath (time fileId : Text)
  | buildUrl (action additional : Text) (timestamp : Int)
deriving DecidableEq

/-- The string a request is hashed as by the client with this id and key. -/
def Request.hashString (id : Int) (key : Text) : Request → Text
  | servercmd command additional time => servercmdString command additional id time key
  | speedtest size time => speedtestString size time id key
  | hath time fileId => hathString time fileId key
  | buildUrl action additional timestamp => buildUrlString action additional id timestamp key

/-- The requests that can occur: the command is a known one, the time text of a `hath`
request is the first field of a keystamp, the client sends one of its actions. -/
def Request.Accepted (table : Text → Char → Text → Text) : Request → Prop
  | servercmd command _ _ => (dispatch table command).isSome
  | speedtest _ _ => True
  | hath time _ => ∃ keystamp, time = keystampTime keystamp
  | buildUrl action _ _ => action ∈ actions

/-! ## Fields without a dash -/

/-- A dash stays a dash in lower case. -/
theorem dash_mem_toLowercaseFrom (table : Text → Char → Text → Text) (before : Text) {s : Text}
    (h : '-' ∈ s) : '-' ∈ toLowercaseFrom table before s := by
  induction s generalizing before with
  | nil => cases h
  | cons c rest ih =>
      rw [toLowercaseFrom]
      apply List.mem_append.mpr
      -- a dash is ASCII, so the table is not asked
      rcases List.mem_cons.mp h with rfl | h
      · left
        rw [if_pos (by decide)]
        exact List.mem_singleton.mpr (by decide)
      · right
        exact ih _ h

/-- No known command has a dash, in any case. -/
theorem dash_not_mem_command {table : Text → Char → Text → Text} {command : Text}
    (h : (dispatch table command).isSome) : '-' ∉ command := by
  intro hd
  have hlow : '-' ∈ toLowercase table command := dash_mem_toLowercaseFrom table [] hd
  have hnames : ∀ p ∈ commands, '-' ∉ p.1 := by decide
  rw [dispatch, Option.isSome_map, Option.isSome_iff_exists] at h
  rcases h with ⟨p, hp⟩
  have heq : p.1 = toLowercase table command := of_decide_eq_true (List.find?_some hp :)
  exact hnames p (List.mem_of_find?_eq_some hp) (heq ▸ hlow)

theorem dash_not_mem_keystampTime (keystamp : Text) : '-' ∉ keystampTime keystamp := by
  unfold keystampTime
  cases hs : keystamp.splitOn '-' with
  | nil => exact List.not_mem_nil
  | cons p ps =>
      have hmem : p ∈ keystamp.splitOn '-' := by
        rw [hs]
        exact List.mem_cons_self
      exact Separated.not_mem_of_mem_splitOn hmem

theorem dash_not_mem_natText (n : Nat) : '-' ∉ natText n := not_mem_natText (by decide)

theorem dash_not_mem_action {action : Text} (h : action ∈ actions) : '-' ∉ action := by
  revert action
  decide

/-! ## Taking the strings apart -/

/-- A number at the end of a text leaves no dash there. -/
theorem getLast?_natText (x : Text) (n : Nat) : (x ++ natText n).getLast? ≠ some '-' := by
  intro h
  rw [List.getLast?_append_of_ne_nil _ (natText_ne_nil n)] at h
  exact dash_not_mem_natText n (List.mem_of_getLast? h)

theorem getLast?_intText (x : Text) (n : Int) : (x ++ '-' :: intText n).getLast? ≠ some '-' := by
  rcases intText_eq n with ⟨-, h⟩ | ⟨-, h⟩
  · rw [h, List.append_cons]
    exact getLast?_natText _ _
  · rw [h, List.append_cons, List.append_cons]
    exact getLast?_natText _ _

/-- A time at the end of a text is determined, its sign too: what stands before it does
not end in a dash. -/
theorem time_inj {q₁ q₂ : Text} {t₁ t₂ : Int} (h₁ : q₁.getLast? ≠ some '-')
    (h₂ : q₂.getLast? ≠ some '-') (h : q₁ ++ '-' :: intText t₁ = q₂ ++ '-' :: intText t₂) :
    q₁ = q₂ ∧ t₁ = t₂ := by
  have hd := dash_not_mem_natText
  rcases intText_eq t₁ with ⟨ht₁, e₁⟩ | ⟨ht₁, e₁⟩ <;>
    rcases intText_eq t₂ with ⟨ht₂, e₂⟩ | ⟨ht₂, e₂⟩ <;> rw [e₁, e₂] at h
  · rcases Separated.last_inj (hd _) (hd _) h with ⟨hq, hn⟩
    exact ⟨hq, by have := natText_injective hn; omega⟩
  · -- the second time is negative: the first text would end in its sign
    rw [List.append_cons q₂] at h
    rcases Separated.last_inj (hd _) (hd _) h with ⟨hq, -⟩
    rw [hq] at h₁
    simp at h₁
  -- the same with the times exchanged
  · rw [List.append_cons q₁] at h
    rcases Separated.last_inj (hd _) (hd _) h with ⟨hq, -⟩
    rw [← hq] at h₂
    simp at h₂
  · rw [List.append_cons q₁, List.append_cons q₂] at h
    rcases Separated.last_inj (hd _) (hd _) h with ⟨hq, hn⟩
    exact ⟨List.append_cancel_right hq, by have := natText_injective hn; omega⟩

/-- Two fields between fixed ones and a time: the first has no dash, the second may have
any. -/
theorem fields_inj {pre c₁ c₂ a₁ a₂ : Text} {id t₁ t₂ : Int} {key : Text} (h₁ : '-' ∉ c₁)
    (h₂ : '-' ∉ c₂)
    (h : pre ++ c₁ ++ '-' :: a₁ ++ '-' :: intText id ++ '-' :: intText t₁ ++ '-' :: key =
      pre ++ c₂ ++ '-' :: a₂ ++ '-' :: intText id ++ '-' :: intText t₂ ++ '-' :: key) :
    c₁ = c₂ ∧ a₁ = a₂ ∧ t₁ = t₂ := by
  rcases time_inj (getLast?_intText _ _) (getLast?_intText _ _) (List.append_cancel_right h) with
    ⟨hq, ht⟩
  -- the id is the same on both sides
  have hc := List.append_cancel_right hq
  rw [List.append_assoc, List.append_assoc] at hc
  rcases Separated.first_inj h₁ h₂ (List.append_cancel_left hc) with ⟨hcmd, hadd⟩
  exact ⟨hcmd, hadd, ht⟩

theorem speedtestString_inj {s₁ s₂ : Nat} {t₁ t₂ id : Int} {key : Text}
    (h : speedtestString s₁ t₁ id key = speedtestString s₂ t₂ id key) : s₁ = s₂ ∧ t₁ = t₂ := by
  unfold speedtestString at h
  rcases time_inj (getLast?_natText _ _) (getLast?_natText _ _)
    (List.append_cancel_right (List.append_cancel_right h)) with ⟨hq, ht⟩
  exact ⟨natText_injective (List.append_cancel_left hq), ht⟩

theorem hathString_inj {t₁ t₂ f₁ f₂ key : Text} (h₁ : '-' ∉ t₁) (h₂ : '-' ∉ t₂)
    (h : hathString t₁ f₁ key = hathString t₂ f₂ key) : t₁ = t₂ ∧ f₁ = f₂ := by
  unfold hathString at h
  exact Separated.first_inj h₁ h₂ (List.append_cancel_right (List.append_cancel_right h))

/-- Strings that end in a number and the key do not end in the key and `hotlinkthis`. -/
theorem ne_hathString (x : Text) (n : Int) (key time fileId : Text) :
    x ++ '-' :: intText n ++ '-' :: key ≠ hathString time fileId key := by
  have hne : natText n.natAbs ≠ "hotlinkthis".toList := by
    intro h
    have hdigit := natText_isDigit (n := n.natAbs) (c := 'h') (by rw [h]; decide)
    revert hdigit
    decide
  have hshift := fun p => Separated.shifted_ne (dash_not_mem_natText n.natAbs)
    (by decide : '-' ∉ "hotlinkthis".toList) hne key p (time ++ '-' :: fileId)
  intro h
  have hright : hathString time fileId key =
      (time ++ '-' :: fileId) ++ '-' :: (key ++ '-' :: "hotlinkthis".toList) := by
    rw [hathString, List.append_assoc _ ('-' :: key)]
    rfl
  rw [hright] at h
  -- a sign before the digits only lengthens what stands in front
  rcases intText_eq n with ⟨-, e⟩ | ⟨-, e⟩ <;> rw [e] at h
  · apply hshift x
    rw [← h, List.append_assoc]
    rfl
  · apply hshift (x ++ ['-'])
    rw [← h, List.append_assoc, List.append_assoc]
    rfl

/-! ## Endpoints -/

/-- The field after `hentai@home`; the strings of `hath` do not start so. -/
def Request.name : Request → Option Text
  | servercmd _ _ _ => some "servercmd".toList
  | speedtest _ _ => some "speedtest".toList
  | hath _ _ => none
  | buildUrl action _ _ => some action

theorem append_name (p name z : Text) : (p ++ (name ++ ['-'])) ++ z = p ++ (name ++ '-' :: z) := by
  simp

theorem append_four (p c a i t k : Text) :
    p ++ c ++ '-' :: a ++ '-' :: i ++ '-' :: t ++ '-' :: k =
      p ++ (c ++ '-' :: (a ++ '-' :: i ++ '-' :: t ++ '-' :: k)) := by
  simp

theorem append_three (p c i t k : Text) :
    p ++ c ++ '-' :: i ++ '-' :: t ++ '-' :: k = p ++ (c ++ '-' :: (i ++ '-' :: t ++ '-' :: k)) := by
  simp

theorem servercmd_front : "hentai@home-servercmd-".toList =
    "hentai@home-".toList ++ ("servercmd".toList ++ ['-']) := by decide +kernel

theorem speedtest_front : "hentai@home-speedtest-".toList =
    "hentai@home-".toList ++ ("speedtest".toList ++ ['-']) := by decide +kernel

/-- A string with the prefix of an endpoint has its name as second field. -/
theorem name_of_front {pre name : Text} (h : pre = "hentai@home-".toList ++ (name ++ ['-']))
    (z : Text) : pre ++ z = "hentai@home-".toList ++ (name ++ '-' :: z) :=
  (congrArg (· ++ z) h).trans (append_name _ name z)

/-- A string with a name starts with it and ends in a number and the key. -/
theorem hashString_of_name {r : Request} {name : Text} (h : r.name = some name) (id : Int)
    (key : Text) :
    (∃ z, r.hashString id key = "hentai@home-".toList ++ (name ++ '-' :: z)) ∧
      ∃ x n, r.hashString id key = x ++ '-' :: intText n ++ '-' :: key := by
  cases r with
  | servercmd command additional time =>
      rw [← Option.some.inj h]
      exact ⟨⟨_, (append_four ..).trans (name_of_front servercmd_front _)⟩, _, time, rfl⟩
  | speedtest size time =>
      rw [← Option.some.inj h]
      exact ⟨⟨_, (append_three ..).trans (name_of_front speedtest_front _)⟩, _, id, rfl⟩
  | hath time fileId => cases h
  | buildUrl action additional timestamp =>
      rw [← Option.some.inj h]
      exact ⟨⟨_, append_four ..⟩, _, timestamp, rfl⟩

theorem dash_not_mem_name {table : Text → Char → Text → Text} {r : Request} {name : Text}
    (hr : r.Accepted table) (h : r.name = some name) : '-' ∉ name := by
  cases r with
  | servercmd command additional time =>
      rw [← Option.some.inj h]
      decide
  | speedtest size time =>
      rw [← Option.some.inj h]
      decide
  | hath time fileId => cases h
  | buildUrl action additional timestamp =>
      cases h
      exact dash_not_mem_action hr

/-- Equal strings have the same name, or both have none. -/
theorem name_eq_of_hashString_eq {table : Text → Char → Text → Text} {id : Int} {key : Text}
    {r₁ r₂ : Request} (h₁ : r₁.Accepted table) (h₂ : r₂.Accepted table)
    (h : r₁.hashString id key = r₂.hashString id key) : r₁.name = r₂.name := by
  have hhath : ∀ {r : Request} {name time fileId : Text}, r.name = some name →
      r.hashString id key ≠ hathString time fileId key := by
    intro r name time fileId hn
    rcases (hashString_of_name hn id key).2 with ⟨x, n, hx⟩
    rw [hx]
    exact ne_hathString x n key time fileId
  cases hn₁ : r₁.name with
  | none =>
      cases hn₂ : r₂.name with
      | none => rfl
      | some name₂ =>
          cases r₁ with
          | hath time fileId => exact absurd h.symm (hhath hn₂)
          | _ => cases hn₁
  | some name₁ =>
      cases hn₂ : r₂.name with
      | none =>
          cases r₂ with
          | hath time fileId => exact absurd h (hhath hn₁)
          | _ => cases hn₂
      | some name₂ =>
          -- both have a name: it is the second field
          rcases (hashString_of_name hn₁ id key).1 with ⟨z₁, hz₁⟩
          rcases (hashString_of_name hn₂ id key).1 with ⟨z₂, hz₂⟩
          rw [hz₁, hz₂] at h
          rw [(Separated.first_inj (dash_not_mem_name h₁ hn₁) (dash_not_mem_name h₂ hn₂)
            (List.append_cancel_left h)).1]

theorem servercmd_not_mem_actions : "servercmd".toList ∉ actions := by decide

theorem speedtest_not_mem_actions : "speedtest".toList ∉ actions := by decide

/-- For one client, the hashed string determines the request: its endpoint, and every
field that was signed. -/
theorem hashString_injective (table : Text → Char → Text → Text) (id : Int) (key : Text)
    {r₁ r₂ : Request} (h₁ : r₁.Accepted table) (h₂ : r₂.Accepted table)
    (h : r₁.hashString id key = r₂.hashString id key) : r₁ = r₂ := by
  have hname := name_eq_of_hashString_eq h₁ h₂ h
  cases r₁ with
  | servercmd c₁ a₁ t₁ =>
      cases r₂ with
      | servercmd c₂ a₂ t₂ =>
          rcases fields_inj (dash_not_mem_command h₁) (dash_not_mem_command h₂) h with
            ⟨rfl, rfl, rfl⟩
          rfl
      | speedtest s₂ t₂ => exact absurd (Option.some.inj hname) (by decide)
      | hath t₂ f₂ => cases hname
      | buildUrl c₂ a₂ t₂ =>
          exact absurd (Option.some.inj hname ▸ h₂) servercmd_not_mem_actions
  | speedtest s₁ t₁ =>
      cases r₂ with
      | servercmd c₂ a₂ t₂ => exact absurd (Option.some.inj hname) (by decide)
      | speedtest s₂ t₂ =>
          rcases speedtestString_inj h with ⟨rfl, rfl⟩
          rfl
      | hath t₂ f₂ => cases hname
      | buildUrl c₂ a₂ t₂ =>
          exact absurd (Option.some.inj hname ▸ h₂) speedtest_not_mem_actions
  | hath t₁ f₁ =>
      cases r₂ with
      | hath t₂ f₂ =>
          rcases h₁ with ⟨k₁, rfl⟩
          rcases h₂ with ⟨k₂, rfl⟩
          rcases hathString_inj (dash_not_mem_keystampTime k₁) (dash_not_mem_keystampTime k₂) h
            with ⟨ht, hf⟩
          rw [ht, hf]
      | servercmd _ _ _ | speedtest _ _ | buildUrl _ _ _ => cases hname
  | buildUrl c₁ a₁ t₁ =>
      cases r₂ with
      | servercmd c₂ a₂ t₂ =>
          exact absurd (Option.some.inj hname ▸ h₁) servercmd_not_mem_actions
      | speedtest s₂ t₂ => exact absurd (Option.some.inj hname ▸ h₁) speedtest_not_mem_actions
      | hath t₂ f₂ => cases hname
      | buildUrl c₂ a₂ t₂ =>
          rcases fields_inj (dash_not_mem_action h₁) (dash_not_mem_action h₂) h with
            ⟨rfl, rfl, rfl⟩
          rfl

/-- The command `still_alive` and the action of the same name are hashed differently. -/
theorem hashString_injective_dash :
    (Request.servercmd "still_alive".toList "a-b".toList 1700000000).hashString 5 ['k'] ≠
      (Request.buildUrl "still_alive".toList "a-b".toList 1700000000).hashString 5 ['k'] := by
  intro h
  have heq : Request.servercmd "still_alive".toList "a-b".toList 1700000000 =
      .buildUrl "still_alive".toList "a-b".toList 1700000000 :=
    hashString_injective (fun _ c _ => [c]) 5 ['k']
    (by show (dispatch _ _).isSome; decide) (by show _ ∈ actions; decide) h
  cases heq

end Hath.Signature
