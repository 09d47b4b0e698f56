import Mathlib.Data.List.TakeWhile
import Hath.Rpc.Client

/-!
# Hath.Rpc.Failover — `change_server`

After a failed request the client leaves its server for another one of the list. The list
holds the plain texts of the addresses; the host of `api_base` is what the `url` crate
makes of such a text, and `change_server` compares the two as strings.

`set_host` is a parameter with three laws (`UrlHost`): an IPv4 address stays what it is; of
a text with a colon that is not in brackets only the part before the colon counts; and a
group of an IPv6 address taken for itself is an IPv4 number if it has decimal digits only,
else a domain.

* `ipv6Text_cases` — the front of the text of an IPv6 address;
* `changeServer_moves_iff` — the lists that make `change_server` do what it is for.
-/

namespace Hath.Rpc

open IpAddr

/-- What `set_host` of the `url` crate does with the texts that the list can hold. -/
structure UrlHost (setHost : Text → Option Text) : Prop where
  ipv4 : ∀ bits, setHost (ipv4Text bits) = some (ipv4Text bits)
  colon : ∀ s, s.head? ≠ some '[' → ':' ∈ s →
    setHost s = if s.head? = some ':' then none else setHost (s.takeWhile (· ≠ ':'))
  group : ∀ n, n < 65536 → setHost (Nat.toDigits 16 n) =
    some (if (Nat.toDigits 16 n).all Char.isDigit
      then ipv4Text (BitVec.ofNat 32 (digitsValue (Nat.toDigits 16 n))) else Nat.toDigits 16 n)

/-- An address as `host_str` shows it: IPv6 in brackets. -/
def hostText (a : Text) : Text := if ':' ∈ a then '[' :: (a ++ [']']) else a

/-- `change_server` does not panic, and if the list has an address other than the host it
moves to one. -/
def Moves (env : Env) (c : Client) (choice : Nat) : Prop :=
  ∃ c', changeServer env c choice = some c' ∧
    ((∃ a ∈ c.rpcServers, hostText a ≠ c.host) →
      c'.host ∈ c.rpcServers.map hostText ∧ c'.host ≠ c.host)

/-- The choice of the address is a move to another server of the list: it is an IPv4 address
other than the host; or the first group of the IPv6 address, read as an IPv4 number, is
one. -/
def GoodChoice (servers : List Text) (host a : Text) : Prop :=
  if ':' ∈ a then
    (a.takeWhile (· ≠ ':')).all Char.isDigit = true ∧
      ipv4Text (BitVec.ofNat 32 (digitsValue (a.takeWhile (· ≠ ':')))) ∈ servers ∧
      ipv4Text (BitVec.ofNat 32 (digitsValue (a.takeWhile (· ≠ ':')))) ≠ host
  else a ≠ host

/-- When `change_server` moves as it should. With one server or none, that must be the host.
Otherwise no address that is left without the host starts with a colon, and all of them are
good choices unless the list has no address but the host. -/
def CanMove (servers : List Text) (host : Text) : Prop :=
  if servers.length ≤ 1 then ∀ a ∈ servers, hostText a = host
  else (∀ a ∈ servers.erase host, a.head? ≠ some ':') ∧
    ((∃ a ∈ servers, hostText a ≠ host) → ∀ a ∈ servers.erase host, GoodChoice servers host a)

/-! ## Texts of addresses -/

theorem ipv4Text_eq (bits : BitVec 32) : ∃ a b c d,
    ipv4Text bits = natText a ++ '.' :: (natText b ++ '.' :: (natText c ++ '.' :: natText d)) := by
  unfold ipv4Text
  simp only [List.intercalate_cons_cons, List.intercalate_singleton, List.append_assoc,
    List.cons_append, List.nil_append]
  exact ⟨_, _, _, _, rfl⟩

theorem mem_ipv4Text {bits : BitVec 32} {c : Char} (h : c ∈ ipv4Text bits) :
    c = '.' ∨ c.isDigit = true := by
  rcases ipv4Text_eq bits with ⟨n₁, n₂, n₃, n₄, htext⟩
  rw [htext] at h
  simp only [List.mem_append, List.mem_cons] at h
  rcases h with h | h | h | h | h | h | h
  · exact .inr (natText_isDigit h)
  · exact .inl h
  · exact .inr (natText_isDigit h)
  · exact .inl h
  · exact .inr (natText_isDigit h)
  · exact .inl h
  · exact .inr (natText_isDigit h)

theorem dot_mem_ipv4Text (bits : BitVec 32) : '.' ∈ ipv4Text bits := by
  rcases ipv4Text_eq bits with ⟨n₁, n₂, n₃, n₄, htext⟩
  rw [htext]
  exact List.mem_append_right _ List.mem_cons_self

theorem not_mem_ipv4Text {c : Char} (hc : c ≠ '.') (hdigit : c.isDigit = false) (bits : BitVec 32) :
    c ∉ ipv4Text bits := by
  intro h
  rcases mem_ipv4Text h with h | h
  · exact hc h
  · rw [hdigit] at h
    cases h

/-- The digits of a group. -/
theorem mem_group {n : Nat} {c : Char} (h : c ∈ Nat.toDigits 16 n) : isLowerHex c = true := by
  induction n using Nat.strongRecOn with
  | ind n ih =>
      rw [Nat.toDigits_eq_if (by decide)] at h
      split at h
      · rename_i hlt
        rw [List.mem_singleton.mp h]
        exact isLowerHex_digitChar hlt
      · rename_i hge
        rcases List.mem_append.mp h with h | h
        · exact ih (n / 16) (by omega) h
        · rw [List.mem_singleton.mp h]
          exact isLowerHex_digitChar (Nat.mod_lt n (by decide))

theorem not_mem_group {c : Char} (hc : isLowerHex c = false) (n : Nat) : c ∉ Nat.toDigits 16 n := by
  intro h
  rw [mem_group h] at hc
  cases hc

/-- Before a colon, a list of groups has its first group and then a colon. -/
theorem groupsText_cons (g : Nat) (gs : List Nat) (rest : Text) :
    ∃ rest', groupsText (g :: gs) ++ ':' :: rest = Nat.toDigits 16 g ++ ':' :: rest' := by
  unfold groupsText
  cases gs with
  | nil =>
      rw [List.map_singleton, List.intercalate_singleton]
      exact ⟨rest, rfl⟩
  | cons g' gs =>
      rw [List.map_cons, List.map_cons, List.intercalate_cons_cons]
      simp only [List.append_assoc, List.cons_append, List.nil_append]
      exact ⟨_, rfl⟩

/-- The text starts with a colon, or with a group and a colon. -/
theorem ipv6Text_cases (bits : BitVec 128) :
    (ipv6Text bits).head? = some ':' ∨
      ∃ n rest, n < 65536 ∧ ipv6Text bits = Nat.toDigits 16 n ++ ':' :: rest := by
  obtain ⟨g, g', gs, hsegments, hg⟩ : ∃ g g' gs, segments bits = g :: g' :: gs ∧ g < 65536 :=
    ⟨_, _, _, rfl, Nat.mod_lt _ (by decide)⟩
  unfold ipv6Text
  rw [hsegments]
  simp only
  split
  · generalize zeroSpan (g :: g' :: gs) 0 0 (0, 0) = span
    cases span.1 with
    | zero => exact .inl rfl
    | succ k =>
        right
        rw [List.take_succ_cons, List.append_assoc]
        rcases groupsText_cons g ((g' :: gs).take k)
          (':' :: groupsText ((g :: g' :: gs).drop (k + 1 + span.2))) with ⟨rest, hrest⟩
        exact ⟨g, rest, hg, hrest⟩
  · right
    refine ⟨g, groupsText (g' :: gs), hg, ?_⟩
    unfold groupsText
    rw [List.map_cons, List.map_cons, List.intercalate_cons_cons, List.append_assoc]
    rfl

/-- The addresses of a list: IPv4, or IPv6 with a colon at the front or after a group. -/
theorem mem_serverList {ips a : Text} (h : a ∈ serverList ips) :
    (∃ bits, a = ipv4Text bits) ∨ a.head? = some ':' ∨
      ∃ n rest, n < 65536 ∧ a = Nat.toDigits 16 n ++ ':' :: rest := by
  rcases List.mem_filterMap.mp h with ⟨s, -, hs⟩
  rcases Option.map_eq_some_iff.mp hs with ⟨ip, -, rfl⟩
  cases ip with
  | v4 bits => exact .inl ⟨bits, rfl⟩
  | v6 bits =>
      cases hmapped : toIpv4Mapped bits with
      | some bits' =>
          left
          refine ⟨bits', ?_⟩
          unfold canonicalText
          simp [hmapped]
      | none =>
          right
          have htext : canonicalText (.v6 bits) = ipv6Text bits := by
            unfold canonicalText
            simp [hmapped]
          rw [htext]
          exact ipv6Text_cases bits

/-! ## The list without the host -/

/-- `swap_remove` takes one host out. -/
theorem withoutServer_perm (servers : List Text) (host : Text) :
    (withoutServer servers host).Perm (servers.erase host) := by
  unfold withoutServer
  cases hpos : servers.idxOf? host with
  | none =>
      rw [List.idxOf?_eq_none_iff] at hpos
      rw [List.erase_of_not_mem hpos]
  | some pos =>
      rcases List.idxOf?_eq_some_iff.mp hpos with ⟨hlt, hget, -⟩
      obtain ⟨l₁, l₂, rfl, rfl⟩ : ∃ l₁ l₂, servers = l₁ ++ host :: l₂ ∧ pos = l₁.length := by
        refine ⟨servers.take pos, servers.drop (pos + 1), ?_, ?_⟩
        · rw [← hget, List.cons_getElem_drop_succ, List.take_append_drop]
        · rw [List.length_take]
          omega
      have hperm : (host :: ((l₁ ++ host :: l₂).set l₁.length
          ((l₁ ++ host :: l₂).getLast?.getD [])).dropLast).Perm (l₁ ++ host :: l₂) := by
        rw [List.set_append_right _ _ (Nat.le_refl _), Nat.sub_self, List.set_cons_zero]
        rcases List.eq_nil_or_concat' l₂ with rfl | ⟨m, z, rfl⟩
        · simpa using (List.perm_append_singleton host l₁).symm
        · have hlast : (l₁ ++ host :: (m ++ [z])).getLast?.getD [] = z := by
            rw [← List.cons_append, ← List.append_assoc, List.getLast?_concat]
            rfl
          have hdrop : (l₁ ++ z :: (m ++ [z])).dropLast = l₁ ++ z :: m := by
            rw [← List.cons_append, ← List.append_assoc, List.dropLast_concat]
          rw [hlast, hdrop]
          have hmove : (l₁ ++ z :: m).Perm (l₁ ++ (m ++ [z])) :=
            List.Perm.append_left l₁ (List.perm_append_singleton z m).symm
          exact (hmove.cons host).trans List.perm_middle.symm
      have hmem : host ∈ l₁ ++ host :: l₂ := List.mem_append_right l₁ List.mem_cons_self
      exact (hperm.trans (List.perm_cons_erase hmem)).cons_inv

/-- A choice can be any address that is left. -/
theorem forall_choice {servers : List Text} (hlen : 1 < servers.length) {host : Text}
    {p : Text → Prop} :
    (∀ choice : Nat, p ((withoutServer servers host)[choice %
        (withoutServer servers host).length]?.getD defaultServer)) ↔
      ∀ a ∈ servers.erase host, p a := by
  have hperm := withoutServer_perm servers host
  have hpos : 0 < (withoutServer servers host).length := by
    rw [hperm.length_eq]
    have hle := List.le_length_erase (a := host) (l := servers)
    omega
  constructor
  · intro h a ha
    rcases List.getElem_of_mem (hperm.mem_iff.mpr ha) with ⟨i, hi, rfl⟩
    have hchoice := h i
    rwa [Nat.mod_eq_of_lt hi, List.getElem?_eq_getElem hi] at hchoice
  · intro h choice
    have hi := Nat.mod_lt choice hpos
    rw [List.getElem?_eq_getElem hi]
    exact h _ (hperm.mem_iff.mp (List.getElem_mem hi))

/-! ## The new host -/

/-- A host that is no IPv6 address is shown as it stands in the list. -/
theorem mem_map_hostText {servers : List Text} {host : Text} (hbracket : '[' ∉ host)
    (hcolon : ':' ∉ host) : host ∈ servers.map hostText ↔ host ∈ servers := by
  rw [List.mem_map]
  constructor
  · rintro ⟨b, hb, rfl⟩
    unfold hostText at hbracket ⊢
    split at hbracket
    · exact absurd List.mem_cons_self hbracket
    · rename_i hplain
      rwa [if_neg hplain]
  · intro h
    exact ⟨host, h, if_neg hcolon⟩

/-- The part before the colon of an IPv6 address that starts with a group. -/
theorem takeWhile_group (n : Nat) (rest : Text) :
    (Nat.toDigits 16 n ++ ':' :: rest).takeWhile (· ≠ ':') = Nat.toDigits 16 n := by
  have hall : ∀ c ∈ Nat.toDigits 16 n, decide (c ≠ ':') = true := by
    intro c hc
    refine decide_eq_true ?_
    rintro rfl
    exact not_mem_group (by decide) n hc
  rw [List.takeWhile_append_of_pos hall, List.takeWhile_cons_of_neg (by decide), List.append_nil]

theorem head?_group (n : Nat) (rest : Text) {c : Char} (hc : isLowerHex c = false) :
    (Nat.toDigits 16 n ++ ':' :: rest).head? ≠ some c := by
  cases hds : Nat.toDigits 16 n with
  | nil => exact absurd hds Nat.toDigits_ne_nil
  | cons d ds =>
      intro h
      refine not_mem_group hc n ?_
      rw [hds, ← Option.some.inj h]
      exact List.mem_cons_self

section

variable {env : Env} (hurl : UrlHost env.setHost) {ips : Text}

include hurl

/-- What `set_host` makes of an address of the list: an error for a leading colon, else the
address itself or what the first group stands for. -/
theorem setHost_cases {a : Text} (h : a ∈ serverList ips) :
    (a.head? = some ':' ∧ env.setHost a = none) ∨
    (a.head? ≠ some ':' ∧ ∃ host, env.setHost a = some host ∧
      ∀ current, host ∈ (serverList ips).map hostText ∧ host ≠ current ↔
        GoodChoice (serverList ips) current a) := by
  rcases mem_serverList h with ⟨bits, rfl⟩ | hhead | ⟨n, rest, hn, rfl⟩
  · right
    have hcolon : ':' ∉ ipv4Text bits := not_mem_ipv4Text (by decide) (by decide) bits
    have hbracket : '[' ∉ ipv4Text bits := not_mem_ipv4Text (by decide) (by decide) bits
    refine ⟨fun hhead => hcolon (List.mem_of_head? hhead), ipv4Text bits, hurl.ipv4 bits, ?_⟩
    intro current
    unfold GoodChoice
    rw [if_neg hcolon, mem_map_hostText hbracket hcolon]
    exact and_iff_right h
  · left
    refine ⟨hhead, ?_⟩
    rw [hurl.colon a (by rw [hhead]; decide) (List.mem_of_head? hhead), if_pos hhead]
  · right
    have hcolon : ':' ∈ Nat.toDigits 16 n ++ ':' :: rest :=
      List.mem_append_right _ List.mem_cons_self
    have hhead := head?_group n rest (c := ':') (by decide)
    have hset := hurl.colon _ (head?_group n rest (c := '[') (by decide)) hcolon
    rw [if_neg hhead, takeWhile_group, hurl.group n hn] at hset
    refine ⟨hhead, _, hset, ?_⟩
    intro current
    unfold GoodChoice
    rw [if_pos hcolon, takeWhile_group]
    cases hdigits : (Nat.toDigits 16 n).all Char.isDigit with
    | true =>
        -- the group is a number, and that is an IPv4 address
        rw [if_pos rfl, mem_map_hostText (not_mem_ipv4Text (by decide) (by decide) _)
          (not_mem_ipv4Text (by decide) (by decide) _)]
        exact (and_iff_right rfl).symm
    | false =>
        -- a domain, which no address of the list is
        refine iff_of_false ?_ (fun hgood => absurd hgood.1 nofun)
        rintro ⟨hmem, -⟩
        rw [if_neg (by decide), mem_map_hostText (not_mem_group (by decide) n)
          (not_mem_group (by decide) n)] at hmem
        rcases mem_serverList hmem with ⟨bits, hbits⟩ | hfront | ⟨m, rest', -, hgroup⟩
        · exact not_mem_group (c := '.') (by decide) n (hbits ▸ dot_mem_ipv4Text bits)
        · exact not_mem_group (c := ':') (by decide) n (List.mem_of_head? hfront)
        · refine not_mem_group (c := ':') (by decide) n ?_
          rw [hgroup]
          exact List.mem_append_right _ List.mem_cons_self

omit hurl in
/-- One choice, from a list of at least two addresses. -/
theorem moves_iff {c : Client} (hlen : 1 < c.rpcServers.length) (choice : Nat) :
    Moves env c choice ↔
      ∃ host, env.setHost ((withoutServer c.rpcServers c.host)[choice %
          (withoutServer c.rpcServers c.host).length]?.getD defaultServer) = some host ∧
        ((∃ a ∈ c.rpcServers, hostText a ≠ c.host) →
          host ∈ c.rpcServers.map hostText ∧ host ≠ c.host) := by
  unfold Moves changeServer
  rw [if_neg (by omega)]
  simp

/-- **`change_server` moves to another server of the list exactly when it can.** For every
setting, every host and all random choices. -/
theorem changeServer_moves_iff (c : Client) :
    (∀ choice, Moves env { c with rpcServers := serverList ips } choice) ↔
      CanMove (serverList ips) c.host := by
  unfold CanMove
  split
  · -- the host stays
    rename_i hshort
    have hstay : ∀ choice, changeServer env { c with rpcServers := serverList ips } choice =
        some { c with rpcServers := serverList ips } := by
      intro choice
      unfold changeServer
      exact if_pos hshort
    constructor
    · intro hmoves a ha
      by_contra hne
      rcases hmoves 0 with ⟨c', hc', hother⟩
      rw [hstay 0] at hc'
      cases hc'
      exact (hother ⟨a, ha, hne⟩).2 rfl
    · intro hall choice
      refine ⟨_, hstay choice, ?_⟩
      rintro ⟨a, ha, hne⟩
      exact absurd (hall a ha) hne
  · rename_i hlong
    have hlen : 1 < (serverList ips).length := by omega
    have hmoves : ∀ choice, Moves env { c with rpcServers := serverList ips } choice ↔ _ :=
      fun choice => moves_iff (c := { c with rpcServers := serverList ips }) hlen choice
    rw [forall_congr' hmoves]
    simp only
    rw [forall_choice hlen (p := fun a => ∃ host, env.setHost a = some host ∧
      ((∃ a ∈ serverList ips, hostText a ≠ c.host) →
        host ∈ (serverList ips).map hostText ∧ host ≠ c.host))]
    have hsub : ∀ a ∈ (serverList ips).erase c.host, a ∈ serverList ips :=
      fun a ha => List.mem_of_mem_erase ha
    constructor
    · intro hall
      constructor
      · intro a ha hhead
        rcases hall a ha with ⟨host, hhost, -⟩
        rcases setHost_cases hurl (hsub a ha) with ⟨-, hnone⟩ | ⟨hok, -⟩
        · rw [hnone] at hhost
          cases hhost
        · exact hok hhead
      · intro hother a ha
        rcases hall a ha with ⟨host, hhost, hmove⟩
        rcases setHost_cases hurl (hsub a ha) with ⟨-, hnone⟩ | ⟨-, host', hhost', hgood⟩
        · rw [hnone] at hhost
          cases hhost
        · cases Option.some.inj (hhost.symm.trans hhost')
          exact (hgood c.host).mp (hmove hother)
    · rintro ⟨hfront, hgood⟩ a ha
      rcases setHost_cases hurl (hsub a ha) with ⟨hhead, -⟩ | ⟨-, host, hhost, hiff⟩
      · exact absurd hhead (hfront a ha)
      · exact ⟨host, hhost, fun hother => (hiff c.host).mpr (hgood hother a ha)⟩

end

/-! ## A concrete `set_host` -/

/-- `set_host` on the texts that are needed here. -/
def plainSetHost (s : Text) : Option Text :=
  let host := if s.head? = some '[' then s else s.takeWhile (· ≠ ':')
  if host = [] then none
  else if host.all Char.isDigit then some (ipv4Text (BitVec.ofNat 32 (digitsValue host)))
  else some host

theorem takeWhile_of_not_mem {s : Text} (h : ':' ∉ s) : s.takeWhile (· ≠ ':') = s := by
  rw [List.takeWhile_eq_self_iff]
  intro c hc
  refine decide_eq_true ?_
  rintro rfl
  exact h hc

theorem plainSetHost_of_not_mem {s : Text} (hcolon : ':' ∉ s) (hnil : s ≠ []) :
    plainSetHost s = some (if s.all Char.isDigit
      then ipv4Text (BitVec.ofNat 32 (digitsValue s)) else s) := by
  unfold plainSetHost
  rw [takeWhile_of_not_mem hcolon]
  simp only [ite_self]
  rw [if_neg hnil]
  split <;> rfl

theorem plainSetHost_urlHost : UrlHost plainSetHost where
  ipv4 := by
    intro bits
    have hdot := dot_mem_ipv4Text bits
    have hdigits : (ipv4Text bits).all Char.isDigit = false := by
      rw [List.all_eq_false]
      exact ⟨'.', hdot, by decide⟩
    rw [plainSetHost_of_not_mem (not_mem_ipv4Text (by decide) (by decide) bits)
      (List.ne_nil_of_mem hdot), hdigits]
    rfl
  colon := by
    intro s hbracket hcolon
    split
    · rename_i hhead
      cases s with
      | nil => cases hcolon
      | cons c s =>
          cases Option.some.inj hhead
          rfl
    · rename_i hhead
      have hfront : s.takeWhile (· ≠ ':') ≠ [] := by
        cases s with
        | nil => cases hcolon
        | cons c s =>
            have hc : c ≠ ':' := fun h => hhead (congrArg some h)
            rw [List.takeWhile_cons_of_pos (p := (· ≠ ':')) (decide_eq_true hc)]
            exact List.cons_ne_nil _ _
      have hno : ':' ∉ s.takeWhile (· ≠ ':') := by
        intro h
        simpa using List.mem_takeWhile_imp h
      rw [plainSetHost_of_not_mem hno hfront]
      unfold plainSetHost
      rw [if_neg hbracket]
      simp only
      rw [if_neg hfront]
      split <;> rfl
  group := by
    intro n _
    exact plainSetHost_of_not_mem (not_mem_group (by decide) n) Nat.toDigits_ne_nil

/-- Only the host matters here. -/
def plainEnv : Env := ⟨fun _ => abcDigest, [], plainSetHost⟩

def clientAt (host : Text) : Client := Client.new false 0 host

/-- The only other address is an IPv6 one with a leading colon: its choice panics. -/
theorem ipv6_server_panics :
    UrlHost plainEnv.setHost ∧ ¬ ∀ choice, Moves plainEnv { clientAt "1.1.1.1".toList with
      rpcServers := serverList "1.1.1.1;::1".toList } choice := by
  refine ⟨plainSetHost_urlHost, ?_⟩
  intro hmoves
  rcases hmoves 0 with ⟨c, hc, -⟩
  revert hc
  have hnone : changeServer plainEnv { clientAt "1.1.1.1".toList with
      rpcServers := serverList "1.1.1.1;::1".toList } 0 = none := by decide +kernel
  rw [hnone]
  nofun

theorem changeServer_moves_two :
    UrlHost plainEnv.setHost ∧ ∀ choice, Moves plainEnv { clientAt "1.1.1.1".toList with
      rpcServers := serverList "1.1.1.1;2.2.2.2".toList } choice := by
  have hlist : serverList "1.1.1.1;2.2.2.2".toList = ["1.1.1.1".toList, "2.2.2.2".toList] := by
    decide +kernel
  refine ⟨plainSetHost_urlHost, (@changeServer_moves_iff plainEnv plainSetHost_urlHost _ _).mpr ?_⟩
  rw [hlist]
  have herase : ["1.1.1.1".toList, "2.2.2.2".toList].erase "1.1.1.1".toList =
      ["2.2.2.2".toList] := by decide +kernel
  unfold CanMove
  rw [if_neg (by decide)]
  show (∀ a ∈ ["1.1.1.1".toList, "2.2.2.2".toList].erase "1.1.1.1".toList, _) ∧ _
  rw [herase]
  refine ⟨?_, fun _ => ?_⟩ <;> intro a ha <;> cases List.mem_singleton.mp ha
  · decide
  · unfold GoodChoice
    rw [if_neg (by decide)]
    decide

end Hath.Rpc
