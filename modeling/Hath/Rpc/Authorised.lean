import Hath.Lib.Separated
import Hath.Rpc.Failover

/-!
# Hath.Rpc.Authorised — who may send server commands

`servercmd` compares the text of the peer's address with the texts that `update_settings` has
made of the last `rpc_server_ip`. That comparison of texts is one of addresses: different
addresses have different texts, also those that are shortened by a `::`, and an IPv4-mapped
address counts as the IPv4 address behind it on both sides.

* `canonicalText_inj` — texts and addresses;
* `authorised_iff` — the check over every run of calls.
-/

namespace Hath

open Lib

/-! ## The code -/

/-- `IpAddr::to_canonical`. -/
def IpAddr.toCanonical : IpAddr → IpAddr
  | .v4 bits => .v4 bits
  | .v6 bits => ((toIpv4Mapped bits).map .v4).getD (.v6 bits)

/-- `IpAddr::to_string`. -/
def IpAddr.text : IpAddr → Text
  | .v4 bits => ipv4Text bits
  | .v6 bits => ((toIpv4Mapped bits).map fun ip => "::ffff:".toList ++ ipv4Text ip).getD
      (ipv6Text bits)

namespace Rpc

/-- `is_vaild_rpc_server`. -/
def Client.isVaildRpcServer (c : Client) (ip : Text) : Bool :=
  c.settings.disableIpCheck || c.rpcServers.any (· = ip)

/-- The check of `servercmd` for a peer, whose address `accept` has made canonical. -/
def Client.authorises (c : Client) (peer : IpAddr) : Bool :=
  c.isVaildRpcServer peer.toCanonical.text

/-- The list of servers in the response to a call, if the call takes its settings. -/
def announced (res : ApiResponse) : Call → Option Text
  | .refreshSettings => if res.isOk then res.toMap "rpc_server_ip" else none
  | .login =>
      match initSettings res.toMap with
      | .ok _ => if res.isOk then res.toMap "rpc_server_ip" else none
      | .error _ => none
  | _ => none

/-- The response that ends the wait of a call, if it is one. -/
def response (env : Env) (c : Client) (r : Reply) : Pc → Option ApiResponse
  | .sending _ => r.result.toOption.map (parseResponse env.sha1 env.key c.host)
  | _ => none

/-- The client and its calls, with the last list of servers that was announced. -/
structure Told where
  state : State
  ips : Option Text

/-- The list of servers after a step. -/
def toldIps (env : Env) (s : Told) : Action → Option Text
  | .start _ => s.ips
  | .reply i r =>
      (s.state.calls[i]?.bind fun (call, pc) =>
        (response env s.state.client r pc).bind (announced · call)) <|> s.ips

/-- The run of the calls, next to what has been announced. -/
def toldMachine (env : Env) (disableIpCheck : Bool) : Machine Told Action where
  init s := s.ips = none ∧ s.state.calls = [] ∧ ∃ maxConnection host,
    s.state.client = Client.new disableIpCheck maxConnection host
  step s a := (step env s.state a).map fun t => ⟨t, toldIps env s a⟩

end Rpc

/-! ## Texts of addresses -/

namespace IpAddr

theorem ipv4Text_inj {a b : BitVec 32} (h : ipv4Text a = ipv4Text b) : a = b := by
  have hfields (bits : BitVec 32) : (ipv4Text bits).splitOn '.' =
      [natText (bits.toNat / 16777216), natText (bits.toNat / 65536 % 256),
        natText (bits.toNat / 256 % 256), natText (bits.toNat % 256)] := by
    unfold ipv4Text
    refine List.splitOn_intercalate '.' ?_ (List.cons_ne_nil _ _)
    intro l hl
    simp only [List.mem_cons, List.not_mem_nil, or_false] at hl
    rcases hl with rfl | rfl | rfl | rfl <;> exact not_mem_natText (by decide)
  have hsplit := congrArg (List.splitOn '.') h
  rw [hfields, hfields] at hsplit
  simp only [List.cons.injEq, and_true] at hsplit
  rcases hsplit with ⟨h₁, h₂, h₃, h₄⟩
  have h₁ := natText_injective h₁
  have h₂ := natText_injective h₂
  have h₃ := natText_injective h₃
  have h₄ := natText_injective h₄
  refine BitVec.eq_of_toNat_eq ?_
  omega

/-- The text of a group determines it. -/
theorem group_inj {m n : Nat} (h : Nat.toDigits 16 m = Nat.toDigits 16 n) : m = n := by
  induction m using Nat.strongRecOn generalizing n with
  | ind m ih =>
      have hdigit {a b : Nat} (ha : a < 16) (hb : b < 16)
          (hab : Nat.digitChar a = Nat.digitChar b) : a = b := by
        have := hexVal_digitChar ha
        rw [hab, hexVal_digitChar hb] at this
        exact (Option.some.inj this).symm
      have hlong {a : Nat} (ha : ¬ a < 16) : Nat.toDigits 16 a =
          Nat.toDigits 16 (a / 16) ++ [Nat.digitChar (a % 16)] := by
        rw [Nat.toDigits_eq_if (by decide), if_neg ha]
      have hshort {a : Nat} (ha : a < 16) : Nat.toDigits 16 a = [] ++ [Nat.digitChar a] :=
        Nat.toDigits_of_lt_base ha
      by_cases hm : m < 16
      · by_cases hn : n < 16
        · rw [hshort hm, hshort hn] at h
          exact hdigit hm hn (List.append_inj' h rfl |>.2 |> List.singleton_inj.mp)
        · rw [hshort hm, hlong hn] at h
          exact absurd (List.append_inj' h rfl).1.symm Nat.toDigits_ne_nil
      · by_cases hn : n < 16
        · rw [hlong hm, hshort hn] at h
          exact absurd (List.append_inj' h rfl).1 Nat.toDigits_ne_nil
        · rw [hlong hm, hlong hn] at h
          rcases List.append_inj' h rfl with ⟨hrest, hlast⟩
          have hdiv := ih (m / 16) (by omega) hrest
          have hmod := hdigit (Nat.mod_lt m (by decide)) (Nat.mod_lt n (by decide))
            (List.singleton_inj.mp hlast)
          omega

/-- The fields of a text of groups. -/
def fields (gs : List Nat) : List Text := if gs = [] then [[]] else gs.map (Nat.toDigits 16)

theorem splitOn_groupsText (gs : List Nat) : (groupsText gs).splitOn ':' = fields gs := by
  unfold fields groupsText
  split
  · rename_i hnil
    rw [hnil]
    rfl
  · rename_i hne
    refine List.splitOn_intercalate ':' ?_ (by simpa using hne)
    intro l hl
    rcases List.mem_map.mp hl with ⟨g, -, rfl⟩
    exact Rpc.not_mem_group (by decide) g

theorem fields_inj {gs gs' : List Nat} (h : fields gs = fields gs') : gs = gs' := by
  have hne (g : Nat) (gs : List Nat) : [[]] ≠ (g :: gs).map (Nat.toDigits 16) := by
    intro heq
    rw [List.map_cons] at heq
    exact Nat.toDigits_ne_nil (List.cons.inj heq).1.symm
  unfold fields at h
  cases gs with
  | nil =>
      cases gs' with
      | nil => rfl
      | cons g gs' => exact absurd h (hne g gs')
  | cons g gs =>
      cases gs' with
      | nil => exact absurd h.symm (hne g gs)
      | cons g' gs' =>
          rw [if_neg (List.cons_ne_nil _ _), if_neg (List.cons_ne_nil _ _)] at h
          exact List.map_injective_iff.mpr (fun _ _ => group_inj) h

/-- Only the fields of no group start with an empty one. -/
theorem head_fields_iff (gs : List Nat) (rest : List Text) :
    (fields gs ++ rest).head? = some [] ↔ gs = [] := by
  cases gs with
  | nil => exact ⟨fun _ => rfl, fun _ => rfl⟩
  | cons g gs =>
      have hne : Nat.toDigits 16 g ≠ [] := Nat.toDigits_ne_nil
      simp [fields, hne]

theorem not_mem_fields {gs : List Nat} (h : gs ≠ []) : [] ∉ fields gs := by
  unfold fields
  rw [if_neg h]
  intro hmem
  rcases List.mem_map.mp hmem with ⟨g, -, hg⟩
  exact Nat.toDigits_ne_nil hg

/-- What stands before and after the `::` is determined. -/
theorem shortened_inj {l r l' r' : List Nat}
    (h : fields l ++ [] :: fields r = fields l' ++ [] :: fields r') : l = l' ∧ r = r' := by
  have hempty : l = [] ↔ l' = [] := by
    rw [← head_fields_iff l ([] :: fields r), h, head_fields_iff]
  by_cases hl : l = []
  · have hl' := hempty.mp hl
    rw [hl, hl'] at h ⊢
    refine ⟨rfl, fields_inj ?_⟩
    exact (List.cons.inj (List.cons.inj h).2).2
  · have hl' : l' ≠ [] := fun hnil => hl (hempty.mpr hnil)
    rcases Separated.first_inj (not_mem_fields hl) (not_mem_fields hl') h with ⟨hleft, hright⟩
    exact ⟨fields_inj hleft, fields_inj hright⟩

/-! ### The run of zeros -/

/-- The groups of a span are zeros. -/
def Zeros (gs : List Nat) (span : Nat × Nat) : Prop :=
  span.1 + span.2 ≤ gs.length ∧ ∀ k, span.1 ≤ k → k < span.1 + span.2 → gs[k]? = some 0

theorem zeroSpan_zeros (all gs : List Nat) (i current : Nat) (longest : Nat × Nat)
    (hall : ∃ before, all = before ++ gs ∧ before.length = i) (hcurrent : current ≤ i)
    (hopen : Zeros all (i - current, current)) (hlongest : Zeros all longest) :
    Zeros all (zeroSpan gs i current longest) := by
  induction gs generalizing i current longest with
  | nil => exact hlongest
  | cons g gs ih =>
      rcases hall with ⟨before, rfl, rfl⟩
      have hnext : ∃ front, before ++ g :: gs = front ++ gs ∧ front.length = before.length + 1 :=
        ⟨before ++ [g], by simp, by simp⟩
      rw [zeroSpan]
      split
      · rename_i hzero
        -- the open run is one longer
        have hopen' : Zeros (before ++ g :: gs) (before.length - current, current + 1) := by
          refine ⟨?_, ?_⟩
          · simp only [List.length_append, List.length_cons]
            omega
          · intro k hlow hhigh
            by_cases hk : k = before.length
            · rw [hk, List.getElem?_append_right (Nat.le_refl _), Nat.sub_self, hzero]
              rfl
            · exact hopen.2 k hlow (by omega)
        refine ih _ _ _ hnext (by omega) ?_ ?_
        · rw [show before.length + 1 - (current + 1) = before.length - current by omega]
          exact hopen'
        · split
          · exact hopen'
          · exact hlongest
      · refine ih _ _ _ hnext (Nat.zero_le _) ⟨?_, ?_⟩ hlongest
        · simp only [List.length_append, List.length_cons]
          omega
        · intro k hlow hhigh
          omega

/-- Around a run of zeros, the front and the back determine the groups. -/
theorem eq_of_spans {gs gs' : List Nat} {span span' : Nat × Nat} (hlen : gs.length = gs'.length)
    (h : Zeros gs span) (h' : Zeros gs' span') (hfront : gs.take span.1 = gs'.take span'.1)
    (hback : gs.drop (span.1 + span.2) = gs'.drop (span'.1 + span'.2)) : gs = gs' := by
  rcases h with ⟨hle, hzero⟩
  rcases h' with ⟨hle', hzero'⟩
  have hstart : span.1 = span'.1 := by
    have := congrArg List.length hfront
    rw [List.length_take, List.length_take] at this
    omega
  have hend : span.1 + span.2 = span'.1 + span'.2 := by
    have := congrArg List.length hback
    rw [List.length_drop, List.length_drop] at this
    omega
  refine List.ext_getElem? ?_
  intro k
  by_cases hlow : k < span.1
  · have := congrArg (·[k]?) hfront
    simpa only [List.getElem?_take, hlow, ← hstart, if_true] using this
  · by_cases hhigh : k < span.1 + span.2
    · rw [hzero k (by omega) hhigh, hzero' k (by omega) (by omega)]
    · have := congrArg (·[k - (span.1 + span.2)]?) hback
      simp only [← hend, List.getElem?_drop] at this
      rwa [show span.1 + span.2 + (k - (span.1 + span.2)) = k by omega] at this

/-! ### IPv6 addresses -/

theorem length_segments (bits : BitVec 128) : (segments bits).length = 8 := by
  unfold segments
  rw [List.length_map, List.length_range]

theorem segments_inj {a b : BitVec 128} (h : segments a = segments b) : a = b := by
  have hdigit : ∀ i < 8, a.toNat / 65536 ^ (7 - i) % 65536 = b.toNat / 65536 ^ (7 - i) % 65536 := by
    intro i hi
    have := congrArg (·[i]?) h
    simpa [segments, hi] using this
  have hmod : ∀ k ≤ 8, a.toNat % 65536 ^ k = b.toNat % 65536 ^ k := by
    intro k
    induction k with
    | zero =>
        intro _
        rw [Nat.pow_zero, Nat.mod_one, Nat.mod_one]
    | succ k ih =>
        intro hk
        have hlast := hdigit (7 - k) (by omega)
        rw [show 7 - (7 - k) = k by omega] at hlast
        rw [Nat.mod_pow_succ, Nat.mod_pow_succ, ih (by omega), hlast]
  have hall : a.toNat % 2 ^ 128 = b.toNat % 2 ^ 128 := hmod 8 (Nat.le_refl 8)
  refine BitVec.eq_of_toNat_eq ?_
  rwa [Nat.mod_eq_of_lt a.isLt, Nat.mod_eq_of_lt b.isLt] at hall

/-- The text of an IPv6 address in its fields: all groups, or those around the zeros. -/
theorem splitOn_ipv6Text (bits : BitVec 128) :
    (ipv6Text bits).splitOn ':' = fields (segments bits) ∨
    ∃ span, Zeros (segments bits) span ∧ (ipv6Text bits).splitOn ':' =
      fields ((segments bits).take span.1) ++ [] ::
        fields ((segments bits).drop (span.1 + span.2)) := by
  unfold ipv6Text
  simp only
  split
  · right
    refine ⟨zeroSpan (segments bits) 0 0 (0, 0), ?_, ?_⟩
    · refine zeroSpan_zeros _ _ 0 0 (0, 0) ⟨[], rfl, rfl⟩ (Nat.le_refl 0) ?_ ?_
      all_goals
        refine ⟨Nat.zero_le _, ?_⟩
        intro k _ hk
        omega
    · rw [List.append_assoc]
      show (groupsText _ ++ ':' :: ([] ++ ':' :: groupsText _)).splitOn ':' = _
      rw [List.splitOn_append_cons_self, List.splitOn_append_cons_self, splitOn_groupsText,
        splitOn_groupsText]
      rfl
  · exact .inl (splitOn_groupsText _)

theorem ipv6Text_inj {a b : BitVec 128} (h : ipv6Text a = ipv6Text b) : a = b := by
  have hsplit := congrArg (List.splitOn ':') h
  have hne (bits : BitVec 128) : segments bits ≠ [] := by
    intro hnil
    have := length_segments bits
    rw [hnil] at this
    cases this
  -- an empty field in the middle tells the shortened texts
  have hshort (bits : BitVec 128) (x y : List Text) : fields (segments bits) ≠ x ++ [] :: y := by
    intro heq
    refine not_mem_fields (hne bits) ?_
    rw [heq]
    exact List.mem_append_right _ List.mem_cons_self
  rcases splitOn_ipv6Text a with ha | ⟨span, hzeros, ha⟩
  · rcases splitOn_ipv6Text b with hb | ⟨span', -, hb⟩
    · rw [ha, hb] at hsplit
      exact segments_inj (fields_inj hsplit)
    · rw [ha, hb] at hsplit
      exact absurd hsplit (hshort a _ _)
  · rcases splitOn_ipv6Text b with hb | ⟨span', hzeros', hb⟩
    · rw [ha, hb] at hsplit
      exact absurd hsplit.symm (hshort b _ _)
    · rw [ha, hb] at hsplit
      rcases shortened_inj hsplit with ⟨hfront, hback⟩
      refine segments_inj (eq_of_spans ?_ hzeros hzeros' hfront hback)
      rw [length_segments, length_segments]

theorem colon_mem_ipv6Text (bits : BitVec 128) : ':' ∈ ipv6Text bits := by
  rcases Rpc.ipv6Text_cases bits with hhead | ⟨n, rest, -, htext⟩
  · exact List.mem_of_mem_head? hhead
  · rw [htext]
    exact List.mem_append_right _ List.mem_cons_self

/-! ### Canonical addresses -/

theorem text_toCanonical (ip : IpAddr) : ip.toCanonical.text = ip.canonicalText := by
  cases ip with
  | v4 bits => rfl
  | v6 bits =>
      simp only [toCanonical, canonicalText]
      cases h : toIpv4Mapped bits with
      | some ip => rfl
      | none => simp [text, h]

/-- Texts tell addresses apart, as far as they are different ones. -/
theorem canonicalText_inj {a b : IpAddr} :
    a.canonicalText = b.canonicalText ↔ a.toCanonical = b.toCanonical := by
  constructor
  · intro h
    have hv4v6 (x : BitVec 32) (y : BitVec 128) : ipv4Text x ≠ ipv6Text y := by
      intro heq
      refine Rpc.not_mem_ipv4Text (c := ':') (by decide) (by decide) x ?_
      rw [heq]
      exact colon_mem_ipv6Text y
    -- an address is of one kind or the other, with its text
    have hkind (ip : IpAddr) : (∃ x, ip.toCanonical = .v4 x ∧ ip.canonicalText = ipv4Text x) ∨
        ∃ y, ip.toCanonical = .v6 y ∧ ip.canonicalText = ipv6Text y := by
      cases ip with
      | v4 bits => exact .inl ⟨bits, rfl, rfl⟩
      | v6 bits =>
          simp only [toCanonical, canonicalText]
          cases toIpv4Mapped bits with
          | some x => exact .inl ⟨x, rfl, rfl⟩
          | none => exact .inr ⟨bits, rfl, rfl⟩
    rcases hkind a with ⟨x, ha, hta⟩ | ⟨x, ha, hta⟩
    · rcases hkind b with ⟨y, hb, htb⟩ | ⟨y, hb, htb⟩
      · rw [ha, hb, ipv4Text_inj (hta.symm.trans (h.trans htb))]
      · exact absurd (hta.symm.trans (h.trans htb)) (hv4v6 x y)
    · rcases hkind b with ⟨y, hb, htb⟩ | ⟨y, hb, htb⟩
      · exact absurd (htb.symm.trans (h.symm.trans hta)) (hv4v6 y x)
      · rw [ha, hb, ipv6Text_inj (hta.symm.trans (h.trans htb))]
  · intro h
    rw [← text_toCanonical, ← text_toCanonical, h]

end IpAddr

namespace Rpc

/-! ## The list of servers -/

section

variable {env : Env} {c c' : Client}

theorem updateSettings_rpcServers (map : String → Option Text) (choice : Nat) :
    (updateSettings env c map choice).1.rpcServers =
        ((map "rpc_server_ip").map serverList).getD c.rpcServers ∧
      (updateSettings env c map choice).1.settings.disableIpCheck = c.settings.disableIpCheck := by
  unfold updateSettings
  cases map "rpc_server_ip" with
  | none => exact ⟨rfl, rfl⟩
  | some ips =>
      simp only
      cases hchange : changeServer env { c with rpcServers := serverList ips } choice with
      | none => exact ⟨rfl, rfl⟩
      | some c' =>
          have honly := changeServer_hostOnly hchange
          unfold HostOnly at honly
          rw [honly]
          exact ⟨rfl, rfl⟩

/-- What a reply does to the list of servers and to the switch of the check. -/
def Keeps (c c' : Client) (ips : Option Text) : Prop :=
  c'.rpcServers = (ips.map serverList).getD c.rpcServers ∧
    c'.settings.disableIpCheck = c.settings.disableIpCheck

theorem HostOnly.keeps (h : HostOnly c c') : Keeps c c' none := by
  unfold HostOnly at h
  rw [h]
  exact ⟨rfl, rfl⟩

theorem checkStat_keeps (r : Reply) : Keeps c (checkStat env c r).1 none := by
  unfold checkStat
  split
  · exact ⟨rfl, rfl⟩
  · simp only
    split
    · split <;> exact ⟨rfl, rfl⟩
    · exact ⟨rfl, rfl⟩

theorem onResponse_keeps (choice : Nat) (res : ApiResponse) (call : Call) :
    Keeps c (call.onResponse env c choice res).1 (announced res call) := by
  cases call with
  | login =>
      simp only [Call.onResponse, announced]
      cases hok : res.isOk with
      | false =>
          cases initSettings res.toMap <;> exact ⟨rfl, rfl⟩
      | true =>
          cases hinit : initSettings res.toMap with
          | error e => exact ⟨rfl, rfl⟩
          | ok init => exact updateSettings_rpcServers res.toMap choice
  | refreshSettings =>
      simp only [Call.onResponse, announced]
      cases hok : res.isOk with
      | false => exact ⟨rfl, rfl⟩
      | true => exact updateSettings_rpcServers res.toMap choice
  | getPurgelist | srFetch | dlFetch | connectCheck =>
      simp only [Call.onResponse, announced]
      split <;> exact ⟨rfl, rfl⟩
  | stillAlive =>
      simp only [Call.onResponse, announced]
      split
      · exact ⟨rfl, rfl⟩
      · split <;> exact ⟨rfl, rfl⟩
  | dlFails | notifyOverload | shutdown => exact ⟨rfl, rfl⟩

theorem announced_of_not_ok {res : ApiResponse} (h : res.isOk = false) (call : Call) :
    announced res call = none := by
  cases call with
  | login =>
      simp only [announced, h]
      cases initSettings res.toMap <;> rfl
  | refreshSettings =>
      simp only [announced, h]
      rfl
  | _ => rfl

theorem handle_keeps {call : Call} {r : Reply} {pc pc' : Pc}
    (h : handle env call c r pc = some (c', pc')) :
    Keeps c c' ((response env c r pc).bind (announced · call)) := by
  cases pc with
  | loginStat =>
      have hc : c' = (checkStat env c r).1 := by
        simp only [handle] at h
        repeat' split at h
        all_goals
          cases h
          rfl
      rw [hc]
      exact checkStat_keeps r
  | syncing attempt =>
      cases h
      exact checkStat_keeps r
  | returned out => cases h
  | sending attempt =>
      simp only [handle] at h
      split at h
      · rename_i elsewhere hresult
        have hnone : (response env c r (.sending attempt)).bind (announced · call) = none := by
          simp [response, hresult, Except.toOption]
        rw [hnone]
        split at h
        · have hhost := (retryElsewhere_spec env call c r.choice attempt).1
          rw [Option.some.inj h] at hhost
          exact hhost.keeps
        · cases h
          exact ⟨rfl, rfl⟩
      · rename_i body hresult
        have hsome : (response env c r (.sending attempt)).bind (announced · call) =
            announced (parseResponse env.sha1 env.key c.host body) call := by
          simp [response, hresult, Except.toOption]
        rw [hsome]
        split at h
        · rename_i hexpired
          cases h
          rw [announced_of_not_ok]
          · exact ⟨rfl, rfl⟩
          · unfold ApiResponse.isOk
            rw [of_decide_eq_true hexpired]
            decide
        · split at h
          · rename_i hfail
            have hhost := (retryElsewhere_spec env call c r.choice attempt).1
            rw [Option.some.inj h] at hhost
            rw [announced_of_not_ok]
            · exact hhost.keeps
            · unfold ApiResponse.isOk
              rw [of_decide_eq_true hfail]
              decide
          · cases h
            exact onResponse_keeps r.choice _ call

end

/-! ## Runs -/

/-- The list of servers is that of the last announcement, which was signed; the switch of the
check is that of the start. -/
structure Heard (env : Env) (disableIpCheck : Bool) (s : Told) : Prop where
  servers : s.state.client.rpcServers = (s.ips.map serverList).getD []
  switch : s.state.client.settings.disableIpCheck = disableIpCheck
  signed : ∀ ips ∈ s.ips, ∃ host body,
    Signed env.sha1 env.key body (parseResponse env.sha1 env.key host body).data ∧
      (parseResponse env.sha1 env.key host body).toMap "rpc_server_ip" = some ips

theorem signed_of_announced {env : Env} {c : Client} {r : Reply} {pc : Pc} {call : Call}
    {ips : Text} (h : (response env c r pc).bind (announced · call) = some ips) :
    ∃ host body, Signed env.sha1 env.key body (parseResponse env.sha1 env.key host body).data ∧
      (parseResponse env.sha1 env.key host body).toMap "rpc_server_ip" = some ips := by
  rcases Option.bind_eq_some_iff.mp h with ⟨res, hres, hann⟩
  cases pc with
  | sending attempt =>
      rcases Option.map_eq_some_iff.mp hres with ⟨body, -, rfl⟩
      cases hok : (parseResponse env.sha1 env.key c.host body).isOk with
      | false =>
          rw [announced_of_not_ok hok] at hann
          cases hann
      | true =>
          refine ⟨c.host, body, parseResponse_ok hok, ?_⟩
          cases call with
          | login =>
              simp only [announced, hok, if_true] at hann
              split at hann
              · exact hann
              · cases hann
          | refreshSettings =>
              simp only [announced, hok, if_true] at hann
              exact hann
          | _ => cases hann
  | loginStat | syncing | returned => cases hres

theorem heard_step {env : Env} {b : Bool} {s s' : Told} {a : Action} (hi : Heard env b s)
    (hs : (toldMachine env b).step s a = some s') : Heard env b s' := by
  rcases Option.map_eq_some_iff.mp hs with ⟨t, ht, rfl⟩
  cases a with
  | start call =>
      obtain rfl := Option.some.inj ht
      have hkeep : Keeps s.state.client (call.start s.state.client).1 none := by
        unfold Call.start
        split <;> exact ⟨rfl, rfl⟩
      refine ⟨?_, ?_, hi.signed⟩
      · exact hkeep.1.trans hi.servers
      · exact hkeep.2.trans hi.switch
  | reply i r =>
      rcases Option.bind_eq_some_iff.mp ht with ⟨⟨call, pc⟩, hcall, ht⟩
      rcases Option.map_eq_some_iff.mp ht with ⟨⟨c', pc'⟩, hhandle, rfl⟩
      rcases handle_keeps hhandle with ⟨hservers, hswitch⟩
      have hips : toldIps env s (.reply i r) =
          ((response env s.state.client r pc).bind (announced · call) <|> s.ips) := by
        simp only [toldIps, hcall, Option.bind_some]
      refine ⟨?_, hswitch.trans hi.switch, ?_⟩
      · show c'.rpcServers = _
        rw [hservers, hips, hi.servers]
        cases (response env s.state.client r pc).bind (announced · call) <;> rfl
      · intro ips hmem
        have hmem : toldIps env s (.reply i r) = some ips := hmem
        rw [hips] at hmem
        cases hann : (response env s.state.client r pc).bind (announced · call) with
        | none =>
            rw [hann] at hmem
            exact hi.signed ips hmem
        | some ips' =>
            rw [hann] at hmem
            obtain rfl : ips' = ips := Option.some.inj hmem
            exact signed_of_announced hann

theorem mem_serverList_iff {ips : Text} {peer : IpAddr} :
    peer.canonicalText ∈ serverList ips ↔
      ∃ literal ∈ ips.splitOn ';', ∃ ip, parseIp literal = some ip ∧
        ip.toCanonical = peer.toCanonical := by
  unfold serverList
  rw [List.mem_filterMap]
  constructor
  · rintro ⟨literal, hmem, htext⟩
    rcases Option.map_eq_some_iff.mp htext with ⟨ip, hip, heq⟩
    exact ⟨literal, hmem, ip, hip, IpAddr.canonicalText_inj.mp heq⟩
  · rintro ⟨literal, hmem, ip, hip, heq⟩
    refine ⟨literal, hmem, ?_⟩
    rw [hip, Option.map_some, IpAddr.canonicalText_inj.mpr heq]

/-- In every run of calls: a peer passes the check of `servercmd` exactly if the check was
switched off at the start, or the last signed settings with a `rpc_server_ip` have an address
in it that is the peer's, in whatever notation. -/
theorem authorised_iff {env : Env} {disableIpCheck : Bool} {s : Told}
    (h : (toldMachine env disableIpCheck).Reachable s) (peer : IpAddr) :
    (s.state.client.authorises peer = true ↔ disableIpCheck = true ∨
      ∃ ips ∈ s.ips, ∃ literal ∈ ips.splitOn ';', ∃ ip, parseIp literal = some ip ∧
        ip.toCanonical = peer.toCanonical) ∧
    ∀ ips ∈ s.ips, ∃ host body,
      Signed env.sha1 env.key body (parseResponse env.sha1 env.key host body).data ∧
        (parseResponse env.sha1 env.key host body).toMap "rpc_server_ip" = some ips := by
  have hi : Heard env disableIpCheck s := by
    refine h.invariant ?_ ?_
    · rintro s ⟨hips, -, maxConnection, host, hclient⟩
      refine ⟨?_, ?_, ?_⟩
      · rw [hclient, hips]
        rfl
      · rw [hclient]
        rfl
      · rw [hips]
        nofun
    · intro s a s' hi hs
      exact heard_step hi hs
  refine ⟨?_, hi.signed⟩
  unfold Client.authorises Client.isVaildRpcServer
  rw [hi.switch, hi.servers, IpAddr.text_toCanonical, Bool.or_eq_true]
  refine or_congr Iff.rfl ?_
  cases hips : s.ips with
  | none => simp
  | some ips =>
      rw [Option.map_some, Option.getD_some]
      have hany : (serverList ips).any (fun x => decide (x = peer.canonicalText)) = true ↔
          peer.canonicalText ∈ serverList ips := by
        simp
      rw [hany, mem_serverList_iff]
      simp

/-- Settings with two servers, one of them IPv4-mapped. -/
def twoServers : Reply where
  result := .ok (signedAnswer answerSha1 ['k'] 1 ["rpc_server_ip=1.2.3.4;::ffff:5.6.7.8".toList])
  choice := 0
  offset := some

/-- The second server passes with its IPv4 address. -/
theorem authorised_iff_mapped :
    ∃ s, (toldMachine envK false).Reachable s ∧
      s.state.client.authorises (.v4 0x05060708) = true ∧
      ∃ ips ∈ s.ips, ∃ literal ∈ ips.splitOn ';', ∃ ip, parseIp literal = some ip ∧
        ip.toCanonical = .v4 0x05060708 := by
  obtain ⟨s, hs, hpeer⟩ := Machine.reachable_of_run
    (show (toldMachine envK false).init ⟨⟨Client.new false 0 defaultServer, []⟩, none⟩ from
      ⟨rfl, rfl, 0, defaultServer, rfl⟩)
    [.start .refreshSettings, .reply 0 twoServers]
    (fun s => s.state.client.authorises (.v4 0x05060708) = true) (by decide +kernel)
  have hlisted := (authorised_iff hs (.v4 0x05060708)).1.mp hpeer
  exact ⟨s, hs, hpeer, hlisted.resolve_left nofun⟩

end Rpc

end Hath
