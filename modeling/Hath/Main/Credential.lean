import Hath.Lib.Machine
import Hath.Lib.Separated
import Hath.Text

/-!
# Hath.Main.Credential — the file `client_login`

`read_credential` takes the id and the key from the first line of the file; where it finds
none, `setup` asks for them and writes the file. The id is any `i32` there, and the key has
twenty letters and digits. A start of the client uses what it has read or asked for.

* `readLine_written` — what is read back of what `setup` writes;
* `credential_stable` — what the later starts use.
-/

namespace Hath.Credential

open Lib

/-! ## Definitions -/

/-- `client_login`. -/
inductive File where
  | missing
  | text (content : Text)
  /-- It cannot be opened, or its first line is not UTF-8. -/
  | unreadable
deriving DecidableEq

/-- The id and the key of a line: further fields are ignored. -/
def readLine (line : Text) : Option (Int × Text) :=
  let credential := line.splitOn '-'
  (credential[0]?.bind (parseInt 32)).bind fun id => credential[1]?.map fun key => (id, key)

/-- `read_credential`. -/
def readCredential : File → Except Unit (Option (Int × Text))
  | .missing => .ok none
  | .text content => .ok ((lines content).head?.bind readLine)
  | .unreadable => .error ()

/-- `^[a-zA-Z0-9]{20}$`. -/
def validKey (key : Text) : Bool := key.length = 20 ∧ key.all Char.isAlphanum

/-- What `setup` writes. -/
def written (id : Int) (key : Text) : Text := intText id ++ '-' :: key

/-- The answers to the prompts of `setup`; `none` if they are broken off. -/
structure Answers where
  id : Int
  key : Text
  low : -2 ^ 31 ≤ id
  high : id < 2 ^ 31
  valid : validKey key = true

/-- A start, up to the credentials: the file it leaves and what it uses. `left` is what a
failed write leaves of the file. -/
def start (file : File) (answers : Option Answers) (left : Option File) :
    File × Option (Int × Text) :=
  match readCredential file with
  | .error _ => (file, none)
  | .ok (some credential) => (file, some credential)
  | .ok none =>
      match answers, left with
      | none, _ => (file, none)
      | some a, none => (.text (written a.id a.key), some (a.id, a.key))
      | some _, some file => (file, none)

/-- The file, and what the last start has used. -/
structure State where
  file : File
  used : Option (Int × Text)
deriving DecidableEq

/-- The starts of the client, with nobody else at the file. -/
def machine : Machine State (Option Answers × Option File) where
  init s := s.used = none
  step s a := some ⟨(start s.file a.1 a.2).1, (start s.file a.1 a.2).2⟩

/-! ## Lines -/

theorem not_mem_key {key : Text} (h : validKey key = true) {c : Char} (hc : c.isAlphanum = false) :
    c ∉ key := by
  intro hmem
  have hall := (of_decide_eq_true h).2
  have := List.all_eq_true.mp hall c hmem
  rw [hc] at this
  cases this

theorem not_mem_written {id : Int} {key : Text} (h : validKey key = true) {c : Char}
    (hc : c.isAlphanum = false) (hdash : c ≠ '-') : c ∉ written id key := by
  have hdigit : c.isDigit = false := by
    unfold Char.isAlphanum at hc
    exact (Bool.or_eq_false_iff.mp hc).2
  intro hmem
  rcases List.mem_append.mp hmem with hmem | hmem
  · rcases intText_eq id with ⟨-, htext⟩ | ⟨-, htext⟩
    · rw [htext] at hmem
      exact not_mem_natText hdigit hmem
    · rw [htext] at hmem
      rcases List.mem_cons.mp hmem with heq | hmem
      · exact hdash heq
      · exact not_mem_natText hdigit hmem
  · rcases List.mem_cons.mp hmem with heq | hmem
    · exact hdash heq
    · exact not_mem_key h hc hmem

/-- What is written is one line. -/
theorem lines_written {id : Int} {key : Text} (h : validKey key = true) :
    lines (written id key) = [written id key] := by
  have hclean : CleanLine (written id key) := by
    refine ⟨?_, ?_, ?_⟩
    · unfold written
      simp
    · exact not_mem_written h (by decide) (by decide)
    · exact not_mem_written h (by decide) (by decide)
  have hlines : lines (joinLines [written id key]) = [written id key] :=
    (lines_joinLines (by simp) (by simpa using hclean)).1
  simpa [joinLines] using hlines

/-- What is written is read back, unless the id is negative. -/
theorem readLine_written {id : Int} {key : Text} (hlow : -2 ^ 31 ≤ id) (hhigh : id < 2 ^ 31)
    (hkey : validKey key = true) :
    readLine (written id key) = if 0 ≤ id then some (id, key) else none := by
  have hdash : '-' ∉ key := not_mem_key hkey (by decide)
  unfold readLine written
  rcases intText_eq id with ⟨hpos, htext⟩ | ⟨hneg, htext⟩
  · have hparse : parseInt 32 (intText id) = some id := parseInt_intText hlow hhigh
    rw [htext] at hparse ⊢
    rw [if_pos hpos, List.splitOn_append_cons_self_of_not_mem (not_mem_natText (by decide)),
      List.splitOn_eq_singleton hdash]
    simp [hparse]
  · -- the first field is empty
    have hsplit : ((intText id ++ '-' :: key).splitOn '-')[0]? = some [] := by
      rw [htext]
      show (([] ++ '-' :: (natText id.natAbs ++ '-' :: key)).splitOn '-')[0]? = some []
      rw [List.splitOn_append_cons_self_of_not_mem List.not_mem_nil]
      rfl
    rw [if_neg (by omega)]
    simp only [hsplit]
    rfl

/-- A line that is read has no sign in front, and its key no dash. -/
theorem readLine_nonneg {line : Text} {id : Int} {key : Text} (h : readLine line = some (id, key)) :
    0 ≤ id := by
  unfold readLine at h
  rcases Option.bind_eq_some_iff.mp h with ⟨n, hn, h⟩
  rcases Option.bind_eq_some_iff.mp hn with ⟨field, hfield, hparse⟩
  rcases Option.map_eq_some_iff.mp h with ⟨k, -, heq⟩
  obtain rfl : n = id := (Prod.mk.inj heq).1
  have hdash : '-' ∉ field := Separated.not_mem_of_mem_splitOn (List.mem_of_getElem? hfield)
  unfold parseInt at hparse
  simp only at hparse
  split at hparse
  · exact absurd List.mem_cons_self hdash
  all_goals
    rcases Option.bind_eq_some_iff.mp hparse with ⟨m, -, hm⟩
    split at hm
    · obtain rfl := Option.some.inj hm
      omega
    · cases hm

/-! ## Starts -/

/-- What a start has used is in the file, unless the id is negative: then there is nothing. -/
def Kept (s : State) : Prop :=
  ∀ id key, s.used = some (id, key) →
    readCredential s.file = .ok (if 0 ≤ id then some (id, key) else none)

theorem start_of_read {file : File} {credential : Int × Text}
    (h : readCredential file = .ok (some credential)) (answers : Option Answers)
    (left : Option File) : start file answers left = (file, some credential) := by
  unfold start
  rw [h]

theorem start_kept (file : File) (answers : Option Answers) (left : Option File) :
    Kept ⟨(start file answers left).1, (start file answers left).2⟩ := by
  intro id key hused
  unfold start at hused ⊢
  cases hread : readCredential file with
  | error e =>
      rw [hread] at hused
      cases hused
  | ok credential =>
      rw [hread] at hused
      cases credential with
      | some credential =>
          obtain rfl := Option.some.inj hused
          have hpos : 0 ≤ id := by
            cases file with
            | missing => cases hread
            | unreadable => cases hread
            | text content =>
                rcases Option.bind_eq_some_iff.mp (Except.ok.inj hread) with ⟨line, -, hline⟩
                exact readLine_nonneg hline
          rw [if_pos hpos]
          exact hread
      | none =>
          cases answers with
          | none => cases hused
          | some a =>
              cases left with
              | some file => cases hused
              | none =>
                  obtain ⟨rfl, rfl⟩ := Prod.mk.inj (Option.some.inj hused)
                  show Except.ok ((lines (written a.id a.key)).head?.bind readLine) = _
                  rw [lines_written a.valid, List.head?_cons, Option.bind_some,
                    readLine_written a.low a.high a.valid]

/-- Over any number of starts, from any file: the credentials that a start has used are those
of all later ones, if the id is not negative; if it is, the next start does not find them. -/
theorem credential_stable {s : State} (h : machine.Reachable s) {id : Int} {key : Text}
    (hused : s.used = some (id, key)) :
    (0 ≤ id → ∀ s', (machine.startAt s).Reachable s' → s'.used = some (id, key)) ∧
      (id < 0 → readCredential s.file = .ok none) := by
  have hkept : Kept s := by
    refine h.invariant (I := Kept) ?_ ?_
    · intro s hs id key hused
      rw [show s.used = none from hs] at hused
      cases hused
    · intro s a s' _ hs
      obtain rfl := Option.some.inj hs
      exact start_kept s.file a.1 a.2
  have hfile := hkept id key hused
  constructor
  · intro hpos s' hs'
    rw [if_pos hpos] at hfile
    have hsame : s' = s := by
      refine hs'.invariant (I := fun t => t = s) ?_ ?_
      · intro t ht
        exact ht
      · rintro t a t' rfl hs
        obtain rfl := Option.some.inj hs
        rw [start_of_read hfile, ← hused]
    rw [hsame]
    exact hused
  · intro hneg
    rw [if_neg (by omega)] at hfile
    exact hfile

/-- A key of twenty characters. -/
def anyKey : Text := "abcdefghijABCDEFGHIJ".toList

def answers (id : Int) (hlow : -2 ^ 31 ≤ id) (hhigh : id < 2 ^ 31) : Answers :=
  ⟨id, anyKey, hlow, hhigh, by decide⟩

/-- A negative id is asked for again; the next one stays. -/
theorem credential_stable_asked :
    ∃ s, machine.Reachable s ∧ s.file = .text (written 7 anyKey) ∧
      ∀ s', (machine.startAt s).Reachable s' → s'.used = some (7, anyKey) := by
  obtain ⟨s, hs, hfile, hused⟩ := Machine.reachable_of_run
    (show machine.init ⟨.missing, none⟩ from rfl)
    [(some (answers (-5) (by decide) (by decide)), none),
      (some (answers 7 (by decide) (by decide)), none), (none, none)]
    (fun s => s.file = .text (written 7 anyKey) ∧ s.used = some (7, anyKey)) (by decide +kernel)
  exact ⟨s, hs, hfile, (credential_stable hs hused).1 (by decide)⟩

end Hath.Credential
