import StuntDouble.Utf8
import Mathlib.Data.List.Nodup

/-!
HTTP header maps and the grammar of names and values. A map keeps its names in
the order of their first insertion and, for each name, its values in the order
in which they were appended. The grammar of the HTTP library is a structure
whose fields are the documented facts that the program relies on.
-/
namespace StuntDouble.Http

def asciiLower (s : String) : String := String.ofList (s.toList.map Char.toLower)

def asciiUpper (s : String) : String := String.ofList (s.toList.map Char.toUpper)

def eqIgnoreAsciiCase (s t : String) : Bool := asciiLower s == asciiLower t

/-- A header value is any run of bytes that the grammar lets through. -/
abbrev HeaderValue := Bytes

/-- The text of a value made of visible ASCII and tabs only. -/
def HeaderValue.toStr (value : HeaderValue) : Option String :=
  if value.all (fun b => decide (32 ≤ b.toNat ∧ b.toNat < 127) || b == 9) then Utf8.decode value
  else none

/-- A text of visible characters and spaces. -/
def Visible (s : String) : Prop := ∀ c ∈ s.toList, 32 ≤ c.toNat ∧ c.toNat < 127

instance (s : String) : Decidable (Visible s) :=
  List.decidableBAll (fun c : Char => 32 ≤ c.toNat ∧ c.toNat < 127) s.toList

theorem Visible.append {s t : String} (hs : Visible s) (ht : Visible t) : Visible (s ++ t) := by
  intro c hc
  rw [String.toList_append, List.mem_append] at hc
  rcases hc with hc | hc
  · exact hs c hc
  · exact ht c hc

theorem visible_nat (n : ℕ) : Visible (toString n) := by
  intro c hc
  rw [Nat.toString_eq_repr, Nat.toList_repr] at hc
  have hdigit := Nat.isDigit_of_mem_toDigits (by omega) (by omega) hc
  simp only [Char.isDigit, ge_iff_le, Bool.and_eq_true, decide_eq_true_eq] at hdigit
  obtain ⟨hlow, hhigh⟩ := hdigit
  have hlow' : 48 ≤ c.toNat := hlow
  have hhigh' : c.toNat ≤ 57 := hhigh
  omega

structure HeaderGrammar where
  name : String → Option String
  value : String → Bool
  name_lower : ∀ s k, name s = some k → k = asciiLower s
  name_letters : ∀ s, s ≠ "" → s.utf8ByteSize < 2 ^ 15 →
    (∀ c ∈ s.toList, c.isAlpha ∨ c = '-') → name s = some (asciiLower s)
  value_visible : ∀ s, Visible s → value s = true

/-- The grammar of letters and hyphens in names, and of visible values. -/
def HeaderGrammar.letters : HeaderGrammar where
  name s :=
    if s ≠ "" ∧ s.utf8ByteSize < 2 ^ 15 ∧ s.toList.all (fun c => c.isAlpha || c == '-') then
      some (asciiLower s)
    else none
  value s := s.toList.all (fun c => decide (32 ≤ c.toNat ∧ c.toNat < 127))
  name_lower s k h := by
    by_cases hletters : s ≠ "" ∧ s.utf8ByteSize < 2 ^ 15 ∧
        s.toList.all (fun c => c.isAlpha || c == '-')
    · rw [if_pos hletters] at h
      exact (Option.some.inj h).symm
    · rw [if_neg hletters] at h
      contradiction
  name_letters s hne hsize hletters := by
    refine if_pos ⟨hne, hsize, ?_⟩
    rw [List.all_eq_true]
    intro c hc
    simpa using hletters c hc
  value_visible s hvisible := by
    simp only [List.all_eq_true, decide_eq_true_eq]
    exact hvisible

/-- Names with their values. -/
abbrev HeaderMap := List (String × List HeaderValue)

namespace HeaderMap

def getAll (headers : HeaderMap) (name : String) : List HeaderValue :=
  (headers.lookup name).getD []

def get (headers : HeaderMap) (name : String) : Option HeaderValue := (headers.getAll name).head?

def containsKey (headers : HeaderMap) (name : String) : Bool := (headers.lookup name).isSome

/-- Add a value behind the values the name already has. -/
def append : HeaderMap → String → HeaderValue → HeaderMap
  | [], name, value => [(name, [value])]
  | entry :: rest, name, value =>
    if entry.1 = name then (entry.1, entry.2 ++ [value]) :: rest
    else entry :: append rest name value

/-- Make a value the only one of its name. -/
def insert : HeaderMap → String → HeaderValue → HeaderMap
  | [], name, value => [(name, [value])]
  | entry :: rest, name, value =>
    if entry.1 = name then (entry.1, [value]) :: rest
    else entry :: insert rest name value

theorem getAll_cons (entry : String × List HeaderValue) (rest : HeaderMap) (name : String) :
    getAll (entry :: rest) name = if name = entry.1 then entry.2 else getAll rest name := by
  obtain ⟨key, values⟩ := entry
  unfold getAll
  by_cases h : name = key
  · subst h
    simp
  · have hbeq : (name == key) = false := beq_eq_false_iff_ne.mpr h
    simp [List.lookup_cons, hbeq, h]

theorem getAll_insert (headers : HeaderMap) (name other : String) (value : HeaderValue) :
    (headers.insert name value).getAll other =
      if other = name then [value] else headers.getAll other := by
  induction headers with
  | nil => rw [insert, getAll_cons]
  | cons entry rest ih =>
    unfold insert
    by_cases hentry : entry.1 = name
    · rw [if_pos hentry, getAll_cons, getAll_cons]
      by_cases hother : other = name
      · subst hother
        simp [hentry]
      · have hne : other ≠ entry.1 := fun h => hother (h.trans hentry)
        simp [hother, hne]
    · rw [if_neg hentry, getAll_cons, ih, getAll_cons]
      by_cases hother : other = name
      · subst hother
        simp [Ne.symm hentry]
      · simp [hother]

theorem containsKey_append (headers : HeaderMap) (name other : String) (value : HeaderValue) :
    (headers.append name value).containsKey other =
      (headers.containsKey other || decide (other = name)) := by
  induction headers with
  | nil =>
    by_cases h : other = name
    · simp [append, containsKey, h]
    · have hbeq : (other == name) = false := beq_eq_false_iff_ne.mpr h
      simp [append, containsKey, List.lookup_cons, hbeq, h]
  | cons entry rest ih =>
    obtain ⟨key, values⟩ := entry
    unfold containsKey at ih ⊢
    unfold append
    by_cases hkey : key = name
    · rw [if_pos hkey]
      by_cases hother : other = key
      · simp [hother]
      · have hbeq : (other == key) = false := beq_eq_false_iff_ne.mpr hother
        have hne : other ≠ name := fun h => hother (h.trans hkey.symm)
        simp [List.lookup_cons, hbeq, hne]
    · rw [if_neg hkey]
      by_cases hother : other = key
      · simp [hother]
      · have hbeq : (other == key) = false := beq_eq_false_iff_ne.mpr hother
        simp only [List.lookup_cons, hbeq]
        exact ih

theorem containsKey_foldl (pairs : List (String × HeaderValue)) (headers : HeaderMap)
    (name : String) (hheaders : headers.containsKey name = false)
    (hpairs : ∀ pair ∈ pairs, pair.1 ≠ name) :
    (pairs.foldl (fun headers pair => headers.append pair.1 pair.2) headers).containsKey name =
      false := by
  induction pairs generalizing headers with
  | nil => exact hheaders
  | cons pair rest ih =>
    have hne : pair.1 ≠ name := hpairs pair (by simp)
    refine ih _ ?_ (fun other hother => hpairs other (by simp [hother]))
    rw [containsKey_append, hheaders]
    simp [Ne.symm hne]

theorem getAll_of_not_containsKey (headers : HeaderMap) (name : String)
    (h : headers.containsKey name = false) : headers.getAll name = [] := by
  unfold containsKey at h
  unfold getAll
  rw [Option.isSome_eq_false_iff, Option.isNone_iff_eq_none] at h
  rw [h]
  rfl

/-- A name that is not there yet goes last. -/
theorem append_fresh (headers : HeaderMap) (name : String) (value : HeaderValue)
    (h : headers.containsKey name = false) :
    headers.append name value = headers ++ [(name, [value])] := by
  induction headers with
  | nil => rfl
  | cons entry rest ih =>
    obtain ⟨key, values⟩ := entry
    unfold containsKey at h
    by_cases hkey : name = key
    · subst hkey
      simp at h
    · have hbeq : (name == key) = false := beq_eq_false_iff_ne.mpr hkey
      rw [List.lookup_cons, hbeq] at h
      rw [append, if_neg (Ne.symm hkey), ih h]
      rfl

end HeaderMap

end StuntDouble.Http
