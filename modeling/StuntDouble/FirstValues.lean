import Mathlib.Data.List.Nodup
import Mathlib.Data.List.Basic
import Mathlib.Data.List.Induction

/-!
Collecting values by name, the first one of each name. A pass over a list of named values adds
a value to what it has collected unless the name is there already; a value may be unreadable,
and is then passed over. What is collected in the end is the first readable value of each
wanted name, whatever is repeated and in whatever order.
-/
namespace StuntDouble.FirstValues

variable {K V : Type} [DecidableEq K]

/-- The first readable value of a name. -/
def first (entries : List (K × Option V)) (name : K) : Option V :=
  (entries.filter fun entry => entry.1 = name).findSome? Prod.snd

/-- Add the value of an entry to the collected ones, if its name is wanted and new. -/
def take (wanted : K → Bool) (taken : List (K × V)) (entry : K × Option V) : List (K × V) :=
  if wanted entry.1 = true ∧ entry.1 ∉ taken.map Prod.fst then
    taken ++ (entry.2.map (Prod.mk entry.1)).toList
  else taken

def collect (wanted : K → Bool) (entries : List (K × Option V)) : List (K × V) :=
  entries.foldl (take wanted) []

theorem first_append (front back : List (K × Option V)) (name : K) :
    first (front ++ back) name = (first front name).or (first back name) := by
  unfold first
  rw [List.filter_append, List.findSome?_append]

theorem first_singleton (entry : K × Option V) (name : K) :
    first [entry] name = if entry.1 = name then entry.2 else none := by
  unfold first
  by_cases h : entry.1 = name
  · rw [List.filter_cons_of_pos (by simpa using h), if_pos h, List.filter_nil]
    cases hvalue : entry.2 <;> simp [hvalue]
  · rw [List.filter_cons_of_neg (by simpa using h), if_neg h, List.filter_nil]
    rfl

/-- The collected values are the first readable ones of the wanted names. -/
structure Collects (wanted : K → Bool) (entries : List (K × Option V)) (taken : List (K × V)) :
    Prop where
  nodup : (taken.map Prod.fst).Nodup
  mem_iff : ∀ name value, (name, value) ∈ taken ↔
    wanted name = true ∧ first entries name = some value

theorem Collects.take {wanted : K → Bool} {entries : List (K × Option V)}
    {taken : List (K × V)} (h : Collects wanted entries taken) (entry : K × Option V) :
    Collects wanted (entries ++ [entry]) (take wanted taken entry) := by
  obtain ⟨key, value⟩ := entry
  have hfirst (name : K) : first (entries ++ [(key, value)]) name =
      (first entries name).or (if key = name then value else none) := by
    rw [first_append, first_singleton]
  have hother {name : K} (hne : key ≠ name) :
      first (entries ++ [(key, value)]) name = first entries name := by
    rw [hfirst, if_neg hne, Option.or_none]
  unfold FirstValues.take
  by_cases hadd : wanted key = true ∧ key ∉ taken.map Prod.fst
  · obtain ⟨hwanted, hkey⟩ := hadd
    have hnone : first entries key = none := by
      by_contra hsome
      obtain ⟨found, hfound⟩ := Option.ne_none_iff_exists'.mp hsome
      exact hkey (List.mem_map_of_mem ((h.mem_iff key found).mpr ⟨hwanted, hfound⟩))
    have hkeyed : first (entries ++ [(key, value)]) key = value := by
      rw [hfirst, hnone, Option.none_or, if_pos rfl]
    rw [if_pos ⟨hwanted, hkey⟩]
    cases value with
    | none =>
      refine ⟨by simpa using h.nodup, fun name found => ?_⟩
      by_cases hname : key = name
      · subst hname
        simpa [hkeyed, hnone] using h.mem_iff key found
      · rw [hother hname]
        simpa using h.mem_iff name found
    | some new =>
      constructor
      · have hnodup := List.nodup_append.mpr ⟨h.nodup, List.nodup_singleton key, by
          intro other hmem last hlast heq
          rw [List.mem_singleton.mp hlast] at heq
          exact hkey (heq ▸ hmem)⟩
        simpa using hnodup
      · intro name found
        show (name, found) ∈ taken ++ [(key, new)] ↔ _
        rw [List.mem_append, List.mem_singleton, h.mem_iff]
        by_cases hname : key = name
        · subst hname
          rw [hkeyed, hnone]
          simp [hwanted, eq_comm]
        · rw [hother hname]
          simp [Ne.symm hname]
  · rw [if_neg hadd]
    refine ⟨h.nodup, fun name found => ?_⟩
    rw [h.mem_iff]
    by_cases hname : key = name
    · subst hname
      by_cases hwanted : wanted key = true
      · have hkey : key ∈ taken.map Prod.fst := by
          by_contra hkey
          exact hadd ⟨hwanted, hkey⟩
        obtain ⟨⟨_, old⟩, hmem, rfl⟩ := List.mem_map.mp hkey
        have hold := ((h.mem_iff _ old).mp hmem).2
        rw [hfirst, hold, Option.some_or]
      · simp [hwanted]
    · rw [hother hname]

theorem collects_collect (wanted : K → Bool) (entries : List (K × Option V)) :
    Collects wanted entries (collect wanted entries) := by
  unfold collect
  induction entries using List.reverseRecOn with
  | nil => exact ⟨List.nodup_nil, fun name value => by simp [first]⟩
  | append_singleton entries entry ih =>
    rw [List.foldl_append]
    exact ih.take entry

end StuntDouble.FirstValues
