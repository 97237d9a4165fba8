import StuntDouble.Matcher
import StuntDouble.Segments
import Mathlib.Data.List.Forall2

/-!
Which route answers a request, stated on the segments of patterns and paths: the first one
whose method is asked for and whose pattern fits the path. Its parameters are those of the
pattern, each with the segment at the last place of its name.
-/
namespace StuntDouble.Matcher

open Http Segments

/-- A segment of a pattern takes a segment of a path: a named one takes any, a literal one
only itself. -/
def SegmentFits (expected actual : String) : Prop :=
  match paramName expected with
  | some name => name ≠ ""
  | none => expected = actual

/-- A pattern has as many non-empty segments as a path, and each takes its counterpart. -/
def Fits (pattern path : String) : Prop := List.Forall₂ SegmentFits (split pattern) (split path)

/-- The last segment that a name stands for is decoded to the value. -/
def LastNamed (pairs : List (String × String)) (name value : String) : Prop :=
  ∃ front expected actual back, pairs = front ++ (expected, actual) :: back ∧
    paramName expected = some name ∧ value = percentDecode (Utf8.encode actual) ∧
      ∀ pair ∈ back, paramName pair.1 ≠ some name

/-- The parameters are the names of the pattern with the segments of the path. -/
def Binds (pattern path : String) (params : Params) : Prop :=
  ∀ name value, params.lookup name = some value ↔
    LastNamed ((split pattern).zip (split path)) name value

/-- A route has the method, in upper case, and its pattern fits. -/
def Route.Candidate (route : Route) (method path : String) : Prop :=
  route.method = asciiUpper method ∧ Fits route.path path

/-- The first candidate of the table, with its parameters. -/
structure Selects (routes : List Route) (method path : String) (found : Match) : Prop where
  candidate : ∃ route, routes[found.routeIndex]? = some route ∧ route.Candidate method path ∧
    Binds route.path path found.params
  least : ∀ index route, routes[index]? = some route → route.Candidate method path →
    found.routeIndex ≤ index

section Segments

theorem split_eq (value : String) : split value = (segments '/' value.toList).map String.ofList :=
  rfl

theorem split_same {value other : String} (h : SamePieces '/' value.toList other.toList) :
    split value = split other := by
  rw [split_eq, split_eq, h.segments_eq]

theorem lastNamed_nil (name value : String) : ¬ LastNamed [] name value := by
  intro h
  obtain ⟨front, expected, actual, back, hpairs, -⟩ := h
  simp at hpairs

/-- The first pair counts only when no later one has its name. -/
theorem lastNamed_cons (expected actual name value : String) (rest : List (String × String)) :
    LastNamed ((expected, actual) :: rest) name value ↔
      LastNamed rest name value ∨
        (paramName expected = some name ∧ value = percentDecode (Utf8.encode actual) ∧
          ∀ pair ∈ rest, paramName pair.1 ≠ some name) := by
  constructor
  · intro h
    obtain ⟨front, expected', actual', back, hpairs, hname, hvalue, hlast⟩ := h
    cases front with
    | nil =>
      obtain ⟨hpair, rfl⟩ := List.cons.inj hpairs
      obtain ⟨rfl, rfl⟩ := Prod.mk.inj hpair
      exact Or.inr ⟨hname, hvalue, hlast⟩
    | cons first front =>
      obtain ⟨-, rfl⟩ := List.cons.inj hpairs
      exact Or.inl ⟨front, expected', actual', back, rfl, hname, hvalue, hlast⟩
  · intro h
    rcases h with ⟨front, expected', actual', back, rfl, hname, hvalue, hlast⟩ |
      ⟨hname, hvalue, hlast⟩
    · exact ⟨(expected, actual) :: front, expected', actual', back, rfl, hname, hvalue, hlast⟩
    · exact ⟨[], expected, actual, rest, rfl, hname, hvalue, hlast⟩

end Segments

section Binding

/-- Binding succeeds when every pair fits, and later segments replace earlier ones. -/
theorem bindSegments_spec (pairs : List (String × String)) (params : Params) :
    (bindSegments pairs params = none ∧ ¬ ∀ pair ∈ pairs, SegmentFits pair.1 pair.2) ∨
      ∃ bound, bindSegments pairs params = some bound ∧
        (∀ pair ∈ pairs, SegmentFits pair.1 pair.2) ∧
          ∀ name value, bound.lookup name = some value ↔
            LastNamed pairs name value ∨
              ((∀ pair ∈ pairs, paramName pair.1 ≠ some name) ∧
                params.lookup name = some value) := by
  induction pairs generalizing params with
  | nil =>
    refine Or.inr ⟨params, rfl, by simp, ?_⟩
    intro name value
    simp [lastNamed_nil]
  | cons pair rest ih =>
    obtain ⟨expected, actual⟩ := pair
    unfold bindSegments
    cases hparam : paramName expected with
    | none =>
      by_cases hsame : expected = actual
      · have hfits : SegmentFits expected actual := by
          unfold SegmentFits
          rw [hparam]
          exact hsame
        simp only [if_pos hsame]
        rcases ih params with ⟨hnone, hnot⟩ | ⟨bound, hbound, hall, hlookup⟩
        · exact Or.inl ⟨hnone, by simpa [hfits] using hnot⟩
        · refine Or.inr ⟨bound, hbound, by simpa [hfits] using hall, ?_⟩
          intro name value
          rw [hlookup, lastNamed_cons, List.forall_mem_cons, hparam]
          simp
      · simp only [if_neg hsame]
        refine Or.inl ⟨trivial, ?_⟩
        simp [SegmentFits, hparam, hsame]
    | some param =>
      by_cases hempty : param = ""
      · simp only [if_pos hempty]
        refine Or.inl ⟨trivial, ?_⟩
        simp [SegmentFits, hparam, hempty]
      · have hfits : SegmentFits expected actual := by simp [SegmentFits, hparam, hempty]
        simp only [if_neg hempty]
        rcases ih (params.insert param (percentDecode (Utf8.encode actual))) with
          ⟨hnone, hnot⟩ | ⟨bound, hbound, hall, hlookup⟩
        · exact Or.inl ⟨hnone, by simpa [hfits] using hnot⟩
        · refine Or.inr ⟨bound, hbound, by simpa [hfits] using hall, ?_⟩
          intro name value
          rw [hlookup, lastNamed_cons, List.forall_mem_cons, hparam]
          by_cases hname : param = name
          · subst hname
            rw [AList.lookup_insert]
            simp only [Option.some.injEq, true_and, ne_eq, not_true_eq_false, false_and, or_false]
            rw [eq_comm, and_comm]
          · rw [AList.lookup_insert_ne (Ne.symm hname)]
            simp [hname]

/-- A pattern matches a path exactly when it fits, and then binds its names. -/
theorem matchSegments_spec (pattern path : String) :
    ((matchSegments pattern (split path)).isSome = true ↔ Fits pattern path) ∧
      ∀ params, matchSegments pattern (split path) = some params → Binds pattern path params := by
  unfold matchSegments Fits
  rw [List.forall₂_iff_zip]
  by_cases hlength : (split pattern).length = (split path).length
  · rw [if_pos hlength]
    rcases bindSegments_spec ((split pattern).zip (split path)) ∅ with
      ⟨hnone, hnot⟩ | ⟨bound, hbound, hall, hlookup⟩
    · rw [hnone]
      refine ⟨?_, fun params h => by contradiction⟩
      simp only [Option.isSome_none, Bool.false_eq_true, false_iff, not_and]
      intro _ hfits
      exact hnot (fun pair hpair => hfits hpair)
    · rw [hbound]
      refine ⟨?_, ?_⟩
      · simp only [Option.isSome_some, true_iff]
        exact ⟨hlength, fun hpair => hall _ hpair⟩
      · intro params h name value
        obtain rfl := Option.some.inj h
        rw [hlookup]
        simp
  · rw [if_neg hlength]
    refine ⟨?_, fun params h => by contradiction⟩
    simp [hlength]

theorem matches_iff (route : Route) (path : String) :
    route.Matches path ↔ Fits route.path path :=
  (matchSegments_spec route.path path).1

end Binding

section Routes

/-- The route that answers is not behind another one with the method and a matching path. -/
theorem matchRouteFrom_least (method : String) (segments : List String) (index : ℕ)
    (routes : List Route) (found : Match)
    (h : matchRouteFrom method segments index routes = some found) (other : ℕ) (route : Route)
    (hroute : routes[other]? = some route) (hmethod : route.method = method)
    (hmatch : (matchSegments route.path segments).isSome = true) :
    found.routeIndex ≤ index + other := by
  induction routes generalizing index other with
  | nil => contradiction
  | cons first rest ih =>
    unfold matchRouteFrom at h
    cases other with
    | zero =>
      obtain rfl : first = route := by simpa using hroute
      obtain ⟨params, hparams⟩ := Option.isSome_iff_exists.mp hmatch
      simp only [if_pos hmethod, hparams] at h
      obtain rfl := Option.some.inj h
      exact Nat.le_refl index
    | succ other =>
      rw [List.getElem?_cons_succ] at hroute
      have hlater : matchRouteFrom method segments (index + 1) rest = some found →
          found.routeIndex ≤ index + (other + 1) := by
        intro hrest
        have hle := ih (index + 1) hrest other hroute
        omega
      by_cases hfirst : first.method = method
      · rw [if_pos hfirst] at h
        cases hparams : matchSegments first.path segments with
        | none =>
          simp only [hparams] at h
          exact hlater h
        | some params =>
          simp only [hparams] at h
          obtain rfl := Option.some.inj h
          exact Nat.le_add_right index (other + 1)
      · rw [if_neg hfirst] at h
        exact hlater h

theorem matchRoute_selects (routes : List Route) (method path : String) (found : Match)
    (h : matchRoute routes method path = some found) : Selects routes method path found := by
  obtain ⟨route, hget, hmethod, hmatch⟩ := matchRoute_some routes method path found h
  obtain ⟨hfits, hbinds⟩ := matchSegments_spec route.path path
  refine ⟨⟨route, hget, ⟨hmethod, ?_⟩, hbinds _ hmatch⟩, ?_⟩
  · rw [← hfits, hmatch]
    rfl
  · intro index other hother hcandidate
    have hle := matchRouteFrom_least _ _ 0 routes found h index other hother hcandidate.1
      ((matches_iff other path).mpr hcandidate.2)
    omega

theorem matchRoute_none_iff (routes : List Route) (method path : String) :
    matchRoute routes method path = none ↔ ∀ route ∈ routes, ¬ route.Candidate method path := by
  rw [matchRoute_none]
  simp only [Route.Candidate, not_and, matches_iff]

/-- The same method, and patterns that differ in empty segments. -/
def SameRoute (route other : Route) : Prop :=
  route.method = other.method ∧ SamePieces '/' route.path.toList other.path.toList

theorem matchRouteFrom_same (method : String) (segments : List String) (index : ℕ)
    {routes others : List Route} (h : List.Forall₂ SameRoute routes others) :
    matchRouteFrom method segments index routes = matchRouteFrom method segments index others := by
  induction h generalizing index with
  | nil => rfl
  | cons hroute _ ih =>
    obtain ⟨hmethod, hpath⟩ := hroute
    unfold matchRouteFrom matchSegments
    rw [hmethod, split_same hpath, ih]

/-- For routes with methods in upper case, matching finds the first route that has the method
and whose pattern fits, exactly when the method is among those allowed for the path. -/
theorem matchRoute_first (routes : List Route)
    (hupper : ∀ route ∈ routes, asciiUpper route.method = route.method) (method path : String) :
    (∀ found, matchRoute routes method path = some found → Selects routes method path found) ∧
      (matchRoute routes method path = none ↔
        ∀ route ∈ routes, ¬ route.Candidate method path) ∧
      (∀ others otherPath, List.Forall₂ SameRoute routes others →
        SamePieces '/' path.toList otherPath.toList →
          matchRoute others method otherPath = matchRoute routes method path) ∧
      ((matchRoute routes method path).isSome = true ↔
        asciiUpper method ∈ allowedMethods routes path) ∧
      (allowedMethods routes path).Nodup ∧
        (allowedMethods routes path).Pairwise (DeclaredBefore routes path) := by
  refine ⟨matchRoute_selects routes method path, matchRoute_none_iff routes method path, ?_, ?_,
    allowedMethods_nodup routes path, allowedMethods_ordered routes path⟩
  · intro others otherPath hroutes hpath
    unfold matchRoute
    rw [split_same hpath, matchRouteFrom_same _ _ 0 hroutes]
  · rw [mem_allowedMethods, ← not_iff_not, Option.not_isSome_iff_eq_none, matchRoute_none]
    constructor
    · intro hnone h
      obtain ⟨route, hroute, hmatches, hmethod⟩ := h
      exact hnone route hroute ((hupper route hroute).symm.trans hmethod) hmatches
    · intro hnone route hroute hmethod hmatches
      exact hnone ⟨route, hroute, hmatches, (hupper route hroute).trans hmethod⟩

/-- A name that stands for two segments. -/
theorem matchRoute_first_repeated :
    (∀ route ∈ [(⟨none, "GET", "/:a/x/:a", "s.js"⟩ : Route)],
        asciiUpper route.method = route.method) ∧
      ∃ found, matchRoute [⟨none, "GET", "/:a/x/:a", "s.js"⟩] "get" "/1//x/%32/" = some found ∧
        found.params.lookup "a" = some "2" ∧
          Selects [⟨none, "GET", "/:a/x/:a", "s.js"⟩] "get" "/1//x/%32/" found :=
  ⟨by decide, _, rfl, by decide, (matchRoute_first [⟨none, "GET", "/:a/x/:a", "s.js"⟩] (by decide)
    "get" "/1//x/%32/").1 _ rfl⟩

end Routes

end StuntDouble.Matcher
