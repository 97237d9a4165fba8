import StuntDouble.Http
import Mathlib.Data.List.AList
import Mathlib.Data.List.Induction

/-!
Route matching: a method and path segments, with captured parameters. Three
traversals of the route table decide one request: which route answers it, which
methods its path has, and whether it has any.
-/
namespace StuntDouble.Matcher

open Http

structure Route where
  name : Option String
  method : String
  path : String
  script : String

abbrev Params := AList (fun _ : String => String)

structure Match where
  routeIndex : ℕ
  params : Params

def hexDigit (b : UInt8) : Option ℕ :=
  if 48 ≤ b.toNat ∧ b.toNat ≤ 57 then some (b.toNat - 48)
  else if 65 ≤ b.toNat ∧ b.toNat ≤ 70 then some (b.toNat - 55)
  else if 97 ≤ b.toNat ∧ b.toNat ≤ 102 then some (b.toNat - 87)
  else none

/-- Two bytes read as a number to base 16, which may begin with a plus sign. -/
def fromHex (b c : UInt8) : Option ℕ :=
  match hexDigit b, hexDigit c with
  | some high, some low => some (high * 16 + low)
  | none, some low => if b = 43 then some low else none
  | _, none => none

def percentDecodeBytes : Bytes → Bytes
  | 37 :: b :: c :: rest =>
    match fromHex b c with
    | some value => UInt8.ofNat value :: percentDecodeBytes rest
    | none => 37 :: percentDecodeBytes (b :: c :: rest)
  | other :: rest => other :: percentDecodeBytes rest
  | [] => []

def percentDecode (bytes : Bytes) : String := Utf8.decodeLossy (percentDecodeBytes bytes)

/-- The non-empty segments of a path. -/
def split (value : String) : List String :=
  ((value.toList.splitOn '/').filter (fun segment => !segment.isEmpty)).map String.ofList

/-- The name of a parameter segment. -/
def paramName (expected : String) : Option String :=
  match expected.toList with
  | ':' :: name => some (String.ofList name)
  | _ => none

def bindSegments : List (String × String) → Params → Option Params
  | [], params => some params
  | (expected, actual) :: rest, params =>
    match paramName expected with
    | some name =>
      if name = "" then none
      else bindSegments rest (params.insert name (percentDecode (Utf8.encode actual)))
    | none => if expected = actual then bindSegments rest params else none

def matchSegments (pattern : String) (segments : List String) : Option Params :=
  if (split pattern).length = segments.length then
    bindSegments ((split pattern).zip segments) ∅
  else none

def matchRouteFrom (method : String) (segments : List String) (index : ℕ) :
    List Route → Option Match
  | [] => none
  | route :: rest =>
    if route.method = method then
      match matchSegments route.path segments with
      | some params => some ⟨index, params⟩
      | none => matchRouteFrom method segments (index + 1) rest
    else matchRouteFrom method segments (index + 1) rest

def matchRoute (routes : List Route) (method path : String) : Option Match :=
  matchRouteFrom (asciiUpper method) (split path) 0 routes

def allowedMethodsFrom (segments : List String) (methods : List String) :
    List Route → List String
  | [] => methods
  | route :: rest =>
    match matchSegments route.path segments with
    | none => allowedMethodsFrom segments methods rest
    | some _ =>
      if asciiUpper route.method ∈ methods then allowedMethodsFrom segments methods rest
      else allowedMethodsFrom segments (methods ++ [asciiUpper route.method]) rest

def allowedMethods (routes : List Route) (path : String) : List String :=
  allowedMethodsFrom (split path) [] routes

def hasPathMatch (routes : List Route) (path : String) : Bool :=
  !(allowedMethods routes path).isEmpty

/-- The path of a route matches, whatever its method. -/
def Route.Matches (route : Route) (path : String) : Prop :=
  (matchSegments route.path (split path)).isSome = true

theorem matchRouteFrom_none (method : String) (segments : List String) (index : ℕ)
    (routes : List Route) :
    matchRouteFrom method segments index routes = none ↔
      ∀ route ∈ routes, route.method = method → matchSegments route.path segments = none := by
  induction routes generalizing index with
  | nil => simp [matchRouteFrom]
  | cons route rest ih =>
    unfold matchRouteFrom
    by_cases hmethod : route.method = method
    · rw [if_pos hmethod]
      cases hmatch : matchSegments route.path segments with
      | some params => simp [hmethod, hmatch]
      | none => simp [ih, hmatch]
    · simp [hmethod, ih]

/-- No route answers exactly when no route with the method has a matching path. -/
theorem matchRoute_none (routes : List Route) (method path : String) :
    matchRoute routes method path = none ↔
      ∀ route ∈ routes, route.method = asciiUpper method → ¬ route.Matches path := by
  unfold matchRoute Route.Matches
  rw [matchRouteFrom_none]
  simp

theorem matchRouteFrom_some (method : String) (segments : List String) (index : ℕ)
    (routes : List Route) (found : Match)
    (h : matchRouteFrom method segments index routes = some found) :
    ∃ route, index ≤ found.routeIndex ∧ routes[found.routeIndex - index]? = some route ∧
      route.method = method ∧ matchSegments route.path segments = some found.params := by
  induction routes generalizing index with
  | nil => contradiction
  | cons route rest ih =>
    have hlater : matchRouteFrom method segments (index + 1) rest = some found →
        ∃ route', index ≤ found.routeIndex ∧
          (route :: rest)[found.routeIndex - index]? = some route' ∧
            route'.method = method ∧ matchSegments route'.path segments = some found.params := by
      intro hrest
      obtain ⟨route', hle, hget, hroute⟩ := ih (index + 1) hrest
      have hstep : found.routeIndex - index = found.routeIndex - (index + 1) + 1 := by omega
      exact ⟨route', by omega, by rw [hstep, List.getElem?_cons_succ, hget], hroute⟩
    unfold matchRouteFrom at h
    by_cases hmethod : route.method = method
    · rw [if_pos hmethod] at h
      cases hmatch : matchSegments route.path segments with
      | none =>
        rw [hmatch] at h
        exact hlater h
      | some params =>
        rw [hmatch] at h
        obtain rfl := Option.some.inj h
        exact ⟨route, le_refl index, by simp, hmethod, hmatch⟩
    · rw [if_neg hmethod] at h
      exact hlater h

/-- A match is a route of the table with the method and a matching path. -/
theorem matchRoute_some (routes : List Route) (method path : String) (found : Match)
    (h : matchRoute routes method path = some found) :
    ∃ route, routes[found.routeIndex]? = some route ∧ route.method = asciiUpper method ∧
      matchSegments route.path (split path) = some found.params := by
  obtain ⟨route, -, hget, hroute⟩ := matchRouteFrom_some _ _ _ _ found h
  exact ⟨route, hget, hroute⟩

theorem mem_allowedMethodsFrom (segments : List String) (methods : List String)
    (routes : List Route) (method : String) :
    method ∈ allowedMethodsFrom segments methods routes ↔
      method ∈ methods ∨ ∃ route ∈ routes,
        (matchSegments route.path segments).isSome = true ∧ asciiUpper route.method = method := by
  induction routes generalizing methods with
  | nil => simp [allowedMethodsFrom]
  | cons route rest ih =>
    unfold allowedMethodsFrom
    cases hmatch : matchSegments route.path segments with
    | none => simp [ih, hmatch]
    | some params =>
      by_cases hseen : asciiUpper route.method ∈ methods
      · simp only [if_pos hseen, ih]
        constructor
        · intro h
          rcases h with hold | ⟨found, hfound, hrest⟩
          · exact Or.inl hold
          · exact Or.inr ⟨found, List.mem_cons_of_mem route hfound, hrest⟩
        · intro h
          rcases h with hold | ⟨found, hfound, hpath, hmethod⟩
          · exact Or.inl hold
          · rcases List.mem_cons.mp hfound with rfl | hfound
            · exact Or.inl (hmethod ▸ hseen)
            · exact Or.inr ⟨found, hfound, hpath, hmethod⟩
      · simp only [if_neg hseen, ih, List.mem_append, List.mem_singleton]
        constructor
        · intro h
          rcases h with (hold | rfl) | ⟨found, hfound, hrest⟩
          · exact Or.inl hold
          · exact Or.inr ⟨route, List.mem_cons_self, by rw [hmatch]; rfl, rfl⟩
          · exact Or.inr ⟨found, List.mem_cons_of_mem route hfound, hrest⟩
        · intro h
          rcases h with hold | ⟨found, hfound, hpath, hmethod⟩
          · exact Or.inl (Or.inl hold)
          · rcases List.mem_cons.mp hfound with rfl | hfound
            · exact Or.inl (Or.inr hmethod.symm)
            · exact Or.inr ⟨found, hfound, hpath, hmethod⟩

/-- The methods of a path are those of the routes that match it. -/
theorem mem_allowedMethods (routes : List Route) (path method : String) :
    method ∈ allowedMethods routes path ↔
      ∃ route ∈ routes, route.Matches path ∧ asciiUpper route.method = method := by
  unfold allowedMethods Route.Matches
  rw [mem_allowedMethodsFrom]
  simp

/-- A method is declared for a path by a route that stands before every route
that declares the other method for it. -/
def DeclaredBefore (routes : List Route) (path first second : String) : Prop :=
  ∃ front route back, routes = front ++ route :: back ∧ route.Matches path ∧
    asciiUpper route.method = first ∧
      ∀ other ∈ front, other.Matches path → asciiUpper other.method ≠ second

theorem DeclaredBefore.append {routes : List Route} {path first second : String}
    (h : DeclaredBefore routes path first second) (more : List Route) :
    DeclaredBefore (routes ++ more) path first second := by
  obtain ⟨front, route, back, rfl, hrest⟩ := h
  exact ⟨front, route, back ++ more, by simp, hrest⟩

theorem allowedMethodsFrom_append (segments methods : List String) (routes more : List Route) :
    allowedMethodsFrom segments methods (routes ++ more) =
      allowedMethodsFrom segments (allowedMethodsFrom segments methods routes) more := by
  induction routes generalizing methods with
  | nil => rfl
  | cons route rest ih =>
    rw [List.cons_append, allowedMethodsFrom, allowedMethodsFrom]
    split
    · exact ih methods
    · split
      · exact ih methods
      · exact ih _

/-- One more route declares its method if its path matches and the method is new. -/
theorem allowedMethods_snoc (routes : List Route) (route : Route) (path : String) :
    allowedMethods (routes ++ [route]) path = allowedMethods routes path ∨
      (route.Matches path ∧ asciiUpper route.method ∉ allowedMethods routes path ∧
        allowedMethods (routes ++ [route]) path =
          allowedMethods routes path ++ [asciiUpper route.method]) := by
  unfold allowedMethods Route.Matches
  rw [allowedMethodsFrom_append, allowedMethodsFrom]
  cases hmatch : matchSegments route.path (split path) with
  | none => exact Or.inl rfl
  | some params =>
    by_cases hseen : asciiUpper route.method ∈ allowedMethodsFrom (split path) [] routes
    · exact Or.inl (if_pos hseen)
    · exact Or.inr ⟨rfl, hseen, if_neg hseen⟩

theorem allowedMethods_nodup (routes : List Route) (path : String) :
    (allowedMethods routes path).Nodup := by
  induction routes using List.reverseRecOn with
  | nil => exact List.nodup_nil
  | append_singleton routes route ih =>
    rcases allowedMethods_snoc routes route path with heq | ⟨-, hnew, heq⟩
    · rw [heq]
      exact ih
    · rw [heq, List.nodup_append]
      refine ⟨ih, List.nodup_singleton _, ?_⟩
      intro a ha b hb hab
      rw [List.mem_singleton] at hb
      exact hnew (hb ▸ hab ▸ ha)

/-- The methods of a path stand in the order of their first declarations. -/
theorem allowedMethods_ordered (routes : List Route) (path : String) :
    (allowedMethods routes path).Pairwise (DeclaredBefore routes path) := by
  induction routes using List.reverseRecOn with
  | nil => exact List.Pairwise.nil
  | append_singleton routes route ih =>
    have hold : (allowedMethods routes path).Pairwise (DeclaredBefore (routes ++ [route]) path) :=
      ih.imp (fun h => h.append [route])
    rcases allowedMethods_snoc routes route path with heq | ⟨-, hnew, heq⟩
    · rw [heq]
      exact hold
    · rw [heq, List.pairwise_append]
      refine ⟨hold, List.pairwise_singleton _ _, ?_⟩
      intro first hfirst second hsecond
      rw [List.mem_singleton] at hsecond
      subst hsecond
      obtain ⟨found, hfound, hmatches, hmethod⟩ := (mem_allowedMethods routes path first).mp hfirst
      obtain ⟨front, back, hroutes⟩ := List.append_of_mem hfound
      refine ⟨front, found, back ++ [route], by simp [hroutes], hmatches, hmethod, ?_⟩
      intro other hother hothermatches hsame
      apply hnew
      rw [mem_allowedMethods]
      exact ⟨other, by simp [hroutes, hother], hothermatches, hsame⟩

end StuntDouble.Matcher
