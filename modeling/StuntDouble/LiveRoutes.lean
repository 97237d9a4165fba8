import StuntDouble.MatchRoute
import StuntDouble.Schema

/-!
Which routes of an accepted configuration can answer. The loader asks of a pattern that it
begins with a slash; the matcher also gives up at a named segment without a name. Every other
pattern takes itself as a path, and takes a path made of the characters that requests may
carry when its literal segments are.
-/
namespace StuntDouble.Configuration

open Http Matcher Segments Shapes

section Patterns

/-- A path as a request may have it, of characters that requests carry. -/
def RequestPath (carried : Char → Prop) (path : String) : Prop :=
  path.toList.head? = some '/' ∧ ∀ c ∈ path.toList, carried c

/-- The literal segments of a pattern have only such characters. -/
def LiteralsCarried (carried : Char → Prop) (pattern : String) : Prop :=
  ∀ segment ∈ split pattern, paramName segment = none → ∀ c ∈ segment.toList, carried c

theorem paramName_empty (segment : String) : paramName segment = some "" ↔ segment = ":" := by
  constructor
  · intro h
    unfold paramName at h
    split at h
    · rename_i name hname
      have hnil : name = [] := by simpa using congrArg String.toList (Option.some.inj h)
      rw [hnil] at hname
      exact String.toList_injective hname
    · cases h
  · rintro rfl
    rfl

theorem segmentFits_named {expected actual : String} (h : SegmentFits expected actual) :
    expected ≠ ":" := by
  intro hunnamed
  have hparam := (paramName_empty expected).mpr hunnamed
  unfold SegmentFits at h
  rw [hparam] at h
  exact h rfl

/-- A segment that is not a lone colon takes itself. -/
theorem segmentFits_self {expected : String} (h : expected ≠ ":") :
    SegmentFits expected expected := by
  unfold SegmentFits
  cases hparam : paramName expected with
  | none => rfl
  | some name =>
    intro hempty
    apply h
    rw [← paramName_empty, hparam, hempty]

/-- Each segment of a pattern that fits has its counterpart. -/
theorem fits_segment {pattern path segment : String} (h : Fits pattern path)
    (hsegment : segment ∈ split pattern) : ∃ actual ∈ split path, SegmentFits segment actual := by
  unfold Fits at h
  generalize split pattern = expecteds at h hsegment
  generalize split path = actuals at h ⊢
  induction h with
  | nil => cases hsegment
  | cons hfirst hrest ih =>
    rcases List.mem_cons.mp hsegment with rfl | hmem
    · exact ⟨_, List.mem_cons_self, hfirst⟩
    · obtain ⟨actual, hactual, hfits⟩ := ih hmem
      exact ⟨actual, List.mem_cons_of_mem _ hactual, hfits⟩

theorem fits_named {pattern path : String} (h : Fits pattern path) : ":" ∉ split pattern := by
  intro hmem
  obtain ⟨actual, -, hfits⟩ := fits_segment h hmem
  exact segmentFits_named hfits rfl

theorem fits_self {pattern : String} (h : ":" ∉ split pattern) : Fits pattern pattern := by
  unfold Fits
  rw [List.forall₂_same]
  intro segment hsegment
  apply segmentFits_self
  rintro rfl
  exact h hsegment

end Patterns

section Filled

/-- A segment that the segment of a pattern takes: the given one, unless it is literal. -/
def filledSegment (piece : Char) (segment : String) : String :=
  if (paramName segment).isSome then String.singleton piece else segment

/-- A path with one character for each named segment of a pattern. -/
def filled (piece : Char) (pattern : String) : String :=
  String.ofList ('/' :: ((split pattern).map fun segment =>
    (filledSegment piece segment).toList).flatMap fun text => text ++ ['/'])

theorem mem_split {pattern segment : String} (h : segment ∈ split pattern) :
    segment.toList ≠ [] ∧ '/' ∉ segment.toList ∧ segment.toList ⊆ pattern.toList := by
  rw [split_eq, List.mem_map] at h
  obtain ⟨text, htext, rfl⟩ := h
  rw [String.toList_ofList]
  exact mem_segments htext

theorem segmentFits_filled (piece : Char) {segment : String} (h : segment ≠ ":") :
    SegmentFits segment (filledSegment piece segment) := by
  unfold filledSegment
  cases hparam : paramName segment with
  | none => exact segmentFits_self h
  | some name =>
    have hfits := segmentFits_self h
    unfold SegmentFits at hfits ⊢
    rw [hparam] at hfits ⊢
    exact hfits

theorem split_filled {piece : Char} (hpiece : piece ≠ '/') (pattern : String) :
    split (filled piece pattern) = (split pattern).map (filledSegment piece) := by
  have hpieces : ∀ text ∈ (split pattern).map (fun segment =>
      (filledSegment piece segment).toList), text ≠ [] ∧ '/' ∉ text := by
    intro text htext
    obtain ⟨segment, hsegment, rfl⟩ := List.mem_map.mp htext
    unfold filledSegment
    by_cases hnamed : (paramName segment).isSome = true
    · rw [if_pos hnamed, String.toList_singleton]
      exact ⟨List.cons_ne_nil _ _, by simpa using hpiece.symm⟩
    · rw [if_neg hnamed]
      exact ⟨(mem_split hsegment).1, (mem_split hsegment).2.1⟩
  rw [split_eq, filled, String.toList_ofList, segments_sep, segments_closed '/' _ hpieces,
    List.map_map]
  apply List.map_congr_left
  intro segment _
  exact String.ofList_toList

theorem fits_filled {piece : Char} (hpiece : piece ≠ '/') {pattern : String}
    (h : ":" ∉ split pattern) : Fits pattern (filled piece pattern) := by
  unfold Fits
  rw [split_filled hpiece, List.forall₂_map_right_iff, List.forall₂_same]
  intro segment hsegment
  apply segmentFits_filled
  rintro rfl
  exact h hsegment

theorem requestPath_filled {carried : Char → Prop} {piece : Char} (hslash : carried '/')
    (hpiece : carried piece) {pattern : String} (h : LiteralsCarried carried pattern) :
    RequestPath carried (filled piece pattern) := by
  have hsegment (segment : String) (hmem : segment ∈ split pattern) :
      ∀ c ∈ (filledSegment piece segment).toList, carried c := by
    unfold filledSegment
    cases hparam : paramName segment with
    | none => exact h segment hmem hparam
    | some name =>
      rw [if_pos (by rfl), String.toList_singleton]
      intro c hc
      rw [List.mem_singleton] at hc
      exact hc ▸ hpiece
  unfold RequestPath filled
  rw [String.toList_ofList]
  refine ⟨rfl, ?_⟩
  intro c hc
  rw [List.mem_cons, List.mem_flatMap] at hc
  rcases hc with rfl | ⟨text, htext, hc⟩
  · exact hslash
  · obtain ⟨segment, hmem, rfl⟩ := List.mem_map.mp htext
    rcases List.mem_append.mp hc with hfilled | hend
    · exact hsegment segment hmem c hfilled
    · rw [List.mem_singleton] at hend
      exact hend ▸ hslash

/-- The literal segments of a pattern that fits stand in the path. -/
theorem literalsCarried_of_fits {carried : Char → Prop} {pattern path : String}
    (hpath : RequestPath carried path) (h : Fits pattern path) :
    LiteralsCarried carried pattern := by
  intro segment hsegment hliteral c hc
  obtain ⟨actual, hactual, hfits⟩ := fits_segment h hsegment
  unfold SegmentFits at hfits
  rw [hliteral] at hfits
  subst hfits
  exact hpath.2 c ((mem_split hactual).2.2 hc)

end Filled

section Documents

/-- The table of a route that answers a pattern. -/
def answering (pattern : String) : Toml :=
  .table [("method", .string "GET"), ("path", .string pattern), ("script", .string "answer.js")]

/-- A document with one route. -/
def oneRoute (pattern : String) : Toml :=
  .table [("config_version", .string "1"), ("server", .table []),
    ("files", .table [("root", .string "files")]), ("routes", .array [answering pattern])]

/-- Surroundings that have every directory. -/
def anyFiles : Surroundings := ⟨fun _ => true, fun _ => true, some, id⟩

theorem accepts_answering {pattern : String} (h : pattern.toList.head? = some '/') :
    Accepts tomlView (routeShape (unixPlatform anyFiles)) (answering pattern) := by
  have hpath : Accepts tomlView (.leaf (IsText fun s => s.toList.head? = some '/'))
      (.string pattern) := by
    refine .leaf ⟨pattern, rfl, ?_, h⟩
    rintro rfl
    cases h
  have hmethod : Accepts tomlView (.leaf (IsText fun s => asciiUpper s ∈ httpMethods))
      (.string "GET") := .leaf ⟨"GET", rfl, by decide, by decide +kernel⟩
  have hscript : Accepts tomlView (scriptShape (unixPlatform anyFiles)) (.string "answer.js") :=
    .leaf ⟨"answer.js", rfl, by decide, "js", by decide, by decide +kernel⟩
  apply Accepts.table rfl
  · simp
  · simp [List.lookup_cons]
  · simpa [List.lookup_cons] using ⟨hmethod, hpath, hscript⟩

theorem accepts_oneRoute {pattern : String} (h : pattern.toList.head? = some '/') :
    Accepts tomlView (documented (unixPlatform anyFiles) "stuntdouble.toml")
      (oneRoute pattern) := by
  have hversion : Accepts tomlView (.leaf (IsText fun s => s = "1")) (.string "1") :=
    .leaf ⟨"1", rfl, by decide, rfl⟩
  have hserver : Accepts tomlView (serverShape (unixPlatform anyFiles)) (.table []) := by
    apply Accepts.table rfl
    · simp
    · simp
    · simp
  have hroot : Accepts tomlView (.leaf (IsText fun s =>
      (unixPlatform anyFiles).isDir (scriptPath (unixPlatform anyFiles) "stuntdouble.toml" s) =
        true)) (.string "files") := .leaf ⟨"files", rfl, by decide, rfl⟩
  have hfiles : Accepts tomlView (filesShape (unixPlatform anyFiles) "stuntdouble.toml")
      (.table [("root", .string "files")]) := by
    apply Accepts.table rfl
    · simp
    · simp [List.lookup_cons]
    · simpa [List.lookup_cons] using hroot
  have hroutes : Accepts tomlView (.array 1 (routeShape (unixPlatform anyFiles)))
      (.array [answering pattern]) := by
    apply Accepts.array rfl
    · simp
    · simpa using accepts_answering h
  apply Accepts.table rfl
  · simp
  · simp [List.lookup_cons]
  · simpa [List.lookup_cons] using ⟨hversion, hserver, hfiles, hroutes⟩

/-- The loader takes a pattern when it begins with a slash, whatever follows. -/
theorem load_oneRoute {pattern : String} (h : pattern.toList.head? = some '/') (text : String) :
    ∃ config, load (unixPlatform anyFiles) (fun _ => .ok (oneRoute pattern)) "stuntdouble.toml"
        (.ok text) = .ok config ∧ ∃ route, config.routes = [route] ∧ route.path = pattern := by
  have hclean := (violations_eq_nil_iff _ "stuntdouble.toml" _).mpr (accepts_oneRoute h)
  obtain ⟨config, hload, -, hconfigures⟩ :=
    load_clean (unixPlatform anyFiles) (fun _ => .ok (oneRoute pattern)) _ text rfl hclean
  refine ⟨config, hload, ?_⟩
  obtain ⟨items, hitems, hroutes⟩ := hconfigures.routes
  obtain rfl : [answering pattern] = items := Option.some.inj hitems
  obtain ⟨route, rest, hroute, hrest, hcons⟩ := List.forall₂_cons_left_iff.mp hroutes
  rw [List.forall₂_nil_left_iff] at hrest
  subst hrest
  exact ⟨route, hcons, (Option.some.inj hroute.path).symm⟩

end Documents

section Loads

/-- A pattern has a path that it matches, of the paths that requests may have, exactly when it
has no lone colon and its literal segments can be requested. -/
theorem matches_requestPath_iff {carried : Char → Prop} (hslash : carried '/')
    (hother : ∃ c, c ≠ '/' ∧ carried c) (route : Route) :
    (∃ path, RequestPath carried path ∧ route.Matches path) ↔
      ":" ∉ split route.path ∧ LiteralsCarried carried route.path := by
  constructor
  · rintro ⟨path, hpath, hmatches⟩
    rw [matches_iff] at hmatches
    exact ⟨fits_named hmatches, literalsCarried_of_fits hpath hmatches⟩
  · rintro ⟨hnamed, hliterals⟩
    obtain ⟨piece, hne, hpiece⟩ := hother
    refine ⟨filled piece route.path, requestPath_filled hslash hpiece hliterals, ?_⟩
    rw [matches_iff]
    exact fits_filled hne hnamed

variable (p : Platform) (parse : String → Except String Toml) (configPath : String)
  (text : Except String String)

/-- A route of an accepted configuration can answer exactly when its pattern has no named
segment without a name; it then matches its own pattern. Where requests carry only some
characters, its literal segments must also have only these. -/
theorem load_routes_answer {config : Config} (h : load p parse configPath text = .ok config) :
    ∀ route ∈ config.routes,
      ((∃ path : String, path.toList.head? = some '/' ∧
          (matchSegments route.path (split path)).isSome = true) ↔ ":" ∉ split route.path) ∧
      ∀ carried : Char → Prop, carried '/' → (∃ c, c ≠ '/' ∧ carried c) →
        ((∃ path, RequestPath carried path ∧
          (matchSegments route.path (split path)).isSome = true) ↔
            ":" ∉ split route.path ∧ LiteralsCarried carried route.path) := by
  intro route hroute
  refine ⟨?_, fun carried hslash hother => matches_requestPath_iff hslash hother route⟩
  constructor
  · rintro ⟨path, -, hmatches⟩
    exact fits_named ((matches_iff route path).mp hmatches)
  · intro hnamed
    have haccepted := (load_accepted p parse configPath text config h).2 route hroute
    exact ⟨route.path, haccepted.path_absolute, (matches_iff route _).mpr (fits_self hnamed)⟩

/-- A named segment takes some segment of a path. -/
theorem load_routes_answer_named : ∃ config,
    load (unixPlatform anyFiles) (fun _ => .ok (oneRoute "/files/:id")) "stuntdouble.toml"
        (.ok "") = .ok config ∧
      ∀ route ∈ config.routes, ∃ path : String, path.toList.head? = some '/' ∧
        (matchSegments route.path (split path)).isSome = true := by
  have hslash : "/files/:id".toList.head? = some '/' := by decide
  obtain ⟨config, hload, route, hroutes, hpath⟩ := load_oneRoute hslash ""
  refine ⟨config, hload, ?_⟩
  intro other hother
  apply (load_routes_answer _ _ _ _ hload other hother).1.mpr
  obtain rfl : other = route := by simpa [hroutes] using hother
  rw [hpath]
  decide

/-- The loader accepts a route that no path can reach. -/
theorem load_routes_unanswered : ∃ config,
    load (unixPlatform anyFiles) (fun _ => .ok (oneRoute "/:")) "stuntdouble.toml"
        (.ok "") = .ok config ∧
      ∃ route ∈ config.routes, ∀ path, matchSegments route.path (split path) = none := by
  have hslash : "/:".toList.head? = some '/' := by decide
  obtain ⟨config, hload, route, hroutes, hpath⟩ := load_oneRoute hslash ""
  refine ⟨config, hload, route, by simp [hroutes], ?_⟩
  intro path
  rw [hpath, ← Option.not_isSome_iff_eq_none, (matchSegments_spec "/:" path).1]
  intro hfits
  exact fits_named hfits (by decide)

end Loads

end StuntDouble.Configuration
