import StuntDouble.Paths
import StuntDouble.Shapes

/-!
The documented schema of a configuration, as one shape, and what the loader makes of it. A
reader complains about its field exactly when the field departs from the schema, so the
violations name exactly the places that offend; a document without any is accepted, and
what the loader returns is read off the document with the documented defaults.
-/
namespace StuntDouble.Configuration

open Http Matcher Shapes

section Documented

def tomlView : View Toml where
  table
    | .table entries => some entries
    | _ => none
  array
    | .array items => some items
    | _ => none

/-- A non-empty string that passes a check. -/
def IsText (good : String → Prop) (value : Toml) : Prop :=
  ∃ s, value = .string s ∧ s ≠ "" ∧ good s

def IsInteger (good : ℤ → Prop) (value : Toml) : Prop := ∃ i, value = .integer i ∧ good i

def anyText : Shape Toml := .leaf (IsText fun _ => True)

def positive : Shape Toml := .leaf (IsInteger fun i => 0 < i)

def scriptShape (p : Platform) : Shape Toml :=
  .leaf (IsText fun s => ∃ ext ∈ ["js", "mjs", "cjs"], p.extension s = some ext)

def routeShape (p : Platform) : Shape Toml :=
  .table [("name", false, anyText),
    ("method", true, .leaf (IsText fun s => asciiUpper s ∈ httpMethods)),
    ("path", true, .leaf (IsText fun s => s.toList.head? = some '/')),
    ("script", true, scriptShape p)]

def serverShape (p : Platform) : Shape Toml :=
  .table [("bind", false, .leaf (IsText fun s => p.isIpLiteral s = true)),
    ("port", false, .leaf (IsInteger fun i => 1 ≤ i ∧ i ≤ 65535)),
    ("request_timeout_ms", false, positive)]

def filesShape (p : Platform) (configPath : String) : Shape Toml :=
  .table [("root", true, .leaf (IsText fun s => p.isDir (scriptPath p configPath s) = true)),
    ("upload_max_bytes", false, positive)]

def sandboxShape : Shape Toml :=
  .table [("script_timeout_ms", false, positive),
    ("script_memory_limit_mb", false, .leaf (IsInteger fun i => 64 ≤ i))]

def upstreamShape (p : Platform) : Shape Toml :=
  .table [("allow_hosts", false, .array 0 (.leaf (IsText fun s => (p.parseHost s).isSome = true))),
    ("timeout_ms", false, positive)]

def fallbackShape (p : Platform) : Shape Toml :=
  .table [("name", false, anyText), ("script", true, scriptShape p)]

/-- The schema of version 1. -/
def documented (p : Platform) (configPath : String) : Shape Toml :=
  .table [("config_version", true, .leaf (IsText fun s => s = "1")),
    ("server", true, serverShape p),
    ("files", true, filesShape p configPath),
    ("sandbox", false, sandboxShape),
    ("upstream", false, upstreamShape p),
    ("routes", true, .array 1 (routeShape p)),
    ("fallback", false, fallbackShape p)]

/-- How a document without a table at its root is called. -/
def rootName : String := "(root)"

def fieldsOf (violations : List Violation) : List String := violations.map Violation.field

end Documented

section Fields

/-- A field is as a table may have it. -/
def FieldHolds (table : Table) (key : String) (required : Bool) (valid : Toml → Prop) : Prop :=
  match table.lookup key with
  | none => required = false
  | some value => valid value

/-- A list of violations speaks of one field, and is empty when the field is as it should be. -/
structure Checks (violations : List Violation) (field : String) (holds : Prop) : Prop where
  named : ∀ violation ∈ violations, violation.field = field
  clean : violations = [] ↔ holds

theorem Checks.append {first second : List Violation} {field : String} {holds also : Prop}
    (h : Checks first field holds) (hsecond : Checks second field also) :
    Checks (first ++ second) field (holds ∧ also) where
  named violation hviolation := by
    rcases List.mem_append.mp hviolation with hmem | hmem
    · exact h.named violation hmem
    · exact hsecond.named violation hmem
  clean := by rw [List.append_eq_nil_iff, h.clean, hsecond.clean]

theorem Checks.congr {violations : List Violation} {field : String} {holds also : Prop}
    (h : Checks violations field holds) (hiff : also ↔ holds) :
    Checks violations field also :=
  ⟨h.named, h.clean.trans hiff.symm⟩

/-- The report of a single place. -/
theorem Checks.reports_place {violations : List Violation} {holds : Prop} (place : Place)
    (h : Checks violations (Place.name rootName place) holds) :
    Reports rootName (fieldsOf violations) (fun there => ¬ holds ∧ there = place) where
  sound name hmem := by
    obtain ⟨violation, hviolation, rfl⟩ := List.mem_map.mp hmem
    refine ⟨place, ⟨?_, rfl⟩, (h.named violation hviolation).symm⟩
    rw [← h.clean]
    exact List.ne_nil_of_mem hviolation
  complete there := by
    rintro ⟨hfails, rfl⟩
    rw [← h.clean] at hfails
    obtain ⟨violation, hviolation⟩ := List.exists_mem_of_ne_nil _ hfails
    rw [← h.named violation hviolation]
    exact List.mem_map_of_mem hviolation

/-- The report of one field of a table. -/
theorem Checks.reports {violations : List Violation} {field key : String} {required : Bool}
    {valid : Toml → Prop} {table : Table} (place : Place)
    (h : Checks violations field (FieldHolds table key required valid))
    (hname : Place.name rootName (.key key :: place) = field) :
    Reports rootName (fieldsOf violations)
      (FieldOffends tomlView (key, required, .leaf valid) table place) := by
  subst hname
  apply (h.reports_place (.key key :: place)).congr
  intro there
  unfold FieldOffends FieldHolds
  cases table.lookup key with
  | none => simp
  | some value => exact offends_leaf

theorem fieldHolds_congr {table : Table} {key : String} {required : Bool}
    {valid also : Toml → Prop} (h : ∀ value, valid value ↔ also value) :
    FieldHolds table key required valid ↔ FieldHolds table key required also := by
  unfold FieldHolds
  cases table.lookup key with
  | none => rfl
  | some value => exact h value

theorem isInteger_congr {good also : ℤ → Prop} (h : ∀ i, good i ↔ also i) (value : Toml) :
    IsInteger good value ↔ IsInteger also value := by
  refine exists_congr fun i => ?_
  rw [h i]

/-- A check of the string of a required field, made after the field was read. -/
theorem fieldHolds_text_and {table : Table} {key : String} {good : String → Prop} {after : Prop}
    (h : ∀ s, table.lookup key = some (.string s) → s ≠ "" → (after ↔ good s)) :
    FieldHolds table key true (IsText good) ↔
      FieldHolds table key true (IsText fun _ => True) ∧ after := by
  unfold FieldHolds
  cases hlookup : table.lookup key with
  | none => simp
  | some value =>
    constructor
    · rintro ⟨s, rfl, hne, hgood⟩
      exact ⟨⟨s, rfl, hne, trivial⟩, (h s hlookup hne).mpr hgood⟩
    · rintro ⟨⟨s, rfl, hne, -⟩, hafter⟩
      exact ⟨s, rfl, hne, (h s hlookup hne).mp hafter⟩

end Fields

section Readers

def Toml.text : Toml → Option String
  | .string s => some s
  | _ => none

def Toml.number : Toml → Option ℕ
  | .integer i => some i.toNat
  | _ => none

def Toml.items : Toml → Option (List Toml)
  | .array items => some items
  | _ => none

/-- What a reader complains about, and what it returns when it does not complain. -/
structure Reads {A : Type} (read : Read (Option A)) (field : String) (holds : Prop)
    (value : Option A) : Prop extends Checks read.2 field holds where
  value : holds → read.1 = value

theorem optString_reads (table : Table) (key field : String) :
    Reads (optString table key field) field (FieldHolds table key false (IsText fun _ => True))
      ((table.lookup key).bind Toml.text) := by
  unfold optString FieldHolds
  cases table.lookup key with
  | none => exact ⟨⟨by simp, by simp⟩, fun _ => rfl⟩
  | some value =>
    cases value with
    | string s =>
      by_cases hempty : s = ""
      · simp only [if_pos hempty]
        refine ⟨⟨by simp, ?_⟩, ?_⟩
        · simp [IsText, hempty]
        · rintro ⟨_, heq, hne, -⟩
          cases heq
          exact absurd hempty hne
      · simp only [if_neg hempty]
        refine ⟨⟨by simp, ?_⟩, fun _ => rfl⟩
        simp [IsText, hempty]
    | _ => exact ⟨⟨by simp [bad], by simp [IsText]⟩, by simp [IsText]⟩

theorem reqString_reads (table : Table) (key field : String) :
    Reads (reqString table key field) field (FieldHolds table key true (IsText fun _ => True))
      ((table.lookup key).bind Toml.text) := by
  unfold reqString
  cases hlookup : table.lookup key with
  | none =>
    exact ⟨⟨by simp [missing], by simp [FieldHolds, hlookup]⟩, by simp [FieldHolds, hlookup]⟩
  | some value =>
    have h := optString_reads table key field
    simp only [FieldHolds, hlookup] at h ⊢
    exact h

theorem reqString_string {table : Table} {key : String} (field : String) {s : String}
    (h : table.lookup key = some (.string s)) (hne : s ≠ "") :
    reqString table key field = (some s, []) := by
  simp only [reqString, optString, h, if_neg hne]

/-- A required text, read and then checked for what it says. -/
theorem reqString_checks (table : Table) (key field : String) {good : String → Prop}
    {after : String → List Violation} (hafter : ∀ s, Checks (after s) field (good s)) :
    Checks ((reqString table key field).2 ++ after ((reqString table key field).1.getD "")) field
      (FieldHolds table key true (IsText good)) := by
  apply ((reqString_reads table key field).append (hafter _)).congr
  apply fieldHolds_text_and
  intro s hlookup hne
  rw [reqString_string _ hlookup hne]
  exact Iff.rfl

theorem optInteger_reads (check : ℕ → Bool) (range kind : String) (table : Table)
    (key field : String) :
    Reads (optInteger check range kind table key field) field
      (FieldHolds table key false (IsInteger fun i => 0 ≤ i ∧ check i.toNat = true))
      ((table.lookup key).bind Toml.number) := by
  unfold optInteger FieldHolds
  cases table.lookup key with
  | none => exact ⟨⟨by simp, by simp⟩, fun _ => rfl⟩
  | some value =>
    cases value with
    | integer i =>
      by_cases hgood : 0 ≤ i ∧ check i.toNat = true
      · simp only [if_pos hgood]
        refine ⟨⟨by simp, ?_⟩, fun _ => rfl⟩
        simp only [true_iff]
        exact ⟨i, rfl, hgood⟩
      · simp only [if_neg hgood]
        refine ⟨⟨by simp, ?_⟩, ?_⟩
        · simp only [List.cons_ne_nil, false_iff]
          rintro ⟨_, heq, h⟩
          cases heq
          exact hgood h
        · rintro ⟨_, heq, h⟩
          cases heq
          exact absurd h hgood
    | _ => exact ⟨⟨by simp [bad], by simp [IsInteger]⟩, by simp [IsInteger]⟩

theorem Reads.congr {A : Type} {read : Read (Option A)} {field : String} {holds also : Prop}
    {value : Option A} (h : Reads read field holds value) (hiff : also ↔ holds) :
    Reads read field also value :=
  ⟨h.toChecks.congr hiff, fun halso => h.value (hiff.mp halso)⟩

/-- The two positive quantities, bytes and milliseconds. -/
theorem positive_congr (table : Table) (key : String) :
    FieldHolds table key false (IsInteger fun i => 0 < i) ↔
      FieldHolds table key false
        (IsInteger fun i => 0 ≤ i ∧ decide (0 < i.toNat) = true) := by
  refine fieldHolds_congr (isInteger_congr fun i => ?_)
  rw [decide_eq_true_iff]
  omega

theorem optPositiveBytes_reads (table : Table) (key field : String) :
    Reads (optPositiveBytes table key field) field
      (FieldHolds table key false (IsInteger fun i => 0 < i))
      ((table.lookup key).bind Toml.number) :=
  (optInteger_reads _ _ _ table key field).congr (positive_congr table key)

theorem optDurationMs_reads (table : Table) (key field : String) :
    Reads (optDurationMs table key field) field
      (FieldHolds table key false (IsInteger fun i => 0 < i))
      ((table.lookup key).bind Toml.number) :=
  (optInteger_reads _ _ _ table key field).congr (positive_congr table key)

theorem optPort_reads (table : Table) (field : String) :
    Reads (optPort table field) field
      (FieldHolds table "port" false (IsInteger fun i => 1 ≤ i ∧ i ≤ 65535))
      ((table.lookup "port").bind Toml.number) := by
  apply (optInteger_reads _ _ _ table "port" field).congr
  refine fieldHolds_congr (isInteger_congr fun i => ?_)
  rw [decide_eq_true_iff]
  omega

theorem optMemoryLimitMb_reads (table : Table) (field : String) :
    Reads (optMemoryLimitMb table field) field
      (FieldHolds table "script_memory_limit_mb" false (IsInteger fun i => 64 ≤ i))
      ((table.lookup "script_memory_limit_mb").bind Toml.number) := by
  apply (optInteger_reads _ _ _ table _ field).congr
  refine fieldHolds_congr (isInteger_congr fun i => ?_)
  rw [decide_eq_true_iff, scriptMemoryLimitFloorMb]
  omega

theorem optBind_reads (p : Platform) (table : Table) (field : String) :
    Reads (optBind p table field) field
      (FieldHolds table "bind" false (IsText fun s => p.isIpLiteral s = true))
      ((table.lookup "bind").bind Toml.text) := by
  unfold optBind FieldHolds
  cases table.lookup "bind" with
  | none => exact ⟨⟨by simp, by simp⟩, fun _ => rfl⟩
  | some value =>
    cases value with
    | string s =>
      by_cases hempty : s = ""
      · simp only [if_pos hempty]
        exact ⟨⟨by simp, by simp [IsText, hempty]⟩, by simp [IsText, hempty]⟩
      · by_cases hliteral : p.isIpLiteral s = true
        · simp only [if_neg hempty, if_pos hliteral]
          exact ⟨⟨by simp, by simp [IsText, hempty, hliteral]⟩, fun _ => rfl⟩
        · simp only [if_neg hempty, if_neg hliteral]
          exact ⟨⟨by simp, by simp [IsText, hliteral]⟩, by simp [IsText, hliteral]⟩
    | _ => exact ⟨⟨by simp [bad], by simp [IsText]⟩, by simp [IsText]⟩

theorem hostEntry_reads (p : Platform) (field : String) (index : ℕ) (item : Toml) :
    Reads (hostEntry p field index item) (field ++ "[" ++ toString index ++ "]")
      (IsText (fun s => (p.parseHost s).isSome = true) item) (item.text.bind p.parseHost) := by
  cases item with
  | string s =>
    unfold hostEntry
    by_cases hempty : s = ""
    · simp only [if_pos hempty]
      exact ⟨⟨by simp, by simp [IsText, hempty]⟩, by simp [IsText, hempty]⟩
    · cases hhost : p.parseHost s with
      | none =>
        simp only [if_neg hempty, hhost]
        exact ⟨⟨by simp, by simp [IsText, hhost]⟩, by simp [IsText, hhost]⟩
      | some host =>
        simp only [if_neg hempty, hhost]
        exact ⟨⟨by simp, by simp [IsText, hempty, hhost]⟩, fun _ => by simp [Toml.text, hhost]⟩
  | _ => exact ⟨⟨by simp [hostEntry], by simp [hostEntry, IsText]⟩, by simp [IsText]⟩

theorem validateConfigVersion_checks (p : Platform) (table : Table) :
    Checks ((reqString table "config_version" "config_version").2 ++
        validateConfigVersion p (reqString table "config_version" "config_version").1)
      "config_version" (FieldHolds table "config_version" true (IsText fun s => s = "1")) := by
  have hafter : Checks (validateConfigVersion p
      (reqString table "config_version" "config_version").1) "config_version"
      (validateConfigVersion p (reqString table "config_version" "config_version").1 = []) := by
    refine ⟨?_, Iff.rfl⟩
    unfold validateConfigVersion
    split
    · simp
    · split <;> simp
  apply ((reqString_reads table _ _).append hafter).congr
  apply fieldHolds_text_and
  intro s hlookup hne
  rw [reqString_string _ hlookup hne, validateConfigVersion]
  by_cases hversion : s = "1"
  · simp [hversion]
  · simp [hversion]

theorem validateScriptExtension_checks (p : Platform) (script scope : String) :
    Checks (validateScriptExtension p script scope) (scope ++ ".script")
      (∃ ext ∈ ["js", "mjs", "cjs"], p.extension script = some ext) := by
  unfold validateScriptExtension
  cases p.extension script with
  | none => exact ⟨by simp, by simp⟩
  | some ext =>
    by_cases hpython : ext = "py"
    · simp only [if_pos hpython]
      exact ⟨by simp, by simp [hpython]⟩
    · by_cases hscript : ext = "js" ∨ ext = "mjs" ∨ ext = "cjs"
      · simp only [if_neg hpython, if_pos hscript]
        exact ⟨by simp, by simpa [eq_comm] using hscript⟩
      · simp only [if_neg hpython, if_neg hscript]
        exact ⟨by simp, by simpa [eq_comm] using hscript⟩

theorem normalizeMethod_isSome (method : String) :
    (normalizeMethod method).isSome ↔ asciiUpper method ∈ httpMethods := by
  unfold normalizeMethod
  split <;> simp [*]

end Readers

section Tables

/-- The report of the keys that a table may not have. -/
theorem rejectUnknown_reports {fields : List (String × Bool × Shape Toml)} {table : Table}
    {allowed : List String} (scope : String) {place : Place}
    (hallowed : fields.map Prod.fst = allowed)
    (hscope : ∀ key, (if scope = "" then key else scope ++ "." ++ key) =
      Place.name rootName (.key key :: place)) :
    Reports rootName (fieldsOf (rejectUnknown table allowed scope))
      (fun there => ∃ entry ∈ table, (∀ field ∈ fields, field.1 ≠ entry.1) ∧
        there = .key entry.1 :: place) := by
  have hunknown (key : String) : key ∉ allowed ↔ ∀ field ∈ fields, field.1 ≠ key := by
    rw [← hallowed, List.mem_map]
    simp only [not_exists, not_and]
  constructor
  · intro name hname
    obtain ⟨violation, hviolation, rfl⟩ := List.mem_map.mp hname
    obtain ⟨entry, hentry, hsome⟩ := List.mem_filterMap.mp hviolation
    by_cases hmem : entry.1 ∈ allowed
    · simp [if_pos hmem] at hsome
    · rw [if_neg hmem] at hsome
      cases hsome
      exact ⟨_, ⟨entry, hentry, (hunknown entry.1).mp hmem, rfl⟩, (hscope entry.1).symm⟩
  · rintro _ ⟨entry, hentry, hfields, rfl⟩
    have hviolation : ⟨if scope = "" then entry.1 else scope ++ "." ++ entry.1,
        "one of [" ++ joined allowed ++ "]", "unknown key"⟩ ∈
        rejectUnknown table allowed scope :=
      List.mem_filterMap.mpr ⟨entry, hentry, if_neg ((hunknown entry.1).mpr hfields)⟩
    rw [← hscope]
    exact List.mem_map_of_mem (f := Violation.field) hviolation

theorem optHostList_reports (p : Platform) (table : Table) (field : String) (place : Place)
    (hname : Place.name rootName (.key "allow_hosts" :: place) = field) :
    Reports rootName (fieldsOf (optHostList p table field).2)
      (FieldOffends tomlView ("allow_hosts", false,
        .array 0 (.leaf (IsText fun s => (p.parseHost s).isSome = true))) table place) := by
  subst hname
  unfold optHostList FieldOffends
  cases table.lookup "allow_hosts" with
  | none =>
    apply reports_none.congr
    simp
  | some value =>
    cases value with
    | array items =>
      have hentries := Reports.items rootName items
        (fun item => fieldsOf (hostEntry p _ item.2 item.1).2) _
        (fun i part _ => (hostEntry_reads p
          (Place.name rootName (.key "allow_hosts" :: place)) i part).reports_place
            (.index i :: .key "allow_hosts" :: place))
      have hfields : fieldsOf ((items.zipIdx.map fun item => hostEntry p
          (Place.name rootName (.key "allow_hosts" :: place)) item.2 item.1).flatMap Prod.snd) =
          items.zipIdx.flatMap fun item => fieldsOf (hostEntry p
            (Place.name rootName (.key "allow_hosts" :: place)) item.2 item.1).2 := by
        rw [fieldsOf, List.map_flatMap, List.flatMap_map]
        rfl
      show Reports rootName (fieldsOf _) _
      rw [hfields]
      apply hentries.congr
      intro there
      show Offends tomlView _ _ _ _ ↔ _
      rw [offends_array items rfl]
      simp only [offends_leaf, Nat.not_lt_zero, false_and, false_or]
    | _ =>
      apply (reports_place _).congr
      exact fun there => offends_notArray rfl

/-- The names below a table that is not the root. -/
theorem scope_below (scope key : String) (step : Step) (place : Place)
    (hscope : Place.name rootName (step :: place) = scope) (hne : scope ≠ "") :
    (if scope = "" then key else scope ++ "." ++ key) =
      Place.name rootName (.key key :: step :: place) := by
  rw [if_neg hne, ← hscope]
  rfl

theorem parseServer_reports (p : Platform) (root : Table) :
    Reports rootName (fieldsOf (parseServer p root).2)
      (FieldOffends tomlView ("server", true, serverShape p) root []) := by
  unfold parseServer FieldOffends
  cases root.lookup "server" with
  | none =>
    apply (reports_place [.key "server"]).congr
    simp
  | some value =>
    cases value with
    | table t =>
      have hbind := (optBind_reads p t "server.bind").reports [.key "server"] rfl
      have hport := (optPort_reads t "server.port").reports [.key "server"] rfl
      have htimeout := (optDurationMs_reads t "request_timeout_ms"
        "server.request_timeout_ms").reports [.key "server"] rfl
      have htable := Reports.table (.table t) rfl
        (rejectUnknown_reports "server" rfl fun key =>
          scope_below "server" key _ _ rfl (by decide))
        (.cons hbind (.cons hport (.cons htimeout .nil)))
      apply htable.of_mem
      simp [fieldsOf]
    | _ =>
      apply (reports_place [.key "server"]).congr
      exact fun there => offends_notTable rfl

theorem parseSandbox_reports (root : Table) :
    Reports rootName (fieldsOf (parseSandbox root).2)
      (FieldOffends tomlView ("sandbox", false, sandboxShape) root []) := by
  unfold parseSandbox FieldOffends
  cases root.lookup "sandbox" with
  | none =>
    apply reports_none.congr
    simp
  | some value =>
    cases value with
    | table t =>
      have htimeout := (optDurationMs_reads t "script_timeout_ms"
        "sandbox.script_timeout_ms").reports [.key "sandbox"] rfl
      have hmemory := (optMemoryLimitMb_reads t
        "sandbox.script_memory_limit_mb").reports [.key "sandbox"] rfl
      have htable := Reports.table (.table t) rfl
        (rejectUnknown_reports "sandbox" rfl fun key =>
          scope_below "sandbox" key _ _ rfl (by decide))
        (.cons htimeout (.cons hmemory .nil))
      apply htable.of_mem
      simp [fieldsOf]
    | _ =>
      apply (reports_place [.key "sandbox"]).congr
      exact fun there => offends_notTable rfl

theorem parseUpstream_reports (p : Platform) (root : Table) :
    Reports rootName (fieldsOf (parseUpstream p root).2)
      (FieldOffends tomlView ("upstream", false, upstreamShape p) root []) := by
  unfold parseUpstream FieldOffends
  cases root.lookup "upstream" with
  | none =>
    apply reports_none.congr
    simp
  | some value =>
    cases value with
    | table t =>
      have hhosts := optHostList_reports p t "upstream.allow_hosts" [.key "upstream"] rfl
      have htimeout := (optDurationMs_reads t "timeout_ms"
        "upstream.timeout_ms").reports [.key "upstream"] rfl
      have htable := Reports.table (.table t) rfl
        (rejectUnknown_reports "upstream" rfl fun key =>
          scope_below "upstream" key _ _ rfl (by decide))
        (.cons hhosts (.cons htimeout .nil))
      apply htable.of_mem
      simp [fieldsOf]
    | _ =>
      apply (reports_place [.key "upstream"]).congr
      exact fun there => offends_notTable rfl

/-- The script of a table, read and then checked for its extension. -/
theorem script_checks (p : Platform) (table : Table) (scope : String) :
    Checks ((reqString table "script" (scope ++ ".script")).2 ++
        validateScriptExtension p ((reqString table "script" (scope ++ ".script")).1.getD "") scope)
      (scope ++ ".script") (FieldHolds table "script" true
        (IsText fun s => ∃ ext ∈ ["js", "mjs", "cjs"], p.extension s = some ext)) :=
  reqString_checks table "script" (scope ++ ".script")
    fun script => validateScriptExtension_checks p script scope

theorem parseFallback_reports (p : Platform) (configPath : String) (root : Table) :
    Reports rootName (fieldsOf (parseFallback p configPath root).2)
      (FieldOffends tomlView ("fallback", false, fallbackShape p) root []) := by
  unfold parseFallback FieldOffends
  cases root.lookup "fallback" with
  | none =>
    apply reports_none.congr
    simp
  | some value =>
    cases value with
    | table t =>
      have hname := (optString_reads t "name"
        "fallback.name").reports [.key "fallback"] rfl
      have hscript := (script_checks p t "fallback").reports [.key "fallback"] rfl
      have htable := Reports.table (.table t) rfl
        (rejectUnknown_reports "fallback" rfl fun key =>
          scope_below "fallback" key _ _ rfl (by decide))
        (.cons hname (.cons hscript .nil))
      apply htable.of_mem
      simp [fieldsOf]
    | _ =>
      apply (reports_place [.key "fallback"]).congr
      exact fun there => offends_notTable rfl

/-- The root of the files, read and then looked up. -/
theorem filesRoot_checks (p : Platform) (configPath : String) (table : Table) :
    Checks ((reqString table "root" "files.root").2 ++ (existingDir p
        ((reqString table "root" "files.root").1.map (scriptPath p configPath))).2)
      "files.root" (FieldHolds table "root" true
        (IsText fun s => p.isDir (scriptPath p configPath s) = true)) := by
  have hafter (dir : Option String) :
      Checks (existingDir p dir).2 "files.root" (∀ d, dir = some d → p.isDir d = true) := by
    cases dir with
    | none => exact ⟨by simp [existingDir], by simp [existingDir]⟩
    | some d =>
      unfold existingDir
      by_cases hdir : p.isDir d = true
      · exact ⟨by simp [hdir], by simp [hdir]⟩
      · exact ⟨by simp [hdir], by simp [hdir]⟩
  apply ((reqString_reads table _ _).append (hafter _)).congr
  apply fieldHolds_text_and
  intro s hlookup hne
  simp [reqString_string _ hlookup hne]

theorem parseFiles_reports (p : Platform) (configPath : String) (root : Table) :
    Reports rootName (fieldsOf ((parseFiles p configPath root).2 ++
        (existingDir p (parseFiles p configPath root).1.1).2))
      (FieldOffends tomlView ("files", true, filesShape p configPath) root []) := by
  unfold parseFiles FieldOffends
  cases root.lookup "files" with
  | none =>
    apply (reports_place [.key "files"]).congr
    simp
  | some value =>
    cases value with
    | table t =>
      have hroot := (filesRoot_checks p configPath t).reports [.key "files"] rfl
      have hbytes := (optPositiveBytes_reads t "upload_max_bytes"
        "files.upload_max_bytes").reports [.key "files"] rfl
      have htable := Reports.table (.table t) rfl
        (rejectUnknown_reports "files" rfl fun key =>
          scope_below "files" key _ _ rfl (by decide))
        (.cons hroot (.cons hbytes .nil))
      apply htable.of_mem
      intro name
      simp only [fieldsOf, List.map_append, List.mem_append, List.flatten_cons, List.flatten_nil,
        List.append_nil]
      tauto
    | _ =>
      apply (reports_place [.key "files"]).congr
      exact fun there => offends_notTable rfl

theorem method_checks (table : Table) (field : String) :
    Checks ((reqString table "method" field).2 ++
        (if (normalizeMethod ((reqString table "method" field).1.getD "")).isSome then []
          else [⟨field, "one of " ++ joined httpMethods,
            (reqString table "method" field).1.getD ""⟩]))
      field (FieldHolds table "method" true
        (IsText fun s => asciiUpper s ∈ httpMethods)) := by
  have hafter (method : String) :
      Checks (if (normalizeMethod method).isSome then []
          else [⟨field, "one of " ++ joined httpMethods, method⟩])
        field (asciiUpper method ∈ httpMethods) := by
    rw [← normalizeMethod_isSome]
    by_cases h : (normalizeMethod method).isSome = true
    · exact ⟨by simp [h], by simp [h]⟩
    · exact ⟨by simp [h], by simp [h]⟩
  exact reqString_checks table "method" field hafter

theorem path_checks (table : Table) (field : String) :
    Checks ((reqString table "path" field).2 ++
        (if ((reqString table "path" field).1.getD "").toList.head? = some '/' then []
          else [⟨field, "absolute path starting with /",
            (reqString table "path" field).1.getD ""⟩]))
      field (FieldHolds table "path" true (IsText fun s => s.toList.head? = some '/')) := by
  have hafter (path : String) :
      Checks (if path.toList.head? = some '/' then []
          else [⟨field, "absolute path starting with /", path⟩])
        field (path.toList.head? = some '/') := by
    by_cases h : path.toList.head? = some '/'
    · exact ⟨by simp [h], by simp [h]⟩
    · exact ⟨by simp [h], by simp [h]⟩
  exact reqString_checks table "path" field hafter

/-- How a field of a route is called. -/
theorem route_field (index : ℕ) (key : String) :
    Place.name rootName [.key key, .index index, .key "routes"] =
      "routes[" ++ toString index ++ "]" ++ ("." ++ key) := by
  rw [← String.append_assoc]
  rfl

theorem parseRoute_reports (p : Platform) (configPath : String) (index : ℕ) (item : Toml) :
    Reports rootName (fieldsOf (parseRoute p configPath index item).2)
      (Offends tomlView (routeShape p) [.index index, .key "routes"] item) := by
  cases item with
  | table t =>
    have hname := (optString_reads t "name"
      ("routes[" ++ toString index ++ "]" ++ ".name")).reports _ (route_field index "name")
    have hmethod := (method_checks t
      ("routes[" ++ toString index ++ "]" ++ ".method")).reports _ (route_field index "method")
    have hpath := (path_checks t
      ("routes[" ++ toString index ++ "]" ++ ".path")).reports _ (route_field index "path")
    have hscript := (script_checks p t
      ("routes[" ++ toString index ++ "]")).reports _ (route_field index "script")
    have hscope (key : String) := scope_below ("routes[" ++ toString index ++ "]") key
      (.index index) [.key "routes"] rfl (fun hempty => by
        have hlength := congrArg String.length hempty
        simp only [String.length_append, String.length_empty] at hlength
        have hleft : "routes[".length = 7 := by decide
        omega)
    have htable := Reports.table (.table t) rfl (rejectUnknown_reports _ rfl hscope)
      (.cons hname (.cons hmethod (.cons hpath (.cons hscript .nil))))
    apply htable.of_mem
    intro name
    simp only [parseRoute, fieldsOf, List.map_append, List.mem_append, List.flatten_cons,
      List.flatten_nil, List.append_nil]
    grind
  | _ =>
    apply (reports_place [.index index, .key "routes"]).congr
    exact fun there => offends_notTable rfl

theorem parseRoutes_reports (p : Platform) (configPath : String) (root : Table) :
    Reports rootName (fieldsOf (parseRoutes p configPath root).2)
      (FieldOffends tomlView ("routes", true, .array 1 (routeShape p)) root []) := by
  unfold parseRoutes FieldOffends
  cases root.lookup "routes" with
  | none =>
    apply (reports_place [.key "routes"]).congr
    simp
  | some value =>
    cases value with
    | array items =>
      have hentries := Reports.items rootName items
        (fun item => fieldsOf (parseRoute p configPath item.2 item.1).2) _
        (fun i part _ => parseRoute_reports p configPath i part)
      have hfew : Reports rootName (fieldsOf (if items.isEmpty then
          [⟨"routes", "at least one route table", "array of 0"⟩] else []))
          (fun there => items.length < 1 ∧ there = [.key "routes"]) := by
        cases items with
        | nil =>
          apply (reports_place [.key "routes"]).congr
          simp
        | cons item rest =>
          apply reports_none.congr
          simp
      have hfields : fieldsOf ((items.zipIdx.map fun item =>
          parseRoute p configPath item.2 item.1).flatMap Prod.snd) =
          items.zipIdx.flatMap fun item => fieldsOf (parseRoute p configPath item.2 item.1).2 := by
        rw [fieldsOf, List.map_flatMap, List.flatMap_map]
        rfl
      show Reports rootName (fieldsOf (_ ++ _)) _
      rw [fieldsOf, List.map_append]
      show Reports rootName (fieldsOf _ ++ fieldsOf _) _
      rw [hfields]
      apply (hfew.append hentries).congr
      exact fun there => offends_array _ rfl
    | _ =>
      apply (reports_place [.key "routes"]).congr
      exact fun there => offends_notArray rfl

end Tables

section Documents

/-- What the loader complains about in a parsed document. -/
def violations (p : Platform) (configPath : String) : Toml → List Violation
  | .table root =>
    rejectUnknown root ["config_version", "server", "files", "sandbox", "upstream", "routes",
        "fallback"] "" ++
      (reqString root "config_version" "config_version").2 ++
      validateConfigVersion p (reqString root "config_version" "config_version").1 ++
      (parseServer p root).2 ++ (parseFiles p configPath root).2 ++ (parseSandbox root).2 ++
      (parseUpstream p root).2 ++ (parseFallback p configPath root).2 ++
      (parseRoutes p configPath root).2 ++
      (existingDir p (parseFiles p configPath root).1.1).2
  | other => [bad "(root)" "table" other]

/-- The violations name the places that offend against the schema, and no others. -/
theorem violations_reports (p : Platform) (configPath : String) (document : Toml) :
    Reports rootName (fieldsOf (violations p configPath document))
      (Offends tomlView (documented p configPath) [] document) := by
  cases document with
  | table root =>
    have hversion := (validateConfigVersion_checks p root).reports [] rfl
    have htable := Reports.table (.table root) rfl
      (rejectUnknown_reports "" rfl fun key => if_pos rfl)
      (.cons hversion (.cons (parseServer_reports p root)
        (.cons (parseFiles_reports p configPath root) (.cons (parseSandbox_reports root)
          (.cons (parseUpstream_reports p root) (.cons (parseRoutes_reports p configPath root)
            (.cons (parseFallback_reports p configPath root) .nil)))))))
    apply htable.of_mem
    intro name
    simp only [violations, fieldsOf, List.map_append, List.mem_append, List.flatten_cons,
      List.flatten_nil, List.append_nil]
    grind
  | _ =>
    apply (reports_place []).congr
    exact fun there => offends_notTable rfl

theorem violations_eq_nil_iff (p : Platform) (configPath : String) (document : Toml) :
    violations p configPath document = [] ↔
      Accepts tomlView (documented p configPath) document := by
  rw [accepts_iff (documented p configPath) [] document,
    ← (violations_reports p configPath document).eq_nil_iff, fieldsOf, List.map_eq_nil_iff]

/-- The loader with its two `expect`s, which come after the check for violations; `none` is
a panic. -/
def loadExpecting (p : Platform) (parse : String → Except String Toml) (configPath : String)
    (text : Except String String) : Option (Except ConfigError Config) :=
  match text with
  | .error reason => some (.error (.read reason))
  | .ok text =>
    match parse text with
    | .error message => some (.error (.syntaxError message))
    | .ok (.table root) =>
      if violations p configPath (.table root) = [] then
        (existingDir p (parseFiles p configPath root).1.1).1.bind fun dir =>
          (reqString root "config_version" "config_version").1.map fun version =>
            .ok ⟨version, (parseServer p root).1, ⟨dir, (parseFiles p configPath root).1.2⟩,
              (parseSandbox root).1, (parseUpstream p root).1,
              (parseRoutes p configPath root).1, (parseFallback p configPath root).1⟩
      else some (.error (.schema (violations p configPath (.table root))))
    | .ok other => some (.error (.schema (violations p configPath other)))

end Documents

section Configured

/-- The value at a path of keys. -/
def find : List String → Toml → Option Toml
  | [], value => some value
  | key :: rest, .table t => (t.lookup key).bind (find rest)
  | _ :: _, _ => none

def textAt (keys : List String) (value : Toml) : Option String :=
  (find keys value).bind Toml.text

def numberAt (keys : List String) (value : Toml) : Option ℕ :=
  (find keys value).bind Toml.number

def itemsAt (keys : List String) (value : Toml) : Option (List Toml) :=
  (find keys value).bind Toml.items

/-- A route as its table has it, with a method of the method table. -/
structure RouteOf (p : Platform) (configPath : String) (item : Toml) (route : Route) : Prop where
  name : route.name = textAt ["name"] item
  method : ∃ method, textAt ["method"] item = some method ∧ route.method = asciiUpper method
  known : route.method ∈ httpMethods
  upper : asciiUpper route.method = route.method
  path : textAt ["path"] item = some route.path
  script : ∃ script, textAt ["script"] item = some script ∧
    route.script = scriptPath p configPath script

/-- A configuration as its document has it; a field that is absent has its default. -/
structure Configures (p : Platform) (configPath : String) (document : Toml)
    (config : Config) : Prop where
  configVersion : config.configVersion = "1"
  bind : config.server.bind = (textAt ["server", "bind"] document).getD "127.0.0.1"
  port : config.server.port = (numberAt ["server", "port"] document).getD 3000
  requestTimeoutMs : config.server.requestTimeoutMs =
    (numberAt ["server", "request_timeout_ms"] document).getD 30000
  root : ∃ dir, textAt ["files", "root"] document = some dir ∧
    config.files.root = scriptPath p configPath dir
  rootIsDir : p.isDir config.files.root = true
  uploadMaxBytes : config.files.uploadMaxBytes =
    (numberAt ["files", "upload_max_bytes"] document).getD 20971520
  scriptTimeoutMs : config.sandbox.scriptTimeoutMs =
    (numberAt ["sandbox", "script_timeout_ms"] document).getD 10000
  scriptMemoryLimitMb : config.sandbox.scriptMemoryLimitMb =
    (numberAt ["sandbox", "script_memory_limit_mb"] document).getD 256
  allowHosts : config.upstream.allowHosts =
    ((itemsAt ["upstream", "allow_hosts"] document).getD []).filterMap
      fun item => item.text.bind p.parseHost
  timeoutMs : config.upstream.timeoutMs =
    (numberAt ["upstream", "timeout_ms"] document).getD 15000
  routes : ∃ items, itemsAt ["routes"] document = some items ∧
    List.Forall₂ (RouteOf p configPath) items config.routes
  fallback : match find ["fallback"] document with
    | none => config.fallback = none
    | some table => ∃ script, textAt ["script"] table = some script ∧
        config.fallback = some ⟨textAt ["name"] table, scriptPath p configPath script⟩

theorem find_single (key : String) (table : Table) :
    find [key] (.table table) = table.lookup key := by
  unfold find
  cases table.lookup key <;> rfl

theorem find_none {key : String} {table : Table} (rest : List String)
    (h : table.lookup key = none) : find (key :: rest) (.table table) = none := by
  rw [find, h, Option.bind_none]

theorem find_table {key : String} {table inner : Table} (rest : List String)
    (h : table.lookup key = some (.table inner)) :
    find (key :: rest) (.table table) = find rest (.table inner) := by
  rw [find, h, Option.bind_some]

/-- What a reader without complaints returns. -/
theorem Reads.value_eq {A : Type} {read : Read (Option A)} {field : String} {holds : Prop}
    {value : Option A} (h : Reads read field holds value) (hclean : read.2 = []) :
    read.1 = value :=
  h.value (h.clean.mp hclean)

/-- The string of a required field without complaints. -/
theorem reqString_text (table : Table) (key field : String)
    (h : (reqString table key field).2 = []) :
    ∃ s, (table.lookup key).bind Toml.text = some s ∧ (reqString table key field).1 = some s := by
  have hholds := (reqString_reads table key field).clean.mp h
  have hvalue := (reqString_reads table key field).value_eq h
  unfold FieldHolds at hholds
  cases hlookup : table.lookup key with
  | none => simp [hlookup] at hholds
  | some value =>
    simp only [hlookup] at hholds
    obtain ⟨s, rfl, -⟩ := hholds
    rw [hlookup] at hvalue
    exact ⟨s, rfl, hvalue⟩

theorem parseServer_value (p : Platform) (root : Table) (h : (parseServer p root).2 = []) :
    (parseServer p root).1 =
      ⟨(textAt ["server", "bind"] (.table root)).getD defaultBind,
        (numberAt ["server", "port"] (.table root)).getD defaultPort,
        (numberAt ["server", "request_timeout_ms"] (.table root)).getD
          defaultRequestTimeoutMs⟩ := by
  unfold parseServer at h ⊢
  cases hserver : root.lookup "server" with
  | none => simp [hserver] at h
  | some value =>
    cases value with
    | table t =>
      simp only [hserver, List.append_eq_nil_iff] at h
      obtain ⟨⟨⟨-, hbind⟩, hport⟩, htimeout⟩ := h
      simp only [textAt, numberAt, find_table _ hserver, find_single,
        (optBind_reads p t "server.bind").value_eq hbind,
        (optPort_reads t "server.port").value_eq hport,
        (optDurationMs_reads t "request_timeout_ms" _).value_eq htimeout]
    | _ => simp [hserver] at h

theorem parseSandbox_value (root : Table) (h : (parseSandbox root).2 = []) :
    (parseSandbox root).1 =
      ⟨(numberAt ["sandbox", "script_timeout_ms"] (.table root)).getD defaultScriptTimeoutMs,
        (numberAt ["sandbox", "script_memory_limit_mb"] (.table root)).getD
          defaultScriptMemoryLimitMb⟩ := by
  unfold parseSandbox at h ⊢
  cases hsandbox : root.lookup "sandbox" with
  | none => simp only [numberAt, find_none _ hsandbox, Option.bind_none, Option.getD_none]
  | some value =>
    cases value with
    | table t =>
      simp only [hsandbox, List.append_eq_nil_iff] at h
      obtain ⟨⟨-, htimeout⟩, hmemory⟩ := h
      simp only [numberAt, find_table _ hsandbox, find_single,
        (optDurationMs_reads t "script_timeout_ms" _).value_eq htimeout,
        (optMemoryLimitMb_reads t _).value_eq hmemory]
    | _ => simp [hsandbox] at h

theorem parseFiles_value (p : Platform) (configPath : String) (root : Table)
    (h : (parseFiles p configPath root).2 = []) :
    ∃ dir, textAt ["files", "root"] (.table root) = some dir ∧
      (parseFiles p configPath root).1 = (some (scriptPath p configPath dir),
        (numberAt ["files", "upload_max_bytes"] (.table root)).getD defaultUploadMaxBytes) := by
  unfold parseFiles at h ⊢
  cases hfiles : root.lookup "files" with
  | none => simp [hfiles] at h
  | some value =>
    cases value with
    | table t =>
      simp only [hfiles, List.append_eq_nil_iff] at h
      obtain ⟨⟨-, hdir⟩, hbytes⟩ := h
      obtain ⟨dir, htext, hread⟩ := reqString_text t _ _ hdir
      refine ⟨dir, ?_, ?_⟩
      · rw [textAt, find_table _ hfiles, find_single, htext]
      · simp only [hread, numberAt, find_table _ hfiles, find_single, Option.map_some,
          (optPositiveBytes_reads t "upload_max_bytes" _).value_eq hbytes]
    | _ => simp [hfiles] at h

/-- The hosts of a list without complaints, as the address grammar reads them. -/
theorem optHostList_value (p : Platform) (table : Table) (field : String)
    (h : (optHostList p table field).2 = []) :
    (optHostList p table field).1.getD [] =
      (((table.lookup "allow_hosts").bind Toml.items).getD []).filterMap
        fun item => item.text.bind p.parseHost := by
  unfold optHostList at h ⊢
  cases hhosts : table.lookup "allow_hosts" with
  | none => rfl
  | some value =>
    cases value with
    | array items =>
      simp only [hhosts, List.flatMap_eq_nil_iff, List.mem_map] at h
      have hentry : ∀ item ∈ items.zipIdx,
          (hostEntry p field item.2 item.1).1 = item.1.text.bind p.parseHost := fun item hitem =>
        (hostEntry_reads p field item.2 item.1).value_eq (h _ ⟨item, hitem, rfl⟩)
      show List.filterMap Prod.fst (items.zipIdx.map _) = items.filterMap _
      rw [List.filterMap_map]
      apply (List.filterMap_congr hentry).trans
      conv_rhs => rw [← List.zipIdx_map_fst 0 items, List.filterMap_map]
      rfl
    | _ => simp [hhosts] at h

theorem parseUpstream_value (p : Platform) (root : Table) (h : (parseUpstream p root).2 = []) :
    (parseUpstream p root).1 =
      ⟨((itemsAt ["upstream", "allow_hosts"] (.table root)).getD []).filterMap
          fun item => item.text.bind p.parseHost,
        (numberAt ["upstream", "timeout_ms"] (.table root)).getD defaultUpstreamTimeoutMs⟩ := by
  unfold parseUpstream at h ⊢
  cases hupstream : root.lookup "upstream" with
  | none =>
    simp only [itemsAt, numberAt, find_none _ hupstream, Option.bind_none, Option.getD_none,
      List.filterMap_nil]
  | some value =>
    cases value with
    | table t =>
      simp only [hupstream, List.append_eq_nil_iff] at h
      obtain ⟨⟨-, hhosts⟩, htimeout⟩ := h
      simp only [itemsAt, numberAt, find_table _ hupstream, find_single,
        optHostList_value p t _ hhosts,
        (optDurationMs_reads t "timeout_ms" _).value_eq htimeout]
    | _ => simp [hupstream] at h

theorem parseFallback_value (p : Platform) (configPath : String) (root : Table)
    (h : (parseFallback p configPath root).2 = []) :
    match find ["fallback"] (.table root) with
    | none => (parseFallback p configPath root).1 = none
    | some table => ∃ script, textAt ["script"] table = some script ∧
        (parseFallback p configPath root).1 =
          some ⟨textAt ["name"] table, scriptPath p configPath script⟩ := by
  rw [find_single]
  unfold parseFallback at h ⊢
  cases hfallback : root.lookup "fallback" with
  | none => rfl
  | some value =>
    cases value with
    | table t =>
      simp only [hfallback, List.append_eq_nil_iff] at h
      obtain ⟨⟨⟨-, hname⟩, hscript⟩, -⟩ := h
      obtain ⟨script, htext, hread⟩ := reqString_text t _ _ hscript
      refine ⟨script, ?_, ?_⟩
      · rw [textAt, find_single, htext]
      · simp only [hread, (optString_reads t "name" _).value_eq hname, textAt, find_single,
          Option.getD_some]
    | _ => simp [hfallback] at h

theorem parseRoute_value (p : Platform) (configPath : String) (index : ℕ) (item : Toml)
    (h : (parseRoute p configPath index item).2 = []) :
    ∃ route, (parseRoute p configPath index item).1 = some route ∧
      RouteOf p configPath item route := by
  obtain ⟨route, hroute, haccepted⟩ := parseRoute_accepted p configPath index item h
  refine ⟨route, hroute, ?_⟩
  cases item with
  | table t =>
    simp only [parseRoute, List.append_eq_nil_iff] at h hroute
    obtain ⟨⟨⟨⟨⟨⟨⟨-, hname⟩, hmethod⟩, hpath⟩, hscript⟩, hknown⟩, -⟩, -⟩ := h
    obtain ⟨method, hmethodText, hmethodRead⟩ := reqString_text t _ _ hmethod
    obtain ⟨path, hpathText, hpathRead⟩ := reqString_text t _ _ hpath
    obtain ⟨script, hscriptText, hscriptRead⟩ := reqString_text t _ _ hscript
    rw [hmethodRead, hpathRead, hscriptRead, Option.some.injEq] at hroute
    rw [(optString_reads t "name" _).value_eq hname] at hroute
    obtain rfl := hroute
    have hupper : (normalizeMethod method).getD (asciiUpper method) = asciiUpper method := by
      unfold normalizeMethod
      split <;> rfl
    refine ⟨?_, ⟨method, ?_, hupper⟩, haccepted.method_mem, ?_, ?_, ⟨script, ?_, rfl⟩⟩
    · rw [textAt, find_single]
    · rw [textAt, find_single, hmethodText]
    · exact asciiUpper_httpMethods _ haccepted.method_mem
    · rw [textAt, find_single, hpathText]
      rfl
    · rw [textAt, find_single, hscriptText]
  | _ => simp [parseRoute] at h

theorem parseRoutes_value (p : Platform) (configPath : String) (root : Table)
    (h : (parseRoutes p configPath root).2 = []) :
    ∃ items, itemsAt ["routes"] (.table root) = some items ∧
      List.Forall₂ (RouteOf p configPath) items (parseRoutes p configPath root).1 := by
  have hentries (items : List Toml) (k : ℕ) (hclean : ∀ item ∈ items.zipIdx k,
      (parseRoute p configPath item.2 item.1).2 = []) :
      List.Forall₂ (RouteOf p configPath) items ((items.zipIdx k).filterMap fun item =>
        (parseRoute p configPath item.2 item.1).1) := by
    induction items generalizing k with
    | nil => exact .nil
    | cons item rest ih =>
      rw [List.zipIdx_cons] at hclean ⊢
      obtain ⟨route, hroute, hof⟩ := parseRoute_value p configPath k item
        (hclean (item, k) List.mem_cons_self)
      simp only [List.filterMap_cons, hroute]
      exact .cons hof (ih (k + 1) fun item hitem => hclean item (List.mem_cons_of_mem _ hitem))
  rw [itemsAt, find_single]
  unfold parseRoutes at h ⊢
  cases hroutes : root.lookup "routes" with
  | none => simp [hroutes] at h
  | some value =>
    cases value with
    | array items =>
      simp only [hroutes, List.append_eq_nil_iff, List.flatMap_eq_nil_iff, List.mem_map] at h
      refine ⟨items, rfl, ?_⟩
      show List.Forall₂ _ items (List.filterMap Prod.fst (items.zipIdx.map _))
      rw [List.filterMap_map]
      exact hentries items 0 fun item hitem => h.2 _ ⟨item, hitem, rfl⟩
    | _ => simp [hroutes] at h

end Configured

section Loads

variable (p : Platform) (parse : String → Except String Toml) (configPath text : String)

/-- The loader on a document that was parsed. -/
theorem load_parsed {document : Toml} (hparse : parse text = .ok document)
    (h : violations p configPath document ≠ []) :
    load p parse configPath (.ok text) = .error (.schema (violations p configPath document)) := by
  unfold load
  simp only [hparse]
  cases document with
  | table root =>
    simp only
    split
    · rename_i hempty _ _
      exact absurd hempty h
    · rfl
  | _ => rfl

/-- A document without violations has a version and an existing root. -/
theorem load_clean {root : Table} (hparse : parse text = .ok (.table root))
    (h : violations p configPath (.table root) = []) :
    ∃ config, load p parse configPath (.ok text) = .ok config ∧
      loadExpecting p parse configPath (.ok text) = some (.ok config) ∧
      Configures p configPath (.table root) config := by
  have hall := h
  simp only [violations, List.append_eq_nil_iff] at hall
  obtain ⟨⟨⟨⟨⟨⟨⟨⟨⟨-, hversion⟩, hone⟩, hserver⟩, hfiles⟩, hsandbox⟩, hupstream⟩, hfallback⟩,
    hroutes⟩, hdir⟩ := hall
  obtain ⟨version, -, hversionRead⟩ := reqString_text root _ _ hversion
  obtain ⟨dir, hdirText, hfilesRead⟩ := parseFiles_value p configPath root hfiles
  have hv : version = "1" := by
    rw [hversionRead] at hone
    by_contra hne
    simp [validateConfigVersion, hne] at hone
  have hisDir : p.isDir (scriptPath p configPath dir) = true := by
    rw [hfilesRead] at hdir
    by_contra hnot
    simp [existingDir, hnot] at hdir
  have hdirRead : (existingDir p (parseFiles p configPath root).1.1).1 =
      some (scriptPath p configPath dir) := by
    rw [hfilesRead, existingDir, if_pos hisDir]
  refine ⟨⟨version, (parseServer p root).1, ⟨scriptPath p configPath dir,
    (parseFiles p configPath root).1.2⟩, (parseSandbox root).1, (parseUpstream p root).1,
    (parseRoutes p configPath root).1, (parseFallback p configPath root).1⟩, ?_, ?_, ?_⟩
  · unfold load
    simp only [hparse]
    rw [violations] at h
    rw [h, hversionRead, hdirRead]
  · simp only [loadExpecting, hparse, if_pos h, hdirRead, hversionRead, Option.bind_some,
      Option.map_some]
  · have hserverRead := parseServer_value p root hserver
    have hsandboxRead := parseSandbox_value root hsandbox
    have hupstreamRead := parseUpstream_value p root hupstream
    exact {
      configVersion := hv
      bind := congrArg ServerConfig.bind hserverRead
      port := congrArg ServerConfig.port hserverRead
      requestTimeoutMs := congrArg ServerConfig.requestTimeoutMs hserverRead
      root := ⟨dir, hdirText, rfl⟩
      rootIsDir := hisDir
      uploadMaxBytes := congrArg Prod.snd hfilesRead
      scriptTimeoutMs := congrArg SandboxConfig.scriptTimeoutMs hsandboxRead
      scriptMemoryLimitMb := congrArg SandboxConfig.scriptMemoryLimitMb hsandboxRead
      allowHosts := congrArg UpstreamConfig.allowHosts hupstreamRead
      timeoutMs := congrArg UpstreamConfig.timeoutMs hupstreamRead
      routes := parseRoutes_value p configPath root hroutes
      fallback := parseFallback_value p configPath root hfallback }

/-- A document without violations is a table. -/
theorem violations_ne_nil_of_notTable {document : Toml} (h : tomlView.table document = none) :
    violations p configPath document ≠ [] := by
  cases document with
  | table root => cases h
  | _ => exact List.cons_ne_nil _ _

theorem loadExpecting_eq {document : Toml} (hparse : parse text = .ok document)
    (h : violations p configPath document ≠ []) :
    loadExpecting p parse configPath (.ok text) =
      some (.error (.schema (violations p configPath document))) := by
  cases document with
  | table root => simp only [loadExpecting, hparse, if_neg h]
  | _ => simp only [loadExpecting, hparse]

/-- A parsed document is accepted exactly when it satisfies the documented schema, on every
platform and for every path of the configuration file; otherwise the violations name every
place that offends, and no other. The two `expect`s never panic. An accepted configuration
is what the document says, with the documented defaults. -/
theorem load_documented {document : Toml} (hparse : parse text = .ok document) :
    loadExpecting p parse configPath (.ok text) = some (load p parse configPath (.ok text)) ∧
    ((∃ config, load p parse configPath (.ok text) = .ok config) ↔
      Accepts tomlView (documented p configPath) document) ∧
    (∀ config, load p parse configPath (.ok text) = .ok config →
      Configures p configPath document config) ∧
    (¬ Accepts tomlView (documented p configPath) document →
      ∃ found, load p parse configPath (.ok text) = .error (.schema found) ∧
        (∀ place, Offends tomlView (documented p configPath) [] document place →
          ∃ violation ∈ found, violation.field = place.name rootName) ∧
        ∀ violation ∈ found, ∃ place,
          Offends tomlView (documented p configPath) [] document place ∧
            violation.field = place.name rootName) := by
  rw [← violations_eq_nil_iff]
  by_cases hclean : violations p configPath document = []
  · cases document with
    | table root =>
      obtain ⟨config, hload, hexpecting, hconfigures⟩ := load_clean p parse configPath text
        hparse hclean
      refine ⟨hexpecting.trans (congrArg some hload.symm), iff_of_true ⟨config, hload⟩ hclean, ?_,
        fun hviolations => absurd hclean hviolations⟩
      intro other hother
      cases hload.symm.trans hother
      exact hconfigures
    | _ => exact absurd hclean (violations_ne_nil_of_notTable p configPath rfl)
  · have hload := load_parsed p parse configPath text hparse hclean
    have hreports := violations_reports p configPath document
    refine ⟨(loadExpecting_eq p parse configPath text hparse hclean).trans
      (congrArg some hload.symm), ?_, ?_, fun _ => ⟨_, hload, ?_, ?_⟩⟩
    · refine iff_of_false ?_ hclean
      rintro ⟨config, hconfig⟩
      cases hload.symm.trans hconfig
    · intro config hconfig
      cases hload.symm.trans hconfig
    · intro place hplace
      obtain ⟨violation, hviolation, hname⟩ := List.mem_map.mp (hreports.complete place hplace)
      exact ⟨violation, hviolation, hname⟩
    · intro violation hviolation
      obtain ⟨place, hplace, hname⟩ := hreports.sound _ (List.mem_map_of_mem hviolation)
      exact ⟨place, hplace, hname.symm⟩

/-- A document whose version and address hold, whose port is none, whose routes are too few and
which has no table of files. -/
def mixedDocument : Toml :=
  .table [("config_version", .string "1"),
    ("server", .table [("bind", .string "127.0.0.1"), ("port", .integer 70000)]),
    ("routes", .array [])]

theorem load_documented_mixed :
    let p := unixPlatform ⟨fun _ => true, fun _ => true, some, id⟩
    ∃ found, load p (fun _ => .ok mixedDocument) "stuntdouble.toml" (.ok "") =
        .error (.schema found) ∧
      fieldsOf found = ["server.port", "files", "routes"] ∧
        ∀ violation ∈ found, ∃ place,
          Offends tomlView (documented p "stuntdouble.toml") [] mixedDocument place ∧
            violation.field = place.name rootName := by
  intro p
  have hfiles : Offends tomlView (documented p "stuntdouble.toml") [] mixedDocument
      [.key "files"] :=
    .missing ("files", true, filesShape _ _) rfl
      (List.mem_cons_of_mem _ (List.mem_cons_of_mem _ List.mem_cons_self)) rfl rfl
  obtain ⟨-, -, -, hrejected⟩ :=
    load_documented p (fun _ => .ok mixedDocument) "stuntdouble.toml" "" rfl
  obtain ⟨found, hload, -, hsound⟩ := hrejected fun h => h.not_offends [] _ hfiles
  refine ⟨found, hload, ?_, hsound⟩
  have hparsed := load_parsed p (fun _ => .ok mixedDocument) "stuntdouble.toml" "" rfl
    (by decide +kernel)
  rw [hparsed] at hload
  cases hload
  decide +kernel

end Loads

end StuntDouble.Configuration
