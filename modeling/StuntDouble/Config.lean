import StuntDouble.Matcher

/-!
The configuration loader. Each reader of a table returns what it read together
with the violations it found, in the order in which the loader collects them; a
configuration is accepted exactly when there are none. TOML syntax, paths, the
file system, hosts and IP literals are given.
-/
namespace StuntDouble.Configuration

open Http Matcher

inductive Toml
  | string (s : String)
  | integer (i : ℤ)
  | float (text : String)
  | boolean (b : Bool)
  | datetime (text : String)
  | array (items : List Toml)
  | table (entries : List (String × Toml))

abbrev Table := List (String × Toml)

structure Violation where
  field : String
  expected : String
  actual : String
deriving DecidableEq, Repr

/-- What the loader asks of paths, the file system and the address grammars. -/
structure Platform where
  isAbsolute : String → Bool
  join : String → String → String
  parent : String → String
  extension : String → Option String
  isDir : String → Bool
  isIpLiteral : String → Bool
  parseHost : String → Option String
  debugText : String → String

structure ServerConfig where
  bind : String
  port : ℕ
  requestTimeoutMs : ℕ

structure SandboxConfig where
  scriptTimeoutMs : ℕ
  scriptMemoryLimitMb : ℕ

structure UpstreamConfig where
  allowHosts : List String
  timeoutMs : ℕ

structure FilesConfig where
  root : String
  uploadMaxBytes : ℕ

structure Fallback where
  name : Option String
  script : String

structure Config where
  configVersion : String
  server : ServerConfig
  files : FilesConfig
  sandbox : SandboxConfig
  upstream : UpstreamConfig
  routes : List Route
  fallback : Option Fallback

inductive ConfigError
  | read (reason : String)
  | syntaxError (message : String)
  | schema (violations : List Violation)

def httpMethods : List String := ["GET", "POST", "PUT", "DELETE", "PATCH", "HEAD", "OPTIONS"]

def scriptMemoryLimitFloorMb : ℕ := 64

def defaultBind : String := "127.0.0.1"
def defaultPort : ℕ := 3000
def defaultRequestTimeoutMs : ℕ := 30000
def defaultScriptTimeoutMs : ℕ := 10000
def defaultScriptMemoryLimitMb : ℕ := 256
def defaultUploadMaxBytes : ℕ := 20 * 1024 * 1024
def defaultUpstreamTimeoutMs : ℕ := 15000

section Readers

/-- What a reader found, and what it complains about. -/
abbrev Read (A : Type) := A × List Violation

def joined (words : List String) : String := ", ".intercalate words

def describe : Toml → String
  | .string s => "string \"" ++ s ++ "\""
  | .integer i => "integer " ++ toString i
  | .float text => "float " ++ text
  | .boolean b => "boolean " ++ toString b
  | .datetime text => "datetime " ++ text
  | .array items => "array of " ++ toString items.length
  | .table entries => "table with keys [" ++ joined (entries.map Prod.fst) ++ "]"

def missing (field expected : String) : Violation := ⟨field, expected, "missing"⟩

def bad (field expected : String) (value : Toml) : Violation := ⟨field, expected, describe value⟩

def rejectUnknown (table : Table) (allowed : List String) (scope : String) : List Violation :=
  table.filterMap (fun entry =>
    if entry.1 ∈ allowed then none
    else some ⟨if scope = "" then entry.1 else scope ++ "." ++ entry.1,
      "one of [" ++ joined allowed ++ "]", "unknown key"⟩)

def optString (table : Table) (key field : String) : Read (Option String) :=
  match table.lookup key with
  | none => (none, [])
  | some (.string s) =>
    if s = "" then (none, [⟨field, "non-empty string", s⟩]) else (some s, [])
  | some other => (none, [bad field "string" other])

def reqString (table : Table) (key field : String) : Read (Option String) :=
  match table.lookup key with
  | none => (none, [missing field "string"])
  | some _ => optString table key field

/-- An integer that a check admits. -/
def optInteger (check : ℕ → Bool) (range kind : String) (table : Table) (key field : String) :
    Read (Option ℕ) :=
  match table.lookup key with
  | none => (none, [])
  | some (.integer i) =>
    if 0 ≤ i ∧ check i.toNat = true then (some i.toNat, [])
    else (none, [⟨field, range, toString i⟩])
  | some other => (none, [bad field kind other])

def optPositiveBytes (table : Table) (key field : String) : Read (Option ℕ) :=
  optInteger (fun n => decide (0 < n)) "integer number of bytes greater than 0"
    "integer number of bytes" table key field

def optPort (table : Table) (field : String) : Read (Option ℕ) :=
  optInteger (fun n => decide (0 < n ∧ n < 65536)) "integer in [1, 65535]"
    "integer in [1, 65535]" table "port" field

def optDurationMs (table : Table) (key field : String) : Read (Option ℕ) :=
  optInteger (fun n => decide (0 < n)) "integer number of milliseconds greater than 0"
    "integer number of milliseconds" table key field

def optMemoryLimitMb (table : Table) (field : String) : Read (Option ℕ) :=
  optInteger (fun n => decide (scriptMemoryLimitFloorMb ≤ n))
    ("integer number of MiB >= " ++ toString scriptMemoryLimitFloorMb)
    ("integer number of MiB >= " ++ toString scriptMemoryLimitFloorMb)
    table "script_memory_limit_mb" field

def optBind (p : Platform) (table : Table) (field : String) : Read (Option String) :=
  match table.lookup "bind" with
  | none => (none, [])
  | some (.string value) =>
    if value = "" then (none, [⟨field, "non-empty string", value⟩])
    else if p.isIpLiteral value then (some value, [])
    else (none, [⟨field, "IP address literal", "string " ++ p.debugText value⟩])
  | some other => (none, [bad field "IP address literal" other])

def hostEntry (p : Platform) (field : String) (index : ℕ) : Toml → Read (Option String)
  | .string host =>
    if host = "" then
      (none, [⟨field ++ "[" ++ toString index ++ "]", "non-empty host string",
        describe (.string host)⟩])
    else
      match p.parseHost host with
      | some normalized => (some normalized, [])
      | none => (none, [⟨field ++ "[" ++ toString index ++ "]",
          "host name or IP literal without scheme or port", "string " ++ p.debugText host⟩])
  | other => (none, [⟨field ++ "[" ++ toString index ++ "]", "non-empty host string",
      describe other⟩])

def optHostList (p : Platform) (table : Table) (field : String) : Read (Option (List String)) :=
  match table.lookup "allow_hosts" with
  | none => (none, [])
  | some (.array items) =>
    let entries := items.zipIdx.map (fun item => hostEntry p field item.2 item.1)
    (some (entries.filterMap Prod.fst), entries.flatMap Prod.snd)
  | some other => (none, [bad field "array of host strings" other])

def validateConfigVersion (p : Platform) (value : Option String) : List Violation :=
  match value with
  | none => []
  | some version =>
    if version = "1" then []
    else [⟨"config_version", "\"1\"", "string " ++ p.debugText version⟩]

def validateScriptExtension (p : Platform) (script scope : String) : List Violation :=
  match p.extension script with
  | none => [⟨scope ++ ".script", "file name ending in .js", script⟩]
  | some ext =>
    if ext = "py" then
      [⟨scope ++ ".script",
        "JavaScript file (the Python runtime is not supported in this slice)", script⟩]
    else if ext = "js" ∨ ext = "mjs" ∨ ext = "cjs" then []
    else [⟨scope ++ ".script", "file name ending in .js, not ." ++ ext, script⟩]

def normalizeMethod (method : String) : Option String :=
  if asciiUpper method ∈ httpMethods then some (asciiUpper method) else none

/-- A script path is taken relative to the configuration file. -/
def scriptPath (p : Platform) (configPath script : String) : String :=
  if p.isAbsolute script then script else p.join (p.parent configPath) script

end Readers

section Tables

def parseServer (p : Platform) (root : Table) : Read ServerConfig :=
  match root.lookup "server" with
  | none =>
    (⟨defaultBind, defaultPort, defaultRequestTimeoutMs⟩, [missing "server" "table"])
  | some (.table t) =>
    let unknown := rejectUnknown t ["bind", "port", "request_timeout_ms"] "server"
    let bind := optBind p t "server.bind"
    let port := optPort t "server.port"
    let timeout := optDurationMs t "request_timeout_ms" "server.request_timeout_ms"
    (⟨bind.1.getD defaultBind, port.1.getD defaultPort,
      timeout.1.getD defaultRequestTimeoutMs⟩, unknown ++ bind.2 ++ port.2 ++ timeout.2)
  | some other =>
    (⟨defaultBind, defaultPort, defaultRequestTimeoutMs⟩, [bad "server" "table" other])

def parseFiles (p : Platform) (configPath : String) (root : Table) : Read (Option String × ℕ) :=
  match root.lookup "files" with
  | none => ((none, defaultUploadMaxBytes), [missing "files" "table"])
  | some (.table t) =>
    let unknown := rejectUnknown t ["root", "upload_max_bytes"] "files"
    let dir := reqString t "root" "files.root"
    let bytes := optPositiveBytes t "upload_max_bytes" "files.upload_max_bytes"
    ((dir.1.map (scriptPath p configPath), bytes.1.getD defaultUploadMaxBytes),
      unknown ++ dir.2 ++ bytes.2)
  | some other => ((none, defaultUploadMaxBytes), [bad "files" "table" other])

def parseSandbox (root : Table) : Read SandboxConfig :=
  match root.lookup "sandbox" with
  | none => (⟨defaultScriptTimeoutMs, defaultScriptMemoryLimitMb⟩, [])
  | some (.table t) =>
    let unknown := rejectUnknown t ["script_timeout_ms", "script_memory_limit_mb"] "sandbox"
    let timeout := optDurationMs t "script_timeout_ms" "sandbox.script_timeout_ms"
    let memory := optMemoryLimitMb t "sandbox.script_memory_limit_mb"
    (⟨timeout.1.getD defaultScriptTimeoutMs, memory.1.getD defaultScriptMemoryLimitMb⟩,
      unknown ++ timeout.2 ++ memory.2)
  | some other =>
    (⟨defaultScriptTimeoutMs, defaultScriptMemoryLimitMb⟩, [bad "sandbox" "table" other])

def parseUpstream (p : Platform) (root : Table) : Read UpstreamConfig :=
  match root.lookup "upstream" with
  | none => (⟨[], defaultUpstreamTimeoutMs⟩, [])
  | some (.table t) =>
    let unknown := rejectUnknown t ["allow_hosts", "timeout_ms"] "upstream"
    let hosts := optHostList p t "upstream.allow_hosts"
    let timeout := optDurationMs t "timeout_ms" "upstream.timeout_ms"
    (⟨hosts.1.getD [], timeout.1.getD defaultUpstreamTimeoutMs⟩,
      unknown ++ hosts.2 ++ timeout.2)
  | some other => (⟨[], defaultUpstreamTimeoutMs⟩, [bad "upstream" "table" other])

def parseFallback (p : Platform) (configPath : String) (root : Table) :
    Read (Option Fallback) :=
  match root.lookup "fallback" with
  | none => (none, [])
  | some (.table t) =>
    let unknown := rejectUnknown t ["name", "script"] "fallback"
    let name := optString t "name" "fallback.name"
    let script := reqString t "script" "fallback.script"
    (some ⟨name.1, scriptPath p configPath (script.1.getD "")⟩,
      unknown ++ name.2 ++ script.2 ++
        validateScriptExtension p (script.1.getD "") "fallback")
  | some other => (none, [bad "fallback" "table" other])

def parseRoute (p : Platform) (configPath : String) (index : ℕ) (item : Toml) :
    Read (Option Route) :=
  let scope := "routes[" ++ toString index ++ "]"
  match item with
  | .table t =>
    let unknown := rejectUnknown t ["name", "method", "path", "script"] scope
    let name := optString t "name" (scope ++ ".name")
    let method := reqString t "method" (scope ++ ".method")
    let path := reqString t "path" (scope ++ ".path")
    let script := reqString t "script" (scope ++ ".script")
    let normalized := normalizeMethod (method.1.getD "")
    (some ⟨name.1, normalized.getD (asciiUpper (method.1.getD "")), path.1.getD "",
        scriptPath p configPath (script.1.getD "")⟩,
      unknown ++ name.2 ++ method.2 ++ path.2 ++ script.2 ++
        (if normalized.isSome then []
          else [⟨scope ++ ".method", "one of " ++ joined httpMethods, method.1.getD ""⟩]) ++
        (if (path.1.getD "").toList.head? = some '/' then []
          else [⟨scope ++ ".path", "absolute path starting with /", path.1.getD ""⟩]) ++
        validateScriptExtension p (script.1.getD "") scope)
  | other => (none, [bad scope "table" other])

def parseRoutes (p : Platform) (configPath : String) (root : Table) : Read (List Route) :=
  match root.lookup "routes" with
  | none => ([], [missing "routes" "array of route tables"])
  | some (.array items) =>
    let entries := items.zipIdx.map (fun item => parseRoute p configPath item.2 item.1)
    (entries.filterMap Prod.fst,
      (if items.isEmpty then [⟨"routes", "at least one route table", "array of 0"⟩] else []) ++
        entries.flatMap Prod.snd)
  | some other => ([], [bad "routes" "array of route tables" other])

def existingDir (p : Platform) : Option String → Read (Option String)
  | none => (none, [])
  | some dir =>
    if p.isDir dir then (some dir, []) else (none, [⟨"files.root", "existing directory", dir⟩])

/-- The loader on the text of the file, when it could be read. -/
def load (p : Platform) (parse : String → Except String Toml) (configPath : String)
    (text : Except String String) : Except ConfigError Config :=
  match text with
  | .error reason => .error (.read reason)
  | .ok text =>
    match parse text with
    | .error message => .error (.syntaxError message)
    | .ok (.table root) =>
      let unknown := rejectUnknown root ["config_version", "server", "files", "sandbox",
        "upstream", "routes", "fallback"] ""
      let version := reqString root "config_version" "config_version"
      let server := parseServer p root
      let files := parseFiles p configPath root
      let sandbox := parseSandbox root
      let upstream := parseUpstream p root
      let fallback := parseFallback p configPath root
      let routes := parseRoutes p configPath root
      let dir := existingDir p files.1.1
      let violations := unknown ++ version.2 ++ validateConfigVersion p version.1 ++ server.2 ++
        files.2 ++ sandbox.2 ++ upstream.2 ++ fallback.2 ++ routes.2 ++ dir.2
      match violations, version.1, dir.1 with
      | [], some version, some dir =>
        .ok ⟨version, server.1, ⟨dir, files.1.2⟩, sandbox.1, upstream.1, routes.1, fallback.1⟩
      | _, _, _ => .error (.schema violations)
    | .ok other => .error (.schema [bad "(root)" "table" other])

end Tables

section Routes

/-- What acceptance promises about a route. -/
structure RouteAccepted (route : Route) : Prop where
  method_mem : route.method ∈ httpMethods
  path_absolute : route.path.toList.head? = some '/'

theorem asciiUpper_httpMethods (method : String) (h : method ∈ httpMethods) :
    asciiUpper method = method := by
  have hall : ∀ m ∈ httpMethods, asciiUpper m = m := by decide
  exact hall method h

theorem normalizeMethod_some (method upper : String) (h : normalizeMethod method = some upper) :
    upper ∈ httpMethods := by
  unfold normalizeMethod at h
  by_cases hmem : asciiUpper method ∈ httpMethods
  · rw [if_pos hmem] at h
    obtain rfl := Option.some.inj h
    exact hmem
  · rw [if_neg hmem] at h
    contradiction

/-- A route entry without violations is a route with a known method and an absolute path. -/
theorem parseRoute_accepted (p : Platform) (configPath : String) (index : ℕ) (item : Toml)
    (h : (parseRoute p configPath index item).2 = []) :
    ∃ route, (parseRoute p configPath index item).1 = some route ∧ RouteAccepted route := by
  cases item with
  | table t =>
    simp only [parseRoute, List.append_eq_nil_iff] at h ⊢
    obtain ⟨⟨⟨-, hmethod⟩, hpath⟩, -⟩ := h
    refine ⟨_, rfl, ?_, ?_⟩
    · cases hnormalized : normalizeMethod
        ((reqString t "method" ("routes[" ++ toString index ++ "]" ++ ".method")).1.getD "") with
      | none =>
        rw [hnormalized] at hmethod
        contradiction
      | some upper => exact normalizeMethod_some _ upper hnormalized
    · by_contra hrelative
      rw [if_neg hrelative] at hpath
      contradiction
  | _ =>
    simp only [parseRoute] at h
    contradiction

theorem parseRoutes_accepted (p : Platform) (configPath : String) (root : Table)
    (h : (parseRoutes p configPath root).2 = []) :
    (parseRoutes p configPath root).1 ≠ [] ∧
      ∀ route ∈ (parseRoutes p configPath root).1, RouteAccepted route := by
  unfold parseRoutes at h ⊢
  cases hroutes : root.lookup "routes" with
  | none =>
    simp only [hroutes] at h
    contradiction
  | some value =>
    cases value with
    | array items =>
      simp only [hroutes, List.append_eq_nil_iff, List.flatMap_eq_nil_iff] at h ⊢
      obtain ⟨hnonempty, hentries⟩ := h
      have hentry : ∀ item ∈ items.zipIdx, ∃ route,
          (parseRoute p configPath item.2 item.1).1 = some route ∧ RouteAccepted route := by
        intro item hitem
        exact parseRoute_accepted p configPath item.2 item.1
          (hentries _ (List.mem_map_of_mem hitem))
      constructor
      · cases items with
        | nil => simp at hnonempty
        | cons item rest =>
          obtain ⟨route, hroute, -⟩ := hentry (item, 0) (by simp)
          intro hempty
          have hmem : route ∈ List.filterMap Prod.fst (List.map
              (fun item => parseRoute p configPath item.2 item.1) (item :: rest).zipIdx) := by
            rw [List.mem_filterMap]
            exact ⟨_, List.mem_map_of_mem (a := (item, 0)) (by simp), hroute⟩
          rw [hempty] at hmem
          contradiction
      · intro route hroute
        obtain ⟨entry, hmem, hsome⟩ := List.mem_filterMap.mp hroute
        obtain ⟨item, hitem, rfl⟩ := List.mem_map.mp hmem
        obtain ⟨found, hfound, haccepted⟩ := hentry item hitem
        obtain rfl := Option.some.inj (hfound.symm.trans hsome)
        exact haccepted
    | _ =>
      simp only [hroutes] at h
      contradiction

/-- Every accepted configuration has routes, each with a known method and an absolute path. -/
theorem load_accepted (p : Platform) (parse : String → Except String Toml) (configPath : String)
    (text : Except String String) (config : Config)
    (h : load p parse configPath text = .ok config) :
    config.routes ≠ [] ∧ ∀ route ∈ config.routes, RouteAccepted route := by
  unfold load at h
  split at h
  · contradiction
  · split at h
    · contradiction
    · rename_i root _
      simp only at h
      split at h
      · rename_i hviolations _ _
        obtain rfl := Except.ok.inj h
        simp only [List.append_eq_nil_iff] at hviolations
        exact parseRoutes_accepted p configPath root hviolations.1.2
      · contradiction
    · contradiction

end Routes

end StuntDouble.Configuration
