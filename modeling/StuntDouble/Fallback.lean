import StuntDouble.Server

/-!
What the client sees of a fallback. The classification of the request, the
status the fallback has to answer with and the injected `Allow` header come from
three traversals of the route table; for every table the loader accepts they
agree, whatever the script handed back.
-/
namespace StuntDouble.Server

open Http Matcher StuntDouble.Configuration RequestLog Files Script

variable {Pipe : Type}

section Headers

variable (env : Env)

/-- Whether a header is not the host's. -/
def notAllow (header : String × String) : Bool := !eqIgnoreAsciiCase header.1 "allow"

theorem validatedHeaderPairs_append (front back : List (String × String)) :
    validatedHeaderPairs env (front ++ back) =
      match validatedHeaderPairs env front with
      | .error message => .error message
      | .ok pairs => (validatedHeaderPairs env back).map (fun more => pairs ++ more) := by
  induction front with
  | nil =>
    rw [List.nil_append]
    cases validatedHeaderPairs env back <;> simp [validatedHeaderPairs, Except.map]
  | cons header rest ih =>
    obtain ⟨name, value⟩ := header
    rw [List.cons_append, validatedHeaderPairs, validatedHeaderPairs]
    cases env.grammar.name name with
    | none => rfl
    | some parsed =>
      simp only
      by_cases hvalue : env.grammar.value value = true
      · rw [if_pos hvalue, if_pos hvalue, ih]
        cases validatedHeaderPairs env rest with
        | error message => rfl
        | ok pairs => cases validatedHeaderPairs env back <;> rfl
      · rw [if_neg hvalue, if_neg hvalue]

theorem grammar_allow : env.grammar.name "Allow" = some "allow" := by
  have hletters : "Allow".toList.all (fun c => c.isAlpha || c == '-') = true := by decide
  refine env.grammar.name_letters "Allow" (by decide) (by decide) ?_
  intro c hc
  simpa using List.all_eq_true.mp hletters c hc

/-- The headers with the host's `Allow` are the other headers and one entry behind them. -/
theorem responseHeaders_withAllow (headers : List (String × String)) (allowed : List String)
    (mapped : HeaderMap) (h : responseHeaders env (withAllow headers allowed) = .ok mapped) :
    ∃ others, responseHeaders env (headers.filter notAllow) = .ok others ∧
      others.containsKey "allow" = false ∧
        mapped = others ++ [("allow", [Utf8.encode (joined allowed)])] := by
  unfold responseHeaders withAllow at h
  change Except.map _ (validatedHeaderPairs env (headers.filter notAllow ++ _)) = _ at h
  rw [validatedHeaderPairs_append] at h
  cases hothers : validatedHeaderPairs env (headers.filter notAllow) with
  | error message =>
    rw [hothers] at h
    contradiction
  | ok pairs =>
    rw [hothers] at h
    have hnames : ∀ pair ∈ pairs, pair.1 ≠ "allow" := by
      intro pair hpair hallow
      obtain ⟨header, hheader, hname⟩ :=
        validatedHeaderPairs_name env (headers.filter notAllow) pairs hothers pair hpair
      have hnot := (List.mem_filter.mp hheader).2
      have hlower : asciiLower "allow" = "allow" := by decide
      simp [notAllow, eqIgnoreAsciiCase, ← hname, hallow, hlower] at hnot
    have hfresh := HeaderMap.containsKey_foldl pairs [] "allow" rfl hnames
    refine ⟨_, by rw [responseHeaders, hothers]; rfl, hfresh, ?_⟩
    simp only [validatedHeaderPairs, grammar_allow] at h
    by_cases hvalue : env.grammar.value (joined allowed) = true
    · rw [if_pos hvalue] at h
      have hmapped : (pairs ++ [("allow", Utf8.encode (joined allowed))]).foldl
          (fun (headers : HeaderMap) pair => headers.append pair.1 pair.2) ([] : HeaderMap) =
            mapped := Except.ok.inj h
      rw [← hmapped, List.foldl_append, List.foldl_cons, List.foldl_nil]
      exact HeaderMap.append_fresh _ _ _ hfresh
    · rw [if_neg hvalue] at h
      contradiction

end Headers

section Mapped

variable (env : Env)

/-- A response that the engine wrote for a script that failed. -/
def EngineError (mapped : Mapped Pipe) : Prop :=
  (mapped.status = 500 ∨ mapped.status = 502) ∧ ∃ bytes, mapped.body = .ready bytes

theorem failedMapped_engineError (error : Script.Error) (requestId : String) (verbose : Bool) :
    EngineError (failedMapped error requestId verbose : Mapped Pipe) :=
  ⟨error.status_eq, _, rfl⟩

/-- The bytes of a buffered body. -/
def bodyBytes : ResponseBody Pipe FileBody → Bytes
  | .text text => Utf8.encode text
  | .bytes bytes => bytes.map UInt8.ofNat
  | .stream _ | .file _ => []

/-- A buffered response on HTTP: its own status, headers and body, or an engine error. -/
theorem mapResponse_buffered (response : ScriptResponse Pipe FileBody) (requestHeaders : HeaderMap)
    (requestId : String) (verbose : Bool) (hbuffered : isStream response.body = false) :
    ∃ mapped, mapResponse env response requestHeaders requestId verbose = some mapped ∧
      (EngineError mapped ∨ (responseHeaders env response.headers = .ok mapped.headers ∧
        mapped.status = scriptStatus response.status ∧
          mapped.body = .ready (bodyBytes response.body))) := by
  unfold mapResponse
  cases hheaders : responseHeaders env response.headers with
  | error message =>
    exact ⟨_, rfl, Or.inl (failedMapped_engineError (.failed message) requestId
      verbose)⟩
  | ok headers =>
    cases hbody : response.body with
    | text text => exact ⟨_, rfl, Or.inr ⟨rfl, rfl, rfl⟩⟩
    | bytes bytes => exact ⟨_, rfl, Or.inr ⟨rfl, rfl, rfl⟩⟩
    | stream pipe =>
      rw [hbody] at hbuffered
      contradiction
    | file file =>
      rw [hbody] at hbuffered
      contradiction

/-- The fallback lets a response through only with the required status and a
buffered body; with a mismatched method the headers end with the host's `Allow`. -/
theorem checkFallback_handled (now : ℕ) (kind : String) (allowed : List String)
    (routed : Routed Pipe) (hhandled : (∃ error, routed.handled = .failed error) ∨
      ∃ response, routed.handled = .responded response) :
    (∃ error, (checkFallback env now kind allowed routed).handled = .failed error) ∨
      ∃ response headers, routed.handled = .responded response ∧
        response.status = requiredStatus kind ∧ isStream response.body = false ∧
          (checkFallback env now kind allowed routed).handled =
            .responded { response with headers := headers } ∧
              headers = if kind = "method_not_allowed" then withAllow response.headers allowed
                else response.headers := by
  rcases hhandled with ⟨error, herror⟩ | ⟨response, hresponse⟩
  · exact Or.inl ⟨error, by simp [checkFallback, herror]⟩
  · unfold checkFallback
    simp only [hresponse]
    by_cases hinvalid : response.status ≠ requiredStatus kind ∨ isStream response.body = true
    · exact Or.inl ⟨_, by rw [if_pos hinvalid]⟩
    · rw [if_neg hinvalid]
      rw [not_or, not_not, Bool.not_eq_true] at hinvalid
      obtain ⟨hstatus, hbuffered⟩ := hinvalid
      by_cases hkind : kind = "method_not_allowed"
      · rw [if_pos hkind]
        exact Or.inr ⟨response, _, rfl, hstatus, hbuffered, rfl, (if_pos hkind).symm⟩
      · rw [if_neg hkind]
        exact Or.inr ⟨response, response.headers, rfl, hstatus, hbuffered, hresponse,
          (if_neg hkind).symm⟩

/-- The client gets the script's response, with the status that its request asks for, and
with the host's `Allow` in the place of the script's if a route has the path. -/
structure Kept (routes : List Route) (path : String) (response : ScriptResponse Pipe FileBody)
    (mapped : Mapped Pipe) : Prop where
  buffered : isStream response.body = false
  status : mapped.status = response.status
  body : mapped.body = .ready (bodyBytes response.body)
  not_found : (∀ route ∈ routes, ¬ route.Matches path) →
    mapped.status = 404 ∧ responseHeaders env response.headers = .ok mapped.headers
  method_not_allowed : (∃ route ∈ routes, route.Matches path) →
    mapped.status = 405 ∧ ∃ others,
      responseHeaders env (response.headers.filter notAllow) = .ok others ∧
        others.containsKey "allow" = false ∧
          mapped.headers =
            others ++ [("allow", [Utf8.encode (joined (allowedMethods routes path))])]

theorem matchKind_notFound (routes : List Route) (path : String)
    (h : ∀ route ∈ routes, ¬ route.Matches path) :
    matchKind (allowedMethods routes path) = "not_found" := by
  have hempty : allowedMethods routes path = [] := by
    apply List.eq_nil_iff_forall_not_mem.mpr
    intro method hmethod
    obtain ⟨route, hroute, hmatches, -⟩ := (mem_allowedMethods routes path method).mp hmethod
    exact h route hroute hmatches
  rw [hempty]
  rfl

theorem allowedMethods_ne_nil (routes : List Route) (path : String)
    (h : ∃ route ∈ routes, route.Matches path) : allowedMethods routes path ≠ [] := by
  obtain ⟨route, hroute, hmatches⟩ := h
  apply List.ne_nil_of_mem
  exact (mem_allowedMethods routes path _).mpr ⟨route, hroute, hmatches, rfl⟩

theorem matchKind_notAllowed (routes : List Route) (path : String)
    (h : ∃ route ∈ routes, route.Matches path) :
    matchKind (allowedMethods routes path) = "method_not_allowed" := by
  have hempty : (allowedMethods routes path).isEmpty = false :=
    List.isEmpty_eq_false_iff.mpr (allowedMethods_ne_nil routes path h)
  rw [matchKind, hempty]
  rfl

theorem requiredStatus_bounds (kind : String) :
    scriptStatus (requiredStatus kind) = requiredStatus kind := by
  unfold requiredStatus
  split <;> rfl

/-- The response of a fallback that passed the check is kept, or cannot be mapped. -/
theorem mapResponse_kept (routes : List Route) (path : String)
    (response : ScriptResponse Pipe FileBody) (headers : List (String × String))
    (requestHeaders : HeaderMap) (requestId : String) (verbose : Bool)
    (hstatus : response.status = requiredStatus (matchKind (allowedMethods routes path)))
    (hbuffered : isStream response.body = false)
    (hheaders : headers = if matchKind (allowedMethods routes path) = "method_not_allowed" then
      withAllow response.headers (allowedMethods routes path) else response.headers) :
    ∃ mapped, mapResponse env { response with headers := headers } requestHeaders requestId
        verbose = some mapped ∧
      (EngineError mapped ∨ Kept env routes path response mapped) := by
  obtain ⟨mapped, hmapped, herror | ⟨hout, hcode, hbody⟩⟩ := mapResponse_buffered env
    { response with headers := headers } requestHeaders requestId verbose hbuffered
  · exact ⟨mapped, hmapped, Or.inl herror⟩
  · have hsame : mapped.status = response.status := by
      rw [hcode, hstatus, requiredStatus_bounds]
    refine ⟨mapped, hmapped, Or.inr ⟨hbuffered, hsame, hbody, ?_, ?_⟩⟩
    · intro hnone
      rw [matchKind_notFound routes path hnone] at hstatus hheaders
      rw [if_neg (by decide)] at hheaders
      rw [hheaders] at hout
      exact ⟨hsame.trans hstatus, hout⟩
    · intro hsome
      rw [matchKind_notAllowed routes path hsome] at hstatus hheaders
      rw [if_pos rfl] at hheaders
      rw [hheaders] at hout
      exact ⟨hsame.trans hstatus, responseHeaders_withAllow env _ _ _ hout⟩

theorem runScriptInner_handled (run : ScriptJob → ScriptRun Pipe) (label : String)
    (job : ScriptJob) (requestBodyBytes : Option ℕ) (upload : Json) :
    (∃ error, (runScriptInner run label job requestBodyBytes upload).handled = .failed error) ∨
      ∃ response, (run job).outcome.response = some response ∧
        (runScriptInner run label job requestBodyBytes upload).handled = .responded response := by
  cases hresponse : (run job).outcome.response with
  | some response => exact Or.inr ⟨response, rfl, by simp [runScriptInner, hresponse]⟩
  | none =>
    cases herror : (run job).outcome.error with
    | some error => exact Or.inl ⟨error, by simp [runScriptInner, hresponse, herror]⟩
    | none => exact Or.inl ⟨.noResponse, by simp [runScriptInner, hresponse, herror]⟩

/-- Whatever the script of a fallback hands back, the client gets an engine error or the
script's buffered response. -/
theorem runFallback_mapped (now : ℕ) (run : ScriptJob → ScriptRun Pipe) (fallback : Fallback)
    (routes : List Route) (path : String) (requestHeaders : HeaderMap) (requestId : String)
    (verbose : Bool) :
    ∃ mapped, mapHandled env (runFallback env now run fallback
        (matchKind (allowedMethods routes path)) (allowedMethods routes path)).handled
        requestHeaders requestId verbose = some mapped ∧
      (EngineError mapped ∨ ∃ response,
        (run ⟨fallback.script, ∅, matchKind (allowedMethods routes path),
          allowedMethods routes path⟩).outcome.response = some response ∧
        Kept env routes path response mapped) := by
  unfold runFallback
  have hinner := runScriptInner_handled run (fallback.name.getD "fallback")
    ⟨fallback.script, ∅, matchKind (allowedMethods routes path), allowedMethods routes path⟩
    none (uploadLog 0 0 none)
  have hhandled := checkFallback_handled env now (matchKind (allowedMethods routes path))
    (allowedMethods routes path) (runScriptInner run (fallback.name.getD "fallback")
      ⟨fallback.script, ∅, matchKind (allowedMethods routes path), allowedMethods routes path⟩
      none (uploadLog 0 0 none)) (by
        rcases hinner with ⟨error, herror⟩ | ⟨response, -, hresponse⟩
        · exact Or.inl ⟨error, herror⟩
        · exact Or.inr ⟨response, hresponse⟩)
  rcases hhandled with ⟨error, herror⟩ | ⟨response, headers, hran, hstatus, hbuffered, hchecked,
    hheaders⟩
  · rw [herror]
    exact ⟨_, rfl, Or.inl (failedMapped_engineError error requestId verbose)⟩
  · rcases hinner with ⟨error, herror⟩ | ⟨response', hrun, hresponse⟩
    · rw [herror] at hran
      contradiction
    · obtain rfl : response' = response := Handled.responded.inj (hresponse.symm.trans hran)
      rw [hchecked]
      obtain ⟨mapped, hmapped, hseen⟩ := mapResponse_kept env routes path response' headers
        requestHeaders requestId verbose hstatus hbuffered hheaders
      refine ⟨mapped, hmapped, ?_⟩
      rcases hseen with herror | hkept
      · exact Or.inl herror
      · exact Or.inr ⟨response', hrun, hkept⟩

end Mapped

section Routes

/-- The methods that `Allow` lists for a request that no route answers. -/
structure Listed (routes : List Route) (method path : String) (allowed : List String) : Prop where
  mem_iff : ∀ listed, listed ∈ allowed ↔
    ∃ route ∈ routes, route.Matches path ∧ route.method = listed
  nonempty : (∃ route ∈ routes, route.Matches path) → allowed ≠ []
  nodup : allowed.Nodup
  ordered : allowed.Pairwise (DeclaredBefore routes path)
  excludes : method ∉ allowed ∧ asciiUpper method ∉ allowed

theorem allowedMethods_listed (routes : List Route) (method path : String)
    (haccepted : ∀ route ∈ routes, RouteAccepted route)
    (hnone : matchRoute routes (asciiUpper method) path = none) :
    Listed routes method path (allowedMethods routes path) := by
  have hupper : ∀ route ∈ routes, asciiUpper route.method = route.method := by
    intro route hroute
    exact asciiUpper_httpMethods _ (haccepted route hroute).method_mem
  have hmem : ∀ listed, listed ∈ allowedMethods routes path ↔
      ∃ route ∈ routes, route.Matches path ∧ route.method = listed := by
    intro listed
    rw [mem_allowedMethods]
    constructor
    · intro h
      obtain ⟨route, hroute, hmatches, hlisted⟩ := h
      exact ⟨route, hroute, hmatches, (hupper route hroute).symm.trans hlisted⟩
    · intro h
      obtain ⟨route, hroute, hmatches, hlisted⟩ := h
      exact ⟨route, hroute, hmatches, (hupper route hroute).trans hlisted⟩
  have hother : asciiUpper method ∉ allowedMethods routes path := by
    intro hlisted
    obtain ⟨route, hroute, hmatches, hmethod⟩ := (hmem _).mp hlisted
    have hroutes := (matchRoute_none routes (asciiUpper method) path).mp hnone
    have htwice : route.method = asciiUpper (asciiUpper method) := by
      rw [← hmethod, hupper route hroute]
    exact hroutes route hroute htwice hmatches
  refine ⟨hmem, allowedMethods_ne_nil routes path, allowedMethods_nodup routes path,
    allowedMethods_ordered routes path, ?_, hother⟩
  intro hlisted
  obtain ⟨route, hroute, -, hmethod⟩ := (hmem method).mp hlisted
  have hsame : asciiUpper method = method := by
    rw [← hmethod]
    exact hupper route hroute
  rw [hsame] at hother
  exact hother hlisted

/-- A request that a route answers runs no fallback. -/
theorem routeRequest_matched (env : Env) (now : ℕ) (routes : List Route)
    (fallback other : Option Fallback) (run otherRun : ScriptJob → ScriptRun Pipe)
    (prepare : Params → Preparation) (method path : String)
    (hmatched : matchRoute routes (asciiUpper method) path ≠ none)
    (hrun : ∀ job, job.matchKind = "route" → otherRun job = run job) :
    routeRequest env now routes other otherRun prepare method path =
      routeRequest env now routes fallback run prepare method path := by
  unfold routeRequest
  cases hfound : matchRoute routes (asciiUpper method) path with
  | none => contradiction
  | some found =>
    simp only
    cases hroute : routes[found.routeIndex]? with
    | none => rfl
    | some route =>
      simp only
      cases hprepared : prepare found.params with
      | ready requestBodyBytes upload =>
        unfold runScriptInner
        rw [hrun _ rfl]
      | upload failure requestBodyBytes => rfl
      | bodyTooLarge requestBodyBytes => rfl
      | elapsed contentLength => rfl

theorem routeRequest_unmatched (env : Env) (now : ℕ) (routes : List Route) (fallback : Fallback)
    (run : ScriptJob → ScriptRun Pipe) (prepare : Params → Preparation) (method path : String)
    (hnone : matchRoute routes (asciiUpper method) path = none) :
    routeRequest env now routes (some fallback) run prepare method path =
      runFallback env now run fallback (matchKind (allowedMethods routes path))
        (allowedMethods routes path) := by
  unfold routeRequest
  rw [hnone]

/-- How the fallback of an accepted configuration answers. -/
theorem fallback_answers (p : Platform) (parse : String → Except String Toml)
    (configPath : String) (text : Except String String) (config : Config) (fallback : Fallback)
    (hload : load p parse configPath text = .ok config)
    (hfallback : config.fallback = some fallback) (env : Env) (now : ℕ)
    (run : ScriptJob → ScriptRun Pipe) (prepare : Params → Preparation) (method path : String)
    (requestHeaders : HeaderMap) (requestId : String) (verbose : Bool) :
    (matchRoute config.routes (asciiUpper method) path ≠ none →
      ∀ other otherRun, (∀ job, job.matchKind = "route" → otherRun job = run job) →
        routeRequest env now config.routes other otherRun prepare method path =
          routeRequest env now config.routes config.fallback run prepare method path) ∧
    (matchRoute config.routes (asciiUpper method) path = none →
      Listed config.routes method path (allowedMethods config.routes path) ∧
        ∃ mapped, mapHandled env (routeRequest env now config.routes config.fallback run prepare
            method path).handled requestHeaders requestId verbose = some mapped ∧
          (EngineError mapped ∨ ∃ response,
            (run ⟨fallback.script, ∅, matchKind (allowedMethods config.routes path),
              allowedMethods config.routes path⟩).outcome.response = some response ∧
            Kept env config.routes path response mapped)) := by
  obtain ⟨-, haccepted⟩ := load_accepted p parse configPath text config hload
  constructor
  · intro hmatched other otherRun hrun
    exact routeRequest_matched env now config.routes config.fallback other run otherRun prepare
      method path hmatched hrun
  · intro hnone
    rw [hfallback, routeRequest_unmatched env now config.routes fallback run prepare method path
      hnone]
    exact ⟨allowedMethods_listed config.routes method path haccepted hnone,
      runFallback_mapped env now run fallback config.routes path requestHeaders requestId verbose⟩

theorem fallback_answers_post :
    let parse : String → Except String Toml := fun _ => .ok (.table [
      ("config_version", .string "1"), ("server", .table []),
      ("files", .table [("root", .string "f")]),
      ("fallback", .table [("script", .string "e.js")]),
      ("routes", .array [.table [("method", .string "get"), ("path", .string "/a"),
        ("script", .string "a.js")]])])
    let platform : Platform := ⟨fun _ => true, fun _ path => path, id, fun _ => some "js",
      fun _ => true, fun _ => true, some, id⟩
    let env : Env := ⟨HeaderGrammar.letters, id, fun elapsed => UInt64.ofNat elapsed⟩
    let run : ScriptJob → ScriptRun Unit := fun job =>
      ⟨⟨some ⟨405, [("ALLOW", "no"), ("A", job.matchKind)], .text "no"⟩, [], none⟩, [], []⟩
    ∃ config fallback, load platform parse "c.toml" (.ok "") = .ok config ∧
      config.fallback = some fallback ∧
        Listed config.routes "POST" "/a" (allowedMethods config.routes "/a") ∧
          ∃ mapped, mapHandled env (routeRequest env 0 config.routes config.fallback run
              (fun _ => .ready none .null) "POST" "/a").handled [] "r" false = some mapped ∧
            (EngineError mapped ∨ ∃ response,
              (run ⟨fallback.script, ∅, matchKind (allowedMethods config.routes "/a"),
                allowedMethods config.routes "/a"⟩).outcome.response = some response ∧
              Kept env config.routes "/a" response mapped) := by
  intro parse platform env run
  refine ⟨_, _, rfl, rfl, ?_⟩
  exact (fallback_answers platform parse "c.toml" (.ok "") _ _ rfl rfl env 0 run
    (fun _ => .ready none .null) "POST" "/a" [] "r" false).2 rfl

end Routes

end StuntDouble.Server
