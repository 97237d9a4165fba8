import StuntDouble.Fallback
import StuntDouble.FileRelay
import StuntDouble.FirstCall
import StuntDouble.RequestViews

/-!
The way of a response from `ctx.respond` to the client. The call checks it before it records
it; the parent looks at every part of the record again, and the server validates the headers
once more. Over a whole run the later checks find nothing that the first ones let pass, so that
the client gets what the script gave.
-/
namespace StuntDouble.Prelude

open Files Http Server JsonText Machine Script

section Records

variable {Pipe File : Type}

/-- A body as the parent finds it; a handle claims its stream. -/
def Resolved (fileHost uploadHost : Option (Streams File)) :
    RecordedBody → ResponseBody Pipe File → Prop
  | .text text, sent => ∃ found, toText text = some found ∧ sent = .text found
  | .bytes bytes, sent | .array _ bytes, sent => sent = .bytes bytes
  | .handle (.file handle), sent =>
    ∃ streams file, fileHost = some streams ∧ streams[handle]? = some (some file) ∧
      sent = .file file
  | .handle (.upload handle), sent =>
    ∃ streams file, uploadHost = some streams ∧ streams[handle]? = some (some file) ∧
      sent = .file file

theorem headerRows_read (headers : List (String × String)) :
    (headers.map fun header => Json.array [.string header.1, .string header.2]).filterMap
      parseHeaderRow = headers := by
  induction headers with
  | nil => rfl
  | cons header rest ih =>
    rw [List.map_cons, List.filterMap_cons_some (show parseHeaderRow _ = some header from rfl), ih]

theorem parseScriptHeaders_rows {record : Json} {headers : List (String × String)}
    (h : record.get "headers" = some (headersJson headers)) :
    parseScriptHeaders record = headers := by
  rw [parseScriptHeaders, h]
  exact headerRows_read headers

theorem claimStream_found {streams : Streams File} {handle : ℕ} {file : File}
    (h : streams[handle]? = some (some file)) (missingHost missingStream : String) :
    claimStream (some streams) missingHost missingStream handle =
      .ok (.file file : ResponseBody Pipe File) := by
  simp only [claimStream, takeStream, h]

theorem parseScriptBody_recorded {status : ℕ} {headers : List (String × String)}
    {body : RecordedBody} {sent : ResponseBody Pipe File} (pipeStream : Option Pipe)
    {fileHost uploadHost : Option (Streams File)}
    (hbytes : ∀ bytes, (body = .bytes bytes ∨ ∃ id, body = .array id bytes) →
      ∀ byte ∈ bytes, byte ≤ 255) (h : Resolved fileHost uploadHost body sent) :
    parseScriptBody (asRecorded (.response status headers body)) pipeStream fileHost uploadHost =
      .ok sent := by
  have hread {bytes : List ℕ} (hsmall : ∀ byte ∈ bytes, byte ≤ 255) :
      (bytes.map Json.nat).filterMap parseByte = bytes := by
    induction bytes with
    | nil => rfl
    | cons byte rest ih =>
      have hbyte : parseByte (.nat byte) = some byte := by
        have hle : byte ≤ 255 := hsmall byte (by simp)
        simp [parseByte, Json.asU64, hle]
      rw [List.map_cons, List.filterMap_cons_some hbyte,
        ih fun other hother => hsmall other (List.mem_cons_of_mem _ hother)]
  rw [asRecorded]
  cases body with
  | text text =>
    obtain ⟨found, hfound, rfl⟩ := h
    rw [bodyJson, hfound]
    rfl
  | bytes bytes =>
    obtain rfl : sent = .bytes bytes := h
    exact congrArg (fun read => Except.ok (ResponseBody.bytes read))
      (hread (hbytes bytes (Or.inl rfl)))
  | array id bytes =>
    obtain rfl : sent = .bytes bytes := h
    exact congrArg (fun read => Except.ok (ResponseBody.bytes read))
      (hread (hbytes bytes (Or.inr ⟨id, rfl⟩)))
  | handle handle =>
    cases handle with
    | file handle =>
      obtain ⟨streams, file, rfl, hfound, rfl⟩ := h
      exact claimStream_found hfound "ctx.file.stream: file access was not recorded"
        "ctx.file.stream: handle was not recorded"
    | upload handle =>
      obtain ⟨streams, file, rfl, hfound, rfl⟩ := h
      exact claimStream_found hfound "ctx.request.files: upload access was not recorded"
        "ctx.request.files: upload stream was not recorded"

/-- The parent takes a response that was checked for what it is. -/
theorem parseHostRecord_recorded {env : Env} {matchKind : String} {status : ℕ}
    {headers : List (String × String)} {body : RecordedBody} {sent : ResponseBody Pipe File}
    (hchecked : Checked env matchKind status headers body) (host : Json)
    (hhost : host.get "response" = some (asRecorded (.response status headers body)))
    (pipeStream : Option Pipe) {fileHost uploadHost : Option (Streams File)}
    (h : Resolved fileHost uploadHost body sent) :
    (parseHostRecord host pipeStream fileHost uploadHost).response =
      some ⟨status, headers, sent⟩ := by
  obtain ⟨hlow, hhigh⟩ := hchecked.status_range
  have hresponse : recordedResponse host = some (asRecorded (.response status headers body)) := by
    rw [recordedResponse, hhost, asRecorded]
    rfl
  have hstatus : recordedStatus (asRecorded (.response status headers body)) = some status := by
    rw [asRecorded]
    show (some status).filter _ = _
    rw [Option.filter_some, if_pos (decide_eq_true (show status < 2 ^ 16 by omega))]
  have hheaders : parseScriptHeaders (asRecorded (.response status headers body)) = headers := by
    apply parseScriptHeaders_rows
    rw [asRecorded]
    rfl
  unfold parseHostRecord
  simp only [hresponse, hstatus, hheaders,
    parseScriptBody_recorded pipeStream hchecked.bytes h]
  rfl

end Records

section Runs

variable (H Pipe File : Type) {env : Env} {matchKind : String}
  (readFloat : List Char → Option UInt64) (readError : List Char → String)

/-- The final result of a script that ran to its end has the response that it left, also when
it is read off the wire. -/
theorem record_delivered {readArray : ℕ → Tree} {realm : Realm} {response : Recorded}
    (h : Sound env matchKind readArray realm) (hresponse : realm.response = some response) :
    ∃ record, runJob (evaluateInWorker readFloat readError realm
        (.finished (responseTree readArray realm))) = some (.success record) ∧
      Arrives (.success record) ∧
      record.get "response" = some (asRecorded response) := by
  obtain ⟨⟨value, htree, hdepth, hvalue⟩, ⟨hplain, hordered⟩, hshallow⟩ :=
    h.readAs readFloat hresponse
  obtain ⟨entries, hentries⟩ :=
    Option.isSome_iff_exists.mp ((mapM_textOf_isSome_iff realm.logs).mpr h.logs)
  have hevaluated : evaluateInWorker readFloat readError realm
      (.finished (responseTree readArray realm)) = .ok (recordOf value entries).toValue := by
    rw [evaluateInWorker, fromStr_extract, responseTree, hresponse, htree, hentries,
      Option.filter_some]
    simp only [decide_eq_true hdepth, if_true, Option.bind_some, Option.map_some]
  have hkeys : "logs" < "response" := by decide
  obtain ⟨hlogPlain, hlogOrdered⟩ := records_payload entries
  rw [recordOf_toValue, hvalue] at hevaluated
  refine ⟨_, congrArg runJob hevaluated, arrives_of_shallow ⟨⟨hlogPlain, hplain, trivial⟩,
    List.pairwise_pair.mpr hkeys, hlogOrdered, hordered, trivial⟩ ?_, rfl⟩
  have hlogs := depthItems_records entries
  show max 0 (max 0 (max (max (depthItems (entries.map recordJson) + 1)
    (max (depth (asRecorded response)) 0) + 1) 0)) + 1 ≤ 127
  omega

/-- A script that ran to its end with a response, and whose record can be read back. -/
structure Responded (env : Env) (matchKind : String) (actions : List Action)
    (readArray : ℕ → Tree) (status : ℕ) (headers : List (String × String))
    (body : RecordedBody) : Prop where
  recordable : Along (step env matchKind) (Recordable readArray) Realm.start actions
  response : (after env matchKind actions).response = some (.response status headers body)

/-- The parent makes of the final result what the script gave. -/
theorem Responded.finished {actions : List Action} {readArray : ℕ → Tree} {status : ℕ}
    {headers : List (String × String)} {body : RecordedBody}
    (h : Responded env matchKind actions readArray status headers body) :
    ∃ record, runJob (evaluateInWorker readFloat readError (after env matchKind actions)
        (.finished (responseTree readArray (after env matchKind actions)))) =
          some (.success record) ∧
      Arrives (.success record) ∧
      ∀ (ops : HostOps H Pipe File) (pump : Pump H) (sent : ResponseBody Pipe File),
        Resolved (ops.takeStreams pump.host).1.2.1 (ops.takeStreams pump.host).1.2.2 body sent →
          (finishOutcome ops (.success record) pump).outcome.response =
            some ⟨status, headers, sent⟩ := by
  have hsound := sound_after h.recordable
  have hchecked := hsound.checked.response status headers body h.response
  obtain ⟨record, hrecord, hwire, hget⟩ := record_delivered readFloat readError hsound h.response
  refine ⟨record, hrecord, hwire, ?_⟩
  intro ops pump sent hsent
  exact parseHostRecord_recorded hchecked record hget _ hsent

end Runs

section Answers

variable {Pipe : Type} (env : Env)

/-- The headers of a script as lines, before names are put into lower case. -/
def scriptLines (headers : List (String × String)) : List (String × HeaderValue) :=
  headers.map fun header => (header.1, Utf8.encode header.2)

theorem validatedHeaderPairs_eq {headers : List (String × String)}
    {pairs : List (String × HeaderValue)} (h : validatedHeaderPairs env headers = .ok pairs) :
    pairs = (scriptLines headers).map fun line => (asciiLower line.1, line.2) := by
  induction headers generalizing pairs with
  | nil => exact (Except.ok.inj h).symm
  | cons header rest ih =>
    obtain ⟨name, value⟩ := header
    rw [validatedHeaderPairs] at h
    cases hname : env.grammar.name name with
    | none =>
      rw [hname] at h
      cases h
    | some parsed =>
      rw [hname] at h
      simp only at h
      split at h
      · cases hrest : validatedHeaderPairs env rest with
        | error message =>
          rw [hrest] at h
          cases h
        | ok others =>
          rw [hrest] at h
          obtain rfl := Except.ok.inj h
          rw [env.grammar.name_lower name parsed hname, ih hrest]
          rfl
      · cases h

/-- Headers that are valid are all sent: for each name its values, in the order of the script. -/
theorem responseHeaders_lines {headers : List (String × String)}
    (h : ∃ pairs, validatedHeaderPairs env headers = .ok pairs) :
    ∃ mapped, responseHeaders env headers = .ok mapped ∧
      ∀ name, mapped.getAll name = valuesOf (scriptLines headers) name := by
  obtain ⟨pairs, hpairs⟩ := h
  refine ⟨Upstream.headerMap (scriptLines headers), ?_, (headerMap_getAll _).2⟩
  rw [responseHeaders, hpairs, validatedHeaderPairs_eq env hpairs, Except.map, List.foldl_map]
  rfl

/-- The response that the client gets is the one that the script gave. -/
structure Replied (status : ℕ) (lines : List (String × HeaderValue))
    (body : ResponseBody Pipe FileBody) (mapped : Mapped Pipe) : Prop where
  scripted : mapped.errorClass = ""
  buffered : isStream body = false → mapped.status = status ∧
    mapped.body = .ready (bodyBytes body) ∧
      ∀ name, mapped.headers.getAll name = valuesOf lines name
  file : ∀ file, body = .file file →
    (∀ name, name ∉ framingNames → mapped.headers.getAll name = valuesOf lines name) ∧
      ((mapped.status = 416 ∧ mapped.body = .ready []) ∨
        (mapped.status = 200 ∨ mapped.status = 206) ∧ ∃ sent, mapped.body = .file sent ∧
          sent.content = file.content ∧ sent.call = file.call)
  stream : ∀ pipe, body = .stream pipe → mapped.status = status ∧ mapped.body = .stream pipe ∧
    ∀ name, mapped.headers.getAll name = valuesOf lines name

/-- A buffered response, with the headers that it is sent with. -/
theorem mapResponse_buffered_replied (response : ScriptResponse Pipe FileBody)
    (hbuffered : isStream response.body = false)
    (hstatus : 100 ≤ response.status ∧ response.status ≤ 599)
    (hvalid : ∃ pairs, validatedHeaderPairs env response.headers = .ok pairs)
    (requestHeaders : HeaderMap) (requestId : String) (verbose : Bool) :
    ∃ mapped, mapResponse env response requestHeaders requestId verbose = some mapped ∧
      Replied response.status (scriptLines response.headers) response.body mapped := by
  obtain ⟨values, hheaders, hvalues⟩ := responseHeaders_lines env hvalid
  have hsame : scriptStatus response.status = response.status := if_pos (by omega)
  obtain ⟨status, headers, body⟩ := response
  unfold mapResponse
  simp only [hheaders]
  cases body with
  | text text => exact ⟨_, rfl, rfl, fun _ => ⟨hsame, rfl, hvalues⟩, nofun, nofun⟩
  | bytes bytes => exact ⟨_, rfl, rfl, fun _ => ⟨hsame, rfl, hvalues⟩, nofun, nofun⟩
  | stream pipe => cases hbuffered
  | file file => cases hbuffered

theorem visible_joined {words : List String} (h : ∀ word ∈ words, Visible word) :
    Visible (Configuration.joined words) := by
  have hcomma : Visible ", " := by decide
  induction words with
  | nil => exact fun c hc => by cases hc
  | cons word rest ih =>
    have hword := h word (by simp)
    have hrest := ih fun other hother => h other (List.mem_cons_of_mem _ hother)
    cases rest with
    | nil => exact hword
    | cons other rest =>
      rw [Configuration.joined, String.intercalate_cons_cons]
      exact (hword.append hcomma).append hrest

theorem visible_allowedMethods {routes : List Matcher.Route}
    (hroutes : ∀ route ∈ routes, Configuration.RouteAccepted route) (path : String) :
    ∀ method ∈ Matcher.allowedMethods routes path, Visible method := by
  have hall : ∀ method ∈ Configuration.httpMethods, Visible method := by decide
  intro method hmethod
  obtain ⟨route, hroute, -, rfl⟩ := (Matcher.mem_allowedMethods routes path method).mp hmethod
  have hmem := (hroutes route hroute).method_mem
  rw [Configuration.asciiUpper_httpMethods _ hmem]
  exact hall _ hmem

theorem valuesOf_append (front back : List (String × HeaderValue)) (name : String) :
    valuesOf (front ++ back) name = valuesOf front name ++ valuesOf back name := by
  rw [valuesOf, List.filter_append, List.map_append]
  rfl

theorem checkHostOwnedAllow_fresh {headers : List (String × String)}
    (h : checkHostOwnedAllow "method_not_allowed" headers = true) :
    headers.filter notAllow = headers ∧ valuesOf (scriptLines headers) "allow" = [] := by
  rw [checkHostOwnedAllow, beq_self_eq_true, Bool.true_and, Bool.not_eq_true',
    List.any_eq_false] at h
  have hlower : asciiLower "allow" = "allow" := by decide
  constructor
  · apply List.filter_eq_self.mpr
    intro header hheader
    have hnot := h header hheader
    rw [notAllow, eqIgnoreAsciiCase, hlower, Bool.eq_false_iff.mpr hnot, Bool.not_false]
  · rw [valuesOf, List.map_eq_nil_iff, List.filter_eq_nil_iff]
    intro line hline
    obtain ⟨header, hheader, rfl⟩ := List.mem_map.mp hline
    have hnot := h header hheader
    rw [beq_iff_eq] at hnot
    simpa using hnot

/-- The headers that a response gets when the method is not allowed, name by name. -/
theorem withAllow_lines {headers : List (String × String)} {allowed : List String}
    (hallow : checkHostOwnedAllow "method_not_allowed" headers = true)
    (hvalid : ∃ pairs, validatedHeaderPairs env headers = .ok pairs)
    (hmethods : ∀ method ∈ allowed, Visible method) :
    (∃ pairs, validatedHeaderPairs env (withAllow headers allowed) = .ok pairs) ∧
      ∀ name, valuesOf (scriptLines (withAllow headers allowed)) name =
        if name = "allow" then [Utf8.encode (Configuration.joined allowed)]
        else valuesOf (scriptLines headers) name := by
  obtain ⟨hkept, hfresh⟩ := checkHostOwnedAllow_fresh hallow
  have hheaders : withAllow headers allowed =
      headers ++ [("Allow", Configuration.joined allowed)] := congrArg (· ++ _) hkept
  obtain ⟨pairs, hpairs⟩ := hvalid
  constructor
  · rw [hheaders, validatedHeaderPairs_append, hpairs]
    simp only [validatedHeaderPairs, grammar_allow,
      if_pos (env.grammar.value_visible _ (visible_joined hmethods))]
    exact ⟨_, rfl⟩
  · intro name
    have hlower : asciiLower "Allow" = "allow" := by decide
    have hlines : scriptLines (withAllow headers allowed) = scriptLines headers ++
        [("Allow", Utf8.encode (Configuration.joined allowed))] := by
      rw [hheaders, scriptLines, List.map_append]
      rfl
    rw [hlines, valuesOf_append]
    by_cases hname : name = "allow"
    · subst hname
      rw [if_pos rfl, hfresh, valuesOf, List.filter_cons_of_pos (by simp [hlower])]
      rfl
    · rw [if_neg hname, valuesOf.eq_1 [_],
        List.filter_cons_of_neg (by simp [hlower, Ne.symm hname])]
      exact List.append_nil _

end Answers

section Replies

variable (H Pipe : Type) (env : Env) (readFloat : List Char → Option UInt64)
  (readError : List Char → String)

/-- A fallback whose script ends with a response of the required status and a buffered body
answers with that response, and only the `Allow` of a method that is not allowed is added. -/
theorem fallback_reply_sent {routes : List Matcher.Route} {path : String}
    (hroutes : ∀ route ∈ routes, Configuration.RouteAccepted route) {actions : List Action}
    {readArray : ℕ → Tree} {headers : List (String × String)} {body : RecordedBody}
    (h : Responded env (Server.matchKind (Matcher.allowedMethods routes path)) actions readArray
      (requiredStatus (Server.matchKind (Matcher.allowedMethods routes path))) headers body)
    (hbuffered : ∀ handle, body ≠ .handle handle) :
    ∃ record, runJob (evaluateInWorker readFloat readError
        (after env (Server.matchKind (Matcher.allowedMethods routes path)) actions)
        (.finished (responseTree readArray (after env
          (Server.matchKind (Matcher.allowedMethods routes path)) actions)))) =
            some (.success record) ∧
      Arrives (.success record) ∧
      ∀ (ops : HostOps H Pipe FileBody) (pump : Pump H) (sent : ResponseBody Pipe FileBody),
        Resolved (ops.takeStreams pump.host).1.2.1 (ops.takeStreams pump.host).1.2.2 body sent →
        ∀ (now : ℕ) (fallback : Configuration.Fallback) (run : ScriptJob → ScriptRun Pipe)
          (prepare : Matcher.Params → Preparation) (method : String),
        Matcher.matchRoute routes (asciiUpper method) path = none →
        (∀ job, job.matchKind = Server.matchKind (Matcher.allowedMethods routes path) →
          (run job).outcome = (finishOutcome ops (.success record) pump).outcome) →
        ∀ (requestHeaders : HeaderMap) (requestId : String) (verbose : Bool),
          ∃ mapped, mapHandled env (routeRequest env now routes (some fallback) run prepare method
              path).handled requestHeaders requestId verbose = some mapped ∧
            mapped.errorClass = "" ∧
            mapped.status = requiredStatus
              (Server.matchKind (Matcher.allowedMethods routes path)) ∧
            mapped.body = .ready (bodyBytes sent) ∧
            ∀ name, mapped.headers.getAll name =
              if name = "allow" ∧ Matcher.allowedMethods routes path ≠ [] then
                [Utf8.encode (Configuration.joined (Matcher.allowedMethods routes path))]
              else valuesOf (scriptLines headers) name := by
  generalize hkind : Server.matchKind (Matcher.allowedMethods routes path) = kind at h ⊢
  have hchecked := (sound_after h.recordable).checked.response _ headers body h.response
  obtain ⟨record, hrecord, hwire, hfinished⟩ :=
    h.finished H Pipe FileBody readFloat readError
  refine ⟨record, hrecord, hwire, ?_⟩
  intro ops pump sent hsent now fallback run prepare method hnone hrun requestHeaders requestId
    verbose
  have hplain : isStream sent = false := by
    cases body with
    | text text =>
      obtain ⟨found, -, rfl⟩ := hsent
      rfl
    | bytes bytes | array id bytes => exact congrArg isStream hsent
    | handle handle => exact absurd rfl (hbuffered handle)
  have hfallback : routeRequest env now routes (some fallback) run prepare method path =
      runFallback env now run fallback kind (Matcher.allowedMethods routes path) := by
    rw [routeRequest_unmatched env now routes fallback run prepare method path hnone, hkind]
  have houtcome := hrun ⟨fallback.script, ∅, kind, Matcher.allowedMethods routes path⟩ rfl
  have hran : (runScriptInner run (fallback.name.getD "fallback")
      ⟨fallback.script, ∅, kind, Matcher.allowedMethods routes path⟩ none
      (uploadLog 0 0 none)).handled = .responded ⟨requiredStatus kind, headers, sent⟩ := by
    simp only [runScriptInner, houtcome, hfinished ops pump sent hsent]
  have hvalid : ¬(requiredStatus kind ≠ requiredStatus kind ∨ isStream sent = true) := by
    rw [hplain]
    simp
  have hrange := hchecked.status_range
  rw [hfallback, runFallback, checkFallback, hran]
  simp only [if_neg hvalid]
  by_cases hnotAllowed : kind = "method_not_allowed"
  · have hmethods : Matcher.allowedMethods routes path ≠ [] := by
      intro hempty
      rw [hempty, hnotAllowed] at hkind
      exact absurd hkind (by decide)
    have hallow := hchecked.allow
    rw [hnotAllowed] at hallow
    obtain ⟨hpairs, hlines⟩ := withAllow_lines env hallow hchecked.headers_valid
      (visible_allowedMethods hroutes path)
    rw [if_pos hnotAllowed]
    obtain ⟨mapped, hmapped, hscripted, hsame, -⟩ := mapResponse_buffered_replied env
      ⟨requiredStatus kind,
        withAllow headers (Matcher.allowedMethods routes path), sent⟩
      hplain hrange hpairs requestHeaders requestId verbose
    obtain ⟨hstatus, hbody, hheaders⟩ := hsame hplain
    refine ⟨mapped, hmapped, hscripted, hstatus, hbody, fun name => ?_⟩
    rw [hheaders, hlines]
    by_cases hname : name = "allow"
    · rw [if_pos hname, if_pos ⟨hname, hmethods⟩]
    · rw [if_neg hname, if_neg fun hboth => hname hboth.1]
  · have hmethods : Matcher.allowedMethods routes path = [] := by
      by_contra hsome
      apply hnotAllowed
      rw [← hkind, Server.matchKind, List.isEmpty_eq_false_iff.mpr hsome]
      rfl
    rw [if_neg hnotAllowed, hran]
    obtain ⟨mapped, hmapped, hscripted, hsame, -⟩ := mapResponse_buffered_replied env
      ⟨requiredStatus kind, headers, sent⟩
      hplain hrange hchecked.headers_valid requestHeaders requestId verbose
    obtain ⟨hstatus, hbody, hheaders⟩ := hsame hplain
    refine ⟨mapped, hmapped, hscripted, hstatus, hbody, fun name => ?_⟩
    rw [hheaders, if_neg fun hboth => hboth.2 hmethods]

theorem fallback_reply_sent_post :
    let env : Env := ⟨HeaderGrammar.letters, id, fun elapsed => UInt64.ofNat elapsed⟩
    let ops : HostOps Unit Unit FileBody :=
      ⟨fun host _ => (host, none), fun host => ((none, none, none), host), fun host _ _ => host⟩
    ∃ record, ∀ run : ScriptJob → ScriptRun Unit,
      (∀ job, job.matchKind = "method_not_allowed" →
        (run job).outcome = (finishOutcome ops (.success record) (startPump ())).outcome) →
      ∃ mapped, mapHandled env (routeRequest env 0 [⟨none, "GET", "/a", "a.js"⟩]
          (some ⟨none, "e.js"⟩) run (fun _ => .ready none .null) "POST" "/a").handled [] "r"
            false = some mapped ∧
        mapped.status = 405 ∧ mapped.headers.getAll "allow" = [Utf8.encode "GET"] := by
  intro env ops
  have hroutes : ∀ route ∈ [(⟨none, "GET", "/a", "a.js"⟩ : Matcher.Route)],
      Configuration.RouteAccepted route := by
    intro route hroute
    obtain rfl := List.mem_singleton.mp hroute
    exact ⟨by decide, rfl⟩
  have hresponded : Responded env (Server.matchKind (Matcher.allowedMethods
      [⟨none, "GET", "/a", "a.js"⟩] "/a")) [.respond (.integer 405) (.text (Utf16.encode "no")),
        .headersEnd, .bodyEnd] (fun _ => .null) (requiredStatus (Server.matchKind
          (Matcher.allowedMethods [⟨none, "GET", "/a", "a.js"⟩] "/a"))) []
            (.text (Utf16.encode "no")) := by
    refine ⟨⟨recordable_other nofun nofun nofun, recordable_other nofun nofun nofun,
      ⟨nofun, ?_, nofun⟩, trivial⟩, rfl⟩
    intro frame rest status arg hframes hapi _
    cases hframes
    cases hapi
    exact wellFormed_encode "no"
  obtain ⟨record, -, -, hsent⟩ := fallback_reply_sent Unit Unit env (fun _ => none)
    String.ofList hroutes hresponded nofun
  refine ⟨record, fun run hrun => ?_⟩
  obtain ⟨mapped, hmapped, -, hstatus, -, hheaders⟩ := hsent ops (startPump ()) (.text "no")
    ⟨_, toText_encode "no", rfl⟩ 0
    ⟨none, "e.js"⟩ run _ "POST" rfl hrun [] "r" false
  exact ⟨mapped, hmapped, hstatus, hheaders "allow"⟩

end Replies

end StuntDouble.Prelude
