import StuntDouble.HttpCalls
import StuntDouble.PipeHeaders
import StuntDouble.Replies

/-!
`ctx.http.pipe` from a script to the client. The prelude checks what it is given, the host opens
the body of the upstream, and the prelude records the status and the headers that the host has
settled on. The body itself never enters the script.
-/
namespace StuntDouble.Prelude

open Files Http JsonText Machine Script Server Upstream

section Payloads

def pipePayload (url : String) (headers : List (String × String)) (status : Option ℕ) : Tree :=
  .object ([(Utf16.encode "url", .string (Utf16.encode url)),
    (Utf16.encode "headers", headersTree headers)] ++
      (status.map fun status => (Utf16.encode "status", natTree status)).toList)

/-- The members of the payload, as the host finds them. -/
def pipeMembers (url : String) (headers : List (String × String)) (status : Option ℕ) :
    List (String × Json) :=
  [("url", .string url), ("headers", headersJson headers)] ++
    (status.map fun status => ("status", .nat status)).toList

theorem parsePipeRows (headers : List (String × String)) :
    (headers.map fun header => Json.array [.string header.1, .string header.2]).mapM
      parsePipeRow = .ok headers := by
  induction headers with
  | nil => rfl
  | cons header rest ih =>
    rw [List.map_cons, List.mapM_cons, ih]
    rfl

/-- The host takes an object of these members for a call. -/
theorem parsePipeCall_members (debugText : String → String) {json : Json} {url : String}
    {headers : List (String × String)} {status : Option ℕ}
    (hget : ∀ name, json.get name = (pipeMembers url headers status).lookup name)
    (hrange : ∀ code, status = some code → 100 ≤ code ∧ code ≤ 599) :
    parsePipeCall debugText json = .ok ⟨url, status, headers⟩ := by
  have hurl : json.get "url" = some (.string url) := by
    rw [hget]
    rfl
  have hheaders : json.get "headers" = some (headersJson headers) := by
    rw [hget]
    rfl
  have hstatus : json.get "status" = status.map .nat := by
    rw [hget]
    cases status <;> rfl
  have hparsed : parsePipeStatus (status.map Json.nat) = .ok status := by
    cases status with
    | none => rfl
    | some code =>
      have hcode : (Json.nat code).asU64.filter
          (fun status => decide (100 ≤ status ∧ status ≤ 599)) = some code := by
        show (some code).filter _ = _
        rw [Option.filter_some, if_pos (decide_eq_true (hrange code rfl))]
      rw [Option.map_some]
      unfold parsePipeStatus
      simp only [hcode]
  cases json with
  | object entries =>
    have hknown : (entries.find? fun entry => entry.1 ∉ ["url", "status", "headers"]) = none := by
      rw [List.find?_eq_none]
      intro entry hentry hother
      have hnot := of_decide_eq_true hother
      have hnone : entries.lookup entry.1 = none := by
        show Json.get entry.1 (.object entries) = none
        rw [hget, List.lookup_eq_none_iff]
        intro member hmember
        rw [bne_iff_ne]
        intro heq
        apply hnot
        rw [heq]
        rcases List.mem_append.mp hmember with hfixed | hoptional
        · rcases List.mem_pair.mp hfixed with rfl | rfl <;> simp
        · cases status with
          | none => cases hoptional
          | some code =>
            obtain rfl := List.mem_singleton.mp hoptional
            simp
      have hne := List.lookup_eq_none_iff.mp hnone entry hentry
      simp at hne
    have hobject : (Json.object entries).asObject = some entries := rfl
    unfold parsePipeCall
    rw [hobject]
    simp only [hknown, hurl, hstatus, hheaders, hparsed, Option.bind_some, Json.asStr, headersJson,
      parsePipeHeaders, parsePipeRows]
    rfl
  | null | bool _ | number _ | string _ | array _ => cases hurl

variable (readFloat : List Char → Option UInt64)

/-- A call with arguments that were checked reaches the host as it was made. -/
theorem pipePayload_read (url : String) (headers : List (String × String)) {status : Option ℕ}
    (hrange : ∀ code, status = some code → 100 ≤ code ∧ code ≤ 599) :
    ∃ json, fromStr readFloat (stringify (pipePayload url headers status)) = some json ∧
      ∀ debugText, parsePipeCall debugText json = .ok ⟨url, status, headers⟩ := by
  obtain ⟨⟨-, hordered⟩, hdepth⟩ := headersJson_payload headers
  have hentries : entriesToJson readFloat ([(Utf16.encode "url", .string (Utf16.encode url)),
      (Utf16.encode "headers", headersTree headers)] ++
        (status.map fun status => (Utf16.encode "status", natTree status)).toList) =
          some (pipeMembers url headers status) := by
    cases status with
    | none =>
      simp only [Option.map_none, Option.toList_none, List.append_nil, entriesToJson,
        toText_encode, Tree.toJson, headersTree_toJson, Option.bind_some, Option.map_some]
      rfl
    | some code =>
      have hcode := hrange code rfl
      simp only [Option.map_some, Option.toList_some, List.cons_append, List.nil_append,
        entriesToJson, toText_encode, Tree.toJson, headersTree_toJson,
        natTree_toJson readFloat (show code < 2 ^ 64 by omega), Option.bind_some, Option.map_some]
      rfl
  obtain ⟨json, hjson, hget⟩ := fromStr_object readFloat hentries
    (by cases status <;> simp [pipeMembers]) (by
      cases status with
      | none =>
        show max 0 (max (depth (headersJson headers)) 0) + 1 ≤ 127
        omega
      | some code =>
        show max 0 (max (depth (headersJson headers)) (max 0 0)) + 1 ≤ 127
        omega)
  refine ⟨json, hjson, fun debugText => parsePipeCall_members debugText (fun name => ?_) hrange⟩
  rw [hget]
  have hsame : ∀ member ∈ pipeMembers url headers status, member.2.toValue = member.2 := by
    intro member hmember
    apply Json.toValue_eq
    rcases List.mem_append.mp hmember with hfixed | hoptional
    · rcases List.mem_pair.mp hfixed with rfl | rfl
      · trivial
      · exact hordered
    · cases status with
      | none => cases hoptional
      | some code =>
        obtain rfl := List.mem_singleton.mp hoptional
        trivial
  cases hfound : (pipeMembers url headers status).lookup name with
  | none => rfl
  | some value =>
    obtain ⟨front, back, hsplit, -⟩ := List.lookup_eq_some_iff.mp hfound
    exact congrArg some (hsame (name, value) (by simp [hsplit]))

end Payloads

section Runs

variable {env : Env} {matchKind : String}

/-- A call of `ctx.http.pipe` that waits for the answer of the host. -/
def Asking (realm : Realm) (url : String) (status : Option ℕ)
    (headers : List (String × String)) : Prop :=
  ∃ bytes rest, realm.frames = ⟨.pipe url status, .last, headers, bytes⟩ :: rest

theorem completed_stream {realm : Realm} {action : Action} {status : ℕ}
    {headers : List (String × String)}
    (h : completed realm action = some (.stream status headers)) :
    ∃ code : UInt16, status = code.toNat ∧ action = .bridge (some (code, headers)) ∧
      ∃ url asked given, Asking realm url asked given := by
  unfold completed at h
  split at h
  · cases h
  · rename_i frame rest hframes
    split at h
    · obtain ⟨found, -, hsame⟩ := Option.map_eq_some_iff.mp h
      cases hsame
    · rename_i url asked code found hapi hphase
      obtain ⟨rfl, rfl⟩ := Recorded.stream.inj (Option.some.inj h)
      obtain ⟨api, phase, given, bytes⟩ := frame
      obtain rfl : api = .pipe url asked := hapi
      obtain rfl : phase = .last := hphase
      exact ⟨code, rfl, rfl, url, asked, given, bytes, rest, hframes⟩
    · cases h

theorem completed_asking {realm : Realm} {url : String} {asked : Option ℕ}
    {given : List (String × String)} (h : Asking realm url asked given) (code : UInt16)
    (headers : List (String × String)) :
    completed realm (.bridge (some (code, headers))) = some (.stream code.toNat headers) := by
  obtain ⟨bytes, rest, hframes⟩ := h
  rw [completed, hframes]

variable {readArray : ℕ → Tree}

/-- A streamed response that a script leaves is the answer to a call that it has made. -/
theorem streamed_answer {actions : List Action}
    (hrecordable : Along (step env matchKind) (Recordable readArray) Realm.start actions)
    {status : ℕ} {headers : List (String × String)}
    (h : (after env matchKind actions).response = some (.stream status headers)) :
    ∃ (code : UInt16) (past future : List Action) (url : String) (asked : Option ℕ)
      (given : List (String × String)), status = code.toNat ∧
        actions = past ++ .bridge (some (code, headers)) :: future ∧
        Asking (after env matchKind past) url asked given := by
  induction actions using List.reverseRecOn with
  | nil => cases h
  | append_singleton actions action ih =>
    obtain ⟨hpast, hlast, -⟩ := along_append.mp hrecordable
    have hstep := (@step_response env matchKind (after env matchKind actions) action
      hlast.own).2
    rw [after_snoc, hstep] at h
    cases hcompleted : completed (after env matchKind actions) action with
    | none =>
      rw [hcompleted, Option.none_or] at h
      obtain ⟨code, past, future, url, asked, given, hcode, rfl, hasking⟩ := ih hpast h
      exact ⟨code, past, future ++ [action], url, asked, given, hcode, by simp, hasking⟩
    | some response =>
      rw [hcompleted, Option.some_or] at h
      obtain rfl := Option.some.inj h
      obtain ⟨code, hcode, rfl, url, asked, given, hasking⟩ := completed_stream hcompleted
      exact ⟨code, actions, [], url, asked, given, hcode, rfl, hasking⟩

/-- The arguments of a call that waits for its answer have been checked. -/
theorem asking_checked {realm : Realm} (hchecked : RealmChecked env matchKind realm) {url : String}
    {asked : Option ℕ} {given : List (String × String)} (h : Asking realm url asked given) :
    (∀ code, asked = some code → 100 ≤ code ∧ code ≤ 599) ∧
      ∃ pairs, validatedHeaderPairs env given = .ok pairs := by
  obtain ⟨bytes, rest, hframes⟩ := h
  have hframe := hchecked.frames _ (hframes ▸ List.mem_cons_self)
  exact ⟨hframe.status_range, (checkedHeaders_valid (hframe.headers rfl)).1⟩

/-- A response stays, and no call waits for the host any more. -/
theorem asking_over {actions : List Action}
    (h : Along (step env matchKind) (Orderly readArray) Realm.start actions)
    {past later : List Action} (hactions : actions = past ++ later)
    (hsome : (after env matchKind past).response ≠ none) :
    (after env matchKind actions).response ≠ none ∧
      ∀ url asked given, ¬ Asking (after env matchKind actions) url asked given := by
  have hstays : (after env matchKind actions).response ≠ none := by
    subst hactions
    induction later using List.reverseRecOn with
    | nil => rwa [List.append_nil]
    | append_singleton later action ih =>
      rw [← List.append_assoc] at h ⊢
      obtain ⟨hearlier, horderly, -⟩ := along_append.mp h
      rw [after_snoc, (step_response horderly.own).2]
      cases completed (after env matchKind (past ++ later)) action with
      | none => exact ih hearlier
      | some response => exact Option.some_ne_none response
  refine ⟨hstays, ?_⟩
  rintro url asked given ⟨bytes, rest, hframes⟩
  have hresponds := alone_after h hstays _ (hframes ▸ List.mem_cons_self)
  cases hresponds

end Runs

section Answers

variable {Url Pipe File : Type} (env : Env)

/-- What the prelude takes from the answer of the host. -/
def pipeReply : Except Raised Json → Option (ℕ × List (String × String))
  | .error _ => none
  | .ok result =>
    ((result.get "status").bind Json.asU64).map fun status => (status, parseScriptHeaders result)

/-- The parent takes a streamed response for what it is. -/
theorem parseHostRecord_streamed {status : ℕ} {headers : List (String × String)}
    (hstatus : status ≤ 599) (host : Json)
    (hhost : host.get "response" = some (asRecorded (.stream status headers))) (pipe : Pipe)
    (fileHost uploadHost : Option (Streams File)) :
    (parseHostRecord host (some pipe) fileHost uploadHost).response =
      some ⟨status, headers, .stream pipe⟩ := by
  have hresponse : recordedResponse host = some (asRecorded (.stream status headers)) := by
    rw [recordedResponse, hhost]
    rfl
  have hfound : recordedStatus (asRecorded (.stream status headers)) = some status := by
    show (some status).filter _ = _
    rw [Option.filter_some, if_pos (decide_eq_true (show status < 2 ^ 16 by omega))]
  have hheaders : parseScriptHeaders (asRecorded (.stream status headers)) = headers :=
    parseScriptHeaders_rows rfl
  have hbody : parseScriptBody (asRecorded (.stream status headers)) (some pipe) fileHost
      uploadHost = .ok (.stream pipe) := rfl
  unfold parseHostRecord
  simp only [hresponse, hfound, hheaders, hbody]
  rfl

theorem validatedHeaderPairs_ok {headers : List (String × String)}
    (h : ∀ header ∈ headers, (∃ parsed, env.grammar.name header.1 = some parsed) ∧
      env.grammar.value header.2 = true) :
    ∃ pairs, validatedHeaderPairs env headers = .ok pairs := by
  induction headers with
  | nil => exact ⟨[], rfl⟩
  | cons header rest ih =>
    obtain ⟨⟨parsed, hname⟩, hvalue⟩ := h header List.mem_cons_self
    obtain ⟨pairs, hpairs⟩ := ih fun other hother => h other (List.mem_cons_of_mem _ hother)
    exact ⟨(parsed, Utf8.encode header.2) :: pairs, by
      simp only [validatedHeaderPairs, hname, hvalue, if_true, hpairs, Except.map]⟩

/-- The headers that the host takes over from the upstream are valid too, if a text that is read
from a header value is one. -/
theorem merged_valid
    (hgrammar : ∀ (value : HeaderValue) text, value.toStr = some text →
      env.grammar.value text = true) {given relayed : List (String × String)}
    {lines : List (String × HeaderValue)} (hrelayed : Relayed given lines relayed)
    (hgiven : ∃ pairs, validatedHeaderPairs env given = .ok pairs) :
    ∃ pairs, validatedHeaderPairs env (given ++ relayed) = .ok pairs := by
  have hname {name : String} (hname : name ∈ bodyNames) :
      ∃ parsed, env.grammar.name name = some parsed := by
    have hletters : ∀ name ∈ bodyNames, name ≠ "" ∧ name.utf8ByteSize < 2 ^ 15 ∧
        name.toList.all (fun c => c.isAlpha || c == '-') = true := by decide
    obtain ⟨hne, hsize, hall⟩ := hletters name hname
    refine ⟨_, env.grammar.name_letters name hne hsize ?_⟩
    intro c hc
    simpa using List.all_eq_true.mp hall c hc
  have hback : ∃ pairs, validatedHeaderPairs env relayed = .ok pairs := by
    apply validatedHeaderPairs_ok
    rintro ⟨name, value⟩ hheader
    obtain ⟨hbody, -, hfirst⟩ := (hrelayed.mem_iff name value).mp hheader
    obtain ⟨line, -, htext⟩ := List.exists_of_findSome?_eq_some hfirst
    exact ⟨hname hbody, hgrammar line.2 value htext⟩
  obtain ⟨front, hfront⟩ := hgiven
  obtain ⟨back, hback⟩ := hback
  exact ⟨front ++ back, by rw [validatedHeaderPairs_append, hfront, hback]; rfl⟩

theorem mapResponse_streamed {status : ℕ} {headers : List (String × String)}
    (hstatus : 100 ≤ status ∧ status ≤ 599)
    (hvalid : ∃ pairs, validatedHeaderPairs env headers = .ok pairs) (pipe : Pipe)
    (requestHeaders : HeaderMap) (requestId : String) (verbose : Bool) :
    ∃ mapped, mapResponse env ⟨status, headers, .stream pipe⟩ requestHeaders requestId verbose =
        some mapped ∧ Replied status (scriptLines headers) (.stream pipe) mapped := by
  obtain ⟨values, hheaders, hvalues⟩ := responseHeaders_lines env hvalid
  have hsame : scriptStatus status = status := if_pos (by omega)
  unfold mapResponse
  simp only [hheaders]
  refine ⟨_, rfl, rfl, nofun, nofun, ?_⟩
  intro found hfound
  obtain rfl := ResponseBody.stream.inj hfound
  exact ⟨hsame, rfl, hvalues⟩

end Answers

section Replies

variable {Url : Type} (env : Env) (readFloat : List Char → Option UInt64)
  (readError : List Char → String) {floatText : UInt64 → String}

/-- What the host makes of a call that was checked, when its answer is a reply. -/
theorem pipeReply_answered {world : HostWorld Url} {host : HostState} {access : Access}
    (haccess : host.upstream = some access) {payload : Tree} {json : Json}
    (hread : fromStr readFloat (stringify payload) = some json) {url : String}
    {asked : Option ℕ} {given : List (String × String)}
    (hparsed : parsePipeCall world.lib.debugText json = .ok ⟨url, asked, given⟩)
    (hrange : ∀ code, asked = some code → 100 ≤ code ∧ code ≤ 599) {status : ℕ}
    {headers : List (String × String)}
    (h : pipeReply (callBridge readFloat (serveHost floatText readFloat env world host .httpPipe
      payload).2 "ctx.http.pipe") = some (status, headers)) :
    ∃ answer relayed body,
      pipeAnswered world.lib access (world.upstream host.turn) json = some answer ∧
        status = asked.getD answer.status ∧ (100 ≤ status ∧ status ≤ 599) ∧
          headers = given ++ relayed ∧ Relayed given (headerLines answer.headers) relayed ∧
            (serveHost floatText readFloat env world host .httpPipe payload).1.pipe = some body ∧
              body.stream = pumpBody answer.reads := by
  cases hresult : (Upstream.pipe world.lib access (world.upstream host.turn) env.elapsedMs json
      host.calls).result with
  | error error =>
    have hdispatch : (host.dispatch env world ⟨.httpPipe, json⟩).2 =
        some (upstreamErrorJson error) := by
      simp only [HostState.dispatch, haccess, hresult]
    obtain ⟨-, hanswer⟩ := serveHost_answered floatText readFloat env hread
      (Prod.ext rfl hdispatch) (plain_upstreamErrorJson error) "ctx.http.pipe"
    rw [hanswer, readAnswer_upstream] at h
    cases h
  | ok response =>
    obtain ⟨call, index, answer, hcall, hanswered, hanswer⟩ :=
      pipe_ok world.lib access (world.upstream host.turn) env.elapsedMs hresult
    obtain rfl := Except.ok.inj (hparsed.symm.trans hcall)
    obtain ⟨relayed, hmerged, hrelayed⟩ := passthrough_relayed given answer.headers
    rw [pipeAnswer] at hanswer
    split at hanswer
    · rename_i hok
      obtain rfl := Except.ok.inj hanswer
      have hcode : 100 ≤ asked.getD answer.status ∧ asked.getD answer.status ≤ 599 := by
        cases asked with
        | none =>
          show 100 ≤ answer.status ∧ answer.status ≤ 599
          omega
        | some code => exact hrange code rfl
      have hmerge : passthrough given answer.headers = given ++ relayed := hmerged
      obtain ⟨⟨hplain, -⟩, -⟩ := headersJson_payload (given ++ relayed)
      let body : PipeBody :=
        ⟨pumpBody answer.reads, ⟨index, (world.upstream host.turn).startedAt, false⟩⟩
      have hdispatch : (host.dispatch env world ⟨.httpPipe, json⟩).2 =
          some (pipeJson ⟨asked.getD answer.status, given ++ relayed, body⟩) := by
        simp only [HostState.dispatch, haccess, hresult, hmerge, body]
      have hpipe : (host.dispatch env world ⟨.httpPipe, json⟩).1.pipe = some body := by
        simp only [HostState.dispatch, haccess, hresult, body]
      obtain ⟨hserved, hreply⟩ := serveHost_answered floatText readFloat env hread
        (Prod.ext rfl hdispatch) ⟨hplain, trivial, show asked.getD answer.status < 2 ^ 64 by omega,
          trivial⟩ "ctx.http.pipe"
      have htaken : pipeReply (callBridge readFloat (serveHost floatText readFloat env world host
          .httpPipe payload).2 "ctx.http.pipe") =
            some (asked.getD answer.status, given ++ relayed) := by
        rw [hreply]
        exact congrArg (fun rows => some (asked.getD answer.status, rows))
          (parseScriptHeaders_rows rfl)
      obtain ⟨rfl, rfl⟩ := Prod.mk.inj (Option.some.inj (htaken.symm.trans h))
      exact ⟨answer, relayed, body, hanswered, rfl, hcode, rfl, hrelayed, by rw [hserved, hpipe],
        rfl⟩
    · cases hanswer

/-- Only a piped call changes the body that the host keeps. -/
theorem dispatch_pipe {world : HostWorld Url} {host : HostState} {call : HostCall}
    (hname : call.name ≠ .httpPipe) : (host.dispatch env world call).1.pipe = host.pipe := by
  unfold HostState.dispatch
  cases hcall : call.name with
  | httpGet => cases host.upstream <;> rfl
  | httpPipe => exact absurd hcall hname
  | file => cases host.files <;> rfl
  | upload => cases host.uploads <;> rfl
  | state | validateHeaders | crypto => rfl

theorem final_pipe {world : HostWorld Url} {host : HostState} {calls : List HostCall}
    (hcalls : ∀ call ∈ calls, call.name ≠ .httpPipe) :
    (final (HostState.dispatch env world) host calls).pipe = host.pipe :=
  final_invariant (HostState.dispatch env world) (fun last => last.pipe = host.pipe)
    (fun call => call.name ≠ .httpPipe)
    (fun _ _ hname hsame => (dispatch_pipe env hname).trans hsame) host rfl calls hcalls

/-- The streamed response that a script of a route leaves is the answer to one of its calls, as
it was made, and no other call waits for the host from then on. Its status is the one asked for
or the upstream's, and its headers are those of the script and behind them what the upstream
says of the body. The client gets that status, these headers and the body of that answer, which
the host keeps through every call but another piped one; none of the checks behind the call
turns it into an error. -/
theorem pipe_reply_sent
    (hgrammar : ∀ (value : HeaderValue) text, value.toStr = some text →
      env.grammar.value text = true) {actions : List Action} {readArray : ℕ → Tree}
    (horderly : Along (step env "route") (Orderly readArray) Realm.start actions) {status : ℕ}
    {headers : List (String × String)}
    (hresponse : (after env "route" actions).response = some (.stream status headers)) :
    ∃ (code : UInt16) (past future : List Action) (url : String) (asked : Option ℕ)
      (given : List (String × String)), status = code.toNat ∧
      actions = past ++ .bridge (some (code, headers)) :: future ∧
      Asking (after env "route" past) url asked given ∧
      (∀ front back, future = front ++ back → ∀ url asked given,
        ¬ Asking (after env "route" (past ++ .bridge (some (code, headers)) :: front)) url asked
          given) ∧
      ∃ payload, fromStr readFloat (stringify (pipePayload url given asked)) = some payload ∧
      ∃ record, runJob (evaluateInWorker readFloat readError (after env "route" actions)
          (.finished (responseTree readArray (after env "route" actions)))) =
            some (.success record) ∧
        Arrives (.success record) ∧
        ∀ (floatText : UInt64 → String) (world : HostWorld Url) (host : HostState)
          (access : Access), host.upstream = some access →
          pipeReply (callBridge readFloat (serveHost floatText readFloat env world host
            .httpPipe (pipePayload url given asked)).2 "ctx.http.pipe") =
              some (status, headers) →
          parsePipeCall world.lib.debugText payload = .ok ⟨url, asked, given⟩ ∧
          ∃ answer relayed,
            pipeAnswered world.lib access (world.upstream host.turn) payload = some answer ∧
            status = asked.getD answer.status ∧ headers = given ++ relayed ∧
            Relayed given (headerLines answer.headers) relayed ∧
            ∀ (later : List HostCall), (∀ call ∈ later, call.name ≠ .httpPipe) →
              ∀ (pump : Pump HostState), pump.host = final (HostState.dispatch env world)
                (serveHost floatText readFloat env world host .httpPipe
                  (pipePayload url given asked)).1 later →
              ∃ pipe : LivePipe, pipe.body.stream = pumpBody answer.reads ∧
                (finishOutcome (hostOps env world) (.success record) pump).outcome.response =
                  some ⟨status, headers, .stream pipe⟩ ∧
                ∀ (requestHeaders : HeaderMap) (requestId : String) (verbose : Bool),
                  ∃ mapped, mapHandled env (.responded ⟨status, headers, .stream pipe⟩)
                      requestHeaders requestId verbose = some mapped ∧
                    Replied status (scriptLines headers) (.stream pipe) mapped := by
  have hrecordable := horderly.imp fun _ _ h => h.toRecordable
  obtain ⟨code, past, future, url, asked, given, hstatus, hsplit, hasking⟩ :=
    streamed_answer hrecordable hresponse
  have hpast := (along_append.mp (hsplit ▸ hrecordable)).1
  obtain ⟨hrange, hgiven⟩ := asking_checked (sound_after hpast).checked hasking
  obtain ⟨payload, hread, hparsed⟩ := pipePayload_read readFloat url given hrange
  obtain ⟨record, hrecord, hwire, hget⟩ :=
    record_delivered readFloat readError (sound_after hrecordable) hresponse
  refine ⟨code, past, future, url, asked, given, hstatus, hsplit, hasking, ?_, payload, hread,
    record, hrecord, hwire, ?_⟩
  · intro front back hfuture
    have hsame : actions = (past ++ .bridge (some (code, headers)) :: front) ++ back := by
      rw [hsplit, hfuture, List.append_assoc, List.cons_append]
    have horderly := (along_append.mp (hsame ▸ horderly)).1
    refine (asking_over horderly (List.append_cons past _ front) ?_).2
    have hbridged := hrecordable
    rw [hsplit] at hbridged
    obtain ⟨-, hbridge, -⟩ := along_append.mp hbridged
    rw [after_snoc, (step_response hbridge.own).2, completed_asking hasking, Option.some_or]
    exact Option.some_ne_none _
  intro floatText world host access haccess hreply
  obtain ⟨answer, relayed, body, hanswered, hcode, hinRange, hheaders, hrelayed, hkept, hstream⟩ :=
    pipeReply_answered env readFloat haccess hread (hparsed _) hrange hreply
  refine ⟨hparsed _, answer, relayed, hanswered, hcode, hheaders, hrelayed, ?_⟩
  intro later hlater pump hpump
  have hpipe : pump.host.pipe = some body := by rw [hpump, final_pipe env hlater, hkept]
  refine ⟨⟨body, pump.host.calls⟩, hstream, ?_, ?_⟩
  · have hrun := parseHostRecord_streamed hinRange.2 record hget
      (⟨body, pump.host.calls⟩ : LivePipe) pump.host.files pump.host.uploads
    have htaken : (pump.host.takeStreams).1 =
        (some ⟨body, pump.host.calls⟩, pump.host.files, pump.host.uploads) := by
      rw [HostState.takeStreams, hpipe]
      rfl
    show (parseHostRecord record pump.host.takeStreams.1.1 pump.host.takeStreams.1.2.1
      pump.host.takeStreams.1.2.2).response = _
    rw [htaken]
    exact hrun
  · have hvalid := merged_valid env hgrammar hrelayed hgiven
    rw [← hheaders] at hvalid
    exact mapResponse_streamed env hinRange hvalid _

/-- A script that pipes a part of a body as the upstream sends it. -/
theorem pipe_reply_sent_partial :
    let env : Env := ⟨{ HeaderGrammar.letters with
      value := fun _ => true, value_visible := fun _ _ => rfl }, id,
        fun elapsed => UInt64.ofNat elapsed⟩
    let actions : List Action := [.pipe (some "a"), .opts .absent, .headersEnd,
      .bridge (some (206, [("content-length", "1")]))]
    let world : HostWorld String :=
      { sampleWorld with
        upstream := fun _ => ⟨fun _ _ _ _ => .ok ⟨206, [("Content-Length", [[49]])],
          fun _ => .ok [], [.chunk [1]]⟩, 0, 0, fun _ => 0, 0, 0⟩ }
    let access : Access := ⟨["a"], 1000, 1000, none⟩
    ∃ record, runJob (evaluateInWorker (fun _ => none) String.ofList (after env "route" actions)
        (.finished (responseTree (fun _ => .null) (after env "route" actions)))) =
          some (.success record) ∧
      ∃ (payload : Json) (answer : Upstream.Answer) (pipe : LivePipe),
        pipeAnswered world.lib access (world.upstream 0) payload = some answer ∧
        pipe.body.stream = pumpBody answer.reads ∧
        ∃ mapped, mapHandled env (.responded ⟨206, [("content-length", "1")], .stream pipe⟩) [] "r"
            false = some mapped ∧
          Replied 206 (scriptLines [("content-length", "1")]) (.stream pipe) mapped := by
  intro env actions world access
  have hreply : pipeReply (callBridge (fun _ => none) (serveHost (fun _ => "") (fun _ => none) env
      world (HostState.new access false) .httpPipe (pipePayload "a" [] none)).2 "ctx.http.pipe") =
        some (206, [("content-length", "1")]) := by decide +kernel
  have horderly : Along (step env "route") (Orderly fun _ => .null) Realm.start actions := by
    refine ⟨orderly_other nofun rfl nofun, orderly_other nofun rfl nofun,
      orderly_other nofun rfl nofun, ⟨recordable_other nofun nofun nofun, ?_⟩, trivial⟩
    intro _ _ frame hframe
    cases hframe
  have hresponse : (after env "route" actions).response =
      some (.stream 206 [("content-length", "1")]) := by decide +kernel
  obtain ⟨code, past, future, url, asked, given, -, hsplit, hasking, -, payload, hread, record,
    hrun, -, hall⟩ :=
      pipe_reply_sent env (fun _ => none) String.ofList (fun _ _ _ => rfl) horderly hresponse
  refine ⟨record, hrun, payload, ?_⟩
  have hpast : past = [.pipe (some "a"), .opts .absent, .headersEnd] := by
    subst actions
    rcases past with _ | ⟨first, _ | ⟨second, _ | ⟨third, rest⟩⟩⟩
    · cases hsplit
    · cases hsplit
    · cases hsplit
    · cases rest with
      | nil =>
        cases hsplit
        rfl
      | cons other rest =>
        have hlength := congrArg List.length hsplit
        simp only [List.length_append, List.length_cons, List.length_nil] at hlength
        omega
  subst hpast
  obtain ⟨bytes, rest, hframes⟩ := hasking
  have hframe : [(⟨.pipe "a" none, .last, [], []⟩ : Frame)] =
      ⟨.pipe url asked, .last, given, bytes⟩ :: rest := hframes
  obtain ⟨rfl, rfl, rfl⟩ : url = "a" ∧ asked = none ∧ given = [] := by
    cases hframe
    exact ⟨rfl, rfl, rfl⟩
  obtain ⟨-, answer, relayed, hanswered, -, -, -, hsent⟩ :=
    hall (fun _ => "") world (HostState.new access false) access rfl hreply
  generalize (serveHost (fun _ => "") (fun _ => none) env world (HostState.new access false)
    .httpPipe (pipePayload "a" [] none)).1 = served at hsent
  obtain ⟨pipe, hstream, -, hmapped⟩ := hsent [] nofun (startPump served) rfl
  exact ⟨answer, pipe, hanswered, hstream, hmapped [] "r" false⟩

end Replies

end StuntDouble.Prelude
