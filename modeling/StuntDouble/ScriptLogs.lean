import StuntDouble.FirstCall

/-!
The log records of a run, from `ctx.log` to the outcome. They live in the realm of the worker
and are read out of it only when the script ran to its end and its record could be read back;
a final result that is an error carries none of them.
-/
namespace StuntDouble.Prelude

open JsonText Machine Script

section Order

/-- What a script does, step by step, if its log is in the order of the calls: the prelude is its
own, nothing logs while a call of `ctx.log` formats its arguments, and none fails at that. -/
structure InOrder (realm : Realm) (action : Action) : Prop where
  own : ∀ changed answer, action ≠ .tamper changed answer
  apart : (∃ level, action = .log level) ∨ action.isCall = true ∧ realm.response ≠ none →
    ∀ frame ∈ realm.frames, frame.api.responds = true
  formats : ∀ frame rest, realm.frames = frame :: rest → frame.api.responds = false →
    action ≠ .raise

/-- The log is what the calls have written; the last of them may still be formatting. -/
def Written (realm : Realm) : Prop :=
  (∀ frame ∈ realm.frames, frame.api.responds = true) ∧ realm.slots = realm.logs.map some ∨
    ∃ level above below,
      realm.frames = above ++ ⟨.log level realm.logs.length, .last, [], []⟩ :: below ∧
      (∀ frame ∈ above, frame.api.responds = true) ∧
      (∀ frame ∈ below, frame.api.responds = true) ∧ realm.slots = realm.logs.map some ++ [none]

variable {env : Server.Env} {matchKind : String} {realm : Realm} {action : Action}

theorem written_start : Written Realm.start := Or.inl ⟨nofun, rfl⟩

theorem Written.slots_eq (h : Written realm) (hframes : realm.frames = []) :
    realm.slots = realm.logs.map some := by
  rcases h with ⟨-, hslots⟩ | ⟨level, above, below, hbusy, -⟩
  · exact hslots
  · rw [hframes] at hbusy
    exact absurd hbusy.symm (by simp)

/-- The innermost call comes to its end without an entry, or goes on as the call that it is. -/
theorem Written.top (h : Written realm) {frame : Frame} {rest : List Frame}
    (hframes : realm.frames = frame :: rest) (hresponds : frame.api.responds = true)
    {changed : Realm} (hlogs : changed.logs = realm.logs) (hslots : changed.slots = realm.slots)
    (hchanged : changed.frames = rest ∨
      ∃ next : Frame, next.api.responds = true ∧ changed.frames = next :: rest) :
    Written changed := by
  rcases h with ⟨hall, hwritten⟩ | ⟨level, above, below, hbusy, habove, hbelow, hwritten⟩
  · refine Or.inl ⟨?_, by rw [hlogs, hslots, hwritten]⟩
    have hrest : ∀ other ∈ rest, other.api.responds = true := fun other hother =>
      hall other (by rw [hframes]; exact List.mem_cons_of_mem _ hother)
    rcases hchanged with hsame | ⟨next, hnext, hsame⟩
    · rwa [hsame]
    · rw [hsame]
      exact List.forall_mem_cons.mpr ⟨hnext, hrest⟩
  · rw [hframes] at hbusy
    cases above with
    | nil =>
      obtain ⟨rfl, -⟩ := List.cons.inj hbusy
      cases hresponds
    | cons first above =>
      obtain ⟨-, rfl⟩ := List.cons.inj hbusy
      have habove := (List.forall_mem_cons.mp habove).2
      rcases hchanged with hsame | ⟨next, hnext, hsame⟩
      · exact Or.inr ⟨level, above, below, by rw [hsame, hlogs]; rfl, habove, hbelow,
          by rw [hlogs, hslots, hwritten]⟩
      · exact Or.inr ⟨level, next :: above, below, by rw [hsame, hlogs]; rfl,
          List.forall_mem_cons.mpr ⟨hnext, habove⟩, hbelow, by rw [hlogs, hslots, hwritten]⟩

/-- A call of `ctx.log` that is the innermost one is the one that still formats. -/
theorem Written.formatting (h : Written realm) {frame : Frame} {rest : List Frame}
    (hframes : realm.frames = frame :: rest) (hlogs : frame.api.responds = false) :
    ∃ level, frame = ⟨.log level realm.logs.length, .last, [], []⟩ ∧
      (∀ other ∈ rest, other.api.responds = true) ∧
      realm.slots = realm.logs.map some ++ [none] := by
  rcases h with ⟨hall, -⟩ | ⟨level, above, below, hbusy, habove, hbelow, hwritten⟩
  · have hframe := hall frame (by rw [hframes]; exact List.mem_cons_self)
    rw [hlogs] at hframe
    cases hframe
  · rw [hframes] at hbusy
    cases above with
    | nil =>
      obtain ⟨rfl, rfl⟩ := List.cons.inj hbusy
      exact ⟨level, rfl, hbelow, hwritten⟩
    | cons first above =>
      obtain ⟨rfl, -⟩ := List.cons.inj hbusy
      have hframe := habove frame List.mem_cons_self
      rw [hlogs] at hframe
      cases hframe

theorem responds_of_not_log {api : Api} (h : ∀ level slot, api ≠ .log level slot) :
    api.responds = true := by
  cases api with
  | log level slot => exact absurd rfl (h level slot)
  | _ => rfl

theorem written_frame {frame : Frame} {rest : List Frame} {result : Realm × Answer}
    (horder : InOrder realm action) (hframes : realm.frames = frame :: rest) (h : Written realm)
    (hstep : FrameStepped env matchKind realm frame action result) : Written result.1 := by
  have htail : realm.frames.tail = rest := by rw [hframes]; rfl
  have hgoOn (hresponds : frame.api.responds = true) {next : Frame}
      (hnext : next.api.responds = true) : Written (realm.goOn next).1 :=
    h.top hframes hresponds rfl rfl (Or.inr ⟨next, hnext, congrArg (List.cons next) htail⟩)
  have hchecks (hphase : frame.phase = .headers) : frame.api.responds = true := by
    by_contra hlog
    obtain ⟨level, rfl, -⟩ := h.formatting hframes (Bool.eq_false_iff.mpr hlog)
    cases hphase
  cases hstep with
  | recorded action response hcompleted =>
    obtain ⟨-, other, others, hsame, hresponds⟩ := completed_last hcompleted
    obtain ⟨rfl, -⟩ := List.cons.inj (hframes.symm.trans hsame)
    exact h.top hframes hresponds rfl rfl (Or.inl htail)
  | opts url status given opts hapi hopts => exact hgoOn (by rw [hapi]; rfl) rfl
  | header name value hphase => exact hgoOn (hchecks hphase) (hchecks hphase)
  | headersEnd hphase hheaders => exact hgoOn (hchecks hphase) (hchecks hphase)
  | element element byte status id hapi hbyte =>
    have hresponds : frame.api.responds = true := by rw [hapi]; rfl
    exact hgoOn hresponds hresponds
  | wrote level slot message hapi =>
    obtain ⟨found, rfl, hrest, hslots⟩ := h.formatting hframes (by rw [hapi]; rfl)
    cases hapi
    refine Or.inl ⟨fun other hother => hrest other (htail ▸ hother), ?_⟩
    show realm.slots.set realm.logs.length _ = (realm.logs ++ [_]).map some
    rw [hslots, List.set_append_right _ _ (by simp), List.map_append, List.length_map,
      Nat.sub_self]
    rfl
  | left action hnone hleft =>
    have hresponds : frame.api.responds = true := by
      rcases hleft with hraise | hphase | hlog
      · by_contra hlog
        exact horder.formats frame rest hframes (Bool.eq_false_iff.mpr hlog) hraise
      · exact hchecks hphase
      · exact responds_of_not_log hlog
    exact h.top hframes hresponds rfl rfl (Or.inl htail)
  | stayed action hnone => exact h

theorem Written.entered (h : Written realm) {frame : Frame}
    (hresponds : frame.api.responds = true) :
    Written { realm with frames := frame :: realm.frames } := by
  rcases h with ⟨hall, hwritten⟩ | ⟨level, above, below, hbusy, habove, hbelow, hwritten⟩
  · exact Or.inl ⟨List.forall_mem_cons.mpr ⟨hresponds, hall⟩, hwritten⟩
  · exact Or.inr ⟨level, frame :: above, below, congrArg (List.cons frame) hbusy,
      List.forall_mem_cons.mpr ⟨hresponds, habove⟩, hbelow, hwritten⟩

/-- Nothing formats its arguments, so that all that was logged is written. -/
theorem Written.idle (h : Written realm)
    (hall : ∀ frame ∈ realm.frames, frame.api.responds = true) :
    realm.slots = realm.logs.map some := by
  rcases h with ⟨-, hwritten⟩ | ⟨level, above, below, hbusy, -⟩
  · exact hwritten
  · have hframe := hall ⟨.log level realm.logs.length, .last, [], []⟩ (by rw [hbusy]; simp)
    cases hframe

theorem written_step (horder : InOrder realm action) (h : Written realm) :
    Written (step env matchKind realm action).1 := by
  have hstep : Stepped env matchKind realm action (step env matchKind realm action) :=
    step_stepped action
  generalize step env matchKind realm action = result at hstep ⊢
  cases hstep with
  | ignored action label hcall hresponse =>
    have hall := horder.apart (Or.inr ⟨hcall, Option.isSome_iff_ne_none.mp hresponse⟩)
    refine Or.inl ⟨hall, ?_⟩
    show realm.slots ++ [_] = (realm.logs ++ [_]).map some
    rw [h.idle hall, List.map_append]
    rfl
  | refused action hcall => exact h
  | respond arg status body hstatus hresponse => exact h.entered rfl
  | pipe url hresponse => exact h.entered rfl
  | log level =>
    have hall := horder.apart (Or.inl ⟨level, rfl⟩)
    have hslots := h.idle hall
    refine Or.inr ⟨level, [], realm.frames, ?_, nofun, hall, congrArg (· ++ [none]) hslots⟩
    have hlength : realm.slots.length = realm.logs.length := by rw [hslots, List.length_map]
    show (⟨.log level realm.slots.length, _, _, _⟩ : Frame) :: _ = _
    rw [hlength]
    rfl
  | stream handle => exact h
  | idle action hframes => exact h
  | inner frame rest action _ hframes hinner => exact written_frame horder hframes h hinner
  | tampered changed answer => exact absurd rfl (horder.own changed answer)

end Order

section Delivery

variable {H Pipe File : Type} (env : Server.Env) (matchKind : String)
  (readFloat : List Char → Option UInt64) (readError : List Char → String)
  (floatText : UInt64 → String) (parse : List Char → Option Json) (ops : HostOps H Pipe File)
  (pump : Pump H)

/-- The log of the outcome, when the parent reads this line as the final result. -/
def deliveredLogs (line : Bytes) : List Logged :=
  match WorkerMessage.decode parse line with
  | some (.finalResult result) =>
    (finishOutcome ops result pump).outcome.logs.map Logged.ofRecord
  | _ => []

theorem finishOutcome_success_logs (record : Json) :
    (finishOutcome ops (.success record) pump).outcome.logs = parseScriptLogs record :=
  parseHostRecord_logs record _ _ _

/-- An evaluation that fails is delivered as an error. -/
theorem runJob_error {error : Error} {result : FinalResult}
    (h : runJob (.error error) = some result) : ∃ failure, result = .error failure := by
  cases error with
  | upstreamUnreachable message kind =>
    obtain ⟨found, -, rfl⟩ := Option.map_eq_some_iff.mp h
    exact ⟨_, rfl⟩
  | _ =>
    cases h
    exact ⟨_, rfl⟩

theorem evaluateInWorker_finished {realm : Realm} {response : Tree}
    (h : Readable readFloat response realm.logs) :
    ∃ value entries, realm.logs.mapM textOf = some entries ∧
      evaluateInWorker readFloat readError realm (.finished response) =
        .ok (recordOf value entries).toValue := by
  obtain ⟨hwell, value, hvalue, hdepth⟩ := h
  have hsome := (mapM_textOf_isSome_iff realm.logs).mpr hwell
  obtain ⟨entries, hentries⟩ := Option.isSome_iff_exists.mp hsome
  refine ⟨value, entries, hentries, ?_⟩
  rw [evaluateInWorker, fromStr_extract, hvalue, hentries, Option.filter_some]
  simp only [decide_eq_true hdepth, if_true, Option.bind_some, Option.map_some]

theorem evaluateInWorker_unreadable {realm : Realm} {response : Tree}
    (h : ¬ Readable readFloat response realm.logs) :
    ∃ error, evaluateInWorker readFloat readError realm (.finished response) =
      .error error := by
  have hnone : fromStr readFloat (stringify (extractTree response realm.logs)) = none := by
    rw [fromStr_extract]
    cases hentries : realm.logs.mapM textOf with
    | none => cases (response.toJson readFloat).filter _ <;> rfl
    | some entries =>
      have hwell := (mapM_textOf_isSome_iff _).mp (by rw [hentries]; rfl)
      cases hvalue : response.toJson readFloat with
      | none => rfl
      | some value =>
        have hdeep : ¬ depth value < recursionLimit := fun hdepth =>
          h ⟨hwell, value, hvalue, hdepth⟩
        rw [Option.filter_some, decide_eq_false hdeep]
        rfl
  rw [evaluateInWorker, hnone]
  exact ⟨_, rfl⟩

/-- When nothing logs while another call formats its arguments, and no such call fails, the log
of a delivered run is what the run logged, in the order of the calls, exactly when nothing was
logged or the script ran to its end and left a record that could be read back. -/
theorem logs_delivered (actions : List Action) (ending : Ending) (result : FinalResult)
    (horder : Along (step env matchKind) InOrder Realm.start actions)
    (hended : ∀ response, ending = .finished response → (after env matchKind actions).frames = [])
    (hresult : runJob (evaluateInWorker readFloat readError (after env matchKind actions)
      ending) = some result)
    (hdelivered : WorkerMessage.decode parse
      (writeLine floatText (WorkerMessage.finalResult result).toJson) =
        some (.finalResult result)) :
    (deliveredLogs parse ops pump
        (writeLine floatText (WorkerMessage.finalResult result).toJson)).map some =
      (after env matchKind actions).slots ↔
    (after env matchKind actions).slots = [] ∨
      ∃ response, ending = .finished response ∧
        Readable readFloat response ((after env matchKind actions).slots.filterMap id) := by
  have hwritten : Written (after env matchKind actions) :=
    final_along Written (fun _ _ => written_step) horder written_start
  have hfailed (error : Error) (h : runJob (.error error) = some result) :
      deliveredLogs parse ops pump
        (writeLine floatText (WorkerMessage.finalResult result).toJson) = [] := by
    obtain ⟨failure, rfl⟩ := runJob_error h
    rw [deliveredLogs, hdelivered]
    rfl
  cases ending with
  | failed error =>
    rw [hfailed error hresult]
    constructor
    · exact fun h => Or.inl h.symm
    · rintro (h | ⟨response, hending, -⟩)
      · exact h.symm
      · cases hending
  | finished response =>
    have hslots := hwritten.slots_eq (hended response rfl)
    have hlogs : (after env matchKind actions).slots.filterMap id =
        (after env matchKind actions).logs := by
      rw [hslots, List.filterMap_map]
      exact List.filterMap_some
    rw [hlogs]
    by_cases hreadable : Readable readFloat response (after env matchKind actions).logs
    · obtain ⟨value, entries, hentries, hevaluated⟩ :=
        evaluateInWorker_finished readFloat readError hreadable
      rw [hevaluated] at hresult
      cases hresult
      refine iff_of_true ?_ (Or.inr ⟨response, rfl, hreadable⟩)
      rw [deliveredLogs, hdelivered, hslots]
      show (List.map _ (finishOutcome ops _ pump).outcome.logs).map some = _
      rw [finishOutcome_success_logs, parseScriptLogs_recordOf, ofRecord_of_mapM hentries]
    · obtain ⟨error, hevaluated⟩ := evaluateInWorker_unreadable readFloat readError hreadable
      rw [hevaluated] at hresult
      rw [hfailed error hresult]
      constructor
      · exact fun h => Or.inl h.symm
      · rintro (h | ⟨found, hending, hfound⟩)
        · exact h.symm
        · cases hending
          exact absurd hfound hreadable

/-- A script that logs and then throws: its log is not delivered. -/
theorem logs_lost_on_throw :
    let env : Server.Env := ⟨Http.HeaderGrammar.letters, id, fun elapsed => UInt64.ofNat elapsed⟩
    let read : List Char → Option Json := JsonText.parse fun _ => none
    let ops : HostOps Unit Unit Unit :=
      ⟨fun host _ => (host, none), fun host => ((none, none, none), host), fun host _ _ => host⟩
    let actions : List Action := [.log .error, .logged (Utf16.encode "boom")]
    let result := FinalResult.error ⟨none, "Error: boom"⟩
    let line := writeLine (fun _ => "") (WorkerMessage.finalResult result).toJson
    runJob (evaluateInWorker (fun _ => none) String.ofList (after env "route" actions)
      (.failed (.failed "Error: boom"))) = some result ∧
    WorkerMessage.decode read line = some (.finalResult result) ∧
    (after env "route" actions).slots = [some ⟨"error", Utf16.encode "boom"⟩] ∧
    deliveredLogs read ops (startPump ()) line = [] := by
  intro env read ops actions result line
  have hdecode : WorkerMessage.decode read line = some (.finalResult result) :=
    WorkerMessage.decode_toJson (JsonText.standard_parse _ _) trivial
  refine ⟨rfl, hdecode, rfl, ?_⟩
  rw [deliveredLogs, hdecode]
  rfl

/-- A script that logs and runs to its end without a response keeps its log. -/
theorem logs_delivered_finished :
    let env : Server.Env := ⟨Http.HeaderGrammar.letters, id, fun elapsed => UInt64.ofNat elapsed⟩
    let read : List Char → Option Json := JsonText.parse fun _ => none
    let ops : HostOps Unit Unit Unit :=
      ⟨fun host _ => (host, none), fun host => ((none, none, none), host), fun host _ _ => host⟩
    let result := FinalResult.success (.object [("logs", .array [recordJson ⟨"info", "hi"⟩]),
      ("response", .null)])
    (deliveredLogs read ops (startPump ())
        (writeLine (fun _ => "") (WorkerMessage.finalResult result).toJson)).map some =
      (after env "route" [.log .info, .logged (Utf16.encode "hi")]).slots := by
  intro env read ops result
  have hslots : (after env "route" [.log .info, .logged (Utf16.encode "hi")]).slots =
      [some ⟨"info", Utf16.encode "hi"⟩] := rfl
  have hreadable : Readable (fun _ => none) .null
      ((after env "route" [.log .info, .logged (Utf16.encode "hi")]).slots.filterMap id) := by
    refine ⟨?_, .null, rfl, by decide⟩
    intro entry hentry
    rw [hslots] at hentry
    cases List.mem_singleton.mp hentry
    exact wellFormed_encode "hi"
  have hkeys : "logs" < "response" := by decide
  have hplain : (WorkerMessage.finalResult result).Plain :=
    ⟨⟨⟨⟨trivial, trivial, trivial⟩, trivial⟩, trivial, trivial⟩, List.pairwise_pair.mpr hkeys,
      ⟨recordJson_ordered _, trivial⟩, trivial, trivial⟩
  have hentries : (after env "route" [.log .info, .logged (Utf16.encode "hi")]).logs.mapM
      textOf = some [⟨"info", "hi"⟩] := by
    show [(⟨"info", Utf16.encode "hi"⟩ : Logged)].mapM textOf = _
    simp [textOf, toText_encode]
  have hresult : runJob (evaluateInWorker (fun _ => none) String.ofList
      (after env "route" [.log .info, .logged (Utf16.encode "hi")]) (.finished .null)) =
        some result := by
    have hvalue : (recordOf .null [⟨"info", "hi"⟩]).toValue = .object
        [("logs", .array [recordJson ⟨"info", "hi"⟩]), ("response", .null)] :=
      recordOf_toValue _ _
    rw [evaluateInWorker, fromStr_extract, hentries]
    show runJob (.ok (recordOf .null [⟨"info", "hi"⟩]).toValue) = _
    rw [hvalue]
    rfl
  have horder : Along (step env "route") InOrder Realm.start
      [.log .info, .logged (Utf16.encode "hi")] :=
    ⟨⟨by simp, by simp [Realm.start], by simp⟩, ⟨by simp, by simp [Action.isCall], by simp⟩,
      trivial⟩
  exact (logs_delivered env "route" (fun _ => none) String.ofList (fun _ => "") read ops
    (startPump ()) [.log .info, .logged (Utf16.encode "hi")] (.finished .null) result horder
    (fun _ _ => rfl) hresult (WorkerMessage.decode_toJson (JsonText.standard_parse _ _)
      hplain)).mpr (Or.inr ⟨.null, rfl, hreadable⟩)

end Delivery

end StuntDouble.Prelude
