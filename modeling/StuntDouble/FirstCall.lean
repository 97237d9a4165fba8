import StuntDouble.Extraction
import Mathlib.Data.List.Induction

/-!
Which call gives the response. A call finds that there is none when it is entered, but it writes
its own only when its checks are done; a call made by user code that the checks run can have
recorded one by then. The first call wins in the runs where no such call comes to its end, and
its response is read back as it was written where the arrays in it still read as they did.
-/
namespace StuntDouble.Prelude

open Machine Server Http JsonText

variable (env : Env) (matchKind : String)

/-- The state of the script after a run. -/
def after (actions : List Action) : Realm := final (step env matchKind) Realm.start actions

/-- The calls of a run that are over, as they ended. -/
def answers (actions : List Action) : List Answer :=
  outputs (step env matchKind) Realm.start actions

def Answer.response : Answer → Option Recorded
  | .recorded response => some response
  | _ => none

/-- What the calls that returned `true` recorded. -/
def recordings (answers : List Answer) : List Recorded := answers.filterMap Answer.response

/-- Whether a call leaves a response. -/
def Api.responds : Api → Bool
  | .respond _ _ | .pipe _ _ => true
  | .log _ _ => false

/-- Whether an action can be the last check of a call. -/
def Action.isLast : Action → Bool
  | .bodyEnd | .bridge (some _) => true
  | _ => false

section Steps

variable {env matchKind} {realm : Realm} {action : Action}

theorem frame_response {frame : Frame} {result : Realm × Answer}
    (hstep : FrameStepped env matchKind realm frame action result) :
    result.2.response = completed realm action ∧
      result.1.response = (completed realm action).or realm.response := by
  have hnone (hbody : action ≠ .bodyEnd) (hbridge : ∀ reply, action ≠ .bridge reply) :
      completed realm action = none := completed_none hbody hbridge
  cases hstep with
  | recorded action response hcompleted =>
    rw [hcompleted]
    exact ⟨rfl, rfl⟩
  | left action hnone hleft | stayed action hnone =>
    rw [hnone]
    exact ⟨rfl, rfl⟩
  | _ =>
    rw [hnone (by simp) (by simp)]
    exact ⟨rfl, rfl⟩

/-- A step returns `true` exactly if it completes a call, and then records its response. -/
theorem step_response (hown : ∀ changed answer, action ≠ .tamper changed answer) :
    (step env matchKind realm action).2.response = completed realm action ∧
      (step env matchKind realm action).1.response =
        (completed realm action).or realm.response := by
  have hstep : Stepped env matchKind realm action (step env matchKind realm action) :=
    step_stepped action
  generalize step env matchKind realm action = result at hstep ⊢
  cases hstep with
  | ignored action label hcall hresponse =>
    rw [completed_none (by rintro rfl; cases hcall) (by rintro reply rfl; cases hcall)]
    exact ⟨rfl, rfl⟩
  | refused action hcall =>
    rw [completed_none (by rintro rfl; cases hcall) (by rintro reply rfl; cases hcall)]
    exact ⟨rfl, rfl⟩
  | idle action hframes =>
    have hnone : completed realm action = none := by rw [completed, hframes]
    rw [hnone]
    exact ⟨rfl, rfl⟩
  | inner frame rest action _ hframes hinner => exact frame_response hinner
  | tampered changed answer => exact absurd rfl (hown changed answer)
  | _ =>
    rw [completed_none (by simp) (by simp)]
    exact ⟨rfl, rfl⟩

/-- A call that is entered when there is a response returns `false`, and leaves a warning. -/
theorem step_ignored (hcall : action.isCall = true) (hresponse : realm.response ≠ none) :
    ∃ line, step env matchKind realm action = (realm.note line, .ignored) := by
  have hsome : realm.response.isSome = true := Option.isSome_iff_ne_none.mpr hresponse
  cases action with
  | respond status body => exact ⟨_, if_pos hsome⟩
  | pipe url => exact ⟨_, if_pos hsome⟩
  | _ => contradiction

/-- What completes a call is the last check of one that leaves a response. -/
theorem completed_last {response : Recorded} (h : completed realm action = some response) :
    action.isLast = true ∧
      ∃ frame rest, realm.frames = frame :: rest ∧ frame.api.responds = true := by
  unfold completed at h
  split at h
  · cases h
  · rename_i frame rest hframes
    split at h
    · rename_i hapi hphase
      exact ⟨rfl, frame, rest, hframes, by rw [hapi]; rfl⟩
    · rename_i hapi hphase
      exact ⟨rfl, frame, rest, hframes, by rw [hapi]; rfl⟩
    · cases h

/-- Once there is a response, no call under way can leave one. -/
def Alone (realm : Realm) : Prop :=
  realm.response ≠ none → ∀ frame ∈ realm.frames, frame.api.responds = false

theorem frame_alone {frame : Frame} {rest : List Frame} {result : Realm × Answer}
    (hframes : realm.frames = frame :: rest)
    (hlast : realm.response = none → action.isLast = true →
      ∀ other ∈ realm.frames.tail, other.api.responds = false)
    (h : Alone realm) (hstep : FrameStepped env matchKind realm frame action result) :
    Alone result.1 := by
  have htail (hsome : realm.response ≠ none) : ∀ other ∈ realm.frames.tail,
      other.api.responds = false := fun other hother => h hsome other (List.mem_of_mem_tail hother)
  have hgoOn {next : Frame} (hnext : next.api.responds = frame.api.responds) :
      Alone (realm.goOn next).1 := by
    intro hsome other hother
    rcases List.mem_cons.mp hother with rfl | hother
    · rw [hnext]
      exact h hsome frame (by rw [hframes]; exact List.mem_cons_self)
    · exact htail hsome other hother
  cases hstep with
  | recorded action response hcompleted =>
    intro _
    by_cases hnone : realm.response = none
    · exact hlast hnone (completed_last hcompleted).1
    · exact htail hnone
  | opts url status given opts hapi hopts => exact hgoOn (by rw [hapi]; rfl)
  | header name value hphase => exact hgoOn rfl
  | headersEnd hphase hheaders => exact hgoOn rfl
  | element element byte status id hapi hbyte => exact hgoOn rfl
  | wrote level slot message hapi => exact htail
  | left action hnone hleft => exact htail
  | stayed action hnone => exact h

theorem alone_step (hown : ∀ changed answer, action ≠ .tamper changed answer)
    (hlast : realm.response = none → action.isLast = true →
      ∀ other ∈ realm.frames.tail, other.api.responds = false)
    (h : Alone realm) : Alone (step env matchKind realm action).1 := by
  have hstep : Stepped env matchKind realm action (step env matchKind realm action) :=
    step_stepped action
  generalize step env matchKind realm action = result at hstep ⊢
  cases hstep with
  | ignored action label hcall hresponse => exact h
  | refused action hcall => exact h
  | respond arg status body hstatus hresponse => exact fun hsome => absurd hresponse hsome
  | pipe url hresponse => exact fun hsome => absurd hresponse hsome
  | log level =>
    intro hsome frame hframe
    rcases List.mem_cons.mp hframe with rfl | hframe
    · rfl
    · exact h hsome frame hframe
  | stream handle => exact h
  | idle action hframes => exact h
  | inner frame rest action _ hframes hinner => exact frame_alone hframes hlast h hinner
  | tampered changed answer => exact absurd rfl (hown changed answer)

/-- Every entry of the log is a warning, or the message of a call. -/
theorem step_logs (hown : ∀ changed answer, action ≠ .tamper changed answer) :
    ∀ entry ∈ (step env matchKind realm action).1.logs, entry ∈ realm.logs ∨
      (∃ label, entry = ignoredWarning label) ∨
      ∃ level message, action = .logged message ∧ entry = ⟨Level.name level, message⟩ := by
  have hstep : Stepped env matchKind realm action (step env matchKind realm action) :=
    step_stepped action
  generalize step env matchKind realm action = result at hstep ⊢
  cases hstep with
  | ignored action label hcall hresponse =>
    intro entry hentry
    rcases List.mem_append.mp hentry with hold | hnew
    · exact Or.inl hold
    · exact Or.inr (Or.inl ⟨label, List.mem_singleton.mp hnew⟩)
  | inner frame rest action _ hframes hinner =>
    cases hinner with
    | wrote level slot message hapi =>
      intro entry hentry
      rcases List.mem_append.mp hentry with hold | hnew
      · exact Or.inl hold
      · exact Or.inr (Or.inr ⟨level, message, rfl, List.mem_singleton.mp hnew⟩)
    | _ => exact fun entry hentry => Or.inl hentry
  | tampered changed answer => exact absurd rfl (hown changed answer)
  | _ => exact fun entry hentry => Or.inl hentry

end Steps

section Orderly

/-- A body that is read back as it was checked: a text without a lone surrogate, an array that
the script does not change, a handle whose number is exact. -/
def Lasts (readArray : ℕ → Tree) (realm : Realm) (bytes : List ℕ) : BodyArg → Prop
  | .text text => Utf16.WellFormed text
  | .array id => readArray id = bytesTree bytes
  | .handle id => ∀ handle, realm.handles[id]? = some (some handle) →
    StillReads readArray (.handle handle)
  | _ => True

/-- What a script does, step by step, if its record can be read back: the prelude is its own, a
body lasts, and what is logged is a text. -/
structure Recordable (readArray : ℕ → Tree) (realm : Realm) (action : Action) : Prop where
  own : ∀ changed answer, action ≠ .tamper changed answer
  lasts : ∀ frame rest status arg, realm.frames = frame :: rest →
    frame.api = .respond status arg → action = .bodyEnd → Lasts readArray realm frame.bytes arg
  message : ∀ message, action = .logged message → Utf16.WellFormed message

/-- Besides, a call that another one runs does not come to its last check before there is a
response. -/
structure Orderly (readArray : ℕ → Tree) (realm : Realm) (action : Action) : Prop extends
    Recordable readArray realm action where
  alone : realm.response = none → action.isLast = true →
    ∀ frame ∈ realm.frames.tail, frame.api.responds = false

/-- What holds while a script stays recordable. -/
structure Sound (readArray : ℕ → Tree) (realm : Realm) : Prop where
  checked : RealmChecked env matchKind realm
  reads : ∀ status headers body, realm.response = some (.response status headers body) →
    StillReads readArray body
  stream : ∀ status headers, realm.response = some (.stream status headers) → status < 2 ^ 16
  logs : ∀ entry ∈ realm.logs, Utf16.WellFormed entry.message

variable {env matchKind} {readArray : ℕ → Tree} {realm : Realm} {action : Action}

theorem checkedBody_reads {frame : Frame} {status : ℕ} {arg : BodyArg} {body : RecordedBody}
    (h : checkedBody realm frame status arg = some body)
    (hlasts : Lasts readArray realm frame.bytes arg) : StillReads readArray body := by
  cases arg with
  | absent =>
    obtain rfl := Option.some.inj h
    exact Utf16.wellFormed_nil
  | text text =>
    obtain rfl := Option.some.inj h
    exact hlasts
  | handle id =>
    rw [checkedBody] at h
    split at h
    · rename_i handle hfound
      split at h
      · obtain rfl := Option.some.inj h
        exact hlasts handle hfound
      · cases h
    · cases h
  | typed bytes =>
    obtain rfl := Option.some.inj h
    trivial
  | array id =>
    obtain rfl := Option.some.inj h
    exact hlasts
  | other => cases h

/-- Only the end of a body, and an entry of the log, ask something of what is written. -/
theorem recordable_other (hown : ∀ changed answer, action ≠ .tamper changed answer)
    (hbody : action ≠ .bodyEnd) (hlogged : ∀ message, action ≠ .logged message) :
    Recordable readArray realm action :=
  ⟨hown, fun _ _ _ _ _ _ hend => absurd hend hbody,
    fun message hmessage => absurd hmessage (hlogged message)⟩

theorem orderly_other (hown : ∀ changed answer, action ≠ .tamper changed answer)
    (hlast : action.isLast = false) (hlogged : ∀ message, action ≠ .logged message) :
    Orderly readArray realm action := by
  refine ⟨recordable_other hown ?_ hlogged, ?_⟩
  · rintro rfl
    cases hlast
  · intro _ hend
    rw [hlast] at hend
    cases hend

theorem Recordable.completed_reads (h : Recordable readArray realm action) {status : ℕ}
    {headers : List (String × String)} {body : RecordedBody}
    (hcompleted : completed realm action = some (.response status headers body)) :
    StillReads readArray body := by
  unfold completed at hcompleted
  split at hcompleted
  · cases hcompleted
  · rename_i frame rest hframes
    split at hcompleted
    · rename_i code arg hapi hphase
      obtain ⟨found, hbody, hsame⟩ := Option.map_eq_some_iff.mp hcompleted
      obtain ⟨rfl, rfl, rfl⟩ := Recorded.response.inj hsame
      exact checkedBody_reads hbody (h.lasts frame rest _ arg hframes hapi rfl)
    · cases hcompleted
    · cases hcompleted

theorem completed_stream_lt {status : ℕ} {headers : List (String × String)}
    (h : completed realm action = some (.stream status headers)) : status < 2 ^ 16 := by
  unfold completed at h
  split at h
  · cases h
  · split at h
    · obtain ⟨found, -, hsame⟩ := Option.map_eq_some_iff.mp h
      cases hsame
    · rename_i code rows hapi hphase
      obtain ⟨rfl, rfl⟩ := Recorded.stream.inj (Option.some.inj h)
      exact code.toNat_lt
    · cases h

theorem wellFormed_encode (text : String) : Utf16.WellFormed (Utf16.encode text) :=
  Utf16.wellFormed_encodeChars text.toList

theorem sound_step (hrecordable : Recordable readArray realm action)
    (h : Sound env matchKind readArray realm) :
    Sound env matchKind readArray (step env matchKind realm action).1 := by
  have hresponse := (@step_response env matchKind realm action hrecordable.own).2
  have hcases {response : Recorded}
      (hsome : (step env matchKind realm action).1.response = some response) :
      completed realm action = some response ∨ realm.response = some response := by
    rw [hresponse] at hsome
    cases hcompleted : completed realm action with
    | none => exact Or.inr (by rwa [hcompleted, Option.none_or] at hsome)
    | some found => exact Or.inl (by rwa [hcompleted, Option.some_or] at hsome)
  refine ⟨step_checked hrecordable.own h.checked, ?_, ?_, ?_⟩
  · intro status headers body hsome
    rcases hcases hsome with hcompleted | hold
    · exact hrecordable.completed_reads hcompleted
    · exact h.reads status headers body hold
  · intro status headers hsome
    rcases hcases hsome with hcompleted | hold
    · exact completed_stream_lt hcompleted
    · exact h.stream status headers hold
  · intro entry hentry
    rcases step_logs hrecordable.own entry hentry with
      hold | ⟨label, rfl⟩ | ⟨level, message, hlogged, rfl⟩
    · exact h.logs entry hold
    · exact wellFormed_encode _
    · exact hrecordable.message message hlogged

theorem sound_start : Sound env matchKind readArray Realm.start :=
  ⟨⟨nofun, nofun⟩, nofun, nofun, nofun⟩

/-- Every state of a run that stays recordable is sound. -/
theorem sound_after {actions : List Action}
    (h : Along (step env matchKind) (Recordable readArray) Realm.start actions) :
    Sound env matchKind readArray (after env matchKind actions) :=
  final_along (Sound env matchKind readArray) (fun _ _ => sound_step) h sound_start

theorem alone_after {actions : List Action}
    (h : Along (step env matchKind) (Orderly readArray) Realm.start actions) :
    Alone (after env matchKind actions) :=
  final_along Alone (fun _ _ horderly => alone_step horderly.own horderly.alone) h nofun

/-- A call that is completed finds no response, if it was alone. -/
theorem Alone.fresh (h : Alone realm) {response : Recorded}
    (hcompleted : completed realm action = some response) : realm.response = none := by
  obtain ⟨-, frame, rest, hframes, hresponds⟩ := completed_last hcompleted
  by_contra hsome
  have hnot := h hsome frame (by rw [hframes]; exact List.mem_cons_self)
  rw [hresponds] at hnot
  cases hnot

variable (readFloat : List Char → Option UInt64)

theorem Sound.readAs (h : Sound env matchKind readArray realm) {response : Recorded}
    (hresponse : realm.response = some response) :
    ReadAs readFloat response (recordedTree readArray response) := by
  cases response with
  | response status headers body =>
    have hchecked := h.checked.response status headers body hresponse
    exact recordedTree_response readFloat hchecked.status_range.2 hchecked.bytes
      (h.reads status headers body hresponse)
  | stream status headers =>
    exact recordedTree_stream readFloat readArray headers (h.stream status headers hresponse)

theorem Sound.responseTree (h : Sound env matchKind readArray realm) :
    ∃ value, (responseTree readArray realm).toJson readFloat = some value ∧
      depth value < recursionLimit ∧ value.toValue = Json.opt asRecorded realm.response := by
  unfold Prelude.responseTree
  cases hresponse : realm.response with
  | none => exact ⟨.null, rfl, by decide, rfl⟩
  | some response => exact (h.readAs readFloat hresponse).read

/-- The record of a sound state is read back as it was written. -/
theorem Sound.extracted (h : Sound env matchKind readArray realm) :
    extracted readFloat readArray realm = some (Json.opt asRecorded realm.response) := by
  obtain ⟨value, htree, hdepth, hvalue⟩ := h.responseTree readFloat
  obtain ⟨entries, hentries⟩ :=
    Option.isSome_iff_exists.mp ((mapM_textOf_isSome_iff realm.logs).mpr h.logs)
  rw [Prelude.extracted, fromStr_extract, htree, hentries, Option.filter_some,
    if_pos (decide_eq_true hdepth), Option.bind_some, Option.map_some, Option.bind_some,
    recordOf_toValue, ← hvalue]
  rfl

end Orderly

section Runs

variable (readFloat : List Char → Option UInt64) (readArray : ℕ → Tree)

/-- The first call wins: what a run of the script does to its response. -/
structure FirstWins (actions : List Action) : Prop where
  once : (recordings (answers env matchKind actions)).length ≤ 1
  ignored : ∀ past action future, actions = past ++ action :: future → action.isCall = true →
    (after env matchKind past).response ≠ none →
      ∃ line, step env matchKind (after env matchKind past) action =
        ((after env matchKind past).note line, .ignored)
  threw : ∀ past action future, actions = past ++ action :: future →
    (step env matchKind (after env matchKind past) action).2 = .threw →
      (step env matchKind (after env matchKind past) action).1.response =
        (after env matchKind past).response
  late : ∀ past action future, actions = past ++ action :: future →
    (after env matchKind past).response ≠ none → ∀ response,
      (step env matchKind (after env matchKind past) action).2 ≠ .recorded response
  extracted : extracted readFloat readArray (after env matchKind actions) =
    some (Json.opt asRecorded (recordings (answers env matchKind actions)).head?)

variable {env matchKind readFloat readArray}

theorem after_snoc (actions : List Action) (action : Action) :
    after env matchKind (actions ++ [action]) =
      (step env matchKind (after env matchKind actions) action).1 := by
  unfold after
  rw [final_append]
  rfl

theorem answers_snoc (actions : List Action) (action : Action) :
    answers env matchKind (actions ++ [action]) = answers env matchKind actions ++
      [(step env matchKind (after env matchKind actions) action).2] := by
  unfold answers outputs after
  rw [history_append, List.map_append]
  rfl

/-- In an orderly run the response is what the calls that returned `true` recorded. -/
theorem recordings_eq (actions : List Action)
    (h : Along (step env matchKind) (Orderly readArray) Realm.start actions) :
    recordings (answers env matchKind actions) =
      (after env matchKind actions).response.toList := by
  induction actions using List.reverseRecOn with
  | nil => rfl
  | append_singleton actions action ih =>
    obtain ⟨hpast, horderly, -⟩ := along_append.mp h
    obtain ⟨hanswer, hresponse⟩ :=
      @step_response env matchKind (after env matchKind actions) action horderly.own
    rw [answers_snoc, recordings, List.filterMap_append, ← recordings, ih hpast, after_snoc,
      hresponse, List.filterMap_cons, hanswer]
    cases hcompleted : completed (after env matchKind actions) action with
    | none => simp
    | some response =>
      rw [(alone_after hpast).fresh hcompleted]
      rfl

/-- In every run in which no call comes to its last check inside another one before there is a
response, bodies last and what is logged is a text, the first call wins. -/
theorem first_call_wins (actions : List Action)
    (h : Along (step env matchKind) (Orderly readArray) Realm.start actions) :
    FirstWins env matchKind readFloat readArray actions := by
  have hrecordings := recordings_eq actions h
  have hsplit {past future : List Action} {action : Action}
      (hactions : actions = past ++ action :: future) :
      Alone (after env matchKind past) ∧ Orderly readArray (after env matchKind past) action := by
    rw [hactions] at h
    obtain ⟨hpast, horderly, -⟩ := along_append.mp h
    exact ⟨alone_after hpast, horderly⟩
  refine ⟨?_, ?_, ?_, ?_, ?_⟩
  · rw [hrecordings]
    cases (after env matchKind actions).response <;> simp
  · intro past action future _ hcall hresponse
    exact step_ignored hcall hresponse
  · intro past action future hactions hthrew
    obtain ⟨hanswer, hresponse⟩ :=
      @step_response env matchKind (after env matchKind past) action (hsplit hactions).2.own
    rw [hthrew] at hanswer
    rw [hresponse, ← hanswer]
    rfl
  · intro past action future hactions hsome response hrecorded
    obtain ⟨halone, horderly⟩ := hsplit hactions
    have hanswer := (@step_response env matchKind (after env matchKind past) action
      horderly.own).1
    rw [hrecorded] at hanswer
    exact hsome (halone.fresh hanswer.symm)
  · have hrecordable := h.imp fun _ _ horderly => horderly.toRecordable
    rw [(sound_after hrecordable).extracted readFloat, hrecordings]
    cases (after env matchKind actions).response <;> rfl

/-- A script whose formatter responds, and that calls once more: the second call is ignored. -/
theorem first_call_wins_formatted :
    let env : Env := ⟨HeaderGrammar.letters, id, fun elapsed => UInt64.ofNat elapsed⟩
    let actions : List Action := [.log .info, .respond (.integer 200) .absent, .headersEnd,
      .bodyEnd, .logged (Utf16.encode "a"), .respond (.integer 201) .absent]
    FirstWins env "route" (fun _ => none) (fun _ => .null) actions ∧
      recordings (answers env "route" actions) = [.response 200 [] (.text [])] := by
  intro env actions
  refine ⟨first_call_wins actions ?_, by decide +kernel⟩
  refine ⟨orderly_other nofun rfl nofun, orderly_other nofun rfl nofun,
    orderly_other nofun rfl nofun, ⟨⟨nofun, ?_, nofun⟩, ?_⟩, ⟨⟨nofun, ?_, ?_⟩, ?_⟩,
    orderly_other nofun rfl nofun, trivial⟩
  · intro frame rest status arg hframes hapi _
    cases hframes
    cases hapi
    trivial
  · intro _ _ frame hframe
    obtain rfl := List.mem_singleton.mp hframe
    rfl
  · rintro frame rest status arg - - ⟨⟩
  · rintro message ⟨⟩
    exact wellFormed_encode "a"
  · rintro - ⟨⟩

/-- A header value whose conversion responds, an array that is changed after the call, a body
that no text can hold, and a script that clears the response of the prelude. -/
theorem first_call_wins_nested :
    let env : Env := ⟨HeaderGrammar.letters, id, fun elapsed => UInt64.ofNat elapsed⟩
    let readArray : ℕ → Tree := fun _ => bytesTree [300]
    ¬ FirstWins env "route" (fun _ => none) readArray
      [.respond (.integer 200) .absent, .respond (.integer 201) .absent, .headersEnd, .bodyEnd,
        .header "x" "v", .headersEnd, .bodyEnd] ∧
    ¬ FirstWins env "route" (fun _ => none) readArray
      [.respond (.integer 200) (.array 0), .headersEnd, .element (.integer 30), .bodyEnd] ∧
    ¬ FirstWins env "route" (fun _ => none) readArray
      [.respond (.integer 200) (.text [0xD800]), .headersEnd, .bodyEnd] ∧
    ¬ FirstWins env "route" (fun _ => none) readArray
      [.respond (.integer 200) .absent, .headersEnd, .bodyEnd, .tamper .start .running,
        .respond (.integer 200) .absent, .headersEnd, .bodyEnd] := by
  intro env readArray
  refine ⟨?_, ?_, ?_, ?_⟩
  · intro h
    exact absurd h.once (by decide +kernel)
  · intro h
    let bytes (read : Option Json) : Option (List ℕ) :=
      ((read.bind (Json.get "body")).bind Json.asArray).map (List.filterMap Json.asU64)
    have hbytes : bytes (extracted (fun _ => none) readArray (after env "route"
        [.respond (.integer 200) (.array 0), .headersEnd, .element (.integer 30), .bodyEnd])) =
          some [300] := by
      rw [extracted, fromStr_extract]
      decide +kernel
    rw [h.extracted] at hbytes
    exact absurd hbytes (by decide +kernel)
  · intro h
    have hnone : extracted (fun _ => none) readArray (after env "route"
        [.respond (.integer 200) (.text [0xD800]), .headersEnd, .bodyEnd]) = none := by
      rw [extracted, fromStr_extract]
      decide +kernel
    rw [h.extracted] at hnone
    cases hnone
  · intro h
    exact absurd h.once (by decide +kernel)

end Runs

end StuntDouble.Prelude
