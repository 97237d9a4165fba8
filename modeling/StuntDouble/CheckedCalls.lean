import StuntDouble.Prelude

/-!
What the checks of the response calls leave of their arguments, in every state of the realm.
-/
namespace StuntDouble.Prelude

open Http Server

section Checked

variable (env : Env) (matchKind : String)

/-- What the checks of `ctx.respond` leave of a response. -/
structure Checked (status : ℕ) (headers : List (String × String)) (body : RecordedBody) :
    Prop where
  status_range : 100 ≤ status ∧ status ≤ 599
  headers_valid : ∃ pairs, validatedHeaderPairs env headers = .ok pairs
  allow : checkHostOwnedAllow matchKind headers = true
  bytes : ∀ bytes, (body = .bytes bytes ∨ ∃ id, body = .array id bytes) →
    ∀ byte ∈ bytes, byte ≤ 255
  plain : ∀ handle, body = .handle handle → checkFileStreamResponse status headers = true

/-- The status that a call has been given, if it has one. -/
def Api.status : Api → Option ℕ
  | .respond status _ => some status
  | .pipe _ status => status
  | .log _ _ => none

/-- What a call has checked so far. -/
structure FrameChecked (frame : Frame) : Prop where
  status_range : ∀ status, frame.api.status = some status → 100 ≤ status ∧ status ≤ 599
  bytes : ∀ byte ∈ frame.bytes, byte ≤ 255
  headers : frame.phase = .last → checkedHeaders env matchKind frame = true

structure RealmChecked (realm : Realm) : Prop where
  frames : ∀ frame ∈ realm.frames, FrameChecked env matchKind frame
  response : ∀ status headers body, realm.response = some (.response status headers body) →
    Checked env matchKind status headers body

variable {env matchKind}

theorem checkStatus_range {arg : StatusArg} {status : ℕ} (h : checkStatus arg = some status) :
    100 ≤ status ∧ status ≤ 599 := by
  cases arg with
  | other => cases h
  | integer value =>
    rw [checkStatus] at h
    split at h
    · rename_i hrange
      obtain rfl := Option.some.inj h
      omega
    · cases h

theorem checkPipeOpts_range {opts : OptsArg} {given : Option ℕ}
    (h : checkPipeOpts opts = some given) :
    ∀ status, given = some status → 100 ≤ status ∧ status ≤ 599 := by
  rintro status rfl
  cases opts with
  | absent | invalid => cases h
  | plain arg =>
    cases arg with
    | none => cases h
    | some arg =>
      obtain ⟨code, hcode, hsame⟩ := Option.map_eq_some_iff.mp h
      obtain rfl := Option.some.inj hsame
      exact checkStatus_range hcode

theorem checkByte_range {element : Element} {byte : ℕ} (h : checkByte element = some byte) :
    byte ≤ 255 := by
  cases element with
  | other => cases h
  | integer value =>
    rw [checkByte] at h
    split at h
    · rename_i hrange
      obtain rfl := Option.some.inj h
      omega
    · cases h

theorem RealmChecked.leave {realm : Realm} (h : RealmChecked env matchKind realm) :
    RealmChecked env matchKind realm.leave.1 :=
  ⟨fun frame hframe => h.frames frame (List.mem_of_mem_tail hframe), h.response⟩

theorem RealmChecked.goOn {realm : Realm} {frame : Frame} (h : RealmChecked env matchKind realm)
    (hframe : FrameChecked env matchKind frame) :
    RealmChecked env matchKind (realm.goOn frame).1 := by
  refine ⟨?_, h.response⟩
  intro other hother
  rcases List.mem_cons.mp hother with rfl | hother
  · exact hframe
  · exact h.frames other (List.mem_of_mem_tail hother)

theorem RealmChecked.record {realm : Realm} {frame : Frame} {response : Recorded}
    (h : RealmChecked env matchKind realm)
    (hresponse : ∀ status headers body, response = .response status headers body →
      Checked env matchKind status headers body) :
    RealmChecked env matchKind (realm.record frame response).1 := by
  refine ⟨fun other hother => h.frames other (List.mem_of_mem_tail hother), ?_⟩
  intro status headers body hsome
  exact hresponse status headers body (Option.some.inj hsome)

theorem checkedHeaders_valid {frame : Frame} (h : checkedHeaders env matchKind frame = true) :
    (∃ pairs, validatedHeaderPairs env frame.headers = .ok pairs) ∧
      ∀ status body, frame.api = .respond status body →
        checkHostOwnedAllow matchKind frame.headers = true := by
  rw [checkedHeaders] at h
  cases hpairs : validatedHeaderPairs env frame.headers with
  | error message =>
    rw [hpairs] at h
    cases h
  | ok pairs =>
    rw [hpairs] at h
    refine ⟨⟨pairs, rfl⟩, ?_⟩
    intro status body hapi
    rw [hapi] at h
    exact h

theorem checkedBody_cases {realm : Realm} {frame : Frame} {status : ℕ} {arg : BodyArg}
    {body : RecordedBody} (hbytes : ∀ byte ∈ frame.bytes, byte ≤ 255)
    (h : checkedBody realm frame status arg = some body) :
    (∀ bytes, (body = .bytes bytes ∨ ∃ id, body = .array id bytes) → ∀ byte ∈ bytes, byte ≤ 255) ∧
      ∀ handle, body = .handle handle → checkFileStreamResponse status frame.headers = true := by
  cases arg with
  | absent | text text =>
    obtain rfl := Option.some.inj h
    exact ⟨by simp, nofun⟩
  | other => cases h
  | array id =>
    obtain rfl := Option.some.inj h
    refine ⟨?_, nofun⟩
    rintro bytes (hbody | ⟨other, hbody⟩)
    · cases hbody
    · obtain ⟨-, rfl⟩ := RecordedBody.array.inj hbody
      exact hbytes
  | typed content =>
    obtain rfl := Option.some.inj h
    refine ⟨?_, nofun⟩
    rintro bytes (hbody | ⟨other, hbody⟩) byte hbyte
    · obtain rfl := RecordedBody.bytes.inj hbody
      obtain ⟨value, -, rfl⟩ := List.mem_map.mp hbyte
      have hlt := value.toNat_lt
      omega
    · cases hbody
  | handle id =>
    rw [checkedBody] at h
    split at h
    · split at h
      · rename_i hplain
        obtain rfl := Option.some.inj h
        exact ⟨by simp, fun _ _ => hplain⟩
      · cases h
    · cases h

/-- A response that a call completes has passed its checks. -/
theorem completed_checked {realm : Realm} {frame : Frame} {rest : List Frame} {action : Action}
    (hframes : realm.frames = frame :: rest) (hframe : FrameChecked env matchKind frame)
    {status : ℕ} {headers : List (String × String)} {body : RecordedBody}
    (h : completed realm action = some (.response status headers body)) :
    Checked env matchKind status headers body := by
  rw [completed, hframes] at h
  simp only at h
  split at h
  · rename_i code arg hapi hphase
    obtain ⟨found, hbody, hsame⟩ := Option.map_eq_some_iff.mp h
    obtain ⟨rfl, rfl, rfl⟩ := Recorded.response.inj hsame
    have hrange := hframe.status_range code (by rw [hapi]; rfl)
    obtain ⟨hvalid, hallow⟩ := checkedHeaders_valid (hframe.headers hphase)
    obtain ⟨hall, hplain⟩ := checkedBody_cases hframe.bytes hbody
    exact ⟨hrange, hvalid, hallow code arg hapi, hall, hplain⟩
  · cases h
  · cases h

theorem stepFrame_checked {realm : Realm} {frame : Frame} {rest : List Frame} {action : Action}
    {result : Realm × Answer} (h : RealmChecked env matchKind realm)
    (hframes : realm.frames = frame :: rest)
    (hstep : FrameStepped env matchKind realm frame action result) :
    RealmChecked env matchKind result.1 := by
  have hframe : FrameChecked env matchKind frame := h.frames frame (by simp [hframes])
  cases hstep with
  | recorded action response hcompleted =>
    apply h.record
    rintro status headers body rfl
    exact completed_checked hframes hframe hcompleted
  | opts url status given opts hapi hopts =>
    exact h.goOn ⟨checkPipeOpts_range hopts, hframe.bytes, nofun⟩
  | header name value hphase =>
    refine h.goOn ⟨hframe.status_range, hframe.bytes, fun hlast => ?_⟩
    rw [hphase] at hlast
    cases hlast
  | headersEnd hphase hheaders =>
    exact h.goOn ⟨hframe.status_range, hframe.bytes, fun _ => hheaders⟩
  | element element byte status id hapi hbyte =>
    refine h.goOn ⟨hframe.status_range, ?_, hframe.headers⟩
    intro other hother
    rcases List.mem_append.mp hother with hold | hnew
    · exact hframe.bytes other hold
    · obtain rfl := List.mem_singleton.mp hnew
      exact checkByte_range hbyte
  | wrote level slot message hapi => exact ⟨h.leave.frames, h.response⟩
  | left action hnone hleft => exact h.leave
  | stayed action hnone => exact h

/-- A step of a script that leaves the prelude alone keeps what the checks have established. -/
theorem step_checked {realm : Realm} {action : Action}
    (hown : ∀ changed answer, action ≠ .tamper changed answer)
    (h : RealmChecked env matchKind realm) :
    RealmChecked env matchKind (step env matchKind realm action).1 := by
  have henter {frame : Frame} (hframe : FrameChecked env matchKind frame) :
      RealmChecked env matchKind { realm with frames := frame :: realm.frames } := by
    refine ⟨?_, h.response⟩
    intro other hother
    rcases List.mem_cons.mp hother with rfl | hother
    · exact hframe
    · exact h.frames other hother
  have hstep : Stepped env matchKind realm action (step env matchKind realm action) :=
    step_stepped action
  generalize step env matchKind realm action = result at hstep ⊢
  cases hstep with
  | ignored action label hcall hresponse => exact ⟨h.frames, h.response⟩
  | refused action hcall => exact h
  | respond arg status body hstatus hresponse =>
    refine henter ⟨?_, by simp, nofun⟩
    intro found hfound
    obtain rfl := Option.some.inj hfound
    exact checkStatus_range hstatus
  | pipe url hresponse => exact henter ⟨nofun, by simp, nofun⟩
  | log level =>
    have hentered : FrameChecked env matchKind ⟨.log level realm.slots.length, .last, [], []⟩ :=
      ⟨nofun, by simp, fun _ => rfl⟩
    exact ⟨(henter hentered).frames, h.response⟩
  | stream handle => exact ⟨h.frames, h.response⟩
  | idle action hframes => exact h
  | inner frame rest action _ hframes hinner => exact stepFrame_checked h hframes hinner
  | tampered changed answer => exact absurd rfl (hown changed answer)

end Checked

end StuntDouble.Prelude
