import StuntDouble.FileAccess
import StuntDouble.FileTree
import StuntDouble.Segments

/-!
Paths of `ctx.file`. A path is checked component by component, joined to the root and
canonicalized; the target has to be below the root, and to be a regular file both before and
after it is opened. The tree does not change during a call, and canonicalization follows all
links.
-/
namespace StuntDouble.Files

open FileTree RequestLog Script Segments

/-- No separator or null byte, and not one or two dots. -/
def ValidName (bytes : Bytes) : Prop :=
  bytes ≠ [] ∧ 47 ∉ bytes ∧ 0 ∉ bytes ∧ bytes ≠ [46] ∧ bytes ≠ [46, 46]

instance (bytes : Bytes) : Decidable (ValidName bytes) :=
  inferInstanceAs (Decidable (_ ∧ _))

/-- A file name as the system has it. -/
structure Name where
  bytes : Bytes
  valid : ValidName bytes
deriving DecidableEq

/-- What is in a file; its size is an unsigned 64-bit integer. -/
abbrev Content := {bytes : Bytes // bytes.length < 2 ^ 64}

structure IoError where
  notFound : Bool
  message : String

/-- The files of the system. A link of an opened file, where there is one, names what was
opened. -/
structure FileSystem where
  tree : Tree Name Content
  cwd : List Name
  canonicalize : Path Name → Except IoError (List Name)
  canonicalize_full : ∀ path loc, canonicalize path = .ok loc ↔ path.Resolves tree cwd loc
  readFdLink : List Name → Option (List Name)
  readFdLink_actual : ∀ loc actual, readFdLink loc = some actual → actual = loc

section System

variable (fs : FileSystem)

def FileSystem.metadata (loc : List Name) : Except IoError (Node Name Content) :=
  match fs.tree.node loc with
  | none => .error ⟨true, "No such file or directory (os error 2)"⟩
  | some node => .ok node

/-- An opened file stays the node that it was opened at. -/
def FileSystem.openAt (loc : List Name) : Except IoError (Node Name Content) :=
  match fs.tree.node loc with
  | none => .error ⟨true, "No such file or directory (os error 2)"⟩
  | some (.file false _) => .error ⟨false, "Permission denied (os error 13)"⟩
  | some node => .ok node

def isDir : Node Name Content → Bool
  | .directory _ => true
  | _ => false

/-- The content of a regular file. -/
def regular : Node Name Content → Option Content
  | .file _ content => some content
  | _ => none

/-- A piece of a path between separators; no name has a null byte. -/
def systemComponent (piece : List Char) : Option (FileTree.Component Name) :=
  if piece = ['.'] then some .current
  else if piece = ['.', '.'] then some .parent
  else if h : ValidName (Utf8.encodeChars piece) then some (.name ⟨Utf8.encodeChars piece, h⟩)
  else none

/-- The components of a path, as the system reads them; a separator at the end asks for a
directory. -/
def systemComponents (raw : String) : Option (List (FileTree.Component Name)) :=
  ((segments '/' raw.toList).mapM systemComponent).map (fun components =>
    if raw.toList.getLast? = some '/' then components ++ [.current] else components)

/-- Canonicalize a path joined to a root. -/
def FileSystem.canonicalizeJoined (root : List Name) (raw : String) :
    Except IoError (List Name) :=
  match systemComponents raw with
  | none => .error ⟨false, "file name contained an unexpected NUL byte"⟩
  | some components => fs.canonicalize ⟨true, absolute root ++ components⟩

end System

section Resolution

/-- A component as the standard library has it. -/
inductive PathComponent
  | rootDir
  | curDir
  | parentDir
  | normal (name : List Char)
deriving DecidableEq, Repr

/-- A single dot counts only at the start of a relative path. -/
def pathComponents (raw : List Char) : List PathComponent :=
  let pieces := segments '/' raw
  let start :=
    if raw.head? = some '/' then [.rootDir]
    else if pieces.head? = some ['.'] then [.curDir]
    else []
  start ++ pieces.filterMap (fun piece =>
    if piece = ['.'] then none
    else if piece = ['.', '.'] then some .parentDir
    else some (.normal piece))

def checkComponents : List PathComponent → Except Error Unit
  | [] => .ok ()
  | .parentDir :: _ => .error (.pathInvalid "`..` components are not allowed")
  | .rootDir :: _ => .error (.pathInvalid "absolute paths are not allowed")
  | .curDir :: rest => checkComponents rest
  | .normal _ :: rest => checkComponents rest

def mapOpenError (error : IoError) : Error :=
  if error.notFound then .notFound else .io error.message

variable (fs : FileSystem)

def resolve (root : Path Name) (raw : String) : Except Error (List Name × List Name) :=
  if raw = "" then .error (.pathInvalid "path must not be empty")
  else
    match checkComponents (pathComponents raw.toList) with
    | .error error => .error error
    | .ok () =>
      match fs.canonicalize root with
      | .error error => .error (.io error.message)
      | .ok root =>
        if ((fs.tree.node root).map isDir).getD false then
          match fs.canonicalizeJoined root raw with
          | .error error =>
            if error.notFound then .error .notFound else .error (.io error.message)
          | .ok target =>
            if root.isPrefixOf target then .ok (target, root)
            else .error (.pathInvalid "path escapes the static file root")
        else .error (.io "static file root is not a directory")

/-- The check after opening, as far as the system can say what was opened. -/
def verifyOpenTarget (target root : List Name) : Except Error Unit :=
  match fs.readFdLink target with
  | none => .ok ()
  | some actual =>
    match fs.canonicalize ⟨true, absolute actual⟩ with
    | .error _ => .ok ()
    | .ok canonical =>
      if root.isPrefixOf canonical then .ok ()
      else .error (.pathInvalid "path escapes the static file root")

def openFile (root : Path Name) (raw : String) : Except Error Content :=
  match resolve fs root raw with
  | .error error => .error error
  | .ok (target, root) =>
    match fs.metadata target with
    | .error error => .error (mapOpenError error)
    | .ok metadata =>
      if (regular metadata).isNone then .error (.io "path is not a regular file")
      else
        match fs.openAt target with
        | .error error => .error (mapOpenError error)
        | .ok opened =>
          match regular opened with
          | none => .error (.io "path is not a regular file")
          | some content =>
            match verifyOpenTarget fs target root with
            | .error error => .error error
            | .ok () => .ok content

/-- An opening for the bridge call. -/
def opening (root : Path Name) (startedAt finishedAt : ℕ) (raw : String) : Opening where
  content := (openFile fs root raw).map Subtype.val
  startedAt := startedAt
  finishedAt := finishedAt
  fits := by
    intro bytes h
    cases hopen : openFile fs root raw with
    | error error =>
      rw [hopen] at h
      cases h
    | ok content =>
      rw [hopen] at h
      cases h
      exact content.property

end Resolution

section Opened

variable {fs : FileSystem} {root : Path Name} {raw : String}

theorem resolve_ok {target canonical : List Name}
    (h : resolve fs root raw = .ok (target, canonical)) :
    fs.canonicalize root = .ok canonical ∧
      (∃ searchable, fs.tree.node canonical = some (.directory searchable)) ∧
      fs.canonicalizeJoined canonical raw = .ok target ∧ canonical <+: target := by
  unfold resolve at h
  split at h
  · cases h
  · split at h
    · cases h
    · split at h
      · cases h
      · rename_i found hroot
        split at h
        · rename_i hdir
          split at h
          · split at h
            · cases h
            · cases h
          · rename_i located htarget
            split at h
            · rename_i hprefix
              cases h
              refine ⟨hroot, ?_, htarget, List.isPrefixOf_iff_prefix.mp hprefix⟩
              cases hnode : fs.tree.node canonical with
              | none => simp [hnode] at hdir
              | some node =>
                cases node with
                | directory searchable => exact ⟨searchable, rfl⟩
                | file _ _ => simp [hnode, isDir] at hdir
                | other => simp [hnode, isDir] at hdir
                | link _ => simp [hnode, isDir] at hdir
            · cases h
        · cases h

theorem openFile_ok {content : Content} (h : openFile fs root raw = .ok content) :
    ∃ canonical target, resolve fs root raw = .ok (target, canonical) ∧
      fs.tree.node target = some (.file true content) := by
  unfold openFile at h
  split at h
  · cases h
  · rename_i target canonical hresolve
    refine ⟨canonical, target, hresolve, ?_⟩
    split at h
    · cases h
    · split at h
      · cases h
      · split at h
        · cases h
        · rename_i opened hopened
          split at h
          · cases h
          · rename_i found hregular
            split at h
            · cases h
            · cases h
              unfold FileSystem.openAt at hopened
              split at hopened
              · cases hopened
              · cases hopened
              · rename_i node hunreadable hnode
                cases hopened
                rw [hnode]
                cases opened with
                | file readable data =>
                  cases readable with
                  | true =>
                    cases hregular
                    rfl
                  | false => exact absurd rfl (hunreadable data)
                | directory _ => cases hregular
                | other => cases hregular
                | link _ => cases hregular

end Opened

section Calls

variable (base64 : Bytes → String) (elapsedMs : ℕ → Ms)

def FileOp.name : FileOp → String
  | readText => "readText"
  | readBytes => "readBytes"
  | stream => "stream"

def filePayload (op : FileOp) (raw : String) : Json :=
  .object [("op", .string op.name), ("path", .string raw)]

/-- What `ctx.file` answers for a path. -/
def answer (fs : FileSystem) (root : Path Name) (startedAt finishedAt : ℕ) (op : FileOp)
    (raw : String) (streams : Streams FileBody) (calls : CallLog) : Json :=
  (fileCall base64 elapsedMs (opening fs root startedAt finishedAt) (filePayload op raw) streams
    calls).json

def Succeeded (json : Json) : Prop := json.get "ok" = some (.bool true)

variable (fs : FileSystem) (root : Path Name) (startedAt finishedAt : ℕ) (op : FileOp)
  (raw : String) (streams : Streams FileBody) (calls : CallLog)

theorem fileCall_payload (openFile : String → Opening) :
    fileCall base64 elapsedMs openFile (filePayload op raw) streams calls =
      perform base64 elapsedMs op op.api (openFile raw) streams calls := by
  have hop : ((filePayload op raw).get "op").bind Json.asStr = some op.name := rfl
  have hpath : ((filePayload op raw).get "path").bind Json.asStr = some raw := rfl
  have hparse : FileOp.parse op.name = some op := by
    cases op with
    | readText => rfl
    | readBytes => rfl
    | stream => rfl
  unfold fileCall
  simp only [hop, hpath, hparse]

theorem answer_error {error : Error} (h : openFile fs root raw = .error error) :
    answer base64 elapsedMs fs root startedAt finishedAt op raw streams calls =
      errorJson error := by
  have hcontent : (opening fs root startedAt finishedAt raw).content = .error error :=
    congrArg (Except.map Subtype.val) h
  unfold answer
  rw [fileCall_payload, perform]
  simp only [hcontent]

theorem not_succeeded_errorJson (error : Error) : ¬ Succeeded (errorJson error) := by
  intro h
  have hok : (errorJson error).get "ok" = some (.bool false) := rfl
  rw [Succeeded, hok] at h
  cases h

/-- A call that succeeds has opened its file. -/
theorem succeeded_opened
    (h : Succeeded (answer base64 elapsedMs fs root startedAt finishedAt op raw streams calls)) :
    ∃ content, openFile fs root raw = .ok content := by
  cases hopen : openFile fs root raw with
  | ok content => exact ⟨content, rfl⟩
  | error error =>
    rw [answer_error base64 elapsedMs fs root startedAt finishedAt op raw streams calls hopen] at h
    exact absurd h (not_succeeded_errorJson error)

/-- A stream is there as soon as its file is opened. -/
theorem stream_succeeded {content : Content} (h : openFile fs root raw = .ok content) :
    Succeeded (answer base64 elapsedMs fs root startedAt finishedAt .stream raw streams calls) := by
  have hcontent : (opening fs root startedAt finishedAt raw).content = .ok content.val :=
    congrArg (Except.map Subtype.val) h
  unfold answer
  rw [fileCall_payload, perform]
  simp only [hcontent, if_true]
  rfl

end Calls

section Forbidden

/-- Empty, absolute, or with a component of two dots. -/
def Forbidden (raw : String) : Prop :=
  raw = "" ∨ raw.toList.head? = some '/' ∨ ['.', '.'] ∈ raw.toList.splitOn '/'

theorem checkComponents_refused {components : List PathComponent}
    (h : .rootDir ∈ components ∨ .parentDir ∈ components) :
    ∃ reason, checkComponents components = .error (.pathInvalid reason) := by
  fun_induction checkComponents components with
  | case1 => simp at h
  | case2 _ => exact ⟨_, rfl⟩
  | case3 _ => exact ⟨_, rfl⟩
  | case4 rest ih => exact ih (by simpa using h)
  | case5 name rest ih => exact ih (by simpa using h)

theorem checkComponents_error {components : List PathComponent} {error : Error}
    (h : checkComponents components = .error error) : ∃ reason, error = .pathInvalid reason := by
  fun_induction checkComponents components with
  | case1 => cases h
  | case2 _ =>
    cases h
    exact ⟨_, rfl⟩
  | case3 _ =>
    cases h
    exact ⟨_, rfl⟩
  | case4 rest ih => exact ih h
  | case5 name rest ih => exact ih h

theorem checkComponents_passed {components : List PathComponent}
    (h : ∀ component ∈ components, component ≠ .rootDir ∧ component ≠ .parentDir) :
    checkComponents components = .ok () := by
  fun_induction checkComponents components with
  | case1 => rfl
  | case2 _ => exact absurd rfl (h _ List.mem_cons_self).2
  | case3 _ => exact absurd rfl (h _ List.mem_cons_self).1
  | case4 rest ih => exact ih (fun component hmem => h component (List.mem_cons_of_mem _ hmem))
  | case5 name rest ih =>
    exact ih (fun component hmem => h component (List.mem_cons_of_mem _ hmem))

/-- A forbidden path is refused before anything is looked up. -/
theorem resolve_forbidden {raw : String} (h : Forbidden raw) :
    ∃ reason, ∀ fs root, resolve fs root raw = .error (.pathInvalid reason) := by
  by_cases hempty : raw = ""
  · refine ⟨"path must not be empty", fun fs root => ?_⟩
    rw [resolve, if_pos hempty]
  · have hmem : .rootDir ∈ pathComponents raw.toList ∨ .parentDir ∈ pathComponents raw.toList := by
      unfold pathComponents
      rcases h with hempty' | habsolute | hparent
      · exact absurd hempty' hempty
      · left
        simp only [if_pos habsolute]
        exact List.mem_append_left _ List.mem_cons_self
      · right
        apply List.mem_append_right
        rw [List.mem_filterMap]
        exact ⟨['.', '.'], List.mem_filter.mpr ⟨hparent, rfl⟩, rfl⟩
    obtain ⟨reason, hreason⟩ := checkComponents_refused hmem
    refine ⟨reason, fun fs root => ?_⟩
    rw [resolve, if_neg hempty, hreason]

end Forbidden

section Escape

/-- The path names a node that is not at the root or below it. -/
def Escapes (fs : FileSystem) (root : Path Name) (raw : String) : Prop :=
  ∃ canonical found, fs.canonicalize root = .ok canonical ∧
    fs.canonicalizeJoined canonical raw = .ok found ∧ ¬ canonical <+: found

theorem canonicalize_node {fs : FileSystem} {path : Path Name} {loc : List Name}
    (h : fs.canonicalize path = .ok loc) :
    ∃ node, fs.tree.node loc = some node ∧ ¬ node.IsLink :=
  ((fs.canonicalize_full path loc).mp h).2.node

/-- What is found through a root stands at the root, or the root is a directory. -/
theorem joined_directory {fs : FileSystem} {root : Path Name} {raw : String}
    {canonical found : List Name} (hroot : fs.canonicalize root = .ok canonical)
    (hfound : fs.canonicalizeJoined canonical raw = .ok found) (hne : found ≠ canonical) :
    ∃ searchable, fs.tree.node canonical = some (.directory searchable) := by
  unfold FileSystem.canonicalizeJoined at hfound
  split at hfound
  · cases hfound
  · rename_i components hcomponents
    obtain ⟨-, hresolves⟩ := (fs.canonicalize_full _ found).mp hfound
    have hnode : ∃ node, fs.tree.node ([] ++ canonical) = some node ∧ ¬ node.IsLink :=
      canonicalize_node hroot
    obtain ⟨-, hrest⟩ := (resolves_names_iff hnode).mp hresolves
    cases components with
    | nil =>
      cases hrest
      exact absurd rfl hne
    | cons first rest => exact ⟨true, hrest.searchable (List.cons_ne_nil _ _)⟩

theorem resolve_escapes {fs : FileSystem} {root : Path Name} {raw : String}
    (h : Escapes fs root raw) :
    ∃ reason, resolve fs root raw = .error (.pathInvalid reason) := by
  obtain ⟨canonical, found, hroot, hfound, hout⟩ := h
  by_cases hempty : raw = ""
  · exact ⟨_, by rw [resolve, if_pos hempty]⟩
  · cases hcheck : checkComponents (pathComponents raw.toList) with
    | error error =>
      obtain ⟨reason, rfl⟩ := checkComponents_error hcheck
      refine ⟨reason, ?_⟩
      rw [resolve, if_neg hempty, hcheck]
    | ok _ =>
      have hne : found ≠ canonical := by
        rintro rfl
        exact hout List.prefix_rfl
      obtain ⟨searchable, hdir⟩ := joined_directory hroot hfound hne
      have hprefix : ¬ canonical.isPrefixOf found = true :=
        fun hprefix => hout (List.isPrefixOf_iff_prefix.mp hprefix)
      refine ⟨"path escapes the static file root", ?_⟩
      rw [resolve, if_neg hempty]
      simp only [hcheck, hroot, hdir, hfound, Option.map_some, Option.getD_some, isDir, if_true,
        if_neg hprefix]

end Escape

section Addresses

/-- Names one below the other, as a relative path. -/
def joinNames : List String → List Char
  | [] => []
  | [name] => name.toList
  | name :: rest => name.toList ++ '/' :: joinNames rest

theorem encode_toList (text : String) : Utf8.encode text = Utf8.encodeChars text.toList := by
  rw [← Utf8.encode_ofList, String.ofList_toList]

/-- A text that encodes a name is one plain piece of a path. -/
theorem name_piece {text : String} (h : ValidName (Utf8.encode text)) :
    text.toList ≠ [] ∧ '/' ∉ text.toList ∧
      systemComponent text.toList = some (.name ⟨Utf8.encode text, h⟩) ∧
      text.toList ≠ ['.', '.'] := by
  have hvalid := h
  rw [encode_toList] at hvalid
  obtain ⟨hne, hslash, -, hdot, hdots⟩ := hvalid
  have hnil : text.toList ≠ [] := by
    intro hnil
    exact hne (by rw [hnil]; rfl)
  have hone : text.toList ≠ ['.'] := by
    intro hone
    exact hdot (by rw [hone]; rfl)
  have htwo : text.toList ≠ ['.', '.'] := by
    intro htwo
    exact hdots (by rw [htwo]; rfl)
  refine ⟨hnil, ?_, ?_, htwo⟩
  · intro hmem
    apply hslash
    exact List.mem_flatMap.mpr ⟨'/', hmem, List.mem_singleton.mpr rfl⟩
  · have hencoded : ValidName (Utf8.encodeChars text.toList) := encode_toList text ▸ h
    rw [systemComponent, if_neg hone, if_neg htwo, dif_pos hencoded]
    simp only [encode_toList]

/-- The pieces of joined names, and the ends of the path. -/
theorem joinNames_pieces (texts : List String) (hne : texts ≠ [])
    (h : ∀ text ∈ texts, text.toList ≠ [] ∧ '/' ∉ text.toList) :
    segments '/' (joinNames texts) = texts.map String.toList ∧
      (joinNames texts).head? ≠ some '/' ∧ (joinNames texts).getLast? ≠ some '/' ∧
      joinNames texts ≠ [] := by
  fun_induction joinNames texts with
  | case1 => exact absurd rfl hne
  | case2 name =>
    obtain ⟨hnil, hslash⟩ := h name List.mem_cons_self
    refine ⟨segments_piece '/' _ hnil hslash, ?_, ?_, hnil⟩
    · exact fun hhead => hslash (List.mem_of_head? hhead)
    · exact fun hlast => hslash (List.mem_of_getLast? hlast)
  | case3 name rest hrest ih =>
    obtain ⟨hnil, hslash⟩ := h name List.mem_cons_self
    obtain ⟨hpieces, -, hlast, hmore⟩ :=
      ih hrest (fun text hmem => h text (List.mem_cons_of_mem _ hmem))
    refine ⟨?_, ?_, ?_, by simp⟩
    · rw [segments_cons '/' _ _ hnil hslash, hpieces, List.map_cons]
    · rw [List.head?_append_of_ne_nil _ hnil]
      exact fun hhead => hslash (List.mem_of_head? hhead)
    · rw [List.getLast?_append, List.getLast?_cons_of_ne_nil hmore,
        List.getLast?_eq_some_getLast hmore, Option.some_or]
      rwa [List.getLast?_eq_some_getLast hmore] at hlast

/-- The texts are the names of the tree, in UTF-8. -/
def Spells (texts : List String) (names : List Name) : Prop :=
  texts.map Utf8.encode = names.map Name.bytes

theorem Spells.cons {text : String} {texts : List String} {names : List Name}
    (h : Spells (text :: texts) names) :
    ∃ name rest, names = name :: rest ∧ Utf8.encode text = name.bytes ∧ Spells texts rest := by
  cases names with
  | nil => cases h
  | cons name rest =>
    obtain ⟨hname, hrest⟩ := List.cons.inj h
    exact ⟨name, rest, rfl, hname, hrest⟩

theorem Spells.valid {texts : List String} {names : List Name} (h : Spells texts names) :
    ∀ text ∈ texts, ValidName (Utf8.encode text) := by
  intro text hmem
  have hbytes : Utf8.encode text ∈ names.map Name.bytes := h ▸ List.mem_map_of_mem hmem
  obtain ⟨name, -, hname⟩ := List.mem_map.mp hbytes
  exact hname ▸ name.valid

theorem mapM_names {texts : List String} {names : List Name} (h : Spells texts names) :
    (texts.map String.toList).mapM systemComponent = some (absolute names) := by
  induction texts generalizing names with
  | nil =>
    cases names with
    | nil => rfl
    | cons name rest => cases h
  | cons text texts ih =>
    have hvalid := h.valid text List.mem_cons_self
    obtain ⟨name, rest, rfl, hname, hrest⟩ := h.cons
    obtain ⟨-, -, hcomponent, -⟩ := name_piece hvalid
    have hsame : (⟨Utf8.encode text, hvalid⟩ : Name) = name := by
      cases name
      simp only [hname]
    rw [List.map_cons, List.mapM_cons, hcomponent, ih hrest, hsame]
    rfl

variable {texts : List String} {names : List Name} (h : Spells texts names) (hne : texts ≠ [])

include h hne

theorem systemComponents_join :
    systemComponents (String.ofList (joinNames texts)) = some (absolute names) := by
  obtain ⟨hpieces, -, hlast, -⟩ := joinNames_pieces texts hne (fun text hmem =>
    ⟨(name_piece (h.valid text hmem)).1, (name_piece (h.valid text hmem)).2.1⟩)
  unfold systemComponents
  rw [String.toList_ofList, hpieces, mapM_names h, Option.map_some, if_neg hlast]

theorem checkComponents_join :
    checkComponents (pathComponents (joinNames texts)) = .ok () := by
  obtain ⟨hpieces, hhead, -, -⟩ := joinNames_pieces texts hne (fun text hmem =>
    ⟨(name_piece (h.valid text hmem)).1, (name_piece (h.valid text hmem)).2.1⟩)
  apply checkComponents_passed
  intro component hmem
  unfold pathComponents at hmem
  simp only [if_neg hhead, hpieces] at hmem
  rcases List.mem_append.mp hmem with hstart | hpiece
  · split at hstart
    · rw [List.mem_singleton.mp hstart]
      exact ⟨nofun, nofun⟩
    · cases hstart
  · obtain ⟨piece, hin, hcomponent⟩ := List.mem_filterMap.mp hpiece
    obtain ⟨text, htext, rfl⟩ := List.mem_map.mp hin
    rw [if_neg (name_piece (h.valid text htext)).2.2.2] at hcomponent
    split at hcomponent
    · cases hcomponent
    · cases hcomponent
      exact ⟨nofun, nofun⟩

omit h hne

/-- Whatever the system says about an opened file, it says where it stands. -/
theorem verifyOpenTarget_inside {fs : FileSystem} {canonical names : List Name} {content : Content}
    (h : fs.tree.Readable (canonical ++ names) content) :
    verifyOpenTarget fs (canonical ++ names) canonical = .ok () := by
  unfold verifyOpenTarget
  split
  · rfl
  · rename_i actual hactual
    obtain rfl := fs.readFdLink_actual _ _ hactual
    split
    · rfl
    · rename_i found hfound
      have hresolves := ((fs.canonicalize_full _ found).mp hfound).2
      obtain rfl := hresolves.unique h.resolves
      rw [if_pos (List.isPrefixOf_iff_prefix.mpr (List.prefix_append _ _))]

/-- A readable file below the root is opened by its path from there. -/
theorem openFile_join {fs : FileSystem} {root : Path Name} {canonical : List Name}
    {content : Content} (hroot : fs.canonicalize root = .ok canonical)
    (hspells : Spells texts names) (hnonempty : texts ≠ [])
    (h : fs.tree.Readable (canonical ++ names) content) :
    openFile fs root (String.ofList (joinNames texts)) = .ok content := by
  have hnames : names ≠ [] := by
    rintro rfl
    exact hnonempty (List.map_eq_nil_iff.mp hspells)
  obtain ⟨searchable, hdir⟩ := fs.tree.above canonical names hnames
    (by rw [h.file]; exact Option.some_ne_none _)
  have hjoined : fs.canonicalizeJoined canonical (String.ofList (joinNames texts)) =
      .ok (canonical ++ names) := by
    have hpath : absolute canonical ++ absolute names = absolute (canonical ++ names) :=
      List.map_append.symm
    unfold FileSystem.canonicalizeJoined
    rw [systemComponents_join hspells hnonempty]
    simp only [hpath]
    exact (fs.canonicalize_full _ _).mpr ⟨Or.inl rfl, h.resolves⟩
  have hempty : String.ofList (joinNames texts) ≠ "" := by
    obtain ⟨-, -, -, hjoin⟩ := joinNames_pieces texts hnonempty (fun text hmem =>
      ⟨(name_piece (hspells.valid text hmem)).1, (name_piece (hspells.valid text hmem)).2.1⟩)
    intro hempty
    apply hjoin
    rw [← String.toList_ofList (l := joinNames texts), hempty]
    rfl
  have hresolve : resolve fs root (String.ofList (joinNames texts)) =
      .ok (canonical ++ names, canonical) := by
    rw [resolve, if_neg hempty, String.toList_ofList, checkComponents_join hspells hnonempty]
    simp only [hroot, hdir, hjoined, Option.map_some, Option.getD_some, isDir, if_true,
      List.isPrefixOf_iff_prefix.mpr (List.prefix_append canonical names)]
  have hmetadata : fs.metadata (canonical ++ names) = .ok (.file true content) := by
    rw [FileSystem.metadata, h.file]
  have hopen : fs.openAt (canonical ++ names) = .ok (.file true content) := by
    rw [FileSystem.openAt, h.file]
  rw [openFile, hresolve]
  simp only [hmetadata, hopen, regular, Option.isNone_some, Bool.false_eq_true, if_false,
    verifyOpenTarget_inside h]

end Addresses

/-- `ctx.file` reads regular files below the root, and every one of them that it may read. -/
theorem file_confinement (base64 : Bytes → String) (elapsedMs : ℕ → Ms) (fs : FileSystem)
    (root : Path Name) (startedAt finishedAt : ℕ) (op : FileOp) (raw : String)
    (streams : Streams FileBody) (calls : CallLog) :
    (Succeeded (answer base64 elapsedMs fs root startedAt finishedAt op raw streams calls) →
      ∃ canonical names content, fs.canonicalize root = .ok canonical ∧ names ≠ [] ∧
        fs.canonicalizeJoined canonical raw = .ok (canonical ++ names) ∧
        fs.tree.node (canonical ++ names) = some (.file true content) ∧
        openFile fs root raw = .ok content) ∧
    (Forbidden raw → ∃ reason, ∀ (fs : FileSystem) (root : Path Name),
      answer base64 elapsedMs fs root startedAt finishedAt op raw streams calls =
        errorJson (.pathInvalid reason)) ∧
    (Escapes fs root raw → ∃ reason,
      answer base64 elapsedMs fs root startedAt finishedAt op raw streams calls =
        errorJson (.pathInvalid reason)) ∧
    (∀ canonical names texts content, fs.canonicalize root = .ok canonical →
      Spells texts names → names ≠ [] → fs.tree.Readable (canonical ++ names) content →
      raw = String.ofList (joinNames texts) →
        openFile fs root raw = .ok content ∧
        Succeeded (answer base64 elapsedMs fs root startedAt finishedAt .stream raw streams
          calls)) := by
  refine ⟨?_, ?_, ?_, ?_⟩
  · intro h
    obtain ⟨content, hopen⟩ :=
      succeeded_opened base64 elapsedMs fs root startedAt finishedAt op raw streams calls h
    obtain ⟨canonical, target, hresolve, hnode⟩ := openFile_ok hopen
    obtain ⟨hroot, ⟨searchable, hdir⟩, hjoined, names, rfl⟩ := resolve_ok hresolve
    refine ⟨canonical, names, content, hroot, ?_, hjoined, hnode, hopen⟩
    rintro rfl
    rw [List.append_nil, hdir] at hnode
    cases hnode
  · intro h
    obtain ⟨reason, hresolve⟩ := resolve_forbidden h
    refine ⟨reason, fun fs root => ?_⟩
    apply answer_error
    rw [openFile, hresolve]
  · intro h
    obtain ⟨reason, hresolve⟩ := resolve_escapes h
    refine ⟨reason, ?_⟩
    apply answer_error
    rw [openFile, hresolve]
  · rintro canonical names texts content hroot hspells hnames hreadable rfl
    have htexts : texts ≠ [] := by
      rintro rfl
      exact hnames (List.map_eq_nil_iff.mp hspells.symm)
    have hopen := openFile_join hroot hspells htexts hreadable
    exact ⟨hopen, stream_succeeded base64 elapsedMs fs root startedAt finishedAt _ streams calls
      hopen⟩

section Sample

/-- The files of a tree, canonicalized by following all links. -/
noncomputable def FileSystem.ofTree (tree : Tree Name Content) : FileSystem where
  tree := tree
  cwd := []
  canonicalize path :=
    open scoped Classical in
    if h : ∃ loc, path.Resolves tree [] loc then .ok h.choose
    else .error ⟨true, "No such file or directory (os error 2)"⟩
  canonicalize_full path loc := by
    constructor
    · intro h
      split at h
      · rename_i hexists
        cases h
        exact hexists.choose_spec
      · cases h
    · intro h
      have hexists : ∃ loc, path.Resolves tree [] loc := ⟨loc, h⟩
      rw [dif_pos hexists, hexists.choose_spec.2.unique h.2]
  readFdLink loc := some loc
  readFdLink_actual _ _ h := (Option.some.inj h).symm

def rootName : Name := ⟨[114], by decide⟩

def insideName : Name := ⟨[97], by decide⟩

def linkName : Name := ⟨[120], by decide⟩

def outsideName : Name := ⟨[115], by decide⟩

/-- A root with a file and with a link to a file beside the root. -/
def sampleTree : Tree Name Content where
  node loc :=
    if loc = [] ∨ loc = [rootName] then some (.directory true)
    else if loc = [rootName, insideName] ∨ loc = [outsideName] then
      some (.file true ⟨[104, 105], by decide⟩)
    else if loc = [rootName, linkName] then some (.link ⟨false, [.parent, .name outsideName]⟩)
    else none
  top := ⟨true, rfl⟩
  inside loc n h := by
    match loc with
    | [] => exact ⟨true, rfl⟩
    | [name] =>
      by_cases hname : name = rootName
      · exact ⟨true, by simp [hname]⟩
      · simp [hname] at h
    | _ :: _ :: rest => simp at h

/-- The file in the root is read, and the link out of it is refused. -/
theorem file_confinement_link (base64 : Bytes → String) (elapsedMs : ℕ → Ms) :
    Succeeded (answer base64 elapsedMs (.ofTree sampleTree) ⟨true, [.name rootName]⟩ 0 1 .stream
      "a" [] []) ∧
    ∃ reason, answer base64 elapsedMs (.ofTree sampleTree) ⟨true, [.name rootName]⟩ 0 1 .readText
      "x" [] [] = errorJson (.pathInvalid reason) := by
  have htop : sampleTree.Searchable [] := rfl
  have hroot : (FileSystem.ofTree sampleTree).canonicalize ⟨true, [.name rootName]⟩ =
      .ok [rootName] :=
    ((FileSystem.ofTree sampleTree).canonicalize_full _ _).mpr
      ⟨Or.inl rfl, .name [] rootName [] _ (.directory true) htop rfl id (.done _ _ rfl id)⟩
  have hlink : Resolves sampleTree [] (absolute [rootName] ++ absolute [linkName])
      [outsideName] :=
    .name [] rootName _ _ (.directory true) htop rfl id
      (.link [rootName] linkName [] _ ⟨false, [.parent, .name outsideName]⟩ rfl rfl
        (.parent [rootName] _ _ rfl
          (.name [] outsideName [] _ (.file true ⟨[104, 105], by decide⟩) htop rfl id
            (.done _ _ rfl id))))
  constructor
  · have hreadable : sampleTree.Readable ([rootName] ++ [insideName]) ⟨[104, 105], by decide⟩ := by
      refine ⟨rfl, ?_⟩
      intro front back hloc hne
      match front with
      | [] => rfl
      | [name] =>
        obtain ⟨rfl, -⟩ := List.cons.inj hloc
        rfl
      | _ :: _ :: rest =>
        obtain ⟨-, htail⟩ := List.cons.inj hloc
        obtain ⟨-, hback⟩ := List.cons.inj htail
        exact absurd (List.append_eq_nil_iff.mp hback.symm).2 hne
    exact ((file_confinement base64 elapsedMs (.ofTree sampleTree) ⟨true, [.name rootName]⟩ 0 1
      .stream "a" [] []).2.2.2 [rootName] [insideName] ["a"] _ hroot rfl (List.cons_ne_nil _ _)
        hreadable rfl).2
  · have hcomponents : systemComponents (String.ofList (joinNames ["x"])) =
        some (absolute [linkName]) := systemComponents_join rfl (List.cons_ne_nil _ _)
    have hjoined : (FileSystem.ofTree sampleTree).canonicalizeJoined [rootName] "x" =
        .ok [outsideName] := by
      unfold FileSystem.canonicalizeJoined
      rw [show "x" = String.ofList (joinNames ["x"]) from rfl, hcomponents]
      exact ((FileSystem.ofTree sampleTree).canonicalize_full _ _).mpr ⟨Or.inl rfl, hlink⟩
    exact (file_confinement base64 elapsedMs (.ofTree sampleTree) ⟨true, [.name rootName]⟩ 0 1
      .readText "x" [] []).2.2.1 ⟨[rootName], [outsideName], hroot, hjoined, by decide⟩

end Sample

end StuntDouble.Files
