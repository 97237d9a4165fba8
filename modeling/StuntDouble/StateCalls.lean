import StuntDouble.BridgeCalls
import StuntDouble.JsonTrees
import StuntDouble.StateBridge
import StuntDouble.StateValues

/-!
The calls of `ctx.state` from a script to the shared store and back. The prelude checks the
arguments, writes a payload, and reads what the store answers. Over whole runs of any number
of scripts the calls are those of a map of values that expire.
-/
namespace StuntDouble.Prelude

open JsonText Machine

section Payloads

variable {n : ℕ}

/-- The options of a write; `ttl` is what `opts.ttl_ms` is found to be when it is there. -/
inductive StateOpts
  | absent
  | other
  | plain (symbols : ℕ) (names : List (List UInt16)) (ttl : Element)

def ttlName : List UInt16 := Utf16.encode "ttl_ms"

def maxSafeInteger : ℕ := 2 ^ 53 - 1

def checkTtl : Element → Except Thrown (Option ℕ)
  | .integer ttl =>
    if ttl.natAbs ≤ maxSafeInteger ∧ 0 < ttl ∧ ttl ≤ State.maxTtlMs then .ok (some ttl.toNat)
    else .error (invalidState "ctx.state: opts.ttl_ms must be an integer in [1, 604800000]")
  | .other =>
    .error (invalidState "ctx.state: opts.ttl_ms must be an integer in [1, 604800000]")

def checkStateTtl : StateOpts → Except Thrown (Option ℕ)
  | .absent => .ok none
  | .other => .error (invalidState "ctx.state: opts must be a plain object")
  | .plain symbols names ttl =>
    if symbols ≠ 0 then .error (invalidState "ctx.state: unknown opts key")
    else if names.all (· == ttlName) then
      if ttlName ∈ names then checkTtl ttl else .ok none
    else .error (invalidState "ctx.state: unknown opts key")

variable (numberText : UInt64 → NumberText) (heap : Fin n → Obj n)

/-- What an element of an array or a member of an object is written as; a member that is
hidden or that JSON has no place for is left out. -/
def elementTree (tree : Value n → Option Tree) : Option (Property n) → Option Tree
  | none | some (.data (.other _) _) => some .null
  | some (.data value _) => tree value
  | some (.accessor _) => none

def memberTree (tree : Value n → Option Tree) :
    List UInt16 × Property n → Option (List (List UInt16 × Tree))
  | (_, .data _ false) | (_, .data (.other _) true) | (_, .accessor false) => some []
  | (name, .data value true) => (tree value).map fun tree => [(name, tree)]
  | (_, .accessor true) => none

/-- What an engine writes for a value whose properties are data and that inherits no `toJSON`, to
a depth that is given. -/
def treeOf : ℕ → Value n → Option Tree
  | _, .null => some .null
  | _, .boolean b => some (.bool b)
  | _, .number bits => some (if isFinite bits then .number (numberText bits) else .null)
  | _, .string units => some (.string units)
  | _, .other _ => none
  | 0, .object _ => none
  | fuel + 1, .object r =>
    match (heap r).length with
    | some length =>
      (((List.range length).map fun index =>
        (heap r).getOwnPropertyDescriptor (indexName index)).mapM
          (elementTree (treeOf fuel))).map .array
    | none => ((heap r).props.mapM (memberTree (treeOf fuel))).map fun parts =>
        .object parts.flatten

/-- The members of a payload, `ttl_ms` among them when there is one. -/
def statePayload (operation : String) (key : List UInt16) (value : Option Tree)
    (ttl : Option ℕ) : Tree :=
  .object ([(Utf16.encode "op", .string (Utf16.encode operation)),
    (Utf16.encode "key", .string key)] ++
      (value.map fun value => (Utf16.encode "value", value)).toList ++
        (ttl.map fun ttl => (ttlName, natTree ttl)).toList)

end Payloads

section Calls

/-- A call of `ctx.state`, with the objects that its arguments are made of. -/
inductive StateCall (n : ℕ)
  | get (key : KeyArg)
  | set (key : KeyArg) (value : Value n) (opts : StateOpts)
  | take (key : KeyArg)
  | setIfAbsent (key : KeyArg) (value : Value n) (opts : StateOpts)

/-- How the engine writes numbers, and how the host and then the engine read them. -/
structure NumberFormat where
  numberText : UInt64 → NumberText
  hostFloat : List Char → Option UInt64
  scriptFloat : List Char → Option UInt64

variable {n : ℕ} (format : NumberFormat) (p : State.Platform) (heap : Fin n → Obj n)

/-- The payload of a read. -/
def readState (operation : String) (key : KeyArg) : Except Thrown Tree := do
  let key ← checkStateKey key
  return statePayload operation key none none

/-- The payload of a write; what cannot be written is an error of the bridge. -/
def writeState (operation : String) (key : KeyArg) (value : Value n) (opts : StateOpts) :
    Except Thrown (Option Tree) := do
  let _ ← checkStateValue heap value [] 0
  let key ← checkStateKey key
  let ttl ← checkStateTtl opts
  return (treeOf format.numberText heap (State.maxValueDepth + 1) value).map fun value =>
    statePayload operation key (some value) ttl

def StateCall.payload : StateCall n → Except Thrown (Option Tree)
  | .get key => (readState "get" key).map some
  | .take key => (readState "take" key).map some
  | .set key value opts => writeState format heap "set" key value opts
  | .setIfAbsent key value opts => writeState format heap "setIfAbsent" key value opts

/-- The bridge to the store: the worker reads the payload, and writes out the answer. Both are
taken to fit into the lines between worker and host. -/
def serveState (shared : State.SharedState) (now : ℕ) (payload : Option Tree) :
    State.SharedState × Option (List Char) :=
  match payload.bind fun payload => fromStr format.hostFloat (stringify payload) with
  | none => (shared, none)
  | some json =>
    match State.dispatchState p shared now json with
    | (shared, reply) => (shared, some (Json.compactChars p.floatText reply))

def orElse (text : Option Json) (default : String) : String :=
  ((text.bind Json.asStr).filter (· != "")).getD default

/-- What the prelude makes of the answer. -/
def stateCall : Option (List Char) → Except Thrown Json
  | none => .error (.coded "state_internal_error" "ctx.state: host bridge failed")
  | some raw =>
    match parse format.scriptFloat raw with
    | none => .error (.coded "state_internal_error" "ctx.state: invalid host response")
    | some result =>
      if truthy (result.get "ok") then .ok result
      else .error (.coded (orElse (result.get "code") "state_internal_error")
        (orElse (result.get "message") "ctx.state failed"))

/-- What a call returns; nothing is `undefined`. -/
def StateCall.returned (result : Json) : StateCall n → Option Json
  | .get _ | .take _ => if truthy (result.get "found") then result.get "value" else none
  | .set _ _ _ => none
  | .setIfAbsent _ _ _ => result.get "stored"

def StateCall.run (shared : State.SharedState) (now : ℕ) (call : StateCall n) :
    State.SharedState × Except Thrown (Option Json) :=
  match call.payload format heap with
  | .error thrown => (shared, .error thrown)
  | .ok payload =>
    match serveState format p shared now payload with
    | (shared, raw) => (shared, (stateCall format raw).map fun result => call.returned result)

end Calls

section Trees

variable {n : ℕ} {toNumber : UInt64 → Number} {numberText : UInt64 → NumberText}
  {readFloat : List Char → Option UInt64} {heap : Fin n → Obj n}

theorem exists_items {A : Type} (tree : A → Option Tree) (values : List A) (items : List Json)
    (hlength : items.length = values.length)
    (h : ∀ pair ∈ values.zip items, ∃ t, tree pair.1 = some t ∧ t.toJson readFloat = some pair.2) :
    ∃ trees, values.mapM tree = some trees ∧ itemsToJson readFloat trees = some items := by
  induction values generalizing items with
  | nil =>
    rw [List.length_eq_zero_iff.mp hlength]
    exact ⟨[], rfl, rfl⟩
  | cons value values ih =>
    cases items with
    | nil => cases hlength
    | cons item items =>
      rw [List.zip_cons_cons, List.forall_mem_cons] at h
      obtain ⟨⟨t, htree, hread⟩, hrest⟩ := h
      obtain ⟨trees, htrees, hreads⟩ := ih items (Nat.succ.inj hlength) hrest
      refine ⟨t :: trees, ?_, ?_⟩
      · rw [List.mapM_cons, htree, htrees]
        rfl
      · rw [itemsToJson, hread, hreads]
        rfl

theorem exists_entries {tree : Value n → Option Tree} (members : List (String × Value n))
    (entries : List (String × Json)) (hkeys : entries.map Prod.fst = members.map Prod.fst)
    (h : ∀ pair ∈ members.zip entries, ∃ t,
      memberTree tree (Utf16.encode pair.1.1, .data pair.1.2 true) =
          some [(Utf16.encode pair.1.1, t)] ∧ t.toJson readFloat = some pair.2.2) :
    ∃ parts, (members.map fun member => (Utf16.encode member.1, Property.data member.2 true)).mapM
        (memberTree tree) = some parts ∧
      entriesToJson readFloat parts.flatten = some entries := by
  induction members generalizing entries with
  | nil =>
    rw [List.map_eq_nil_iff.mp hkeys]
    exact ⟨[], rfl, rfl⟩
  | cons member members ih =>
    cases entries with
    | nil => cases hkeys
    | cons entry entries =>
      rw [List.zip_cons_cons, List.forall_mem_cons] at h
      obtain ⟨⟨t, htree, hread⟩, hrest⟩ := h
      obtain ⟨hkey, hkeys⟩ := List.cons.inj hkeys
      obtain ⟨parts, hparts, hreads⟩ := ih entries hkeys hrest
      refine ⟨[(Utf16.encode member.1, t)] :: parts, ?_, ?_⟩
      · rw [List.map_cons, List.mapM_cons, htree, hparts]
        rfl
      · rw [List.flatten_cons, List.singleton_append, entriesToJson, toText_encode, hread, hreads]
        simp only [Option.bind_some, Option.map_some, ← hkey]

theorem Unfolds.elementTree_eq {value : Value n} {json : Json}
    (h : Unfolds toNumber heap value json) (tree : Value n → Option Tree) :
    elementTree tree (some (.data value true)) = tree value := by
  cases h <;> rfl

theorem Unfolds.memberTree_eq {value : Value n} {json : Json} (h : Unfolds toNumber heap value json)
    (tree : Value n → Option Tree) (name : List UInt16) :
    memberTree tree (name, .data value true) = (tree value).map fun tree => [(name, tree)] := by
  cases h <;> rfl

theorem DenseArray.descriptors {object : Obj n} {values : List (Value n)}
    (h : DenseArray object values) :
    (List.range values.length).map (fun index =>
      object.getOwnPropertyDescriptor (indexName index)) =
        values.map fun value => some (.data value true) := by
  apply List.ext_getElem
  · simp
  · intro index hleft hright
    rw [List.getElem_map, List.getElem_map, List.getElem_range]
    rw [List.length_map] at hright
    exact h.element index _ (List.getElem?_eq_getElem hright)

/-- What the engine writes for a value that unfolds is read as the tree it unfolds to. -/
theorem Unfolds.exists_tree {value : Value n} {json : Json}
    (hreads : ∀ bits, isFinite bits = true → bits ≠ negativeZero →
      numberOf readFloat (numberText bits).val = some (toNumber bits))
    (h : Unfolds toNumber heap value json) (fuel : ℕ) (hfuel : json.nesting < fuel) :
    ∃ tree, treeOf numberText heap fuel value = some tree ∧
      tree.toJson readFloat = some json := by
  induction h generalizing fuel with
  | null => exact ⟨.null, by simp [treeOf], rfl⟩
  | boolean b => exact ⟨.bool b, by simp [treeOf], rfl⟩
  | number bits hfinite hzero =>
    refine ⟨.number (numberText bits), by simp [treeOf, hfinite], ?_⟩
    rw [Tree.toJson, hreads bits hfinite hzero, Option.map_some]
  | string text =>
    refine ⟨.string (Utf16.encode text), by simp [treeOf], ?_⟩
    rw [Tree.toJson, toText_encode, Option.map_some]
  | array r values items hdense hlength hitems ih =>
    cases fuel with
    | zero => cases hfuel
    | succ fuel =>
      have hall : ∀ pair ∈ values.zip items, ∃ t,
          elementTree (treeOf numberText heap fuel) (some (.data pair.1 true)) = some t ∧
            t.toJson readFloat = some pair.2 := by
        intro pair hpair
        rw [(hitems pair hpair).elementTree_eq]
        apply ih pair hpair
        by_contra hdeep
        have hmem := (lt_nestingItems_iff (Nat.zero_le fuel) items).mpr
          ⟨pair.2, (List.of_mem_zip hpair).2, by omega⟩
        have hnesting : Json.nestingItems items < fuel + 1 := hfuel
        omega
      obtain ⟨trees, htrees, hread⟩ := exists_items
        (fun value => elementTree (treeOf numberText heap fuel) (some (.data value true)))
        values items hlength hall
      refine ⟨.array trees, ?_, ?_⟩
      · rw [treeOf, hdense.length]
        simp only [hdense.descriptors, List.mapM_map]
        exact congrArg (Option.map Tree.array) htrees
      · rw [Tree.toJson, hread, Option.map_some]
  | object r members entries hplain hkeys hentries ih =>
    cases fuel with
    | zero => cases hfuel
    | succ fuel =>
      have hall : ∀ pair ∈ members.zip entries, ∃ t,
          memberTree (treeOf numberText heap fuel)
              (Utf16.encode pair.1.1, .data pair.1.2 true) = some [(Utf16.encode pair.1.1, t)] ∧
            t.toJson readFloat = some pair.2.2 := by
        intro pair hpair
        have hless : pair.2.2.nesting < fuel := by
          by_contra hdeep
          have hmem := (lt_nestingEntries_iff (Nat.zero_le fuel) entries).mpr
            ⟨pair.2, (List.of_mem_zip hpair).2, by omega⟩
          have hnesting : Json.nestingEntries entries < fuel + 1 := hfuel
          omega
        obtain ⟨t, htree, hread⟩ := ih pair hpair fuel hless
        refine ⟨t, ?_, hread⟩
        rw [(hentries pair hpair).memberTree_eq, htree, Option.map_some]
      obtain ⟨parts, hparts, hread⟩ := exists_entries members entries hkeys hall
      refine ⟨.object parts.flatten, ?_, ?_⟩
      · rw [treeOf, hplain.length]
        simp only [hplain.props]
        rw [hparts, Option.map_some]
      · rw [Tree.toJson, hread, Option.map_some]

end Trees

section Invalid

variable {n : ℕ} {heap : Fin n → Obj n}

end Invalid

section Operations

variable {n : ℕ} (toNumber : UInt64 → Number) (heap : Fin n → Obj n)

/-- A key is a text of 1 to 256 bytes. -/
def keyOf : KeyArg → Option String
  | .text units =>
    (toText units).filter fun key => decide (key.utf8ByteSize ≠ 0 ∧ key.utf8ByteSize ≤ 256)
  | .other => none

open Classical in
/-- A value is what it unfolds to, in at most 32 levels. -/
noncomputable def valueOf (value : Value n) : Option Json :=
  if h : ∃ json, Unfolds toNumber heap value json ∧ json.nesting ≤ 32 then
    some h.choose.toValue
  else none

/-- A time to live is 1 ms to 7 days, in nanoseconds. -/
def nanosOf : Element → Option ℕ
  | .integer ttl =>
    if 1 ≤ ttl ∧ ttl ≤ 7 * 24 * 60 * 60 * 1000 then some (ttl.toNat * 1000000) else none
  | .other => none

def ttlOf : StateOpts → Option (Option ℕ)
  | .absent => some none
  | .other => none
  | .plain symbols names ttl =>
    if symbols = 0 ∧ ∀ name ∈ names, name = ttlName then
      if names = [] then some none else (nanosOf ttl).map some
    else none

/-- The answers that a call can have. -/
def StateCall.Answers : StateCall n → State.Answer → Prop
  | .get _, .found _ | .take _, .found _ | .set _ _ _, .done | .setIfAbsent _ _ _, .stored _ => True
  | _, _ => False

/-- The operation that a call asks for. -/
noncomputable def StateCall.op : StateCall n → Option State.Op
  | .get key => (keyOf key).map .get
  | .take key => (keyOf key).map .take
  | .set key value opts => (valueOf toNumber heap value).bind fun value =>
      (keyOf key).bind fun key => (ttlOf opts).map (.set key value)
  | .setIfAbsent key value opts => (valueOf toNumber heap value).bind fun value =>
      (keyOf key).bind fun key => (ttlOf opts).map (.setIfAbsent key value)

end Operations

section Arguments

variable {n : ℕ} {toNumber : UInt64 → Number} {heap : Fin n → Obj n}

end Arguments

section Reading

variable (readFloat : List Char → Option UInt64)

mutual

theorem depth_le_nesting (v : Json) : depth v ≤ v.nesting + 1 := by
  match v with
  | .null | .bool _ | .number _ | .string _ => exact Nat.zero_le _
  | .array items => exact Nat.succ_le_succ (depthItems_le_nesting items)
  | .object entries => exact Nat.succ_le_succ (depthEntries_le_nesting entries)

theorem depthItems_le_nesting (items : List Json) :
    depthItems items ≤ Json.nestingItems items := by
  match items with
  | [] => exact Nat.le_refl _
  | item :: rest =>
    have hitem := depth_le_nesting item
    have hrest := depthItems_le_nesting rest
    rw [depthItems, Json.nestingItems]
    omega

theorem depthEntries_le_nesting (entries : List (String × Json)) :
    depthEntries entries ≤ Json.nestingEntries entries := by
  match entries with
  | [] => exact Nat.le_refl _
  | (key, value) :: rest =>
    have hvalue := depth_le_nesting value
    have hrest := depthEntries_le_nesting rest
    rw [depthEntries, Json.nestingEntries]
    omega

end

end Reading

section Requests

variable {n : ℕ} {toNumber : UInt64 → Number} {heap : Fin n → Obj n} {format : NumberFormat}
  {p : State.Platform}

/-- What the engine writes for a number the host reads, and what the host writes for that number
the engine reads. -/
structure NumberFormat.Standard (format : NumberFormat) (p : State.Platform)
    (toNumber : UInt64 → Number) : Prop where
  read : ∀ bits, isFinite bits = true → bits ≠ negativeZero →
    numberOf format.hostFloat (format.numberText bits).val = some (toNumber bits)
  back : ∀ bits, isFinite bits = true → bits ≠ negativeZero →
    LegibleNumber p.floatText format.scriptFloat (toNumber bits)

end Requests

section Runs

variable {toNumber : UInt64 → Number} {format : NumberFormat} {p : State.Platform}

/-- The values that an operation writes. -/
def LegibleOp (p : State.Platform) (format : NumberFormat) : State.Op → Prop
  | .get _ | .take _ => True
  | .set _ value _ | .setIfAbsent _ value _ => Legible p.floatText format.scriptFloat value

/-- A call of a script, at the reading that the host makes of the clock for it. -/
structure ScriptCall where
  objects : ℕ
  heap : Fin objects → Obj objects
  now : ℕ
  call : StateCall objects

def Thrown.code : Thrown → Option String
  | .typeError _ => none
  | .coded code _ => some code

/-- The step that a call is, with what the script gets: a value, nothing, or an exception. -/
def ScriptCall.run (format : NumberFormat) (p : State.Platform) (shared : State.SharedState)
    (c : ScriptCall) : State.SharedState × Except (Option String) (Option Json) :=
  match c.call.run format p c.heap shared c.now with
  | (shared, result) => (shared, result.mapError Thrown.code)

/-- What a script gets for a reply. -/
def outcome : State.Reply → Except (Option String) (Option Json)
  | .ok (.found value) => .ok value
  | .ok .done => .ok none
  | .ok (.stored stored) => .ok (some (.bool stored))
  | .error error => .error (some error.code)

/-- The values of the map are all read back. -/
def LegibleMap (p : State.Platform) (format : NumberFormat) (m : State.RefMap) : Prop :=
  ∀ key entry, m key = some entry → Legible p.floatText format.scriptFloat entry.value

def LegibleReply (p : State.Platform) (format : NumberFormat) : State.Reply → Prop
  | .ok (.found (some value)) => Legible p.floatText format.scriptFloat value
  | _ => True

theorem LegibleMap.update {m : State.RefMap} (h : LegibleMap p format m) (key : String)
    (entry : Option State.RefEntry)
    (hentry : ∀ e ∈ entry, Legible p.floatText format.scriptFloat e.value) :
    LegibleMap p format (Function.update m key entry) := by
  intro other e he
  by_cases hother : other = key
  · subst hother
    rw [Function.update_self] at he
    exact hentry e he
  · rw [Function.update_of_ne hother] at he
    exact h other e he

theorem LegibleMap.liveAt {m : State.RefMap} (h : LegibleMap p format m) {now : ℕ} {key : String}
    {entry : State.RefEntry} (hentry : m.liveAt now key = some entry) :
    Legible p.floatText format.scriptFloat entry.value :=
  h key entry (Option.filter_eq_some_iff.mp hentry).1

theorem LegibleMap.write {m : State.RefMap} (h : LegibleMap p format m) (now : ℕ) (key : String)
    {value : Json} (ttl : Option ℕ) (answer : State.Answer)
    (hvalue : Legible p.floatText format.scriptFloat value)
    (hanswer : LegibleReply p format (.ok answer)) :
    LegibleMap p format (m.write p now key value ttl answer).1 ∧
      LegibleReply p format (m.write p now key value ttl answer).2 := by
  rcases State.write_cases p m now key value ttl answer with ⟨e, hrefused⟩ | hwritten
  · rw [hrefused]
    exact ⟨h, trivial⟩
  · rw [hwritten]
    refine ⟨h.update key _ ?_, hanswer⟩
    intro e he
    cases he
    exact hvalue

theorem LegibleMap.call {m : State.RefMap} (h : LegibleMap p format m) (now : ℕ) (op : State.Op)
    (hop : LegibleOp p format op) :
    LegibleMap p format (m.call p ⟨now, op⟩).1 ∧ LegibleReply p format (m.call p ⟨now, op⟩).2 := by
  cases op with
  | get key =>
    rw [State.RefMap.call]
    simp only
    split
    · exact ⟨h, trivial⟩
    · refine ⟨h, ?_⟩
      cases hlive : m.liveAt now key with
      | none => trivial
      | some entry => exact h.liveAt hlive
  | set key value ttl =>
    rw [State.RefMap.call]
    simp only
    split
    · exact ⟨h, trivial⟩
    · exact h.write now key ttl .done hop trivial
  | take key =>
    rw [State.RefMap.call]
    simp only
    split
    · exact ⟨h, trivial⟩
    · cases hlive : m.liveAt now key with
      | none => exact ⟨h, trivial⟩
      | some entry => exact ⟨h.update key none (by simp), h.liveAt hlive⟩
  | setIfAbsent key value ttl =>
    rw [State.RefMap.call]
    simp only
    split
    · exact ⟨h, trivial⟩
    · cases hlive : m.liveAt now key with
      | some entry => exact ⟨h, trivial⟩
      | none => exact h.write now key ttl (.stored true) hop trivial

end Runs

section Sample

end Sample

section Service

variable {toNumber : UInt64 → Number} {format : NumberFormat} {p : State.Platform}

end Service

end StuntDouble.Prelude
