import StuntDouble.Operands
import StuntDouble.StateInvariant
import Mathlib.Data.Nat.Digits.Lemmas
import Mathlib.Logic.Relation

/-!
What a script may keep in `ctx.state`. A value of the script is a graph of objects, which
may share their parts or form cycles; the check of the prelude walks it with the path it is on.
A value that unfolds to a finite tree is read back by the host as that tree.
-/
namespace StuntDouble.Prelude

/-- The types of the values that JSON has no place for. -/
inductive Kind
  | undefined
  | bigint
  | symbol
  | function
deriving DecidableEq, Repr

def Kind.name : Kind → String
  | .undefined => "undefined"
  | .bigint => "bigint"
  | .symbol => "symbol"
  | .function => "function"

/-- A value of a graph with `n` objects. A number is a double, given by its bits. -/
inductive Value (n : ℕ)
  | null
  | boolean (b : Bool)
  | number (bits : UInt64)
  | string (units : List UInt16)
  | other (kind : Kind)
  | object (r : Fin n)
deriving DecidableEq

/-- An own property; what an accessor would return does not matter. -/
inductive Property (n : ℕ)
  | data (value : Value n) (enumerable : Bool)
  | accessor (enumerable : Bool)

inductive Proto
  | objectPrototype
  | null
  | other
deriving DecidableEq, Repr

def lengthName : List UInt16 := Utf16.encode "length"

/-- `length` is that of an array, which has it as a hidden property too. -/
structure Obj (n : ℕ) where
  length : Option ℕ
  proto : Proto
  symbols : ℕ
  props : List (List UInt16 × Property n)
  nodup : (props.map Prod.fst).Nodup
  length_lt : ∀ size, length = some size → size < 2 ^ 32
  length_hidden : ∀ size, length = some size →
    ∃ bits, props.lookup lengthName = some (.data (.number bits) false)

namespace Obj

variable {n : ℕ} (object : Obj n)

def getOwnPropertyNames : List (List UInt16) := object.props.map Prod.fst

def getOwnPropertyDescriptor (name : List UInt16) : Option (Property n) := object.props.lookup name

def hasOwn (name : List UInt16) : Bool := (object.getOwnPropertyDescriptor name).isSome

end Obj

section Numbers

def isFinite (bits : UInt64) : Bool := (bits >>> 52) &&& 0x7FF != 0x7FF

def negativeZero : UInt64 := 0x8000000000000000

def digit (unit : UInt16) : ℕ := unit.toNat - 48

/-- `Number` of a name that has only digits. The double nearest to it is below the length of an
array just if the number itself is, since all lengths are below `2 ^ 32`. -/
def number (name : List UInt16) : ℕ := Nat.ofDigits 10 (name.reverse.map digit)

/-- Whether a name matches `/^(0|[1-9][0-9]*)$/`. -/
def isNumeral : List UInt16 → Bool
  | [] => false
  | unit :: rest =>
    (unit == 48 && rest.isEmpty) ||
      (decide (49 ≤ unit ∧ unit ≤ 57) && rest.all fun unit => decide (48 ≤ unit ∧ unit ≤ 57))

/-- The name of an element. -/
def indexName (index : ℕ) : List UInt16 :=
  if index = 0 then [48]
  else (Nat.digits 10 index).reverse.map fun digit => UInt16.ofNat (digit + 48)

end Numbers

section Check

variable {n : ℕ} (heap : Fin n → Obj n)

def invalidState (message : String) : Thrown := .coded "state_invalid_input" message

def tooDeep : Thrown := invalidState "ctx.state: value nesting is too deep"

mutual

/-- `seen` is the path to the value; what is returned is `seen` as the check leaves it. -/
def checkStateValue (value : Value n) (seen : List (Fin n)) (depth : ℕ) :
    Except Thrown (List (Fin n)) :=
  if State.maxValueDepth < depth then .error tooDeep
  else match value with
    | .null => .ok seen
    | .boolean _ => .ok seen
    | .string units =>
      match checkStateString units with
      | .error e => .error e
      | .ok () => .ok seen
    | .number bits =>
      if !isFinite bits || bits == negativeZero then
        .error (invalidState "ctx.state: value contains a non-JSON number")
      else .ok seen
    | .other kind => .error (invalidState ("ctx.state: value contains " ++ kind.name))
    | .object r =>
      if r ∈ seen then .error (invalidState "ctx.state: value contains a cycle")
      else
        match (heap r).length with
        | some length =>
          if (heap r).symbols ≠ 0 then
            .error (invalidState "ctx.state: symbol keys are not supported")
          else
            match checkElements (heap r) length (heap r).getOwnPropertyNames (seen ++ [r])
              (depth + 1) with
            | .error e => .error e
            | .ok seen =>
              if (List.range length).all fun index => (heap r).hasOwn (indexName index) then
                .ok seen.dropLast
              else .error (invalidState "ctx.state: sparse arrays are not supported")
        | none =>
          if (heap r).proto ≠ .objectPrototype ∧ (heap r).proto ≠ .null then
            .error (invalidState "ctx.state: value must contain only plain objects")
          else if (heap r).symbols ≠ 0 then
            .error (invalidState "ctx.state: symbol keys are not supported")
          else
            match checkMembers (heap r) (heap r).getOwnPropertyNames (seen ++ [r]) (depth + 1) with
            | .error e => .error e
            | .ok seen => .ok seen.dropLast
termination_by (State.maxValueDepth + 1 - depth, 0)
decreasing_by all_goals simp_wf; omega

/-- The loop over the names of an array. -/
def checkElements (object : Obj n) (length : ℕ) (names : List (List UInt16))
    (seen : List (Fin n)) (depth : ℕ) : Except Thrown (List (Fin n)) :=
  match names with
  | [] => .ok seen
  | name :: rest =>
    if name = lengthName then checkElements object length rest seen depth
    else
      match isNumeral name && number name < length, object.getOwnPropertyDescriptor name with
      | true, some (.data value true) =>
        match checkStateValue value seen depth with
        | .error e => .error e
        | .ok seen => checkElements object length rest seen depth
      | _, _ => .error (invalidState "ctx.state: arrays can only contain dense data elements")
termination_by (State.maxValueDepth + 1 - depth, names.length + 1)

/-- The loop over the names of an object that is not an array. -/
def checkMembers (object : Obj n) (names : List (List UInt16)) (seen : List (Fin n))
    (depth : ℕ) : Except Thrown (List (Fin n)) :=
  match names with
  | [] => .ok seen
  | name :: rest =>
    match checkStateString name with
    | .error e => .error e
    | .ok () =>
      match object.getOwnPropertyDescriptor name with
      | some (.data value true) =>
        match checkStateValue value seen depth with
        | .error e => .error e
        | .ok seen => checkMembers object rest seen depth
      | _ =>
        .error (invalidState "ctx.state: accessors and hidden properties are not supported")
termination_by (State.maxValueDepth + 1 - depth, names.length + 1)

end

end Check

section Unfolding

variable {n : ℕ}

/-- An array that has its elements and nothing else. -/
structure DenseArray (object : Obj n) (values : List (Value n)) : Prop where
  length : object.length = some values.length
  symbols : object.symbols = 0
  names : ∀ name ∈ object.getOwnPropertyNames,
    name = lengthName ∨ ∃ index, index < values.length ∧ name = indexName index
  element : ∀ index value, values[index]? = some value →
    object.getOwnPropertyDescriptor (indexName index) = some (.data value true)

/-- A plain object, or one without a prototype, that has these members and nothing else. -/
structure PlainObject (object : Obj n) (members : List (String × Value n)) : Prop where
  length : object.length = none
  proto : object.proto = .objectPrototype ∨ object.proto = .null
  symbols : object.symbols = 0
  props : object.props = members.map fun member => (Utf16.encode member.1, .data member.2 true)

/-- The finite tree that a value unfolds to. The members of an object stand in the order of its
properties, and `toNumber` is the number that the host reads. -/
inductive Unfolds (toNumber : UInt64 → Number) (heap : Fin n → Obj n) : Value n → Json → Prop
  | null : Unfolds toNumber heap .null .null
  | boolean (b : Bool) : Unfolds toNumber heap (.boolean b) (.bool b)
  | number (bits : UInt64) (hfinite : isFinite bits = true) (hzero : bits ≠ negativeZero) :
      Unfolds toNumber heap (.number bits) (.number (toNumber bits))
  | string (text : String) : Unfolds toNumber heap (.string (Utf16.encode text)) (.string text)
  | array (r : Fin n) (values : List (Value n)) (items : List Json)
      (hdense : DenseArray (heap r) values) (hlength : items.length = values.length)
      (hitems : ∀ pair ∈ values.zip items, Unfolds toNumber heap pair.1 pair.2) :
      Unfolds toNumber heap (.object r) (.array items)
  | object (r : Fin n) (members : List (String × Value n)) (entries : List (String × Json))
      (hplain : PlainObject (heap r) members)
      (hkeys : entries.map Prod.fst = members.map Prod.fst)
      (hentries : ∀ pair ∈ members.zip entries, Unfolds toNumber heap pair.1.2 pair.2.2) :
      Unfolds toNumber heap (.object r) (.object entries)

end Unfolding

section Names

theorem digit_unit {d : ℕ} (h : d < 10) : digit (UInt16.ofNat (d + 48)) = d := by
  show (UInt16.ofNat (d + 48)).toNat - 48 = d
  rw [UInt16.toNat_ofNat']
  omega

theorem unit_digit {unit : UInt16} (h : 48 ≤ unit.toNat) :
    UInt16.ofNat (digit unit + 48) = unit := by
  have hunit : digit unit + 48 = unit.toNat := by
    unfold digit
    omega
  rw [hunit, UInt16.ofNat_toNat]

/-- The digits of a name that is a numeral, but not zero, with the last one first. -/
theorem isNumeral_cons {unit : UInt16} {rest : List UInt16} :
    isNumeral (unit :: rest) = true ↔ unit :: rest = [48] ∨
      (49 ≤ unit.toNat ∧ unit.toNat ≤ 57) ∧ ∀ u ∈ rest, 48 ≤ u.toNat ∧ u.toNat ≤ 57 := by
  simp only [isNumeral, Bool.or_eq_true, Bool.and_eq_true, beq_iff_eq, List.isEmpty_iff,
    decide_eq_true_eq, List.all_eq_true, List.cons.injEq, UInt16.le_iff_toNat_le]
  rfl

theorem number_indexName (index : ℕ) : number (indexName index) = index := by
  unfold indexName number
  split
  · subst index
    rfl
  · have hdigits : (Nat.digits 10 index).map (digit ∘ fun d => UInt16.ofNat (d + 48)) =
        Nat.digits 10 index := by
      rw [List.map_congr_left (g := id), List.map_id]
      intro d hd
      exact digit_unit (Nat.digits_lt_base (by omega) hd)
    rw [← List.map_reverse, List.reverse_reverse, List.map_map, hdigits, Nat.ofDigits_digits]

theorem isNumeral_indexName (index : ℕ) : isNumeral (indexName index) = true := by
  unfold indexName
  split
  · rfl
  · rename_i hindex
    rcases List.eq_nil_or_concat (Nat.digits 10 index) with hnil | ⟨front, d, hfront⟩
    · exact absurd (Nat.digits_eq_nil_iff_eq_zero.mp hnil) hindex
    · have hlast : d ≠ 0 := by
        have hne := Nat.getLast_digit_ne_zero 10 hindex
        simpa only [hfront, List.concat_eq_append, List.getLast_append_singleton] using hne
      have hlt : ∀ e ∈ Nat.digits 10 index, e < 10 := fun e he =>
        Nat.digits_lt_base (by omega) he
      rw [hfront, List.concat_eq_append] at hlt ⊢
      have hunit {e : ℕ} (he : e < 10) : (UInt16.ofNat (e + 48)).toNat = e + 48 := by
        rw [UInt16.toNat_ofNat']
        omega
      rw [List.reverse_append, List.reverse_singleton, List.singleton_append, List.map_cons,
        isNumeral_cons]
      refine Or.inr ⟨?_, ?_⟩
      · have hd := hlt d (List.mem_append_right _ (List.mem_singleton_self d))
        rw [hunit hd]
        omega
      · intro u hu
        obtain ⟨e, he, rfl⟩ := List.mem_map.mp hu
        have hlt := hlt e (List.mem_append_left _ (List.mem_reverse.mp he))
        rw [hunit hlt]
        omega

/-- A numeral is the name of the element that it is the number of. -/
theorem indexName_number {name : List UInt16} (h : isNumeral name = true) :
    indexName (number name) = name := by
  cases name with
  | nil => cases h
  | cons unit rest =>
    rcases isNumeral_cons.mp h with hzero | ⟨hunit, hrest⟩
    · rw [hzero]
      rfl
    · have hrange : ∀ u ∈ unit :: rest, 48 ≤ u.toNat ∧ u.toNat ≤ 57 := by
        intro u hu
        rcases List.mem_cons.mp hu with rfl | hu
        · omega
        · exact hrest u hu
      have hdigits : Nat.digits 10 (number (unit :: rest)) = (unit :: rest).reverse.map digit := by
        apply Nat.digits_ofDigits 10 (by omega)
        · intro d hd
          obtain ⟨u, hu, rfl⟩ := List.mem_map.mp hd
          have hu := hrange u (List.mem_reverse.mp hu)
          unfold digit
          omega
        · intro hne
          have hlast : ((unit :: rest).reverse.map digit).getLast hne = digit unit := by
            simp
          rw [hlast]
          unfold digit
          omega
      have hne : number (unit :: rest) ≠ 0 := by
        intro hzero
        rw [hzero, Nat.digits_zero] at hdigits
        exact absurd hdigits.symm (by simp)
      rw [indexName, if_neg hne, hdigits, ← List.map_reverse, List.reverse_reverse, List.map_map]
      rw [List.map_congr_left (g := id), List.map_id]
      intro u hu
      exact unit_digit (hrange u hu).1

theorem indexName_ne_lengthName (index : ℕ) : indexName index ≠ lengthName := by
  intro h
  have hlength := isNumeral_indexName index
  rw [h] at hlength
  revert hlength
  decide

end Names

section Nesting

/-- A list is nested too deep exactly when one of its items is. -/
theorem lt_nestingItems_iff {depth limit : ℕ} (h : depth ≤ limit) (items : List Json) :
    limit < depth + Json.nestingItems items ↔
      ∃ item ∈ items, limit < depth + 1 + item.nesting := by
  induction items with
  | nil =>
    have hnot : ¬ limit < depth + 0 := by omega
    simpa [Json.nestingItems] using hnot
  | cons item rest ih =>
    rw [List.exists_mem_cons_iff, ← ih]
    show limit < depth + max (item.nesting + 1) (Json.nestingItems rest) ↔ _
    omega

theorem lt_nestingEntries_iff {depth limit : ℕ} (h : depth ≤ limit)
    (entries : List (String × Json)) :
    limit < depth + Json.nestingEntries entries ↔
      ∃ entry ∈ entries, limit < depth + 1 + entry.2.nesting := by
  induction entries with
  | nil =>
    have hnot : ¬ limit < depth + 0 := by omega
    simpa [Json.nestingEntries] using hnot
  | cons entry rest ih =>
    rw [List.exists_mem_cons_iff, ← ih]
    show limit < depth + max (entry.2.nesting + 1) (Json.nestingEntries rest) ↔ _
    omega

theorem exists_mem_zip_left {A B : Type} {front : List A} {back : List B}
    (h : back.length = front.length) {a : A} (ha : a ∈ front) : ∃ b, (a, b) ∈ front.zip back := by
  obtain ⟨i, hi, rfl⟩ := List.getElem_of_mem ha
  refine ⟨back[i], ?_⟩
  rw [← List.getElem_zip (h := by rw [List.length_zip]; omega)]
  exact List.getElem_mem _

theorem exists_mem_zip_right {A B : Type} {front : List A} {back : List B}
    (h : back.length = front.length) {b : B} (hb : b ∈ back) : ∃ a, (a, b) ∈ front.zip back := by
  obtain ⟨i, hi, rfl⟩ := List.getElem_of_mem hb
  refine ⟨front[i], ?_⟩
  rw [← List.getElem_zip (h := by rw [List.length_zip]; omega)]
  exact List.getElem_mem _

end Nesting

section Paths

variable {n : ℕ} {toNumber : UInt64 → Number} {heap : Fin n → Obj n}

theorem Obj.mem_names_of_descriptor {object : Obj n} {name : List UInt16} {property : Property n}
    (h : object.getOwnPropertyDescriptor name = some property) :
    name ∈ object.getOwnPropertyNames := by
  obtain ⟨front, back, hprops, -⟩ := List.lookup_eq_some_iff.mp h
  rw [Obj.getOwnPropertyNames, hprops]
  simp

theorem lookup_of_mem {A B : Type} [BEq A] [LawfulBEq A] {entries : List (A × B)}
    (hnodup : (entries.map Prod.fst).Nodup) {a : A} {b : B} (h : (a, b) ∈ entries) :
    entries.lookup a = some b := by
  obtain ⟨front, back, rfl⟩ := List.append_of_mem h
  refine List.lookup_eq_some_iff.mpr ⟨front, back, rfl, ?_⟩
  intro entry hentry
  rw [List.map_append, List.map_cons, List.nodup_append] at hnodup
  have hne := hnodup.2.2 entry.1 (List.mem_map_of_mem hentry) a (by simp)
  exact bne_iff_ne.mpr (Ne.symm hne)

theorem Obj.descriptor_of_mem (object : Obj n) {name : List UInt16} {property : Property n}
    (h : (name, property) ∈ object.props) :
    object.getOwnPropertyDescriptor name = some property :=
  lookup_of_mem object.nodup h

theorem DenseArray.of_descriptor {object : Obj n} {values : List (Value n)}
    (h : DenseArray object values) {name : List UInt16} {value : Value n}
    (hname : object.getOwnPropertyDescriptor name = some (.data value true)) : value ∈ values := by
  rcases h.names name (Obj.mem_names_of_descriptor hname) with rfl | ⟨index, hindex, rfl⟩
  · obtain ⟨bits, hbits⟩ := object.length_hidden _ h.length
    rw [Obj.getOwnPropertyDescriptor, hbits] at hname
    cases hname
  · have hvalue := List.getElem?_eq_getElem hindex
    rw [h.element index _ hvalue] at hname
    cases hname
    exact List.getElem_mem hindex

theorem PlainObject.of_descriptor {object : Obj n} {members : List (String × Value n)}
    (h : PlainObject object members) {name : List UInt16} {value : Value n}
    (hname : object.getOwnPropertyDescriptor name = some (.data value true)) :
    ∃ member ∈ members, member.2 = value := by
  obtain ⟨front, back, hprops, -⟩ := List.lookup_eq_some_iff.mp hname
  have hmem : (name, Property.data value true) ∈ object.props := by
    rw [hprops]
    simp
  rw [h.props] at hmem
  obtain ⟨member, hmember, heq⟩ := List.mem_map.mp hmem
  cases heq
  exact ⟨member, hmember, rfl⟩

theorem DenseArray.exists_descriptor {object : Obj n} {values : List (Value n)}
    (h : DenseArray object values) {value : Value n} (hvalue : value ∈ values) :
    ∃ name ∈ object.getOwnPropertyNames, name ≠ lengthName ∧
      object.getOwnPropertyDescriptor name = some (.data value true) := by
  obtain ⟨index, hindex, rfl⟩ := List.getElem_of_mem hvalue
  have hname := h.element index _ (List.getElem?_eq_getElem hindex)
  exact ⟨_, Obj.mem_names_of_descriptor hname, indexName_ne_lengthName index, hname⟩

theorem PlainObject.descriptor {object : Obj n} {members : List (String × Value n)}
    (h : PlainObject object members) {member : String × Value n} (hmember : member ∈ members) :
    object.getOwnPropertyDescriptor (Utf16.encode member.1) = some (.data member.2 true) := by
  apply object.descriptor_of_mem
  rw [h.props]
  exact List.mem_map_of_mem hmember

/-- One object is in another, at once. -/
def Edge (heap : Fin n → Obj n) (r s : Fin n) : Prop :=
  ∃ name, (heap r).getOwnPropertyDescriptor name = some (.data (.object s) true)

/-- No path goes on for ever from an object that unfolds. -/
theorem Unfolds.acc {value : Value n} {json : Json} (h : Unfolds toNumber heap value json) :
    ∀ r, value = .object r → Acc (Function.swap (Edge heap)) r := by
  induction h with
  | null | boolean | number | string =>
    intro r hr
    cases hr
  | array r values items hdense hlength hitems ih =>
    intro _ hr
    cases hr
    constructor
    rintro s ⟨name, hname⟩
    obtain ⟨item, hpair⟩ := exists_mem_zip_left hlength (hdense.of_descriptor hname)
    exact ih _ hpair s rfl
  | object r members entries hplain hkeys hentries ih =>
    intro _ hr
    cases hr
    constructor
    rintro s ⟨name, hname⟩
    have hlength : entries.length = members.length := by
      simpa only [List.length_map] using congrArg List.length hkeys
    obtain ⟨member, hmember, hvalue⟩ := hplain.of_descriptor hname
    obtain ⟨entry, hpair⟩ := exists_mem_zip_left hlength hmember
    exact ih _ hpair s hvalue

theorem not_rel_self_of_acc {A : Type} {R : A → A → Prop} {a : A} (h : Acc R a) : ¬ R a a := by
  induction h with
  | intro a _ ih => exact fun ha => ih a ha ha

/-- An object on a cycle unfolds to nothing. -/
theorem Unfolds.acyclic {r : Fin n} {json : Json} (h : Unfolds toNumber heap (.object r) json) :
    ¬ Relation.TransGen (Edge heap) r r := by
  intro hcycle
  have hacc := (h.acc r rfl).transGen
  exact not_rel_self_of_acc hacc (Relation.transGen_swap.mpr hcycle)

end Paths

section Accepted

variable {n : ℕ} {toNumber : UInt64 → Number} {heap : Fin n → Obj n}

/-- A loop that goes on behind a good name and ends at a bad one. -/
theorem loop_stops {A S E : Type} (loop : List A → Except E S) (bad good : A → Prop) (done : S)
    (error : E) (hnil : loop [] = .ok done)
    (hgood : ∀ a rest, good a → loop (a :: rest) = loop rest)
    (hbad : ∀ a rest, bad a → loop (a :: rest) = .error error) (names : List A)
    (h : ∀ a ∈ names, bad a ∨ good a) :
    (loop names = .error error ∧ ∃ a ∈ names, bad a) ∨
      (loop names = .ok done ∧ ∀ a ∈ names, good a) := by
  induction names with
  | nil => exact Or.inr ⟨hnil, by simp⟩
  | cons name rest ih =>
    rcases h name List.mem_cons_self with hname | hname
    · exact Or.inl ⟨hbad name rest hname, name, List.mem_cons_self, hname⟩
    · rw [hgood name rest hname]
      have hrest := ih fun a ha => h a (List.mem_cons_of_mem _ ha)
      rcases hrest with ⟨herror, a, ha, hstop⟩ | ⟨hok, hall⟩
      · exact Or.inl ⟨herror, a, List.mem_cons_of_mem _ ha, hstop⟩
      · exact Or.inr ⟨hok, List.forall_mem_cons.mpr ⟨hname, hall⟩⟩

theorem checkElements_eq {object : Obj n} {length : ℕ} {seen : List (Fin n)} {depth : ℕ}
    (names : List (List UInt16))
    (h : ∀ name ∈ names, name ≠ lengthName → (isNumeral name = true ∧ number name < length) ∧
      ∃ value, object.getOwnPropertyDescriptor name = some (.data value true) ∧
        (checkStateValue heap value seen depth = .error tooDeep ∨
          checkStateValue heap value seen depth = .ok seen)) :
    (checkElements heap object length names seen depth = .error tooDeep ∧
      ∃ name ∈ names, ∃ value,
        object.getOwnPropertyDescriptor name = some (.data value true) ∧
        checkStateValue heap value seen depth = .error tooDeep) ∨
    (checkElements heap object length names seen depth = .ok seen ∧
      ∀ name ∈ names, name ≠ lengthName → ∃ value,
        object.getOwnPropertyDescriptor name = some (.data value true) ∧
        checkStateValue heap value seen depth = .ok seen) := by
  refine (loop_stops (fun names => checkElements heap object length names seen depth)
    (fun name => name ≠ lengthName ∧ (isNumeral name && decide (number name < length)) = true ∧
      ∃ value, object.getOwnPropertyDescriptor name = some (.data value true) ∧
        checkStateValue heap value seen depth = .error tooDeep)
    (fun name => name ≠ lengthName →
      (isNumeral name && decide (number name < length)) = true ∧
      ∃ value, object.getOwnPropertyDescriptor name = some (.data value true) ∧
        checkStateValue heap value seen depth = .ok seen)
    seen tooDeep (by simp only [checkElements]) ?_ ?_ names ?_).imp ?_ ?_
  · intro name rest hgood
    rw [checkElements]
    by_cases hlength : name = lengthName
    · rw [if_pos hlength]
    · obtain ⟨hdense, value, hvalue, hok⟩ := hgood hlength
      rw [if_neg hlength, hdense, hvalue]
      simp only [hok]
  · rintro name rest ⟨hlength, hdense, value, hvalue, hdeep⟩
    rw [checkElements, if_neg hlength, hdense, hvalue]
    simp only [hdeep]
  · intro name hname
    by_cases hlength : name = lengthName
    · exact Or.inr fun hne => absurd hlength hne
    · obtain ⟨⟨hnumeral, hnumber⟩, value, hvalue, hcheck⟩ := h name hname hlength
      have hdense : (isNumeral name && decide (number name < length)) = true := by
        rw [hnumeral, Bool.true_and, decide_eq_true hnumber]
      rcases hcheck with hdeep | hok
      · exact Or.inl ⟨hlength, hdense, value, hvalue, hdeep⟩
      · exact Or.inr fun _ => ⟨hdense, value, hvalue, hok⟩
  · rintro ⟨herror, name, hname, -, -, hdeep⟩
    exact ⟨herror, name, hname, hdeep⟩
  · rintro ⟨hok, hall⟩
    exact ⟨hok, fun name hname hne => (hall name hname hne).2⟩

theorem checkMembers_eq {object : Obj n} {seen : List (Fin n)} {depth : ℕ}
    (names : List (List UInt16))
    (h : ∀ name ∈ names, checkStateString name = .ok () ∧
      ∃ value, object.getOwnPropertyDescriptor name = some (.data value true) ∧
        (checkStateValue heap value seen depth = .error tooDeep ∨
          checkStateValue heap value seen depth = .ok seen)) :
    (checkMembers heap object names seen depth = .error tooDeep ∧
      ∃ name ∈ names, ∃ value, object.getOwnPropertyDescriptor name = some (.data value true) ∧
        checkStateValue heap value seen depth = .error tooDeep) ∨
    (checkMembers heap object names seen depth = .ok seen ∧
      ∀ name ∈ names, ∃ value, object.getOwnPropertyDescriptor name = some (.data value true) ∧
        checkStateValue heap value seen depth = .ok seen) := by
  refine (loop_stops (fun names => checkMembers heap object names seen depth)
    (fun name => checkStateString name = .ok () ∧
      ∃ value, object.getOwnPropertyDescriptor name = some (.data value true) ∧
        checkStateValue heap value seen depth = .error tooDeep)
    (fun name => checkStateString name = .ok () ∧
      ∃ value, object.getOwnPropertyDescriptor name = some (.data value true) ∧
        checkStateValue heap value seen depth = .ok seen)
    seen tooDeep (by simp only [checkMembers]) ?_ ?_ names ?_).imp ?_ ?_
  · rintro name rest ⟨hstring, value, hvalue, hok⟩
    rw [checkMembers]
    simp only [hstring, hvalue, hok]
  · rintro name rest ⟨hstring, value, hvalue, hdeep⟩
    rw [checkMembers]
    simp only [hstring, hvalue, hdeep]
  · intro name hname
    obtain ⟨hstring, value, hvalue, hdeep | hok⟩ := h name hname
    · exact Or.inl ⟨hstring, value, hvalue, hdeep⟩
    · exact Or.inr ⟨hstring, value, hvalue, hok⟩
  · rintro ⟨herror, name, hname, -, hdeep⟩
    exact ⟨herror, name, hname, hdeep⟩
  · rintro ⟨hok, hall⟩
    exact ⟨hok, fun name hname => (hall name hname).2⟩

/-- What the check makes of a value with this tree. -/
def Checks (heap : Fin n → Obj n) (seen : List (Fin n)) (depth : ℕ) (value : Value n)
    (json : Json) : Prop :=
  checkStateValue heap value seen depth =
    if State.maxValueDepth < depth + json.nesting then .error tooDeep else .ok seen

theorem Checks.error_or_ok {seen : List (Fin n)} {depth : ℕ} {value : Value n} {json : Json}
    (h : Checks heap seen depth value json) :
    checkStateValue heap value seen depth = .error tooDeep ∨
      checkStateValue heap value seen depth = .ok seen := by
  rw [Checks] at h
  split at h
  · exact Or.inl h
  · exact Or.inr h

theorem Checks.error_iff {seen : List (Fin n)} {depth : ℕ} {value : Value n} {json : Json}
    (h : Checks heap seen depth value json) :
    checkStateValue heap value seen depth = .error tooDeep ↔
      State.maxValueDepth < depth + json.nesting := by
  rw [h]
  split
  · rename_i hdeep
    exact iff_of_true rfl hdeep
  · rename_i hdeep
    exact iff_of_false (fun h => by cases h) hdeep

theorem DenseArray.checkElements {object : Obj n} {values : List (Value n)} {items : List Json}
    (h : DenseArray object values) (hlength : items.length = values.length)
    {seen : List (Fin n)} {depth : ℕ} (hdepth : depth ≤ State.maxValueDepth)
    (hcheck : ∀ name value, object.getOwnPropertyDescriptor name = some (.data value true) →
      ∀ item, (value, item) ∈ values.zip items → Checks heap seen (depth + 1) value item) :
    checkElements heap object values.length object.getOwnPropertyNames seen (depth + 1) =
      if State.maxValueDepth < depth + Json.nestingItems items then .error tooDeep
      else .ok seen := by
  have hdeep := lt_nestingItems_iff hdepth items
  have hnames : ∀ name ∈ object.getOwnPropertyNames, name ≠ lengthName →
      (isNumeral name = true ∧ number name < values.length) ∧
      ∃ value, object.getOwnPropertyDescriptor name = some (.data value true) ∧
        (checkStateValue heap value seen (depth + 1) = .error tooDeep ∨
          checkStateValue heap value seen (depth + 1) = .ok seen) := by
    intro name hmem hne
    rcases h.names name hmem with hlengthName | ⟨index, hindex, rfl⟩
    · exact absurd hlengthName hne
    · have hname := h.element index _ (List.getElem?_eq_getElem hindex)
      obtain ⟨item, hpair⟩ := exists_mem_zip_left hlength (List.getElem_mem hindex)
      refine ⟨⟨isNumeral_indexName index, ?_⟩, _, hname, ?_⟩
      · rw [number_indexName]
        exact hindex
      · exact (hcheck _ _ hname item hpair).error_or_ok
  rcases checkElements_eq _ hnames with
    ⟨herror, name, -, value, hname, hvalue⟩ | ⟨hok, hall⟩
  · obtain ⟨item, hpair⟩ := exists_mem_zip_left hlength (h.of_descriptor hname)
    have hlt := (hcheck name value hname item hpair).error_iff.mp hvalue
    rw [herror, if_pos (hdeep.mpr ⟨item, (List.of_mem_zip hpair).2, hlt⟩)]
  · rw [hok, if_neg]
    intro hlt
    obtain ⟨item, hitem, hlt⟩ := hdeep.mp hlt
    obtain ⟨value, hpair⟩ := exists_mem_zip_right hlength hitem
    obtain ⟨name, hmem, hne, hname⟩ := h.exists_descriptor (List.of_mem_zip hpair).1
    obtain ⟨other, hother, hvalue⟩ := hall name hmem hne
    rw [hname] at hother
    cases hother
    have herror := (hcheck name value hname item hpair).error_iff.mpr hlt
    rw [hvalue] at herror
    cases herror

theorem PlainObject.checkMembers {object : Obj n} {members : List (String × Value n)}
    {entries : List (String × Json)} (h : PlainObject object members)
    (hlength : entries.length = members.length)
    {seen : List (Fin n)} {depth : ℕ} (hdepth : depth ≤ State.maxValueDepth)
    (hcheck : ∀ name value, object.getOwnPropertyDescriptor name = some (.data value true) →
      ∀ member entry, (member, entry) ∈ members.zip entries → member.2 = value →
        Checks heap seen (depth + 1) value entry.2) :
    checkMembers heap object object.getOwnPropertyNames seen (depth + 1) =
      if State.maxValueDepth < depth + Json.nestingEntries entries then .error tooDeep
      else .ok seen := by
  have hdeep := lt_nestingEntries_iff hdepth entries
  have hnames : ∀ name ∈ object.getOwnPropertyNames, checkStateString name = .ok () ∧
      ∃ value, object.getOwnPropertyDescriptor name = some (.data value true) ∧
        (checkStateValue heap value seen (depth + 1) = .error tooDeep ∨
          checkStateValue heap value seen (depth + 1) = .ok seen) := by
    intro name hmem
    rw [Obj.getOwnPropertyNames, h.props, List.map_map] at hmem
    obtain ⟨member, hmember, rfl⟩ := List.mem_map.mp hmem
    have hname := h.descriptor hmember
    obtain ⟨entry, hpair⟩ := exists_mem_zip_left hlength hmember
    exact ⟨checkUtf16Surrogates_encode _ _ _, _, hname,
      (hcheck _ _ hname member entry hpair rfl).error_or_ok⟩
  rcases checkMembers_eq _ hnames with
    ⟨herror, name, -, value, hname, hvalue⟩ | ⟨hok, hall⟩
  · obtain ⟨member, hmember, heq⟩ := h.of_descriptor hname
    obtain ⟨entry, hpair⟩ := exists_mem_zip_left hlength hmember
    have hlt := (hcheck name value hname member entry hpair heq).error_iff.mp hvalue
    rw [herror, if_pos (hdeep.mpr ⟨entry, (List.of_mem_zip hpair).2, hlt⟩)]
  · rw [hok, if_neg]
    intro hlt
    obtain ⟨entry, hentry, hlt⟩ := hdeep.mp hlt
    obtain ⟨member, hpair⟩ := exists_mem_zip_right hlength hentry
    have hname := h.descriptor (List.of_mem_zip hpair).1
    obtain ⟨other, hother, hvalue⟩ := hall _ (Obj.mem_names_of_descriptor hname)
    rw [hname] at hother
    cases hother
    have herror := (hcheck _ _ hname member entry hpair rfl).error_iff.mpr hlt
    rw [hvalue] at herror
    cases herror

theorem path_append {r : Fin n} {seen : List (Fin n)}
    (hseen : ∀ s ∈ seen, Relation.TransGen (Edge heap) s r) {name : List UInt16} {value : Value n}
    (hname : (heap r).getOwnPropertyDescriptor name = some (.data value true)) :
    ∀ s ∈ seen ++ [r], ∀ t, value = .object t → Relation.TransGen (Edge heap) s t := by
  intro s hs t ht
  subst ht
  have hedge : Edge heap r t := ⟨name, hname⟩
  rcases List.mem_append.mp hs with hs | hs
  · exact (hseen s hs).tail hedge
  · cases List.mem_singleton.mp hs
    exact Relation.TransGen.single hedge

/-- The check of a value whose tree is known, below the objects of `seen`. -/
theorem Unfolds.checks {value : Value n} {json : Json} (h : Unfolds toNumber heap value json)
    (seen : List (Fin n)) (depth : ℕ)
    (hseen : ∀ s ∈ seen, ∀ r, value = .object r → Relation.TransGen (Edge heap) s r) :
    Checks heap seen depth value json := by
  induction h generalizing seen depth with
  | null | boolean =>
    rw [Checks, checkStateValue]
    rfl
  | number bits hfinite hzero =>
    have hnumber : (!isFinite bits || bits == negativeZero) = false := by
      rw [hfinite, beq_false_of_ne hzero]
      rfl
    rw [Checks, checkStateValue]
    simp only [hnumber, Bool.false_eq_true, if_false]
    rfl
  | string text =>
    rw [Checks, checkStateValue]
    simp only [checkStateString, checkUtf16Surrogates_encode]
    rfl
  | array r values items hdense hlength hitems ih =>
    have hpath := fun s hs => hseen s hs r rfl
    have hnew : r ∉ seen := fun hr =>
      (Unfolds.array r values items hdense hlength hitems).acyclic (hpath r hr)
    rw [Checks, checkStateValue]
    by_cases hdepth : State.maxValueDepth < depth
    · rw [if_pos hdepth, if_pos (by omega)]
    · have hloop := hdense.checkElements hlength (Nat.le_of_not_lt hdepth)
        fun name value hname item hpair =>
          ih _ hpair (seen ++ [r]) (depth + 1) (path_append hpath hname)
      have hown : ((List.range values.length).all fun index =>
          (heap r).hasOwn (indexName index)) = true := by
        rw [List.all_eq_true]
        intro index hindex
        have hvalue := List.getElem?_eq_getElem (List.mem_range.mp hindex)
        rw [Obj.hasOwn, hdense.element index _ hvalue]
        rfl
      rw [if_neg hdepth]
      show _ = if State.maxValueDepth < depth + Json.nestingItems items then _ else _
      simp only [if_neg hnew, hdense.length, hdense.symbols, ne_eq, not_true_eq_false, if_false,
        hloop]
      by_cases hdeep : State.maxValueDepth < depth + Json.nestingItems items
      · simp only [if_pos hdeep]
      · simp only [if_neg hdeep, hown, if_true, List.dropLast_concat]
  | object r members entries hplain hkeys hentries ih =>
    have hlength : entries.length = members.length := by
      simpa only [List.length_map] using congrArg List.length hkeys
    have hpath := fun s hs => hseen s hs r rfl
    have hnew : r ∉ seen := fun hr =>
      (Unfolds.object r members entries hplain hkeys hentries).acyclic (hpath r hr)
    rw [Checks, checkStateValue]
    by_cases hdepth : State.maxValueDepth < depth
    · rw [if_pos hdepth, if_pos (by omega)]
    · have hloop := hplain.checkMembers hlength (Nat.le_of_not_lt hdepth)
        fun name value hname member entry hpair heq => by
          subst heq
          exact ih _ hpair (seen ++ [r]) (depth + 1) (path_append hpath hname)
      have hproto : ¬ ((heap r).proto ≠ .objectPrototype ∧ (heap r).proto ≠ .null) := by
        rcases hplain.proto with hproto | hproto
        · exact fun hne => hne.1 hproto
        · exact fun hne => hne.2 hproto
      rw [if_neg hdepth]
      show _ = if State.maxValueDepth < depth + Json.nestingEntries entries then _ else _
      simp only [if_neg hnew, hplain.length, if_neg hproto, hplain.symbols, ne_eq,
        not_true_eq_false, if_false, hloop]
      by_cases hdeep : State.maxValueDepth < depth + Json.nestingEntries entries
      · simp only [if_pos hdeep]
      · simp only [if_neg hdeep, List.dropLast_concat]

end Accepted

section Rejected

variable {n : ℕ} {toNumber : UInt64 → Number} {heap : Fin n → Obj n}

theorem checkElements_sound {object : Obj n} {length depth : ℕ} {Q : Value n → Prop}
    (hvalue : ∀ value seen seen', checkStateValue heap value seen depth = .ok seen' →
      seen' = seen ∧ Q value) {names : List (List UInt16)} {seen seen' : List (Fin n)}
    (h : checkElements heap object length names seen depth = .ok seen') :
    seen' = seen ∧ ∀ name ∈ names, name = lengthName ∨
      (isNumeral name = true ∧ number name < length) ∧
        ∃ value, object.getOwnPropertyDescriptor name = some (.data value true) ∧ Q value := by
  induction names generalizing seen with
  | nil =>
    rw [checkElements] at h
    cases h
    exact ⟨rfl, by simp⟩
  | cons name rest ih =>
    rw [checkElements] at h
    split at h
    · rename_i hlength
      obtain ⟨hseen, hrest⟩ := ih h
      refine ⟨hseen, fun other hother => ?_⟩
      rcases List.mem_cons.mp hother with rfl | hother
      · exact Or.inl hlength
      · exact hrest other hother
    · split at h
      · rename_i value hdense hname
        cases hcheck : checkStateValue heap value seen depth with
        | error e =>
          rw [hcheck] at h
          cases h
        | ok after =>
          rw [hcheck] at h
          obtain ⟨rfl, hQ⟩ := hvalue value seen after hcheck
          obtain ⟨hseen, hrest⟩ := ih h
          refine ⟨hseen, fun other hother => ?_⟩
          rcases List.mem_cons.mp hother with rfl | hother
          · obtain ⟨hnumeral, hnumber⟩ := (Bool.and_eq_true _ _).mp hdense
            exact Or.inr ⟨⟨hnumeral, of_decide_eq_true hnumber⟩, value, hname, hQ⟩
          · exact hrest other hother
      · cases h

theorem checkMembers_sound {object : Obj n} {depth : ℕ} {Q : Value n → Prop}
    (hvalue : ∀ value seen seen', checkStateValue heap value seen depth = .ok seen' →
      seen' = seen ∧ Q value) {names : List (List UInt16)} {seen seen' : List (Fin n)}
    (h : checkMembers heap object names seen depth = .ok seen') :
    seen' = seen ∧ ∀ name ∈ names, (∃ text, Utf16.encode text = name) ∧
      ∃ value, object.getOwnPropertyDescriptor name = some (.data value true) ∧ Q value := by
  induction names generalizing seen with
  | nil =>
    rw [checkMembers] at h
    cases h
    exact ⟨rfl, by simp⟩
  | cons name rest ih =>
    rw [checkMembers] at h
    split at h
    · cases h
    · rename_i hstring
      split at h
      · rename_i value hname
        cases hcheck : checkStateValue heap value seen depth with
        | error e =>
          rw [hcheck] at h
          cases h
        | ok after =>
          rw [hcheck] at h
          obtain ⟨rfl, hQ⟩ := hvalue value seen after hcheck
          obtain ⟨hseen, hrest⟩ := ih h
          refine ⟨hseen, fun other hother => ?_⟩
          rcases List.mem_cons.mp hother with rfl | hother
          · have htext := (Utf16.wellFormed_iff other).mp (checkUtf16Surrogates_sound hstring)
            exact ⟨htext, value, hname, hQ⟩
          · exact hrest other hother
      · cases h

/-- What was read of each element of an array makes the whole of it. -/
theorem exists_denseArray {object : Obj n} {length : ℕ} (hlength : object.length = some length)
    (hsymbols : object.symbols = 0)
    (hnames : ∀ name ∈ object.getOwnPropertyNames, name = lengthName ∨
      isNumeral name = true ∧ number name < length)
    {Q : Value n → Json → Prop}
    (hread : ∀ index, index < length → ∃ value,
      object.getOwnPropertyDescriptor (indexName index) = some (.data value true) ∧
        ∃ json, Q value json) :
    ∃ values items, DenseArray object values ∧ items.length = values.length ∧
      ∀ pair ∈ values.zip items, Q pair.1 pair.2 := by
  have hread : ∀ index, ∃ (value : Value n) (json : Json), index < length →
      object.getOwnPropertyDescriptor (indexName index) = some (.data value true) ∧
        Q value json := by
    intro index
    by_cases hindex : index < length
    · obtain ⟨value, hname, json, hQ⟩ := hread index hindex
      exact ⟨value, json, fun _ => ⟨hname, hQ⟩⟩
    · exact ⟨.null, .null, fun h => absurd h hindex⟩
  choose value json hread using hread
  refine ⟨(List.range length).map value, (List.range length).map json, ?_, ?_, ?_⟩
  · refine ⟨?_, hsymbols, ?_, ?_⟩
    · rw [List.length_map, List.length_range, hlength]
    · intro name hname
      rcases hnames name hname with h | ⟨hnumeral, hnumber⟩
      · exact Or.inl h
      · refine Or.inr ⟨number name, ?_, (indexName_number hnumeral).symm⟩
        rw [List.length_map, List.length_range]
        exact hnumber
    · intro index v hv
      rw [List.getElem?_map] at hv
      obtain ⟨i, hi, rfl⟩ := Option.map_eq_some_iff.mp hv
      obtain ⟨hlt, rfl⟩ := List.getElem?_eq_some_iff.mp hi
      rw [List.length_range] at hlt
      rw [List.getElem_range]
      exact (hread index hlt).1
  · rw [List.length_map, List.length_map]
  · intro pair hpair
    rw [List.zip_map'] at hpair
    obtain ⟨index, hindex, rfl⟩ := List.mem_map.mp hpair
    exact (hread index (List.mem_range.mp hindex)).2

theorem exists_members {Q : Value n → Json → Prop} {props : List (List UInt16 × Property n)}
    (h : ∀ prop ∈ props, ∃ text value json,
      prop = (Utf16.encode text, .data value true) ∧ Q value json) :
    ∃ (members : List (String × Value n)) (entries : List (String × Json)),
      props = members.map (fun member => (Utf16.encode member.1, .data member.2 true)) ∧
      entries.map Prod.fst = members.map Prod.fst ∧
      ∀ pair ∈ members.zip entries, Q pair.1.2 pair.2.2 := by
  induction props with
  | nil => exact ⟨[], [], rfl, rfl, by simp⟩
  | cons prop rest ih =>
    obtain ⟨text, value, json, rfl, hQ⟩ := h prop (by simp)
    obtain ⟨members, entries, hprops, hkeys, hall⟩ :=
      ih fun prop hprop => h prop (List.mem_cons_of_mem _ hprop)
    refine ⟨(text, value) :: members, (text, json) :: entries, ?_, ?_, ?_⟩
    · rw [List.map_cons, hprops]
    · rw [List.map_cons, List.map_cons, hkeys]
    · intro pair hpair
      rcases List.mem_cons.mp hpair with rfl | hpair
      · exact hQ
      · exact hall pair hpair

theorem exists_array {r : Fin n} {length depth : ℕ} (hlength : (heap r).length = some length)
    (hsymbols : (heap r).symbols = 0)
    (hown : ((List.range length).all fun index => (heap r).hasOwn (indexName index)) = true)
    (hnames : ∀ name ∈ (heap r).getOwnPropertyNames, name = lengthName ∨
      (isNumeral name = true ∧ number name < length) ∧
        ∃ value, (heap r).getOwnPropertyDescriptor name = some (.data value true) ∧
          ∃ json, Unfolds toNumber heap value json ∧
            depth + 1 + json.nesting ≤ State.maxValueDepth)
    (hdepth : depth ≤ State.maxValueDepth) :
    ∃ json, Unfolds toNumber heap (.object r) json ∧
      depth + json.nesting ≤ State.maxValueDepth := by
  have hread : ∀ index, index < length → ∃ value,
      (heap r).getOwnPropertyDescriptor (indexName index) = some (.data value true) ∧
        ∃ json, Unfolds toNumber heap value json ∧
          depth + 1 + json.nesting ≤ State.maxValueDepth := by
    intro index hindex
    have hhas := List.all_eq_true.mp hown index (List.mem_range.mpr hindex)
    obtain ⟨property, hproperty⟩ := Option.isSome_iff_exists.mp hhas
    rcases hnames _ (Obj.mem_names_of_descriptor hproperty) with h | ⟨-, hvalue⟩
    · exact absurd h (indexName_ne_lengthName index)
    · exact hvalue
  have hnumerals : ∀ name ∈ (heap r).getOwnPropertyNames, name = lengthName ∨
      isNumeral name = true ∧ number name < length :=
    fun name hname => (hnames name hname).imp_right And.left
  obtain ⟨values, items, hdense, hitems, hall⟩ :=
    exists_denseArray hlength hsymbols hnumerals hread
  refine ⟨.array items, ?_, ?_⟩
  · exact .array r values items hdense hitems fun pair hpair => (hall pair hpair).1
  · show depth + Json.nestingItems items ≤ _
    by_contra hdeep
    obtain ⟨item, hitem, hlt⟩ := (lt_nestingItems_iff hdepth items).mp (by omega)
    obtain ⟨value, hpair⟩ := exists_mem_zip_right hitems hitem
    have hbound : depth + 1 + item.nesting ≤ State.maxValueDepth := (hall _ hpair).2
    omega

theorem exists_object {r : Fin n} {depth : ℕ} (hlength : (heap r).length = none)
    (hproto : (heap r).proto = .objectPrototype ∨ (heap r).proto = .null)
    (hsymbols : (heap r).symbols = 0)
    (hnames : ∀ name ∈ (heap r).getOwnPropertyNames, (∃ text, Utf16.encode text = name) ∧
      ∃ value, (heap r).getOwnPropertyDescriptor name = some (.data value true) ∧
        ∃ json, Unfolds toNumber heap value json ∧
          depth + 1 + json.nesting ≤ State.maxValueDepth)
    (hdepth : depth ≤ State.maxValueDepth) :
    ∃ json, Unfolds toNumber heap (.object r) json ∧
      depth + json.nesting ≤ State.maxValueDepth := by
  have hread : ∀ prop ∈ (heap r).props, ∃ text value json,
      prop = (Utf16.encode text, .data value true) ∧ (Unfolds toNumber heap value json ∧
        depth + 1 + json.nesting ≤ State.maxValueDepth) := by
    rintro ⟨name, property⟩ hprop
    obtain ⟨⟨text, rfl⟩, value, hname, json, hjson⟩ := hnames name (List.mem_map_of_mem hprop)
    rw [(heap r).descriptor_of_mem hprop] at hname
    cases hname
    exact ⟨text, value, json, rfl, hjson⟩
  obtain ⟨members, entries, hprops, hkeys, hall⟩ := exists_members hread
  have hentries : entries.length = members.length := by
    simpa only [List.length_map] using congrArg List.length hkeys
  refine ⟨.object entries, ?_, ?_⟩
  · exact .object r members entries ⟨hlength, hproto, hsymbols, hprops⟩ hkeys
      fun pair hpair => (hall pair hpair).1
  · show depth + Json.nestingEntries entries ≤ _
    by_contra hdeep
    obtain ⟨entry, hentry, hlt⟩ := (lt_nestingEntries_iff hdepth entries).mp (by omega)
    obtain ⟨member, hpair⟩ := exists_mem_zip_right hentries hentry
    have hbound : depth + 1 + entry.2.nesting ≤ State.maxValueDepth := (hall _ hpair).2
    omega

/-- What the check lets pass unfolds, and the check leaves the path as it was. -/
theorem checkStateValue_sound (toNumber : UInt64 → Number) (depth : ℕ) (value : Value n)
    (seen seen' : List (Fin n)) (h : checkStateValue heap value seen depth = .ok seen') :
    seen' = seen ∧ ∃ json, Unfolds toNumber heap value json ∧
      depth + json.nesting ≤ State.maxValueDepth := by
  induction hk : State.maxValueDepth + 1 - depth generalizing depth value seen seen' with
  | zero =>
    rw [checkStateValue.eq_def, if_pos (by omega)] at h
    cases h
  | succ k ih =>
    have ih := fun value seen seen' h => ih (depth + 1) value seen seen' h (by omega)
    have hdepth : ¬ State.maxValueDepth < depth := by omega
    rw [checkStateValue.eq_def, if_neg hdepth] at h
    cases value with
    | null =>
      cases h
      exact ⟨rfl, .null, .null, by show depth + 0 ≤ _; omega⟩
    | boolean b =>
      cases h
      exact ⟨rfl, .bool b, .boolean b, by show depth + 0 ≤ _; omega⟩
    | number bits =>
      simp only [Bool.or_eq_true, Bool.not_eq_true', beq_iff_eq] at h
      split at h
      · cases h
      · rename_i hbits
        cases h
        obtain ⟨hfinite, hzero⟩ := not_or.mp hbits
        refine ⟨rfl, _, .number bits ?_ hzero, by show depth + 0 ≤ _; omega⟩
        exact Bool.eq_true_of_not_eq_false hfinite
    | string units =>
      simp only at h
      split at h
      · cases h
      · rename_i hstring
        cases h
        obtain ⟨text, rfl⟩ :=
          (Utf16.wellFormed_iff units).mp (checkUtf16Surrogates_sound hstring)
        exact ⟨rfl, .string text, .string text, by show depth + 0 ≤ _; omega⟩
    | other kind => cases h
    | object r =>
      simp only at h
      split at h
      · cases h
      · split at h
        · rename_i length hlength
          split at h
          · cases h
          · rename_i hsymbols
            split at h
            · cases h
            · rename_i after hloop
              split at h
              · rename_i hown
                obtain ⟨rfl, hnames⟩ := checkElements_sound ih hloop
                cases h
                refine ⟨List.dropLast_concat, ?_⟩
                exact exists_array hlength (not_not.mp hsymbols) hown hnames (by omega)
              · cases h
        · rename_i hlength
          split at h
          · cases h
          · rename_i hproto
            split at h
            · cases h
            · rename_i hsymbols
              split at h
              · cases h
              · rename_i after hloop
                obtain ⟨rfl, hnames⟩ := checkMembers_sound ih hloop
                cases h
                refine ⟨List.dropLast_concat, ?_⟩
                exact exists_object hlength (by tauto) (not_not.mp hsymbols) hnames (by omega)

end Rejected

section Agreement

variable {n : ℕ} {toNumber : UInt64 → Number} {heap : Fin n → Obj n} {value : Value n}

/-- The check of a whole value that unfolds. -/
theorem Unfolds.checkStateValue_eq {json : Json} (h : Unfolds toNumber heap value json) :
    checkStateValue heap value [] 0 =
      if State.maxValueDepth < json.nesting then .error tooDeep else .ok [] := by
  have hcheck := h.checks [] 0 (by simp)
  rwa [Checks, Nat.zero_add] at hcheck

variable (toNumber heap value)

/-- The values that the prelude accepts are those that unfold to a tree of at most 32 levels,
however their parts are shared, and the host finds the same trees too deep. -/
theorem checkStateValue_lossless :
    ((∃ seen, checkStateValue heap value [] 0 = .ok seen) ↔
      ∃ json, Unfolds toNumber heap value json ∧ json.nesting ≤ 32) ∧
    ∀ json, Unfolds toNumber heap value json →
      (checkStateValue heap value [] 0 = .error tooDeep ↔
        State.validateJsonValue json 0 = .error .invalidInput) := by
  refine ⟨⟨?_, ?_⟩, ?_⟩
  · rintro ⟨seen, h⟩
    obtain ⟨-, json, hjson, hnesting⟩ := checkStateValue_sound toNumber 0 value [] seen h
    rw [Nat.zero_add] at hnesting
    exact ⟨json, hjson, hnesting⟩
  · rintro ⟨json, hjson, hnesting⟩
    have hdeep : ¬ State.maxValueDepth < json.nesting := Nat.not_lt.mpr hnesting
    exact ⟨[], by rw [hjson.checkStateValue_eq, if_neg hdeep]⟩
  · intro json hjson
    rw [hjson.checkStateValue_eq, State.validateJsonValue_eq, Nat.zero_add]
    by_cases hdeep : State.maxValueDepth < json.nesting
    · rw [if_pos hdeep, if_pos hdeep]
      exact iff_of_true rfl rfl
    · rw [if_neg hdeep, if_neg hdeep]
      exact iff_of_false (fun h => by cases h) (fun h => by cases h)

/-- An object that two members share is not a cycle. -/
example : checkStateValue (n := 2)
    (fun r =>
      if r = 0 then
        ⟨none, .objectPrototype, 0,
          [([97], .data (.object 1) true), ([98], .data (.object 1) true)],
          by decide, by simp, by simp⟩
      else ⟨none, .null, 0, [], by decide, by simp, by simp⟩)
    (.object 0) [] 0 = .ok [] := by
  simp [checkStateValue, checkMembers, Obj.getOwnPropertyNames, Obj.getOwnPropertyDescriptor,
    checkStateString, checkUtf16Surrogates, State.maxValueDepth, List.lookup]

end Agreement

end StuntDouble.Prelude
