import Mathlib.Data.List.Basic

/-!
Documented shapes of a tree of tables and arrays, and where a tree departs from one. A place
is the way from the root down to a value; the places that offend against a shape are what a
validator has to report, and a tree has the shape exactly when no place offends.
-/
namespace StuntDouble.Shapes

inductive Step
  | key (name : String)
  | index (i : ℕ)
deriving DecidableEq

/-- The way to a value, its last step first. -/
abbrev Place := List Step

/-- The name of a place in a report; the root has none of its own. -/
def Place.name (root : String) : Place → String
  | [] => root
  | [.key key] => key
  | .key key :: rest => Place.name root rest ++ "." ++ key
  | .index i :: rest => Place.name root rest ++ "[" ++ toString i ++ "]"

/-- The shape of a leaf is a property; a table has fields, which may be required; an array
has at least so many items of one shape. -/
inductive Shape (V : Type)
  | leaf (valid : V → Prop)
  | table (fields : List (String × Bool × Shape V))
  | array (least : ℕ) (item : Shape V)

/-- How tables and arrays are told from other values. -/
structure View (V : Type) where
  table : V → Option (List (String × V))
  array : V → Option (List V)

variable {V : Type} (view : View V)

inductive Accepts : Shape V → V → Prop
  | leaf {valid value} (h : valid value) : Accepts (.leaf valid) value
  | table {fields value entries} (h : view.table value = some entries)
      (known : ∀ entry ∈ entries, ∃ field ∈ fields, field.1 = entry.1)
      (present : ∀ field ∈ fields, entries.lookup field.1 = none → field.2.1 = false)
      (shaped : ∀ field ∈ fields, ∀ part, entries.lookup field.1 = some part →
        Accepts field.2.2 part) :
      Accepts (.table fields) value
  | array {least item value items} (h : view.array value = some items)
      (enough : least ≤ items.length) (shaped : ∀ part ∈ items, Accepts item part) :
      Accepts (.array least item) value

/-- Where a value departs from a shape. -/
inductive Offends : Shape V → Place → V → Place → Prop
  | leaf {valid place value} (h : ¬ valid value) : Offends (.leaf valid) place value place
  | notTable {fields place value} (h : view.table value = none) :
      Offends (.table fields) place value place
  | unknown {fields place value entries} (entry : String × V)
      (h : view.table value = some entries) (hentry : entry ∈ entries)
      (hunknown : ∀ field ∈ fields, field.1 ≠ entry.1) :
      Offends (.table fields) place value (.key entry.1 :: place)
  | missing {fields place value entries} (field : String × Bool × Shape V)
      (h : view.table value = some entries) (hfield : field ∈ fields)
      (hrequired : field.2.1 = true) (habsent : entries.lookup field.1 = none) :
      Offends (.table fields) place value (.key field.1 :: place)
  | field {fields place value entries part there} (field : String × Bool × Shape V)
      (h : view.table value = some entries) (hfield : field ∈ fields)
      (hpart : entries.lookup field.1 = some part)
      (hthere : Offends field.2.2 (.key field.1 :: place) part there) :
      Offends (.table fields) place value there
  | notArray {least item place value} (h : view.array value = none) :
      Offends (.array least item) place value place
  | tooFew {least item place value items} (h : view.array value = some items)
      (hfew : items.length < least) : Offends (.array least item) place value place
  | item {least item place value items part there} (i : ℕ)
      (h : view.array value = some items) (hpart : items[i]? = some part)
      (hthere : Offends item (.index i :: place) part there) :
      Offends (.array least item) place value there

variable {view}

/-- A value of the right shape offends nowhere. -/
theorem Accepts.not_offends {shape : Shape V} {value : V} (h : Accepts view shape value)
    (place there : Place) : ¬ Offends view shape place value there := by
  induction h generalizing place there with
  | leaf hvalid =>
    rintro (h | _)
    exact h hvalid
  | table hview hknown hpresent _ ih =>
    intro hoffends
    cases hoffends with
    | notTable h => simp [hview] at h
    | unknown entry h hentry hunknown =>
      cases hview.symm.trans h
      obtain ⟨field, hfield, hname⟩ := hknown entry hentry
      exact hunknown field hfield hname
    | missing field h hfield hrequired habsent =>
      cases hview.symm.trans h
      simp [hpresent field hfield habsent] at hrequired
    | field field h hfield hpart hthere =>
      cases hview.symm.trans h
      exact ih field hfield _ hpart _ _ hthere
  | array hview henough _ ih =>
    intro hoffends
    cases hoffends with
    | notArray h => simp [hview] at h
    | tooFew h hfew =>
      cases hview.symm.trans h
      omega
    | item i h hpart hthere =>
      cases hview.symm.trans h
      exact ih _ (List.mem_of_getElem? hpart) _ _ hthere

/-- A value that offends nowhere has the shape. -/
theorem accepts_of_not_offends (shape : Shape V) (place : Place) (value : V)
    (h : ∀ there, ¬ Offends view shape place value there) : Accepts view shape value := by
  match shape with
  | .leaf valid =>
    by_contra hvalid
    exact h place (.leaf fun hvalue => hvalid (.leaf hvalue))
  | .table fields =>
    cases hview : view.table value with
    | none => exact absurd (Offends.notTable hview) (h place)
    | some entries =>
      refine Accepts.table hview ?_ ?_ ?_
      · intro entry hentry
        by_contra hunknown
        refine h (.key entry.1 :: place) (.unknown entry hview hentry ?_)
        exact fun field hfield hname => hunknown ⟨field, hfield, hname⟩
      · intro field hfield habsent
        by_contra hrequired
        exact h _ (.missing field hview hfield (eq_true_of_ne_false hrequired) habsent)
      · intro field hfield part hpart
        have hsmaller : sizeOf field.2.2 < 1 + sizeOf fields := by
          have hmem := List.sizeOf_lt_of_mem hfield
          obtain ⟨name, required, shape⟩ := field
          simp only [Prod.mk.sizeOf_spec] at hmem ⊢
          omega
        apply accepts_of_not_offends field.2.2 (.key field.1 :: place) part
        exact fun there hthere => h there (.field field hview hfield hpart hthere)
  | .array least item =>
    cases hview : view.array value with
    | none => exact absurd (Offends.notArray hview) (h place)
    | some items =>
      refine Accepts.array hview ?_ ?_
      · by_contra hfew
        exact h place (.tooFew hview (by omega))
      · intro part hpart
        obtain ⟨i, hi⟩ := List.mem_iff_getElem?.mp hpart
        apply accepts_of_not_offends item (.index i :: place) part
        exact fun there hthere => h there (.item i hview hi hthere)
termination_by sizeOf shape

theorem accepts_iff (shape : Shape V) (place : Place) (value : V) :
    Accepts view shape value ↔ ∀ there, ¬ Offends view shape place value there :=
  ⟨fun h there => h.not_offends place there, accepts_of_not_offends shape place value⟩

section Offences

variable {place there : Place} {value : V}

theorem offends_leaf {valid : V → Prop} :
    Offends view (.leaf valid) place value there ↔ ¬ valid value ∧ there = place := by
  constructor
  · rintro (h | _)
    exact ⟨h, rfl⟩
  · rintro ⟨h, rfl⟩
    exact .leaf h

variable (view) in
/-- Where a field of a table offends, be it that it is missing. -/
def FieldOffends (field : String × Bool × Shape V) (entries : List (String × V))
    (place there : Place) : Prop :=
  match entries.lookup field.1 with
  | none => field.2.1 = true ∧ there = .key field.1 :: place
  | some part => Offends view field.2.2 (.key field.1 :: place) part there

theorem offends_table {fields : List (String × Bool × Shape V)} {entries : List (String × V)}
    (h : view.table value = some entries) :
    Offends view (.table fields) place value there ↔
      (∃ entry ∈ entries, (∀ field ∈ fields, field.1 ≠ entry.1) ∧
        there = .key entry.1 :: place) ∨
      ∃ field ∈ fields, FieldOffends view field entries place there := by
  constructor
  · intro hoffends
    cases hoffends with
    | notTable hnone => simp [h] at hnone
    | unknown entry hview hentry hunknown =>
      cases h.symm.trans hview
      exact Or.inl ⟨entry, hentry, hunknown, rfl⟩
    | missing field hview hfield hrequired habsent =>
      cases h.symm.trans hview
      refine Or.inr ⟨field, hfield, ?_⟩
      simp [FieldOffends, habsent, hrequired]
    | field field hview hfield hpart hthere =>
      cases h.symm.trans hview
      refine Or.inr ⟨field, hfield, ?_⟩
      simpa only [FieldOffends, hpart] using hthere
  · rintro (⟨entry, hentry, hunknown, rfl⟩ | ⟨field, hfield, hoffends⟩)
    · exact .unknown entry h hentry hunknown
    · cases hpart : entries.lookup field.1 with
      | none =>
        simp only [FieldOffends, hpart] at hoffends
        obtain ⟨hrequired, rfl⟩ := hoffends
        exact .missing field h hfield hrequired hpart
      | some part =>
        simp only [FieldOffends, hpart] at hoffends
        exact .field field h hfield hpart hoffends

theorem offends_notTable {fields : List (String × Bool × Shape V)} (h : view.table value = none) :
    Offends view (.table fields) place value there ↔ there = place := by
  constructor
  · intro hoffends
    cases hoffends with
    | notTable _ => rfl
    | unknown _ hview _ _ => simp [h] at hview
    | missing _ hview _ _ _ => simp [h] at hview
    | field _ hview _ _ _ => simp [h] at hview
  · rintro rfl
    exact .notTable h

theorem offends_array {least : ℕ} {item : Shape V} (items : List V)
    (h : view.array value = some items) :
    Offends view (.array least item) place value there ↔
      (items.length < least ∧ there = place) ∨
      ∃ i part, items[i]? = some part ∧ Offends view item (.index i :: place) part there := by
  constructor
  · intro hoffends
    cases hoffends with
    | notArray hnone => simp [h] at hnone
    | tooFew hview hfew =>
      cases h.symm.trans hview
      exact Or.inl ⟨hfew, rfl⟩
    | item i hview hpart hthere =>
      cases h.symm.trans hview
      exact Or.inr ⟨i, _, hpart, hthere⟩
  · rintro (⟨hfew, rfl⟩ | ⟨i, part, hpart, hthere⟩)
    · exact .tooFew h hfew
    · exact .item i h hpart hthere

theorem offends_notArray {least : ℕ} {item : Shape V} (h : view.array value = none) :
    Offends view (.array least item) place value there ↔ there = place := by
  constructor
  · intro hoffends
    cases hoffends with
    | notArray _ => rfl
    | tooFew hview _ => simp [h] at hview
    | item _ hview _ _ => simp [h] at hview
  · rintro rfl
    exact .notArray h

end Offences

section Reports

/-- The names of a report are those of the places that offend. -/
structure Reports (root : String) (names : List String) (offends : Place → Prop) : Prop where
  sound : ∀ name ∈ names, ∃ place, offends place ∧ place.name root = name
  complete : ∀ place, offends place → place.name root ∈ names

variable {root : String} {names others : List String} {offends also : Place → Prop}

theorem Reports.congr (h : Reports root names offends)
    (hiff : ∀ place, also place ↔ offends place) : Reports root names also := by
  obtain rfl : also = offends := funext fun place => propext (hiff place)
  exact h

theorem Reports.of_mem (h : Reports root names offends)
    (hmem : ∀ name, name ∈ others ↔ name ∈ names) : Reports root others offends where
  sound name hname := h.sound name ((hmem name).mp hname)
  complete place hplace := (hmem _).mpr (h.complete place hplace)

theorem Reports.append (h : Reports root names offends) (hothers : Reports root others also) :
    Reports root (names ++ others) (fun place => offends place ∨ also place) where
  sound name hname := by
    rcases List.mem_append.mp hname with hname | hname
    · obtain ⟨place, hplace, heq⟩ := h.sound name hname
      exact ⟨place, Or.inl hplace, heq⟩
    · obtain ⟨place, hplace, heq⟩ := hothers.sound name hname
      exact ⟨place, Or.inr hplace, heq⟩
  complete place hplace := by
    rw [List.mem_append]
    exact hplace.imp (h.complete place) (hothers.complete place)

/-- What is reported of the items of an array. -/
theorem Reports.items {A : Type} (root : String) (items : List A) (report : A × ℕ → List String)
    (offends : ℕ → A → Place → Prop)
    (h : ∀ i part, items[i]? = some part → Reports root (report (part, i)) (offends i part)) :
    Reports root (items.zipIdx.flatMap report)
      (fun place => ∃ i part, items[i]? = some part ∧ offends i part place) where
  sound name hname := by
    obtain ⟨⟨part, i⟩, hitem, hname⟩ := List.mem_flatMap.mp hname
    have hpart : items[i]? = some part := List.mem_zipIdx_iff_getElem?.mp hitem
    obtain ⟨place, hplace, heq⟩ := (h i part hpart).sound name hname
    exact ⟨place, ⟨i, part, hpart, hplace⟩, heq⟩
  complete place := by
    rintro ⟨i, part, hpart, hplace⟩
    rw [List.mem_flatMap]
    exact ⟨(part, i), List.mem_zipIdx_iff_getElem?.mpr hpart,
      (h i part hpart).complete place hplace⟩

/-- What is reported of the fields of a table, one after the other. -/
theorem Reports.fields {fields : List (String × Bool × Shape V)} {parts : List (List String)}
    {entries : List (String × V)} {place : Place}
    (h : List.Forall₂ (fun field part => Reports root part (FieldOffends view field entries place))
      fields parts) :
    Reports root parts.flatten
      (fun there => ∃ field ∈ fields, FieldOffends view field entries place there) := by
  induction h with
  | nil => exact ⟨by simp, by simp⟩
  | cons hpart _ ih =>
    rw [List.flatten_cons]
    apply (hpart.append ih).congr
    exact fun there => List.exists_mem_cons_iff _ _ _

/-- The report of a table: its unknown keys, then its fields. -/
theorem Reports.table {fields : List (String × Bool × Shape V)} {parts : List (List String)}
    {entries : List (String × V)} (value : V) {place : Place}
    (hview : view.table value = some entries)
    (hunknown : Reports root names (fun there => ∃ entry ∈ entries,
      (∀ field ∈ fields, field.1 ≠ entry.1) ∧ there = .key entry.1 :: place))
    (h : List.Forall₂ (fun field part => Reports root part (FieldOffends view field entries place))
      fields parts) :
    Reports root (names ++ parts.flatten) (Offends view (.table fields) place value) := by
  apply (hunknown.append (Reports.fields h)).congr
  exact fun there => offends_table hview

theorem reports_none : Reports root [] (fun _ => False) :=
  ⟨fun _ hname => (List.not_mem_nil hname).elim, fun _ hplace => hplace.elim⟩

theorem reports_place (place : Place) :
    Reports root [place.name root] (fun there => there = place) where
  sound name hname := ⟨place, rfl, (List.mem_singleton.mp hname).symm⟩
  complete there := by
    rintro rfl
    exact List.mem_singleton.mpr rfl

/-- An empty report is one of no offence. -/
theorem Reports.eq_nil_iff (h : Reports root names offends) :
    names = [] ↔ ∀ place, ¬ offends place := by
  constructor
  · rintro rfl place hplace
    exact List.not_mem_nil (h.complete place hplace)
  · intro hnone
    rw [List.eq_nil_iff_forall_not_mem]
    intro name hname
    obtain ⟨place, hplace, -⟩ := h.sound name hname
    exact hnone place hplace

end Reports

end StuntDouble.Shapes
