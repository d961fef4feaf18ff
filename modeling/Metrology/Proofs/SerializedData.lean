/-
Module: Metrology.Proofs.SerializedData
Layer: Proofs
Purpose: Dimensions, prefixes, spans, unit definitions and configurations as JSON. Each of them is
  read from exactly the forms that may be written for it: an object with its fields in any order, an
  array with its fields in their order, for some fields none at all, and for a prefix its name. What
  is written for a value is read as that value, whichever form it came from.
Imports: Mathlib.Data.List.Forall2, Metrology.Config, Metrology.Encoding, Metrology.Proofs.JsonText
Main exports: Json.RecordShape.Gives, Json.fields?_eq_some_iff, Dimension.ofJson?_eq_some_iff,
  MetricPrefix.ofJson?_eq_some_iff, Span.ofJson?_eq_some_iff, UnitDefinition.ofJson?_eq_some_iff,
  Config.ofJson?_eq_some_iff, serialized_roundTrips
-/
import Mathlib.Data.List.Forall2
import Metrology.Config
import Metrology.Encoding
import Metrology.Proofs.JsonText

namespace Metrology

/-! ### Records -/

namespace Json

/-- The members of an object that have the names of fields. -/
def RecordShape.knownIn (shape : RecordShape) (members : List (String × Json)) :
    List (String × Json) :=
  members.filter fun member => shape.fields.contains member.1

/-- What a value gives for the fields of a record, in their order: nothing for one left out. -/
inductive RecordShape.Gives (shape : RecordShape) : Json → List (Option Json) → Prop where
  /-- The members of an object stand in any order; no field is given twice. -/
  | object {members : List (String × Json)} {given : String → Option Json}
      (known : shape.otherMembers = false → ∀ member ∈ members, member.1 ∈ shape.fields)
      (once : ((shape.knownIn members).map Prod.fst).Nodup)
      (each : ∀ field ∈ shape.fields, ∀ value,
        given field = some value ↔ (field, value) ∈ members) :
      shape.Gives (.object members) (shape.fields.map given)
  /-- The items of an array are the first fields, and the others are left out. -/
  | array {items : List Json}
      (fits : shape.otherItems = false → items.length ≤ shape.fields.length) :
      shape.Gives (.array items) ((items.take shape.fields.length).map some ++
        List.replicate (shape.fields.length - items.length) none)

variable {shape : RecordShape} {j : Json} {values : List (Option Json)}
  {members : List (String × Json)} {items : List Json}

theorem memberIn?_eq_some_iff {name : String} {value : Json}
    (once : (members.map Prod.fst).Nodup) :
    memberIn? name members = some value ↔ (name, value) ∈ members := by
  induction members with
  | nil => simp [memberIn?]
  | cons member members ih =>
      obtain ⟨key, first⟩ := member
      rw [List.map_cons, List.nodup_cons] at once
      rw [memberIn?]
      split
      · next same =>
          subst same
          have absent : (key, value) ∉ members :=
            fun mem => once.1 (List.mem_map.2 ⟨_, mem, rfl⟩)
          simp [absent, eq_comm]
      · next other => simp [ih once.2, Ne.symm other]

theorem range_map_getElem? (items : List Json) (n : Nat) :
    (List.range n).map (fun i => items[i]?) =
      (items.take n).map some ++ List.replicate (n - items.length) none := by
  induction n generalizing items with
  | zero => simp
  | succ n ih =>
      rw [List.range_succ_eq_map, List.map_cons, List.map_map]
      cases items with
      | nil =>
          simp [List.replicate_succ, Function.comp_def]
      | cons item items =>
          have others := ih items
          simpa [Function.comp_def] using others

/-- Members have different names if no field has two of them and each name is a field's. -/
theorem nodup_map_fst_iff {fields : List String} (known : ∀ member ∈ members, member.1 ∈ fields) :
    (members.map Prod.fst).Nodup ↔
      ∀ field ∈ fields, members.countP (fun member => member.1 == field) ≤ 1 := by
  have count : ∀ field, (members.map Prod.fst).count field =
      members.countP (fun member => member.1 == field) := by
    intro field
    rw [List.count_eq_countP, List.countP_map]
    rfl
  rw [List.nodup_iff_count]
  simp only [count]
  refine ⟨fun each field _ => each field, fun each field => ?_⟩
  by_cases mem : field ∈ fields
  · exact each field mem
  · have absent : members.countP (fun member => member.1 == field) = 0 := by
      rw [List.countP_eq_zero]
      intro member inMembers same
      exact mem (eq_of_beq same ▸ known member inMembers)
    omega

theorem RecordShape.mem_knownIn {member : String × Json} :
    member ∈ shape.knownIn members ↔ member ∈ members ∧ member.1 ∈ shape.fields := by
  rw [knownIn, List.mem_filter, List.contains_iff_mem]

theorem fields?_object_eq_some_iff : (object members).fields? shape = some values ↔
    (shape.otherMembers = false → ∀ member ∈ members, member.1 ∈ shape.fields) ∧
      ((shape.knownIn members).map Prod.fst).Nodup ∧
      values = shape.fields.map fun field => memberIn? field (shape.knownIn members) := by
  have unfolded : (object members).fields? shape =
      if !shape.otherMembers && (shape.knownIn members).length != members.length then none
      else if shape.fields.any fun field =>
        1 < (shape.knownIn members).countP fun member => member.1 == field then none
      else some (shape.fields.map fun field => memberIn? field (shape.knownIn members)) := rfl
  have others : (!shape.otherMembers && (shape.knownIn members).length != members.length) = true ↔
      ¬ (shape.otherMembers = false → ∀ member ∈ members, member.1 ∈ shape.fields) := by
    simp [RecordShape.knownIn, List.length_filter_eq_length_iff]
  have twice : (shape.fields.any fun field =>
      1 < (shape.knownIn members).countP fun member => member.1 == field) = true ↔
      ¬ ((shape.knownIn members).map Prod.fst).Nodup := by
    rw [nodup_map_fst_iff fun member mem => (RecordShape.mem_knownIn.1 mem).2]
    simp
  rw [unfolded, Option.ite_none_left_eq_some, Option.ite_none_left_eq_some, others, twice, not_not,
    not_not, Option.some.injEq, eq_comm (b := values)]

/-- The fields of a record are read from exactly the values that give them. -/
theorem fields?_eq_some_iff : j.fields? shape = some values ↔ shape.Gives j values := by
  constructor
  · intro read
    cases j with
    | object members =>
        obtain ⟨known, once, rfl⟩ := fields?_object_eq_some_iff.1 read
        refine .object known once fun field isField value => ?_
        rw [memberIn?_eq_some_iff once, RecordShape.mem_knownIn]
        exact and_iff_left isField
    | array items =>
        simp only [fields?, Option.ite_none_left_eq_some, Option.some.injEq] at read
        obtain ⟨fits, rfl⟩ := read
        rw [range_map_getElem?]
        refine .array fun closed => ?_
        simpa [closed] using fits
    | _ => cases read
  · intro gives
    cases gives with
    | @object members given known once each =>
        refine fields?_object_eq_some_iff.2 ⟨known, once, ?_⟩
        refine List.map_congr_left fun field isField => ?_
        apply Option.ext
        intro value
        rw [each field isField, memberIn?_eq_some_iff once, RecordShape.mem_knownIn]
        exact (and_iff_left isField).symm
    | @array items fits =>
        simp only [fields?, Option.ite_none_left_eq_some, Option.some.injEq]
        refine ⟨?_, range_map_getElem? items shape.fields.length⟩
        simpa using fits

/-- A value stands for a field, in an object under its name and in an array in its place. -/
inductive RecordShape.HasField (shape : RecordShape) : Json → String → Json → Prop where
  | member {members : List (String × Json)} {field : String} {value : Json}
      (isField : field ∈ shape.fields) (mem : (field, value) ∈ members) :
      shape.HasField (.object members) field value
  | item {items : List Json} {i : Nat} {field : String} {value : Json}
      (place : shape.fields[i]? = some field) (item : items[i]? = some value) :
      shape.HasField (.array items) field value

/-- What stands for a field is given for it. -/
theorem RecordShape.Gives.mem_zip {field : String} {value : Json} (gives : shape.Gives j values)
    (has : shape.HasField j field value) : (field, some value) ∈ shape.fields.zip values := by
  cases has with
  | member isField mem =>
      cases gives with
      | object known once each =>
          obtain ⟨i, place⟩ := List.getElem?_of_mem isField
          refine List.mem_iff_getElem?.2 ⟨i, List.getElem?_zip_eq_some.2 ⟨place, ?_⟩⟩
          rw [List.getElem?_map, place, Option.map_some, (each field isField value).2 mem]
  | @item items i field value place item =>
      cases gives with
      | array fits =>
          refine List.mem_iff_getElem?.2 ⟨i, List.getElem?_zip_eq_some.2 ⟨place, ?_⟩⟩
          have inRange : i < shape.fields.length := (List.getElem?_eq_some_iff.1 place).1
          rw [← range_map_getElem?, List.getElem?_map, List.getElem?_range inRange, Option.map_some,
            item]

/-- The order of the members of an object does not matter. -/
theorem RecordShape.Gives.perm {others : List (String × Json)} (perm : members.Perm others)
    (gives : shape.Gives (.object members) values) : shape.Gives (.object others) values := by
  cases gives with
  | object known once each =>
      refine .object (fun closed member mem => known closed member (perm.mem_iff.2 mem))
        (((perm.filter _).map _).nodup_iff.1 once) fun field isField value => ?_
      rw [each field isField, perm.mem_iff]

/-! ### Texts -/

variable {α : Type} {toJson : α → Json} {ofJson? : Json → Option α} {v : α}

/-- A value comes back from both of its written forms. -/
def ReadsBack (toJson : α → Json) (ofJson? : Json → Option α) (v : α) : Prop :=
  (read? (toJson v).compact).bind ofJson? = some v ∧ (read? (toJson v).pretty).bind ofJson? = some v

theorem readsBack_of_isExact (exact : (toJson v).IsExact) (inverse : ofJson? (toJson v) = some v) :
    ReadsBack toJson ofJson? v := by
  rw [ReadsBack, exact.read?_compact, exact.read?_pretty]
  exact ⟨inverse, inverse⟩

/-- What holds of a type whose values are written as JSON: a value that fits the types of its fields
    comes back, a value is read from exactly the forms that it may have, and whatever form it is
    read from, it comes back. -/
structure RoundTrips (toJson : α → Json) (ofJson? : Json → Option α) (Fits : α → Prop)
    (Form : α → Json → Prop) : Prop where
  comesBack : ∀ v, Fits v → ReadsBack toJson ofJson? v
  accepts : ∀ v j, ofJson? j = some v ↔ Form v j
  again : ∀ v j, ofJson? j = some v → ReadsBack toJson ofJson? v

theorem roundTrips_of {Fits : α → Prop} {Form : α → Json → Prop}
    (exact : ∀ v, (toJson v).IsExact) (inverse : ∀ v, Fits v → ofJson? (toJson v) = some v)
    (accepts : ∀ v j, ofJson? j = some v ↔ Form v j) (fits : ∀ v j, Form v j → Fits v) :
    RoundTrips toJson ofJson? Fits Form where
  comesBack v fit := readsBack_of_isExact (exact v) (inverse v fit)
  accepts := accepts
  again v j read := readsBack_of_isExact (exact v) (inverse v (fits v j ((accepts v j).1 read)))

end Json

/-! ### Dimensions -/

namespace Dimension

/-- The numbers in the fields of a dimension. -/
def fieldValues (d : Dimension) : List (Option Json) :=
  [d.length, d.time, d.mass, d.current, d.temperature].map fun e => some (.integer e.val)

theorem exponentField?_eq_some_iff {field : Option Json} {e : Exponent} :
    exponentField? field = some e ↔ field = some (.integer e.val) := by
  unfold exponentField?
  split
  · next n =>
      rw [Exponent.ofInt?_eq_some_iff, Option.some.injEq, Json.integer.injEq, eq_comm]
  · next other =>
      refine iff_of_false (by simp) ?_
      rintro rfl
      exact other _ rfl

/-- A dimension is read from the records that give its five exponents. -/
theorem ofJson?_eq_some_iff {j : Json} {d : Dimension} :
    ofJson? j = some d ↔ shape.Gives j d.fieldValues := by
  rw [← Json.fields?_eq_some_iff]
  constructor
  · intro read
    unfold ofJson? at read
    split at read
    · next fields =>
        simp only [Option.bind_eq_bind, Option.bind_eq_some_iff, exponentField?_eq_some_iff,
          Option.pure_def, Option.some.injEq] at read
        obtain ⟨_, rfl, _, rfl, _, rfl, _, rfl, _, rfl, rfl⟩ := read
        exact fields
    · cases read
  · intro fields
    have exponent : ∀ e : Exponent, exponentField? (some (.integer e.val)) = some e :=
      fun e => exponentField?_eq_some_iff.2 rfl
    simp [ofJson?, fields, fieldValues, exponent]

/-- In no field of a dimension stands a number that is no exponent. -/
theorem ofJson?_outOfRange {j : Json} {field : String} {n : Int}
    (has : shape.HasField j field (.integer n)) (out : n < -128 ∨ 127 < n) : ofJson? j = none := by
  rw [Option.eq_none_iff_forall_ne_some]
  intro d read
  have given := (List.of_mem_zip ((ofJson?_eq_some_iff.1 read).mem_zip has)).2
  obtain ⟨e, -, same⟩ := List.mem_map.1 given
  obtain rfl : e.val = n := by simpa using same
  have lower := e.lower
  have upper := e.upper
  omega

theorem isExact_toJson (d : Dimension) : d.toJson.IsExact :=
  .object (by simp [Json.IsExact.integer])

theorem ofJson?_toJson (d : Dimension) : ofJson? d.toJson = some d := by
  rw [ofJson?_eq_some_iff, ← Json.fields?_eq_some_iff]
  rfl

end Dimension

/-! ### Prefixes -/

namespace MetricPrefix

/-- A prefix is written as its name, which may also be the one name in an object, with `null`. -/
def Form (p : MetricPrefix) (j : Json) : Prop :=
  j = .string p.name ∨ j = .object [(p.name, .null)]

theorem ofName?_eq_some_iff {name : String} {p : MetricPrefix} :
    ofName? name = some p ↔ name = p.name := by
  constructor
  · intro found
    have same := List.find?_some found
    exact (eq_of_beq same).symm
  · rintro rfl
    cases p <;> decide

theorem ofJson?_eq_some_iff {j : Json} {p : MetricPrefix} : ofJson? j = some p ↔ p.Form j := by
  unfold ofJson?
  split
  · next name => simp [Form, ofName?_eq_some_iff]
  · next name => simp [Form, ofName?_eq_some_iff]
  · next noName noObject =>
      refine iff_of_false (by simp) ?_
      rintro (rfl | rfl)
      · exact noName _ rfl
      · exact noObject _ rfl

end MetricPrefix

/-! ### Spans -/

namespace Json

theorem size?_eq_some_iff {j : Json} {n : Nat} :
    j.size? = some n ↔ j = .integer n ∧ n < 2 ^ 64 := by
  cases j with
  | integer m =>
      simp only [size?, intBetween?, Option.map_eq_some_iff, Option.ite_none_right_eq_some,
        Option.some.injEq, integer.injEq]
      constructor
      · rintro ⟨_, ⟨⟨lower, upper⟩, rfl⟩, rfl⟩
        omega
      · rintro ⟨rfl, upper⟩
        exact ⟨n, ⟨by omega, rfl⟩, rfl⟩
  | _ => exact iff_of_false (by simp [size?, intBetween?]) (by simp)

theorem text?_eq_some_iff {j : Json} {s : String} : j.text? = some s ↔ j = .string s := by
  cases j <;> simp [text?]

end Json

namespace Span

/-- Offsets are counted in words of 64 bits. -/
def Fits (s : Span) : Prop := s.start < 2 ^ 64 ∧ s.stop < 2 ^ 64

def Form (s : Span) (j : Json) : Prop :=
  shape.Gives j [some (.integer s.start), some (.integer s.stop)] ∧ s.Fits

/-- A span is read from the records that give its two ends. -/
theorem ofJson?_eq_some_iff {j : Json} {s : Span} : ofJson? j = some s ↔ s.Form j := by
  rw [Form, ← Json.fields?_eq_some_iff]
  constructor
  · intro read
    unfold ofJson? at read
    split at read
    · next fields =>
        simp only [Option.bind_eq_bind, Option.bind_eq_some_iff, Json.size?_eq_some_iff,
          Option.pure_def, Option.some.injEq] at read
        obtain ⟨_, ⟨rfl, start⟩, _, ⟨rfl, stop⟩, rfl⟩ := read
        exact ⟨fields, start, stop⟩
    · cases read
  · rintro ⟨fields, start, stop⟩
    simp [ofJson?, fields, Json.size?_eq_some_iff.2 ⟨rfl, start⟩,
      Json.size?_eq_some_iff.2 ⟨rfl, stop⟩]

/-- At neither end of a span stands a number that is no offset. -/
theorem ofJson?_outOfRange {j : Json} {field : String} {n : Int}
    (has : shape.HasField j field (.integer n)) (out : n < 0 ∨ 2 ^ 64 ≤ n) : ofJson? j = none := by
  rw [Option.eq_none_iff_forall_ne_some]
  intro s read
  obtain ⟨gives, start, stop⟩ := ofJson?_eq_some_iff.1 read
  have given := (List.of_mem_zip (gives.mem_zip has)).2
  simp only [List.mem_cons, Option.some.injEq, Json.integer.injEq, List.not_mem_nil,
    or_false] at given
  omega

theorem isExact_toJson (s : Span) : s.toJson.IsExact :=
  .object (by simp [Json.IsExact.integer])

theorem ofJson?_toJson {s : Span} (fits : s.Fits) : ofJson? s.toJson = some s := by
  rw [ofJson?_eq_some_iff, Form, ← Json.fields?_eq_some_iff]
  exact ⟨rfl, fits⟩

end Span

/-! ### Unit definitions -/

namespace UnitDefinition

variable {otherItems : Bool}

def Form (otherItems : Bool) (d : UnitDefinition) (j : Json) : Prop :=
  (shape otherItems).Gives j [some (.string d.name), some (.string d.formula)]

/-- A unit definition is read from the records that give its name and its formula. -/
theorem ofJson?_eq_some_iff {j : Json} {d : UnitDefinition} :
    ofJson? otherItems j = some d ↔ d.Form otherItems j := by
  rw [Form, ← Json.fields?_eq_some_iff]
  constructor
  · intro read
    unfold ofJson? at read
    split at read
    · next fields =>
        simp only [Option.bind_eq_bind, Option.bind_eq_some_iff, Json.text?_eq_some_iff,
          Option.pure_def, Option.some.injEq] at read
        obtain ⟨_, rfl, _, rfl, rfl⟩ := read
        exact fields
    · cases read
  · intro fields
    simp [ofJson?, fields, Json.text?_eq_some_iff.2 rfl]

theorem isExact_toJson (d : UnitDefinition) : d.toJson.IsExact :=
  .object (by simp [Json.IsExact.string])

theorem ofJson?_toJson (d : UnitDefinition) : ofJson? otherItems d.toJson = some d := by
  rw [ofJson?_eq_some_iff, Form, ← Json.fields?_eq_some_iff]
  rfl

end UnitDefinition

/-! ### Configurations -/

namespace Config

variable {otherItems : Bool}

/-- The units of a configuration are listed in an array, or left out if there are none. -/
inductive GivesUnits (otherItems : Bool) : Option Json → List UnitDefinition → Prop where
  | leftOut : GivesUnits otherItems none []
  | listed {items : List Json} {units : List UnitDefinition}
      (each : List.Forall₂ (fun item d => d.Form otherItems item) items units) :
      GivesUnits otherItems (some (.array items)) units

/-- The precision of a configuration is a number in a word of 64 bits, or left out if it is the
    default one. -/
inductive GivesPrecision : Option Json → Nat → Prop where
  | leftOut : GivesPrecision none defaultPrecision
  | number {n : Nat} (fits : n < 2 ^ 64) : GivesPrecision (some (.integer n)) n

/-- The precision is a word of 64 bits. -/
def Fits (config : Config) : Prop := config.precision < 2 ^ 64

def Form (otherItems : Bool) (config : Config) (j : Json) : Prop :=
  ∃ units precision, (shape otherItems).Gives j [units, precision] ∧
    GivesUnits otherItems units config.units ∧ GivesPrecision precision config.precision

theorem Form.fits {config : Config} {j : Json} (form : config.Form otherItems j) :
    config.Fits := by
  obtain ⟨units, precision, -, -, givesPrecision⟩ := form
  rw [Fits]
  generalize config.precision = n at givesPrecision ⊢
  cases givesPrecision with
  | leftOut => decide
  | number fits => exact fits

theorem mapM_eq_some_iff {items : List Json} {units : List UnitDefinition} :
    items.mapM (UnitDefinition.ofJson? otherItems) = some units ↔
      List.Forall₂ (fun item d => d.Form otherItems item) items units := by
  induction items generalizing units with
  | nil => simp [eq_comm]
  | cons item items ih =>
      simp only [List.mapM_cons, Option.bind_eq_bind, Option.bind_eq_some_iff, Option.pure_def,
        Option.some.injEq, ih, UnitDefinition.ofJson?_eq_some_iff, List.forall₂_cons_left_iff]
      constructor
      · rintro ⟨d, first, units, others, rfl⟩
        exact ⟨d, units, first, others, rfl⟩
      · rintro ⟨d, units, first, others, rfl⟩
        exact ⟨d, first, units, others, rfl⟩

theorem unitsField?_eq_some_iff {field : Option Json} {units : List UnitDefinition} :
    unitsField? otherItems field = some units ↔ GivesUnits otherItems field units := by
  unfold unitsField?
  split
  · constructor
    · rintro ⟨⟩
      exact .leftOut
    · rintro ⟨⟩
      rfl
  · rw [mapM_eq_some_iff]
    exact ⟨.listed, fun | .listed each => each⟩
  · next other =>
      refine iff_of_false (by simp) ?_
      rintro ⟨⟩
      exact other _ rfl

theorem precisionField?_eq_some_iff {field : Option Json} {n : Nat} :
    precisionField? field = some n ↔ GivesPrecision field n := by
  cases field with
  | none =>
      constructor
      · rintro ⟨⟩
        exact .leftOut
      · rintro ⟨⟩
        rfl
  | some value =>
      rw [precisionField?, Json.size?_eq_some_iff]
      constructor
      · rintro ⟨rfl, fits⟩
        exact .number fits
      · rintro ⟨⟩
        exact ⟨rfl, ‹_›⟩

/-- A configuration is read from the records that give its units and its precision. -/
theorem ofJson?_eq_some_iff {j : Json} {config : Config} :
    ofJson? otherItems j = some config ↔ config.Form otherItems j := by
  simp only [Form, ← Json.fields?_eq_some_iff]
  constructor
  · intro read
    unfold ofJson? at read
    split at read
    · next fields =>
        simp only [Option.bind_eq_bind, Option.bind_eq_some_iff, unitsField?_eq_some_iff,
          precisionField?_eq_some_iff, Option.pure_def, Option.some.injEq] at read
        obtain ⟨_, units, _, precision, rfl⟩ := read
        exact ⟨_, _, fields, units, precision⟩
    · cases read
  · rintro ⟨units, precision, fields, givesUnits, givesPrecision⟩
    simp [ofJson?, fields, unitsField?_eq_some_iff.2 givesUnits,
      precisionField?_eq_some_iff.2 givesPrecision]

theorem isExact_toJson (config : Config) : config.toJson.IsExact := by
  refine .object (List.forall_mem_cons.2 ⟨.array ?_, by simp [Json.IsExact.integer]⟩)
  intro item mem
  obtain ⟨d, -, rfl⟩ := List.mem_map.1 mem
  exact d.isExact_toJson

theorem ofJson?_toJson {config : Config} (fits : config.Fits) :
    ofJson? otherItems config.toJson = some config := by
  rw [ofJson?_eq_some_iff]
  refine ⟨some (.array (config.units.map UnitDefinition.toJson)),
    some (.integer config.precision), ?_, .listed ?_, .number fits⟩
  · rw [← Json.fields?_eq_some_iff]
    rfl
  · rw [List.forall₂_map_left_iff, List.forall₂_same]
    exact fun d _ => UnitDefinition.ofJson?_eq_some_iff.1 d.ofJson?_toJson

/-- A configuration has no members but its two fields. -/
theorem ofJson?_unknown {members : List (String × Json)} {name : String} {value : Json}
    (mem : (name, value) ∈ members) (unknown : name ≠ "unit" ∧ name ≠ "precision") :
    ofJson? otherItems (.object members) = none := by
  rw [Option.eq_none_iff_forall_ne_some]
  intro config read
  obtain ⟨units, precision, gives, -, -⟩ := ofJson?_eq_some_iff.1 read
  rw [← Json.fields?_eq_some_iff, Json.fields?_object_eq_some_iff] at gives
  have known := gives.1 rfl _ mem
  simp [shape, unknown] at known

/-- The precision is no number that does not fit. -/
theorem ofJson?_outOfRange {j : Json} {n : Int}
    (has : (shape otherItems).HasField j "precision" (.integer n)) (out : n < 0 ∨ 2 ^ 64 ≤ n) :
    ofJson? otherItems j = none := by
  rw [Option.eq_none_iff_forall_ne_some]
  intro config read
  obtain ⟨units, precision, gives, -, givesPrecision⟩ := ofJson?_eq_some_iff.1 read
  have given := gives.mem_zip has
  obtain rfl : precision = some (.integer n) := by simpa [shape, eq_comm] using given
  generalize config.precision = m at givesPrecision
  cases givesPrecision with
  | number fits => omega

end Config

/-! ### Every type -/

/-- What is written for a value is read as that value, and each type is read from its forms only. A
    configuration with a further member, and a number that does not fit its field, are no data. -/
theorem serialized_roundTrips (otherItems : Bool) :
    Json.RoundTrips Dimension.toJson Dimension.ofJson? (fun _ => True)
        (fun d j => Dimension.shape.Gives j d.fieldValues) ∧
      Json.RoundTrips MetricPrefix.toJson MetricPrefix.ofJson? (fun _ => True)
        MetricPrefix.Form ∧
      Json.RoundTrips Span.toJson Span.ofJson? Span.Fits Span.Form ∧
      Json.RoundTrips UnitDefinition.toJson (UnitDefinition.ofJson? otherItems) (fun _ => True)
        (UnitDefinition.Form otherItems) ∧
      Json.RoundTrips Config.toJson (Config.ofJson? otherItems) Config.Fits
        (Config.Form otherItems) ∧
      (∀ members name value, (name, value) ∈ members → name ≠ "unit" ∧ name ≠ "precision" →
        Config.ofJson? otherItems (.object members) = none) ∧
      (∀ j field n, Dimension.shape.HasField j field (.integer n) → n < -128 ∨ 127 < n →
        Dimension.ofJson? j = none) ∧
      (∀ j field n, Span.shape.HasField j field (.integer n) → n < 0 ∨ 2 ^ 64 ≤ n →
        Span.ofJson? j = none) ∧
      ∀ j n, (Config.shape otherItems).HasField j "precision" (.integer n) → n < 0 ∨ 2 ^ 64 ≤ n →
        Config.ofJson? otherItems j = none := by
  refine ⟨?dimension, ?metricPrefix, ?span, ?definition, ?config, ?unknown, ?exponent, ?offset,
    ?precision⟩
  case dimension =>
    exact Json.roundTrips_of Dimension.isExact_toJson (fun d _ => d.ofJson?_toJson)
      (fun _ _ => Dimension.ofJson?_eq_some_iff) fun _ _ _ => trivial
  case metricPrefix =>
    exact Json.roundTrips_of (fun p => .string p.name) (fun p _ => p.ofJson?_toJson)
      (fun _ _ => MetricPrefix.ofJson?_eq_some_iff) fun _ _ _ => trivial
  case span =>
    exact Json.roundTrips_of Span.isExact_toJson (fun _ fits => Span.ofJson?_toJson fits)
      (fun _ _ => Span.ofJson?_eq_some_iff) fun _ _ form => form.2
  case definition =>
    exact Json.roundTrips_of UnitDefinition.isExact_toJson (fun d _ => d.ofJson?_toJson)
      (fun _ _ => UnitDefinition.ofJson?_eq_some_iff) fun _ _ _ => trivial
  case config =>
    exact Json.roundTrips_of Config.isExact_toJson (fun _ fits => Config.ofJson?_toJson fits)
      (fun _ _ => Config.ofJson?_eq_some_iff) fun _ _ form => form.fits
  case unknown => exact fun _ _ _ mem unknown => Config.ofJson?_unknown mem unknown
  case exponent => exact fun _ _ _ has out => Dimension.ofJson?_outOfRange has out
  case offset => exact fun _ _ _ has out => Span.ofJson?_outOfRange has out
  case precision => exact fun _ _ has out => Config.ofJson?_outOfRange has out

/-- A configuration with its members in the other order and a definition as an array comes back as
    it is, and its precision cannot be below zero. -/
theorem serialized_roundTrips_slug :
    let config : Config := ⟨[⟨"slug", "32.174049*lb"⟩], 3⟩
    let value : Json := .object [("precision", .integer 3),
      ("unit", .array [.array [.string "slug", .string "32.174049*lb"]])]
    let below : Json := .array [.array [], .integer (-1)]
    Config.ofJson? false value = some config ∧
      Json.ReadsBack Config.toJson (Config.ofJson? false) config ∧
      Config.ofJson? false below = none := by
  intro config value below
  obtain ⟨-, -, -, -, roundTrips, -, -, -, outOfRange⟩ := serialized_roundTrips false
  have read : Config.ofJson? false value = some config := rfl
  exact ⟨read, roundTrips.again config value read,
    outOfRange below (-1) (.item (i := 1) rfl rfl) (.inl (by decide))⟩

end Metrology
