/-
Module: Metrology.Proofs.TableHistory
Layer: Proofs
Purpose: What a table remembers of a run. Names are bound one by one, several at once, or by making
  a new table, and a name may be written any number of times. The entries stay in strictly ascending
  order of names, so that putting an entry in finds the one it replaces; and a name has the unit of
  its last write. All that can be observed of a table follows from these two facts. Names ascend by
  characters, and the UTF-8 encoding keeps that order, so they ascend by bytes as well.
Imports: Mathlib.Data.Finset.Card, Mathlib.Data.String.Basic, Metrology.Proofs.NameResolution
Main exports: utf8Bytes, utf8Bytes_lt, SymbolTable.Origin, SymbolTable.Step, SymbolTable.run,
  SymbolTable.written, SymbolTable.Remembers, SymbolTable.remembers_run,
  SymbolTable.run_last_write_wins
-/
import Mathlib.Data.Finset.Card
import Mathlib.Data.String.Basic
import Metrology.Proofs.NameResolution

namespace Metrology

/-! ### The order of bytes -/

theorem ofNat_cons_lt {a b : Nat} (less : a < b) (fits : b < 256) (front back : List UInt8) :
    UInt8.ofNat a :: front < UInt8.ofNat b :: back := by
  apply List.Lex.rel
  rw [UInt8.lt_iff_toNat_lt, UInt8.toNat_ofNat', UInt8.toNat_ofNat', Nat.mod_eq_of_lt (by omega),
    Nat.mod_eq_of_lt (by omega)]
  exact less

/-- Below a limit, a greater number has greater bytes, whatever follows them. -/
def AscendsBelow (limit : Nat) (bytes : Nat → List UInt8) : Prop :=
  ∀ ⦃m n⦄, m < n → n < limit → ∀ front back, bytes m ++ front < bytes n ++ back

theorem ascendsBelow_lead (limit offset : Nat) (fits : limit + offset ≤ 256) :
    AscendsBelow limit fun n => [UInt8.ofNat (n + offset)] := by
  intro m n less below front back
  exact ofNat_cons_lt (by omega) (by omega) front back

/-- Six more bits in one more byte. -/
theorem AscendsBelow.tail {limit : Nat} {bytes : Nat → List UInt8} (h : AscendsBelow limit bytes) :
    AscendsBelow (limit * 64) fun n => bytes (n / 64) ++ [UInt8.ofNat (n % 64 + 128)] := by
  intro m n less below front back
  simp only [List.append_assoc]
  rcases Nat.lt_or_ge (m / 64) (n / 64) with upper | upper
  · exact h upper (by omega) _ _
  · have same : m / 64 = n / 64 := by omega
    rw [same]
    exact List.append_left_lt (ofNat_cons_lt (by omega) (by omega) front back)

/-- A greater character has greater bytes. The first byte tells how many there are, so only
    characters with equally many differ further on. -/
theorem utf8EncodeChar_append_lt {c d : Char} (h : c < d) (front back : List UInt8) :
    String.utf8EncodeChar c ++ front < String.utf8EncodeChar d ++ back := by
  have less : c.val.toNat < d.val.toNat := h
  have top : d.val.toNat < 0x110000 := by
    have valid : d.val.toNat < 0xd800 ∨ 0xdfff < d.val.toNat ∧ d.val.toNat < 0x110000 := d.valid
    omega
  simp only [String.utf8EncodeChar]
  generalize c.val.toNat = m at less
  generalize d.val.toNat = n at less top
  have two := (ascendsBelow_lead 32 0xc0 (by decide)).tail
  have three := (ascendsBelow_lead 16 0xe0 (by decide)).tail.tail
  have four := (ascendsBelow_lead 8 0xf0 (by decide)).tail.tail.tail
  split_ifs
  all_goals first
    | omega
    | exact ofNat_cons_lt (by omega) (by omega) _ _
    | skip
  · have leads : m / 64 % 32 = m / 64 ∧ n / 64 % 32 = n / 64 := by omega
    simpa only [leads] using! two less (by omega) front back
  · have leads : m / 4096 % 16 = m / 64 / 64 ∧ n / 4096 % 16 = n / 64 / 64 := by omega
    simpa only [leads] using! three less (by omega) front back
  · have leads : m / 262144 % 8 = m / 64 / 64 / 64 ∧ n / 262144 % 8 = n / 64 / 64 / 64 := by omega
    have inner : m / 4096 = m / 64 / 64 ∧ n / 4096 = n / 64 / 64 := by omega
    simpa only [leads, inner] using! four less (by omega) front back

/-- The bytes of a text in UTF-8. -/
def utf8Bytes (text : String) : List UInt8 := text.toByteArray.data.toList

theorem utf8Bytes_eq (text : String) :
    utf8Bytes text = text.toList.flatMap String.utf8EncodeChar := by
  rw [utf8Bytes, ← String.utf8Encode_toList, List.utf8Encode, List.toList_data_toByteArray]

theorem flatMap_utf8EncodeChar_lt {cs ds : List Char} (h : cs < ds) :
    cs.flatMap String.utf8EncodeChar < ds.flatMap String.utf8EncodeChar := by
  have less : List.Lex (· < ·) cs ds := h
  induction less with
  | @nil d ds =>
      rw [List.flatMap_nil, List.flatMap_cons]
      have nonempty : String.utf8EncodeChar d ≠ [] := by
        rw [← List.length_pos_iff, String.length_utf8EncodeChar]
        exact d.utf8Size_pos
      obtain ⟨byte, bytes, shape⟩ := List.exists_cons_of_ne_nil nonempty
      rw [shape]
      exact List.Lex.nil
  | rel less => exact utf8EncodeChar_append_lt less _ _
  | cons less ih => exact List.append_left_lt (ih less)

/-- Texts ascend by bytes as they do by characters. -/
theorem utf8Bytes_lt {s t : String} (h : s < t) : utf8Bytes s < utf8Bytes t := by
  rw [utf8Bytes_eq, utf8Bytes_eq]
  exact flatMap_utf8EncodeChar_lt (String.lt_iff_toList_lt.1 h)

namespace SymbolTable

variable {entries : List (String × MeasureUnit)} {name : String} {unit : MeasureUnit}

/-! ### Entries in order -/

/-- The names of entries in strictly ascending order. -/
def Ascending (entries : List (String × MeasureUnit)) : Prop :=
  (entries.map Prod.fst).Pairwise (· < ·)

theorem ascending_cons {entry : String × MeasureUnit} :
    Ascending (entry :: entries) ↔ (∀ other ∈ entries, entry.1 < other.1) ∧ Ascending entries := by
  simp [Ascending, List.pairwise_cons]

/-- Entries stay in order when one is put in. -/
theorem Ascending.insertIn (h : Ascending entries) (name : String) (unit : MeasureUnit) :
    Ascending (insertIn name unit entries) := by
  induction entries with
  | nil => simp [SymbolTable.insertIn, Ascending]
  | cons first rest ih =>
      obtain ⟨key, old⟩ := first
      obtain ⟨least, ordered⟩ := ascending_cons.1 h
      simp only [SymbolTable.insertIn]
      split_ifs with same before
      · subst same
        exact ascending_cons.2 ⟨least, ordered⟩
      · refine ascending_cons.2 ⟨fun other mem => ?_, h⟩
        rcases List.mem_cons.1 mem with rfl | later
        · exact before
        · exact before.trans (least other later)
      · refine ascending_cons.2 ⟨fun other mem => ?_, ih ordered⟩
        rcases mem_insertIn mem with rfl | later
        · exact lt_of_le_of_ne (not_lt.1 before) same
        · exact least other later

/-- What is not below any entry's name is not bound. -/
theorem lookupIn_eq_none_of_lt (least : ∀ entry ∈ entries, name < entry.1) :
    lookupIn name entries = none := by
  induction entries with
  | nil => rfl
  | cons first rest ih =>
      have here : name < first.1 := least first (List.mem_cons_self ..)
      rw [lookupIn, if_neg here.ne', ih fun entry mem => least entry (List.mem_cons_of_mem _ mem)]

/-- The entry that is replaced is the one that is looked up: the search may stop at the first
    greater name because the names ascend. -/
theorem replacedIn_eq (h : Ascending entries) (name : String) :
    replacedIn name entries = lookupIn name entries := by
  induction entries with
  | nil => rfl
  | cons first rest ih =>
      obtain ⟨key, old⟩ := first
      obtain ⟨least, ordered⟩ := ascending_cons.1 h
      simp only [replacedIn, lookupIn]
      split_ifs with same before
      · rfl
      · exact (lookupIn_eq_none_of_lt fun entry mem => before.trans (least entry mem)).symm
      · exact ih ordered

/-- In ascending order every entry is the one that its name finds. -/
theorem mem_iff_lookupIn (h : Ascending entries) :
    (name, unit) ∈ entries ↔ lookupIn name entries = some unit := by
  induction entries with
  | nil => simp [lookupIn]
  | cons first rest ih =>
      obtain ⟨key, old⟩ := first
      obtain ⟨least, ordered⟩ := ascending_cons.1 h
      rw [List.mem_cons, lookupIn, Prod.mk.injEq, ih ordered]
      by_cases same : key = name
      · subst same
        have once : lookupIn key rest = none := lookupIn_eq_none_of_lt least
        simp [once, eq_comm]
      · simp [same, Ne.symm same]

/-! ### Runs -/

/-- Where a table comes from. -/
inductive Origin where
  | empty
  | defaults
  | collected (pairs : List (String × MeasureUnit))

/-- What is done to a table: a binding, several of them in order, or a new table of bindings in its
    place. -/
inductive Step where
  | define (name : String) (unit : MeasureUnit)
  | extend (pairs : List (String × MeasureUnit))
  | collect (pairs : List (String × MeasureUnit))

def Origin.table : Origin → SymbolTable
  | empty => .empty
  | defaults => .defaults
  | collected pairs => .ofList pairs

/-- The bindings that an origin has written, in order. -/
def Origin.written : Origin → List (String × MeasureUnit)
  | empty => []
  | defaults => CatalogUnit.all.flatMap bindings
  | collected pairs => pairs

def Step.apply (table : SymbolTable) : Step → SymbolTable
  | define name unit => (table.insert name unit).2
  | extend pairs => table.extend pairs
  | collect pairs => .ofList pairs

/-- The bindings that are written after a step, in order. -/
def Step.written (before : List (String × MeasureUnit)) : Step → List (String × MeasureUnit)
  | define name unit => before ++ [(name, unit)]
  | extend pairs => before ++ pairs
  | collect pairs => pairs

/-- The table at the end of a run. -/
def run (origin : Origin) (steps : List Step) : SymbolTable := steps.foldl Step.apply origin.table

/-- All bindings that a run has written into its table, in order. -/
def written (origin : Origin) (steps : List Step) : List (String × MeasureUnit) :=
  steps.foldl Step.written origin.written

/-- A table is in order and has every name's last unit of a list of bindings. -/
structure Remembers (table : SymbolTable) (writes : List (String × MeasureUnit)) : Prop where
  ascending : Ascending table.entries
  lookup?_eq : ∀ name, table.lookup? name = writes.reverse.lookup name

variable {table : SymbolTable} {writes pairs : List (String × MeasureUnit)}

theorem remembers_empty : empty.Remembers [] := ⟨List.Pairwise.nil, fun _ => rfl⟩

theorem ascending_extend (h : Ascending table.entries) (pairs : List (String × MeasureUnit)) :
    Ascending (table.extend pairs).entries := by
  induction pairs generalizing table with
  | nil => exact h
  | cons pair pairs ih =>
      have first : Ascending (table.define pair.1 pair.2).entries := h.insertIn pair.1 pair.2
      exact ih first

theorem Remembers.extend (h : table.Remembers writes) (pairs : List (String × MeasureUnit)) :
    (table.extend pairs).Remembers (writes ++ pairs) where
  ascending := ascending_extend h.ascending pairs
  lookup?_eq name := by
    rw [lookup?_extend_eq, h.lookup?_eq, List.reverse_append, List.lookup_append]

theorem remembers_ofList (pairs : List (String × MeasureUnit)) : (ofList pairs).Remembers pairs :=
  remembers_empty.extend pairs

theorem Remembers.step (h : table.Remembers writes) (step : Step) :
    (step.apply table).Remembers (step.written writes) := by
  cases step with
  | define name unit => exact h.extend [(name, unit)]
  | extend pairs => exact h.extend pairs
  | collect pairs => exact remembers_ofList pairs

theorem remembers_origin (origin : Origin) : origin.table.Remembers origin.written := by
  cases origin with
  | empty => exact remembers_empty
  | defaults => exact remembers_ofList _
  | collected pairs => exact remembers_ofList pairs

theorem remembers_run (origin : Origin) (steps : List Step) :
    (run origin steps).Remembers (written origin steps) := by
  have fold : ∀ steps table writes, Remembers table writes →
      (List.foldl Step.apply table steps).Remembers (List.foldl Step.written writes steps) := by
    intro steps
    induction steps with
    | nil => exact fun _ _ h => h
    | cons step steps ih => exact fun _ _ h => ih _ _ (h.step step)
  exact fold steps _ _ (remembers_origin origin)

/-! ### What can be observed -/

namespace Remembers

/-- Binding a name hands back what it was bound to just before. -/
theorem insert_fst (h : table.Remembers writes) (name : String) (unit : MeasureUnit) :
    (table.insert name unit).1 = table.lookup? name :=
  replacedIn_eq h.ascending name

theorem mem_entries_iff (h : table.Remembers writes) :
    (name, unit) ∈ table.entries ↔ table.lookup? name = some unit :=
  mem_iff_lookupIn h.ascending

/-- The bound names are the written ones. -/
theorem mem_names_iff (h : table.Remembers writes) :
    name ∈ table.entries.map Prod.fst ↔ name ∈ writes.map Prod.fst := by
  have bound : name ∈ table.entries.map Prod.fst ↔ (table.lookup? name).isSome = true := by
    simp [h.mem_entries_iff, Option.isSome_iff_exists]
  have isWritten : (writes.reverse.lookup name).isSome = true ↔ name ∈ writes.map Prod.fst := by
    rw [List.lookup_isSome_iff]
    constructor
    · rintro ⟨entry, mem, same⟩
      exact List.mem_map.2 ⟨entry, List.mem_reverse.1 mem, (beq_iff_eq.1 same).symm⟩
    · intro mem
      obtain ⟨entry, listed, rfl⟩ := List.mem_map.1 mem
      exact ⟨entry, List.mem_reverse.2 listed, beq_self_eq_true _⟩
  rw [bound, h.lookup?_eq, isWritten]

theorem contains_iff (h : table.Remembers writes) :
    table.contains name = true ↔ name ∈ writes.map Prod.fst := by
  rw [← h.mem_names_iff, contains, Option.isSome_iff_exists]
  simp [h.mem_entries_iff]

theorem nodup_names (h : table.Remembers writes) : (table.entries.map Prod.fst).Nodup :=
  h.ascending.imp ne_of_lt

/-- There are as many entries as names that were written. -/
theorem size_eq (h : table.Remembers writes) :
    table.size = (writes.map Prod.fst).toFinset.card := by
  have same : (writes.map Prod.fst).toFinset = (table.entries.map Prod.fst).toFinset := by
    ext name
    rw [List.mem_toFinset, List.mem_toFinset, h.mem_names_iff]
  rw [same, List.toFinset_card_of_nodup h.nodup_names, List.length_map, size]

theorem ascending_bytes (h : table.Remembers writes) :
    (table.entries.map fun entry => utf8Bytes entry.1).Pairwise (· < ·) := by
  have bytes := List.Pairwise.map utf8Bytes (fun _ _ => utf8Bytes_lt) h.ascending
  rwa [List.map_map] at bytes

end Remembers

/-- However a table came about, and whatever was done to it, it is a map in which the last write of
    a name counts: the unit of a name is that of its last write, binding a name hands back the unit
    that it had, and the entries are the names that were written, each once and with its unit, in
    strictly ascending order of bytes. A name that is not bound is read as a prefix symbol before
    the rest of it, if there is a rest and it is bound; in no other case is it read with a
    prefix. -/
theorem run_last_write_wins (origin : Origin) (steps : List Step) :
    let table := run origin steps
    let writes := written origin steps
    (∀ name, table.lookup? name = writes.reverse.lookup name) ∧
    (∀ name unit, (table.insert name unit).1 = table.lookup? name ∧
      (table.insert name unit).2 = run origin (steps ++ [.define name unit])) ∧
    (∀ name, (table.contains name = true ↔ ∃ unit, table.lookup? name = some unit) ∧
      (table.contains name = true ↔ name ∈ writes.map Prod.fst)) ∧
    table.size = (writes.map Prod.fst).toFinset.card ∧
    (∀ name unit, (name, unit) ∈ table.entries ↔ table.lookup? name = some unit) ∧
    (table.entries.map Prod.fst).Nodup ∧
    (table.entries.map fun entry => utf8Bytes entry.1).Pairwise (· < ·) ∧
    ∀ name p base, table.resolve? name = some (.prefixed p base) ↔
      table.lookup? name = none ∧ ∃ rest, rest ≠ [] ∧ name.toList = p.symbol :: rest ∧
        table.lookup? (String.ofList rest) = some base := by
  intro table writes
  have remembers : table.Remembers writes := remembers_run origin steps
  refine ⟨remembers.lookup?_eq, fun name unit => ⟨remembers.insert_fst name unit, ?_⟩,
    fun name => ⟨?_, remembers.contains_iff⟩, remembers.size_eq,
    fun name unit => remembers.mem_entries_iff, remembers.nodup_names, remembers.ascending_bytes,
    fun name p base => Resolution.find?_eq_prefixed_iff⟩
  · rw [run, List.foldl_append]
    rfl
  · rw [contains, Option.isSome_iff_exists]

end SymbolTable

end Metrology
