/-
Module: Metrology.Proofs.NearestConfig
Layer: Proofs
Purpose: The nearest configuration wins. A search goes from a directory to its parent, one name less
  each time, so it ends at the root; on the way it sees exactly the places that the directory's
  names begin with, nearest first, and in each of them the names of configuration files in their
  order of choice. What it finds is a regular file, and it finds nothing only if there is none.
Imports: Mathlib.Data.List.Infix, Metrology.Config
Main exports: FileTree.HasFile, FileTree.isFile_iff, Config.FirstChoice, Config.Closest,
  Config.IsNearest, Config.isNearest_findAbove?, Config.find?_nearest
-/
import Mathlib.Data.List.Infix
import Metrology.Config

namespace Metrology

/-! ### Regular files -/

namespace FileTree

variable {tree : FileTree} {place : Path}

/-- A regular file stands at a place, and every place on the way to it is a directory. -/
def HasFile (tree : FileTree) (place : Path) : Prop :=
  (∀ k < place.length, tree.node? (place.take k) = some .directory) ∧
    ∃ text, tree.node? place = some (.file text)

theorem isDirectory_iff : tree.isDirectory place = true ↔ tree.node? place = some .directory := by
  unfold isDirectory
  split <;> simp_all

/-- Names without two points lead to the place that they spell. -/
theorem walk?_bind_eq_file_iff {names : Path} {text : String} (plain : ".." ∉ names) :
    (tree.walk? place names).bind tree.node? = some (.file text) ↔
      (∀ k < names.length, tree.node? (place ++ names.take k) = some .directory) ∧
        tree.node? (place ++ names) = some (.file text) := by
  induction names generalizing place with
  | nil => simp [walk?]
  | cons name names ih =>
      obtain ⟨notUp, plain⟩ : ".." ≠ name ∧ ".." ∉ names := by simpa using plain
      have split : (∀ k < (name :: names).length,
            tree.node? (place ++ (name :: names).take k) = some .directory) ↔
          tree.node? place = some .directory ∧
            ∀ k < names.length, tree.node? (place ++ [name] ++ names.take k) = some .directory := by
        rw [List.length_cons, Nat.forall_lt_succ_left]
        simp
      have whole : place ++ name :: names = place ++ [name] ++ names := by simp
      rw [split, whole, walk?]
      by_cases directory : tree.node? place = some .directory
      · simp only [isDirectory_iff.2 directory, directory, Bool.not_true, Bool.false_eq_true,
          if_false, if_neg (Ne.symm notUp), true_and]
        by_cases there : (tree.node? (place ++ [name])).isSome = true
        · rw [if_pos there, ih plain]
        · -- nothing is there, so it is neither the file nor a directory on the way to it
          have nothing : tree.node? (place ++ [name]) = none := by simpa using there
          rw [if_neg there, Option.bind_none]
          refine iff_of_false (by simp) fun ⟨onWay, file⟩ => ?_
          cases names with
          | nil => simp [nothing] at file
          | cons next names =>
              have first := onWay 0 (Nat.succ_pos _)
              simp [nothing] at first
      · have refused : tree.isDirectory place = false := by
          rw [← Bool.not_eq_true, isDirectory_iff]
          exact directory
        simp [refused, directory]

theorem isFile_iff (plain : ".." ∉ place) : tree.isFile place = true ↔ tree.HasFile place := by
  have reached (text : String) : (tree.walk? [] place).bind tree.node? = some (.file text) ↔ _ :=
    walk?_bind_eq_file_iff plain
  simp only [List.nil_append] at reached
  have file : tree.isFile place = true ↔ ∃ text, tree.at? place = some (.file text) := by
    unfold isFile
    split <;> simp_all
  rw [file, HasFile, exists_and_left.symm]
  exact exists_congr reached

/-- There is nothing below a regular file. -/
theorem HasFile.not_below (h : tree.HasFile place) (name : String) :
    ¬ tree.HasFile (place ++ [name]) := by
  intro below
  obtain ⟨-, text, file⟩ := h
  have directory := below.1 place.length (by simp)
  rw [List.take_left, file] at directory
  cases directory

end FileTree

namespace Config

open FileTree (HasFile)

variable {tree : FileTree} {directory path : Path}

/-! ### What to find -/

/-- A path is the first choice among the configuration files of a directory. -/
def FirstChoice (tree : FileTree) (directory path : Path) : Prop :=
  ∃ before name after, fileNames = before ++ name :: after ∧ path = directory ++ [name] ∧
    tree.HasFile path ∧ ∀ other ∈ before, ¬ tree.HasFile (directory ++ [other])

/-- A directory has no configuration file. -/
def Lacks (tree : FileTree) (directory : Path) : Prop :=
  ∀ name ∈ fileNames, ¬ tree.HasFile (directory ++ [name])

/-- A path is the first choice in one of the directories from a given one up to the root, and the
    directories below that one have no configuration file. -/
def Closest (tree : FileTree) (directory path : Path) : Prop :=
  ∃ place, place <+: directory ∧ FirstChoice tree place path ∧
    ∀ lower, lower <+: directory → place.length < lower.length → Lacks tree lower

/-- What a search from a directory upwards has to give. -/
structure IsNearest (tree : FileTree) (directory : Path) (found? : Option Path) : Prop where
  some_iff : ∀ path, found? = some path ↔ Closest tree directory path
  none_iff : found? = none ↔ ∀ place, place <+: directory → Lacks tree place

/-! ### One directory -/

theorem plain_child {place : Path} {name : String} (plain : ".." ∉ place)
    (named : name ∈ fileNames) : ".." ∉ place ++ [name] := by
  have other : ".." ≠ name := by
    rintro rfl
    exact absurd named (by decide)
  simp [plain, other]

theorem findIn?_eq (tree : FileTree) (d : WrittenPath) :
    findIn? tree d = (fileNames.find? fun name => tree.isFile (d.names ++ [name])).map d.child := by
  rw [findIn?, List.find?_map]
  simp only [Function.comp_def, WrittenPath.names_child]

theorem findIn?_eq_none_iff {d : WrittenPath} (plain : ".." ∉ d.names) :
    findIn? tree d = none ↔ Lacks tree d.names := by
  rw [findIn?_eq, Option.map_eq_none_iff, List.find?_eq_none]
  exact forall₂_congr fun name named => not_congr (FileTree.isFile_iff (plain_child plain named))

theorem findIn?_eq_some_iff {d : WrittenPath} (plain : ".." ∉ d.names) :
    (findIn? tree d).map WrittenPath.names = some path ↔ FirstChoice tree d.names path := by
  have isFile_iff : ∀ name ∈ fileNames, (tree.isFile (d.names ++ [name]) = true ↔
      tree.HasFile (d.names ++ [name])) :=
    fun name named => FileTree.isFile_iff (plain_child plain named)
  rw [findIn?_eq, Option.map_map, Option.map_eq_some_iff]
  simp only [Function.comp_apply, WrittenPath.names_child, List.find?_eq_some_iff_append,
    Bool.not_eq_true']
  constructor
  · rintro ⟨name, ⟨file, before, after, order, earlier⟩, rfl⟩
    refine ⟨before, name, after, order, rfl, (isFile_iff name (by simp [order])).1 file, ?_⟩
    intro other mem
    rw [← isFile_iff other (by simp [order, mem]), earlier other mem]
    simp
  · rintro ⟨before, name, after, order, rfl, file, earlier⟩
    refine ⟨name, ⟨(isFile_iff name (by simp [order])).2 file, before, after, order, ?_⟩, rfl⟩
    intro other mem
    rw [← Bool.not_eq_true, isFile_iff other (by simp [order, mem])]
    exact earlier other mem

/-! ### One directory further up -/

theorem FirstChoice.not_lacks (h : FirstChoice tree directory path) : ¬ Lacks tree directory := by
  obtain ⟨before, name, after, order, rfl, file, -⟩ := h
  exact fun lacks => lacks name (by simp [order]) file

theorem isPrefix_iff_dropLast {place : Path} :
    place <+: directory ↔ place = directory ∨ place <+: directory.dropLast := by
  rcases directory.eq_nil_or_concat' with rfl | ⟨front, last, rfl⟩
  · simp
  · rw [List.prefix_concat_iff, List.dropLast_concat]

/-- Where a directory has a configuration file, the nearest is its own first choice. -/
theorem closest_iff_firstChoice (has : ¬ Lacks tree directory) :
    Closest tree directory path ↔ FirstChoice tree directory path := by
  constructor
  · rintro ⟨place, above, choice, lower⟩
    rcases Nat.lt_or_ge place.length directory.length with further | here
    · exact absurd (lower directory List.prefix_rfl further) has
    · rwa [above.eq_of_length_le here] at choice
  · intro choice
    refine ⟨directory, List.prefix_rfl, choice, fun lower below longer => ?_⟩
    exact absurd below.length_le (Nat.not_le.2 longer)

/-- Where it has none, the nearest is the one nearest to its parent. -/
theorem closest_iff_dropLast (lacks : Lacks tree directory) :
    Closest tree directory path ↔ Closest tree directory.dropLast path := by
  constructor
  · rintro ⟨place, above, choice, lower⟩
    rcases isPrefix_iff_dropLast.1 above with rfl | above
    · exact absurd lacks choice.not_lacks
    · exact ⟨place, above, choice, fun other below =>
        lower other (isPrefix_iff_dropLast.2 (.inr below))⟩
  · rintro ⟨place, above, choice, lower⟩
    refine ⟨place, isPrefix_iff_dropLast.2 (.inr above), choice, fun other below longer => ?_⟩
    rcases isPrefix_iff_dropLast.1 below with rfl | below
    · exact lacks
    · exact lower other below longer

theorem isNearest_iff_dropLast {found? : Option Path} (lacks : Lacks tree directory) :
    IsNearest tree directory found? ↔ IsNearest tree directory.dropLast found? := by
  have none_iff : (∀ place, place <+: directory → Lacks tree place) ↔
      ∀ place, place <+: directory.dropLast → Lacks tree place := by
    constructor
    · exact fun all place above => all place (isPrefix_iff_dropLast.2 (.inr above))
    · intro all place above
      rcases isPrefix_iff_dropLast.1 above with rfl | above
      · exact lacks
      · exact all place above
  constructor
  · exact fun h => ⟨fun path => by rw [h.some_iff, closest_iff_dropLast lacks],
      by rw [h.none_iff, none_iff]⟩
  · exact fun h => ⟨fun path => by rw [h.some_iff, closest_iff_dropLast lacks],
      by rw [h.none_iff, none_iff]⟩

/-- The search upwards finds the nearest configuration file. -/
theorem isNearest_findAbove? {d : WrittenPath} (plain : ".." ∉ d.names) :
    IsNearest tree d.names ((findAbove? tree d).map WrittenPath.names) := by
  fun_induction findAbove? tree d with
  | case1 d found here =>
      have choice : ∀ path, (findIn? tree d).map WrittenPath.names = some path ↔
        FirstChoice tree d.names path := fun path => findIn?_eq_some_iff plain
      simp only [here, Option.map_some] at choice ⊢
      have has : ¬ Lacks tree d.names := ((choice found.names).1 rfl).not_lacks
      refine ⟨fun path => by rw [choice, closest_iff_firstChoice has], ?_⟩
      exact iff_of_false (by simp) fun all => has (all _ List.prefix_rfl)
  | case2 d here root =>
      have lacks := (findIn?_eq_none_iff plain).1 here
      have top : d.names = [] := by simpa [WrittenPath.names] using root
      rw [top] at lacks ⊢
      constructor
      · intro path
        refine iff_of_false (by simp) ?_
        rintro ⟨place, above, choice, -⟩
        rw [List.prefix_nil.1 above] at choice
        exact choice.not_lacks lacks
      · refine iff_of_true rfl fun place above => ?_
        rwa [List.prefix_nil.1 above]
  | case3 d here below ih =>
      have lacks := (findIn?_eq_none_iff plain).1 here
      rw [WrittenPath.names_parent] at ih
      rw [isNearest_iff_dropLast lacks]
      exact ih fun mem => plain (List.mem_of_mem_dropLast mem)

/-! ### From any place -/

theorem Closest.hasFile (h : Closest tree directory path) : tree.HasFile path := by
  obtain ⟨_, _, ⟨_, _, _, _, _, file, _⟩, _⟩ := h
  exact file

/-- A search begins in the directory where it starts, or in the parent of a regular file. -/
theorem isNearest_find? (tree : FileTree) {start : WrittenPath} (plain : ".." ∉ start.names) :
    (¬ tree.HasFile start.names →
      IsNearest tree start.names ((find? tree start).map WrittenPath.names)) ∧
    (tree.HasFile start.names →
      IsNearest tree start.names.dropLast ((find? tree start).map WrittenPath.names)) := by
  have isFile : tree.isFile start.names = true ↔ tree.HasFile start.names :=
    FileTree.isFile_iff plain
  constructor
  · intro noFile
    have directory : tree.isFile start.names = false := by rwa [← Bool.not_eq_true, isFile]
    simp only [find?, directory, Bool.and_false, Bool.false_eq_true, if_false]
    exact isNearest_findAbove? plain
  · intro file
    have lacks : Lacks tree start.names := fun name _ => file.not_below name
    simp only [find?, isFile.2 file, Bool.and_true]
    split
    · rw [← WrittenPath.names_parent]
      refine isNearest_findAbove? fun mem => ?_
      rw [WrittenPath.names_parent] at mem
      exact plain (List.mem_of_mem_dropLast mem)
    · -- with a slash behind its name the file is taken for a directory, which then is empty
      rw [← isNearest_iff_dropLast lacks]
      exact isNearest_findAbove? plain

/-- A search finds the nearest configuration file, or none if there is none. It begins in the
    directory where it starts, which may not exist, or in the parent of a regular file. What it
    finds is a regular file: a directory with the name of a configuration file is passed over. -/
theorem find?_nearest (tree : FileTree) (start : WrittenPath) (plain : ".." ∉ start.names) :
    (¬ tree.HasFile start.names →
      IsNearest tree start.names ((find? tree start).map WrittenPath.names)) ∧
    (tree.HasFile start.names →
      IsNearest tree start.names.dropLast ((find? tree start).map WrittenPath.names)) ∧
    ∀ found, find? tree start = some found →
      ∃ text, tree.node? found.names = some (.file text) := by
  obtain ⟨fromDirectory, fromFile⟩ := isNearest_find? tree plain
  refine ⟨fromDirectory, fromFile, fun found here => ?_⟩
  rw [here, Option.map_some] at fromDirectory fromFile
  by_cases file : tree.HasFile start.names
  · exact (((fromFile file).some_iff _).1 rfl).hasFile.2
  · exact (((fromDirectory file).some_iff _).1 rfl).hasFile.2

/-- The directory `b` in which the search starts holds a directory with the name of the first
    choice, and does not exist below that. -/
theorem find?_nearest_second_choice :
    let tree : FileTree := .ofEntries [(["a", "quantis.json"], "{}"), (["a", ".quantis.toml"], "")]
      [["a", "b", "quantis.toml"]]
    let start := WrittenPath.ofText "/a/b/c"
    ".." ∉ start.names ∧ (find? tree start).map WrittenPath.names = some ["a", ".quantis.toml"] ∧
      Closest tree ["a", "b", "c"] ["a", ".quantis.toml"] := by
  intro tree start
  have plain : ".." ∉ start.names := by decide
  have found : (find? tree start).map WrittenPath.names = some ["a", ".quantis.toml"] := by
    -- the path itself and the directory above it have no choice
    rw [find?, findAbove?, findAbove?, findAbove?]
    rfl
  have noFile : ¬ tree.HasFile start.names := by
    rw [← FileTree.isFile_iff plain]
    decide
  have names : start.names = ["a", "b", "c"] := by decide
  have nearest := (find?_nearest tree start plain).1 noFile
  rw [names] at nearest
  exact ⟨plain, found, (nearest.some_iff _).1 found⟩

end Config
end Metrology
