import TableSync.Category.Definition
import TableSync.Proofs.Files.Binding

/-!
# Where the files of the categories are

Every category has files of its own, which no other category changes.  It reads others, of which
only one belongs to another category: the header with the dex is read for species, and bound to the
dex.

* `CategoryKind.ownPaths` and `CategoryKind.inputPaths` are the paths of both, and `trackedPaths`
  those of several categories.  Own are the document, the bound files with their backups, and the
  generated files.
* `CategoryKind.IsLaidOut` says how all these paths lie to each other.  They are fixed, so this is
  computed once, for all categories at a time (`CategoryKind.isLaidOut`), and everything else
  follows from it without looking at a path again.
* `apart_trackedPaths`, `eq_of_mem_ownPaths` and `owner_of_input` are what the other modules use of
  it: no file stands in the way of another one, none belongs to two categories, and an input belongs
  to its own category or to none, but for the header.
* `outputs_rels` and `outputs_congr` say which files are written from a document, and on which
  pristine texts they depend.

A category that is added has to keep to the same layout, and `CategoryKind.isLaidOut` is where it
shows if it does not.
-/

set_option autoImplicit false

namespace TableSync

namespace CategoryKind

/-- The document of a category. -/
def documentPath (k : CategoryKind) : Path := Project.documentPath k.document

/-- The bound files of a category, with their backups, and its generated files. -/
def managedPaths (k : CategoryKind) : List Path :=
  (CategoryDef.ofKind k).bindings.flatMap Binding.paths ++
    (CategoryDef.ofKind k).generated.map GeneratedFile.path

/-- The files that only the work on a category changes. -/
def ownPaths (k : CategoryKind) : List Path := k.documentPath :: k.managedPaths

/-- The sources whose times tell whether the document is up to date. -/
def inputPaths (k : CategoryKind) : List Path :=
  (CategoryDef.ofKind k).inputs.map Project.sourcePath

/-- The files that a generator writes. -/
def outputPaths (k : CategoryKind) : List Path :=
  (CategoryDef.ofKind k).generated.map GeneratedFile.path ++
    (CategoryDef.ofKind k).bindings.map Binding.file

theorem kind_ofKind (k : CategoryKind) : (CategoryDef.ofKind k).kind = k := by
  cases k <;> rfl

theorem mem_all (k : CategoryKind) : k ∈ all := by
  cases k <;> decide

theorem ownPaths_eq (k : CategoryKind) : k.ownPaths = match k with
    | species => [["data", "species.json"],
        ["source", "src", "data", "pokemon", "species_info.h"],
        ["source", "src", "data", "pokemon", "species_info.h.bak"],
        ["source", "src", "data", "pokemon", "species_info", "pory_species.h"]]
    | abilities => [["data", "abilities.json"]]
    | items => [["data", "items.json"]]
    | constants => [["data", "constants.json"]]
    | starters => [["data", "starters.json"],
        ["source", "src", "starter_choose.c"], ["source", "src", "starter_choose.c.bak"],
        ["source", "src", "battle_setup.c"], ["source", "src", "battle_setup.c.bak"]]
    | moves => [["data", "moves.json"]]
    | pokedex => [["data", "pokedex.json"], ["source", "include", "constants", "pokedex.h"],
        ["source", "include", "constants", "pokedex.h.bak"]] := by
  cases k <;> decide +kernel

theorem inputPaths_eq (k : CategoryKind) : k.inputPaths = match k with
    | species => [["source", "include", "constants", "pokedex.h"],
        ["source", "src", "data", "pokemon", "species_info.h"]]
    | abilities => [["source", "include", "constants", "abilities.h"]]
    | items => [["source", "src", "data", "items.h"]]
    | constants => [["source", "include", "constants", "pokemon.h"]]
    | starters => [["source", "src", "starter_choose.c"], ["source", "src", "battle_setup.c"]]
    | moves => [["source", "include", "constants", "moves.h"],
        ["source", "src", "data", "text", "move_descriptions.h"],
        ["source", "src", "data", "battle_moves.h"]]
    | pokedex => [["source", "include", "constants", "pokedex.h"]] := by
  cases k <;> decide +kernel

/-- How the paths of all categories lie to each other. -/
structure IsLaidOut : Prop where
  /-- No path of a category is there twice. -/
  own_nodup : ∀ k ∈ all, k.ownPaths.Nodup
  /-- No path belongs to two categories. -/
  own_disjoint : ∀ k ∈ all, ∀ j ∈ all, ∀ p ∈ k.ownPaths, p ∈ j.ownPaths → k = j
  /-- An input belongs to no other category, but for the header that species reads and the dex
  binds. -/
  input_owner : ∀ k ∈ all, ∀ j ∈ all, ∀ p ∈ k.inputPaths, p ∈ j.ownPaths →
    j = k ∨ k = species ∧ j = pokedex ∧ p = Project.sourcePath Pokedex.header
  /-- Every bound file is an input of its category. -/
  file_input : ∀ k ∈ all, ∀ b ∈ (CategoryDef.ofKind k).bindings, b.file ∈ k.inputPaths
  /-- No file is written twice. -/
  output_nodup : ∀ k ∈ all, k.outputPaths.Nodup
  /-- No backup is written by a generator. -/
  backup_output : ∀ k ∈ all, ∀ b ∈ (CategoryDef.ofKind k).bindings, b.backup ∉ k.outputPaths
  /-- No path leads through another one. -/
  apart : Apart (all.flatMap fun k => k.ownPaths ++ k.inputPaths)
  /-- All paths are in the directory of the documents or in that of the sources. -/
  heads : ∀ p ∈ all.flatMap fun k => k.ownPaths ++ k.inputPaths,
    p.head? = some "data" ∨ p.head? = some "source"

/-- The paths are fixed, and how they lie is decided once for all. -/
theorem isLaidOut : IsLaidOut := by
  constructor
  all_goals first | simp only [ownPaths_eq, inputPaths_eq] | skip
  all_goals decide +kernel

theorem ownPaths_nodup (k : CategoryKind) : k.ownPaths.Nodup := isLaidOut.own_nodup k k.mem_all

theorem managedPaths_nodup (k : CategoryKind) : k.managedPaths.Nodup :=
  (List.nodup_cons.1 k.ownPaths_nodup).2

theorem documentPath_notMem (k : CategoryKind) : k.documentPath ∉ k.managedPaths :=
  (List.nodup_cons.1 k.ownPaths_nodup).1

/-- No file belongs to two categories. -/
theorem eq_of_mem_ownPaths {k j : CategoryKind} {p : Path} (hk : p ∈ k.ownPaths)
    (hj : p ∈ j.ownPaths) : k = j :=
  isLaidOut.own_disjoint k k.mem_all j j.mem_all p hk hj

/-- An input belongs to no other category, but for the header with the dex. -/
theorem owner_of_input {k j : CategoryKind} {p : Path} (hk : p ∈ k.inputPaths)
    (hj : p ∈ j.ownPaths) :
    j = k ∨ k = species ∧ j = pokedex ∧ p = Project.sourcePath Pokedex.header :=
  isLaidOut.input_owner k k.mem_all j j.mem_all p hk hj

/-- Every bound file is an input. -/
theorem file_mem_inputPaths {k : CategoryKind} {b : Binding}
    (hb : b ∈ (CategoryDef.ofKind k).bindings) : b.file ∈ k.inputPaths :=
  isLaidOut.file_input k k.mem_all b hb

theorem paths_subset {k : CategoryKind} {b : Binding} (hb : b ∈ (CategoryDef.ofKind k).bindings)
    {p : Path} (hp : p ∈ b.paths) : p ∈ k.managedPaths :=
  List.mem_append_left _ (List.mem_flatMap.2 ⟨b, hb, hp⟩)

theorem file_mem {k : CategoryKind} {b : Binding} (hb : b ∈ (CategoryDef.ofKind k).bindings) :
    b.file ∈ k.managedPaths :=
  paths_subset hb b.file_mem_paths

theorem backup_mem {k : CategoryKind} {b : Binding} (hb : b ∈ (CategoryDef.ofKind k).bindings) :
    b.backup ∈ k.managedPaths :=
  paths_subset hb b.backup_mem_paths

theorem generated_mem {k : CategoryKind} {g : GeneratedFile}
    (hg : g ∈ (CategoryDef.ofKind k).generated) : g.path ∈ k.managedPaths :=
  List.mem_append_right _ (List.mem_map_of_mem hg)

theorem outputPaths_nodup (k : CategoryKind) : k.outputPaths.Nodup :=
  isLaidOut.output_nodup k k.mem_all

theorem mem_outputPaths_iff {k : CategoryKind} {p : Path} :
    p ∈ k.outputPaths ↔ p ∈ (CategoryDef.ofKind k).writtenPaths := by
  rw [outputPaths, CategoryDef.writtenPaths, List.mem_append, List.mem_append, or_comm]

theorem outputPaths_subset {k : CategoryKind} {p : Path} (hp : p ∈ k.outputPaths) :
    p ∈ k.managedPaths := by
  rcases List.mem_append.1 hp with hp | hp
  · exact List.mem_append_right _ hp
  · obtain ⟨b, hb, rfl⟩ := List.mem_map.1 hp
    exact file_mem hb

/-- No backup is written by a generator. -/
theorem backup_notMem_outputPaths {k : CategoryKind} {b : Binding}
    (hb : b ∈ (CategoryDef.ofKind k).bindings) : b.backup ∉ k.outputPaths :=
  isLaidOut.backup_output k k.mem_all b hb

end CategoryKind

/-! ## The files of several categories -/

/-- The paths that the work on some categories depends on. -/
def trackedPaths (K : List CategoryKind) : List Path :=
  K.flatMap fun k => k.ownPaths ++ k.inputPaths

variable {K : List CategoryKind} {k : CategoryKind} {p : Path}

theorem mem_trackedPaths_own (hk : k ∈ K) (hp : p ∈ k.ownPaths) : p ∈ trackedPaths K :=
  List.mem_flatMap.2 ⟨k, hk, List.mem_append_left _ hp⟩

theorem mem_trackedPaths_input (hk : k ∈ K) (hp : p ∈ k.inputPaths) : p ∈ trackedPaths K :=
  List.mem_flatMap.2 ⟨k, hk, List.mem_append_right _ hp⟩

theorem mem_trackedPaths_all (hp : p ∈ trackedPaths K) : p ∈ trackedPaths CategoryKind.all := by
  obtain ⟨k, -, hp⟩ := List.mem_flatMap.1 hp
  exact List.mem_flatMap.2 ⟨k, k.mem_all, hp⟩

/-- No tracked file stands in the way of another one. -/
theorem apart_trackedPaths (K : List CategoryKind) : Apart (trackedPaths K) :=
  fun p hp q hq =>
    CategoryKind.isLaidOut.apart p (mem_trackedPaths_all hp) q (mem_trackedPaths_all hq)

/-- Tracked files are documents and sources. -/
theorem head?_of_mem_trackedPaths (hp : p ∈ trackedPaths K) :
    p.head? = some "data" ∨ p.head? = some "source" :=
  CategoryKind.isLaidOut.heads p (mem_trackedPaths_all hp)

/-- No tracked file is one that the preprocessor writes. -/
theorem not_under_processedDir (hp : p ∈ trackedPaths K) : ¬ Project.processedDir <+: p := by
  rintro ⟨r, rfl⟩
  rcases head?_of_mem_trackedPaths hp with h | h
  · exact absurd (Option.some.inj h) (by decide)
  · exact absurd (Option.some.inj h) (by decide)

/-- No tracked file is on the way to one that the preprocessor writes. -/
theorem not_on_way_to_processed (hp : p ∈ trackedPaths K) (r : Path) :
    ¬ p <+: Project.processedDir ++ r := by
  intro hstart
  cases p with
  | nil => exact (head?_of_mem_trackedPaths hp).elim (absurd · (by simp)) (absurd · (by simp))
  | cons name p =>
    obtain ⟨rfl, -⟩ := List.cons_prefix_cons.1 hstart
    rcases head?_of_mem_trackedPaths hp with h | h
    · exact absurd (Option.some.inj h) (by decide)
    · exact absurd (Option.some.inj h) (by decide)

/-! ## What is written from a document

A generator is given the records and a way to get at the pristine texts.  It asks for those of the
bound files of its category alone, so a build depends on nothing else. -/

namespace CategoryDef

/-- The files that a generator writes: the generated ones and then the bound ones. -/
theorem outputs_rels {k : CategoryKind} {constants : ConstantTable} {records : Record}
    {pristine : String → Result Text} {outs : List (String × Text)}
    (h : (ofKind k).outputs constants records pristine = .ok outs) :
    outs.map Prod.fst = if (ofKind k).generator?.isSome then
      (ofKind k).generated.map GeneratedFile.rel ++ (ofKind k).bindings.map Binding.rel else [] := by
  have hbind : ∀ {α β : Type} {r : Result α} {f : α → Result β} {b : β},
      r >>= f = .ok b → ∃ a, r = .ok a ∧ f a = .ok b := by
    intro α β r f b hb
    cases r with
    | error e => exact absurd hb (by simp [bind, Except.bind])
    | ok a => exact ⟨a, rfl, hb⟩
  have hnone : ∀ {d : CategoryDef}, d.generator? = none →
      d.outputs constants records pristine = .ok outs → outs = [] := by
    intro d hd hout
    rw [outputs, hd] at hout
    exact (Except.ok.inj hout).symm
  cases k with
  | species =>
    obtain ⟨generated, -, h⟩ := hbind h
    obtain ⟨text, -, h⟩ := hbind h
    obtain ⟨table, -, h⟩ := hbind h
    rw [← Except.ok.inj h]
    rfl
  | starters =>
    obtain ⟨text, -, h⟩ := hbind h
    obtain ⟨array, -, h⟩ := hbind h
    obtain ⟨text', -, h⟩ := hbind h
    obtain ⟨giving, -, h⟩ := hbind h
    rw [← Except.ok.inj h]
    rfl
  | _ =>
    rw [hnone rfl h]
    rfl

/-- The paths that a generator writes are those of generated and bound files. -/
theorem outputs_paths {k : CategoryKind} {constants : ConstantTable} {records : Record}
    {pristine : String → Result Text} {outs : List (String × Text)}
    (h : (ofKind k).outputs constants records pristine = .ok outs) :
    outs.map (fun o => Project.sourcePath o.1) =
      if (ofKind k).generator?.isSome then k.outputPaths else [] := by
  have hmap : outs.map (fun o => Project.sourcePath o.1) =
      (outs.map Prod.fst).map Project.sourcePath := by
    rw [List.map_map]
    rfl
  rw [hmap, outputs_rels h]
  split
  · rw [List.map_append, List.map_map, List.map_map]
    rfl
  · rfl

/-- Only a category with a generator has generated files. -/
theorem generator?_isSome {k : CategoryKind} {g : GeneratedFile}
    (hg : g ∈ (ofKind k).generated) : (ofKind k).generator?.isSome = true := by
  cases k with
  | species => rfl
  | starters => rfl
  | _ => exact absurd hg List.not_mem_nil

/-- What is written depends only on the pristine texts of the bound files. -/
theorem outputs_congr {k : CategoryKind} {constants : ConstantTable} {records : Record}
    {pristine pristine' : String → Result Text}
    (h : ∀ b ∈ (ofKind k).bindings, pristine b.rel = pristine' b.rel) :
    (ofKind k).outputs constants records pristine =
      (ofKind k).outputs constants records pristine' := by
  cases k with
  | species =>
    have htable : pristine Species.tableFile = pristine' Species.tableFile :=
      h ⟨Species.tableFile⟩ List.mem_cons_self
    simp only [outputs, ofKind, species, htable]
  | starters =>
    have harray : pristine Starters.arrayFile = pristine' Starters.arrayFile :=
      h ⟨Starters.arrayFile⟩ List.mem_cons_self
    have hgiving : pristine Starters.givingFile = pristine' Starters.givingFile :=
      h ⟨Starters.givingFile⟩ (List.mem_cons_of_mem _ List.mem_cons_self)
    simp only [outputs, ofKind, starters, harray, hgiving]
  | _ => rfl

end CategoryDef

end TableSync
