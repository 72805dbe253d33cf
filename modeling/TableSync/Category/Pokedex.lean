import TableSync.Category.Species

/-!
# Dex order

The national and the regional dex, in the order of their enumerations.

* `entries` are the entries of one dex: the names with its stem on the lines of the header, from the
  first line to the last one, but for the one that stands for none.  There is no start and no end to
  be found, unlike for the index of species in `TableSync.Category.Species`, which is read from the
  same header.
* `parse` is the document of both, two lists of names.
* `dex` reads one of the lists back from a document.

Nothing is written from this document; its header is bound all the same, so that it has a backup.
-/

set_option autoImplicit false

namespace TableSync.Pokedex

/-- The header with the dex enumerations. -/
def header : String := Species.dexHeader

/-- The configuration that decides which species are enabled. -/
def configHeader : String := "include/config/species_enabled.h"

/-- An entry of the national dex. -/
def nationalEntry? (line : Text) : Option String := Species.enumEntry? Species.dexStem line

/-- An entry of the regional dex. -/
def regionalEntry? (line : Text) : Option String :=
  Species.enumEntry? "HOENN_DEX_".toList line

/-- The entries of a dex without the one that stands for none. -/
def entries (nameOf? : Text → Option String) (absent : String) (text : Text) : List String :=
  ((lines text).filterMap nameOf?).filter (· ≠ absent)

/-- The document of both dexes. -/
def parse (text : Text) : Extraction :=
  let national := entries nationalEntry? "NATIONAL_DEX_NONE" text
  let regional := entries regionalEntry? "HOENN_DEX_NONE" text
  ⟨⟨[("national_dex", .list (national.map .str)), ("regional_dex", .list (regional.map .str))]⟩,
    { records := national.length + regional.length }⟩

/-- A dex of the document. -/
def dex (records : Record) (key : String) : List String :=
  ((records.items? key).getD []).filterMap Value.str?

end TableSync.Pokedex
