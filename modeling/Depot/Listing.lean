import Depot.Catalog.Query
import Depot.Json.Printer

/-!
# Listings

What a catalog has to offer, as text for people: either all values that a query can ask for, in
wrapped lines, or the components that a query has found.
-/

namespace Depot.Listing

/-- How many bytes a line should have at most. -/
def width : Nat := 78

def indent : String := "  "

/-- All values but the last get a comma. -/
def items : List String → List String
  | [] => []
  | [v] => [v]
  | v :: vs => (v ++ ",") :: items vs

/-- Lines of the items: an item goes to a new line if it does not fit on `line`, unless that is
still empty. -/
def fill (line : String) : List String → List String
  | [] => [line]
  | item :: rest =>
    if line.utf8ByteSize ≤ indent.utf8ByteSize then fill (line ++ item) rest
    else if width < line.utf8ByteSize + 1 + item.utf8ByteSize then
      line :: fill (indent ++ item) rest
    else fill (line ++ " " ++ item) rest

/-- The values with commas between them, in indented lines. -/
def wrap (values : List String) : List String :=
  fill indent (items values)

/-- Lines with their ends. -/
def unlines (ls : List String) : String :=
  String.join (ls.map (· ++ "\n"))

def block (heading : String) (values : List String) : List String :=
  (heading ++ ":") :: wrap values

def choices (c : Catalog.Choices) (n : Catalog.Counts) : String :=
  unlines <|
    block "Architectures" c.arches ++ block "Targets" c.targets ++
    block "Editions" c.editions ++ block "Versions" c.versions ++
    block "Components" c.components ++
    [s!"{n.versions} versions, {n.downloads} downloads, {n.components} downloadable components"]

def entry (e : Entry) : List String :=
  ["Download: " ++ e.component, " Version: " ++ e.version, "  Target: " ++ e.target,
    "    Arch: " ++ e.arch, " Edition: " ++ e.edition, "    Info: " ++ e.data.render, ""]

def summary : Nat → String
  | 0 => "No items matched the listed filters"
  | 1 => "Only one matching item"
  | n => s!"{n} available downloadable components"

def entries (es : List Entry) : String :=
  unlines <| es.flatMap entry ++
    [summary es.length, "(Omit filter arguments for a list of available filters)"]

/-- The listing for a query; one without filters asks for what there is to choose. -/
def ofQuery (c : Catalog) (q : Query) : Except Cache.Error String :=
  if q.isEmpty then .ok (choices c.choices c.counts)
  else (c.query q).map entries

end Depot.Listing
