import Depot.Catalog.Query
import Depot.Settings.Basic

/-!
# Arguments

What the program is told on its command line, and the options that tell it.
-/

namespace Depot

structure Arguments where
  cacheDir : Option String
  config : Option String
  retries : Option Nat
  verbose : Bool
  quiet : Bool
  list : Bool
  version : Option String
  target : Option String
  arch : Option String
  edition : Option String
  component : Option String
  out : Option String
  only : Option String
  strip : Nat
  test : Bool
  noDownload : Bool
  emptyIsError : Bool
  deriving DecidableEq, Repr

namespace Arguments

def default : Arguments where
  cacheDir := none
  config := none
  retries := none
  verbose := false
  quiet := false
  list := false
  version := none
  target := none
  arch := none
  edition := none
  component := none
  out := none
  only := none
  strip := 0
  test := false
  noDownload := false
  emptyIsError := false

/-- The settings with those changed that arguments are given for. -/
def configure (a : Arguments) (s : Settings) : Settings :=
  { s with cacheDir := a.cacheDir.getD s.cacheDir, retries := a.retries.getD s.retries }

/-- The query that the arguments state, and no more. -/
def filters (a : Arguments) : Query :=
  ⟨a.version.map .ofText, a.target, a.arch, a.edition, a.component⟩

end Arguments

namespace CommandLine

inductive Error where
  | unknownArgument
  /-- A value is missing, or empty where it may not be. -/
  | invalidValue
  | notANumber
  /-- A flag has a value. -/
  | unneededValue
  /-- An argument is repeated, or excludes another one. -/
  | conflict
  | missingArgument
  | helpWanted
  deriving DecidableEq, Repr

def Error.message : Error → String
  | .unknownArgument => "unexpected argument found"
  | .invalidValue => "a value is required"
  | .notANumber => "invalid value"
  | .unneededValue => "unexpected value for a flag"
  | .conflict => "the argument cannot be used here"
  | .missingArgument => "--version and --component are required unless --list is given"
  | .helpWanted => ""

/-- The options; some are flags and the others take a value. -/
inductive Key where
  | cacheDir
  | config
  | retries
  | verbose
  | quiet
  | list
  | version
  | target
  | arch
  | edition
  | component
  | out
  | only
  | strip
  | test
  | noDownload
  | emptyIsError
  | help
  deriving DecidableEq, Repr

namespace Key

def all : List Key :=
  [cacheDir, config, retries, verbose, quiet, list, version, target, arch, edition, component, out,
    only, strip, test, noDownload, emptyIsError, help]

def long : Key → String
  | cacheDir => "cache-dir"
  | config => "config"
  | retries => "retries"
  | verbose => "verbose"
  | quiet => "quiet"
  | list => "list"
  | version => "version"
  | target => "target"
  | arch => "arch"
  | edition => "edition"
  | component => "component"
  | out => "out"
  | only => "only"
  | strip => "strip-path-components"
  | test => "test"
  | noDownload => "no-download"
  | emptyIsError => "empty-is-error"
  | help => "help"

def short? : Key → Option Char
  | verbose => some 'v'
  | quiet => some 'q'
  | version => some 'V'
  | target => some 'T'
  | arch => some 'A'
  | edition => some 'E'
  | component => some 'C'
  | out => some 'o'
  | strip => some 'p'
  | help => some 'h'
  | _ => none

def takesValue : Key → Bool
  | verbose | quiet | list | test | noDownload | emptyIsError | help => false
  | _ => true

/-- The forms in which the option can be written. -/
def forms (k : Key) : String :=
  let short := match k.short? with
    | some c => s!"-{c}, "
    | none => ""
  short ++ "--" ++ k.long ++ (if k.takesValue then " <VALUE>" else "")

def ofLong? (name : String) : Option Key := all.find? (·.long = name)

def ofShort? (c : Char) : Option Key := all.find? (·.short? = some c)

end Key

def usage : String :=
  "Usage: mongodl [OPTIONS]\n\nOptions:\n"
    ++ String.join (Key.all.map fun k => "  " ++ k.forms ++ "\n")

end CommandLine

end Depot
