import Depot.Location

/-!
# The environment

Variables by name, and the directories that they point to: each kind of file has a variable of its
own that counts if it holds an absolute path, and a place below the home directory otherwise. The
home directory is that of the account if no variable names one, and there need not be any.
-/

namespace Depot

/-- Names and values in the order in which they were set. -/
abbrev Environment := List (String × String)

namespace Environment

/-- The home directory of the account that a program runs under if nothing else is known. -/
def rootHome : String := "/root"

/-- The home directory, where `account` is the one that the account has. -/
def home? (env : Environment) (account : Option String := some rootHome) : Option String :=
  ((env.lookup "HOME").filter (· ≠ "")).or account

/-- The directory that `own` names, or else the one called `name` in the home directory. -/
def directory (env : Environment) (home own name : String) : String :=
  match env.lookup own with
  | some d => if Location.isAbsolute d then d else Location.join home name
  | none => Location.join home name

def appName : String := "mongodl"

/-- Where the cache is kept without a home directory, below the current one. -/
def homelessCache : String := ".mongodl-cache"

def cacheDirectory (env : Environment) (account : Option String := some rootHome) : String :=
  match env.home? account with
  | some home => Location.join (env.directory home "XDG_CACHE_HOME" ".cache") appName
  | none => homelessCache

/-- Where the settings are kept for the home directory `home`. -/
def settingsFile (env : Environment) (home : String := env.home?.getD rootHome) : String :=
  Location.join (Location.join (env.directory home "XDG_CONFIG_HOME" ".config") appName)
    "config.toml"

def settingsFile? (env : Environment) (account : Option String := some rootHome) : Option String :=
  (env.home? account).map fun home => env.settingsFile home

end Environment

end Depot
