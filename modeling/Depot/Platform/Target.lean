import Depot.Text.Glob
import Depot.Platform.OsRelease

/-!
# Download targets

`targetOf` maps an os-release file to the name under which downloads for that system are listed:
derived distributions are taken for their family, some of them with a version of the family.
-/

namespace Depot.Platform

open Depot.Text

/-- Rows of a pattern and what stands for the versions that it matches. -/
abbrev VersionTable := List (String × String)

def VersionTable.find? (t : VersionTable) (version : String) : Option String :=
  t.findSome? fun (pattern, value) =>
    match Glob.parse? pattern with
    | some g => if g.matches version then some value else none
    | none => none

/-- What is known of distributions and their versions. -/
structure Tables where
  /-- Distributions that are taken for another one. -/
  families : List (String × String)
  /-- Distributions that count their versions in another way than their family. -/
  derived : List (String × VersionTable)
  targets : List (String × VersionTable)

namespace Tables

def published : Tables where
  families := [
    ("almalinux", "rhel"), ("centos", "rhel"), ("elementary", "ubuntu"), ("fedora", "rhel"),
    ("linuxmint", "ubuntu"), ("mint", "ubuntu"), ("ol", "rhel"), ("opensuse", "sles"),
    ("opensuse-leap", "sles"), ("pop", "ubuntu"), ("redhat", "rhel"), ("rocky", "rhel")]
  derived := [
    ("elementary", [("6", "20.04"), ("6.*", "20.04"), ("7", "22.04"), ("7.*", "22.04")]),
    ("fedora", [("2[89]", "8"), ("3[0-3]", "8"), ("3[4-9]", "9"), ("4[0-9]", "9")]),
    ("linuxmint", [("20", "20.04"), ("20.*", "20.04"), ("21", "22.04"), ("21.*", "22.04")]),
    ("mint", [("20", "20.04"), ("20.*", "20.04"), ("21", "22.04"), ("21.*", "22.04")])]
  targets := [
    ("amzn", [("2018.*", "amzn64"), ("2", "amazon2"), ("2023", "amazon2023")]),
    ("debian", [("9", "debian92"), ("9.*", "debian92"), ("10", "debian10"), ("11", "debian11"),
      ("12", "debian12")]),
    ("rhel", [("6", "rhel60"), ("6.*", "rhel60"), ("7", "rhel70"), ("7.*", "rhel70"),
      ("8", "rhel80"), ("8.*", "rhel80"), ("9", "rhel90"), ("9.*", "rhel90")]),
    ("sles", [("10.*", "suse10"), ("11.*", "suse11"), ("12", "suse12"), ("12.*", "suse12"),
      ("15", "suse15"), ("15.*", "suse15")]),
    ("ubuntu", [("24.*", "ubuntu2404"), ("22.*", "ubuntu2204"), ("20.*", "ubuntu2004"),
      ("18.*", "ubuntu1804"), ("16.*", "ubuntu1604"), ("14.*", "ubuntu1404")])]

def familyOf (T : Tables) (id : String) : String :=
  (T.families.lookup id).getD id

/-- The version of the family that stands for `version` of the distribution `id`. -/
def familyVersion (T : Tables) (id version : String) : Except Error String :=
  match T.derived.lookup id with
  | none => .ok version
  | some table =>
    match table.find? version with
    | some v => .ok v
    | none => .error (.unmappedVersion id version)

def familyTarget (T : Tables) (id version : String) : Except Error String :=
  match T.targets.lookup (T.familyOf id) with
  | none => .error (.unknownDistribution id)
  | some table =>
    match table.find? version with
    | some target => .ok target
    | none => .error (.unmappedVersion (T.familyOf id) version)

/-- Builds for version 8 of the enterprise distribution run on the rolling one, which has no
versions. -/
def target (T : Tables) (r : OsRelease) : Except Error String :=
  if r.id = "arch" then .ok "rhel80"
  else
    match r.versionId with
    | none => .error (.missingField "VERSION_ID")
    | some version => T.familyVersion r.id version >>= T.familyTarget r.id

end Tables

def targetOf (content : String) : Except Error String :=
  OsRelease.parse content >>= Tables.published.target

end Depot.Platform
