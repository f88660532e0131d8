/-!
# Architectures

Machines go by several names; downloads are listed under one of them.
-/

namespace Depot.Platform

def architectureAliases : List (String × String) :=
  [("AMD64", "x86_64"), ("amd64", "x86_64"), ("x64", "x86_64"), ("ARM64", "arm64")]

def architectureOf (machine : String) : String :=
  (architectureAliases.lookup machine).getD machine

end Depot.Platform
