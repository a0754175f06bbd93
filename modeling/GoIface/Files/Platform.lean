import GoIface.ImportPath
import GoIface.Text.Affix

/-!
# Files for a platform

The name of a file may end in the operating system or the architecture it is meant for, or in both,
set off by underscores. What stands before the first underscore never counts, nor does a last
`test`.
-/

namespace GoIface

structure Platform where
  os : String
  arch : String
deriving Repr, DecidableEq

def knownSystems : List String :=
  ["aix", "android", "darwin", "dragonfly", "freebsd", "hurd", "illumos", "ios", "js", "linux",
    "nacl", "netbsd", "openbsd", "plan9", "solaris", "wasip1", "windows", "zos"]

def knownArchitectures : List String :=
  ["386", "amd64", "amd64p32", "arm", "armbe", "arm64", "arm64be", "loong64", "mips", "mipsle",
    "mips64", "mips64le", "mips64p32", "mips64p32le", "ppc", "ppc64", "ppc64le", "riscv",
    "riscv64", "s390", "s390x", "sparc", "sparc64", "wasm"]

namespace Platform

variable (host : Platform)

/-- A file for one system may suit another that is built on it. -/
def runsFor (os : String) : Bool :=
  os == host.os || (os == "linux" && host.os == "android")
    || (os == "solaris" && host.os == "illumos") || (os == "darwin" && host.os == "ios")

/-- Whether a file suits the host whose name ends in these elements, the last one first. -/
def suits : List String → Bool
  | last :: before :: _ =>
    if knownSystems.contains before && knownArchitectures.contains last then
      host.runsFor before && last == host.arch
    else suitsOne last
  | [last] => suitsOne last
  | [] => true
where
  suitsOne (last : String) : Bool :=
    if knownSystems.contains last then host.runsFor last
    else if knownArchitectures.contains last then last == host.arch
    else true

/-- The elements of a file name that may tell a platform, in order. -/
def elements (name : String) : List String :=
  let stem := (Text.dropEnd? ".go".toList name.toList).getD name.toList
  let stem := (Text.dropEnd? "_test".toList stem).getD stem
  ((splitAt (· == '_') stem).drop 1).map String.ofList

def accepts (name : String) : Bool := host.suits (elements name).reverse

end Platform

end GoIface
