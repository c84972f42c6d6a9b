import Linkage.Path

/-!
Commands: what the program can be asked to do.
-/

namespace Linkage

inductive AbiForm
  | fingerprint
  | dump
  | reduced
  deriving DecidableEq, Repr

inductive Command
  /-- Analyze a module and write all reports on it. Being strict, the program fails if the module
  does something wrong with its dependencies. -/
  | analyze (manifest out : Path) (strict : Bool)
  | used (manifest : Path)
  | abi (outputs : List Path) (form : AbiForm)
  | aggregate (outcomes : List Path) (out : Path)
  deriving DecidableEq, Repr

structure Invocation where
  root : Path
  config : Option Path
  command : Command
  deriving DecidableEq, Repr

def Invocation.configPath (invocation : Invocation) : Path :=
  invocation.config.getD (invocation.root.join ⟨".depsight/config.toml"⟩)

def usualOut : Path := ⟨"depsight-out"⟩

def versionLine : String := "depsight 0.1.3"

end Linkage
