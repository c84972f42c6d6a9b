import Linkage.Abi.Report
import Linkage.Abi.Surface
import Linkage.ClassUnit

/-!
Extracting the surface of compiled outputs, and reporting on it.
-/

namespace Linkage

def extractSurface (disk : FileSystem) (config : Config) (outputs : List Path) : Run Surface := do
  let candidates ← outputs.foldlM
    (fun candidates output => foldClasses disk config.limits output Candidates.add candidates)
    Candidates.empty
  let surface := candidates.surface config.abi
  note (.surfaceExtracted candidates.size surface.types.length)
  return surface

def analyzeAbi (disk : FileSystem) (config : Config) (index : Option Index) (outputs : List Path) :
    Run AbiReport := do
  let report := AbiReport.ofSurface (← extractSurface disk config outputs) index
  note (.abiComputed report.typeCount report.memberCount report.fingerprint)
  return report

end Linkage
