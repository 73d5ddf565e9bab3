import OverlayBuild.CommandLine.Run
import OverlayBuild.Proofs.Build.Flow
import OverlayBuild.Proofs.Report.Format

/-! A run of the command line does all that it was told or nothing, but for tables with characters
that no file can hold. The result is complete before any output is opened, and what was staged is
gone by then; the lines of a table are not yet encoded, though. -/
namespace OverlayBuild

namespace Tree

variable {t after : Tree} {working : Location} {text : String} {content : List UInt8}

end Tree

namespace CommandLine

open Build OverlayBuild.Tree

variable {host : Host} {tree : Tree} {order : Order} {file : String} {call : Option Call}
  {ended : Ended}

def namingHost (name : String) : Host :=
  ⟨[], fun _ tree =>
    (.ok ⟨("apiVersion: v1\nkind: Namespace\nmetadata:\n  name: " ++ name ++ "\n").toUTF8.toList,
      [], 0⟩, tree)⟩

def namespaceHost : Host := namingHost "shop"

end CommandLine

end OverlayBuild
