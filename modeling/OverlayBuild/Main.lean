import OverlayBuild.CommandLine.Run

/-! The program. It reads the part of the tree that its order refers to, and writes its
output. It does not start the build itself: the output of the build is what stands on its
standard input. -/
namespace OverlayBuild

/-- All that is left on a stream. -/
partial def readAll (stream : IO.FS.Stream) (done : ByteArray) : IO ByteArray := do
  let chunk ← stream.read 65536
  if chunk.isEmpty then return done
  readAll stream (done ++ chunk)

def systemName (location : Location) : String := "/" ++ String.intercalate "/" location

/-- What stands at a place: a directory is what cannot be read for being of another type. -/
def entryAt (location : Location) : IO (Option Entry) := do
  try
    return some (.file (← IO.FS.readBinFile (systemName location)).toList)
  catch
    | .inappropriateType .. => return some .directory
    | _ => return none

/-- Adds a place and all places on the way to it. -/
def load (tree : Tree) (location : Location) : IO Tree :=
  (List.range location.length).foldlM (fun tree n => do
    let here := location.take (n + 1)
    match ← entryAt here with
    | some entry => return tree.put here entry
    | none => return tree) tree

def rootPaths (root : Path) : List Path := root :: Build.kustomizationNames.map root.child

def orderPaths (order : CommandLine.Order) : List Path :=
  Path.ofText order.settings.outputFile :: match order with
    | .build root _ _ => rootPaths root
    | .overlay file base _ => file :: rootPaths (base.getD file.parent)

/-- Writes the file of an order where it has changed. -/
def store (before after : Tree) (location : Location) : IO Unit :=
  match after.get? location with
  | some (.file content) =>
    if before.get? location = after.get? location then return
    else IO.FS.writeBinFile (systemName location) ⟨content.toArray⟩
  | _ => return

def hostOf (working : Location) (output : List UInt8) : Build.Host :=
  ⟨working, fun _ tree => (.ok ⟨output, [], 0⟩, tree)⟩

end OverlayBuild

open OverlayBuild in
def main (arguments : List String) : IO UInt32 := do
  let working := (Path.ofText ((← IO.getEnv "PWD").getD "/")).parts
  let environment ← do
    match ← IO.getEnv CommandLine.programVariable with
    | some value => pure [(CommandLine.programVariable, value)]
    | none => pure []
  let order := CommandLine.Order.read environment arguments
  let locations := match order with
    | .ok order => (orderPaths order).map (Tree.resolve working)
    | .error _ => []
  let tree ← locations.foldlM load ⟨[]⟩
  let output ← match order with
    | .ok _ => readAll (← IO.getStdin) ByteArray.empty
    | .error _ => pure ByteArray.empty
  let ended := CommandLine.run (hostOf working output.toList) environment arguments tree
  IO.print ended.output
  IO.eprint ended.errors
  locations.forM (store tree ended.tree)
  match ended.status with
  | .ok status => return status.toUInt32
  | .error fault =>
    IO.eprintln fault.message
    return 1
