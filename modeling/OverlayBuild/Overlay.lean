import OverlayBuild.Build.Output
import OverlayBuild.Text.Basic
import OverlayBuild.Tree

/-! Overlay files: YAML documents that hold the attributes of an overlay. -/
namespace OverlayBuild.Overlay

open Text

inductive Fault where
  | unreadable (path : Path) (error : SystemError)
  | nullByte
  | encoding (cause : Utf8.Malformed)
  | malformed (path : Path) (text : List Char) (cause : Yaml.Failure)
  | notMapping (path : Path)
  deriving Repr

def Fault.category? : Fault → Option Category
  | .unreadable _ _ | .notMapping _ => some .input
  | .nullByte | .encoding _ => none
  | .malformed _ _ cause => if cause.isSyntactic then some .input else none

def Fault.message : Fault → String
  | .unreadable path error => "Unable to read overlay file " ++ path.text ++ ": " ++ error.message
  | .nullByte => "embedded null byte"
  | .encoding cause => cause.message
  | .malformed path text cause =>
    (if cause.isSyntactic then "Unable to parse overlay file " ++ path.text ++ ": " else "")
      ++ cause.message text
  | .notMapping path => "Overlay file " ++ path.text ++ " must contain a mapping"

/-- The attributes that the bytes of a file hold; an empty document holds none. -/
def ofBytes (path : Path) (bytes : List UInt8) : Except Fault Value := do
  let text := universalNewlines (← (Utf8.decode bytes).mapError .encoding)
  match ← (Yaml.read .full text).mapError (.malformed path text) with
  | .null => return .map []
  | .map entries => return .map entries
  | _ => throw (.notMapping path)

def read (tree : Tree) (working : Location) (path : Path) : Except Fault Value :=
  if path.text.toList.contains '\x00' then .error .nullByte
  else match tree.read working path with
    | .error refusal => .error (.unreadable path ⟨refusal, path.text.quotedText⟩)
    | .ok bytes => ofBytes path bytes

end OverlayBuild.Overlay
