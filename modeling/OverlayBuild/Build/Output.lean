import OverlayBuild.Resource.Identifier
import OverlayBuild.Resource.Basic
import OverlayBuild.Text.Utf8
import OverlayBuild.Yaml.Document

/-! The output of a build: a stream of YAML documents, each of them a resource. -/
namespace OverlayBuild

open Text

namespace Yaml.Failure

/-- Whether the text itself is at fault, rather than a scalar whose content does not fit
its tag. -/
def isSyntactic : Failure → Bool
  | .unacceptable _ _ | .malformed _ => true
  | .mismatch _ => false

end Yaml.Failure

namespace Resource.Fault

def category? : Fault → Option Category
  | .notMapping _ | .missing _ _ => some .input
  | .noFields _ | .oversized => none

end Resource.Fault

namespace Build.Output

inductive Fault where
  | encoding (cause : Utf8.Malformed)
  | unreadable (text : List Char) (cause : Yaml.Failure)
  | resource (cause : Resource.Fault)
  deriving Repr

def Fault.category? : Fault → Option Category
  | .encoding _ => none
  | .unreadable _ cause => if cause.isSyntactic then some .build else none
  | .resource cause => cause.category?

def Fault.message : Fault → String
  | .encoding cause => cause.message
  | .unreadable text cause =>
    (if cause.isSyntactic then "Unable to parse build output: " else "") ++ cause.message text
  | .resource cause => cause.message

/-- The resources that output describes; empty documents describe none. -/
def resources (output : List UInt8) : Except Fault (List Resource) := do
  let text ← (Utf8.decode output).mapError .encoding
  let documents ← (Yaml.readAll .manifest text).mapError (.unreadable text)
  ((documents.filter (!·.isNull)).mapM Resource.ofDocument).mapError .resource

end Build.Output

end OverlayBuild
