import OverlayBuild.Resource.Identifier
import OverlayBuild.Value.Display
import OverlayBuild.Value.Mapping

/-! Resources: the manifests of a build with the fields that identify them. -/
namespace OverlayBuild

structure Resource where
  apiVersion : String
  kind : String
  name : String
  /-- Empty for a resource of the whole cluster. -/
  namespace_ : String
  manifest : Value
  deriving Repr

namespace Resource

inductive Fault where
  | notMapping (document : Value)
  | missing (field : String) (document : Value)
  /-- The metadata is no mapping. -/
  | noFields (typeName : String)
  | oversized
  deriving Repr

def Fault.message : Fault → String
  | .notMapping document => "Invalid object is not a mapping: " ++ document.text
  | .missing field document => "Invalid object missing " ++ field ++ ": " ++ document.text
  | .noFields typeName => "'" ++ typeName ++ "' object has no attribute 'get'"
  | .oversized => Value.oversizedMessage

/-- A fault that shows the document, which must have few enough digits for that. -/
def reject {α : Type} (document : Value) (fault : Fault) : Except Fault α :=
  .error (if document.isOversized then .oversized else fault)

def require (document : Value) (path key : String) (entries : List (Value × Value)) :
    Except Fault Value :=
  let v := Value.field key entries
  if v.isPresent then .ok v else reject document (.missing path document)

def fieldText (v : Value) : Except Fault String :=
  if v.isOversized then .error .oversized else .ok v.text

def ofDocument (document : Value) : Except Fault Resource :=
  match document.entries? with
  | none => reject document (.notMapping document)
  | some entries => do
    let apiVersion ← require document "apiVersion" "apiVersion" entries
    let kind ← require document "kind" "kind" entries
    let metadata ← require document "metadata" "metadata" entries
    match metadata.entries? with
    | none => .error (.noFields metadata.fullTypeName)
    | some fields =>
      let name ← require document "metadata.name" "name" fields
      let ns := Value.field "namespace" fields
      return {
        apiVersion := ← fieldText apiVersion
        kind := ← fieldText kind
        name := ← fieldText name
        namespace_ := ← if ns.isPresent then fieldText ns else pure ""
        manifest := document }

/-- What stands before the last slash of the version field, and after it. -/
def splitVersion (r : Resource) : List Char × List Char :=
  let cs := r.apiVersion.toList
  let version := (cs.reverse.takeWhile (· != '/')).reverse
  (cs.take (cs.length - version.length - 1), version)

def group (r : Resource) : String := String.ofList r.splitVersion.1

def version (r : Resource) : String := String.ofList r.splitVersion.2

def identifier (r : Resource) : ResourceId := ⟨r.group, r.version, r.kind, r.namespace_, r.name⟩

def id (r : Resource) : String := r.identifier.print

end Resource

end OverlayBuild
