import OverlayBuild.Text.Basic

/-! Identifiers of resources. Group, version and kind stand first, joined by underscores,
then namespace and name, parted by bars. An empty group is written `~G` and an empty
namespace `~X`, so that neither place is empty. -/
namespace OverlayBuild

/-- Categories of reported errors. An error without one was not foreseen; nothing catches it. -/
inductive Category where
  /-- Input that is not formed as it should be. -/
  | input
  /-- An external command that failed. -/
  | command
  /-- A build that failed. -/
  | build
  /-- A build whose root is no directory. -/
  | path
  deriving DecidableEq, Repr

structure ResourceId where
  group : String
  version : String
  kind : String
  namespace_ : String
  name : String
  deriving DecidableEq, Repr

namespace ResourceId

def noGroup : String := "~G"

def noNamespace : String := "~X"

inductive Fault where
  | fields (text : String)
  | kindFields (text : String)
  deriving DecidableEq, Repr

def Fault.message : Fault → String
  | .fields text => "Invalid resource id: " ++ text
  | .kindFields text => "Invalid resource id group/version/kind: " ++ text

def Fault.category : Fault → Category
  | .fields _ | .kindFields _ => .input

/-- A field, or what stands in its place when it is empty. -/
def orElse (field mark : String) : String := if field = "" then mark else field

/-- A field as it was before its mark was put in its place. -/
def unlessMark (field mark : String) : String := if field = mark then "" else field

def print (r : ResourceId) : String :=
  orElse r.group noGroup ++ "_" ++ r.version ++ "_" ++ r.kind ++ "|"
    ++ orElse r.namespace_ noNamespace ++ "|" ++ r.name

def cut? (separator : Char) (cs : List Char) : Option (List Char × List Char) :=
  match cs.dropWhile (· != separator) with
  | [] => none
  | _ :: rest => some (cs.takeWhile (· != separator), rest)

def cutTwice? (separator : Char) (cs : List Char) :
    Option (List Char × List Char × List Char) := do
  let (first, rest) ← cut? separator cs
  let (second, third) ← cut? separator rest
  return (first, second, third)

def parse (text : String) : Except Fault ResourceId :=
  match cutTwice? '|' text.toList with
  | none => .error (.fields text)
  | some (gvk, namespace_, name) =>
    match cutTwice? '_' gvk with
    | none => .error (.kindFields text)
    | some (group, version, kind) => .ok {
        group := unlessMark (String.ofList group) noGroup
        version := String.ofList version
        kind := String.ofList kind
        namespace_ := unlessMark (String.ofList namespace_) noNamespace
        name := String.ofList name }

def apiVersion (r : ResourceId) : String :=
  if r.group = "" then r.version else r.group ++ "/" ++ r.version

/-- The fields from the most significant one on. -/
def fields (r : ResourceId) : List String := [r.group, r.version, r.kind, r.namespace_, r.name]

def le (a b : ResourceId) : Bool := !decide (b.fields < a.fields)

end ResourceId

end OverlayBuild
