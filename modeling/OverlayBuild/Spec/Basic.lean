import OverlayBuild.Value.Display
import OverlayBuild.Value.Mapping
import OverlayBuild.Yaml.Printer

/-! Build specifications: the typed form of an overlay, and the kustomization document
that it stands for. -/
namespace OverlayBuild

/-- Generates a config map from literals and from files. -/
structure Generator where
  name : String
  behavior : String
  literals : List String
  envs : List String
  files : List String
  deriving DecidableEq, Repr

structure SecretGenerator where
  generator : Generator
  type : String
  deriving DecidableEq, Repr

structure Image where
  name : String
  newName : String
  newTag : String
  digest : String
  deriving DecidableEq, Repr

structure Replica where
  name : String
  count : Int
  deriving DecidableEq, Repr

structure PatchTarget where
  group : String
  version : String
  kind : String
  name : String
  namespace_ : String
  labelSelector : String
  annotationSelector : String
  deriving DecidableEq, Repr

structure Patch where
  path : String
  patch : String
  target : Option PatchTarget
  deriving DecidableEq, Repr

/-- A build specification. All sequences keep the order in which they were declared. -/
structure Spec where
  commonAnnotations : List (String × String)
  commonLabels : List (String × String)
  components : List String
  configMapGenerator : List Generator
  crds : List String
  images : List Image
  namePrefix : String
  nameSuffix : String
  namespace_ : String
  replicas : List Replica
  resources : List String
  secretGenerator : List SecretGenerator
  patches : List Patch
  deriving DecidableEq, Repr

namespace Spec

open Value

def entry (key : String) (v : Value) : Value × Value := (.str key, v)

def texts (ss : List String) : Value := .list (ss.map .str)

def textMap (entries : List (String × String)) : Value :=
  .map (entries.map fun e => entry e.1 (.str e.2))

def generatorEntries (g : Generator) : List (Value × Value) := [
  entry "name" (.str g.name),
  entry "behavior" (.str g.behavior),
  entry "literals" (texts g.literals),
  entry "envs" (texts g.envs),
  entry "files" (texts g.files)]

def generatorFields (g : Generator) : Value := .map (generatorEntries g)

def secretFields (s : SecretGenerator) : Value :=
  .map (generatorEntries s.generator ++ [entry "type" (.str s.type)])

def imageFields (i : Image) : Value := .map [
  entry "name" (.str i.name),
  entry "newName" (.str i.newName),
  entry "newTag" (.str i.newTag),
  entry "digest" (.str i.digest)]

def replicaFields (r : Replica) : Value := .map [
  entry "name" (.str r.name),
  entry "count" (.int r.count)]

def targetFields (t : PatchTarget) : Value := .map [
  entry "group" (.str t.group),
  entry "version" (.str t.version),
  entry "kind" (.str t.kind),
  entry "name" (.str t.name),
  entry "namespace" (.str t.namespace_),
  entry "labelSelector" (.str t.labelSelector),
  entry "annotationSelector" (.str t.annotationSelector)]

/-- A patch without a target has no such field. -/
def patchFields (p : Patch) : Value :=
  .map ([entry "path" (.str p.path), entry "patch" (.str p.patch)]
    ++ (p.target.map fun t => entry "target" (targetFields t)).toList)

def fields (s : Spec) : List (Value × Value) := [
  entry "commonAnnotations" (textMap s.commonAnnotations),
  entry "commonLabels" (textMap s.commonLabels),
  entry "components" (texts s.components),
  entry "configMapGenerator" (.list (s.configMapGenerator.map generatorFields)),
  entry "crds" (texts s.crds),
  entry "images" (.list (s.images.map imageFields)),
  entry "namePrefix" (.str s.namePrefix),
  entry "nameSuffix" (.str s.nameSuffix),
  entry "namespace" (.str s.namespace_),
  entry "replicas" (.list (s.replicas.map replicaFields)),
  entry "resources" (texts s.resources),
  entry "secretGenerator" (.list (s.secretGenerator.map secretFields)),
  entry "patches" (.list (s.patches.map patchFields))]

end Spec

namespace Value

/-- Whether a value says nothing: null, or text, a list or a mapping without content. -/
def isVoid : Value → Bool
  | .null => true
  | .str s => s.isEmpty
  | .list items => items.isEmpty
  | .map entries => entries.isEmpty
  | _ => false

mutual
/-- A mapping without the entries that say nothing, within mappings and within the
mappings of lists. Items of lists stay, so that a list keeps its length. -/
def prune : Value → Value
  | .map entries => .map (pruneEntries entries)
  | .list items => .list (pruneItems items)
  | v => v
termination_by structural v => v
/-- The items of a list; those that are no mappings stay as they are. -/
def pruneItems : List Value → List Value
  | [] => []
  | .map entries :: items => .map (pruneEntries entries) :: pruneItems items
  | item :: items => item :: pruneItems items
termination_by structural items => items
def pruneEntries : List (Value × Value) → List (Value × Value)
  | [] => []
  | (k, v) :: rest =>
    let v := prune v
    if v.isVoid then pruneEntries rest else (k, v) :: pruneEntries rest
termination_by structural es => es
end

end Value

namespace Spec

def header : List (Value × Value) := [
  entry "apiVersion" (.str "kustomize.config.k8s.io/v1beta1"),
  entry "kind" (.str "Kustomization")]

def document (s : Spec) : Value := .map (header ++ Value.pruneEntries s.fields)

def text (multiline : Yaml.Multiline) (s : Spec) : String := Yaml.write multiline s.document

inductive Fault where
  /-- A count with more digits than are written out. -/
  | oversized
  deriving DecidableEq, Repr

def Fault.message : Fault → String
  | .oversized => Value.oversizedMessage

def yaml (multiline : Yaml.Multiline) (s : Spec) : Except Fault String :=
  if s.document.isOversized then .error .oversized else .ok (s.text multiline)

end Spec

end OverlayBuild
