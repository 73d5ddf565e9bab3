import OverlayBuild.Spec.Basic
import OverlayBuild.Text.Basic

/-! From loosely typed attributes to a build specification. What has the wrong type is
ignored with a notice; a single value where a list belongs stands for a list of one. -/
namespace OverlayBuild

inductive ComposeFault where
  /-- A date where a list belongs. -/
  | notIterable (typeName : String)
  /-- An integer with more digits than are written out. -/
  | oversized
  deriving DecidableEq, Repr

def ComposeFault.message : ComposeFault → String
  | .notIterable typeName => "'" ++ typeName ++ "' object is not iterable"
  | .oversized => Value.oversizedMessage

inductive Notice where
  | attributes (v : Value)
  | count (v : Value)
  | mapping (v : Value)
  | mappingForList (v : Value)
  | block (key : String) (v : Value)
  | target (v : Value)
  deriving Repr

def Notice.message : Notice → String
  | .attributes v => "Ignoring overlay attributes that are not a mapping: " ++ v.text
  | .count v => "Ignoring count that is not an integer: " ++ v.text
  | .mapping v => "Ignoring value that is not a mapping: " ++ v.text
  | .mappingForList v => "Ignoring mapping where a list is expected: " ++ v.text
  | .block key v => "Ignoring " ++ key ++ " entry that is not a mapping: " ++ v.text
  | .target v => "Ignoring patch target that is not a mapping: " ++ v.text

/-- Composing collects notices and may fail. -/
abbrev Compose := StateT (List Notice) (Except ComposeFault)

namespace Compose

def notice (n : Notice) : Compose Unit := modify (· ++ [n])

def shown (v : Value) : Compose String :=
  if v.isOversized then throw .oversized else pure v.text

/-- A value as text: nothing for null, and lower case words for booleans. -/
def text (v : Value) : Compose String :=
  match v with
  | .null => pure ""
  | .bool b => pure (if b then "true" else "false")
  | v => shown v

def ascii? (bs : List UInt8) : Option (List Char) :=
  if bs.all (· < 0x80) then some (bs.map fun b => Char.ofNat b.toNat) else none

/-- The integer that a value stands for: a number without its fraction, or a numeral. -/
def integer? : Value → Option Int
  | .int n => some n
  | .bool b => some b.toNat
  | .float x => x.truncate?
  | .str s => (Number.readInteger 10 s.toList).toOption
  | .bytes bs => (ascii? bs).bind fun cs => (Number.readInteger 10 cs).toOption
  | _ => none

/-- A count; what stands for no integer counts as zero. -/
def count (v : Value) : Compose Int :=
  if !v.isPresent then pure 0
  else match integer? v with
    | some n => pure n
    | none => do
      notice (.count v)
      return 0

def textMap (v : Value) : Compose (List (String × String)) :=
  if !v.isPresent then pure []
  else match v.entries? with
    | none => do
      notice (.mapping v)
      return []
    | some entries => do
      let texts ← entries.mapM fun e => return (← shown e.1, ← text e.2)
      return Text.Dictionary.ofPairs texts

def members (v : Value) : Compose (List Value) :=
  match v.members? with
  | some items => pure items
  | none =>
    match v with
    | .bytes bs => pure (bs.map fun b => .int b.toNat)
    | v => throw (.notIterable v.fullTypeName)

/-- Whether a value is a single text or number rather than a list. -/
def isSingle : Value → Bool
  | .str _ | .int _ | .bool _ | .float _ => true
  | _ => false

def isMapping (v : Value) : Bool := v.entries?.isSome

def textList (v : Value) : Compose (List String) :=
  if !v.isPresent then pure []
  else if isSingle v then return [← text v]
  else if isMapping v then do
    notice (.mappingForList v)
    return []
  else do
    ((← members v).filter fun item => !item.isNull).mapM text

def block? (key : String) (v : Value) : Compose (Option (List (Value × Value))) :=
  match v.entries? with
  | some entries => pure (some entries)
  | none => do
    notice (.block key v)
    return none

/-- What `compose` makes of the blocks of a repeated attribute, in order. -/
def blocks {α : Type} (attributes : List (Value × Value)) (key : String)
    (compose : List (Value × Value) → Compose α) : Compose (List α) := do
  let v := Value.field key attributes
  let items ← if !v.isPresent then pure []
    else if isSingle v || isMapping v then pure [v]
    else members v
  let composed ← (items.filter fun item => !item.isNull).mapM fun item => do
    match ← block? key item with
    | some entries => return some (← compose entries)
    | none => return none
  return composed.filterMap id

def target (v : Value) : Compose (Option PatchTarget) :=
  if !v.isPresent then pure none
  else match v.entries? with
    | none => do
      notice (.target v)
      return none
    | some entries => do
      let field (key : String) : Compose String := text (Value.field key entries)
      return some {
        group := ← field "group"
        version := ← field "version"
        kind := ← field "kind"
        name := ← field "name"
        namespace_ := ← field "namespace"
        labelSelector := ← field "label_selector"
        annotationSelector := ← field "annotation_selector" }

def generator (entries : List (Value × Value)) : Compose Generator := do
  return {
    name := ← text (Value.field "name" entries)
    behavior := ← text (Value.field "behavior" entries)
    literals := ← textList (Value.field "literals" entries)
    envs := ← textList (Value.field "envs" entries)
    files := ← textList (Value.field "files" entries) }

def secretGenerator (entries : List (Value × Value)) : Compose SecretGenerator := do
  return {
    generator := ← generator entries
    type := ← text (Value.field "type" entries) }

def image (entries : List (Value × Value)) : Compose Image := do
  return {
    name := ← text (Value.field "name" entries)
    newName := ← text (Value.field "new_name" entries)
    newTag := ← text (Value.field "new_tag" entries)
    digest := ← text (Value.field "digest" entries) }

def replica (entries : List (Value × Value)) : Compose Replica := do
  return {
    name := ← text (Value.field "name" entries)
    count := ← count (Value.field "count" entries) }

def patch (entries : List (Value × Value)) : Compose Patch := do
  return {
    path := ← text (Value.field "path" entries)
    patch := ← text (Value.field "patch" entries)
    target := ← target (Value.field "target" entries) }

def attributes (v : Value) : Compose (List (Value × Value)) :=
  match v.entries? with
  | some entries => pure entries
  | none => do
    if v.isPresent then notice (.attributes v)
    return []

def spec (v : Value) : Compose Spec := do
  let entries ← attributes v
  return {
    commonAnnotations := ← textMap (Value.field "common_annotations" entries)
    commonLabels := ← textMap (Value.field "common_labels" entries)
    components := ← textList (Value.field "components" entries)
    configMapGenerator := ← blocks entries "config_map_generator" generator
    crds := ← textList (Value.field "crds" entries)
    images := ← blocks entries "images" image
    namePrefix := ← text (Value.field "name_prefix" entries)
    nameSuffix := ← text (Value.field "name_suffix" entries)
    namespace_ := ← text (Value.field "namespace" entries)
    replicas := ← blocks entries "replicas" replica
    resources := ← textList (Value.field "resources" entries)
    secretGenerator := ← blocks entries "secret_generator" secretGenerator
    patches := ← blocks entries "patches" patch }

end Compose

def compose (attributes : Value) : Except ComposeFault (Spec × List Notice) :=
  (Compose.spec attributes).run []

end OverlayBuild
