import OverlayBuild.Json.Writer
import OverlayBuild.Resource.Basic

/-! The result of a build: the ids of its resources, the ids by tier, and the manifest of
each id as canonical JSON. -/
namespace OverlayBuild

/-! Tiers of resources, in the order in which they are applied: what other resources live
in or are instances of comes first, admission webhooks come last so that they do not hold
up the services they depend on. -/

inductive Tier where
  | scope
  | default
  | admission
  deriving DecidableEq, Repr

namespace Tier

def all : List Tier := [.scope, .default, .admission]

def number : Tier → Nat
  | .scope => 0
  | .default => 1
  | .admission => 2

def ofKind (group kind : String) : Tier :=
  if group = "" ∧ kind = "Namespace" then .scope
  else if group = "apiextensions.k8s.io" ∧ kind = "CustomResourceDefinition" then .scope
  else if group = "admissionregistration.k8s.io" ∧ (kind = "MutatingWebhookConfiguration"
      ∨ kind = "ValidatingWebhookConfiguration") then .admission
  else .default

def of (r : Resource) : Tier := ofKind r.group r.kind

/-- The ids of the resources of each tier, each once. -/
def classify (resources : List Resource) : List (List String) :=
  all.map fun tier => ((resources.filter fun r => of r = tier).map Resource.id).eraseDups

end Tier

/-! Results. -/

structure BuildResult where
  ids : List String
  tiers : List (List String)
  manifests : List (String × String)
  deriving DecidableEq, Repr

namespace BuildResult

inductive Fault where
  | tooFewIds
  | tooManyIds
  | duplicateId (id : String)
  | manifest (cause : Json.Fault)
  | tierCount (n : Nat)
  | overlap (ids : List String)
  | mismatch (ids : List String)
  deriving DecidableEq, Repr

def idList (ids : List String) : String := (Value.list (ids.map .str)).literal

def Fault.message : Fault → String
  | .tooFewIds => "zip() argument 2 is shorter than argument 1"
  | .tooManyIds => "zip() argument 2 is longer than argument 1"
  | .duplicateId id => "Duplicate resource id in build output: " ++ id
  | .manifest cause => cause.message
  | .tierCount n => "Expected 3 tiers but got " ++ String.ofList (Text.decimal n)
  | .overlap ids => "Resource ids in more than one tier: " ++ idList ids
  | .mismatch ids => "Tiers do not match resource ids: " ++ idList ids

def sortIds (ids : List String) : List String := ids.mergeSort fun a b => !decide (b < a)

def serialize (manifest : Value) : Except Json.Fault String := Json.write .canonical manifest

def collect (done : List (String × String)) :
    List Resource → List String → Except Fault (List (String × String))
  | [], [] => .ok done
  | [], _ :: _ => .error .tooManyIds
  | _ :: _, [] => .error .tooFewIds
  | r :: resources, id :: ids =>
    if done.any (·.1 == id) then .error (.duplicateId id)
    else match serialize r.manifest with
      | .error cause => .error (.manifest cause)
      | .ok text => collect (done ++ [(id, text)]) resources ids

/-- All ids of tiers that share none with each other or with `seen`. -/
def disjointIds (seen : List String) : List (List String) → Except Fault (List String)
  | [] => .ok seen
  | tier :: tiers =>
    let shared := seen.filter tier.contains
    if shared ≠ [] then .error (.overlap (sortIds shared))
    else disjointIds (seen ++ tier) tiers

def assemble (resources : List Resource) (ids : List String) (tiers : List (List String)) :
    Except Fault BuildResult := do
  let manifests ← collect [] resources ids
  let all := manifests.map (·.1)
  let tiers := tiers.map List.eraseDups
  if tiers.length ≠ Tier.all.length then throw (.tierCount tiers.length)
  let seen ← disjointIds [] tiers
  let unmatched := seen.filter (!all.contains ·) ++ all.filter (!seen.contains ·)
  if unmatched ≠ [] then throw (.mismatch (sortIds unmatched))
  return ⟨all, tiers, manifests⟩

def ofResources (resources : List Resource) : Except Fault BuildResult :=
  assemble resources (resources.map Resource.id) (Tier.classify resources)

def sorted (r : BuildResult) : BuildResult :=
  ⟨sortIds r.ids, r.tiers.map sortIds,
    r.manifests.mergeSort fun a b => !decide (b.1 < a.1)⟩

end BuildResult

end OverlayBuild
