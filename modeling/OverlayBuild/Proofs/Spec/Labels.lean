import OverlayBuild.Proofs.Spec.Compose
import OverlayBuild.Proofs.Spec.Document

/-! Labels and annotations on their way to kustomize. Pruning cannot tell an entry that a
user declares from a field that nobody set: an entry that renders as empty text leaves the
document, and all others reach it as they were declared. -/
namespace OverlayBuild.Spec

open Value Compose

variable {attributes : Value} {entries : List (Value × Value)} {spec : Spec}
  {notices : List Notice} {labels annotations : List (String × Value)}

/-- The declared entries that do not render as empty text, in order, as text. -/
def lasting (declared : List (String × Value)) : List (String × String) :=
  (declared.map fun e => (e.1, rendered e.2)).filter fun e => e.2 != ""

/-- A document has a mapping under a key, or no such key where the mapping is empty. -/
def Documents (document : Value) (key : String) (texts : List (String × String)) : Prop :=
  at? key document = if texts = [] then none else some (textMap texts)

theorem documents_field {key : String} {texts : List (String × String)}
    (other : .str key ∉ header.map (·.1)) (own : find? key spec.fields = some (textMap texts)) :
    Documents spec.document key (texts.filter fun e => e.2 != "") := by
  rw [Documents, at?_document spec other, own, Option.map_some, prune_textMap]
  cases texts.filter fun e => e.2 != "" <;> rfl

/-- Of the labels and annotations that are declared, exactly those that do not render as
empty text reach the document, in the order in which they are declared. -/
theorem document_keeps_labels (composed : compose attributes = .ok (spec, notices))
    (given : attributes.entries? = some entries)
    (labelled : Declares (field "common_labels" entries) labels)
    (annotated : Declares (field "common_annotations" entries) annotations) :
    Documents spec.document "commonLabels" (lasting labels) ∧
      Documents spec.document "commonAnnotations" (lasting annotations) := by
  obtain ⟨own, gives, fields⟩ := (gives_of_compose composed).spec
  have same : own = entries := by
    rw [Compose.attributes, given] at gives
    exact gives.pure
  subst same
  constructor
  · have labels := fields.commonLabels.textMap labelled
    rw [lasting, ← labels]
    exact documents_field (by simp [header, entry]) rfl
  · have annotations := fields.commonAnnotations.textMap annotated
    rw [lasting, ← annotations]
    exact documents_field (by simp [header, entry]) rfl

def markedLabels : List (String × Value) :=
  [("edge", .str ""), ("team", .str "web"), ("spare", .null)]

def markedAnnotations : List (String × Value) := [("reviewed", .str "")]

def markedEntries : List (Value × Value) := [
  entry "common_labels" (.map (markedLabels.map fun e => entry e.1 e.2)),
  entry "common_annotations" (.map (markedAnnotations.map fun e => entry e.1 e.2))]

def markedSpec : Spec :=
  ⟨[("reviewed", "")], [("edge", ""), ("team", "web"), ("spare", "")], [], [], [], [], "", "", "",
    [], [], [], []⟩

theorem compose_marked : compose (.map markedEntries) = .ok (markedSpec, []) := rfl

theorem declares_markedLabels : Declares (field "common_labels" markedEntries) markedLabels :=
  ⟨rfl, by decide⟩

theorem declares_markedAnnotations :
    Declares (field "common_annotations" markedEntries) markedAnnotations :=
  ⟨rfl, by decide⟩

theorem document_keeps_labels_of_marked :
    compose (.map markedEntries) = .ok (markedSpec, []) ∧
    Declares (field "common_labels" markedEntries) markedLabels ∧
    Declares (field "common_annotations" markedEntries) markedAnnotations ∧
    Documents markedSpec.document "commonLabels" [("team", "web")] ∧
    Documents markedSpec.document "commonAnnotations" [] :=
  ⟨compose_marked, declares_markedLabels, declares_markedAnnotations,
    document_keeps_labels compose_marked rfl declares_markedLabels declares_markedAnnotations⟩

/-- Labels and annotations that are declared without a value do not reach the document. -/
theorem document_loses_empty_labels :
    compose (.map markedEntries) = .ok (markedSpec, []) ∧
    Declares (field "common_labels" markedEntries) markedLabels ∧
    Declares (field "common_annotations" markedEntries) markedAnnotations ∧
    ¬ Documents markedSpec.document "commonLabels"
      (markedLabels.map fun e => (e.1, rendered e.2)) ∧
    ¬ Documents markedSpec.document "commonAnnotations"
      (markedAnnotations.map fun e => (e.1, rendered e.2)) := by
  have labels : at? "commonLabels" markedSpec.document = some (textMap [("team", "web")]) := rfl
  have annotations : at? "commonAnnotations" markedSpec.document = none := rfl
  refine ⟨compose_marked, declares_markedLabels, declares_markedAnnotations, fun kept => ?_,
    fun kept => ?_⟩
  · have wrong := labels.symm.trans kept
    simp [markedLabels, textMap, rendered] at wrong
  · have wrong := annotations.symm.trans kept
    simp [markedAnnotations] at wrong

end OverlayBuild.Spec
