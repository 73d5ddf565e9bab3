import OverlayBuild.Proofs.Outcome
import OverlayBuild.Proofs.Value.Mapping
import OverlayBuild.Resource.Basic

/-! What a document must say to be a resource, in whatever order it says it. -/
namespace OverlayBuild.Resource

open Value

variable {document other v : Value} {r : Resource} {path key : String}
  {entries fields : List (Value × Value)}

theorem require_eq_ok_iff :
    require document path key entries = .ok v ↔
      (field key entries).isPresent = true ∧ field key entries = v := by
  cases present : (field key entries).isPresent <;> simp [require, present, reject]

def Says (v : Value) (text : String) : Prop := v.isPresent = true ∧ fieldText v = .ok text

def optionalText (v : Value) : Except Fault String :=
  if v.isPresent = true then fieldText v else pure ""

/-- The resource that the entries of a document and of its metadata describe. -/
structure Describes (entries fields : List (Value × Value)) (r : Resource) : Prop where
  apiVersion : Says (field "apiVersion" entries) r.apiVersion
  kind : Says (field "kind" entries) r.kind
  metadata : (field "metadata" entries).isPresent = true
  name : Says (field "name" fields) r.name
  namespace_ : optionalText (field "namespace" fields) = .ok r.namespace_

theorem ofDocument_eq_ok_iff :
    ofDocument document = .ok r ↔ ∃ entries fields, document.entries? = some entries ∧
      (field "metadata" entries).entries? = some fields ∧ Describes entries fields r ∧
        r.manifest = document := by
  cases opened : document.entries? with
  | none => simp [ofDocument, opened, reject]
  | some entries =>
    cases inner : (field "metadata" entries).entries? with
    | none => simp [ofDocument, opened, inner, bind_eq_ok_iff, require_eq_ok_iff]
    | some fields =>
      have built (make : String → Resource) :
          (if (field "namespace" fields).isPresent = true then
            make <$> fieldText (field "namespace" fields) else pure (make "")) = .ok r ↔
              ∃ s, optionalText (field "namespace" fields) = .ok s ∧ make s = r := by
        rw [optionalText]
        split
        · cases fieldText (field "namespace" fields) <;> simp
        · simp [pure, Except.pure]
      simp only [ofDocument, opened, inner, bind_pure_comp, map_pure, bind_eq_ok_iff,
        require_eq_ok_iff, ↓existsAndEq, and_true, built, Option.some.injEq, exists_and_left,
        exists_eq_left']
      constructor
      · rintro ⟨apiVersion, kind, metadata, name, _, api, _, own, _, called, _, within, rfl⟩
        exact ⟨⟨⟨apiVersion, api⟩, ⟨kind, own⟩, metadata, ⟨name, called⟩, within⟩, rfl⟩
      · rintro ⟨⟨⟨apiVersion, api⟩, ⟨kind, own⟩, metadata, ⟨name, called⟩, within⟩, rfl⟩
        exact ⟨apiVersion, kind, metadata, name, _, api, _, own, _, called, _, within, rfl⟩

theorem manifest_of_ofDocument (made : ofDocument document = .ok r) : r.manifest = document := by
  obtain ⟨_, _, _, _, _, manifest⟩ := ofDocument_eq_ok_iff.mp made
  exact manifest

/-- A document in which no container holds itself, all keys are text, and the fields that
identify a resource are scalars, where they are given. -/
structure Plain (document : Value) : Prop where
  tidy : document.Tidy
  scalars : ∀ entries, document = .map entries →
    (field "apiVersion" entries).IsLeaf ∧ (field "kind" entries).IsLeaf
  metadata : ∀ entries fields, document = .map entries → field "metadata" entries = .map fields →
    (field "name" fields).IsLeaf ∧ (field "namespace" fields).IsLeaf

theorem Plain.of_map (tidy : Tidy (.map entries)) (inner : field "metadata" entries = .map fields)
    (own : (field "apiVersion" entries).IsLeaf ∧ (field "kind" entries).IsLeaf)
    (within : (field "name" fields).IsLeaf ∧ (field "namespace" fields).IsLeaf) :
    Plain (.map entries) where
  tidy := tidy
  scalars := by
    rintro _ ⟨⟩
    exact own
  metadata := by
    rintro _ _ ⟨⟩ also
    rw [inner] at also
    cases also
    exact within

theorem ofDocument_alike (plain : Plain document) (tidy : other.Tidy)
    (alike : Alike document other) (made : ofDocument document = .ok r) :
    ofDocument other = .ok { r with manifest := other } := by
  obtain ⟨entries, fields, opened, inner, d, -⟩ := ofDocument_eq_ok_iff.mp made
  obtain rfl := plain.tidy.entries?_eq_some_iff.mp opened
  replace inner := plain.tidy.field.entries?_eq_some_iff.mp inner
  obtain ⟨others, -, rfl, -⟩ := alike_map_iff.mp alike
  have nested : Alike (.map fields) (field "metadata" others) :=
    inner ▸ plain.tidy.field_alike alike
  obtain ⟨ownFields, -, also, -⟩ := alike_map_iff.mp nested
  have own (key : String) (leaf : (field key entries).IsLeaf) :
      field key entries = field key others :=
    leaf.alike_iff.mp (plain.tidy.field_alike alike)
  have within (key : String) (leaf : (field key fields).IsLeaf) :
      field key fields = field key ownFields :=
    leaf.alike_iff.mp (Tidy.field_alike (inner ▸ plain.tidy.field) (also ▸ nested))
  obtain ⟨apiVersion, kind⟩ := plain.scalars entries rfl
  obtain ⟨name, namespace_⟩ := plain.metadata entries fields rfl inner
  refine ofDocument_eq_ok_iff.mpr
    ⟨others, ownFields, tidy.entries?_map, tidy.field.entries?_eq_some_iff.mpr also, ?_, rfl⟩
  exact {
    apiVersion := own _ apiVersion ▸ d.apiVersion
    kind := own _ kind ▸ d.kind
    metadata := (plain.tidy.field_alike alike).isPresent ▸ d.metadata
    name := within _ name ▸ d.name
    namespace_ := within _ namespace_ ▸ d.namespace_ }

end OverlayBuild.Resource
