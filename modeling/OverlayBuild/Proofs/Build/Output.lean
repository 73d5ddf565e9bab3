import OverlayBuild.Build.Output
import OverlayBuild.Proofs.Json.Complete
import OverlayBuild.Proofs.Resource.Document
import OverlayBuild.Proofs.Yaml.Untagged
import OverlayBuild.Resource.Result

/-! The output of a build stays plain data. Where no tags are written in it, its documents consist
of null, truth values, numbers, text, lists and mappings; dates, moments and equals signs are the
text that they were written as; and all that has text as keys and short integers is serialized. -/
namespace OverlayBuild.Build.Output

open Text

def Untagged (output : List UInt8) : Prop :=
  ∀ text, Utf8.decode output = .ok text → (Yaml.tokens text).untagged = true

/-- How a text is read as plain data. The documents are those that the full schema finds in it. -/
structure ReadsPlainly (text : List Char) (documents : List Yaml.Document) (values : List Value) :
    Prop where
  standard : Yaml.documents .full text = .ok documents
  /-- The narrower schema finds the same, but for scalars that become text. -/
  narrowed : Yaml.documents .manifest text = .ok (documents.map Yaml.Document.texted)
  read : Yaml.readAll .manifest text = .ok values
  /-- The values are what those documents show, node by node. -/
  each : List.Forall₂ (fun d v => d.texted.value = .ok v ∧ d.texted.Shows [] d.texted.root v)
    documents values
  data : ∀ v ∈ values, v.Every Value.IsData
  /-- What a scalar shows that the full schema takes for a date, a moment or the equals sign is the
  text of that scalar, wherever it is shown. -/
  turned : ∀ d ∈ documents, ∀ head word, .scalar head word ∈ d.root.parts →
    head.tag = Yaml.Tag.timestamp ∨ head.tag = Yaml.Tag.value →
    .scalar { head with tag := Yaml.Tag.str } word ∈ d.texted.root.parts ∧ ∀ outer v,
      d.texted.Shows outer (.scalar { head with tag := Yaml.Tag.str } word) v → v = .str word
  serialized : ∀ v ∈ values, v.Every Value.IsTree → v.Every Value.HasTextKeys →
    v.Every Value.IsShort → ∃ json, BuildResult.serialize v = .ok json

variable {output : List UInt8} {text : List Char} {made : List Resource} {values : List Value}

theorem resources_eq_ok_iff : resources output = .ok made ↔ ∃ text values,
    Utf8.decode output = .ok text ∧ Yaml.readAll .manifest text = .ok values ∧
      (values.filter (!·.isNull)).mapM Resource.ofDocument = .ok made := by
  simp only [resources, bind_eq_ok_iff, mapError_eq_ok_iff, exists_and_left]

/-- Resources have their documents as manifests. -/
theorem manifests_eq (done : (values.filter (!·.isNull)).mapM Resource.ofDocument = .ok made) :
    made.map (·.manifest) = values.filter (!·.isNull) := by
  have each := mapM_eq_ok_iff.mp done
  clear done
  generalize values.filter (!·.isNull) = present at each ⊢
  induction each with
  | nil => rfl
  | cons own _ ih => rw [List.map_cons, ih, Resource.manifest_of_ofDocument own]

theorem exists_readsPlainly (untagged : (Yaml.tokens text).untagged = true)
    (read : Yaml.readAll .manifest text = .ok values) :
    ∃ documents, ReadsPlainly text documents values := by
  obtain ⟨documents, standard, narrowed, each⟩ := Yaml.exists_documents untagged read
  have data : ∀ v ∈ values, v.Every Value.IsData := fun v mem =>
    have ⟨_, _, _, _, data⟩ := exists_left each mem
    data
  exact ⟨documents, {
    standard := standard
    narrowed := narrowed
    read := read
    each := each.imp fun _ _ ⟨value, shown, _⟩ => ⟨value, shown⟩
    data := data
    turned := fun _ _ _ _ part turned => Yaml.shows_of_turned part turned
    serialized := fun v mem tree keys short =>
      Json.exists_write .canonical (Value.every_isWritable (data v mem) tree keys short) }⟩

/-- Untagged output from which resources are made is read as plain data. -/
theorem resources_plain (untagged : Untagged output) (read : resources output = .ok made) :
    ∃ text documents values, Utf8.decode output = .ok text ∧ ReadsPlainly text documents values ∧
      made.map (·.manifest) = values.filter (!·.isNull) := by
  obtain ⟨text, values, decoded, read, done⟩ := resources_eq_ok_iff.mp read
  obtain ⟨documents, plain⟩ := exists_readsPlainly (untagged text decoded) read
  exact ⟨text, documents, values, decoded, plain, manifests_eq done⟩

def datedText : List Char := "apiVersion: v1
kind: ConfigMap
metadata:
  name: cm
data: &d
  date: 2021-01-01
  =: 2001-12-14t21:59:43.10-05:00
  2021-01-02: [=, 1.5]
more:
  <<: *d
  number: 5
---
".toList

theorem resources_plain_of_dates :
    Untagged (Utf8.encode datedText) ∧ ∃ made, resources (Utf8.encode datedText) = .ok made ∧
      ∃ text documents values, Utf8.decode (Utf8.encode datedText) = .ok text ∧
        ReadsPlainly text documents values ∧ made.map (·.manifest) = values.filter (!·.isNull) := by
  have decoded : Utf8.decode (Utf8.encode datedText) = .ok datedText := by decide +kernel
  have plain : (Yaml.tokens datedText).untagged = true := by decide +kernel
  have untagged : Untagged (Utf8.encode datedText) := fun text same =>
    Except.ok.inj (decoded.symm.trans same) ▸ plain
  have fine : (resources (Utf8.encode datedText)).toOption.isSome = true := by decide +kernel
  obtain ⟨made, done⟩ := Option.isSome_iff_exists.mp fine
  have read := toOption_eq_some_iff.mp done
  exact ⟨untagged, made, read, resources_plain untagged read⟩

example : (Yaml.readAll .manifest "=: [2021-01-01, 1]".toList).toOption.map
    (·.map BuildResult.serialize) = some [.ok "\x7b\"=\":[\"2021-01-01\",1]\x7d"] := by
  decide +kernel

end OverlayBuild.Build.Output
