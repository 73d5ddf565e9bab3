import OverlayBuild.Build.Output
import OverlayBuild.Proofs.Resource.Document
import OverlayBuild.Proofs.Value.Formed

/-! Which documents are resources, and how the others are refused. A document names an API
version, a kind and, in the mapping of its metadata, a name; or something of that is missing; or
there is metadata that is no mapping. -/
namespace OverlayBuild.Resource

open Value

structure Named (document : Value) (entries fields : List (Value × Value)) : Prop where
  opened : document.entries? = some entries
  apiVersion : (field "apiVersion" entries).isPresent = true
  kind : (field "kind" entries).isPresent = true
  inner : (field "metadata" entries).entries? = some fields
  name : (field "name" fields).isPresent = true

/-- The first thing that is missing, and what is said of it. -/
inductive Lacks (document : Value) : Fault → Prop
  | mapping (closed : document.entries? = none) : Lacks document (.notMapping document)
  | apiVersion {entries} (opened : document.entries? = some entries)
      (absent : (field "apiVersion" entries).isPresent = false) :
      Lacks document (.missing "apiVersion" document)
  | kind {entries} (opened : document.entries? = some entries)
      (apiVersion : (field "apiVersion" entries).isPresent = true)
      (absent : (field "kind" entries).isPresent = false) :
      Lacks document (.missing "kind" document)
  | metadata {entries} (opened : document.entries? = some entries)
      (apiVersion : (field "apiVersion" entries).isPresent = true)
      (kind : (field "kind" entries).isPresent = true)
      (absent : (field "metadata" entries).isPresent = false) :
      Lacks document (.missing "metadata" document)
  | name {entries fields} (opened : document.entries? = some entries)
      (apiVersion : (field "apiVersion" entries).isPresent = true)
      (kind : (field "kind" entries).isPresent = true)
      (inner : (field "metadata" entries).entries? = some fields)
      (present : (field "metadata" entries).isPresent = true)
      (absent : (field "name" fields).isPresent = false) :
      Lacks document (.missing "metadata.name" document)

structure Stray (document metadata : Value) : Prop where
  opened : ∃ entries, document.entries? = some entries ∧ metadata = field "metadata" entries ∧
    (field "apiVersion" entries).isPresent = true ∧ (field "kind" entries).isPresent = true
  present : metadata.isPresent = true
  closed : metadata.entries? = none

def identity (entries fields : List (Value × Value)) : List Value :=
  [field "apiVersion" entries, field "kind" entries, field "name" fields, field "namespace" fields]

inductive Refused (document : Value) : Fault → Prop
  | lacks {fault} (lacks : Lacks document fault) (short : document.isOversized = false) :
      Refused document fault
  /-- The document could not be shown. -/
  | unshown {fault} (lacks : Lacks document fault) (long : document.isOversized = true) :
      Refused document .oversized
  | stray {metadata} (stray : Stray document metadata) :
      Refused document (.noFields metadata.fullTypeName)
  | unnamed {entries fields v} (named : Named document entries fields)
      (mem : v ∈ identity entries fields) (long : v.isOversized = true) :
      Refused document .oversized

/-- The resource of these values, in no namespace where that says nothing. -/
def described (document : Value) (entries fields : List (Value × Value)) : Resource where
  apiVersion := (field "apiVersion" entries).text
  kind := (field "kind" entries).text
  name := (field "name" fields).text
  namespace_ :=
    if (field "namespace" fields).isPresent then (field "namespace" fields).text else ""
  manifest := document

variable {document v : Value} {entries fields : List (Value × Value)} {fault : Fault}
  {r : Resource}

/-- Metadata in which a name is found is not empty. -/
theorem Named.metadata (named : Named document entries fields) :
    (field "metadata" entries).isPresent = true := by
  have inner := named.inner
  have name := named.name
  cases whole : field "metadata" entries with
  | map own =>
    cases own with
    | nil =>
      rw [whole] at inner
      obtain rfl := Option.some.inj inner
      contradiction
    | cons e own => rfl
  | _ => rw [whole] at inner; contradiction

/-- Every document says what it must, or lacks something, or has metadata that is no mapping. -/
theorem named_or_lacks_or_stray (document : Value) :
    (∃ entries fields, Named document entries fields) ∨ (∃ fault, Lacks document fault) ∨
      ∃ metadata, Stray document metadata := by
  cases opened : document.entries? with
  | none => exact .inr (.inl ⟨_, .mapping opened⟩)
  | some entries =>
    cases apiVersion : (field "apiVersion" entries).isPresent with
    | false => exact .inr (.inl ⟨_, .apiVersion opened apiVersion⟩)
    | true =>
      cases kind : (field "kind" entries).isPresent with
      | false => exact .inr (.inl ⟨_, .kind opened apiVersion kind⟩)
      | true =>
        cases present : (field "metadata" entries).isPresent with
        | false => exact .inr (.inl ⟨_, .metadata opened apiVersion kind present⟩)
        | true =>
          cases inner : (field "metadata" entries).entries? with
          | none =>
            exact .inr (.inr ⟨_, ⟨entries, opened, rfl, apiVersion, kind⟩, present, inner⟩)
          | some fields =>
            cases name : (field "name" fields).isPresent with
            | false => exact .inr (.inl ⟨_, .name opened apiVersion kind inner present name⟩)
            | true => exact .inl ⟨entries, fields, opened, apiVersion, kind, inner, name⟩

theorem require_of_present {path key : String} (present : (field key entries).isPresent = true) :
    require document path key entries = .ok (field key entries) := by
  simp only [require, present, if_true]

theorem require_of_absent {path key : String} (absent : (field key entries).isPresent = false) :
    require document path key entries = reject document (.missing path document) := by
  simp only [require, absent, Bool.false_eq_true, if_false]

theorem reject_bind {α β : Type} {f : α → Except Fault β} :
    (reject document fault >>= f) = reject document fault := rfl

theorem ofDocument_of_lacks (lacks : Lacks document fault) :
    ofDocument document = reject document fault := by
  cases lacks with
  | mapping closed => simp only [ofDocument, closed]
  | apiVersion opened absent => simp only [ofDocument, opened, require_of_absent absent, reject_bind]
  | kind opened apiVersion absent =>
    simp only [ofDocument, opened, require_of_present apiVersion, require_of_absent absent, ok_bind,
      reject_bind]
  | metadata opened apiVersion kind absent =>
    simp only [ofDocument, opened, require_of_present apiVersion, require_of_present kind,
      require_of_absent absent, ok_bind, reject_bind]
  | name opened apiVersion kind inner present absent =>
    simp only [ofDocument, opened, require_of_present apiVersion, require_of_present kind,
      require_of_present present, inner, require_of_absent absent, ok_bind, reject_bind]

theorem ofDocument_of_stray {metadata : Value} (stray : Stray document metadata) :
    ofDocument document = .error (.noFields metadata.fullTypeName) := by
  obtain ⟨⟨entries, opened, rfl, apiVersion, kind⟩, present, closed⟩ := stray
  simp only [ofDocument, opened, require_of_present apiVersion, require_of_present kind,
    require_of_present present, closed, ok_bind]

/-- What says nothing holds no integer. -/
theorem isOversized_of_absent (absent : v.isPresent = false) : v.isOversized = false := by
  cases v with
  | int n =>
    obtain rfl : n = 0 := by simpa [isPresent] using absent
    exact isOversized_int (Nat.pow_pos (by decide))
  | list items | tuple items | set items =>
    obtain rfl : items = [] := by simpa [isPresent] using absent
    rfl
  | map entries =>
    obtain rfl : entries = [] := by simpa [isPresent] using absent
    rfl
  | _ => rfl

theorem fieldText_of_short (short : v.isOversized = false) : fieldText v = .ok v.text := by
  simp only [fieldText, short, Bool.false_eq_true, if_false]

theorem fieldText_of_long (long : v.isOversized = true) : fieldText v = .error .oversized := by
  simp only [fieldText, long, if_true]

theorem ofDocument_of_named (named : Named document entries fields) :
    ofDocument document = if ∀ v ∈ identity entries fields, v.isOversized = false then
      .ok (described document entries fields) else .error .oversized := by
  simp only [ofDocument, named.opened, require_of_present named.apiVersion,
    require_of_present named.kind, require_of_present named.metadata, named.inner,
    require_of_present named.name, ok_bind, identity, List.forall_mem_cons]
  cases apiVersion : (field "apiVersion" entries).isOversized with
  | true =>
    rw [fieldText_of_long apiVersion, if_neg fun all => Bool.false_ne_true all.1.symm]
    rfl
  | false =>
    rw [fieldText_of_short apiVersion, ok_bind]
    cases kind : (field "kind" entries).isOversized with
    | true =>
      rw [fieldText_of_long kind, if_neg fun all => Bool.false_ne_true all.2.1.symm]
      rfl
    | false =>
      rw [fieldText_of_short kind, ok_bind]
      cases name : (field "name" fields).isOversized with
      | true =>
        rw [fieldText_of_long name, if_neg fun all => Bool.false_ne_true all.2.2.1.symm]
        rfl
      | false =>
        rw [fieldText_of_short name, ok_bind]
        cases present : (field "namespace" fields).isPresent with
        | false =>
          -- The namespace is not written, but says nothing that would be too long.
          have short := isOversized_of_absent present
          rw [if_neg Bool.false_ne_true, if_pos ⟨rfl, rfl, rfl, short, List.forall_mem_nil _⟩, described, present]
          rfl
        | true =>
          rw [if_pos rfl]
          cases within : (field "namespace" fields).isOversized with
          | true =>
            rw [fieldText_of_long within, if_neg fun all => Bool.false_ne_true all.2.2.2.1.symm]
            rfl
          | false =>
            rw [fieldText_of_short within, ok_bind, if_pos ⟨rfl, rfl, rfl, rfl, List.forall_mem_nil _⟩, described,
              present]
            rfl

/-- The version is what stands after the last slash of the API version, and the group what
stands before it. -/
theorem version_spec (r : Resource) :
    '/' ∉ r.version.toList ∧
      (r.apiVersion = r.group ++ "/" ++ r.version ∨ r.group = "" ∧ r.apiVersion = r.version) := by
  have whole : r.apiVersion.toList =
      (r.apiVersion.toList.reverse.dropWhile (· != '/')).reverse ++ r.version.toList := by
    rw [version, splitVersion, String.toList_ofList, ← List.reverse_append,
      List.takeWhile_append_dropWhile, List.reverse_reverse]
  refine ⟨?_, ?_⟩
  · rw [version, splitVersion, String.toList_ofList, List.mem_reverse]
    intro slash
    simpa using List.all_eq_true.mp List.all_takeWhile _ slash
  · have front : r.group.toList = r.apiVersion.toList.take
        (r.apiVersion.toList.length - r.version.toList.length - 1) := by
      rw [group, version, splitVersion, String.toList_ofList, String.toList_ofList]
    cases before : r.apiVersion.toList.reverse.dropWhile (· != '/') with
    | nil =>
      rw [before, List.reverse_nil, List.nil_append] at whole
      refine .inr ⟨?_, String.toList_inj.mp whole⟩
      rw [whole] at front
      exact String.toList_inj.mp (by simpa using front)
    | cons c rest =>
      have slash : c = '/' := by
        have stops := List.head?_dropWhile_not (· != '/') r.apiVersion.toList.reverse
        rw [before] at stops
        simpa using stops
      rw [before, slash, List.reverse_cons, List.append_assoc, List.singleton_append] at whole
      refine .inl (String.toList_inj.mp ?_)
      have length : (rest.reverse ++ '/' :: r.version.toList).length - r.version.toList.length - 1 =
          rest.reverse.length := by
        rw [List.length_append, List.length_cons]
        omega
      rw [whole, length, List.take_left] at front
      rw [whole, String.toList_append, String.toList_append, front, List.append_assoc]
      rfl

theorem ofDocument_eq_error_iff : ofDocument document = .error fault ↔ Refused document fault := by
  constructor
  · intro refused
    rcases named_or_lacks_or_stray document with ⟨entries, fields, named⟩ | ⟨lack, lacks⟩ |
      ⟨metadata, stray⟩
    · rw [ofDocument_of_named named] at refused
      split at refused
      · contradiction
      · rename_i long
        obtain rfl := Except.error.inj refused
        push Not at long
        obtain ⟨v, mem, long⟩ := long
        exact .unnamed named mem (by simpa using long)
    · rw [ofDocument_of_lacks lacks, reject] at refused
      obtain rfl := Except.error.inj refused
      split
      · rename_i long
        exact .unshown lacks long
      · rename_i short
        exact .lacks lacks (eq_false_of_ne_true short)
    · rw [ofDocument_of_stray stray] at refused
      obtain rfl := Except.error.inj refused
      exact .stray stray
  · intro refused
    cases refused with
    | lacks lacks short => rw [ofDocument_of_lacks lacks, reject, short]; rfl
    | unshown lacks long => rw [ofDocument_of_lacks lacks, reject, long]; rfl
    | stray stray => exact ofDocument_of_stray stray
    | unnamed named mem long =>
      rw [ofDocument_of_named named, if_neg]
      intro short
      rw [short _ mem] at long
      contradiction

theorem ofDocument_eq_ok_iff_described :
    ofDocument document = .ok r ↔ ∃ entries fields, Named document entries fields ∧
      (∀ v ∈ identity entries fields, v.isOversized = false) ∧
        r = described document entries fields := by
  constructor
  · intro made
    rcases named_or_lacks_or_stray document with ⟨entries, fields, named⟩ | ⟨lack, lacks⟩ |
      ⟨metadata, stray⟩
    · rw [ofDocument_of_named named] at made
      split at made
      · rename_i short
        exact ⟨entries, fields, named, short, (Except.ok.inj made).symm⟩
      · contradiction
    · rw [ofDocument_of_lacks lacks, reject] at made
      contradiction
    · rw [ofDocument_of_stray stray] at made
      contradiction
  · rintro ⟨entries, fields, named, short, rfl⟩
    rw [ofDocument_of_named named, if_pos short]

theorem Lacks.category? (lacks : Lacks document fault) : fault.category? = some .input := by
  cases lacks <;> rfl

/-- The values that identify a resource are fields of the document, and hold no integer that the
document does not hold. -/
theorem Named.identity_short (named : Named document entries fields)
    (short : document.isOversized = false) : ∀ v ∈ identity entries fields, v.isOversized = false := by
  have own := isOversized_field short named.opened
  have within := isOversized_field (own "metadata") named.inner
  simp only [identity, List.forall_mem_cons]
  exact ⟨own _, own _, within _, within _, List.forall_mem_nil _⟩

/-- A document is a resource where it says all that it must, as far as that can be written. The
resource keeps the document and is identified by what the document says. The others are refused
as invalid input, but for metadata that is no mapping, and integers that are too long to be
shown. -/
theorem ofDocument_validates (document : Value) :
    (∀ r, ofDocument document = .ok r ↔ ∃ entries fields, Named document entries fields ∧
      (∀ v ∈ identity entries fields, v.isOversized = false) ∧
        r = described document entries fields) ∧
    (∀ r, ofDocument document = .ok r → r.manifest = document ∧
      ∃ group version, '/' ∉ version.toList ∧
        (r.apiVersion = group ++ "/" ++ version ∨ group = "" ∧ r.apiVersion = version) ∧
        r.id = ResourceId.print ⟨group, version, r.kind, r.namespace_, r.name⟩) ∧
    (∀ fault, ofDocument document = .error fault ↔ Refused document fault) ∧
    (document.isOversized = false → ∀ fault, ofDocument document = .error fault →
      (Lacks document fault ∧ fault.category? = some .input) ∨
      ∃ metadata, Stray document metadata ∧ fault = .noFields metadata.fullTypeName ∧
        fault.category? = none) := by
  refine ⟨?_, ?_, ?_, ?_⟩
  · intro r
    exact ofDocument_eq_ok_iff_described
  · intro r made
    obtain ⟨free, parts⟩ := version_spec r
    exact ⟨manifest_of_ofDocument made, r.group, r.version, free, parts, rfl⟩
  · intro fault
    exact ofDocument_eq_error_iff
  · intro short fault failed
    cases ofDocument_eq_error_iff.mp failed with
    | lacks lacks _ => exact .inl ⟨lacks, lacks.category?⟩
    | unshown lacks long =>
      rw [short] at long
      contradiction
    | stray stray => exact .inr ⟨_, stray, rfl, rfl⟩
    | unnamed named mem long =>
      rw [named.identity_short short _ mem] at long
      contradiction

def flagged : Value := .map [(.str "apiVersion", .str "apps/v1"), (.str "kind", .str "Deployment"),
  (.str "metadata", .map [(.str "name", .bool true), (.str "namespace", .bool false)])]

theorem ofDocument_flagged : ∃ entries fields, Named flagged entries fields ∧
    ofDocument flagged = .ok (described flagged entries fields) ∧
    (described flagged entries fields).manifest = flagged ∧
    (described flagged entries fields).id = "apps_v1_Deployment|~X|True" := by
  obtain ⟨accepted, kept, -⟩ := ofDocument_validates flagged
  have named : Named flagged _ _ := ⟨rfl, rfl, rfl, rfl, rfl⟩
  have short : ∀ v ∈ identity _ _, v.isOversized = false := named.identity_short rfl
  have made := (accepted _).mpr ⟨_, _, named, short, rfl⟩
  exact ⟨_, _, named, made, (kept _ made).1, rfl⟩

def labelled : Value := .map [(.str "apiVersion", .str "v1"), (.str "kind", .str "ConfigMap"),
  (.str "metadata", .str "x")]

theorem ofDocument_labelled : Stray labelled (.str "x") ∧ labelled.isOversized = false ∧
    ∃ fault, ofDocument labelled = .error fault ∧ fault.category? = none ∧
      fault.message = "'str' object has no attribute 'get'" :=
  ⟨⟨⟨_, rfl, rfl, rfl, rfl⟩, rfl, rfl⟩, rfl, .noFields "str", rfl, rfl, rfl⟩

end OverlayBuild.Resource
