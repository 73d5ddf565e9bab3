import OverlayBuild.Proofs.Resource.Tier
import OverlayBuild.Proofs.Resource.Validation

/-! Which resources share an id. Where every field can be told from the text of an identifier,
an id stands for one kind, one namespace, one name and one API version. Only the two ways to
write a version of the core group, with a slash before it and without, come to the same. -/
namespace OverlayBuild

namespace ResourceId

/-- Every field can be told from the text: none holds a separator that ends it, and none is
what stands for an empty one. -/
structure Readable (r : ResourceId) : Prop extends r.ShowsKind where
  namespace_bar : '|' ∉ r.namespace_.toList
  namespace_mark : r.namespace_ ≠ noNamespace

variable {r s : ResourceId}

theorem Readable.parted (readable : r.Readable) : r.pieces.Parted where
  group_bar := not_mem_orElse readable.group_bar (by decide)
  group_underscore := not_mem_orElse readable.group_underscore (by decide)
  version_bar := readable.version_bar
  version_underscore := readable.version_underscore
  kind_bar := readable.kind_bar
  namespace_bar := not_mem_orElse readable.namespace_bar (by decide)

theorem Readable.fields_pieces (readable : r.Readable) : r.pieces.fields = r := by
  have group := unlessMark_orElse readable.group_mark
  have namespace_ := unlessMark_orElse readable.namespace_mark
  simp only [Pieces.fields, pieces, String.ofList_toList, group, namespace_]

theorem Readable.parse_print (readable : r.Readable) : parse r.print = .ok r :=
  parse_eq_ok_iff.mpr ⟨r.pieces, readable.parted, toList_print r, readable.fields_pieces.symm⟩

theorem Readable.eq_of_print_eq (readable : r.Readable) (also : s.Readable)
    (same : r.print = s.print) : r = s := by
  have read := readable.parse_print
  rw [same, also.parse_print] at read
  exact (Except.ok.inj read).symm

end ResourceId

namespace Resource

variable {r s : Resource} {group version : String}

/-- The last occurrence of a character is at one place. -/
theorem last_cut_unique {c : Char} {before others after rest : List Char} (free : c ∉ after)
    (also : c ∉ rest) (same : before ++ c :: after = others ++ c :: rest) :
    before = others ∧ after = rest := by
  have cut {front back : List Char} (free : c ∉ back) :
      ResourceId.cut? c (front ++ c :: back).reverse = some (back.reverse, front.reverse) :=
    ResourceId.cut?_eq_some_iff.mpr ⟨by simpa using free, by simp⟩
  have pieces := (cut free).symm.trans (same ▸ cut also)
  simpa [and_comm] using pieces

variable (r group) in
theorem split_of_slash (free : '/' ∉ version.toList)
    (whole : r.apiVersion = group ++ "/" ++ version) : r.group = group ∧ r.version = version := by
  have slash : r.apiVersion.toList = group.toList ++ '/' :: version.toList := by simp [whole]
  obtain ⟨own, split | ⟨-, bare⟩⟩ := r.version_spec
  · have parts : r.group.toList ++ '/' :: r.version.toList = group.toList ++ '/' :: version.toList := by
      rw [← slash, split]
      simp
    obtain ⟨front, back⟩ := last_cut_unique own free parts
    exact ⟨String.toList_inj.mp front, String.toList_inj.mp back⟩
  · rw [← bare, slash] at own
    simp at own

theorem split_of_bare (free : '/' ∉ r.apiVersion.toList) :
    r.group = "" ∧ r.version = r.apiVersion := by
  obtain ⟨-, split | ⟨empty, bare⟩⟩ := r.version_spec
  · rw [split] at free
    simp at free
  · exact ⟨empty, bare.symm⟩

def Slashed (bare slashed : String) : Prop := '/' ∉ bare.toList ∧ slashed = "/" ++ bare

/-- Two ways to write one API version. -/
def SameVersion (a b : String) : Prop := a = b ∨ Slashed a b ∨ Slashed b a

theorem Slashed.split_eq (slashed : Slashed r.apiVersion s.apiVersion) :
    r.group = s.group ∧ r.version = s.version := by
  obtain ⟨free, behind⟩ := slashed
  obtain ⟨empty, bare⟩ := split_of_bare free
  obtain ⟨group, version⟩ := split_of_slash s "" free (by simpa using behind)
  exact ⟨empty.trans group.symm, bare.trans version.symm⟩

theorem split_eq_iff :
    r.group = s.group ∧ r.version = s.version ↔ SameVersion r.apiVersion s.apiVersion := by
  constructor
  · rintro ⟨group, version⟩
    obtain ⟨free, split | ⟨empty, bare⟩⟩ := r.version_spec <;>
      obtain ⟨-, also | ⟨alsoEmpty, alsoBare⟩⟩ := s.version_spec
    · exact .inl (by rw [split, also, group, version])
    · refine .inr (.inr ⟨?_, ?_⟩)
      · rw [alsoBare, ← version]
        exact free
      · rw [split, alsoBare, group, alsoEmpty, version]
        simp
    · refine .inr (.inl ⟨?_, ?_⟩)
      · rw [bare]
        exact free
      · rw [also, bare, ← group, empty, version]
        simp
    · exact .inl (by rw [bare, alsoBare, version])
  · rintro (same | slashed | slashed)
    · exact ⟨by rw [group, group, splitVersion, splitVersion, same],
        by rw [version, version, splitVersion, splitVersion, same]⟩
    · exact slashed.split_eq
    · exact slashed.split_eq.imp Eq.symm Eq.symm

/-- The API version of an identifier is that of the resource, without a slash before a version
of the core group. -/
theorem apiVersion_identifier (r : Resource) :
    ((∀ bare, ¬ Slashed bare r.apiVersion) → r.identifier.apiVersion = r.apiVersion) ∧
      ∀ bare, Slashed bare r.apiVersion → r.identifier.apiVersion = bare := by
  have known : r.identifier.apiVersion =
      if r.group = "" then r.version else r.group ++ "/" ++ r.version := rfl
  obtain ⟨free, split | ⟨empty, bare⟩⟩ := r.version_spec
  · by_cases core : r.group = ""
    · have slashed : Slashed r.version r.apiVersion := ⟨free, by rw [split, core]; simp⟩
      rw [known, if_pos core]
      refine ⟨fun unslashed => absurd slashed (unslashed _), fun other ⟨alone, behind⟩ => ?_⟩
      exact (split_of_slash r "" alone (by simpa using behind)).2
    · rw [known, if_neg core, ← split]
      refine ⟨fun _ => rfl, fun other ⟨alone, behind⟩ => ?_⟩
      exact absurd (split_of_slash r "" alone (by simpa using behind)).1 core
  · rw [known, if_pos empty, ← bare]
    refine ⟨fun _ => rfl, fun other ⟨_, behind⟩ => ?_⟩
    rw [← bare, behind] at free
    simp at free

/-- Resources whose fields can be told from their ids have one id exactly where they name one
object: kind, namespace and name are the same, and the API versions are but for a slash before
a version of the core group. Then they have one tier. An id gives the fields back, and with them
the API version, without such a slash. -/
theorem id_tells_object (readable : r.identifier.Readable) (also : s.identifier.Readable) :
    (r.id = s.id ↔ r.kind = s.kind ∧ r.namespace_ = s.namespace_ ∧ r.name = s.name ∧
      SameVersion r.apiVersion s.apiVersion) ∧
    (∃ parsed, ResourceId.parse r.id = .ok parsed ∧
      parsed = ⟨r.group, r.version, r.kind, r.namespace_, r.name⟩ ∧
      ((∀ bare, ¬ Slashed bare r.apiVersion) → parsed.apiVersion = r.apiVersion) ∧
      ∀ bare, Slashed bare r.apiVersion → parsed.apiVersion = bare) ∧
    (r.id = s.id → Tier.of r = Tier.of s) := by
  refine ⟨⟨?_, ?_⟩, ⟨r.identifier, readable.parse_print, rfl, r.apiVersion_identifier⟩, ?_⟩
  · intro same
    have fields := readable.eq_of_print_eq also same
    simp only [identifier, ResourceId.mk.injEq] at fields
    obtain ⟨group, version, kind, namespace_, name⟩ := fields
    exact ⟨kind, namespace_, name, split_eq_iff.mp ⟨group, version⟩⟩
  · rintro ⟨kind, namespace_, name, same⟩
    obtain ⟨group, version⟩ := split_eq_iff.mpr same
    rw [id, id, identifier, identifier, group, version, kind, namespace_, name]
  · intro same
    exact Tier.of_eq_of_id_eq readable.toShowsKind also.toShowsKind same

def slashedNamespace : Resource := ⟨"/v1", "Namespace", "x|y_z", "", .map []⟩

def bareNamespace : Resource := ⟨"v1", "Namespace", "x|y_z", "", .null⟩

theorem id_tells_namespace :
    slashedNamespace.identifier.Readable ∧ bareNamespace.identifier.Readable ∧
    Slashed "v1" slashedNamespace.apiVersion ∧ slashedNamespace.id = bareNamespace.id ∧
    ResourceId.parse slashedNamespace.id = .ok ⟨"", "v1", "Namespace", "", "x|y_z"⟩ ∧
    Tier.of slashedNamespace = Tier.of bareNamespace := by
  have readable : slashedNamespace.identifier.Readable :=
    ⟨⟨by decide, by decide, by decide, by decide, by decide, by decide⟩, by decide, by decide⟩
  have also : bareNamespace.identifier.Readable :=
    ⟨⟨by decide, by decide, by decide, by decide, by decide, by decide⟩, by decide, by decide⟩
  have slashed : Slashed "v1" slashedNamespace.apiVersion := ⟨by decide, by decide⟩
  obtain ⟨shared, ⟨parsed, read, rfl, -⟩, tiers⟩ := id_tells_object readable also
  have same : slashedNamespace.id = bareNamespace.id :=
    shared.mpr ⟨rfl, rfl, rfl, .inr (.inr slashed)⟩
  exact ⟨readable, also, slashed, same, read, tiers same⟩

end Resource

end OverlayBuild
