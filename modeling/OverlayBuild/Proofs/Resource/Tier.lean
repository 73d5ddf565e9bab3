import OverlayBuild.Proofs.Resource.Identifier
import OverlayBuild.Proofs.Resource.Result

/-! The tiers of resources. Tiers are chosen by group and kind, and hold ids. So they part
the ids as long as an id tells group and kind, which an id does not where a separator or the
mark of the empty group stands in one of its fields. -/
namespace OverlayBuild

namespace ResourceId

/-- Group, version and kind can be told from the text: no field holds a separator that ends
it, and the group is not what stands for an empty one. -/
structure ShowsKind (r : ResourceId) : Prop where
  group_bar : '|' ∉ r.group.toList
  group_underscore : '_' ∉ r.group.toList
  group_mark : r.group ≠ noGroup
  version_bar : '|' ∉ r.version.toList
  version_underscore : '_' ∉ r.version.toList
  kind_bar : '|' ∉ r.kind.toList

variable {r s : ResourceId}

theorem ShowsKind.cut (shows : r.ShowsKind) :
    (cut? '|' r.print.toList).bind (fun parts => cutTwice? '_' parts.1) =
      some (r.pieces.group, r.pieces.version, r.pieces.kind) := by
  have bar : '|' ∉ r.pieces.group := not_mem_orElse shows.group_bar (by decide)
  have underscore : '_' ∉ r.pieces.group := not_mem_orElse shows.group_underscore (by decide)
  have front : '|' ∉ r.pieces.group ++ '_' :: (r.pieces.version ++ '_' :: r.pieces.kind) := by
    have version : '|' ∉ r.pieces.version := shows.version_bar
    have kind : '|' ∉ r.pieces.kind := shows.kind_bar
    simp [bar, version, kind]
  rw [cut?_eq_some_iff.mpr ⟨front, toList_print r⟩]
  exact cutTwice?_eq_some_iff.mpr ⟨underscore, shows.version_underscore, rfl⟩

theorem ShowsKind.kind_eq (shows : r.ShowsKind) (also : s.ShowsKind) (same : r.print = s.print) :
    r.group = s.group ∧ r.version = s.version ∧ r.kind = s.kind := by
  have pieces := shows.cut.symm.trans (same ▸ also.cut)
  simp only [ResourceId.pieces, Option.some.injEq, Prod.mk.injEq, String.toList_inj] at pieces
  obtain ⟨group, version, kind⟩ := pieces
  refine ⟨?_, version, kind⟩
  rw [← unlessMark_orElse shows.group_mark, group, unlessMark_orElse also.group_mark]

end ResourceId

namespace Tier

variable {resources : List Resource} {r s : Resource}

theorem of_eq_of_id_eq (shows : r.identifier.ShowsKind) (also : s.identifier.ShowsKind)
    (same : r.id = s.id) : of r = of s := by
  obtain ⟨group, -, kind⟩ := shows.kind_eq also same
  have group : r.group = s.group := group
  have kind : r.kind = s.kind := kind
  rw [of, of, group, kind]

/-- The ids in a tier. -/
def idsOf (tiers : List (List String)) (tier : Tier) : List String := tiers.getD tier.number []

/-- The tiers hold the id of each resource, where it belongs, and nothing else. They part the
ids exactly where resources of one id belong to one tier, so at the least where each id shows
group, version and kind. -/
theorem classify_parts (resources : List Resource) :
    (classify resources).length = 3 ∧
    (∀ tier id, id ∈ idsOf (classify resources) tier ↔ ∃ r ∈ resources, of r = tier ∧ r.id = id) ∧
    (∀ id, id ∈ (classify resources).flatten ↔ ∃ r ∈ resources, r.id = id) ∧
    ((classify resources).Pairwise List.Disjoint ↔
      ∀ r ∈ resources, ∀ s ∈ resources, r.id = s.id → of r = of s) ∧
    ((∀ r ∈ resources, r.identifier.ShowsKind) →
      (∀ r ∈ resources, ∀ s ∈ resources, r.id = s.id → of r = of s) ∧
        (classify resources).Pairwise List.Disjoint ∧
        ∀ r ∈ resources, ∃! tier, r.id ∈ idsOf (classify resources) tier) := by
  refine ⟨rfl, ?_, ?_, BuildResult.apart_classify_iff, ?_⟩
  · intro tier id
    exact BuildResult.mem_classify
  · intro id
    exact BuildResult.mem_flatten_classify
  · intro shows
    have agree : ∀ r ∈ resources, ∀ s ∈ resources, r.id = s.id → of r = of s := by
      intro r mem s also
      exact of_eq_of_id_eq (shows r mem) (shows s also)
    refine ⟨agree, BuildResult.apart_classify_iff.mpr agree, ?_⟩
    intro r mem
    refine ⟨of r, BuildResult.mem_classify.mpr ⟨r, mem, rfl, rfl⟩, ?_⟩
    intro tier within
    obtain ⟨s, also, rfl, same⟩ := BuildResult.mem_classify.mp within
    exact agree s also r mem same

def mixed : List Resource := [
  ⟨"admissionregistration.k8s.io/v1", "ValidatingWebhookConfiguration", "hook|a_b", "", .map []⟩,
  ⟨"v1", "Namespace", "shop", "", .map []⟩,
  ⟨"/v1", "Namespace", "shop", "", .map []⟩,
  ⟨"example.com/v1", "Namespace", "shop", "", .map []⟩]

theorem classify_parts_mixed :
    (∀ r ∈ mixed, r.identifier.ShowsKind) ∧
    classify mixed = [["~G_v1_Namespace|~X|shop"], ["example.com_v1_Namespace|~X|shop"],
      ["admissionregistration.k8s.io_v1_ValidatingWebhookConfiguration|~X|hook|a_b"]] ∧
    (classify mixed).Pairwise List.Disjoint ∧
    ∀ r ∈ mixed, ∃! tier, r.id ∈ idsOf (classify mixed) tier := by
  have shows : ∀ r ∈ mixed, r.identifier.ShowsKind := by
    simp only [mixed, List.forall_mem_cons]
    refine ⟨?_, ?_, ?_, ?_, nofun⟩ <;>
      exact ⟨by decide, by decide, by decide, by decide, by decide, by decide⟩
  obtain ⟨-, apart, one⟩ := (classify_parts mixed).2.2.2.2 shows
  exact ⟨shows, rfl, apart, one⟩

/-- A namespace of the core group, and one of a group whose name is what stands for that. -/
def maskedDocuments : List Value := [
  .map [(.str "apiVersion", .str "v1"), (.str "kind", .str "Namespace"),
    (.str "metadata", .map [(.str "name", .str "a")])],
  .map [(.str "apiVersion", .str "~G/v1"), (.str "kind", .str "Namespace"),
    (.str "metadata", .map [(.str "name", .str "a")])]]

/-- Two documents whose resources have one id and belong to two tiers, so that the id is in
both. -/
theorem classify_masked_shares_id :
    ∃ core masked, maskedDocuments.mapM Resource.ofDocument = .ok [core, masked] ∧
      core.id = masked.id ∧ of core = .scope ∧ of masked = .default ∧
      classify [core, masked] = [["~G_v1_Namespace|~X|a"], ["~G_v1_Namespace|~X|a"], []] ∧
      ¬ (classify [core, masked]).Pairwise List.Disjoint := by
  refine ⟨_, _, rfl, rfl, rfl, rfl, rfl, ?_⟩
  intro apart
  obtain ⟨first, -⟩ := List.pairwise_cons.mp apart
  exact first _ List.mem_cons_self List.mem_cons_self List.mem_cons_self

end Tier

end OverlayBuild
