import OverlayBuild.Proofs.Json.Ascii
import OverlayBuild.Proofs.Json.Complete
import OverlayBuild.Proofs.Report.Table
import OverlayBuild.Proofs.Resource.Result
import OverlayBuild.Proofs.Spec.Written
import OverlayBuild.Proofs.Yaml.Ending
import OverlayBuild.Proofs.Yaml.Verbatim

/-! What the formats print. None of them fails, whatever the result holds, and only a table holds
characters outside of ASCII. The YAML of a result is
printed line by line without the breaks at its end, and still is the document that was written, so
that it is read as the result again. -/
namespace OverlayBuild

namespace Report

open Text Yaml

variable {multiline : Multiline} {format : Format} {r : BuildResult}

/-! What can fail does not. -/

/-- What holds of all text, all lists and the two mappings holds of all that a result holds. -/
theorem every_outline {p : Value → Prop} (text : ∀ s, p (.str s)) (list : ∀ items, p (.list items))
    (manifests : p (.map (r.manifests.map fun m => (.str m.1, .str m.2)))) (own : p (outline r)) :
    Value.Every p (outline r) := by
  have texts (ids : List String) : Value.Every p (texts ids) :=
    Value.every_list_iff.mpr ⟨list _, List.forall_mem_map.mpr fun id _ => text id⟩
  have tiers : Value.Every p (.list (r.tiers.map Report.texts)) :=
    Value.every_list_iff.mpr ⟨list _, List.forall_mem_map.mpr fun ids _ => texts ids⟩
  have manifests : Value.Every p (.map (r.manifests.map fun m => (.str m.1, .str m.2))) :=
    Value.every_map_iff.mpr ⟨manifests, List.forall_mem_map.mpr fun m _ => ⟨text m.1, text m.2⟩⟩
  refine Value.every_map_iff.mpr ⟨own, ?_⟩
  simp only [List.forall_mem_cons]
  exact ⟨⟨text _, texts r.ids⟩, ⟨text _, tiers⟩, ⟨text _, manifests⟩, nofun⟩

theorem textKeys_outline :
    Value.TextKeys [(.str "ids", texts r.ids), (.str "ids_prio", .list (r.tiers.map texts)),
      (.str "manifests", .map (r.manifests.map fun m => (.str m.1, .str m.2)))] := by
  simp [Value.TextKeys]

theorem textKeys_manifests (manifests : List (String × String)) :
    Value.TextKeys (manifests.map fun m => (Value.str m.1, Value.str m.2)) :=
  List.forall_mem_map.mpr fun m _ => ⟨m.1, rfl⟩

theorem isWritable_outline (r : BuildResult) : Value.Every Value.IsWritable (outline r) :=
  every_outline (fun _ => ⟨trivial, trivial, trivial, trivial⟩)
    (fun _ => ⟨trivial, trivial, trivial, trivial⟩)
    ⟨trivial, trivial, textKeys_manifests r.manifests, trivial⟩
    ⟨trivial, trivial, textKeys_outline, trivial⟩

/-- The parts of a result, whose manifests have different keys without wide characters. -/
theorem legible_outline (distinct : (r.manifests.map (·.1)).Nodup)
    (narrow : ∀ m ∈ r.manifests, ∀ c ∈ m.1.toList, c.toNat < 0x10000) : Legible 3 (outline r) := by
  have texts (ids : List String) : Legible 1 (texts ids) := Spec.legible_list fun id _ => .str id
  have tiers : Legible 2 (.list (r.tiers.map Report.texts)) := Spec.legible_list fun ids _ => texts ids
  have manifests : Legible 2 (.map (r.manifests.map fun m => (.str m.1, .str m.2))) :=
    Spec.legible_map narrow distinct fun m _ => .str m.2
  exact Spec.legible_fields ["ids", "ids_prio", "manifests"] [Report.texts r.ids, _, _] rfl (by decide)
    (by decide) (by
      simp only [List.forall_mem_cons]
      exact ⟨Spec.legible_list fun id _ => .str id, tiers, manifests, nofun⟩)

/-- Taking the breaks at the end away and putting one behind each line changes nothing. -/
theorem text_yaml (legible : Legible 3 (outline r)) :
    text multiline .yaml r = Yaml.write multiline (outline r) := by
  have finished : Finished (Yaml.write multiline (outline r)).toList :=
    write_finished legible (by simp) (by decide)
  obtain ⟨q, x, other, whole⟩ := finished
  have trimmed : dropEndWhile (· == '\n') (Yaml.write multiline (outline r)).toList = q ++ [x] := by
    rw [whole]
    exact dropEndWhile_append (p := (· == '\n')) (beq_eq_false_iff_ne.mpr other) (by simp) q
  refine String.toList_inj.mp ?_
  rw [toList_text, lines, trimmed, flatMap_splitAt, whole, List.append_assoc]
  rfl

/-- The YAML that is printed of ids, ids by tier and manifests is read as these again, in their
order. So it is for what is put together of resources, in the order of the ids. Text of several
lines may be written in either way. -/
theorem read_text :
    (∀ (r : BuildResult) (multiline : Multiline), (r.manifests.map (·.1)).Nodup →
      (∀ m ∈ r.manifests, ∀ c ∈ m.1.toList, c.toNat < 0x10000) →
      Yaml.read .full (text multiline .yaml r).toList = .ok (outline r)) ∧
    ∀ (resources : List Resource) (r : BuildResult) (multiline : Multiline),
      BuildResult.ofResources resources = .ok r →
      (∀ m ∈ r.manifests, ∀ c ∈ m.1.toList, c.toNat < 0x10000) →
      Yaml.read .full (text multiline .yaml r.sorted).toList = .ok (outline r.sorted) := by
  have reads (r : BuildResult) (multiline : Multiline) (distinct : (r.manifests.map (·.1)).Nodup)
      (narrow : ∀ m ∈ r.manifests, ∀ c ∈ m.1.toList, c.toNat < 0x10000) :
      Yaml.read .full (text multiline .yaml r).toList = .ok (outline r) := by
    have legible := legible_outline distinct narrow
    rw [text_yaml legible]
    exact read_write legible (by simp) (by decide)
  refine ⟨reads, fun resources r multiline made narrow => ?_⟩
  have same : r.sorted.manifests.Perm r.manifests := List.mergeSort_perm _ _
  have distinct := (BuildResult.holds_of_ofResources made).keys_nodup
  refine reads r.sorted multiline ?_ fun m mem => narrow m (same.mem_iff.mp mem)
  exact (same.map (·.1)).nodup_iff.mpr distinct

def ambiguous : BuildResult where
  ids := ["on", "2024-01-01", "- a: b"]
  tiers := [["~"], [], ["<<", " two\nlines \n"]]
  manifests := [("=", "\x7b\"a\":\"# b\"\x7d"), ("? key\n", "kept\n\n")]

/-- Its YAML is read again with text of several lines in quotes and, where it stands last, in a
block whose breaks at the end belong to it; so is that of a webhook and its namespace. -/
theorem read_text_ambiguous :
    Yaml.read .full (text .quoted .yaml ambiguous).toList = .ok (outline ambiguous) ∧
    Yaml.read .full (text .literal .yaml ambiguous).toList = .ok (outline ambiguous) ∧
    ∃ r, BuildResult.ofResources BuildResult.hookAndNamespace = .ok r ∧
      Yaml.read .full (text .literal .yaml r.sorted).toList = .ok (outline r.sorted) := by
  have distinct : (ambiguous.manifests.map (·.1)).Nodup := by decide
  have keys : ∀ m ∈ ambiguous.manifests, Spec.isNarrow m.1 = true := by decide
  have narrow : ∀ m ∈ ambiguous.manifests, ∀ c ∈ m.1.toList, c.toNat < 0x10000 := fun m mem =>
    Spec.isNarrow_iff.mp (keys m mem)
  obtain ⟨r, made⟩ : ∃ r, BuildResult.ofResources BuildResult.hookAndNamespace = .ok r := ⟨_, rfl⟩
  have keys : ∀ m ∈ r.manifests, Spec.isNarrow m.1 = true := by
    obtain rfl := Except.ok.inj made
    decide
  exact ⟨read_text.1 ambiguous .quoted distinct narrow,
    read_text.1 ambiguous .literal distinct narrow, r, made,
    read_text.2 BuildResult.hookAndNamespace r .literal made fun m mem =>
      Spec.isNarrow_iff.mp (keys m mem)⟩

end Report

end OverlayBuild
