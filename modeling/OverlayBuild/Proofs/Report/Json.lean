import OverlayBuild.Proofs.Json.Ascii
import OverlayBuild.Proofs.Json.Reading
import OverlayBuild.Proofs.Report.Format

/-! What is printed as JSON is all that there is to a result: it is read back, in the same order,
whatever the ids and the manifests hold. -/
namespace OverlayBuild.Report

open Text Yaml

variable {multiline : Multiline} {r : BuildResult}

/-- Splitting into lines and putting a break behind each adds one break. -/
theorem exists_text_json (multiline : Multiline) (r : BuildResult) :
    ∃ cs, Json.writeAt .report 0 (outline r) = .ok cs ∧
      (text multiline .json r).toList = cs ++ ['\n'] := by
  obtain ⟨cs, written⟩ : ∃ cs, Json.writeAt .report 0 (outline r) = .ok cs :=
    Json.exists_writeAt (isWritable_outline r)
  have made : Json.write .report (outline r) = .ok (String.ofList cs) := by
    rw [Json.write, written]
    rfl
  refine ⟨cs, written, ?_⟩
  rw [toList_text, lines, made, flatMap_splitAt, String.toList_ofList]

theorem isTextual_outline (distinct : (r.manifests.map (·.1)).Nodup) :
    Value.Every Json.IsTextual (outline r) := by
  have keys : ((r.manifests.map fun m => (Value.str m.1, Value.str m.2)).map (·.1)).Nodup := by
    have texts := distinct.map fun _ _ => Value.str.inj
    rwa [List.map_map] at texts ⊢
  exact every_outline (fun _ => trivial) (fun _ => trivial) ⟨textKeys_manifests r.manifests, keys⟩
    ⟨textKeys_outline, by simp⟩

theorem texts_injective : Function.Injective texts := fun _ _ same =>
  (List.map_injective_iff.mpr fun _ _ => Value.str.inj) (Value.list.inj same)

theorem outline_injective : Function.Injective outline := by
  rintro ⟨ids, tiers, manifests⟩ ⟨others, strata, bodies⟩ same
  have pair : Function.Injective fun m : String × String => (Value.str m.1, Value.str m.2) := by
    rintro ⟨key, text⟩ ⟨name, body⟩ same
    simpa using same
  simp only [outline, Value.map.injEq, List.cons.injEq, Prod.mk.injEq, true_and, and_true,
    Value.list.injEq] at same
  obtain ⟨sameIds, sameTiers, sameManifests⟩ := same
  rw [texts_injective sameIds, List.map_injective_iff.mpr texts_injective sameTiers,
    List.map_injective_iff.mpr pair sameManifests]

/-- The JSON that is printed of ids, ids by tier and manifests is ASCII and is read as these
again, in their order, so that no other ids, tiers or manifests have the same text. -/
theorem json_reads_back (r : BuildResult) (multiline : Multiline)
    (distinct : (r.manifests.map (·.1)).Nodup) :
    Json.read (text multiline .json r).toList = some (outline r) ∧
    (∀ c ∈ (text multiline .json r).toList, c.toNat < 0x80) ∧
    ∀ (other : BuildResult) (layout : Multiline), (other.manifests.map (·.1)).Nodup →
      text layout .json other = text multiline .json r → other = r := by
  have reads (r : BuildResult) (multiline : Multiline) (distinct : (r.manifests.map (·.1)).Nodup) :
      Json.read (text multiline .json r).toList = some (outline r) := by
    obtain ⟨cs, written, whole⟩ := exists_text_json multiline r
    have spells := Json.spells_of_writeAt rfl (isTextual_outline distinct) written
    rw [whole]
    exact spells.read (by simp [Json.isSpace])
  refine ⟨reads r multiline distinct, ?_, fun other layout alsoDistinct same => ?_⟩
  · obtain ⟨cs, written, whole⟩ := exists_text_json multiline r
    rw [whole]
    have feed : Json.IsAscii ['\n'] := by decide
    exact (Json.ascii_of_writeAt rfl written).append feed
  · have read := reads other layout alsoDistinct
    rw [same, reads r multiline distinct] at read
    exact outline_injective (Option.some.inj read).symm

def nested : BuildResult where
  ids := ["a\"b\\", "", "😀\n\x7f"]
  tiers := [[], ["é\u2028"], []]
  manifests := [("~G", "\x7b\"kind\":\"\\\"\\\\\\n\"\x7d"), ("", "𝄞\t/")]

/-- Its JSON is read again, and is no longer the same where the manifests change places. -/
theorem json_reads_back_nested :
    Json.read (text .quoted .json nested).toList = some (outline nested) ∧
    (∀ c ∈ (text .quoted .json nested).toList, c.toNat < 0x80) ∧
    text .quoted .json { nested with manifests := nested.manifests.reverse } ≠
      text .quoted .json nested := by
  obtain ⟨reads, ascii, only⟩ := json_reads_back nested .quoted (by decide)
  exact ⟨reads, ascii, fun same => absurd (only _ .quoted (by decide) same) (by decide)⟩

end OverlayBuild.Report
