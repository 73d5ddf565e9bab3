import OverlayBuild.Proofs.Spec.Document
import OverlayBuild.Proofs.Value.Formed

/-! Which specifications have a text: those whose counts have no more digits than are written
out. Everything else that a document holds is text. -/
namespace OverlayBuild

namespace Value

variable {depth : Nat} {v : Value} {entries : List (Value × Value)}

/-- Pruning leaves a value that could be given. -/
theorem WellFormed.prune (formed : WellFormed depth v) : WellFormed depth v.prune := by
  induction v using nested generalizing depth with
  | leaf v leaf =>
    cases v with
    | list items | map entries => exact leaf.elim
    | _ => exact formed
  | list items ih =>
    apply wellFormedAll_iff.mpr
    intro v mem
    rcases mem_pruneItems mem with own | ⟨w, own, rfl⟩
    · exact wellFormedAll_iff.mp formed v own
    · exact ih w own (wellFormedAll_iff.mp formed w own)
  | tuple items => exact formed
  | map entries ih =>
    apply wellFormedEntries_iff.mpr
    intro e mem
    obtain ⟨v, own, same⟩ := mem_pruneEntries mem
    obtain ⟨key, value⟩ := wellFormedEntries_iff.mp formed _ own
    exact ⟨key, same ▸ ih _ own value⟩
  | set items => exact formed

end Value

namespace Spec

open Value

variable {depth : Nat}

theorem wellFormed_list {α : Type} {items : List α} {f : α → Value}
    (each : ∀ a ∈ items, WellFormed (depth + 1) (f a)) : WellFormed depth (.list (items.map f)) :=
  wellFormedAll_iff.mpr (List.forall_mem_map.mpr each)

theorem wellFormed_texts (ss : List String) : WellFormed depth (texts ss) :=
  wellFormed_list fun _ _ => trivial

theorem wellFormed_textMap (texts : List (String × String)) : WellFormed depth (textMap texts) :=
  wellFormedEntries_iff.mpr (List.forall_mem_map.mpr fun _ _ => ⟨trivial, trivial⟩)

theorem wellFormed_generatorEntries (g : Generator) :
    ∀ e ∈ generatorEntries g, WellFormed 0 e.1 ∧ WellFormed depth e.2 := by
  simp only [generatorEntries, entry, List.forall_mem_cons]
  exact ⟨⟨trivial, trivial⟩, ⟨trivial, trivial⟩, ⟨trivial, wellFormed_texts _⟩,
    ⟨trivial, wellFormed_texts _⟩, ⟨trivial, wellFormed_texts _⟩, List.forall_mem_nil _⟩

theorem wellFormed_secret (s : SecretGenerator) : WellFormed depth (secretFields s) := by
  refine wellFormedEntries_iff.mpr (List.forall_mem_append.mpr ⟨wellFormed_generatorEntries _, ?_⟩)
  exact List.forall_mem_singleton.mpr ⟨trivial, trivial⟩

theorem wellFormed_patch (p : Patch) : WellFormed depth (patchFields p) := by
  refine wellFormedEntries_iff.mpr (List.forall_mem_append.mpr ⟨?_, ?_⟩)
  · simp [entry, WellFormed]
  · cases p.target with
    | none => exact List.forall_mem_nil _
    | some t => simp [entry, targetFields, WellFormed, WellFormedEntries]

/-- The fields of a specification whose counts are short hold nothing that could not be given. -/
theorem wellFormed_fields {s : Spec} (short : ∀ r ∈ s.replicas, IsShort (.int r.count)) :
    WellFormed 0 (.map s.fields) := by
  have replicas : WellFormed 1 (.list (s.replicas.map replicaFields)) :=
    wellFormed_list fun r mem => ⟨⟨trivial, trivial⟩, ⟨trivial, short r mem⟩, trivial⟩
  have images : WellFormed 1 (.list (s.images.map imageFields)) :=
    wellFormed_list fun i _ => by simp [imageFields, entry, WellFormed, WellFormedEntries]
  apply wellFormedEntries_iff.mpr
  simp only [fields, entry, List.forall_mem_cons]
  exact ⟨⟨trivial, wellFormed_textMap _⟩, ⟨trivial, wellFormed_textMap _⟩,
    ⟨trivial, wellFormed_texts _⟩,
    ⟨trivial, wellFormed_list fun g _ => wellFormedEntries_iff.mpr (wellFormed_generatorEntries g)⟩,
    ⟨trivial, wellFormed_texts _⟩, ⟨trivial, images⟩, ⟨trivial, trivial⟩, ⟨trivial, trivial⟩,
    ⟨trivial, trivial⟩, ⟨trivial, replicas⟩, ⟨trivial, wellFormed_texts _⟩,
    ⟨trivial, wellFormed_list fun g _ => wellFormed_secret g⟩,
    ⟨trivial, wellFormed_list fun p _ => wellFormed_patch p⟩, List.forall_mem_nil _⟩

/-- A specification whose counts are short has a text. -/
theorem yaml_of_short {s : Spec} (short : ∀ r ∈ s.replicas, IsShort (.int r.count))
    (multiline : Yaml.Multiline) : s.yaml multiline = .ok (s.text multiline) := by
  have pruned := wellFormedEntries_iff.mp (wellFormed_fields short).prune
  have document : WellFormed 0 s.document := by
    refine wellFormedEntries_iff.mpr (List.forall_mem_append.mpr ⟨?_, pruned⟩)
    simp [header, entry, WellFormed]
  rw [yaml, document.isOversized, if_neg Bool.false_ne_true]

end Spec

end OverlayBuild
