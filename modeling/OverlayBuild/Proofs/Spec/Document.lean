import OverlayBuild.Proofs.Value.Mapping
import OverlayBuild.Spec.Basic

/-! What a document says under its keys: the fields of the specification, pruned, as far as
something is left of them. -/
namespace OverlayBuild

namespace Value

variable {key : String} {k v : Value} {entries : List (Value × Value)}

def at? (key : String) : Value → Option Value
  | .map entries => find? key entries
  | _ => none

theorem pruneEntries_cons_void (void : (prune v).isVoid = true) :
    pruneEntries ((k, v) :: entries) = pruneEntries entries := by
  simp [pruneEntries, void]

theorem pruneEntries_cons_kept (kept : (prune v).isVoid = false) :
    pruneEntries ((k, v) :: entries) = (k, prune v) :: pruneEntries entries := by
  simp [pruneEntries, kept]

/-- The values of all entries are pruned, and then those that say nothing are dropped. -/
theorem pruneEntries_eq_filter (entries : List (Value × Value)) :
    pruneEntries entries =
      (entries.map fun e => (e.1, e.2.prune)).filter fun e => !e.2.isVoid := by
  induction entries with
  | nil => rfl
  | cons e entries ih =>
    obtain ⟨k, v⟩ := e
    rw [List.map_cons]
    cases void : v.prune.isVoid with
    | true => rw [pruneEntries_cons_void void, ih, List.filter_cons_of_neg (by simp [void])]
    | false => rw [pruneEntries_cons_kept void, ih, List.filter_cons_of_pos (by simp [void])]

theorem keys_pruneEntries_sublist (entries : List (Value × Value)) :
    ((pruneEntries entries).map (·.1)).Sublist (entries.map (·.1)) := by
  have keys : (entries.map fun e => (e.1, e.2.prune)).map (·.1) = entries.map (·.1) := by
    rw [List.map_map]
    rfl
  rw [pruneEntries_eq_filter, ← keys]
  exact List.filter_sublist.map _

theorem mem_pruneEntries_iff :
    (k, v) ∈ pruneEntries entries ↔ ∃ w, (k, w) ∈ entries ∧ w.prune = v ∧ v.isVoid = false := by
  rw [pruneEntries_eq_filter, List.mem_filter, List.mem_map, Bool.not_eq_true']
  constructor
  · rintro ⟨⟨⟨l, w⟩, own, same⟩, full⟩
    obtain ⟨rfl, rfl⟩ := Prod.mk.inj same
    exact ⟨w, own, rfl, full⟩
  · rintro ⟨w, own, rfl, full⟩
    exact ⟨⟨(k, w), own, rfl⟩, full⟩

/-- Each entry that pruning leaves is one of the entries, pruned. -/
theorem mem_pruneEntries {e : Value × Value} (mem : e ∈ pruneEntries entries) :
    ∃ v, (e.1, v) ∈ entries ∧ e.2 = v.prune := by
  obtain ⟨v, own, same, -⟩ := mem_pruneEntries_iff.mp mem
  exact ⟨v, own, same.symm⟩

def pruneItem : Value → Value
  | .map entries => .map (pruneEntries entries)
  | v => v

theorem pruneItems_eq_map (items : List Value) : pruneItems items = items.map pruneItem := by
  induction items with
  | nil => rfl
  | cons v items ih => cases v <;> simp [pruneItems, pruneItem, ih]

theorem mem_pruneItems {vs : List Value} (mem : v ∈ pruneItems vs) :
    v ∈ vs ∨ ∃ w ∈ vs, v = w.prune := by
  rw [pruneItems_eq_map] at mem
  obtain ⟨w, own, rfl⟩ := List.mem_map.mp mem
  cases w with
  | map entries => exact .inr ⟨.map entries, own, by rw [pruneItem, prune]⟩
  | _ => exact .inl own

/-- Pruning keeps the value of a key, pruned, unless it says nothing. -/
theorem find?_pruneEntries (distinct : (entries.map (·.1)).Nodup) :
    find? key (pruneEntries entries) =
      ((find? key entries).map prune).filter fun v => !v.isVoid := by
  induction entries with
  | nil => rfl
  | cons e entries ih =>
    obtain ⟨k, v⟩ := e
    obtain ⟨new, distinct⟩ := List.nodup_cons.mp distinct
    by_cases here : k = .str key
    · subst here
      have gone : find? key (pruneEntries entries) = none :=
        find?_eq_none fun mem => new ((keys_pruneEntries_sublist entries).subset mem)
      rw [find?_cons_self]
      cases void : (prune v).isVoid with
      | true => rw [pruneEntries_cons_void void, gone]; simp [Option.filter, void]
      | false => rw [pruneEntries_cons_kept void, find?_cons_self]; simp [Option.filter, void]
    · rw [find?_cons_ne here, ← ih distinct]
      cases void : (prune v).isVoid with
      | true => rw [pruneEntries_cons_void void]
      | false => rw [pruneEntries_cons_kept void, find?_cons_ne here]

end Value

namespace Spec

open Value

theorem keys_fields_nodup (s : Spec) : (s.fields.map (·.1)).Nodup := by
  simp [fields, entry]

/-- The document holds each field of the specification, pruned, unless nothing is left. -/
theorem at?_document (s : Spec) {key : String} (other : .str key ∉ header.map (·.1)) :
    at? key s.document = ((find? key s.fields).map prune).filter fun v => !v.isVoid := by
  rw [document, at?, find?_append_of_not_mem other, find?_pruneEntries s.keys_fields_nodup]

/-- Pruning a mapping of texts leaves those that are not empty. -/
theorem prune_textMap (texts : List (String × String)) :
    prune (textMap texts) = textMap (texts.filter fun e => e.2 != "") := by
  have kept : pruneEntries (texts.map fun e => entry e.1 (.str e.2)) =
      (texts.filter fun e => e.2 != "").map fun e => entry e.1 (.str e.2) := by
    induction texts with
    | nil => rfl
    | cons e texts ih =>
      by_cases empty : e.2 = ""
      · have void : (prune (.str e.2)).isVoid = true := by rw [empty]; rfl
        rw [List.map_cons, entry, pruneEntries_cons_void void, ih]
        simp [empty]
      · have full : (prune (.str e.2)).isVoid = false := by simpa [prune, isVoid] using empty
        rw [List.map_cons, entry, pruneEntries_cons_kept full, ih]
        simp [empty, entry, prune]
  rw [textMap, prune, kept, textMap]

end Spec

end OverlayBuild
