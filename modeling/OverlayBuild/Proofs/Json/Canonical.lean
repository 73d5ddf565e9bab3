import OverlayBuild.Json.Writer
import OverlayBuild.Proofs.Value.Alike

/-! JSON with sorted keys hides the order in which the entries of mappings come, at every
depth. -/
namespace OverlayBuild.Json

open Value

variable {style : Style} {level : Nat} {v w : Value} {items others : List Value}
  {entries moved fields : List (Value × Value)} {R : Value → Value → Prop}

theorem writeEntries_eq_map :
    writeEntries style level entries = entries.map fun e => (e.1, writeAt style level e.2) := by
  induction entries with
  | nil => rfl
  | cons e entries ih => rw [writeEntries, ih, List.map_cons]

theorem keys_writeEntries : (writeEntries style level entries).map (·.1) = entries.map (·.1) := by
  rw [writeEntries_eq_map, List.map_map]
  rfl

theorem textKeys_writeEntries (texts : TextKeys entries) :
    TextKeys (writeEntries style level entries) := by
  rw [writeEntries_eq_map]
  exact List.forall_mem_map.mpr texts

theorem writeEntries_perm (same : entries.Perm fields) :
    (writeEntries style level entries).Perm (writeEntries style level fields) := by
  rw [writeEntries_eq_map, writeEntries_eq_map]
  exact same.map _

theorem writeAll_congr (related : List.Forall₂ R items others)
    (each : ∀ v ∈ items, ∀ w, R v w → writeAt style level v = writeAt style level w) :
    writeAll style level items = writeAll style level others := by
  have pairs := (List.forall₂_and_left _ _).mpr ⟨each, related⟩
  clear related each
  induction pairs with
  | nil => rfl
  | cons first _ ih => rw [writeAll, writeAll, first.1 _ first.2, ih]

theorem writeEntries_congr (related : List.Forall₂ (fun a b => a.1 = b.1 ∧ R a.2 b.2) entries fields)
    (each : ∀ e ∈ entries, ∀ w, R e.2 w → writeAt style level e.2 = writeAt style level w) :
    writeEntries style level entries = writeEntries style level fields := by
  have pairs := (List.forall₂_and_left _ _).mpr ⟨each, related⟩
  clear related each
  induction pairs with
  | nil => rfl
  | cons first _ ih => rw [writeEntries, writeEntries, first.1 _ first.2.2, first.2.1, ih]

theorem writeAt_map_congr (sorted : style.sorted = true) (texts : TextKeys entries)
    (distinct : (entries.map (·.1)).Nodup)
    (related : List.Forall₂ (fun a b => a.1 = b.1 ∧ R a.2 b.2) entries moved)
    (same : moved.Perm fields)
    (each : ∀ e ∈ entries, ∀ level w, R e.2 w → writeAt style level e.2 = writeAt style level w) :
    writeAt style level (.map entries) = writeAt style level (.map fields) := by
  have parts : writeEntries style (level + 1) entries = writeEntries style (level + 1) moved :=
    writeEntries_congr related fun e mem => each e mem (level + 1)
  have sameOrder : sortByKey (writeEntries style (level + 1) entries) =
      sortByKey (writeEntries style (level + 1) fields) :=
    sortByKey_perm (textKeys_writeEntries texts) (keys_writeEntries ▸ distinct)
      (parts ▸ writeEntries_perm same)
  simp only [writeAt, sorted, if_true, sameOrder]

/-- With sorted keys, values that are alike have one text, or one fault. -/
theorem writeAt_alike (sorted : style.sorted = true) (tidy : Tidy v) (alike : Alike v w) :
    writeAt style level v = writeAt style level w := by
  induction v using nested generalizing w level with
  | leaf v leaf => rw [leaf.alike_iff.mp alike]
  | list items ih =>
    obtain ⟨others, rfl, alike⟩ := alike_list_iff.mp alike
    have each := tidyAll_iff.mp tidy
    rw [writeAt, writeAt, writeAll_congr (alikeAll_iff.mp alike) fun v mem w => ih v mem (each v mem)]
  | tuple items ih =>
    obtain ⟨others, rfl, alike⟩ := alike_tuple_iff.mp alike
    have each := tidyAll_iff.mp tidy
    rw [writeAt, writeAt, writeAll_congr (alikeAll_iff.mp alike) fun v mem w => ih v mem (each v mem)]
  | map entries ih =>
    obtain ⟨fields, moved, rfl, alike, same⟩ := alike_map_iff.mp alike
    obtain ⟨texts, distinct, each⟩ := tidy
    exact writeAt_map_congr sorted texts distinct (alikeEntries_iff.mp alike) same
      fun e mem level w => ih e mem (tidyEntries_iff.mp each e mem)
  | set items =>
    obtain ⟨others, rfl, -⟩ := alike_set_iff.mp alike
    rfl

theorem write_alike (tidy : Tidy v) (alike : Alike v w) :
    write .canonical v = write .canonical w := by
  rw [write, write, writeAt_alike rfl tidy alike]

end OverlayBuild.Json
