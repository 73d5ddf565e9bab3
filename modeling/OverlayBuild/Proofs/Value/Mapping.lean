import OverlayBuild.Proofs.Value.Alike
import OverlayBuild.Value.Mapping

/-! Keys of text. Where they differ, all entries that are put keep their values, and the order of
the entries has no part in what is found. -/
namespace OverlayBuild.Value

variable {key : String} {k v w : Value} {entries others fields pairs done : List (Value × Value)}

theorem find?_cons_self : find? key ((.str key, v) :: entries) = some v := by
  simp [find?]

theorem find?_cons_ne (other : k ≠ .str key) :
    find? key ((k, v) :: entries) = find? key entries := by
  cases k with
  | str s =>
    have apart : s ≠ key := fun same => other (congrArg Value.str same)
    simp [find?, apart]
  | _ => rfl

theorem find?_eq_none (absent : .str key ∉ entries.map (·.1)) : find? key entries = none := by
  induction entries with
  | nil => rfl
  | cons e entries ih =>
    rw [List.map_cons, List.mem_cons, not_or] at absent
    rw [find?_cons_ne (Ne.symm absent.1), ih absent.2]

theorem find?_append_of_not_mem (absent : .str key ∉ entries.map (·.1)) :
    find? key (entries ++ others) = find? key others := by
  induction entries with
  | nil => rfl
  | cons e entries ih =>
    rw [List.map_cons, List.mem_cons, not_or] at absent
    rw [List.cons_append, find?_cons_ne (Ne.symm absent.1), ih absent.2]

theorem find?_eq_some_iff (distinct : (entries.map (·.1)).Nodup) :
    find? key entries = some v ↔ (.str key, v) ∈ entries := by
  induction entries with
  | nil => simp [find?]
  | cons e entries ih =>
    obtain ⟨k, w⟩ := e
    obtain ⟨new, distinct⟩ := List.nodup_cons.mp distinct
    by_cases here : k = .str key
    · subst here
      rw [find?_cons_self, Option.some.injEq, List.mem_cons, Prod.mk.injEq]
      constructor
      · rintro rfl
        exact .inl ⟨rfl, rfl⟩
      · rintro (⟨-, rfl⟩ | mem)
        · rfl
        · exact absurd (List.mem_map_of_mem mem) new
    · rw [find?_cons_ne here, ih distinct, List.mem_cons, Prod.mk.injEq]
      simp [Ne.symm here]

theorem find?_perm (distinct : (entries.map (·.1)).Nodup) (same : entries.Perm others) :
    find? key entries = find? key others := by
  have alsoDistinct := (same.map (·.1)).nodup distinct
  ext v
  rw [find?_eq_some_iff distinct, find?_eq_some_iff alsoDistinct, same.mem_iff]

theorem insert_new {key : Value} (texts : TextKeys pairs) (text : ∃ s, key = .str s)
    (new : key ∉ pairs.map (·.1)) (v : Value) : insert key v pairs = pairs ++ [(key, v)] := by
  induction pairs with
  | nil => rfl
  | cons p pairs ih =>
    obtain ⟨k, w⟩ := p
    obtain ⟨s, rfl⟩ := text
    obtain ⟨t, rfl⟩ : ∃ t, k = .str t := texts _ List.mem_cons_self
    rw [List.map_cons, List.mem_cons, not_or] at new
    have other : sameKey (.str t) (.str s) = false := by
      rw [sameKey_str]
      exact beq_eq_false_iff_ne.mpr fun same => new.1 (by rw [same])
    rw [insert, other, ih (fun e mem => texts e (List.mem_cons_of_mem _ mem)) new.2]
    rfl

theorem foldl_insert (texts : TextKeys (done ++ pairs)) (distinct : ((done ++ pairs).map (·.1)).Nodup) :
    pairs.foldl (fun entries p => insert p.1 p.2 entries) done = done ++ pairs := by
  induction pairs generalizing done with
  | nil => simp
  | cons p pairs ih =>
    have new : p.1 ∉ done.map (·.1) := fun mem => by
      rw [List.map_append, List.nodup_append] at distinct
      exact distinct.2.2 _ mem p.1 (by simp) rfl
    have own : insert p.1 p.2 done = done ++ [p] :=
      insert_new (fun e mem => texts e (List.mem_append_left _ mem)) (texts p (by simp)) new p.2
    rw [List.foldl_cons, own, ih (by simpa using texts) (by simpa using distinct), List.append_assoc]
    rfl

/-- Different texts as keys all keep their values. -/
theorem ofPairs_of_nodup (texts : TextKeys pairs) (distinct : (pairs.map (·.1)).Nodup) :
    ofPairs pairs = pairs :=
  foldl_insert texts distinct

theorem AlikeEntries.keys (alike : AlikeEntries entries fields) :
    entries.map (·.1) = fields.map (·.1) := by
  rw [alikeEntries_iff] at alike
  induction alike with
  | nil => rfl
  | cons both _ ih => rw [List.map_cons, List.map_cons, both.1, ih]

theorem AlikeEntries.field (alike : AlikeEntries entries fields) :
    Alike (field key entries) (field key fields) := by
  rw [alikeEntries_iff] at alike
  induction alike with
  | nil => exact Alike.refl _
  | @cons e f entries fields both _ ih =>
    obtain ⟨k, v⟩ := e
    obtain ⟨l, w⟩ := f
    obtain ⟨rfl, both⟩ := both
    by_cases here : k = .str key
    · subst here
      rw [Value.field, Value.field, find?_cons_self, find?_cons_self]
      exact both
    · rw [Value.field, Value.field, find?_cons_ne here, find?_cons_ne here]
      exact ih

theorem Tidy.field_alike (tidy : Tidy (.map entries)) (alike : Alike (.map entries) (.map others)) :
    Alike (field key entries) (field key others) := by
  obtain ⟨moved, same, order⟩ := alike
  have distinct : (moved.map (·.1)).Nodup := same.keys ▸ tidy.2.1
  have found : field key moved = field key others := by rw [field, field, find?_perm distinct order]
  exact found ▸ same.field

theorem Tidy.entries?_eq_some_iff (tidy : Tidy v) : v.entries? = some entries ↔ v = .map entries := by
  cases v with
  | map own => rw [tidy.entries?_map, Option.some.injEq, Value.map.injEq]
  | _ => simp [entries?]

theorem Tidy.field (tidy : Tidy (.map entries)) : Tidy (field key entries) := by
  obtain ⟨-, distinct, each⟩ := tidy
  rw [Value.field]
  cases found : find? key entries with
  | none => trivial
  | some v => exact tidyEntries_iff.mp each _ ((find?_eq_some_iff distinct).mp found)

theorem Alike.isPresent (alike : Alike v w) : v.isPresent = w.isPresent := by
  have empty {α : Type} {R : α → α → Prop} {items others : List α}
      (each : List.Forall₂ R items others) : (!items.isEmpty) = !others.isEmpty := by
    cases each <;> rfl
  cases v with
  | list items =>
    obtain ⟨others, rfl, all⟩ := alike_list_iff.mp alike
    exact empty (alikeAll_iff.mp all)
  | tuple items =>
    obtain ⟨others, rfl, all⟩ := alike_tuple_iff.mp alike
    exact empty (alikeAll_iff.mp all)
  | map entries =>
    obtain ⟨fields, moved, rfl, all, same⟩ := alike_map_iff.mp alike
    have sameLength := same.isEmpty_eq
    exact (empty (alikeEntries_iff.mp all)).trans (congrArg (!·) sameLength)
  | set items =>
    obtain ⟨others, rfl, same⟩ := alike_set_iff.mp alike
    exact congrArg (!·) same.isEmpty_eq
  | _ => exact congrArg Value.isPresent ((IsLeaf.alike_iff (by trivial)).mp alike)

end OverlayBuild.Value
