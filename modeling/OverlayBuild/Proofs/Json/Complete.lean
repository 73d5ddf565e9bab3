import OverlayBuild.Proofs.Json.Canonical
import OverlayBuild.Proofs.Outcome
import OverlayBuild.Proofs.Value.Every

/-! What has a JSON text: plain trees whose mappings have text as keys and whose integers are
short enough, in every style. -/
namespace OverlayBuild.Json

open Value

variable {style : Style} {level : Nat} {v : Value} {items : List Value}
  {entries : List (Value × Value)}

theorem exists_intText {n : Int} (short : n.natAbs < 10 ^ Number.maxDigits) :
    ∃ cs, intText n = .ok cs :=
  ⟨Text.integer n, by rw [intText, isOversized_int short]; rfl⟩

theorem exists_writeAll (each : ∀ v ∈ items, ∃ cs, writeAt style level v = .ok cs) :
    ∃ texts, writeAll style level items = .ok texts := by
  induction items with
  | nil => exact ⟨[], rfl⟩
  | cons v items ih =>
    obtain ⟨⟨cs, own⟩, each⟩ := List.forall_mem_cons.mp each
    obtain ⟨texts, rest⟩ := ih each
    exact ⟨cs :: texts, by rw [writeAll, own, rest]; rfl⟩

/-- Entries under text are written when their values are, sorted or not. -/
theorem exists_writeAt_map (texts : TextKeys entries)
    (each : ∀ e ∈ entries, ∃ cs, writeAt style (level + 1) e.2 = .ok cs) :
    ∃ cs, writeAt style level (.map entries) = .ok cs := by
  have written : ∀ e ∈ writeEntries style (level + 1) entries, ∃ cs, entryText style e = .ok cs := by
    rw [writeEntries_eq_map]
    refine List.forall_mem_map.mpr fun e mem => ?_
    obtain ⟨key, text⟩ := texts e mem
    obtain ⟨cs, value⟩ := each e mem
    exact ⟨_, by rw [entryText, text, value]; rfl⟩
  cases sorted : style.sorted with
  | false =>
    obtain ⟨made, all⟩ := exists_mapM written
    refine ⟨enclose style level '\x7b' '\x7d' made, ?_⟩
    simp [writeAt, sorted, all, bind, Except.bind, pure, Except.pure]
  | true =>
    have keys : TextKeys (writeEntries style (level + 1) entries) := textKeys_writeEntries texts
    obtain ⟨ordered, done, -, same⟩ := sortByKey_spec keys
    obtain ⟨made, all⟩ := exists_mapM fun e mem => written e (same.mem_iff.mp mem)
    refine ⟨enclose style level '\x7b' '\x7d' made, ?_⟩
    simp [writeAt, sorted, done, all, Except.mapError, bind, Except.bind, pure, Except.pure]

theorem exists_writeAt (writable : Every IsWritable v) : ∃ cs, writeAt style level v = .ok cs := by
  induction v using nested generalizing level with
  | leaf v leaf =>
    obtain ⟨data, tree, -, short⟩ := leaf.every_iff.mp writable
    cases v with
    | null | bool b | float x | str s => exact ⟨_, rfl⟩
    | int n => exact exists_intText short
    | bytes bs | date d | datetime t => exact data.elim
    | loop up => exact tree.elim
    | list items | tuple items | map entries | set items => exact leaf.elim
  | list items ih =>
    obtain ⟨-, each⟩ := every_list_iff.mp writable
    obtain ⟨texts, all⟩ : ∃ texts, writeAll style (level + 1) items = .ok texts :=
      exists_writeAll fun v mem => ih v mem (each v mem)
    exact ⟨_, by rw [writeAt, all]; rfl⟩
  | map entries ih =>
    obtain ⟨own, each⟩ := every_map_iff.mp writable
    exact exists_writeAt_map own.keys fun e mem => ih e mem (each e mem).2
  | tuple items ih => exact writable.own.data.elim
  | set items => exact writable.own.data.elim

theorem exists_write (style : Style) (writable : Every IsWritable v) :
    ∃ text, write style v = .ok text := by
  obtain ⟨cs, written⟩ : ∃ cs, writeAt style 0 v = .ok cs := exists_writeAt writable
  exact ⟨String.ofList cs, by rw [write, written]; rfl⟩

end OverlayBuild.Json
