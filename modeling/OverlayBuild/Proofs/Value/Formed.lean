import OverlayBuild.Proofs.Value.Every

/-! The values that can be given: references lead to containers around them, floating point
numbers have 64 bits and integers can be written out. What a container holds is such a value
again once it is complete in itself. -/
namespace OverlayBuild

/-- The integer and the exponent are no larger than 64 bits have room for. -/
def Binary64.InRange : Binary64 → Prop
  | .finite _ mantissa exponent => mantissa < 2 ^ 53 ∧ exponent ≤ maxExponent
  | _ => True

namespace Value

mutual
/-- References lead to one of the `depth` containers around the value, or to one within it.
Keys and members of sets hold none that leads outside. -/
def WellFormed (depth : Nat) : Value → Prop
  | .int n => n.natAbs < 10 ^ Number.maxDigits
  | .float x => x.InRange
  | .list items | .tuple items => WellFormedAll (depth + 1) items
  | .map entries => WellFormedEntries (depth + 1) entries
  | .set items => WellFormedAll 0 items
  | .loop up => up < depth
  | _ => True
termination_by structural v => v
def WellFormedAll (depth : Nat) : List Value → Prop
  | [] => True
  | v :: items => WellFormed depth v ∧ WellFormedAll depth items
termination_by structural items => items
def WellFormedEntries (depth : Nat) : List (Value × Value) → Prop
  | [] => True
  | (k, v) :: entries => (WellFormed 0 k ∧ WellFormed depth v) ∧ WellFormedEntries depth entries
termination_by structural entries => entries
end

variable {v whole : Value} {items : List Value} {entries : List (Value × Value)}
  {depth deeper : Nat}

theorem wellFormedAll_iff : WellFormedAll depth items ↔ ∀ v ∈ items, WellFormed depth v := by
  induction items with
  | nil => simp [WellFormedAll]
  | cons v items ih => simp [WellFormedAll, ih]

theorem wellFormedEntries_iff :
    WellFormedEntries depth entries ↔
      ∀ e ∈ entries, WellFormed 0 e.1 ∧ WellFormed depth e.2 := by
  induction entries with
  | nil => simp [WellFormedEntries]
  | cons e entries ih => simp [WellFormedEntries, ih]

/-- Deeper within other containers, the same references lead to the same places. -/
theorem WellFormed.mono (formed : WellFormed depth v) (le : depth ≤ deeper) :
    WellFormed deeper v := by
  have all {items : List Value} {depth deeper : Nat} (formed : WellFormedAll depth items)
      (le : depth ≤ deeper)
      (ih : ∀ v ∈ items, ∀ {depth deeper}, WellFormed depth v → depth ≤ deeper → WellFormed deeper v) :
      WellFormedAll deeper items :=
    wellFormedAll_iff.mpr fun v mem => ih v mem (wellFormedAll_iff.mp formed v mem) le
  induction v using nested generalizing depth deeper with
  | leaf v leaf =>
    cases v with
    | loop up => exact Nat.lt_of_lt_of_le formed le
    | list items | tuple items | map entries | set items => exact leaf.elim
    | null | bool b | int n | float x | str s | bytes bs | date d | datetime t => exact formed
  | list items ih => exact all formed (Nat.succ_le_succ le) ih
  | tuple items ih => exact all formed (Nat.succ_le_succ le) ih
  | map entries ih =>
    apply wellFormedEntries_iff.mpr
    intro e mem
    obtain ⟨key, own⟩ := wellFormedEntries_iff.mp formed e mem
    exact ⟨key, ih e mem own (Nat.succ_le_succ le)⟩
  | set items => exact formed

theorem mem_tieAll : v ∈ tieAll whole depth items ↔ ∃ w ∈ items, tie whole depth w = v := by
  induction items with
  | nil => simp [tieAll]
  | cons w items ih => simp [tieAll, ih, eq_comm]

theorem mem_tieEntries {e : Value × Value} :
    e ∈ tieEntries whole depth entries ↔ ∃ f ∈ entries, (f.1, tie whole depth f.2) = e := by
  induction entries with
  | nil => simp [tieEntries]
  | cons f entries ih => simp [tieEntries, ih, eq_comm]

/-- With the outermost container in the place of the references to it, none is left that leads
outside. -/
theorem WellFormed.tie (formed : WellFormed (depth + 1) v) (around : WellFormed 0 whole) :
    WellFormed depth (tie whole depth v) := by
  have all {items : List Value} {depth : Nat} (formed : WellFormedAll (depth + 1) items)
      (ih : ∀ v ∈ items, ∀ {depth},
        WellFormed (depth + 1) v → WellFormed depth (Value.tie whole depth v)) :
      WellFormedAll depth (tieAll whole depth items) := by
    apply wellFormedAll_iff.mpr
    intro v mem
    obtain ⟨w, own, rfl⟩ := mem_tieAll.mp mem
    exact ih w own (wellFormedAll_iff.mp formed w own)
  induction v using nested generalizing depth with
  | leaf v leaf =>
    cases v with
    | loop up =>
      rw [Value.tie]
      split
      · exact around.mono (Nat.zero_le depth)
      · rename_i other
        exact Nat.lt_of_le_of_ne (Nat.le_of_lt_succ formed) other
    | list items | tuple items | map entries | set items => exact leaf.elim
    | null | bool b | int n | float x | str s | bytes bs | date d | datetime t => exact formed
  | list items ih => exact all formed ih
  | tuple items ih => exact all formed ih
  | map entries ih =>
    apply wellFormedEntries_iff.mpr
    intro e mem
    obtain ⟨f, own, rfl⟩ := mem_tieEntries.mp mem
    obtain ⟨key, value⟩ := wellFormedEntries_iff.mp formed f own
    exact ⟨key, ih f own value⟩
  | set items => exact formed

theorem WellFormed.entries? (formed : WellFormed 0 v) (mapping : v.entries? = some entries) :
    WellFormedEntries 0 entries := by
  cases v with
  | map own =>
    obtain rfl := Option.some.inj mapping
    apply wellFormedEntries_iff.mpr
    intro e mem
    obtain ⟨f, inside, rfl⟩ := mem_tieEntries.mp mem
    obtain ⟨key, value⟩ := wellFormedEntries_iff.mp formed f inside
    exact ⟨key, value.tie formed⟩
  | _ => exact nomatch mapping

theorem WellFormed.members? (formed : WellFormed 0 v) (sequence : v.members? = some items) :
    WellFormedAll 0 items := by
  have tied {own : List Value} (each : WellFormedAll 1 own) : WellFormedAll 0 (tieAll v 0 own) := by
    apply wellFormedAll_iff.mpr
    intro w mem
    obtain ⟨u, inside, rfl⟩ := mem_tieAll.mp mem
    exact (wellFormedAll_iff.mp each u inside).tie formed
  cases v with
  | list own | tuple own =>
    obtain rfl := Option.some.inj sequence
    exact tied formed
  | set own =>
    obtain rfl := Option.some.inj sequence
    exact formed
  | _ => exact nomatch sequence

theorem WellFormedEntries.field (formed : WellFormedEntries 0 entries) (key : String) :
    WellFormed 0 (field key entries) := by
  rw [Value.field, find?]
  cases found : entries.find? _ with
  | none => trivial
  | some e => exact (wellFormedEntries_iff.mp formed e (List.mem_of_find?_eq_some found)).2

mutual
/-- No integer is too long to be written out, in keys and in sets either. -/
theorem WellFormed.isOversized {depth : Nat} : (v : Value) → WellFormed depth v → v.isOversized = false
  | .int _, formed => isOversized_int formed
  | .list items, formed | .tuple items, formed => WellFormedAll.anyOversized items formed
  | .set items, formed => WellFormedAll.anyOversized items formed
  | .map entries, formed => WellFormedEntries.anyEntryOversized entries formed
  | .null, _ | .bool _, _ | .float _, _ | .str _, _ | .bytes _, _ | .date _, _ | .datetime _, _
  | .loop _, _ => rfl
termination_by structural v => v
theorem WellFormedAll.anyOversized {depth : Nat} :
    (items : List Value) → WellFormedAll depth items → anyOversized items = false
  | [], _ => rfl
  | _ :: _, ⟨own, rest⟩ =>
    Bool.or_eq_false_iff.mpr ⟨own.isOversized, rest.anyOversized⟩
termination_by structural items => items
theorem WellFormedEntries.anyEntryOversized {depth : Nat} :
    (entries : List (Value × Value)) → WellFormedEntries depth entries →
      anyEntryOversized entries = false
  | [], _ => rfl
  | (_, _) :: _, ⟨⟨key, own⟩, rest⟩ =>
    Bool.or_eq_false_iff.mpr
      ⟨Bool.or_eq_false_iff.mpr ⟨key.isOversized, own.isOversized⟩, rest.anyEntryOversized⟩
termination_by structural entries => entries
end

theorem anyOversized_eq_false_iff :
    anyOversized items = false ↔ ∀ v ∈ items, v.isOversized = false := by
  induction items with
  | nil => simp [anyOversized]
  | cons v items ih => simp [anyOversized, ih]

theorem anyEntryOversized_eq_false_iff :
    anyEntryOversized entries = false ↔
      ∀ e ∈ entries, e.1.isOversized = false ∧ e.2.isOversized = false := by
  induction entries with
  | nil => simp [anyEntryOversized]
  | cons e entries ih => simp [anyEntryOversized, ih, and_assoc]

/-- Putting a container in the place of the references to it makes no integer longer. -/
theorem isOversized_tie (own : v.isOversized = false) (around : whole.isOversized = false) :
    (tie whole depth v).isOversized = false := by
  have all {items : List Value} {depth : Nat} (short : anyOversized items = false)
      (ih : ∀ v ∈ items, ∀ {depth},
        v.isOversized = false → (Value.tie whole depth v).isOversized = false) :
      anyOversized (tieAll whole depth items) = false := by
    apply anyOversized_eq_false_iff.mpr
    intro v mem
    obtain ⟨w, inside, rfl⟩ := mem_tieAll.mp mem
    exact ih w inside (anyOversized_eq_false_iff.mp short w inside)
  induction v using nested generalizing depth with
  | leaf v leaf =>
    cases v with
    | loop up =>
      rw [Value.tie]
      split
      · exact around
      · exact own
    | list items | tuple items | map entries | set items => exact leaf.elim
    | null | bool b | int n | float x | str s | bytes bs | date d | datetime t => exact own
  | list items ih => exact all own ih
  | tuple items ih => exact all own ih
  | map entries ih =>
    apply anyEntryOversized_eq_false_iff.mpr
    intro e mem
    obtain ⟨f, inside, rfl⟩ := mem_tieEntries.mp mem
    obtain ⟨key, value⟩ := anyEntryOversized_eq_false_iff.mp own f inside
    exact ⟨key, ih f inside value⟩
  | set items => exact own

/-- No field of a mapping is longer than the mapping. -/
theorem isOversized_field (short : v.isOversized = false) (mapping : v.entries? = some entries)
    (key : String) : (field key entries).isOversized = false := by
  rw [Value.field, find?]
  cases found : entries.find? _ with
  | none => rfl
  | some e =>
    cases v with
    | map own =>
      obtain rfl := Option.some.inj mapping
      obtain ⟨f, inside, rfl⟩ := mem_tieEntries.mp (List.mem_of_find?_eq_some found)
      exact isOversized_tie (anyEntryOversized_eq_false_iff.mp short f inside).2 short
    | _ => exact nomatch mapping

end Value

end OverlayBuild
