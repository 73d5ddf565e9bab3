import OverlayBuild.Proofs.Spec.Document

/-! What pruning leaves of a value. Whether an entry stays depends on what is left of its value, so
that emptiness travels up through mappings. It stops at the items of lists, which all stay, and of
the items only mappings are pruned. Pruning again changes nothing, no mapping that is pruned has a
value that says nothing, and everything else is found where it was. -/
namespace OverlayBuild.Value

/-- Where a mapping holds something: under a key, or in the list under a key. -/
inductive Slot where
  | value (key : Value)
  | item (key : Value) (index : Nat)

def Slot.Holds : Slot → List (Value × Value) → Value → Prop
  | .value k, entries, v => (k, v) ∈ entries
  | .item k i, entries, v => ∃ items, (k, .list items) ∈ entries ∧ items[i]? = some v

/-- What is reached through mappings and through the items of their lists. The innermost slot comes
first. A list that is itself an item is reached, but not what it holds. -/
def Reached (whole : Value) : List Slot → Value → Prop
  | [], v => whole = v
  | slot :: path, v => ∃ entries, Reached whole path (.map entries) ∧ slot.Holds entries v

def IsScalar : Value → Prop
  | .map _ | .list _ => False
  | _ => True

variable {k v w whole : Value} {entries inner outer : List (Value × Value)} {items : List Value}
  {slot : Slot} {path : List Slot}

theorem isVoid_eq_false_iff :
    v.isVoid = false ↔ v ≠ .null ∧ v ≠ .str "" ∧ v ≠ .list [] ∧ v ≠ .map [] := by
  cases v <;> simp [isVoid]

theorem prune_eq_map_iff :
    v.prune = .map inner ↔ ∃ outer, v = .map outer ∧ inner = pruneEntries outer := by
  cases v <;> simp [prune, eq_comm]

theorem prune_eq_list_iff :
    v.prune = .list items ↔ ∃ own, v = .list own ∧ items = own.map pruneItem := by
  cases v <;> simp [prune, pruneItems_eq_map, eq_comm]

theorem IsScalar.prune_eq_iff (scalar : w.IsScalar) : v.prune = w ↔ v = w := by
  cases v with
  | map entries | list items => cases w <;> first | exact scalar.elim | simp [prune]
  | _ => rfl

/-- Entries whose values are pruned and say something all stay as they are. -/
theorem pruneEntries_of_settled (settled : ∀ e ∈ entries, e.2.prune = e.2 ∧ e.2.isVoid = false) :
    pruneEntries entries = entries := by
  have same : (entries.map fun e => (e.1, e.2.prune)) = entries := by
    refine (List.map_congr_left ?_).trans (List.map_id entries)
    intro e mem
    rw [(settled e mem).1]
    rfl
  rw [pruneEntries_eq_filter, same, List.filter_eq_self]
  intro e mem
  rw [(settled e mem).2]
  rfl

theorem prune_prune (v : Value) : v.prune.prune = v.prune := by
  induction v using nested with
  | leaf v leaf =>
    cases v with
    | list items | map entries => exact leaf.elim
    | _ => rfl
  | list items ih =>
    rw [prune, prune, pruneItems_eq_map, pruneItems_eq_map, List.map_map]
    congr 1
    -- Of the items only the mappings are pruned, the second time as well.
    apply List.map_congr_left
    intro v mem
    cases v with
    | map entries => exact ih _ mem
    | _ => rfl
  | tuple items => rfl
  | map entries ih =>
    rw [prune, prune]
    congr 1
    apply pruneEntries_of_settled
    rintro ⟨k, w⟩ mem
    obtain ⟨v, own, rfl, full⟩ := mem_pruneEntries_iff.mp mem
    exact ⟨ih (k, v) own, full⟩
  | set items => rfl

/-- What pruning leaves in a slot of a mapping, if it leaves something there. -/
def Slot.Keeps : Slot → Value → Value → Prop
  | .value _, v, w => v.prune = w ∧ w.isVoid = false
  | .item _ _, v, w => v.pruneItem = w

/-- A list that has items says something, whatever the items are. Hence they all stay. -/
theorem Slot.holds_pruneEntries_iff :
    slot.Holds (pruneEntries entries) w ↔ ∃ v, slot.Holds entries v ∧ slot.Keeps v w := by
  cases slot with
  | value k => exact mem_pruneEntries_iff
  | item k i =>
    constructor
    · rintro ⟨items, mem, there⟩
      obtain ⟨v, own, pruned, -⟩ := mem_pruneEntries_iff.mp mem
      obtain ⟨items, rfl, rfl⟩ := prune_eq_list_iff.mp pruned
      rw [List.getElem?_map, Option.map_eq_some_iff] at there
      obtain ⟨v, there, left⟩ := there
      exact ⟨v, ⟨items, own, there⟩, left⟩
    · rintro ⟨v, ⟨items, own, there⟩, rfl⟩
      have left : (items.map pruneItem)[i]? = some v.pruneItem := by
        rw [List.getElem?_map, there, Option.map_some]
      have full : (Value.list (items.map pruneItem)).isVoid = false := by
        cases items with
        | nil => contradiction
        | cons v items => rfl
      have pruned := prune_eq_list_iff.mpr ⟨items, rfl, rfl⟩
      exact ⟨_, mem_pruneEntries_iff.mpr ⟨_, own, pruned, full⟩, left⟩

theorem Slot.Holds.ne_nil (holds : slot.Holds entries v) : entries ≠ [] := by
  rintro rfl
  cases slot with
  | value k => exact List.not_mem_nil holds
  | item k i =>
    obtain ⟨items, mem, -⟩ := holds
    exact List.not_mem_nil mem

/-- A mapping that says something is kept in each slot. -/
theorem Slot.keeps_map (full : pruneEntries outer ≠ []) :
    slot.Keeps (.map outer) (.map (pruneEntries outer)) := by
  cases slot with
  | value k =>
    refine ⟨by rw [prune], ?_⟩
    rw [isVoid, List.isEmpty_eq_false_iff]
    exact full
  | item k i => rfl

theorem Slot.Keeps.of_map (keeps : slot.Keeps v (.map inner)) :
    ∃ outer, v = .map outer ∧ inner = pruneEntries outer := by
  cases slot with
  | value k => exact prune_eq_map_iff.mp keeps.1
  | item k i =>
    cases v with
    | map outer => exact ⟨outer, rfl, (Value.map.inj keeps).symm⟩
    | _ => contradiction

theorem Reached.of_prune_map (reached : Reached whole.prune path (.map inner)) :
    ∃ outer, Reached whole path (.map outer) ∧ inner = pruneEntries outer := by
  induction path generalizing inner with
  | nil => exact prune_eq_map_iff.mp reached
  | cons slot path ih =>
    obtain ⟨left, pruned, holds⟩ := reached
    obtain ⟨entries, around, rfl⟩ := ih pruned
    obtain ⟨v, holds, keeps⟩ := Slot.holds_pruneEntries_iff.mp holds
    obtain ⟨outer, rfl, same⟩ := keeps.of_map
    exact ⟨outer, ⟨entries, around, holds⟩, same⟩

/-- A mapping of which something is left stays, and with it all mappings and lists around it. -/
theorem Reached.prune_map (reached : Reached whole path (.map outer))
    (full : pruneEntries outer ≠ []) : Reached whole.prune path (.map (pruneEntries outer)) := by
  induction path generalizing outer with
  | nil => exact prune_eq_map_iff.mpr ⟨outer, reached, rfl⟩
  | cons slot path ih =>
    obtain ⟨entries, around, holds⟩ := reached
    -- The slot is kept, so that something is left of the mapping around it too.
    have left := Slot.holds_pruneEntries_iff.mpr ⟨_, holds, Slot.keeps_map full⟩
    exact ⟨_, ih around left.ne_nil, left⟩

/-- What is reached after pruning is what pruning leaves of what was reached, in the same slots. -/
theorem reached_prune_iff :
    Reached whole.prune (slot :: path) w ↔ ∃ v, Reached whole (slot :: path) v ∧ slot.Keeps v w := by
  constructor
  · rintro ⟨left, pruned, holds⟩
    obtain ⟨entries, around, rfl⟩ := pruned.of_prune_map
    obtain ⟨v, holds, keeps⟩ := Slot.holds_pruneEntries_iff.mp holds
    exact ⟨v, ⟨entries, around, holds⟩, keeps⟩
  · rintro ⟨v, ⟨entries, around, holds⟩, keeps⟩
    have left := Slot.holds_pruneEntries_iff.mpr ⟨v, holds, keeps⟩
    exact ⟨_, around.prune_map left.ne_nil, left⟩

theorem Slot.Keeps.of_list (keeps : slot.Keeps v (.list items)) :
    ∃ own, v = .list own ∧ items.length = own.length := by
  cases slot with
  | value k =>
    obtain ⟨own, rfl, rfl⟩ := prune_eq_list_iff.mp keeps.1
    exact ⟨own, rfl, List.length_map _⟩
  | item k i =>
    cases v with
    | map outer => contradiction
    | _ => exact ⟨items, keeps, rfl⟩

/-- A list that has items is kept in each slot, with as many items. -/
theorem Slot.keeps_list (full : items ≠ []) :
    ∃ left, slot.Keeps (.list items) (.list left) ∧ left.length = items.length := by
  cases slot with
  | value k =>
    refine ⟨items.map pruneItem, ⟨prune_eq_list_iff.mpr ⟨items, rfl, rfl⟩, ?_⟩, List.length_map _⟩
    rw [isVoid, List.isEmpty_eq_false_iff]
    exact fun none => full (List.map_eq_nil_iff.mp none)
  | item k i => exact ⟨items, rfl, rfl⟩

theorem pruneItem_eq_iff (other : ∀ entries, w ≠ .map entries) : v.pruneItem = w ↔ v = w := by
  cases v with
  | map outer => exact iff_of_false (other _ ·.symm) (other _ ·.symm)
  | _ => rfl

theorem IsScalar.keeps_iff (scalar : w.IsScalar) (full : w.isVoid = false) :
    slot.Keeps v w ↔ v = w := by
  cases slot with
  | value k => exact (and_iff_left full).trans scalar.prune_eq_iff
  | item k i => exact pruneItem_eq_iff fun entries same => by rw [same] at scalar; exact scalar

theorem Reached.of_prune_list (reached : Reached whole.prune path (.list items)) :
    ∃ own, Reached whole path (.list own) ∧ items.length = own.length := by
  cases path with
  | nil =>
    obtain ⟨own, same, rfl⟩ := prune_eq_list_iff.mp reached
    exact ⟨own, same, List.length_map _⟩
  | cons slot path =>
    obtain ⟨v, before, keeps⟩ := reached_prune_iff.mp reached
    obtain ⟨own, rfl, same⟩ := keeps.of_list
    exact ⟨own, before, same⟩

theorem Reached.prune_list (reached : Reached whole path (.list items)) (full : items ≠ []) :
    ∃ left, Reached whole.prune path (.list left) ∧ left.length = items.length := by
  cases path with
  | nil => exact ⟨_, prune_eq_list_iff.mpr ⟨items, reached, rfl⟩, List.length_map _⟩
  | cons slot path =>
    obtain ⟨left, keeps, same⟩ := Slot.keeps_list full
    exact ⟨left, reached_prune_iff.mpr ⟨_, reached, keeps⟩, same⟩

theorem reached_prune_item_iff {i : Nat} (other : ∀ entries, v ≠ .map entries) :
    Reached whole.prune (.item k i :: path) v ↔ Reached whole (.item k i :: path) v := by
  rw [reached_prune_iff]
  simp only [Slot.Keeps, pruneItem_eq_iff other, exists_eq_right]

theorem IsScalar.reached_prune_iff (scalar : v.IsScalar) (full : v.isVoid = false) :
    Reached whole.prune path v ↔ Reached whole path v := by
  cases path with
  | nil => exact scalar.prune_eq_iff
  | cons slot path =>
    rw [Value.reached_prune_iff]
    simp only [scalar.keeps_iff full, exists_eq_right]

/-- What a value looks like when all is dropped that says nothing, and nothing else. -/
structure NormalForm (whole left : Value) : Prop where
  /-- No mapping has a value that says nothing. -/
  full : ∀ path entries, Reached left path (.map entries) → ∀ k v, (k, v) ∈ entries →
    v ≠ .null ∧ v ≠ .str "" ∧ v ≠ .list [] ∧ v ≠ .map []
  /-- The keys of a mapping are some of those that it had, in their order. -/
  ordered : ∀ path entries, Reached left path (.map entries) →
    ∃ own, Reached whole path (.map own) ∧ (entries.map (·.1)).Sublist (own.map (·.1))
  /-- A list has as many items as it had. -/
  length : ∀ path items, Reached left path (.list items) →
    ∃ own, Reached whole path (.list own) ∧ items.length = own.length
  /-- A list that has items stays. -/
  lists : ∀ path own, Reached whole path (.list own) → own ≠ [] →
    ∃ items, Reached left path (.list items) ∧ items.length = own.length
  /-- An item that is no mapping stays as it is, be it a list or a value that says nothing. -/
  items : ∀ path k i v, (∀ entries, v ≠ .map entries) →
    (Reached left (.item k i :: path) v ↔ Reached whole (.item k i :: path) v)
  /-- Scalars that say something stay where they are, and no others come in. -/
  scalars : ∀ path v, v.IsScalar → v ≠ .null → v ≠ .str "" →
    (Reached left path v ↔ Reached whole path v)

/-- Pruning a mapping leaves its normal form, which pruning does not change. -/
theorem prune_normalForm (entries : List (Value × Value)) :
    (prune (.map entries)).prune = prune (.map entries) ∧
      NormalForm (.map entries) (prune (.map entries)) := by
  refine ⟨prune_prune _, ?_, ?_, fun _ _ => Reached.of_prune_list, fun _ _ => Reached.prune_list,
    fun _ _ _ _ => reached_prune_item_iff, ?_⟩
  · intro path inner reached k w mem
    obtain ⟨outer, -, rfl⟩ := reached.of_prune_map
    obtain ⟨v, -, -, full⟩ := mem_pruneEntries_iff.mp mem
    exact isVoid_eq_false_iff.mp full
  · intro path inner reached
    obtain ⟨outer, own, rfl⟩ := reached.of_prune_map
    exact ⟨outer, own, keys_pruneEntries_sublist outer⟩
  · intro path v scalar something worded
    apply scalar.reached_prune_iff
    rw [isVoid_eq_false_iff]
    refine ⟨something, worded, ?_, ?_⟩ <;> rintro rfl <;> exact scalar

def layered : List (Value × Value) := [
  (.str "patches", .list [
    .map [(.str "path", .str ""), (.str "target", .map [(.str "kind", .null)])],
    .list [.map [(.str "path", .null)], .str ""],
    .map [(.str "path", .str ""), (.str "target", .map [(.str "kind", .str "Job")])]]),
  (.str "spare", .map [(.str "inner", .map [(.str "items", .list [])])]),
  (.str "count", .int 0)]

example : prune (.map layered) = .map [
    (.str "patches", .list [
      .map [],
      .list [.map [(.str "path", .null)], .str ""],
      .map [(.str "target", .map [(.str "kind", .str "Job")])]]),
    (.str "count", .int 0)] := rfl

def kindPath : List Slot := [.value (.str "kind"), .value (.str "target"), .item (.str "patches") 2]

theorem reached_kind : Reached (.map layered) kindPath (.str "Job") :=
  ⟨_, ⟨_, ⟨_, rfl, _, .head _, rfl⟩, .tail _ (.head _)⟩, .head _⟩

theorem prune_normalForm_layered :
    (prune (.map layered)).prune = prune (.map layered) ∧
    Reached (.map layered) kindPath (.str "Job") ∧
    Reached (prune (.map layered)) kindPath (.str "Job") := by
  obtain ⟨settled, normal⟩ := prune_normalForm layered
  refine ⟨settled, reached_kind, ?_⟩
  exact (normal.scalars kindPath (.str "Job") trivial nofun (by simp)).mpr reached_kind

end OverlayBuild.Value
