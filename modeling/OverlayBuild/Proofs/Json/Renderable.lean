import OverlayBuild.Proofs.Json.Readable
import OverlayBuild.Proofs.Value.Every
import OverlayBuild.Proofs.Value.Sorting

/-! Which values have a canonical text. Mappings are sorted before their keys become text, so
that the keys of each must be of one kind; and all that is in the value must have a text itself.
Where there is none, the failure tells of a part that spoils the value. -/
namespace OverlayBuild

namespace Value

variable {v : Value} {ks : List Value}

/-- Text, numbers and null, which become text as keys. -/
def IsName : Value → Prop
  | .null | .bool _ | .int _ | .float _ | .str _ => True
  | _ => False

/-- Keys that are all text, or all numbers, or null alone. -/
def KeysFit (ks : List Value) : Prop := OfKind .text ks ∨ OfKind .number ks ∨ ks = [.null]

/-- Has a text as far as it goes itself: it is none of bytes, dates, moments, sets and
references back, and no mapping with other keys than text, numbers or null alone. -/
def IsRenderable : Value → Prop
  | .bytes _ | .date _ | .datetime _ | .set _ | .loop _ => False
  | .map entries => KeysFit (keys entries)
  | _ => True

theorem isName_iff :
    v.IsName ↔ v = .null ∨ v.keyKind? = some .text ∨ v.keyKind? = some .number := by
  cases v <;> simp [IsName, keyKind?]

theorem IsName.every_isRenderable (name : v.IsName) : v.Every IsRenderable := by
  cases v <;> first | exact name.elim | exact trivial

/-- Keys fit when they can be sorted and become text. -/
theorem keysFit_iff :
    KeysFit ks ↔ (ks.length ≤ 1 ∨ ∃ kind, OfKind kind ks) ∧ ∀ k ∈ ks, k.IsName := by
  constructor
  · rintro (texts | numbers | rfl)
    · exact ⟨.inr ⟨_, texts⟩, fun k mem => isName_iff.mpr (.inr (.inl (texts k mem)))⟩
    · exact ⟨.inr ⟨_, numbers⟩, fun k mem => isName_iff.mpr (.inr (.inr (numbers k mem)))⟩
    · exact ⟨.inl (Nat.le_refl _), List.forall_mem_singleton.mpr trivial⟩
  · rintro ⟨sorts, names⟩
    match ks, sorts with
    | [], _ => exact .inl nofun
    | [k], _ =>
      rcases isName_iff.mp (names k List.mem_cons_self) with rfl | text | number
      · exact .inr (.inr rfl)
      · exact .inl (List.forall_mem_singleton.mpr text)
      · exact .inr (.inl (List.forall_mem_singleton.mpr number))
    | k :: l :: ks, .inl few => simp at few
    | k :: l :: ks, .inr ⟨kind, ofKind⟩ =>
      have first : k.keyKind? = some kind := ofKind k List.mem_cons_self
      rcases isName_iff.mp (names k List.mem_cons_self) with rfl | text | number
      · contradiction
      · exact .inl (Option.some.inj (first.symm.trans text) ▸ ofKind)
      · exact .inr (.inl (Option.some.inj (first.symm.trans number) ▸ ofKind))

end Value

namespace Json

open Value

variable {level : Nat} {v key : Value} {items : List Value} {entries : List (Value × Value)}
  {fault : Fault} {cs : List Char}

/-- Parts that have no text themselves, with what is said of them. -/
inductive Spoils : Fault → Value → Prop
  /-- A container that holds itself. -/
  | circular (up : Nat) : Spoils .circular (.loop up)
  | bytes (bs : List UInt8) : Spoils (.value "bytes") (.bytes bs)
  | date (d : Date) : Spoils (.value "date") (.date d)
  | datetime (t : DateTime) : Spoils (.value "datetime") (.datetime t)
  | set (items : List Value) : Spoils (.value "set") (.set items)
  | unordered {cause : Unordered} {entries : List (Value × Value)}
      (clash : Clash cause (Value.keys entries)) : Spoils (.unordered cause) (.map entries)
  | key {key : Value} {entries : List (Value × Value)} (mem : key ∈ Value.keys entries)
      (odd : ¬ key.IsName) : Spoils (.key key.fullTypeName) (.map entries)
  | oversized {n : Int} (long : ¬ (Value.int n).IsShort) : Spoils .oversized (.int n)

theorem Spoils.not_isRenderable (spoils : Spoils fault v) (short : v.IsShort) : ¬ v.IsRenderable := by
  cases spoils with
  | circular up | bytes bs | date d | datetime t | set items => exact id
  | unordered clash => exact fun fit => clash.not_sorts (keysFit_iff.mp fit).1
  | key mem odd => exact fun fit => odd ((keysFit_iff.mp fit).2 _ mem)
  | oversized long => exact absurd short long

/-! What a failure tells. -/

theorem intText_eq_error {n : Int} (failed : intText n = .error fault) : Spoils fault (.int n) := by
  obtain rfl : fault = .oversized := by
    rw [intText] at failed
    generalize (Value.int n).isOversized = long at failed
    cases long with
    | true => exact (Except.error.inj failed).symm
    | false => contradiction
  refine .oversized fun short => ?_
  rw [intText, isOversized_int short] at failed
  contradiction

theorem keyText_eq_error (failed : keyText .canonical key = .error fault) :
    Spoils fault key ∨ ¬ key.IsName ∧ fault = .key key.fullTypeName := by
  cases key with
  | null | bool b | float x | str s => contradiction
  | int n =>
    rw [keyText] at failed
    exact .inl (intText_eq_error (map_eq_error_iff.mp failed))
  | _ => exact .inr ⟨id, (Except.error.inj failed).symm⟩

theorem exists_of_writeAll_eq_error (failed : writeAll .canonical level items = .error fault) :
    ∃ v ∈ items, writeAt .canonical level v = .error fault := by
  induction items with
  | nil => contradiction
  | cons v items ih =>
    rcases bind_eq_error_iff.mp failed with own | ⟨text, -, failed⟩
    · exact ⟨v, List.mem_cons_self, own⟩
    · rcases bind_eq_error_iff.mp failed with failed | ⟨texts, -, failed⟩
      · obtain ⟨w, mem, own⟩ := ih failed
        exact ⟨w, List.mem_cons_of_mem _ mem, own⟩
      · contradiction

/-- A mapping is sorted by its keys before any of them becomes text. -/
theorem writeAt_map :
    writeAt .canonical level (.map entries) = (do
      let ordered ← (sortByKey (writeEntries .canonical (level + 1) entries)).mapError .unordered
      return enclose .canonical level '\x7b' '\x7d' (← ordered.mapM (entryText .canonical))) :=
  rfl

theorem exists_of_writeAt_map_eq_error
    (failed : writeAt .canonical level (.map entries) = .error fault) :
    Spoils fault (.map entries) ∨
      ∃ e ∈ entries, Spoils fault e.1 ∨ writeAt .canonical (level + 1) e.2 = .error fault := by
  rw [writeAt_map] at failed
  rcases bind_eq_error_iff.mp failed with failed | ⟨ordered, done, failed⟩
  · obtain ⟨cause, unsorted, rfl⟩ := mapError_eq_error_iff.mp failed
    have clash := clash_of_sortByKey unsorted
    rw [keys, keys_writeEntries] at clash
    exact .inl (.unordered clash)
  · rcases bind_eq_error_iff.mp failed with failed | ⟨texts, -, failed⟩
    · obtain ⟨before, own, after, rfl, -, failed⟩ := mapM_eq_error_iff.mp failed
      have same := sortByKey_perm_of_ok (mapError_eq_ok_iff.mp done)
      have held : own ∈ writeEntries .canonical (level + 1) entries := same.mem_iff.mp (by simp)
      rw [writeEntries_eq_map] at held
      obtain ⟨e, mem, rfl⟩ := List.mem_map.mp held
      rcases bind_eq_error_iff.mp failed with failed | ⟨key, -, failed⟩
      · rcases keyText_eq_error failed with spoils | ⟨odd, rfl⟩
        · exact .inr ⟨e, mem, .inl spoils⟩
        · exact .inl (.key (List.mem_map_of_mem mem) odd)
      · rcases bind_eq_error_iff.mp failed with failed | ⟨text, -, failed⟩
        · exact .inr ⟨e, mem, .inr failed⟩
        · contradiction
    · contradiction

/-- A failure tells of a part that spoils the value. -/
theorem has_spoils (failed : writeAt .canonical level v = .error fault) : v.Has (Spoils fault) := by
  intro clear
  induction v using nested generalizing level with
  | leaf v leaf =>
    have own := leaf.every_iff.mp clear
    cases v with
    | null | bool b | float x | str s => contradiction
    | int n => exact own (intText_eq_error failed)
    | bytes bs => exact own (Except.error.inj failed ▸ .bytes bs)
    | date d => exact own (Except.error.inj failed ▸ .date d)
    | datetime t => exact own (Except.error.inj failed ▸ .datetime t)
    | loop up => exact own (Except.error.inj failed ▸ .circular up)
    | list items | tuple items | map entries | set items => exact leaf.elim
  | list items ih =>
    rcases bind_eq_error_iff.mp failed with failed | ⟨texts, -, failed⟩
    · obtain ⟨v, mem, failed⟩ := exists_of_writeAll_eq_error failed
      exact ih v mem failed ((every_list_iff.mp clear).2 v mem)
    · contradiction
  | tuple items ih =>
    rcases bind_eq_error_iff.mp failed with failed | ⟨texts, -, failed⟩
    · obtain ⟨v, mem, failed⟩ := exists_of_writeAll_eq_error failed
      exact ih v mem failed ((every_tuple_iff.mp clear).2 v mem)
    · contradiction
  | map entries ih =>
    obtain ⟨own, each⟩ := every_map_iff.mp clear
    rcases exists_of_writeAt_map_eq_error failed with spoils | ⟨e, mem, spoils | failed⟩
    · exact own spoils
    · exact (each e mem).1.own spoils
    · exact ih e mem failed (each e mem).2
  | set items => exact clear.own (Except.error.inj failed ▸ .set items)

/-! What a text tells. -/

theorem isName_of_keyText (made : keyText .canonical key = .ok cs) : key.IsName := by
  cases key <;> first | exact trivial | contradiction

theorem entryText_eq_ok {text : Except Fault (List Char)}
    (made : entryText .canonical (key, text) = .ok cs) :
    ∃ k t, keyText .canonical key = .ok k ∧ text = .ok t ∧ cs = k ++ ':' :: t := by
  obtain ⟨k, named, made⟩ := bind_eq_ok_iff.mp made
  obtain ⟨t, own, made⟩ := bind_eq_ok_iff.mp made
  obtain rfl := Except.ok.inj made
  exact ⟨k, t, named, own, by simp [Style.canonical]⟩

theorem writeAt_list_eq_ok (made : writeAt .canonical level (.list items) = .ok cs) :
    ∃ texts, List.Forall₂ (fun v t => writeAt .canonical (level + 1) v = .ok t) items texts ∧
      cs = '[' :: separated texts ++ [']'] := by
  obtain ⟨texts, all, made⟩ := bind_eq_ok_iff.mp made
  exact ⟨texts, writeAll_eq_ok_iff.mp all, enclose_canonical ▸ (Except.ok.inj made).symm⟩

/-- The entries of a mapping are written in some order, each as its key, a colon and its value. -/
theorem writeAt_map_eq_ok (made : writeAt .canonical level (.map entries) = .ok cs) :
    KeysFit (keys entries) ∧ ∃ moved texts, moved.Perm entries ∧
      List.Forall₂ (fun e s => ∃ k t, keyText .canonical e.1 = .ok k ∧
        writeAt .canonical (level + 1) e.2 = .ok t ∧ s = k ++ ':' :: t) moved texts ∧
      cs = '{' :: separated texts ++ ['}'] := by
  obtain ⟨ordered, -, done, -⟩ := writeAt_map_eq_ok_iff.mp made
  obtain ⟨moved, texts, order, all, rfl⟩ := entries_of_writeAt made
  have written := all.imp fun _ _ text => entryText_eq_ok text
  refine ⟨keysFit_iff.mpr ⟨?_, fun k mem => ?_⟩, moved, texts, order, written, enclose_canonical⟩
  · have sorts := exists_sortByKey_iff.mp ⟨_, mapError_eq_ok_iff.mp done⟩
    rwa [keys, keys_writeEntries] at sorts
  · obtain ⟨e, held, rfl⟩ := List.mem_map.mp mem
    obtain ⟨s, -, k, t, named, -⟩ := exists_left written.flip (order.mem_iff.mpr held)
    exact isName_of_keyText named

/-- All that is in a value with a text has one itself. -/
theorem every_isRenderable (made : writeAt .canonical level v = .ok cs) : v.Every IsRenderable := by
  induction v using nested generalizing level cs with
  | leaf v leaf =>
    refine leaf.every_iff.mpr ?_
    cases v with
    | null | bool b | int n | float x | str s => trivial
    | bytes bs | date d | datetime t | loop up => contradiction
    | list items | tuple items | map entries | set items => exact leaf.elim
  | list items ih =>
    obtain ⟨texts, all, -⟩ := writeAt_list_eq_ok made
    refine every_list_iff.mpr ⟨trivial, fun v mem => ?_⟩
    obtain ⟨t, -, own⟩ := exists_left all.flip mem
    exact ih v mem own
  | tuple items ih =>
    have listed : writeAt .canonical level (.list items) = .ok cs := made
    obtain ⟨texts, all, -⟩ := writeAt_list_eq_ok listed
    refine every_tuple_iff.mpr ⟨trivial, fun v mem => ?_⟩
    obtain ⟨t, -, own⟩ := exists_left all.flip mem
    exact ih v mem own
  | map entries ih =>
    obtain ⟨fit, moved, texts, order, all, -⟩ := writeAt_map_eq_ok made
    refine every_map_iff.mpr ⟨fit, fun e mem => ?_⟩
    obtain ⟨s, -, k, t, named, own, -⟩ := exists_left all.flip (order.mem_iff.mpr mem)
    exact ⟨(isName_of_keyText named).every_isRenderable, ih e mem own⟩
  | set items => contradiction

/-- A value whose integers are short has a text exactly when all that is in it is renderable. -/
theorem exists_writeAt_iff (short : v.Every IsShort) :
    (∃ cs, writeAt .canonical level v = .ok cs) ↔ v.Every IsRenderable := by
  refine ⟨fun ⟨cs, made⟩ => every_isRenderable made, fun renderable => ?_⟩
  cases made : writeAt .canonical level v with
  | ok cs => exact ⟨cs, rfl⟩
  | error fault =>
    obtain ⟨w, spoils, fit, brief⟩ := (has_spoils made).exists_of_every renderable short
    exact absurd fit (spoils.not_isRenderable brief)

end Json

end OverlayBuild
