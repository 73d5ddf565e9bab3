import Mathlib.Tactic.Tauto
import OverlayBuild.Proofs.Number.Reading
import OverlayBuild.Proofs.Outcome
import OverlayBuild.Proofs.Spec.Steps
import OverlayBuild.Proofs.Spec.Text

/-! Which attributes have a specification. Dates in the place of lists have no members and stop
the composition; whatever else is given is read as something or ignored, and the specification
has a text. -/
namespace OverlayBuild

namespace Binary64

theorem mul_power_lt {m width limit count : Nat} {e : Int} (narrow : m < 2 ^ width)
    (low : e ≤ limit) (fits : width + limit ≤ count) : m * power 2 e < 10 ^ count :=
  calc m * power 2 e
      ≤ m * 2 ^ limit :=
        Nat.mul_le_mul_left m (Nat.pow_le_pow_right (by decide) (Int.toNat_le.mpr low))
    _ < 2 ^ width * 2 ^ limit := Nat.mul_lt_mul_of_pos_right narrow (Nat.two_pow_pos limit)
    _ = 2 ^ (width + limit) := (Nat.pow_add 2 width limit).symm
    _ ≤ 10 ^ (width + limit) := Nat.pow_le_pow_left (by decide) (width + limit)
    _ ≤ 10 ^ count := Nat.pow_le_pow_right (by decide) fits

/-- What is left of a number without its fraction has far fewer digits than are written out. -/
theorem isShort_of_truncate? {x : Binary64} {n : Int} (ranged : x.InRange)
    (truncated : x.truncate? = some n) : Value.IsShort (.int n) := by
  cases x with
  | nan => contradiction
  | infinite negative => contradiction
  | finite negative m e =>
    obtain ⟨mantissa, exponent⟩ := ranged
    obtain rfl := Option.some.inj truncated
    have magnitude : m * power 2 e < 10 ^ Number.maxDigits :=
      mul_power_lt mantissa exponent (by decide)
    refine Nat.lt_of_le_of_lt (Int.natAbs_tdiv_le_natAbs ..) ?_
    split
    · rwa [Int.natAbs_neg, ← Int.natCast_mul, Int.natAbs_natCast]
    · rwa [← Int.natCast_mul, Int.natAbs_natCast]

end Binary64

namespace Compose

open Value

variable {α : Type}

theorem isShort_of_lt {n : Nat} (small : n < 10 ^ 3) : IsShort (.int n) :=
  Nat.lt_of_lt_of_le small (Nat.pow_le_pow_right (by decide) (by decide))

/-- The integer that a value stands for is short: numerals of more digits are not read. -/
theorem isShort_of_integer? {v : Value} {n : Int} (formed : v.WellFormed 0)
    (counted : integer? v = some n) : IsShort (.int n) := by
  have numeral {cs : List Char} (read : (Number.readInteger 10 cs).toOption = some n) :
      IsShort (.int n) :=
    Number.natAbs_lt_of_readInteger (toOption_eq_some_iff.mp read)
  cases v with
  | int m =>
    obtain rfl := Option.some.inj counted
    exact formed
  | bool b =>
    obtain rfl := Option.some.inj counted
    cases b <;> exact isShort_of_lt (by decide)
  | float x => exact Binary64.isShort_of_truncate? formed counted
  | str s => exact numeral counted
  | bytes bs =>
    obtain ⟨cs, -, read⟩ := Option.bind_eq_some_iff.mp counted
    exact numeral read
  | _ => contradiction

section fields

variable {v : Value} {entries : List (Value × Value)}

theorem ends_shown (formed : v.WellFormed 0) : Ends (shown v) False fun _ => True := by
  rw [shown, formed.isOversized, if_neg Bool.false_ne_true]
  exact ends_pure trivial

theorem ends_text (formed : v.WellFormed 0) : Ends (text v) False fun _ => True := by
  cases v with
  | null | bool b => exact ends_pure trivial
  | _ => exact ends_shown formed

theorem ends_count (formed : v.WellFormed 0) :
    Ends (count v) False fun n => IsShort (.int n) := by
  have zero : IsShort (.int 0) := isShort_of_lt (by decide)
  rw [count]
  split
  · exact ends_pure zero
  · split
    · rename_i n counted
      exact ends_pure (isShort_of_integer? formed counted)
    · exact (ends_notice _).before fun _ _ => ends_pure zero

theorem ends_textMap (formed : v.WellFormed 0) : Ends (textMap v) False fun _ => True := by
  rw [textMap]
  split
  · exact ends_pure trivial
  · split
    · exact (ends_notice _).before fun _ _ => ends_pure trivial
    · rename_i entries mapping
      have texts : Ends (entries.mapM fun e => return (← shown e.1, ← text e.2)) False
          fun results => ∀ pair ∈ results, True := by
        apply Ends.mapM_undated
        intro e mem
        obtain ⟨key, value⟩ := wellFormedEntries_iff.mp (formed.entries? mapping) e mem
        exact (ends_shown key).before fun _ _ => (ends_text value).return fun _ _ => trivial
      exact texts.return fun _ _ => trivial

theorem ends_target (formed : v.WellFormed 0) :
    Ends (target v) False fun _ => True := by
  rw [target]
  split
  · exact ends_pure trivial
  split
  · exact (ends_notice _).before fun _ _ => ends_pure trivial
  · rename_i fields mapping
    have texts (key : String) : Ends (text (Value.field key fields)) False fun _ => True :=
      ends_text ((formed.entries? mapping).field key)
    exact (texts "group").before fun _ _ => (texts "version").before fun _ _ =>
      (texts "kind").before fun _ _ => (texts "name").before fun _ _ =>
      (texts "namespace").before fun _ _ => (texts "label_selector").before fun _ _ =>
      (texts "annotation_selector").return fun _ _ => trivial

def HoldsBlock (p : List (Value × Value) → Prop) (items : List Value) : Prop :=
  ∃ item ∈ items, ∃ fields, item.entries? = some fields ∧ p fields

def blocksIn (v : Value) : List Value := v.members?.getD [v]

/-- The members of a value, whose blocks are those that stand in its place. -/
structure Gathered (v : Value) (items : List Value) : Prop where
  formed : WellFormedAll 0 items
  blocks : ∀ p, HoldsBlock p items ↔ HoldsBlock p (blocksIn v)

theorem not_holdsBlock_of_unmapped {p : List (Value × Value) → Prop} {items : List Value}
    (unmapped : ∀ item ∈ items, item.entries? = none) : ¬HoldsBlock p items := by
  rintro ⟨item, mem, fields, mapping, -⟩
  rw [unmapped item mem] at mapping
  contradiction

/-- What is neither absent nor a single text or number nor a mapping has members, or is a date. -/
theorem ends_members (formed : v.WellFormed 0) (present : v.isPresent = true)
    (plural : isSingle v = false) (unmapped : isMapping v = false) :
    Ends (members v) v.IsMoment (Gathered v) := by
  have given {items : List Value} (sequence : v.members? = some items) :
      Ends (members v) False (Gathered v) := by
    have members_eq : members v = pure items := by simp only [members, sequence]
    have blocksIn_eq : blocksIn v = items := by rw [blocksIn, sequence, Option.getD_some]
    rw [members_eq]
    exact ends_pure ⟨formed.members? sequence, fun _ => by rw [blocksIn_eq]⟩
  have dated (date : v.IsMoment) (stops : members v = throw (.notIterable v.fullTypeName)) :
      Ends (members v) v.IsMoment (Gathered v) :=
    ⟨fun _ _ => ⟨v, date, by rw [stops]; rfl⟩, fun undated => absurd date undated⟩
  cases v with
  | null => exact nomatch present
  | bool b | int n | float x | str s => exact nomatch plural
  | map entries => exact nomatch unmapped
  | loop up => exact (Nat.not_lt_zero up formed).elim
  | date d | datetime t => exact dated trivial rfl
  | list own | tuple own | set own => exact given rfl
  | bytes bs =>
    refine ends_pure ⟨wellFormedAll_iff.mpr (List.forall_mem_map.mpr ?_), fun p => ?_⟩
    · intro b mem
      have byte : b.toNat < 10 ^ 3 := Nat.lt_of_lt_of_le b.toNat_lt (by decide)
      exact isShort_of_lt byte
    · exact iff_of_false (not_holdsBlock_of_unmapped (List.forall_mem_map.mpr fun _ _ => rfl))
        (not_holdsBlock_of_unmapped (List.forall_mem_singleton.mpr rfl))

theorem listed_of_moment (date : v.IsMoment) :
    v.isPresent = true ∧ isSingle v = false ∧ isMapping v = false := by
  cases v with
  | date d | datetime t => exact ⟨rfl, rfl, rfl⟩
  | _ => exact date.elim

theorem ends_textList (formed : v.WellFormed 0) :
    Ends (textList v) v.IsMoment fun _ => True := by
  rw [textList]
  split
  · rename_i absent
    have undated : ¬v.IsMoment := fun date => by simp [(listed_of_moment date).1] at absent
    exact (ends_pure trivial).of_undated undated
  split
  · rename_i single
    have undated : ¬v.IsMoment := fun date => by simp [(listed_of_moment date).2.1] at single
    exact ((ends_text formed).return fun _ _ => trivial).of_undated undated
  split
  · rename_i mapping
    have undated : ¬v.IsMoment := fun date => by simp [(listed_of_moment date).2.2] at mapping
    exact ((ends_notice _).before fun _ _ => ends_pure trivial).of_undated undated
  · rename_i present plural unmapped
    have given := ends_members formed (by simpa using present) (by simpa using plural)
      (by simpa using unmapped)
    refine (given.bind fun items gathered => ?_).congr (iff_of_eq (or_false _))
    have texts : Ends ((items.filter fun item => !item.isNull).mapM text) False
        fun results => ∀ s ∈ results, True := by
      apply Ends.mapM_undated
      intro item mem
      exact ends_text (wellFormedAll_iff.mp gathered.formed item (List.mem_of_mem_filter mem))
    exact texts.imp fun _ _ => trivial

theorem ends_block? (key : String) :
    Ends (block? key v) False fun result => result = v.entries? := by
  rw [block?]
  split
  · rename_i fields mapping
    exact ends_pure mapping.symm
  · rename_i unmapped
    exact (ends_notice _).before fun _ _ => ends_pure unmapped.symm

section blocks

variable {compose : List (Value × Value) → Compose α} {p : List (Value × Value) → Prop}
  {post : α → Prop}

/-- A block is ignored or composed. -/
theorem ends_block (key : String) (formed : v.WellFormed 0)
    (each : ∀ fields, WellFormedEntries 0 fields → Ends (compose fields) (p fields) post) :
    Ends (do
        match ← block? key v with
        | some entries => return some (← compose entries)
        | none => return none)
      (∃ fields, v.entries? = some fields ∧ p fields) fun result => ∀ a ∈ result, post a := by
  refine (ends_block? key).before ?_
  rintro _ rfl
  cases mapping : v.entries? with
  | none => exact (ends_pure nofun).congr (by simp)
  | some fields =>
    have composed : Ends (do return some (← compose fields)) (p fields)
        fun result => ∀ a ∈ result, post a :=
      (each fields (formed.entries? mapping)).return fun a meets b mem => Option.some.inj mem ▸ meets
    exact composed.congr (by simp)

/-- All items are ignored or composed. -/
theorem ends_composed (key : String) {items : List Value} (formed : WellFormedAll 0 items)
    (each : ∀ fields, WellFormedEntries 0 fields → Ends (compose fields) (p fields) post) :
    Ends (do
        let composed ← (items.filter fun item => !item.isNull).mapM fun item => do
          match ← block? key item with
          | some entries => return some (← compose entries)
          | none => return none
        return composed.filterMap id)
      (HoldsBlock p items) fun results => ∀ a ∈ results, post a := by
  have kept : (∃ item ∈ items.filter fun item => !item.isNull,
      ∃ fields, item.entries? = some fields ∧ p fields) ↔ HoldsBlock p items := by
    refine exists_congr fun item => and_congr_left ?_
    rintro ⟨fields, mapping, -⟩
    rw [List.mem_filter]
    cases item with
    | map entries => exact and_iff_left rfl
    | _ => exact nomatch mapping
  refine Ends.congr (Ends.return (Ends.mapM fun item mem =>
    ends_block key (wellFormedAll_iff.mp formed item (List.mem_of_mem_filter mem)) each) ?_) kept
  intro results meets a mem
  obtain ⟨result, own, given⟩ := List.mem_filterMap.mp mem
  exact meets result own a given

theorem not_holdsBlock_of_absent (absent : v.isPresent = false) (empty : ¬p []) :
    ¬HoldsBlock p (blocksIn v) := by
  rintro ⟨item, mem, fields, mapping, holds⟩
  cases v with
  | list items | tuple items | set items =>
    obtain rfl : items = [] := by simpa [isPresent] using absent
    exact nomatch mem
  | map entries =>
    -- An empty mapping stands for itself, but has no field to be stopped by.
    obtain rfl : entries = [] := by simpa [isPresent] using absent
    obtain rfl := List.mem_singleton.mp mem
    obtain rfl := Option.some.inj mapping
    exact empty holds
  | date d | datetime t | loop up => exact nomatch absent
  | _ =>
    obtain rfl := List.mem_singleton.mp mem
    exact nomatch mapping

theorem blocksIn_of_lone (lone : (isSingle v || isMapping v) = true) : blocksIn v = [v] := by
  cases v with
  | list items | tuple items | set items => exact nomatch lone
  | _ => rfl

theorem ends_blocks (key : String) (formed : WellFormedEntries 0 entries)
    (empty : ¬p [])
    (each : ∀ fields, WellFormedEntries 0 fields → Ends (compose fields) (p fields) post) :
    Ends (blocks entries key compose)
      ((Value.field key entries).IsMoment ∨ HoldsBlock p (blocksIn (Value.field key entries)))
      fun results => ∀ a ∈ results, post a := by
  have own := formed.field key
  unfold blocks
  generalize Value.field key entries = v at own ⊢
  dsimp only
  split
  · rename_i absent
    have absent : v.isPresent = false := by simpa using absent
    have undated : ¬v.IsMoment := fun date => by simp [(listed_of_moment date).1] at absent
    have nothing : ¬HoldsBlock p [] := not_holdsBlock_of_unmapped (List.forall_mem_nil _)
    have neither := not_or.mpr ⟨undated, not_holdsBlock_of_absent absent empty⟩
    have none : WellFormedAll 0 [] := trivial
    rw [pure_bind]
    exact (ends_composed key none each).congr (iff_of_false nothing neither)
  split
  · rename_i lone
    have undated : ¬v.IsMoment := fun date => by simp [(listed_of_moment date).2] at lone
    have all : WellFormedAll 0 [v] := ⟨own, trivial⟩
    rw [pure_bind, blocksIn_of_lone lone]
    exact (ends_composed key all each).congr
      (or_iff_right undated).symm
  · rename_i present several
    obtain ⟨plural, unmapped⟩ := Bool.or_eq_false_iff.mp (eq_false_of_ne_true several)
    refine (ends_members own (by simpa using present) plural unmapped).bind
      fun items gathered => ?_
    exact (ends_composed key gathered.formed each).congr (gathered.blocks p)

/-- Blocks in which nothing stops the composition are stopped by a date in their place only. -/
theorem ends_plain_blocks (key : String)
    (formed : WellFormedEntries 0 entries)
    (each : ∀ fields, WellFormedEntries 0 fields → Ends (compose fields) False post) :
    Ends (blocks entries key compose) (Value.field key entries).IsMoment
      fun results => ∀ a ∈ results, post a :=
  (ends_blocks key formed id each).congr (or_iff_left fun ⟨_, _, _, _, never⟩ => never)

end blocks

end fields

def listKeys : List String := ["components", "crds", "resources", "config_map_generator",
  "secret_generator", "images", "replicas", "patches"]

def generatorKeys : List String := ["config_map_generator", "secret_generator"]

def sourceKeys : List String := ["literals", "envs", "files"]

/-- A date stands in the place of a list of a generator. -/
def DatedBlock (fields : List (Value × Value)) : Prop :=
  ∃ key ∈ sourceKeys, (Value.field key fields).IsMoment

def DatedEntries (entries : List (Value × Value)) : Prop :=
  (∃ key ∈ listKeys, (Value.field key entries).IsMoment) ∨
    ∃ key ∈ generatorKeys, HoldsBlock DatedBlock (blocksIn (Value.field key entries))

/-- The attributes are a mapping in which a date stands in the place of a list. -/
def Dated (attributes : Value) : Prop :=
  ∃ entries, attributes.entries? = some entries ∧ DatedEntries entries

theorem dated_iff {attributes : Value} {entries : List (Value × Value)}
    (given : attributes.entries?.getD [] = entries) : Dated attributes ↔ DatedEntries entries := by
  rw [Dated]
  subst given
  cases attributes.entries? with
  | some entries => simp
  | none =>
    refine iff_of_false (fun ⟨_, mapping, _⟩ => nomatch mapping) ?_
    rintro (⟨key, -, date⟩ | ⟨key, -, item, mem, fields, mapping, -⟩)
    · exact date
    · obtain rfl : item = .null := List.mem_singleton.mp mem
      exact nomatch mapping

section records

variable {fields : List (Value × Value)} (formed : WellFormedEntries 0 fields)

include formed

theorem ends_generator : Ends (generator fields) (DatedBlock fields) fun _ => True := by
  have ends : Ends (generator fields) ((Value.field "literals" fields).IsMoment ∨
      (Value.field "envs" fields).IsMoment ∨ (Value.field "files" fields).IsMoment) fun _ => True :=
    (ends_text (formed.field _)).before fun _ _ => (ends_text (formed.field _)).before fun _ _ =>
      (ends_textList (formed.field _)).bind fun _ _ =>
      (ends_textList (formed.field _)).bind fun _ _ =>
      (ends_textList (formed.field _)).return fun _ _ => trivial
  exact ends.congr (by simp [DatedBlock, sourceKeys])

theorem ends_secretGenerator :
    Ends (secretGenerator fields) (DatedBlock fields) fun _ => True := by
  have ends : Ends (secretGenerator fields) (DatedBlock fields ∨ False) fun _ => True :=
    (ends_generator formed).bind fun _ _ => (ends_text (formed.field _)).return fun _ _ => trivial
  exact ends.congr (iff_of_eq (or_false _))

theorem ends_image : Ends (image fields) False fun _ => True :=
  (ends_text (formed.field _)).before fun _ _ => (ends_text (formed.field _)).before fun _ _ =>
    (ends_text (formed.field _)).before fun _ _ =>
    (ends_text (formed.field _)).return fun _ _ => trivial

theorem ends_replica : Ends (replica fields) False fun r => IsShort (.int r.count) :=
  (ends_text (formed.field _)).before fun _ _ =>
    (ends_count (formed.field _)).return fun _ short => short

theorem ends_patch : Ends (patch fields) False fun _ => True :=
  (ends_text (formed.field _)).before fun _ _ => (ends_text (formed.field _)).before fun _ _ =>
    (ends_target (formed.field _)).return fun _ _ => trivial

end records

theorem ends_attributes {v : Value} (formed : v.WellFormed 0) :
    Ends (attributes v) False fun entries => v.entries?.getD [] = entries ∧
      WellFormedEntries 0 entries := by
  rw [attributes]
  split
  · rename_i entries mapping
    exact ends_pure ⟨by rw [mapping]; rfl, formed.entries? mapping⟩
  · rename_i unmapped
    have none : v.entries?.getD [] = [] := by rw [unmapped]; rfl
    split
    · exact (ends_notice _).before fun _ _ => ends_pure ⟨none, trivial⟩
    · exact ends_pure ⟨none, trivial⟩

/-- Composing gives a specification whose counts are short, unless a date stands in the place of
a list. -/
theorem ends_spec {attributes : Value} (formed : attributes.WellFormed 0) :
    Ends (spec attributes) (Dated attributes)
      fun s => ∀ r ∈ s.replicas, IsShort (.int r.count) := by
  refine (ends_attributes formed).before ?_
  rintro entries ⟨given, formed⟩
  have text (key : String) := ends_text (formed.field key)
  have textMap (key : String) := ends_textMap (formed.field key)
  have textList (key : String) := ends_textList (formed.field key)
  have undated : ¬DatedBlock [] := fun ⟨_, _, never⟩ => never
  have configMaps := ends_blocks "config_map_generator" formed undated fun _ => ends_generator
  have secrets := ends_blocks "secret_generator" formed undated fun _ => ends_secretGenerator
  have images := ends_plain_blocks "images" formed fun _ => ends_image
  have replicas := ends_plain_blocks "replicas" formed fun _ => ends_replica
  have patches := ends_plain_blocks "patches" formed fun _ => ends_patch
  refine Ends.congr
    ((textMap "common_annotations").before fun _ _ => (textMap "common_labels").before fun _ _ =>
      (textList "components").bind fun _ _ => configMaps.bind fun _ _ =>
      (textList "crds").bind fun _ _ => images.bind fun _ _ =>
      (text "name_prefix").before fun _ _ => (text "name_suffix").before fun _ _ =>
      (text "namespace").before fun _ _ => replicas.bind fun _ short =>
      (textList "resources").bind fun _ _ => secrets.bind fun _ _ =>
      patches.return fun _ _ => short) ?_
  -- The dates in the order in which they stop, against the dates by kind of key.
  rw [dated_iff given]
  simp only [DatedEntries, listKeys, generatorKeys, List.exists_mem_cons_iff, List.not_mem_nil,
    false_and, exists_false, or_false]
  tauto

/-- A date where a list belongs, in an attribute or in a block of a generator, is all that
composing fails for, and what it gives has a text. -/
theorem compose_fails_for_dates_only {attributes : Value} (formed : attributes.WellFormed 0) :
    (Dated attributes → ∃ moment : Value, moment.IsMoment ∧
      compose attributes = .error (.notIterable moment.fullTypeName)) ∧
    (¬Dated attributes → ∃ spec notices, compose attributes = .ok (spec, notices) ∧
      ∀ multiline, spec.yaml multiline = .ok (spec.text multiline)) := by
  have ends := ends_spec formed
  constructor
  · intro dated
    exact ends.stops dated []
  · intro undated
    obtain ⟨spec, notices, composed, short⟩ := ends.gives undated []
    exact ⟨spec, notices, composed, spec.yaml_of_short short⟩

def misplaced (files : Value) : Value := .map [
  (.int 1, .null),
  (.str "common_labels", .list [.date ⟨2024, 1, 31⟩]),
  (.str "components", .bytes [0x2e]),
  (.str "name_prefix", .set [.tuple [.bool true]]),
  (.str "replicas", .map [(.str "count", .float (.finite true 3 (-1)))]),
  (.str "secret_generator", .list [.loop 0, .map [(.str "files", files)]])]

theorem compose_fails_for_dated_files :
    ((misplaced (.date ⟨2024, 1, 31⟩)).WellFormed 0 ∧
      ∃ moment : Value, moment.IsMoment ∧ compose (misplaced (.date ⟨2024, 1, 31⟩)) =
        .error (.notIterable moment.fullTypeName)) ∧
    (misplaced (.str "a")).WellFormed 0 ∧
      ∃ spec notices, compose (misplaced (.str "a")) = .ok (spec, notices) ∧
        ∀ multiline, spec.yaml multiline = .ok (spec.text multiline) := by
  have short : IsShort (.int 1) := isShort_of_lt (by decide)
  have formed {files : Value} (own : files.WellFormed 3) : (misplaced files).WellFormed 0 := by
    have parts : (1 : Int).natAbs < 10 ^ Number.maxDigits ∧ -1 ≤ Binary64.maxExponent ∧
        files.WellFormed 3 := ⟨short, by decide, own⟩
    simpa [misplaced, WellFormed, WellFormedAll, WellFormedEntries, Binary64.InRange] using parts
  have dates : (misplaced (.date ⟨2024, 1, 31⟩)).WellFormed 0 := formed trivial
  have texts : (misplaced (.str "a")).WellFormed 0 := formed trivial
  have dated : Dated (misplaced (.date ⟨2024, 1, 31⟩)) :=
    ⟨_, rfl, .inr ⟨"secret_generator", by decide, _, .tail _ (.head _), _, rfl, "files",
      by decide, trivial⟩⟩
  have undated : ¬Dated (misplaced (.str "a")) := by
    rintro ⟨entries, mapping, dated⟩
    obtain rfl := Option.some.inj mapping
    simp [DatedEntries, DatedBlock, listKeys, generatorKeys, sourceKeys, HoldsBlock, blocksIn,
      members?, entries?, tie, tieAll, tieEntries, Value.field, find?, IsMoment] at dated
  exact ⟨⟨dates, (compose_fails_for_dates_only dates).1 dated⟩,
    texts, (compose_fails_for_dates_only texts).2 undated⟩

end Compose

end OverlayBuild
