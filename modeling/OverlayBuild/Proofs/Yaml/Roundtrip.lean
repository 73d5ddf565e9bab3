import OverlayBuild.Proofs.Yaml.Blocks
import OverlayBuild.Proofs.Yaml.Meaning
import OverlayBuild.Proofs.Yaml.Scalar
import OverlayBuild.Yaml.Printer

/-! Documents that are written and read again. For each value that is written the text has both
the tokens of a block and the node that spells the value; collections are put together from the
parts, as the writer goes through them. -/
namespace OverlayBuild.Yaml

open Text

/-- The key of the entry is text without wide characters, which are escaped by ten characters each:
what fits on a line as a key is short enough to be read as one. -/
def NarrowKey (e : Value × Value) : Prop := ∃ key, e.1 = .str key ∧ ∀ c ∈ key.toList, c.toNat < 0x10000

/-- Values of texts and integers that can be written and read again. Keys are different texts, and
collections are nested no deeper than so. -/
inductive Legible : Nat → Value → Prop
  | str {depth : Nat} (text : String) : Legible depth (.str text)
  | int {depth : Nat} {i : Int} (small : i.natAbs < 10 ^ Number.maxDigits) : Legible depth (.int i)
  | list {depth : Nat} {items : List Value} (each : ∀ v ∈ items, Legible depth v) :
    Legible (depth + 1) (.list items)
  | map {depth : Nat} {entries : List (Value × Value)}
    (keys : ∀ e ∈ entries, NarrowKey e)
    (distinct : (entries.map (·.1)).Nodup) (each : ∀ e ∈ entries, Legible depth e.2) :
    Legible (depth + 1) (.map entries)

theorem Legible.tidy {depth : Nat} {v : Value} (legible : Legible depth v) : v.Tidy := by
  induction legible with
  | str => exact trivial
  | int => exact trivial
  | list _ ih => exact Value.tidyAll_iff.mpr ih
  | map keys distinct _ ih =>
    refine ⟨fun e mem => ?_, distinct, Value.tidyEntries_iff.mpr ih⟩
    obtain ⟨key, text, -⟩ := keys e mem
    exact ⟨key, text⟩

namespace Sheet

variable {s : Sheet} {c : Nat}

/-- The text up to the end of the line. -/
def full (s : Sheet) : List Char := s.text ++ if s.indented then [] else ['\n']

/-- Something was written up to the end of its line, or of the line before. -/
def Ended (s : Sheet) : Prop := s.indented = false ∨ s.Stands 0

theorem Ended.indentTo (ended : s.Ended) (c : Nat) :
    (s.indentTo c).text = s.full ++ List.replicate c ' ' ∧ (s.indentTo c).Stands c := by
  rcases ended with moved | stands
  · obtain ⟨text, stands⟩ := indentTo_of_movable (n := c) (.inl moved)
    exact ⟨by simpa [full, moved] using text, stands⟩
  · obtain ⟨text, after⟩ := indentTo_of_stands stands (Nat.zero_le c)
    exact ⟨by simpa [full, stands.indented] using text, after⟩

/-- A value may be written inside a collection at the column: right behind a mark, or after a
key on the line. -/
structure Awaits (s : Sheet) (c : Nat) (beside : Bool) : Prop where
  spaced : s.spaced = false
  indented : s.indented = beside
  column : beside = true → s.column = c + 1

/-- A mark at the start of a line. -/
theorem Stands.mark (stands : s.Stands c) (x : Char) :
    (s.indicator [x] true false true).text = s.text ++ [x] ∧
      (s.indicator [x] true false true).Awaits c true := by
  obtain ⟨indented, spaced, rfl⟩ := stands
  refine ⟨by simp [spaced], rfl, ?_, fun _ => ?_⟩
  · simp [indicator, indented]
  · simp [indicator, spaced, write]

/-- What stands behind a mark is indented by the width of the mark and of a space. -/
theorem Awaits.indentTo (awaits : s.Awaits c true) :
    (s.indentTo (c + 2)).text = s.text ++ [' '] ∧ (s.indentTo (c + 2)).Stands (c + 2) := by
  obtain ⟨spaced, indented, column⟩ := awaits
  have place := column rfl
  have moved : s.indentTo (c + 2) = { s.write [' '] with spaced := true } := by
    simp [Sheet.indentTo, indented, place, spaced]
  rw [moved]
  exact ⟨by simp [text, write], by simpa [write] using indented, rfl, by simp [write, place]⟩

/-- A scalar is written after a space, up to the end of a line. -/
theorem Awaits.scalar {x : Scalar} {beside : Bool} (awaits : s.Awaits c beside) (told : x.IsTold)
    (narrow : c + 2 < lineWidth) (root : Bool) :
    ∃ style written, Styled (c + 2) x.text style written ∧
      (s.scalar x (c + 2) root false).full = s.text ++ ' ' :: (written ++ lineEnd style) ∧
      (s.scalar x (c + 2) root false).Ended ∧
      (if style = .plain then x.isEvident = true else x.tag = Tag.str) := by
  obtain ⟨style, written, form, text, place, tag, -⟩ := s.scalar_spec told narrow root false
  refine ⟨style, written, form, ?_, ?_, tag⟩
  · rw [full, text, awaits.spaced, lineEnd]
    split at place
    next literal => simp [literal, place.indented]
    next other => simp [other, place]
  · split at place
    · exact .inr place
    · exact .inl place

/-- A key on one line stands at the column, with its colon. -/
theorem Stands.simpleKey {x : Scalar} (stands : s.Stands c) (told : x.IsTold)
    (narrow : c + 2 < lineWidth) :
    ∃ style written, Styled (c + 2) x.text style written ∧ style ≠ .literal ∧ OneLine x.text written ∧
      ((s.scalar x (c + 2) false true).indicator [':'] false false false).text =
        s.text ++ written ++ [':'] ∧
      ((s.scalar x (c + 2) false true).indicator [':'] false false false).Awaits c false ∧
      (if style = .plain then x.isEvident = true else x.tag = Tag.str) := by
  obtain ⟨style, written, form, text, -, tag, one⟩ := s.scalar_spec told narrow false true
  obtain ⟨block, line⟩ := one rfl
  refine ⟨style, written, form, block, line, ?_, ⟨rfl, by simp [indicator], nofun⟩, tag⟩
  rw [text_indicator, text, stands.spaced]
  simp

end Sheet

section values

variable {mode : Multiline} {s : Sheet} {c depth : Nat} {v : Value} {beside inMapping : Bool}
  {vs : List Value} {es : List (Value × Value)}

/-- A value is written as text that has its tokens, and these are read as a node that spells it. A
sequence is loose only where a key stands before it on the line. -/
def Conveys (mode : Multiline) (c : Nat) (v : Value) : Prop :=
  ∀ (s : Sheet) (beside inMapping : Bool), s.Awaits c beside → (beside = false → inMapping = true) →
    ∃ p ks loose, (Sheet.value mode (some c) inMapping v s).full = s.text ++ p ∧
      (Sheet.value mode (some c) inMapping v s).Ended ∧ Fills c beside p ks ∧ Reads .full loose ks v ∧
      (loose = true → beside = false)

theorem tagOf_of_evident {x : Scalar} (evident : x.isEvident = true) :
    Schema.full.tagOf (String.ofList x.text) = x.tag :=
  beq_iff_eq.mp evident

theorem conveys_str (text : String) (narrow : c + 2 < lineWidth) : Conveys mode c (.str text) := by
  intro s beside inMapping awaits _
  obtain ⟨style, written, form, done, ended, tag⟩ :=
    awaits.scalar (x := Scalar.ofValue mode (.str text)) (.inl rfl) narrow false
  have told : style = .plain → Schema.full.tagOf text = Tag.str := fun plain => by
    rw [if_pos plain] at tag
    simpa [Scalar.ofValue, Value.text] using tagOf_of_evident tag
  have fills : Fills c beside _ _ := Fills.scalar form
  have own : String.ofList (Scalar.ofValue mode (.str text)).text = text := String.ofList_toList
  rw [own] at fills
  exact ⟨_, _, false, done, ended, fills, .str told, nofun⟩

theorem conveys_int {i : Int} (small : i.natAbs < 10 ^ Number.maxDigits) (narrow : c + 2 < lineWidth) :
    Conveys mode c (.int i) := by
  intro s beside inMapping awaits _
  have evident : (Scalar.ofValue mode (.int i)).isEvident = true := beq_iff_eq.mpr (tagOf_integer _)
  obtain ⟨style, written, form, done, ended, tag⟩ :=
    awaits.scalar (x := Scalar.ofValue mode (.int i))
      (.inr ⟨rfl, evident, fitsPlain_integer, integer_ne_nil⟩) narrow false
  obtain rfl : style = .plain := by
    by_contra other
    rw [if_neg other] at tag
    exact absurd tag (by simp only [Scalar.ofValue]; decide)
  refine ⟨_, _, false, done, ended, .scalar form, .int (tagOf_integer _) ?_, nofun⟩
  rw [String.toList_ofList]
  exact intValue_integer small

/-- Brackets with nothing between them stand behind the mark or the key. -/
theorem Sheet.Awaits.brackets (awaits : s.Awaits c beside) (x y : Char) :
    ((s.indicator [x] true true false).indicator [y] false false false).full =
        s.text ++ [' ', x, y, '\n'] ∧
      ((s.indicator [x] true true false).indicator [y] false false false).Ended := by
  have moved :
      ((s.indicator [x] true true false).indicator [y] false false false).indented = false := by
    simp [Sheet.indicator]
  refine ⟨?_, .inl moved⟩
  rw [Sheet.full, moved]
  simp [awaits.spaced]

theorem conveys_emptyList : Conveys mode c (.list []) := by
  intro s beside inMapping awaits _
  obtain ⟨done, ended⟩ := awaits.brackets '[' ']'
  exact ⟨_, _, false, done, ended, .empty .sequence, .emptyList, nofun⟩

theorem conveys_emptyMap : Conveys mode c (.map []) := by
  intro s beside inMapping awaits _
  obtain ⟨done, ended⟩ := awaits.brackets '\x7b' '\x7d'
  exact ⟨_, _, false, done, ended, .empty .mapping, .emptyMap, nofun⟩

/-! Items and entries. -/

theorem items_spec (each : ∀ v ∈ vs, Conveys mode c v) (filled : vs ≠ [])
    (stands : (s.indentTo c).Stands c) :
    ∃ p ks, (Sheet.items mode c vs s).full = (s.indentTo c).text ++ p ∧
      (Sheet.items mode c vs s).Ended ∧ Rows c .blockSequenceStart p ks ∧ ReadsItems .full ks vs ∧
      ks ≠ [] := by
  induction vs generalizing s with
  | nil => exact absurd rfl filled
  | cons v vs ih =>
    obtain ⟨own, others⟩ := List.forall_mem_cons.mp each
    obtain ⟨text, awaits⟩ := stands.mark '-'
    obtain ⟨p, ks, loose, done, ended, fills, reads, loosely⟩ := own _ true false awaits nofun
    obtain rfl : loose = false := Bool.eq_false_iff.mpr fun loose => absurd (loosely loose) nofun
    have row := Rows.mark .item fills
    rw [text] at done
    rw [Sheet.items]
    cases vs with
    | nil =>
      refine ⟨_, _, by simpa [Sheet.items] using done, ended, row, ?_, List.cons_ne_nil _ _⟩
      simpa using ReadsItems.cons reads .nil
    | cons w ws =>
      obtain ⟨moved, stands⟩ := ended.indentTo c
      obtain ⟨q, later, rest, last, rows, items, -⟩ := ih others (List.cons_ne_nil _ _) stands
      refine ⟨_, _, ?_, last, row.append rows, .cons reads items, List.cons_ne_nil _ _⟩
      rw [rest, moved, done]
      simp

/-- An entry, with its key on one line or behind a mark of its own. -/
theorem entry_spec {key : String} (low : ∀ c ∈ key.toList, c.toNat < 0x10000)
    (own : Conveys mode c v) (narrow : c + 2 < lineWidth) (stands : (s.indentTo c).Stands c) :
    ∃ p style ks loose,
      (Sheet.value mode (some c) true v (s.key mode (.str key) c)).full = (s.indentTo c).text ++ p ∧
      (Sheet.value mode (some c) true v (s.key mode (.str key) c)).Ended ∧
      Rows c .blockMappingStart p (.key :: .scalar key style :: .value :: ks) ∧
      (style = .plain → Schema.full.tagOf key = Tag.str) ∧ Reads .full loose ks v := by
  let x := Scalar.ofValue mode (.str key)
  have same : String.ofList x.text = key := String.ofList_toList
  have told {style : ScalarStyle} (tag : if style = .plain then x.isEvident = true else x.tag = Tag.str)
      (plain : style = .plain) : Schema.full.tagOf key = Tag.str := by
    rw [if_pos plain] at tag
    rw [← same]
    exact tagOf_of_evident tag
  by_cases simple : x.isSimpleKey = true
  · have keyed : s.key mode (.str key) c =
        ((s.indentTo c).scalar x (c + 2) false true).indicator [':'] false false false := if_pos simple
    obtain ⟨style, written, form, block, one, text, awaits, tag⟩ :=
      stands.simpleKey (x := x) (.inl rfl) narrow
    obtain ⟨p, ks, loose, done, ended, fills, reads, -⟩ := own _ false true awaits fun _ => rfl
    have short : written.length ≤ 1024 := by
      have tag : shortTagLength x.tag = 5 := (by decide : shortTagLength Tag.str = 5)
      have few : shortTagLength x.tag + x.text.length ≤ maxSimpleKey := by
        simp only [Scalar.isSimpleKey, Bool.and_eq_true, decide_eq_true_eq] at simple
        exact simple.2
      have wide := one.short low
      simp only [tag, maxSimpleKey] at few
      omega
    have row := Rows.key form block one.line short fills
    rw [same] at row
    refine ⟨_, style, ks, loose, ?_, by rw [keyed]; exact ended, row, told tag, reads⟩
    rw [keyed, done, text]
    simp
  · have keyed : s.key mode (.str key) c =
        ((((s.indentTo c).indicator ['?'] true false true).scalar x (c + 2) false false).indentTo c).indicator
          [':'] true false true := if_neg simple
    obtain ⟨text, awaits⟩ := stands.mark '?'
    obtain ⟨style, written, form, done, ended, tag⟩ := awaits.scalar (x := x) (.inl rfl) narrow false
    obtain ⟨moved, stands⟩ := ended.indentTo c
    obtain ⟨text', awaits⟩ := stands.mark ':'
    obtain ⟨p, ks, loose, done', ended, fills, reads, -⟩ := own _ true true awaits nofun
    have first := Rows.mark .key (Fills.scalar form)
    rw [same] at first
    have row := first.append (Rows.mark .value fills)
    refine ⟨_, style, ks, loose, ?_, by rw [keyed]; exact ended, row, told tag, reads⟩
    rw [keyed, done', text', moved, done, text]
    simp

theorem entries_spec
    (keys : ∀ e ∈ es, NarrowKey e) (each : ∀ e ∈ es, Conveys mode c e.2)
    (narrow : c + 2 < lineWidth) (filled : es ≠ [])
    (stands : (s.indentTo c).Stands c) :
    ∃ p ks, (Sheet.entries mode c es s).full = (s.indentTo c).text ++ p ∧
      (Sheet.entries mode c es s).Ended ∧ Rows c .blockMappingStart p ks ∧ ReadsPairs .full ks es := by
  induction es generalizing s with
  | nil => exact absurd rfl filled
  | cons e es ih =>
    obtain ⟨k, v⟩ := e
    obtain ⟨own, others⟩ := List.forall_mem_cons.mp each
    obtain ⟨⟨key, text, low⟩, rest⟩ := List.forall_mem_cons.mp keys
    obtain rfl : k = .str key := text
    obtain ⟨p, style, ks, loose, done, ended, row, told, reads⟩ := entry_spec low own narrow stands
    rw [Sheet.entries]
    cases es with
    | nil =>
      refine ⟨p, _, done, ended, row, ?_⟩
      simpa using ReadsPairs.cons told reads .nil
    | cons e es =>
      obtain ⟨moved, stands⟩ := ended.indentTo c
      obtain ⟨q, later, follows, last, rows, pairs⟩ := ih rest others (List.cons_ne_nil _ _) stands
      refine ⟨_, _, ?_, last, row.append rows, .cons told reads pairs⟩
      rw [follows, moved, done]
      simp

/-! Collections as values. -/

theorem conveys_list (each : ∀ v ∈ vs, Conveys mode c v ∧ Conveys mode (c + 2) v) :
    Conveys mode c (.list vs) := by
  cases vs with
  | nil => exact conveys_emptyList
  | cons v vs =>
    intro s beside inMapping awaits mapped
    have own : Sheet.value mode (some c) inMapping (.list (v :: vs)) s =
      Sheet.items mode (sequenceIndent s (some c) inMapping) (v :: vs) s := rfl
    cases beside with
    | true =>
      obtain ⟨text, stands⟩ := awaits.indentTo
      have column : sequenceIndent s (some c) inMapping = c + 2 := by
        simp [sequenceIndent, awaits.indented, deeper, indentStep]
      obtain ⟨p, ks, done, ended, rows, items, -⟩ :=
        items_spec (fun v mem => (each v mem).2) (List.cons_ne_nil v vs) stands
      refine ⟨_, _, false, ?_, by rw [own, column]; exact ended, rows.beside, items.block,
        fun off => absurd off Bool.false_ne_true⟩
      rw [own, column, done, text]
      simp
    | false =>
      have column : sequenceIndent s (some c) inMapping = c := by
        simp [sequenceIndent, awaits.indented, mapped rfl]
      obtain ⟨text, stands⟩ := Sheet.indentTo_of_movable (n := c) (.inl awaits.indented)
      obtain ⟨p, ks, done, ended, rows, items, filled⟩ :=
        items_spec (fun v mem => (each v mem).1) (List.cons_ne_nil v vs) stands
      refine ⟨_, _, true, ?_, by rw [own, column]; exact ended, rows.level, items.level filled,
        fun _ => rfl⟩
      rw [own, column, done, text]
      simp

theorem conveys_map (keys : ∀ e ∈ es, NarrowKey e)
    (each : ∀ e ∈ es, Conveys mode (c + 2) e.2) (narrow : c + 4 < lineWidth) :
    Conveys mode c (.map es) := by
  cases es with
  | nil => exact conveys_emptyMap
  | cons e es =>
    intro s beside inMapping awaits mapped
    have own : Sheet.value mode (some c) inMapping (.map (e :: es)) s =
      Sheet.entries mode (c + 2) (e :: es) s := rfl
    cases beside with
    | true =>
      obtain ⟨text, stands⟩ := awaits.indentTo
      obtain ⟨p, ks, done, ended, rows, pairs⟩ :=
        entries_spec keys each narrow (List.cons_ne_nil e es) stands
      refine ⟨_, _, false, ?_, ended, rows.beside, pairs.block, nofun⟩
      rw [own, done, text]
      simp
    | false =>
      obtain ⟨text, stands⟩ := Sheet.indentTo_of_movable (n := c + 2) (.inl awaits.indented)
      obtain ⟨p, ks, done, ended, rows, pairs⟩ :=
        entries_spec keys each narrow (List.cons_ne_nil e es) stands
      refine ⟨_, _, false, ?_, ended, rows.below (by omega), pairs.block, nofun⟩
      rw [own, done, text]
      simp

/-- Every legible value conveys itself, where the lines are wide enough for its depth. -/
theorem Legible.conveys (legible : Legible depth v) (narrow : c + 2 * depth + 2 < lineWidth) :
    Conveys mode c v := by
  induction legible generalizing c with
  | str text => exact conveys_str text (by omega)
  | int small => exact conveys_int small (by omega)
  | list each ih => exact conveys_list fun v mem => ⟨ih v mem (by omega), ih v mem (by omega)⟩
  | map keys distinct each ih => exact conveys_map keys (fun e mem => ih e mem (by omega)) (by omega)

end values

/-! Whole documents. -/

variable {mode : Multiline} {depth : Nat} {es : List (Value × Value)} {p : List Char}

theorem unacceptable?_of_clear (clear : Clear p) : unacceptable? p = none := by
  refine List.find?_eq_none.mpr fun e mem => ?_
  have verbatim : isVerbatim e.1 = true := clear e.1 (List.fst_mem_of_mem_zipIdx mem)
  rcases isVerbatim_iff.mp verbatim with feed | ⟨low, high⟩
  · rw [feed]
    decide
  · simp [low, high]

theorem clear_ending (marked : Bool) : Clear (ending marked) := by
  cases marked with
  | false => exact clear_nil
  | true =>
    have verbatim : isVerbatim '.' = true ∧ isVerbatim '\n' = true := by decide
    simpa [ending] using verbatim

def Sheet.opened : Sheet := (Sheet.blank.indentTo 0).indicator ['-', '-', '-'] true false false

@[simp] theorem Sheet.openEnded_indentTo (s : Sheet) (n : Nat) :
    (s.indentTo n).openEnded = s.openEnded := by
  simp only [Sheet.indentTo]
  split <;> split <;> rfl

/-- After the root the mark of the document's end is written, if the text could go on. -/
theorem write_of_ended (filled : es ≠ []) (ended : (Sheet.entries mode 0 es .opened).Ended) :
    (write mode (.map es)).toList =
      (Sheet.entries mode 0 es .opened).full ++ ending (Sheet.entries mode 0 es .opened).openEnded := by
  obtain ⟨e, es, rfl⟩ := List.exists_cons_of_ne_nil filled
  let body := Sheet.entries mode 0 (e :: es) .opened
  obtain ⟨text, stands⟩ := ended.indentTo 0
  have own : write mode (.map (e :: es)) = String.ofList (if (body.indentTo 0).openEnded then
      ((body.indentTo 0).indicator ['.', '.', '.'] true false false).indentTo 0 else
        body.indentTo 0).text := rfl
  rw [own, String.toList_ofList, Sheet.openEnded_indentTo]
  cases open_ : body.openEnded with
  | false => simpa [ending, body, open_] using text
  | true =>
    have moved : ((body.indentTo 0).indicator ['.', '.', '.'] true false false).indented = false := by
      simp [Sheet.indicator]
    obtain ⟨marker, -⟩ := Sheet.indentTo_of_movable (n := 0) (.inl moved)
    rw [if_pos rfl, marker, Sheet.text_indicator, stands.spaced, text]
    simp [ending]

variable (mode) in
/-- The root of a legible mapping is written on the lines after the mark of the start. -/
theorem root_spec (keys : ∀ e ∈ es, NarrowKey e) (each : ∀ e ∈ es, Legible depth e.2)
    (filled : es ≠ []) (narrow : 2 * depth + 2 < lineWidth) :
    ∃ p ks, (Sheet.entries mode 0 es .opened).full = '-' :: '-' :: '-' :: '\n' :: p ∧
      (Sheet.entries mode 0 es .opened).Ended ∧ Rows 0 .blockMappingStart p ks ∧
      ReadsPairs .full ks es := by
  have conveys : ∀ e ∈ es, Conveys mode 0 e.2 := fun e mem => (each e mem).conveys (by omega)
  obtain ⟨text, stands⟩ := Sheet.indentTo_of_movable (s := .opened) (n := 0) (.inl rfl)
  obtain ⟨p, ks, done, ended, rows, pairs⟩ := entries_spec keys conveys (by omega) filled stands
  refine ⟨p, ks, ?_, ended, rows, pairs⟩
  rw [done, text]
  simp
  rfl

/-- A legible mapping is read back from its document. -/
theorem read_write (legible : Legible depth (.map es)) (filled : es ≠ [])
    (narrow : 2 * depth < lineWidth) :
    read .full (write mode (.map es)).toList = .ok (.map es) := by
  cases legible with
  | @map depth _ keys distinct each =>
    obtain ⟨p, ks, done, ended, rows, pairs⟩ := root_spec mode keys each filled (by omega)
    let marked := (Sheet.entries mode 0 es .opened).openEnded
    have shape : (write mode (.map es)).toList = '-' :: '-' :: '-' :: '\n' :: (p ++ ending marked) := by
      rw [write_of_ended filled ended, done]
      rfl
    obtain ⟨ts, all, kinds⟩ := tokens_document rows marked
    have clear : Clear ('-' :: '-' :: '-' :: '\n' :: (p ++ ending marked)) := by
      simp only [clear_cons, clear_append]
      exact ⟨by decide, by decide, by decide, by decide, rows.closed.clear, clear_ending marked⟩
    rw [shape]
    exact read_of_tokens (unacceptable?_of_clear clear) all (by simpa using kinds)
      pairs.block (Legible.map keys distinct each).tidy

end OverlayBuild.Yaml
