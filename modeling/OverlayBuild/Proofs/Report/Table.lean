import OverlayBuild.Proofs.Number.Text
import OverlayBuild.Proofs.Report.Columns
import OverlayBuild.Report.Format

/-! The table of a result: a header and a line for each id with the number of its tier. The lines are
read again by the place at which the header has its second title. -/
namespace OverlayBuild.Report

open Text Yaml

def tierPairs (tiers : List (List String)) : List (Nat × String) :=
  tiers.zipIdx.flatMap fun (ids, n) => ids.map fun id => (n, id)

/-- The number at the start of a line, and what stands from the second column on. -/
def readRow (start : Nat) (line : List Char) : Nat × String :=
  (ofDigits 10 ((line.takeWhile Char.isDigit).map fun c => c.toNat - 0x30),
    String.ofList (line.drop start))

/-- The rows of a table behind its header, which ends with the title of the second column. -/
def readTable (text : List Char) : List (Nat × String) :=
  match (splitAt '\n' text).dropLast with
  | [] => []
  | header :: lines => lines.map (readRow (header.length - "ID".length))

variable {tiers : List (List String)} {s id : String} {w v n : Nat} {widths : List Nat}

theorem tierRows_eq (tiers : List (List String)) :
    tierRows tiers = (tierPairs tiers).map fun p => [String.ofList (decimal p.1), p.2] := by
  simp [tierRows, tierPairs, List.map_flatMap, Function.comp_def]

theorem tierPairs_eq_nil_iff : tierPairs tiers = [] ↔ ∀ tier ∈ tiers, tier = [] := by
  rw [tierPairs, List.flatMap_eq_nil_iff]
  constructor
  · intro none tier mem
    obtain ⟨n, lt, rfl⟩ := List.getElem_of_mem mem
    exact List.map_eq_nil_iff.mp (none (tiers[n], n) (List.mk_mem_zipIdx_iff_getElem?.mpr (by simp)))
  · rintro none ⟨tier, n⟩ mem
    exact List.map_eq_nil_iff.mpr (none tier (List.fst_mem_of_mem_zipIdx mem))

theorem exists_tier_of_mem {p : Nat × String} (mem : p ∈ tierPairs tiers) :
    ∃ tier ∈ tiers, p.2 ∈ tier := by
  obtain ⟨⟨tier, n⟩, inside, mem⟩ := List.mem_flatMap.mp mem
  obtain ⟨id, own, rfl⟩ := List.mem_map.mp mem
  exact ⟨tier, List.fst_mem_of_mem_zipIdx inside, own⟩

theorem trimEnd_blanks {cs : List Char} (some : cs ≠ []) (solid : ∀ c ∈ cs.getLast?, isBlank c = false)
    (k : Nat) : trimEnd (cs ++ List.replicate k ' ') = cs := by
  obtain ⟨front, x, rfl⟩ := (List.eq_nil_or_concat' cs).resolve_left some
  have keep : isBlank x = false := solid x (by simp)
  rw [trimEnd, List.append_assoc, List.singleton_append]
  refine dropEndWhile_append keep (fun c mem => ?_) front
  rw [List.eq_of_mem_replicate mem]
  decide

theorem solid_of_any {cs : List Char} (solid : cs.getLast?.any isBlank = false) :
    ∀ c ∈ cs.getLast?, isBlank c = false := by
  intro c last
  rwa [Option.mem_def.mp last] at solid

/-- The line of a row of two values that do not end in white space. Where the second is empty, the
blanks behind the first are cut off with those behind it. -/
theorem lineText_pair (some : s ≠ "") (solid : ∀ c ∈ s.toList.getLast?, isBlank c = false)
    (ends : ∀ c ∈ id.toList.getLast?, isBlank c = false) :
    (lineText [w, v] [s, id]).toList =
      if id = "" then s.toList else cell (w + padding) s ++ id.toList := by
  have whole : (cells [w, v] [s, id]).flatten = cell (w + padding) s ++ cell (v + padding) id := by
    simp [cells]
  rw [lineText, String.toList_ofList, whole]
  split
  next empty =>
    rw [empty, cell, cell, String.toList_empty, List.nil_append, List.append_assoc,
      List.replicate_append_replicate]
    exact trimEnd_blanks (by simpa using some) solid _
  next filled =>
    rw [cell.eq_def _ id, ← List.append_assoc]
    refine trimEnd_blanks (by simp [filled]) (fun c last => ends c ?_) _
    rwa [List.getLast?_append_of_ne_nil _ (by simpa using filled)] at last

theorem isBlank_of_isDigit {c : Char} (digit : c.isDigit = true) : isBlank c = false := by
  simp only [Char.isDigit, Bool.and_eq_true, decide_eq_true_eq, ge_iff_le] at digit
  have low : 48 ≤ c.toNat := UInt32.le_iff_toNat_le.mp digit.1
  have high : c.toNat ≤ 57 := UInt32.le_iff_toNat_le.mp digit.2
  simp only [isBlank, Bool.or_eq_false_iff, Bool.and_eq_false_iff, decide_eq_false_iff_not,
    beq_eq_false_iff_ne]
  omega

theorem takeWhile_decimal (n : Nat) {rest : List Char} (ends : ∀ c ∈ rest.head?, c.isDigit = false) :
    (decimal n ++ rest).takeWhile Char.isDigit = decimal n := by
  rw [List.takeWhile_append_of_pos fun c => isDigit_of_mem_decimal]
  cases rest with
  | nil => simp
  | cons c rest => simp [ends c rfl]

theorem readRow_of_takeWhile {start : Nat} {line : List Char}
    (number : line.takeWhile Char.isDigit = decimal n) :
    readRow start line = (n, String.ofList (line.drop start)) := by
  rw [readRow, number, map_decimal, ofDigits_digits]

/-- A line is read as the number and the id that it was made of. -/
theorem readRow_lineText (fits : Fits [String.ofList (decimal n), id] [w, v])
    (ends : ∀ c ∈ id.toList.getLast?, isBlank c = false) :
    readRow (w + padding) (lineText [w, v] [String.ofList (decimal n), id]).toList = (n, id) := by
  have short : (String.ofList (decimal n)).length ≤ w := (List.forall₂_cons.mp fits).1
  have width : (cell (w + padding) (String.ofList (decimal n))).length = w + padding :=
    length_cell (by omega)
  have solid : ∀ c ∈ (String.ofList (decimal n)).toList.getLast?, isBlank c = false := by
    rw [String.toList_ofList]
    exact fun c last => isBlank_of_isDigit (isDigit_of_mem_decimal (List.mem_of_getLast? last))
  have some : String.ofList (decimal n) ≠ "" := fun none =>
    decimal_ne_nil (n := n) (by simpa using congrArg String.toList none)
  rw [lineText_pair some solid ends]
  split
  next empty =>
    have number : (decimal n).takeWhile Char.isDigit = decimal n :=
      List.takeWhile_eq_self_iff.mpr fun c => isDigit_of_mem_decimal
    rw [String.length_ofList] at short
    rw [String.toList_ofList, readRow_of_takeWhile number, List.drop_eq_nil_of_le (by omega), empty]
  next =>
    have number :
        (cell (w + padding) (String.ofList (decimal n)) ++ id.toList).takeWhile Char.isDigit =
          decimal n := by
      obtain ⟨k, blanks⟩ : ∃ k, w + padding - (String.ofList (decimal n)).length = k + 1 :=
        ⟨w + padding - (String.ofList (decimal n)).length - 1, by rw [padding]; omega⟩
      rw [cell, blanks, String.toList_ofList, List.append_assoc]
      exact takeWhile_decimal n (by simp [List.replicate_succ])
    rw [readRow_of_takeWhile number, List.drop_left' width, String.ofList_toList]

/-- A line holds what its values hold, and blanks. -/
theorem mem_lineText {row : List String} {c : Char} (mem : c ∈ (lineText widths row).toList) :
    c = ' ' ∨ ∃ s ∈ row, c ∈ s.toList := by
  rw [lineText, String.toList_ofList] at mem
  obtain ⟨back, whole, -⟩ := exists_dropEndWhile isBlank (cells widths row).flatten
  have mem : c ∈ (cells widths row).flatten := whole ▸ List.mem_append_left _ mem
  obtain ⟨cs, inside, mem⟩ := List.mem_flatten.mp mem
  rw [cells, ← List.map_uncurry_zip_eq_zipWith] at inside
  obtain ⟨⟨w, s⟩, both, rfl⟩ := List.mem_map.mp inside
  rcases List.mem_append.mp mem with own | blank
  · exact .inr ⟨s, (List.of_mem_zip both).2, own⟩
  · exact .inl (List.eq_of_mem_replicate blank)

theorem readTable_lines {header : List Char} {lines : List (List Char)}
    (apart : ∀ l ∈ header :: lines, '\n' ∉ l) :
    readTable ((header :: lines).flatMap (· ++ ['\n'])) =
      lines.map (readRow (header.length - "ID".length)) := by
  rw [readTable, splitAt_flatMap apart, List.dropLast_concat]

def titles : List String := ["TIER", "ID"]

theorem length_of_mem_tierRows {row : List String} (mem : row ∈ tierRows tiers) :
    row.length = titles.length := by
  rw [tierRows_eq] at mem
  obtain ⟨p, -, rfl⟩ := List.mem_map.mp mem
  rfl

theorem newline_not_mem {row : List String} (single : ∀ p ∈ tierPairs tiers, '\n' ∉ p.2.toList)
    (mem : row ∈ titles :: tierRows tiers) : ∀ s ∈ row, '\n' ∉ s.toList := by
  rcases List.mem_cons.mp mem with rfl | mem
  · decide
  · rw [tierRows_eq] at mem
    obtain ⟨p, own, rfl⟩ := List.mem_map.mp mem
    simp only [List.forall_mem_cons, String.toList_ofList]
    refine ⟨fun found => ?_, single p own, nofun⟩
    exact absurd (isDigit_of_mem_decimal found) (by decide)

/-- The lines of a table. -/
theorem lines_table (multiline : Multiline) {r : BuildResult} (some : tierRows r.tiers ≠ []) :
    lines multiline .table r = (titles :: tierRows r.tiers).map fun row =>
      (lineText (Report.widths titles.length (titles :: tierRows r.tiers)) row).toList := by
  have made : columns titles (tierRows r.tiers) = .ok _ :=
    columns_eq_ok fun row mem => length_of_mem_tierRows mem
  rw [titles] at made
  rw [lines, if_neg some, made]
  exact List.map_map

theorem toList_text (multiline : Multiline) (format : Format) (r : BuildResult) :
    (text multiline format r).toList = (lines multiline format r).flatMap (· ++ ['\n']) :=
  String.toList_ofList

theorem text_table_eq_empty_iff {multiline : Multiline} {r : BuildResult} :
    text multiline .table r = "" ↔ ∀ tier ∈ r.tiers, tier = [] := by
  have rows : tierRows r.tiers = [] ↔ ∀ tier ∈ r.tiers, tier = [] := by
    rw [tierRows_eq, List.map_eq_nil_iff, tierPairs_eq_nil_iff]
  rw [← rows]
  constructor
  · intro empty
    by_contra some
    have empty := congrArg String.toList empty
    rw [toList_text, lines_table multiline some] at empty
    simp at empty
  · intro none
    simp [text, lines, none]

/-- The table is read as the ids and the numbers of their tiers. -/
theorem readTable_text {multiline : Multiline} {r : BuildResult}
    (plain : ∀ tier ∈ r.tiers, ∀ id ∈ tier,
      '\n' ∉ id.toList ∧ ∀ c ∈ id.toList.getLast?, isBlank c = false) :
    readTable (text multiline .table r).toList = tierPairs r.tiers := by
  by_cases none : tierRows r.tiers = []
  · have pairs : tierPairs r.tiers = [] := List.map_eq_nil_iff.mp (tierRows_eq _ ▸ none)
    rw [pairs]
    simp [text, lines, none, readTable, splitAt]
  have every : ∀ row ∈ titles :: tierRows r.tiers, row.length = titles.length :=
    List.forall_mem_cons.mpr ⟨rfl, fun row mem => length_of_mem_tierRows mem⟩
  obtain ⟨w, v, columns⟩ : ∃ w v,
      Report.widths titles.length (titles :: tierRows r.tiers) = [w, v] :=
    List.length_eq_two.mp (length_widths _ _)
  have fits {row : List String} (mem : row ∈ titles :: tierRows r.tiers) : Fits row [w, v] :=
    columns ▸ fits_widths every mem
  have pair : ∀ p ∈ tierPairs r.tiers,
      '\n' ∉ p.2.toList ∧ ∀ c ∈ p.2.toList.getLast?, isBlank c = false := by
    intro p mem
    obtain ⟨tier, inside, mem⟩ := exists_tier_of_mem mem
    exact plain tier inside p.2 mem
  have header : (lineText [w, v] titles).toList.length - "ID".length = w + padding := by
    have short : "TIER".length ≤ w := (List.forall₂_cons.mp (fits List.mem_cons_self)).1
    rw [titles, lineText_pair (by decide) (solid_of_any (by decide)) (solid_of_any (by decide)),
      if_neg (by decide), List.length_append, length_cell (by omega)]
    exact Nat.add_sub_cancel _ _
  have apart : ∀ row ∈ titles :: tierRows r.tiers, '\n' ∉ (lineText [w, v] row).toList := by
    intro row mem found
    obtain blank | ⟨s, own, broken⟩ := mem_lineText found
    · exact absurd blank (by decide)
    · exact newline_not_mem (fun p mem => (pair p mem).1) mem s own broken
  rw [toList_text, lines_table multiline none, columns, List.map_cons, readTable_lines, header]
  · rw [tierRows_eq, List.map_map, List.map_map]
    refine (List.map_congr_left fun p mem => ?_).trans (List.map_id _)
    have row : [String.ofList (decimal p.1), p.2] ∈ titles :: tierRows r.tiers :=
      List.mem_cons_of_mem _ (tierRows_eq r.tiers ▸ List.mem_map_of_mem mem)
    exact readRow_lineText (fits row) (pair p mem).2
  · refine List.forall_mem_cons.mpr ⟨apart titles List.mem_cons_self, List.forall_mem_map.mpr ?_⟩
    exact fun row mem => apart row (List.mem_cons_of_mem _ mem)

/-- Rows are set in columns exactly when all are as long as the headers. A row that is too long is the
first thing to fail, and then the first row that is too short; else there is a line for the headers and
for each row, where every value starts at the offset of its column: behind the longest values of the
columns before it and their padding.

The table of a result has no line where there is no id. The lines behind the header are read as the ids
and the numbers of their tiers, in order, where no id holds a break or ends in white space. -/
theorem columns_line_up :
    (∀ (headers : List String) (rows : List (List String)),
      ((∃ lines, columns headers rows = .ok lines) ↔ ∀ row ∈ rows, row.length = headers.length) ∧
      (columns headers rows = .error .tooLong ↔ ∃ row ∈ rows, headers.length < row.length) ∧
      (∀ n, columns headers rows = .error (.tooShort n) ↔
        (∀ row ∈ rows, row.length ≤ headers.length) ∧
          ∃ row, rows.find? (·.length < headers.length) = some row ∧ row.length = n) ∧
      ∀ lines, columns headers rows = .ok lines → lines.length = rows.length + 1 ∧
        ∃ widths, widths.length = headers.length ∧
          (∀ j w, widths[j]? = some w → Longest (headers :: rows) j w) ∧
          List.Forall₂ (fun row line => ∃ whole, Laid widths row whole ∧ Trimmed whole line.toList)
            (headers :: rows) lines) ∧
    ∀ (r : BuildResult) (multiline : Multiline),
      (text multiline .table r = "" ↔ ∀ tier ∈ r.tiers, tier = []) ∧
      ((∀ tier ∈ r.tiers, ∀ id ∈ tier,
          '\n' ∉ id.toList ∧ ∀ c ∈ id.toList.getLast?, isBlank c = false) →
        readTable (text multiline .table r).toList = tierPairs r.tiers) := by
  refine ⟨fun headers rows => ⟨exists_columns_iff, columns_tooLong_iff, fun n => columns_tooShort_iff,
    fun lines => columns_laid⟩, fun r multiline => ⟨text_table_eq_empty_iff, readTable_text⟩⟩

def uneven : List (List String) := [["\x7b0\x7d", "", "c"], ["", " two", "\u00e9\u00e9"]]

def sparse : BuildResult := ⟨[], [["", "  ns|a"], [], ["b\tc"]], []⟩

theorem columns_line_up_uneven :
    columns ["A", "B", "C"] uneven =
      .ok ["A      B       C", "\x7b0\x7d            c", "        two    \u00e9\u00e9"] ∧
    (∃ widths, widths.length = 3 ∧
      (∀ j w, widths[j]? = some w → Longest (["A", "B", "C"] :: uneven) j w) ∧
      List.Forall₂ (fun row line => ∃ whole, Laid widths row whole ∧ Trimmed whole line.toList)
        (["A", "B", "C"] :: uneven)
        ["A      B       C", "\x7b0\x7d            c", "        two    \u00e9\u00e9"]) ∧
    text .quoted .table sparse = "TIER    ID\n0\n0         ns|a\n2       b\tc\n" ∧
    readTable (text .quoted .table sparse).toList = [(0, ""), (0, "  ns|a"), (2, "b\tc")] := by
  have set : columns ["A", "B", "C"] uneven =
      .ok ["A      B       C", "\x7b0\x7d            c", "        two    \u00e9\u00e9"] := by
    decide
  have plain : ∀ tier ∈ sparse.tiers, ∀ id ∈ tier,
      '\n' ∉ id.toList ∧ id.toList.getLast?.any isBlank = false := by decide
  obtain ⟨lined, table⟩ := columns_line_up
  exact ⟨set, ((lined _ _).2.2.2 _ set).2, by decide +kernel, (table sparse .quoted).2
    fun tier inside id mem => (plain tier inside id mem).imp_right solid_of_any⟩

end OverlayBuild.Report
