import Mathlib.Algebra.Ring.Nat
import OverlayBuild.Proofs.Outcome
import OverlayBuild.Proofs.Text
import OverlayBuild.Report.Format

/-! Rows in columns. They are set exactly when all are as long as the headers, and then each value of a
column starts at one offset, whatever it holds. -/
namespace OverlayBuild.Report

open Text

def Longest (all : List (List String)) (j n : Nat) : Prop :=
  (∃ row ∈ all, ∃ value, row[j]? = some value ∧ value.length = n) ∧
    ∀ row ∈ all, ∀ value, row[j]? = some value → value.length ≤ n

/-- Where a column starts: behind those before it, each with its padding. -/
def offset (widths : List Nat) (j : Nat) : Nat := ((widths.take j).map (· + padding)).sum

/-- A row in columns: each value starts at the offset of its column, and there are blanks from its end
to the next offset. -/
structure Laid (widths : List Nat) (row : List String) (whole : List Char) : Prop where
  starts : ∀ j value, row[j]? = some value → value.toList <+: whole.drop (offset widths j)
  blank : ∀ j value i, row[j]? = some value → offset widths j + value.length ≤ i →
    i < offset widths (j + 1) → whole[i]? = some ' '
  ends : whole.length = offset widths row.length

def Trimmed (whole line : List Char) : Prop :=
  ∃ back, whole = line ++ back ∧ (∀ c ∈ back, isBlank c = true) ∧
    ∀ c ∈ line.getLast?, isBlank c = false

variable {headers row : List String} {rows all : List (List String)} {widths : List Nat}
  {count j w : Nat} {value : String} {lines : List String}

/-! Widths. -/

theorem foldl_max_spec (n : Nat) (ns : List Nat) :
    ns.foldl max n ∈ n :: ns ∧ ∀ m ∈ n :: ns, m ≤ ns.foldl max n := by
  induction ns generalizing n with
  | nil => simp
  | cons m ns ih =>
    obtain ⟨mem, bound⟩ := ih (max n m)
    rw [List.foldl_cons]
    refine ⟨?_, ?_⟩
    · rcases List.mem_cons.mp mem with same | later
      · rw [same]
        rcases le_total n m with le | le <;> simp [le]
      · exact List.mem_cons_of_mem _ (List.mem_cons_of_mem _ later)
    · obtain ⟨first, later⟩ := List.forall_mem_cons.mp bound
      exact List.forall_mem_cons.mpr ⟨(le_max_left n m).trans first,
        List.forall_mem_cons.mpr ⟨(le_max_right n m).trans first, later⟩⟩

theorem length_widths (count : Nat) (all : List (List String)) :
    (Report.widths count all).length = count := by
  simp [Report.widths]

theorem exists_longest (some : all ≠ []) (same : ∀ row ∈ all, row.length = count)
    (lt : j < count) : ∃ w, (Report.widths count all)[j]? = .some w ∧ Longest all j w := by
  have value {row : List String} (mem : row ∈ all) : row[j]? = .some (row.getD j "") := by
    rw [List.getD_eq_getElem?_getD, List.getElem?_eq_getElem (by rw [same row mem]; exact lt)]
    rfl
  let ns := all.map fun row => (row.getD j "").length
  obtain ⟨mem, bound⟩ := foldl_max_spec 0 ns
  refine ⟨ns.foldl max 0, by simp [Report.widths, lt, ns], ?_, fun row mem text found => ?_⟩
  · obtain ⟨first, rest, rfl⟩ := List.exists_cons_of_ne_nil some
    rcases List.mem_cons.mp mem with zero | mem
    · have le := bound _ (List.mem_cons_of_mem 0 (List.mem_map_of_mem List.mem_cons_self))
      exact ⟨first, List.mem_cons_self, _, value List.mem_cons_self, by omega⟩
    · obtain ⟨row, mem, length⟩ := List.mem_map.mp mem
      exact ⟨row, mem, _, value mem, length⟩
  · obtain rfl := Option.some.inj (found.symm.trans (value mem))
    exact bound _ (List.mem_cons_of_mem 0 (List.mem_map_of_mem mem))

/-! One row. -/

def cells (widths : List Nat) (row : List String) : List (List Char) :=
  widths.zipWith (fun w value => cell (w + padding) value) row

theorem line_eq (same : row.length = widths.length) :
    line widths row = .ok (String.ofList (trimEnd (cells widths row).flatten)) := by
  rw [line, if_neg (by omega)]
  rfl

theorem length_cell (fits : value.length ≤ w) : (cell w value).length = w := by
  rw [cell, List.length_append, List.length_replicate, String.length_toList]
  omega

theorem cell_blank {i : Nat} (fits : value.length ≤ w) (past : value.length ≤ i) (within : i < w) :
    (cell w value)[i]? = some ' ' := by
  rw [cell, List.getElem?_append_right (by rwa [String.length_toList]),
    List.getElem?_replicate_of_lt (by rw [String.length_toList]; omega)]

theorem offset_cons (j : Nat) : offset (w :: widths) (j + 1) = w + padding + offset widths j := by
  simp [offset]

def Fits (row : List String) (widths : List Nat) : Prop :=
  List.Forall₂ (fun value w => value.length ≤ w) row widths

theorem Fits.laid (fits : Fits row widths) : Laid widths row (cells widths row).flatten := by
  induction fits with
  | nil => exact ⟨nofun, nofun, rfl⟩
  | @cons value w row widths own rest ih =>
    have width : (cell (w + padding) value).length = w + padding := length_cell (by omega)
    have whole : (cells (w :: widths) (value :: row)).flatten =
      cell (w + padding) value ++ (cells widths row).flatten := rfl
    rw [whole]
    refine ⟨fun j text found => ?_, fun j text i found past before => ?_, ?_⟩
    · cases j with
      | zero =>
        obtain rfl := Option.some.inj found
        rw [cell, List.append_assoc]
        exact List.prefix_append _ _
      | succ j =>
        rw [offset_cons, ← List.drop_drop, List.drop_left' width]
        exact ih.starts j text found
    · cases j with
      | zero =>
        obtain rfl := Option.some.inj found
        have within : i < w + padding := by simpa [offset] using before
        rw [List.getElem?_append_left (within.trans_eq width.symm)]
        exact cell_blank (by omega) (by simpa [offset] using past) within
      | succ j =>
        rw [offset_cons] at past before
        rw [List.getElem?_append_right (by omega), width]
        exact ih.blank j text _ found (by omega) (by omega)
    · rw [List.length_append, width, ih.ends, List.length_cons, offset_cons]

theorem fits_widths (same : ∀ row ∈ all, row.length = count) (mem : row ∈ all) :
    Fits row (Report.widths count all) := by
  refine List.forall₂_iff_get.mpr ⟨by rw [same row mem, length_widths], fun j lt also => ?_⟩
  obtain ⟨w, found, -, longest⟩ :=
    exists_longest (List.ne_nil_of_mem mem) same (by rwa [length_widths] at also)
  obtain ⟨_, rfl⟩ := List.getElem?_eq_some_iff.mp found
  exact longest row mem _ (List.getElem?_eq_getElem lt)

/-! All rows. -/

def lineText (widths : List Nat) (row : List String) : String :=
  String.ofList (trimEnd (cells widths row).flatten)

theorem columns_of_long (long : ∃ row ∈ rows, headers.length < row.length) :
    columns headers rows = .error .tooLong := by
  obtain ⟨row, mem, longer⟩ := long
  have found : (headers :: rows).any (fun row => headers.length < row.length) = true :=
    List.any_eq_true.mpr ⟨row, List.mem_cons_of_mem _ mem, by simpa using longer⟩
  rw [columns, found]
  rfl

theorem columns_of_not_long (bounded : ∀ row ∈ rows, row.length ≤ headers.length) :
    columns headers rows =
      (headers :: rows).mapM (line (Report.widths headers.length (headers :: rows))) := by
  have none : (headers :: rows).any (fun row => headers.length < row.length) = false := by
    rw [List.any_eq_false]
    intro row mem
    rcases List.mem_cons.mp mem with rfl | mem
    · simp
    · simpa using bounded row mem
  rw [columns, none]
  rfl

theorem columns_eq_ok (same : ∀ row ∈ rows, row.length = headers.length) :
    columns headers rows =
      .ok ((headers :: rows).map (lineText (Report.widths headers.length (headers :: rows)))) := by
  have every : ∀ row ∈ headers :: rows, row.length = headers.length :=
    List.forall_mem_cons.mpr ⟨rfl, same⟩
  rw [columns_of_not_long fun row mem => (same row mem).le, mapM_eq_ok_iff]
  refine List.forall₂_map_right_iff.mpr (List.forall₂_same.mpr fun row mem => ?_)
  exact line_eq (by rw [every row mem, length_widths])

/-- The first row that is too short fails, after the lines of those before it. -/
theorem columns_of_short (bounded : ∀ row ∈ rows, row.length ≤ headers.length)
    (found : rows.find? (·.length < headers.length) = some row) :
    columns headers rows = .error (.tooShort row.length) := by
  obtain ⟨short, before, after, rfl, fine⟩ := List.find?_eq_some_iff_append.mp found
  rw [columns_of_not_long bounded, mapM_eq_error_iff]
  refine ⟨headers :: before, row, after, rfl, fun other mem => ⟨_, line_eq ?_⟩, ?_⟩
  · rw [length_widths]
    rcases List.mem_cons.mp mem with rfl | mem
    · rfl
    · have short : ¬ other.length < headers.length := by simpa using fine other mem
      exact Nat.le_antisymm (bounded other (by simp [mem])) (Nat.le_of_not_lt short)
  · exact if_pos (by rw [length_widths]; simpa using short)

/-- A row that is too long is the first thing to fail; where there is none, it is the first row that is
too short. -/
theorem columns_cases (headers : List String) (rows : List (List String)) :
    (columns headers rows = .error .tooLong ∧ ∃ row ∈ rows, headers.length < row.length) ∨
    (∃ row, columns headers rows = .error (.tooShort row.length) ∧
      (∀ row ∈ rows, row.length ≤ headers.length) ∧
      rows.find? (·.length < headers.length) = some row) ∨
    (columns headers rows = .ok ((headers :: rows).map
        (lineText (Report.widths headers.length (headers :: rows)))) ∧
      ∀ row ∈ rows, row.length = headers.length) := by
  by_cases long : ∃ row ∈ rows, headers.length < row.length
  · exact .inl ⟨columns_of_long long, long⟩
  have bounded : ∀ row ∈ rows, row.length ≤ headers.length := by
    simpa using long
  cases found : rows.find? (·.length < headers.length) with
  | some row => exact .inr (.inl ⟨row, columns_of_short bounded found, bounded, rfl⟩)
  | none =>
    have same : ∀ row ∈ rows, row.length = headers.length := fun row mem => by
      have fine := List.find?_eq_none.mp found row mem
      have le := bounded row mem
      simp at fine
      omega
    exact .inr (.inr ⟨columns_eq_ok same, same⟩)

theorem exists_columns_iff :
    (∃ lines, columns headers rows = .ok lines) ↔ ∀ row ∈ rows, row.length = headers.length := by
  rcases columns_cases headers rows with ⟨failed, row, mem, long⟩ | ⟨row, failed, -, found⟩ |
    ⟨done, same⟩
  · simp only [failed, reduceCtorEq, exists_false, false_iff]
    exact fun same => absurd (same row mem) long.ne'
  · simp only [failed, reduceCtorEq, exists_false, false_iff]
    have short : row.length < headers.length := by simpa using List.find?_some found
    exact fun same => absurd (same row (List.mem_of_find?_eq_some found)) short.ne
  · exact ⟨fun _ => same, fun _ => ⟨_, done⟩⟩

theorem columns_tooLong_iff :
    columns headers rows = .error .tooLong ↔ ∃ row ∈ rows, headers.length < row.length := by
  refine ⟨fun failed => ?_, columns_of_long⟩
  rcases columns_cases headers rows with ⟨-, long⟩ | ⟨row, short, -⟩ | ⟨done, -⟩
  · exact long
  · exact absurd (failed.symm.trans short) (by simp)
  · exact absurd (failed.symm.trans done) (by simp)

theorem columns_tooShort_iff {n : Nat} :
    columns headers rows = .error (.tooShort n) ↔
      (∀ row ∈ rows, row.length ≤ headers.length) ∧
        ∃ row, rows.find? (·.length < headers.length) = some row ∧ row.length = n := by
  constructor
  · intro failed
    rcases columns_cases headers rows with ⟨long, -⟩ | ⟨row, short, bounded, found⟩ | ⟨done, -⟩
    · exact absurd (failed.symm.trans long) (by simp)
    · obtain rfl := Misfit.tooShort.inj (Except.error.inj (failed.symm.trans short))
      exact ⟨bounded, row, found, rfl⟩
    · exact absurd (failed.symm.trans done) (by simp)
  · rintro ⟨bounded, row, found, rfl⟩
    exact columns_of_short bounded found

/-- What is set in columns: a line for the headers and one for each row, each laid by the longest
values of the columns and trimmed. -/
theorem columns_laid {lines : List String} (done : columns headers rows = .ok lines) :
    lines.length = rows.length + 1 ∧ ∃ widths, widths.length = headers.length ∧
      (∀ j w, widths[j]? = some w → Longest (headers :: rows) j w) ∧
      List.Forall₂ (fun row line => ∃ whole, Laid widths row whole ∧ Trimmed whole line.toList)
        (headers :: rows) lines := by
  have same := exists_columns_iff.mp ⟨lines, done⟩
  have every : ∀ row ∈ headers :: rows, row.length = headers.length :=
    List.forall_mem_cons.mpr ⟨rfl, same⟩
  obtain rfl := Except.ok.inj (done.symm.trans (columns_eq_ok same))
  refine ⟨by simp, Report.widths headers.length (headers :: rows), length_widths _ _,
    fun j w found => ?_, List.forall₂_map_right_iff.mpr (List.forall₂_same.mpr fun row mem => ?_)⟩
  · obtain ⟨lt, -⟩ := List.getElem?_eq_some_iff.mp found
    obtain ⟨width, also, longest⟩ :=
      exists_longest (List.cons_ne_nil _ _) every (by rwa [length_widths] at lt)
    exact Option.some.inj (found.symm.trans also) ▸ longest
  · refine ⟨_, (fits_widths every mem).laid, ?_⟩
    rw [lineText, String.toList_ofList]
    exact exists_dropEndWhile isBlank _

end OverlayBuild.Report
