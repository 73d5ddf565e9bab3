import OverlayBuild.Command
import OverlayBuild.Proofs.Outcome
import OverlayBuild.Proofs.Text

/-! Commands as they are shown. A shell that goes by quotes, backslashes and blanks reads the words
of a command off its line, whatever they hold, and finds nothing else in the line to act on; messages
of commands that fail hold this line. -/
namespace OverlayBuild

namespace Shell

open Text

variable {c : Char} {cs rest taken : List Char} {word : Option (List Char)} {words : List (List Char)}

/-- Characters that a shell acts on outside of quotes, or even between double ones. -/
def special : List Char :=
  ['|', '&', ';', '<', '>', '(', ')', '$', '\x60', '\\', '"', '*', '?', '[', ']', '#', '~', '!', '^',
    '\x7b', '\x7d', '\t', '\n', '\r']

/-- The characters of a line that do not stand between single quotes, without the quotes that open
and close. -/
def exposed : Quoting → List Char → List Char
  | _, [] => []
  | .none, c :: rest =>
    if c = '\'' then exposed .single rest
    else if c = '"' then exposed .double rest
    else c :: exposed .none rest
  | .single, c :: rest => if c = '\'' then exposed .none rest else exposed .single rest
  | .double, c :: rest => if c = '"' then exposed .none rest else c :: exposed .double rest

/-! A word in a line. -/

theorem not_special_of_isSafe (safe : isSafe c = true) : c ∉ special := by
  have apart : special.all (fun d => !isSafe d) = true := by decide
  intro mem
  simpa [safe] using List.all_eq_true.mp apart c mem

theorem isSafe_ordinary (safe : isSafe c = true) :
    c ≠ '\\' ∧ c ≠ '\'' ∧ c ≠ '"' ∧ isSeparator c = false := by
  have other {d : Char} (barred : isSafe d = false) : c ≠ d := by
    rintro rfl
    simp [safe] at barred
  refine ⟨other (by decide), other (by decide), other (by decide), ?_⟩
  have blanks : c ≠ ' ' ∧ c ≠ '\t' ∧ c ≠ '\n' :=
    ⟨other (by decide), other (by decide), other (by decide)⟩
  simp [isSeparator, blanks]

theorem splitFrom_safe_cons (safe : isSafe c = true) :
    splitFrom word .none (c :: rest) = splitFrom (addTo word c) .none rest := by
  obtain ⟨slash, single, double, blank⟩ := isSafe_ordinary safe
  rw [splitFrom, if_neg single, if_neg double, blank]
  · rfl
  · exact fun d more same _ => slash same

theorem splitFrom_safe (safe : ∀ c ∈ cs, isSafe c = true) :
    splitFrom (some taken) .none (cs ++ rest) =
      splitFrom (some (cs.reverse ++ taken)) .none rest := by
  induction cs generalizing taken with
  | nil => rfl
  | cons c cs ih =>
    obtain ⟨first, later⟩ := List.forall_mem_cons.mp safe
    rw [List.cons_append, splitFrom_safe_cons first, addTo, Option.getD_some, ih later]
    simp

theorem splitFrom_quotedChar :
    splitFrom (some taken) .single (quotedChar c ++ rest) =
      splitFrom (some (c :: taken)) .single rest := by
  by_cases quote : c = '\''
  · subst quote
    rfl
  · simp [quotedChar, quote, splitFrom, addTo]

theorem splitFrom_quoted :
    splitFrom (some taken) .single (cs.flatMap quotedChar ++ rest) =
      splitFrom (some (cs.reverse ++ taken)) .single rest := by
  induction cs generalizing taken with
  | nil => rfl
  | cons c cs ih =>
    rw [List.flatMap_cons, List.append_assoc, splitFrom_quotedChar, ih]
    simp

/-- A word that is written is read as a word, whatever comes after it. -/
theorem splitFrom_quote (cs rest : List Char) :
    splitFrom none .none (quote cs ++ rest) = splitFrom (some cs.reverse) .none rest := by
  rw [quote]
  split
  next plain =>
    obtain ⟨c, cs, rfl⟩ := List.exists_cons_of_ne_nil plain.1
    obtain ⟨first, later⟩ := List.forall_mem_cons.mp (List.all_eq_true.mp plain.2)
    rw [List.cons_append, splitFrom_safe_cons first, addTo, Option.getD_none, splitFrom_safe later]
    simp
  next =>
    have opened (more : List Char) :
        splitFrom none .none ('\'' :: more) = splitFrom (some []) .single more := rfl
    have closed (taken : List Char) :
        splitFrom (some taken) .single ('\'' :: rest) = splitFrom (some taken) .none rest := rfl
    rw [List.cons_append, List.cons_append, opened, List.append_assoc, splitFrom_quoted,
      List.singleton_append, closed, List.append_nil]

theorem splitFrom_joinWith (words : List (List Char)) :
    splitFrom none .none (joinWith [' '] (words.map quote)) = some words := by
  induction words with
  | nil => rfl
  | cons w words ih =>
    cases words with
    | nil =>
      rw [List.map_singleton, joinWith, ← List.append_nil (quote w), splitFrom_quote]
      simp [splitFrom, endWord]
    | cons v words =>
      have blank (taken more : List Char) : splitFrom (some taken) .none (' ' :: more) =
          (splitFrom none .none more).map (endWord (some taken)) := rfl
      rw [List.map_cons, List.map_cons, joinWith, List.append_assoc, List.singleton_append,
        splitFrom_quote, blank, ← List.map_cons, ih]
      · simp [endWord]
      · simp

theorem split_join (words : List String) : split (join words) = some words := by
  have split := splitFrom_joinWith (words.map String.toList)
  rw [List.map_map] at split
  rw [Shell.split, join, String.toList_ofList, Function.comp_def] at *
  simp [split, Function.comp_def]

/-! What a shell could act on. -/

theorem exposed_safe (safe : ∀ c ∈ cs, isSafe c = true) :
    exposed .none (cs ++ rest) = cs ++ exposed .none rest := by
  induction cs with
  | nil => rfl
  | cons c cs ih =>
    obtain ⟨first, later⟩ := List.forall_mem_cons.mp safe
    obtain ⟨-, single, double, -⟩ := isSafe_ordinary first
    rw [List.cons_append, exposed, if_neg single, if_neg double, ih later, List.cons_append]

theorem exposed_quotedChar :
    exposed .single (quotedChar c ++ rest) =
      if c = '\'' then '\'' :: exposed .single rest else exposed .single rest := by
  split
  next quote =>
    subst quote
    rfl
  next other => simp [quotedChar, other, exposed]

theorem mem_exposed_quoted {d : Char}
    (mem : d ∈ exposed .single (cs.flatMap quotedChar ++ '\'' :: rest)) :
    d = '\'' ∨ d ∈ exposed .none rest := by
  induction cs with
  | nil => exact .inr mem
  | cons c cs ih =>
    rw [List.flatMap_cons, List.append_assoc, exposed_quotedChar] at mem
    split at mem
    · exact (List.mem_cons.mp mem).elim .inl ih
    · exact ih mem

theorem mem_exposed_quote {d : Char} (mem : d ∈ exposed .none (quote cs ++ rest)) :
    isSafe d = true ∨ d = '\'' ∨ d ∈ exposed .none rest := by
  rw [quote] at mem
  split at mem
  next plain =>
    have safe := List.all_eq_true.mp plain.2
    rw [exposed_safe safe] at mem
    exact (List.mem_append.mp mem).imp (safe d) .inr
  next =>
    rw [List.cons_append, List.cons_append, List.append_assoc] at mem
    exact .inr (mem_exposed_quoted mem)

theorem mem_exposed_joinWith {d : Char} {words : List (List Char)}
    (mem : d ∈ exposed .none (joinWith [' '] (words.map quote))) :
    isSafe d = true ∨ d = '\'' ∨ d = ' ' := by
  induction words with
  | nil => exact absurd mem List.not_mem_nil
  | cons w words ih =>
    cases words with
    | nil =>
      rw [List.map_singleton, joinWith, ← List.append_nil (quote w)] at mem
      exact (mem_exposed_quote mem).imp_right (.imp_right (absurd · List.not_mem_nil))
    | cons v words =>
      rw [List.map_cons, List.map_cons, joinWith, List.append_assoc, ← List.map_cons] at mem
      · rcases mem_exposed_quote mem with safe | quote | later
        · exact .inl safe
        · exact .inr (.inl quote)
        · exact (List.mem_cons.mp later).elim (fun blank => .inr (.inr blank)) ih
      · simp

theorem exposed_join {d : Char} {words : List String}
    (mem : d ∈ exposed .none (join words).toList) : d ∉ special := by
  rw [join, String.toList_ofList, ← Function.comp_def quote, ← List.map_map] at mem
  rcases mem_exposed_joinWith mem with safe | rfl | rfl
  · exact not_special_of_isSafe safe
  · decide
  · decide

end Shell

namespace Command

open Text

def placed (c : Command) (working : Path) : String :=
  match c.directory with
  | some directory => "(" ++ directory.describe working ++ ") "
  | none => ""

theorem describe_eq (c : Command) (working : Path) :
    c.describe working = c.placed working ++ c.line := by
  rw [describe, placed]
  cases c.directory <;> simp

theorem isReported_of_report {bytes : List UInt8} {fault : Fault}
    (failed : report bytes = .error fault) : fault.isReported = false := by
  rw [report] at failed
  split at failed
  · contradiction
  · obtain ⟨cause, -, rfl⟩ := mapError_eq_error_iff.mp (map_eq_error_iff.mp failed)
    rfl

/-- A reported fault has what was shown of the command. -/
theorem fault_of_result {shown : String} {outcome : Except StartFault Completed} {fault : Fault}
    (failed : result shown outcome = .error fault) (reported : fault.isReported = true) :
    (∃ error, fault = .notStarted shown error) ∨
      ∃ status reports, fault = .failed shown status reports := by
  rcases outcome with cause | completed
  · cases cause with
    | system error => exact .inl ⟨error, (Except.error.inj failed).symm⟩
    | _ =>
      obtain rfl := Except.error.inj failed
      simp [Fault.isReported] at reported
  · rw [result] at failed
    split at failed
    · contradiction
    · rcases bind_eq_error_iff.mp failed with garbled | ⟨output, -, failed⟩
      · simp [isReported_of_report garbled] at reported
      · rcases bind_eq_error_iff.mp failed with garbled | ⟨errors, -, failed⟩
        · simp [isReported_of_report garbled] at reported
        · exact .inr ⟨_, _, (Except.error.inj failed).symm⟩

theorem message_of_result {shown : String} {outcome : Except StartFault Completed} {fault : Fault}
    (failed : result shown outcome = .error fault) (reported : fault.isReported = true) :
    ∃ cause, fault.message = "Command '" ++ shown ++ "'" ++ cause := by
  obtain ⟨error, rfl⟩ | ⟨status, reports, rfl⟩ := fault_of_result failed reported
  · refine ⟨" could not be started: " ++ error.message, String.toList_inj.mp ?_⟩
    simp [Fault.message]
  · obtain ⟨more, whole⟩ := exists_joinWith ['\n']
      ("Command '" ++ shown ++ "' failed with return code " ++ String.ofList (integer status)).toList
      reports
    refine ⟨" failed with return code " ++ String.ofList (integer status) ++ String.ofList more,
      String.toList_inj.mp ?_⟩
    simp only [Fault.message, whole]
    simp

/-- A shell that goes by quotes, backslashes and blanks reads the words of a command off its line, and
neither outside of quotes nor between double ones is there a character in the line that it would act
on. So different commands have different lines. A message on a command that did not start or that
failed shows this line, with the place of the command before it if it has one. -/
theorem line_reads_back :
    (∀ c : Command, Shell.split c.line = some c.words ∧
      ∀ d ∈ Shell.exposed .none c.line.toList, d ∉ Shell.special) ∧
    (∀ c d : Command, c.line = d.line ↔ c.words = d.words) ∧
    ∀ (c : Command) (working : Path) (outcome : Except StartFault Completed) (fault : Fault),
      result (c.describe working) outcome = .error fault → fault.isReported = true →
      ∃ cause, fault.message = "Command '" ++ c.placed working ++ c.line ++ "'" ++ cause := by
  refine ⟨fun c => ⟨Shell.split_join c.words, fun d => Shell.exposed_join⟩, fun c d => ?_,
    fun c working outcome fault failed reported => ?_⟩
  · constructor
    · intro same
      have read := Shell.split_join c.words
      rw [← line, same, line, Shell.split_join] at read
      exact (Option.some.inj read).symm
    · exact congrArg Shell.join
  · obtain ⟨cause, shown⟩ := message_of_result failed reported
    exact ⟨cause, by rw [shown, describe_eq, ← String.append_assoc]⟩

def awkward : Command := ⟨["print", "", "it's", "a \"b\"\n", "$HOME;", "x\\y", "\x7b,\x7d"], none, []⟩

theorem line_reads_back_awkward :
    awkward.line = "print '' 'it'\"'\"'s' 'a \"b\"\n' '$HOME;' 'x\\y' '\x7b,\x7d'" ∧
    Shell.split awkward.line = some awkward.words ∧
    ∃ fault, result (awkward.describe ⟨.root, []⟩) (.ok ⟨[], [], 3⟩) = .error fault ∧
      fault.isReported = true ∧
      ∃ cause, fault.message =
        "Command '" ++ awkward.placed ⟨.root, []⟩ ++ awkward.line ++ "'" ++ cause := by
  obtain ⟨reads, -, messages⟩ := line_reads_back
  refine ⟨by decide, (reads awkward).1, _, rfl, rfl, ?_⟩
  exact messages awkward ⟨.root, []⟩ (.ok ⟨[], [], 3⟩) _ rfl rfl

end Command

end OverlayBuild
