import Mathlib.Data.List.Nodup
import OverlayBuild.Value.Order

/-! Sorting entries whose keys are text. The first run is in order because it is found by
comparing neighbours, each later entry goes to the place that halving finds for it, so the
outcome is in order, and for different keys there is only one such outcome. -/
namespace OverlayBuild.Value

variable {α : Type} {entries others rest : List (Value × α)} {entry : Value × α}

def name (e : Value × α) : String :=
  match e.1 with
  | .str s => s
  | _ => ""

def TextKeys (entries : List (Value × α)) : Prop := ∀ e ∈ entries, ∃ s, e.1 = .str s

theorem TextKeys.key {e : Value × α} (texts : TextKeys entries) (mem : e ∈ entries) :
    e.1 = .str (name e) := by
  obtain ⟨s, key⟩ := texts e mem
  rw [name, key]

theorem TextKeys.perm (texts : TextKeys entries) (same : entries.Perm others) : TextKeys others :=
  fun e mem => texts e (same.mem_iff.mpr mem)

theorem TextKeys.less {a b : Value × α} (texts : TextKeys entries) (first : a ∈ entries)
    (second : b ∈ entries) : less a.1 b.1 = .ok (decide (name a < name b)) := by
  rw [texts.key first, texts.key second]
  rfl

def InOrder (entries : List (Value × α)) : Prop :=
  entries.Pairwise fun a b => name a ≤ name b

/-- The entries before the lower place have keys up to the given one, and those from the
higher place on have greater keys. -/
structure Brackets (key : String) (entries : List (Value × α)) (low high : Nat) : Prop where
  before : ∀ e ∈ entries.take low, name e ≤ key
  after : ∀ e ∈ entries.drop high, key < name e

section brackets

variable {key : String} {low high middle : Nat} {e : Value × α}

theorem Brackets.lower (brackets : Brackets key entries low high) (ordered : InOrder entries)
    (found : entries[middle]? = some e) (above : key < name e) :
    Brackets key entries low middle := by
  obtain ⟨within, rfl⟩ := List.getElem?_eq_some_iff.mp found
  refine ⟨brackets.before, fun later mem => ?_⟩
  have rest : InOrder (entries[middle] :: entries.drop (middle + 1)) :=
    List.drop_eq_getElem_cons within ▸ ordered.drop
  rw [List.drop_eq_getElem_cons within] at mem
  rcases List.mem_cons.mp mem with rfl | mem
  · exact above
  · exact String.not_le.mp fun below =>
      String.not_le.mpr above (String.le_trans (List.rel_of_pairwise_cons rest mem) below)

theorem Brackets.raise (brackets : Brackets key entries low high) (ordered : InOrder entries)
    (found : entries[middle]? = some e) (below : name e ≤ key) :
    Brackets key entries (middle + 1) high := by
  obtain ⟨within, rfl⟩ := List.getElem?_eq_some_iff.mp found
  refine ⟨fun earlier mem => ?_, brackets.after⟩
  have start : InOrder (entries.take middle ++ [entries[middle]]) :=
    List.take_append_getElem within ▸ ordered.take
  rw [← List.take_append_getElem within] at mem
  rcases List.mem_append.mp mem with mem | mem
  · exact String.le_trans ((List.pairwise_append.mp start).2.2 _ mem _ (by simp)) below
  · rw [List.mem_singleton.mp mem]
    exact below

end brackets

theorem place_spec {sorted : Array (Value × α)} {low high : Nat}
    (texts : TextKeys (entry :: sorted.toList)) (ordered : InOrder sorted.toList)
    (bounds : low ≤ high ∧ high ≤ sorted.size)
    (brackets : Brackets (name entry) sorted.toList low high) :
    ∃ index, place entry.1 sorted low high = .ok index ∧ index ≤ sorted.size ∧
      Brackets (name entry) sorted.toList index index := by
  fun_induction place entry.1 sorted low high with
  | case1 low high more middle missing =>
    have within : middle < sorted.size := by omega
    simp [within] at missing
  | case2 low high more middle e found lower higher =>
    have here : sorted.toList[middle]? = some e := by simpa using found
    have compared : less entry.1 e.1 = .ok (decide (name entry < name e)) :=
      texts.less List.mem_cons_self (List.mem_cons_of_mem _ (List.mem_of_getElem? here))
    simp only [compared, bind, Except.bind]
    by_cases above : name entry < name e
    · simp only [above, decide_true, if_true]
      exact lower (by omega) (brackets.lower ordered here above)
    · simp only [above, decide_false, Bool.false_eq_true, if_false]
      exact higher (by omega) (brackets.raise ordered here (String.not_lt.mp above))
  | case3 low high met =>
    obtain rfl : low = high := by omega
    exact ⟨low, rfl, bounds.2, brackets⟩

theorem insertIdx_eq_append {x : α} {l : List α} {i : Nat} (within : i ≤ l.length) :
    l.insertIdx i x = l.take i ++ x :: l.drop i := by
  induction l generalizing i with
  | nil =>
    obtain rfl := Nat.le_zero.mp within
    rfl
  | cons a l ih =>
    cases i with
    | zero => rfl
    | succ i => simp [List.insertIdx_succ_cons, ih (Nat.le_of_succ_le_succ within)]

theorem inOrder_insertIdx {index : Nat} (ordered : InOrder entries)
    (within : index ≤ entries.length) (brackets : Brackets (name entry) entries index index) :
    InOrder (entries.insertIdx index entry) := by
  rw [insertIdx_eq_append within]
  have halves := List.pairwise_append.mp ((List.take_append_drop index entries).symm ▸ ordered)
  refine List.pairwise_append.mpr ⟨halves.1, List.pairwise_cons.mpr ⟨?_, halves.2.1⟩, ?_⟩
  · exact fun later mem => String.not_lt.mp (String.lt_asymm (brackets.after later mem))
  · intro earlier mem later also
    rcases List.mem_cons.mp also with rfl | also
    · exact brackets.before earlier mem
    · exact halves.2.2 earlier mem later also

theorem insertSorted_spec {sorted : Array (Value × α)}
    (texts : TextKeys (sorted.toList ++ entries)) (ordered : InOrder sorted.toList) :
    ∃ result, insertSorted sorted entries = .ok result ∧ InOrder result.toList ∧
      result.toList.Perm (sorted.toList ++ entries) := by
  induction entries generalizing sorted with
  | nil => exact ⟨sorted, rfl, ordered, by simp⟩
  | cons entry entries ih =>
    have texts : TextKeys (entry :: (sorted.toList ++ entries)) := texts.perm List.perm_middle
    have own : TextKeys (entry :: sorted.toList) := fun e mem => texts e (by
      rw [List.mem_cons, List.mem_append]; exact (List.mem_cons.mp mem).imp_right .inl)
    -- The whole array brackets any key, as nothing stands before its start or after its end.
    have open_ : Brackets (name entry) sorted.toList 0 sorted.size :=
      ⟨by simp, by simp [← Array.length_toList]⟩
    obtain ⟨index, found, within, brackets⟩ :=
      place_spec own ordered ⟨Nat.zero_le _, Nat.le_refl _⟩ open_
    have inserted : (sorted.insertIdxIfInBounds index entry).toList =
        sorted.toList.insertIdx index entry := by
      simp [Array.insertIdxIfInBounds, within]
    have same : (sorted.insertIdxIfInBounds index entry).toList.Perm (entry :: sorted.toList) := by
      rw [inserted]; exact List.perm_insertIdx _ _ within
    obtain ⟨result, done, inOrder, all⟩ := ih
      (texts.perm (same.symm.append_right entries))
      (inserted ▸ inOrder_insertIdx ordered within brackets)
    refine ⟨result, ?_, inOrder, ?_⟩
    · simp [insertSorted, found, done, bind, Except.bind]
    · exact all.trans ((same.append_right entries).trans List.perm_middle.symm)

/-- Neighbours of which the second comes before the first, or of which it does not. -/
def Runs (falling : Bool) (entries : List (Value × α)) : Prop :=
  entries.IsChain fun a b => decide (name b < name a) = falling

theorem runLength_spec {falling : Bool} {a : Value × α} (texts : TextKeys (a :: entries)) :
    ∃ n, runLength falling a.1 entries = .ok n ∧ Runs falling (a :: entries.take n) := by
  induction entries generalizing a with
  | nil => exact ⟨0, rfl, .singleton a⟩
  | cons b entries ih =>
    have compared := texts.less (List.mem_cons_of_mem _ List.mem_cons_self) List.mem_cons_self
    simp only [runLength, compared, bind, Except.bind]
    by_cases continues : decide (name b < name a) = falling
    · obtain ⟨n, counted, runs⟩ := ih fun e mem => texts e (List.mem_cons_of_mem _ mem)
      rw [if_pos continues, counted]
      exact ⟨n + 1, rfl, .cons_cons continues runs⟩
    · rw [if_neg continues]
      exact ⟨0, rfl, .singleton a⟩

theorem inOrder_of_runs_false (runs : Runs false entries) : InOrder entries := by
  have : IsTrans (Value × α) fun a b => name a ≤ name b := ⟨fun _ _ _ => String.le_trans⟩
  exact (runs.imp fun a b rises => String.not_lt.mp (of_decide_eq_false rises)).pairwise

theorem inOrder_reverse_of_runs_true (runs : Runs true entries) : InOrder entries.reverse := by
  have : IsTrans (Value × α) fun a b => name b < name a :=
    ⟨fun _ _ _ first second => String.lt_trans second first⟩
  have falls : entries.Pairwise fun a b => name b < name a :=
    (runs.imp fun a b falls => of_decide_eq_true falls).pairwise
  exact List.pairwise_reverse.mpr (falls.imp fun less => String.not_lt.mp (String.lt_asymm less))

theorem Runs.turned {falling : Bool} (runs : Runs falling entries) :
    InOrder (if falling then entries.reverse else entries) ∧
      (if falling then entries.reverse else entries).Perm entries := by
  cases falling with
  | true => exact ⟨inOrder_reverse_of_runs_true runs, List.reverse_perm entries⟩
  | false => exact ⟨inOrder_of_runs_false runs, .refl entries⟩

theorem firstRun_spec (texts : TextKeys entries) :
    ∃ run rest, firstRun entries = .ok (run, rest) ∧ InOrder run ∧ (run ++ rest).Perm entries := by
  match entries, texts with
  | [], _ => exact ⟨[], [], rfl, .nil, .refl _⟩
  | [a], _ => exact ⟨[a], [], rfl, List.pairwise_singleton _ _, .refl _⟩
  | a :: b :: entries, texts =>
    have compared := texts.less (List.mem_cons_of_mem _ List.mem_cons_self) List.mem_cons_self
    have more : TextKeys (b :: entries) := fun e mem => texts e (List.mem_cons_of_mem _ mem)
    obtain ⟨n, counted, runs⟩ := runLength_spec more
    -- The first two entries say which way the run goes, and so belong to it.
    have runs : Runs (decide (name b < name a)) ((a :: b :: entries).take (n + 2)) :=
      .cons_cons rfl runs
    obtain ⟨inOrder, same⟩ := runs.turned
    simp only [firstRun, compared, counted, bind, Except.bind, pure, Except.pure]
    refine ⟨_, _, rfl, inOrder, (same.append_right _).trans ?_⟩
    rw [List.take_append_drop]

theorem sortByKey_spec (texts : TextKeys entries) :
    ∃ sorted, sortByKey entries = .ok sorted ∧ InOrder sorted ∧ sorted.Perm entries := by
  obtain ⟨run, rest, found, ordered, parts⟩ := firstRun_spec texts
  obtain ⟨result, done, inOrder, all⟩ := insertSorted_spec (texts.perm parts.symm) ordered
  refine ⟨result.toList, ?_, inOrder, all.trans parts⟩
  simp [sortByKey, found, done, bind, Except.bind, pure, Except.pure]

/-- The order in which entries come does not matter where their keys are different texts. -/
theorem sortByKey_perm (texts : TextKeys entries) (distinct : (entries.map (·.1)).Nodup)
    (same : entries.Perm others) : sortByKey entries = sortByKey others := by
  obtain ⟨sorted, done, inOrder, all⟩ := sortByKey_spec texts
  obtain ⟨again, alsoDone, alsoInOrder, alsoAll⟩ := sortByKey_spec (texts.perm same)
  rw [done, alsoDone]
  refine congrArg _ (List.Perm.eq_of_pairwise ?_ inOrder alsoInOrder
    (all.trans (same.trans alsoAll.symm)))
  intro a b mem also up down
  have first := all.mem_iff.mp mem
  have second := same.mem_iff.mpr (alsoAll.mem_iff.mp also)
  have key : a.1 = b.1 := by
    rw [texts.key first, texts.key second, String.le_antisymm up down]
  exact List.inj_on_of_nodup_map distinct first second key

end OverlayBuild.Value
