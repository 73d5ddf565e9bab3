import Mathlib.Data.List.Perm.Subperm
import OverlayBuild.Proofs.Outcome
import OverlayBuild.Proofs.Value.Order

/-! Sorting by keys of any kind. A sort compares each entry with another one, so that it ends
only where all keys are of one kind, and fails as one of its comparisons does. -/
namespace OverlayBuild.Value

inductive KeyKind where
  | number
  | text
  | bytes
  | date
  | moment (offset : Bool)
  deriving DecidableEq, Repr

def keyKind? : Value → Option KeyKind
  | .bool _ | .int _ | .float _ => some .number
  | .str _ => some .text
  | .bytes _ => some .bytes
  | .date _ => some .date
  | .datetime t => some (.moment t.instant?.isSome)
  | _ => none

def OfKind (kind : KeyKind) (keys : List Value) : Prop := ∀ k ∈ keys, k.keyKind? = some kind

def keys {α : Type} (entries : List (Value × α)) : List Value := entries.map (·.1)

variable {α : Type} {a b key : Value} {kind : KeyKind} {cause : Unordered} {falling : Bool}
  {entries run rest ordered : List (Value × α)} {sorted result : Array (Value × α)}
  {entry : Value × α} {low high index n : Nat}

theorem exists_momentLess_iff {s t : DateTime} :
    (∃ l, momentLess s t = .ok l) ↔ s.instant?.isSome = t.instant?.isSome := by
  rw [momentLess]
  cases s.instant? <;> cases t.instant? <;> simp

/-- Keys can be compared when they are of one kind. -/
theorem exists_less_iff :
    (∃ l, less a b = .ok l) ↔ ∃ kind, a.keyKind? = some kind ∧ b.keyKind? = some kind := by
  cases a with
  | datetime s =>
    cases b with
    | datetime t =>
      refine exists_momentLess_iff.trans ?_
      simp [keyKind?, eq_comm]
    | _ => simp [less, number?, keyKind?]
  | _ => cases b <;> simp [less, number?, keyKind?]

theorem keyKind?_of_less {l : Bool} (compared : less a b = .ok l) (own : b.keyKind? = some kind) :
    a.keyKind? = some kind := by
  obtain ⟨common, first, second⟩ := exists_less_iff.mp ⟨l, compared⟩
  rw [first, ← second, own]

/-! What a sort that ends has made of the entries. -/

/-- A run goes on only over keys of one kind. -/
theorem ofKind_of_runLength (counted : runLength falling key entries = .ok n)
    (own : key.keyKind? = some kind) : OfKind kind (keys (entries.take n)) := by
  induction entries generalizing key n with
  | nil => simp [OfKind, keys]
  | cons e entries ih =>
    obtain ⟨l, compared, counted⟩ := bind_eq_ok_iff.mp counted
    have first : e.1.keyKind? = some kind := keyKind?_of_less compared own
    split at counted
    · obtain ⟨m, further, more⟩ := bind_eq_ok_iff.mp counted
      obtain rfl := Except.ok.inj more
      exact List.forall_mem_cons.mpr ⟨first, ih further first⟩
    · obtain rfl := Except.ok.inj counted
      exact nofun

theorem ofKind_of_firstRun (found : firstRun entries = .ok (run, rest)) (many : 1 < entries.length) :
    ∃ kind, run ≠ [] ∧ OfKind kind (keys run) := by
  match entries, many with
  | a :: b :: entries, _ =>
    obtain ⟨l, compared, found⟩ := bind_eq_ok_iff.mp found
    obtain ⟨n, counted, found⟩ := bind_eq_ok_iff.mp found
    obtain ⟨rfl, -⟩ := Prod.mk.inj (Except.ok.inj found)
    obtain ⟨kind, second, first⟩ := exists_less_iff.mp ⟨l, compared⟩
    have run : OfKind kind (keys ((a :: b :: entries).take (n + 2))) :=
      List.forall_mem_cons.mpr ⟨first, List.forall_mem_cons.mpr
        ⟨second, ofKind_of_runLength counted second⟩⟩
    refine ⟨kind, ?_⟩
    split
    · exact ⟨by simp, fun k mem => run k (((List.reverse_perm _).map _).mem_iff.mp mem)⟩
    · exact ⟨by simp, run⟩

theorem firstRun_perm (found : firstRun entries = .ok (run, rest)) : (run ++ rest).Perm entries := by
  match entries, found with
  | [], found | [a], found =>
    obtain ⟨rfl, rfl⟩ := Prod.mk.inj (Except.ok.inj found)
    exact .of_eq (List.append_nil _)
  | a :: b :: entries, found =>
    obtain ⟨l, -, found⟩ := bind_eq_ok_iff.mp found
    obtain ⟨n, -, found⟩ := bind_eq_ok_iff.mp found
    obtain ⟨rfl, rfl⟩ := Prod.mk.inj (Except.ok.inj found)
    have parts := List.take_append_drop (n + 2) (a :: b :: entries)
    split
    · exact ((List.reverse_perm _).append_right _).trans (.of_eq parts)
    · exact .of_eq parts

theorem place_le (found : place key sorted low high = .ok index) (bounds : low ≤ high) :
    index ≤ high := by
  fun_induction place key sorted low high with
  | case1 low high more middle missing => exact Except.ok.inj found ▸ bounds
  | case2 low high more middle e here lower higher =>
    obtain ⟨l, -, found⟩ := bind_eq_ok_iff.mp found
    split at found
    · exact Nat.le_trans (lower found (by omega)) (by omega)
    · exact higher found (by omega)
  | case3 low high met => exact Except.ok.inj found ▸ bounds

/-- A key finds its place among others by being compared with one of them. -/
theorem keyKind?_of_place (found : place key sorted 0 sorted.size = .ok index)
    (some : sorted.toList ≠ []) (ofKind : OfKind kind (keys sorted.toList)) : key.keyKind? = .some kind := by
  have filled : 0 < sorted.size := Array.length_toList ▸ List.length_pos_iff.mpr some
  have within : 0 + (sorted.size - 0) / 2 < sorted.size := by omega
  rw [place, if_pos filled] at found
  simp only [Array.getElem?_eq_getElem within] at found
  obtain ⟨l, compared, -⟩ := bind_eq_ok_iff.mp found
  exact keyKind?_of_less compared (ofKind _ (List.mem_map_of_mem (by simp)))

variable (entry) in
theorem insertIdx_perm (within : index ≤ sorted.size) :
    (sorted.insertIdxIfInBounds index entry).toList.Perm (entry :: sorted.toList) := by
  simpa [Array.insertIdxIfInBounds, within] using List.perm_insertIdx entry sorted.toList within

theorem insertSorted_perm (done : insertSorted sorted rest = .ok result) :
    result.toList.Perm (sorted.toList ++ rest) := by
  induction rest generalizing sorted with
  | nil =>
    obtain rfl := Except.ok.inj done
    simp
  | cons entry rest ih =>
    obtain ⟨index, found, done⟩ := bind_eq_ok_iff.mp done
    have inserted := insertIdx_perm entry (place_le found (Nat.zero_le _))
    exact (ih done).trans ((inserted.append_right rest).trans List.perm_middle.symm)

theorem ofKind_of_insertSorted (done : insertSorted sorted rest = .ok result)
    (some : sorted.toList ≠ []) (ofKind : OfKind kind (keys sorted.toList)) : OfKind kind (keys rest) := by
  induction rest generalizing sorted with
  | nil => exact nofun
  | cons entry rest ih =>
    obtain ⟨index, found, done⟩ := bind_eq_ok_iff.mp done
    have inserted := insertIdx_perm entry (place_le found (Nat.zero_le _))
    have own : entry.1.keyKind? = .some kind := keyKind?_of_place found some ofKind
    refine List.forall_mem_cons.mpr ⟨own, ih done ?_ fun k mem => ?_⟩
    · exact fun none => by simpa [none] using inserted.length_eq
    · rcases List.mem_cons.mp ((inserted.map _).mem_iff.mp mem) with rfl | mem
      · exact own
      · exact ofKind k mem

/-- A sort that ends has put the entries into some order. -/
theorem sortByKey_perm_of_ok (done : sortByKey entries = .ok ordered) : ordered.Perm entries := by
  obtain ⟨⟨run, rest⟩, found, done⟩ := bind_eq_ok_iff.mp done
  obtain ⟨result, inserted, done⟩ := bind_eq_ok_iff.mp done
  obtain rfl := Except.ok.inj done
  exact (insertSorted_perm inserted).trans (firstRun_perm found)

theorem ofKind_of_sortByKey (done : sortByKey entries = .ok ordered) (many : 1 < entries.length) :
    ∃ kind, OfKind kind (keys entries) := by
  obtain ⟨⟨run, rest⟩, found, done⟩ := bind_eq_ok_iff.mp done
  obtain ⟨result, inserted, -⟩ := bind_eq_ok_iff.mp done
  obtain ⟨kind, some, first⟩ := ofKind_of_firstRun found many
  have more : OfKind kind (keys rest) := ofKind_of_insertSorted inserted some first
  refine ⟨kind, fun k mem => ?_⟩
  have parts := List.mem_append.mp (List.map_append ▸ ((firstRun_perm found).map _).mem_iff.mpr mem)
  exact parts.elim (first k) (more k)

/-- Parts of entries in some order are the parts of the entries in that order. -/
theorem exists_perm_of_perm_map {β : Type} {f : Value × α → Value × β} {moved : List (Value × β)}
    (same : moved.Perm (entries.map f)) :
    ∃ ordered : List (Value × α), ordered.Perm entries ∧ moved = ordered.map f := by
  have own : List.Forall₂ (fun p e => p = f e) (entries.map f) entries :=
    List.forall₂_map_left_iff.mpr (List.forall₂_same.mpr fun _ _ => rfl)
  obtain ⟨ordered, related, order⟩ := List.perm_comp_forall₂ same own
  exact ⟨ordered, order, List.forall₂_eq_eq_eq ▸ List.forall₂_map_right_iff.mpr related⟩

/-! What a sort that fails has compared. -/

def Clash (cause : Unordered) (keys : List Value) : Prop :=
  ∃ a b, [a, b].Subperm keys ∧ less a b = .error cause

/-- A sort compares an entry with the one before it. -/
theorem clash_of_neighbours {others : List Value} (apart : less b a = .error cause) :
    Clash cause (a :: b :: others) := by
  refine ⟨b, a, (List.Perm.swap a b []).subperm.trans ?_, apart⟩
  exact (((List.nil_sublist others).cons_cons b).cons_cons a).subperm

theorem Clash.mono {part whole : List Value} (clash : Clash cause part)
    (inside : part.Subperm whole) : Clash cause whole := by
  obtain ⟨a, b, two, apart⟩ := clash
  exact ⟨a, b, two.trans inside, apart⟩

theorem clash_of_runLength (failed : runLength falling entry.1 entries = .error cause) :
    Clash cause (keys (entry :: entries)) := by
  induction entries generalizing entry with
  | nil => contradiction
  | cons e entries ih =>
    rcases bind_eq_error_iff.mp failed with apart | ⟨l, -, failed⟩
    · exact clash_of_neighbours apart
    · split at failed
      · rcases bind_eq_error_iff.mp failed with failed | ⟨m, -, failed⟩
        · exact (ih failed).mono (List.sublist_cons_self _ _).subperm
        · contradiction
      · contradiction

theorem clash_of_firstRun (failed : firstRun entries = .error cause) :
    Clash cause (keys entries) := by
  match entries, failed with
  | a :: b :: entries, failed =>
    rcases bind_eq_error_iff.mp failed with apart | ⟨l, -, failed⟩
    · exact clash_of_neighbours apart
    · rcases bind_eq_error_iff.mp failed with failed | ⟨n, -, failed⟩
      · exact (clash_of_runLength failed).mono (List.sublist_cons_self _ _).subperm
      · contradiction

theorem clash_of_place (failed : place entry.1 sorted low high = .error cause) :
    Clash cause (keys (entry :: sorted.toList)) := by
  fun_induction place entry.1 sorted low high with
  | case1 low high more middle missing => contradiction
  | case2 low high more middle e here lower higher =>
    rcases bind_eq_error_iff.mp failed with apart | ⟨l, -, failed⟩
    · have held : e ∈ sorted.toList := Array.mem_toList_iff.mpr (Array.mem_of_getElem? here)
      have other : e.1 ∈ keys sorted.toList := List.mem_map_of_mem held
      exact ⟨_, _, (List.subperm_cons _).mpr (List.singleton_subperm_iff.mpr other), apart⟩
    · split at failed
      · exact lower failed
      · exact higher failed
  | case3 low high met => contradiction

theorem clash_of_insertSorted (failed : insertSorted sorted rest = .error cause) :
    Clash cause (keys (sorted.toList ++ rest)) := by
  induction rest generalizing sorted with
  | nil => contradiction
  | cons entry rest ih =>
    have turned : (entry :: (sorted.toList ++ rest)).Perm (sorted.toList ++ entry :: rest) :=
      List.perm_middle.symm
    rcases bind_eq_error_iff.mp failed with failed | ⟨index, found, failed⟩
    · exact (clash_of_place failed).mono
        ((((List.sublist_append_left _ rest).cons_cons entry).map _).subperm.trans
          (turned.map _).subperm)
    · have inserted := insertIdx_perm entry (place_le found (Nat.zero_le _))
      exact (ih failed).mono (((inserted.append_right rest).trans turned).map _).subperm

theorem clash_of_sortByKey (failed : sortByKey entries = .error cause) :
    Clash cause (keys entries) := by
  rcases bind_eq_error_iff.mp failed with failed | ⟨⟨run, rest⟩, found, failed⟩
  · exact clash_of_firstRun failed
  · rcases bind_eq_error_iff.mp failed with failed | ⟨result, -, failed⟩
    · exact (clash_of_insertSorted failed).mono ((firstRun_perm found).map _).subperm
    · contradiction

theorem Clash.not_sorts {keys : List Value} (clash : Clash cause keys) :
    ¬ (keys.length ≤ 1 ∨ ∃ kind, OfKind kind keys) := by
  obtain ⟨a, b, two, apart⟩ := clash
  rintro (few | ⟨kind, ofKind⟩)
  · have many : 2 ≤ keys.length := two.length_le
    omega
  · have first : a.keyKind? = some kind := ofKind a (two.subset (by simp))
    have second : b.keyKind? = some kind := ofKind b (two.subset (by simp))
    obtain ⟨l, compared⟩ := exists_less_iff.mpr ⟨kind, first, second⟩
    exact absurd (compared.symm.trans apart) nofun

/-- Entries can be sorted when there is one at most, or all their keys are of one kind. -/
theorem exists_sortByKey_iff :
    (∃ ordered, sortByKey entries = .ok ordered) ↔
      (keys entries).length ≤ 1 ∨ ∃ kind, OfKind kind (keys entries) := by
  constructor
  · rintro ⟨ordered, done⟩
    have length : (keys entries).length = entries.length := List.length_map _
    exact (Nat.lt_or_ge 1 entries.length).symm.imp (length ▸ ·) (ofKind_of_sortByKey done)
  · intro sorts
    cases done : sortByKey entries with
    | ok ordered => exact ⟨ordered, rfl⟩
    | error cause => exact absurd sorts (clash_of_sortByKey done).not_sorts

end OverlayBuild.Value
