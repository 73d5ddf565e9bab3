import OverlayBuild.Proofs.Number.Numeral
import OverlayBuild.Proofs.Outcome
import OverlayBuild.Proofs.Spec.Lists

/-! Counts of replicas. A count is the integer that a value stands for, as a number, a truth value
or a numeral, and zero where it stands for none. A floating point number stands for an integer even
where it is none, and loses its fraction. -/
namespace OverlayBuild

namespace Binary64

variable {x : Binary64} {n num : Int} {den : Nat}

theorem natCast_tdiv_eq_iff {a : Nat} (positive : 0 < den) : (a : Int).tdiv den = n ↔
    n.natAbs * den ≤ a ∧ a < (n.natAbs + 1) * den ∧ 0 ≤ n * a := by
  rw [← Int.ofNat_tdiv]
  constructor
  · rintro rfl
    rw [Int.natAbs_natCast, Nat.add_mul, Nat.one_mul]
    exact ⟨Nat.div_mul_le_self a den, Nat.lt_div_mul_add positive,
      Int.mul_nonneg (Int.natCast_nonneg _) (Int.natCast_nonneg _)⟩
  · rintro ⟨below, above, sign⟩
    rw [Nat.div_eq_of_lt_le below above, Int.natAbs_of_nonneg]
    by_contra negative
    -- A negative integer would have to be the whole part of zero.
    rcases Nat.eq_zero_or_pos a with rfl | some
    · have zero : n.natAbs * den = 0 := Nat.le_zero.mp below
      have none : n.natAbs = 0 := (Nat.mul_eq_zero.mp zero).resolve_right positive.ne'
      omega
    · have product := Int.mul_neg_of_neg_of_pos (Int.not_le.mp negative) (Int.natCast_pos.mpr some)
      exact Int.not_lt.mpr sign product

/-- Cutting off the fraction leaves the integer next to the number on the side of zero. -/
theorem tdiv_eq_iff (positive : 0 < den) : num.tdiv den = n ↔
    n.natAbs * den ≤ num.natAbs ∧ num.natAbs < (n.natAbs + 1) * den ∧ 0 ≤ n * num := by
  obtain ⟨a, rfl | rfl⟩ := num.eq_nat_or_neg
  · rw [natCast_tdiv_eq_iff positive, Int.natAbs_natCast]
  · rw [Int.neg_tdiv, Int.neg_eq_comm, eq_comm, natCast_tdiv_eq_iff positive, Int.natAbs_neg,
      Int.natAbs_neg, Int.natAbs_natCast, Int.neg_mul, Int.mul_neg]

theorem den_pos_of_exact (exact : x.exact = .finite num den) : 0 < den := by
  cases x with
  | nan => contradiction
  | infinite negative => cases negative <;> contradiction
  | finite negative m e =>
    rw [← (Exact.finite.inj exact).2]
    exact Nat.two_pow_pos _

theorem truncate?_eq_some_iff :
    x.truncate? = some n ↔ ∃ num den, x.exact = .finite num den ∧ num.tdiv den = n := by
  cases x with
  | nan => simp [truncate?, toRatio?, exact]
  | infinite negative => cases negative <;> simp [truncate?, toRatio?, exact]
  | finite negative m e => simp [truncate?, toRatio?, exact]

end Binary64

namespace Compose

open Value Spec

/-- The integer that a value stands for. Numbers and truth values are integers; texts and bytes
spell them. -/
inductive Stands : Value → Int → Prop where
  | int (n : Int) : Stands (.int n) n
  | bool (b : Bool) : Stands (.bool b) (if b then 1 else 0)
  | str {s : String} {n : Int} (spelled : Number.Numeral s.toList n) : Stands (.str s) n
  | bytes {bs : List UInt8} {cs : List Char} {n : Int}
      (ascii : List.Forall₂ (fun b c => b < 0x80 ∧ c.toNat = b.toNat) bs cs)
      (spelled : Number.Numeral cs n) : Stands (.bytes bs) n
  | float {x : Binary64} {n : Int} {den : Nat} (exact : x.exact = .finite (n * den) den) :
      Stands (.float x) n

/-- A count is the integer that a value stands for, or zero where it stands for none. -/
def Counts (v : Value) (n : Int) : Prop := Stands v n ∨ n = 0 ∧ ∀ m, ¬Stands v m

/-- A number that is no integer, and what is left of it without its fraction: the next integer on
the side of zero. -/
inductive Cut : Value → Int → Prop where
  | intro {x : Binary64} {num n : Int} {den : Nat} (exact : x.exact = .finite num den)
      (below : n.natAbs * den < num.natAbs) (above : num.natAbs < (n.natAbs + 1) * den)
      (sign : 0 ≤ n * num) : Cut (.float x) n

variable {v w : Value} {s : Spec} {n m : Int}

/-- What is no integer stands for none. -/
theorem Cut.not_stands (cut : Cut v n) : ¬Stands v m := by
  intro stands
  cases cut with
  | intro exact below above sign =>
    cases stands with
    | float whole =>
      obtain ⟨rfl, rfl⟩ := Binary64.Exact.finite.inj (exact.symm.trans whole)
      rw [Int.natAbs_mul, Int.natAbs_natCast] at below above
      have more := Nat.lt_of_mul_lt_mul_right below
      have less := Nat.lt_of_mul_lt_mul_right above
      omega

theorem truncate?_iff {x : Binary64} :
    x.truncate? = some n ↔ Stands (.float x) n ∨ Cut (.float x) n := by
  rw [Binary64.truncate?_eq_some_iff]
  constructor
  · rintro ⟨num, den, exact, cut⟩
    have positive := Binary64.den_pos_of_exact exact
    by_cases whole : (den : Int) ∣ num
    · obtain ⟨k, rfl⟩ := whole
      rw [Int.mul_tdiv_cancel_left k (Int.natCast_ne_zero.mpr positive.ne')] at cut
      subst cut
      exact .inl (.float (by rw [exact, Int.mul_comm]))
    · obtain ⟨below, above, sign⟩ := (Binary64.tdiv_eq_iff positive).mp cut
      have apart : n.natAbs * den ≠ num.natAbs := fun same =>
        whole (Int.ofNat_dvd_left.mpr (same ▸ Nat.dvd_mul_left den n.natAbs))
      exact .inr (.intro exact (Nat.lt_of_le_of_ne below apart) above sign)
  · rintro (stands | cut)
    · cases stands with
      | float exact =>
        have positive := Binary64.den_pos_of_exact exact
        exact ⟨_, _, exact, Int.mul_tdiv_cancel n (Int.natCast_ne_zero.mpr positive.ne')⟩
    · cases cut with
      | intro exact below above sign =>
        have positive := Binary64.den_pos_of_exact exact
        exact ⟨_, _, exact, (Binary64.tdiv_eq_iff positive).mpr ⟨Nat.le_of_lt below, above, sign⟩⟩

theorem ascii?_eq_some_iff {bs : List UInt8} {cs : List Char} :
    ascii? bs = some cs ↔ List.Forall₂ (fun b c => b < 0x80 ∧ c.toNat = b.toNat) bs cs := by
  have read : ∀ n < 0x80, (Char.ofNat n).toNat = n := by decide
  rw [ascii?]
  constructor
  · intro own
    split at own
    next low =>
      obtain rfl := Option.some.inj own
      refine List.forall₂_map_right_iff.mpr (List.forall₂_same.mpr fun b mem => ?_)
      have small : b < 0x80 := of_decide_eq_true (List.all_eq_true.mp low b mem)
      exact ⟨small, read b.toNat (UInt8.lt_iff_toNat_lt.mp small)⟩
    next => contradiction
  · intro each
    induction each with
    | nil => rfl
    | @cons b c bs cs both _ ih =>
      obtain ⟨low, same⟩ := both
      split at ih
      next all =>
        obtain rfl := Option.some.inj ih
        rw [if_pos (by simp [low, all]), List.map_cons, ← same, Char.ofNat_toNat]
      next => contradiction

/-- The integer that is read is the one that a value stands for, or what is left of a fraction. -/
theorem integer?_eq_some_iff : integer? v = some n ↔ Stands v n ∨ Cut v n := by
  have spelled {cs : List Char} :
      (Number.readInteger 10 cs).toOption = some n ↔ Number.Numeral cs n := by
    rw [toOption_eq_some_iff, Number.readInteger_eq_ok_iff]
  constructor
  · intro counted
    cases v with
    | int m =>
      obtain rfl := Option.some.inj counted
      exact .inl (.int m)
    | bool b =>
      obtain rfl := Option.some.inj counted
      cases b
      · exact .inl (.bool false)
      · exact .inl (.bool true)
    | float x => exact truncate?_iff.mp counted
    | str s => exact .inl (.str (spelled.mp counted))
    | bytes bs =>
      obtain ⟨cs, ascii, read⟩ := Option.bind_eq_some_iff.mp counted
      exact .inl (.bytes (ascii?_eq_some_iff.mp ascii) (spelled.mp read))
    | _ => contradiction
  · rintro (stands | cut)
    · cases stands with
      | int => rfl
      | bool b => cases b <;> rfl
      | str own => exact spelled.mpr own
      | bytes ascii own =>
        exact Option.bind_eq_some_iff.mpr ⟨_, ascii?_eq_some_iff.mpr ascii, spelled.mpr own⟩
      | float exact => exact truncate?_iff.mpr (.inl (.float exact))
    · cases cut with
      | intro exact below above sign =>
        exact truncate?_iff.mpr (.inr (.intro exact below above sign))

theorem Cut.counted_eq (cut : Cut v n) : counted v = n := by
  rw [counted, integer?_eq_some_iff.mpr (.inr cut), Option.getD_some]

theorem Stands.counted_eq (stands : Stands v n) : counted v = n := by
  rw [counted, integer?_eq_some_iff.mpr (.inl stands), Option.getD_some]

/-- The count is the integer that a value stands for, or zero, unless a fraction is cut off and
leaves another integer. -/
theorem counts_counted_iff : Counts v (counted v) ↔ ∀ n, Cut v n → n = 0 := by
  constructor
  · rintro (stands | ⟨zero, -⟩) n cut
    · exact absurd stands cut.not_stands
    · rw [← cut.counted_eq, zero]
  · intro small
    cases own : integer? v with
    | some n =>
      rcases integer?_eq_some_iff.mp own with stands | cut
      · exact .inl (stands.counted_eq.symm ▸ stands)
      · refine .inr ⟨?_, fun _ => cut.not_stands⟩
        rw [cut.counted_eq, small n cut]
    | none =>
      refine .inr ⟨by rw [counted, own, Option.getD_none], fun m stands => ?_⟩
      rw [integer?_eq_some_iff.mpr (.inl stands)] at own
      contradiction

/-- The value of the count in the block of replicas that follows `index` others. -/
def countAt (index : Nat) (v : Value) : Value :=
  Value.field "count" ((blocksOf (under "replicas" v))[index]?.getD [])

theorem at?_count (r : Replica) : at? "count" (prune (replicaFields r)) = some (.int r.count) := by
  rw [replicaFields, prune, at?, find?_pruneEntries (by simp [entry])]
  rfl

/-- Attributes that say the same but for one count are composed alike where the two counts stand for
one integer. -/
theorem compose_of_count {index : Nat} (same : SameButIn "replicas" index "count" v w)
    (stands : Stands (countAt index v) n) (also : Stands (countAt index w) n) :
    compose v = compose w := by
  obtain ⟨outside, before, b, c, after, first, second, place, inside⟩ := same
  obtain ⟨block, other, inside⟩ := inside
  rw [countAt, blocksOf_getElem? first block place, Option.getD_some] at stands
  rw [countAt, blocksOf_getElem? second other place, Option.getD_some] at also
  have name : Value.field "name" (fieldsOf b) = Value.field "name" (fieldsOf c) :=
    inside "name" (by decide)
  have alike : replica (fieldsOf b) = replica (fieldsOf c) := by
    rw [replica, replica, count_eq (integer?_eq_some_iff.mpr (.inl stands)),
      count_eq (integer?_eq_some_iff.mpr (.inl also)), name]
  exact compose_congr .replicas outside (composeBlocks_congr first second block other alike)

/-- A block of a document has the count that is declared in the fields of a block of attributes: the
integer that a value stands for, or zero, exactly where no fraction is cut off that leaves another
integer, and else what is left. -/
def HasCount (fields : List (Value × Value)) (block : Value) : Prop :=
  let declared := Value.field "count" fields
  ∃ n, at? "count" block = some (.int n) ∧
    (Counts declared n ↔ ∀ m, Cut declared m → m = 0) ∧ ∀ m, Cut declared m → n = m

/-- The document has a count in each block of replicas, and an integer and the text of it are the
same count. -/
theorem document_counts {v : Value} {s : Spec} {notices : List Notice}
    (composed : compose v = .ok (s, notices)) :
    (∃ blocks, listAt "replicas" s.document = some blocks ∧
      List.Forall₂ HasCount (blocksOf (under "replicas" v)) blocks) ∧
    ∀ {w : Value} {index : Nat} {n : Int}, SameButIn "replicas" index "count" v w →
      n.natAbs < 10 ^ Number.maxDigits → countAt index v = .int n →
      countAt index w = .str (Value.int n).text → compose w = .ok (s, notices) := by
  constructor
  · obtain rfl := eq_specOf composed
    refine ⟨_, listAt_blocks .replicas (fun _ => ⟨_, rfl⟩) rfl, ?_⟩
    refine List.forall₂_map_right_iff.mpr (List.forall₂_same.mpr fun fields _ => ?_)
    exact ⟨_, at?_count _, counts_counted_iff, fun m cut => cut.counted_eq⟩
  · intro w index n same short number spelled
    have stands : Stands (countAt index v) n := by
      rw [number]
      exact .int n
    have also : Stands (countAt index w) n := by
      have written : (Value.int n).text.toList = Text.integer n := String.toList_ofList
      rw [spelled]
      exact .str (written ▸ Number.numeral_integer short)
    rw [← compose_of_count same stands also, composed]

def replicated (count : Value) : Value := .map [(.str "replicas",
  .list [.map [(.str "name", .str "web"), (.str "count", count)]])]

def replicatedSpec (count : Int) : Spec :=
  ⟨[], [], [], [], [], [], "", "", "", [⟨"web", count⟩], [], [], []⟩

theorem sameButIn_replicated (n : Int) (s : String) :
    SameButIn "replicas" 0 "count" (replicated (.int n)) (replicated (.str s)) := by
  refine ⟨sameBut_singleton _ _ _, [], .map [(.str "name", .str "web"), (.str "count", .int n)],
    .map [(.str "name", .str "web"), (.str "count", .str s)], [], rfl, rfl, rfl, rfl, rfl, ?_⟩
  intro other ne
  have apart : Value.str "count" ≠ .str other := fun same => ne (Value.str.inj same).symm
  by_cases name : Value.str "name" = .str other
  · rw [← Value.str.inj name]
    rfl
  · have missing (w : Value) :
        Value.field other [(.str "name", .str "web"), (.str "count", w)] = .null := by
      rw [Value.field, find?_cons_ne name, find?_cons_ne apart]
      rfl
    exact (missing (.int n)).trans (missing (.str s)).symm

theorem document_counts_of_numeral :
    compose (replicated (.int (-12))) = .ok (replicatedSpec (-12), []) ∧
    (∃ blocks, listAt "replicas" (replicatedSpec (-12)).document = some blocks ∧
      List.Forall₂ HasCount (blocksOf (under "replicas" (replicated (.int (-12))))) blocks) ∧
    compose (replicated (.str "-12")) = .ok (replicatedSpec (-12), []) := by
  have composed : compose (replicated (.int (-12))) = .ok (replicatedSpec (-12), []) := rfl
  have short : (Int.negSucc 11).natAbs < 10 ^ Number.maxDigits :=
    Nat.lt_of_lt_of_le (by decide : 12 < 10 ^ 2) (Nat.pow_le_pow_right (by decide) (by decide))
  have digits : Text.digits 10 12 = [1, 2] := by simp [Text.digits]
  have written : Value.str "-12" = .str (Value.int (.negSucc 11)).text := by
    have integer : Text.integer (.negSucc 11) = ['-', '1', '2'] := by
      rw [Text.integer, Text.decimal, digits]
      rfl
    have shown : (Value.int (.negSucc 11)).text = String.ofList (Text.integer (.negSucc 11)) := rfl
    rw [shown, integer]
  obtain ⟨counts, same⟩ := document_counts composed
  exact ⟨composed, counts, same (sameButIn_replicated _ _) short rfl written⟩

def twoAndAHalf : Binary64 := .finite false (5 * 2 ^ 50) (-51)

/-- A count with a fraction is no integer and should be zero, but is what is left of it, and nothing
is noticed. -/
theorem document_counts_fraction :
    Counts (.float twoAndAHalf) 0 ∧ ¬Counts (.float twoAndAHalf) 2 ∧
    compose (replicated (.float twoAndAHalf)) = .ok (replicatedSpec 2, []) ∧
    listAt "replicas" (replicatedSpec 2).document =
      some [.map [(.str "name", .str "web"), (.str "count", .int 2)]] := by
  have exact : twoAndAHalf.exact = .finite (5 * 2 ^ 50) (2 ^ 51) := rfl
  have cut : Cut (.float twoAndAHalf) 2 := .intro exact (by decide) (by decide) (by decide)
  refine ⟨.inr ⟨rfl, fun _ => cut.not_stands⟩, ?_, rfl, rfl⟩
  rintro (stands | ⟨zero, -⟩)
  · exact cut.not_stands stands
  · exact absurd zero (by decide)

end Compose

end OverlayBuild
