import OverlayBuild.Build.Lock

/-! What operations on locks do to those who hold them and those who wait for them, and
what operations on the locks of directories do to their tables. -/
namespace OverlayBuild.Build

/-- A lock is held by the one build that holds it, and its queue lists those that wait. -/
structure Lock.Tracks (lock : Lock) (holds waits : Nat → Prop) : Prop where
  holder : ∀ i, lock.holder = some i ↔ holds i
  queue : ∀ i, i ∈ lock.queue ↔ waits i
  nodup : lock.queue.Nodup

namespace Lock.Tracks

variable {lock : Lock} {holds waits : Nat → Prop} {i : Nat}

theorem congr {holds' waits' : Nat → Prop} (tracks : lock.Tracks holds waits)
    (held : ∀ k, holds k ↔ holds' k) (waited : ∀ k, waits k ↔ waits' k) :
    lock.Tracks holds' waits' :=
  ⟨fun k => (tracks.holder k).trans (held k), fun k => (tracks.queue k).trans (waited k),
    tracks.nodup⟩

theorem unique (tracks : lock.Tracks holds waits) {k : Nat} (first : holds i)
    (second : holds k) : i = k :=
  Option.some.inj (((tracks.holder i).mpr first).symm.trans ((tracks.holder k).mpr second))

theorem eq_free (tracks : lock.Tracks holds waits) (idle : ∀ k, ¬ holds k)
    (none_waits : ∀ k, ¬ waits k) : lock = free := by
  obtain ⟨holder, queue⟩ := lock
  have unheld : holder = none := by
    cases holder with
    | none => rfl
    | some k => exact absurd ((tracks.holder k).mp rfl) (idle k)
  have empty : queue = [] :=
    List.eq_nil_iff_forall_not_mem.mpr fun k mem => none_waits k ((tracks.queue k).mp mem)
  rw [unheld, empty]
  rfl

theorem free : free.Tracks (fun _ => False) (fun _ => False) :=
  ⟨fun _ => by simp [Lock.free], fun _ => by simp [Lock.free], List.nodup_nil⟩

/-- A newcomer either holds the lock at once or waits for it. -/
theorem request (tracks : lock.Tracks holds waits) (outside : ¬ holds i) (new : ¬ waits i) :
    (lock.request i).Tracks
      (fun k => holds k ∨ (k = i ∧ (lock.request i).holder = some i))
      (fun k => waits k ∨ (k = i ∧ (lock.request i).holder ≠ some i)) := by
  by_cases vacant : lock.holder = none ∧ lock.queue = []
  · have taken : lock.request i = ⟨some i, []⟩ := if_pos vacant
    have idle : ∀ k, ¬ holds k := fun k held => by
      have holder := (tracks.holder k).mpr held
      simp [vacant.1] at holder
    have alone : ∀ k, ¬ waits k := fun k waited => by
      have queue := (tracks.queue k).mpr waited
      simp [vacant.2] at queue
    simp only [taken]
    exact ⟨fun k => by simp [idle k, eq_comm], fun k => by simp [alone k], List.nodup_nil⟩
  · have queued : lock.request i = ⟨lock.holder, lock.queue ++ [i]⟩ := if_neg vacant
    have unheld : lock.holder ≠ some i := fun held => outside ((tracks.holder i).mp held)
    have fresh : i ∉ lock.queue := fun mem => new ((tracks.queue i).mp mem)
    simp only [queued]
    refine ⟨fun k => ?_, fun k => ?_, ?_⟩
    · simp [unheld, tracks.holder k]
    · simp [unheld, tracks.queue k]
    · refine List.nodup_append.mpr ⟨tracks.nodup, by simp, fun a mem b last same => ?_⟩
      obtain rfl := List.mem_singleton.mp last
      exact fresh (same ▸ mem)

theorem take (tracks : lock.Tracks holds waits) {next : Lock} (taken : lock.take? i = some next) :
    next.Tracks (fun k => holds k ∨ k = i) (fun k => waits k ∧ k ≠ i) := by
  obtain ⟨unheld, queue, holder⟩ := take?_eq_some_iff.mp taken
  have idle : ∀ k, ¬ holds k := fun k held => by
    have here := (tracks.holder k).mpr held
    simp [unheld] at here
  have nodup := tracks.nodup
  rw [queue, List.nodup_cons] at nodup
  refine ⟨fun k => by simp [holder, idle k, eq_comm], fun k => ?_, nodup.2⟩
  rw [← tracks.queue k, queue, List.mem_cons]
  constructor
  · intro mem
    exact ⟨.inr mem, fun same => nodup.1 (same ▸ mem)⟩
  · rintro ⟨same | mem, other⟩
    · contradiction
    · exact mem

theorem release (tracks : lock.Tracks holds waits) (held : holds i) :
    lock.release.Tracks (fun k => holds k ∧ k ≠ i) waits := by
  refine ⟨fun k => ?_, tracks.queue, tracks.nodup⟩
  constructor
  · intro holder; simp [Lock.release] at holder
  · rintro ⟨other, apart⟩; exact absurd (tracks.unique other held) apart

theorem abandon (tracks : lock.Tracks holds waits) (i : Nat) :
    (lock.abandon i).Tracks holds (fun k => waits k ∧ k ≠ i) := by
  refine ⟨tracks.holder, fun k => ?_, tracks.nodup.erase i⟩
  rw [← tracks.queue k]
  exact (tracks.nodup.mem_erase_iff).trans and_comm

end Lock.Tracks

namespace Staging

variable {s : Staging} {key k : Location} {number n i : Nat}

theorem lock_of_length_le (beyond : s.made.length ≤ n) : s.lock n = .free := by
  simp [lock, beyond]

theorem lt_of_take? {next : Staging} (taken : s.take? number i = some next) :
    number < s.made.length := by
  refine Nat.lt_of_not_le fun beyond => ?_
  rw [take?, lock_of_length_le beyond] at taken
  simp [Lock.take?, Lock.free] at taken

/-- What a lock becomes where one of those that are made is changed. -/
theorem getD_modify (made : List Lock) (f : Lock → Lock) (within : number < made.length) :
    (made.modify number f).getD n .free =
      if n = number then f (made.getD number .free) else made.getD n .free := by
  simp only [List.getD_eq_getElem?_getD, List.getElem?_modify]
  by_cases same : n = number
  · subst same; simp [List.getElem?_eq_getElem within]
  · simp [same, Ne.symm same]

/-! Tables of users. -/

/-- A count as a table shows it, which has no entry for zero. -/
def entry (count : Nat) : Option Nat := if count = 0 then none else some count

@[simp] theorem getD_entry (count : Nat) : (entry count).getD 0 = count := by
  by_cases none : count = 0 <;> simp [entry, none]

@[simp] theorem isSome_entry (count : Nat) : (entry count).isSome = true ↔ 0 < count := by
  by_cases none : count = 0 <;> simp [entry, none, Nat.pos_iff_ne_zero]

def keys (users : List (Location × Nat)) : List Location := users.map (·.1)

theorem lookup_cons (first : Location) (count : Nat) (rest : List (Location × Nat)) :
    ((first, count) :: rest).lookup k = if k = first then some count else rest.lookup k := by
  by_cases same : k = first
  · simp [same]
  · have apart : (k == first) = false := beq_eq_false_iff_ne.mpr same
    simp [List.lookup_cons, same, apart]

theorem lookup_eq_none_of_not_mem {users : List (Location × Nat)} (absent : key ∉ keys users) :
    users.lookup key = none := by
  rw [List.lookup_eq_none_iff]
  intro p mem
  have apart : key ≠ p.1 := fun same => absent (List.mem_map.mpr ⟨p, mem, same.symm⟩)
  simpa using apart

theorem lookup_increment (users : List (Location × Nat)) :
    (increment key users).lookup k =
      if k = key then some ((users.lookup key).getD 0 + 1) else users.lookup k := by
  induction users with
  | nil => simp [increment, lookup_cons]
  | cons p rest ih =>
    obtain ⟨first, count⟩ := p
    by_cases here : first = key
    · subst here
      by_cases same : k = first <;> simp [increment, lookup_cons, same]
    · by_cases same : k = first
      · subst same
        simp [increment, here]
      · simp [increment, lookup_cons, here, Ne.symm here, same, ih]

theorem keys_increment_nodup {users : List (Location × Nat)} (nodup : (keys users).Nodup) :
    (keys (increment key users)).Nodup ∧
      ∀ k, k ∈ keys (increment key users) → k = key ∨ k ∈ keys users := by
  induction users with
  | nil => simp [increment, keys]
  | cons p rest ih =>
    obtain ⟨first, count⟩ := p
    simp only [keys, List.map_cons, List.nodup_cons] at nodup
    by_cases here : first = key
    · subst here
      simpa [increment, keys] using nodup
    · obtain ⟨distinct, origin⟩ := ih nodup.2
      simp only [increment, here, if_false, keys, List.map_cons, List.nodup_cons, List.mem_cons]
      refine ⟨⟨fun mem => ?_, distinct⟩, fun k mem => ?_⟩
      · exact (origin first mem).elim here nodup.1
      · rcases mem with rfl | later
        · exact .inr (.inl rfl)
        · exact (origin k later).imp_right .inr

theorem keys_decrement_sublist (users : List (Location × Nat)) :
    (keys (decrement key users)).Sublist (keys users) := by
  induction users with
  | nil => exact List.Sublist.refl _
  | cons p rest ih =>
    obtain ⟨first, count⟩ := p
    simp only [decrement, keys]
    split
    · split
      · exact List.sublist_cons_self _ _
      · exact List.Sublist.refl _
    · exact ih.cons_cons first

theorem lookup_decrement {users : List (Location × Nat)} (nodup : (keys users).Nodup) :
    (decrement key users).lookup k =
      if k = key then entry ((users.lookup key).getD 0 - 1) else users.lookup k := by
  induction users with
  | nil => simp [decrement, entry]
  | cons p rest ih =>
    obtain ⟨first, count⟩ := p
    simp only [keys, List.map_cons, List.nodup_cons] at nodup
    by_cases here : first = key
    · subst here
      by_cases last : count ≤ 1
      · have gone : count - 1 = 0 := by omega
        by_cases same : k = first
        · subst same
          simp [decrement, last, entry, gone, lookup_eq_none_of_not_mem nodup.1]
        · simp [decrement, last, lookup_cons, same]
      · have left : count - 1 ≠ 0 := by omega
        by_cases same : k = first <;> simp [decrement, last, lookup_cons, same, entry, left]
    · by_cases same : k = first
      · subst same
        simp [decrement, here]
      · simp [decrement, here, lookup_cons, Ne.symm here, same, ih nodup.2]

/-! What the operations do to the locks of numbers and of directories. -/

theorem lock_take? {next : Staging} (taken : s.take? number i = some next) :
    ∃ lock, (s.lock number).take? i = some lock ∧ next.locks = s.locks ∧
      next.users = s.users ∧ next.made.length = s.made.length ∧
      ∀ n, next.lock n = if n = number then lock else s.lock n := by
  have within := lt_of_take? taken
  obtain ⟨lock, here, rfl⟩ := Option.map_eq_some_iff.mp taken
  refine ⟨lock, here, rfl, rfl, List.length_set, fun n => ?_⟩
  simp only [Staging.lock, List.getD_eq_getElem?_getD, List.getElem?_set, within, if_true]
  by_cases same : n = number
  · simp [same]
  · simp [same, Ne.symm same]

/-- A newcomer asks for the one lock that its directory has, or is given. -/
theorem enter_spec (bounded : ∀ n, s.locks.lookup key = some n → n < s.made.length) :
    (∀ n, (s.enter key i).1.lock n =
      if n = (s.enter key i).2 then (s.lock (s.enter key i).2).request i else s.lock n) ∧
    (∀ k, (s.enter key i).1.locks.lookup k =
      if k = key then some (s.enter key i).2 else s.locks.lookup k) ∧
    (s.enter key i).1.users = increment key s.users ∧
    (s.enter key i).2 < (s.enter key i).1.made.length ∧
    s.made.length ≤ (s.enter key i).1.made.length := by
  cases found : s.locks.lookup key with
  | some number =>
    have within := bounded number found
    simp only [enter, found]
    refine ⟨fun n => ?_, fun k => ?_, trivial, by simpa using within, by simp⟩
    · by_cases same : n = number
      · subst same; simp only [Staging.lock, getD_modify _ _ within]
      · simp only [Staging.lock, getD_modify _ _ within, if_neg same]
    · by_cases same : k = key <;> simp [same, found]
  | none =>
    simp only [enter, found]
    refine ⟨fun n => ?_, fun k => ?_, trivial, by simp, by simp⟩
    · simp only [Staging.lock, List.getD_eq_getElem?_getD, List.getElem?_append]
      by_cases inside : n < s.made.length
      · have older : n ≠ s.made.length := Nat.ne_of_lt inside
        simp [inside, older]
      · by_cases last : n = s.made.length
        · simp [last]
        · have beyond : n - s.made.length ≠ 0 := by omega
          simp [inside, last, beyond]
    · rw [List.lookup_append, lookup_cons]
      by_cases same : k = key
      · simp [same, found]
      · simp [same]

theorem enter_number (found : s.locks.lookup key = some number) :
    (s.enter key i).2 = number := by
  simp [enter, found]

theorem discount_locks_lookup (s : Staging) (key k : Location) :
    (s.discount key).locks.lookup k =
      if k = key ∧ ((decrement key s.users).lookup key).isSome = false then none
      else s.locks.lookup k := by
  simp only [discount]
  by_cases used : ((decrement key s.users).lookup key).isSome = true
  · simp [used]
  · simp [used, Tree.lookup_filter_ne]

theorem leave_lock (within : number < s.made.length) :
    (s.leave key number).lock n = if n = number then (s.lock number).release else s.lock n :=
  getD_modify s.made Lock.release within

theorem abandon_lock (within : number < s.made.length) :
    (s.abandon key number i).lock n =
      if n = number then (s.lock number).abandon i else s.lock n :=
  getD_modify s.made (·.abandon i) within

end Staging

end OverlayBuild.Build
