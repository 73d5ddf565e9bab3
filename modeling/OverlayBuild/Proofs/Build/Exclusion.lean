import OverlayBuild.Proofs.Build.Standing

/-! Builds take turns. At every time one build at most runs the program, and one build at
most is busy in a directory; the tables of locks list just the directories in use. This
holds whatever happens to the builds, in whatever order, errors at any point included. -/
namespace OverlayBuild.Build

open Staging (entry keys)

variable {s : State} {i n : Nat} {p q : Phase} {hold : Hold} {held : Option Hold}

/-- The lock of the context is held by the build that runs the program. -/
def Turn (s : State) : Prop :=
  s.context.lock.Tracks (fun i => (s.standing i).runs = true)
    (fun i => (s.standing i).queues = true)

/-- A build has to do with the lock of a number, by what it holds or by what it awaits. -/
@[simp] def Sees (select : Standing → Option Hold) (n : Nat) (standing : Standing) : Prop :=
  ∃ hold, select standing = some hold ∧ hold.lock = n

/-- The lock of a number is held by the build that has its directory to itself. -/
def Door (s : State) (n : Nat) : Prop :=
  (s.context.staging.lock n).Tracks (fun i => Sees Standing.inside? n (s.standing i))
    (fun i => Sees Standing.awaits? n (s.standing i))

/-- The tables list the directories in use, each with its users and with their lock. -/
structure Tables (s : State) : Prop where
  known : ∀ i hold, (s.standing i).hold? = some hold →
    s.context.staging.locks.lookup hold.key = some hold.lock
  bounded : ∀ key n, s.context.staging.locks.lookup key = some n →
    n < s.context.staging.made.length
  counted : ∀ key, s.context.staging.users.lookup key = entry (s.users key)
  locked : ∀ key, (s.context.staging.locks.lookup key).isSome = true ↔ 0 < s.users key
  distinct : (keys s.context.staging.users).Nodup

structure Guarded (s : State) : Prop where
  turn : Turn s
  door : ∀ n, Door s n
  tables : Tables s

/-! Phases that stand alike. -/

theorem Turn.become (turn : Turn s) (known : s.phase? i = some q)
    (runs : p.standing.runs = q.standing.runs) (queues : p.standing.queues = q.standing.queues) :
    Turn (s.become i p) := by
  refine Lock.Tracks.congr turn (fun k => ?_) (fun k => ?_)
  · exact State.standing_become_iff (f := (·.runs = true)) known (by rw [runs]) k
  · exact State.standing_become_iff (f := (·.queues = true)) known (by rw [queues]) k

theorem Door.become (door : Door s n) (known : s.phase? i = some q)
    (inside : p.standing.inside? = q.standing.inside?)
    (awaits : p.standing.awaits? = q.standing.awaits?) : Door (s.become i p) n := by
  refine Lock.Tracks.congr door (fun k => ?_) (fun k => ?_)
  · exact State.standing_become_iff (f := Sees Standing.inside? n) known (by rw [Sees, Sees, inside]) k
  · exact State.standing_become_iff (f := Sees Standing.awaits? n) known (by rw [Sees, Sees, awaits]) k

theorem users_become_same (known : s.phase? i = some q)
    (holds : p.standing.hold? = q.standing.hold?) (key : Location) :
    (s.become i p).users key = s.users key := by
  have counts := State.users_become (p := p) known key
  simp only [Standing.uses, holds] at counts
  omega

theorem Tables.become (tables : Tables s) (known : s.phase? i = some q)
    (holds : p.standing.hold? = q.standing.hold?) : Tables (s.become i p) := by
  have users := users_become_same known holds
  refine ⟨fun k hold uses => tables.known k hold ?_, tables.bounded, fun key => ?_, fun key => ?_,
    tables.distinct⟩
  · rw [State.standing_become known] at uses
    by_cases same : k = i
    · subst same
      rw [State.standing_of_phase? known, ← holds]
      simpa using uses
    · simpa [same] using uses
  · rw [users key]; exact tables.counted key
  · rw [users key]; exact tables.locked key

theorem Guarded.become (guarded : Guarded s) (known : s.phase? i = some q)
    (same : p.standing = q.standing) : Guarded (s.become i p) := by
  refine ⟨guarded.turn.become known ?_ ?_, fun n => (guarded.door n).become known ?_ ?_,
    guarded.tables.become known ?_⟩
  all_goals rw [same]

theorem Guarded.frame (guarded : Guarded s) (tree : Tree) (calls : List (Nat × Call)) :
    Guarded { s with tree := tree, calls := calls } :=
  ⟨guarded.turn, guarded.door, ⟨guarded.tables.known, guarded.tables.bounded,
    guarded.tables.counted, guarded.tables.locked, guarded.tables.distinct⟩⟩

/-! The lock of the context. What only changes it does nothing to directories. -/

theorem Guarded.become_withLock (guarded : Guarded s) {lock : Lock} {holds waits : Nat → Prop}
    (known : s.phase? i = some q) (inside : p.standing.inside? = q.standing.inside?)
    (awaits : p.standing.awaits? = q.standing.awaits?) (tracks : lock.Tracks holds waits)
    (runs : holds i ↔ p.standing.runs = true) (queues : waits i ↔ p.standing.queues = true)
    (others : ∀ k, k ≠ i → (holds k ↔ (s.standing k).runs = true) ∧
      (waits k ↔ (s.standing k).queues = true)) :
    Guarded ((s.withLock lock).become i p) := by
  have there : (s.withLock lock).phase? i = some q := known
  have tables : Tables (s.withLock lock) := ⟨guarded.tables.known, guarded.tables.bounded,
    guarded.tables.counted, guarded.tables.locked, guarded.tables.distinct⟩
  have doors : ∀ n, Door (s.withLock lock) n := guarded.door
  refine ⟨tracks.congr (fun k => ?_) (fun k => ?_), fun n => (doors n).become there inside awaits,
    tables.become there (by simp only [Standing.hold?, inside, awaits])⟩
  all_goals
    rw [State.standing_become there]
    by_cases same : k = i
  · subst same; simpa using runs
  · simpa [same] using (others k same).1
  · subst same; simpa using queues
  · simpa [same] using (others k same).2

theorem Guarded.queue (guarded : Guarded s) (known : s.phase? i = some q)
    (idle : q.standing = ⟨held, none, false, false⟩) : Guarded (s.queue i held) := by
  have here := (State.standing_of_phase? known).trans idle
  have requested := guarded.turn.request (i := i) (by simp [here]) (by simp [here])
  refine guarded.become_withLock known ?_ ?_ requested ?_ ?_ fun k apart => by simp [apart]
  · rw [idle]; split <;> rfl
  · rw [idle]; split <;> rfl
  · split <;> simp_all [Phase.standing]
  · split <;> simp_all [Phase.standing]

theorem Guarded.takeTurn (guarded : Guarded s) {lock : Lock}
    (known : s.phase? i = some (.queued held)) (taken : s.context.lock.take? i = some lock) :
    Guarded ((s.withLock lock).become i (.running held)) :=
  guarded.become_withLock known rfl rfl (guarded.turn.take taken) (by simp [Phase.standing])
    (by simp [Phase.standing]) fun k apart => by simp [apart]

theorem Guarded.endTurn (guarded : Guarded s) (outcome : Outcome)
    (known : s.phase? i = some (.running held)) :
    Guarded ((s.withLock s.context.lock.release).become i (.ended held outcome)) := by
  have here := State.standing_of_phase? known
  have released := guarded.turn.release (i := i) (by simp [here, Phase.standing])
  refine guarded.become_withLock known ?_ ?_ released ?_ ?_ fun k apart => by simp [apart]
  all_goals rw [standing_ended]
  · rfl
  · rfl
  · simp
  · simp [here, Phase.standing]

theorem Guarded.leaveQueue (guarded : Guarded s) (outcome : Outcome)
    (known : s.phase? i = some (.queued held)) :
    Guarded ((s.withLock (s.context.lock.abandon i)).become i (.ended held outcome)) := by
  have here := State.standing_of_phase? known
  have abandoned := guarded.turn.abandon i
  refine guarded.become_withLock known ?_ ?_ abandoned ?_ ?_ fun k apart => by simp [apart]
  all_goals rw [standing_ended]
  · rfl
  · rfl
  · simp [here, Phase.standing]
  · simp

/-! The locks of directories. What only changes them does nothing to the lock of the
context. -/

theorem sees_become {select : Standing → Option Hold} {sees : Nat → Prop} {number : Nat}
    (known : s.phase? i = some q) (own : sees i ↔ (select p.standing).isSome = true)
    (others : ∀ k, k ≠ i → (sees k ↔ Sees select number (s.standing k)))
    (after : ∀ hold, select p.standing = some hold → hold.lock = number) (k : Nat) :
    sees k ↔ Sees select number ((s.become i p).standing k) := by
  rw [State.standing_become known]
  by_cases same : k = i
  · subst same
    rw [Function.update_self, own, Option.isSome_iff_exists]
    exact exists_congr fun hold => ⟨fun has => ⟨has, after hold has⟩, And.left⟩
  · rw [Function.update_of_ne same]
    exact others k same

theorem not_sees {select : Standing → Option Hold} {number : Nat} {standing : Standing}
    (only : ∀ hold, select standing = some hold → hold.lock = number) (apart : n ≠ number) :
    ¬ Sees select n standing := by
  rintro ⟨hold, has, at_n⟩
  exact apart (at_n.symm.trans (only hold has))

/-- Where the lock of one number changes, the build that changes it has nothing to do with
any other. -/
theorem doors_become {staging : Staging} {lock : Lock} {holds waits : Nat → Prop}
    (guarded : Guarded s) (number : Nat) (known : s.phase? i = some q)
    (changed : ∀ n, staging.lock n = if n = number then lock else s.context.staging.lock n)
    (tracks : lock.Tracks holds waits)
    (inside : holds i ↔ p.standing.inside?.isSome = true)
    (awaits : waits i ↔ p.standing.awaits?.isSome = true)
    (others : ∀ k, k ≠ i → (holds k ↔ Sees Standing.inside? number (s.standing k)) ∧
      (waits k ↔ Sees Standing.awaits? number (s.standing k)))
    (before : ∀ hold, q.standing.inside? = some hold ∨ q.standing.awaits? = some hold →
      hold.lock = number)
    (after : ∀ hold, p.standing.inside? = some hold ∨ p.standing.awaits? = some hold →
      hold.lock = number) (n : Nat) :
    Door ((s.withStaging staging).become i p) n := by
  have there : (s.withStaging staging).phase? i = some q := known
  show (staging.lock n).Tracks _ _
  rw [changed n]
  by_cases same : n = number
  · subst same
    rw [if_pos rfl]
    refine tracks.congr (sees_become there inside ?_ ?_) (sees_become there awaits ?_ ?_)
    · exact fun k apart => (others k apart).1
    · exact fun hold has => after hold (.inl has)
    · exact fun k apart => (others k apart).2
    · exact fun hold has => after hold (.inr has)
  -- With the lock of another number the build has nothing to do, before and after.
  · rw [if_neg same]
    refine (guarded.door n).congr (fun k => ?_) (fun k => ?_)
    · refine State.standing_become_iff (f := Sees Standing.inside? n) there ?_ k
      exact iff_of_false (not_sees (fun hold has => before hold (.inl has)) same)
        (not_sees (fun hold has => after hold (.inl has)) same)
    · refine State.standing_become_iff (f := Sees Standing.awaits? n) there ?_ k
      exact iff_of_false (not_sees (fun hold has => before hold (.inr has)) same)
        (not_sees (fun hold has => after hold (.inr has)) same)

theorem Guarded.become_withStaging (guarded : Guarded s) {staging : Staging}
    (known : s.phase? i = some q) (runs : p.standing.runs = q.standing.runs)
    (queues : p.standing.queues = q.standing.queues)
    (doors : ∀ n, Door ((s.withStaging staging).become i p) n)
    (tables : Tables ((s.withStaging staging).become i p)) :
    Guarded ((s.withStaging staging).become i p) :=
  have turn : Turn (s.withStaging staging) := guarded.turn
  have there : (s.withStaging staging).phase? i = some q := known
  ⟨turn.become there runs queues, doors, tables⟩

theorem Guarded.takeDoor (guarded : Guarded s) {staging : Staging}
    (known : s.phase? i = some (.waiting hold)) (names : List String)
    (taken : s.context.staging.take? hold.lock i = some staging) :
    Guarded ((s.withStaging staging).become i (.checking hold names)) := by
  have here := State.standing_of_phase? known
  obtain ⟨lock, took, locks, users, made, changed⟩ := Staging.lock_take? taken
  refine guarded.become_withStaging known rfl rfl
    (doors_become guarded hold.lock known changed ((guarded.door _).take took) ?_ ?_
      (fun k apart => by simp [apart]) ?_ ?_) ?_
  · simp [Phase.standing]
  · simp [Phase.standing]
  · simp [Phase.standing]
  · simp [Phase.standing]
  · have tables : Tables (s.withStaging staging) := by
      have old := guarded.tables
      refine ⟨fun k hold uses => ?_, fun key n found => ?_, fun key => ?_, fun key => ?_, ?_⟩
      · exact locks ▸ old.known k hold uses
      · exact made ▸ old.bounded key n (locks ▸ found)
      · exact users ▸ old.counted key
      · exact locks ▸ old.locked key
      · exact users ▸ old.distinct
    exact tables.become (q := .waiting hold) known rfl

/-- A newcomer is entered into the tables under the lock that it asks for. -/
theorem Tables.enter (tables : Tables s) {key : Location} (known : s.phase? i = some q)
    (outside : q.standing = .outside)
    (holds : p.standing.hold? = some ⟨key, (s.context.staging.enter key i).2⟩) :
    Tables ((s.withStaging (s.context.staging.enter key i).1).become i p) := by
  obtain ⟨-, locks, users, within, longer⟩ :=
    Staging.enter_spec (i := i) (tables.bounded key)
  have there : (s.withStaging (s.context.staging.enter key i).1).phase? i = some q := known
  have count (k : Location) :
      ((s.withStaging (s.context.staging.enter key i).1).become i p).users k =
        s.users k + if k = key then 1 else 0 := State.users_join there outside holds k
  refine ⟨fun k hold uses => ?_, fun k n found => ?_, fun k => ?_, fun k => ?_, ?_⟩
  · change (s.context.staging.enter key i).1.locks.lookup hold.key = some hold.lock
    rw [State.standing_become there] at uses
    rw [locks]
    by_cases same : k = i
    · subst same
      obtain rfl : ⟨key, (s.context.staging.enter key k).2⟩ = hold :=
        Option.some.inj (holds.symm.trans (by simpa using uses))
      simp
    · have before := tables.known k hold (by simpa [same] using uses)
      by_cases shared : hold.key = key
      · rw [if_pos shared, Staging.enter_number (shared ▸ before)]
      · rw [if_neg shared, before]
  · change (s.context.staging.enter key i).1.locks.lookup k = some n at found
    change n < (s.context.staging.enter key i).1.made.length
    rw [locks] at found
    split at found
    · exact Option.some.inj found ▸ within
    · exact Nat.lt_of_lt_of_le (tables.bounded k n found) longer
  · change (s.context.staging.enter key i).1.users.lookup k = _
    rw [users, Staging.lookup_increment, count, tables.counted, tables.counted]
    by_cases same : k = key
    · rw [if_pos same, if_pos same, same, Staging.getD_entry]
      simp [entry]
    · simp [same]
  · change ((s.context.staging.enter key i).1.locks.lookup k).isSome = true ↔ _
    rw [locks, count]
    by_cases same : k = key
    · simp [same]
    · simp [same, tables.locked k]
  · change (keys (s.context.staging.enter key i).1.users).Nodup
    rw [users]
    exact (Staging.keys_increment_nodup tables.distinct).1

section discount

variable {staging : Staging} (tables : Tables s) (known : s.phase? i = some q)
  (uses : q.standing.hold? = some hold) (outside : p.standing = .outside)
  (discounted : staging.locks = (s.context.staging.discount hold.key).locks ∧
    staging.users = (s.context.staging.discount hold.key).users)

include known uses outside in
theorem users_withStaging_part (k : Location) :
    ((s.withStaging staging).become i p).users k =
      if k = hold.key then s.users k - 1 else s.users k := by
  have there : (s.withStaging staging).phase? i = some q := known
  exact State.users_part there uses outside k

include tables known uses outside discounted

theorem Tables.discount_users (k : Location) : staging.users.lookup k =
    entry (((s.withStaging staging).become i p).users k) := by
  rw [discounted.2, users_withStaging_part known uses outside]
  change (Staging.decrement hold.key s.context.staging.users).lookup k = _
  rw [Staging.lookup_decrement tables.distinct, tables.counted, tables.counted]
  by_cases same : k = hold.key <;> simp [same]

theorem Tables.discount_locks (k : Location) : staging.locks.lookup k =
    if 0 < ((s.withStaging staging).become i p).users k then
      s.context.staging.locks.lookup k else none := by
  have left : (Staging.decrement hold.key s.context.staging.users).lookup hold.key =
      entry (((s.withStaging staging).become i p).users hold.key) := by
    rw [← tables.discount_users known uses outside discounted hold.key, discounted.2]
    rfl
  rw [discounted.1, Staging.discount_locks_lookup, left]
  by_cases same : k = hold.key
  · subst same
    by_cases last : 0 < ((s.withStaging staging).become i p).users hold.key
    · have used := (Staging.isSome_entry _).mpr last
      rw [if_neg (by simp [used]), if_pos last]
    · have unused : (entry (((s.withStaging staging).become i p).users hold.key)).isSome = false :=
        Bool.eq_false_iff.mpr (mt (Staging.isSome_entry _).mp last)
      rw [if_pos ⟨rfl, unused⟩, if_neg last]
  · have before := tables.locked k
    simp only [same, false_and, if_false, users_withStaging_part known uses outside]
    split
    · rfl
    · rename_i none_left
      exact Option.not_isSome_iff_eq_none.mp (mt before.mp none_left)

/-- One who goes is taken off the tables, and with the last one goes the lock. -/
theorem Tables.discount (made : staging.made.length = s.context.staging.made.length) :
    Tables ((s.withStaging staging).become i p) := by
  have there : (s.withStaging staging).phase? i = some q := known
  have locks := tables.discount_locks known uses outside discounted
  refine ⟨fun k other used => ?_, fun k n found => ?_,
    tables.discount_users known uses outside discounted, fun k => ?_, ?_⟩
  · change staging.locks.lookup other.key = some other.lock
    rw [locks, if_pos (State.users_pos used)]
    rw [State.standing_become there] at used
    have apart : k ≠ i := by
      rintro rfl
      simp [outside, Standing.outside, Standing.hold?] at used
    exact tables.known k other (by simpa [apart] using used)
  · change staging.locks.lookup k = some n at found
    change n < staging.made.length
    rw [locks] at found
    split at found
    · exact made ▸ tables.bounded k n found
    · contradiction
  · change (staging.locks.lookup k).isSome = true ↔ _
    rw [locks]
    split
    · rename_i used
      have before : 0 < s.users k := by
        rw [users_withStaging_part known uses outside] at used
        split at used <;> omega
      simp [used, (tables.locked k).mpr before]
    · rename_i unused; simp [unused]
  · change (keys staging.users).Nodup
    rw [discounted.2]
    exact (Staging.keys_decrement_sublist _).nodup tables.distinct

end discount

theorem Guarded.enterStaging (guarded : Guarded s) (host : Host) (r : Request)
    (known : s.phase? i = some .entering) : Guarded (s.enterStaging host i r) := by
  have here := State.standing_of_phase? known
  simp only [State.enterStaging]
  generalize r.place host.working = key
  obtain ⟨changed, -⟩ := Staging.enter_spec (i := i) (guarded.tables.bounded key)
  have asked := (guarded.door (s.context.staging.enter key i).2).request (i := i)
    (by simp [here, Phase.standing, Standing.outside])
    (by simp [here, Phase.standing, Standing.outside])
  have there : (s.context.staging.enter key i).1.lock (s.context.staging.enter key i).2 =
      (s.context.staging.lock (s.context.staging.enter key i).2).request i := by
    rw [changed, if_pos rfl]
  refine guarded.become_withStaging known ?_ ?_
    (doors_become guarded (s.context.staging.enter key i).2 known changed asked ?_ ?_
      (fun k apart => by simp [apart]) ?_ ?_)
    (guarded.tables.enter known rfl ?_)
  · split <;> rfl
  · split <;> rfl
  · rw [there]; split <;> simp_all [Phase.standing, Standing.outside]
  · rw [there]; split <;> simp_all [Phase.standing, Standing.outside]
  · simp [Phase.standing, Standing.outside]
  · split <;> simp [Phase.standing, eq_comm]
  · split <;> rfl

theorem Guarded.finish (guarded : Guarded s) (outcome : Outcome) (known : s.phase? i = some q)
    (inside : q.standing = ⟨some hold, none, false, false⟩) :
    Guarded (s.finish i hold outcome) := by
  have here := (State.standing_of_phase? known).trans inside
  have holds : q.standing.hold? = some hold := by rw [inside]; rfl
  have registered := guarded.tables.known i hold (by rw [here]; rfl)
  have within := guarded.tables.bounded _ _ registered
  have released := (guarded.door hold.lock).release (i := i) (by simp [here])
  refine guarded.become_withStaging known (by rw [inside]; rfl) (by rw [inside]; rfl)
    (doors_become guarded hold.lock known (fun _ => Staging.leave_lock within) released ?_ ?_
      (fun k apart => by simp [apart]) ?_ ?_)
    (guarded.tables.discount known holds rfl ⟨rfl, rfl⟩ (List.length_modify _ _ _))
  · simp [Phase.standing, Standing.outside]
  · simp [here, Phase.standing, Standing.outside]
  · simp [inside]
  · simp [Phase.standing, Standing.outside]

theorem Guarded.giveUp (guarded : Guarded s) (outcome : Outcome)
    (known : s.phase? i = some (.waiting hold)) :
    Guarded ((s.withStaging (s.context.staging.abandon hold.key hold.lock i)).become i
      (.done outcome)) := by
  have here := State.standing_of_phase? known
  have registered := guarded.tables.known i hold (by rw [here]; rfl)
  have within := guarded.tables.bounded _ _ registered
  have abandoned := (guarded.door hold.lock).abandon i
  refine guarded.become_withStaging known rfl rfl
    (doors_become guarded hold.lock known (fun _ => Staging.abandon_lock within) abandoned ?_ ?_
      (fun k apart => by simp [apart]) ?_ ?_)
    (guarded.tables.discount known rfl rfl ⟨rfl, rfl⟩ (List.length_modify _ _ _))
  · simp [here, Phase.standing, Standing.outside]
  · simp [Phase.standing, Standing.outside]
  · simp [Phase.standing]
  · simp [Phase.standing, Standing.outside]

/-! What can happen to a build, phase by phase. -/

section step

variable (host : Host) (r : Request)

theorem Guarded.enter (guarded : Guarded s) (known : s.phase? i = some .entering) :
    Guarded (s.enter host i r) := by
  unfold State.enter
  split
  · exact guarded.become known rfl
  · split
    · exact guarded.become known rfl
    · split
      · exact guarded.queue known rfl
      · exact guarded.enterStaging host r known

theorem Guarded.stage (guarded : Guarded s) {names : List String}
    (known : s.phase? i = some (.checking hold names)) : Guarded (s.stage i r hold) := by
  unfold State.stage
  split
  · exact guarded.become known rfl
  · exact guarded.finish _ known rfl

theorem Guarded.check (guarded : Guarded s) {names : List String}
    (known : s.phase? i = some (.checking hold names)) : Guarded (s.check host i r hold names) := by
  cases names with
  | nil => exact guarded.stage r known
  | cons name names =>
    simp only [State.check]
    split
    · exact guarded.finish _ known rfl
    · split
      · exact guarded.stage r known
      · exact guarded.become known rfl

theorem Guarded.put (guarded : Guarded s) (known : s.phase? i = some q)
    (inside : q.standing = ⟨some hold, none, false, false⟩) (content : List UInt8)
    (next : State → State) (goes : ∀ tree, Guarded (next { s with tree := tree })) :
    Guarded (s.put host i r hold content next) := by
  unfold State.put
  split
  · exact goes _
  · exact guarded.become known inside.symm

theorem Guarded.run (guarded : Guarded s) (known : s.phase? i = some (.running held)) :
    Guarded (s.run host i r held) :=
  (guarded.frame _ _).endTurn _ known

theorem Guarded.clean (guarded : Guarded s) {outcome : Outcome}
    (known : s.phase? i = some (.cleaning hold outcome)) :
    Guarded (s.clean host i r hold outcome) := by
  unfold State.clean
  split
  · exact guarded.become known rfl
  · exact guarded.finish _ known rfl

theorem Guarded.remove (guarded : Guarded s) {outcome : Outcome}
    (known : s.phase? i = some (.removing hold outcome)) :
    Guarded (s.remove host i r hold outcome) := by
  unfold State.remove
  split
  · exact (guarded.frame _ _).finish _ known rfl
  · exact guarded.finish _ known rfl

end step

theorem Guarded.step (guarded : Guarded s) {host : Host} {next : State}
    (stepped : s.step host i = some next) : Guarded next := by
  unfold State.step at stepped
  split at stepped
  · contradiction
  · rename_i j found
    have known : s.phase? i = some j.phase := by simp [State.phase?, found]
    cases phase : j.phase with
    | entering =>
      simp only [phase, Option.some.injEq] at stepped known
      exact stepped ▸ guarded.enter host _ known
    | waiting hold =>
      simp only [phase] at stepped known
      obtain ⟨staging, taken, rfl⟩ := Option.map_eq_some_iff.mp stepped
      exact guarded.takeDoor known _ taken
    | checking hold names =>
      simp only [phase, Option.some.injEq] at stepped known
      exact stepped ▸ guarded.check host _ known
    | opening hold content =>
      simp only [phase, Option.some.injEq] at stepped known
      exact stepped ▸ guarded.put host _ known rfl _ _ fun tree =>
        (guarded.frame tree s.calls).become known rfl
    | writing hold content =>
      simp only [phase, Option.some.injEq] at stepped known
      exact stepped ▸ guarded.put host _ known rfl _ _ fun tree =>
        (guarded.frame tree s.calls).queue known rfl
    | queued held =>
      simp only [phase] at stepped known
      obtain ⟨lock, taken, rfl⟩ := Option.map_eq_some_iff.mp stepped
      exact guarded.takeTurn known taken
    | running held =>
      simp only [phase, Option.some.injEq] at stepped known
      exact stepped ▸ guarded.run host _ known
    | cleaning hold outcome =>
      simp only [phase, Option.some.injEq] at stepped known
      exact stepped ▸ guarded.clean host _ known
    | removing hold outcome =>
      simp only [phase, Option.some.injEq] at stepped known
      exact stepped ▸ guarded.remove host _ known
    | done outcome => simp [phase] at stepped

theorem Guarded.fail (guarded : Guarded s) (i : Nat) (fault : Fault) :
    Guarded (s.fail i fault) := by
  unfold State.fail
  split
  · exact guarded
  · rename_i j found
    have known : s.phase? i = some j.phase := by simp [State.phase?, found]
    cases phase : j.phase with
    | entering =>
      rw [phase] at known
      exact guarded.become known rfl
    | waiting hold => exact guarded.giveUp _ (phase ▸ known)
    | checking hold names => exact guarded.finish _ (phase ▸ known) rfl
    | opening hold content =>
      rw [phase] at known
      exact guarded.become known rfl
    | writing hold content =>
      rw [phase] at known
      exact guarded.become known rfl
    | queued held => exact guarded.leaveQueue _ (phase ▸ known)
    | running held => exact guarded.endTurn _ (phase ▸ known)
    | cleaning hold outcome => exact guarded.finish _ (phase ▸ known) rfl
    | removing hold outcome => exact guarded.finish _ (phase ▸ known) rfl
    | done outcome => exact guarded

theorem Guarded.react (guarded : Guarded s) (working : Location) (event : Event) :
    Guarded (s.react working event) := by
  cases event with
  | advance program i =>
    cases stepped : s.step ⟨working, program⟩ i with
    | none => simpa [State.react, stepped] using guarded
    | some next => simpa [State.react, stepped] using guarded.step stepped
  | fail i fault => exact guarded.fail i fault

theorem Guarded.execute (guarded : Guarded s) (working : Location) (events : List Event) :
    Guarded (s.execute working events) := by
  induction events generalizing s with
  | nil => exact guarded
  | cons event events ih => exact ih (guarded.react working event)

theorem standing_start (tree : Tree) (context : Context) (requests : List Request) :
    (State.start tree context requests).standing = fun _ => .outside := by
  funext i
  simp only [State.standing, State.phase?, State.start, List.getElem?_map]
  cases requests[i]? <;> rfl

/-- Builds that share a new context start guarded. -/
theorem guarded_start (tree : Tree) (config : Config) (requests : List Request) :
    Guarded (State.start tree (.new config) requests) := by
  have unused (key : Location) : (State.start tree (.new config) requests).users key = 0 := by
    simp only [State.users, State.start, List.countP_map]
    exact List.countP_eq_zero.mpr fun r _ => by simp [Phase.standing]
  refine ⟨Lock.Tracks.free.congr ?_ ?_, fun n => Lock.Tracks.free.congr ?_ ?_, ?_⟩
  · simp [standing_start, Standing.outside]
  · simp [standing_start, Standing.outside]
  · simp [standing_start, Standing.outside]
  · simp [standing_start, Standing.outside]
  · refine ⟨?_, ?_, ?_, ?_, ?_⟩
    · simp [standing_start, Standing.outside, Standing.hold?]
    · simp [State.start, Context.new, Staging.empty]
    · exact fun key => by rw [unused]; rfl
    · exact fun key => by rw [unused]; simp [State.start, Context.new, Staging.empty]
    · simp [State.start, Context.new, Staging.empty, keys]

end OverlayBuild.Build
