import OverlayBuild.Tree

/-! Locks that let builds through one at a time, in the order in which they came, and the
locks of the directories in which specifications are staged. -/
namespace OverlayBuild.Build

/-- A lock with the number of the build that holds it and of those that wait for it. -/
structure Lock where
  holder : Option Nat
  queue : List Nat
  deriving DecidableEq, Repr

namespace Lock

def free : Lock := ⟨none, []⟩

/-- A newcomer takes a lock that is free and that no one waits for. Otherwise it waits
behind all others, so that it overtakes no one who is about to be let through. -/
def request (lock : Lock) (i : Nat) : Lock :=
  if lock.holder = none ∧ lock.queue = [] then ⟨some i, []⟩
  else ⟨lock.holder, lock.queue ++ [i]⟩

/-- The first who waits takes the lock once it is free. -/
def take? (lock : Lock) (i : Nat) : Option Lock :=
  match lock.holder, lock.queue with
  | none, j :: queue => if j = i then some ⟨some i, queue⟩ else none
  | _, _ => none

def release (lock : Lock) : Lock := ⟨none, lock.queue⟩

def abandon (lock : Lock) (i : Nat) : Lock := ⟨lock.holder, lock.queue.erase i⟩

theorem take?_eq_some_iff {lock next : Lock} {i : Nat} :
    lock.take? i = some next ↔
      lock.holder = none ∧ lock.queue = i :: next.queue ∧ next.holder = some i := by
  obtain ⟨holder, queue⟩ := lock
  obtain ⟨nextHolder, nextQueue⟩ := next
  cases holder with
  | some j => simp [take?]
  | none =>
    cases queue with
    | nil => simp [take?]
    | cons j rest =>
      by_cases h : j = i
      · simp [take?, h, eq_comm, and_comm]
      · simp [take?, h]

end Lock

/-- The locks of directories. Each lock that is made gets the next number. A directory has
a lock as long as builds use it, which are counted. -/
structure Staging where
  made : List Lock
  locks : List (Location × Nat)
  users : List (Location × Nat)
  deriving DecidableEq, Repr

namespace Staging

def empty : Staging := ⟨[], [], []⟩

/-- A count one higher, which starts at one. -/
def increment (key : Location) : List (Location × Nat) → List (Location × Nat)
  | [] => [(key, 1)]
  | (k, n) :: rest => if k = key then (k, n + 1) :: rest else (k, n) :: increment key rest

def decrement (key : Location) : List (Location × Nat) → List (Location × Nat)
  | [] => []
  | (k, n) :: rest =>
    if k = key then if n ≤ 1 then rest else (k, n - 1) :: rest
    else (k, n) :: decrement key rest

def lock (s : Staging) (number : Nat) : Lock := s.made.getD number .free

/-- A build asks for the lock of a directory, which is made if there is none. Gives the
number of the lock. -/
def enter (s : Staging) (key : Location) (i : Nat) : Staging × Nat :=
  match s.locks.lookup key with
  | some number =>
    (⟨s.made.modify number (·.request i), s.locks, increment key s.users⟩, number)
  | none =>
    (⟨s.made ++ [Lock.free.request i], s.locks ++ [(key, s.made.length)], increment key s.users⟩,
      s.made.length)

def take? (s : Staging) (number i : Nat) : Option Staging :=
  ((s.lock number).take? i).map fun lock => { s with made := s.made.set number lock }

/-- A directory has one user less. Its lock is given up with its last user. -/
def discount (s : Staging) (key : Location) : Staging :=
  let users := decrement key s.users
  let locks := if (users.lookup key).isSome then s.locks else s.locks.filter (·.1 != key)
  ⟨s.made, locks, users⟩

def leave (s : Staging) (key : Location) (number : Nat) : Staging :=
  { s with made := s.made.modify number Lock.release }.discount key

def abandon (s : Staging) (key : Location) (number i : Nat) : Staging :=
  { s with made := s.made.modify number (·.abandon i) }.discount key

def userCount (s : Staging) : Nat := s.users.foldl (fun count user => count + user.2) 0

end Staging

end OverlayBuild.Build
