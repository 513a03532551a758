import Interleave.Ids

/-!
# Monitors

The lock that every object carries. A thread may acquire a monitor it owns again, and has to release
it as often as it acquired it. A monitor is owned exactly while it is held at least once, so the two
are one value.
-/

namespace Interleave

/-- The state of a lock. -/
inductive Monitor where
  /-- Nobody owns it. -/
  | free
  /-- The owner holds it once, and again as often as it re-entered. -/
  | held (owner : ThreadId) (reentries : Nat)
deriving DecidableEq, Hashable, Repr, Inhabited

namespace Monitor

/-- The thread that owns the monitor. -/
def owner? : Monitor → Option ThreadId
  | free => none
  | held t _ => some t

/-- How often the owner has yet to release it. -/
def count : Monitor → Nat
  | free => 0
  | held _ n => n + 1

/-- Does anybody own it? -/
def isLocked (m : Monitor) : Bool := m.owner?.isSome

/-- Does this thread own it? -/
def isLockedBy (m : Monitor) (t : ThreadId) : Bool := m.owner? == some t

/-- Can this thread acquire it, be it free or its own already? -/
def canLock : Monitor → ThreadId → Bool
  | free, _ => true
  | held u _, t => u == t

/-- Acquires the monitor; none if another thread owns it. -/
def lock : Monitor → ThreadId → Option Monitor
  | free, t => some (held t 0)
  | held u n, t => if u = t then some (held u (n + 1)) else none

/-- Releases the monitor once; none if this thread does not own it. -/
def unlock : Monitor → ThreadId → Option Monitor
  | free, _ => none
  | held u n, t =>
    if u = t then
      match n with
      | 0 => some free
      | n + 1 => some (held u n)
    else none

theorem isSome_lock (m : Monitor) (t : ThreadId) : (m.lock t).isSome = m.canLock t := by
  cases m with
  | free => rfl
  | held u n => by_cases h : u = t <;> simp [lock, canLock, h]

theorem unlock_of_lock {m m' : Monitor} {t : ThreadId} (h : m.lock t = some m') :
    m'.unlock t = some m := by
  cases m with
  | free => cases h; simp [unlock]
  | held u n =>
    by_cases hu : u = t
    · simp only [lock, hu, if_true, Option.some.injEq] at h
      subst h
      simp [unlock, hu]
    · simp [lock, hu] at h

end Monitor

end Interleave
