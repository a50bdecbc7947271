/-
# The child ledger

A supervisor keeps one ledger entry per child: which incarnation runs, is being
stopped, is being started, or was the last one to end, and what that end still
owes. The table of legal moves is closed by default, and a report of an end is
classified against the entry it names.
-/

import TokioActors.Types

namespace TokioActors

/-- The two manual stops: `stop_child` bounces a child, `terminate_child` keeps
it down. -/
inductive ManualStop
  | bounce
  | terminate
  deriving DecidableEq, Repr

/-- What the last end of a down child still owes: nothing, the delivery of a
snapshot, or its restart decision. -/
inductive DownPending
  | none
  | snapshot
  | evaluate
  deriving DecidableEq, Repr

/-- Who began an incarnation. -/
inductive Origin
  | initial
  | strategy
  | bounce
  | manual
  | chain
  deriving DecidableEq, Repr

/-- A child's ledger entry. -/
inductive ChildLifecycle
  | running (incarnation : Token)
  | stopping (incarnation : Token) (kind : ManualStop)
  | restarting (incarnation next : Token)
  | down (incarnation : Token) (pending : DownPending)
  deriving DecidableEq, Repr

namespace ChildLifecycle

/-- The incarnation whose end the entry waits for. -/
def occupant : ChildLifecycle → Option Token
  | running n => some n
  | stopping n _ => some n
  | restarting _ next => some next
  | down _ _ => none

/-- The last incarnation the entry held, in flight ones included. -/
def heldToken : ChildLifecycle → Token
  | running n => n
  | stopping n _ => n
  | restarting _ next => next
  | down n _ => n

/-- The entry is a down spec. -/
def isDown : ChildLifecycle → Bool
  | down _ _ => true
  | _ => false

/-- An attempt is in flight for the entry. -/
def isRestarting : ChildLifecycle → Bool
  | restarting _ _ => true
  | _ => false

@[simp] theorem occupant_running (n : Token) : (running n).occupant = some n := rfl
@[simp] theorem occupant_stopping (n : Token) (kind : ManualStop) :
    (stopping n kind).occupant = some n := rfl
@[simp] theorem occupant_restarting (n next : Token) :
    (restarting n next).occupant = some next := rfl
@[simp] theorem occupant_down (n : Token) (pending : DownPending) :
    (down n pending).occupant = none := rfl

@[simp] theorem heldToken_running (n : Token) : (running n).heldToken = n := rfl
@[simp] theorem heldToken_stopping (n : Token) (kind : ManualStop) :
    (stopping n kind).heldToken = n := rfl
@[simp] theorem heldToken_restarting (n next : Token) :
    (restarting n next).heldToken = next := rfl
@[simp] theorem heldToken_down (n : Token) (pending : DownPending) :
    (down n pending).heldToken = n := rfl

@[simp] theorem isDown_running (n : Token) : (running n).isDown = false := rfl
@[simp] theorem isDown_stopping (n : Token) (kind : ManualStop) :
    (stopping n kind).isDown = false := rfl
@[simp] theorem isDown_restarting (n next : Token) : (restarting n next).isDown = false := rfl
@[simp] theorem isDown_down (n : Token) (pending : DownPending) :
    (down n pending).isDown = true := rfl

@[simp] theorem isRestarting_running (n : Token) : (running n).isRestarting = false := rfl
@[simp] theorem isRestarting_stopping (n : Token) (kind : ManualStop) :
    (stopping n kind).isRestarting = false := rfl
@[simp] theorem isRestarting_restarting (n next : Token) :
    (restarting n next).isRestarting = true := rfl
@[simp] theorem isRestarting_down (n : Token) (pending : DownPending) :
    (down n pending).isRestarting = false := rfl

end ChildLifecycle

/-- The default-closed transition table: the eight legal moves of an entry,
each keyed by the incarnation it concerns. -/
def isLegal : ChildLifecycle → ChildLifecycle → Bool
  | .running n, .stopping m _ => n == m
  | .running n, .down m _ => n == m
  | .stopping n _, .down m _ => n == m
  | .stopping n .bounce, .stopping m .terminate => n == m
  | .restarting _ next, .running m => next == m
  | .restarting _ next, .down m _ => next == m
  | .down n _, .restarting p next => n == p && decide (next > n)
  | .down n _, .down m _ => n == m
  | _, _ => false

/-- How a report relates to the entry it names: it is of the occupant, of the
end whose restart decision the entry owes, or of an incarnation the entry moved
past. -/
inductive ReportClass
  | occupant
  | owedEvaluation
  | stale
  deriving DecidableEq, Repr

/-- The class of a report of incarnation `n`. -/
def reportClass (life : ChildLifecycle) (n : Token) : ReportClass :=
  if life.occupant = some n then .occupant
  else if life = .down n .evaluate then .owedEvaluation
  else .stale

theorem reportClass_eq_stale_iff {life : ChildLifecycle} {n : Token} :
    reportClass life n = .stale ↔ life.occupant ≠ some n ∧ life ≠ .down n .evaluate := by
  unfold reportClass
  split
  · simp_all
  · split <;> simp_all

end TokioActors
