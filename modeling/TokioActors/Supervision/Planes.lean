/-
# The planes

What happens beside the supervisor's loop: incarnations start, end and are told
to stop, runners record fates and report, attempts wait for their predecessor,
build, are adopted or fail, and tasks get lost. Every such event touches slots
and planes only. The second half is what the supervisor does with a task that
was lost.
-/

import TokioActors.Supervision.Worklist

namespace TokioActors

/-- One event beside the loop. Each names the incarnation it is about. -/
inductive EnvAction
  | tick (elapsed : Nat)
  /-- Another supervisor of the system draws a token. -/
  | draw
  /-- Someone raises a stop request on the incarnation's lane. -/
  | raise (n : Token) (reason : StopReason)
  /-- The incarnation leaves `Initializing`. -/
  | initDone (n : Token)
  /-- The incarnation's task ends; its plane carries the reason, if any. -/
  | ends (n : Token) (reason : Option StopReason)
  /-- The last actor of the incarnation's subtree ends. -/
  | subtreeEnds (n : Token)
  /-- The incarnation is found unresponsive. -/
  | verdict (n : Token)
  /-- The runner records the fate of its incarnation. -/
  | fateRecorded (n : Token)
  /-- A death-plane task returns its report. -/
  | taskReturns (n : Token)
  /-- A death-plane task is lost: it panicked or was aborted. -/
  | taskFails (n : Token) (panic : Option ActorError)
  /-- The attempt's predecessor is gone. -/
  | attemptProceeds (n : Token)
  /-- The attempt reads an order or the cancel before its factory runs. -/
  | attemptCancels (n : Token)
  /-- The attempt's wait for its predecessor outlives its bound. -/
  | attemptEscalates (n : Token)
  /-- The attempt reads its commands and goes on to build. -/
  | attemptChecked (n : Token)
  /-- The attempt's factory and spawn succeed. -/
  | attemptBuilds (n : Token)
  /-- The attempt's factory or spawn fails. -/
  | attemptUnbuilt (n : Token) (error : ActorError)
  /-- The attempt finds its factory gone. -/
  | attemptOrphaned (n : Token) (dropPanic : Option String)
  /-- The incarnation acknowledged its start. -/
  | attemptAdopts (n : Token)
  /-- The attempt's incarnation ended before it was adopted. -/
  | attemptReports (n : Token) (timedOut : Bool)
  /-- The attempt's task is lost. -/
  | attemptFails (n : Token) (panic : Option ActorError)
  deriving DecidableEq, Repr

namespace SupervisionState

variable (sup : SupervisionState)

/-- The death-plane task of the incarnation. -/
def deathTask (n : Token) : Option DeathTask :=
  Keyed.find DeathTask.incarnation n sup.deathSet

/-- The restart-plane task of the incarnation. -/
def restartTask (n : Token) : Option RestartTask :=
  Keyed.find RestartTask.incarnation n sup.restartSet

def updateDeath (n : Token) (f : DeathTask → DeathTask) : SupervisionState :=
  { sup with deathSet := Keyed.update DeathTask.incarnation n f sup.deathSet }

def updateRestart (n : Token) (f : RestartTask → RestartTask) : SupervisionState :=
  { sup with restartSet := Keyed.update RestartTask.incarnation n f sup.restartSet }

/-- The reason a finished death-plane task reports, when it can report. -/
def deathReason (task : DeathTask) : Option StopReason :=
  let slot := sup.slots task.incarnation
  match task.kind with
  | .runner => slot.fate
  | .follow => if slot.ended then some slot.reasonOrKill else none
  | .direct reason => some reason

/-- An attempt that ends: its outcome is on the plane and its executor is gone. -/
def attemptEnds (n : Token) (result : RestartResult) : SupervisionState :=
  (sup.updateRestart n fun task => { task with result := some result }).updateSlot n
    fun slot => { slot with closed := true }

/-- The attempt `n` is at the stage and has not ended. -/
def attemptAt (n : Token) (stage : AttemptStage) : Option RestartTask :=
  match sup.restartTask n with
  | some task => if task.stage = stage ∧ task.result = none then some task else none
  | none => none

/-- The predecessor an attempt waits for has ended with its whole subtree. -/
def predecessorGone (task : RestartTask) : Bool :=
  match task.predecessor with
  | some p => (sup.slots p).gone
  | none => true

/-- An order or the cancel is written in the slot. -/
def cancelOrOrder (slot : Slot) : Bool := slot.stop.isSome || slot.cancel

/-- One event beside the loop, when it can happen. -/
def envStep : EnvAction → Option SupervisionState
  | .tick elapsed => some { sup with now := sup.now + elapsed }
  | .draw => some { sup with nextIncarnation := sup.nextIncarnation + 1 }
  | .raise n reason =>
    if (sup.slots n).published then
      some (sup.updateSlot n fun slot => { slot with lane := slot.lane.raise reason slot.ended })
    else none
  | .initDone n =>
    if (sup.slots n).published ∧ (sup.slots n).ended = false then
      some (sup.updateSlot n fun slot => { slot with pastInit := true })
    else none
  | .ends n reason =>
    if (sup.slots n).published ∧ (sup.slots n).ended = false then
      some (sup.updateSlot n fun slot => { slot with ended := true, planeReason := reason })
    else none
  | .subtreeEnds n =>
    if (sup.slots n).published ∧ (sup.slots n).ended then
      some (sup.updateSlot n fun slot => { slot with gone := true })
    else none
  | .verdict n =>
    if (sup.slots n).published then
      some ((sup.updateSlot n fun slot =>
        { slot with lost := true, unresponsive := slot.unresponsive || !slot.closed }).note
          (.unresponsive n))
    else none
  | .fateRecorded n =>
    match sup.deathTask n with
    | some task =>
      if task.kind = .runner ∧ task.result = none ∧ (sup.slots n).ended then
        some (sup.updateSlot n fun slot => { slot with fate := some slot.reasonOrKill })
      else none
    | none => none
  | .taskReturns n =>
    match sup.deathTask n with
    | some task =>
      if task.result = none then
        match sup.deathReason task with
        | some reason =>
          some (((sup.updateDeath n fun task =>
              { task with result := some (.returned reason) }).updateSlot n
            fun slot => { slot with closed := true }).note
              (.reported task.childId n reason))
        | none => none
      else none
    | none => none
  | .taskFails n panic =>
    match sup.deathTask n with
    | some task =>
      if task.result = none then
        some ((sup.updateDeath n fun task =>
            { task with result := some (.failed panic) }).updateSlot n
          fun slot => { slot with closed := true })
      else none
    | none => none
  | .attemptProceeds n =>
    match sup.attemptAt n .waiting with
    | some task =>
      if sup.predecessorGone task then
        some (sup.updateRestart n fun task => { task with stage := .checking })
      else none
    | none => none
  | .attemptCancels n =>
    if ((sup.attemptAt n .waiting).isSome ∨ (sup.attemptAt n .checking).isSome) ∧
        cancelOrOrder (sup.slots n) then
      some ((sup.attemptEnds n (.returned (.cancelled none))).updateSlot n
        fun slot => { slot with cancelled := true })
    else none
  | .attemptEscalates n =>
    match sup.attemptAt n .waiting with
    | some task =>
      match task.predecessor with
      | some p =>
        if (sup.slots p).gone then none
        else
          some (((sup.attemptEnds n (.returned .predecessorUnresponsive)).updateSlot p
            fun slot => { slot with lost := true }).note (.unresponsive p))
      | none => none
    | none => none
  | .attemptChecked n =>
    if (sup.attemptAt n .checking).isSome ∧ cancelOrOrder (sup.slots n) = false then
      some (sup.updateRestart n fun task => { task with stage := .building })
    else none
  | .attemptBuilds n =>
    if (sup.attemptAt n .building).isSome then
      some ((sup.updateRestart n fun task => { task with stage := .starting }).updateSlot n
        fun slot => { slot with published := true })
    else none
  | .attemptUnbuilt n error =>
    match sup.attemptAt n .building with
    | some task =>
      some ((sup.attemptEnds n (.returned (.failed (.failure error)))).note
        (.reported task.childId n (.failure error)))
    | none => none
  | .attemptOrphaned n dropPanic =>
    match sup.attemptAt n .building with
    | some task =>
      if task.childId ∈ sup.restartFns then none
      else some (sup.attemptEnds n (.returned (.cancelled dropPanic)))
    | none => none
  | .attemptAdopts n =>
    if (sup.attemptAt n .starting).isSome ∧ (sup.slots n).pastInit ∧
        (sup.slots n).stop = none then
      some (sup.updateRestart n fun task => { task with result := some (.returned .adopted) })
    else none
  | .attemptReports n timedOut =>
    match sup.attemptAt n .starting with
    | some task =>
      if (sup.slots n).ended then
        let reason := (sup.slots n).reasonOrKill
        let outcome : RestartOutcome :=
          if timedOut then .failed (.failure (.spawn .startTimeout))
          else if (sup.slots n).stop.isSome then .stopped reason
          else .failed reason
        let reported := if timedOut then .failure (.spawn .startTimeout) else reason
        some ((((sup.updateSlot n fun slot => { slot with fate := some reason }).attemptEnds n
          (.returned outcome))).note (.reported task.childId n reported))
      else none
    | none => none
  | .attemptFails n panic =>
    match sup.restartTask n with
    | some task =>
      if task.result = none then some (sup.attemptEnds n (.failed panic)) else none
    | none => none

/-! ## Lost tasks -/

/-- The published slot through which a lost incarnation's end can be followed. -/
def lostEnd (id : ActorId) (n : Token) : Bool :=
  match sup.slotOf id n with
  | some slot => slot.published
  | none => false

/-- Whether the final collection awaits the replacement of a lost task. -/
def awaitsReplacement (id : ActorId) (n : Token) : Bool :=
  match sup.slotOf id n with
  | some slot => slot.statusEnded
  | none => true

/-- Replaces a lost death-plane task: by one that follows the incarnation to its
end, or by one that reports at once when the end cannot be followed. -/
def lostDeathTask (task : DeathTask) (panic : Option ActorError) : SupervisionState :=
  let kind : DeathKind :=
    if sup.lostEnd task.childId task.incarnation then .follow
    else .direct (match panic with
      | some error => .failure error
      | none => .kill)
  { sup with
    deathSet := sup.deathSet.erase task ++ [⟨task.childId, task.incarnation, kind, none⟩] }

/-- The failure a lost attempt that spawned nothing is reported with. -/
def lostAttemptReason (panic : Option ActorError) : StopReason :=
  .failure (panic.getD (.panic "restart attempt task failed"))

/-- The restart plane without a task that was taken off it. -/
abbrev dropAttempt (task : RestartTask) : SupervisionState :=
  { sup with restartSet := sup.restartSet.erase task }

/-- Replaces a lost attempt that spawned an incarnation by a death-plane task
that follows it; the answer is the outcome of one that spawned nothing. -/
def lostRestartTask (task : RestartTask) (panic : Option ActorError) :
    SupervisionState × Option RestartOutcome :=
  let dropped := sup.dropAttempt task
  if sup.lostEnd task.childId task.incarnation then
    ({ dropped with
      deathSet := dropped.deathSet ++ [⟨task.childId, task.incarnation, .follow, none⟩] }, none)
  else
    (dropped.note (.reported task.childId task.incarnation (lostAttemptReason panic)),
      some (.failed (lostAttemptReason panic)))

end SupervisionState

end TokioActors
