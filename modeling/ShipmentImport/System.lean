import ShipmentImport.Lib.System
import ShipmentImport.Services.CreateImport
import ShipmentImport.Services.ProcessImport
import ShipmentImport.Services.PublishOutbox
import ShipmentImport.Services.RecoverStaleImports

/-!
# The system

All processes of the service on one world. A worker takes its message from the queue when it starts;
when it ends, by returning or raising, the message is acknowledged; when it is killed, the message
goes back. A process that is killed loses its open transaction.
-/

namespace ShipmentImport

/-- What a task returns. -/
inductive TaskResult
  | created (outcome : ImportCreateOutcome)
  | count (n : Nat)
  | done

/-- What the environment does. -/
inductive EnvAction
  | advance (microseconds : Nat)
  /-- The broker delivers a message once more. -/
  | duplicate (message : Message)

/-- The program of a task of process `p`. A worker's processing token is drawn for its run and is
identified with the process. -/
def taskProgram (env : Env) (p : Nat) : Task → Py TaskResult
  | .createImport request => do
    let outcome ← createImport env.settings request
    return .created outcome
  | .publishDueEvents => do
    let n ← publishDueEvents env
    return .count n
  | .recoverStaleClaims => do
    let n ← recoverStaleClaims env
    return .count n
  | .processImport message hostname => do
    processImportTask env message hostname p
    return .done
  | .recoverStaleImports caller => do
    let n ← recoverStaleImports env.settings (caller.batchSize env.settings)
    return .count n

namespace World

/-- A process starts. -/
def launch (w : World) : Task → Option World
  | .processImport message _ =>
    if message ∈ w.queue then some { w with queue := w.queue.erase message } else none
  | _ => some w

/-- A process is killed. -/
def abort (p : Nat) (w : World) : Task → World
  | .processImport message _ => (w.rollback p).push message
  | _ => w.rollback p

def tick (w : World) : EnvAction → Option World
  | .advance microseconds =>
    (w.time.advance microseconds).map fun time => { w with time := time }
  | .duplicate message => if message ∈ w.queue then some (w.push message) else none

theorem tick_advance {w w' : World} {microseconds : Nat} :
    w.tick (.advance microseconds) = some w' ↔
      ∃ time : Time, time.1 = w.time.1 + microseconds ∧ w' = { w with time } := by
  simp only [tick, Option.map_eq_some_iff, Time.advance_eq_some, eq_comm (b := w')]

end World

/-- The service. -/
def service (env : Env) :
    Machine Stmt Stmt.Reply Exc Task World TaskResult Choice EnvAction where
  exec := World.exec env
  body := taskProgram env
  launch _ t w := w.launch t
  close _ _ w := w
  abort p t w := w.abort p t
  tick a w := w.tick a

/-- A configuration of the service. -/
abbrev State := Config Stmt Stmt.Reply Exc Task World TaskResult

/-- A step of the service. -/
abbrev Event := Action Task Choice EnvAction

/-- The service before its first request. -/
def State.initial : State := Machine.init World.empty

/-- The states the service can reach. -/
def Reachable (env : Env) (c : State) : Prop :=
  (service env).Run Machine.anyAction State.initial c

end ShipmentImport
