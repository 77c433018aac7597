import Precedent.Command.Arguments
import Precedent.Document.Reader
import Precedent.Report

/-!
# Precedent.Command.Run

**One run of the command.** The document is loaded, the atlas built, trimmed to the degree asked for
and laid out, and the report is written. The first of these steps that fails ends the run.
-/

namespace Precedent.Command

variable {m : Type → Type} [Monad m] [FileAccess m]

/-- Why a run has failed. -/
inductive RunFault where
  /-- The document could not be loaded. -/
  | loading (path : String) (cause : Fault)
  /-- A later step has failed. -/
  | drawing (cause : Fault)
deriving Repr

/-- The wording of a fault. The cause of a document that could not be loaded is not worded. -/
def RunFault.message : RunFault → String
  | .loading path _ => "failed to load " ++ path
  | .drawing cause => cause.message

/-- Draw the map that is asked for. -/
def draw (arguments : Arguments) : ExceptT RunFault m Unit := do
  let settings := arguments.settings
  let records ← (loadDocument arguments.input).adapt (RunFault.loading arguments.input)
  let atlas ← ofExcept ((Atlas.build records settings).mapError RunFault.drawing)
  let trimmed ← ofExcept ((atlas.trim settings.maxDegree).mapError RunFault.drawing)
  let files := atlas.reportFiles trimmed (atlas.chart trimmed settings)
  (writeFiles arguments.outputDirectory files).adapt fun fault => .drawing (.file fault)

/-- How a run ends. -/
inductive Outcome where
  | done
  /-- Help was asked for. -/
  | help
  | rejected (fault : ArgumentFault)
  | failed (fault : RunFault)
deriving Repr

def Outcome.status : Outcome → UInt32
  | .done | .help => 0
  | .failed _ => 1
  | .rejected _ => 2

/-- Run the command. -/
def run (args : List String) : m Outcome :=
  match Request.ofArguments args with
  | .error fault => pure (.rejected fault)
  | .ok .help => pure .help
  | .ok (.draw arguments) => do
    match ← (draw arguments).run with
    | .ok () => pure .done
    | .error fault => pure (.failed fault)

end Precedent.Command
