import StrongCyclic.Run.World
import StrongCyclic.Settings.Document

/-!
Settings in files.
-/

namespace StrongCyclic.Settings

variable {σ : Type}

/-- Reads settings from a file. -/
def load (path : Path) : Job σ Trouble Settings := do
  let text ← Job.duringFile (.readingSettings path) (Job.query (·.read path))
  match parse? text with
  | some s => return s
  | none => throw (.during (.parsingSettings path) (.note .malformedSettings))

/-- Writes settings to a file and creates its directory if need be. -/
def save (s : Settings) (path : Path) : Job σ Trouble Unit := do
  match path.parent? with
  | some parent => Job.duringFile (.creatingParent parent) (Job.change (·.createDirectories parent))
  | none => pure ()
  Job.duringFile (.writingSettings path) (Job.change (·.write path s.text))

end StrongCyclic.Settings
