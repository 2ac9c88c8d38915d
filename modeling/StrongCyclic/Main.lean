import StrongCyclic.CommandLine.Run
import StrongCyclic.Shell.Program

/-!
The program. It takes a picture of the working directory and of the absolute paths on its command
line, runs the command line on the picture and carries over what has changed.
-/

namespace StrongCyclic.Program

/-- Adds an entry on disk, with all that is in it, to a picture. -/
partial def gather (path : String) (place : Place) (picture : FileTree) : IO FileTree := do
  let real ← IO.FS.realPath path
  if ← real.isDir then
    let mut picture := picture.put place .directory
    for entry in ← real.readDir do
      picture ← gather entry.path.toString (place ++ [entry.fileName]) picture
    return picture
  else
    let bytes ← IO.FS.readBinFile real
    return picture.put place (.file (Text.ofBytes bytes.toList))

/-- Adds an entry on disk with the directories above it, if it can be read. -/
def gatherIfReadable (picture : FileTree) (path : String) : IO FileTree := do
  try
    let place := (Path.mk path).components
    let picture := ((Path.mk path).parent?.bind fun parent =>
      (picture.createDirectories parent).toOption).getD picture
    gather path place picture
  catch _ => return picture

/-- The picture of the files that a command line can reach. -/
def picture (words : List String) : IO FileTree := do
  let here := (← IO.currentDir).toString
  let roots := here :: words.filter fun word => word.toList.head? = some '/'
  roots.foldlM gatherIfReadable ⟨[], (Path.mk here).components⟩

/-- Carries over the differences between two pictures. -/
def carryOver (before after : FileTree) : IO Unit := do
  for (place, entry) in after.entries do
    if before.entry? place ≠ some entry then
      match entry with
      | .directory => IO.FS.createDirAll (FileTree.pathOf place).text
      | .file text => IO.FS.writeFile (FileTree.pathOf place).text text
  for (place, entry) in before.entries do
    if (after.entry? place).isNone && entry ≠ .directory then
      IO.FS.removeFile (FileTree.pathOf place).text

end StrongCyclic.Program

open StrongCyclic in
/-- Runs the program. -/
def main (words : List String) : IO UInt32 := do
  let terminal : Terminal := ⟨← IO.getEnv "NO_COLOR", ← IO.getEnv "TERM"⟩
  let before ← Program.picture words
  let finish := CommandLine.run ⟨terminal, Shell.runner⟩ words before
  Program.carryOver before finish.files
  IO.print finish.stdout
  IO.eprint finish.stderr
  return finish.status.toUInt32
