import StrongCyclic.Disk.FileTree
import StrongCyclic.Shell.Pattern

/-!
From an expanded word to its fields. Blanks that are not quoted separate fields; quotes make a field
even if nothing is in them. A field with a pattern that names of files fit becomes these names.
-/

namespace StrongCyclic.Shell

/-- A piece of an expanded word. -/
inductive Mark
  | char (c : Char) (quoted : Bool)
  /-- There were quotes. -/
  | quotes
  /-- One of several values ends here. -/
  | separator
deriving DecidableEq, Repr, Inhabited

namespace Mark

/-- The pieces of a text. -/
def ofText (quoted : Bool) (text : String) : List Mark :=
  let chars := text.toList.map (char · quoted)
  if quoted then quotes :: chars else chars

/-- The pieces of several texts. -/
def ofTexts (quoted : Bool) (texts : List String) : List Mark :=
  (texts.map (ofText quoted)).intersperse [separator] |>.flatten

/-- The characters of a word that stays whole. -/
def chars : List Mark → List Marked
  | [] => []
  | char c quoted :: marks => (c, quoted) :: chars marks
  | separator :: marks => (' ', false) :: chars marks
  | quotes :: marks => chars marks

/-- The fields of a word; `current` is the field that has been started, its last character first. -/
def fields (current : Option (List Marked)) : List Mark → List (List Marked)
  | [] => (current.map List.reverse).toList
  | quotes :: marks => fields (some (current.getD [])) marks
  | separator :: marks => (current.map List.reverse).toList ++ fields none marks
  | char c quoted :: marks =>
    if !quoted && [' ', '\t', '\n'].contains c then
      (current.map List.reverse).toList ++ fields none marks
    else fields (some ((c, quoted) :: current.getD [])) marks

end Mark

/-- The text of characters. -/
def textOf (cs : List Marked) : String :=
  String.ofList (cs.map Prod.fst)

/-- The paths that a field stands for: its text, or the files with names that fit its last part. -/
def paths (files : FileTree) (field : List Marked) : List String :=
  let name := (field.reverse.takeWhile (·.1 ≠ '/')).reverse
  let directory := field.take (field.length - name.length)
  if isPattern name && !isPattern directory then
    let folder := textOf directory
    let pattern := patternOf name
    let isHidden (text : String) : Bool := text.toList.head? = some '.'
    let fitting (text : String) : Bool :=
      (isHidden text == isHidden (textOf name)) && Glob.accepts pattern text.toList
    match files.list ⟨if folder = "" then "." else folder⟩ with
    | .ok names =>
      match (names.filter fitting).mergeSort (fun a b => a ≤ b) with
      | [] => [textOf field]
      | found => found.map (folder ++ ·)
    | .error _ => [textOf field]
  else [textOf field]

end StrongCyclic.Shell
