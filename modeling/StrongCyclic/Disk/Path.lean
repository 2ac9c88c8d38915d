import StrongCyclic.Text.Blank

/-!
Paths as texts. A path is shown as it was given; its components are the pieces between slashes,
without the empty ones and without the single dots, except that a relative path may begin with one
dot.
-/

namespace StrongCyclic

/-- A path. -/
structure Path where
  text : String
deriving DecidableEq, Repr, Inhabited

namespace Path

/-- Whether the path starts at the root. -/
def isAbsolute (p : Path) : Bool :=
  p.text.toList.head? = some '/'

/-- The pieces between slashes, the empty ones included. -/
def pieces (p : Path) : List String :=
  (Text.splitWhere (· == '/') p.text.toList).map String.ofList

/-- The components of a path, apart from the root. -/
def components (p : Path) : List String :=
  let names := p.pieces.filter fun piece => piece ≠ "" && piece ≠ "."
  if p.pieces.head? = some "." then "." :: names else names

/-- The path of components below the root or below the current directory. -/
def ofComponents (absolute : Bool) (components : List String) : Path :=
  ⟨(if absolute then "/" else "") ++ "/".intercalate components⟩

/-- A name below a path; an absolute name stands for itself. -/
def join (p : Path) (name : String) : Path :=
  if name.toList.head? = some '/' then ⟨name⟩
  else if p.text = "" ∨ p.text.toList.getLast? = some '/' then ⟨p.text ++ name⟩
  else ⟨p.text ++ "/" ++ name⟩

/-- The last component, if it is a name. -/
def fileName? (p : Path) : Option String :=
  match p.components.getLast? with
  | some name => if name = "." ∨ name = ".." then none else some name
  | none => none

/-- A file name without its last extension. A dot at the start does not begin an extension. -/
def stemOfName (name : String) : String :=
  let reversed := name.toList.reverse
  match reversed.dropWhile (· ≠ '.') with
  | [] => name
  | [_] => name
  | _ :: stem => String.ofList stem.reverse

/-- The last component without its last extension. -/
def fileStem? (p : Path) : Option String :=
  p.fileName?.map stemOfName

/-- The path without its last component. -/
def parent? (p : Path) : Option Path :=
  if p.components = [] then none else some (ofComponents p.isAbsolute p.components.dropLast)

end Path

end StrongCyclic
