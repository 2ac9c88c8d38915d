import StrongCyclic.Yaml.Scalar

/-!
The nodes of a document and what they stand for. A scalar is plain or quoted; only a plain one can
stand for something else than its text. An empty plain scalar is also null and an empty collection.
Of tags only those of scalars matter: one keeps a scalar from being null, and a local one can name a
choice.
-/

namespace StrongCyclic.Yaml

/-- A node of a document. -/
inductive Node
  | scalar (tag : Option String) (plain : Bool) (text : String)
  | sequence (items : List Node)
  | mapping (entries : List (Node × Node))
deriving Inhabited

namespace Node

/-- The empty plain scalar, which stands where nothing is written. -/
def empty : Node := .scalar none true ""

/-- A node with a tag. A single exclamation mark says no more about a scalar than no tag. -/
def withTag (tag : String) : Node → Node
  | scalar _ plain text => scalar (if tag = "!" then none else some tag) plain text
  | n => n

/-- The text of a scalar. -/
def text? : Node → Option String
  | scalar _ _ text => some text
  | _ => none

/-- The text of a plain scalar. -/
def plainText? : Node → Option String
  | scalar _ true text => some text
  | _ => none

/-- The truth value of a node. -/
def bool? (n : Node) : Option Bool :=
  n.plainText?.bind Yaml.bool?

/-- The number of a node. -/
def natural? (n : Node) : Option Nat :=
  n.plainText?.bind Yaml.natural?

/-- The tag of null. -/
def nullTag : String := "tag:yaml.org,2002:null"

/-- What a node that may be null stands for. -/
def optional? {α : Type} (read : Node → Option α) : Node → Option (Option α)
  | scalar none true text =>
    if text = "" ∨ Yaml.isNull text then some none
    else (read (scalar none true text)).map some
  | scalar (some tag) true text =>
    if tag ≠ nullTag then (read (scalar (some tag) true text)).map some
    else if Yaml.isNull text then some none
    else none
  | n => (read n).map some

/-- The name of a choice: a text, or a local tag before nothing. -/
def choice? : Node → Option String
  | scalar tag plain text =>
    match (tag.getD "").toList with
    | '!' :: name =>
      if plain ∧ (text = "" ∨ Yaml.isNull text) then some (String.ofList name) else none
    | _ => some text
  | _ => none

/-- The items of a node. -/
def items? : Node → Option (List Node)
  | sequence items => some items
  | scalar _ true "" => some []
  | _ => none

/-- The fields of a node, which are named, or else all there in the order of `names`. -/
def fields? (names : List String) : Node → Option (List (String × Node))
  | mapping entries => entries.mapM fun (key, value) => key.text?.map fun name => (name, value)
  | sequence items => if items.length = names.length then some (names.zip items) else none
  | scalar _ true "" => some []
  | _ => none

/-- The value of a field, which may occur once; a field that is missing is null. -/
def field? (entries : List (String × Node)) (name : String) : Option (Option Node) :=
  match entries.filter (·.1 = name) with
  | [] => some none
  | [entry] => some (some entry.2)
  | _ => none

/-- A field that has to be there. -/
def required? {α : Type} (entries : List (String × Node)) (name : String) (read : Node → Option α) :
    Option α := do
  match ← field? entries name with
  | some n => read n
  | none => none

/-- A field that may be missing or null. -/
def optionalField? {α : Type} (entries : List (String × Node)) (name : String)
    (read : Node → Option α) : Option (Option α) := do
  match ← field? entries name with
  | some n => n.optional? read
  | none => some none

end Node

end StrongCyclic.Yaml
