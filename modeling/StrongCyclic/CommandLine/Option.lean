import StrongCyclic.Text.Blank
import StrongCyclic.Text.Numeral

/-!
The words of a command line. A word that begins with a hyphen holds options: two hyphens and a name,
or one hyphen and letters. A value stands in the same word or is the next word; in the next word it
may not begin with a hyphen, unless it is a hyphen alone. Behind two hyphens alone no word holds
options.
-/

namespace StrongCyclic.CommandLine

/-- What the value of an option has to be. -/
inductive ValueKind
  | path
  | number
deriving DecidableEq, Repr, Inhabited

/-- Whether a text is a value. No path is empty. -/
def ValueKind.accepts : ValueKind → String → Bool
  | path, text => text ≠ ""
  | number, text => (Text.natural? text).isSome

/-- An option with its name, its letter and the kind of its value, if it has one. -/
structure OptionForm where
  name : String
  letter : Option Char
  value : Option ValueKind
deriving DecidableEq, Repr, Inhabited

/-- A piece of a command line. -/
inductive Item
  | flag (name : String)
  | value (name text : String)
  | word (text : String)
  /-- Something that cannot stand here. -/
  | fault
deriving DecidableEq, Repr, Inhabited

/-- An option with its value. -/
def Item.ofValue (name : String) (kind : ValueKind) (text : String) : Item :=
  if kind.accepts text then value name text else fault

/-- How words are read. -/
inductive Mode
  | free
  /-- The next word is the value of an option. -/
  | awaiting (name : String) (kind : ValueKind)
  /-- No word holds options any more. -/
  | words
deriving DecidableEq, Repr, Inhabited

/-- Whether a word holds options. -/
def holdsOptions (word : String) : Bool :=
  word.toList.head? = some '-' && word ≠ "-"

/-- Reads a long option behind its hyphens. -/
def readName (forms : List OptionForm) (text : List Char) : List Item × Mode :=
  let name := String.ofList (text.takeWhile (· ≠ '='))
  let attached := text.drop name.length
  match forms.find? (·.name = name), attached with
  | some ⟨_, _, none⟩, [] => ([.flag name], .free)
  | some ⟨_, _, some kind⟩, [] => ([], .awaiting name kind)
  | some ⟨_, _, some kind⟩, _ :: text => ([.ofValue name kind (String.ofList text)], .free)
  | _, _ => ([.fault], .free)

/-- Reads letters behind a hyphen. -/
def readLetters (forms : List OptionForm) : List Char → List Item × Mode
  | [] => ([], .free)
  | c :: cs =>
    match forms.find? (·.letter = some c) with
    | some ⟨name, _, none⟩ =>
      let (items, mode) := readLetters forms cs
      (.flag name :: items, mode)
    | some ⟨name, _, some kind⟩ =>
      match cs with
      | [] => ([], .awaiting name kind)
      | '=' :: text => ([.ofValue name kind (String.ofList text)], .free)
      | text => ([.ofValue name kind (String.ofList text)], .free)
    | none => ([.fault], .free)

/-- Reads a word. -/
def readWord (forms : List OptionForm) (word : String) : List Item × Mode :=
  if word = "--" then ([], .words)
  else match word.toList with
    | '-' :: '-' :: text => readName forms text
    | '-' :: c :: cs => readLetters forms (c :: cs)
    | _ => ([.word word], .free)

/-- Reads words. -/
def readItems (forms : List OptionForm) : Mode → List String → List Item
  | .awaiting _ _, [] => [.fault]
  | _, [] => []
  | .free, word :: rest =>
    let (items, mode) := readWord forms word
    items ++ readItems forms mode rest
  | .awaiting name kind, word :: rest =>
    if holdsOptions word then [.fault] else .ofValue name kind word :: readItems forms .free rest
  | .words, word :: rest => .word word :: readItems forms .words rest

/-- What has been collected from items. -/
structure Collected where
  flags : List String := []
  values : List (String × String) := []
  words : List String := []
deriving DecidableEq, Repr, Inhabited

/-- Why no command is run. -/
inductive Refusal
  | help
  | version
  | misuse
deriving DecidableEq, Repr, Inhabited

/-- Collects items. Options may not be repeated, a word may not be empty and there are at most
`limit` words, if there is a limit. A question for help or for the version is answered at once. -/
def collect (limit : Option Nat) : Collected → List Item → Except Refusal Collected
  | c, [] => .ok c
  | c, .flag name :: items =>
    if name = "help" then .error .help
    else if name = "version" then .error .version
    else if c.flags.contains name then .error .misuse
    else collect limit { c with flags := c.flags ++ [name] } items
  | c, .value name text :: items =>
    if (c.values.lookup name).isSome then .error .misuse
    else collect limit { c with values := c.values ++ [(name, text)] } items
  | c, .word text :: items =>
    if text = "" || limit = some c.words.length then .error .misuse
    else collect limit { c with words := c.words ++ [text] } items
  | _, .fault :: _ => .error .misuse

end StrongCyclic.CommandLine
