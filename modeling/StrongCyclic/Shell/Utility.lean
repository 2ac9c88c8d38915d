import StrongCyclic.Disk.FileTree
import StrongCyclic.Number.Duration
import StrongCyclic.Shell.Printing

/-!
Small programs that scripts call. Such a program gets words and input, may change the files and let
time pass, prints to two streams and ends with a status.
-/

namespace StrongCyclic.Shell

/-- What a small program has done. -/
structure Effect where
  files : FileTree
  out : List UInt8 := []
  messages : List String := []
  status : Nat := 0
  time : Duration := ⟨0⟩
deriving Inhabited

/-- A small program as a function of its words, its input and the files. -/
abbrev Utility := List String → List UInt8 → FileTree → Effect

namespace Effect

/-- Adds output. -/
def print (e : Effect) (bytes : List UInt8) : Effect :=
  { e with out := e.out ++ bytes }

/-- Adds a message, with which a program fails. -/
def fail (e : Effect) (message : String) : Effect :=
  { e with messages := e.messages ++ [message], status := 1 }

/-- Adds a message and the advice that follows a wrong use. -/
def misuse (e : Effect) (name message : String) : Effect :=
  { e with
    messages :=
      e.messages ++ [name ++ ": " ++ message, "Try '" ++ name ++ " --help' for more information."]
    status := 1 }

/-- Changes the files, or fails with the reason. -/
def change (e : Effect) (act : FileTree → Except FileFault FileTree) (message : String → String) :
    Effect :=
  match act e.files with
  | .ok files => { e with files }
  | .error fault => e.fail (message (reason fault))
where
  /-- The reason in the words of a small program. -/
  reason (fault : FileFault) : String :=
    Text.trim (String.ofList (fault.message.toList.takeWhile (· ≠ '(')))

end Effect

namespace Utility

/-- The options and the other words of a call. -/
def splitOptions (words : List String) : List Char × List String :=
  let isOption (word : String) : Bool := word.toList.head? = some '-' && word ≠ "-"
  let options := words.takeWhile fun word => isOption word && word ≠ "--"
  let rest := words.drop options.length
  (options.flatMap (·.toList.drop 1), if rest.head? = some "--" then rest.tail else rest)

/-- The bytes of a file, or of the input. -/
def contents (input : List UInt8) (files : FileTree) (name : String) :
    Except FileFault (List UInt8) :=
  if name = "-" then .ok input else (files.read ⟨name⟩).map Text.bytesOf

/-- The lines of bytes, with their ends. -/
def lines : List UInt8 → List (List UInt8)
  | [] => []
  | b :: bs =>
    if b = 10 then [b] :: lines bs
    else match lines bs with
      | line :: rest => (b :: line) :: rest
      | [] => [[b]]

/-- Joins files, or the input if there are none. -/
def cat : Utility := fun words input files =>
  let names := (splitOptions words).2
  (if names.isEmpty then ["-"] else names).foldl (fun e name =>
    match contents input files name with
    | .ok bytes => e.print bytes
    | .error fault => e.fail ("cat: " ++ name ++ ": " ++ Effect.change.reason fault)) { files }

/-- The count that stands behind an option and the other words. -/
def countOption (words : List String) : Bool × String × List String :=
  match words with
  | "-n" :: count :: rest => (false, count, rest)
  | "-c" :: count :: rest => (true, count, rest)
  | word :: rest =>
    match word.toList with
    | '-' :: 'n' :: cs => (false, String.ofList cs, rest)
    | '-' :: 'c' :: cs => (true, String.ofList cs, rest)
    | '-' :: c :: cs =>
      if c.isDigit then (false, String.ofList (c :: cs), rest) else (false, "10", words)
    | _ => (false, "10", words)
  | [] => (false, "10", [])

/-- Shows a part of each file, chosen by lines or by bytes. -/
def excerpt (name : String) (select : Nat → List (List UInt8) → List (List UInt8)) : Utility :=
  fun words input files =>
    let (byBytes, count, names) := countOption words
    match count.toNat? with
    | none =>
      { files, status := 1
        messages :=
          [name ++ ": invalid number of " ++ (if byBytes then "bytes" else "lines") ++ ": '" ++
            count ++ "'"] }
    | some n =>
      (if names.isEmpty then ["-"] else names).foldl (fun e file =>
        match contents input files file with
        | .ok bytes => e.print (select n (if byBytes then bytes.map ([·]) else lines bytes)).flatten
        | .error fault =>
          e.fail (name ++ ": cannot open '" ++ file ++ "' for reading: " ++
            Effect.change.reason fault))
        { files }

/-- The counts of lines, words and bytes that options ask for. -/
def counts (options : List Char) (bytes : List UInt8) : List Nat :=
  let shown (c : Char) : Bool := options.isEmpty || options.contains c
  let wordCount := (Text.words (Text.ofBytes bytes)).length
  (if shown 'l' then [bytes.count 10] else []) ++ (if shown 'w' then [wordCount] else []) ++
    if shown 'c' then [bytes.length] else []

/-- Counts lines, words and bytes. -/
def wc : Utility := fun words input files =>
  let (options, names) := splitOptions words
  let width := if names.isEmpty && options.length ≠ 1 then 7 else 1
  let column (n : Nat) : String :=
    let digits := toString n
    String.ofList (List.replicate (width - digits.length) ' ') ++ digits
  let line (bytes : List UInt8) (suffix : String) : List UInt8 :=
    Text.bytesOf (" ".intercalate ((counts options bytes).map column) ++ suffix ++ "\n")
  if names.isEmpty then { files, out := line input "" }
  else names.foldl (fun e name =>
    match contents input files name with
    | .ok bytes => e.print (line bytes (" " ++ name))
    | .error fault => e.fail ("wc: " ++ name ++ ": " ++ Effect.change.reason fault)) { files }

/-- The numbers from a first to a last one with a step, at most `count` of them. -/
def numbers (step last : Int) : Nat → Int → List Int
  | 0, _ => []
  | count + 1, n =>
    if (0 < step ∧ n ≤ last) ∨ (step < 0 ∧ last ≤ n) then n :: numbers step last count (n + step)
    else []

/-- Counts from one number to another. -/
def seq : Utility := fun words _ files =>
  let between (first step last : Int) : Effect :=
    let shown := numbers step last (last - first).natAbs.succ first
    { files, out := Text.bytesOf (String.join (shown.map fun n => toString n ++ "\n")) }
  match words, words.mapM String.toInt? with
  | [], _ => ({ files } : Effect).misuse "seq" "missing operand"
  | _, some [last] => between 1 1 last
  | _, some [first, last] => between first 1 last
  | _, some [first, step, last] => between first step last
  | _, _ =>
    ({ files } : Effect).misuse "seq" ("invalid floating point argument: '" ++
      ((words.find? fun word => word.toInt?.isNone).getD "") ++ "'")

/-- The characters that a set stands for. -/
def charSet : List Char → List Char
  | '\\' :: 'n' :: cs => '\n' :: charSet cs
  | '\\' :: 't' :: cs => '\t' :: charSet cs
  | '\\' :: '\\' :: cs => '\\' :: charSet cs
  | a :: '-' :: b :: cs =>
    ((List.range (b.toNat + 1 - a.toNat)).map fun i => Char.ofNat (a.toNat + i)) ++ charSet cs
  | a :: cs => a :: charSet cs
  | [] => []

/-- Replaces or deletes characters. -/
def tr : Utility := fun words input files =>
  let text := (Text.ofBytes input).toList
  let printed (cs : List Char) : Effect := { files, out := Text.bytesOf (String.ofList cs) }
  match words with
  | ["-d", set] => printed (text.filter fun c => !(charSet set.toList).contains c)
  | [first, second] =>
    let target := charSet second.toList
    let pairs :=
      (charSet first.toList).zipIdx.map fun (c, i) => (c, (target[i]?).or target.getLast?)
    printed (text.map fun c => ((pairs.lookup c).join).getD c)
  | _ => ({ files } : Effect).misuse "tr" "missing operand"

/-- The last name of a path, without an ending. -/
def basename : Utility := fun words _ files =>
  let lastName (path : String) : String :=
    if path ≠ "" ∧ path.toList.all (· = '/') then "/"
    else String.ofList (((path.toList.reverse.dropWhile (· = '/')).takeWhile (· ≠ '/')).reverse)
  match words with
  | [] => ({ files } : Effect).misuse "basename" "missing operand"
  | path :: rest =>
    let name := lastName path
    let ending := rest.head?.getD ""
    let shown :=
      if name ≠ ending && name.endsWith ending then
        String.ofList (name.toList.take (name.length - ending.length))
      else name
    { files, out := Text.bytesOf (shown ++ "\n") }

/-- The path without its last name. -/
def dirname : Utility := fun words _ files =>
  let parent (path : String) : String :=
    let named := path.toList.reverse.dropWhile (· = '/')
    let reversed := (named.dropWhile (· ≠ '/')).dropWhile (· = '/')
    if !reversed.isEmpty then String.ofList reversed.reverse
    else if path.toList.head? = some '/' then "/" else "."
  match words with
  | [] => ({ files } : Effect).misuse "dirname" "missing operand"
  | _ => { files, out := Text.bytesOf (String.join (words.map fun path => parent path ++ "\n")) }

/-- Creates directories. -/
def mkdir : Utility := fun words _ files =>
  let (options, names) := splitOptions words
  if names.isEmpty then ({ files } : Effect).misuse "mkdir" "missing operand"
  else names.foldl (fun e name =>
    let path : Path := ⟨name⟩
    e.change (if options.contains 'p' then (·.createDirectories path) else (·.createDirectory path))
      fun reason => "mkdir: cannot create directory '" ++ name ++ "': " ++ reason) { files }

/-- Removes the entry at a path with all that is in it. -/
def removeTree (files : FileTree) (path : Path) : Except FileFault FileTree := do
  let (place, _) ← files.locate path
  return { files with entries := files.entries.filter fun (p, _) => p.take place.length ≠ place }

/-- Removes an empty directory. -/
def removeEmpty (files : FileTree) (path : Path) : Except FileFault FileTree := do
  match ← files.locate path with
  | (_, .file _) => .error .notADirectory
  | (place, .directory) =>
    if (files.namesIn place).isEmpty then .ok (files.erase place) else .error .alreadyExists

/-- Removes files, and directories if that is asked for. -/
def rm : Utility := fun words _ files =>
  let (options, names) := splitOptions words
  let forced := options.contains 'f'
  if names.isEmpty then
    if forced then { files } else ({ files } : Effect).misuse "rm" "missing operand"
  else names.foldl (fun e name =>
    let path : Path := ⟨name⟩
    if forced && !e.files.exists? path then e
    else
      let isDeep := options.contains 'r' || options.contains 'R'
      e.change (if isDeep then (removeTree · path) else (·.remove path)) fun reason =>
        "rm: cannot remove '" ++ name ++ "': " ++ reason) { files }

/-- Removes empty directories. -/
def rmdir : Utility := fun words _ files =>
  words.foldl (fun e name =>
    e.change (removeEmpty · ⟨name⟩) fun reason =>
      "rmdir: failed to remove '" ++ name ++ "': " ++
        if reason = Effect.change.reason .alreadyExists then "Directory not empty" else reason)
    { files }

/-- Creates files that are not there. -/
def touch : Utility := fun words _ files =>
  words.foldl (fun e name =>
    if e.files.exists? ⟨name⟩ then e
    else e.change (·.append ⟨name⟩ "") fun reason =>
      "touch: cannot touch '" ++ name ++ "': " ++ reason)
    { files }

/-- The path that a file is brought to: a directory takes it under its own name. -/
def target (files : FileTree) (source : String) (goal : String) : Path :=
  let path : Path := ⟨goal⟩
  if files.isDirectory path then path.join ((Path.fileName? ⟨source⟩).getD source) else path

/-- Brings files to a place, with what happens to each. -/
def bring (name : String) (act : String → Path → FileTree → Except FileFault FileTree) : Utility :=
  fun words _ files =>
    let names := (splitOptions words).2
    match names, names.getLast? with
    | [], _ => ({ files } : Effect).misuse name "missing file operand"
    | [source], _ =>
      ({ files } : Effect).misuse name ("missing destination file operand after '" ++ source ++ "'")
    | _, none => { files }
    | _, some goal => names.dropLast.foldl (fun e source =>
        e.change (fun tree => act source (target tree source goal) tree)
          fun reason => name ++ ": cannot stat '" ++ source ++ "': " ++ reason) { files }

/-- Copies files. -/
def cp : Utility :=
  bring "cp" fun source goal files => files.copy ⟨source⟩ goal

/-- Moves files. -/
def mv : Utility :=
  bring "mv" fun source goal files => do (← files.copy ⟨source⟩ goal).remove ⟨source⟩

/-- Lists directories. -/
def ls : Utility := fun words _ files =>
  let names := (splitOptions words).2
  let shown (names : List String) : List UInt8 :=
    let visible := (names.filter (·.toList.head? ≠ some '.')).mergeSort (fun a b => a ≤ b)
    Text.bytesOf (String.join (visible.map (· ++ "\n")))
  (if names.isEmpty then ["."] else names).foldl (fun e name =>
    match files.locate ⟨name⟩ with
    | .ok (place, .directory) => e.print (shown (files.namesIn place))
    | .ok (_, .file _) => e.print (Text.bytesOf (name ++ "\n"))
    | .error fault =>
      { e.fail ("ls: cannot access '" ++ name ++ "': " ++ Effect.change.reason fault) with
        status := 2 })
    { files }

/-- Shows the working directory. -/
def pwd : Utility := fun _ _ files =>
  { files, out := Text.bytesOf ((FileTree.pathOf files.workingDirectory).text ++ "\n") }

/-- The time that a word stands for: a decimal number of seconds, or of another unit. -/
def interval? (word : String) : Option Duration :=
  let number := word.toList.takeWhile fun c => c.isDigit || c = '.'
  let whole := number.takeWhile (· ≠ '.')
  let fraction := (number.drop (whole.length + 1)).take 9
  let unit? := match word.toList.drop number.length with
    | [] | ['s'] => some 1
    | ['m'] => some 60
    | ['h'] => some 3600
    | ['d'] => some 86400
    | _ => none
  let natOf (digits : List Char) : Option Nat :=
    if digits.isEmpty then some 0
    else if digits.all Char.isDigit then (String.ofList digits).toNat? else none
  match unit?, natOf whole, natOf (fraction ++ List.replicate (9 - fraction.length) '0') with
  | some unit, some seconds, some nanos =>
    if number.any Char.isDigit then some ⟨(seconds * 1000000000 + nanos) * unit⟩ else none
  | _, _, _ => none

/-- Lets time pass. -/
def sleep : Utility := fun words _ files =>
  if words.isEmpty then ({ files } : Effect).misuse "sleep" "missing operand"
  else match words.find? fun word => (interval? word).isNone with
    | some word => ({ files } : Effect).misuse "sleep" ("invalid time interval '" ++ word ++ "'")
    | none =>
      { files, time := (words.filterMap interval?).foldl (fun t d => ⟨t.nanos + d.nanos⟩) ⟨0⟩ }

/-- Prints words. -/
def echo : Utility := fun words _ files =>
  { files, out := Printing.echo words }

/-- The small programs by their names. -/
def all : List (String × Utility) :=
  [("basename", basename), ("cat", cat), ("cp", cp), ("dirname", dirname), ("echo", echo),
    ("false", fun _ _ files => { files, status := 1 }), ("head", excerpt "head" List.take),
    ("ls", ls),
    ("mkdir", mkdir), ("mv", mv), ("pwd", pwd), ("rm", rm), ("rmdir", rmdir), ("seq", seq),
    ("sleep", sleep),
    ("tail", excerpt "tail" fun n pieces => pieces.drop (pieces.length - n)), ("touch", touch),
    ("tr", tr),
    ("true", fun _ _ files => { files }), ("wc", wc)]

end Utility

end StrongCyclic.Shell
