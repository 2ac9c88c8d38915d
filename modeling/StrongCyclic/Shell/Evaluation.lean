import StrongCyclic.Shell.Arithmetic
import StrongCyclic.Shell.Builtin
import StrongCyclic.Shell.Field
import StrongCyclic.Shell.Reader

/-!
Running commands. The words of a command are expanded, its streams are connected, and then it is
looked up among the functions, the commands of the shell and the small programs. Commands are run
with a bound on the depth of the run; a script that exceeds it counts as one that does not end.
-/

namespace StrongCyclic.Shell

open Script

/-- The bytes without line ends at their end. -/
def withoutLineEnds (bytes : List UInt8) : List UInt8 :=
  (bytes.reverse.dropWhile (· = 10)).reverse.filter (· ≠ 0)

mutual

/-- Expands the parts of a word. -/
def expandParts : Nat → List Part → Script (List Mark)
  | 0, _ => throw .timeOver
  | fuel + 1, parts => do
    return (← parts.mapM fun part => expandPart fuel part).flatten
termination_by structural fuel => fuel

/-- Expands a part of a word. -/
def expandPart : Nat → Part → Script (List Mark)
  | 0, _ => throw .timeOver
  | fuel + 1, part => do
    match part with
    | .text quoted chars => return Mark.ofText quoted (String.ofList chars)
    | .output quoted source =>
      let bytes ← collecting (runSource fuel source)
      return Mark.ofText quoted (Text.ofBytes (withoutLineEnds bytes))
    | .arithmetic quoted expression =>
      let text := textOf (Mark.chars (← expandParts fuel expression))
      let s ← get
      match Arithmetic.evaluate (fun name => (s.parameter? name).getD "") text with
      | .ok (n, assigned) =>
        modify fun s => assigned.foldr (fun (name, n) s => s.assign name (toString n)) s
        return Mark.ofText quoted (toString n)
      | .error fault => abort (fault.message text)
    | .parameter quoted name .value _ =>
      let s ← get
      if name = "@" || (name = "*" && !quoted) then return Mark.ofTexts quoted s.arguments
      else
        if s.has 'u' && (s.parameter? name).isNone && name ≠ "*" then
          abort (name ++ ": parameter not set")
        return Mark.ofText quoted ((s.parameter? name).getD "")
    | .parameter quoted name use word =>
      let value? := (← get).parameter? name
      let present (colon : Bool) : Bool := value?.any fun value => !colon || value ≠ ""
      let shown := Mark.ofText quoted (value?.getD "")
      let pattern := do return patternOf (Mark.chars (← expandParts fuel word))
      match use with
      | .value => return shown
      | .length => return Mark.ofText quoted (toString (value?.getD "").utf8ByteSize)
      | .orElse colon => if present colon then return shown else expandParts fuel word
      | .orAssign colon =>
        if present colon then return shown
        else
          let value := textOf (Mark.chars (← expandParts fuel word))
          modify (·.assign name value)
          return Mark.ofText quoted value
      | .ifSet colon => if present colon then expandParts fuel word else return []
      | .orFail colon =>
        if present colon then return shown
        else
          let message := textOf (Mark.chars (← expandParts fuel word))
          let standard := if colon then "parameter not set or null" else "parameter not set"
          abort (name ++ ": " ++ if message = "" then standard else message)
      | .withoutEnd longest =>
        let rest := dropEnd (← pattern) longest (value?.getD "").toList
        return Mark.ofText quoted (String.ofList rest)
      | .withoutStart longest =>
        let rest := dropStart (← pattern) longest (value?.getD "").toList
        return Mark.ofText quoted (String.ofList rest)
termination_by structural fuel => fuel

/-- Expands a word that stays whole. -/
def expandWhole : Nat → Word → Script String
  | 0, _ => throw .timeOver
  | fuel + 1, word => do return textOf (Mark.chars (← expandParts fuel word))
termination_by structural fuel => fuel

/-- Expands words to fields. -/
def expandFields : Nat → List Word → Script (List String)
  | 0, _ => throw .timeOver
  | fuel + 1, words => do
    let fields ← words.mapM fun word => do
      let fields := Mark.fields none (← expandParts fuel word)
      return fields.flatMap (paths (← get).files)
    return fields.flatten
termination_by structural fuel => fuel

/-- Connects streams; whether all of them could be connected. -/
def connectAll : Nat → List Redirect → Script Bool
  | 0, _ => throw .timeOver
  | _, [] => return true
  | fuel + 1, redirect :: rest => do
    let output (clear : Bool) (word : Word) : Script Bool := do
      match ← openOutput clear (← expandWhole fuel word) with
      | some sink =>
        modify (·.connect redirect.stream sink)
        return true
      | none => return false
    let isConnected ← match redirect.kind with
      | .output word => output true word
      | .append word => output false word
      | .input word => do openInput (← expandWhole fuel word)
      | .duplicate word => do duplicate redirect.stream (← expandWhole fuel word)
      | .document word => do
        let text ← expandWhole fuel word
        modify ({ · with input := Text.bytesOf text })
        pure true
    if isConnected then connectAll fuel rest else return false
termination_by structural fuel => fuel

/-- Runs a part with its own streams. -/
def withStreams : Nat → List Redirect → Script Unit → Script Unit
  | 0, _, _ => throw .timeOver
  | fuel + 1, redirects, body =>
    keepingStreams (redirects.any (·.stream = 0)) do
      if ← connectAll fuel redirects then body else setStatus 2
termination_by structural fuel => fuel

/-- Runs a command. -/
def run : Nat → Command → Script Unit
  | 0, _ => throw .timeOver
  | fuel + 1, command => do
    match command with
    | .simple line assignments words redirects =>
      modify ({ · with line })
      runSimple fuel assignments words redirects
      checkFailure
    | .pipeline negated commands =>
      if negated then
        tested (runPipes fuel commands)
        modify fun s => { s with status := if s.status = 0 then 1 else 0 }
      else
        runPipes fuel commands
        checkFailure
    | .andThen first second =>
      tested (run fuel first)
      if (← get).status = 0 then run fuel second
    | .orElse first second =>
      tested (run fuel first)
      if (← get).status ≠ 0 then run fuel second
    | .sequence commands => commands.forM (run fuel)
    | .background command => aside (run fuel command)
    | .group body redirects => withStreams fuel redirects (run fuel body)
    | .subshell body redirects =>
      withStreams fuel redirects (isolated (run fuel body))
      checkFailure
    | .branch condition yes no redirects =>
      withStreams fuel redirects do
        tested (run fuel condition)
        if (← get).status = 0 then run fuel yes
        else
          setStatus 0
          run fuel no
    | .loop expected condition body redirects =>
      withStreams fuel redirects (repeatWhile fuel expected condition body 0)
    | .each name words body redirects =>
      withStreams fuel redirects do
        runEach fuel name (← expandFields fuel words) body
    | .select word branches redirects =>
      withStreams fuel redirects do
        let text ← expandWhole fuel word
        setStatus 0
        selectBranch fuel text.toList branches
    | .define name body =>
      modify fun s => { s with
        functions := (name, body) :: s.functions.filter (·.1 ≠ name), status := 0 }
termination_by structural fuel => fuel

/-- Runs commands, each with the output of the one before as its input. -/
def runPipes : Nat → List Command → Script Unit
  | 0, _ => throw .timeOver
  | _, [] => setStatus 0
  | fuel + 1, [command] => run fuel command
  | fuel + 1, commands => do
    let input := (← get).input
    let last ← commands.dropLast.foldlM (fun input command => do
      modify ({ · with input })
      collecting (run fuel command)) input
    modify ({ · with input := last })
    isolated ((commands.getLast?).elim (pure ()) (run fuel))
    modify ({ · with input })
termination_by structural fuel => fuel

/-- Runs the body of a loop as long as its condition ends as expected; `last` is the status of the
body. -/
def repeatWhile : Nat → Bool → Command → Command → Nat → Script Unit
  | 0, _, _, _, _ => throw .timeOver
  | fuel + 1, expected, condition, body, last => do
    tested (run fuel condition)
    if ((← get).status = 0) = expected then
      if ← runBody fuel body then repeatWhile fuel expected condition body (← get).status
      else setStatus 0
    else setStatus last
termination_by structural fuel => fuel

/-- Runs the body of a loop once; whether the loop goes on. -/
def runBody : Nat → Command → Script Bool
  | 0, _ => throw .timeOver
  | fuel + 1, body => do
    match ← attempt (run fuel body) with
    | .ok () => return true
    | .error (.again n) =>
      setStatus 0
      if n ≤ 1 then return true else throw (.again (n - 1))
    | .error (.leave n) =>
      setStatus 0
      if n ≤ 1 then return false else throw (.leave (n - 1))
    | .error stop => throw stop
termination_by structural fuel => fuel

/-- Runs the body of a loop for each word. -/
def runEach : Nat → String → List String → Command → Script Unit
  | 0, _, _, _ => throw .timeOver
  | _, _, [], _ => return
  | fuel + 1, name, word :: words, body => do
    modify fun s => { s.assign name word with status := 0 }
    if ← runBody fuel body then runEach fuel name words body
termination_by structural fuel => fuel

/-- Runs the first branch with a pattern that a text fits. -/
def selectBranch : Nat → List Char → List (List Word × Command) → Script Unit
  | 0, _, _ => throw .timeOver
  | _, _, [] => return
  | fuel + 1, text, (patterns, body) :: branches => do
    let fits ← patterns.anyM fun word => do
      return Glob.accepts (patternOf (Mark.chars (← expandParts fuel word))) text
    if fits then run fuel body else selectBranch fuel text branches
termination_by structural fuel => fuel

/-- Runs a simple command. -/
def runSimple : Nat → List (String × Word) → List Word → List Redirect → Script Unit
  | 0, _, _, _ => throw .timeOver
  | fuel + 1, assignments, words, redirects => do
    match ← expandFields fuel words with
    | [] =>
      setStatus 0
      withStreams fuel redirects do
        for (name, word) in assignments do
          let value ← expandWhole fuel word
          modify (·.assign name value)
    | "exec" :: rest =>
      if rest.isEmpty then
        if !(← connectAll fuel redirects) then throw (.exit 2)
        setStatus 0
      else
        withStreams fuel redirects do
          let name := rest.head?.getD ""
          if (utilityOf? name).isNone && !isShell name then
            complainAt ("exec: " ++ name ++ ": not found")
            setStatus 127
            throw (.exit 127)
          call fuel name rest.tail
        throw (.exit (← get).status)
    | name :: rest =>
      let before := (← get).bindings
      withStreams fuel redirects do
        for (target, word) in assignments do
          let value ← expandWhole fuel word
          modify (·.assign target value)
        call fuel name rest
      if !assignments.isEmpty && !isSpecial? name then
        let assigned := assignments.map Prod.fst
        modify fun s => { s with
          bindings :=
            before.filter (assigned.contains ·.1) ++ s.bindings.filter (!assigned.contains ·.1) }
termination_by structural fuel => fuel

/-- Calls a command with words. -/
def call : Nat → String → List String → Script Unit
  | 0, _, _ => throw .timeOver
  | fuel + 1, name, words => do
    match (← get).functions.lookup name, builtin? name words, utilityOf? name with
    | some body, _, _ =>
      let arguments := (← get).arguments
      modify ({ · with arguments := words })
      leaving (run fuel body)
      modify ({ · with arguments })
    | none, some action, _ =>
      match ← attempt action with
      | .ok () => return
      | .error (.killed signal) =>
        let traps := (← get).traps
        match if signal = 9 then none else traps.lookup signal with
        | some text => runSource fuel (Source.ofText text)
        | none => throw (.killed signal)
      | .error stop => throw stop
    | none, none, some utility => callUtility utility words
    | none, none, none =>
      if name = "eval" then runSource fuel (Source.ofText (" ".intercalate words))
      else if name = "." then
        match words with
        | [] => abort ".: filename argument required"
        | path :: _ =>
          match (← get).files.read ⟨path⟩ with
          | .ok text => leaving (runSource fuel (Source.ofText text))
          | .error _ => abort (".: " ++ path ++ ": not found")
      else if name = "command" then
        match words with
        | [] => setStatus 0
        | ["-v", name] =>
          let isKnown := isCommand (← get) name || isShell name
          if isKnown then modify (·.write 1 (Text.bytesOf (name ++ "\n")))
          setStatus (if isKnown then 0 else 127)
        | name :: rest => call fuel name rest
      else if isShell name then isolated (runShell fuel name words)
      else reportMissing name
termination_by structural fuel => fuel

/-- Runs commands, and at their end what has been set for it. -/
def runToEnd : Nat → Source → Script Unit
  | 0, _ => throw .timeOver
  | fuel + 1, source => do
    let atEnd : Script Unit := do
      let s ← get
      match s.traps.lookup 0 with
      | some text =>
        set { s with traps := s.traps.filter (·.1 ≠ 0) }
        runSource fuel (Source.ofText text)
        setStatus s.status
      | none => return
    match ← attempt (runSource fuel source) with
    | .error (.exit status) =>
      atEnd
      throw (.exit status)
    | .error (.killed signal) => throw (.killed signal)
    | .error .timeOver => throw .timeOver
    | _ => atEnd
termination_by structural fuel => fuel

/-- Runs a shell with its own words. -/
def runShell : Nat → String → List String → Script Unit
  | 0, _, _ => throw .timeOver
  | fuel + 1, name, words => do
    let options := words.takeWhile fun word =>
      word.length > 1 && (word.startsWith "-" || word.startsWith "+") && word ≠ "--"
    let rest := words.drop options.length
    let rest := if rest.head? = some "--" || rest.head? = some "-" then rest.tail else rest
    let letters := options.flatMap (·.toList.drop 1)
    modify fun s => { s with
      name := name, line := 0, bindings := s.bindings, functions := []
      options := letters.filter (· ≠ 'c') }
    match letters.find? fun c => !shellOptions.contains c with
    | some c => abort ("Illegal option -" ++ String.singleton c)
    | none =>
      if letters.contains 'c' then
        match rest with
        | [] => abort "-c requires an argument"
        | text :: rest =>
          modify ({ · with name := rest.head?.getD name, arguments := rest.tail })
          runToEnd fuel (Source.ofText text)
      else match rest with
        | [] =>
          let s ← get
          set { s with arguments := [], input := [] }
          runToEnd fuel (Source.ofText (Text.ofBytes s.input))
        | path :: rest =>
          match (← get).files.locate ⟨path⟩ with
          | .ok (_, .file text) =>
            modify ({ · with name := path, arguments := rest })
            runToEnd fuel (Source.ofText text)
          | .ok (_, .directory) => setStatus 0
          | .error _ => abort ("cannot open " ++ path ++ ": No such file")
termination_by structural fuel => fuel

/-- Reads and runs commands line by line. -/
def runSource : Nat → Source → Script Unit
  | 0, _ => throw .timeOver
  | fuel + 1, source => do
    match readLine? source with
    | .error fault =>
      modify ({ · with line := fault.line })
      abort fault.message
    | .ok none => return
    | .ok (some (command, rest)) =>
      run fuel command
      runSource fuel rest
termination_by structural fuel => fuel

end

end StrongCyclic.Shell
