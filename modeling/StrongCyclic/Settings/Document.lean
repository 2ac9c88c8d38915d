import StrongCyclic.Settings.Basic
import StrongCyclic.Yaml.Reader
import StrongCyclic.Yaml.Writer

/-!
Settings as a document. Every section and every field has to be there, except that a field that may
be null may be missing. Fields without a meaning are passed over. A section may also be a sequence
of all its fields in order.
-/

namespace StrongCyclic

open Yaml

/-! ## Writing -/

/-- A text as a node. -/
def Yaml.Node.ofText (text : String) : Node := .scalar none false text

/-- A word or a number as a node. -/
def Yaml.Node.ofWord (word : String) : Node := .scalar none true word

/-- A path as a node. -/
def Yaml.Node.ofPath (path : Path) : Node := .ofText path.text

/-- A value that may be missing as a node. -/
def Yaml.Node.ofOption {α : Type} (write : α → Node) : Option α → Node
  | some a => write a
  | none => .ofWord "null"

/-- Fields as a node. -/
def Yaml.Node.ofFields (fields : List (String × Node)) : Node :=
  .mapping (fields.map fun (name, n) => (.ofWord name, n))

/-- The name of a style. -/
def BackboneStyle.name : BackboneStyle → String
  | strict => "strict"
  | loose => "loose"

/-- The name of a choice of initial values. -/
def Encoding.InitialValues.name : Encoding.InitialValues → String
  | positive => "positive"
  | negative => "negative"
  | both => "both"

namespace Settings

/-- The section on the solver. -/
def solverNode (s : SolverSettings) : Node :=
  .ofFields
    [("clingo", .ofPath s.executable), ("args", .sequence (s.args.map Node.ofText)),
      ("controller_model", .ofPath s.controllerModel),
      ("min_states", .ofWord (toString s.sizes.min)),
      ("max_states", .ofWord (toString s.sizes.max)),
      ("inc_states", .ofWord (toString s.sizes.step)),
      ("time_limit_seconds", .ofOption (fun n => .ofWord (toString n)) s.timeLimit)]

/-- The section on the backbone. -/
def backboneNode (s : BackboneSettings) : Node :=
  .ofFields
    [("enabled", .ofWord (toString s.enabled)), ("size_only", .ofWord (toString s.sizeOnly)),
      ("weak_plan_program", .ofPath s.weakPlanProgram),
      ("sequential_knowledge", .ofOption .ofPath s.sequentialKnowledge),
      ("style", .ofWord s.style.name)]

/-- The section on the encoding. -/
def encodingNode (s : Encoding.Options) : Node :=
  .ofFields
    [("initial_state", .ofWord s.initialValues.name),
      ("not_affects", .ofWord (toString s.notAffects)),
      ("precedence", .ofWord (toString s.precedence))]

/-- The section on constraints. -/
def constraintsNode (s : ConstraintSettings) : Node :=
  .ofFields
    [("files", .sequence (s.files.map Node.ofPath)),
      ("undo_program", .ofOption .ofPath s.undoProgram),
      ("undo_by_type", .ofWord (toString s.undoByType))]

/-- The section on the output. -/
def outputNode (s : OutputSettings) : Node :=
  .ofFields
    [("directory", .ofPath s.directory), ("dump_controller", .ofWord (toString s.dumpController)),
      ("verify", .ofWord (toString s.verify))]

/-- The settings as a node. -/
def node (s : Settings) : Node :=
  .ofFields
    [("input", .ofFields [("sas_file", .ofPath s.taskFile)]), ("solver", solverNode s.solver),
      ("backbone", backboneNode s.backbone), ("encoding", encodingNode s.encoding),
      ("constraints", constraintsNode s.constraints), ("output", outputNode s.output)]

/-- The settings as a text. -/
def text (s : Settings) : String :=
  s.node.text

/-! ## Reading -/

/-- Reads a path. -/
def path? (n : Node) : Option Path :=
  n.text?.map Path.mk

/-- Reads a list. -/
def list? {α : Type} (read : Node → Option α) (n : Node) : Option (List α) := do
  (← n.items?).mapM read

/-- Reads a style. -/
def style? (n : Node) : Option BackboneStyle := do
  let name ← n.choice?
  [BackboneStyle.strict, .loose].find? (·.name = name)

/-- Reads a choice of initial values. -/
def initialValues? (n : Node) : Option Encoding.InitialValues := do
  let name ← n.choice?
  [Encoding.InitialValues.positive, .negative, .both].find? (·.name = name)

/-- Reads the section on the task. -/
def taskFile? (n : Node) : Option Path := do
  let fields ← n.fields? ["sas_file"]
  Node.required? fields "sas_file" path?

/-- Reads the section on the solver. -/
def solver? (n : Node) : Option SolverSettings := do
  let fields ← n.fields?
    ["clingo", "args", "controller_model", "min_states", "max_states", "inc_states",
      "time_limit_seconds"]
  return {
    executable := ← Node.required? fields "clingo" path?
    args := ← Node.required? fields "args" (list? Node.text?)
    controllerModel := ← Node.required? fields "controller_model" path?
    sizes := {
      min := ← Node.required? fields "min_states" Node.natural?
      max := ← Node.required? fields "max_states" Node.natural?
      step := ← Node.required? fields "inc_states" Node.natural? }
    timeLimit := ← Node.optionalField? fields "time_limit_seconds" Node.natural? }

/-- Reads the section on the backbone. -/
def backbone? (n : Node) : Option BackboneSettings := do
  let fields ← n.fields?
    ["enabled", "size_only", "weak_plan_program", "sequential_knowledge", "style"]
  return {
    enabled := ← Node.required? fields "enabled" Node.bool?
    sizeOnly := ← Node.required? fields "size_only" Node.bool?
    weakPlanProgram := ← Node.required? fields "weak_plan_program" path?
    sequentialKnowledge := ← Node.optionalField? fields "sequential_knowledge" path?
    style := ← Node.required? fields "style" style? }

/-- Reads the section on the encoding. -/
def encoding? (n : Node) : Option Encoding.Options := do
  let fields ← n.fields? ["initial_state", "not_affects", "precedence"]
  return {
    initialValues := ← Node.required? fields "initial_state" initialValues?
    notAffects := ← Node.required? fields "not_affects" Node.bool?
    precedence := ← Node.required? fields "precedence" Node.bool? }

/-- Reads the section on constraints. -/
def constraints? (n : Node) : Option ConstraintSettings := do
  let fields ← n.fields? ["files", "undo_program", "undo_by_type"]
  return {
    files := ← Node.required? fields "files" (list? path?)
    undoProgram := ← Node.optionalField? fields "undo_program" path?
    undoByType := ← Node.required? fields "undo_by_type" Node.bool? }

/-- Reads the section on the output. -/
def output? (n : Node) : Option OutputSettings := do
  let fields ← n.fields? ["directory", "dump_controller", "verify"]
  return {
    directory := ← Node.required? fields "directory" path?
    dumpController := ← Node.required? fields "dump_controller" Node.bool?
    verify := ← Node.required? fields "verify" Node.bool? }

/-- Reads settings from a node. -/
def ofNode? (n : Node) : Option Settings := do
  let fields ← n.fields? ["input", "solver", "backbone", "encoding", "constraints", "output"]
  return {
    taskFile := ← Node.required? fields "input" taskFile?
    solver := ← Node.required? fields "solver" solver?
    backbone := ← Node.required? fields "backbone" backbone?
    encoding := ← Node.required? fields "encoding" encoding?
    constraints := ← Node.required? fields "constraints" constraints?
    output := ← Node.required? fields "output" output? }

/-- Reads settings from a text. -/
def parse? (text : String) : Option Settings := do
  ofNode? (← Yaml.read? text)

end Settings

end StrongCyclic
