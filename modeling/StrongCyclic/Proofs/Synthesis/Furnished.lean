import StrongCyclic.Proofs.Synthesis.Artefacts
import StrongCyclic.Proofs.Synthesis.Leftovers

/-!
What the files of a run hold. `Meant` says of each file which text it is meant to have, and `Furnished`
that the directory holds what is meant up to a phase of the run, nothing else having been written there.
Each step of a run takes the directory from one phase to a later one.
-/

namespace StrongCyclic.Synthesis

open FileTree Job Place RunDirectory Search

/-- What the files of a run are made from. -/
structure Sources where
  taskText : String
  task : Task
  /-- The text of the controller program, if it is a file. -/
  programText : Option String
  /-- The call for a weak plan, if it has been made. -/
  weak : Option Exchange
  /-- The call for undo pairs, if it has been made. -/
  undo : Option Exchange
  /-- The programs that come from outside, in their order. -/
  constraints : List ConstraintFile

/-- The text that a file of a run is meant to have, when these calls for controllers have been made. -/
inductive Meant (s : Settings) (sources : Sources) (made : List Exchange) : Artefact → String → Prop
  | task : Meant s sources made .task sources.taskText
  | controllerInstance :
    Meant s sources made .controllerInstance
      (Encoding.instanceText sources.task s.encoding .controller)
  | weakInstance (henabled : s.backbone.enabled = true) :
    Meant s sources made .weakInstance (Encoding.instanceText sources.task s.encoding .weakPlan)
  | weakPlanOutput {x : Exchange} {run : SolverRun} (hcall : sources.weak = some x)
    (hreply : x.reply = .ok run) : Meant s sources made .weakPlanOutput run.stdout
  | backbone {x : Exchange} {text : String} {out : SolverOutput} {b : Backbone}
    (hsize : s.backbone.sizeOnly = false) (hcall : sources.weak = some x)
    (hreply : x.reply = .ok (.finished text)) (hread : readOutput text = .ok out)
    (hplan : Backbone.ofOutput out = .ok b) :
    Meant s sources made .backbone (b.constraints s.backbone.style)
  | program {text : String} (htext : sources.programText = some text) :
    Meant s sources made .program text
  | undoOutput {x : Exchange} {run : SolverRun} (hcall : sources.undo = some x)
    (hreply : x.reply = .ok run) : Meant s sources made .undoOutput run.stdout
  | undoConstraints {x : Exchange} {run : SolverRun} {out : SolverOutput}
    (hcall : sources.undo = some x) (hreply : x.reply = .ok run)
    (hread : readOutput run.stdout = .ok out) :
    Meant s sources made .undoConstraints
      (UndoPair.constraints s.constraints.undoByType (UndoPair.ofOutput out))
  | constraint {index : Nat} {file : ConstraintFile} (hfile : sources.constraints[index]? = some file) :
    Meant s sources made (.constraint (index + 1) file.name) file.contents
  | output {n : Nat} {before after : List Exchange} {x : Exchange} {text : String}
    (hmade : made = before ++ x :: after) (hsize : x.call.args = sizeArgs s.solver.args n)
    (hlast : ∀ y ∈ after, y.call.args ≠ sizeArgs s.solver.args n)
    (hreply : x.reply = .ok (.finished text)) : Meant s sources made (.output n) text

/-- From the tree `prepared` on only files of earlier phases have been written, and outputs of attempts
have been removed; the files of earlier phases hold what they are meant to. -/
structure Furnished (directory : Place) (program : String) (meant : Artefact → String → Prop)
    (phase : Nat) (prepared tree : FileTree) : Prop where
  touches : Touches directory (Artefact.namesBefore program phase) prepared tree
  reads : ∀ a text, meant a text → a.phase < phase →
    tree.read ((pathOf directory).join (a.name program)) = .ok text

theorem furnished_prepared (directory : Place) (program : String) (meant : Artefact → String → Prop)
    (prepared : FileTree) : Furnished directory program meant 0 prepared prepared :=
  ⟨.refl _ _ _, fun _ _ _ h => absurd h (Nat.not_lt_zero _)⟩

namespace Furnished

variable {directory : Place} {program : String} {meant : Artefact → String → Prop} {phase : Nat}
  {names : Set String} {prepared before after : FileTree} {a : Artefact} {text : String}

/-- Steps that touch none of the files that are there. -/
theorem frame (hplace : Proper directory)
    (hentry : ∀ a text, meant a text → IsEntryName (a.name program))
    (h : Furnished directory program meant phase prepared before)
    (htouches : Touches directory names before after)
    (hnames : names ⊆ Artefact.namesBefore program phase)
    (haway : ∀ a text, meant a text → a.phase < phase → a.name program ∉ names) :
    Furnished directory program meant phase prepared after where
  touches := h.touches.append (htouches.mono hnames)
  reads a text hmeant hphase :=
    (htouches.read_join hplace (hentry a text hmeant) (haway a text hmeant hphase)).mpr
      (h.reads a text hmeant hphase)

section Steps

variable (hplace : Proper directory) (hprogram : ¬ IsRunFile program)
  (hentry : ∀ a text, meant a text → IsEntryName (a.name program))

include hplace hprogram hentry

/-- The files of a phase are written. -/
theorem step (h : Furnished directory program meant phase prepared before)
    (htouches : Touches directory names before after)
    (hnames : ∀ name ∈ names, ∃ a : Artefact, a.phase = phase ∧ a.name program = name)
    (hnew : ∀ a text, meant a text → a.phase = phase →
      after.read ((pathOf directory).join (a.name program)) = .ok text) :
    Furnished directory program meant (phase + 1) prepared after where
  touches := by
    refine (h.touches.mono ?_).append (htouches.mono ?_)
    · exact fun name => .imp_left fun ⟨a, hphase, hname⟩ => ⟨a, Nat.lt_succ_of_lt hphase, hname⟩
    · intro name hname
      obtain ⟨a, rfl, rfl⟩ := hnames name hname
      exact .inl ⟨a, Nat.lt_succ_self _, rfl⟩
  reads a text hmeant hphase := by
    obtain hphase | hphase := Nat.lt_succ_iff_lt_or_eq.mp hphase
    · refine (htouches.read_join hplace (hentry a text hmeant) fun hname => ?_).mpr
        (h.reads a text hmeant hphase)
      obtain ⟨b, rfl, hsame⟩ := hnames _ hname
      obtain rfl := Artefact.name_injective hprogram hsame
      exact absurd hphase (Nat.lt_irrefl _)
    · exact hnew a text hmeant hphase

/-- The file of a phase is written. -/
theorem next (ha : a.phase < 8) (h : Furnished directory program meant a.phase prepared before)
    (htouches : Touches directory {a.name program} before after)
    (hnew : ∀ text, meant a text →
      after.read ((pathOf directory).join (a.name program)) = .ok text) :
    Furnished directory program meant (a.phase + 1) prepared after := by
  refine h.step hplace hprogram hentry htouches ?_ fun b text hmeant hphase => ?_
  · rintro name rfl
    exact ⟨a, rfl, rfl⟩
  · obtain rfl := Artefact.eq_of_phase ha hphase
    exact hnew text hmeant

/-- No file is written in a phase. -/
theorem skip (ha : a.phase < 8) (h : Furnished directory program meant a.phase prepared before)
    (hnone : ∀ text, ¬ meant a text) :
    Furnished directory program meant (a.phase + 1) prepared before :=
  h.next hplace hprogram hentry ha (.refl _ _ _) fun text hmeant => absurd hmeant (hnone text)

theorem write (hfixed : a ∈ Artefact.fixed) (ha : a.phase < 8)
    (h : Furnished directory program meant a.phase prepared before)
    (hwrite : before.write ((pathOf directory).join (a.name program)) text = .ok after)
    (hmeant : ∀ other, meant a other → other = text) :
    Furnished directory program meant (a.phase + 1) prepared after := by
  have hname := Artefact.isEntryName_of_mem_fixed program hfixed
  refine h.next hplace hprogram hentry ha (touches_of_alter hplace hname hwrite) ?_
  rintro other hother
  rw [hmeant other hother]
  exact read_of_write hwrite

end Steps

end Furnished

end StrongCyclic.Synthesis
