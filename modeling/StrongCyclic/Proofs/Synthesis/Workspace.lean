import StrongCyclic.Proofs.Run.Check
import StrongCyclic.Synthesis.Workspace

/-!
What is done with the directory of a run before the search. The directory gets the planning task,
and everything else that is written there is aside: the program under its own name, and constraints
under names that end like programs.
-/

namespace StrongCyclic

open Fallible FileTree Job Place RunDirectory

variable {σ : Type} {directory : Place} {world after : World σ} {aside : String → Prop}
  {K : World σ → Prop}

theorem isEntryName_of_mem_pieces {path : Path} {name : String} (h : name ∈ path.pieces)
    (hempty : name ≠ "") (hdot : name ≠ ".") (hdots : name ≠ "..") : IsEntryName name :=
  ⟨hempty, hdot, hdots, not_slash_of_mem_pieces h⟩

theorem isEntryName_of_fileName? {path : Path} {name : String} (h : path.fileName? = some name) :
    IsEntryName name := by
  rw [Path.fileName?] at h
  split at h
  · next last hlast =>
    split at h
    · cases h
    · next hdots =>
      cases h
      obtain ⟨hdot, hdots⟩ := not_or.mp hdots
      have hmem : name ∈ path.pieces.filter fun piece => piece ≠ "" && piece ≠ "." := by
        have hcomponent := List.mem_of_getLast? hlast
        rw [Path.components] at hcomponent
        split at hcomponent
        · exact (List.mem_cons.mp hcomponent).resolve_left hdot
        · exact hcomponent
      obtain ⟨hpiece, hnames⟩ := List.mem_filter.mp hmem
      exact isEntryName_of_mem_pieces hpiece (by simpa using (Bool.and_eq_true_iff.mp hnames).1)
        hdot hdots
  · cases h

/-! ### Constraints -/

/-- A file whose path ends like a program is aside. -/
theorem keeps_write_lp (hK : StableUnder aside directory K) (hnames : HasRunNames aside)
    {path : Path} {s : String} (hpath : path.text = s ++ ".lp") (text : String) :
    Keeps K (change (·.write path text)) := by
  refine keeps_change fun world files hwrite hworld => ?_
  obtain ⟨place, hresolve, rfl⟩ := exists_of_write hwrite
  have hending : ∀ c ∈ ".lp".toList, (c == '/') = false := by simp
  obtain ⟨pieces, last, hsplit⟩ := Text.exists_splitWhere_append s.toList hending
  have hpieces : path.pieces = pieces.map String.ofList ++ [String.ofList last ++ ".lp"] := by
    rw [Path.pieces, hpath, String.toList_append, hsplit]
    simp
  have hname : IsEntryName (String.ofList last ++ ".lp") :=
    isEntryName_of_mem_pieces (hpieces ▸ List.mem_append_right _ (List.mem_singleton_self _))
      (FileNames.append_lp_ne (by decide)) (FileNames.append_lp_ne (by decide))
      (FileNames.append_lp_ne (by decide))
  have hwalk := walk_of_resolve hresolve
  rw [hpieces] at hwalk
  obtain ⟨above, rfl⟩ := exists_of_walk_append hname (by simp) hwalk
  refine hK world _ _ (fun name heq => ?_) hworld
  obtain ⟨-, rfl⟩ : above = directory ∧ String.ofList last ++ ".lp" = name := by simpa using heq
  exact hnames.program _

theorem exists_text_join (path : Path) (name : String) :
    ∃ s, (path.join name).text = s ++ name := by
  rw [Path.join]
  split_ifs
  · exact ⟨"", by simp⟩
  · exact ⟨path.text, rfl⟩
  · exact ⟨path.text ++ "/", rfl⟩

theorem keeps_writeConstraint (hK : StableUnder aside directory K) (hnames : HasRunNames aside)
    (file : ConstraintFile) (path : Path) : Keeps K (file.write path) := by
  obtain ⟨s, hs⟩ := exists_text_join path (file.name ++ ".lp")
  have hpath : (file.pathIn path).text = s ++ file.name ++ ".lp" :=
    hs.trans (String.append_assoc ..).symm
  exact .bind (keeps_write_lp hK hnames hpath file.contents).mapError fun _ => keeps_pure

theorem keeps_writeNumbered (hK : StableUnder aside directory K) (hnames : HasRunNames aside)
    (path : Path) (index : Nat) (files : List ConstraintFile) :
    Keeps K (ConstraintFile.writeNumbered path index files) := by
  induction files generalizing index with
  | nil => exact keeps_pure
  | cons file files ih =>
    exact .bind (keeps_writeConstraint hK hnames _ path) fun _ => .bind (ih _) fun _ => keeps_pure

theorem keeps_load (path : Path) : Keeps K (ConstraintFile.load path) := by
  refine .bind keeps_query.mapError fun contents => ?_
  split
  · exact keeps_pure
  · exact keeps_throw

theorem keeps_loadAll (paths : List Path) : Keeps K (ConstraintFile.loadAll paths) := by
  induction paths with
  | nil => exact keeps_pure
  | cons path paths ih =>
    exact .bind (keeps_load path) fun _ => .bind ih fun _ => keeps_pure

/-! ### The workspace -/

theorem keeps_locate (path : Path) : Keeps K (Workspace.locate path) :=
  keeps_query.mapError

theorem locate_returns {path path' : Path} (h : Returns (Workspace.locate path) world path' after) :
    (∃ place entry, world.files.resolve path = .ok place ∧ world.files.entry? place = some entry ∧
      pathOf place = path') ∧ world = after := by
  obtain ⟨hcanonical, rfl⟩ := returns_query.mp (returns_duringFile.mp h)
  exact ⟨exists_of_canonical hcanonical, rfl⟩

theorem isSame_returns {source target : Path} {same : Bool}
    (h : Returns (Workspace.isSame source target) world same after) :
    world = after ∧ (same = true → ∃ place place' entry, world.files.resolve source = .ok place ∧
      world.files.resolve target = .ok place' ∧ world.files.entry? place' = some entry ∧
      pathOf place = pathOf place') := by
  obtain ⟨present, between, hinspect, h⟩ := returns_bind.mp h
  obtain ⟨-, rfl⟩ := returns_inspect.mp hinspect
  split at h
  · obtain ⟨a, between, hsource, h⟩ := returns_bind.mp h
    obtain ⟨⟨place, _, hplace, -, rfl⟩, rfl⟩ := locate_returns hsource
    obtain ⟨b, between, htarget, h⟩ := returns_bind.mp h
    obtain ⟨⟨place', entry, hplace', hentry, rfl⟩, rfl⟩ := locate_returns htarget
    obtain ⟨rfl, rfl⟩ := returns_pure.mp h
    exact ⟨rfl, fun hsame =>
      ⟨place, place', entry, hplace, hplace', hentry, of_decide_eq_true hsame⟩⟩
  · obtain ⟨rfl, rfl⟩ := returns_pure.mp h
    exact ⟨rfl, fun hsame => by cases hsame⟩

/-- Either the target is the source already or it gets the text of the source. -/
theorem copyInto_returns {source : Path} {name : String} {u : Unit} (hplace : Proper directory)
    (hname : IsEntryName name)
    (h : Returns (Workspace.copyInto source ((pathOf directory).join name)) world u after) :
    (world = after ∧ name ∈ world.files.namesIn directory ∧
      (Proper world.files.workingDirectory →
        world.files.resolve source = .ok (directory ++ [name]))) ∨
      ∃ text, world.files.read source = .ok text ∧
        after = { world with files := world.files.put (directory ++ [name]) (.file text) } := by
  obtain ⟨same, between, hsame, h⟩ := returns_bind.mp h
  obtain ⟨rfl, hplaces⟩ := isSame_returns hsame
  split at h
  · next htrue =>
    obtain ⟨-, rfl⟩ := returns_pure.mp h
    obtain ⟨place, place', entry, hsource, htarget, hentry, heq⟩ := hplaces htrue
    obtain rfl := resolve_join hplace hname htarget
    refine .inl ⟨rfl, mem_namesIn_of_entry hentry, fun hworking => ?_⟩
    rw [hsource, pathOf_injective (proper_of_resolve hworking hsource)
      (proper_of_resolve hworking htarget) heq]
  · obtain ⟨files, hcopy, rfl⟩ := returns_change.mp (returns_duringFile.mp h)
    obtain ⟨text, hread, hwrite⟩ := exists_of_copy hcopy
    obtain rfl := eq_put_of_write_join hplace hname hwrite
    exact .inr ⟨text, hread, rfl⟩

/-- After the task file has been copied, the directory holds its text. -/
theorem hasTask_of_copyInto {source : Path} {text : String} {u : Unit} (hplace : Proper directory)
    (hworking : Proper world.files.workingDirectory) (hread : world.files.read source = .ok text)
    (h : Returns (Workspace.copyInto source ((pathOf directory).join FileNames.task)) world u
      after) :
    HasTask directory text after.files := by
  rcases copyInto_returns hplace (by decide) h with ⟨rfl, -, hsame⟩ | ⟨text', hread', rfl⟩
  · obtain ⟨place, hresolve, hentry⟩ := read_eq_ok.mp hread
    obtain rfl : directory ++ [FileNames.task] = place := by
      simpa [hresolve] using (hsame hworking).symm
    exact hentry
  · obtain rfl : text = text' := by simpa [hread] using hread'
    exact entry?_put_self _ _ _ _

theorem keeps_copyInto (hK : StableUnder aside directory K) (hplace : Proper directory)
    (source : Path) {name : String} (hname : IsEntryName name) (haside : aside name) :
    Keeps K (Workspace.copyInto source ((pathOf directory).join name)) := by
  intro world u after hcopy hworld
  rcases copyInto_returns hplace hname hcopy with ⟨rfl, -⟩ | ⟨text, -, rfl⟩
  · exact hworld
  · exact hK.put haside _ hworld

theorem keeps_copyProgram (hK : StableUnder aside directory K) (hplace : Proper directory)
    {program : Path} (haside : ∀ name, program.fileName? = some name → aside name) :
    Keeps K (Workspace.copyProgram program (pathOf directory)) := by
  rw [Workspace.copyProgram]
  split
  · exact keeps_throw
  · next name hname =>
    exact .bind (keeps_copyInto hK hplace program (isEntryName_of_fileName? hname)
      (haside name hname)) fun _ => keeps_pure

/-- The directory is there after it has been prepared. -/
theorem exists_of_prepare {path path' : Path}
    (h : Returns (Workspace.prepare path) world path' after) :
    ∃ directory, world.files.createDirectories path = .ok after.files ∧
      after.files.resolve path = .ok directory ∧ path' = pathOf directory := by
  obtain ⟨_, between, hcreate, h⟩ := returns_bind.mp h
  obtain ⟨files, hfiles, rfl⟩ := returns_change.mp (returns_duringFile.mp hcreate)
  obtain ⟨⟨directory, _, hresolve, -, rfl⟩, rfl⟩ := locate_returns h
  exact ⟨directory, hfiles, hresolve, rfl⟩

/-- The path of the directory that has been prepared is that of a place. -/
theorem prepare_returns {path path' : Path} (hworking : Proper world.files.workingDirectory)
    (h : Returns (Workspace.prepare path) world path' after) :
    ∃ directory, Proper directory ∧ path' = pathOf directory ∧
      world.files.createDirectories path = .ok after.files ∧
      Proper after.files.workingDirectory := by
  obtain ⟨place, hfiles, hresolve, rfl⟩ := exists_of_prepare h
  have hworking' : Proper after.files.workingDirectory :=
    workingDirectory_of_createWithin hfiles ▸ hworking
  exact ⟨place, proper_of_resolve hworking' hresolve, rfl, hfiles, hworking'⟩

end StrongCyclic
