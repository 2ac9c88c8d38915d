import Mathlib.Data.Set.Insert
import StrongCyclic.Proofs.Disk.FileTree

/-!
What changes of files leave alone. `Touches` says that from one tree to another only files of one
directory have been written or removed, under names of a set; all directories stand. Then a path leads
where it has led, and a file under another name is read as before.
-/

namespace StrongCyclic.FileTree

open Fallible Place

variable {directory place target : Place} {names more : Set String} {name text : String} {path : Path}
  {before between after : FileTree}

/-! ### Trees with the same directories -/

section Directories

variable (hdirectories : ∀ place,
  after.entry? place = some .directory ↔ before.entry? place = some .directory)

include hdirectories

theorem walk_congr {pieces : List String} :
    after.walk place pieces = .ok target ↔ before.walk place pieces = .ok target := by
  induction pieces generalizing place with
  | nil => exact Iff.rfl
  | cons piece pieces ih => rw [walk_cons_eq_ok, walk_cons_eq_ok, hdirectories, ih]

theorem resolve_congr (hworking : after.workingDirectory = before.workingDirectory) :
    after.resolve path = .ok target ↔ before.resolve path = .ok target := by
  rw [resolve, resolve, hworking]
  split_ifs
  · exact Iff.rfl
  · exact Iff.rfl
  · exact walk_congr hdirectories
  · exact walk_congr hdirectories

end Directories

/-! ### Files of one directory -/

/-- Only files in the directory, under these names, have been written or removed. -/
structure Touches (directory : Place) (names : Set String) (before after : FileTree) : Prop where
  kept : ∀ place, (∀ name ∈ names, place ≠ directory ++ [name]) →
    after.entry? place = before.entry? place
  directories : ∀ place, after.entry? place = some .directory ↔ before.entry? place = some .directory
  workingDirectory : after.workingDirectory = before.workingDirectory

namespace Touches

theorem refl (directory : Place) (names : Set String) (tree : FileTree) :
    Touches directory names tree tree :=
  ⟨fun _ _ => rfl, fun _ => Iff.rfl, rfl⟩

theorem mono (h : Touches directory names before after) (hnames : names ⊆ more) :
    Touches directory more before after :=
  ⟨fun place hplace => h.kept place fun name hname => hplace name (hnames hname), h.directories,
    h.workingDirectory⟩

theorem trans (h : Touches directory names before between)
    (hmore : Touches directory more between after) :
    Touches directory (names ∪ more) before after where
  kept place hplace := by
    rw [hmore.kept place fun name hname => hplace name (.inr hname),
      h.kept place fun name hname => hplace name (.inl hname)]
  directories place := (hmore.directories place).trans (h.directories place)
  workingDirectory := hmore.workingDirectory.trans h.workingDirectory

/-- Steps that touch the same names, one after the other. -/
theorem append (h : Touches directory names before between)
    (hmore : Touches directory names between after) : Touches directory names before after :=
  Set.union_self names ▸ h.trans hmore

theorem put {tree : FileTree} (hfree : tree.entry? (directory ++ [name]) ≠ some .directory) :
    Touches directory {name} tree (tree.put (directory ++ [name]) (.file text)) where
  kept place hplace := entry?_put_of_ne (hplace name rfl)
  directories place := by
    by_cases heq : place = directory ++ [name]
    · subst heq
      simp [hfree]
    · rw [entry?_put_of_ne heq]
  workingDirectory := rfl

/-! ### Paths -/

theorem resolve (h : Touches directory names before after) :
    after.resolve path = .ok target ↔ before.resolve path = .ok target :=
  resolve_congr h.directories h.workingDirectory

/-- A path that leads to no name that has been touched is read as before. -/
theorem read (h : Touches directory names before after)
    (haway : ∀ name ∈ names, before.resolve path ≠ .ok (directory ++ [name])) :
    after.read path = .ok text ↔ before.read path = .ok text := by
  simp only [read_eq_ok, h.resolve]
  refine exists_congr fun place => and_congr_right fun hresolve => ?_
  rw [h.kept place fun name hname heq => haway name hname (heq ▸ hresolve)]

end Touches

/-- A file that has been written is read again. -/
theorem read_of_write (h : before.write path text = .ok after) : after.read path = .ok text := by
  obtain ⟨place, hfile, h⟩ := bind_eq_ok.mp h
  cases h
  have hfree := entry?_of_filePlace hfile
  have hne : place ≠ [] := by
    rintro rfl
    exact hfree (entry?_nil before)
  refine read_eq_ok.mpr ⟨place, resolve_put hfree (resolve_of_filePlace hfile), ?_⟩
  rw [entry?_put _ _ _ hne, if_pos rfl]

/-- A file can be written at the path. -/
def Writable (tree : FileTree) (path : Path) : Prop :=
  ∃ place, tree.resolve path = .ok place ∧ tree.entry? place ≠ some .directory

instance (tree : FileTree) (path : Path) : Decidable (tree.Writable path) :=
  match h : tree.resolve path with
  | .ok place => decidable_of_iff (tree.entry? place ≠ some .directory) <| by simp [Writable, h]
  | .error _ => isFalse <| by simp [Writable, h]

theorem exists_write_iff {tree : FileTree} :
    (∃ after, tree.write path text = .ok after) ↔ tree.Writable path := by
  constructor
  · rintro ⟨after, h⟩
    obtain ⟨place, hfile, -⟩ := bind_eq_ok.mp h
    exact ⟨place, resolve_of_filePlace hfile, entry?_of_filePlace hfile⟩
  · rintro ⟨place, hresolve, hfree⟩
    exact ⟨_, write_of_resolve hresolve hfree⟩

/-- A file that has been written is in the way of no other. -/
theorem writable_of_write {other : Path} (h : before.write path text = .ok after) :
    after.Writable other ↔ before.Writable other := by
  obtain ⟨place, hfile, h⟩ := bind_eq_ok.mp h
  cases h
  have hfree := entry?_of_filePlace hfile
  have hne : place ≠ [] := by
    rintro rfl
    exact hfree (entry?_nil before)
  obtain ⟨above, name, rfl⟩ := (List.eq_nil_or_concat' place).resolve_left hne
  have htouches : Touches above {name} before (before.put (above ++ [name]) (.file text)) :=
    .put hfree
  simp only [Writable, htouches.resolve, Ne, htouches.directories]

/-! ### The last name of a path -/

/-- The last name of a path is the last of the pieces that do not stay. -/
theorem getLast?_of_fileName? (hname : IsEntryName name) (h : path.fileName? = some name) :
    (path.pieces.filter fun piece => piece ≠ "" && piece ≠ ".").getLast? = some name := by
  have hcomponent : path.components.getLast? = some name := by
    rw [Path.fileName?] at h
    split at h
    · next hcomponent =>
      split_ifs at h
      cases h
      exact hcomponent
    · cases h
  rw [Path.components] at hcomponent
  split_ifs at hcomponent
  · rw [List.getLast?_cons] at hcomponent
    cases hfound : (path.pieces.filter fun piece => piece ≠ "" && piece ≠ ".").getLast? with
    | none =>
      rw [hfound] at hcomponent
      exact absurd (Option.some.inj hcomponent).symm hname.ne_dot
    | some other => rwa [hfound] at hcomponent
  · exact hcomponent

theorem exists_pieces_of_fileName? (hname : IsEntryName name) (h : path.fileName? = some name) :
    ∃ front stays, path.pieces = front ++ name :: stays ∧
      ∀ piece ∈ stays, piece = "" ∨ piece = "." := by
  have hlast := getLast?_of_fileName? hname h
  rw [List.getLast?_eq_head?_reverse, ← List.filter_reverse, List.head?_filter,
    List.find?_eq_some_iff_append] at hlast
  obtain ⟨-, back, front, hpieces, hback⟩ := hlast
  refine ⟨front.reverse, back.reverse, by simpa using congrArg List.reverse hpieces, ?_⟩
  intro piece hpiece
  have hdropped := hback piece (List.mem_reverse.mp hpiece)
  by_contra hgoes
  obtain ⟨hempty, hdot⟩ := not_or.mp hgoes
  simp [hempty, hdot] at hdropped

/-- A name that is put behind a path is the last name of the path. -/
theorem fileName?_join (hname : IsEntryName name) (path : Path) :
    (path.join name).fileName? = some name := by
  obtain ⟨front, hpieces⟩ := exists_pieces_join hname path
  have hlast : (path.join name).components.getLast? = some name := by
    rw [Path.components, hpieces, List.filter_append,
      List.filter_cons_of_pos (by simp [hname.ne_empty, hname.ne_dot]), List.filter_nil]
    split_ifs
    · rw [← List.cons_append, List.getLast?_concat]
    · exact List.getLast?_concat
  rw [Path.fileName?, hlast]
  simp [hname.ne_dot, hname.ne_dots]

/-- A path that ends in a name leads to a place that ends in it. -/
theorem exists_of_fileName? {tree : FileTree} (hname : IsEntryName name)
    (hlast : path.fileName? = some name) (h : tree.resolve path = .ok target) :
    ∃ above, target = above ++ [name] := by
  obtain ⟨front, stays, hpieces, hstays⟩ := exists_pieces_of_fileName? hname hlast
  have hwalk := walk_of_resolve h
  rw [hpieces] at hwalk
  exact exists_of_walk_append hname hstays hwalk

/-- A name behind a path leads to a place that ends in the name. -/
theorem exists_of_resolve_join {tree : FileTree} (hname : IsEntryName name)
    (h : tree.resolve (path.join name) = .ok target) : ∃ above, target = above ++ [name] := by
  obtain ⟨front, hpieces⟩ := exists_pieces_join hname path
  have hwalk := walk_of_resolve h
  rw [hpieces] at hwalk
  exact exists_of_walk_append hname (by simp) hwalk

/-- What is written under one name is not read under another. -/
theorem read_join_of_write_join {read other : String} {path' : Path} (hname : IsEntryName name)
    (hother : IsEntryName other) (hne : other ≠ name)
    (h : before.write (path.join name) text = .ok after) :
    after.read (path'.join other) = .ok read ↔ before.read (path'.join other) = .ok read := by
  obtain ⟨place, hfile, h⟩ := bind_eq_ok.mp h
  cases h
  have hfree := entry?_of_filePlace hfile
  obtain ⟨above, rfl⟩ := exists_of_resolve_join hname (resolve_of_filePlace hfile)
  refine (Touches.put hfree).read fun name' hname' hresolve => hne ?_
  obtain rfl := Set.mem_singleton_iff.mp hname'
  obtain ⟨above', heq⟩ := exists_of_resolve_join hother hresolve
  simpa using (List.append_inj_right' heq rfl).symm

/-! ### Files in the directory -/

section Join

variable {f : Option String → String} (hplace : Proper directory) (hname : IsEntryName name)

include hplace hname

/-- The file of the name gets a text, and no other is touched. -/
theorem exists_of_alter_join (h : before.alter ((pathOf directory).join name) f = .ok after) :
    ∃ old, after = before.put (directory ++ [name]) (.file (f old)) ∧
      before.resolve ((pathOf directory).join name) = .ok (directory ++ [name]) ∧
      before.entry? (directory ++ [name]) ≠ some .directory := by
  obtain ⟨place, hfile, h⟩ := bind_eq_ok.mp h
  cases h
  have hresolve := resolve_of_filePlace hfile
  obtain rfl := resolve_join hplace hname hresolve
  exact ⟨_, rfl, hresolve, entry?_of_filePlace hfile⟩

theorem touches_of_alter (h : before.alter ((pathOf directory).join name) f = .ok after) :
    Touches directory {name} before after := by
  obtain ⟨old, rfl, -, hfree⟩ := exists_of_alter_join hplace hname h
  exact .put hfree

theorem touches_of_remove (h : before.remove ((pathOf directory).join name) = .ok after) :
    Touches directory {name} before after := by
  obtain ⟨⟨place, entry⟩, hlocate, h⟩ := bind_eq_ok.mp h
  obtain ⟨hresolve, hentry⟩ := locate_eq_ok.mp hlocate
  obtain rfl := resolve_join hplace hname hresolve
  cases entry with
  | directory => cases h
  | file text =>
    cases h
    refine ⟨fun place hother => entry?_erase_of_ne (hother name rfl), fun place => ?_, rfl⟩
    by_cases heq : place = directory ++ [name]
    · rw [heq, hentry, entry?_erase_self (by simp)]
      simp
    · rw [entry?_erase_of_ne heq]

/-- A file under a name that has not been touched is read as before. -/
theorem Touches.read_join (h : Touches directory names before after) (hout : name ∉ names) :
    after.read ((pathOf directory).join name) = .ok text ↔
      before.read ((pathOf directory).join name) = .ok text := by
  refine h.read fun other hother hresolve => hout ?_
  obtain rfl : other = name := by simpa using resolve_join hplace hname hresolve
  exact hother

end Join

end StrongCyclic.FileTree
