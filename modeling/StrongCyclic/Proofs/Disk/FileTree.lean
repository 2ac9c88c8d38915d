import StrongCyclic.Proofs.Disk.Path
import StrongCyclic.Proofs.Fallible

/-!
What operations on a file tree do when they succeed. Each leads its path to a place and reads, puts
or removes the entry there. Names of entries are followed one by one, so the path of a place leads to
the place, and the path of an entry of a directory to the entry.
-/

namespace StrongCyclic.FileTree

open Place Fallible

variable {tree tree' : FileTree} {place target : Place} {path : Path} {text : String}

/-! ### The entry at a place -/

@[simp]
theorem entry?_nil (tree : FileTree) : tree.entry? [] = some .directory :=
  if_pos rfl

theorem entry?_of_ne_nil (hne : place ≠ []) : tree.entry? place = tree.entries.lookup place :=
  if_neg hne

theorem entry?_eq_lookup (tree : FileTree) (hne : place ≠ []) :
    tree.entry? place = @List.lookup _ _ instBEqOfDecidableEq place tree.entries := by
  rw [entry?_of_ne_nil hne, lawful_beq_subsingleton List.instBEq instBEqOfDecidableEq]

theorem entry?_put (tree : FileTree) (place : Place) (entry : Entry) (hne : target ≠ []) :
    FileTree.entry? (tree.put place entry) target =
      if target = place then some entry else tree.entry? target := by
  rw [entry?_eq_lookup _ hne, entry?_eq_lookup _ hne]
  exact Keyed.lookup_insert place entry tree.entries target

@[simp]
theorem entry?_put_self (tree : FileTree) (place : Place) (name : String) (entry : Entry) :
    FileTree.entry? (tree.put (place ++ [name]) entry) (place ++ [name]) = some entry := by
  rw [entry?_put _ _ _ (by simp), if_pos rfl]

theorem entry?_put_of_ne {entry : Entry} (h : target ≠ place) :
    FileTree.entry? (tree.put place entry) target = tree.entry? target := by
  by_cases hne : target = []
  · simp [hne]
  · rw [entry?_put _ _ _ hne, if_neg h]

theorem entry?_erase_of_ne (h : target ≠ place) :
    FileTree.entry? (tree.erase place) target = tree.entry? target := by
  by_cases hne : target = []
  · simp [hne]
  · rw [entry?_eq_lookup _ hne, entry?_eq_lookup _ hne]
    exact Keyed.lookup_filter_ne h tree.entries

theorem entry?_erase_self (hne : place ≠ []) :
    FileTree.entry? (tree.erase place) place = none := by
  rw [entry?_of_ne_nil hne, List.lookup_eq_none_iff, erase]
  intro entry hentry
  have hother : entry.1 ≠ place := of_decide_eq_true (List.mem_filter.mp hentry).2
  exact bne_iff_ne.mpr hother.symm

theorem put_put (tree : FileTree) (place : Place) (old new : Entry) :
    FileTree.put (tree.put place old) place new = tree.put place new :=
  congrArg (FileTree.mk · tree.workingDirectory) (Keyed.insert_insert place old new tree.entries)

/-- The text of a file; what is no file counts as an empty one. -/
def textOf : Option Entry → String
  | some (.file text) => text
  | _ => ""

/-! ### The names in a directory -/

theorem mem_namesIn {name : String} :
    name ∈ tree.namesIn place ↔ ∃ entry, (place ++ [name], entry) ∈ tree.entries := by
  rw [namesIn, List.mem_filterMap]
  constructor
  · rintro ⟨⟨p, entry⟩, hmem, hname⟩
    obtain ⟨hplace, hname⟩ : p.dropLast = place ∧ p.getLast? = some name := by simpa using hname
    obtain ⟨above, rfl⟩ := List.getLast?_eq_some_iff.mp hname
    rw [List.dropLast_concat] at hplace
    exact ⟨entry, hplace ▸ hmem⟩
  · rintro ⟨entry, hmem⟩
    exact ⟨_, hmem, by simp⟩

theorem mem_namesIn_of_entry {name : String} {entry : Entry}
    (h : tree.entry? (place ++ [name]) = some entry) : name ∈ tree.namesIn place := by
  rw [entry?_of_ne_nil (by simp)] at h
  obtain ⟨before, after, hentries, -⟩ := List.lookup_eq_some_iff.mp h
  exact mem_namesIn.mpr ⟨entry, by simp [hentries]⟩

/-- An entry that is put adds at most its own name, behind the names that are there. -/
theorem exists_namesIn_put (tree : FileTree) (target place : Place) (entry : Entry) :
    ∃ more, (tree.put target entry).namesIn place = tree.namesIn place ++ more ∧
      ∀ name ∈ more, target = place ++ [name] := by
  have hkeys : ∀ tree : FileTree, tree.namesIn place = (tree.entries.map Prod.fst).filterMap
      fun p => if p.dropLast = place then p.getLast? else none := fun tree => by
    rw [namesIn, List.filterMap_map]
    rfl
  rw [hkeys, hkeys, put, Keyed.insert, Keyed.keys_alter]
  split_ifs
  · exact ⟨[], (List.append_nil _).symm, by simp⟩
  · refine ⟨_, List.filterMap_append, fun name hname => ?_⟩
    obtain ⟨hplace, hname⟩ : target.dropLast = place ∧ target.getLast? = some name := by
      simpa using hname
    obtain ⟨above, rfl⟩ := List.getLast?_eq_some_iff.mp hname
    rw [← hplace, List.dropLast_concat]

theorem mem_namesIn_put {name : String} {entry : Entry}
    (h : name ∈ (tree.put target entry).namesIn place) :
    name ∈ tree.namesIn place ∨ target = place ++ [name] := by
  obtain ⟨more, hnames, hmore⟩ := exists_namesIn_put tree target place entry
  rw [hnames] at h
  exact (List.mem_append.mp h).imp_right (hmore name)

theorem mem_namesIn_put_of_mem {name : String} {entry : Entry} (h : name ∈ tree.namesIn place) :
    name ∈ (tree.put target entry).namesIn place := by
  obtain ⟨more, hnames, -⟩ := exists_namesIn_put tree target place entry
  rw [hnames]
  exact List.mem_append_left _ h

/-- The names in a directory after an entry has been put there. -/
theorem mem_namesIn_put_iff {name other : String} {entry : Entry} :
    name ∈ (tree.put (place ++ [other]) entry).namesIn place ↔
      name ∈ tree.namesIn place ∨ name = other := by
  constructor
  · exact fun h => (mem_namesIn_put h).imp_right fun heq => by simpa using heq.symm
  · rintro (h | rfl)
    · exact mem_namesIn_put_of_mem h
    · exact mem_namesIn_of_entry (entry?_put_self _ _ _ _)

theorem mem_namesIn_erase {name : String} :
    name ∈ (tree.erase target).namesIn place ↔
      name ∈ tree.namesIn place ∧ place ++ [name] ≠ target := by
  simp only [mem_namesIn, erase, List.mem_filter, decide_eq_true_eq]
  exact exists_and_right

/-! ### Following names -/

/-- Where a name leads from a directory. -/
def follow (place : Place) (name : String) : Place :=
  if name = "" ∨ name = "." then place
  else if name = ".." then place.dropLast
  else place ++ [name]

theorem follow_of_isEntryName {name : String} (hname : IsEntryName name) :
    follow place name = place ++ [name] := by
  rw [follow, if_neg (not_or.mpr ⟨hname.ne_empty, hname.ne_dot⟩), if_neg hname.ne_dots]

theorem proper_follow {name : String} (hplace : Proper place) (hname : '/' ∉ name.toList) :
    Proper (follow place name) := by
  rw [follow]
  split_ifs with hstay hup
  · exact hplace
  · exact hplace.dropLast
  · obtain ⟨hempty, hdot⟩ := not_or.mp hstay
    exact hplace.append ⟨hempty, hdot, hup, hname⟩

theorem walk_cons_eq_ok {name : String} {names : List String} :
    walk tree place (name :: names) = .ok target ↔
      tree.entry? place = some .directory ∧ walk tree (follow place name) names = .ok target := by
  rw [walk, follow]
  split
  · next hdirectory => split_ifs <;> simp [hdirectory]
  · next hfile => simp [hfile]
  · next hfree => simp [hfree]

theorem walk_of_names {names : List String} (hnames : ∀ name ∈ names, IsEntryName name)
    (h : walk tree place names = .ok target) : target = place ++ names := by
  induction names generalizing place with
  | nil =>
    cases h
    simp
  | cons name names ih =>
    obtain ⟨hname, hrest⟩ := List.forall_mem_cons.mp hnames
    obtain ⟨-, h⟩ := walk_cons_eq_ok.mp h
    rw [follow_of_isEntryName hname] at h
    rw [ih hrest h, List.append_assoc, List.singleton_append]

theorem proper_of_walk {names : List String} (hplace : Proper place)
    (hnames : ∀ name ∈ names, '/' ∉ name.toList) (h : walk tree place names = .ok target) :
    Proper target := by
  induction names generalizing place with
  | nil =>
    cases h
    exact hplace
  | cons name names ih =>
    obtain ⟨hname, hrest⟩ := List.forall_mem_cons.mp hnames
    exact ih (proper_follow hplace hname) hrest (walk_cons_eq_ok.mp h).2

theorem walk_stays {names : List String} (hnames : ∀ name ∈ names, name = "" ∨ name = ".")
    (h : walk tree place names = .ok target) : target = place := by
  induction names with
  | nil =>
    cases h
    rfl
  | cons name names ih =>
    obtain ⟨hname, hrest⟩ := List.forall_mem_cons.mp hnames
    obtain ⟨-, h⟩ := walk_cons_eq_ok.mp h
    rw [follow, if_pos hname] at h
    exact ih hrest h

/-- Where names lead whose last one, but for those that stay, is the name of an entry. -/
theorem exists_of_walk_append {names stays : List String} {last : String} (hlast : IsEntryName last)
    (hstays : ∀ name ∈ stays, name = "" ∨ name = ".")
    (h : walk tree place (names ++ last :: stays) = .ok target) :
    ∃ above, target = above ++ [last] := by
  induction names generalizing place with
  | nil =>
    obtain ⟨-, h⟩ := walk_cons_eq_ok.mp h
    rw [follow_of_isEntryName hlast] at h
    exact ⟨place, walk_stays hstays h⟩
  | cons name names ih => exact ih (walk_cons_eq_ok.mp h).2

/-! ### Paths -/

theorem walk_of_resolve (h : tree.resolve path = .ok target) :
    walk tree (if path.isAbsolute then [] else tree.workingDirectory) path.pieces = .ok target := by
  rw [resolve] at h
  split at h
  · cases h
  · split at h
    · cases h
    · exact h

theorem proper_of_resolve (htree : Proper tree.workingDirectory)
    (h : tree.resolve path = .ok target) : Proper target := by
  refine proper_of_walk ?_ (fun _ => not_slash_of_mem_pieces) (walk_of_resolve h)
  split_ifs
  · exact proper_nil
  · exact htree

theorem resolve_pathOf (hplace : Proper place) (h : tree.resolve (pathOf place) = .ok target) :
    target = place := by
  have hwalk := walk_of_resolve h
  have habsolute : (pathOf place).isAbsolute = true := by
    simp [Path.isAbsolute, pathOf, Path.ofComponents]
  rw [habsolute, if_pos rfl] at hwalk
  by_cases hnil : place = []
  · subst hnil
    have hpieces : (pathOf []).pieces = ["", ""] := by decide
    rw [hpieces] at hwalk
    simp only [walk, entry?_nil, true_or, if_true] at hwalk
    cases hwalk
    rfl
  · rw [pieces_pathOf hplace hnil, walk, entry?_nil] at hwalk
    simp only [true_or, if_true] at hwalk
    simpa using walk_of_names hplace hwalk

theorem resolve_join {name : String} (hplace : Proper place) (hname : IsEntryName name)
    (h : tree.resolve ((pathOf place).join name) = .ok target) : target = place ++ [name] :=
  resolve_pathOf (hplace.append hname) (pathOf_join hplace hname ▸ h)

/-- A name behind names that lead to a directory leads to an entry of the directory. -/
theorem walk_append {start : Place} {names : List String} {name : String}
    (hname : IsEntryName name) (h : walk tree start names = .ok place)
    (hdirectory : tree.entry? place = some .directory) :
    walk tree start (names ++ [name]) = .ok (place ++ [name]) := by
  induction names generalizing start with
  | nil =>
    obtain rfl := Except.ok.inj h
    refine walk_cons_eq_ok.mpr ⟨hdirectory, ?_⟩
    rw [follow_of_isEntryName hname, walk]
  | cons other names ih =>
    obtain ⟨hother, h⟩ := walk_cons_eq_ok.mp h
    exact walk_cons_eq_ok.mpr ⟨hother, ih h⟩

/-- The path of an entry of a directory, whether or not it is there yet. -/
theorem resolve_join_of_directory {name : String} (hplace : Proper place)
    (hname : IsEntryName name) (hzero : ∀ c ∈ name.toList, c.toNat ≠ 0)
    (h : tree.resolve (pathOf place) = .ok place)
    (hdirectory : tree.entry? place = some .directory) :
    tree.resolve ((pathOf place).join name) = .ok (place ++ [name]) := by
  have habsolute : ∀ place, (pathOf place).isAbsolute = true := fun place => by
    simp [Path.isAbsolute, pathOf, Path.ofComponents]
  have hwalk := walk_of_resolve h
  rw [habsolute, if_pos rfl] at hwalk
  have hpieces : walk tree [] ("" :: (place ++ [name])) = .ok (place ++ [name]) := by
    rw [walk, entry?_nil]
    dsimp only
    rw [if_pos (.inl rfl)]
    by_cases hnil : place = []
    · subst hnil
      exact walk_append hname rfl hdirectory
    · rw [pieces_pathOf hplace hnil, walk, entry?_nil] at hwalk
      dsimp only at hwalk
      rw [if_pos (.inl rfl)] at hwalk
      exact walk_append hname hwalk hdirectory
  have htext : (pathOf (place ++ [name])).text.toList.any (·.toNat == 0) = false := by
    have hplace_zero : (pathOf place).text.toList.any (·.toNat == 0) = false := by
      rw [resolve] at h
      split_ifs at h with _ hzero <;> simpa using hzero
    have hname_zero : name.toList.any (·.toNat == 0) = false := by simpa using hzero
    by_cases hnil : place = []
    · simp [hnil, pathOf, Path.ofComponents, hname_zero]
    · rw [text_pathOf_append name hnil, String.toList_append, String.toList_append,
        List.any_append, List.any_append, hplace_zero, hname_zero]
      rfl
  rw [pathOf_join hplace hname, resolve, habsolute, if_pos rfl,
    pieces_pathOf (hplace.append hname) (by simp), hpieces, htext]
  simp [pathOf, Path.ofComponents]

/-! ### Paths after a file has been written -/

/-- A file that takes the place of no directory is in the way of no path. -/
theorem walk_put {start : Place} {names : List String} (hfree : tree.entry? place ≠ some .directory)
    (h : walk tree start names = .ok target) :
    walk (tree.put place (.file text)) start names = .ok target := by
  induction names generalizing start with
  | nil => exact h
  | cons name names ih =>
    obtain ⟨hdirectory, h⟩ := walk_cons_eq_ok.mp h
    have hne : start ≠ place := by
      rintro rfl
      exact hfree hdirectory
    exact walk_cons_eq_ok.mpr ⟨(entry?_put_of_ne hne).trans hdirectory, ih h⟩

theorem resolve_put (hfree : tree.entry? place ≠ some .directory)
    (h : tree.resolve path = .ok target) :
    FileTree.resolve (tree.put place (.file text)) path = .ok target := by
  rw [resolve] at h ⊢
  split_ifs at h ⊢
  · exact walk_put hfree h
  · exact walk_put hfree h

/-! ### Operations -/

theorem locate_eq_ok {entry : Entry} :
    tree.locate path = .ok (place, entry) ↔
      tree.resolve path = .ok place ∧ tree.entry? place = some entry := by
  simp only [locate, bind_eq_ok]
  constructor
  · rintro ⟨place', hresolve, h⟩
    split at h
    · next hentry =>
      cases h
      exact ⟨hresolve, hentry⟩
    · cases h
  · rintro ⟨hresolve, hentry⟩
    refine ⟨place, hresolve, ?_⟩
    rw [hentry]
    rfl

theorem read_eq_ok :
    tree.read path = .ok text ↔
      ∃ place, tree.resolve path = .ok place ∧ tree.entry? place = some (.file text) := by
  simp only [read, bind_eq_ok]
  constructor
  · rintro ⟨⟨place, entry⟩, hlocate, h⟩
    obtain ⟨hresolve, hentry⟩ := locate_eq_ok.mp hlocate
    cases entry with
    | file text' =>
      cases h
      exact ⟨place, hresolve, hentry⟩
    | directory => cases h
  · rintro ⟨place, hresolve, hentry⟩
    exact ⟨(place, .file text), locate_eq_ok.mpr ⟨hresolve, hentry⟩, rfl⟩

theorem entry?_of_read_join {name : String} (hplace : Proper place) (hname : IsEntryName name)
    (h : tree.read ((pathOf place).join name) = .ok text) :
    tree.entry? (place ++ [name]) = some (.file text) := by
  obtain ⟨target, hresolve, hentry⟩ := read_eq_ok.mp h
  exact resolve_join hplace hname hresolve ▸ hentry

theorem exists_of_list {names : List String} (h : tree.list path = .ok names) :
    ∃ place, tree.resolve path = .ok place ∧ tree.namesIn place = names := by
  obtain ⟨⟨place, entry⟩, hlocate, h⟩ := bind_eq_ok.mp h
  obtain ⟨hresolve, -⟩ := locate_eq_ok.mp hlocate
  cases entry with
  | directory =>
    cases h
    exact ⟨place, hresolve, rfl⟩
  | file text => cases h

theorem exists_of_remove (h : tree.remove path = .ok tree') :
    ∃ place, tree.resolve path = .ok place ∧ tree.erase place = tree' := by
  obtain ⟨⟨place, entry⟩, hlocate, h⟩ := bind_eq_ok.mp h
  obtain ⟨hresolve, -⟩ := locate_eq_ok.mp hlocate
  cases entry with
  | file text =>
    cases h
    exact ⟨place, hresolve, rfl⟩
  | directory => cases h

theorem exists_of_canonical {path' : Path} (h : tree.canonical path = .ok path') :
    ∃ place entry, tree.resolve path = .ok place ∧ tree.entry? place = some entry ∧
      pathOf place = path' := by
  obtain ⟨⟨place, entry⟩, hlocate, h⟩ := bind_eq_ok.mp h
  cases h
  obtain ⟨hresolve, hentry⟩ := locate_eq_ok.mp hlocate
  exact ⟨place, entry, hresolve, hentry, rfl⟩

theorem resolve_of_filePlace (h : tree.filePlace path = .ok place) :
    tree.resolve path = .ok place := by
  rw [filePlace] at h
  split at h
  · split_ifs at h
  · cases h
  · next place' hresolve =>
    split at h
    · cases h
    · cases h
      exact hresolve

theorem entry?_of_filePlace (h : tree.filePlace path = .ok place) :
    tree.entry? place ≠ some .directory := by
  rw [filePlace] at h
  split at h
  · split_ifs at h
  · cases h
  · split at h
    · cases h
    · next hfree =>
      cases h
      exact hfree

theorem exists_of_write (h : tree.write path text = .ok tree') :
    ∃ place, tree.resolve path = .ok place ∧ tree.put place (.file text) = tree' := by
  obtain ⟨place, hplace, h⟩ := bind_eq_ok.mp h
  cases h
  exact ⟨place, resolve_of_filePlace hplace, rfl⟩

theorem exists_of_append (h : tree.append path text = .ok tree') :
    ∃ place old, tree.resolve path = .ok place ∧ tree.put place (.file (old ++ text)) = tree' := by
  obtain ⟨place, hplace, h⟩ := bind_eq_ok.mp h
  cases h
  exact ⟨place, _, resolve_of_filePlace hplace, rfl⟩

/-- A path that leads to no directory can be written. -/
theorem alter_of_resolve {f : Option String → String} (hresolve : tree.resolve path = .ok place)
    (hfree : tree.entry? place ≠ some .directory) :
    tree.alter path f = .ok (tree.put place (.file (f (match tree.entry? place with
      | some (.file text) => some text
      | _ => none)))) := by
  have hplace : tree.filePlace path = .ok place := by
    rw [filePlace, hresolve]
    dsimp only
    split
    · next hdirectory => exact absurd hdirectory hfree
    · rfl
  rw [alter, hplace]
  rfl

theorem write_of_resolve (hresolve : tree.resolve path = .ok place)
    (hfree : tree.entry? place ≠ some .directory) :
    tree.write path text = .ok (tree.put place (.file text)) :=
  alter_of_resolve hresolve hfree

theorem append_of_resolve (hresolve : tree.resolve path = .ok place)
    (hfree : tree.entry? place ≠ some .directory) :
    tree.append path text = .ok (tree.put place (.file (textOf (tree.entry? place) ++ text))) := by
  rw [append, alter_of_resolve hresolve hfree, textOf.eq_def]
  split <;> simp_all

/-- A directory cannot be written. -/
theorem alter_of_directory {f : Option String → String} (hresolve : tree.resolve path = .ok place)
    (hdirectory : tree.entry? place = some .directory) :
    tree.alter path f = .error .isADirectory := by
  rw [alter, filePlace, hresolve]
  simp only [hdirectory]
  rfl

theorem eq_put_of_write_join {name : String} (hplace : Proper place) (hname : IsEntryName name)
    (h : tree.write ((pathOf place).join name) text = .ok tree') :
    tree' = tree.put (place ++ [name]) (.file text) := by
  obtain ⟨target, hresolve, rfl⟩ := exists_of_write h
  rw [resolve_join hplace hname hresolve]

theorem exists_of_append_join {name : String} (hplace : Proper place) (hname : IsEntryName name)
    (h : tree.append ((pathOf place).join name) text = .ok tree') :
    ∃ old, tree' = tree.put (place ++ [name]) (.file (old ++ text)) := by
  obtain ⟨target, old, hresolve, rfl⟩ := exists_of_append h
  exact ⟨old, by rw [resolve_join hplace hname hresolve]⟩

theorem exists_of_copy {source : Path} (h : tree.copy source path = .ok tree') :
    ∃ text, tree.read source = .ok text ∧ tree.write path text = .ok tree' := by
  obtain ⟨⟨place, entry⟩, hlocate, h⟩ := bind_eq_ok.mp h
  cases entry with
  | file text => exact ⟨text, read_eq_ok.mpr ⟨place, locate_eq_ok.mp hlocate⟩, h⟩
  | directory => cases h

/-! ### Creating directories -/

theorem workingDirectory_of_createDirectory (h : tree.createDirectory path = .ok tree') :
    tree'.workingDirectory = tree.workingDirectory := by
  rw [createDirectory] at h
  split at h
  · cases h
  · split_ifs at h
    cases h
    rfl

theorem workingDirectory_of_createWithin {depth : Nat}
    (h : createWithin depth tree path = .ok tree') :
    tree'.workingDirectory = tree.workingDirectory := by
  induction depth generalizing tree path tree' with
  | zero => cases h
  | succ depth ih =>
    rw [createWithin] at h
    split at h
    · cases h
      rfl
    · split at h
      · next hcreate =>
        cases h
        exact workingDirectory_of_createDirectory hcreate
      · split at h
        · cases h
        · obtain ⟨between, hparent, h⟩ := bind_eq_ok.mp h
          split at h
          · next hcreate =>
            cases h
            exact (workingDirectory_of_createDirectory hcreate).trans (ih hparent)
          · split_ifs at h
            cases h
            exact ih hparent
      · split_ifs at h
        cases h
        rfl

end StrongCyclic.FileTree
