import Mathlib.Data.List.Basic
import StrongCyclic.Disk.FileTree
import StrongCyclic.Proofs.Text.Plain

/-!
Paths of places. A place whose names are names of entries has one path from the root: the path is
cut into the names again, the path of an entry is the path of its directory with the name behind it,
and different places have different paths.
-/

namespace StrongCyclic

/-- A name that an entry of a directory can have. -/
structure IsEntryName (name : String) : Prop where
  ne_empty : name ≠ ""
  ne_dot : name ≠ "."
  ne_dots : name ≠ ".."
  not_slash : '/' ∉ name.toList

instance (name : String) : Decidable (IsEntryName name) :=
  decidable_of_iff (name ≠ "" ∧ name ≠ "." ∧ name ≠ ".." ∧ '/' ∉ name.toList)
    ⟨fun ⟨h₁, h₂, h₃, h₄⟩ => ⟨h₁, h₂, h₃, h₄⟩, fun ⟨h₁, h₂, h₃, h₄⟩ => ⟨h₁, h₂, h₃, h₄⟩⟩

/-- A place that is reached through names of entries only. -/
def Place.Proper (place : Place) : Prop :=
  ∀ name ∈ place, IsEntryName name

namespace Place

instance (place : Place) : Decidable place.Proper :=
  inferInstanceAs (Decidable (∀ name ∈ place, IsEntryName name))

theorem proper_nil : Proper [] :=
  fun _ h => absurd h List.not_mem_nil

theorem Proper.append {place : Place} {name : String} (hplace : Proper place)
    (hname : IsEntryName name) : Proper (place ++ [name]) :=
  List.forall_mem_append.mpr ⟨hplace, by simpa using hname⟩

theorem Proper.dropLast {place : Place} (hplace : Proper place) : Proper place.dropLast :=
  fun name h => hplace name ((List.dropLast_sublist place).subset h)

end Place

namespace FileTree

open Place

theorem eq_false_of_not_slash {cs : List Char} (h : '/' ∉ cs) : ∀ c ∈ cs, (c == '/') = false := by
  intro c hc
  rw [beq_eq_false_iff_ne]
  rintro rfl
  exact h hc

theorem not_slash_of_mem_pieces {path : Path} {name : String} (h : name ∈ path.pieces) :
    '/' ∉ name.toList := by
  obtain ⟨cs, hcs, rfl⟩ := List.mem_map.mp h
  rw [String.toList_ofList]
  exact fun hslash => absurd (Text.not_of_mem_splitWhere hcs _ hslash) (by decide)

/-- A name that is put behind a path is the last piece of the path. -/
theorem exists_pieces_join {name : String} (hname : IsEntryName name) (path : Path) :
    ∃ front, (path.join name).pieces = front ++ [name] := by
  have hhead : name.toList.head? ≠ some '/' := fun h => hname.not_slash (List.mem_of_head? h)
  have hslash := eq_false_of_not_slash hname.not_slash
  rw [Path.join, if_neg hhead]
  split_ifs with hclosed
  · rcases hclosed with hempty | hlast
    · exact ⟨[], by simp [Path.pieces, hempty, Text.splitWhere_of_forall hslash]⟩
    · obtain ⟨front, hfront⟩ := List.getLast?_eq_some_iff.mp hlast
      refine ⟨(Text.splitWhere (· == '/') front).map String.ofList, ?_⟩
      simp [Path.pieces, hfront, Text.splitWhere_append_cons front hslash]
  · refine ⟨path.pieces, ?_⟩
    simp [Path.pieces, Text.splitWhere_append_cons _ hslash]

/-- The names of a place are the pieces of the names with slashes between them. -/
theorem splitWhere_intercalate {place : Place} (hplace : Proper place) (hne : place ≠ []) :
    Text.splitWhere (· == '/') ("/".intercalate place).toList = place.map String.toList :=
  Text.splitWhere_intercalate rfl rfl
    (fun name hname => eq_false_of_not_slash (hplace name hname).not_slash) hne

theorem pieces_pathOf {place : Place} (hplace : Proper place) (hne : place ≠ []) :
    (pathOf place).pieces = "" :: place := by
  have htext : (pathOf place).text.toList = '/' :: ("/".intercalate place).toList := by
    simp [pathOf, Path.ofComponents]
  have hcut : Text.splitWhere (· == '/') (pathOf place).text.toList =
      [] :: place.map String.toList := by
    rw [htext, ← splitWhere_intercalate hplace hne, Text.splitWhere]
    rfl
  rw [Path.pieces, hcut, List.map_cons, List.map_map]
  simp

theorem pathOf_injective {place place' : Place} (hplace : Proper place) (hplace' : Proper place')
    (h : pathOf place = pathOf place') : place = place' := by
  have hroot : (pathOf []).pieces = ["", ""] := by decide
  by_cases hne : place = [] <;> by_cases hne' : place' = []
  · rw [hne, hne']
  · have hpieces := pieces_pathOf hplace' hne'
    rw [← h, hne, hroot] at hpieces
    obtain ⟨-, rfl⟩ := List.cons.inj hpieces
    have hname := hplace' "" (by simp)
    exact absurd rfl hname.ne_empty
  · have hpieces := pieces_pathOf hplace hne
    rw [h, hne', hroot] at hpieces
    obtain ⟨-, rfl⟩ := List.cons.inj hpieces
    have hname := hplace "" (by simp)
    exact absurd rfl hname.ne_empty
  · have hpieces := pieces_pathOf hplace hne
    rw [h, pieces_pathOf hplace' hne'] at hpieces
    exact (List.cons.inj hpieces).2.symm

theorem text_pathOf_append {place : Place} (name : String) (hne : place ≠ []) :
    (pathOf (place ++ [name])).text = (pathOf place).text ++ "/" ++ name := by
  simp [pathOf, Path.ofComponents, String.intercalate_append_of_ne_nil hne, String.append_assoc]

/-- The path of a place below the root does not end in a slash. -/
theorem getLast?_pathOf {place : Place} (hplace : Proper place) (hne : place ≠ []) :
    (pathOf place).text.toList.getLast? ≠ some '/' := by
  obtain ⟨above, name, rfl⟩ := (List.eq_nil_or_concat' place).resolve_left hne
  obtain ⟨before, htext⟩ : ∃ before, (pathOf (above ++ [name])).text = before ++ name := by
    by_cases hnil : above = []
    · exact ⟨"/", by simp [hnil, pathOf, Path.ofComponents]⟩
    · exact ⟨_, text_pathOf_append name hnil⟩
  have hname := hplace name (by simp)
  have hchars : name.toList ≠ [] := by simpa using hname.ne_empty
  rw [htext, String.toList_append, List.getLast?_append_of_ne_nil _ hchars]
  exact fun h => hname.not_slash (List.mem_of_getLast? h)

/-- The path of an entry is the path of its directory with the name behind it. -/
theorem pathOf_join {place : Place} {name : String} (hplace : Proper place)
    (hname : IsEntryName name) : (pathOf place).join name = pathOf (place ++ [name]) := by
  have hhead : name.toList.head? ≠ some '/' := fun h => hname.not_slash (List.mem_of_head? h)
  rw [Path.join, if_neg hhead]
  by_cases hnil : place = []
  · subst hnil
    simp [pathOf, Path.ofComponents]
  · have hempty : (pathOf place).text ≠ "" := by simp [pathOf, Path.ofComponents]
    rw [if_neg (not_or.mpr ⟨hempty, getLast?_pathOf hplace hnil⟩), ← text_pathOf_append name hnil]

end FileTree

end StrongCyclic
