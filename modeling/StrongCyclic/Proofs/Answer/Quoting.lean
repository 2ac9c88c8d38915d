import Mathlib.Algebra.Group.Nat.Even
import Mathlib.Data.List.Forall2
import StrongCyclic.Answer.Output
import StrongCyclic.Proofs.Answer.Grammar

/-!
Where a line of atoms is cut. The splitter takes every quote to open or to close a string, the reader of
terms not if a backslash stands before it. A text stays in one piece just if each blank in it has a quote
open before it (`Shielded`), and it is cut off behind just if no quote is open at its end
(`quotedAfter`). The splitter sees the text of an atom as the characters of its strings, with a quote
open before them (`Mirrors`), so a line falls into its atoms just if the quotes inside of the strings
come in pairs wherever a blank or the next atom follows.
-/

namespace StrongCyclic

open Text (isBlank)

namespace Answer

/-! ### What the splitter sees -/

/-- Whether a quote is open behind the text, if every quote opens or closes. -/
def quotedAfter : Bool → List Char → Bool
  | quoted, [] => quoted
  | quoted, c :: cs => quotedAfter (if c = '"' then !quoted else quoted) cs

/-- Each blank of the text has a quote open before it. -/
def Shielded : Bool → List Char → Prop
  | _, [] => True
  | quoted, c :: cs =>
    (isBlank c = true → quoted = true) ∧ Shielded (if c = '"' then !quoted else quoted) cs

instance decidableShielded : (quoted : Bool) → (cs : List Char) → Decidable (Shielded quoted cs)
  | _, [] => .isTrue trivial
  | quoted, c :: cs =>
    have := decidableShielded (if c = '"' then !quoted else quoted) cs
    inferInstanceAs (Decidable (_ ∧ _))

variable {quoted : Bool} {c : Char} {cs ds rest : List Char}

@[simp]
theorem quotedAfter_nil : quotedAfter quoted [] = quoted :=
  rfl

@[simp]
theorem quotedAfter_quote : quotedAfter quoted ('"' :: cs) = quotedAfter (!quoted) cs :=
  rfl

theorem quotedAfter_cons (h : c ≠ '"') : quotedAfter quoted (c :: cs) = quotedAfter quoted cs := by
  rw [quotedAfter, if_neg h]

@[simp]
theorem quotedAfter_append :
    quotedAfter quoted (cs ++ ds) = quotedAfter (quotedAfter quoted cs) ds := by
  induction cs generalizing quoted with
  | nil => rfl
  | cons c cs ih => exact ih

theorem quotedAfter_not : quotedAfter (!quoted) cs = !quotedAfter quoted cs := by
  induction cs generalizing quoted with
  | nil => rfl
  | cons c cs ih =>
    by_cases h : c = '"'
    · subst h
      exact ih
    · rw [quotedAfter_cons h, quotedAfter_cons h, ih]

theorem quotedAfter_eq_self_iff : quotedAfter quoted cs = quoted ↔ Even (cs.count '"') := by
  induction cs generalizing quoted with
  | nil => simp
  | cons c cs ih =>
    by_cases h : c = '"'
    · subst h
      rw [quotedAfter_quote, quotedAfter_not, List.count_cons_self, Nat.even_add_one, ← ih]
      exact Bool.not_eq_eq_eq_not.trans Bool.eq_not
    · rw [quotedAfter_cons h, List.count_cons_of_ne h, ih]

@[simp]
theorem shielded_nil : Shielded quoted [] :=
  trivial

@[simp]
theorem shielded_quote : Shielded quoted ('"' :: cs) ↔ Shielded (!quoted) cs :=
  and_iff_right nofun

theorem shielded_cons (h : c ≠ '"') :
    Shielded quoted (c :: cs) ↔ (isBlank c = true → quoted = true) ∧ Shielded quoted cs := by
  rw [Shielded, if_neg h]

@[simp]
theorem shielded_append :
    Shielded quoted (cs ++ ds) ↔ Shielded quoted cs ∧ Shielded (quotedAfter quoted cs) ds := by
  induction cs generalizing quoted with
  | nil => exact (and_iff_right trivial).symm
  | cons c cs ih => rw [List.cons_append, Shielded, Shielded, ih, and_assoc, quotedAfter]

theorem shielded_iff_forall : Shielded quoted cs ↔
    ∀ before c after, cs = before ++ c :: after → isBlank c = true →
      quotedAfter quoted before = true := by
  constructor
  · rintro h before c after rfl hc
    exact (shielded_append.mp h).2.1 hc
  · intro h
    induction cs generalizing quoted with
    | nil => trivial
    | cons c cs ih =>
      refine ⟨h [] c cs rfl, ih fun before d after hcs => ?_⟩
      exact h (c :: before) d after (congrArg (c :: ·) hcs)

/-! ### Where a line is cut -/

theorem splitUnquoted_ne_nil (quoted : Bool) (cs : List Char) : splitUnquoted quoted cs ≠ [] := by
  cases cs with
  | nil => simp [splitUnquoted]
  | cons c cs =>
    rw [splitUnquoted]
    split
    · simp
    · split <;> simp

theorem splitUnquoted_blank (h : isBlank c = true) :
    splitUnquoted false (c :: cs) = [] :: splitUnquoted false cs := by
  simp [splitUnquoted, h]

theorem splitUnquoted_cons (h : isBlank c = true → quoted = true) :
    splitUnquoted quoted (c :: cs) =
      (splitUnquoted (if c = '"' then !quoted else quoted) cs).modifyHead (c :: ·) := by
  have hkeep : (isBlank c && !quoted) = false := by
    cases hblank : isBlank c with
    | false => rfl
    | true => simp [h hblank]
  rw [splitUnquoted, hkeep]
  cases hpieces : splitUnquoted (if c = '"' then !quoted else quoted) cs with
  | nil => exact absurd hpieces (splitUnquoted_ne_nil _ _)
  | cons piece pieces => simp

/-- A shielded text stays together with what follows it. -/
theorem Shielded.splitUnquoted_append (h : Shielded quoted cs) (rest : List Char) :
    splitUnquoted quoted (cs ++ rest) =
      (splitUnquoted (quotedAfter quoted cs) rest).modifyHead (cs ++ ·) := by
  induction cs generalizing quoted with
  | nil =>
    obtain ⟨piece, pieces, hpieces⟩ := List.exists_cons_of_ne_nil (splitUnquoted_ne_nil quoted rest)
    simp [hpieces]
  | cons c cs ih =>
    rw [List.cons_append, splitUnquoted_cons h.1, ih h.2, List.modifyHead_modifyHead]
    rfl

/-- A text that is not cut is shielded. -/
theorem shielded_of_prefix {piece : List Char} {pieces : List (List Char)}
    (h : splitUnquoted quoted (cs ++ rest) = piece :: pieces) (hcs : cs <+: piece) :
    Shielded quoted cs := by
  induction cs generalizing quoted piece with
  | nil => trivial
  | cons c cs ih =>
    have hc : isBlank c = true → quoted = true := by
      intro hblank
      cases hquoted : quoted with
      | true => rfl
      | false =>
        rw [hquoted, List.cons_append, splitUnquoted_blank hblank] at h
        cases h
        exact absurd hcs (by simp)
    rw [List.cons_append, splitUnquoted_cons hc] at h
    obtain ⟨piece', pieces', hpieces⟩ := List.exists_cons_of_ne_nil
      (splitUnquoted_ne_nil (if c = '"' then !quoted else quoted) (cs ++ rest))
    rw [hpieces] at h
    cases h
    exact ⟨hc, ih hpieces (List.cons_prefix_cons.mp hcs).2⟩

/-- The pieces with something in them. -/
def cut (cs : List Char) : List (List Char) :=
  (splitUnquoted false cs).filter (· ≠ [])

theorem splitAtoms_eq_iff {line : String} {texts : List String} :
    splitAtoms line = texts ↔ cut line.toList = texts.map String.toList := by
  have hmap : splitAtoms line = (cut line.toList).map String.ofList := rfl
  rw [hmap]
  constructor
  · rintro rfl
    simp
  · intro h
    simp [h]

theorem splitUnquoted_of_cut {piece : List Char} {more : List (List Char)}
    (hc : isBlank c = false) (h : cut (c :: cs) = piece :: more) :
    ∃ pieces, splitUnquoted false (c :: cs) = piece :: pieces ∧
      pieces.filter (· ≠ []) = more := by
  rw [cut, splitUnquoted_cons fun hblank => absurd hblank (by simp [hc])] at h
  rw [splitUnquoted_cons fun hblank => absurd hblank (by simp [hc])]
  obtain ⟨tail, pieces, hpieces⟩ := List.exists_cons_of_ne_nil
    (splitUnquoted_ne_nil (if c = '"' then !false else false) cs)
  rw [hpieces, List.modifyHead_cons, List.filter_cons_of_pos (by simp)] at h
  obtain ⟨rfl, hmore⟩ := List.cons.inj h
  exact ⟨pieces, by rw [hpieces, List.modifyHead_cons], hmore⟩

/-- A text at the end of a line is a piece of its own just if it is shielded. -/
theorem cut_eq_singleton_iff (hc : isBlank c = false) :
    cut (c :: cs) = [c :: cs] ↔ Shielded false (c :: cs) := by
  constructor
  · intro h
    obtain ⟨pieces, hpieces, -⟩ := splitUnquoted_of_cut hc h
    rw [← List.append_nil (c :: cs)] at hpieces
    exact shielded_of_prefix hpieces (by simp)
  · intro h
    have hsplit := h.splitUnquoted_append []
    rw [List.append_nil] at hsplit
    rw [cut, hsplit]
    simp [splitUnquoted]

/-- A text in front of a blank is a piece of its own just if it is shielded and leaves no quote open. -/
theorem cut_append_blank_iff {b : Char} {more : List (List Char)} (hc : isBlank c = false)
    (hb : isBlank b = true) : cut (c :: cs ++ b :: rest) = (c :: cs) :: more ↔
      Shielded false (c :: cs) ∧ quotedAfter false (c :: cs) = false ∧ cut rest = more := by
  constructor
  · intro h
    obtain ⟨pieces, hpieces, hmore⟩ := splitUnquoted_of_cut hc h
    change splitUnquoted false (c :: cs ++ b :: rest) = _ at hpieces
    have hshielded := shielded_of_prefix hpieces List.prefix_rfl
    rw [hshielded.splitUnquoted_append] at hpieces
    cases hopen : quotedAfter false (c :: cs) with
    | false =>
      rw [hopen, splitUnquoted_blank hb, List.modifyHead_cons] at hpieces
      obtain ⟨-, rfl⟩ := List.cons.inj hpieces
      exact ⟨hshielded, rfl, hmore⟩
    | true =>
      -- The blank is kept, so the piece is longer than the text.
      rw [hopen, splitUnquoted_cons fun _ => rfl] at hpieces
      obtain ⟨piece', pieces', hpieces'⟩ := List.exists_cons_of_ne_nil
        (splitUnquoted_ne_nil (if b = '"' then !true else true) rest)
      rw [hpieces', List.modifyHead_cons, List.modifyHead_cons] at hpieces
      exact absurd (List.cons.inj hpieces).1 (by simp)
  · rintro ⟨hshielded, hclosed, rfl⟩
    rw [cut, hshielded.splitUnquoted_append, hclosed, splitUnquoted_blank hb]
    simp [cut]

/-- A line of texts falls into them just if each of them is shielded and each but the last leaves no
quote open. -/
theorem splitAtoms_intercalate_iff {texts : List String}
    (h : ∀ t ∈ texts, ∃ c cs, t.toList = c :: cs ∧ isBlank c = false) :
    splitAtoms (" ".intercalate texts) = texts ↔
      (∀ t ∈ texts, Shielded false t.toList) ∧
        ∀ t ∈ texts.dropLast, quotedAfter false t.toList = false := by
  rw [splitAtoms_eq_iff]
  induction texts with
  | nil => simp [cut, splitUnquoted]
  | cons t texts ih =>
    obtain ⟨⟨c, cs, hchars, hc⟩, htexts⟩ := List.forall_mem_cons.mp h
    by_cases hnil : texts = []
    · rw [hnil, String.intercalate_singleton, List.map_singleton, hchars, cut_eq_singleton_iff hc]
      simp [hchars]
    · have hline : (" ".intercalate (t :: texts)).toList =
          c :: cs ++ ' ' :: (" ".intercalate texts).toList := by
        rw [String.intercalate_cons_of_ne_nil hnil, String.toList_append, String.toList_append,
          hchars, List.append_assoc]
        rfl
      rw [hline, List.map_cons, hchars, cut_append_blank_iff hc (by decide), ih htexts,
        List.dropLast_cons_of_ne_nil hnil, List.forall_mem_cons, List.forall_mem_cons, hchars]
      exact ⟨fun ⟨ht, hclosed, hts, hothers⟩ => ⟨⟨ht, hts⟩, hclosed, hothers⟩,
        fun ⟨⟨ht, hts⟩, hclosed, hothers⟩ => ⟨ht, hclosed, hts, hothers⟩⟩

end Answer

/-! ### The characters of the strings -/

namespace Term

mutual

/-- The characters of the strings in a term, one string after the other. -/
def quoted : Term → List Char
  | .str text => text.toList
  | .func _ args => quotedList args
  | .int _ => []
  | .sym _ => []

/-- The characters of the strings in terms. -/
def quotedList : List Term → List Char
  | [] => []
  | t :: ts => quoted t ++ quotedList ts

end

end Term

/-- The characters of the strings in an atom. -/
def Atom.quoted (a : Atom) : List Char :=
  Term.quotedList a.args

namespace Answer

/-- The splitter sees the first text as it sees the second one with a quote before it. -/
structure Mirrors (cs content : List Char) : Prop where
  shielded_iff : ∀ quoted, Shielded quoted cs ↔ Shielded (!quoted) content
  quotedAfter_eq : ∀ quoted, quotedAfter quoted cs = quotedAfter quoted content

theorem Mirrors.append {cs ds content content' : List Char} (h : Mirrors cs content)
    (h' : Mirrors ds content') : Mirrors (cs ++ ds) (content ++ content') := by
  constructor
  · intro quoted
    rw [shielded_append, shielded_append, h.shielded_iff, h'.shielded_iff, h.quotedAfter_eq,
      quotedAfter_not]
  · intro quoted
    rw [quotedAfter_append, quotedAfter_append, h.quotedAfter_eq, h'.quotedAfter_eq]

/-- A text without blanks and quotes is as good as none. -/
theorem mirrors_nil {cs : List Char} (h : ∀ c ∈ cs, isBlank c = false ∧ c ≠ '"') :
    Mirrors cs [] := by
  induction cs with
  | nil => exact ⟨fun _ => Iff.rfl, fun _ => rfl⟩
  | cons c cs ih =>
    obtain ⟨⟨hblank, hquote⟩, hcs⟩ := List.forall_mem_cons.mp h
    constructor
    · intro quoted
      rw [shielded_cons hquote, (ih hcs).shielded_iff, hblank]
      exact and_iff_right nofun
    · intro quoted
      rw [quotedAfter_cons hquote, (ih hcs).quotedAfter_eq]

theorem mirrors_singleton {c : Char} (h : isBlank c = false ∧ c ≠ '"') : Mirrors [c] [] :=
  mirrors_nil (List.forall_mem_singleton.mpr h)

theorem mirrors_bracket_left : Mirrors ['('] [] :=
  mirrors_singleton (by decide)

theorem mirrors_bracket_right : Mirrors [')'] [] :=
  mirrors_singleton (by decide)

theorem mirrors_comma : Mirrors [','] [] :=
  mirrors_singleton (by decide)

end Answer

namespace Term

open Answer (Mirrors Shielded quotedAfter mirrors_nil mirrors_singleton mirrors_bracket_left
  mirrors_bracket_right mirrors_comma quotedAfter_cons quotedAfter_not shielded_cons)

variable {cs : List Char} {t : Term} {args : List Term}

/-- A backslash is neither blank nor a quote, so between quotes the splitter sees the text that is
meant. -/
theorem DerivesQuoted.shielded_iff {text : List Char} (h : DerivesQuoted cs text) (quoted : Bool) :
    (Shielded quoted cs ↔ Shielded quoted text) ∧ quotedAfter quoted cs = quotedAfter quoted text := by
  induction h generalizing quoted with
  | nil => exact ⟨Iff.rfl, rfl⟩
  | char _ _ _ ih => exact ⟨and_congr_right fun _ => (ih _).1, (ih _).2⟩
  | escaped _ ih =>
    rw [shielded_cons (by decide), quotedAfter_cons (by decide)]
    exact ⟨(and_iff_right nofun).trans (and_congr_right fun _ => (ih _).1), (ih _).2⟩

theorem DerivesQuoted.mirrors {text : List Char} (h : DerivesQuoted cs text) :
    Mirrors ('"' :: (cs ++ ['"'])) text := by
  constructor
  · intro quoted
    rw [Answer.shielded_quote, Answer.shielded_append, (h.shielded_iff _).1]
    exact and_iff_left (Answer.shielded_quote.mpr trivial)
  · intro quoted
    rw [Answer.quotedAfter_quote, Answer.quotedAfter_append, (h.shielded_iff _).2, quotedAfter_not]
    simp

theorem DerivesInteger.mirrors {value : Int} (h : DerivesInteger cs value) : Mirrors cs [] := by
  have hdigits : ∀ {digits : List Char}, (∀ c ∈ digits, c.isDigit = true) → Mirrors digits [] := by
    intro digits hdigits
    refine mirrors_nil fun c hc => ⟨Text.isBlank_of_isDigit (hdigits c hc), ?_⟩
    rintro rfl
    exact absurd (hdigits _ hc) (by decide)
  cases h with
  | natural hn => exact hdigits hn.isDigit
  | negated hn => exact (mirrors_singleton (c := '-') (by decide)).append (hdigits hn.isDigit)

theorem IsName.mirrors {name : String} (h : IsName name) : Mirrors name.toList [] := by
  refine mirrors_nil fun c hc => ⟨isBlank_of_continuesName (h.continues c hc), ?_⟩
  rintro rfl
  exact absurd (h.continues _ hc) (by decide)

mutual

theorem DerivesTerm.mirrors : ∀ {cs : List Char} {t : Term}, DerivesTerm cs t → Mirrors cs t.quoted
  | _, _, .int h => h.mirrors
  | _, _, .str h => by
    rw [quoted, String.toList_ofList]
    exact h.mirrors
  | _, _, .sym h => h.mirrors
  | _, _, .func hname hargs => hname.mirrors.append hargs.mirrors
  | _, _, .tuple hargs => hargs.mirrors

theorem DerivesArgs.mirrors :
    ∀ {cs : List Char} {args : List Term}, DerivesArgs cs args → Mirrors cs (quotedList args)
  | _, _, .none => mirrors_bracket_left.append mirrors_bracket_right
  | _, args, .some h => by
    have hmirrors := mirrors_bracket_left.append (h.mirrors.append mirrors_bracket_right)
    rwa [List.append_nil] at hmirrors

theorem DerivesList.mirrors :
    ∀ {cs : List Char} {args : List Term}, DerivesList cs args → Mirrors cs (quotedList args)
  | _, _, .single h => by
    rw [quotedList, quotedList, List.append_nil]
    exact h.mirrors
  | _, _, .cons h hs => h.mirrors.append (mirrors_comma.append hs.mirrors)

end

end Term

namespace Atom

theorem Derives.mirrors {cs : List Char} {a : Atom} (h : Derives cs a) :
    Answer.Mirrors cs a.quoted := by
  cases h with
  | constant hname => exact hname.mirrors
  | applied hname hargs => exact hname.mirrors.append hargs.mirrors

theorem Derives.exists_cons {cs : List Char} {a : Atom} (h : Derives cs a) :
    ∃ c ds, cs = c :: ds ∧ isBlank c = false := by
  have hblank : ∀ {c : Char}, Term.startsName c = true → isBlank c = false := fun hc =>
    Term.isBlank_of_continuesName (Term.continuesName_of_startsName hc)
  cases h with
  | constant h =>
    obtain ⟨c, ds, hcs, hc⟩ := h.exists_cons_append []
    rw [List.append_nil] at hcs
    exact ⟨c, ds, hcs, hblank hc⟩
  | applied h =>
    obtain ⟨c, ds, hcs, hc⟩ := h.exists_cons_append _
    exact ⟨c, ds, hcs, hblank hc⟩

end Atom

/-! ### Lines of atoms -/

namespace Atom

/-- Every blank of the atom's strings has an even number of quotes before it in them. -/
def KeepsBlanks (a : Atom) : Prop :=
  ∀ before c after, a.quoted = before ++ c :: after → isBlank c = true → Even (before.count '"')

/-- The quotes in the atom's strings come in pairs. -/
def PairsQuotes (a : Atom) : Prop :=
  Even (a.quoted.count '"')

variable {a : Atom} {t : String}

theorem derives_of_trimmed (htrim : Text.trim t = t) (h : parse? t = some a) :
    Derives t.toList a := by
  have hderives := parse?_eq_some_iff.mp h
  rwa [← String.toList_ofList (l := Text.trimChars t.toList), ← Text.trim, htrim] at hderives

theorem shielded_quoted_iff : Answer.Shielded true a.quoted ↔ a.KeepsBlanks := by
  rw [Answer.shielded_iff_forall]
  simp only [Answer.quotedAfter_eq_self_iff]
  rfl

instance (a : Atom) : Decidable a.KeepsBlanks :=
  decidable_of_iff _ shielded_quoted_iff

instance (a : Atom) : Decidable a.PairsQuotes :=
  inferInstanceAs (Decidable (Even _))

theorem Derives.shielded_iff {cs : List Char} (h : Derives cs a) :
    Answer.Shielded false cs ↔ a.KeepsBlanks := by
  rw [h.mirrors.shielded_iff, ← shielded_quoted_iff]
  rfl

theorem Derives.quotedAfter_iff {cs : List Char} (h : Derives cs a) :
    Answer.quotedAfter false cs = false ↔ a.PairsQuotes := by
  rw [h.mirrors.quotedAfter_eq, Answer.quotedAfter_eq_self_iff]
  rfl

theorem keepsBlanks_of_not_mem (h : '"' ∉ a.quoted) : a.KeepsBlanks := by
  intro before c after heq _
  have hbefore : '"' ∉ before := fun hmem => h (heq ▸ List.mem_append_left _ hmem)
  rw [List.count_eq_zero.mpr hbefore]
  exact Even.zero

theorem pairsQuotes_of_not_mem (h : '"' ∉ a.quoted) : a.PairsQuotes := by
  rw [PairsQuotes, List.count_eq_zero.mpr h]
  exact Even.zero

end Atom

namespace Answer

variable {texts : List String} {atoms : List Atom}

theorem forall_mem_iff_of_forall₂ {P : String → Prop} {Q : Atom → Prop}
    (h : List.Forall₂ (fun t a => P t ↔ Q a) texts atoms) :
    (∀ t ∈ texts, P t) ↔ ∀ a ∈ atoms, Q a := by
  induction h with
  | nil => simp
  | cons h _ ih => rw [List.forall_mem_cons, List.forall_mem_cons, h, ih]

theorem splitAtoms_eq_iff_quotes
    (h : List.Forall₂ (fun t a => Atom.Derives t.toList a) texts atoms) :
    splitAtoms (" ".intercalate texts) = texts ↔
      (∀ a ∈ atoms, a.KeepsBlanks) ∧ ∀ a ∈ atoms.dropLast, a.PairsQuotes := by
  have hstart : ∀ t ∈ texts, ∃ c cs, t.toList = c :: cs ∧ isBlank c = false := by
    refine (forall_mem_iff_of_forall₂ (Q := fun _ => True) (h.imp fun t a ha => ?_)).mpr
      fun _ _ => trivial
    exact iff_true_intro ha.exists_cons
  have hlast : List.Forall₂ (fun t a => Atom.Derives t.toList a) texts.dropLast atoms.dropLast := by
    rw [List.dropLast_eq_take, List.dropLast_eq_take, h.length_eq]
    exact List.forall₂_take _ h
  rw [splitAtoms_intercalate_iff hstart,
    forall_mem_iff_of_forall₂ (h.imp fun _ _ ha => ha.shielded_iff),
    forall_mem_iff_of_forall₂ (hlast.imp fun _ _ ha => ha.quotedAfter_iff)]

/-- If there are no quotes inside of the strings, the line falls into its atoms. -/
theorem splitAtoms_of_not_mem (h : List.Forall₂ (fun t a => Atom.Derives t.toList a) texts atoms)
    (hquotes : ∀ a ∈ atoms, '"' ∉ a.quoted) : splitAtoms (" ".intercalate texts) = texts := by
  refine (splitAtoms_eq_iff_quotes h).mpr ⟨fun a ha => ?_, fun a ha => ?_⟩
  · exact Atom.keepsBlanks_of_not_mem (hquotes a ha)
  · exact Atom.pairsQuotes_of_not_mem (hquotes a (List.dropLast_subset _ ha))

/-- A line of written atoms falls into them just if in each atom every blank of its strings has an even
number of quotes before it, and in each atom but the last the quotes inside of the strings come in
pairs. In particular it does if there are none. -/
theorem splitAtoms_joined
    (h : List.Forall₂ (fun t a => Text.trim t = t ∧ Atom.parse? t = some a) texts atoms) :
    (splitAtoms (" ".intercalate texts) = texts ↔
      (∀ a ∈ atoms, a.KeepsBlanks) ∧ ∀ a ∈ atoms.dropLast, a.PairsQuotes) ∧
    ((∀ a ∈ atoms, '"' ∉ a.quoted) → splitAtoms (" ".intercalate texts) = texts) := by
  have hderives : List.Forall₂ (fun t a => Atom.Derives t.toList a) texts atoms :=
    h.imp fun _ _ ⟨htrim, hparse⟩ => Atom.derives_of_trimmed htrim hparse
  exact ⟨splitAtoms_eq_iff_quotes hderives, splitAtoms_of_not_mem hderives⟩

theorem splitAtoms_joined_escaped :
    List.Forall₂ (fun t a => Text.trim t = t ∧ Atom.parse? t = some a)
      ["p(\"a\\\"b\\\" c\")", "q((\"x y\"),-1)"]
      [⟨"p", [.str "a\"b\" c"]⟩, ⟨"q", [.func "" [.str "x y"], .int (-1)]⟩] ∧
    splitAtoms "p(\"a\\\"b\\\" c\") q((\"x y\"),-1)" =
      ["p(\"a\\\"b\\\" c\")", "q((\"x y\"),-1)"] := by
  have h : List.Forall₂ (fun t a => Text.trim t = t ∧ Atom.parse? t = some a)
      ["p(\"a\\\"b\\\" c\")", "q((\"x y\"),-1)"]
      [⟨"p", [.str "a\"b\" c"]⟩, ⟨"q", [.func "" [.str "x y"], .int (-1)]⟩] :=
    .cons (by decide +kernel) (.cons (by decide +kernel) .nil)
  exact ⟨h, (splitAtoms_joined h).1.mpr (by decide +kernel)⟩

/-- A quote inside of a string, which has a backslash before it, closes the string for the splitter. -/
theorem not_forall_splitAtoms_joined :
    ¬ ∀ texts : List String,
      (∀ t ∈ texts, t ≠ "" ∧ Text.trim t = t ∧ (Atom.parse? t).isSome = true) →
        splitAtoms (" ".intercalate texts) = texts := by
  intro hall
  have hsplit := hall ["p(\"a\\\" b\")", "q"] (by decide +kernel)
  exact absurd hsplit (by decide +kernel)

end Answer

end StrongCyclic
