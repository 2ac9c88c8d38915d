import Mathlib.Data.Nat.Init
import Mathlib.Tactic.SplitIfs
import StrongCyclic.Answer.Reader
import StrongCyclic.Proofs.Text.Letter

/-!
The grammar of terms and atoms, and the readers against it. What a reader takes off the front of a text
derives what it returns, by induction on the depth (`Sound`). Conversely it takes every derivation behind
which a comma, a closing bracket or the end of the text stands, by induction on the derivation, if it is
given three nested readings for each character; and at that depth one more changes nothing (`Settled`).
So the readers accept just the grammar, and each text has one reading.
-/

namespace StrongCyclic

namespace Term

open Text (isBlank wordLimit)

/-! ### Names -/

theorem continuesName_of_startsName {c : Char} (h : startsName c = true) :
    continuesName c = true := by
  simp only [startsName, continuesName, Bool.or_eq_true] at h ⊢
  exact .inl (h.imp_left Text.isLetter_imp_isLetterOrNumeral)

theorem isBlank_of_continuesName {c : Char} (h : continuesName c = true) : isBlank c = false := by
  simp only [continuesName, Bool.or_eq_true, beq_iff_eq] at h
  rcases h with (h | rfl) | rfl
  · exact Text.isBlank_of_isLetterOrNumeral h
  · decide
  · decide

theorem startsName_of_isDigit {c : Char} (h : c.isDigit = true) : startsName c = false := by
  rw [startsName, Text.isLetter_of_isDigit h, Bool.false_or, beq_eq_false_iff_ne]
  rintro rfl
  exact absurd h (by decide)

/-- A name: a letter or an underscore, then letters, numerals, underscores and primes. -/
def IsName (s : String) : Prop :=
  ∃ c cs, s.toList = c :: cs ∧ startsName c = true ∧ ∀ d ∈ cs, continuesName d = true

theorem IsName.continues {s : String} (h : IsName s) : ∀ c ∈ s.toList, continuesName c = true := by
  obtain ⟨c, cs, hs, hc, hcs⟩ := h
  rw [hs]
  exact List.forall_mem_cons.mpr ⟨continuesName_of_startsName hc, hcs⟩

theorem IsName.ne_empty {s : String} (h : IsName s) : s ≠ "" := by
  obtain ⟨c, cs, hs, -⟩ := h
  rintro rfl
  cases hs

theorem IsName.exists_cons_append {name : String} (h : IsName name) (ds : List Char) :
    ∃ c es, name.toList ++ ds = c :: es ∧ startsName c = true := by
  obtain ⟨c, es, hes, hc, -⟩ := h
  exact ⟨c, es ++ ds, by rw [hes, List.cons_append], hc⟩

/-! ### The grammar -/

/-- A run of digits, with its value. -/
structure IsNumeral (digits : List Char) (n : Nat) : Prop where
  nonempty : digits ≠ []
  isDigit : ∀ c ∈ digits, c.isDigit = true
  value_eq : Nat.ofDigitChars 10 digits 0 = n

/-- An integer of 64 bits, one of them for the sign. -/
inductive DerivesInteger : List Char → Int → Prop
  | natural {digits : List Char} {n : Nat} : IsNumeral digits n → n < wordLimit / 2 →
    DerivesInteger digits n
  | negated {digits : List Char} {n : Nat} : IsNumeral digits n → n ≤ wordLimit / 2 →
    DerivesInteger ('-' :: digits) (-(n : Int))

/-- What stands between two quotes and the text that it means: a backslash makes the next character
stand for itself. -/
inductive DerivesQuoted : List Char → List Char → Prop
  | nil : DerivesQuoted [] []
  | char {c : Char} {body text : List Char} : c ≠ '"' → c ≠ '\\' → DerivesQuoted body text →
    DerivesQuoted (c :: body) (c :: text)
  | escaped {c : Char} {body text : List Char} : DerivesQuoted body text →
    DerivesQuoted ('\\' :: c :: body) (c :: text)

mutual

/-- The texts of a term. -/
inductive DerivesTerm : List Char → Term → Prop
  | int {cs : List Char} {value : Int} : DerivesInteger cs value → DerivesTerm cs (.int value)
  | str {body text : List Char} : DerivesQuoted body text →
    DerivesTerm ('"' :: (body ++ ['"'])) (.str (String.ofList text))
  | sym {name : String} : IsName name → DerivesTerm name.toList (.sym name)
  | func {name : String} {cs : List Char} {args : List Term} : IsName name → DerivesArgs cs args →
    DerivesTerm (name.toList ++ cs) (.func name args)
  | tuple {cs : List Char} {args : List Term} : DerivesArgs cs args → DerivesTerm cs (.func "" args)

/-- The texts of arguments, with the brackets around them. -/
inductive DerivesArgs : List Char → List Term → Prop
  | none : DerivesArgs ['(', ')'] []
  | some {cs : List Char} {args : List Term} : DerivesList cs args →
    DerivesArgs ('(' :: (cs ++ [')'])) args

/-- The texts of one or more terms, with commas between them. -/
inductive DerivesList : List Char → List Term → Prop
  | single {cs : List Char} {t : Term} : DerivesTerm cs t → DerivesList cs [t]
  | cons {cs ds : List Char} {t : Term} {ts : List Term} : DerivesTerm cs t → DerivesList ds ts →
    DerivesList (cs ++ ',' :: ds) (t :: ts)

end

theorem DerivesList.exists_derives :
    ∀ {cs : List Char} {ts : List Term}, DerivesList cs ts → ∀ t ∈ ts, ∃ ds, DerivesTerm ds t
  | _, _, .single h => List.forall_mem_singleton.mpr ⟨_, h⟩
  | _, _, .cons h hs => List.forall_mem_cons.mpr ⟨⟨_, h⟩, hs.exists_derives⟩

/-! ### Integers -/

theorem digitsValue?_eq_some_iff {digits : List Char} {n : Nat} :
    Text.digitsValue? digits = some n ↔ IsNumeral digits n := by
  have hvalue : Nat.ofDigitChars 10 digits 0 =
      digits.foldl (fun value c => 10 * value + (c.toNat - 48)) 0 := Nat.ofDigitChars_eq_foldl
  rw [Text.digitsValue?, ← hvalue]
  constructor
  · intro h
    split at h
    · next hdigits => exact ⟨hdigits.1, List.all_eq_true.mp hdigits.2, Option.some.inj h⟩
    · cases h
  · rintro ⟨hne, hall, rfl⟩
    rw [if_pos ⟨hne, List.all_eq_true.mpr hall⟩]

theorem isNumeral_toString (n : Nat) : IsNumeral (toString n).toList n :=
  digitsValue?_eq_some_iff.mp (Text.digitsValue?_toString n)

theorem below?_digitsValue? {digits : List Char} {limit n : Nat} :
    Text.below? limit (Text.digitsValue? digits) = some n ↔ IsNumeral digits n ∧ n < limit := by
  rw [Text.below?_eq_some_iff, digitsValue?_eq_some_iff]

theorem integerOf?_digits {digits : List Char} {value : Int}
    (h : ∀ c ∈ digits, c.isDigit = true) : Text.integerOf? digits = some value ↔
      ∃ n : Nat, IsNumeral digits n ∧ n < wordLimit / 2 ∧ (n : Int) = value := by
  have hsign : ∀ c : Char, c.isDigit = false → ∀ ds, digits ≠ c :: ds := by
    rintro c hc ds rfl
    exact absurd (h c List.mem_cons_self) (by simp [hc])
  rw [Text.integerOf?]
  · simp [Option.bind_eq_some_iff, below?_digitsValue?, and_assoc]
  · exact hsign '-' (by decide)
  · exact hsign '+' (by decide)

theorem integerOf?_minus {digits : List Char} {value : Int} :
    Text.integerOf? ('-' :: digits) = some value ↔
      ∃ n : Nat, IsNumeral digits n ∧ n ≤ wordLimit / 2 ∧ -(n : Int) = value := by
  simp only [Text.integerOf?, Option.pure_def, Option.bind_eq_bind, Option.map_bind,
    Option.bind_eq_some_iff, below?_digitsValue?, Nat.lt_succ_iff, Function.comp_apply,
    Option.map_some, Option.some.injEq, and_assoc]

theorem readInteger_minus (cs : List Char) :
    readInteger ('-' :: cs) =
      (Text.integerOf? ('-' :: cs.takeWhile Char.isDigit)).map fun value =>
        (value, cs.dropWhile Char.isDigit) := by
  simp [readInteger]

theorem readInteger_of_ne {cs : List Char} (h : ∀ c ∈ cs.head?, c ≠ '-') :
    readInteger cs =
      (Text.integerOf? (cs.takeWhile Char.isDigit)).map fun value =>
        (value, cs.dropWhile Char.isDigit) := by
  have hsign : cs.takeWhile (· == '-') = [] := by
    cases cs with
    | nil => rfl
    | cons c cs => exact List.takeWhile_cons_of_neg (by simpa using h c rfl)
  simp [readInteger, hsign]

variable {cs rest : List Char}

theorem derives_of_readInteger {value : Int} (h : readInteger cs = some (value, rest)) :
    ∃ text, cs = text ++ rest ∧ DerivesInteger text value := by
  by_cases hminus : cs.head? = some '-'
  · obtain ⟨ds, rfl⟩ := List.head?_eq_some_iff.mp hminus
    rw [readInteger_minus] at h
    obtain ⟨value', hvalue, heq⟩ := Option.map_eq_some_iff.mp h
    cases heq
    obtain ⟨n, hn, hle, rfl⟩ := integerOf?_minus.mp hvalue
    refine ⟨'-' :: ds.takeWhile Char.isDigit, ?_, .negated hn hle⟩
    rw [List.cons_append, List.takeWhile_append_dropWhile]
  · have hne : ∀ c ∈ cs.head?, c ≠ '-' := by
      rintro c hc rfl
      exact hminus hc
    rw [readInteger_of_ne hne] at h
    obtain ⟨value', hvalue, heq⟩ := Option.map_eq_some_iff.mp h
    cases heq
    have hdigits : ∀ c ∈ cs.takeWhile Char.isDigit, c.isDigit = true :=
      List.all_eq_true.mp List.all_takeWhile
    obtain ⟨n, hn, hlt, rfl⟩ := (integerOf?_digits hdigits).mp hvalue
    exact ⟨cs.takeWhile Char.isDigit, List.takeWhile_append_dropWhile.symm, .natural hn hlt⟩

theorem DerivesInteger.readInteger_append {value : Int} (h : DerivesInteger cs value)
    (hrest : ∀ c ∈ rest.head?, c.isDigit = false) :
    readInteger (cs ++ rest) = some (value, rest) := by
  cases h with
  | natural hn hlt =>
    have hne : ∀ c ∈ (cs ++ rest).head?, c ≠ '-' := by
      rintro c hc rfl
      rw [List.head?_append, Option.or_of_isSome (by simpa using hn.nonempty)] at hc
      exact absurd (hn.isDigit '-' (List.mem_of_head? hc)) (by decide)
    rw [readInteger_of_ne hne, Text.takeWhile_append_eq hn.isDigit hrest,
      Text.dropWhile_append_eq hn.isDigit hrest,
      (integerOf?_digits hn.isDigit).mpr ⟨_, hn, hlt, rfl⟩]
    rfl
  | negated hn hle =>
    rw [List.cons_append, readInteger_minus, Text.takeWhile_append_eq hn.isDigit hrest,
      Text.dropWhile_append_eq hn.isDigit hrest,
      integerOf?_minus.mpr ⟨_, hn, hle, rfl⟩]
    rfl

/-- An integer starts with a minus sign or a digit. -/
theorem DerivesInteger.exists_cons {value : Int} (h : DerivesInteger cs value) :
    ∃ c ds, cs = c :: ds ∧ (c = '-' ∨ c.isDigit = true) := by
  cases h with
  | natural hn =>
    obtain ⟨c, ds, rfl⟩ := List.exists_cons_of_ne_nil hn.nonempty
    exact ⟨c, ds, rfl, .inr (hn.isDigit c List.mem_cons_self)⟩
  | negated => exact ⟨'-', _, rfl, .inl rfl⟩

/-! ### Quoted strings -/

theorem derives_of_readQuoted {text : List Char} (h : readQuoted cs = some (text, rest)) :
    ∃ body, cs = body ++ '"' :: rest ∧ DerivesQuoted body text := by
  fun_induction readQuoted cs generalizing text with
  | case1 => cases h
  | case2 rest' =>
    cases h
    exact ⟨[], rfl, .nil⟩
  | case3 c rest' ih =>
    obtain ⟨⟨text', rest''⟩, hread, heq⟩ := Option.map_eq_some_iff.mp h
    cases heq
    obtain ⟨body, rfl, hbody⟩ := ih hread
    exact ⟨'\\' :: c :: body, rfl, .escaped hbody⟩
  | case4 => cases h
  | case5 c rest' hquote hescape hlast ih =>
    obtain ⟨⟨text', rest''⟩, hread, heq⟩ := Option.map_eq_some_iff.mp h
    cases heq
    obtain ⟨body, rfl, hbody⟩ := ih hread
    refine ⟨c :: body, rfl, .char (fun hc => hquote hc) ?_ hbody⟩
    rintro rfl
    cases body with
    | nil => exact hescape _ _ rfl rfl
    | cons d body => exact hescape _ _ rfl rfl

theorem DerivesQuoted.readQuoted_append {text : List Char} (h : DerivesQuoted cs text) :
    readQuoted (cs ++ '"' :: rest) = some (text, rest) := by
  induction h with
  | nil => rw [List.nil_append, readQuoted]
  | char hquote hbackslash _ ih =>
    rw [List.cons_append, readQuoted, ih]
    · rfl
    · exact hquote
    · exact fun _ _ heq _ => hbackslash heq
    · exact fun heq _ => hbackslash heq
  | escaped _ ih =>
    rw [List.cons_append, List.cons_append, readQuoted, ih]
    rfl

/-! ### What is read derives the term -/

/-- What the readers take off the front of a text at some depth derives what they return. -/
structure Sound (depth : Nat) : Prop where
  read : ∀ {cs t rest}, read depth cs = some (t, rest) →
    ∃ text, cs = text ++ rest ∧ DerivesTerm text t
  readArgs : ∀ {cs args rest}, readArgs depth cs = some (args, rest) →
    ∃ text, '(' :: cs = text ++ rest ∧ DerivesArgs text args
  readList : ∀ {cs args rest}, readList depth cs = some (args, rest) →
    ∃ text, cs = text ++ ')' :: rest ∧ DerivesList text args

variable {depth : Nat} {t : Term} {args : List Term}

theorem Sound.read_succ (h : Sound depth) (hread : Term.read (depth + 1) cs = some (t, rest)) :
    ∃ text, cs = text ++ rest ∧ DerivesTerm text t := by
  cases cs with
  | nil => cases hread
  | cons c cs =>
    rw [Term.read] at hread
    split_ifs at hread with hquote hinteger hbracket hname
    · obtain ⟨⟨text, rest'⟩, hquoted, heq⟩ := Option.map_eq_some_iff.mp hread
      cases heq
      obtain ⟨body, rfl, hbody⟩ := derives_of_readQuoted hquoted
      exact ⟨'"' :: (body ++ ['"']), by simp [hquote], .str hbody⟩
    · obtain ⟨⟨value, rest'⟩, hvalue, heq⟩ := Option.map_eq_some_iff.mp hread
      cases heq
      obtain ⟨text, htext, hderives⟩ := derives_of_readInteger hvalue
      exact ⟨text, htext, .int hderives⟩
    · obtain ⟨⟨args, rest'⟩, hargs, heq⟩ := Option.map_eq_some_iff.mp hread
      cases heq
      obtain ⟨text, htext, hderives⟩ := h.readArgs hargs
      exact ⟨text, by rw [hbracket, htext], .tuple hderives⟩
    · have hsplit : c :: cs =
          (String.ofList (c :: cs.takeWhile continuesName)).toList ++ cs.dropWhile continuesName := by
        rw [String.toList_ofList, List.cons_append, List.takeWhile_append_dropWhile]
      have hisName : IsName (String.ofList (c :: cs.takeWhile continuesName)) :=
        ⟨c, _, String.toList_ofList, hname, List.all_eq_true.mp List.all_takeWhile⟩
      split at hread
      · next body hbody =>
        obtain ⟨⟨args, rest'⟩, hargs, heq⟩ := Option.map_eq_some_iff.mp hread
        cases heq
        obtain ⟨text, htext, hderives⟩ := h.readArgs hargs
        rw [hbody, htext, ← List.append_assoc] at hsplit
        exact ⟨_, hsplit, .func hisName hderives⟩
      · cases hread
        exact ⟨_, hsplit, .sym hisName⟩

theorem Sound.readArgs_succ (h : Sound depth)
    (hread : Term.readArgs (depth + 1) cs = some (args, rest)) :
    ∃ text, '(' :: cs = text ++ rest ∧ DerivesArgs text args := by
  unfold Term.readArgs at hread
  split at hread
  · next heq => cases heq
  · cases hread
    exact ⟨['(', ')'], rfl, .none⟩
  · next hdepth _ =>
    cases hdepth
    obtain ⟨text, rfl, hderives⟩ := h.readList hread
    exact ⟨'(' :: (text ++ [')']), by simp, .some hderives⟩

theorem Sound.readList_succ (h : Sound depth)
    (hread : Term.readList (depth + 1) cs = some (args, rest)) :
    ∃ text, cs = text ++ ')' :: rest ∧ DerivesList text args := by
  rw [Term.readList] at hread
  split at hread
  · next t rest' hterm =>
    cases hread
    obtain ⟨text, htext, hderives⟩ := h.read hterm
    exact ⟨text, htext, .single hderives⟩
  · next t rest' hterm =>
    obtain ⟨⟨ts, rest''⟩, hlist, heq⟩ := Option.map_eq_some_iff.mp hread
    cases heq
    obtain ⟨text, rfl, hderives⟩ := h.read hterm
    obtain ⟨texts, rfl, hrest⟩ := h.readList hlist
    exact ⟨text ++ ',' :: texts, by simp, .cons hderives hrest⟩
  · cases hread

theorem sound (depth : Nat) : Sound depth := by
  induction depth with
  | zero => exact ⟨nofun, nofun, nofun⟩
  | succ depth ih => exact ⟨ih.read_succ, ih.readArgs_succ, ih.readList_succ⟩

/-! ### What derives a term is read -/

/-- Nothing that stands behind a term belongs to it. -/
def Ends (rest : List Char) : Prop :=
  ∀ c ∈ rest.head?, c = ',' ∨ c = ')'

theorem ends_nil : Ends [] := by
  simp [Ends]

theorem ends_comma (rest : List Char) : Ends (',' :: rest) := by
  simp [Ends]

theorem ends_bracket (rest : List Char) : Ends (')' :: rest) := by
  simp [Ends]

theorem Ends.head? (h : Ends rest) {p : Char → Bool} (hcomma : p ',' = false)
    (hbracket : p ')' = false) : ∀ c ∈ rest.head?, p c = false := by
  intro c hc
  rcases h c hc with rfl | rfl
  · exact hcomma
  · exact hbracket

theorem DerivesArgs.exists_cons (h : DerivesArgs cs args) : ∃ body, cs = '(' :: body := by
  cases h with
  | none => exact ⟨_, rfl⟩
  | some => exact ⟨_, rfl⟩

/-- The first character of a term does not close a bracket. -/
theorem DerivesTerm.exists_cons (h : DerivesTerm cs t) : ∃ c ds, cs = c :: ds ∧ c ≠ ')' := by
  have hname : ∀ {c : Char}, startsName c = true → c ≠ ')' := by
    rintro c hc rfl
    exact absurd hc (by decide)
  cases h with
  | int hvalue =>
    obtain ⟨c, ds, rfl, hc⟩ := hvalue.exists_cons
    refine ⟨c, ds, rfl, ?_⟩
    rintro rfl
    exact absurd hc (by decide)
  | str => exact ⟨'"', _, rfl, by decide⟩
  | sym h =>
    obtain ⟨c, ds, hcs, hc⟩ := h.exists_cons_append []
    rw [List.append_nil] at hcs
    exact ⟨c, ds, hcs, hname hc⟩
  | func h =>
    obtain ⟨c, ds, hcs, hc⟩ := h.exists_cons_append _
    exact ⟨c, ds, hcs, hname hc⟩
  | tuple hargs =>
    obtain ⟨body, rfl⟩ := hargs.exists_cons
    exact ⟨'(', body, rfl, by decide⟩

theorem DerivesList.exists_cons (h : DerivesList cs args) : ∃ c ds, cs = c :: ds ∧ c ≠ ')' := by
  cases h with
  | single ht => exact ht.exists_cons
  | cons ht =>
    obtain ⟨c, ds, rfl, hc⟩ := ht.exists_cons
    exact ⟨c, _, rfl, hc⟩

/-- What a name is read as: the name of what follows in brackets, or a symbol. -/
def readBehind (depth : Nat) (name : String) : List Char → Option (Term × List Char)
  | '(' :: body => (readArgs depth body).map fun (args, rest) => (.func name args, rest)
  | rest => some (.sym name, rest)

/-- A name is told from the other terms by its first character. -/
theorem read_name {name : String} (h : IsName name) (depth : Nat)
    (hrest : ∀ c ∈ rest.head?, continuesName c = false) :
    read (depth + 1) (name.toList ++ rest) = readBehind depth name rest := by
  obtain ⟨c, cs, hs, hc, hcs⟩ := h
  have hne : ∀ d : Char, startsName d = false → c ≠ d := by
    rintro d hd rfl
    exact absurd hc (by simp [hd])
  have hdigit : ¬ (c = '-' ∨ c.isDigit = true) := by
    rintro (rfl | hdigit)
    · exact hne '-' (by decide) rfl
    · exact absurd hc (by simp [startsName_of_isDigit hdigit])
  have hname : String.ofList (c :: cs) = name := by rw [← hs, String.ofList_toList]
  rw [hs, List.cons_append, read, if_neg (hne '"' (by decide)), if_neg hdigit,
    if_neg (hne '(' (by decide)), if_pos hc, Text.takeWhile_append_eq hcs hrest,
    Text.dropWhile_append_eq hcs hrest, hname]
  rfl

theorem read_integer {value : Int} (h : DerivesInteger cs value) (hrest : Ends rest) :
    read (depth + 1) (cs ++ rest) = some (.int value, rest) := by
  have hread := h.readInteger_append (hrest.head? (by decide) (by decide))
  obtain ⟨c, ds, rfl, hc⟩ := h.exists_cons
  have hquote : c ≠ '"' := by
    rintro rfl
    exact absurd hc (by decide)
  rw [List.cons_append] at hread ⊢
  rw [read, if_neg hquote, if_pos hc, hread]
  rfl

theorem read_quoted {text : List Char} (h : DerivesQuoted cs text) :
    read (depth + 1) ('"' :: (cs ++ ['"']) ++ rest) = some (.str (String.ofList text), rest) := by
  rw [List.cons_append, List.append_assoc, List.singleton_append, read, if_pos rfl,
    h.readQuoted_append]
  rfl

theorem read_symbol {name : String} (h : IsName name) (hrest : Ends rest) :
    read (depth + 1) (name.toList ++ rest) = some (.sym name, rest) := by
  rw [read_name h depth (hrest.head? (by decide) (by decide))]
  unfold readBehind
  split
  · exact absurd (hrest '(' rfl) (by decide)
  · rfl

theorem read_applied {name : String} {body : List Char} (h : IsName name)
    (hargs : readArgs depth body = some (args, rest)) :
    read (depth + 1) (name.toList ++ '(' :: body) = some (.func name args, rest) := by
  have hends : ∀ c ∈ ('(' :: body).head?, continuesName c = false := by
    rintro c hc
    cases hc
    decide
  rw [read_name h depth hends, readBehind, hargs]
  rfl

theorem read_tuple {body : List Char} (hargs : readArgs depth body = some (args, rest)) :
    read (depth + 1) ('(' :: body) = some (.func "" args, rest) := by
  rw [read, if_neg (by decide), if_neg (by decide), if_pos rfl, hargs]
  rfl

theorem DerivesTerm.exists_succ (h : DerivesTerm cs t) (hdepth : 3 * cs.length ≤ depth) :
    ∃ d, depth = d + 1 := by
  obtain ⟨c, ds, rfl, -⟩ := h.exists_cons
  rw [List.length_cons] at hdepth
  exact Nat.exists_eq_succ_of_ne_zero (by omega)

mutual

/-- A term is read if the readings may be nested three times for each of its characters. -/
theorem DerivesTerm.read_append : ∀ {cs : List Char} {t : Term}, DerivesTerm cs t →
    ∀ (depth : Nat) (rest : List Char), 3 * cs.length ≤ depth → Ends rest →
      read depth (cs ++ rest) = some (t, rest)
  | _, _, .int hvalue, depth, rest, hdepth, hrest => by
    obtain ⟨depth, rfl⟩ := (DerivesTerm.int hvalue).exists_succ hdepth
    exact read_integer hvalue hrest
  | _, _, .str hbody, depth, rest, hdepth, _ => by
    obtain ⟨depth, rfl⟩ := (DerivesTerm.str hbody).exists_succ hdepth
    exact read_quoted hbody
  | _, _, .sym hname, depth, rest, hdepth, hrest => by
    obtain ⟨depth, rfl⟩ := (DerivesTerm.sym hname).exists_succ hdepth
    exact read_symbol hname hrest
  | _, _, .func hname hargs, depth, rest, hdepth, _ => by
    obtain ⟨depth, rfl⟩ := (DerivesTerm.func hname hargs).exists_succ hdepth
    obtain ⟨body, hbody, hread⟩ := hargs.readArgs_append
    rw [hbody, List.length_append, List.length_cons] at hdepth
    rw [hbody, List.append_assoc, List.cons_append]
    exact read_applied hname (hread depth rest (by omega))
  | _, _, .tuple hargs, depth, rest, hdepth, _ => by
    obtain ⟨depth, rfl⟩ := (DerivesTerm.tuple hargs).exists_succ hdepth
    obtain ⟨body, hbody, hread⟩ := hargs.readArgs_append
    rw [hbody, List.length_cons] at hdepth
    rw [hbody, List.cons_append]
    exact read_tuple (hread depth rest (by omega))

theorem DerivesArgs.readArgs_append : ∀ {cs : List Char} {args : List Term}, DerivesArgs cs args →
    ∃ body, cs = '(' :: body ∧ ∀ (depth : Nat) (rest : List Char), 3 * body.length ≤ depth →
      readArgs depth (body ++ rest) = some (args, rest)
  | _, _, .none => by
    refine ⟨[')'], rfl, fun depth rest hdepth => ?_⟩
    obtain ⟨depth, rfl⟩ := Nat.exists_eq_succ_of_ne_zero (n := depth) (by simp at hdepth; omega)
    rfl
  | _, _, .some hlist => by
    refine ⟨_, rfl, fun depth rest hdepth => ?_⟩
    rw [List.length_append, List.length_singleton] at hdepth
    obtain ⟨depth, rfl⟩ := Nat.exists_eq_succ_of_ne_zero (n := depth) (by omega)
    have hread := hlist.readList_append depth rest (by omega)
    -- no term starts with a closing bracket, so the arguments are read as a list
    obtain ⟨c, ds, rfl, hc⟩ := hlist.exists_cons
    rw [List.append_assoc, List.singleton_append, ← hread, List.cons_append, readArgs]
    exact fun _ heq => hc (List.cons.inj heq).1

theorem DerivesList.readList_append : ∀ {cs : List Char} {args : List Term}, DerivesList cs args →
    ∀ (depth : Nat) (rest : List Char), 3 * cs.length < depth →
      readList depth (cs ++ ')' :: rest) = some (args, rest)
  | _, _, .single ht, depth, rest, hdepth => by
    obtain ⟨depth, rfl⟩ := Nat.exists_eq_succ_of_ne_zero (Nat.ne_zero_of_lt hdepth)
    simp only [readList, ht.read_append depth (')' :: rest) (by omega) (ends_bracket rest)]
  | _, _, .cons ht hts, depth, rest, hdepth => by
    obtain ⟨depth, rfl⟩ := Nat.exists_eq_succ_of_ne_zero (Nat.ne_zero_of_lt hdepth)
    rw [List.length_append, List.length_cons] at hdepth
    have hrest := hts.readList_append depth rest (by omega)
    simp only [List.append_assoc, List.cons_append, readList,
      ht.read_append depth _ (by omega) (ends_comma _), hrest, Option.map_some]

end

/-! ### Sufficient depths -/

/-- At this depth one more nested reading changes nothing, if the text is short enough. -/
structure Settled (depth : Nat) : Prop where
  read : ∀ {cs}, 3 * cs.length < depth → read (depth + 1) cs = read depth cs
  readArgs : ∀ {cs}, 3 * cs.length + 2 < depth → readArgs (depth + 1) cs = readArgs depth cs
  readList : ∀ {cs}, 3 * cs.length + 1 < depth → readList (depth + 1) cs = readList depth cs

theorem Settled.readBehind_succ (h : Settled depth) (name : String)
    (hdepth : 3 * cs.length < depth) :
    readBehind (depth + 1) name cs = readBehind depth name cs := by
  unfold readBehind
  split
  · next body =>
    rw [List.length_cons] at hdepth
    rw [h.readArgs (by omega)]
  · rfl

theorem Settled.read_succ (h : Settled depth) (hdepth : 3 * cs.length < depth + 1) :
    Term.read (depth + 2) cs = Term.read (depth + 1) cs := by
  cases cs with
  | nil => rfl
  | cons c cs =>
    rw [List.length_cons] at hdepth
    rw [Term.read, Term.read, h.readArgs (by omega)]
    split_ifs with hquote hinteger hbracket hname
    · rfl
    · rfl
    · rfl
    · have hle := (List.dropWhile_sublist continuesName (l := cs)).length_le
      exact h.readBehind_succ _ (by omega)
    · rfl

theorem Settled.readArgs_succ (h : Settled depth) (hdepth : 3 * cs.length + 2 < depth + 1) :
    Term.readArgs (depth + 2) cs = Term.readArgs (depth + 1) cs := by
  by_cases hclosed : ∃ rest, cs = ')' :: rest
  · obtain ⟨rest, rfl⟩ := hclosed
    rfl
  · rw [Term.readArgs, Term.readArgs, h.readList (by omega)]
    · exact fun rest heq => hclosed ⟨rest, heq⟩
    · exact fun rest heq => hclosed ⟨rest, heq⟩

theorem Settled.readList_succ (h : Settled depth) (hdepth : 3 * cs.length + 1 < depth + 1) :
    Term.readList (depth + 2) cs = Term.readList (depth + 1) cs := by
  rw [Term.readList, Term.readList, h.read (by omega)]
  split
  · rfl
  · next t rest hread =>
    obtain ⟨text, rfl, -⟩ := (sound depth).read hread
    rw [List.length_append, List.length_cons] at hdepth
    rw [h.readList (by omega)]
  · rfl

theorem settled (depth : Nat) : Settled depth := by
  induction depth with
  | zero => exact ⟨nofun, nofun, nofun⟩
  | succ depth ih => exact ⟨ih.read_succ, ih.readArgs_succ, ih.readList_succ⟩

/-- Reading a term nests no more than three readings for each character. -/
theorem read_eq_of_length_lt (h : 3 * cs.length < depth) :
    read depth cs = read (3 * cs.length + 1) cs := by
  induction depth, h using Nat.le_induction with
  | base => rfl
  | succ depth hle ih => rw [(settled depth).read hle, ih]

theorem ofChars?_eq_some_iff : ofChars? cs = some t ↔ DerivesTerm cs t := by
  constructor
  · intro h
    unfold ofChars? at h
    split at h
    · next t' hread =>
      cases h
      obtain ⟨text, htext, hderives⟩ := (sound _).read hread
      rwa [htext, List.append_nil]
    · cases h
  · intro h
    have hread := h.read_append (3 * (cs.length + 1)) [] (by omega) ends_nil
    rw [List.append_nil] at hread
    rw [ofChars?, hread]

end Term

/-! ### Atoms -/

namespace Atom

open Term (IsName DerivesArgs)

/-- The texts of an atom: a name alone or with arguments. -/
inductive Derives : List Char → Atom → Prop
  | constant {name : String} : IsName name → Derives name.toList ⟨name, []⟩
  | applied {name : String} {cs : List Char} {args : List Term} : IsName name →
    DerivesArgs cs args → Derives (name.toList ++ cs) ⟨name, args⟩

theorem parse?_eq_some_iff {text : String} {a : Atom} :
    parse? text = some a ↔ Derives (Text.trimChars text.toList) a := by
  unfold parse?
  generalize Text.trimChars text.toList = cs
  constructor
  · intro h
    split at h
    · next name args hterm =>
      split at h
      · cases h
      · next hname =>
        cases h
        cases Term.ofChars?_eq_some_iff.mp hterm with
        | func hisName hargs => exact .applied hisName hargs
        | tuple => exact absurd rfl hname
    · next name hterm =>
      cases h
      cases Term.ofChars?_eq_some_iff.mp hterm with
      | sym hisName => exact .constant hisName
    · cases h
  · intro h
    cases h with
    | constant hname => rw [Term.ofChars?_eq_some_iff.mpr (.sym hname)]
    | applied hname hargs =>
      rw [Term.ofChars?_eq_some_iff.mpr (.func hname hargs)]
      exact if_neg hname.ne_empty

/-- A text is read as an atom just if it derives that atom, apart from the blanks at its ends. No text
derives two atoms, a text that derives none is refused, and whatever is read, the readings are nested no
more than three times for each character. -/
theorem parse?_accepts_grammar (text : String) :
    (∀ a, parse? text = some a ↔ Derives (Text.trimChars text.toList) a) ∧
    (∀ a b, Derives (Text.trimChars text.toList) a → Derives (Text.trimChars text.toList) b → a = b) ∧
    ((∀ a, ¬ Derives (Text.trimChars text.toList) a) → parse? text = none) ∧
    ∀ cs depth, 3 * cs.length < depth → Term.read depth cs = Term.read (3 * cs.length + 1) cs := by
  refine ⟨fun a => parse?_eq_some_iff, fun a b ha hb => ?_, fun hnone => ?_,
    fun cs depth => Term.read_eq_of_length_lt⟩
  · exact Option.some.inj ((parse?_eq_some_iff.mpr ha).symm.trans (parse?_eq_some_iff.mpr hb))
  · refine Option.eq_none_iff_forall_ne_some.mpr fun a ha => ?_
    exact hnone a (parse?_eq_some_iff.mp ha)

example : ["p(1", "p(1) q", "p(1,)", "p( 1)", "p(-)", "7", "\"p\"", "(1)", "p(\"q)"].filterMap parse? =
    [] := by
  decide

end Atom

end StrongCyclic
