import StrongCyclic.Text.Blank

/-!
Plain texts: those that come back unchanged when they are written as a line and the lines are read
and trimmed. They have no line feed in them and no blank at an end, and putting two of them together
gives a plain text again.
-/

namespace StrongCyclic.Text

/-- The text has no blanks at its ends and no line feed. -/
def Plain (s : String) : Prop :=
  trim s = s ∧ '\n' ∉ s.toList

instance (s : String) : Decidable (Plain s) :=
  inferInstanceAs (Decidable (_ ∧ _))

/-! ### Trimming -/

theorem dropWhile_eq_self_iff {p : Char → Bool} {cs : List Char} :
    cs.dropWhile p = cs ↔ ∀ c ∈ cs.head?, p c = false := by
  cases cs with
  | nil => simp
  | cons c cs =>
    by_cases h : p c
    · simp only [List.dropWhile_cons, h, if_true, List.head?_cons, Option.mem_def, Option.some.injEq,
        forall_eq', Bool.true_eq_false, iff_false]
      intro heq
      have hlength := (List.dropWhile_sublist p (l := cs)).length_le
      rw [heq] at hlength
      exact absurd hlength (by simp)
    · simp [h]

theorem takeWhile_append_eq {p : Char → Bool} {cs rest : List Char} (hcs : ∀ c ∈ cs, p c = true)
    (hrest : ∀ c ∈ rest.head?, p c = false) : (cs ++ rest).takeWhile p = cs := by
  rw [List.takeWhile_append_of_pos hcs]
  cases rest with
  | nil => simp
  | cons d rest => simp [hrest d rfl]

theorem dropWhile_append_eq {p : Char → Bool} {cs rest : List Char} (hcs : ∀ c ∈ cs, p c = true)
    (hrest : ∀ c ∈ rest.head?, p c = false) : (cs ++ rest).dropWhile p = rest := by
  rw [List.dropWhile_append_of_pos hcs, dropWhile_eq_self_iff]
  exact hrest

/-- A text is put together in one way only, if its two parts are told apart by their characters. -/
theorem append_inj_of_forall {p : Char → Bool} {cs cs' rest rest' : List Char}
    (hcs : ∀ c ∈ cs, p c = true) (hcs' : ∀ c ∈ cs', p c = true)
    (hrest : ∀ c ∈ rest.head?, p c = false) (hrest' : ∀ c ∈ rest'.head?, p c = false)
    (h : cs ++ rest = cs' ++ rest') : cs = cs' ∧ rest = rest' := by
  constructor
  · rw [← takeWhile_append_eq hcs hrest, h, takeWhile_append_eq hcs' hrest']
  · rw [← dropWhile_append_eq hcs hrest, h, dropWhile_append_eq hcs' hrest']

/-- A text up to a mark that does not occur in it. -/
theorem append_cons_inj {mark : Char} {cs cs' rest rest' : List Char} (hcs : mark ∉ cs)
    (hcs' : mark ∉ cs') (h : cs ++ mark :: rest = cs' ++ mark :: rest') :
    cs = cs' ∧ rest = rest' := by
  have hne : ∀ {ds : List Char}, mark ∉ ds → ∀ c ∈ ds, decide (c ≠ mark) = true := fun hds c hc =>
    decide_eq_true fun heq => hds (heq ▸ hc)
  have hmark : ∀ {ds : List Char}, ∀ c ∈ (mark :: ds).head?, decide (c ≠ mark) = false := by
    rintro ds c hc
    cases hc
    simp
  obtain ⟨heq, hrest⟩ := append_inj_of_forall (hne hcs) (hne hcs') hmark hmark h
  exact ⟨heq, (List.cons.inj hrest).2⟩

/-- A text is trimmed already if its ends are not blank. -/
theorem trimChars_eq_self {cs : List Char} (hhead : ∀ c ∈ cs.head?, isBlank c = false)
    (hlast : ∀ c ∈ cs.getLast?, isBlank c = false) : trimChars cs = cs := by
  have hreverse : cs.reverse.dropWhile isBlank = cs.reverse :=
    dropWhile_eq_self_iff.mpr (List.head?_reverse ▸ hlast)
  rw [trimChars, dropWhile_eq_self_iff.mpr hhead, hreverse, List.reverse_reverse]

theorem head?_dropWhile {p : Char → Bool} {cs : List Char} {c : Char}
    (h : c ∈ (cs.dropWhile p).head?) : p c = false := by
  have hnot := List.head?_dropWhile_not p cs
  rw [Option.mem_def.mp h] at hnot
  simpa using hnot

theorem trimChars_leads (cs : List Char) : trimChars cs <+: cs.dropWhile isBlank := by
  rw [trimChars, ← List.reverse_suffix, List.reverse_reverse]
  exact List.dropWhile_suffix _

theorem trimChars_within (cs : List Char) : trimChars cs <:+: cs :=
  (trimChars_leads cs).isInfix.trans (List.dropWhile_suffix _).isInfix

theorem trimChars_subset (cs : List Char) : trimChars cs ⊆ cs :=
  (trimChars_within cs).subset

theorem head?_trimChars {cs : List Char} {c : Char} (h : c ∈ (trimChars cs).head?) :
    isBlank c = false := by
  obtain ⟨rest, hrest⟩ := trimChars_leads cs
  have hhead : c ∈ (cs.dropWhile isBlank).head? := by
    rw [← hrest, List.head?_append, Option.mem_def.mp h]
    rfl
  exact head?_dropWhile hhead

theorem getLast?_trimChars {cs : List Char} {c : Char} (h : c ∈ (trimChars cs).getLast?) :
    isBlank c = false := by
  rw [trimChars, List.getLast?_reverse] at h
  exact head?_dropWhile h

theorem trimChars_trimChars (cs : List Char) : trimChars (trimChars cs) = trimChars cs :=
  trimChars_eq_self (fun _ => head?_trimChars) fun _ => getLast?_trimChars

/-! ### Plain texts -/

theorem plain_iff {s : String} :
    Plain s ↔ (∀ c ∈ s.toList.head?, isBlank c = false) ∧
      (∀ c ∈ s.toList.getLast?, isBlank c = false) ∧ '\n' ∉ s.toList := by
  have htrim : trim s = s ↔ trimChars s.toList = s.toList := by
    rw [trim, ← String.toList_inj, String.toList_ofList]
  rw [Plain, htrim]
  constructor
  · rintro ⟨h, hfeed⟩
    exact ⟨fun c hc => head?_trimChars (h.symm ▸ hc), fun c hc => getLast?_trimChars (h.symm ▸ hc),
      hfeed⟩
  · rintro ⟨hhead, hlast, hfeed⟩
    exact ⟨trimChars_eq_self hhead hlast, hfeed⟩

theorem Plain.append {s t : String} (hs : Plain s) (ht : Plain t) : Plain (s ++ t) := by
  obtain ⟨hshead, hslast, hsfeed⟩ := plain_iff.mp hs
  obtain ⟨hthead, htlast, htfeed⟩ := plain_iff.mp ht
  refine plain_iff.mpr ⟨fun c hc => ?_, fun c hc => ?_, ?_⟩
  · rw [String.toList_append, List.head?_append] at hc
    rcases Option.or_eq_some_iff.mp hc with h | ⟨-, h⟩
    · exact hshead c h
    · exact hthead c h
  · rw [String.toList_append, List.getLast?_append] at hc
    rcases Option.or_eq_some_iff.mp hc with h | ⟨-, h⟩
    · exact htlast c h
    · exact hslast c h
  · simp [hsfeed, htfeed]

/-- Between two plain texts anything may stand that has no line feed in it. -/
theorem Plain.append_append {s t : String} (hs : Plain s) (ht : Plain t) (hsne : s ≠ "")
    (htne : t ≠ "") {middle : String} (hfeed : '\n' ∉ middle.toList) :
    Plain (s ++ middle ++ t) := by
  obtain ⟨hshead, -, hsfeed⟩ := plain_iff.mp hs
  obtain ⟨-, htlast, htfeed⟩ := plain_iff.mp ht
  refine plain_iff.mpr ⟨fun c hc => hshead c ?_, fun c hc => htlast c ?_, ?_⟩
  · rwa [String.toList_append, String.toList_append, List.append_assoc, List.head?_append,
      Option.or_of_isSome (by simpa using hsne)] at hc
  · rwa [String.toList_append, List.getLast?_append, Option.or_of_isSome (by simpa using htne)] at hc
  · simp [hsfeed, hfeed, htfeed]

theorem plain_intercalate {sep : String} (hsep : Plain sep) {texts : List String}
    (h : ∀ t ∈ texts, Plain t) : Plain (sep.intercalate texts) := by
  induction texts with
  | nil =>
    rw [String.intercalate_nil]
    decide
  | cons t texts ih =>
    obtain ⟨ht, htexts⟩ := List.forall_mem_cons.mp h
    by_cases hnil : texts = []
    · simpa [hnil] using ht
    · rw [String.intercalate_cons_of_ne_nil hnil]
      exact (ht.append hsep).append (ih htexts)

/-- A separator that is not plain itself does no harm between texts that are not empty. -/
theorem plain_intercalate_of_ne_empty {sep : String} (hfeed : '\n' ∉ sep.toList)
    {texts : List String} (h : ∀ t ∈ texts, Plain t ∧ t ≠ "") :
    Plain (sep.intercalate texts) ∧ (texts ≠ [] → sep.intercalate texts ≠ "") := by
  induction texts with
  | nil =>
    rw [String.intercalate_nil]
    exact ⟨by decide, by simp⟩
  | cons t texts ih =>
    obtain ⟨⟨ht, htne⟩, htexts⟩ := List.forall_mem_cons.mp h
    by_cases hnil : texts = []
    · simpa [hnil] using ⟨ht, htne⟩
    · obtain ⟨hplain, hne⟩ := ih htexts
      rw [String.intercalate_cons_of_ne_nil hnil]
      exact ⟨ht.append_append hplain htne (hne hnil) hfeed, by simp [htne]⟩

/-- A text without blanks is plain. -/
theorem plain_of_not_isBlank {s : String} (h : ∀ c ∈ s.toList, isBlank c = false) : Plain s :=
  plain_iff.mpr ⟨fun c hc => h c (List.mem_of_head? hc), fun c hc => h c (List.mem_of_getLast? hc),
    fun hfeed => absurd (h _ hfeed) (by decide)⟩

theorem Plain.trim_blank_append {s : String} (h : Plain s) : trim (" " ++ s) = s := by
  have hblank : ∀ c ∈ " ".toList, isBlank c = true := List.all_eq_true.mp (by decide)
  rw [trim, String.toList_append, trimChars, List.dropWhile_append_of_pos hblank, ← trimChars]
  exact h.1

/-- What is trimmed off a line is plain. -/
theorem plain_trim {s : String} (h : '\n' ∉ s.toList) : Plain (trim s) := by
  constructor
  · rw [trim, trim, String.toList_ofList, trimChars_trimChars]
  · rw [trim, String.toList_ofList]
    exact fun hfeed => h (trimChars_subset _ hfeed)

/-! ### Pieces, words and lines -/

theorem splitWhere_append {p : Char → Bool} {piece : List Char} {c : Char} (cs : List Char)
    (hpiece : ∀ c ∈ piece, p c = false) (hc : p c = true) :
    splitWhere p (piece ++ c :: cs) = piece :: splitWhere p cs := by
  induction piece with
  | nil => simp [splitWhere, hc]
  | cons d piece ih =>
    obtain ⟨hd, hpiece⟩ := List.forall_mem_cons.mp hpiece
    simp [splitWhere, hd, ih hpiece]

theorem splitWhere_of_forall {p : Char → Bool} {piece : List Char}
    (hpiece : ∀ c ∈ piece, p c = false) : splitWhere p piece = [piece] := by
  induction piece with
  | nil => rfl
  | cons d piece ih =>
    obtain ⟨hd, hpiece⟩ := List.forall_mem_cons.mp hpiece
    simp [splitWhere, hd, ih hpiece]

/-- Pieces that are put together with a cut between them are cut apart again. -/
theorem splitWhere_intercalate {p : Char → Bool} {sep : String} {mark : Char} {texts : List String}
    (hsep : sep.toList = [mark]) (hmark : p mark = true)
    (htexts : ∀ t ∈ texts, ∀ c ∈ t.toList, p c = false) (hne : texts ≠ []) :
    splitWhere p (sep.intercalate texts).toList = texts.map String.toList := by
  induction texts with
  | nil => exact absurd rfl hne
  | cons t texts ih =>
    obtain ⟨ht, hrest⟩ := List.forall_mem_cons.mp htexts
    by_cases hnil : texts = []
    · subst hnil
      simp [splitWhere_of_forall ht]
    · rw [String.intercalate_cons_of_ne_nil hnil, String.append_assoc, String.toList_append,
        String.toList_append, hsep]
      exact (splitWhere_append _ ht hmark).trans (congrArg _ (ih hrest hnil))

/-- What stands behind the last cut is the last piece. -/
theorem splitWhere_append_cons {p : Char → Bool} {piece : List Char} {c : Char} (cs : List Char)
    (hpiece : ∀ c ∈ piece, p c = false) (hc : p c = true) :
    splitWhere p (cs ++ c :: piece) = splitWhere p cs ++ [piece] := by
  induction cs with
  | nil => simp [splitWhere, hc, splitWhere_of_forall hpiece]
  | cons d cs ih =>
    obtain ⟨first, pieces, hfirst⟩ := List.exists_cons_of_ne_nil (splitWhere_ne_nil p cs)
    rw [hfirst] at ih
    by_cases hd : p d = true <;> simp [splitWhere, hd, ih, hfirst]

/-- The last piece ends in what the text ends in, as far as that is not cut. -/
theorem exists_splitWhere_append {p : Char → Bool} (cs : List Char) {ending : List Char}
    (hending : ∀ c ∈ ending, p c = false) :
    ∃ pieces last, splitWhere p (cs ++ ending) = pieces ++ [last ++ ending] := by
  induction cs with
  | nil => exact ⟨[], [], splitWhere_of_forall hending⟩
  | cons c cs ih =>
    obtain ⟨pieces, last, hsplit⟩ := ih
    by_cases hc : p c = true
    · exact ⟨[] :: pieces, last, by simp [splitWhere, hc, hsplit]⟩
    · cases pieces with
      | nil => exact ⟨[], c :: last, by simp [splitWhere, hc, hsplit]⟩
      | cons first pieces => exact ⟨(c :: first) :: pieces, last, by simp [splitWhere, hc, hsplit]⟩

/-- No piece holds a character at which the text is cut. -/
theorem not_of_mem_splitWhere {p : Char → Bool} {cs piece : List Char}
    (h : piece ∈ splitWhere p cs) : ∀ c ∈ piece, p c = false := by
  induction cs generalizing piece with
  | nil =>
    rw [splitWhere, List.mem_singleton] at h
    simp [h]
  | cons c cs ih =>
    rw [splitWhere] at h
    split at h
    · rcases List.mem_cons.mp h with rfl | h
      · simp
      · exact ih h
    · next hc =>
      have hc : p c = false := by simpa using hc
      split at h
      · next heq => exact absurd heq (splitWhere_ne_nil p cs)
      · next first pieces heq =>
        rcases List.mem_cons.mp h with rfl | h
        · exact List.forall_mem_cons.mpr ⟨hc, ih (heq ▸ List.mem_cons_self)⟩
        · exact ih (heq ▸ List.mem_cons_of_mem _ h)

theorem not_isBlank_of_mem_words {s word : String} (h : word ∈ words s) :
    ∀ c ∈ word.toList, isBlank c = false := by
  obtain ⟨cs, hcs, rfl⟩ := List.mem_map.mp h
  rw [String.toList_ofList]
  exact not_of_mem_splitWhere (List.mem_filter.mp hcs).1

/-- The text is one word. -/
def IsWord (s : String) : Prop :=
  s ≠ "" ∧ ∀ c ∈ s.toList, isBlank c = false

instance (s : String) : Decidable (IsWord s) :=
  decidable_of_iff (s ≠ "" ∧ s.toList.all fun c => !isBlank c) (by simp [IsWord])

/-- Words that are put together with blanks between them are the words again. -/
theorem words_intercalate {texts : List String} (h : ∀ t ∈ texts, IsWord t) :
    words (" ".intercalate texts) = texts := by
  by_cases hnil : texts = []
  · subst hnil
    rw [String.intercalate_nil]
    decide
  have hsplit : splitWhere isBlank (" ".intercalate texts).toList = texts.map String.toList :=
    splitWhere_intercalate rfl (by decide) (fun t ht => (h t ht).2) hnil
  have hfull : (texts.map String.toList).filter (· ≠ []) = texts.map String.toList := by
    refine List.filter_eq_self.mpr fun cs hcs => ?_
    obtain ⟨t, ht, rfl⟩ := List.mem_map.mp hcs
    simpa using (h t ht).1
  rw [words, wordChars, hsplit, hfull, List.map_map]
  simp

theorem dropReturn_subset (cs : List Char) : dropReturn cs ⊆ cs := by
  unfold dropReturn
  split
  · exact (List.dropLast_sublist cs).subset
  · exact fun _ h => h

theorem not_mem_of_mem_lines {s line : String} (h : line ∈ lines s) : '\n' ∉ line.toList := by
  obtain ⟨cs, hcs, rfl⟩ := List.mem_map.mp h
  rw [String.toList_ofList]
  intro hfeed
  have hnot : ∀ piece ∈ splitWhere (· == '\n') s.toList, '\n' ∉ piece := fun piece hpiece hmem =>
    absurd (not_of_mem_splitWhere hpiece _ hmem) (by decide)
  rcases List.mem_append.mp hcs with hcs | hcs
  · obtain ⟨piece, hpiece, rfl⟩ := List.mem_map.mp hcs
    exact hnot piece ((List.dropLast_sublist _).subset hpiece) (dropReturn_subset piece hfeed)
  · split at hcs
    · cases hcs
    · rw [List.mem_singleton.mp hcs, List.getLastD_eq_getLast?,
        List.getLast?_eq_some_getLast (splitWhere_ne_nil _ _)] at hfeed
      exact hnot _ (List.getLast_mem (splitWhere_ne_nil _ _)) hfeed

/-- A line that is trimmed has no need of its carriage return. -/
theorem trimChars_dropReturn (cs : List Char) : trimChars (dropReturn cs) = trimChars cs := by
  unfold dropReturn
  split
  · next h =>
    obtain ⟨ds, rfl⟩ := List.getLast?_eq_some_iff.mp h
    rw [List.dropLast_concat, trimChars, trimChars, List.dropWhile_append]
    split
    · next hall =>
      rw [List.isEmpty_iff.mp hall]
      rfl
    · rw [List.reverse_append, List.reverse_singleton, List.singleton_append,
        List.dropWhile_cons_of_pos (by decide)]
  · rfl

theorem dropReturn_of_plain {s : String} (h : Plain s) : dropReturn s.toList = s.toList := by
  refine if_neg fun hreturn => ?_
  exact absurd ((plain_iff.mp h).2.1 _ hreturn) (by decide)

theorem lineChars_append {piece : List Char} (h : '\n' ∉ piece) (cs : List Char) :
    lineChars (piece ++ '\n' :: cs) = dropReturn piece :: lineChars cs := by
  have hcut : ∀ c ∈ piece, (c == '\n') = false := by
    intro c hc
    rw [beq_eq_false_iff_ne]
    rintro rfl
    exact h hc
  have hsplit : splitWhere (· == '\n') (piece ++ '\n' :: cs) =
      piece :: splitWhere (· == '\n') cs :=
    splitWhere_append cs hcut rfl
  obtain ⟨first, pieces, hpieces⟩ :=
    List.exists_cons_of_ne_nil (splitWhere_ne_nil (· == '\n') cs)
  simp [lineChars, hsplit, hpieces]

theorem unlines_append (texts more : List String) :
    unlines (texts ++ more) = unlines texts ++ unlines more := by
  simp [unlines]

/-- The lines of a text are known from the text. -/
theorem unlines_inj {texts texts' : List String} (h : ∀ t ∈ texts, '\n' ∉ t.toList)
    (h' : ∀ t ∈ texts', '\n' ∉ t.toList) (heq : unlines texts = unlines texts') :
    texts = texts' := by
  have hcons : ∀ (t : String) (ts : List String),
      (unlines (t :: ts)).toList = t.toList ++ '\n' :: (unlines ts).toList := by
    intro t ts
    simp [unlines]
  have hchars := congrArg String.toList heq
  clear heq
  induction texts generalizing texts' with
  | nil =>
    cases texts' with
    | nil => rfl
    | cons t' ts' =>
      rw [hcons] at hchars
      exact absurd hchars.symm (by simp [unlines])
  | cons t ts ih =>
    cases texts' with
    | nil =>
      rw [hcons] at hchars
      exact absurd hchars (by simp [unlines])
    | cons t' ts' =>
      obtain ⟨ht, hts⟩ := List.forall_mem_cons.mp h
      obtain ⟨ht', hts'⟩ := List.forall_mem_cons.mp h'
      rw [hcons, hcons] at hchars
      obtain ⟨hfirst, hrest⟩ := append_cons_inj ht ht' hchars
      rw [String.toList_inj.mp hfirst, ih hts hts' hrest]

/-- Texts that are written as lines are read back as the first lines, without the carriage returns
at their ends. -/
theorem lines_unlines_append_dropReturn {texts : List String} (h : ∀ t ∈ texts, '\n' ∉ t.toList)
    (rest : String) : lines (unlines texts ++ rest) =
      (texts.map fun t => String.ofList (dropReturn t.toList)) ++ lines rest := by
  induction texts with
  | nil => simp [unlines]
  | cons t texts ih =>
    obtain ⟨ht, htexts⟩ := List.forall_mem_cons.mp h
    have hchars : (unlines (t :: texts) ++ rest).toList =
        t.toList ++ '\n' :: (unlines texts ++ rest).toList := by
      simp [unlines]
    rw [lines, hchars, lineChars_append ht, List.map_cons, List.map_cons, List.cons_append,
      ← ih htexts]
    rfl

/-- Plain texts that are written as lines are read back as the first lines. -/
theorem lines_unlines_append {texts : List String} (h : ∀ t ∈ texts, Plain t) (rest : String) :
    lines (unlines texts ++ rest) = texts ++ lines rest := by
  have hreturns : ∀ t ∈ texts, String.ofList (dropReturn t.toList) = id t :=
    fun t ht => by rw [dropReturn_of_plain (h t ht), String.ofList_toList, id]
  rw [lines_unlines_append_dropReturn fun t ht => (h t ht).2, List.map_congr_left hreturns,
    List.map_id]

end StrongCyclic.Text
