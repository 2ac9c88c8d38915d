import StrongCyclic.Proofs.Sas.Grammar

/-!
What the readers of a task file take from the lines. Each reader succeeds exactly on lines of one
shape, and leaves the lines behind them; `block?` reads exactly the bodies of the format for which
there is room. A reader of blocks crashes exactly on lines that announce more than there is room for.
-/

namespace StrongCyclic.Sas

open Fallible (bind_eq_ok bind_eq_error pure_eq_ok)

/-! ### Crashes -/

theorem lift_eq_ok {α : Type} {x : Except LineFault α} {a : α} :
    (liftM x : Except Stop α) = .ok a ↔ x = .ok a :=
  Fallible.mapError_eq_ok

theorem reserve_eq_ok {bytes n : Nat} {u : Unit} :
    (liftM (Word.reserve bytes n) : Except Stop Unit) = .ok u ↔ n ≤ Word.capacity bytes :=
  Fallible.mapError_eq_ok.trans Word.reserve_eq_ok

theorem reserve_eq_crash {bytes n : Nat} {cause : Crash} :
    (liftM (Word.reserve bytes n) : Except Stop Unit) = .error (.crash cause) ↔
      Word.capacity bytes < n ∧ cause = .capacity := by
  rw [← Word.reserve_eq_error]
  change (Word.reserve bytes n).mapError Stop.crash = _ ↔ _
  cases Word.reserve bytes n <;> simp [Except.mapError]

/-- The computation does not end in a crash. -/
def Calm {α : Type} (x : Except Stop α) : Prop :=
  ∀ cause, x ≠ .error (.crash cause)

section Calm

variable {α β : Type}

theorem calm_pure {a : α} : Calm (pure a) :=
  fun _ h => nomatch h

theorem calm_lift {x : Except LineFault α} : Calm (liftM x) := by
  intro cause h
  cases x with
  | ok a => exact nomatch h
  | error fault => exact nomatch h

theorem Calm.bind {x : Except Stop α} {f : α → Except Stop β} (hx : Calm x)
    (hf : ∀ a, Calm (f a)) : Calm (x >>= f) := by
  intro cause h
  obtain h | ⟨a, -, h⟩ := bind_eq_error.mp h
  · exact hx cause h
  · exact hf a cause h

variable {cause : Crash}

/-- Before the first crash there are only results. -/
theorem Calm.bind_eq_crash {x : Except Stop α} {f : α → Except Stop β} (hx : Calm x) :
    (x >>= f) = .error (.crash cause) ↔ ∃ a, x = .ok a ∧ f a = .error (.crash cause) := by
  rw [bind_eq_error]
  exact or_iff_right (hx cause)

theorem bind_calm_eq_crash {x : Except Stop α} {f : α → Except Stop β} (hf : ∀ a, Calm (f a)) :
    (x >>= f) = .error (.crash cause) ↔ x = .error (.crash cause) := by
  rw [bind_eq_error]
  exact or_iff_left fun ⟨a, _, h⟩ => hf a cause h

theorem lift_bind_eq_crash {x : Except LineFault α} {f : α → Except Stop β} :
    (liftM x >>= f) = .error (.crash cause) ↔ ∃ a, x = .ok a ∧ f a = .error (.crash cause) := by
  simp only [calm_lift.bind_eq_crash, lift_eq_ok]

end Calm

namespace Cursor

/-- The lines stand between two places of the reading. -/
def Passes (c : Cursor) (lines : List Line) (c' : Cursor) : Prop :=
  c.rest = lines ++ c'.rest ∧ c'.last = lines.foldl (fun _ l => l.number) c.last

variable {c c' : Cursor}

theorem Passes.unique {lines : List Line} {c'' : Cursor} (h : c.Passes lines c')
    (h' : c.Passes lines c'') : c' = c'' := by
  obtain ⟨last', rest'⟩ := c'
  obtain ⟨last'', rest''⟩ := c''
  obtain rfl : rest' = rest'' := List.append_cancel_left (h.1.symm.trans h'.1)
  obtain rfl : last' = last'' := h.2.trans h'.2.symm
  rfl

theorem passes_nil : c.Passes [] c' ↔ c' = c := by
  constructor
  · intro h
    exact h.unique ⟨rfl, rfl⟩
  · rintro rfl
    exact ⟨rfl, rfl⟩

theorem passes_append {lines lines' : List Line} :
    c.Passes (lines ++ lines') c' ↔ ∃ between, c.Passes lines between ∧
      between.Passes lines' c' := by
  constructor
  · rintro ⟨hrest, hlast⟩
    refine ⟨⟨lines.foldl (fun _ l => l.number) c.last, lines' ++ c'.rest⟩, ⟨?_, rfl⟩, rfl, ?_⟩
    · rw [hrest, List.append_assoc]
    · rw [hlast, List.foldl_append]
  · rintro ⟨between, ⟨hrest, hlast⟩, hrest', hlast'⟩
    exact ⟨by rw [hrest, hrest', List.append_assoc], by rw [hlast', hlast, List.foldl_append]⟩

theorem passes_cons {l : Line} {lines : List Line} :
    c.Passes (l :: lines) c' ↔ ∃ between, c.Passes [l] between ∧ between.Passes lines c' :=
  @passes_append _ _ [l] lines

end Cursor

namespace Reader

variable {c c' : Cursor}

theorem line_eq_ok {what : String} {l : Line} :
    line what c = .ok (l, c') ↔ c.Passes [l] c' := by
  obtain ⟨last, rest⟩ := c
  obtain ⟨last', rest'⟩ := c'
  cases rest with
  | nil => simp [line, fail, Cursor.Passes]
  | cons first rest =>
    simp only [line, Cursor.Passes, Except.ok.injEq, Prod.mk.injEq, Cursor.mk.injEq,
      List.singleton_append, List.cons.injEq, List.foldl_cons, List.foldl_nil]
    constructor
    · rintro ⟨rfl, rfl, rfl⟩
      exact ⟨⟨rfl, rfl⟩, rfl⟩
    · rintro ⟨⟨rfl, rfl⟩, rfl⟩
      exact ⟨rfl, rfl, rfl⟩

theorem integerIn_eq_ok {number : Nat} {text : String} {value : Int} :
    integerIn number text = .ok value ↔ Text.integer? text = some value := by
  unfold integerIn
  cases Text.integer? text <;> simp [fail]

theorem indexIn_eq_ok {number : Nat} {value : Int} {n : Nat} :
    indexIn number value = .ok n ↔ value = n := by
  unfold indexIn
  split
  · next hneg =>
    constructor
    · intro h
      cases h
    · omega
  · next hneg =>
    rw [Except.ok.injEq]
    omega

theorem integer_eq_ok {what : String} {value : Int} :
    integer what c = .ok (value, c') ↔ ∃ l, c.Passes [l] c' ∧ l.IsInteger value := by
  simp only [integer, bind_eq_ok, pure_eq_ok, Prod.exists, line_eq_ok, integerIn_eq_ok,
    Prod.mk.injEq]
  constructor
  · rintro ⟨l, _, hl, _, hvalue, rfl, rfl⟩
    exact ⟨l, hl, hvalue⟩
  · rintro ⟨l, hl, hvalue⟩
    exact ⟨l, c', hl, value, hvalue, rfl, rfl⟩

theorem count_eq_ok {what : String} {n : Nat} :
    count what c = .ok (n, c') ↔ ∃ l, c.Passes [l] c' ∧ l.IsInteger n := by
  simp only [count, bind_eq_ok, pure_eq_ok, Prod.exists, line_eq_ok, integerIn_eq_ok,
    indexIn_eq_ok, Prod.mk.injEq]
  constructor
  · rintro ⟨l, _, hl, _, hvalue, _, rfl, rfl, rfl⟩
    exact ⟨l, hl, hvalue⟩
  · rintro ⟨l, hl, hvalue⟩
    exact ⟨l, c', hl, n, hvalue, n, rfl, rfl, rfl⟩

theorem endTag_eq_ok {tag : String} {u : Unit} :
    endTag tag c = .ok (u, c') ↔ ∃ l, c.Passes [l] c' ∧ l.text = tag := by
  simp only [endTag, bind_eq_ok, Prod.exists, line_eq_ok]
  constructor
  · rintro ⟨l, between, hl, h⟩
    split at h
    · next htag =>
      cases pure_eq_ok.mp h
      exact ⟨l, hl, htag⟩
    · cases h
  · rintro ⟨l, hl, htag⟩
    exact ⟨l, c', hl, by rw [if_pos htag]; rfl⟩

theorem integers_eq_ok {what : String} {least number : Nat} {values : List Int} :
    integers what least c = .ok ((number, values), c') ↔
      ∃ l, c.Passes [l] c' ∧ l.number = number ∧ l.AreIntegers values ∧ least ≤ values.length := by
  simp only [integers, bind_eq_ok, Prod.exists, line_eq_ok, Fallible.mapM_eq_ok, integerIn_eq_ok]
  constructor
  · rintro ⟨l, between, hl, values', hvalues, h⟩
    split at h
    · cases h
    · next hleast =>
      cases pure_eq_ok.mp h
      exact ⟨l, hl, rfl, hvalues, Nat.le_of_not_lt hleast⟩
  · rintro ⟨l, hl, rfl, hvalues, hleast⟩
    exact ⟨l, c', hl, values, hvalues, by rw [if_neg (Nat.not_lt.mpr hleast)]; rfl⟩

/-- Reading one line of a shape a number of times. -/
theorem times_eq_ok {α : Type} {read : Reader α} {Shape : Line → α → Prop}
    (hread : ∀ {c a c'}, read c = .ok (a, c') ↔ ∃ l, c.Passes [l] c' ∧ Shape l a) {n : Nat}
    {as : List α} :
    times n read c = .ok (as, c') ↔
      ∃ lines, c.Passes lines c' ∧ lines.length = n ∧ List.Forall₂ Shape lines as := by
  induction n generalizing c c' as with
  | zero =>
    rw [times, Except.ok.injEq, Prod.mk.injEq]
    constructor
    · rintro ⟨rfl, rfl⟩
      exact ⟨[], Cursor.passes_nil.mpr rfl, rfl, .nil⟩
    · rintro ⟨lines, hlines, hlength, hshape⟩
      obtain rfl := List.eq_nil_of_length_eq_zero hlength
      cases hshape
      exact ⟨rfl, (Cursor.passes_nil.mp hlines).symm⟩
  | succ n ih =>
    simp only [times, bind_eq_ok, pure_eq_ok, Prod.exists, hread, ih, Prod.mk.injEq]
    constructor
    · rintro ⟨a, between, ⟨l, hl, ha⟩, as', _, ⟨lines, hlines, rfl, has⟩, rfl, rfl⟩
      exact ⟨l :: lines, Cursor.passes_cons.mpr ⟨between, hl, hlines⟩, rfl, .cons ha has⟩
    · rintro ⟨lines, hlines, hlength, hshape⟩
      cases hshape with
      | nil => cases hlength
      | @cons l a lines as' ha has =>
        obtain ⟨between, hl, hlines⟩ := Cursor.passes_cons.mp hlines
        exact ⟨a, between, ⟨l, hl, ha⟩, as', c', ⟨lines, hlines, Nat.succ.inj hlength, has⟩, rfl,
          rfl⟩

theorem fact_eq_ok {what : String} {f : Fact} :
    fact what c = .ok (f, c') ↔ ∃ l, c.Passes [l] c' ∧ l.IsFact f := by
  simp only [fact, bind_eq_ok, pure_eq_ok, Prod.exists, integers_eq_ok, indexIn_eq_ok,
    Prod.mk.injEq]
  constructor
  · rintro ⟨number, values, between, ⟨l, hl, hnumber, hvalues, hleast⟩, var, hvar, value, hvalue,
      rfl, rfl⟩
    match values, hleast with
    | _ :: _ :: more, _ =>
      obtain rfl : _ = (var : Int) := hvar
      obtain rfl : _ = (value : Int) := hvalue
      exact ⟨l, hl, hnumber, more, hvalues⟩
  · rintro ⟨l, hl, hnumber, more, hvalues⟩
    exact ⟨f.line, _, c', ⟨l, hl, hnumber, hvalues, by simp⟩, f.var, rfl, f.value, rfl, rfl, rfl⟩

theorem change_eq_ok {change : Change} :
    Reader.change c = .ok (change, c') ↔ ∃ l, c.Passes [l] c' ∧ l.IsChange change := by
  simp only [Reader.change, bind_eq_ok, Prod.exists, integers_eq_ok]
  constructor
  · rintro ⟨number, values, between, ⟨l, hl, hnumber, hvalues, hleast⟩, h⟩
    split at h
    · cases h
    · next hzero =>
      obtain ⟨var, hvar, h⟩ := bind_eq_ok.mp h
      obtain ⟨next, hnext, h⟩ := bind_eq_ok.mp h
      cases pure_eq_ok.mp h
      match values, hleast with
      | _ :: _ :: prev :: _ :: more, _ =>
        obtain rfl : _ = (0 : Int) := Decidable.not_not.mp hzero
        obtain rfl : _ = (var : Int) := indexIn_eq_ok.mp hvar
        obtain rfl : _ = (next : Int) := indexIn_eq_ok.mp hnext
        exact ⟨l, hl, hnumber, more, hvalues⟩
  · rintro ⟨l, hl, hnumber, more, hvalues⟩
    refine ⟨change.line, _, c', ⟨l, hl, hnumber, hvalues, by simp⟩, ?_⟩
    rw [if_neg (by simp)]
    exact bind_eq_ok.mpr ⟨change.var, indexIn_eq_ok.mpr rfl,
      bind_eq_ok.mpr ⟨change.next, indexIn_eq_ok.mpr rfl, rfl⟩⟩

theorem cost_eq_ok {n : Nat} :
    cost c = .ok (n, c') ↔ ∃ l, c.Passes [l] c' ∧ l.IsInteger n ∧ n < 4294967296 := by
  simp only [cost, bind_eq_ok, Prod.exists, integer_eq_ok]
  constructor
  · rintro ⟨value, between, ⟨l, hl, hvalue⟩, h⟩
    split at h
    · cases h
    · next hlimit =>
      cases pure_eq_ok.mp h
      obtain ⟨n, rfl⟩ : ∃ n : Nat, value = n := ⟨value.toNat, by omega⟩
      exact ⟨l, hl, hvalue, by simp only [Int.toNat_natCast]; omega⟩
  · rintro ⟨l, hl, hvalue, hlimit⟩
    exact ⟨n, c', ⟨l, hl, hvalue⟩, by rw [if_neg (by omega)]; rfl⟩

/-! ### Blocks -/

theorem counted_eq_ok {α : Type} {what : String} {bytes : Nat} {read : Reader α}
    {Shape : Line → α → Prop}
    (hread : ∀ {c a c'}, read c = .ok (a, c') ↔ ∃ l, c.Passes [l] c' ∧ Shape l a) {as : List α} :
    counted what bytes read c = .ok (as, c') ↔
      ∃ size lines, c.Passes (size :: lines) c' ∧ size.IsInteger lines.length ∧
        List.Forall₂ Shape lines as ∧ as.length ≤ Word.capacity bytes := by
  simp only [counted, bind_eq_ok, Prod.exists, lift_eq_ok, reserve_eq_ok, count_eq_ok,
    times_eq_ok hread]
  constructor
  · rintro ⟨n, between, ⟨size, hsize, hn⟩, -, hroom, lines, hlines, rfl, hshape⟩
    exact ⟨size, lines, Cursor.passes_cons.mpr ⟨between, hsize, hlines⟩, hn, hshape,
      hshape.length_eq ▸ hroom⟩
  · rintro ⟨size, lines, hpasses, hn, hshape, hroom⟩
    obtain ⟨between, hsize, hlines⟩ := Cursor.passes_cons.mp hpasses
    exact ⟨_, between, ⟨size, hsize, hn⟩, (), hshape.length_eq ▸ hroom, lines, hlines, rfl, hshape⟩

theorem countedLines_eq_ok {what which : String} {bytes : Nat} {labels : List Line} :
    counted what bytes (line which) c = .ok (labels, c') ↔
      ∃ size, c.Passes (size :: labels) c' ∧ size.IsInteger labels.length ∧
        labels.length ≤ Word.capacity bytes := by
  have hread {c c' : Cursor} {l : Line} :
      line which c = .ok (l, c') ↔ ∃ l', c.Passes [l'] c' ∧ l' = l := by
    simp [line_eq_ok]
  simp only [counted_eq_ok hread, List.forall₂_eq_eq_eq]
  constructor
  · rintro ⟨size, _, hpasses, hn, rfl, hroom⟩
    exact ⟨size, hpasses, hn, hroom⟩
  · rintro ⟨size, hpasses, hn, hroom⟩
    exact ⟨size, labels, hpasses, hn, rfl, hroom⟩

/-- Only the line with the number matters for a crash. -/
theorem counted_eq_crash {α : Type} {what : String} {bytes : Nat} {read : Reader α}
    {cause : Crash} :
    counted what bytes read c = .error (.crash cause) ↔
      ∃ size rest, ∃ n : Nat, c.rest = size :: rest ∧ size.IsInteger n ∧ Word.capacity bytes < n ∧
        cause = .capacity := by
  simp only [counted, lift_bind_eq_crash, bind_calm_eq_crash fun _ => calm_lift, Prod.exists,
    count_eq_ok, reserve_eq_crash]
  constructor
  · rintro ⟨n, between, ⟨size, hsize, hn⟩, hmany⟩
    exact ⟨size, between.rest, n, hsize.1, hn, hmany⟩
  · rintro ⟨size, rest, n, hrest, hn, hmany⟩
    exact ⟨n, ⟨size.number, rest⟩, ⟨size, ⟨hrest, rfl⟩, hn⟩, hmany⟩

theorem variableBlock_eq_ok {v : Variable} {tag : Line} (htag : tag.text = "begin_variable") :
    variableBlock c = .ok (v, c') ↔
      ∃ body, c.Passes body c' ∧ Body tag body (.variable v) ∧ (Block.variable v).Roomy := by
  simp only [variableBlock, bind_eq_ok, pure_eq_ok, Prod.exists, lift_eq_ok, line_eq_ok,
    integer_eq_ok, countedLines_eq_ok, endTag_eq_ok, Prod.mk.injEq]
  constructor
  · rintro ⟨name, c₁, hname, depth, c₂, ⟨layer, hlayer, hdepth⟩, labels, c₃,
      ⟨size, hlabels, hn, hroom⟩, -, c₄, ⟨close, hclose, htext⟩, rfl, rfl⟩
    refine ⟨_, ?_, Body.declaration htag hdepth hn htext, by simpa [Block.Roomy] using hroom⟩
    exact Cursor.passes_cons.mpr ⟨c₁, hname, Cursor.passes_cons.mpr ⟨c₂, hlayer,
      Cursor.passes_append.mpr ⟨c₃, hlabels, hclose⟩⟩⟩
  · rintro ⟨body, hbody, hv, hroom⟩
    cases hv with
    | @declaration name layer size close labels depth _ hdepth hn htext =>
      obtain ⟨c₁, hname, hbody⟩ := Cursor.passes_cons.mp hbody
      obtain ⟨c₂, hlayer, hbody⟩ := Cursor.passes_cons.mp hbody
      rw [← List.cons_append] at hbody
      obtain ⟨c₃, hlabels, hclose⟩ := Cursor.passes_append.mp hbody
      exact ⟨name, c₁, hname, depth, c₂, ⟨layer, hlayer, hdepth⟩, labels, c₃,
        ⟨size, hlabels, hn, by simpa [Block.Roomy] using hroom⟩, (), c', ⟨close, hclose, htext⟩,
        rfl, rfl⟩

theorem variableBlock_eq_crash {tag : Line} {cause : Crash} (htag : tag.text = "begin_variable") :
    variableBlock c = .error (.crash cause) ↔ Announces tag c.rest ∧ cause = .capacity := by
  simp only [variableBlock, lift_bind_eq_crash, Prod.exists, line_eq_ok, integer_eq_ok,
    bind_calm_eq_crash fun _ => calm_lift.bind fun _ => calm_pure, counted_eq_crash]
  constructor
  · rintro ⟨name, c₁, hname, depth, c₂, ⟨layer, hlayer, hdepth⟩, size, rest, n, hrest, hn, hmany,
      rfl⟩
    rw [hname.1, hlayer.1, hrest]
    exact ⟨.labels htag hdepth hn hmany, rfl⟩
  · rintro ⟨hannounces, rfl⟩
    obtain ⟨last, rest⟩ := c
    cases hannounces with
    | @labels name layer size rest depth n _ hdepth hn hmany =>
      exact ⟨name, ⟨_, layer :: size :: rest⟩, ⟨rfl, rfl⟩, depth, ⟨_, size :: rest⟩,
        ⟨layer, ⟨rfl, rfl⟩, hdepth⟩, size, rest, n, rfl, hn, hmany, rfl⟩
    | prevail hother => simp [htag] at hother
    | changes hother => simp [htag] at hother
    | facts hother => simp [htag] at hother

theorem operatorBlock_eq_ok {op : Operator} {tag : Line} (htag : tag.text = "begin_operator") :
    operatorBlock c = .ok (op, c') ↔
      ∃ body, c.Passes body c' ∧ Body tag body (.operator op) ∧ (Block.operator op).Roomy := by
  simp only [operatorBlock, bind_eq_ok, Prod.exists, lift_eq_ok, line_eq_ok]
  constructor
  · rintro ⟨name, c₁, hname, h⟩
    split at h
    · cases h
    · next header hheader =>
      simp only [bind_eq_ok, pure_eq_ok, Prod.exists, lift_eq_ok, cost_eq_ok, endTag_eq_ok,
        counted_eq_ok fact_eq_ok, counted_eq_ok change_eq_ok, Prod.mk.injEq] at h
      obtain ⟨prevail, c₂, ⟨prevailCount, prevailLines, hprevailLines, hnumPrevail, hprevail,
        hprevailRoom⟩, changes, c₃, ⟨changeCount, changeLines, hchangeLines, hnumChanges, hchanges,
        hchangeRoom⟩, cost, c₄, ⟨price, hprice, hcost, hlimit⟩, -, c₅, ⟨close, hclose, htext⟩, rfl,
        rfl⟩ := h
      refine ⟨_, ?_, .operator htag hheader hnumPrevail hprevail hnumChanges hchanges hcost hlimit
        htext, hprevailRoom, hchangeRoom⟩
      exact Cursor.passes_cons.mpr ⟨c₁, hname, Cursor.passes_append.mpr ⟨c₂, hprevailLines,
        Cursor.passes_append.mpr ⟨c₃, hchangeLines, Cursor.passes_cons.mpr ⟨c₄, hprice, hclose⟩⟩⟩⟩
  · rintro ⟨body, hbody, hop, hprevailRoom, hchangeRoom⟩
    cases hop with
    | @operator name prevailCount changeCount price close prevailLines changeLines _ _ hheader
        hnumPrevail hprevail hnumChanges hchanges hcost hlimit htext =>
      obtain ⟨c₁, hname, hbody⟩ := Cursor.passes_cons.mp hbody
      rw [← List.cons_append] at hbody
      obtain ⟨c₂, hprevailLines, hbody⟩ := Cursor.passes_append.mp hbody
      rw [← List.cons_append] at hbody
      obtain ⟨c₃, hchangeLines, hbody⟩ := Cursor.passes_append.mp hbody
      obtain ⟨c₄, hprice, hclose⟩ := Cursor.passes_cons.mp hbody
      refine ⟨name, c₁, hname, ?_⟩
      rw [hheader]
      simp only [bind_eq_ok, pure_eq_ok, Prod.exists, lift_eq_ok, cost_eq_ok, endTag_eq_ok,
        counted_eq_ok fact_eq_ok, counted_eq_ok change_eq_ok, Prod.mk.injEq]
      exact ⟨op.prevail, c₂, ⟨prevailCount, prevailLines, hprevailLines, hnumPrevail, hprevail,
        hprevailRoom⟩, op.changes, c₃, ⟨changeCount, changeLines, hchangeLines, hnumChanges,
        hchanges, hchangeRoom⟩, op.cost, c₄, ⟨price, hprice, hcost, hlimit⟩, (), c',
        ⟨close, hclose, htext⟩, rfl, rfl⟩

theorem operatorBlock_eq_crash {tag : Line} {cause : Crash} (htag : tag.text = "begin_operator") :
    operatorBlock c = .error (.crash cause) ↔ Announces tag c.rest ∧ cause = .capacity := by
  simp only [operatorBlock, lift_bind_eq_crash, Prod.exists, line_eq_ok]
  constructor
  · rintro ⟨name, c₁, hname, h⟩
    rw [hname.1]
    split at h
    · exact absurd h (calm_lift cause)
    · next header hheader =>
      obtain h | ⟨⟨prevail, c₂⟩, hprevail, h⟩ := bind_eq_error.mp h
      · obtain ⟨size, rest, n, hrest, hn, hmany, hcause⟩ := counted_eq_crash.mp h
        exact ⟨hrest ▸ .prevail htag hheader hn hmany, hcause⟩
      · obtain ⟨prevailCount, prevailLines, hpasses, hn, hfacts, -⟩ :=
          (counted_eq_ok fact_eq_ok).mp hprevail
        rw [bind_calm_eq_crash fun _ => calm_lift.bind fun _ => calm_lift.bind fun _ => calm_pure] at h
        obtain ⟨size, rest, m, hrest, hm, hmany, hcause⟩ := counted_eq_crash.mp h
        rw [hpasses.1, hrest]
        exact ⟨.changes htag hheader hn hfacts hm hmany, hcause⟩
  · rintro ⟨hannounces, rfl⟩
    obtain ⟨last, rest⟩ := c
    cases hannounces with
    | labels hother => simp [htag] at hother
    | @prevail name prevailCount rest header n _ hheader hn hmany =>
      refine ⟨name, ⟨_, prevailCount :: rest⟩, ⟨rfl, rfl⟩, ?_⟩
      rw [hheader]
      exact bind_eq_error.mpr (.inl (counted_eq_crash.mpr ⟨_, _, n, rfl, hn, hmany, rfl⟩))
    | @changes name prevailCount changeCount prevailLines rest header prevail n _ hheader hn hfacts
        hm hmany =>
      refine ⟨name, ⟨_, prevailCount :: (prevailLines ++ changeCount :: rest)⟩, ⟨rfl, rfl⟩, ?_⟩
      rw [hheader]
      refine bind_eq_error.mpr ?_
      by_cases hroom : prevail.length ≤ Word.capacity factBytes
      · refine .inr ⟨(prevail, ⟨(prevailCount :: prevailLines).foldl (fun _ l => l.number) name.number,
          changeCount :: rest⟩), (counted_eq_ok fact_eq_ok).mpr ⟨prevailCount, prevailLines, ⟨rfl, rfl⟩,
          hn, hfacts, hroom⟩, ?_⟩
        exact bind_eq_error.mpr (.inl (counted_eq_crash.mpr ⟨_, _, n, rfl, hm, hmany, rfl⟩))
      · rw [← hfacts.length_eq, Nat.not_le] at hroom
        exact .inl (counted_eq_crash.mpr ⟨_, _, _, rfl, hn, hroom, rfl⟩)
    | facts hother => simp [htag] at hother

/-- The values of a state block are the lines up to the first end tag, which is no integer. -/
theorem stateValues_eq_ok {last : Nat} {lines : List Line} {values : List Nat} :
    stateValues last lines = .ok (values, c') ↔ ∃ front close,
      Cursor.Passes ⟨last, lines⟩ (front ++ [close]) c' ∧
        List.Forall₂ (fun l (value : Nat) => l.IsInteger value) front values ∧
          close.text = "end_state" := by
  induction lines generalizing last values c' with
  | nil => simp [stateValues, fail, Cursor.Passes]
  | cons l lines ih =>
    have hfirst : Cursor.Passes ⟨last, l :: lines⟩ [l] ⟨l.number, lines⟩ := ⟨rfl, rfl⟩
    rw [stateValues]
    split
    · next hclose =>
      rw [Except.ok.injEq, Prod.mk.injEq]
      constructor
      · rintro ⟨rfl, rfl⟩
        exact ⟨[], l, hfirst, .nil, hclose⟩
      · rintro ⟨front, close, hpasses, hvalues, -⟩
        cases hvalues with
        | nil =>
          obtain rfl := (List.cons.inj hpasses.1).1
          exact ⟨rfl, hfirst.unique hpasses⟩
        | cons hvalue hvalues =>
          obtain rfl := (List.cons.inj hpasses.1).1
          rw [Line.IsInteger, hclose] at hvalue
          cases hvalue.symm.trans (by decide : Text.integer? "end_state" = none)
    · next hclose =>
      simp only [bind_eq_ok, pure_eq_ok, Prod.exists, integerIn_eq_ok, indexIn_eq_ok, ih,
        Prod.mk.injEq]
      constructor
      · rintro ⟨_, hvalue, value, rfl, values, _, ⟨front, close, hpasses, hvalues, htext⟩, rfl, rfl⟩
        exact ⟨l :: front, close, Cursor.passes_cons.mpr ⟨_, hfirst, hpasses⟩, .cons hvalue hvalues,
          htext⟩
      · rintro ⟨front, close, hpasses, hvalues, htext⟩
        cases hvalues with
        | nil =>
          obtain rfl := (List.cons.inj hpasses.1).1
          exact absurd htext hclose
        | @cons _ value front values hvalue hvalues =>
          obtain ⟨rfl, hrest⟩ := List.cons.inj hpasses.1
          exact ⟨_, hvalue, value, rfl, values, c', ⟨front, close, ⟨hrest, hpasses.2⟩, hvalues,
            htext⟩, rfl, rfl⟩

theorem factsBlock_eq_ok {close : String} {facts : List Fact} :
    factsBlock close c = .ok (facts, c') ↔ ∃ size lines last,
      c.Passes (size :: (lines ++ [last])) c' ∧ size.IsInteger lines.length ∧
        List.Forall₂ Line.IsFact lines facts ∧ last.text = close ∧
          facts.length ≤ Word.capacity factBytes := by
  simp only [factsBlock, bind_eq_ok, pure_eq_ok, Prod.exists, lift_eq_ok, counted_eq_ok fact_eq_ok,
    endTag_eq_ok, Prod.mk.injEq]
  constructor
  · rintro ⟨facts, c₁, ⟨size, lines, hlines, hn, hfacts, hroom⟩, -, c₂, ⟨last, hlast, htext⟩, rfl,
      rfl⟩
    exact ⟨size, lines, last, Cursor.passes_append.mpr ⟨c₁, hlines, hlast⟩, hn, hfacts, htext, hroom⟩
  · rintro ⟨size, lines, last, hpasses, hn, hfacts, htext, hroom⟩
    rw [← List.cons_append] at hpasses
    obtain ⟨c₁, hlines, hlast⟩ := Cursor.passes_append.mp hpasses
    exact ⟨facts, c₁, ⟨size, lines, hlines, hn, hfacts, hroom⟩, (), c', ⟨last, hlast, htext⟩, rfl,
      rfl⟩

theorem factsBlock_eq_crash {close : String} {tag : Line} {cause : Crash}
    (htag : tag.text = "begin_goal" ∨ tag.text = "begin_mutex_group") :
    factsBlock close c = .error (.crash cause) ↔ Announces tag c.rest ∧ cause = .capacity := by
  simp only [factsBlock, bind_calm_eq_crash fun _ => calm_lift.bind fun _ => calm_pure,
    counted_eq_crash]
  constructor
  · rintro ⟨size, rest, n, hrest, hn, hmany, rfl⟩
    rw [hrest]
    exact ⟨.facts htag hn hmany, rfl⟩
  · rintro ⟨hannounces, rfl⟩
    obtain ⟨last, rest⟩ := c
    cases hannounces with
    | labels hother => rcases htag with htag | htag <;> simp [htag] at hother
    | prevail hother => rcases htag with htag | htag <;> simp [htag] at hother
    | changes hother => rcases htag with htag | htag <;> simp [htag] at hother
    | facts _ hn hmany => exact ⟨_, _, _, rfl, hn, hmany, rfl⟩

theorem stateBlock_eq_ok {values : List Nat} {tag : Line} (htag : tag.text = "begin_state") :
    stateBlock c = .ok (values, c') ↔
      ∃ body, c.Passes body c' ∧ Body tag body (.state tag.number values) := by
  rw [stateBlock, stateValues_eq_ok]
  constructor
  · rintro ⟨front, close, hpasses, hvalues, htext⟩
    exact ⟨_, hpasses, .state htag hvalues htext⟩
  · rintro ⟨body, hpasses, hbody⟩
    cases hbody with
    | state _ hvalues htext => exact ⟨_, _, hpasses, hvalues, htext⟩

theorem goalBlock_eq_ok {facts : List Fact} {tag : Line} (htag : tag.text = "begin_goal") :
    factsBlock "end_goal" c = .ok (facts, c') ↔
      ∃ body, c.Passes body c' ∧ Body tag body (.goal facts) ∧ (Block.goal facts).Roomy := by
  rw [factsBlock_eq_ok]
  constructor
  · rintro ⟨size, lines, last, hpasses, hn, hfacts, htext, hroom⟩
    exact ⟨_, hpasses, .goal htag hn hfacts htext, hroom⟩
  · rintro ⟨body, hpasses, hbody, hroom⟩
    cases hbody with
    | goal _ hn hfacts htext => exact ⟨_, _, _, hpasses, hn, hfacts, htext, hroom⟩

theorem mutexBlock_eq_ok {facts : List Fact} {tag : Line} (htag : tag.text = "begin_mutex_group") :
    factsBlock "end_mutex_group" c = .ok (facts, c') ↔
      ∃ body, c.Passes body c' ∧ Body tag body (.mutex facts) ∧ (Block.mutex facts).Roomy := by
  rw [factsBlock_eq_ok]
  constructor
  · rintro ⟨size, lines, last, hpasses, hn, hfacts, htext, hroom⟩
    exact ⟨_, hpasses, .mutex htag hn hfacts htext, hroom⟩
  · rintro ⟨body, hpasses, hbody, hroom⟩
    cases hbody with
    | mutex _ hn hfacts htext => exact ⟨_, _, _, hpasses, hn, hfacts, htext, hroom⟩

/-- The shapes that a reader of blocks finds behind a line: the rest of a block, or nothing if the
line is no begin tag. -/
inductive Opens (l : Line) : List Line → Option Block → Prop
  | skipped (hl : l.text ∉ beginTags) : Opens l [] none
  | opened {body : List Line} {block : Block} (hbody : Body l body block) : Opens l body (some block)

/-- A reader of the blocks of one kind finds just what its tag opens. -/
theorem opened_eq_ok {α : Type} {x : Except Stop (α × Cursor)} {wrap : α → Block} {l : Line}
    {found : Option Block} (htag : l.text ∈ beginTags)
    (hread : ∀ {a c'}, x = .ok (a, c') ↔
      ∃ body, c.Passes body c' ∧ Body l body (wrap a) ∧ (wrap a).Roomy)
    (hkind : ∀ {body block}, Body l body block → ∃ a, block = wrap a) :
    (do let (a, c) ← x; return (some (wrap a), c)) = .ok (found, c') ↔
      ∃ body, c.Passes body c' ∧ Opens l body found ∧ ∀ block ∈ found, block.Roomy := by
  simp only [bind_eq_ok, pure_eq_ok, Prod.exists, hread, Prod.mk.injEq]
  constructor
  · rintro ⟨a, _, ⟨body, hpasses, hbody, hroom⟩, rfl, rfl⟩
    exact ⟨body, hpasses, .opened hbody, fun _ hblock => Option.some.inj hblock ▸ hroom⟩
  · rintro ⟨body, hpasses, hopens, hroom⟩
    cases hopens with
    | skipped hl => exact absurd htag hl
    | opened hbody =>
      obtain ⟨a, rfl⟩ := hkind hbody
      exact ⟨a, c', ⟨body, hpasses, hbody, hroom _ rfl⟩, rfl, rfl⟩

theorem block?_eq_ok {l : Line} {found : Option Block} :
    block? l c = .ok (found, c') ↔
      ∃ body, c.Passes body c' ∧ Opens l body found ∧ ∀ block ∈ found, block.Roomy := by
  unfold block?
  split_ifs with hvariable hoperator hstate hgoal hmutex
  · refine opened_eq_ok (by simp [hvariable, beginTags]) (variableBlock_eq_ok hvariable) ?_
    rintro _ _ (_ | _ | _ | _ | _) <;> simp_all
  · refine opened_eq_ok (by simp [hoperator, beginTags]) (operatorBlock_eq_ok hoperator) ?_
    rintro _ _ (_ | _ | _ | _ | _) <;> simp_all
  · refine opened_eq_ok (by simp [hstate, beginTags]) ?_ ?_
    · simp [lift_eq_ok, stateBlock_eq_ok hstate, Block.Roomy]
    · rintro _ _ (_ | _ | _ | _ | _) <;> simp_all
  · refine opened_eq_ok (by simp [hgoal, beginTags]) (goalBlock_eq_ok hgoal) ?_
    rintro _ _ (_ | _ | _ | _ | _) <;> simp_all
  · refine opened_eq_ok (by simp [hmutex, beginTags]) (mutexBlock_eq_ok hmutex) ?_
    rintro _ _ (_ | _ | _ | _ | _) <;> simp_all
  · rw [pure_eq_ok, Prod.mk.injEq]
    have hl : l.text ∉ beginTags := by simp [beginTags, *]
    constructor
    · rintro ⟨rfl, rfl⟩
      exact ⟨[], Cursor.passes_nil.mpr rfl, .skipped hl, by simp⟩
    · rintro ⟨body, hpasses, hopens, -⟩
      cases hopens with
      | skipped => exact ⟨rfl, (Cursor.passes_nil.mp hpasses).symm⟩
      | opened hbody => cases hbody <;> simp_all

theorem block?_eq_crash {l : Line} {cause : Crash} :
    block? l c = .error (.crash cause) ↔ Announces l c.rest ∧ cause = .capacity := by
  rcases c with ⟨last, rest⟩
  unfold block?
  split_ifs with hvariable hoperator hstate hgoal hmutex
  · rw [bind_calm_eq_crash fun _ => calm_pure, variableBlock_eq_crash hvariable]
  · rw [bind_calm_eq_crash fun _ => calm_pure, operatorBlock_eq_crash hoperator]
  · refine iff_of_false (calm_lift.bind (fun _ => calm_pure) cause) fun h => ?_
    cases h.1 <;> simp_all
  · rw [bind_calm_eq_crash fun _ => calm_pure, factsBlock_eq_crash (.inl hgoal)]
  · rw [bind_calm_eq_crash fun _ => calm_pure, factsBlock_eq_crash (.inr hmutex)]
  · refine iff_of_false (calm_pure cause) fun h => ?_
    cases h.1 <;> simp_all

/-- Enough rounds read the lines exactly as the format splits them, if there is room for the blocks. -/
theorem splits_of_blocksWithin {rounds : Nat} {blocks : List Block} (hrounds : c.rest.length ≤ rounds)
    (h : blocksWithin rounds c = .ok (blocks, c')) :
    Splits c.rest blocks ∧ ∀ block ∈ blocks, block.Roomy := by
  induction rounds generalizing c blocks with
  | zero =>
    rw [List.eq_nil_of_length_eq_zero (Nat.le_zero.mp hrounds)]
    cases h
    exact ⟨.nil, nofun⟩
  | succ rounds ih =>
    rw [blocksWithin] at h
    split at h
    · next hrest =>
      cases h
      exact ⟨hrest ▸ .nil, nofun⟩
    · next l rest hrest =>
      obtain ⟨⟨found, c₁⟩, hfound, h⟩ := bind_eq_ok.mp h
      obtain ⟨⟨others, c₂⟩, hothers, h⟩ := bind_eq_ok.mp h
      cases pure_eq_ok.mp h
      obtain ⟨body, hpasses, hopens, hroom⟩ := block?_eq_ok.mp hfound
      obtain rfl : rest = body ++ c₁.rest := hpasses.1
      obtain ⟨hsplits, hrooms⟩ := ih (by simp [hrest] at hrounds; omega) hothers
      rw [hrest]
      cases hopens with
      | skipped hl => exact ⟨.skip hl hsplits, hrooms⟩
      | opened hbody =>
        exact ⟨.block hbody hsplits, List.forall_mem_cons.mpr ⟨hroom _ rfl, hrooms⟩⟩

theorem blocksWithin_of_splits {lines : List Line} {blocks : List Block} (h : Splits lines blocks)
    (hroom : ∀ block ∈ blocks, block.Roomy) {rounds : Nat} (hrest : c.rest = lines)
    (hrounds : lines.length ≤ rounds) : ∃ c', blocksWithin rounds c = .ok (blocks, c') := by
  induction h generalizing c rounds with
  | nil => cases rounds <;> simp [blocksWithin, hrest]
  | @skip l rest blocks hl _ ih =>
    cases rounds with
    | zero => simp at hrounds
    | succ rounds =>
      obtain ⟨c', hc'⟩ := ih hroom (c := ⟨l.number, rest⟩) rfl (Nat.le_of_succ_le_succ hrounds)
      refine ⟨c', ?_⟩
      rw [blocksWithin, hrest]
      exact bind_eq_ok.mpr ⟨(none, _),
        block?_eq_ok.mpr ⟨[], Cursor.passes_nil.mpr rfl, .skipped hl, nofun⟩,
        bind_eq_ok.mpr ⟨_, hc', rfl⟩⟩
  | @block tag body rest block blocks hbody _ ih =>
    obtain ⟨hfirst, hothers⟩ := List.forall_mem_cons.mp hroom
    cases rounds with
    | zero => simp at hrounds
    | succ rounds =>
      have hlength : rest.length ≤ rounds := by
        simp only [List.length_cons, List.length_append] at hrounds
        omega
      obtain ⟨c', hc'⟩ :=
        ih hothers (c := ⟨body.foldl (fun _ l => l.number) tag.number, rest⟩) rfl hlength
      refine ⟨c', ?_⟩
      rw [blocksWithin, hrest]
      exact bind_eq_ok.mpr ⟨(some block, _), block?_eq_ok.mpr ⟨body, ⟨rfl, rfl⟩, .opened hbody,
        fun _ hblock => Option.some.inj hblock ▸ hfirst⟩, bind_eq_ok.mpr ⟨_, hc', rfl⟩⟩

/-- A crash is due to a block behind blocks that have been read. -/
theorem overruns_of_blocksWithin {rounds : Nat} {cause : Crash}
    (h : blocksWithin rounds c = .error (.crash cause)) : Overruns c.rest ∧ cause = .capacity := by
  induction rounds generalizing c with
  | zero => cases h
  | succ rounds ih =>
    rw [blocksWithin] at h
    split at h
    · cases h
    · next l rest hrest =>
      rw [hrest]
      obtain hfirst | ⟨⟨found, c₁⟩, hfound, hothers⟩ := bind_eq_error.mp h
      · obtain ⟨hannounces, hcause⟩ := block?_eq_crash.mp hfirst
        exact ⟨.here hannounces, hcause⟩
      · obtain ⟨body, hpasses, hopens, -⟩ := block?_eq_ok.mp hfound
        obtain rfl : rest = body ++ c₁.rest := hpasses.1
        obtain ⟨hoverruns, hcause⟩ := ih ((bind_calm_eq_crash fun _ => calm_pure).mp hothers)
        refine ⟨?_, hcause⟩
        cases hopens with
        | skipped hl => exact .skip hl hoverruns
        | opened hbody => exact .block hbody hoverruns

theorem blocksWithin_of_overruns {lines : List Line} (h : Overruns lines) {rounds : Nat}
    (hrest : c.rest = lines) (hrounds : lines.length ≤ rounds) :
    blocksWithin rounds c = .error (.crash .capacity) := by
  induction h generalizing c rounds with
  | @here tag rest hannounces =>
    cases rounds with
    | zero => simp at hrounds
    | succ rounds =>
      rw [blocksWithin, hrest]
      exact bind_eq_error.mpr (.inl (block?_eq_crash.mpr ⟨hannounces, rfl⟩))
  | @skip l rest hl _ ih =>
    cases rounds with
    | zero => simp at hrounds
    | succ rounds =>
      have hothers := ih (c := ⟨l.number, rest⟩) rfl (Nat.le_of_succ_le_succ hrounds)
      rw [blocksWithin, hrest]
      exact bind_eq_error.mpr (.inr ⟨(none, _),
        block?_eq_ok.mpr ⟨[], Cursor.passes_nil.mpr rfl, .skipped hl, nofun⟩,
        bind_eq_error.mpr (.inl hothers)⟩)
  | @block tag body rest block hbody _ ih =>
    cases rounds with
    | zero => simp at hrounds
    | succ rounds =>
      rw [blocksWithin, hrest]
      by_cases hroom : block.Roomy
      · have hlength : rest.length ≤ rounds := by
          simp only [List.length_cons, List.length_append] at hrounds
          omega
        have hothers :=
          ih (c := ⟨body.foldl (fun _ l => l.number) tag.number, rest⟩) rfl hlength
        exact bind_eq_error.mpr (.inr ⟨(some block, _), block?_eq_ok.mpr ⟨body, ⟨rfl, rfl⟩,
          .opened hbody, fun _ hblock => Option.some.inj hblock ▸ hroom⟩,
          bind_eq_error.mpr (.inl hothers)⟩)
      · exact bind_eq_error.mpr (.inl (block?_eq_crash.mpr ⟨hbody.announces hroom rest, rfl⟩))

end Reader

/-- A text that is read as a task is made of blocks, and the task is the one that is built from them. -/
theorem exists_blocks_of_parse {text : String} {t : Task} (h : parse text = .ok t) :
    ∃ last blocks, Splits (fileLines text) blocks ∧ (∀ block ∈ blocks, block.Roomy) ∧
      taskOf last blocks = .ok t := by
  obtain ⟨⟨blocks, c⟩, hblocks, htask⟩ := bind_eq_ok.mp h
  obtain ⟨hsplits, hroom⟩ := Reader.splits_of_blocksWithin (Nat.le_refl _) hblocks
  exact ⟨c.last, blocks, hsplits, hroom, lift_eq_ok.mp htask⟩

end StrongCyclic.Sas
