import Mathlib.Logic.Relation
import Svnsrv.CpptomlEnds

/-!
# One line after the other

A parse is a run over the lines, in which a line takes with it those that its value goes
on over. It ends at the end of the input, or at the first line that is refused. From this
follows when an iterator is moved beyond the end of its line.
-/

namespace Svnsrv.Cpptoml

open CText Toml Outcome
set_option autoImplicit false

/-- The parser between two lines. -/
structure Place where
  builder : Builder
  rest : List Bytes
  lineNumber : Nat

def Place.start (input : Bytes) : Place := ⟨⟨[], []⟩, getlines input, 0⟩

section Runs

variable (inRange : Bytes → Bool)

/-- The next line is accepted. -/
def Next (a b : Place) : Prop :=
  ∃ line rest s, a.rest = line :: rest ∧
    parseLine inRange ⟨line, rest, a.lineNumber + 1⟩ a.builder = .ok (b.builder, s) ∧
    b.rest = s.rest ∧ b.lineNumber = s.lineNumber

/-- The next line is refused. -/
def Refused (a : Place) (e : Error) : Prop :=
  ∃ line rest, a.rest = line :: rest ∧
    parseLine inRange ⟨line, rest, a.lineNumber + 1⟩ a.builder = .error e

def Reaches : Place → Place → Prop := Relation.ReflTransGen (Next inRange)

/-- How a parse ends from a place on. -/
def EndsIn : Place → Except Error Table → Prop
  | a, .ok root => ∃ b, Reaches inRange a b ∧ b.rest = [] ∧ b.builder.root = root
  | a, .error e => ∃ b, Reaches inRange a b ∧ Refused inRange b e

variable {inRange}

theorem EndsIn.next {a b : Place} {r : Except Error Table} (h : Next inRange a b)
    (hb : EndsIn inRange b r) : EndsIn inRange a r := by
  cases r with
  | ok root =>
    obtain ⟨c, hc, hend⟩ := hb
    exact ⟨c, .head h hc, hend⟩
  | error e =>
    obtain ⟨c, hc, hend⟩ := hb
    exact ⟨c, .head h hc, hend⟩

theorem endsIn_parseLoop {fuel : Nat} {a : Place} (ha : a.builder.Sound)
    (hfuel : a.rest.length < fuel) :
    EndsIn inRange a (parseLoop inRange fuel a.rest a.lineNumber a.builder) := by
  induction fuel generalizing a with
  | zero => omega
  | succ fuel ih =>
    obtain ⟨b, rest, n⟩ := a
    cases rest with
    | nil => exact ⟨_, .refl, rfl, rfl⟩
    | cons line rest =>
      rw [parseLoop]
      cases hline : parseLine inRange ⟨line, rest, n + 1⟩ b with
      | error e => exact ⟨_, .refl, line, rest, rfl, hline⟩
      | ok r =>
        obtain ⟨b', s⟩ := r
        obtain ⟨hb', hs⟩ := (parseLine_ends inRange ha ⟨line, rest, n + 1⟩).result hline
        have hrest : s.rest.length ≤ rest.length := hs.rest
        rw [List.length_cons] at hfuel
        apply EndsIn.next (b := ⟨b', s.rest, s.lineNumber⟩)
        · exact ⟨line, rest, s, rfl, hline, rfl, rfl⟩
        · exact ih hb' (Nat.lt_of_le_of_lt hrest (by omega))

/-- A run does not branch. -/
theorem Next.unique {a b c : Place} (hb : Next inRange a b) (hc : Next inRange a c) : b = c := by
  obtain ⟨line, rest, s, hrest, hline, hs, hn⟩ := hb
  obtain ⟨line', rest', t, hrest', hline', ht, hm⟩ := hc
  obtain ⟨rfl, rfl⟩ := List.cons.inj (hrest.symm.trans hrest')
  obtain ⟨hbuilder, rfl⟩ := Prod.mk.inj (Except.ok.inj (hline.symm.trans hline'))
  obtain ⟨bb, br, bn⟩ := b
  obtain ⟨cb, cr, cn⟩ := c
  simp only at hbuilder hs hn ht hm
  rw [hbuilder, hs, hn, ht, hm]

/-- Two places from which there is no next line are the same. -/
theorem Reaches.unique {a b c : Place} (hb : Reaches inRange a b) (hc : Reaches inRange a c)
    (hlast : ∀ d, ¬Next inRange b d) (hlast' : ∀ d, ¬Next inRange c d) : b = c := by
  have hright : Relator.RightUnique (Next inRange) := fun a b c => Next.unique
  cases Relation.ReflTransGen.total_of_right_unique hright hb hc with
  | inl hbc =>
    cases hbc.cases_head with
    | inl heq => exact heq
    | inr hstep => exact absurd hstep.choose_spec.1 (hlast _)
  | inr hcb =>
    cases hcb.cases_head with
    | inl heq => exact heq.symm
    | inr hstep => exact absurd hstep.choose_spec.1 (hlast' _)

theorem not_next_of_nil {a : Place} (h : a.rest = []) (b : Place) : ¬Next inRange a b := by
  intro ⟨line, rest, s, hrest, _⟩
  rw [h] at hrest
  cases hrest

theorem not_next_of_refused {a : Place} {e : Error} (h : Refused inRange a e) (b : Place) :
    ¬Next inRange a b := by
  intro ⟨line, rest, s, hrest, hline, _⟩
  obtain ⟨line', rest', hrest', herror⟩ := h
  obtain ⟨rfl, rfl⟩ := List.cons.inj (hrest.symm.trans hrest')
  cases hline.symm.trans herror

theorem EndsIn.unique {a : Place} {r r' : Except Error Table} (h : EndsIn inRange a r)
    (h' : EndsIn inRange a r') : r = r' := by
  cases r with
  | ok root =>
    obtain ⟨b, hb, hnil, rfl⟩ := h
    cases r' with
    | ok root' =>
      obtain ⟨c, hc, hnil', rfl⟩ := h'
      rw [hb.unique hc (not_next_of_nil hnil) (not_next_of_nil hnil')]
    | error e =>
      obtain ⟨c, hc, hrefused⟩ := h'
      obtain rfl := hb.unique hc (not_next_of_nil hnil) (not_next_of_refused hrefused)
      obtain ⟨line, rest, hrest, _⟩ := hrefused
      cases hnil.symm.trans hrest
  | error e =>
    obtain ⟨b, hb, hrefused⟩ := h
    cases r' with
    | ok root =>
      obtain ⟨c, hc, hnil, _⟩ := h'
      obtain rfl := hb.unique hc (not_next_of_refused hrefused) (not_next_of_nil hnil)
      obtain ⟨line, rest, hrest, _⟩ := hrefused
      cases hnil.symm.trans hrest
    | error e' =>
      obtain ⟨c, hc, hrefused'⟩ := h'
      obtain rfl := hb.unique hc (not_next_of_refused hrefused) (not_next_of_refused hrefused')
      obtain ⟨line, rest, hrest, hline⟩ := hrefused
      obtain ⟨line', rest', hrest', hline'⟩ := hrefused'
      obtain ⟨rfl, rfl⟩ := List.cons.inj (hrest.symm.trans hrest')
      rw [Except.error.inj (hline.symm.trans hline')]

/-- The parse is the run from the first line on. -/
theorem parse_eq_iff {input : Bytes} {r : Except Error Table} :
    parse inRange input = r ↔ EndsIn inRange (.start input) r := by
  have hstart : Builder.Sound ⟨[], []⟩ :=
    Builder.sound_of_focus Table.Proper.nil Table.focus_nil
  have hends : EndsIn inRange (.start input) (parse inRange input) :=
    endsIn_parseLoop (a := .start input) hstart (Nat.lt_succ_self _)
  constructor
  · intro h
    exact h ▸ hends
  · exact hends.unique

end Runs

/-! ## A bracket more -/

section Bracket

variable {it : Bytes}

theorem consumeWhitespace_bracket (it : Bytes) :
    consumeWhitespace (it ++ [rbracket]) = consumeWhitespace it ++ [rbracket] := by
  induction it with
  | nil => rfl
  | cons c it ih =>
    rw [consumeWhitespace, consumeWhitespace, List.cons_append, List.dropWhile_cons,
      List.dropWhile_cons]
    cases isBlank c with
    | true => exact ih
    | false => rfl

theorem deref_append {c : UInt8} (h : it ≠ []) : deref (it ++ [c]) = deref it := by
  cases it with
  | nil => exact absurd rfl h
  | cons a it => rfl

theorem stringLiteral_bracket (it val : Bytes) : stringLiteral quote (it ++ [rbracket]) val =
    (stringLiteral quote it val).map fun r => (r.1, r.2 ++ [rbracket]) := by
  fun_induction stringLiteral quote it val with
  | case1 val => rfl
  | case2 val c hesc =>
    rw [List.cons_append, List.nil_append, stringLiteral_escape hesc]
    rfl
  | case3 val c hesc d it ih =>
    rw [List.cons_append, List.cons_append, stringLiteral_escape hesc]
    cases parseEscapeCode d with
    | ok value => exact ih value
    | error err => rfl
  | case4 it val hesc =>
    rw [List.cons_append, stringLiteral_char (Bool.eq_false_iff.mpr hesc), if_pos rfl,
      consumeWhitespace_bracket]
    rfl
  | case5 val c it hesc hdelim ih =>
    rw [List.cons_append, stringLiteral_char (Bool.eq_false_iff.mpr hesc), if_neg hdelim, ih]

theorem takeWhile_bracket (it : Bytes) : (it ++ [rbracket]).takeWhile (fun c => !endsName c) =
    it.takeWhile fun c => !endsName c := by
  induction it with
  | nil => rfl
  | cons c it ih =>
    rw [List.cons_append, List.takeWhile_cons, List.takeWhile_cons, ih]

theorem dropWhile_bracket (it : Bytes) : (it ++ [rbracket]).dropWhile (fun c => !endsName c) =
    (it.dropWhile fun c => !endsName c) ++ [rbracket] := by
  induction it with
  | nil => rfl
  | cons c it ih =>
    rw [List.cons_append, List.dropWhile_cons, List.dropWhile_cons]
    cases endsName c with
    | true => rfl
    | false => exact ih

theorem parseKey_bracket (it : Bytes) : parseKey endsName (it ++ [rbracket]) =
    (parseKey endsName it).map fun r => (r.1, r.2 ++ [rbracket]) := by
  simp only [parseKey, consumeWhitespace_bracket, takeWhile_bracket, dropWhile_bracket]
  generalize consumeWhitespace it = it
  cases it with
  | nil => rfl
  | cons c it =>
    rw [deref_append (List.cons_ne_nil c it)]
    by_cases hquote : deref (c :: it) = quote
    · rw [if_pos hquote, if_pos hquote]
      exact stringLiteral_bracket it []
    · rw [if_neg hquote, if_neg hquote]
      cases parseBareKey ((c :: it).takeWhile fun c => !endsName c) <;> rfl

theorem consumeDot_bracket (it : Bytes) :
    consumeDot (it ++ [rbracket]) = consumeDot it ++ [rbracket] := by
  simp only [consumeDot, consumeWhitespace_bracket]
  generalize consumeWhitespace it = it
  cases it with
  | nil => rfl
  | cons c it =>
    rw [deref_append (List.cons_ne_nil c it)]
    by_cases hdot : deref (c :: it) = dot
    · rw [if_pos hdot, if_pos hdot]
      exact consumeWhitespace_bracket it
    · rw [if_neg hdot, if_neg hdot]
      exact consumeWhitespace_bracket (c :: it)

/-- The same header with a bracket at the end of the line. -/
def Header.close (h : Header) : Header := { h with it := h.it ++ [rbracket] }

theorem singleTableLoop_bracket (n fuel : Nat) (h : Header) :
    singleTableLoop n fuel h.close = (singleTableLoop n fuel h).map Header.close := by
  induction fuel generalizing h with
  | zero => rfl
  | succ fuel ih =>
    have hclosed : h.close.it ≠ [] := by simp [Header.close]
    by_cases hend : h.it = [] ∨ deref h.it = rbracket
    · have hbracket : deref h.close.it = rbracket := by
        by_cases hnil : h.it = []
        · rw [Header.close, hnil]
          rfl
        · rw [Header.close, deref_append hnil]
          exact hend.resolve_left hnil
      rw [singleTableLoop, singleTableLoop, if_pos hend, if_pos (Or.inr hbracket)]
      rfl
    · have hne : ¬(h.close.it = [] ∨ deref h.close.it = rbracket) := by
        rw [Header.close, deref_append fun hnil => hend (Or.inl hnil)]
        exact fun hor => hor.elim hclosed fun hbracket => hend (Or.inr hbracket)
      rw [singleTableLoop, singleTableLoop, if_neg hend, if_neg hne]
      rw [show h.close.it = h.it ++ [rbracket] from rfl, parseKey_bracket]
      cases parseKey endsName h.it with
      | error err => rfl
      | ok r =>
        obtain ⟨part, it⟩ := r
        simp only [Except.map, throwAt, bind, Except.bind]
        by_cases hpart : part = []
        · rw [if_pos hpart, if_pos hpart]
        · rw [if_neg hpart, if_neg hpart]
          rw [consumeDot_bracket]
          rw [show h.close.builder = h.builder from rfl, show h.close.fullName = h.fullName from rfl]
          cases h.builder.openTable n (qualify h.fullName part) part with
          | error e => rfl
          | ok r => exact ih ⟨r.1, qualify h.fullName part, h.inserted || r.2, consumeDot it⟩

/-- More fuel than characters makes no difference. -/
theorem singleTableLoop_fuel {n fuel fuel' : Nat} {h : Header} (hfuel : h.it.length < fuel)
    (hfuel' : h.it.length < fuel') : singleTableLoop n fuel h = singleTableLoop n fuel' h := by
  induction fuel generalizing fuel' h with
  | zero => omega
  | succ fuel ih =>
    cases fuel' with
    | zero => omega
    | succ fuel' =>
      rw [singleTableLoop, singleTableLoop]
      by_cases hend : h.it = [] ∨ deref h.it = rbracket
      · rw [if_pos hend, if_pos hend]
      · rw [if_neg hend, if_neg hend]
        have hkey := parseKey_ends endsName h.it
        cases hparsed : parseKey endsName h.it with
        | error err => rfl
        | ok r =>
          obtain ⟨part, it⟩ := r
          have hit : it.length < h.it.length := hkey.result hparsed
          have hdot := consumeDot_length_le it
          simp only [throwAt, bind, Except.bind]
          by_cases hpart : part = []
          · rw [if_pos hpart, if_pos hpart]
          · rw [if_neg hpart, if_neg hpart]
            cases h.builder.openTable n (qualify h.fullName part) part with
            | error e => rfl
            | ok r =>
              obtain ⟨builder, inserted⟩ := r
              exact ih (by show (consumeDot it).length < fuel; omega)
                (by show (consumeDot it).length < fuel'; omega)

theorem eolOrComment_cases (it : Bytes) :
    (eolOrComment it = .ok () ∧ (it = [] ∨ deref it = hash)) ∨
      ((∃ err, eolOrComment it = .error err) ∧ it ≠ [] ∧ deref it ≠ hash) := by
  rw [eolOrComment]
  by_cases h : it ≠ [] ∧ deref it ≠ hash
  · rw [if_pos h]
    exact Or.inr ⟨⟨_, rfl⟩, h⟩
  · rw [if_neg h]
    rw [not_and_or, not_not, not_not] at h
    exact Or.inl ⟨rfl, h⟩

theorem eolOrComment_bracket {it : Bytes} (h : eolOrComment (it ++ [rbracket]) = .ok ()) :
    eolOrComment it = .ok () := by
  obtain ⟨hok, -⟩ | ⟨⟨err, herr⟩, hne, hhash⟩ := eolOrComment_cases it
  · exact hok
  · obtain ⟨-, hend⟩ | ⟨⟨err', herr'⟩, -⟩ := eolOrComment_cases (it ++ [rbracket])
    · rw [deref_append hne] at hend
      exact absurd hend (by simp [hhash])
    · cases herr'.symm.trans h

theorem finishSingleTable_outside_iff (n : Nat) (h : Header) :
    finishSingleTable n h = .error .outside ↔
      (∀ b, finishSingleTable n h ≠ .ok b) ∧ ∃ b, finishSingleTable n h.close = .ok b := by
  have hredefines : h.close.redefines = h.redefines := rfl
  simp only [finishSingleTable, hredefines]
  cases h.redefines with
  | true => simp
  | false =>
    cases hit : h.it with
    | nil =>
      simp [Header.close, hit, consumeWhitespace, eolOrComment, throwAt, pure, Except.pure]
      exact ⟨h.builder, rfl⟩
    | cons c it =>
      have hclose : h.close.it = c :: (it ++ [rbracket]) := by rw [Header.close, hit]; rfl
      simp only [hclose, Bool.false_eq_true, if_false, List.tail_cons, reduceCtorEq,
        consumeWhitespace_bracket]
      obtain ⟨hok, -⟩ | ⟨⟨err, herr⟩, -⟩ := eolOrComment_cases (consumeWhitespace it)
      · rw [hok]
        simp [throwAt, pure, Except.pure, bind, Except.bind]
      · cases hend : eolOrComment (consumeWhitespace it ++ [rbracket]) with
        | ok u => cases herr.symm.trans (eolOrComment_bracket hend)
        | error err' => simp [herr, throwAt, bind, Except.bind]

variable {n : Nat} {b : Builder}

theorem parseSingleTable_outside_iff (hb : b.Sound) (it : Bytes) :
    parseSingleTable n it b = .error .outside ↔ (∀ b', parseSingleTable n it b ≠ .ok b') ∧
      ∃ b', parseSingleTable n (it ++ [rbracket]) b = .ok b' := by
  by_cases hend : it = [] ∨ deref it = rbracket
  · have hbracket : deref (it ++ [rbracket]) = rbracket := by
      by_cases hnil : it = []
      · rw [hnil]
        rfl
      · rw [deref_append hnil]
        exact hend.resolve_left hnil
    rw [parseSingleTable, parseSingleTable, if_pos hend, if_pos (Or.inr hbracket)]
    simp
  · have hopen : ¬(it ++ [rbracket] = [] ∨ deref (it ++ [rbracket]) = rbracket) := by
      rw [deref_append fun hnil => hend (Or.inl hnil)]
      simpa using fun hbracket => hend (Or.inr hbracket)
    rw [parseSingleTable, parseSingleTable, if_neg hend, if_neg hopen]
    have hloop : singleTableLoop n ((it ++ [rbracket]).length + 1) ⟨b, [], false, it ++ [rbracket]⟩ =
        (singleTableLoop n (it.length + 1) ⟨b, [], false, it⟩).map Header.close := by
      have hfuel : singleTableLoop n (it.length + 1) ⟨b, [], false, it⟩ =
          singleTableLoop n ((it ++ [rbracket]).length + 1) ⟨b, [], false, it⟩ :=
        singleTableLoop_fuel (Nat.lt_succ_self _) (by simp only [List.length_append]; omega)
      rw [hfuel]
      exact singleTableLoop_bracket n _ ⟨b, [], false, it⟩
    rw [hloop]
    cases hname : singleTableLoop n (it.length + 1) ⟨b, [], false, it⟩ with
    | ok h => exact finishSingleTable_outside_iff n h
    | error e =>
      obtain ⟨err, rfl⟩ := (singleTableLoop_ends hb (Nat.lt_succ_self _)).failure hname
      simp [Except.map, bind, Except.bind]

theorem parseTable_outside_iff (hb : b.Sound) (name : Bytes) :
    parseTable n name b = .error .outside ↔ name.head? ≠ some lbracket ∧
      (∀ b', parseTable n name b ≠ .ok b') ∧ ∃ b', parseTable n (name ++ [rbracket]) b = .ok b' := by
  cases name with
  | nil =>
    have hempty : parseTable n [rbracket] b =
        .error (.parseException (ascii "Table name cannot be empty") n) := rfl
    rw [List.nil_append, hempty]
    simp [parseTable]
  | cons c name =>
    by_cases hc : c = lbracket
    · subst hc
      have hnot : parseTable n (lbracket :: name) b ≠ .error .outside := by
        intro houtside
        rw [parseTable, if_neg (List.cons_ne_nil _ name), deref_cons, if_pos rfl] at houtside
        obtain ⟨err, herr⟩ := (parseTableArray_ends hb _).failure houtside
        cases herr
      simp [hnot]
    · have hsingle : ∀ tail, parseTable n (c :: tail) b = parseSingleTable n (c :: tail) b := by
        intro tail
        rw [parseTable, if_neg (List.cons_ne_nil c tail), deref_cons, if_neg hc]
      rw [List.cons_append, hsingle, hsingle, parseSingleTable_outside_iff hb]
      simp [hc]

end Bracket

/-! ## Beyond the end of a line -/

section Outside

variable {inRange : Bytes → Bool}

/-- The next line is the header of a table that is refused, but not with a bracket at its end. -/
def Unclosed (inRange : Bytes → Bool) (a : Place) : Prop :=
  ∃ line rest name, a.rest = line :: rest ∧ consumeWhitespace line = lbracket :: name ∧
    name.head? ≠ some lbracket ∧
    (∀ r, parseLine inRange ⟨line, rest, a.lineNumber + 1⟩ a.builder ≠ .ok r) ∧
    ∃ r, parseLine inRange ⟨line ++ [rbracket], rest, a.lineNumber + 1⟩ a.builder = .ok r

theorem map_ok_iff {ε α β : Type} {e : Except ε α} {f : α → β} :
    (∃ r, e.map f = .ok r) ↔ ∃ a, e = .ok a := by
  cases e with
  | ok a => exact ⟨fun _ => ⟨a, rfl⟩, fun _ => ⟨f a, rfl⟩⟩
  | error err => simp [Except.map]

theorem refused_outside_iff {a : Place} (ha : a.builder.Sound) :
    Refused inRange a .outside ↔ Unclosed inRange a := by
  have hheader : ∀ line rest name, consumeWhitespace line = lbracket :: name →
      (parseLine inRange ⟨line, rest, a.lineNumber + 1⟩ a.builder = .error .outside ↔
        name.head? ≠ some lbracket ∧
        (∀ r, parseLine inRange ⟨line, rest, a.lineNumber + 1⟩ a.builder ≠ .ok r) ∧
        ∃ r, parseLine inRange ⟨line ++ [rbracket], rest, a.lineNumber + 1⟩ a.builder = .ok r) := by
    intro line rest name hname
    have hclosed : consumeWhitespace (line ++ [rbracket]) = lbracket :: (name ++ [rbracket]) := by
      rw [consumeWhitespace_bracket, hname]
      rfl
    rw [parseLine_header inRange hname, parseLine_header inRange hclosed, map_ok_iff, ← not_exists,
      map_ok_iff, not_exists, ← parseTable_outside_iff ha.root]
    cases parseTable (a.lineNumber + 1) name { a.builder with path := [] } <;>
      simp [Except.map]
  constructor
  · intro ⟨line, rest, hrest, hline⟩
    have hbracket : deref (consumeWhitespace line) = lbracket := by
      by_contra hplain
      obtain ⟨err, n, herr, -⟩ := (parseLine_plain_ends inRange ha hplain).failure hline
      cases herr
    cases hname : consumeWhitespace line with
    | nil =>
      rw [hname] at hbracket
      cases hbracket
    | cons c name =>
      rw [hname, deref_cons] at hbracket
      subst hbracket
      exact ⟨line, rest, name, hrest, hname, (hheader line rest name hname).mp hline⟩
  · intro ⟨line, rest, name, hrest, hname, hunclosed⟩
    exact ⟨line, rest, hrest, (hheader line rest name hname).mpr hunclosed⟩

theorem sound_of_next {a b : Place} (ha : a.builder.Sound) (h : Next inRange a b) :
    b.builder.Sound := by
  obtain ⟨line, rest, s, -, hline, -⟩ := h
  exact ((parseLine_ends inRange ha _).result hline).1

theorem sound_of_reaches {input : Bytes} {a : Place} (h : Reaches inRange (.start input) a) :
    a.builder.Sound := by
  induction h with
  | refl => exact Builder.sound_of_focus Table.Proper.nil Table.focus_nil
  | tail _ hnext ih => exact sound_of_next ih hnext

/-- The parser goes beyond the end of a line exactly when it comes to the header of a table of
which only the closing bracket is missing. -/
theorem parse_outside_iff (inRange : Bytes → Bool) (input : Bytes) :
    parse inRange input = .error .outside ↔
      ∃ a, Reaches inRange (.start input) a ∧ Unclosed inRange a := by
  rw [parse_eq_iff]
  constructor
  · intro ⟨a, hreach, hrefused⟩
    exact ⟨a, hreach, (refused_outside_iff (sound_of_reaches hreach)).mp hrefused⟩
  · intro ⟨a, hreach, hunclosed⟩
    exact ⟨a, hreach, (refused_outside_iff (sound_of_reaches hreach)).mpr hunclosed⟩

end Outside

end Svnsrv.Cpptoml
