import Mathlib.Data.List.Basic
import Svnsrv.Cpptoml
import Svnsrv.Lib.Ends

/-!
# How a parse ends

Every function of the parser leaves the input behind where it was, or it throws at a line
that has been read. What it has built is proper. From this `parse` gives a document or an
error of its own for every input.
-/

namespace Svnsrv.Cpptoml

open CText Toml Outcome
set_option autoImplicit false

/-- `t` is what is left of `s` after some of it is read. -/
structure After (s t : Input) : Prop where
  rest : t.rest.length ≤ s.rest.length
  lines : t.lineNumber + t.rest.length = s.lineNumber + s.rest.length
  size : t.size ≤ s.size

/-- An exception at a line from the one of `s` on. -/
def Thrown (s : Input) (e : Error) : Prop :=
  ∃ err n, e = .parseException err n ∧ s.lineNumber ≤ n ∧ n ≤ s.lineNumber + s.rest.length

namespace After

variable {s t u : Input}

theorem refl (s : Input) : After s s := ⟨Nat.le_refl _, rfl, Nat.le_refl _⟩

theorem trans (hst : After s t) (htu : After t u) : After s u :=
  ⟨htu.rest.trans hst.rest, htu.lines.trans hst.lines, htu.size.trans hst.size⟩

/-- Within the line. -/
theorem within {it : Bytes} (h : it.length ≤ s.it.length) : After s { s with it } :=
  ⟨Nat.le_refl _, rfl, Nat.add_le_add_right h _⟩

/-- The next line instead of this one. -/
theorem getline (it line : Bytes) (rest : List Bytes) (n : Nat) :
    After ⟨it, line :: rest, n⟩ ⟨line, rest, n + 1⟩ where
  rest := Nat.le_succ _
  lines := by simp only [List.length_cons]; omega
  size := by simp only [Input.size, List.foldr_cons]; omega

theorem thrown (h : After s t) {e : Error} (ht : Thrown t e) : Thrown s e := by
  obtain ⟨err, n, he, hlow, hhigh⟩ := ht
  have hrest := h.rest
  have hlines := h.lines
  exact ⟨err, n, he, by omega, by omega⟩

end After

theorem thrown_here (s : Input) (err : Bytes) : Thrown s (.parseException err s.lineNumber) :=
  ⟨err, s.lineNumber, rfl, Nat.le_refl _, Nat.le_add_right _ _⟩

section Line

variable {α : Type} {s : Input} {it : Bytes}

theorem throwAt_ends {e : Except Bytes α} {Q : α → Prop} (h : Ends e Q fun _ => True) :
    Ends (throwAt s.lineNumber e) Q (Thrown s) := by
  cases e with
  | ok a => exact h
  | error err => exact thrown_here s err

theorem reading_ends {e : Except Bytes (Base × Bytes)}
    (h : Ends e (fun r => r.2.length ≤ s.it.length ∧ Proper r.1) fun _ => True) :
    Ends (s.reading e) (fun r => After s r.2 ∧ Proper r.1) (Thrown s) := by
  apply (throwAt_ends h).bind
  intro r hr
  exact ⟨After.within hr.1, hr.2⟩

theorem consumeWhitespace_length_le (it : Bytes) : (consumeWhitespace it).length ≤ it.length :=
  List.length_dropWhile_le isBlank it

theorem ne_nil_of_deref {c : UInt8} (h : deref it = c) (hc : c ≠ 0) : it ≠ [] := by
  intro hnil
  rw [hnil] at h
  exact hc h.symm

end Line

/-! ## Lines -/

theorem skipLines_ends (rest : List Bytes) (n : Nat) :
    Ends (skipLines rest n) (fun t => After ⟨[], rest, n⟩ t ∧ t.it ≠ []) (Thrown ⟨[], rest, n⟩) := by
  induction rest generalizing n with
  | nil => exact thrown_here ⟨[], [], n⟩ _
  | cons line rest ih =>
    have hwhite := consumeWhitespace_length_le line
    rw [skipLines]
    apply Ends.test
    · intro _
      have hstep : After ⟨[], line :: rest, n⟩ ⟨[], rest, n + 1⟩ :=
        (After.getline [] line rest n).trans (After.within (Nat.zero_le _))
      exact (ih (n + 1)).mono (fun t ht => ⟨hstep.trans ht.1, ht.2⟩) fun e => hstep.thrown
    · intro hmore
      exact ⟨(After.getline [] line rest n).trans (After.within hwhite),
        fun hnil => hmore (Or.inl hnil)⟩

theorem skipWhitespaceAndComments_ends (s : Input) :
    Ends (skipWhitespaceAndComments s) (fun t => After s t ∧ t.it ≠ []) (Thrown s) := by
  have hwhite := consumeWhitespace_length_le s.it
  rw [skipWhitespaceAndComments]
  apply Ends.test
  · intro _
    have hstep : After s ⟨[], s.rest, s.lineNumber⟩ := After.within (Nat.zero_le _)
    exact (skipLines_ends s.rest s.lineNumber).mono (fun t ht => ⟨hstep.trans ht.1, ht.2⟩)
      fun e => hstep.thrown
  · intro hmore
    exact ⟨After.within hwhite, fun hnil => hmore (Or.inl hnil)⟩

/-! ## Values on a line -/

theorem stringLiteral_ends (delim : UInt8) (it val : Bytes) :
    Ends (stringLiteral delim it val) (fun r => r.2.length ≤ it.length) fun _ => True := by
  fun_induction stringLiteral delim it val with
  | case1 val => trivial
  | case2 val c _ => trivial
  | case3 val c hesc d it ih =>
    apply Ends.bind (Q := fun _ => True)
    · cases parseEscapeCode d <;> trivial
    · intro value _
      exact (ih value).mono (fun r hr => by simp; omega) fun _ _ => trivial
  | case4 it val hesc =>
    exact Nat.le_succ_of_le (consumeWhitespace_length_le it)
  | case5 val c it hesc hdelim ih =>
    exact ih.mono (fun r hr => Nat.le_succ_of_le hr) fun _ _ => trivial

/-- What is left of the line behind a string that ends there. -/
def HandledLine.Leaves (k : Nat) : HandledLine → Prop
  | .ended _ it => it.length ≤ k
  | .unended _ _ => True

theorem HandledLine.Leaves.mono {r : HandledLine} {j k : Nat} (h : r.Leaves j) (hjk : j ≤ k) :
    r.Leaves k := by
  cases r with
  | ended ss it => exact Nat.le_trans h hjk
  | unended ss consuming => trivial

theorem handleChars_ends (delim : UInt8) (it ss : Bytes) :
    Ends (handleChars delim it ss) (HandledLine.Leaves it.length) fun _ => True := by
  fun_induction handleChars delim it ss with
  | case1 ss => trivial
  | case2 ss c hesc => trivial
  | case3 ss c hesc d it ih =>
    apply Ends.bind (Q := fun _ => True)
    · cases parseEscapeCode d <;> trivial
    · intro value _
      exact (ih value).mono (fun r hr => hr.mono (by simp; omega)) fun _ _ => trivial
  | case4 ss c it hesc hthree =>
    simp only [Ends, HandledLine.Leaves, List.length_drop, List.length_cons]
    omega
  | case5 ss c it hesc hthree ih =>
    exact ih.mono (fun r hr => hr.mono (Nat.le_succ _)) fun _ _ => trivial

theorem handleLine_ends (delim : UInt8) (consuming : Bool) (it ss : Bytes) :
    Ends (handleLine delim consuming it ss) (HandledLine.Leaves it.length) fun _ => True := by
  unfold handleLine
  cases consuming with
  | false => exact handleChars_ends delim it ss
  | true =>
    have hdrop := List.length_dropWhile_le isBlank it
    cases hit : it.dropWhile isBlank with
    | nil => trivial
    | cons c it' =>
      rw [hit] at hdrop
      exact (handleChars_ends delim (c :: it') ss).mono (fun r hr => hr.mono hdrop)
        fun _ _ => trivial

theorem eatLines_ends (delim : UInt8) (rest : List Bytes) (n : Nat) (ss : Bytes)
    (consuming : Bool) :
    Ends (eatLines delim rest n ss consuming) (fun r => After ⟨[], rest, n⟩ r.2 ∧ Proper r.1)
      (Thrown ⟨[], rest, n⟩) := by
  induction rest generalizing n ss consuming with
  | nil => exact thrown_here ⟨[], [], n⟩ _
  | cons line rest ih =>
    have hline := After.getline [] line rest n
    have hstep : After ⟨[], line :: rest, n⟩ ⟨[], rest, n + 1⟩ :=
      hline.trans (After.within (Nat.zero_le _))
    rw [eatLines]
    apply Ends.bind
    · exact (throwAt_ends (s := ⟨line, rest, n + 1⟩) (handleLine_ends delim consuming line ss)).mono
        (fun r hr => hr) fun e => hline.thrown
    · intro r hr
      cases r with
      | ended ss it => exact ⟨hline.trans (After.within hr), .value rfl⟩
      | unended ss consuming =>
        cases consuming with
        | true => exact (ih _ _ _).mono (fun r hr => ⟨hstep.trans hr.1, hr.2⟩) fun e => hstep.thrown
        | false => exact (ih _ _ _).mono (fun r hr => ⟨hstep.trans hr.1, hr.2⟩) fun e => hstep.thrown

theorem parseMultilineString_ends (delim : UInt8) (s : Input) :
    Ends (parseMultilineString delim s) (fun r => After s r.2 ∧ Proper r.1) (Thrown s) := by
  have hline : After s ⟨[], s.rest, s.lineNumber⟩ := After.within (Nat.zero_le _)
  rw [parseMultilineString]
  apply (throwAt_ends (handleLine_ends delim false s.it [])).bind
  intro r hr
  cases r with
  | ended ss it => exact ⟨After.within hr, .value rfl⟩
  | unended ss consuming =>
    exact (eatLines_ends delim s.rest s.lineNumber ss consuming).mono
      (fun r hr => ⟨hline.trans hr.1, hr.2⟩) fun e => hline.thrown

theorem parseString_ends (s : Input) :
    Ends (parseString s) (fun r => After s r.2 ∧ Proper r.1) (Thrown s) := by
  rw [parseString]
  apply Ends.test
  · intro _
    have hdrop : After s { s with it := s.it.drop 3 } := After.within (by simp)
    exact (parseMultilineString_ends _ _).mono (fun r hr => ⟨hdrop.trans hr.1, hr.2⟩)
      fun e => hdrop.thrown
  · intro _
    apply reading_ends
    apply (stringLiteral_ends _ _ _).map
    intro r hr
    exact ⟨hr.trans (by simp), .value rfl⟩

/-! ## Numbers, booleans and dates -/

theorem eatNumbersLoop_ends (it : Bytes) :
    Ends (eatNumbersLoop it) (fun r => r.length ≤ it.length) fun _ => True := by
  fun_induction eatNumbersLoop it with
  | case1 => exact Nat.le_refl 0
  | case2 c =>
    simp only [Ends]
    split <;> simp
  | case3 c it hc hnext ih => exact ih.mono (fun r hr => hr.trans (by simp; omega)) fun _ _ => trivial
  | case4 c it hc hnext => trivial
  | case5 c d it hc hd ih => exact ih.mono (fun r hr => Nat.le_succ_of_le hr) fun _ _ => trivial
  | case6 c d it hc => exact Nat.le_refl _

theorem eatNumbers_ends (it : Bytes) :
    Ends (eatNumbers it) (fun r => r.length ≤ it.length) fun _ => True := by
  rw [eatNumbers]
  apply Ends.test
  · intro _
    exact eatNumbersLoop_ends it
  · intro _
    trivial

theorem eatSign_length_le (it : Bytes) : (eatSign it).length ≤ it.length := by
  rw [eatSign]
  split <;> simp

theorem parseInt_ends (it checkIt : Bytes) :
    Ends (parseInt it checkIt) (fun r => r.2 = checkIt ∧ Proper r.1) fun _ => True := by
  rw [parseInt]
  cases stoll (numberText it checkIt) with
  | none => trivial
  | some n => exact ⟨rfl, .value rfl⟩

theorem parseFloat_ends (inRange : Bytes → Bool) (it checkIt : Bytes) :
    Ends (parseFloat inRange it checkIt) (fun r => r.2 = checkIt ∧ Proper r.1) fun _ => True := by
  rw [parseFloat]
  apply Ends.test
  · intro _
    exact ⟨rfl, .value rfl⟩
  · intro _
    trivial

theorem parseNumber_ends (inRange : Bytes → Bool) (it : Bytes) :
    Ends (parseNumber inRange it) (fun r => r.2.length ≤ it.length ∧ Proper r.1)
      fun _ => True := by
  have hsign := eatSign_length_le it
  rw [parseNumber]
  apply (eatNumbers_ends (eatSign it)).bind
  intro r hr
  apply Ends.test
  · intro _
    apply Ends.test
    · intro _
      trivial
    · intro _
      have htail : r.tail.length ≤ r.length := by simp
      have hexp := eatSign_length_le r.tail
      apply (eatNumbers_ends _).bind
      intro t ht
      have hrt : t.length ≤ r.length := by
        refine ht.trans ?_
        split
        · exact hexp.trans htail
        · exact htail
      apply Ends.test
      · intro _
        have htail' : t.tail.length ≤ t.length := by simp
        apply (eatNumbers_ends _).bind
        intro u hu
        have hexp' := eatSign_length_le t.tail
        exact (parseFloat_ends inRange it u).mono
          (fun v hv => ⟨by rw [hv.1]; omega, hv.2⟩) fun _ _ => trivial
      · intro _
        exact (parseFloat_ends inRange it t).mono
          (fun v hv => ⟨by rw [hv.1]; omega, hv.2⟩) fun _ _ => trivial
  · intro _
    exact (parseInt_ends it r).mono (fun v hv => ⟨by rw [hv.1]; omega, hv.2⟩) fun _ _ => trivial

theorem parseBool_ends (it : Bytes) :
    Ends (parseBool it) (fun r => r.2.length ≤ it.length ∧ Proper r.1) fun _ => True := by
  rw [parseBool]
  apply Ends.test
  · intro _
    exact ⟨List.length_dropWhile_le _ it, .value rfl⟩
  · intro _
    apply Ends.test
    · intro _
      exact ⟨List.length_dropWhile_le _ it, .value rfl⟩
    · intro _
      trivial

theorem any_ends {α : Type} (e : Except Bytes α) : Ends e (fun _ => True) fun _ => True := by
  cases e <;> trivial

theorem parseDate_ends (it : Bytes) :
    Ends (parseDate it) (fun r => r.2.length ≤ it.length ∧ Proper r.1) fun _ => True := by
  rw [parseDate]
  iterate 11
    apply (any_ends _).bind
    intro date _
  apply Ends.test
  · intro _
    trivial
  · intro _
    apply (any_ends _).bind
    intro date _
    apply Ends.test
    · intro _
      exact ⟨List.length_dropWhile_le _ it, .value rfl⟩
    · intro _
      trivial

/-! ## Keys -/

theorem parseBareKey_ends (text : Bytes) :
    Ends (parseBareKey text) (fun _ => text ≠ []) fun _ => True := by
  rw [parseBareKey]
  apply Ends.test
  · intro _
    trivial
  · intro hne
    exact (any_ends _).mono (fun _ _ => hne) fun _ => id

/-- A key is not without characters. -/
theorem parseKey_ends (fun_ : UInt8 → Bool) (it : Bytes) :
    Ends (parseKey fun_ it) (fun r => r.2.length < it.length) fun _ => True := by
  have hwhite := consumeWhitespace_length_le it
  rw [parseKey]
  apply Ends.test
  · intro hquote
    have hpos := List.length_pos_iff.mpr (ne_nil_of_deref hquote (by decide))
    exact (stringLiteral_ends _ _ _).mono
      (fun r hr => by rw [List.length_tail] at hr; omega) fun _ => id
  · intro _
    apply (parseBareKey_ends _).bind
    intro key hne
    have hpos := List.length_pos_iff.mpr hne
    have hsplit := congrArg List.length
      (List.takeWhile_append_dropWhile (p := fun c => !fun_ c) (l := consumeWhitespace it))
    rw [List.length_append] at hsplit
    simp only [Ends, pure, Except.pure]
    omega

/-! ## Values -/

section Loops

variable {fuel size : Nat} {parseValue : Input → Except Error (Base × Input)} {s : Input}

/-- The condition on the function for an element, for inputs up to a size. -/
def ReadsWithin {α : Type} (size : Nat) (start : Input → Prop) (good : α → Prop)
    (read : Input → Except Error (α × Input)) : Prop :=
  ∀ s, start s → s.size ≤ size → Ends (read s) (fun r => After s r.2 ∧ good r.1) (Thrown s)

theorem size_tail {c : UInt8} (h : deref s.it = c) (hc : c ≠ 0) :
    ({ s with it := s.it.tail } : Input).size + 1 = s.size := by
  have hpos := List.length_pos_iff.mpr (ne_nil_of_deref h hc)
  simp only [Input.size, List.length_tail]
  omega

theorem after_tail (s : Input) : After s { s with it := s.it.tail } :=
  After.within (by simp)

theorem parseValueArray_ends (hvalue : ReadsWithin size (fun _ => True) Proper parseValue)
    (as : Base → Bool) (hsize : s.size ≤ size) (hfuel : s.size < fuel) :
    Ends (parseValueArray parseValue as fuel s) (After s) (Thrown s) := by
  induction fuel generalizing s with
  | zero => omega
  | succ fuel ih =>
    rw [parseValueArray]
    apply Ends.test
    · intro _
      exact after_tail s
    · intro _
      apply (hvalue s trivial hsize).bind
      intro ⟨value, t⟩ ⟨ht, _⟩
      apply Ends.test
      · intro _
        apply ((skipWhitespaceAndComments_ends t).mono (fun u hu => ht.trans hu.1)
          fun e => ht.thrown).bind
        intro u hu
        apply Ends.test
        · intro hcomma
          have hless := size_tail hcomma (by decide)
          have hu' := hu.trans (after_tail u)
          apply ((skipWhitespaceAndComments_ends _).mono (fun w hw => hw.1) fun e => hu'.thrown).bind
          intro w hw
          have hsizes := hu.size
          have hwsize := hw.size
          exact (ih (by omega) (by omega)).mono (fun x => (hu'.trans hw).trans)
            fun e => (hu'.trans hw).thrown
        · intro _
          exact hu.trans (after_tail u)
      · intro _
        exact ht.thrown (thrown_here t _)

theorem closeArray_ends {Object : Type} (arr : List Object) (s : Input) :
    Ends (closeArray arr s) (fun r => After s r.2 ∧ r.1 = arr) (Thrown s) := by
  rw [closeArray]
  apply Ends.test
  · intro _
    exact ⟨after_tail s, rfl⟩
  · intro _
    exact thrown_here s _

theorem parseObjectArray_ends {Object : Type} {good : Object → Prop} {delim : UInt8}
    {fun_ : Input → Except Error (Object × Input)}
    (hobject : ReadsWithin size (fun s => deref s.it = delim) good fun_)
    {arr : List Object} (harr : ∀ object ∈ arr, good object)
    (hsize : s.size ≤ size) (hfuel : s.size < fuel) :
    Ends (parseObjectArray fun_ delim fuel arr s)
      (fun r => After s r.2 ∧ (∀ object ∈ r.1, good object) ∧
        (r.1 = [] → arr = [] ∧ (s.it = [] ∨ deref s.it = rbracket))) (Thrown s) := by
  induction fuel generalizing s arr with
  | zero => omega
  | succ fuel ih =>
    rw [parseObjectArray]
    apply Ends.test
    · intro hend
      exact (closeArray_ends arr s).mono
        (fun r hr => ⟨hr.1, hr.2 ▸ harr, fun hnil => ⟨hr.2 ▸ hnil, hend⟩⟩) fun _ => id
    · intro _
      apply Ends.test
      · intro hdelim
        apply (hobject s hdelim hsize).bind
        intro ⟨object, t⟩ ⟨ht, hgood⟩
        have harr' : ∀ object' ∈ arr ++ [object], good object' := by
          intro object' hmem
          cases List.mem_append.mp hmem with
          | inl hold => exact harr object' hold
          | inr hnew => exact List.mem_singleton.mp hnew ▸ hgood
        have hne : arr ++ [object] ≠ [] := by simp
        apply ((skipWhitespaceAndComments_ends t).mono (fun u hu => ht.trans hu.1)
          fun e => ht.thrown).bind
        intro u hu
        apply Ends.test
        · intro hcomma
          have hless := size_tail hcomma (by decide)
          have hu' := hu.trans (after_tail u)
          apply ((skipWhitespaceAndComments_ends _).mono (fun w hw => hw.1) fun e => hu'.thrown).bind
          intro w hw
          have hsizes := hu.size
          have hwsize := hw.size
          exact (ih harr' (by omega) (by omega)).mono
            (fun r hr => ⟨(hu'.trans hw).trans hr.1, hr.2.1,
              fun hnil => absurd (hr.2.2 hnil).1 hne⟩) fun e => (hu'.trans hw).thrown
        · intro _
          exact (closeArray_ends _ u).mono
            (fun r hr => ⟨hu.trans hr.1, hr.2 ▸ harr', fun hnil => absurd (hr.2 ▸ hnil) hne⟩)
            fun e => hu.thrown
      · intro _
        exact thrown_here s _

theorem parseKeyValue_ends (hvalue : ReadsWithin size (fun _ => True) Proper parseValue)
    {currTable : Table} (hcurr : currTable.Proper) (hsize : s.size ≤ size) :
    Ends (parseKeyValue parseValue s currTable) (fun r => After s r.2 ∧ r.1.Proper)
      (Thrown s) := by
  rw [parseKeyValue]
  apply (throwAt_ends (parseKey_ends _ s.it)).bind
  intro ⟨key, it⟩ hit
  apply Ends.test
  · intro _
    exact thrown_here s _
  · intro _
    apply Ends.test
    · intro _
      exact thrown_here s _
    · intro _
      have hwhite := consumeWhitespace_length_le it.tail
      have htail : it.tail.length ≤ it.length := by simp
      have hstart : After s { s with it := consumeWhitespace it.tail } :=
        After.within (hwhite.trans (htail.trans (Nat.le_of_lt hit)))
      apply ((hvalue _ trivial (hstart.size.trans hsize)).mono (fun r hr => hr)
        fun e => hstart.thrown).bind
      intro ⟨value, t⟩ ⟨ht, hproper⟩
      exact ⟨(hstart.trans ht).trans (After.within (consumeWhitespace_length_le t.it)),
        hcurr.insert hproper⟩

theorem parseInlineTable_ends (hvalue : ReadsWithin size (fun _ => True) Proper parseValue)
    {tbl : Table} (htbl : tbl.Proper) (hstart : s.it ≠ []) (hsize : s.size ≤ size + 1)
    (hfuel : s.size < fuel) :
    Ends (parseInlineTable parseValue fuel s tbl) (fun r => After s r.2 ∧ r.1.Proper)
      (Thrown s) := by
  induction fuel generalizing s tbl with
  | zero => omega
  | succ fuel ih =>
    rw [parseInlineTable]
    apply Ends.test
    · intro _
      exact thrown_here s _
    · intro _
      have hpos := List.length_pos_iff.mpr hstart
      have hwhite := consumeWhitespace_length_le s.it.tail
      have hbehind : After s { s with it := consumeWhitespace s.it.tail } :=
        (after_tail s).trans (After.within hwhite)
      have hless : ({ s with it := consumeWhitespace s.it.tail } : Input).size + 1 ≤ s.size := by
        simp only [Input.size, List.length_tail] at hwhite ⊢
        omega
      apply ((parseKeyValue_ends hvalue htbl (by omega)).mono (fun r hr => hr)
        fun e => hbehind.thrown).bind
      intro ⟨tbl', t⟩ ⟨ht, hproper⟩
      have hst := hbehind.trans ht
      have htsize : t.size ≤ _ := ht.size
      have hwhite' : After t { t with it := consumeWhitespace t.it } :=
        After.within (consumeWhitespace_length_le t.it)
      have hwsize := hwhite'.size
      apply Ends.test
      · intro hcomma
        exact (ih hproper (ne_nil_of_deref hcomma (by decide)) (by omega) (by omega)).mono
          (fun r hr => ⟨(hst.trans hwhite').trans hr.1, hr.2⟩) fun e => (hst.trans hwhite').thrown
      · intro _
        apply Ends.test
        · intro _
          have hend := consumeWhitespace_length_le (consumeWhitespace t.it).tail
          exact ⟨(hst.trans hwhite').trans ((after_tail _).trans (After.within hend)), hproper⟩
        · intro _
          exact hst.thrown (thrown_here t _)

end Loops

/-! ## Values in values -/

/-- An array and an inline table are told by their first character. -/
theorem determineValueType_ends (s : Input) (text : Bytes) :
    Ends (throwAt s.lineNumber (determineValueType (deref s.it) text))
      (fun type => (type = .array → deref s.it = lbracket) ∧
        (type = .inlineTable → deref s.it = lbrace)) (Thrown s) := by
  apply throwAt_ends
  cases hdet : determineValueType (deref s.it) text with
  | ok type =>
    unfold determineValueType determineNumberType at hdet
    simp only [Ends]
    grind
  | error err => trivial

theorem values_end (inRange : Bytes → Bool) (fuel : Nat) :
    (∀ s, 2 * s.size + 1 ≤ fuel → Ends (parseValue inRange fuel s)
      (fun r => After s r.2 ∧ Proper r.1) (Thrown s)) ∧
    (∀ s, deref s.it = lbracket → 2 * s.size ≤ fuel → Ends (parseArray inRange fuel s)
      (fun r => After s r.2 ∧ Proper r.1) (Thrown s)) := by
  induction fuel with
  | zero =>
    constructor
    · intro s hfuel
      omega
    · intro s hbracket hfuel
      have hless := size_tail hbracket (by decide)
      omega
  | succ fuel ih =>
    obtain ⟨hvalue, harray⟩ := ih
    constructor
    · intro s hfuel
      rw [parseValue]
      apply (determineValueType_ends s s.it).bind
      intro type hfirst
      cases type with
      | string => exact parseString_ends s
      | date => exact reading_ends (parseDate_ends s.it)
      | int => exact reading_ends (parseNumber_ends inRange s.it)
      | float => exact reading_ends (parseNumber_ends inRange s.it)
      | bool => exact reading_ends (parseBool_ends s.it)
      | array => exact harray s (hfirst.1 rfl) (by omega)
      | inlineTable =>
        have hbrace := hfirst.2 rfl
        have hless := size_tail hbrace (by decide)
        have hwithin : ReadsWithin (s.size - 1) (fun _ => True) Proper (parseValue inRange fuel) :=
          fun t _ ht => hvalue t (by omega)
        apply (parseInlineTable_ends hwithin Table.Proper.nil (ne_nil_of_deref hbrace (by decide))
          (by omega) (by omega)).bind
        intro r hr
        exact hr
    · intro s hbracket hfuel
      have hless := size_tail hbracket (by decide)
      have htail := after_tail s
      rw [parseArray]
      apply ((skipWhitespaceAndComments_ends _).mono (fun t ht => ht.1) fun e => htail.thrown).bind
      intro t htail'
      have ht := htail.trans htail'
      have htsize := htail'.size
      have hwithin : ReadsWithin (s.size - 1) (fun _ => True) Proper (parseValue inRange fuel) :=
        fun u _ hu => hvalue u (by omega)
      apply Ends.test
      · intro _
        exact ⟨ht.trans (after_tail t), .array⟩
      · intro _
        apply ((determineValueType_ends t _).mono (fun _ => id) fun e => ht.thrown).bind
        intro type hfirst
        have hvalues : Ends (parseValueArray (parseValue inRange fuel) type.takes fuel t)
            (After s) (Thrown s) :=
          (parseValueArray_ends hwithin type.takes (by omega) (by omega)).mono
            (fun u => ht.trans) fun e => ht.thrown
        cases type with
        | bool => exact ht.thrown (thrown_here t _)
        | array =>
          have hobjects : ReadsWithin (s.size - 1) (fun u => deref u.it = lbracket) Proper
              (parseArray inRange fuel) := fun u hdelim hu => harray u hdelim (by omega)
          apply ((parseObjectArray_ends hobjects (fun _ h => by cases h) (by omega)
            (by omega)).mono (fun r hr => hr.1) fun e => ht.thrown).bind
          intro r hr
          exact ⟨ht.trans hr, .array⟩
        | inlineTable =>
          have hobjects : ReadsWithin (s.size - 1) (fun u => deref u.it = lbrace) Table.Proper
              fun u => parseInlineTable (parseValue inRange fuel) fuel u [] := fun u hdelim hu =>
            parseInlineTable_ends hwithin Table.Proper.nil (ne_nil_of_deref hdelim (by decide))
              (by omega) (by omega)
          have hbrace := hfirst.2 rfl
          apply ((parseObjectArray_ends hobjects (fun _ h => by cases h) (by omega)
            (by omega)).mono (fun r hr => hr) fun e => ht.thrown).bind
          intro r hr
          refine ⟨ht.trans hr.1, .ofTables ?_ hr.2.1⟩
          intro hnil
          cases (hr.2.2 hnil).2 with
          | inl hend => exact ne_nil_of_deref hbrace (by decide) hend
          | inr hbracket => exact absurd (hbracket.symm.trans hbrace) (by decide)
        | string => exact hvalues.bind fun u hu => ⟨hu, .array⟩
        | date => exact hvalues.bind fun u hu => ⟨hu, .array⟩
        | int => exact hvalues.bind fun u hu => ⟨hu, .array⟩
        | float => exact hvalues.bind fun u hu => ⟨hu, .array⟩

/-! ## Headers -/

/-- `curr_table` points into a proper tree. -/
structure Builder.Sound (b : Builder) : Prop where
  proper : b.root.Proper
  points : b.root.focus b.path = some b.currTable

theorem Builder.sound_of_focus {b : Builder} {t : Table} (hproper : b.root.Proper)
    (h : b.root.focus b.path = some t) : b.Sound where
  proper := hproper
  points := by rw [currTable, h, Option.getD_some]

namespace Builder.Sound

variable {b : Builder} {part : Bytes} {t u : Table} {v : Base}

theorem currTable (h : b.Sound) : b.currTable.Proper := h.proper.focus h.points

theorem set (h : b.Sound) (ht : t.Proper) : (b.set t).Sound ∧ (b.set t).currTable = t := by
  have hfocus : (b.set t).root.focus (b.set t).path = some t := Table.focus_setFocus h.points
  have hsound := sound_of_focus (h.proper.setFocus h.points ht) hfocus
  exact ⟨hsound, Option.some.inj (hsound.points.symm.trans hfocus)⟩

theorem enter (h : b.Sound) (hv : b.currTable.get part = some v) (hu : v.inner = some u) :
    (b.enter part).Sound := by
  have hfocus : (b.enter part).root.focus (b.enter part).path = some u := by
    rw [Builder.enter, Table.focus_concat, h.points, Option.bind_some, hv, Option.bind_some, hu]
  exact sound_of_focus h.proper hfocus

/-- A new value with a table in it. -/
theorem insert (h : b.Sound) (hv : Proper v) (hu : v.inner = some u) :
    ((b.set (b.currTable.insert part v)).enter part).Sound := by
  obtain ⟨hset, hcurr⟩ := h.set (h.currTable.insert hv)
  apply hset.enter (v := v) ?_ hu
  rw [hcurr, Table.get_insert_self]

end Builder.Sound

/-- An exception at this line. -/
def ThrownAt (n : Nat) (e : Error) : Prop := ∃ err, e = .parseException err n

theorem thrownAt_ends {α : Type} {n : Nat} {e : Except Bytes α} {Q : α → Prop}
    (h : Ends e Q fun _ => True) : Ends (throwAt n e) Q (ThrownAt n) := by
  cases e with
  | ok a => exact h
  | error err => exact ⟨err, rfl⟩

section Headers

variable {b : Builder} {n : Nat} {full part : Bytes}

theorem descend_ends (hb : b.Sound) {v : Base} (hv : b.currTable.get part = some v) (err : Bytes) :
    Ends (b.descend part (.parseException err n) v) Builder.Sound (ThrownAt n) := by
  cases v with
  | table map => exact hb.enter hv rfl
  | tableArray tables =>
    have hne := ((hb.currTable.get hv).tables).1
    simp only [Builder.descend, if_neg hne]
    exact hb.enter hv (List.getLast?_eq_some_getLast hne)
  | _ => exact ⟨err, rfl⟩

theorem openTable_ends (hb : b.Sound) :
    Ends (b.openTable n full part) (fun r => r.1.Sound) (ThrownAt n) := by
  rw [Builder.openTable]
  cases hv : b.currTable.get part with
  | some v => exact (descend_ends hb hv _).map fun b' hb' => hb'
  | none => exact hb.insert Table.Proper.nil rfl

theorem openTableArray_ends (hb : b.Sound) (last : Bool) :
    Ends (b.openTableArray n full part last) Builder.Sound (ThrownAt n) := by
  have hnew : Proper (.tableArray [[]]) :=
    .ofTables (by simp) fun t ht => List.mem_singleton.mp ht ▸ Table.Proper.nil
  unfold Builder.openTableArray
  cases hv : b.currTable.get part with
  | none =>
    cases last with
    | false => exact hb.insert Table.Proper.nil rfl
    | true => exact hb.insert hnew rfl
  | some v =>
    cases last with
    | false => cases v <;> exact descend_ends hb hv _
    | true =>
      cases v with
      | tableArray tables =>
        obtain ⟨-, htables⟩ := (hb.currTable.get hv).tables
        have hlonger : Proper (.tableArray (tables ++ [[]])) := by
          refine .ofTables (by simp) fun t ht => ?_
          cases List.mem_append.mp ht with
          | inl hold => exact htables t hold
          | inr hlast => exact List.mem_singleton.mp hlast ▸ Table.Proper.nil
        exact hb.insert hlonger List.getLast?_concat
      | _ => exact ⟨_, rfl⟩

theorem consumeDot_length_le (it : Bytes) : (consumeDot it).length ≤ it.length := by
  have hwhite := consumeWhitespace_length_le it
  rw [consumeDot]
  split
  · exact (consumeWhitespace_length_le _).trans (by simp; omega)
  · exact (consumeWhitespace_length_le _).trans hwhite

theorem singleTableLoop_ends {fuel : Nat} {h : Header} (hb : h.builder.Sound)
    (hfuel : h.it.length < fuel) :
    Ends (singleTableLoop n fuel h) (fun h' => h'.builder.Sound) (ThrownAt n) := by
  induction fuel generalizing h with
  | zero => omega
  | succ fuel ih =>
    rw [singleTableLoop]
    apply Ends.test
    · intro _
      exact hb
    · intro _
      apply (thrownAt_ends (parseKey_ends endsName h.it)).bind
      intro ⟨part, it⟩ hit
      apply Ends.test
      · intro _
        exact ⟨_, rfl⟩
      · intro _
        apply (openTable_ends hb).bind
        intro ⟨builder, inserted⟩ hbuilder
        have hdot := consumeDot_length_le it
        have hless : it.length < h.it.length := hit
        exact ih hbuilder (by show (consumeDot it).length < fuel; omega)

theorem tableArrayLoop_ends {fuel : Nat} {h : Header} (hb : h.builder.Sound)
    (hfuel : h.it.length < fuel) :
    Ends (tableArrayLoop n fuel h) (fun h' => h'.builder.Sound) (ThrownAt n) := by
  induction fuel generalizing h with
  | zero => omega
  | succ fuel ih =>
    rw [tableArrayLoop]
    apply Ends.test
    · intro _
      exact hb
    · intro _
      apply (thrownAt_ends (parseKey_ends endsName h.it)).bind
      intro ⟨part, it⟩ hit
      apply Ends.test
      · intro _
        exact ⟨_, rfl⟩
      · intro _
        apply (openTableArray_ends hb _).bind
        intro builder hbuilder
        have hdot := consumeDot_length_le it
        have hless : it.length < h.it.length := hit
        exact ih hbuilder (by show (consumeDot it).length < fuel; omega)

theorem parseSingleTable_ends (hb : b.Sound) (it : Bytes) :
    Ends (parseSingleTable n it b) Builder.Sound (fun e => e = .outside ∨ ThrownAt n e) := by
  rw [parseSingleTable]
  apply Ends.test
  · intro _
    exact Or.inr ⟨_, rfl⟩
  · intro _
    apply ((singleTableLoop_ends hb (Nat.lt_succ_self _)).mono (fun _ => id) fun e => Or.inr).bind
    intro h hsound
    rw [finishSingleTable]
    apply Ends.test
    · intro _
      exact Or.inr ⟨_, rfl⟩
    · intro _
      apply Ends.test
      · intro _
        exact Or.inl rfl
      · intro _
        apply ((thrownAt_ends (any_ends _)).mono (fun _ => id) fun e => Or.inr).bind
        intro _ _
        exact hsound

theorem parseTableArray_ends (hb : b.Sound) (it : Bytes) :
    Ends (parseTableArray n it b) Builder.Sound (ThrownAt n) := by
  rw [parseTableArray]
  apply Ends.test
  · intro _
    exact ⟨_, rfl⟩
  · intro _
    apply (tableArrayLoop_ends hb (Nat.lt_succ_self _)).bind
    intro h hsound
    apply Ends.test
    · intro _
      exact ⟨_, rfl⟩
    · intro _
      apply (thrownAt_ends (any_ends _)).bind
      intro _ _
      exact hsound

theorem parseTable_ends (hb : b.Sound) (it : Bytes) :
    Ends (parseTable n it b) Builder.Sound (fun e => e = .outside ∨ ThrownAt n e) := by
  rw [parseTable]
  apply Ends.test
  · intro _
    exact Or.inr ⟨_, rfl⟩
  · intro _
    apply Ends.test
    · intro _
      exact (parseTableArray_ends hb _).mono (fun _ => id) fun e => Or.inr
    · intro _
      exact parseSingleTable_ends hb it

end Headers

/-! ## Files -/

section Files

variable (inRange : Bytes → Bool)

/-- A line that is not a header. -/
theorem parseLine_plain_ends {b : Builder} (hb : b.Sound) {s : Input}
    (h : deref (consumeWhitespace s.it) ≠ lbracket) :
    Ends (parseLine inRange s b) (fun r => r.1.Sound ∧ After s r.2) (Thrown s) := by
  rw [parseLine]
  apply Ends.test
  · intro _
    exact ⟨hb, After.refl s⟩
  · intro _
    rw [if_neg h]
    have hstart : After s { s with it := consumeWhitespace s.it } :=
      After.within (consumeWhitespace_length_le s.it)
    have hwithin : ReadsWithin s.size (fun _ => True) Proper
        (parseValue inRange (2 * s.size + 1)) :=
      fun t _ ht => (values_end inRange _).1 t (by omega)
    apply ((parseKeyValue_ends hwithin hb.currTable hstart.size).mono (fun _ => id)
      fun e => hstart.thrown).bind
    intro ⟨t, u⟩ ⟨hu, ht⟩
    have hsu := hstart.trans hu
    apply ((throwAt_ends (any_ends _)).mono (fun _ => id) fun e => hsu.thrown).bind
    intro _ _
    exact ⟨(hb.set ht).1, hsu⟩

theorem parseLine_header {s : Input} {b : Builder} {name : Bytes}
    (h : consumeWhitespace s.it = lbracket :: name) : parseLine inRange s b =
      (parseTable s.lineNumber name { b with path := [] }).map (·, s) := by
  simp only [parseLine, h]
  rfl

theorem Builder.Sound.root {b : Builder} (hb : b.Sound) : Sound { b with path := [] } :=
  sound_of_focus hb.proper Table.focus_nil

theorem parseLine_ends {b : Builder} (hb : b.Sound) (s : Input) :
    Ends (parseLine inRange s b) (fun r => r.1.Sound ∧ After s r.2)
      (fun e => e = .outside ∨ Thrown s e) := by
  cases hit : consumeWhitespace s.it with
  | nil =>
    exact (parseLine_plain_ends inRange hb (by rw [hit]; decide)).mono (fun _ => id)
      fun e => Or.inr
  | cons c name =>
    by_cases hc : c = lbracket
    · rw [parseLine_header inRange (hc ▸ hit)]
      apply Ends.map (Q := Builder.Sound)
      · refine (parseTable_ends hb.root _).mono (fun _ => id) fun e he => he.imp id ?_
        intro ⟨err, herr⟩
        exact herr ▸ thrown_here s err
      · intro b' hb'
        exact ⟨hb', After.refl s⟩
    · exact (parseLine_plain_ends inRange hb (by rw [hit]; exact hc)).mono (fun _ => id)
        fun e => Or.inr

theorem parseLoop_ends {fuel : Nat} {rest : List Bytes} {lineNumber : Nat} {b : Builder}
    (hb : b.Sound) (hfuel : rest.length < fuel) :
    Ends (parseLoop inRange fuel rest lineNumber b) Table.Proper
      (fun e => e = .outside ∨ ∃ err n, e = .parseException err n ∧ lineNumber < n ∧
        n ≤ lineNumber + rest.length) := by
  induction fuel generalizing rest lineNumber b with
  | zero => omega
  | succ fuel ih =>
    cases rest with
    | nil =>
      rw [parseLoop]
      exact hb.proper
    | cons line rest =>
      rw [parseLoop]
      simp only [List.length_cons] at hfuel ⊢
      apply ((parseLine_ends inRange hb ⟨line, rest, lineNumber + 1⟩).mono (fun _ => id) ?_).bind
      · intro ⟨b', s⟩ ⟨hb', hs⟩
        have hrest : s.rest.length ≤ rest.length := hs.rest
        have hlines : s.lineNumber + s.rest.length = lineNumber + 1 + rest.length := hs.lines
        apply (ih hb' (Nat.lt_of_le_of_lt hrest (by omega))).mono (fun _ => id)
        intro e he
        refine he.imp id ?_
        intro ⟨err, n, herr, hlow, hhigh⟩
        have hbehind : s.lineNumber < n := hlow
        have hbefore : n ≤ s.lineNumber + s.rest.length := hhigh
        exact ⟨err, n, herr, by omega, by omega⟩
      · intro e he
        refine he.imp id ?_
        intro ⟨err, n, herr, hlow, hhigh⟩
        simp only at hlow hhigh
        exact ⟨err, n, herr, by omega, by omega⟩

/-- For every input the parser gives a proper document, throws at one of the lines, or moves an
iterator beyond the end of a line. -/
theorem parse_ends (input : Bytes) :
    Ends (parse inRange input) Table.Proper (fun e => e = .outside ∨
      ∃ err n, e = .parseException err n ∧ 0 < n ∧ n ≤ (getlines input).length) := by
  have hstart : Builder.Sound ⟨[], []⟩ :=
    Builder.sound_of_focus Table.Proper.nil Table.focus_nil
  apply (parseLoop_ends inRange hstart (Nat.lt_succ_self _)).mono (fun _ => id)
  intro e he
  rwa [Nat.zero_add] at he

end Files

end Svnsrv.Cpptoml
