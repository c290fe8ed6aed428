import Svnsrv.CpptomlEnds

/-!
# The text of a document

A line is a header, a key with its value, or nothing. How it is written is free in many
ways: blanks and comments, bare and quoted keys, escapes in a string, signs and underscores
in a number. Every function of the parser reads its part of the text back.
-/

namespace Svnsrv.Cpptoml

open CText Toml
set_option autoImplicit false

/-! ## Texts -/

abbrev Blanks := { text : Bytes // ∀ c ∈ text, isBlank c = true }

/-- Blanks at the end of a line, and perhaps a comment. -/
structure LineEnd where
  blanks : Blanks
  comment : Option { text : Bytes // newline ∉ text }

def LineEnd.text (e : LineEnd) : Bytes :=
  e.blanks.val ++ e.comment.elim [] fun t => hash :: t.val

inductive Piece where
  | char (c : UInt8) (h : c ≠ quote ∧ c ≠ backslash ∧ c ≠ newline)
  | escape (code value : UInt8) (h : parseEscapeCode code = .ok value)

namespace Piece

def text : Piece → Bytes
  | char c _ => [c]
  | escape code _ _ => [backslash, code]

def value : Piece → UInt8
  | char c _ => c
  | escape _ value _ => value

end Piece

/-- A text between quotes. -/
def quotedText (pieces : List Piece) : Bytes := quote :: (pieces.flatMap Piece.text ++ [quote])

/-- What a bare key is made of. -/
def isNameByte (c : UInt8) : Bool :=
  !(isBlank c || c == newline || c == quote || c == hash || c == dot || c == equal ||
    c == lbracket || c == rbracket)

inductive Key where
  | bare (name : Bytes) (hne : name ≠ []) (h : ∀ c ∈ name, isNameByte c = true)
  | quoted (pieces : List Piece)

namespace Key

def text : Key → Bytes
  | bare name _ _ => name
  | quoted pieces => quotedText pieces

def name : Key → Bytes
  | bare name _ _ => name
  | quoted pieces => pieces.map Piece.value

end Key

abbrev Digit := { c : UInt8 // isDigit c = true }

/-- Digits, with an underscore before some of them. -/
structure Digits where
  first : Digit
  more : List (Bool × Digit)

namespace Digits

def text (ds : Digits) : Bytes :=
  ds.first.val :: ds.more.flatMap fun d => if d.1 then [underscore, d.2.val] else [d.2.val]

def plain (ds : Digits) : Bytes := ds.first.val :: ds.more.map fun d => d.2.val

end Digits

inductive Sign where
  | none | plus | minus

def Sign.text : Sign → Bytes
  | .none => []
  | .plus => [CText.plus]
  | .minus => [CText.minus]

structure Integer where
  sign : Sign
  digits : Digits
  value : Int
  value_eq : value = match sign with
    | .minus => -(numeral digits.plain : Int)
    | _ => numeral digits.plain
  fits : -2 ^ 63 ≤ value ∧ value < 2 ^ 63

def Integer.text (i : Integer) : Bytes := i.sign.text ++ i.digits.text

/-- So many digits. -/
abbrev Number (len : Nat) := { text : Bytes // text.length = len ∧ ∀ c ∈ text, isDigit c = true }

inductive Offset where
  | utc
  | ahead (hours minutes : Number 2)
  | behind (hours minutes : Number 2)

def Offset.text : Offset → Bytes
  | utc => [90]
  | ahead hours minutes => plus :: (hours.val ++ colon :: minutes.val)
  | behind hours minutes => minus :: (hours.val ++ colon :: minutes.val)

structure Date where
  year : Number 4
  month : Number 2
  day : Number 2
  hour : Number 2
  minute : Number 2
  second : Number 2
  fraction : Option { text : Bytes // ∀ c ∈ text, isDigit c = true }
  offset : Offset

def Date.text (d : Date) : Bytes :=
  d.year.val ++ minus :: (d.month.val ++ minus :: (d.day.val ++ 84 :: (d.hour.val ++
    colon :: (d.minute.val ++ colon :: (d.second.val ++
      (d.fraction.elim [] fun t => dot :: t.val) ++ d.offset.text)))))

inductive Value where
  | basic (pieces : List Piece)
  | literal (text : { text : Bytes // apostrophe ∉ text ∧ newline ∉ text })
  | integer (i : Integer)
  | bool (data : Bool)
  | date (d : Date)

namespace Value

def text : Value → Bytes
  | basic pieces => quotedText pieces
  | literal text => apostrophe :: (text.val ++ [apostrophe])
  | integer i => i.text
  | bool data => if data then ascii "true" else ascii "false"
  | date d => d.text

def base : Value → Base
  | basic pieces => .string (pieces.map Piece.value)
  | literal text => .string text.val
  | integer i => .int64 (Int64.ofInt i.value)
  | bool data => .bool data
  | date _ => .datetime

end Value

/-- A part of the name in a header. -/
structure Part where
  before : Blanks
  key : Key
  after : Blanks

def Part.text (p : Part) : Bytes := p.before.val ++ (p.key.text ++ p.after.val)

/-- The name in a header: its parts with dots between them. -/
structure Name where
  first : Part
  more : List Part

namespace Name

def text (m : Name) : Bytes := m.first.text ++ m.more.flatMap fun p => dot :: p.text

def parts (m : Name) : List Bytes := m.first.key.name :: m.more.map fun p => p.key.name

end Name

inductive Body where
  | empty
  | table (m : Name)
  | tableArray (m : Name)
  | keyValue (key : Key) (before after : Blanks) (value : Value)

def Body.text : Body → Bytes
  | empty => []
  | table m => lbracket :: (m.text ++ [rbracket])
  | tableArray m => lbracket :: lbracket :: (m.text ++ [rbracket, rbracket])
  | keyValue key before after value =>
    key.text ++ (before.val ++ equal :: (after.val ++ value.text))

structure Line where
  indent : Blanks
  body : Body
  ending : LineEnd

def Line.text (l : Line) : Bytes := l.indent.val ++ (l.body.text ++ l.ending.text)

def documentText (lines : List Line) : Bytes := lines.flatMap fun l => l.text ++ [newline]

/-! ## Blanks -/

theorem eq_of_isBlank {c : UInt8} (h : isBlank c = true) : c = 32 ∨ c = 9 := by
  simpa [isBlank] using h

theorem consumeWhitespace_append {blanks : Bytes} (h : ∀ c ∈ blanks, isBlank c = true)
    (it : Bytes) : consumeWhitespace (blanks ++ it) = consumeWhitespace it :=
  List.dropWhile_append_of_pos h

theorem consumeWhitespace_self {it : Bytes} (h : ∀ c ∈ it.head?, isBlank c = false) :
    consumeWhitespace it = it := by
  cases it with
  | nil => rfl
  | cons c it =>
    rw [consumeWhitespace, List.dropWhile_cons_of_neg]
    rw [h c rfl]
    exact Bool.false_ne_true

theorem consumeWhitespace_idem (it : Bytes) :
    consumeWhitespace (consumeWhitespace it) = consumeWhitespace it :=
  List.dropWhile_idempotent isBlank it

/-- Behind the blanks at the end of a line there is nothing, or a comment. -/
theorem LineEnd.consumed (e : LineEnd) :
    eolOrComment (consumeWhitespace e.text) = .ok () ∧
      (consumeWhitespace e.text = [] ∨ deref (consumeWhitespace e.text) = hash) := by
  rw [LineEnd.text, consumeWhitespace_append e.blanks.property]
  cases e.comment with
  | none => exact ⟨rfl, Or.inl rfl⟩
  | some t => exact ⟨rfl, Or.inr rfl⟩

/-- The characters that may stand right behind a value. -/
def Stops (it : Bytes) : Prop := ∀ c ∈ it.head?, isBlank c = true ∨ c = hash

theorem LineEnd.stops (e : LineEnd) : Stops e.text := by
  intro c hc
  rw [LineEnd.text] at hc
  cases hb : e.blanks.val with
  | nil =>
    rw [hb] at hc
    cases he : e.comment with
    | none =>
      rw [he] at hc
      cases hc
    | some t =>
      rw [he] at hc
      exact Or.inr (Option.some.inj hc).symm
  | cons b blanks =>
    rw [hb] at hc
    obtain rfl := Option.some.inj hc
    exact Or.inl (e.blanks.property _ (hb ▸ List.mem_cons_self))

/-! ## Strings -/

theorem stringLiteral_pieces (pieces : List Piece) (it val : Bytes) :
    stringLiteral quote (pieces.flatMap Piece.text ++ quote :: it) val =
      .ok (val ++ pieces.map Piece.value, consumeWhitespace it) := by
  induction pieces generalizing val with
  | nil =>
    rw [List.flatMap_nil, List.nil_append, stringLiteral_char rfl, if_pos rfl, List.map_nil,
      List.append_nil]
  | cons p pieces ih =>
    have hval : val ++ (p :: pieces).map Piece.value =
        (val ++ [p.value]) ++ pieces.map Piece.value := by simp
    rw [hval, ← ih]
    cases p with
    | char c h =>
      have hplain : startsEscape quote c = false := by simp [startsEscape, h.2.1]
      simp only [List.flatMap_cons, Piece.text, List.cons_append, List.nil_append]
      rw [stringLiteral_char hplain, if_neg h.1]
      rfl
    | escape code value h =>
      simp only [List.flatMap_cons, Piece.text, List.cons_append, List.nil_append]
      rw [stringLiteral_escape rfl, h]
      rfl

theorem stringLiteral_literal {text : Bytes} (h : apostrophe ∉ text) (it val : Bytes) :
    stringLiteral apostrophe (text ++ apostrophe :: it) val =
      .ok (val ++ text, consumeWhitespace it) := by
  induction text generalizing val with
  | nil => rw [List.nil_append, stringLiteral_char rfl, if_pos rfl, List.append_nil]
  | cons c text ih =>
    rw [List.mem_cons, not_or] at h
    have hval : val ++ c :: text = (val ++ [c]) ++ text := by simp
    rw [List.cons_append, stringLiteral_char rfl, if_neg (Ne.symm h.1), ih h.2, hval]

/-- A text with a delimiter behind it does not begin with two, unless one follows. -/
theorem take_two_ne {delim : UInt8} {text behind : Bytes} (hbehind : Stops behind)
    (hdelim : delim ≠ hash ∧ isBlank delim = false) (htext : ∀ c ∈ text.head?, c ≠ delim) :
    (text ++ delim :: behind).take 2 ≠ [delim, delim] := by
  cases text with
  | nil =>
    cases behind with
    | nil => simp
    | cons c behind =>
      intro h
      obtain rfl : c = delim := by simpa using h
      cases hbehind c rfl with
      | inl hblank => rw [hdelim.2] at hblank; cases hblank
      | inr hhash => exact hdelim.1 hhash
  | cons c text =>
    intro h
    rw [List.cons_append, List.take_succ_cons] at h
    exact htext c rfl (List.cons.inj h).1

theorem parseString_basic (pieces : List Piece) {behind : Bytes} (h : Stops behind)
    (rest : List Bytes) (n : Nat) :
    parseString ⟨quotedText pieces ++ behind, rest, n⟩ =
      .ok (.string (pieces.map Piece.value), ⟨consumeWhitespace behind, rest, n⟩) := by
  have hfirst : ∀ c ∈ (pieces.flatMap Piece.text).head?, c ≠ quote := by
    intro c hc
    cases pieces with
    | nil => cases hc
    | cons p pieces =>
      cases p with
      | char a ha => exact Option.some.inj hc ▸ ha.1
      | escape code value ha =>
        obtain rfl := Option.some.inj hc
        decide
  have htwo := take_two_ne h ⟨by decide, by decide⟩ hfirst
  have htext : quotedText pieces ++ behind =
      quote :: (pieces.flatMap Piece.text ++ quote :: behind) := by simp [quotedText]
  rw [htext, parseString, deref_cons, List.tail_cons, if_neg htwo, stringLiteral_pieces]
  rfl

theorem parseString_literal {text : Bytes} (htext : apostrophe ∉ text) {behind : Bytes}
    (h : Stops behind) (rest : List Bytes) (n : Nat) :
    parseString ⟨apostrophe :: (text ++ [apostrophe]) ++ behind, rest, n⟩ =
      .ok (.string text, ⟨consumeWhitespace behind, rest, n⟩) := by
  have hfirst : ∀ c ∈ text.head?, c ≠ apostrophe := fun c hc heq =>
    htext (heq ▸ List.mem_of_mem_head? hc)
  have htwo := take_two_ne h ⟨by decide, by decide⟩ hfirst
  have hassoc : apostrophe :: (text ++ [apostrophe]) ++ behind =
      apostrophe :: (text ++ apostrophe :: behind) := by simp
  rw [hassoc, parseString, deref_cons, List.tail_cons, if_neg htwo, stringLiteral_literal htext]
  rfl

/-! ## Numbers -/

theorem Stops.not_digit {behind : Bytes} (h : Stops behind) :
    isDigit (deref behind) = false ∧ deref behind ≠ underscore ∧ deref behind ≠ dot ∧
      isExponent (deref behind) = false ∧ isDateChar (deref behind) = false := by
  have hall : ∀ c : UInt8, c = 0 ∨ isBlank c = true ∨ c = hash → isDigit c = false ∧
      c ≠ underscore ∧ c ≠ dot ∧ isExponent c = false ∧ isDateChar c = false := by
    intro c hc
    have hcases : c = 0 ∨ c = 32 ∨ c = 9 ∨ c = 35 := by
      rcases hc with rfl | hblank | rfl
      · exact Or.inl rfl
      · exact Or.inr ((eq_of_isBlank hblank).imp id Or.inl)
      · exact Or.inr (Or.inr (Or.inr rfl))
    rcases hcases with rfl | rfl | rfl | rfl <;> decide
  cases behind with
  | nil => exact hall 0 (Or.inl rfl)
  | cons c behind => exact hall c (Or.inr (h c rfl))

theorem eatNumbersLoop_digits (first : Digit) (more : List (Bool × Digit)) {behind : Bytes}
    (h : isDigit (deref behind) = false ∧ deref behind ≠ underscore) :
    eatNumbersLoop (Digits.text ⟨first, more⟩ ++ behind) = .ok behind := by
  induction more generalizing first with
  | nil =>
    cases behind with
    | nil => simp [Digits.text, eatNumbersLoop, first.property]
    | cons c behind =>
      simp only [deref_cons] at h
      simp only [Digits.text, List.flatMap_nil, List.cons_append, List.nil_append]
      rw [eatNumbersLoop, if_pos first.property, if_neg h.2]
      cases behind <;> simp [eatNumbersLoop, h.1]
  | cons d more ih =>
    obtain ⟨u, d⟩ := d
    have ih := ih d
    simp only [Digits.text, List.flatMap_cons, List.cons_append, List.append_assoc] at ih ⊢
    cases u with
    | true =>
      simp only [if_true, List.cons_append, List.nil_append]
      rw [eatNumbersLoop, if_pos first.property, if_pos rfl, deref_cons, if_pos d.property]
      exact ih
    | false =>
      have hd : d.val ≠ underscore := by
        intro heq
        have hdigit := d.property
        rw [heq] at hdigit
        cases hdigit
      simp only [Bool.false_eq_true, if_false, List.cons_append, List.nil_append]
      rw [eatNumbersLoop, if_pos first.property, if_neg hd]
      exact ih

theorem eatNumbers_digits (ds : Digits) {behind : Bytes}
    (h : isDigit (deref behind) = false ∧ deref behind ≠ underscore) :
    eatNumbers (ds.text ++ behind) = .ok behind := by
  have hfirst : isDigit (deref (ds.text ++ behind)) = true := ds.first.property
  rw [eatNumbers, if_pos hfirst]
  exact eatNumbersLoop_digits ds.first ds.more h

theorem ne_underscore_of_isDigit {c : UInt8} (h : isDigit c = true) : c ≠ underscore := by
  intro heq
  rw [heq] at h
  cases h

theorem filter_digits (ds : Digits) : ds.text.filter (· ≠ underscore) = ds.plain := by
  obtain ⟨first, more⟩ := ds
  simp only [Digits.text, Digits.plain]
  rw [List.filter_cons_of_pos (by simpa using ne_underscore_of_isDigit first.property)]
  congr 1
  induction more with
  | nil => rfl
  | cons d more ih =>
    obtain ⟨u, d⟩ := d
    have hd := ne_underscore_of_isDigit d.property
    cases u <;> simpa [hd] using ih

theorem eatSign_integer (i : Integer) (behind : Bytes) :
    eatSign (i.text ++ behind) = i.digits.text ++ behind := by
  have hfirst := ne_sign_of_isDigit i.digits.first.property
  rw [Integer.text]
  cases i.sign with
  | none =>
    rw [eatSign, if_neg]
    · rfl
    · exact not_or.mpr hfirst
  | plus => rfl
  | minus => rfl

theorem stoll_integer (i : Integer) :
    stoll (i.sign.text ++ i.digits.plain) = some (Int64.ofInt i.value) := by
  have hfits := i.fits
  have hvalue := i.value_eq
  have hfirst := ne_sign_of_isDigit i.digits.first.property
  have hsign : (if deref (i.sign.text ++ i.digits.plain) = minus then
      -(numeral (i.sign.text ++ i.digits.plain).tail : Int)
      else numeral (eatSign (i.sign.text ++ i.digits.plain))) = i.value := by
    rw [hvalue]
    cases i.sign with
    | none =>
      have hplain : eatSign (Sign.none.text ++ i.digits.plain) = i.digits.plain := by
        rw [eatSign, if_neg]
        · rfl
        · exact not_or.mpr hfirst
      rw [if_neg, hplain]
      exact hfirst.1
    | plus => rfl
    | minus => rfl
  rw [stoll]
  simp only [hsign, if_pos hfits]

theorem sign_text_filter (s : Sign) : s.text.filter (· ≠ underscore) = s.text := by
  cases s <;> rfl

theorem parseNumber_integer (inRange : Bytes → Bool) (i : Integer) {behind : Bytes}
    (h : Stops behind) : parseNumber inRange (i.text ++ behind) =
      .ok (.int64 (Int64.ofInt i.value), behind) := by
  obtain ⟨hdigit, hunderscore, hdot, hexp, -⟩ := h.not_digit
  have htext : numberText (i.text ++ behind) behind = i.sign.text ++ i.digits.plain := by
    rw [numberText, List.length_append, Nat.add_sub_cancel, List.take_left, Integer.text,
      List.filter_append, sign_text_filter, filter_digits]
  rw [parseNumber, eatSign_integer, eatNumbers_digits _ ⟨hdigit, hunderscore⟩]
  simp only [bind, Except.bind, hdot, hexp, Bool.false_eq_true, or_self, if_false]
  rw [parseInt, htext, stoll_integer]

/-! ## Booleans and dates -/

section Stopped

variable {p : UInt8 → Bool} {text behind : Bytes}

theorem takeWhile_stopped (htext : ∀ c ∈ text, p c = true) (hbehind : ∀ c ∈ behind.head?, p c = false) :
    (text ++ behind).takeWhile p = text := by
  rw [List.takeWhile_append_of_pos htext]
  cases behind with
  | nil => rw [List.takeWhile_nil, List.append_nil]
  | cons c behind =>
    rw [List.takeWhile_cons_of_neg (by rw [hbehind c rfl]; exact Bool.false_ne_true),
      List.append_nil]

theorem dropWhile_stopped (htext : ∀ c ∈ text, p c = true) (hbehind : ∀ c ∈ behind.head?, p c = false) :
    (text ++ behind).dropWhile p = behind := by
  rw [List.dropWhile_append_of_pos htext]
  cases behind with
  | nil => rfl
  | cons c behind =>
    rw [List.dropWhile_cons_of_neg (by rw [hbehind c rfl]; exact Bool.false_ne_true)]

end Stopped

theorem Stops.head {behind : Bytes} {q : UInt8 → Bool} (h : Stops behind)
    (hq : ∀ c, isBlank c = true ∨ c = hash → q c = false) : ∀ c ∈ behind.head?, q c = false :=
  fun c hc => hq c (h c hc)

theorem parseBool_text (data : Bool) {behind : Bytes} (h : Stops behind) :
    parseBool ((if data then ascii "true" else ascii "false") ++ behind) =
      .ok (.bool data, behind) := by
  have hbehind : ∀ c ∈ behind.head?, (!(isBlank c || c == hash)) = false := by
    apply h.head
    intro c hc
    cases hc with
    | inl hblank => rw [hblank, Bool.true_or, Bool.not_true]
    | inr hhash => simp [hhash]
  cases data with
  | true =>
    have htext : ∀ c ∈ ascii "true", (!(isBlank c || c == hash)) = true :=
      List.all_eq_true.mp rfl
    simp only [if_true, parseBool, takeWhile_stopped htext hbehind, dropWhile_stopped htext hbehind]
  | false =>
    have htext : ∀ c ∈ ascii "false", (!(isBlank c || c == hash)) = true :=
      List.all_eq_true.mp rfl
    have hne : ascii "false" ≠ ascii "true" := by decide
    simp only [Bool.false_eq_true, if_false, parseBool, takeWhile_stopped htext hbehind,
      dropWhile_stopped htext hbehind, if_neg hne, if_true]

theorem eatDigits_number {len : Nat} (num : Number len) (it : Bytes) :
    eatDigits len (num.val ++ it) = .ok it := by
  obtain ⟨text, hlen, hdigits⟩ := num
  induction len generalizing text with
  | zero =>
    obtain rfl := List.length_eq_zero_iff.mp hlen
    rfl
  | succ len ih =>
    cases text with
    | nil => cases hlen
    | cons c text =>
      have hc := hdigits c List.mem_cons_self
      rw [List.cons_append, eatDigits, deref_cons, hc]
      exact ih text (Nat.succ.inj hlen) fun d hd => hdigits d (List.mem_cons_of_mem c hd)

theorem eat_cons (c : UInt8) (it : Bytes) : eat c (c :: it) = .ok it := by simp [eat]

theorem eatOffset_text (o : Offset) : eatOffset o.text = .ok [] := by
  cases o with
  | utc => rfl
  | ahead hours minutes =>
    have hminutes := eatDigits_number minutes []
    rw [List.append_nil] at hminutes
    simp only [Offset.text, eatOffset, deref_cons, true_or, if_true, List.tail_cons, bind,
      Except.bind, eatDigits_number, eat_cons, hminutes]
  | behind hours minutes =>
    have hminutes := eatDigits_number minutes []
    rw [List.append_nil] at hminutes
    simp only [Offset.text, eatOffset, deref_cons, or_true, if_true, List.tail_cons, bind,
      Except.bind, eatDigits_number, eat_cons, hminutes]

theorem Offset.head (o : Offset) : ∃ c text, o.text = c :: text ∧ c ≠ dot ∧ isDigit c = false := by
  cases o with
  | utc => exact ⟨_, _, rfl, by decide, by decide⟩
  | ahead hours minutes => exact ⟨_, _, rfl, by decide, by decide⟩
  | behind hours minutes => exact ⟨_, _, rfl, by decide, by decide⟩

theorem isDateChar_of_isDigit {c : UInt8} (h : isDigit c = true) : isDateChar c = true := by
  simp [isDateChar, h]

theorem Number.dateChars {len : Nat} (num : Number len) : ∀ c ∈ num.val, isDateChar c = true :=
  fun c hc => isDateChar_of_isDigit (num.property.2 c hc)

theorem Offset.dateChars (o : Offset) : ∀ c ∈ o.text, isDateChar c = true := by
  cases o with
  | utc => exact List.forall_mem_singleton.mpr rfl
  | ahead hours minutes =>
    intro c hc
    simp only [Offset.text, List.mem_cons, List.mem_append] at hc
    obtain rfl | hc | rfl | hc := hc
    · rfl
    · exact hours.dateChars c hc
    · rfl
    · exact minutes.dateChars c hc
  | behind hours minutes =>
    intro c hc
    simp only [Offset.text, List.mem_cons, List.mem_append] at hc
    obtain rfl | hc | rfl | hc := hc
    · rfl
    · exact hours.dateChars c hc
    · rfl
    · exact minutes.dateChars c hc

theorem Date.dateChars (d : Date) : ∀ c ∈ d.text, isDateChar c = true := by
  have hfraction : ∀ c ∈ d.fraction.elim [] fun t => dot :: t.val, isDateChar c = true := by
    intro c hc
    cases hf : d.fraction with
    | none =>
      rw [hf] at hc
      cases hc
    | some t =>
      rw [hf] at hc
      cases List.mem_cons.mp hc with
      | inl heq => exact heq ▸ rfl
      | inr hmem => exact isDateChar_of_isDigit (t.property c hmem)
  intro c hc
  simp only [Date.text, List.mem_cons, List.mem_append] at hc
  obtain hc | rfl | hc | rfl | hc | rfl | hc | rfl | hc | rfl | (hc | hc) | hc := hc
  · exact d.year.dateChars c hc
  · rfl
  · exact d.month.dateChars c hc
  · rfl
  · exact d.day.dateChars c hc
  · rfl
  · exact d.hour.dateChars c hc
  · rfl
  · exact d.minute.dateChars c hc
  · rfl
  · exact d.second.dateChars c hc
  · exact hfraction c hc
  · exact d.offset.dateChars c hc

theorem Stops.not_dateChar {behind : Bytes} (h : Stops behind) :
    ∀ c ∈ behind.head?, isDateChar c = false := by
  intro c hc
  have hdate := h.not_digit.2.2.2.2
  rw [deref, List.headD_eq_head?_getD, Option.mem_def.mp hc] at hdate
  exact hdate

theorem parseDate_text (d : Date) {behind : Bytes} (h : Stops behind) :
    parseDate (d.text ++ behind) = .ok (.datetime, behind) := by
  rw [parseDate, takeWhile_stopped d.dateChars h.not_dateChar,
    dropWhile_stopped d.dateChars h.not_dateChar]
  obtain ⟨c, text, hoffset, hdot, hdigit⟩ := d.offset.head
  have hbehind : (if deref ((d.fraction.elim [] fun t => dot :: t.val) ++ d.offset.text) = dot then
      ((d.fraction.elim [] fun t => dot :: t.val) ++ d.offset.text).tail.dropWhile isDigit
      else (d.fraction.elim [] fun t => dot :: t.val) ++ d.offset.text) = d.offset.text := by
    cases d.fraction with
    | none =>
      rw [hoffset]
      exact if_neg hdot
    | some t =>
      have hhead : ∀ a ∈ d.offset.text.head?, isDigit a = false := by
        rw [hoffset]
        intro a ha
        exact Option.some.inj ha ▸ hdigit
      simp only [Option.elim_some, List.cons_append, deref_cons, if_true, List.tail_cons]
      exact dropWhile_stopped t.property hhead
  have hne : d.offset.text ≠ [] := by rw [hoffset]; exact List.cons_ne_nil c text
  simp only [Date.text, bind, Except.bind, eatDigits_number, eat_cons, List.append_assoc, hbehind,
    if_neg hne, eatOffset_text, if_true]

theorem isDate_date (d : Date) {behind : Bytes} (h : Stops behind) :
    isDate (d.text ++ behind) = true := by
  rw [isDate, takeWhile_stopped d.dateChars h.not_dateChar]
  obtain ⟨c, text, hoffset, -, -⟩ := d.offset.head
  have hlength : 20 ≤ d.text.length := by
    simp only [Date.text, List.length_append, List.length_cons, d.year.property.1,
      d.month.property.1, d.day.property.1, d.hour.property.1, d.minute.property.1,
      d.second.property.1, hoffset]
    omega
  simp [hlength]
  simp [Date.text, List.getElem?_append, d.year.property.1, d.month.property.1, d.day.property.1,
    d.hour.property.1, d.minute.property.1]

end Svnsrv.Cpptoml
