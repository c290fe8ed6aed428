import Mathlib.Data.List.ReduceOption
import Svnsrv.CpptomlText

/-!
# Reading a document back

Whatever way a document is written, the parser does with it what its statements say, line by
line: it opens the tables of the headers and inserts the values under the keys, or it refuses
the first statement that cannot be carried out.
-/

namespace Svnsrv.Cpptoml

open CText Toml Outcome
set_option autoImplicit false

/-! ## Values -/

theorem mem_digits {ds : Digits} {c : UInt8} (h : c ∈ ds.text) :
    isDigit c = true ∨ c = underscore := by
  cases List.mem_cons.mp h with
  | inl hfirst => exact Or.inl (hfirst ▸ ds.first.property)
  | inr hmore =>
    obtain ⟨⟨u, d⟩, -, hd⟩ := List.mem_flatMap.mp hmore
    cases u with
    | true =>
      simp only [if_true, List.mem_cons, List.not_mem_nil, or_false] at hd
      exact hd.elim Or.inr fun heq => Or.inl (heq ▸ d.property)
    | false =>
      simp only [Bool.false_eq_true, if_false, List.mem_singleton] at hd
      exact Or.inl (hd ▸ d.property)

theorem minus_not_mem_digits (ds : Digits) : minus ∉ ds.text := by
  intro h
  cases mem_digits h with
  | inl hdigit => cases hdigit
  | inr heq => cases heq

theorem takeWhile_prefix_of_stops (text : Bytes) {behind : Bytes} (h : Stops behind) :
    (text ++ behind).takeWhile isDateChar <+: text := by
  have hnil : behind.takeWhile isDateChar = [] := by
    cases behind with
    | nil => rfl
    | cons c behind =>
      rw [List.takeWhile_cons_of_neg]
      rw [h.not_dateChar c rfl]
      exact Bool.false_ne_true
  rw [List.takeWhile_append, hnil, List.append_nil]
  split
  · exact List.prefix_refl text
  · exact List.takeWhile_prefix isDateChar

/-- A number has no minus where a date has its first one. -/
theorem isDate_integer (i : Integer) {behind : Bytes} (h : Stops behind) :
    isDate (i.text ++ behind) = false := by
  obtain ⟨u, hu⟩ := takeWhile_prefix_of_stops i.text h
  have hminus : ((i.text ++ behind).takeWhile isDateChar)[4]? ≠ some minus := by
    intro hfour
    have hlt := (List.getElem?_eq_some_iff.mp hfour).1
    have htext : i.text[4]? = some minus := by
      rw [← hu, List.getElem?_append_left hlt]
      exact hfour
    rw [Integer.text] at htext
    have hmem : minus ∈ i.digits.text := by
      cases hs : i.sign with
      | none => rw [hs] at htext; exact List.mem_of_getElem? htext
      | plus =>
        rw [hs] at htext
        exact List.mem_of_getElem? (i := 3) htext
      | minus =>
        rw [hs] at htext
        exact List.mem_of_getElem? (i := 3) htext
    exact minus_not_mem_digits i.digits hmem
  simp only [isDate, Bool.and_eq_false_iff, beq_eq_false_iff_ne]
  exact Or.inl (Or.inl (Or.inl (Or.inl (Or.inr hminus))))

theorem determineValueType_number {c : UInt8} {text : Bytes} (hdate : isDate text = false)
    (hc : isDigit c = true ∨ c = minus ∨ c = plus) :
    determineValueType c text = .ok (determineNumberType text) := by
  have hquote : ¬(c = quote ∨ c = apostrophe) := by
    intro heq
    obtain rfl | rfl := heq <;> obtain hc | hc | hc := hc <;> cases hc
  rw [determineValueType, if_neg hquote, if_neg (by rw [hdate]; exact Bool.false_ne_true),
    if_pos hc]

theorem head_integer (i : Integer) (behind : Bytes) : isDigit (deref (i.text ++ behind)) = true ∨
    deref (i.text ++ behind) = minus ∨ deref (i.text ++ behind) = plus := by
  rw [Integer.text]
  cases i.sign with
  | none => exact Or.inl i.digits.first.property
  | plus => exact Or.inr (Or.inr rfl)
  | minus => exact Or.inr (Or.inl rfl)

theorem Date.head (d : Date) : ∃ c text, d.text = c :: text ∧ isDigit c = true := by
  rcases hyear : d.year with ⟨text, hlen, hdigits⟩
  cases text with
  | nil => cases hlen
  | cons c text =>
    rw [Date.text, hyear]
    exact ⟨c, _, rfl, hdigits c List.mem_cons_self⟩

theorem not_isBlank_of_isDigit {c : UInt8} (h : isDigit c = true) : isBlank c = false := by
  by_contra hblank
  obtain rfl | rfl := eq_of_isBlank (eq_true_of_ne_false hblank) <;> cases h

theorem reading_ok {s : Input} {e : Except Bytes (Base × Bytes)} {v : Base} {it : Bytes}
    (h : e = .ok (v, it)) : s.reading e = .ok (v, { s with it }) := by
  rw [h]
  rfl

/-- The first character of a value. -/
theorem Value.head (v : Value) : ∃ c text, v.text = c :: text ∧ isBlank c = false := by
  cases v with
  | basic pieces => exact ⟨quote, _, rfl, rfl⟩
  | literal text => exact ⟨apostrophe, _, rfl, rfl⟩
  | integer i =>
    rw [Value.text, Integer.text]
    cases i.sign with
    | none =>
      exact ⟨_, _, rfl, not_isBlank_of_isDigit i.digits.first.property⟩
    | plus => exact ⟨_, _, rfl, rfl⟩
    | minus => exact ⟨_, _, rfl, rfl⟩
  | bool data => cases data <;> exact ⟨_, _, rfl, rfl⟩
  | date d =>
    obtain ⟨c, text, htext, hdigit⟩ := d.head
    exact ⟨c, text, htext, not_isBlank_of_isDigit hdigit⟩

/-- The parser reads a value, and the blanks behind it or not. -/
theorem parseValue_text (inRange : Bytes → Bool) (v : Value) {behind : Bytes} (h : Stops behind)
    (fuel : Nat) (rest : List Bytes) (n : Nat) :
    ∃ it, parseValue inRange (fuel + 1) ⟨v.text ++ behind, rest, n⟩ = .ok (v.base, ⟨it, rest, n⟩) ∧
      consumeWhitespace it = consumeWhitespace behind := by
  cases v with
  | basic pieces =>
    refine ⟨consumeWhitespace behind, ?_, consumeWhitespace_idem behind⟩
    have htype : determineValueType (deref (quotedText pieces ++ behind))
        (quotedText pieces ++ behind) = .ok .string := if_pos (Or.inl rfl)
    rw [parseValue]
    simp only [Value.text, htype, throwAt, bind, Except.bind]
    exact parseString_basic pieces h rest n
  | literal text =>
    refine ⟨consumeWhitespace behind, ?_, consumeWhitespace_idem behind⟩
    have htype : determineValueType (deref (apostrophe :: (text.val ++ [apostrophe]) ++ behind))
        (apostrophe :: (text.val ++ [apostrophe]) ++ behind) = .ok .string := if_pos (Or.inr rfl)
    rw [parseValue]
    simp only [Value.text, htype, throwAt, bind, Except.bind]
    exact parseString_literal text.property.1 h rest n
  | integer i =>
    refine ⟨behind, ?_, rfl⟩
    have htype := determineValueType_number (isDate_integer i h) (head_integer i behind)
    rw [parseValue]
    simp only [Value.text, htype, throwAt, bind, Except.bind]
    have hnumber := parseNumber_integer inRange i h
    unfold determineNumberType
    split
    · rename_i heq
      split at heq <;> cases heq
    all_goals first
      | exact reading_ok hnumber
      | (rename_i heq; split at heq <;> cases heq)
  | bool data =>
    refine ⟨behind, ?_, rfl⟩
    have htype : determineValueType
        (deref ((if data then ascii "true" else ascii "false") ++ behind))
        ((if data then ascii "true" else ascii "false") ++ behind) = .ok .bool := by
      cases data <;> rfl
    rw [parseValue]
    simp only [Value.text, htype, throwAt, bind, Except.bind]
    exact reading_ok (parseBool_text data h)
  | date d =>
    refine ⟨behind, ?_, rfl⟩
    have hquote : ¬(deref (d.text ++ behind) = quote ∨ deref (d.text ++ behind) = apostrophe) := by
      obtain ⟨c, text, htext, hdigit⟩ := d.head
      rw [htext, List.cons_append, deref_cons]
      intro heq
      obtain rfl | rfl := heq <;> cases hdigit
    have htype : determineValueType (deref (d.text ++ behind)) (d.text ++ behind) = .ok .date := by
      rw [determineValueType, if_neg hquote, if_pos (isDate_date d h)]
    rw [parseValue]
    simp only [Value.text, htype, throwAt, bind, Except.bind]
    exact reading_ok (parseDate_text d h)

/-! ## Keys -/

theorem nameByte_facts {c : UInt8} (h : isNameByte c = true) : isBlank c = false ∧ c ≠ newline ∧
    c ≠ quote ∧ c ≠ hash ∧ c ≠ dot ∧ c ≠ equal ∧ c ≠ lbracket ∧ c ≠ rbracket := by
  simp only [isNameByte, Bool.not_eq_true', Bool.or_eq_false_iff, beq_eq_false_iff_ne] at h
  obtain ⟨⟨⟨⟨⟨⟨⟨hblank, hnewline⟩, hquote⟩, hhash⟩, hdot⟩, hequal⟩, hleft⟩, hright⟩ := h
  exact ⟨hblank, hnewline, hquote, hhash, hdot, hequal, hleft, hright⟩

theorem rdropWhile_blanks {cs blanks : Bytes} (hcs : ∀ c ∈ cs, isBlank c = false)
    (hblanks : ∀ c ∈ blanks, isBlank c = true) : (cs ++ blanks).rdropWhile isBlank = cs := by
  have hkept : cs.reverse.dropWhile isBlank = cs.reverse :=
    consumeWhitespace_self fun c hc => hcs c (List.mem_reverse.mp (List.mem_of_mem_head? hc))
  have hdropped : ∀ c ∈ blanks.reverse, isBlank c = true :=
    fun c hc => hblanks c (List.mem_reverse.mp hc)
  rw [List.rdropWhile, List.reverse_append, List.dropWhile_append_of_pos hdropped, hkept,
    List.reverse_reverse]

theorem parseBareKey_name {name blanks : Bytes} (hne : name ≠ [])
    (hname : ∀ c ∈ name, isNameByte c = true) (hblanks : ∀ c ∈ blanks, isBlank c = true) :
    parseBareKey (name ++ blanks) = .ok name := by
  have hback : consumeBackwardsWhitespace (name ++ blanks) = name := by
    cases name with
    | nil => exact absurd rfl hne
    | cons c cs =>
      rw [List.cons_append, consumeBackwardsWhitespace, rdropWhile_blanks ?_ hblanks]
      exact fun a ha => (nameByte_facts (hname a (List.mem_cons_of_mem c ha))).1
  have hhash : hash ∉ name := fun h => (nameByte_facts (hname _ h)).2.2.2.1 rfl
  have hany : name.any isBlank = false := by
    rw [List.any_eq_false]
    intro c hc hblank
    rw [(nameByte_facts (hname c hc)).1] at hblank
    cases hblank
  have hbrackets : ¬(lbracket ∈ name ∨ rbracket ∈ name) := by
    intro h
    cases h with
    | inl hleft => exact (nameByte_facts (hname _ hleft)).2.2.2.2.2.2.1 rfl
    | inr hright => exact (nameByte_facts (hname _ hright)).2.2.2.2.2.2.2 rfl
  have hnil : name ++ blanks ≠ [] := fun h => hne (List.append_eq_nil_iff.mp h).1
  simp only [parseBareKey, if_neg hnil, hback, if_neg hhash, hany, if_neg hbrackets,
    Bool.false_eq_true, if_false]

/-- The first character of a key. -/
theorem Key.head (k : Key) : ∃ c text, k.text = c :: text ∧ isBlank c = false ∧ c ≠ hash ∧
    c ≠ lbracket ∧ c ≠ rbracket ∧ c ≠ dot := by
  cases k with
  | bare name hne h =>
    cases name with
    | nil => exact absurd rfl hne
    | cons c cs =>
      obtain ⟨hblank, -, -, hhash, hdot, -, hleft, hright⟩ :=
        nameByte_facts (h c List.mem_cons_self)
      exact ⟨c, cs, rfl, hblank, hhash, hleft, hright, hdot⟩
  | quoted pieces => exact ⟨quote, _, rfl, by decide⟩

theorem Key.consumed (k : Key) (it : Bytes) :
    consumeWhitespace (k.text ++ it) = k.text ++ it := by
  obtain ⟨c, text, htext, hblank, -⟩ := k.head
  rw [htext, List.cons_append]
  apply consumeWhitespace_self
  intro a ha
  exact Option.some.inj ha ▸ hblank

theorem parseKey_consumed {stop : UInt8 → Bool} {it front : Bytes}
    (h : consumeWhitespace it = front) : parseKey stop it =
      if deref front = quote then stringLiteral quote front.tail []
      else (parseBareKey (front.takeWhile fun c => !stop c)).map fun key =>
        (key, front.dropWhile fun c => !stop c) := by
  subst h
  rfl

/-- A key is read up to the character that ends it, with the blanks around it. -/
theorem parseKey_text (k : Key) {stop : UInt8 → Bool}
    (hname : ∀ c, isNameByte c = true → stop c = false)
    (hblank : ∀ c, isBlank c = true → stop c = false) {lead : Bytes}
    (hlead : ∀ c ∈ lead, isBlank c = true) (after : Blanks) {c : UInt8} (hc : stop c = true)
    (it : Bytes) :
    parseKey stop (lead ++ (k.text ++ (after.val ++ c :: it))) = .ok (k.name, c :: it) := by
  have hcblank : isBlank c = false := by
    by_contra h
    rw [hblank c (Bool.not_eq_false _ ▸ h)] at hc
    cases hc
  have hfront : consumeWhitespace (lead ++ (k.text ++ (after.val ++ c :: it))) =
      k.text ++ (after.val ++ c :: it) := by rw [consumeWhitespace_append hlead, k.consumed]
  rw [parseKey_consumed hfront]
  cases k with
  | bare name hne h =>
    have hquote : deref (name ++ (after.val ++ c :: it)) ≠ quote := by
      cases name with
      | nil => exact absurd rfl hne
      | cons a cs => exact (nameByte_facts (h a List.mem_cons_self)).2.2.1
    have hinside : ∀ a ∈ name ++ after.val, (!stop a) = true := by
      intro a ha
      cases List.mem_append.mp ha with
      | inl hn => rw [hname a (h a hn), Bool.not_false]
      | inr hb => rw [hblank a (after.property a hb), Bool.not_false]
    have hend : ∀ a ∈ (c :: it).head?, (!stop a) = false := by
      intro a ha
      rw [← Option.some.inj ha, hc, Bool.not_true]
    have htext : (Key.bare name hne h).text = name := rfl
    rw [htext, if_neg hquote, ← List.append_assoc, takeWhile_stopped hinside hend,
      dropWhile_stopped hinside hend, parseBareKey_name hne h after.property]
    rfl
  | quoted pieces =>
    have htext : (Key.quoted pieces).text ++ (after.val ++ c :: it) =
        quote :: (pieces.flatMap Piece.text ++ quote :: (after.val ++ c :: it)) := by
      simp [Key.text, quotedText]
    have hbehind : consumeWhitespace (after.val ++ c :: it) = c :: it := by
      rw [consumeWhitespace_append after.property]
      apply consumeWhitespace_self
      intro a ha
      exact Option.some.inj ha ▸ hcblank
    rw [htext, deref_cons, if_pos rfl, List.tail_cons, stringLiteral_pieces, hbehind]
    rfl

/-! ## Statements -/

/-- What a line says, however it is written. -/
inductive Statement where
  | table (name : List Bytes)
  | tableArray (name : List Bytes)
  | keyValue (key : Bytes) (value : Base)

def Body.statement : Body → Option Statement
  | empty => none
  | table m => some (.table m.parts)
  | tableArray m => some (.tableArray m.parts)
  | keyValue key _ _ value => some (.keyValue key.name value.base)

/-- The tables that the parts of a name lead to, opened one after the other. -/
def openTables (n : Nat) : List Bytes → Header → Except Error Header
  | [], h => .ok h
  | part :: parts, h =>
    if part = [] then .error (.parseException (ascii "Empty component of table name") n)
    else do
      let fullName := qualify h.fullName part
      let (builder, inserted) ← h.builder.openTable n fullName part
      openTables n parts ⟨builder, fullName, h.inserted || inserted, h.it⟩

/-- The same for the name of an array of tables, which gets a new table at its end. -/
def openTableArrays (n : Nat) : List Bytes → Header → Except Error Header
  | [], h => .ok h
  | part :: parts, h =>
    if part = [] then .error (.parseException (ascii "Empty component of table array name") n)
    else do
      let fullName := qualify h.fullName part
      let builder ← h.builder.openTableArray n fullName part parts.isEmpty
      openTableArrays n parts ⟨builder, fullName, false, h.it⟩

/-- A statement carried out; it stands on line `n`. -/
def Statement.run (n : Nat) (b : Builder) : Statement → Except Error Builder
  | .table name => do
    let h ← openTables n name ⟨{ b with path := [] }, [], false, []⟩
    if h.redefines then
      .error (.parseException (ascii "Redefinition of table " ++ h.fullName) n)
    else .ok h.builder
  | .tableArray name =>
    (openTableArrays n name ⟨{ b with path := [] }, [], false, []⟩).map Header.builder
  | .keyValue key value =>
    if b.currTable.contains key then
      .error (.parseException (ascii "Key " ++ key ++ ascii " already present") n)
    else .ok (b.set (b.currTable.insert key value))

def runLine (n : Nat) (b : Builder) : Option Statement → Except Error Builder
  | none => .ok b
  | some s => s.run n b

/-- The document that the statements make, line by line behind line `n`. -/
def build : List (Option Statement) → Nat → Builder → Except Error Table
  | [], _, b => .ok b.root
  | s :: statements, n, b => do
    let b ← runLine (n + 1) b s
    build statements (n + 1) b

/-! ## Headers -/

/-- The header with its iterator at another place. -/
def Header.at (h : Header) (it : Bytes) : Header := { h with it }

theorem endsName_of_nameByte (c : UInt8) (h : isNameByte c = true) : endsName c = false := by
  obtain ⟨-, -, -, -, hdot, -, -, hright⟩ := nameByte_facts h
  simp [endsName, hdot, hright]

theorem endsName_of_blank (c : UInt8) (h : isBlank c = true) : endsName c = false := by
  obtain rfl | rfl := eq_of_isBlank h <;> rfl

/-- What is left of a name behind the key of a part. -/
def moreText (more : List Part) (it : Bytes) : Bytes :=
  (more.flatMap fun p => dot :: p.text) ++ rbracket :: it

theorem consumeDot_more (p : Part) (more : List Part) (it : Bytes) :
    consumeDot (moreText (p :: more) it) = p.key.text ++ (p.after.val ++ moreText more it) := by
  have htext : moreText (p :: more) it =
      dot :: (p.before.val ++ (p.key.text ++ (p.after.val ++ moreText more it))) := by
    simp [moreText, Part.text]
  have hdot : consumeWhitespace (dot :: (p.before.val ++ (p.key.text ++ (p.after.val ++
      moreText more it)))) = dot :: (p.before.val ++ (p.key.text ++ (p.after.val ++
      moreText more it))) := consumeWhitespace_self fun c hc => Option.some.inj hc ▸ rfl
  simp only [consumeDot, htext, hdot, deref_cons, if_true, List.tail_cons]
  rw [consumeWhitespace_append p.before.property, p.key.consumed]

theorem moreText_cons (more : List Part) (it : Bytes) :
    ∃ c text, moreText more it = c :: text ∧ endsName c = true := by
  cases more with
  | nil => exact ⟨rbracket, it, rfl, rfl⟩
  | cons p more => exact ⟨dot, _, rfl, rfl⟩

theorem name_open {lead : Bytes} (hlead : ∀ c ∈ lead, isBlank c = true) (k : Key) (it : Bytes) :
    ∃ c text, lead ++ (k.text ++ it) = c :: text ∧ c ≠ lbracket ∧ c ≠ rbracket := by
  cases lead with
  | nil =>
    obtain ⟨c, text, htext, -, -, hleft, hright, -⟩ := k.head
    exact ⟨c, text ++ it, by rw [List.nil_append, htext]; rfl, hleft, hright⟩
  | cons c lead =>
    have hblank := hlead c List.mem_cons_self
    refine ⟨c, _, rfl, ?_, ?_⟩
    · intro heq
      rw [heq] at hblank
      cases hblank
    · intro heq
      rw [heq] at hblank
      cases hblank

/-- The loops go on where a key follows. -/
theorem not_name_end (h : Header) {lead : Bytes} (hlead : ∀ c ∈ lead, isBlank c = true) (k : Key)
    (it : Bytes) : ¬((h.at (lead ++ (k.text ++ it))).it = [] ∨
      deref (h.at (lead ++ (k.text ++ it))).it = rbracket) := by
  obtain ⟨c, text, htext, -, hright⟩ := name_open hlead k it
  rw [htext]
  simp [Header.at, hright]

/-- The loop of `parse_single_table` opens the tables of the name that is written. -/
theorem singleTableLoop_text (n : Nat) {lead : Bytes} (hlead : ∀ c ∈ lead, isBlank c = true)
    (key : Key) (after : Blanks) (more : List Part) (it : Bytes) {fuel : Nat}
    (hfuel : more.length + 1 < fuel) (h : Header) :
    singleTableLoop n fuel (h.at (lead ++ (key.text ++ (after.val ++ moreText more it)))) =
      (openTables n (key.name :: more.map fun p => p.key.name) h).map
        fun h => h.at (rbracket :: it) := by
  induction more generalizing lead key after fuel h with
  | nil =>
    obtain ⟨fuel, rfl⟩ : ∃ k, fuel = k + 2 := ⟨fuel - 2, by simp at hfuel; omega⟩
    have hkey := parseKey_text key endsName_of_nameByte endsName_of_blank hlead after
      (c := rbracket) rfl it
    rw [singleTableLoop, if_neg (not_name_end h hlead key _)]
    simp only [Header.at, moreText, List.flatMap_nil, List.nil_append, hkey, throwAt, bind,
      Except.bind, List.map_nil, openTables]
    by_cases hpart : key.name = []
    · rw [if_pos hpart, if_pos hpart]
      rfl
    · rw [if_neg hpart, if_neg hpart]
      cases h.builder.openTable n (qualify h.fullName key.name) key.name with
      | error e => rfl
      | ok r =>
        have hdot : consumeDot (rbracket :: it) = rbracket :: it := rfl
        simp only [hdot]
        rw [singleTableLoop]
        exact if_pos (Or.inr rfl)
  | cons p more ih =>
    obtain ⟨fuel, rfl⟩ : ∃ k, fuel = k + 1 := ⟨fuel - 1, by omega⟩
    obtain ⟨c, text, hmore, hc⟩ := moreText_cons (p :: more) it
    have hkey := parseKey_text key endsName_of_nameByte endsName_of_blank hlead after hc text
    rw [← hmore] at hkey
    rw [singleTableLoop, if_neg (not_name_end h hlead key _), openTables]
    simp only [Header.at, hkey, throwAt, bind, Except.bind, List.map_cons]
    by_cases hpart : key.name = []
    · rw [if_pos hpart, if_pos hpart]
      rfl
    · rw [if_neg hpart, if_neg hpart, consumeDot_more]
      cases h.builder.openTable n (qualify h.fullName key.name) key.name with
      | error e => rfl
      | ok r =>
        rw [List.length_cons] at hfuel
        exact ih (List.forall_mem_nil _) p.key p.after (by omega)
          ⟨r.1, qualify h.fullName key.name, h.inserted || r.2, h.it⟩

theorem tableArrayLoop_text (n : Nat) {lead : Bytes} (hlead : ∀ c ∈ lead, isBlank c = true)
    (key : Key) (after : Blanks) (more : List Part) (it : Bytes) {fuel : Nat}
    (hfuel : more.length + 1 < fuel) (h : Header) :
    tableArrayLoop n fuel (h.at (lead ++ (key.text ++ (after.val ++ moreText more it)))) =
      (openTableArrays n (key.name :: more.map fun p => p.key.name) h).map
        fun h => h.at (rbracket :: it) := by
  induction more generalizing lead key after fuel h with
  | nil =>
    obtain ⟨fuel, rfl⟩ : ∃ k, fuel = k + 2 := ⟨fuel - 2, by simp at hfuel; omega⟩
    have hkey := parseKey_text key endsName_of_nameByte endsName_of_blank hlead after
      (c := rbracket) rfl it
    rw [tableArrayLoop, if_neg (not_name_end h hlead key _)]
    simp only [Header.at, moreText, List.flatMap_nil, List.nil_append, hkey, throwAt, bind,
      Except.bind, List.map_nil, openTableArrays]
    by_cases hpart : key.name = []
    · rw [if_pos hpart, if_pos hpart]
      rfl
    · have hdot : consumeDot (rbracket :: it) = rbracket :: it := rfl
      rw [if_neg hpart, if_neg hpart, hdot]
      simp only [deref_cons, beq_self_eq_true, List.isEmpty_nil]
      cases h.builder.openTableArray n (qualify h.fullName key.name) key.name true with
      | error e => rfl
      | ok b =>
        simp only
        rw [tableArrayLoop]
        exact if_pos (Or.inr rfl)
  | cons p more ih =>
    obtain ⟨fuel, rfl⟩ : ∃ k, fuel = k + 1 := ⟨fuel - 1, by omega⟩
    obtain ⟨c, text, hmore, hc⟩ := moreText_cons (p :: more) it
    have hkey := parseKey_text key endsName_of_nameByte endsName_of_blank hlead after hc text
    rw [← hmore] at hkey
    rw [tableArrayLoop, if_neg (not_name_end h hlead key _), openTableArrays]
    simp only [Header.at, hkey, throwAt, bind, Except.bind, List.map_cons]
    by_cases hpart : key.name = []
    · rw [if_pos hpart, if_pos hpart]
      rfl
    · have hlast :
          (deref (p.key.text ++ (p.after.val ++ moreText more it)) == rbracket) = false := by
        obtain ⟨a, rest, htext, -, -, -, hright, -⟩ := p.key.head
        rw [htext, List.cons_append, deref_cons]
        exact beq_false_of_ne hright
      rw [if_neg hpart, if_neg hpart, consumeDot_more, hlast, List.isEmpty_cons]
      cases h.builder.openTableArray n (qualify h.fullName key.name) key.name false with
      | error e => rfl
      | ok b =>
        rw [List.length_cons] at hfuel
        exact ih (List.forall_mem_nil _) p.key p.after (by omega)
          ⟨b, qualify h.fullName key.name, false, h.it⟩

/-! ## Lines -/

theorem Name.text_eq (m : Name) (it : Bytes) : m.text ++ rbracket :: it =
    m.first.before.val ++ (m.first.key.text ++ (m.first.after.val ++ moreText m.more it)) := by
  simp [Name.text, Part.text, moreText]

theorem Name.open (m : Name) (it : Bytes) :
    ∃ c text, m.text ++ rbracket :: it = c :: text ∧ c ≠ lbracket ∧ c ≠ rbracket := by
  rw [m.text_eq]
  exact name_open m.first.before.property m.first.key _

theorem length_moreText (more : List Part) (it : Bytes) :
    more.length + 1 ≤ (moreText more it).length := by
  induction more with
  | nil => simp [moreText]
  | cons p more ih =>
    simp only [moreText, List.flatMap_cons, List.length_append, List.length_cons] at ih ⊢
    omega

theorem Name.length_more (m : Name) (it : Bytes) :
    m.more.length + 1 < (m.text ++ rbracket :: it).length + 1 := by
  have hmore := length_moreText m.more it
  rw [m.text_eq]
  simp only [List.length_append] at hmore ⊢
  omega

theorem parseTable_table (n : Nat) (m : Name) (ending : LineEnd) (b : Builder) :
    parseTable n (m.text ++ rbracket :: ending.text) { b with path := [] } =
      (Statement.table m.parts).run n b := by
  obtain ⟨c, text, hopen, hleft, hright⟩ := m.open ending.text
  have hloop := singleTableLoop_text n m.first.before.property m.first.key m.first.after m.more
    ending.text (m.length_more ending.text) ⟨{ b with path := [] }, [], false, []⟩
  rw [← m.text_eq] at hloop
  have hnil : m.text ++ rbracket :: ending.text ≠ [] := by rw [hopen]; exact List.cons_ne_nil c text
  have hne : deref (m.text ++ rbracket :: ending.text) ≠ lbracket := by rw [hopen]; exact hleft
  have hend : ¬(m.text ++ rbracket :: ending.text = [] ∨
      deref (m.text ++ rbracket :: ending.text) = rbracket) := by
    rw [hopen]
    simp [hright]
  simp only [Header.at] at hloop
  rw [parseTable, if_neg hnil, if_neg hne, parseSingleTable, if_neg hend, hloop, Statement.run,
    Name.parts]
  cases openTables n (m.first.key.name :: m.more.map fun p => p.key.name)
      ⟨{ b with path := [] }, [], false, []⟩ with
  | error e => rfl
  | ok h =>
    have hredefines : Header.redefines { h with it := rbracket :: ending.text } = h.redefines := rfl
    simp only [Except.map, bind, Except.bind, finishSingleTable, hredefines, List.tail_cons,
      reduceCtorEq, if_false, ending.consumed.1, throwAt, pure, Except.pure]

theorem parseTable_tableArray (n : Nat) (m : Name) (ending : LineEnd) (b : Builder) :
    parseTable n (lbracket :: (m.text ++ rbracket :: rbracket :: ending.text))
      { b with path := [] } = (Statement.tableArray m.parts).run n b := by
  obtain ⟨c, text, hopen, -, hright⟩ := m.open (rbracket :: ending.text)
  have hloop := tableArrayLoop_text n m.first.before.property m.first.key m.first.after m.more
    (rbracket :: ending.text) (m.length_more (rbracket :: ending.text))
    ⟨{ b with path := [] }, [], false, []⟩
  rw [← m.text_eq] at hloop
  have hend : ¬(m.text ++ rbracket :: rbracket :: ending.text = [] ∨
      deref (m.text ++ rbracket :: rbracket :: ending.text) = rbracket) := by
    rw [hopen]
    simp [hright]
  simp only [Header.at] at hloop
  rw [parseTable, if_neg (List.cons_ne_nil _ _), deref_cons, if_pos rfl, List.tail_cons,
    parseTableArray, if_neg hend, hloop, Statement.run, Name.parts]
  cases openTableArrays n (m.first.key.name :: m.more.map fun p => p.key.name)
      ⟨{ b with path := [] }, [], false, []⟩ with
  | error e => rfl
  | ok h =>
    have hlong : ¬(rbracket :: rbracket :: ending.text).length < 2 := by simp
    simp only [Except.map, bind, Except.bind, if_neg hlong, List.drop_succ_cons, List.drop_zero,
      ending.consumed.1, throwAt, pure, Except.pure]

theorem equal_of_nameByte (c : UInt8) (h : isNameByte c = true) : (c == equal) = false :=
  beq_false_of_ne (nameByte_facts h).2.2.2.2.2.1

theorem equal_of_blank (c : UInt8) (h : isBlank c = true) : (c == equal) = false := by
  obtain rfl | rfl := eq_of_isBlank h <;> rfl

/-- A line does what its statement says, and the next line is as it was. -/
theorem parseLine_text (inRange : Bytes → Bool) (l : Line) (rest : List Bytes) (n : Nat)
    (b : Builder) : ∃ it, parseLine inRange ⟨l.text, rest, n⟩ b =
      (runLine n b l.body.statement).map fun b => (b, ⟨it, rest, n⟩) := by
  obtain ⟨indent, body, ending⟩ := l
  have hwhite : consumeWhitespace (Line.text ⟨indent, body, ending⟩) =
      consumeWhitespace (body.text ++ ending.text) := consumeWhitespace_append indent.property _
  cases body with
  | empty =>
    refine ⟨Line.text ⟨indent, .empty, ending⟩, ?_⟩
    have hend : consumeWhitespace (Line.text ⟨indent, .empty, ending⟩) = [] ∨
        deref (consumeWhitespace (Line.text ⟨indent, .empty, ending⟩)) = hash := by
      rw [hwhite]
      exact ending.consumed.2
    rw [parseLine, if_pos hend]
    rfl
  | table m =>
    refine ⟨Line.text ⟨indent, .table m, ending⟩, ?_⟩
    have hheader : consumeWhitespace (Line.text ⟨indent, .table m, ending⟩) =
        lbracket :: (m.text ++ rbracket :: ending.text) := by
      rw [hwhite, consumeWhitespace_self]
      · simp [Body.text]
      · intro c hc
        exact Option.some.inj hc ▸ rfl
    rw [parseLine_header inRange hheader, parseTable_table]
    rfl
  | tableArray m =>
    refine ⟨Line.text ⟨indent, .tableArray m, ending⟩, ?_⟩
    have hheader : consumeWhitespace (Line.text ⟨indent, .tableArray m, ending⟩) =
        lbracket :: (lbracket :: (m.text ++ rbracket :: rbracket :: ending.text)) := by
      rw [hwhite, consumeWhitespace_self]
      · simp [Body.text]
      · intro c hc
        exact Option.some.inj hc ▸ rfl
    rw [parseLine_header inRange hheader, parseTable_tableArray]
    rfl
  | keyValue key before after value =>
    obtain ⟨fuel, hfuel⟩ : ∃ fuel, 2 * (Input.size
        ⟨Line.text ⟨indent, .keyValue key before after value, ending⟩, rest, n⟩) = fuel :=
      ⟨_, rfl⟩
    obtain ⟨it, hvalue, hit⟩ := parseValue_text inRange value ending.stops fuel rest n
    refine ⟨consumeWhitespace it, ?_⟩
    have hbody : consumeWhitespace (Line.text ⟨indent, .keyValue key before after value, ending⟩) =
        key.text ++ (before.val ++ equal :: (after.val ++ (value.text ++ ending.text))) := by
      rw [hwhite, Body.text, List.append_assoc, key.consumed]
      simp
    obtain ⟨c, text, htext, -, hhash, hleft, -⟩ := key.head
    have hkey := parseKey_text key equal_of_nameByte equal_of_blank (List.forall_mem_nil _) before
      (c := equal) rfl (after.val ++ (value.text ++ ending.text))
    rw [List.nil_append] at hkey
    have hstart : consumeWhitespace (after.val ++ (value.text ++ ending.text)) =
        value.text ++ ending.text := by
      obtain ⟨a, rest', hhead, hblank⟩ := value.head
      rw [consumeWhitespace_append after.property, hhead]
      exact consumeWhitespace_self fun x hx => Option.some.inj hx ▸ hblank
    have hopen : ¬(consumeWhitespace (Line.text
        ⟨indent, .keyValue key before after value, ending⟩) = [] ∨ deref (consumeWhitespace
          (Line.text ⟨indent, .keyValue key before after value, ending⟩)) = hash) := by
      rw [hbody, htext]
      simp [hhash]
    have hplain : deref (consumeWhitespace (Line.text
        ⟨indent, .keyValue key before after value, ending⟩)) ≠ lbracket := by
      rw [hbody, htext]
      exact hleft
    have hend : eolOrComment (consumeWhitespace (consumeWhitespace it)) = .ok () := by
      rw [consumeWhitespace_idem, hit]
      exact ending.consumed.1
    rw [parseLine, if_neg hopen, if_neg hplain, hfuel]
    simp only [hbody, parseKeyValue, hkey, throwAt, bind, Except.bind, deref_cons, ne_eq,
      not_true_eq_false, if_false, List.tail_cons, hstart, hvalue, Body.statement, runLine,
      Statement.run]
    by_cases hcontains : b.currTable.contains key.name = true
    · rw [if_pos hcontains, if_pos hcontains]
      rfl
    · rw [if_neg hcontains, if_neg hcontains]
      simp only [pure, Except.pure, hend, Except.map]

/-! ## Documents -/

theorem newline_not_mem_blanks {blanks : Bytes} (h : ∀ c ∈ blanks, isBlank c = true) :
    newline ∉ blanks := fun hmem => by cases h newline hmem

theorem newline_not_mem_pieces (pieces : List Piece) : newline ∉ quotedText pieces := by
  intro h
  simp only [quotedText, List.mem_cons, List.mem_append, List.mem_flatMap, List.not_mem_nil,
    or_false] at h
  obtain heq | ⟨p, -, hp⟩ | heq := h
  · cases heq
  · cases p with
    | char c hc => exact hc.2.2 (List.mem_singleton.mp hp).symm
    | escape code value hcode =>
      simp only [Piece.text, List.mem_cons, List.not_mem_nil, or_false] at hp
      obtain heq | rfl := hp
      · cases heq
      · cases hcode
  · cases heq

theorem newline_not_mem_key (k : Key) : newline ∉ k.text := by
  cases k with
  | bare name hne h => exact fun hmem => (nameByte_facts (h newline hmem)).2.1 rfl
  | quoted pieces => exact newline_not_mem_pieces pieces

theorem newline_not_mem_part (p : Part) : newline ∉ p.text := by
  simp only [Part.text, List.mem_append, not_or]
  exact ⟨newline_not_mem_blanks p.before.property, newline_not_mem_key p.key,
    newline_not_mem_blanks p.after.property⟩

theorem newline_not_mem_name (m : Name) : newline ∉ m.text := by
  intro h
  simp only [Name.text, List.mem_append, List.mem_flatMap, List.mem_cons] at h
  obtain hfirst | ⟨p, -, heq | hp⟩ := h
  · exact newline_not_mem_part m.first hfirst
  · cases heq
  · exact newline_not_mem_part p hp

theorem newline_not_mem_value (v : Value) : newline ∉ v.text := by
  cases v with
  | basic pieces => exact newline_not_mem_pieces pieces
  | literal text =>
    intro h
    simp only [Value.text, List.mem_cons, List.mem_append, List.not_mem_nil, or_false] at h
    obtain heq | hmem | heq := h
    · cases heq
    · exact text.property.2 hmem
    · cases heq
  | integer i =>
    intro h
    simp only [Value.text, Integer.text, List.mem_append] at h
    cases h with
    | inl hsign =>
      cases hs : i.sign with
      | none => rw [hs] at hsign; cases hsign
      | plus => rw [hs] at hsign; cases List.mem_singleton.mp hsign
      | minus => rw [hs] at hsign; cases List.mem_singleton.mp hsign
    | inr hdigits =>
      cases mem_digits hdigits with
      | inl hdigit => cases hdigit
      | inr heq => cases heq
  | bool data => cases data <;> decide
  | date d => exact fun hmem => by cases d.dateChars newline hmem

theorem newline_not_mem_line (l : Line) : newline ∉ l.text := by
  have hending : newline ∉ l.ending.text := by
    simp only [LineEnd.text, List.mem_append, not_or]
    refine ⟨newline_not_mem_blanks l.ending.blanks.property, ?_⟩
    cases l.ending.comment with
    | none => exact List.not_mem_nil
    | some t =>
      simp only [Option.elim_some, List.mem_cons, not_or]
      exact ⟨by decide, t.property⟩
  have hbody : newline ∉ l.body.text := by
    cases l.body with
    | empty => exact List.not_mem_nil
    | table m =>
      have hname := newline_not_mem_name m
      have hbrackets : newline ≠ lbracket ∧ newline ≠ rbracket := by decide
      simp [Body.text, hname, hbrackets]
    | tableArray m =>
      have hname := newline_not_mem_name m
      have hbrackets : newline ≠ lbracket ∧ newline ≠ rbracket := by decide
      simp [Body.text, hname, hbrackets]
    | keyValue key before after value =>
      have hkey := newline_not_mem_key key
      have hvalue := newline_not_mem_value value
      have hbefore := newline_not_mem_blanks before.property
      have hafter := newline_not_mem_blanks after.property
      have hequal : newline ≠ equal := by decide
      simp [Body.text, hkey, hvalue, hbefore, hafter, hequal]
  simp only [Line.text, List.mem_append, not_or]
  exact ⟨newline_not_mem_blanks l.indent.property, hbody, hending⟩

theorem getlines_line {line : Bytes} (h : newline ∉ line) (input : Bytes) :
    getlines (line ++ newline :: input) = line :: getlines input := by
  induction line with
  | nil => rfl
  | cons c line ih =>
    rw [List.mem_cons, not_or] at h
    rw [List.cons_append, getlines, if_neg (Ne.symm h.1), ih h.2]

theorem getlines_last {line : Bytes} (h : newline ∉ line) (hne : line ≠ []) :
    getlines line = [line] := by
  induction line with
  | nil => exact absurd rfl hne
  | cons c line ih =>
    rw [List.mem_cons, not_or] at h
    rw [getlines, if_neg (Ne.symm h.1)]
    cases line with
    | nil => rfl
    | cons d line => rw [ih h.2 (List.cons_ne_nil d line)]

theorem getlines_document (lines : List Line) (input : Bytes) :
    getlines (documentText lines ++ input) = lines.map Line.text ++ getlines input := by
  induction lines with
  | nil => rfl
  | cons l lines ih =>
    have htext : documentText (l :: lines) ++ input =
        l.text ++ newline :: (documentText lines ++ input) := by
      simp [documentText]
    rw [htext, getlines_line (newline_not_mem_line l), ih, List.map_cons, List.cons_append]

theorem parseLoop_text (inRange : Bytes → Bool) (lines : List Line) {fuel : Nat}
    (hfuel : lines.length < fuel) (n : Nat) (b : Builder) :
    parseLoop inRange fuel (lines.map Line.text) n b =
      build (lines.map fun l => l.body.statement) n b := by
  induction lines generalizing fuel n b with
  | nil =>
    obtain ⟨fuel, rfl⟩ : ∃ k, fuel = k + 1 := ⟨fuel - 1, by simp at hfuel; omega⟩
    rfl
  | cons l lines ih =>
    rw [List.length_cons] at hfuel
    obtain ⟨fuel, rfl⟩ : ∃ k, fuel = k + 1 := ⟨fuel - 1, by omega⟩
    obtain ⟨it, hline⟩ := parseLine_text inRange l (lines.map Line.text) (n + 1) b
    rw [List.map_cons, parseLoop, hline, List.map_cons, build]
    cases runLine (n + 1) b l.body.statement with
    | error e => rfl
    | ok b => exact ih (by omega) (n + 1) b

theorem parse_lines (inRange : Bytes → Bool) {input : Bytes} {lines : List Line}
    (h : getlines input = lines.map Line.text) :
    parse inRange input = build (lines.map fun l => l.body.statement) 0 ⟨[], []⟩ := by
  rw [parse, h, List.length_map]
  exact parseLoop_text inRange lines (Nat.lt_succ_self _) 0 ⟨[], []⟩

theorem Line.statement_of_nil {l : Line} (h : l.text = []) : l.body.statement = none := by
  obtain ⟨indent, body, ending⟩ := l
  cases body with
  | empty => rfl
  | table m => simp [Line.text, Body.text] at h
  | tableArray m => simp [Line.text, Body.text] at h
  | keyValue key before after value => simp [Line.text, Body.text] at h

/-- The last line may end with the text. -/
theorem getlines_written (lines : List Line) (last : Line) :
    getlines (documentText lines ++ last.text) =
      (if last.text = [] then lines else lines ++ [last]).map Line.text := by
  rw [getlines_document]
  by_cases hlast : last.text = []
  · rw [if_pos hlast, hlast]
    exact List.append_nil _
  · rw [if_neg hlast, getlines_last (newline_not_mem_line last) hlast, List.map_append,
      List.map_singleton]

/-- The statements take the tree from `b` to `c`, on whatever lines they stand. -/
inductive Leads : Builder → List Statement → Builder → Prop
  | nil {b : Builder} : Leads b [] b
  | cons {b c d : Builder} {s : Statement} {statements : List Statement}
      (head : ∀ n, s.run n b = .ok c) (tail : Leads c statements d) : Leads b (s :: statements) d

theorem Leads.append {b c d : Builder} {ss ts : List Statement} (h : Leads b ss c)
    (h' : Leads c ts d) : Leads b (ss ++ ts) d := by
  induction h with
  | nil => exact h'
  | cons head tail ih => exact .cons head (ih h')

theorem build_of_leads {statements : List (Option Statement)} {b c : Builder}
    (h : Leads b statements.reduceOption c) (n : Nat) : build statements n b = .ok c.root := by
  induction statements generalizing b n with
  | nil =>
    cases h
    rfl
  | cons s statements ih =>
    cases s with
    | none => exact ih h (n + 1)
    | some s =>
      rw [List.reduceOption_cons_of_some] at h
      cases h with
      | cons head tail =>
        rw [build, runLine, head]
        exact ih tail (n + 1)

def keyValues (t : Table) : List Statement := t.map fun p => .keyValue p.1 p.2

/-- The keys of a table, written where the tree has its hole. -/
theorem leads_keyValues (tree : Table → Table) (path : List Bytes)
    (hfocus : ∀ u, (tree u).focus path = some u)
    (hset : ∀ u w, (tree u).setFocus path w = tree w) {t u : Table}
    (hkeys : ((u ++ t).map Prod.fst).Nodup) :
    Leads ⟨tree u, path⟩ (keyValues t) ⟨tree (u ++ t), path⟩ := by
  induction t generalizing u with
  | nil =>
    rw [List.append_nil]
    exact .nil
  | cons p t ih =>
    have hcurr : Builder.currTable ⟨tree u, path⟩ = u := by
      rw [Builder.currTable, hfocus, Option.getD_some]
    have hnew : u.contains p.1 = false := by
      rw [Bool.eq_false_iff, ne_eq, Table.contains_iff]
      intro hmem
      rw [List.map_append, List.map_cons] at hkeys
      exact (List.nodup_append.mp hkeys).2.2 p.1 hmem p.1 List.mem_cons_self rfl
    have hassoc : u ++ p :: t = (u ++ [p]) ++ t := by simp
    rw [hassoc] at hkeys ⊢
    refine .cons (fun n => ?_) (ih hkeys)
    rw [Statement.run, hcurr, hnew, if_neg Bool.false_ne_true, Builder.set, hset,
      Table.insert_of_not_contains hnew]

end Svnsrv.Cpptoml
