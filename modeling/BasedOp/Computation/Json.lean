import BasedOp.Computation.TextCodecs

/-!
# JSON texts

The part of JSON that has natural numbers and strings without escapes, in the compact form
that has no space between its tokens. What is printed is parsed back (`parseJson_print`).
-/

set_option autoImplicit false

namespace BasedOp.Computation

/-- A JSON value. The members of an object are in the order of their text. -/
inductive Json where
  | null
  | bool (b : Bool)
  | num (n : ℕ)
  | str (text : List Char)
  | arr (items : List Json)
  | obj (members : List (String × Json))

variable {members : List (String × Json)}

namespace Json

/-! ## Printing -/

def quote (text : List Char) : List Char := '"' :: (text ++ ['"'])

mutual

def print : Json → List Char
  | null => ['n', 'u', 'l', 'l']
  | bool true => ['t', 'r', 'u', 'e']
  | bool false => ['f', 'a', 'l', 's', 'e']
  | num n => numeral 10 n
  | str text => quote text
  | arr [] => ['[', ']']
  | arr (item :: items) => '[' :: (print item ++ printItems items)
  | obj [] => ['\x7b', '\x7d']
  | obj ((name, value) :: members) =>
    '\x7b' :: (quote name.toList ++ ':' :: (print value ++ printMembers members))

/-- What follows an item of an array. -/
def printItems : List Json → List Char
  | [] => [']']
  | item :: items => ',' :: (print item ++ printItems items)

/-- What follows a member of an object. -/
def printMembers : List (String × Json) → List Char
  | [] => ['\x7d']
  | (name, value) :: members =>
    ',' :: (quote name.toList ++ ':' :: (print value ++ printMembers members))

end

/-! ## Parsing -/

def expect (text input : List Char) : Option (List Char) :=
  if text.isPrefixOf input then some (input.drop text.length) else none

/-- What stands before the closing quote. Escapes and control characters are not read. -/
def readString : List Char → Option (List Char × List Char)
  | [] => none
  | c :: input =>
    if c = '"' then some ([], input)
    else if c = '\\' ∨ c < ' ' then none
    else do
      let (text, rest) ← readString input
      some (c :: text, rest)

/-- A number without leading zeros. -/
def readNumber (input : List Char) : Option (ℕ × List Char) :=
  match input.span Char.isDigit with
  | ([], _) => none
  | (c :: digits, rest) =>
    if c = '0' ∧ digits ≠ [] then none
    else (readDigits 10 (c :: digits)).map fun n => (n, rest)

def readName (input : List Char) : Option (String × List Char) := do
  let input ← expect ['"'] input
  let (name, rest) ← readString input
  let rest ← expect [':'] rest
  some (String.ofList name, rest)

mutual

/-- Read a value; the fuel is used up by nesting and by the number of items. -/
def parseValue : ℕ → List Char → Option (Json × List Char)
  | 0, _ => none
  | fuel + 1, input =>
    match input with
    | 'n' :: input => (expect ['u', 'l', 'l'] input).map fun rest => (null, rest)
    | 't' :: input => (expect ['r', 'u', 'e'] input).map fun rest => (bool true, rest)
    | 'f' :: input => (expect ['a', 'l', 's', 'e'] input).map fun rest => (bool false, rest)
    | '"' :: input => (readString input).map fun (text, rest) => (str text, rest)
    | '[' :: ']' :: rest => some (arr [], rest)
    | '[' :: input => do
      let (item, rest) ← parseValue fuel input
      let (items, rest) ← parseItems fuel rest
      some (arr (item :: items), rest)
    | '\x7b' :: '\x7d' :: rest => some (obj [], rest)
    | '\x7b' :: input => do
      let (name, rest) ← readName input
      let (value, rest) ← parseValue fuel rest
      let (members, rest) ← parseMembers fuel rest
      some (obj ((name, value) :: members), rest)
    | input => (readNumber input).map fun (n, rest) => (num n, rest)

def parseItems : ℕ → List Char → Option (List Json × List Char)
  | 0, _ => none
  | fuel + 1, input =>
    match input with
    | ']' :: rest => some ([], rest)
    | ',' :: input => do
      let (item, rest) ← parseValue fuel input
      let (items, rest) ← parseItems fuel rest
      some (item :: items, rest)
    | _ => none

def parseMembers : ℕ → List Char → Option (List (String × Json) × List Char)
  | 0, _ => none
  | fuel + 1, input =>
    match input with
    | '\x7d' :: rest => some ([], rest)
    | ',' :: input => do
      let (name, rest) ← readName input
      let (value, rest) ← parseValue fuel rest
      let (members, rest) ← parseMembers fuel rest
      some ((name, value) :: members, rest)
    | _ => none

end

/-- Read a text that is one value. -/
def parseJson (text : List Char) : Option Json :=
  match parseValue text.length text with
  | some (value, []) => some value
  | _ => none

/-! ## What is printed is parsed back -/

/-- Characters that stand for themselves in a string. -/
def PlainText (text : List Char) : Prop := ∀ c ∈ text, c ≠ '"' ∧ c ≠ '\\' ∧ ' ' ≤ c

mutual

/-- No string has a character that would be escaped. -/
def Plain : Json → Prop
  | str text => PlainText text
  | arr items => PlainItems items
  | obj members => PlainMembers members
  | _ => True

def PlainItems : List Json → Prop
  | [] => True
  | item :: items => Plain item ∧ PlainItems items

def PlainMembers : List (String × Json) → Prop
  | [] => True
  | (name, value) :: members => PlainText name.toList ∧ Plain value ∧ PlainMembers members

end

/-- A plain string is read to its end. -/
theorem readString_append {text : List Char} (h : PlainText text) (rest : List Char) :
    readString (text ++ '"' :: rest) = some (text, rest) := by
  induction text with
  | nil => simp [readString]
  | cons c text ih =>
    obtain ⟨hquote, hescape, hspace⟩ := h c List.mem_cons_self
    have hspace : ¬ c < ' ' := Char.not_lt.mpr hspace
    have hrest := ih fun d hd => h d (List.mem_cons_of_mem c hd)
    simp [readString, hquote, hescape, hspace, hrest]

/-- A name is read with its colon. -/
theorem readName_append {name : String} (h : PlainText name.toList) (rest : List Char) :
    readName (quote name.toList ++ ':' :: rest) = some (name, rest) := by
  have hread := readString_append h (':' :: rest)
  have hquote : expect ['"'] (quote name.toList ++ ':' :: rest) =
      some (name.toList ++ '"' :: ':' :: rest) := by
    simp [expect, quote]
  have hcolon : expect [':'] (':' :: rest) = some rest := by simp [expect]
  simp [readName, hquote, hread, hcolon]

/-- Decimal digits are digits. -/
theorem isDigit_digitChar {d : ℕ} (h : d < 10) : (digitChar d).isDigit = true := by
  decide +revert

/-- A numeral is read to its end. -/
theorem readNumber_append (n : ℕ) {rest : List Char}
    (hrest : ∀ c ∈ rest.head?, c.isDigit = false) :
    readNumber (numeral 10 n ++ rest) = some (n, rest) := by
  have hdigits : ∀ c ∈ numeral 10 n, c.isDigit = true := by
    intro c hc
    obtain ⟨d, hd, rfl⟩ := mem_numeral (by omega) hc
    exact isDigit_digitChar hd
  have hspan : (numeral 10 n ++ rest).span Char.isDigit = (numeral 10 n, rest) := by
    rw [List.span_eq_takeWhile_dropWhile, List.takeWhile_append_of_pos hdigits,
      List.dropWhile_append_of_pos hdigits]
    cases rest with
    | nil => simp
    | cons c => simp [hrest c rfl]
  have hread : readDigits 10 (numeral 10 n) = some n :=
    readDigits_numeral (by omega) (by omega) n
  unfold readNumber
  rw [hspan]
  cases hnumeral : numeral 10 n with
  | nil => exact absurd hnumeral (numeral_ne_nil 10 n)
  | cons c digits =>
    have hhead : ¬ (c = '0' ∧ digits ≠ []) := by
      rintro ⟨hzero, hdigits⟩
      exact head_numeral (by omega) (by omega) hnumeral hdigits hzero
    rw [hnumeral] at hread
    simp only [if_neg hhead, hread, Option.map_some]

/-- A text that starts with a digit is a number. -/
theorem parseValue_digit {d fuel : ℕ} (hd : d < 10) (input : List Char) :
    parseValue (fuel + 1) (digitChar d :: input) =
      (readNumber (digitChar d :: input)).map fun (n, rest) => (num n, rest) := by
  interval_cases d <;> rfl

/-- A numeral is parsed as a number. -/
theorem parseValue_numeral {n fuel : ℕ} {rest : List Char}
    (hrest : ∀ c ∈ rest.head?, c.isDigit = false) :
    parseValue (fuel + 1) (numeral 10 n ++ rest) = some (num n, rest) := by
  have hread := readNumber_append n hrest
  cases hnumeral : numeral 10 n with
  | nil => exact absurd hnumeral (numeral_ne_nil 10 n)
  | cons c =>
    have hmem : c ∈ numeral 10 n := by simp [hnumeral]
    obtain ⟨d, hd, rfl⟩ := mem_numeral (by omega) hmem
    rw [hnumeral] at hread
    rw [List.cons_append, parseValue_digit hd, ← List.cons_append, hread, Option.map_some]

/-- After an item comes no digit. -/
theorem head_printItems (items : List Json) (rest : List Char) :
    ∀ c ∈ (printItems items ++ rest).head?, c.isDigit = false := by
  cases items with
  | nil => simp [printItems]
  | cons => simp [printItems]

/-- Nor after a member. -/
theorem head_printMembers (members : List (String × Json)) (rest : List Char) :
    ∀ c ∈ (printMembers members ++ rest).head?, c.isDigit = false := by
  cases members with
  | nil => simp [printMembers]
  | cons => simp [printMembers]

/-- The first character of a value does not close an array. -/
theorem print_ne_close (value : Json) (rest input : List Char) :
    value.print ++ rest ≠ ']' :: input := by
  cases value with
  | null => simp [print]
  | bool b => cases b <;> simp [print]
  | num n =>
    intro h
    cases hnumeral : numeral 10 n with
    | nil => exact numeral_ne_nil 10 n hnumeral
    | cons c =>
      have hmem : c ∈ numeral 10 n := by simp [hnumeral]
      obtain ⟨d, hd, rfl⟩ := mem_numeral (by omega) hmem
      rw [print, hnumeral, List.cons_append] at h
      have hdigit := isDigit_digitChar hd
      rw [(List.cons.inj h).1] at hdigit
      cases hdigit
  | str => simp [print, quote]
  | arr items => cases items <;> simp [print]
  | obj members => cases members <;> simp [print]

/-- Every value is printed as something. -/
theorem print_ne_nil (value : Json) : value.print ≠ [] := by
  cases value with
  | num n => exact numeral_ne_nil 10 n
  | bool b => cases b <;> simp [print]
  | arr items => cases items <;> simp [print]
  | obj members => cases members <;> simp [print]
  | _ => simp [print, quote]

section

variable {fuel : ℕ} {input rest₁ rest₂ rest₃ : List Char} {name : String} {value : Json}
  {items : List Json} {members : List (String × Json)}

/-- An array that is not empty. -/
theorem parseValue_array (hopen : ∀ rest, input ≠ ']' :: rest)
    (hvalue : parseValue fuel input = some (value, rest₁))
    (hitems : parseItems fuel rest₁ = some (items, rest₂)) :
    parseValue (fuel + 1) ('[' :: input) = some (arr (value :: items), rest₂) := by
  rw [parseValue]
  · simp only [hvalue, hitems, Option.bind_eq_bind, Option.bind_some]
  · exact hopen

/-- One more item. -/
theorem parseItems_comma (hvalue : parseValue fuel input = some (value, rest₁))
    (hitems : parseItems fuel rest₁ = some (items, rest₂)) :
    parseItems (fuel + 1) (',' :: input) = some (value :: items, rest₂) := by
  rw [parseItems]
  simp only [hvalue, hitems, Option.bind_eq_bind, Option.bind_some]

/-- An object that is not empty. -/
theorem parseValue_object (hname : readName input = some (name, rest₁))
    (hvalue : parseValue fuel rest₁ = some (value, rest₂))
    (hmembers : parseMembers fuel rest₂ = some (members, rest₃)) :
    parseValue (fuel + 1) ('\x7b' :: input) = some (obj ((name, value) :: members), rest₃) := by
  rw [parseValue]
  · simp only [hname, hvalue, hmembers, Option.bind_eq_bind, Option.bind_some]
  · -- a name starts with a quote, so the object is not closed
    rintro rest rfl
    cases hname

/-- One more member. -/
theorem parseMembers_comma (hname : readName input = some (name, rest₁))
    (hvalue : parseValue fuel rest₁ = some (value, rest₂))
    (hmembers : parseMembers fuel rest₂ = some (members, rest₃)) :
    parseMembers (fuel + 1) (',' :: input) = some ((name, value) :: members, rest₃) := by
  rw [parseMembers]
  simp only [hname, hvalue, hmembers, Option.bind_eq_bind, Option.bind_some]

end

/-- Values, what follows an item and what follows a member are parsed back. The three
are proved together by induction on the fuel, which has to cover the length of the text. -/
theorem parse_print_of_le (fuel : ℕ) :
    (∀ value rest, Plain value → (∀ c ∈ rest.head?, c.isDigit = false) →
      value.print.length ≤ fuel → parseValue fuel (value.print ++ rest) = some (value, rest)) ∧
    (∀ items rest, PlainItems items → (printItems items).length ≤ fuel →
      parseItems fuel (printItems items ++ rest) = some (items, rest)) ∧
    ∀ members rest, PlainMembers members → (printMembers members).length ≤ fuel →
      parseMembers fuel (printMembers members ++ rest) = some (members, rest) := by
  induction fuel with
  | zero =>
    refine ⟨?_, ?_, ?_⟩
    · intro value rest _ _ hlength
      exact absurd (List.length_eq_zero_iff.mp (Nat.le_zero.mp hlength)) (print_ne_nil value)
    · intro items rest _ hlength
      cases items <;> simp [printItems] at hlength
    · intro members rest _ hlength
      cases members <;> simp [printMembers] at hlength
  | succ fuel ih =>
    obtain ⟨ihvalue, ihitems, ihmembers⟩ := ih
    refine ⟨?_, ?_, ?_⟩
    · intro value rest hplain hrest hlength
      cases value with
      | null => simp [print, parseValue, expect]
      | bool b => cases b <;> simp [print, parseValue, expect]
      | num => exact parseValue_numeral hrest
      | str =>
        simp [print, quote, parseValue, readString_append hplain]
      | arr items =>
        cases items with
        | nil => rfl
        | cons item items =>
          rw [Plain, PlainItems] at hplain
          simp only [print, List.length_cons, List.length_append] at hlength
          rw [print, List.cons_append, List.append_assoc]
          exact parseValue_array (print_ne_close item _)
            (ihvalue item _ hplain.1 (head_printItems items rest) (by omega))
            (ihitems items rest hplain.2 (by omega))
      | obj members =>
        cases members with
        | nil => rfl
        | cons member members =>
          obtain ⟨name, value⟩ := member
          rw [Plain, PlainMembers] at hplain
          simp only [print, List.length_cons, List.length_append] at hlength
          rw [print, List.cons_append, List.append_assoc, List.cons_append, List.append_assoc]
          exact parseValue_object (readName_append hplain.1 _)
            (ihvalue value _ hplain.2.1 (head_printMembers members rest) (by omega))
            (ihmembers members rest hplain.2.2 (by omega))
    · intro items rest hplain hlength
      cases items with
      | nil => rfl
      | cons item items =>
        rw [PlainItems] at hplain
        simp only [printItems, List.length_cons, List.length_append] at hlength
        rw [printItems, List.cons_append, List.append_assoc]
        exact parseItems_comma
          (ihvalue item _ hplain.1 (head_printItems items rest) (by omega))
          (ihitems items rest hplain.2 (by omega))
    · intro members rest hplain hlength
      cases members with
      | nil => rfl
      | cons member members =>
        obtain ⟨name, value⟩ := member
        rw [PlainMembers] at hplain
        simp only [printMembers, List.length_cons, List.length_append] at hlength
        rw [printMembers, List.cons_append, List.append_assoc, List.cons_append, List.append_assoc]
        exact parseMembers_comma (readName_append hplain.1 _)
          (ihvalue value _ hplain.2.1 (head_printMembers members rest) (by omega))
          (ihmembers members rest hplain.2.2 (by omega))

/-- A value without escapes is parsed back from its text. -/
theorem parseJson_print {value : Json} (h : Plain value) : parseJson value.print = some value := by
  have hparse := (parse_print_of_le value.print.length).1 value [] h (by simp) le_rfl
  rw [List.append_nil] at hparse
  simp [parseJson, hparse]

/-! ## Members in another order -/

/-- All names and values are plain. -/
theorem plainMembers_iff :
    PlainMembers members ↔ ∀ member ∈ members, PlainText member.1.toList ∧ Plain member.2 := by
  induction members with
  | nil => simp [PlainMembers]
  | cons member members ih => simp [PlainMembers, ih, and_assoc]

/-- If the names are distinct, a member is found in whatever order they are. -/
theorem lookup_perm {members' : List (String × Json)} (hperm : members.Perm members')
    (hnodup : (members.map Prod.fst).Nodup) (name : String) :
    members.lookup name = members'.lookup name := by
  induction hperm with
  | nil => rfl
  | cons member _ ih =>
    rw [List.lookup_cons, List.lookup_cons, ih (List.nodup_cons.mp hnodup).2]
  | swap a b =>
    obtain ⟨m, v⟩ := a
    obtain ⟨n, w⟩ := b
    have hne : n ≠ m := fun h => (List.nodup_cons.mp hnodup).1 (by simp [h])
    simp only [List.lookup_cons]
    cases hn : name == n with
    | false => rfl
    | true =>
      have hm : (name == m) = false := by
        rw [beq_eq_false_iff_ne, beq_iff_eq.mp hn]
        exact hne
      rw [hm]
  | trans hfirst _ ih₁ ih₂ =>
    rw [ih₁ hnodup, ih₂ ((hfirst.map Prod.fst).nodup_iff.mp hnodup)]

end Json

end BasedOp.Computation
