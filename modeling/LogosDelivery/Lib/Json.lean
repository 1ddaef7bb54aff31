import Mathlib

/-! # JSON texts

JSON values of objects, arrays, strings and natural numbers, their text without any space between
its parts (`toUgly`), and a parser of such texts.  What is written is read back (`parseJson_toUgly`),
no text of an object is the beginning of another one (`parseJson_prefix`), and a text has spaces
only in its strings and no line break (`toUgly_noSpace`). -/

namespace LogosDelivery.Lib

/-- The fields of an object are in the order in which they were added. -/
inductive Json where
  | int (n : ℕ)
  | str (s : List Char)
  | arr (items : List Json)
  | obj (fields : List (List Char × Json))

namespace Json

/-! ### Fields -/

/-- The field of an object. -/
def field? (key : List Char) : Json → Option Json
  | .obj fields => fields.lookup key
  | _ => none

def hasKey (value : Json) (key : List Char) : Bool := (value.field? key).isSome

def getStr : Json → List Char
  | .str s => s
  | _ => []

def getElems : Json → List Json
  | .arr items => items
  | _ => []

def getFields : Json → List (List Char × Json)
  | .obj fields => fields
  | _ => []

/-- A field is changed where it is, or added at the end. -/
def setIn (key : List Char) (value : Json) :
    List (List Char × Json) → List (List Char × Json)
  | [] => [(key, value)]
  | field :: fields =>
      if field.1 = key then (key, value) :: fields else field :: setIn key value fields

def setField (node : Json) (key : List Char) (value : Json) : Json :=
  match node with
  | .obj fields => .obj (setIn key value fields)
  | node => node

theorem lookup_eq_none_iff {key : List Char} {fields : List (List Char × Json)} :
    fields.lookup key = none ↔ key ∉ fields.map Prod.fst := by
  rw [List.lookup_eq_none_iff, List.mem_map, not_exists]
  constructor
  · rintro h field ⟨hmem, rfl⟩
    simpa using h field hmem
  · intro h field hmem
    have hne : key ≠ field.1 := fun heq => h field ⟨hmem, heq.symm⟩
    simpa using hne

theorem setIn_of_lookup_none {key : List Char} {fields : List (List Char × Json)}
    (h : fields.lookup key = none) (value : Json) : setIn key value fields = fields ++ [(key, value)] := by
  induction fields with
  | nil => rfl
  | cons field fields ih =>
      rw [List.lookup_eq_none_iff] at h
      have hne : field.1 ≠ key := by
        intro heq
        simpa [heq] using h field (List.mem_cons_self ..)
      rw [setIn, if_neg hne, List.cons_append, ih]
      exact List.lookup_eq_none_iff.2 fun field' hmem => h field' (List.mem_cons_of_mem _ hmem)

/-! ### Writing -/

def hexDigit (n : ℕ) : Char := (Nat.digitChar n).toUpper

def escape (c : Char) : List Char :=
  if c = '\n' then ['\\', 'n']
  else if c = '\x08' then ['\\', 'b']
  else if c = '\x0c' then ['\\', 'f']
  else if c = '\t' then ['\\', 't']
  else if c = '\x0b' then ['\\', 'u', '0', '0', '0', 'b']
  else if c = '\r' then ['\\', 'r']
  else if c = '"' then ['\\', '"']
  else if c = '\\' then ['\\', '\\']
  else if c.toNat < 32 then
    ['\\', 'u', '0', '0', hexDigit (c.toNat / 16), hexDigit (c.toNat % 16)]
  else [c]

def quote (s : List Char) : List Char := '"' :: (s.flatMap escape ++ ['"'])

mutual

def toUgly : Json → List Char
  | .int n => Nat.toDigits 10 n
  | .str s => quote s
  | .arr [] => ['[', ']']
  | .arr (item :: items) => '[' :: (item.toUgly ++ itemsText items)
  | .obj [] => ['{', '}']
  | .obj ((key, value) :: fields) => '{' :: (quote key ++ ':' :: (value.toUgly ++ fieldsText fields))

/-- What follows the first item of an array. -/
def itemsText : List Json → List Char
  | [] => [']']
  | item :: items => ',' :: (item.toUgly ++ itemsText items)

/-- What follows the first field of an object. -/
def fieldsText : List (List Char × Json) → List Char
  | [] => ['}']
  | (key, value) :: fields => ',' :: (quote key ++ ':' :: (value.toUgly ++ fieldsText fields))

end

/-! ### Parsing -/

def hexValue (c : Char) : Option ℕ :=
  if '0' ≤ c ∧ c ≤ '9' then some (c.toNat - '0'.toNat)
  else if 'a' ≤ c ∧ c ≤ 'f' then some (c.toNat - 'a'.toNat + 10)
  else if 'A' ≤ c ∧ c ≤ 'F' then some (c.toNat - 'A'.toNat + 10)
  else none

/-- The character of four hexadecimal digits; surrogates are not put together. -/
def hexChar (a b c d : Char) : Option Char := do
  let a ← hexValue a
  let b ← hexValue b
  let c ← hexValue c
  let d ← hexValue d
  return Char.ofNat (4096 * a + 256 * b + 16 * c + d)

def unescape : Char → Char
  | 'b' => '\x08'
  | 'f' => '\x0c'
  | 'n' => '\n'
  | 'r' => '\r'
  | 't' => '\t'
  | 'v' => '\x0b'
  | c => c

/-- The rest of a string, from behind its opening quote. -/
def parseText : List Char → Option (List Char × List Char)
  | [] => none
  | c :: rest =>
      if c = '"' then some ([], rest)
      else if c = '\\' then
        match rest with
        | [] => none
        | 'u' :: a :: b :: c :: d :: rest =>
            (hexChar a b c d).bind fun c => (parseText rest).map fun s => (c :: s.1, s.2)
        | c :: rest =>
            if c = 'u' then none else (parseText rest).map fun s => (unescape c :: s.1, s.2)
      else (parseText rest).map fun s => (c :: s.1, s.2)

def parseInt (s : List Char) : Option (Json × List Char) :=
  if s.takeWhile Char.isDigit = [] then none
  else some (.int (Nat.ofDigitChars 10 (s.takeWhile Char.isDigit) 0), s.dropWhile Char.isDigit)

mutual

def parseValue : ℕ → List Char → Option (Json × List Char)
  | 0, _ => none
  | fuel + 1, s =>
      match s with
      | '"' :: rest => (parseText rest).map fun s => (.str s.1, s.2)
      | '[' :: ']' :: rest => some (.arr [], rest)
      | '[' :: rest =>
          (parseValue fuel rest).bind fun item =>
            (parseItems fuel item.2).map fun items => (.arr (item.1 :: items.1), items.2)
      | '{' :: '}' :: rest => some (.obj [], rest)
      | '{' :: rest =>
          (parseField fuel rest).bind fun field =>
            (parseFields fuel field.2).map fun fields => (.obj (field.1 :: fields.1), fields.2)
      | s => parseInt s

def parseItems : ℕ → List Char → Option (List Json × List Char)
  | 0, _ => none
  | fuel + 1, s =>
      match s with
      | ']' :: rest => some ([], rest)
      | ',' :: rest =>
          (parseValue fuel rest).bind fun item =>
            (parseItems fuel item.2).map fun items => (item.1 :: items.1, items.2)
      | _ => none

def parseField : ℕ → List Char → Option ((List Char × Json) × List Char)
  | 0, _ => none
  | fuel + 1, s =>
      match s with
      | '"' :: rest =>
          (parseText rest).bind fun key =>
            match key.2 with
            | ':' :: rest => (parseValue fuel rest).map fun value => ((key.1, value.1), value.2)
            | _ => none
      | _ => none

def parseFields : ℕ → List Char → Option (List (List Char × Json) × List Char)
  | 0, _ => none
  | fuel + 1, s =>
      match s with
      | '}' :: rest => some ([], rest)
      | ',' :: rest =>
          (parseField fuel rest).bind fun field =>
            (parseFields fuel field.2).map fun fields => (field.1 :: fields.1, fields.2)
      | _ => none

end

/-- The value of a text, if the text is that of a value. -/
def parseJson (s : List Char) : Option Json :=
  match parseValue (s.length + 1) s with
  | some (value, []) => some value
  | _ => none

/-! ### What is written is read back -/

theorem hexValue_hexDigit : ∀ n < 16, hexValue (hexDigit n) = some n := by decide

theorem parseText_end (rest : List Char) : parseText ('"' :: rest) = some ([], rest) := by
  rw [parseText.eq_def]
  simp

theorem parseText_plain {c : Char} (hquote : c ≠ '"') (hbackslash : c ≠ '\\') (rest : List Char) :
    parseText (c :: rest) = (parseText rest).map fun s => (c :: s.1, s.2) := by
  rw [parseText.eq_def]
  simp [hquote, hbackslash]

/-- The characters with an escape of their own. -/
def escaped : List Char := ['\n', '\x08', '\x0c', '\t', '\x0b', '\r', '"', '\\']

theorem mem_escaped {c : Char} : c ∈ escaped ↔ c = '\n' ∨ c = '\x08' ∨ c = '\x0c' ∨ c = '\t' ∨
    c = '\x0b' ∨ c = '\r' ∨ c = '"' ∨ c = '\\' := by
  simp [escaped]

theorem escape_of_notMem {c : Char} (h : c ∉ escaped) :
    escape c =
      if c.toNat < 32 then
        ['\\', 'u', '0', '0', hexDigit (c.toNat / 16), hexDigit (c.toNat % 16)]
      else [c] := by
  simp only [mem_escaped, not_or] at h
  obtain ⟨h1, h2, h3, h4, h5, h6, h7, h8⟩ := h
  rw [escape, if_neg h1, if_neg h2, if_neg h3, if_neg h4, if_neg h5, if_neg h6, if_neg h7, if_neg h8]

theorem parseText_escape (c : Char) (rest : List Char) :
    parseText (escape c ++ rest) = (parseText rest).map fun s => (c :: s.1, s.2) := by
  by_cases hescaped : c ∈ escaped
  · rcases mem_escaped.mp hescaped with rfl | rfl | rfl | rfl | rfl | rfl | rfl | rfl <;> rfl
  · have hquote : c ≠ '"' := by
      rintro rfl
      exact hescaped (by decide)
    have hbackslash : c ≠ '\\' := by
      rintro rfl
      exact hescaped (by decide)
    rw [escape_of_notMem hescaped]
    split_ifs with hcontrol
    · have hchar :
          hexChar '0' '0' (hexDigit (c.toNat / 16)) (hexDigit (c.toNat % 16)) = some c := by
        have hzero : hexValue '0' = some 0 := rfl
        have hvalue : 4096 * 0 + 256 * 0 + 16 * (c.toNat / 16) + c.toNat % 16 = c.toNat := by omega
        rw [hexChar, hzero, hexValue_hexDigit _ (by omega), hexValue_hexDigit _ (by omega)]
        simp only [Option.pure_def, Option.bind_eq_bind, Option.bind_some]
        rw [hvalue, Char.ofNat_toNat]
      simp [parseText, hchar]
    · exact parseText_plain hquote hbackslash rest

theorem parseText_text (s rest : List Char) :
    parseText (s.flatMap escape ++ '"' :: rest) = some (s, rest) := by
  induction s with
  | nil => exact parseText_end rest
  | cons c s ih => rw [List.flatMap_cons, List.append_assoc, parseText_escape, ih, Option.map_some]

/-- The text does not go on with a digit. -/
def NoDigit (rest : List Char) : Prop := ∀ c ∈ rest.head?, c.isDigit = false

theorem takeWhile_digits {digits rest : List Char} (hdigits : ∀ c ∈ digits, c.isDigit = true)
    (hrest : NoDigit rest) :
    (digits ++ rest).takeWhile Char.isDigit = digits ∧
      (digits ++ rest).dropWhile Char.isDigit = rest := by
  have hnone : rest.takeWhile Char.isDigit = [] ∧ rest.dropWhile Char.isDigit = rest := by
    cases rest with
    | nil => exact ⟨rfl, rfl⟩
    | cons c rest => simp [hrest c rfl]
  rw [List.takeWhile_append_of_pos hdigits, List.dropWhile_append_of_pos hdigits, hnone.1, hnone.2]
  exact ⟨List.append_nil digits, rfl⟩

theorem parseInt_digits {digits rest : List Char} (hdigits : ∀ c ∈ digits, c.isDigit = true)
    (hne : digits ≠ []) (hrest : NoDigit rest) :
    parseInt (digits ++ rest) = some (.int (Nat.ofDigitChars 10 digits 0), rest) := by
  obtain ⟨htake, hdrop⟩ := takeWhile_digits hdigits hrest
  rw [parseInt, htake, hdrop, if_neg hne]

theorem isDigit_of_mem_toDigits {n : ℕ} {c : Char} (h : c ∈ Nat.toDigits 10 n) : c.isDigit = true :=
  Nat.isDigit_of_mem_toDigits (by decide) (by decide) h

theorem parseValue_digit {c : Char} (hc : c.isDigit = true) (fuel : ℕ) (s : List Char) :
    parseValue (fuel + 1) (c :: s) = parseInt (c :: s) := by
  have hne : c ≠ '"' ∧ c ≠ '[' ∧ c ≠ '{' := by
    refine ⟨?_, ?_, ?_⟩
    · rintro rfl
      cases hc
    · rintro rfl
      cases hc
    · rintro rfl
      cases hc
  simp [parseValue, hne]

/-- The text of a value closes no array. -/
theorem toUgly_open (value : Json) : ∃ c s, value.toUgly = c :: s ∧ c ≠ ']' := by
  cases value with
  | int n =>
      cases hdigits : Nat.toDigits 10 n with
      | nil => exact absurd hdigits Nat.toDigits_ne_nil
      | cons c s =>
          refine ⟨c, s, by rw [toUgly, hdigits], ?_⟩
          rintro rfl
          have hdigit : Char.isDigit ']' = true :=
            isDigit_of_mem_toDigits (hdigits ▸ List.mem_cons_self ..)
          cases hdigit
  | str s => exact ⟨'"', _, rfl, by decide⟩
  | arr items => cases items <;> exact ⟨'[', _, rfl, by decide⟩
  | obj fields => cases fields <;> exact ⟨'{', _, rfl, by decide⟩

theorem noDigit_itemsText (items : List Json) (rest : List Char) :
    NoDigit (itemsText items ++ rest) := by
  cases items <;> simp [NoDigit, itemsText]

theorem noDigit_fieldsText (fields : List (List Char × Json)) (rest : List Char) :
    NoDigit (fieldsText fields ++ rest) := by
  cases fields <;> simp [NoDigit, fieldsText]

theorem parseValue_str (fuel : ℕ) (s rest : List Char) :
    parseValue (fuel + 1) (quote s ++ rest) = some (.str s, rest) := by
  rw [quote, List.cons_append, List.append_assoc]
  change (parseText (s.flatMap escape ++ '"' :: rest)).map _ = _
  rw [parseText_text, Option.map_some]

theorem parseValue_arr {c : Char} (hc : c ≠ ']') (fuel : ℕ) (s : List Char) :
    parseValue (fuel + 1) ('[' :: c :: s) = (parseValue fuel (c :: s)).bind fun item =>
      (parseItems fuel item.2).map fun items => (.arr (item.1 :: items.1), items.2) := by
  simp [parseValue, hc]

theorem parseField_text {key : List Char} {value : Json} {fuel : ℕ} {rest : List Char}
    (h : parseValue fuel (value.toUgly ++ rest) = some (value, rest)) :
    parseField (fuel + 1) (quote key ++ ':' :: (value.toUgly ++ rest)) =
      some ((key, value), rest) := by
  rw [quote, List.cons_append, List.append_assoc]
  change (parseText (key.flatMap escape ++ '"' :: ':' :: (value.toUgly ++ rest))).bind _ = _
  rw [parseText_text, Option.bind_some]
  change (parseValue fuel _).map _ = _
  rw [h, Option.map_some]

mutual

/-- A value is read back from its text with fuel for each character. -/
theorem parseValue_toUgly : ∀ (value : Json) (fuel : ℕ) (rest : List Char),
    value.toUgly.length < fuel → NoDigit rest →
      parseValue fuel (value.toUgly ++ rest) = some (value, rest)
  | .int n, fuel + 1, rest, _, hrest => by
      have hdigits : ∀ c ∈ Nat.toDigits 10 n, c.isDigit = true := fun c => isDigit_of_mem_toDigits
      have hint := parseInt_digits hdigits Nat.toDigits_ne_nil hrest
      rw [Nat.ofDigitChars_ten_toDigits] at hint
      rw [toUgly]
      cases htext : Nat.toDigits 10 n with
      | nil => exact absurd htext Nat.toDigits_ne_nil
      | cons c s =>
          rw [htext] at hint hdigits
          rw [List.cons_append, parseValue_digit (hdigits c (List.mem_cons_self ..))]
          exact hint
  | .str s, fuel + 1, rest, _, _ => parseValue_str fuel s rest
  | .arr [], fuel + 1, rest, _, _ => rfl
  | .arr (item :: items), fuel + 1, rest, hfuel, _ => by
      rw [toUgly, List.length_cons, List.length_append] at hfuel
      have hitem := parseValue_toUgly item fuel (itemsText items ++ rest) (by omega)
        (noDigit_itemsText items rest)
      have hitems := parseItems_itemsText items fuel rest (by omega)
      obtain ⟨c, s, htext, hc⟩ := toUgly_open item
      rw [htext] at hitem
      rw [toUgly, List.cons_append, List.append_assoc, htext, List.cons_append, parseValue_arr hc,
        ← List.cons_append, hitem, Option.bind_some, hitems, Option.map_some]
  | .obj [], fuel + 1, rest, _, _ => rfl
  | .obj ((key, value) :: fields), fuel + 2, rest, hfuel, _ => by
      rw [toUgly, List.length_cons, List.length_append, List.length_cons, List.length_append] at hfuel
      have hvalue := parseValue_toUgly value fuel (fieldsText fields ++ rest) (by omega)
        (noDigit_fieldsText fields rest)
      have hfields := parseFields_fieldsText fields (fuel + 1) rest (by omega)
      rw [toUgly, List.cons_append, List.append_assoc, List.cons_append, List.append_assoc]
      change (parseField (fuel + 1) (quote key ++ ':' :: _)).bind _ = _
      rw [parseField_text hvalue, Option.bind_some, hfields, Option.map_some]

theorem parseItems_itemsText : ∀ (items : List Json) (fuel : ℕ) (rest : List Char),
    (itemsText items).length < fuel →
      parseItems fuel (itemsText items ++ rest) = some (items, rest)
  | [], fuel + 1, rest, _ => rfl
  | item :: items, fuel + 1, rest, hfuel => by
      rw [itemsText, List.length_cons, List.length_append] at hfuel
      have hitem := parseValue_toUgly item fuel (itemsText items ++ rest) (by omega)
        (noDigit_itemsText items rest)
      have hitems := parseItems_itemsText items fuel rest (by omega)
      rw [itemsText, List.cons_append, List.append_assoc]
      change (parseValue fuel _).bind _ = _
      rw [hitem, Option.bind_some, hitems, Option.map_some]

theorem parseFields_fieldsText : ∀ (fields : List (List Char × Json)) (fuel : ℕ) (rest : List Char),
    (fieldsText fields).length < fuel →
      parseFields fuel (fieldsText fields ++ rest) = some (fields, rest)
  | [], fuel + 1, rest, _ => rfl
  | (key, value) :: fields, fuel + 2, rest, hfuel => by
      rw [fieldsText, List.length_cons, List.length_append, List.length_cons, List.length_append]
        at hfuel
      have hvalue := parseValue_toUgly value fuel (fieldsText fields ++ rest) (by omega)
        (noDigit_fieldsText fields rest)
      have hfields := parseFields_fieldsText fields (fuel + 1) rest (by omega)
      rw [fieldsText, List.cons_append, List.append_assoc, List.cons_append, List.append_assoc]
      change (parseField (fuel + 1) (quote key ++ ':' :: _)).bind _ = _
      rw [parseField_text hvalue, Option.bind_some, hfields, Option.map_some]

end

theorem parseJson_toUgly (value : Json) : parseJson value.toUgly = some value := by
  have h := parseValue_toUgly value (value.toUgly.length + 1) [] (Nat.lt_succ_self _)
    (fun c hc => absurd hc (by simp))
  rw [List.append_nil] at h
  rw [parseJson, h]

/-! ### Beginnings of texts -/

theorem parseText_append (t : List Char) : ∀ {s text rest : List Char},
    parseText s = some (text, rest) → parseText (s ++ t) = some (text, rest ++ t) := by
  intro s
  induction s using parseText.induct with
  | case1 => exact fun h => absurd h (by simp [parseText])
  | case2 s =>
      intro text rest h
      rw [parseText_end] at h
      cases h
      exact parseText_end _
  | case3 => exact fun h => absurd h (by simp [parseText])
  | case4 a b c d s _ ih =>
      intro text rest h
      have heq : ∀ s, parseText ('\\' :: 'u' :: a :: b :: c :: d :: s) =
          (hexChar a b c d).bind fun c => (parseText s).map fun s => (c :: s.1, s.2) := by
        intro s
        rw [parseText.eq_def]
        simp
      simp only [heq, Option.bind_eq_some_iff, Option.map_eq_some_iff, Prod.exists] at h
      obtain ⟨e, he, text', rest', hs, htext⟩ := h
      cases htext
      simp only [List.cons_append, heq, he, Option.bind_some, ih hs, Option.map_some]
  | case5 s _ hshort =>
      intro text rest h
      rw [parseText.eq_def] at h
      simp at h
  | case6 c s _ hc _ ih =>
      intro text rest h
      have heq : ∀ s, parseText ('\\' :: c :: s) =
          (parseText s).map fun s => (unescape c :: s.1, s.2) := by
        intro s
        rw [parseText.eq_def]
        simp [hc]
      simp only [heq, Option.map_eq_some_iff, Prod.exists] at h
      obtain ⟨text', rest', hs, htext⟩ := h
      cases htext
      simp only [List.cons_append, heq, ih hs, Option.map_some]
  | case7 c s hquote hbackslash ih =>
      intro text rest h
      simp only [parseText_plain hquote hbackslash, Option.map_eq_some_iff, Prod.exists] at h
      obtain ⟨text', rest', hs, htext⟩ := h
      cases htext
      rw [List.cons_append, parseText_plain hquote hbackslash, ih hs, Option.map_some]

theorem parseInt_append (t : List Char) {s rest : List Char} {value : Json}
    (h : parseInt s = some (value, rest)) (hrest : rest ≠ []) :
    parseInt (s ++ t) = some (value, rest ++ t) := by
  unfold parseInt at h
  split_ifs at h with hnone
  cases h
  have hdigits : ∀ c ∈ s.takeWhile Char.isDigit, c.isDigit = true :=
    fun c hc => List.mem_takeWhile_imp hc
  have hnext : NoDigit (s.dropWhile Char.isDigit ++ t) := by
    have hhead := List.head_dropWhile_not Char.isDigit hrest
    intro c hc
    rw [List.head?_append, List.head?_eq_some_head hrest, Option.some_or] at hc
    obtain rfl := Option.some.inj hc
    exact hhead
  have hint := parseInt_digits hdigits hnone hnext
  rw [← List.append_assoc, List.takeWhile_append_dropWhile] at hint
  exact hint

theorem parseInt_head {s : List Char} {value : Json × List Char} (h : parseInt s = some value) :
    ∃ c s', s = c :: s' ∧ c.isDigit = true := by
  unfold parseInt at h
  split_ifs at h with hnone
  cases s with
  | nil => exact absurd rfl hnone
  | cons c s =>
      refine ⟨c, s, rfl, ?_⟩
      by_contra hc
      exact hnone (by simp [hc])

theorem parseValue_nil (fuel : ℕ) : parseValue fuel [] = none := by cases fuel <;> rfl

theorem parseItems_nil (fuel : ℕ) : parseItems fuel [] = none := by cases fuel <;> rfl

theorem parseField_head {fuel : ℕ} {s : List Char} {field : (List Char × Json) × List Char}
    (h : parseField fuel s = some field) : ∃ s', s = '"' :: s' := by
  cases fuel with
  | zero => cases h
  | succ fuel =>
      rw [parseField.eq_def] at h
      dsimp only at h
      split at h
      · exact ⟨_, rfl⟩
      · cases h

theorem parseFields_nil (fuel : ℕ) : parseFields fuel [] = none := by cases fuel <;> rfl

theorem parseValue_obj (fuel : ℕ) (s : List Char) :
    parseValue (fuel + 1) ('{' :: '"' :: s) = (parseField fuel ('"' :: s)).bind fun field =>
      (parseFields fuel field.2).map fun fields => (.obj (field.1 :: fields.1), fields.2) := rfl

theorem ne_nil_of_parseItems {fuel : ℕ} {s : List Char} {items : List Json × List Char}
    (h : parseItems fuel s = some items) : s ≠ [] := by
  rintro rfl
  rw [parseItems_nil] at h
  cases h

theorem ne_nil_of_parseFields {fuel : ℕ} {s : List Char}
    {fields : List (List Char × Json) × List Char} (h : parseFields fuel s = some fields) :
    s ≠ [] := by
  rintro rfl
  rw [parseFields_nil] at h
  cases h

/-- What the parsers read of a text they also read of a longer one, with other fuel; a number only
if something else follows it. -/
structure ReadsFurther (t : List Char) (fuel fuel' : ℕ) : Prop where
  value : ∀ s value rest, parseValue fuel s = some (value, rest) →
    (rest ≠ [] ∨ s.head? = some '{') → parseValue fuel' (s ++ t) = some (value, rest ++ t)
  items : ∀ s items rest, parseItems fuel s = some (items, rest) →
    parseItems fuel' (s ++ t) = some (items, rest ++ t)
  field : ∀ s field rest, parseField fuel s = some (field, rest) → rest ≠ [] →
    parseField fuel' (s ++ t) = some (field, rest ++ t)
  fields : ∀ s fields rest, parseFields fuel s = some (fields, rest) →
    parseFields fuel' (s ++ t) = some (fields, rest ++ t)

namespace ReadsFurther

variable {t s rest : List Char} {fuel fuel' : ℕ}

theorem parseValue_append (ih : ReadsFurther t fuel fuel') {value : Json}
    (h : parseValue (fuel + 1) s = some (value, rest))
    (hrest : rest ≠ [] ∨ s.head? = some '{') :
    parseValue (fuel' + 1) (s ++ t) = some (value, rest ++ t) := by
  rw [parseValue.eq_def] at h
  dsimp only at h
  split at h
  · obtain ⟨text, htext, heq⟩ := Option.map_eq_some_iff.1 h
    cases heq
    change (parseText (_ ++ t)).map _ = _
    rw [parseText_append t htext, Option.map_some]
  · cases h
    rfl
  next s' hopen =>
    obtain ⟨item, hitem, h⟩ := Option.bind_eq_some_iff.1 h
    obtain ⟨items, hitems, heq⟩ := Option.map_eq_some_iff.1 h
    cases heq
    cases s' with
    | nil =>
        rw [parseValue_nil] at hitem
        cases hitem
    | cons c s' =>
        have hc : c ≠ ']' := by
          rintro rfl
          exact hopen _ rfl
        rw [List.cons_append, List.cons_append, parseValue_arr hc, ← List.cons_append,
          ih.value _ _ _ hitem (Or.inl (ne_nil_of_parseItems hitems)), Option.bind_some,
          ih.items _ _ _ hitems, Option.map_some]
  · cases h
    rfl
  · obtain ⟨field, hfield, h⟩ := Option.bind_eq_some_iff.1 h
    obtain ⟨fields, hfields, heq⟩ := Option.map_eq_some_iff.1 h
    cases heq
    obtain ⟨s', rfl⟩ := parseField_head hfield
    rw [List.cons_append, List.cons_append, parseValue_obj, ← List.cons_append,
      ih.field _ _ _ hfield (ne_nil_of_parseFields hfields), Option.bind_some,
      ih.fields _ _ _ hfields, Option.map_some]
  · obtain ⟨c, s', rfl, hc⟩ := parseInt_head h
    have hne : rest ≠ [] := by
      rcases hrest with hne | hhead
      · exact hne
      · cases hhead
        cases hc
    rw [List.cons_append, parseValue_digit hc, ← List.cons_append]
    exact parseInt_append t h hne

theorem parseItems_append (ih : ReadsFurther t fuel fuel') {items : List Json}
    (h : parseItems (fuel + 1) s = some (items, rest)) :
    parseItems (fuel' + 1) (s ++ t) = some (items, rest ++ t) := by
  rw [parseItems.eq_def] at h
  dsimp only at h
  split at h
  · cases h
    rfl
  · obtain ⟨item, hitem, h⟩ := Option.bind_eq_some_iff.1 h
    obtain ⟨items, hitems, heq⟩ := Option.map_eq_some_iff.1 h
    cases heq
    change (parseValue fuel' (_ ++ t)).bind _ = _
    rw [ih.value _ _ _ hitem (Or.inl (ne_nil_of_parseItems hitems)), Option.bind_some,
      ih.items _ _ _ hitems, Option.map_some]
  · cases h

theorem parseField_append (ih : ReadsFurther t fuel fuel') {field : List Char × Json}
    (h : parseField (fuel + 1) s = some (field, rest)) (hrest : rest ≠ []) :
    parseField (fuel' + 1) (s ++ t) = some (field, rest ++ t) := by
  rw [parseField.eq_def] at h
  dsimp only at h
  split at h
  · obtain ⟨key, hkey, h⟩ := Option.bind_eq_some_iff.1 h
    split at h
    next s' hcolon =>
      obtain ⟨value, hvalue, heq⟩ := Option.map_eq_some_iff.1 h
      cases heq
      change (parseText (_ ++ t)).bind _ = _
      rw [parseText_append t hkey, Option.bind_some, hcolon]
      change (parseValue fuel' (s' ++ t)).map _ = _
      rw [ih.value _ _ _ hvalue (Or.inl hrest), Option.map_some]
    · cases h
  · cases h

theorem parseFields_append (ih : ReadsFurther t fuel fuel') {fields : List (List Char × Json)}
    (h : parseFields (fuel + 1) s = some (fields, rest)) :
    parseFields (fuel' + 1) (s ++ t) = some (fields, rest ++ t) := by
  rw [parseFields.eq_def] at h
  dsimp only at h
  split at h
  · cases h
    rfl
  · obtain ⟨field, hfield, h⟩ := Option.bind_eq_some_iff.1 h
    obtain ⟨fields, hfields, heq⟩ := Option.map_eq_some_iff.1 h
    cases heq
    change (parseField fuel' (_ ++ t)).bind _ = _
    rw [ih.field _ _ _ hfield (ne_nil_of_parseFields hfields), Option.bind_some,
      ih.fields _ _ _ hfields, Option.map_some]
  · cases h

end ReadsFurther

/-- With more fuel the parsers read a longer text the same way. -/
theorem readsFurther (t : List Char) : ∀ fuel fuel' : ℕ, fuel ≤ fuel' → ReadsFurther t fuel fuel'
  | 0, fuel', _ => by
      constructor <;> intro s value rest h <;> cases h
  | fuel + 1, 0, hle => by omega
  | fuel + 1, fuel' + 1, hle => by
      have ih := readsFurther t fuel fuel' (by omega)
      exact ⟨fun _ _ _ h => ih.parseValue_append h, fun _ _ _ h => ih.parseItems_append h,
        fun _ _ _ h => ih.parseField_append h, fun _ _ _ h => ih.parseFields_append h⟩

theorem toUgly_obj (fields : List (List Char × Json)) :
    ∃ s, (Json.obj fields).toUgly = '{' :: s := by
  cases fields with
  | nil => exact ⟨_, rfl⟩
  | cons field fields => exact ⟨_, rfl⟩

theorem fieldsText_getLast : ∀ fields : List (List Char × Json),
    (fieldsText fields).getLast? = some '}'
  | [] => rfl
  | (key, value) :: fields => by
      have hsplit : fieldsText ((key, value) :: fields) =
          (',' :: (quote key ++ ':' :: value.toUgly)) ++ fieldsText fields := by
        simp [fieldsText]
      rw [hsplit, List.getLast?_append, fieldsText_getLast fields, Option.some_or]

theorem toUgly_obj_getLast (fields : List (List Char × Json)) :
    (Json.obj fields).toUgly.getLast? = some '}' := by
  cases fields with
  | nil => rfl
  | cons field fields =>
      have hsplit : (Json.obj (field :: fields)).toUgly =
          ('{' :: (quote field.1 ++ ':' :: field.2.toUgly)) ++ fieldsText fields := by
        simp [toUgly]
      rw [hsplit, List.getLast?_append, fieldsText_getLast fields, Option.some_or]

/-- A proper beginning of the text of an object is no text. -/
theorem parseJson_prefix {fields : List (List Char × Json)} {s t : List Char}
    (hst : s ++ t = (Json.obj fields).toUgly) (ht : t ≠ []) : parseJson s = none := by
  unfold parseJson
  split
  next value hvalue =>
    have hhead : s.head? = some '{' := by
      cases s with
      | nil =>
          rw [parseValue_nil] at hvalue
          cases hvalue
      | cons c s =>
          obtain ⟨s', hobj⟩ := toUgly_obj fields
          rw [hobj] at hst
          cases hst
          rfl
    have hlong := (readsFurther t (s.length + 1) ((s ++ t).length + 1) (by simp)).value s value []
      hvalue (Or.inr hhead)
    have hwhole := parseValue_toUgly (.obj fields) ((s ++ t).length + 1) []
      (by rw [hst]; exact Nat.lt_succ_self _) (fun c hc => absurd hc (by simp))
    rw [List.append_nil, ← hst, hlong] at hwhole
    cases hwhole
    exact absurd rfl ht
  · rfl

/-! ### Spaces -/

/-- The text has neither a space nor a line break. -/
def Solid (s : List Char) : Prop := ∀ c ∈ s, c ≠ ' ' ∧ c ≠ '\n'

instance (s : List Char) : Decidable (Solid s) :=
  List.decidableBAll (fun c => c ≠ ' ' ∧ c ≠ '\n') s

theorem Solid.append {s t : List Char} (hs : Solid s) (ht : Solid t) : Solid (s ++ t) :=
  List.forall_mem_append.2 ⟨hs, ht⟩

theorem Solid.cons {c : Char} {s : List Char} (hc : c ≠ ' ' ∧ c ≠ '\n') (hs : Solid s) :
    Solid (c :: s) := List.forall_mem_cons.2 ⟨hc, hs⟩

mutual

/-- No string of the value has a space. -/
def NoSpace : Json → Prop
  | .int _ => True
  | .str s => ' ' ∉ s
  | .arr items => NoSpaceItems items
  | .obj fields => NoSpaceFields fields

def NoSpaceItems : List Json → Prop
  | [] => True
  | item :: items => item.NoSpace ∧ NoSpaceItems items

def NoSpaceFields : List (List Char × Json) → Prop
  | [] => True
  | (key, value) :: fields => (' ' ∉ key ∧ value.NoSpace) ∧ NoSpaceFields fields

end

theorem noSpaceFields_concat {fields : List (List Char × Json)} (h : NoSpaceFields fields)
    {key : List Char} (hkey : ' ' ∉ key) {value : Json} (hvalue : value.NoSpace) :
    NoSpaceFields (fields ++ [(key, value)]) := by
  induction fields with
  | nil => exact ⟨⟨hkey, hvalue⟩, trivial⟩
  | cons field fields ih => exact ⟨h.1, ih h.2⟩

theorem solid_hexDigit : ∀ n < 16, hexDigit n ≠ ' ' ∧ hexDigit n ≠ '\n' := by decide

theorem solid_escape {c : Char} (hc : c ≠ ' ') : Solid (escape c) := by
  by_cases hescaped : c ∈ escaped
  · rcases mem_escaped.mp hescaped with rfl | rfl | rfl | rfl | rfl | rfl | rfl | rfl <;> decide
  · have hbreak : c ≠ '\n' := by
      rintro rfl
      exact hescaped (by decide)
    rw [escape_of_notMem hescaped]
    split_ifs with hcontrol
    · have htail : Solid [hexDigit (c.toNat / 16), hexDigit (c.toNat % 16)] :=
        Solid.cons (solid_hexDigit _ (by omega))
          (Solid.cons (solid_hexDigit _ (by omega)) (by decide))
      exact Solid.append (s := ['\\', 'u', '0', '0']) (by decide) htail
    · exact Solid.cons ⟨hc, hbreak⟩ (by decide)

theorem solid_quote {s : List Char} (hs : ' ' ∉ s) : Solid (quote s) := by
  have hescape : Solid (s.flatMap escape) := by
    intro c hc
    obtain ⟨d, hd, hcd⟩ := List.mem_flatMap.1 hc
    have hspace : d ≠ ' ' := by
      rintro rfl
      exact hs hd
    exact solid_escape hspace c hcd
  exact (hescape.append (by decide)).cons (by decide)

theorem solid_toDigits (n : ℕ) : Solid (Nat.toDigits 10 n) := by
  intro c hc
  have hdigit := isDigit_of_mem_toDigits hc
  constructor
  · rintro rfl
    cases hdigit
  · rintro rfl
    cases hdigit

mutual

theorem toUgly_noSpace : ∀ value : Json, value.NoSpace → Solid value.toUgly
  | .int n, _ => solid_toDigits n
  | .str s, h => solid_quote h
  | .arr [], _ => by decide
  | .arr (item :: items), h =>
      ((toUgly_noSpace item h.1).append (itemsText_noSpace items h.2)).cons (by decide)
  | .obj [], _ => by decide
  | .obj ((key, value) :: fields), h =>
      ((solid_quote h.1.1).append (((toUgly_noSpace value h.1.2).append
        (fieldsText_noSpace fields h.2)).cons (by decide))).cons (by decide)

theorem itemsText_noSpace : ∀ items : List Json, NoSpaceItems items → Solid (itemsText items)
  | [], _ => by decide
  | item :: items, h =>
      ((toUgly_noSpace item h.1).append (itemsText_noSpace items h.2)).cons (by decide)

theorem fieldsText_noSpace : ∀ fields : List (List Char × Json),
    NoSpaceFields fields → Solid (fieldsText fields)
  | [], _ => by decide
  | (key, value) :: fields, h =>
      ((solid_quote h.1.1).append (((toUgly_noSpace value h.1.2).append
        (fieldsText_noSpace fields h.2)).cons (by decide))).cons (by decide)

end

end Json

end LogosDelivery.Lib
