import LogosDelivery.Topics.PubsubTopic

/-! # Namespaced content topics

`NsContentTopic` of `waku_core/topics/content_topic.nim`, over all strings.  A topic is four parts
behind slashes, or a number and four parts; the parts are not empty and have no slash, so that a
string is read in one way only and what is read is what was written (`content_roundTrip`).

The numbers are those of `parseInt`: a sign, and digits among which there may be underscores. -/

namespace LogosDelivery.Topics

open Lib
open Discovery (ParsingError)

/-! ### Numbers -/

/-- `$` of an `int`. -/
def intText : ℤ → Text
  | .ofNat n => Nat.toDigits 10 n
  | .negSucc n => '-' :: Nat.toDigits 10 (n + 1)

/-- Digits among which there may be underscores, as a number. -/
def parseDigits : Text → Option ℕ
  | [] => none
  | c :: rest =>
      if c.isDigit && rest.all (fun c => c.isDigit || c == '_') then
        some (Nat.ofDigitChars 10 ((c :: rest).filter Char.isDigit) 0)
      else none

/-- A sign and digits, as a number of any size. -/
def rawParseInt : Text → Option ℤ
  | '+' :: digits => (parseDigits digits).map Int.ofNat
  | '-' :: digits => (parseDigits digits).map (fun n => -Int.ofNat n)
  | digits => (parseDigits digits).map Int.ofNat

/-- `parseInt`; `none` is the `ValueError`, also of a number that is no `int`. -/
def parseInt (s : Text) : Option Int64 :=
  match rawParseInt s with
  | none => none
  | some n => if -2 ^ 63 ≤ n ∧ n < 2 ^ 63 then some (Int64.ofInt n) else none

theorem parseDigits_toDigits (n : ℕ) : parseDigits (Nat.toDigits 10 n) = some n := by
  have hdigits : ∀ c ∈ Nat.toDigits 10 n, c.isDigit = true := (isDecimal_toDigits n).2.1
  have hvalue : Nat.ofDigitChars 10 ((Nat.toDigits 10 n).filter Char.isDigit) 0 = n := by
    rw [List.filter_eq_self.mpr hdigits, Nat.ofDigitChars_ten_toDigits]
  cases htext : Nat.toDigits 10 n with
  | nil => exact absurd htext Nat.toDigits_ne_nil
  | cons c rest =>
      rw [htext] at hdigits hvalue
      have hrest : rest.all (fun c => c.isDigit || c == '_') = true :=
        List.all_eq_true.mpr (fun c' hc' => by rw [hdigits c' (List.mem_cons_of_mem _ hc')]; rfl)
      rw [parseDigits, hdigits c List.mem_cons_self, hrest, hvalue]
      rfl

theorem rawParseInt_intText : ∀ n : ℤ, rawParseInt (intText n) = some n
  | .negSucc n => by
      change (parseDigits (Nat.toDigits 10 (n + 1))).map (fun n => -Int.ofNat n) = _
      rw [parseDigits_toDigits]
      rfl
  | .ofNat n => by
      have hparsed := parseDigits_toDigits n
      have hdigits := (isDecimal_toDigits n).2.1
      change rawParseInt (Nat.toDigits 10 n) = _
      -- the first character is a digit, so it is no sign
      unfold rawParseInt
      split
      · rename_i digits htext
        exact absurd (hdigits '+' (htext ▸ List.mem_cons_self)) (by decide)
      · rename_i digits htext
        exact absurd (hdigits '-' (htext ▸ List.mem_cons_self)) (by decide)
      · rw [hparsed]
        rfl

theorem parseInt_intText (n : Int64) : parseInt (intText n.toInt) = some n := by
  rw [parseInt, rawParseInt_intText]
  dsimp only
  rw [if_pos ⟨n.le_toInt, n.toInt_lt⟩, Int64.ofInt_toInt]

theorem slash_notMem_digits {s : Text} {n : ℕ} (h : parseDigits s = some n) : '/' ∉ s := by
  cases s with
  | nil => exact List.not_mem_nil
  | cons c rest =>
      rw [parseDigits] at h
      split_ifs at h with hall
      rw [Bool.and_eq_true, List.all_eq_true] at hall
      intro hmem
      rcases List.mem_cons.mp hmem with rfl | hmem
      · exact absurd hall.1 (by decide)
      · exact absurd (hall.2 '/' hmem) (by decide)

theorem slash_notMem_raw {s : Text} {n : ℤ} (h : rawParseInt s = some n) : '/' ∉ s := by
  unfold rawParseInt at h
  split at h
  · obtain ⟨m, hm, -⟩ := Option.map_eq_some_iff.mp h
    rw [List.mem_cons, not_or]
    exact ⟨by decide, slash_notMem_digits hm⟩
  · obtain ⟨m, hm, -⟩ := Option.map_eq_some_iff.mp h
    rw [List.mem_cons, not_or]
    exact ⟨by decide, slash_notMem_digits hm⟩
  · obtain ⟨m, hm, -⟩ := Option.map_eq_some_iff.mp h
    exact slash_notMem_digits hm

/-- No number has a slash, and none is empty. -/
theorem parseInt_part {s : Text} {n : Int64} (h : parseInt s = some n) : '/' ∉ s ∧ s ≠ [] := by
  unfold parseInt at h
  cases hraw : rawParseInt s with
  | none =>
      rw [hraw] at h
      cases h
  | some m =>
      refine ⟨slash_notMem_raw hraw, ?_⟩
      rintro rfl
      cases hraw

/-! ### Topics -/

structure NsContentTopic where
  generation : Option Int64
  application : Text
  version : Text
  name : Text
  encoding : Text
deriving DecidableEq

namespace NsContentTopic

/-- `$topic`. -/
def toText (topic : NsContentTopic) : Text :=
  let formatted :=
    match topic.generation with
    | some gen => '/' :: intText gen.toInt
    | none => []
  formatted ++ '/' :: topic.application ++ '/' :: topic.version ++ '/' :: topic.name ++
    '/' :: topic.encoding

/-- The checks of the four parts. -/
def ofParts (generation : Option Int64) (app ver name enc : Text) :
    Except ParsingError NsContentTopic :=
  if app.length = 0 then .error (.missingPart "application")
  else if ver.length = 0 then .error (.missingPart "version")
  else if name.length = 0 then .error (.missingPart "topic-name")
  else if enc.length = 0 then .error (.missingPart "encoding")
  else .ok ⟨generation, app, ver, name, enc⟩

def parse (topic : Text) : Except ParsingError NsContentTopic :=
  match topic with
  | '/' :: rest =>
      match rest.splitOn '/' with
      | [app, ver, name, enc] => ofParts none app ver name enc
      | [gen, app, ver, name, enc] =>
          if gen.length = 0 then .error (.missingPart "generation")
          else
            match parseInt gen with
            | none => .error (.invalidFormat "generation should be a numeric value")
            | some gen => ofParts (some gen) app ver name enc
      | _ => .error (.invalidFormat "Invalid content topic structure. Expected either /<application>/<version>/<topic-name>/<encoding> or /<gen>/<application>/<version>/<topic-name>/<encoding>")
  | topic =>
      .error (.invalidFormat ("content-topic '" ++ String.ofList topic ++ "' must start with slash"))

/-! ### What is accepted -/

/-- A part: not empty, and without a slash. -/
def IsPart (part : Text) : Prop := part ≠ [] ∧ '/' ∉ part

/-- All four parts are parts. -/
structure Plain (topic : NsContentTopic) : Prop where
  application : IsPart topic.application
  version : IsPart topic.version
  name : IsPart topic.name
  encoding : IsPart topic.encoding

/-- The four parts behind slashes. -/
def body (topic : NsContentTopic) : Text :=
  '/' :: topic.application ++ '/' :: topic.version ++ '/' :: topic.name ++ '/' :: topic.encoding

/-- The string has the parts of the topic, with its generation before them if there is one. -/
def Reads (s : Text) (topic : NsContentTopic) : Prop :=
  topic.Plain ∧
    (topic.generation = none ∧ s = topic.body ∨
      ∃ gen text, topic.generation = some gen ∧ parseInt text = some gen ∧
        s = '/' :: text ++ topic.body)

variable {topic : NsContentTopic} {generation : Option Int64} {app ver name enc : Text}

theorem ofParts_eq_ok : ofParts generation app ver name enc = .ok topic ↔
    topic = ⟨generation, app, ver, name, enc⟩ ∧ app ≠ [] ∧ ver ≠ [] ∧ name ≠ [] ∧ enc ≠ [] := by
  unfold ofParts
  simp only [List.length_eq_zero_iff]
  split_ifs with happ hver hname henc
  · simp [happ]
  · simp [hver]
  · simp [hname]
  · simp [henc]
  · rw [Except.ok.injEq]
    constructor
    · rintro rfl
      exact ⟨rfl, happ, hver, hname, henc⟩
    · rintro ⟨rfl, -⟩
      rfl

theorem plain_of_parts (hne : app ≠ [] ∧ ver ≠ [] ∧ name ≠ [] ∧ enc ≠ [])
    (hslash : ∀ part ∈ [app, ver, name, enc], '/' ∉ part) :
    Plain ⟨generation, app, ver, name, enc⟩ where
  application := ⟨hne.1, hslash app (by simp)⟩
  version := ⟨hne.2.1, hslash ver (by simp)⟩
  name := ⟨hne.2.2.1, hslash name (by simp)⟩
  encoding := ⟨hne.2.2.2, hslash enc (by simp)⟩

theorem ofParts_plain (h : topic.Plain) : ofParts topic.generation topic.application topic.version
    topic.name topic.encoding = .ok topic :=
  ofParts_eq_ok.mpr ⟨rfl, h.application.1, h.version.1, h.name.1, h.encoding.1⟩

/-- What is behind the first slash of four parts. -/
theorem splitOn_four {rest : Text} : rest.splitOn '/' = [app, ver, name, enc] ↔
    rest = app ++ '/' :: ver ++ '/' :: name ++ '/' :: enc ∧
      ∀ part ∈ [app, ver, name, enc], '/' ∉ part := by
  rw [splitOn_eq_iff (List.cons_ne_nil _ _)]
  simp [List.intercalate]

theorem splitOn_five {rest gen : Text} : rest.splitOn '/' = [gen, app, ver, name, enc] ↔
    rest = gen ++ ('/' :: (app ++ '/' :: ver ++ '/' :: name ++ '/' :: enc)) ∧
      '/' ∉ gen ∧ ∀ part ∈ [app, ver, name, enc], '/' ∉ part := by
  rw [splitOn_eq_iff (List.cons_ne_nil _ _), List.forall_mem_cons]
  simp [List.intercalate]

theorem Plain.noSlash (h : topic.Plain) :
    ∀ part ∈ [topic.application, topic.version, topic.name, topic.encoding], '/' ∉ part := by
  intro part hpart
  rcases List.mem_cons.mp hpart with rfl | hpart
  · exact h.application.2
  rcases List.mem_cons.mp hpart with rfl | hpart
  · exact h.version.2
  rcases List.mem_pair.mp hpart with rfl | rfl
  · exact h.name.2
  · exact h.encoding.2

theorem reads_of_parse {s : Text} (h : parse s = .ok topic) : Reads s topic := by
  unfold parse at h
  split at h
  · rename_i rest
    split at h
    · rename_i app ver name enc hparts
      obtain ⟨rfl, hne⟩ := ofParts_eq_ok.mp h
      obtain ⟨hs, hslash⟩ := splitOn_four.mp hparts
      exact ⟨plain_of_parts hne hslash, Or.inl ⟨rfl, congrArg (List.cons '/') hs⟩⟩
    · rename_i text app ver name enc hparts
      split_ifs at h
      obtain ⟨hs, -, hslash⟩ := splitOn_five.mp hparts
      cases hgen : parseInt text with
      | none =>
          rw [hgen] at h
          cases h
      | some gen =>
          rw [hgen] at h
          obtain ⟨rfl, hne⟩ := ofParts_eq_ok.mp h
          exact ⟨plain_of_parts hne hslash,
            Or.inr ⟨gen, text, rfl, hgen, congrArg (List.cons '/') hs⟩⟩
    · cases h
  · cases h

theorem parse_of_reads {s : Text} (h : Reads s topic) : parse s = .ok topic := by
  obtain ⟨hplain, hs⟩ := h
  have hparsed := ofParts_plain hplain
  rcases hs with ⟨hgen, rfl⟩ | ⟨gen, text, hgen, hint, rfl⟩
  · have hparts := splitOn_four.mpr ⟨rfl, hplain.noSlash⟩
    rw [hgen] at hparsed
    unfold parse body
    simp only [List.cons_append]
    rw [hparts]
    exact hparsed
  · obtain ⟨hnotIn, hne⟩ := parseInt_part hint
    have hparts := splitOn_five.mpr ⟨rfl, hnotIn, hplain.noSlash⟩
    have hlen : text.length ≠ 0 := fun hzero => hne (List.length_eq_zero_iff.mp hzero)
    rw [hgen] at hparsed
    unfold parse body
    simp only [List.cons_append]
    rw [hparts]
    dsimp only
    rw [if_neg hlen, hint]
    exact hparsed

/-- A string is parsed as the topic whose parts it has. -/
theorem parse_eq_ok_iff (s : Text) (topic : NsContentTopic) :
    parse s = .ok topic ↔ Reads s topic := ⟨reads_of_parse, parse_of_reads⟩

theorem reads_toText (h : topic.Plain) : Reads topic.toText topic := by
  refine ⟨h, ?_⟩
  cases hgen : topic.generation with
  | none => exact Or.inl ⟨rfl, by simp [toText, body, hgen]⟩
  | some gen =>
      exact Or.inr ⟨gen, intText gen.toInt, rfl, parseInt_intText gen, by simp [toText, body, hgen]⟩

/-- **Content topics round trip.**  A topic of proper parts is read back as it was written; a string
is accepted exactly if it is a slash before four parts, or before a number and four parts; and what
is read from an accepted string is what is read from its text. -/
theorem content_roundTrip :
    (∀ topic : NsContentTopic, topic.Plain → parse topic.toText = .ok topic) ∧
    (∀ s, (∃ topic, parse s = .ok topic) ↔ ∃ app ver name enc,
      IsPart app ∧ IsPart ver ∧ IsPart name ∧ IsPart enc ∧
        (s = '/' :: app ++ '/' :: ver ++ '/' :: name ++ '/' :: enc ∨
          ∃ text gen, parseInt text = some gen ∧
            s = '/' :: text ++ '/' :: app ++ '/' :: ver ++ '/' :: name ++ '/' :: enc)) ∧
    ∀ s topic, parse s = .ok topic → parse topic.toText = parse s := by
  refine ⟨fun topic h => (parse_eq_ok_iff _ _).mpr (reads_toText h), fun s => ?_, ?_⟩
  · simp only [parse_eq_ok_iff]
    constructor
    · rintro ⟨topic, h, hs⟩
      refine ⟨topic.application, topic.version, topic.name, topic.encoding, h.application,
        h.version, h.name, h.encoding, ?_⟩
      rcases hs with ⟨-, hs⟩ | ⟨gen, text, -, hint, hs⟩
      · exact Or.inl hs
      · exact Or.inr ⟨text, gen, hint, by rw [hs, body]; simp⟩
    · rintro ⟨app, ver, name, enc, happ, hver, hname, henc, hs⟩
      rcases hs with hs | ⟨text, gen, hint, hs⟩
      · exact ⟨⟨none, app, ver, name, enc⟩, ⟨happ, hver, hname, henc⟩, Or.inl ⟨rfl, hs⟩⟩
      · exact ⟨⟨some gen, app, ver, name, enc⟩, ⟨happ, hver, hname, henc⟩,
          Or.inr ⟨gen, text, rfl, hint, by rw [hs, body]; simp⟩⟩
  · intro s topic h
    rw [h]
    exact (parse_eq_ok_iff _ _).mpr (reads_toText ((parse_eq_ok_iff _ _).mp h).1)

end NsContentTopic

end LogosDelivery.Topics
