import Mathlib

/-! # Request ids in database queries

`dbConnQuery` of `db_postgres/dbconn.nim` puts the id of a Store request, which the remote client
chose, in a comment before the query.  `isSecureString` filters the ids; the arguments are then
filled in over the whole text, comment included, by `dbFormat` of the database package, which is
not part of the repository (`DbFormat` is what the code relies on).

A question mark passes the filter and is a placeholder.  Every id that has one takes an argument
away from the query, and the arguments run out.  An accepted id without one is harmless
(`sends_claimed_iff`): it cannot end its comment, and the arguments go where they belong.

A `string` of the code is a list of characters with codes below 256, here a list of characters. -/

namespace LogosDelivery.Archive.Postgres

abbrev Text := List Char

/-! ### The filter -/

/-- `toLowerAscii`. -/
def toLowerAscii (input : Text) : Text := input.map Char.toLower

def riskyPatterns : List Text :=
  [" OR ", " AND ", " UNION ", " SELECT ", "INSERT ", "DELETE ", "UPDATE ", "DROP ",
    "EXEC ", "--", "/*", "*/"].map String.toList

def containsRiskyPatterns (input : Text) : Bool :=
  riskyPatterns.any (fun pattern => decide (toLowerAscii pattern <:+: toLowerAscii input))

def riskyChars : List Char := ['\'', '\"', ';', '#', '\\', '%', '_', '/', '*', '\x00']

def isSecureString (input : Text) : Bool :=
  !input.any (fun ch => riskyChars.contains ch) && !containsRiskyPatterns input

/-! ### Filling in the arguments -/

/-- Each `?` of the text becomes the quoted next argument; nothing when the arguments run out. -/
def substitute (quote : Text → Text) : Text → List Text → Option Text
  | [], _ => some []
  | c :: text, args =>
      if c = '?' then
        match args with
        | [] => none
        | arg :: args => (substitute quote text args).map (quote arg ++ ·)
      else (substitute quote text args).map (c :: ·)

/-- `dbFormat` of the database package; no result stands for an `IndexDefect`. -/
structure DbFormat where
  quote : Text → Text
  format : Text → List Text → Option Text
  format_nil : ∀ text, format text [] = some text
  format_args : ∀ text args, args ≠ [] → format text args = substitute quote text args

/-! ### Sending a query -/

/-- The state of a connection: if it is not ok, the error that `check` finds on it, if any. -/
inductive ConnStatus where
  | ok
  | bad (errorText : Option Text)

/-- What comes of a query up to the call of `pqsendQuery`: an error, a defect of the program, or
the statement that the server gets. -/
inductive Outcome where
  | error (text : Text)
  | indexDefect
  | statement (text : Text)
deriving DecidableEq

/-- A `cstring` ends before the first zero character. -/
def cstring (text : Text) : Text := text.takeWhile (fun c => c ≠ '\x00')

def sendQuery (db : DbFormat) (status : ConnStatus) (query : Text) (args : List Text) : Outcome :=
  match status with
  | .bad (some errorText) => .error ("failed to connect to database: ".toList ++ errorText)
  | .bad none => .error "unknown reason".toList
  | .ok =>
      match db.format query args with
      | none => .indexDefect
      | some wellFormedQuery => .statement (cstring wellFormedQuery)

def commentOpening : Text := "/* requestId=".toList

def commentClosing : Text := " */ ".toList

/-- The comment that is put before a query. -/
def comment (requestId : Text) : Text := commentOpening ++ requestId ++ commentClosing

def dbConnQuery (db : DbFormat) (status : ConnStatus) (query : Text) (args : List Text)
    (requestId : Text) : Outcome :=
  if isSecureString requestId = false then
    .error ("the passed request id is not secure: ".toList ++ requestId)
  else
    match sendQuery db status (comment requestId ++ query) args with
    | .error text => .error ("error in dbConnQuery calling sendQuery: ".toList ++ text)
    | outcome => outcome

/-! ### What the server should get -/

/-- The text with its `?`s replaced, the first of them by the argument number `i`, the next by the
argument after it, and so on. -/
def placedFrom (quote : Text → Text) (args : List Text) : ℕ → Text → Text
  | _, [] => []
  | i, c :: text =>
      if c = '?' then quote (args.getD i []) ++ placedFrom quote args (i + 1) text
      else c :: placedFrom quote args i text

/-- The rest of a text after the block comment that it starts within, at a depth of nested
comments: the reading of the server. -/
def afterComment : ℕ → Text → Option Text
  | 0, text => some text
  | _, [] => none
  | depth + 1, [_] => afterComment (depth + 1) []
  | depth + 1, c :: d :: text =>
      if c = '*' ∧ d = '/' then afterComment depth text
      else if c = '/' ∧ d = '*' then afterComment (depth + 2) text
      else afterComment (depth + 1) (d :: text)

/-- The rest of a text after the block comment that it starts with. -/
def afterFirstComment : Text → Option Text
  | '/' :: '*' :: text => afterComment 1 text
  | _ => none

/-- The server gets the comment and the query with its arguments in place, and the comment ends
where it should. -/
def SendsAsClaimed (db : DbFormat) (query : Text) (args : List Text) (requestId : Text) : Prop :=
  let placed := placedFrom db.quote args 0 query
  dbConnQuery db .ok query args requestId = .statement (comment requestId ++ placed) ∧
    afterFirstComment (comment requestId ++ placed) = some (' ' :: placed)

/-! ### The arguments -/

variable {quote : Text → Text} {args : List Text}

theorem substitute_mark_nil (text : Text) : substitute quote ('?' :: text) [] = none := rfl

theorem substitute_mark_cons (text arg : Text) :
    substitute quote ('?' :: text) (arg :: args) =
      (substitute quote text args).map (quote arg ++ ·) := rfl

theorem substitute_cons {c : Char} (hc : c ≠ '?') (text : Text) :
    substitute quote (c :: text) args = (substitute quote text args).map (c :: ·) := by
  cases args <;> simp only [substitute, if_neg hc]

/-- Filling in succeeds exactly if there are enough arguments, and puts them in place. -/
theorem substitute_drop (text : Text) (i : ℕ) (hi : i ≤ args.length) :
    substitute quote text (args.drop i) =
      if i + text.count '?' ≤ args.length then some (placedFrom quote args i text) else none := by
  induction text generalizing i with
  | nil => simp [substitute, placedFrom, hi]
  | cons c text ih =>
      by_cases hc : c = '?'
      · rw [placedFrom, if_pos hc, hc, List.count_cons_self]
        by_cases hlt : i < args.length
        · rw [List.drop_eq_getElem_cons hlt, substitute_mark_cons, ih (i + 1) hlt,
            List.getD_eq_getElem args [] hlt]
          by_cases hle : i + 1 + text.count '?' ≤ args.length
          · rw [if_pos hle, if_pos (by omega), Option.map_some]
          · rw [if_neg hle, if_neg (by omega), Option.map_none]
        · rw [List.drop_eq_nil_of_le (by omega), substitute_mark_nil, if_neg (by omega)]
      · rw [substitute_cons hc, placedFrom, if_neg hc, List.count_cons_of_ne hc, ih i hi]
        by_cases hle : i + text.count '?' ≤ args.length
        · rw [if_pos hle, if_pos hle, Option.map_some]
        · rw [if_neg hle, if_neg hle, Option.map_none]

/-- A text without placeholders stays as it is and takes no argument. -/
theorem placedFrom_append {text : Text} (h : '?' ∉ text) (i : ℕ) (rest : Text) :
    placedFrom quote args i (text ++ rest) = text ++ placedFrom quote args i rest := by
  induction text with
  | nil => rfl
  | cons c text ih =>
      rw [List.mem_cons, not_or] at h
      rw [List.cons_append, placedFrom, if_neg (Ne.symm h.1), ih h.2, List.cons_append]

/-- The characters of the filled in text are those of the text and of the quoted arguments. -/
theorem mem_placedFrom {z : Char} (hz : z ≠ '?') (text : Text) (i : ℕ)
    (hcount : i + text.count '?' = args.length) :
    z ∈ placedFrom quote args i text ↔ z ∈ text ∨ ∃ arg ∈ args.drop i, z ∈ quote arg := by
  induction text generalizing i with
  | nil =>
      rw [List.count_nil, Nat.add_zero] at hcount
      simp [placedFrom, hcount]
  | cons c text ih =>
      by_cases hc : c = '?'
      · rw [hc, List.count_cons_self] at hcount
        have hlt : i < args.length := by omega
        rw [placedFrom, if_pos hc, List.mem_append, ih (i + 1) (by omega),
          List.drop_eq_getElem_cons hlt, List.getD_eq_getElem args [] hlt, hc]
        simp only [List.mem_cons, exists_eq_or_imp, hz, false_or]
        tauto
      · rw [List.count_cons_of_ne hc] at hcount
        rw [placedFrom, if_neg hc, List.mem_cons, List.mem_cons, ih i hcount]
        tauto

/-! ### The comment -/

/-- A comment without stars and slashes ends at the first end of a comment. -/
theorem afterComment_append {text : Text} (hstar : '*' ∉ text) (hslash : '/' ∉ text)
    (rest : Text) : afterComment 1 (text ++ '*' :: '/' :: rest) = some rest := by
  induction text with
  | nil => simp [afterComment]
  | cons c text ih =>
      rw [List.mem_cons, not_or] at hstar hslash
      have htail := ih hstar.2 hslash.2
      have hcstar : c ≠ '*' := Ne.symm hstar.1
      have hcslash : c ≠ '/' := Ne.symm hslash.1
      cases text with
      | nil =>
          simp only [List.cons_append, List.nil_append] at htail ⊢
          rw [afterComment, if_neg (fun h => hcstar h.1), if_neg (fun h => hcslash h.1)]
          exact htail
      | cons d text =>
          simp only [List.cons_append] at htail ⊢
          rw [afterComment, if_neg (fun h => hcstar h.1), if_neg (fun h => hcslash h.1)]
          exact htail

variable {requestId : Text}

/-- An accepted id has none of the risky characters. -/
theorem not_mem_of_secure (h : isSecureString requestId = true) {c : Char} (hc : c ∈ riskyChars) :
    c ∉ requestId := by
  intro hmem
  rw [isSecureString, Bool.and_eq_true, Bool.not_eq_true', List.any_eq_false] at h
  exact h.1 c hmem (List.contains_iff_mem.mpr hc)

/-- What the opening and the closing of the comment are made of. -/
theorem commentOpening_eq : commentOpening =
    ['/', '*', ' ', 'r', 'e', 'q', 'u', 'e', 's', 't', 'I', 'd', '='] := by decide

theorem commentClosing_eq : commentClosing = [' ', '*', '/', ' '] := by decide

/-- An accepted id stays in its comment, whatever follows. -/
theorem afterFirstComment_comment (h : isSecureString requestId = true) (rest : Text) :
    afterFirstComment (comment requestId ++ rest) = some (' ' :: rest) := by
  have hstar : '*' ∉ requestId := not_mem_of_secure h (by decide)
  have hslash : '/' ∉ requestId := not_mem_of_secure h (by decide)
  have htext : comment requestId ++ rest = '/' :: '*' ::
      (([' ', 'r', 'e', 'q', 'u', 'e', 's', 't', 'I', 'd', '='] ++ requestId ++ [' ']) ++
        '*' :: '/' :: ' ' :: rest) := by
    simp only [comment, commentOpening_eq, commentClosing_eq, List.cons_append, List.nil_append,
      List.append_assoc]
  rw [htext, afterFirstComment]
  apply afterComment_append
  · simp [hstar]
  · simp [hslash]

theorem cstring_eq_self_iff {text : Text} : cstring text = text ↔ '\x00' ∉ text := by
  rw [cstring, List.takeWhile_eq_self_iff]
  constructor
  · intro h hmem
    exact of_decide_eq_true (h _ hmem) rfl
  · intro h c hc
    apply decide_eq_true
    rintro rfl
    exact h hc

/-! ### The query -/

theorem count_comment : (comment requestId).count '?' = requestId.count '?' := by
  simp [comment, commentOpening_eq, commentClosing_eq]

/-- What the query of an accepted id comes to: a defect if the id has a placeholder. -/
theorem dbConnQuery_secure (db : DbFormat) (hsecure : isSecureString requestId = true)
    {query : Text} (hcount : query.count '?' = args.length) (hargs : args ≠ []) :
    dbConnQuery db .ok query args requestId =
      if '?' ∈ requestId then .indexDefect
      else .statement (cstring (comment requestId ++ placedFrom db.quote args 0 query)) := by
  have hformat : db.format (comment requestId ++ query) args =
      if 0 + (comment requestId ++ query).count '?' ≤ args.length then
        some (placedFrom db.quote args 0 (comment requestId ++ query)) else none := by
    rw [db.format_args _ _ hargs, ← substitute_drop _ 0 (Nat.zero_le _), List.drop_zero]
  rw [dbConnQuery, if_neg (by rw [hsecure]; decide), sendQuery, hformat, List.count_append,
    count_comment, hcount]
  by_cases hmark : '?' ∈ requestId
  · have hpos : 0 < requestId.count '?' := List.count_pos_iff.mpr hmark
    rw [if_neg (by omega), if_pos hmark]
  · have hcomment : '?' ∉ comment requestId := by
      rw [← List.count_eq_zero, count_comment, List.count_eq_zero]
      exact hmark
    rw [List.count_eq_zero.mpr hmark, if_pos (by omega), if_neg hmark,
      placedFrom_append hcomment]

theorem zero_not_mem_comment (hsecure : isSecureString requestId = true) :
    '\x00' ∉ comment requestId := by
  have hid : '\x00' ∉ requestId := not_mem_of_secure hsecure (by decide)
  simp [comment, commentOpening_eq, commentClosing_eq, hid]

/-- For an accepted id, a query with as many placeholders as there are arguments, and at least one
argument, the server gets what it should exactly if the id has no question mark (and neither the
query nor a quoted argument has a zero character, at which the statement would be cut). -/
theorem sends_claimed_iff (db : DbFormat) (requestId query : Text) (args : List Text)
    (hsecure : isSecureString requestId = true) (hcount : query.count '?' = args.length)
    (hargs : 1 ≤ args.length) :
    SendsAsClaimed db query args requestId ↔
      '?' ∉ requestId ∧ '\x00' ∉ query ∧ ∀ arg ∈ args, '\x00' ∉ db.quote arg := by
  have hne : args ≠ [] := List.ne_nil_of_length_pos hargs
  have hzero : '\x00' ∈ placedFrom db.quote args 0 query ↔
      '\x00' ∈ query ∨ ∃ arg ∈ args.drop 0, '\x00' ∈ db.quote arg :=
    mem_placedFrom (by decide) query 0 ((Nat.zero_add _).trans hcount)
  rw [List.drop_zero] at hzero
  unfold SendsAsClaimed
  simp only
  rw [dbConnQuery_secure db hsecure hcount hne]
  by_cases hmark : '?' ∈ requestId
  · rw [if_pos hmark]
    simp [hmark]
  · have hcut : cstring (comment requestId ++ placedFrom db.quote args 0 query) =
        comment requestId ++ placedFrom db.quote args 0 query ↔
          '\x00' ∉ query ∧ ∀ arg ∈ args, '\x00' ∉ db.quote arg := by
      rw [cstring_eq_self_iff, List.mem_append, hzero]
      have := zero_not_mem_comment hsecure
      push Not
      tauto
    rw [if_neg hmark, Outcome.statement.injEq, hcut, and_iff_left
      (afterFirstComment_comment hsecure _)]
    exact (and_iff_right hmark).symm

/-- An argument in single quotes, with the quotes in it doubled and zero characters escaped. -/
def dbQuote (arg : Text) : Text :=
  '\'' :: arg.flatMap (fun c =>
    if c = '\'' then ['\'', '\''] else if c = '\x00' then ['\\', '0'] else [c]) ++ ['\'']

/-- A `dbFormat` that quotes in this way. -/
def quotedFormat : DbFormat where
  quote := dbQuote
  format text args := if args = [] then some text else substitute dbQuote text args
  format_nil := fun _ => if_pos rfl
  format_args := fun _ _ h => if_neg h

/-- The id `r1` before the query `id = ?`. -/
theorem sends_claimed_r1 :
    SendsAsClaimed quotedFormat ['i', 'd', '=', '?'] [['7']] ['r', '1'] := by
  have h := sends_claimed_iff quotedFormat ['r', '1'] ['i', 'd', '=', '?'] [['7']]
    (by decide +kernel) (by decide) (by decide)
  exact h.mpr (by decide)

/-- The id `r?` is accepted, takes the argument of the query `id = ?` and leaves it without. -/
theorem questionMark_defect :
    isSecureString ['r', '?'] = true ∧
      dbConnQuery quotedFormat .ok ['i', 'd', '=', '?'] [['7']] ['r', '?'] = .indexDefect ∧
      ¬ SendsAsClaimed quotedFormat ['i', 'd', '=', '?'] [['7']] ['r', '?'] := by
  have hdefect : dbConnQuery quotedFormat .ok ['i', 'd', '=', '?'] [['7']] ['r', '?'] =
      .indexDefect := by decide +kernel
  refine ⟨by decide +kernel, hdefect, ?_⟩
  rintro ⟨hsent, _⟩
  rw [hdefect] at hsent
  cases hsent

end LogosDelivery.Archive.Postgres
