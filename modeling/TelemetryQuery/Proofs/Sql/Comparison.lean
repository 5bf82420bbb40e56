import TelemetryQuery.Proofs.Filter.ValueText
import TelemetryQuery.Sql.Statement
/- The comparison of a name with a text, written in SQL and read back. -/
namespace TelemetryQuery.Sql

open TelemetryQuery.Filter (doubleQuotes doubleQuotes_other)

variable {c : Char} {tail : List Char} {words : List String} {tokens : List Token} {word : String}

/-- Words that have a meaning of their own where a name may stand. -/
def nonNames : List String :=
  ["TRUE", "FALSE", "NULL", "DISTINCT", "ALL"] ++ reservedWords ++ timeWords

/-- A word that may be a name without quotes. -/
structure IsIdentifier (word : String) : Prop where
  shape : ∃ c tail, word.toList = c :: tail ∧ startsWord c = true ∧
    ∀ d ∈ tail, continuesWord d = true
  free : Text.upper word ∉ nonNames

def literal (text : String) : String :=
  String.ofList ('\'' :: doubleQuotes text.toList ++ ['\''])

/-- The tokens of a name whose parts have dots between them. -/
def nameTokens : List String → List Token
  | [] => []
  | [word] => [.word ⟨word, none⟩]
  | word :: rest => .word ⟨word, none⟩ :: .symbol "." :: nameTokens rest

section Tokens

variable (afterWord : Bool) {rest : List Char} {more : List Token}

theorem tokens?_token {text : List Char} {token : Token}
    (step : step? afterWord text = some (some token, rest)) (shorter : rest.length < text.length)
    (later : tokens? token.isWord rest = some more) :
    tokens? afterWord text = some (token :: more) := by
  have some : text ≠ [] := by
    rintro rfl
    simp at shorter
  rw [tokens?, if_neg (by simpa using some), step]
  simp [shorter, later]

theorem tokens?_blank (later : tokens? false rest = some more) :
    tokens? afterWord (' ' :: rest) = some more := by
  have step : step? afterWord (' ' :: rest) = some (none, rest) := rfl
  rw [tokens?, step]
  simp [later]

/-- What can stand after a word: neither more of it nor a quote. -/
def EndsWord (rest : List Char) : Prop :=
  ∀ d ∈ rest.head?, continuesWord d = false ∧ d ≠ '\''

theorem ne_of_startsWord {mark : Char} (starts : startsWord c = true)
    (other : startsWord mark = false) : c ≠ mark := by
  rintro rfl
  rw [starts] at other
  cases other

theorem step?_visible (visible : Text.isBlank c = false) (dash : c ≠ '-') (slash : c ≠ '/') :
    step? afterWord (c :: rest) =
      (firstToken? afterWord (c :: rest)).map fun found => (some found.1, found.2) := by
  unfold step?
  split
  · next same => exact absurd (List.cons.inj same).1 dash
  · next same => exact absurd (List.cons.inj same).1 slash
  · next same =>
    obtain ⟨rfl, rfl⟩ := List.cons.inj same
    rw [visible, if_neg Bool.false_ne_true]
  · next same => cases same

theorem span_word (continues : ∀ d ∈ tail, continuesWord d = true) (ends : EndsWord rest) :
    (tail ++ rest).takeWhile continuesWord = tail ∧
      (tail ++ rest).dropWhile continuesWord = rest := by
  rw [List.takeWhile_append_of_pos continues, List.dropWhile_append_of_pos continues]
  cases rest with
  | nil => simp
  | cons d rest =>
    have stops := (ends d rfl).1
    simp [stops]

theorem step?_word (starts : startsWord c = true) (continues : ∀ d ∈ tail, continuesWord d = true)
    (ends : EndsWord rest) :
    step? afterWord (c :: tail ++ rest) =
      some (some (.word ⟨String.ofList (c :: tail), none⟩), rest) := by
  have visible : Text.isBlank c = false := Filter.isBlank_of_class (by decide +kernel) starts
  have unquoted (more : List Char) : tail ++ rest ≠ '\'' :: more := by
    intro quote
    cases tail with
    | nil => exact (ends '\'' (by rw [← List.nil_append rest, quote]; rfl)).2 rfl
    | cons d tail =>
      obtain rfl := (List.cons.inj quote).1
      exact absurd (continues _ List.mem_cons_self) (by decide)
  have other {mark : Char} (other : startsWord mark = false) : c ≠ mark :=
    ne_of_startsWord starts other
  have name : (c = '"' || c = '`') = false := by
    rw [decide_eq_false (other rfl), decide_eq_false (other rfl), Bool.or_false]
  obtain ⟨taken, left⟩ := span_word continues ends
  rw [List.cons_append, step?_visible _ visible (other rfl) (other rfl), firstToken?.eq_def]
  split
  · next same => cases same
  · next same => exact absurd (List.cons.inj same).1 (other rfl)
  · next same => exact absurd (List.cons.inj same).2 (unquoted _)
  · next same => exact absurd (List.cons.inj same).2 (unquoted _)
  · next same => exact absurd (List.cons.inj same).2 (unquoted _)
  · next same => exact absurd (List.cons.inj same).2 (unquoted _)
  · next same => exact absurd (List.cons.inj same).1 (other rfl)
  · next same => exact absurd (List.cons.inj same).1 (other rfl)
  · next same => exact absurd (List.cons.inj same).1 (other rfl)
  · next same =>
    obtain ⟨rfl, rfl⟩ := List.cons.inj same
    rw [name, if_neg Bool.false_ne_true, if_pos starts, taken, left]
    rfl

theorem quotedText?_doubled {text : List Char} (plain : '\\' ∉ text)
    (ends : rest.head? ≠ some '\'') :
    quotedText? (doubleQuotes text ++ '\'' :: rest) = some (text, rest) := by
  induction text with
  | nil =>
    change quotedText? ('\'' :: rest) = _
    rw [quotedText?]
    rintro more rfl
    exact ends rfl
  | cons c text ih =>
    obtain ⟨slash, later⟩ := not_or.1 (mt List.mem_cons.2 plain)
    by_cases quote : c = '\''
    · subst quote
      change quotedText? ('\'' :: '\'' :: (doubleQuotes text ++ '\'' :: rest)) = _
      rw [quotedText?, ih later]
      rfl
    · rw [doubleQuotes_other quote, List.cons_append, quotedText?, ih later]
      · rfl
      · exact fun _ same => absurd same quote
      · exact fun same => absurd same quote
      · exact fun _ _ same => absurd same.symm slash
      · exact fun same => absurd same.symm slash

theorem step?_text {text : List Char} (plain : '\\' ∉ text) (ends : rest.head? ≠ some '\'') :
    step? afterWord ('\'' :: doubleQuotes text ++ '\'' :: rest) =
      some (some (.text (String.ofList text)), rest) := by
  rw [List.cons_append, step?_visible _ rfl (by decide) (by decide), firstToken?,
    quotedText?_doubled plain ends]
  rfl

theorem isDigit_of_startsWord (starts : startsWord c = true) : c.isDigit = false := by
  delta startsWord Char.isAlpha Char.isUpper Char.isLower at starts
  simp only [Char.isDigit, Bool.or_eq_true, Bool.and_eq_true, Bool.and_eq_false_iff,
    decide_eq_true_eq, decide_eq_false_iff_not, ge_iff_le, UInt32.le_iff_toNat_le] at starts ⊢
  rcases starts with (upper | lower) | rfl
  · right
    have := upper.1
    simp at this ⊢
    omega
  · right
    have := lower.1
    simp at this ⊢
    omega
  · right
    decide

theorem numberPart_dot (starts : startsWord c = true) (other : c ≠ '_') :
    numberPart ('.' :: c :: rest) = [] := by
  have whole : digits Char.isDigit ('.' :: c :: rest) = [] := rfl
  have fraction : digits Char.isDigit (c :: rest) = [] := by
    rw [digits, isDigit_of_startsWord starts]
    · rfl
    · exact fun _ _ same => absurd same other
  simp [numberPart, whole, fraction]

theorem step?_dot (starts : startsWord c = true) :
    step? true ('.' :: c :: rest) = some (some (.symbol "."), c :: rest) := by
  by_cases other : c = '_'
  · subst other
    rfl
  · have first : firstToken? true ('.' :: c :: rest) = some (numberToken ('.' :: c :: rest)) := by
      rw [firstToken?]
      · rfl
      · exact fun same => absurd same (by decide)
      · exact fun _ same => absurd same (by decide)
      · exact fun _ same => absurd same (by decide)
      · exact fun _ same => absurd same (by decide)
      · exact fun _ same => absurd same (by decide)
      · exact fun _ _ same => absurd (List.cons.inj same).1 other
      · exact fun same => absurd same (by decide)
      · exact fun same => absurd same (by decide)
    rw [step?_visible _ rfl (by decide) (by decide), first, numberToken]
    · rw [numberPart_dot starts other]
      rfl
    · simp

theorem tokens?_dot (starts : startsWord c = true) (later : tokens? false (c :: rest) = some more) :
    tokens? true ('.' :: c :: rest) = some (.symbol "." :: more) :=
  tokens?_token _ (step?_dot starts) (by simp) later

theorem tokens?_opening (later : tokens? false rest = some more) :
    tokens? afterWord ('(' :: rest) = some (.symbol "(" :: more) := by
  have step : step? afterWord ('(' :: rest) = some (some (.symbol "("), rest) := rfl
  exact tokens?_token _ step (by simp) later

theorem tokens?_equals (later : tokens? false rest = some more) :
    tokens? afterWord ('=' :: ' ' :: rest) = some (.symbol "=" :: more) := by
  have step : step? afterWord ('=' :: ' ' :: rest) = some (some (.symbol "="), ' ' :: rest) := rfl
  exact tokens?_token _ step (by simp) (tokens?_blank _ later)

theorem tokens?_closing : tokens? afterWord [')'] = some [.symbol ")"] := by
  have step : step? afterWord [')'] = some (some (.symbol ")"), []) := rfl
  exact tokens?_token _ step (by simp) (by rw [tokens?]; rfl)

theorem tokens?_word (identifier : IsIdentifier word) (ends : EndsWord rest)
    (later : tokens? true rest = some more) :
    tokens? afterWord (word.toList ++ rest) = some (.word ⟨word, none⟩ :: more) := by
  obtain ⟨c, tail, chars, starts, continues⟩ := identifier.shape
  have step := step?_word afterWord starts continues ends
  rw [← chars, String.ofList_toList] at step
  have shorter : rest.length < (word.toList ++ rest).length := by
    rw [chars, List.length_append, List.length_cons]
    omega
  exact tokens?_token _ step shorter later

theorem joinWith_starts (chars : word.toList = c :: tail) (words : List String) :
    ∃ left, (Text.joinWith "." (word :: words)).toList = c :: left := by
  cases words with
  | nil => exact ⟨tail, chars⟩
  | cons next words => simp [Text.joinWith, chars]

theorem tokens?_name (some : words ≠ []) (identifiers : ∀ word ∈ words, IsIdentifier word)
    (ends : EndsWord rest) (later : tokens? true rest = .some more) :
    tokens? afterWord ((Text.joinWith "." words).toList ++ rest) =
      .some (nameTokens words ++ more) := by
  induction words generalizing afterWord with
  | nil => exact absurd rfl some
  | cons word words ih =>
    have identifier := identifiers word List.mem_cons_self
    cases words with
    | nil => exact tokens?_word _ identifier ends later
    | cons next words =>
      have others := fun other among => identifiers other (List.mem_cons_of_mem _ among)
      obtain ⟨c, tail, chars, starts, -⟩ := (others next List.mem_cons_self).shape
      obtain ⟨left, begins⟩ := joinWith_starts chars words
      have lexed := ih false (by simp) others
      rw [begins, List.cons_append] at lexed
      have dotted := tokens?_dot starts lexed
      have whole : (Text.joinWith "." (word :: next :: words)).toList ++ rest =
          word.toList ++ '.' :: c :: (left ++ rest) := by
        rw [Filter.joinWith_cons _ _ (by simp), String.toList_append, String.toList_append, begins]
        simp
      rw [whole]
      exact tokens?_word _ identifier (by rintro _ ⟨⟩; decide) dotted

end Tokens

/-- The tokens of the comparison of a name with a text, as the one argument of a call. -/
def comparedTokens (function : String) (words : List String) (text : String) : List Token :=
  .word ⟨function, none⟩ :: .symbol "(" ::
    (nameTokens words ++ [Token.symbol "=", .text text, .symbol ")"])

/-- A call on the comparison of a name with a text, as it is written. -/
def compared (function : String) (words : List String) (text : String) : String :=
  function ++ "(" ++ Text.joinWith "." words ++ " = " ++ literal text ++ ")"

theorem tokens?_compared {function : String} {text : String} (called : IsIdentifier function)
    (some : words ≠ []) (identifiers : ∀ word ∈ words, IsIdentifier word)
    (plain : '\\' ∉ text.toList) :
    tokens? false (compared function words text).toList =
      .some (comparedTokens function words text) := by
  have chars : (compared function words text).toList = function.toList ++
      '(' :: ((Text.joinWith "." words).toList ++
        ' ' :: '=' :: ' ' :: ('\'' :: doubleQuotes text.toList ++ ['\'', ')'])) := by
    simp [compared, literal]
  have value : tokens? false ('\'' :: doubleQuotes text.toList ++ ['\'', ')']) =
      .some [.text text, .symbol ")"] := by
    have step := step?_text false plain (by simp : [')'].head? ≠ .some '\'')
    rw [String.ofList_toList] at step
    exact tokens?_token _ step (by simp) (tokens?_closing _)
  rw [chars]
  refine tokens?_word _ called (by rintro _ ⟨⟩; decide) (tokens?_opening _ ?_)
  refine tokens?_name _ some identifiers (by rintro _ ⟨⟩; decide) (tokens?_blank _ ?_)
  exact tokens?_equals _ value

def comparison (words : List String) (text : String) : Expr :=
  .binary (.name (words.map (⟨·, none⟩))) .equal (.text text)

section Reading

variable {depth : Nat} {mark : String} {rest : List Token}

/-- The symbols after the parts of a name that is compared. -/
def comparisonMarks : List String :=
  [".", "="]

theorem readExpr_mark (within : mark ∈ comparisonMarks) (depth level : Nat) (rest : List Token) :
    readExpr depth level (.symbol mark :: rest) = none := by
  cases depth with
  | zero => rfl
  | succ depth =>
    simp only [comparisonMarks, List.mem_cons, List.not_mem_nil, or_false] at within
    rcases within with rfl | rfl <;> rfl

theorem skipSymbol?_mark (within : mark ∈ comparisonMarks) :
    skipSymbol? "(" (.symbol mark :: rest) = none := by
  simp only [comparisonMarks, List.mem_cons, List.not_mem_nil, or_false] at within
  rcases within with rfl | rfl <;> rfl

/-- A keyword before such a symbol introduces nothing, unless it is a value of its own. -/
theorem keywordExpr_mark (within : mark ∈ comparisonMarks) {keyword : String}
    (free : keyword ∉ nonNames) :
    keywordExpr (readExpr depth) keyword (.symbol mark :: rest) = none ∨
      keywordExpr (readExpr depth) keyword (.symbol mark :: rest) = some none := by
  have unread := readExpr_mark within depth
  have unopened : skipSymbol? "(" (.symbol mark :: rest) = none := skipSymbol?_mark within
  have wordless : nextKeyword? (.symbol mark :: rest) = none := rfl
  unfold keywordExpr
  split
  · simp [nonNames] at free
  · simp [nonNames] at free
  · simp [nonNames] at free
  · simp [wordless, unread]
  · simp [caseExpr, caseSubject, skipKeywords?, wordless, expression, unread]
  · simp [rounding, unopened]
  · simp [rounding, unopened]
  · simp [slice, unopened]
  · simp [slice, unopened]
  · simp [trimmed, unopened]
  · simp [cast, unopened]
  · exact .inr rfl
  · exact .inr rfl
  · exact .inl rfl

/-- A word before such a symbol is a name. -/
theorem wordExpr_mark (within : mark ∈ comparisonMarks) (free : Text.upper word ∉ nonNames) :
    wordExpr (readExpr depth) ⟨word, none⟩ (.symbol mark :: rest) =
      some (.name [⟨word, none⟩], .symbol mark :: rest) := by
  have timeless : Text.upper word ∉ timeWords := fun mem =>
    free (List.mem_append_right _ mem)
  have unreserved : Text.upper word ∉ reservedWords := fun mem =>
    free (List.mem_append_left _ (List.mem_append_right _ mem))
  have name : named (readExpr depth) ⟨word, none⟩ (.symbol mark :: rest) =
      some (.name [⟨word, none⟩], .symbol mark :: rest) := by
    have plain : mark ≠ "(" ∧ mark ≠ "->" := by
      simp only [comparisonMarks, List.mem_cons, List.not_mem_nil, or_false] at within
      rcases within with rfl | rfl <;> decide
    rw [named, if_neg]
    · simpa [Token.keyword?] using timeless
    · exact fun _ same => absurd (Token.symbol.inj (List.cons.inj same).1) plain.1
    · exact fun _ same => absurd (Token.symbol.inj (List.cons.inj same).1) plain.2
  have keyword : (Token.word ⟨word, none⟩).keyword? = some (Text.upper word) := rfl
  rw [wordExpr, keyword]
  dsimp only
  rcases keywordExpr_mark within free with unmatched | unmatched
  · rw [unmatched]
    exact name
  · rw [unmatched]
    dsimp only
    rw [if_neg (by simpa using unreserved)]
    exact name

theorem accesses_end (dotless : ∀ rest, tokens ≠ .symbol "." :: rest)
    (bare : ∀ rest, tokens ≠ .symbol "[" :: rest) (root : Expr) :
    accesses (readExpr depth) root tokens = some (root, tokens) := by
  rw [accesses]
  · exact dotless
  · exact bare

theorem operations_end {level : Nat} (weak : nextPrecedence tokens ≤ level) (left : Expr) :
    operations (readExpr depth) level left tokens = some (left, tokens) := by
  rw [operations, if_pos weak]

theorem nextPrecedence_equals : nextPrecedence (.symbol "=" :: rest) = 20 :=
  rfl

theorem nameTokens_cons (word : String) (words : List String) (rest : List Token) :
    ∃ more, nameTokens (word :: words) ++ rest = .word ⟨word, none⟩ :: more := by
  cases words <;> exact ⟨_, rfl⟩

theorem accesses_dot (root : Expr) {part : Expr} {more : List Token}
    (starts : tokens = .word ⟨word, none⟩ :: more)
    (read : readExpr depth 100 tokens = some (part, .symbol "=" :: rest))
    (shorter : rest.length < tokens.length) :
    accesses (readExpr depth) root (.symbol "." :: tokens) =
      some (accessPart root part, .symbol "=" :: rest) := by
  have after : afterDot (readExpr depth) tokens = some (part, .symbol "=" :: rest) := by
    rw [starts, afterDot, ← starts, read]
    exact fun _ _ same => Token.noConfusion (List.cons.inj same).1
  rw [accesses, if_neg (by simp [starts]), after]
  simp [accesses_end, Nat.succ_le_of_lt shorter]

/-- A name that is compared is read whole. Each of its parts is read inside the one before. -/
theorem readExpr_name (some : words ≠ []) (free : ∀ word ∈ words, Text.upper word ∉ nonNames)
    (short : words.length ≤ depth + 1) (level : Nat) (rest : List Token) :
    readExpr (depth + 1) level (nameTokens words ++ .symbol "=" :: rest) =
      operations (readExpr depth) level (.name (words.map (⟨·, none⟩))) (.symbol "=" :: rest) := by
  induction words generalizing depth level with
  | nil => exact absurd rfl some
  | cons word words ih =>
    have first := free word List.mem_cons_self
    cases words with
    | nil =>
      have within : "=" ∈ comparisonMarks := by decide
      rw [nameTokens, readExpr, List.singleton_append, primary, wordExpr_mark within first]
      simp [accesses_end]
    | cons next words =>
      have within : "." ∈ comparisonMarks := by decide
      obtain ⟨depth, rfl⟩ : ∃ shallow, depth = shallow + 1 :=
        ⟨depth - 1, by simp at short; omega⟩
      have inner := ih (by simp) (fun other among => free other (List.mem_cons_of_mem _ among))
        (Nat.le_of_succ_le_succ short) 100
      rw [operations_end (by rw [nextPrecedence_equals]; decide)] at inner
      rw [nameTokens, readExpr, List.cons_append, primary, List.cons_append,
        wordExpr_mark within first]
      · obtain ⟨more, starts⟩ := nameTokens_cons next words (.symbol "=" :: rest)
        have dotted := accesses_dot (.name [⟨word, none⟩]) starts inner (by simp; omega)
        simp [dotted, accessPart]
      · simp

/-- The comparison of a name with a text is read whole. -/
theorem readExpr_comparison (some : words ≠ [])
    (free : ∀ word ∈ words, Text.upper word ∉ nonNames) (short : words.length ≤ depth + 2)
    (text : String) :
    readExpr (depth + 2) 0 (nameTokens words ++ [Token.symbol "=", .text text, .symbol ")"]) =
      .some (comparison words text, [.symbol ")"]) := by
  have closing (level : Nat) : nextPrecedence [.symbol ")"] ≤ level := Nat.zero_le level
  have value : readExpr (depth + 1) 20 [.text text, .symbol ")"] =
      .some (.text text, [.symbol ")"]) := by
    rw [readExpr, primary]
    simp [accesses_end, operations_end (closing 20)]
  have operation (left : Expr) : operation (readExpr (depth + 1)) left
      [.symbol "=", .text text, .symbol ")"] =
        .some (.binary left .equal (.text text), [.symbol ")"]) := by
    have right := congrArg (Option.map fun read => (Expr.binary left .equal read.1, read.2)) value
    exact right
  rw [readExpr_name some free short, operations, nextPrecedence_equals, if_neg (by decide),
    operation]
  simp [operations_end (closing 0), comparison]

theorem starOf_name (parts : List Ident) (some : words ≠ []) (rest : List Token) :
    starOf parts (.symbol "." :: (nameTokens words ++ .symbol "=" :: rest)) = .some none := by
  induction words generalizing parts with
  | nil => exact absurd rfl some
  | cons word words ih =>
    cases words with
    | nil => rfl
    | cons next words => exact ih (parts ++ [⟨word, none⟩]) (by simp)

theorem argument_comparison (some : words ≠ [])
    (free : ∀ word ∈ words, Text.upper word ∉ nonNames) (short : words.length ≤ depth + 2)
    (text : String) :
    argument (readExpr (depth + 2))
        (nameTokens words ++ [Token.symbol "=", .text text, .symbol ")"]) =
      .some (comparison words text, [.symbol ")"]) := by
  have read := readExpr_comparison some free short text
  match words, some with
  | [word], _ => exact read
  | word :: next :: words, _ =>
    have star := starOf_name [⟨word, none⟩] (List.cons_ne_nil next words)
      [.text text, .symbol ")"]
    simp only [nameTokens, List.cons_append] at read ⊢
    rw [argument, orStar]
    · simp only [identOf?, star]
      exact read
    · simp
    · simp

theorem call_comparison (function : List Ident) (some : words ≠ [])
    (free : ∀ word ∈ words, Text.upper word ∉ nonNames) (short : words.length ≤ depth + 2)
    (text : String) :
    call (readExpr (depth + 2)) function
        (nameTokens words ++ [Token.symbol "=", .text text, .symbol ")"]) =
      .some (.call function "" "" [comparison words text], []) := by
  have item := argument_comparison some free short text
  have listed : listOf (argument (readExpr (depth + 2)))
      (nameTokens words ++ [Token.symbol "=", .text text, .symbol ")"]) =
        .some ([comparison words text], [.symbol ")"]) := by
    rw [listOf, item]
    rfl
  obtain ⟨word, words, rfl⟩ := List.exists_cons_of_ne_nil some
  obtain ⟨more, starts⟩ := nameTokens_cons word words [.symbol "=", .text text, .symbol ")"]
  have first := free word List.mem_cons_self
  have arguments : arguments (readExpr (depth + 2))
      (nameTokens (word :: words) ++ [Token.symbol "=", .text text, .symbol ")"]) =
        .some ("", [comparison (word :: words) text], []) := by
    rw [starts] at listed ⊢
    have keyword : nextKeyword? (.word ⟨word, none⟩ :: more) = .some (Text.upper word) := rfl
    have unclosed : skipSymbol? ")" (.word ⟨word, none⟩ :: more) = none := rfl
    rw [arguments, unclosed, keyword]
    dsimp only
    split
    · next same => simp [nonNames, Option.some.inj same] at first
    · next same => simp [nonNames, Option.some.inj same] at first
    · rw [listed]
      rfl
  rw [call, arguments]
  rfl

end Reading

/-- A selected call with nothing after it. -/
theorem selectItem?_call {name : List Ident} {parameters mode : String} {arguments : List Expr}
    (read : orStar (readExpr depthLimit) tokens = some (.call name parameters mode arguments, [])) :
    selectItem? tokens = some (some (.call name parameters mode arguments), []) := by
  rw [selectItem?, read]
  rfl

/-- A statement that selects one expression and nothing else. -/
theorem statements?_select {expr : Expr} {keyword : String}
    (item : selectItem? tokens = some (some expr, []))
    (first : nextKeyword? tokens = some keyword) (other : keyword ∉ ["DISTINCT", "ALL"]) :
    statements? (.word ⟨"SELECT", none⟩ :: tokens) = some [some expr] := by
  have kept : skipRemoval? (.word ⟨"SELECT", none⟩ :: tokens) = none := rfl
  have listed : listOf selectItem? tokens = some ([some expr], []) := by
    rw [listOf, item]
    rfl
  have selected : selection? (.word ⟨"SELECT", none⟩ :: tokens) = some ([some expr], []) := by
    have skipped : skipKeywords? ["SELECT"] (.word ⟨"SELECT", none⟩ :: tokens) = some tokens := rfl
    rw [selection?, skipped]
    dsimp only [Option.bind_eq_bind, Option.bind_some]
    rw [first]
    split
    · next same => simp [Option.some.inj same] at other
    · next same => simp [Option.some.inj same] at other
    · rw [listed]
      rfl
  have ended : skipUnited? [] = some (false, []) := by
    rw [skipUnited?]
    rfl
  have statement : statement? (.word ⟨"SELECT", none⟩ :: tokens) = some (some expr, []) := by
    rw [statement?, kept]
    dsimp only
    rw [selected]
    dsimp only [Option.bind_eq_bind, Option.bind_some]
    rw [ended]
    rfl
  rw [statements?]
  · rw [statement]
    rfl
  · simp

/-- A call of a function on the comparison of a name with a text is read as it is written. -/
theorem read_compared {function : String} (called : IsIdentifier function)
    (plainCall : ∀ depth tokens, keywordExpr (readExpr depth) (Text.upper function) tokens = none)
    (some : words ≠ []) (identifiers : ∀ word ∈ words, IsIdentifier word)
    (short : words.length < depthLimit) {text : String} (plain : '\\' ∉ text.toList) :
    read (compared function words text) =
      .ok (.call [⟨function, none⟩] "" "" [comparison words text]) := by
  have free : ∀ word ∈ words, Text.upper word ∉ nonNames := fun word mem =>
    (identifiers word mem).free
  have made : call (readExpr (45 + 2)) [⟨function, none⟩]
      (nameTokens words ++ [Token.symbol "=", .text text, .symbol ")"]) =
        .some (.call [⟨function, none⟩] "" "" [comparison words text], []) :=
    call_comparison _ some free (Nat.le_of_lt_succ short) text
  have expr : orStar (readExpr depthLimit) (comparedTokens function words text) =
      .some (.call [⟨function, none⟩] "" "" [comparison words text], []) := by
    change readExpr (45 + 2 + 1) 0 (comparedTokens function words text) = _
    have keyword : (Token.word ⟨function, none⟩).keyword? = .some (Text.upper function) := rfl
    have weak : nextPrecedence [] ≤ 0 := Nat.zero_le 0
    rw [comparedTokens, readExpr, primary, wordExpr, keyword]
    dsimp only
    rw [plainCall]
    dsimp only
    rw [named, made]
    simp [accesses_end, operations_end weak]
  have keyword : nextKeyword? (comparedTokens function words text) =
      .some (Text.upper function) := rfl
  have other : Text.upper function ∉ ["DISTINCT", "ALL"] := fun mem =>
    called.free (List.mem_append_left _ (List.mem_append_left _
      (List.mem_append_right ["TRUE", "FALSE", "NULL"] mem)))
  rw [read, tokens?_compared called some identifiers plain]
  dsimp only [Option.bind_eq_bind, Option.bind_some]
  rw [statements?_select (selectItem?_call expr) keyword other]

end TelemetryQuery.Sql
