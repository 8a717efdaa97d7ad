import Ici.Analysis.CppCognitive

/-! # Reading tokens off a text

A text spelled from tokens and other characters gives back its tokens when no two neighbours run into one
another; and a text without lambda bodies and directives is read as it stands. -/

namespace Ici.CppCognitive

open Option List Raising Python CppText Token
open Core (WordCodes)

/-! ## Spelling -/

inductive Lexeme where
  | plain (c : CodePoint)
  | token (t : Token)

namespace Lexeme

def spelling : Lexeme → Text
  | plain c => [c]
  | token t => t.spelling

def token? : Lexeme → Option Token
  | plain _ => none
  | token t => some t

/-- A name is a word and none the metric knows; any other character is no sign and begins no word. -/
def isProper : Lexeme → Bool
  | plain c => !isWordStart c && (ofSign c).isNone
  | token (.name word) =>
    word.head?.any isWordStart && word.tail.all isWordPart && ofWord word = .name word
  | token _ => true

def stops : Lexeme → CodePoint → Bool
  | plain c, d => (ofPair c d).isNone
  | token (.keyword _), d | token (.name _), d => !isWordPart d
  | token t, d => t.spelling.length ≠ 1 || t.spelling.head?.all fun c => (ofPair c d).isNone

end Lexeme

def spelled (lexemes : List Lexeme) : Text := lexemes.flatMap Lexeme.spelling

def wellSpaced : List Lexeme → Bool
  | [] => true
  | lexeme :: rest => lexeme.isProper && (spelled rest).head?.all lexeme.stops && wellSpaced rest

/-- The text is the tokens with anything between them that is no token and joins none. -/
def Renders (t : Text) (tokens : List Token) : Prop :=
  ∃ lexemes, wellSpaced lexemes = true ∧ t = spelled lexemes ∧ tokens = lexemes.filterMap Lexeme.token?

/-! ## Steps of the scan -/

variable {word t : Text} {c : CodePoint} {token : Token} {words : WordCodes}

theorem tokensFrom_wordPart (h : word ≠ [] ∧ isWordPart c) (rest : Text) :
    tokensFrom word (c :: rest) = tokensFrom (word ++ [c]) rest := by
  cases rest <;> simp [tokensFrom, h.1, h.2]

theorem tokensFrom_wordEnd (h : ¬(word ≠ [] ∧ isWordPart c)) (rest : Text) :
    tokensFrom word (c :: rest) = wordToken word ++ tokensFrom [] (c :: rest) := by
  cases rest <;> simp [tokensFrom, wordToken, h]

theorem tokensFrom_pair {d : CodePoint} (h : ofPair c d = some token) (rest : Text) :
    tokensFrom [] (c :: d :: rest) = token :: tokensFrom [] rest := by
  simp [tokensFrom, wordToken, h]

theorem tokensFrom_start (hStart : isWordStart c) {rest : Text}
    (hPair : ∀ d ∈ rest.head?, ofPair c d = none) : tokensFrom [] (c :: rest) = tokensFrom [c] rest := by
  cases rest with
  | nil => simp [tokensFrom, wordToken, hStart]
  | cons d rest => simp [tokensFrom, wordToken, hStart, hPair d rfl]

theorem tokensFrom_other (hStart : isWordStart c = false) {rest : Text}
    (hPair : ∀ d ∈ rest.head?, ofPair c d = none) :
    tokensFrom [] (c :: rest) = (ofSign c).toList ++ tokensFrom [] rest := by
  cases rest with
  | nil => simp [tokensFrom, wordToken, hStart]
  | cons d rest => simp [tokensFrom, wordToken, hStart, hPair d rfl]

theorem tokensFrom_word {more : Text} (hWord : word ≠ []) (hMore : more.all isWordPart) (rest : Text) :
    tokensFrom word (more ++ rest) = tokensFrom (word ++ more) rest := by
  induction more generalizing word with
  | nil => simp
  | cons c more ih =>
    simp only [all_cons, Bool.and_eq_true] at hMore
    rw [cons_append, tokensFrom_wordPart ⟨hWord, hMore.1⟩, ih (by simp) hMore.2]
    simp

theorem ofPair_wordStart (h : isWordStart c) (d : CodePoint) : ofPair c d = none := by
  rw [ofPair, find?_eq_none]
  intro token hToken hSpelling
  have hSpelled : token.spelling = [c, d] := by simpa using hSpelling
  have hHead : token.spelling.head? = some c := by rw [hSpelled]; rfl
  simp only [mem_cons, not_mem_nil, or_false] at hToken
  rcases hToken with rfl | rfl | rfl | rfl | rfl | rfl <;>
  · obtain rfl := some.inj hHead
    exact absurd h (by decide)

theorem isWordStart_sign (h : ofSign c = some token) : isWordStart c = false := by
  have hSpelling : token.spelling = [c] := by simpa using find?_some h
  have hToken := mem_of_find?_eq_some h
  have hHead : token.spelling.head? = some c := by rw [hSpelling]; rfl
  simp only [mem_cons, not_mem_nil, or_false] at hToken
  rcases hToken with rfl | rfl | rfl | rfl | rfl | rfl | rfl | rfl | rfl | rfl | rfl <;>
  · obtain rfl := some.inj hHead
    decide

theorem tokensFrom_spelledWord {more : Text} (hStart : isWordStart c)
    (hMore : more.all isWordPart) {rest : Text} (hStop : ∀ d ∈ rest.head?, isWordPart d = false) :
    tokensFrom [] (c :: (more ++ rest)) = .ofWord (c :: more) :: tokensFrom [] rest := by
  rw [tokensFrom_start hStart fun d _ => ofPair_wordStart hStart d,
    tokensFrom_word (cons_ne_nil _ _) hMore, singleton_append]
  cases rest with
  | nil => simp [tokensFrom, wordToken]
  | cons d rest =>
    have hEnd := hStop d rfl
    rw [tokensFrom_wordEnd (by simp [hEnd])]
    simp [wordToken]

theorem ofWord_keyword (word : Keyword) :
    ofWord word.spelling = .keyword word ∧ ∃ c rest, word.spelling = c :: rest ∧ isWordStart c ∧
      rest.all isWordPart := by
  cases word <;> exact ⟨by decide, _, _, rfl, by decide, by decide⟩

section

variable (h : token ∈ [braceOpen, .braceClose, .bracketOpen, .bracketClose, .parenOpen, .parenClose,
    .comma, .semicolon, .question, .colon, .bang])
include h

theorem sign_spelling : ∃ c, token.spelling = [c] ∧ ofSign c = some token ∧
      ∀ d, (Lexeme.token token).stops d → ofPair c d = none := by
  simp only [mem_cons, not_mem_nil, or_false] at h
  rcases h with rfl | rfl | rfl | rfl | rfl | rfl | rfl | rfl | rfl | rfl | rfl <;>
    exact ⟨_, rfl, by decide, fun _ hd => isNone_iff_eq_none.mp hd⟩

theorem tokensFrom_sign {rest : Text} (hStops : ∀ d ∈ rest.head?, (Lexeme.token token).stops d) :
    tokensFrom [] (token.spelling ++ rest) = token :: tokensFrom [] rest := by
  obtain ⟨c, hSpelling, hSign, hPair⟩ := sign_spelling h
  rw [hSpelling, singleton_append,
    tokensFrom_other (isWordStart_sign hSign) fun d hd => hPair d (hStops d hd), hSign]
  rfl

end

theorem tokensFrom_lexeme {lexeme : Lexeme} {rest : Text} (hProper : lexeme.isProper)
    (hStops : ∀ d ∈ rest.head?, lexeme.stops d) :
    tokensFrom [] (lexeme.spelling ++ rest) = lexeme.token?.toList ++ tokensFrom [] rest := by
  cases lexeme with
  | plain c =>
    simp only [Lexeme.isProper, Bool.and_eq_true, Bool.not_eq_true', isNone_iff_eq_none] at hProper
    have hOther := tokensFrom_other hProper.1 fun d hd => isNone_iff_eq_none.mp (hStops d hd)
    rwa [hProper.2] at hOther
  | token token =>
    cases token with
    | keyword word =>
      obtain ⟨hWord, c, more, hSpelling, hStart, hMore⟩ := ofWord_keyword word
      have hScan := tokensFrom_spelledWord hStart hMore fun d hd => Bool.not_eq_true' _ ▸ hStops d hd
      rw [← hSpelling, hWord] at hScan
      simpa [Lexeme.spelling, spelling, Lexeme.token?, hSpelling] using hScan
    | name word =>
      simp only [Lexeme.isProper, Bool.and_eq_true, decide_eq_true_eq] at hProper
      obtain ⟨⟨hHead, hMore⟩, hName⟩ := hProper
      obtain ⟨c, more, rfl⟩ : ∃ c more, word = c :: more := by
        cases word with
        | nil => cases hHead
        | cons c more => exact ⟨c, more, rfl⟩
      have hStart : isWordStart c := hHead
      have hScan := tokensFrom_spelledWord hStart hMore fun d hd => Bool.not_eq_true' _ ▸ hStops d hd
      rw [tail_cons, hName] at hScan
      exact hScan
    | both | either | scope | arrow | attributeOpen | attributeClose => exact tokensFrom_pair (by decide) rest
    | _ => exact tokensFrom_sign (by decide) hStops

theorem findTokens_of_renders {tokens : List Token} (h : Renders t tokens) : findTokens t = tokens := by
  obtain ⟨lexemes, hSpaced, rfl, rfl⟩ := h
  rw [findTokens]
  induction lexemes with
  | nil => rfl
  | cons lexeme rest ih =>
    simp only [wellSpaced, Bool.and_eq_true] at hSpaced
    obtain ⟨⟨hProper, hStops⟩, hRest⟩ := hSpaced
    have hText : spelled (lexeme :: rest) = lexeme.spelling ++ spelled rest := by simp [spelled]
    rw [hText, tokensFrom_lexeme hProper ((Option.all_eq_true _ _).mp hStops), ih hRest]
    cases lexeme <;> rfl

theorem blankRanges_nil (t : Text) : blankRanges [] t = t := by
  simp [blankRanges]

theorem keptLines_flatten (t : Text) : (keptLines t).flatten = t := by
  induction t with
  | nil => rfl
  | cons c rest ih =>
    rw [keptLines]
    split
    · simp [ih]
    · cases hLines : keptLines rest with
      | nil | cons line lines =>
        rw [hLines] at ih
        simp [← ih]

theorem maskDirectiveLines_eq {lines : List Text} (h : ∀ line ∈ lines, 0x23 ∉ line) :
    maskDirectiveLines false lines = lines.flatten := by
  induction lines with
  | nil => rfl
  | cons line lines ih =>
    obtain ⟨hLine, hLines⟩ := forall_mem_cons.mp h
    have hHead : ((line.rdropWhile fun c => c = 0xd ∨ c = 0xa).dropWhile isSpace).head? ≠ some 0x23 := by
      intro hSign
      have hMem := mem_of_mem_head? hSign
      exact hLine ((List.rdropWhile_prefix _ _).subset ((dropWhile_suffix _).subset hMem))
    rw [maskDirectiveLines, if_neg (by simpa using hHead), ih hLines, flatten_cons]

theorem maskCppPreprocessorDirectives_eq (h : 0x23 ∉ t) : maskCppPreprocessorDirectives t = t := by
  have hLines : ∀ line ∈ keptLines t, 0x23 ∉ line := by
    intro line hLine hSign
    refine h ?_
    rw [← keptLines_flatten t]
    exact mem_flatten.mpr ⟨line, hLine, hSign⟩
  rw [maskCppPreprocessorDirectives, maskDirectiveLines_eq hLines, keptLines_flatten]

theorem maskCppLambdaBodies_eq {masked : Text}
    (h : maskCppLambdaBodies words t = .ok (masked, [])) : masked = t := by
  obtain ⟨squares, -, h⟩ := bind_eq_ok.mp h
  obtain ⟨braces, -, h⟩ := bind_eq_ok.mp h
  obtain ⟨ranges, -, h⟩ := bind_eq_ok.mp h
  obtain ⟨hMasked, hRanges⟩ := Prod.mk.inj (Except.ok.inj h)
  subst hRanges
  rw [← hMasked]
  exact blankRanges_nil t

theorem scanInterval_plain {scan : LambdaScan} (h : 0x5b ∉ scan.text) (stop left index : ℕ)
    (finds : LambdaFinds) : scan.scanInterval words stop left index finds = .ok finds := by
  induction left generalizing index with
  | zero => rfl
  | succ left ih =>
    have hAt : scan.lambdaAt words stop index = none := by
      have hBracket : scan.text[index]? ≠ some 0x5b := fun hEq => h (mem_of_getElem? hEq)
      rw [LambdaScan.lambdaAt, if_pos (by simp [hBracket])]
    rw [LambdaScan.scanInterval, hAt, ih]
    split <;> rfl

theorem maskCppLambdaBodies_plain (h : 0x5b ∉ t) {squares braces : Dict ℕ ℕ}
    (hSquares : delimiterClosings t 0x5b 0x5d = .ok squares)
    (hBraces : delimiterClosings t 0x7b 0x7d = .ok braces) :
    maskCppLambdaBodies words t = .ok (t, []) := by
  have hScan : LambdaScan.scanAll words ⟨t, squares, braces⟩ (t.length + 1) { intervals := [(0, t.length)] } =
      .ok [] := by
    rw [LambdaScan.scanAll, scanInterval_plain h]
    cases t.length <;> rfl
  refine step hSquares (step hBraces (step hScan ?_))
  exact congrArg (fun masked => Except.ok (masked, [])) (blankRanges_nil t)

end Ici.CppCognitive
