import Ici.Analysis.CppBounded
import Ici.Analysis.CppCounted
import Ici.Analysis.CppScanned

/-! # The parser follows the statement tree

Behind the tokens of a tree the parser has scored what the tree costs. A body without braces may be left
  early,
behind a colon; the statements around then go on with what remains, which costs nothing. -/

namespace Ici.CppTrees

open Option List Raising Python CppText CppCognitive Parser Condition
open Core (WordCodes)

/-! ## Moving on -/

theorem bind_ok {α β : Type} {x : Result α} {a : α} {f : α → Result β} (h : x = .ok a) : (x >>= f) = f a := by
  rw [h]
  rfl

def advance (p : Parser) (rest : List Token) (controls deepest unbraced : ℕ) : Parser :=
  { p with
    rest
    cognitive := p.cognitive + controls
    maxNesting := max p.maxNesting deepest
    unbracedControls := p.unbracedControls + unbraced }

section

variable (p : Parser) (rest : List Token) (c d u : ℕ)

@[simp]
theorem advance_rest : (advance p rest c d u).rest = rest := rfl

@[simp]
theorem advance_loopDepth : (advance p rest c d u).loopDepth = p.loopDepth := rfl

@[simp]
theorem advance_switchDepth : (advance p rest c d u).switchDepth = p.switchDepth := rfl

end

theorem advance_advance (p : Parser) (rest rest' : List Token) (c d u c' d' u' : ℕ) :
    advance (advance p rest c d u) rest' c' d' u' = advance p rest' (c + c') (max d d') (u + u') := by
  simp [advance, Nat.add_assoc, Nat.max_assoc]

variable {p : Parser} {rest : List Token} {token : Token} {s body : Tree .statement}
  {f : ℕ → Parser → Result Parser} {attributes others : List Inside} {k : Kind} {header : Inside}
  {condition : Condition}

theorem advance_zero : advance p rest 0 0 0 = { p with rest } := by
  simp [advance]

theorem peek_cons (h : p.rest = token :: rest) : p.peek = some token := by simp [peek, h]

theorem take_cons (h : p.rest = token :: rest) :
    p.take token = .ok { p with rest } := by simp [Parser.take, h]

theorem attributes_eq (attributes : List Inside) {rest : List Token}
    (h : p.rest = attributeTokens attributes ++ rest) (hHead : rest.head? ≠ some .attributeOpen) :
    p.attributes = .ok { p with rest } := by
  rw [Parser.attributes, h, skipAttributes_attributes attributes hHead]
  rfl

theorem header_eq (header : Inside) {rest : List Token}
    (h : p.rest = Tree.parenthesized header ++ rest) : p.header = .ok { p with rest } := by
  have hRest : p.rest = .parenOpen :: (header.tokens ++ .parenClose :: rest) := by
    simp [h, Tree.parenthesized]
  have hTail : p.rest.tail = header.tokens ++ .parenClose :: rest := by simp [hRest]
  rw [Parser.header, peek_cons hRest, if_neg (by simp), hTail, skipBalanced_header]
  rfl

/-! ## The first token of a statement -/

def startsSimple (token : Token) : Bool :=
  inExpression token && !(token ∈ [Token.braceOpen, .braceClose, .attributeOpen])

theorem Loose.head {tokens : List Token} (h : Loose tokens) (hPlain : PlainHead tokens) {last : Token}
    (hEnds : Ends last) (rest : List Token) :
    ∃ token, (tokens ++ last :: rest).head? = some token ∧ startsSimple token := by
  cases h with
  | nil =>
    refine ⟨last, rfl, ?_⟩
    rcases hEnds with rfl | rfl <;> decide
  | @atom token tokens hToken _ =>
    have hAttribute : token ≠ .attributeOpen := fun hEq => hPlain.2 (congrArg some hEq)
    refine ⟨token, rfl, ?_⟩
    simp +decide [startsSimple, inExpression_of_isLooseAtom hToken, hAttribute, ne_of_test hToken]
  | colon _ _ => exact ⟨.colon, rfl, by decide⟩
  | group delimiter hHides _ _ =>
    cases delimiter with
    | parentheses => exact ⟨.parenOpen, rfl, by decide⟩
    | braces => exact absurd rfl hPlain.1
    | brackets | attributes => cases hHides

theorem chain_head (chain : Tree .chain) (rest : List Token) :
    (chain.tokens ++ rest).head? = some (.keyword .if') := by
  cases chain <;> rfl

theorem statement_head (s : Tree .statement) (rest : List Token) :
    ∃ token, (s.tokens ++ rest).head? = some token ∧
      token ∉ [Token.attributeOpen, .braceClose, .keyword .else', .keyword .catch'] ∧
      (token = .braceOpen → s.isBlock = true) ∧ (token = .keyword .if' → s.isConditional = true) := by
  cases s with
  | simple expression =>
    obtain ⟨token, hHead, hStarts⟩ := expression.loose.head expression.plain (.inr rfl) rest
    refine ⟨token, ?_, by simp +decide [ne_of_test hStarts], fun hEq => ?_, fun hEq => ?_⟩
    · simpa [Tree.tokens] using hHead
    all_goals exact absurd hEq (ne_of_test hStarts rfl)
  | conditional chain => exact ⟨_, chain_head chain rest, by decide, by simp, fun _ => rfl⟩
  | labelled label attributes body => cases label <;> exact ⟨_, rfl, by simp, by simp, by simp⟩
  | headed which header attributes body =>
    cases which <;> exact ⟨_, rfl, by decide, by simp, by simp [Headed.word]⟩
  | block body => exact ⟨_, rfl, by decide, fun _ => rfl, by simp⟩
  | _ => exact ⟨_, rfl, by simp, by simp, by simp⟩

theorem statement_head_ne : (s.tokens ++ rest).head? ≠ some .attributeOpen := by
  obtain ⟨token, hHead, hToken, -⟩ := statement_head s rest
  rw [hHead]
  rintro hEq
  cases hEq
  exact hToken (by decide)

theorem unattributed_simple {nesting : ℕ}
    (hPeek : p.peek = some token) (hStarts : startsStatement token = false)
    (hBraces : token ≠ .braceOpen ∧ token ≠ .braceClose) : unattributed f nesting p = p.simple := by
  rw [unattributed, hPeek]
  cases token with
  | keyword word => cases word <;> first | rfl | exact absurd hStarts (by decide)
  | braceOpen => exact absurd rfl hBraces.1
  | braceClose => exact absurd rfl hBraces.2
  | _ => rfl

theorem simple_eq (hPeek : p.peek = some token)
    (hStarts : startsSimple token) (hFrom : simpleFrom false 0 0 p.rest = .ok rest) :
    p.simple = .ok { p with rest } := by
  have hValid : p.validateSimpleStart = .ok () := by
    rw [validateSimpleStart, hPeek]
    cases token with
    | keyword word => cases word <;> first | rfl | exact absurd hStarts (by decide)
    | _ => rfl
  rw [simple, hValid, hFrom]
  rfl

variable {tokens : List Token} {fuel : ℕ} {hs : Tree .handlers} {words : WordCodes}

theorem unattributed_loose {nesting : ℕ}
    (hLoose : Loose tokens) (hPlain : PlainHead tokens) {last : Token} (hEnds : Ends last) {rest : List Token}
    (hRest : p.rest = tokens ++ last :: rest) :
    unattributed f nesting p = .ok { p with rest := behindColon 0 (tokens ++ [last]) ++ rest } := by
  obtain ⟨token, hHead, hStarts⟩ := hLoose.head hPlain hEnds rest
  have hPeek : p.peek = some token := by rw [peek, hRest, hHead]
  have hIn : inExpression token := by
    simp only [startsSimple, Bool.and_eq_true] at hStarts
    exact hStarts.1
  rw [unattributed_simple hPeek (startsStatement_inExpression hIn)
    ⟨ne_of_test hStarts rfl, ne_of_test hStarts rfl⟩]
  exact simple_eq hPeek hStarts (by rw [hRest, hLoose.simpleFrom hEnds])

theorem statement_eq {left nesting : ℕ}
    (h : p.rest = attributeTokens attributes ++ rest) (hHead : rest.head? ≠ some .attributeOpen) :
    statement (left + 1) nesting p = unattributed (statement left) nesting { p with rest } := by
  rw [statement, attributes_eq _ h hHead]
  rfl

theorem statements_closed {nesting : ℕ}
    (h : p.peek = some .braceClose) : statements f nesting fuel p = .ok p := by
  cases fuel <;> simp [statements, h]

def Runs (left nesting bound : ℕ) (p q : Parser) : Prop :=
  ∃ rounds ≤ bound, ∀ fuel,
    statements (statement left) nesting (fuel + rounds) p = statements (statement left) nesting fuel q

namespace Runs

variable {left nesting : ℕ}

theorem refl (p : Parser) : Runs left nesting 0 p p := ⟨0, le_rfl, fun _ => rfl⟩

theorem trans {b b' : ℕ} {p q r : Parser} (h : Runs left nesting b p q) (h' : Runs left nesting b' q r) :
    Runs left nesting (b + b') p r := by
  obtain ⟨n, hn, hFirst⟩ := h
  obtain ⟨m, hm, hThen⟩ := h'
  refine ⟨m + n, by omega, fun fuel => ?_⟩
  rw [← Nat.add_assoc, hFirst, hThen]

theorem mono {b b' : ℕ} {p q : Parser} (h : Runs left nesting b p q) (hLe : b ≤ b') :
    Runs left nesting b' p q := by
  obtain ⟨n, hn, hRuns⟩ := h
  exact ⟨n, hn.trans hLe, hRuns⟩

theorem one {p q : Parser} {token : Token} (hPeek : p.peek = some token) (hToken : token ≠ .braceClose)
    (h : statement left nesting p = .ok q) : Runs left nesting 1 p q := by
  refine ⟨1, le_rfl, fun fuel => ?_⟩
  rw [statements, if_neg (by simp [hPeek, hToken])]
  simp only [h]
  rfl

end Runs

theorem Loose.runs (left nesting : ℕ) {last : Token} (hEnds : Ends last) {tokens : List Token}
    (hLoose : Loose tokens) (hPlain : PlainHead tokens) {p : Parser} {rest : List Token}
    (hRest : p.rest = tokens ++ last :: rest) :
    Runs (left + 1) nesting (tokens.length + 1) p { p with rest } := by
  induction hLength : tokens.length using Nat.strong_induction_on generalizing tokens p with
  | _ length ih =>
    subst hLength
    obtain ⟨token, hHead, hStarts⟩ := hLoose.head hPlain hEnds rest
    have hPeek : p.peek = some token := by rw [peek, hRest, hHead]
    have hAttributes : p.attributes = .ok p := by
      have hNone : p.rest.head? ≠ some .attributeOpen := by
        rw [hRest, hHead]
        rintro hEq
        cases hEq
        exact absurd hStarts (by decide)
      exact attributes_eq [] rfl hNone
    have hOne : Runs (left + 1) nesting 1 p { p with rest := behindColon 0 (tokens ++ [last]) ++ rest } := by
      refine Runs.one hPeek (ne_of_test hStarts rfl) ?_
      exact step hAttributes (unattributed_loose hLoose hPlain hEnds hRest)
    rcases hLoose.behind hEnds with hNone | ⟨shorter, hShorter, hLooseShorter, hPlainShorter, hLess⟩
    · rw [hNone, nil_append] at hOne
      exact hOne.mono (by omega)
    · rw [hShorter, append_assoc, singleton_append] at hOne
      have hThen := ih shorter.length hLess hLooseShorter hPlainShorter
        (p := { p with rest := shorter ++ last :: rest }) rfl rfl
      exact (hOne.trans hThen).mono (by omega)

/-- What comes behind a tree: no handler, and no `else` that it would take. -/
def Follows (isOpen : Bool) (rest : List Token) : Prop :=
  rest.head? ≠ some (.keyword .catch') ∧ (isOpen = true → rest.head? ≠ some (.keyword .else'))

def ParsesStatement (s : Tree .statement) : Prop :=
  ∀ (left nesting : ℕ) (p : Parser) (rest : List Token), s.height ≤ left + 1 →
    s.Valid p.loopDepth p.switchDepth → Follows s.endsOpen rest → ¬s.isLabelled →
    p.rest = s.tokens ++ rest →
    unattributed (statement left) nesting p =
      .ok (advance p (s.tail ++ rest) (s.controls nesting) (s.deepest nesting) s.unbraced)

def RunsStatement (s : Tree .statement) : Prop :=
  ∀ (left nesting : ℕ) (p : Parser) (attributes : List Inside) (rest : List Token), s.height ≤ left →
    s.Valid p.loopDepth p.switchDepth → Follows s.endsOpen rest →
    p.rest = attributeTokens attributes ++ (s.tokens ++ rest) →
    Runs left nesting s.tokens.length p (advance p rest (s.controls nesting) (s.deepest nesting) s.unbraced)

def ParsesSequence (ss : Tree .sequence) : Prop :=
  ∀ (left nesting : ℕ) (p : Parser) (rest : List Token), ss.height ≤ left →
    ss.Valid p.loopDepth p.switchDepth → p.rest = ss.tokens ++ .braceClose :: rest →
    Runs left nesting ss.tokens.length p
      (advance p (.braceClose :: rest) (ss.controls nesting) (ss.deepest nesting) ss.unbraced)

def ParsesChain (chain : Tree .chain) : Prop :=
  ∀ (left nesting links : ℕ) (score : Bool) (p : Parser) (rest : List Token), chain.height ≤ left →
    chain.links ≤ links → chain.Valid p.loopDepth p.switchDepth → Follows chain.endsOpen rest →
    p.rest = chain.tokens ++ rest →
    ifChain (statement left) nesting links score p =
      .ok (advance p (chain.tail ++ rest) ((if score then 1 + nesting else 0) + chain.controls nesting)
        (chain.deepest nesting) chain.unbraced)

def ParsesHandlers (hs : Tree .handlers) : Prop :=
  ∀ (left nesting fuel : ℕ) (p : Parser) (rest : List Token), hs.height ≤ left →
    hs.Valid p.loopDepth p.switchDepth → rest.head? ≠ some (.keyword .catch') →
    p.rest = hs.tokens ++ rest → hs.tokens.length ≤ fuel →
    handlers (statement left) nesting fuel p =
      .ok (advance p rest (hs.controls nesting) (hs.deepest nesting) hs.unbraced)

def Parses : {k : Kind} → Tree k → Prop
  | .statement, s => ParsesStatement s ∧ RunsStatement s
  | .sequence, ss => ParsesSequence ss
  | .chain, chain => ParsesChain chain
  | .handlers, hs => ParsesHandlers hs

/-! ## What a body leaves behind -/

def TailWithin (tail : List Token) (length : ℕ) : Prop :=
  tail = [] ∨ ∃ tokens, tail = tokens ++ [.semicolon] ∧ Loose tokens ∧ PlainHead tokens ∧
    tokens.length + 2 ≤ length

theorem TailWithin.mono {tail : List Token} {length length' : ℕ} (h : TailWithin tail length)
    (hLength : length ≤ length') : TailWithin tail length' := by
  rcases h with hNone | ⟨tokens, hTail, hLoose, hPlain, hLess⟩
  · exact .inl hNone
  · exact .inr ⟨tokens, hTail, hLoose, hPlain, hLess.trans hLength⟩

theorem tail_shape (t : Tree k) : TailWithin t.tail t.tokens.length := by
  induction t with
  | simple expression =>
    rcases expression.loose.behind (.inr rfl) with hNone | ⟨tokens, hTail, hLoose, hPlain, hLess⟩
    · exact .inl hNone
    · refine .inr ⟨tokens, hTail, hLoose, hPlain, ?_⟩
      simp only [Tree.tokens, length_append, length_singleton]
      omega
  | conditional chain ih =>
    exact ih
  | headed which header attributes body ih | last condition attributes body ih
  | otherwise condition attributes body others other _ ih
  | elseIf condition attributes body others chain _ ih =>
    apply ih.mono
    simp only [Tree.tokens, length_append, length_cons]
    omega
  | _ => exact .inl rfl

/-- Nothing a body leaves behind starts with an `else` or a `catch`. -/
theorem tail_head (t : Tree k) {rest : List Token} {word : Keyword}
    (hWord : word = .else' ∨ word = .catch') (h : rest.head? ≠ some (.keyword word)) :
    (t.tail ++ rest).head? ≠ some (.keyword word) := by
  rcases tail_shape t with hNone | ⟨tokens, hTail, hLoose, hPlain, -⟩
  · rwa [hNone, nil_append]
  · obtain ⟨token, hHead, hStarts⟩ := hLoose.head hPlain (.inr rfl) rest
    rw [hTail, append_assoc, singleton_append, hHead]
    rintro hEq
    cases hEq
    rcases hWord with rfl | rfl <;> exact absurd hStarts (by decide)

theorem statement_tokens_pos (s : Tree .statement) : 0 < s.tokens.length := by
  obtain ⟨token, hHead, -⟩ := statement_head s []
  rw [append_nil] at hHead
  cases hTokens : s.tokens with
  | nil =>
    rw [hTokens] at hHead
    cases hHead
  | cons token tokens => exact Nat.succ_pos _

theorem height_pos : ∀ s : Tree .statement, 0 < s.height
  | .simple _ | .breaks | .continues | .goto _ => Nat.one_pos
  | .labelled _ _ body => height_pos body
  | .block _ | .conditional _ | .headed _ _ _ _ | .doWhile _ _ _ | .tries _ _ => Nat.succ_pos _

theorem attributed_peek (h : p.rest = attributeTokens attributes ++ (s.tokens ++ rest)) :
    ∃ token, p.peek = some token ∧ token ≠ .braceClose := by
  cases attributes with
  | nil =>
    obtain ⟨token, hHead, hToken, -⟩ := statement_head s rest
    refine ⟨token, ?_, fun hEq => ?_⟩
    · rw [peek, h]
      exact hHead
    · subst hEq
      exact absurd (by decide) hToken
  | cons inside attributes => exact ⟨.attributeOpen, by rw [peek, h]; rfl, by decide⟩

theorem ParsesStatement.runs (h : ParsesStatement s) (hLabel : ¬s.isLabelled) : RunsStatement s := by
  intro left nesting p attributes rest hHeight hValid hFollows hRest
  have hPos := height_pos s
  obtain ⟨left, rfl⟩ : ∃ less, left = less + 1 := ⟨left - 1, by omega⟩
  have hAttributes : p.attributes = .ok { p with rest := s.tokens ++ rest } :=
    attributes_eq _ hRest statement_head_ne
  have hStatement : statement (left + 1) nesting p =
      .ok (advance p (s.tail ++ rest) (s.controls nesting) (s.deepest nesting) s.unbraced) :=
    step hAttributes (h left nesting _ _ hHeight hValid hFollows hLabel rfl)
  obtain ⟨token, hPeek, hToken⟩ := attributed_peek hRest
  have hOne := Runs.one hPeek hToken hStatement
  have hTokens := statement_tokens_pos s
  rcases tail_shape s with hNone | ⟨tokens, hTail, hLoose, hPlain, hLength⟩
  · rw [hNone, nil_append] at hOne
    exact hOne.mono (by omega)
  · rw [hTail, append_assoc, singleton_append] at hOne
    have hThen := hLoose.runs left nesting (.inr rfl) hPlain
      (p := advance p (tokens ++ .semicolon :: rest) (s.controls nesting) (s.deepest nesting) s.unbraced) rfl
    exact (hOne.trans hThen).mono (by omega)

def bodyDeepest (nesting : ℕ) (body : Tree .statement) : ℕ :=
  max (if body.isBlock then nesting else 0) (body.deepest nesting)

def bodyUnbraced (body : Tree .statement) : ℕ := (if body.isBlock then 0 else 1) + body.unbraced

theorem ParsesStatement.controlledBody (h : ParsesStatement body)
    (left nesting : ℕ) (p : Parser) (rest : List Token)
    (hHeight : body.height - body.isBlock.toNat ≤ left) (hValid : body.Valid p.loopDepth p.switchDepth)
    (hFollows : Follows body.endsOpen rest) (hLabel : ¬body.isLabelled) (hRest : p.rest = body.tokens ++ rest) :
    controlledBody (statement left) nesting p = .ok (advance p (body.tail ++ rest) (body.controls nesting)
      (bodyDeepest nesting body) (bodyUnbraced body)) := by
  obtain ⟨token, hHead, -, hBlock, -⟩ := statement_head body rest
  have hPeek : p.peek = some token := by rw [peek, hRest, hHead]
  cases hBraced : body.isBlock with
  | true =>
    have hToken : token = .braceOpen := by
      cases body with
      | block _ => exact (some.inj hHead).symm
      | _ => cases hBraced
    subst hToken
    have hStep := h left nesting { p with maxNesting := max p.maxNesting nesting } rest
      (by simp only [hBraced, Bool.toNat_true] at hHeight; omega) hValid hFollows hLabel hRest
    have hCompound : unattributed (statement left) nesting { p with maxNesting := max p.maxNesting nesting } =
        compound (statement left) nesting { p with maxNesting := max p.maxNesting nesting } := by
      rw [unattributed]
      simp only [peek] at hPeek ⊢
      rw [hPeek]
    rw [CppCognitive.controlledBody, if_pos hPeek, ← hCompound, hStep]
    simp [advance, bodyDeepest, bodyUnbraced, hBraced, Nat.max_assoc]
  | false =>
    have hToken : token ≠ .braceOpen := fun hEq => by
      rw [hBlock hEq] at hBraced
      cases hBraced
    have hPos := height_pos body
    obtain ⟨left, rfl⟩ : ∃ less, left = less + 1 :=
      ⟨left - 1, by simp only [hBraced, Bool.toNat_false] at hHeight; omega⟩
    have hStep := h left nesting { p with unbracedControls := p.unbracedControls + 1 } rest
      (by simpa [hBraced] using hHeight) hValid hFollows hLabel hRest
    have hAttributes : attributes { p with unbracedControls := p.unbracedControls + 1 } =
        .ok { p with unbracedControls := p.unbracedControls + 1 } := by
      exact attributes_eq [] rfl (by rw [hRest]; exact statement_head_ne)
    rw [CppCognitive.controlledBody, if_neg (by simp [hPeek, hToken])]
    refine (step hAttributes hStep).trans ?_
    simp [advance, bodyDeepest, bodyUnbraced, hBraced, Nat.add_assoc]

theorem ParsesSequence.compound {body : Tree .sequence} (h : ParsesSequence body) (left nesting : ℕ)
    (p : Parser) (rest : List Token) (hHeight : body.height ≤ left)
    (hValid : body.Valid p.loopDepth p.switchDepth)
    (hRest : p.rest = .braceOpen :: (body.tokens ++ .braceClose :: rest)) :
    CppCognitive.compound (statement left) nesting p =
      .ok (advance p rest (body.controls nesting) (body.deepest nesting) body.unbraced) := by
  obtain ⟨rounds, hRounds, hRuns⟩ := h left nesting
    { p with rest := body.tokens ++ .braceClose :: rest } rest hHeight hValid rfl
  obtain ⟨fuel, hFuel⟩ : ∃ fuel, (body.tokens ++ Token.braceClose :: rest).length = fuel + rounds :=
    ⟨(body.tokens ++ Token.braceClose :: rest).length - rounds, by rw [length_append]; omega⟩
  have hLoop : statements (statement left) nesting (body.tokens ++ Token.braceClose :: rest).length
      { p with rest := body.tokens ++ .braceClose :: rest } =
        .ok (advance p (.braceClose :: rest) (body.controls nesting) (body.deepest nesting) body.unbraced) := by
    rw [hFuel, hRuns, statements_closed rfl]
    rfl
  exact step (take_cons hRest) (step hLoop (take_cons rfl))

/-! ## Each kind of statement -/

theorem parses_simple (expression : Expression) : Parses (.simple expression) := by
  have hParses : ParsesStatement (.simple expression) := by
    intro left nesting p rest _ _ _ _ hRest
    have hTokens : p.rest = expression.tokens ++ .semicolon :: rest := by
      simpa using hRest
    rw [unattributed_loose expression.loose expression.plain (.inr rfl) hTokens]
    simp [advance]
  exact ⟨hParses, hParses.runs Bool.false_ne_true⟩

theorem parses_jump (word : Keyword) (name : List Token) (hLabel : ¬s.isLabelled)
    (hTokens : s.tokens = .keyword word :: (name ++ [.semicolon]))
    (hTail : s.tail = []) (hFree : ∀ n, s.controls n = 0 ∧ s.deepest n = 0) (hUnbraced : s.unbraced = 0)
    (hJump : word.isJump = true) (hName : Loose name ∧ behindColon 0 (name ++ [.semicolon]) = [])
    (hStart : ∀ p : Parser, s.Valid p.loopDepth p.switchDepth → p.peek = some (.keyword word) →
      p.validateSimpleStart = .ok ()) : Parses s := by
  have hParses : ParsesStatement s := by
    intro left nesting p rest _ hValid _ _ hRest
    have hWord : p.rest = .keyword word :: (name ++ .semicolon :: rest) := by
      rw [hRest, hTokens]
      simp
    have hStarts : startsStatement (.keyword word) = false := by cases word <;> first | rfl | cases hJump
    have hFrom : simpleFrom false 0 0 p.rest = .ok rest := by
      have hThen := hName.1.simpleFrom (.inr rfl) true rest
      rw [hName.2, nil_append] at hThen
      rw [hWord, ← hThen]
      simp [simpleFrom]
    rw [unattributed_simple (peek_cons hWord) hStarts (by simp), simple,
      hStart p hValid (peek_cons hWord), hFrom]
    simp [hTail, (hFree nesting).1, (hFree nesting).2, hUnbraced, advance_zero]
    rfl
  exact ⟨hParses, hParses.runs hLabel⟩

theorem parses_breaks : Parses .breaks := by
  refine parses_jump .break' [] nofun rfl rfl (fun _ => ⟨rfl, rfl⟩) rfl rfl ⟨.nil, rfl⟩ ?_
  intro p hValid hPeek
  have hInside : ¬(p.loopDepth = 0 ∧ p.switchDepth = 0) := by
    simp only [Tree.Valid] at hValid
    omega
  simp [validateSimpleStart, hPeek, hInside]

theorem parses_continues : Parses .continues := by
  refine parses_jump .continue' [] nofun rfl rfl (fun _ => ⟨rfl, rfl⟩) rfl rfl ⟨.nil, rfl⟩ ?_
  intro p hValid hPeek
  have hInside : ¬p.loopDepth = 0 := by
    simp only [Tree.Valid] at hValid
    omega
  simp [validateSimpleStart, hPeek, hInside]

theorem parses_goto (label : Text) : Parses (.goto label) := by
  refine parses_jump .goto' ([.name label]) nofun rfl rfl (fun _ => ⟨rfl, rfl⟩) rfl rfl
    ⟨.atom rfl .nil, rfl⟩ ?_
  intro p _ hPeek
  rw [validateSimpleStart, hPeek]

theorem unattributed_label (nesting : ℕ) {p : Parser} {label : Label}
    {rest : List Token} (hCase : label.isCase → 0 < p.switchDepth)
    (hRest : p.rest = label.tokens ++ .colon :: rest) :
    ∃ tokens, Loose tokens ∧ tokens.length < label.tokens.length ∧ unattributed f nesting p =
      .ok { p with rest := behindColon 0 (tokens ++ [.colon]) ++ rest } := by
  cases label with
  | case value =>
    have hWord : p.rest = .keyword .case' :: (value.tokens ++ .colon :: rest) := hRest
    have hFrom : simpleFrom false 0 0 p.rest = .ok (behindColon 0 (value.tokens ++ [.colon]) ++ rest) := by
      rw [← value.loose.simpleFrom (.inl rfl) true, hWord]
      simp [simpleFrom]
    have hSwitch : ¬p.switchDepth = 0 := Nat.ne_of_gt (hCase rfl)
    refine ⟨value.tokens, value.loose, Nat.lt_succ_self _, ?_⟩
    rw [unattributed_simple (peek_cons hWord) rfl (by simp), simple, hFrom]
    simp [validateSimpleStart, peek_cons hWord, hSwitch]
    rfl
  | default =>
    have hWord : p.rest = .keyword .default' :: .colon :: rest := hRest
    have hFrom : simpleFrom false 0 0 p.rest = .ok rest := by
      rw [hWord]
      simp [simpleFrom, startsStatement, Token.isControl]
    have hSwitch : ¬p.switchDepth = 0 := Nat.ne_of_gt (hCase rfl)
    refine ⟨[], .nil, Nat.one_pos, ?_⟩
    rw [unattributed_simple (peek_cons hWord) rfl (by simp), simple, hFrom]
    simp [validateSimpleStart, peek_cons hWord, hSwitch, behindColon]
    rfl
  | name word =>
    have hWord : p.rest = .name word :: .colon :: rest := hRest
    have hFrom : simpleFrom false 0 0 p.rest = .ok rest := by
      rw [hWord]
      simp [simpleFrom, startsStatement, Token.isControl]
    refine ⟨[], .nil, Nat.one_pos, ?_⟩
    rw [unattributed_simple (peek_cons hWord) rfl (by simp), simple_eq (peek_cons hWord) rfl hFrom]
    simp [behindColon]

theorem parses_labelled {label : Label} (ih : Parses body) : Parses (.labelled label attributes body) := by
  refine ⟨fun _ _ _ _ _ _ _ hLabel _ => absurd rfl hLabel, ?_⟩
  intro left nesting p before rest hHeight hValid hFollows hRest
  have hPos := height_pos body
  simp only [Tree.height] at hHeight
  obtain ⟨left, rfl⟩ : ∃ less, left = less + 1 := ⟨left - 1, by omega⟩
  have hLabel : (Tree.labelled label attributes body).tokens ++ rest =
      label.tokens ++ .colon :: (attributeTokens attributes ++ (body.tokens ++ rest)) := by
    simp [Tree.tokens]
  obtain ⟨tokens, hLoose, hLength, hStep⟩ := unattributed_label nesting (f := statement left) (p :=
    { p with rest := (Tree.labelled label attributes body).tokens ++ rest }) hValid.1 hLabel
  obtain ⟨token, hPeek, hToken⟩ := attributed_peek hRest
  have hOne := Runs.one hPeek hToken ((statement_eq hRest statement_head_ne).trans hStep)
  have hLabelled : Runs (left + 1) nesting (label.tokens.length + 1) p
      { p with rest := attributeTokens attributes ++ (body.tokens ++ rest) } := by
    rcases hLoose.behind (.inl rfl) with hNone | ⟨shorter, hShorter, hLooseShorter, hPlain, hLess⟩
    · rw [hNone, nil_append] at hOne
      exact hOne.mono (by omega)
    · rw [hShorter, append_assoc, singleton_append] at hOne
      have hThen := hLooseShorter.runs left nesting (.inl rfl) hPlain
        (p := { p with rest := shorter ++ .colon :: (attributeTokens attributes ++ (body.tokens ++ rest)) })
          rfl
      exact (hOne.trans hThen).mono (by omega)
  have hBody := ih.2 _ nesting { p with rest := attributeTokens attributes ++ (body.tokens ++ rest) }
    _ _ hHeight hValid.2 hFollows rfl
  refine (hLabelled.trans hBody).mono ?_
  simp only [Tree.tokens, length_append, length_cons]
  omega

theorem parses_block {body : Tree .sequence} (ih : Parses body) : Parses (.block body) := by
  have hParses : ParsesStatement (.block body) := by
    intro left nesting p rest hHeight hValid _ _ hRest
    have hTokens : p.rest = .braceOpen :: (body.tokens ++ .braceClose :: rest) := by
      simpa [Tree.tokens] using hRest
    have hCompound := ParsesSequence.compound ih left nesting _ _
      (by simpa [Tree.height] using hHeight) hValid hTokens
    rw [unattributed, peek_cons hTokens]
    exact hCompound
  exact ⟨hParses, hParses.runs Bool.false_ne_true⟩

theorem parses_conditional {chain : Tree .chain} (ih : Parses chain) : Parses (.conditional chain) := by
  have hParses : ParsesStatement (.conditional chain) := by
    intro left nesting p rest hHeight hValid hFollows _ hRest
    have hChain := ih left nesting maxControlNesting true p rest
      (by simpa [Tree.height] using hHeight) hValid.1 hValid.2 hFollows hRest
    have hPeek : p.peek = some (.keyword .if') := by
      rw [peek, hRest]
      exact chain_head chain rest
    rw [unattributed, hPeek]
    exact hChain
  exact ⟨hParses, hParses.runs Bool.false_ne_true⟩

theorem headedControl_eq (f : ℕ → Parser → Result Parser) (nesting : ℕ) {which : Headed} {header : Inside}
    {attributes : List Inside} {body : Tree .statement} {p : Parser} {rest : List Token}
    (h : p.rest = .keyword which.word :: (Tree.parenthesized header ++
      (attributeTokens attributes ++ (body.tokens ++ rest)))) :
    headedControl f nesting which.word p = (do
      let q ← controlledBody f (nesting + 1)
        { p with
          rest := body.tokens ++ rest
          cognitive := p.cognitive + 1 + nesting
          loopDepth := p.loopDepth + which.loops
          switchDepth := p.switchDepth + which.switches }
      return { q with
        loopDepth := q.loopDepth - which.loops
        switchDepth := q.switchDepth - which.switches }) := by
  rw [headedControl, bind_ok (take_cons h)]
  refine Eq.trans (bind_ok (header_eq header rfl)) ?_
  refine Eq.trans (bind_ok (attributes_eq attributes rfl statement_head_ne)) ?_
  cases which <;> rfl

theorem parses_headed {which : Headed}
    (ih : Parses body) : Parses (.headed which header attributes body) := by
  have hParses : ParsesStatement (.headed which header attributes body) := by
    intro left nesting p rest hHeight hValid hFollows _ hRest
    have hWord : p.rest = .keyword which.word :: (Tree.parenthesized header ++
        (attributeTokens attributes ++ (body.tokens ++ rest))) := by
      simpa [Tree.tokens] using hRest
    have hBody := ParsesStatement.controlledBody ih.1 left (nesting + 1) { p with
        rest := body.tokens ++ rest
        cognitive := p.cognitive + 1 + nesting
        loopDepth := p.loopDepth + which.loops
        switchDepth := p.switchDepth + which.switches } rest
      (by simpa [Tree.height] using hHeight) hValid.2 hFollows hValid.1 rfl
    have hControl : unattributed (statement left) nesting p =
        headedControl (statement left) nesting which.word p := by
      rw [unattributed, peek_cons hWord]
      cases which <;> rfl
    rw [hControl, headedControl_eq (statement left) nesting hWord, hBody]
    simp [advance, Tree.controls, Tree.deepest, Tree.unbraced, Tree.tail, bodyDeepest, bodyUnbraced,
      Nat.add_assoc]
  exact ⟨hParses, hParses.runs Bool.false_ne_true⟩

theorem parses_doWhile (ih : Parses body) : Parses (.doWhile attributes body header) := by
  have hParses : ParsesStatement (.doWhile attributes body header) := by
    intro left nesting p rest hHeight hValid _ _ hRest
    obtain ⟨hLabel, hTail, hBodyValid⟩ := hValid
    have hWord : p.rest = .keyword .do' :: (attributeTokens attributes ++ (body.tokens ++
        .keyword .while' :: (Tree.parenthesized header ++ .semicolon :: rest))) := by
      simpa [Tree.tokens] using hRest
    have hBody := ParsesStatement.controlledBody ih.1 left (nesting + 1) { p with
        rest := body.tokens ++ .keyword .while' :: (Tree.parenthesized header ++ .semicolon :: rest)
        cognitive := p.cognitive + 1 + nesting
        loopDepth := p.loopDepth + 1 } (.keyword .while' :: (Tree.parenthesized header ++ .semicolon :: rest))
      (by simpa [Tree.height] using hHeight) hBodyValid (by simp [Follows]) hLabel rfl
    rw [hTail, nil_append] at hBody
    have hDo : unattributed (statement left) nesting p = doStatement (statement left) nesting p := by
      rw [unattributed, peek_cons hWord]
      rfl
    rw [hDo, doStatement, bind_ok (take_cons hWord)]
    refine Eq.trans (bind_ok (attributes_eq attributes rfl statement_head_ne)) ?_
    refine Eq.trans (bind_ok hBody) ?_
    refine Eq.trans (bind_ok (take_cons rfl)) ?_
    refine Eq.trans (bind_ok (header_eq header rfl)) ?_
    refine Eq.trans (take_cons rfl) ?_
    simp [advance, Tree.controls, Tree.deepest, Tree.unbraced, Tree.tail, bodyDeepest, bodyUnbraced,
      Nat.add_assoc]
  exact ⟨hParses, hParses.runs Bool.false_ne_true⟩

theorem handlers_head (h : hs.tokens ≠ []) (rest : List Token) :
    (hs.tokens ++ rest).head? = some (.keyword .catch') := by
  cases hs with
  | unhandled => exact absurd rfl h
  | handler header body more => rfl

theorem parses_tries {body : Tree .sequence} (ihBody : Parses body)
    (ihHandlers : Parses hs) : Parses (.tries body hs) := by
  have hParses : ParsesStatement (.tries body hs) := by
    intro left nesting p rest hHeight hValid hFollows _ hRest
    obtain ⟨hSome, hBodyValid, hHandlersValid⟩ := hValid
    have hWord : p.rest = .keyword .try' :: .braceOpen :: (body.tokens ++ .braceClose ::
        (hs.tokens ++ rest)) := by simpa [Tree.tokens] using hRest
    simp only [Tree.height, Nat.add_le_add_iff_right, Nat.max_le] at hHeight
    have hBody := ParsesSequence.compound ihBody left nesting { p with rest := .braceOpen :: (body.tokens ++
      .braceClose :: (hs.tokens ++ rest)) } _
      hHeight.1 hBodyValid rfl
    have hFuel : hs.tokens.length ≤ (hs.tokens ++ rest).length := by
      rw [length_append]
      exact Nat.le_add_right _ _
    have hHandlers := ihHandlers left nesting _ (advance p (hs.tokens ++ rest) (body.controls nesting)
      (body.deepest nesting) body.unbraced) rest
      hHeight.2 hHandlersValid hFollows.1 rfl hFuel
    have hCatch := handlers_head hSome rest
    have hTry : unattributed (statement left) nesting p = tryStatement (statement left) nesting p := by
      rw [unattributed, peek_cons hWord]
    rw [hTry, tryStatement, bind_ok (take_cons hWord)]
    refine Eq.trans (bind_ok hBody) ?_
    refine Eq.trans (if_neg (not_not.mpr hCatch)) ?_
    refine Eq.trans hHandlers ?_
    rw [advance_advance]
    rfl
  exact ⟨hParses, hParses.runs Bool.false_ne_true⟩

theorem parses_done : Parses .done := by
  intro left nesting p rest _ _ hRest
  have hHere : advance p (.braceClose :: rest) 0 0 0 = p := by
    rw [advance_zero]
    exact congrArg (fun rest => { p with rest }) hRest.symm
  exact (congrArg (Runs left nesting 0 p) hHere.symm).mp (Runs.refl p)

theorem sequence_follows (ss : Tree .sequence) (isOpen : Bool) (rest : List Token) :
    Follows isOpen (ss.tokens ++ .braceClose :: rest) := by
  cases ss with
  | done => simp [Follows, Tree.tokens]
  | next attributes first more =>
    cases attributes with
    | nil =>
      obtain ⟨token, hHead, hToken, -⟩ := statement_head first (more.tokens ++ .braceClose :: rest)
      have hTokens : (Tree.next [] first more).tokens ++ .braceClose :: rest =
          first.tokens ++ (more.tokens ++ .braceClose :: rest) := by
        simp [Tree.tokens, attributeTokens]
      rw [Follows, hTokens, hHead]
      constructor
      · rintro hEq
        cases hEq
        exact hToken (by decide)
      · rintro - hEq
        cases hEq
        exact hToken (by decide)
    | cons inside attributes => simp [Follows, Tree.tokens, attributeTokens]

theorem parses_next {first : Tree .statement} {more : Tree .sequence}
    (ihFirst : Parses first) (ihMore : Parses more) : Parses (.next attributes first more) := by
  intro left nesting p rest hHeight hValid hRest
  have hTokens : p.rest = attributeTokens attributes ++ (first.tokens ++
      (more.tokens ++ .braceClose :: rest)) := by simpa [Tree.tokens] using hRest
  simp only [Tree.height, Nat.max_le] at hHeight
  have hFirst := ihFirst.2 _ nesting _ _ _ hHeight.1 hValid.1 (sequence_follows more _ rest) hTokens
  have hMore := ihMore left nesting
    (advance p (more.tokens ++ .braceClose :: rest) (first.controls nesting) (first.deepest nesting)
      first.unbraced) rest hHeight.2 hValid.2 rfl
  rw [advance_advance] at hMore
  refine (hFirst.trans hMore).mono ?_
  simp only [Tree.tokens, length_append]
  omega

theorem handlers_closed {nesting : ℕ}
    (h : p.peek ≠ some (.keyword .catch')) : handlers f nesting fuel p = .ok p := by
  cases fuel <;> simp [handlers, h]

theorem parses_unhandled : Parses .unhandled := by
  intro left nesting fuel p rest _ _ hCatch hRest _
  have hPeek : p.peek ≠ some (.keyword .catch') := by
    rw [peek, hRest]
    exact hCatch
  have hHere : advance p rest 0 0 0 = p := by
    rw [advance_zero]
    exact congrArg (fun rest => { p with rest }) hRest.symm
  rw [handlers_closed hPeek]
  exact congrArg Except.ok hHere.symm

theorem catchHandler_eq {body : Tree .sequence} (h : ParsesSequence body) (left nesting : ℕ) {p : Parser}
    {header : Inside} {rest : List Token} (hHeight : body.height ≤ left)
    (hValid : body.Valid p.loopDepth p.switchDepth)
    (hRest : p.rest = .keyword .catch' :: (Tree.parenthesized header ++
      .braceOpen :: (body.tokens ++ .braceClose :: rest))) :
    catchHandler (statement left) nesting p = .ok (advance p rest (1 + nesting + body.controls (nesting + 1))
      (max (nesting + 1) (body.deepest (nesting + 1))) body.unbraced) := by
  have hBody := h.compound left (nesting + 1) { p with
      rest := .braceOpen :: (body.tokens ++ .braceClose :: rest)
      cognitive := p.cognitive + 1 + nesting
      maxNesting := max p.maxNesting (nesting + 1) } rest hHeight hValid rfl
  rw [catchHandler, bind_ok (take_cons hRest)]
  refine Eq.trans (bind_ok (header_eq header rfl)) ?_
  refine Eq.trans (bind_ok (attributes_eq [] rfl nofun)) ?_
  refine Eq.trans (if_pos rfl) ?_
  refine Eq.trans hBody ?_
  simp [advance, Nat.add_assoc, Nat.max_assoc]

theorem parses_handler {body : Tree .sequence} {more : Tree .handlers}
    (ihBody : Parses body) (ihMore : Parses more) : Parses (.handler header body more) := by
  intro left nesting fuel p rest hHeight hValid hCatch hRest hFuel
  have hTokens : p.rest = .keyword .catch' :: (Tree.parenthesized header ++
      .braceOpen :: (body.tokens ++ .braceClose :: (more.tokens ++ rest))) := by
    simpa [Tree.tokens] using hRest
  simp only [Tree.height, Nat.max_le] at hHeight
  have hHandler := catchHandler_eq ihBody _ nesting hHeight.1 hValid.1 hTokens
  simp only [Tree.tokens, length_cons, length_append] at hFuel
  obtain ⟨fuel, rfl⟩ : ∃ less, fuel = less + 1 := ⟨fuel - 1, by omega⟩
  have hMore := ihMore left nesting fuel
    (advance p (more.tokens ++ rest) (1 + nesting + body.controls (nesting + 1))
      (max (nesting + 1) (body.deepest (nesting + 1))) body.unbraced) rest
    hHeight.2 hValid.2 hCatch rfl (by omega)
  rw [handlers, if_neg (by simp [peek_cons hTokens]), bind_ok hHandler, hMore, advance_advance]
  rfl

/-! ## Chains -/

theorem ifHead_eq (h : p.rest = condition.tokens ++ rest) :
    ifHead p = .ok (condition.isConsteval, { p with rest }) := by
  cases condition with
  | header isConstexpr inside =>
    have hHeader : header { p with rest := Tree.parenthesized inside ++ rest } = .ok { p with rest } :=
      header_eq _ rfl
    have hPeek : ({ p with rest := Tree.parenthesized inside ++ rest } : Parser).peek = some .parenOpen := rfl
    cases isConstexpr with
    | true =>
      have hWord : p.rest = .keyword .constexpr' :: (Tree.parenthesized inside ++ rest) := by
        simpa [tokens, Tree.parenthesized] using h
      simp [ifHead, peek_cons hWord, hWord, hPeek, hHeader, isConsteval, bind, Except.bind, pure,
        Except.pure]
    | false =>
      have hWord : p.rest = Tree.parenthesized inside ++ rest := by
        simpa [tokens, Tree.parenthesized] using h
      have hHere : p = { p with rest := Tree.parenthesized inside ++ rest } :=
        congrArg (fun rest => { p with rest }) hWord
      rw [hHere]
      simp [ifHead, hPeek, hHeader, isConsteval, bind, Except.bind, pure, Except.pure]
  | consteval negated =>
    cases negated with
    | true =>
      have hWord : p.rest = .bang :: .keyword .consteval' :: rest := h
      simp [ifHead, peek, hWord, isConsteval, bind, Except.bind, pure, Except.pure]
    | false =>
      have hWord : p.rest = .keyword .consteval' :: rest := h
      simp [ifHead, peek, hWord, isConsteval, bind, Except.bind, pure, Except.pure]

theorem ifBranch_eq (h : ParsesStatement body) (left nesting : ℕ) (score : Bool)
    {p : Parser} {condition : Condition} {attributes : List Inside} (rest : List Token)
    (hHeight : body.height - body.isBlock.toNat ≤ left) (hValid : body.Valid p.loopDepth p.switchDepth)
    (hFollows : Follows body.endsOpen rest) (hLabel : ¬body.isLabelled)
    (hConsteval : condition.isConsteval → body.isBlock)
    (hRest : p.rest = .keyword .if' :: (condition.tokens ++
      (attributeTokens attributes ++ (body.tokens ++ rest)))) :
    ifBranch (statement left) nesting score p = .ok (condition.isConsteval, advance p (body.tail ++ rest)
      ((if score then 1 + nesting else 0) + body.controls (nesting + 1)) (bodyDeepest (nesting + 1) body)
      (bodyUnbraced body)) := by
  set q : Parser := if score then Parser.score { p with rest := condition.tokens ++
    (attributeTokens attributes ++ (body.tokens ++ rest)) } nesting else { p with rest := condition.tokens ++
    (attributeTokens attributes ++ (body.tokens ++ rest)) } with hq
  have hqRest : q.rest = condition.tokens ++ (attributeTokens attributes ++ (body.tokens ++ rest)) := by
    cases score <;> rfl
  have hBody := h.controlledBody left (nesting + 1) { q with rest := body.tokens ++ rest } rest hHeight
    (by cases score <;> exact hValid) hFollows hLabel rfl
  have hBraced : ¬(condition.isConsteval = true ∧
      peek { q with rest := body.tokens ++ rest } ≠ some .braceOpen) := by
    rintro ⟨hEval, hPeek⟩
    have hBlock := hConsteval hEval
    cases body with
    | block _ => exact hPeek rfl
    | _ => cases hBlock
  rw [ifBranch, bind_ok (take_cons hRest), bind_ok (ifHead_eq hqRest)]
  refine Eq.trans (bind_ok (attributes_eq attributes rfl statement_head_ne)) ?_
  simp only [hBraced, if_false]
  refine Eq.trans (bind_ok hBody) ?_
  cases score <;> simp [hq, advance, score, Nat.add_assoc] <;> rfl

theorem parses_last (ih : Parses body) : Parses (.last condition attributes body) := by
  intro left nesting links score p rest hHeight hLinks hValid hFollows hRest
  obtain ⟨hLabel, hConsteval, hBodyValid⟩ := hValid
  obtain ⟨links, rfl⟩ : ∃ less, links = less + 1 := ⟨links - 1, by simp only [Tree.links] at hLinks; omega⟩
  have hWord : p.rest = .keyword .if' :: (condition.tokens ++
      (attributeTokens attributes ++ (body.tokens ++ rest))) := by simpa [Tree.tokens] using hRest
  have hBranch := ifBranch_eq ih.1 _ nesting score _ hHeight hBodyValid
    ⟨hFollows.1, fun _ => hFollows.2 rfl⟩ hLabel hConsteval hWord
  have hElse : (body.tail ++ rest).head? ≠ some (.keyword .else') := tail_head body (.inl rfl)
    (hFollows.2 rfl)
  rw [ifChain, bind_ok hBranch]
  refine Eq.trans (if_pos hElse) ?_
  rfl

/-- The `else` behind a branch: its attributes are passed over and the nesting is scored. -/
theorem else_eq {nesting : ℕ} (h : p.rest = .keyword .else' :: (attributeTokens others ++ rest))
    (hHead : rest.head? ≠ some .attributeOpen) :
    (score { p with rest := p.rest.tail } nesting).attributes =
      .ok (advance p rest (1 + nesting) 0 0) := by
  rw [attributes_eq (p := score { p with rest := p.rest.tail } nesting) others
    (by simp [score, h]) hHead]
  simp [advance, score, Nat.add_assoc]

theorem parses_otherwise {other : Tree .statement} (ih : Parses body) (ihOther : Parses other) :
    Parses (.otherwise condition attributes body others other) := by
  intro left nesting links score p rest hHeight hLinks hValid hFollows hRest
  obtain ⟨hLabel, hConsteval, hBodyValid, ⟨hTail, hClosed⟩, hOtherLabel, hPlain, hOtherBlock, hOtherValid⟩ :=
    hValid
  obtain ⟨links, rfl⟩ : ∃ less, links = less + 1 := ⟨links - 1, by simp only [Tree.links] at hLinks; omega⟩
  simp only [Tree.height, Nat.max_le] at hHeight
  have hWord : p.rest = .keyword .if' :: (condition.tokens ++ (attributeTokens attributes ++ (body.tokens ++
      .keyword .else' :: (attributeTokens others ++ (other.tokens ++ rest))))) := by
    simpa [Tree.tokens] using hRest
  have hBranch := ifBranch_eq ih.1 _ nesting score (.keyword .else' :: (attributeTokens others ++
    (other.tokens ++ rest))) hHeight.1 hBodyValid
    ⟨by simp, fun hOpen => absurd hOpen hClosed⟩ hLabel hConsteval hWord
  rw [hTail, nil_append] at hBranch
  obtain ⟨token, hHead, -, -, hIf⟩ := statement_head other rest
  have hOther := ParsesStatement.controlledBody ihOther.1 left (nesting + 1)
    (advance (advance p (.keyword .else' :: (attributeTokens others ++ (other.tokens ++ rest)))
      ((if score then 1 + nesting else 0) + body.controls (nesting + 1)) (bodyDeepest (nesting + 1) body)
      (bodyUnbraced body)) (other.tokens ++ rest) (1 + nesting) 0 0) rest
    hHeight.2 hOtherValid hFollows hOtherLabel rfl
  have hNotIf : (other.tokens ++ rest).head? ≠ some (.keyword .if') := by
    rw [hHead]
    rintro hEq
    exact hPlain (hIf (some.inj hEq))
  have hBraced : ¬(condition.isConsteval = true ∧ (other.tokens ++ rest).head? ≠ some .braceOpen) := by
    rintro ⟨hEval, hOpen⟩
    have hOtherBraced := hOtherBlock hEval
    cases other with
    | block _ => exact hOpen rfl
    | _ => cases hOtherBraced
  rw [ifChain, bind_ok hBranch]
  refine Eq.trans (if_neg (not_not.mpr rfl)) ?_
  refine Eq.trans (bind_ok (else_eq rfl statement_head_ne)) ?_
  refine Eq.trans (if_pos hNotIf) ?_
  refine Eq.trans (if_neg hBraced) ?_
  refine Eq.trans hOther ?_
  rw [advance_advance, advance_advance]
  simp [Tree.controls, Tree.deepest, Tree.unbraced, Tree.tail, bodyDeepest, bodyUnbraced, Nat.add_assoc]

theorem parses_elseIf {chain : Tree .chain} (ih : Parses body) (ihChain : Parses chain) :
    Parses (.elseIf condition attributes body others chain) := by
  intro left nesting links score p rest hHeight hLinks hValid hFollows hRest
  obtain ⟨hLabel, hConsteval, hBodyValid, ⟨hTail, hClosed⟩, hChainValid⟩ := hValid
  simp only [Tree.links] at hLinks
  obtain ⟨links, rfl⟩ : ∃ less, links = less + 1 := ⟨links - 1, by omega⟩
  simp only [Tree.height, Nat.max_le] at hHeight
  have hWord : p.rest = .keyword .if' :: (condition.tokens ++ (attributeTokens attributes ++ (body.tokens ++
      .keyword .else' :: (attributeTokens others ++ (chain.tokens ++ rest))))) := by
    simpa [Tree.tokens] using hRest
  have hBranch := ifBranch_eq ih.1 _ nesting score (.keyword .else' :: (attributeTokens others ++
    (chain.tokens ++ rest))) hHeight.1 hBodyValid
    ⟨by simp, fun hOpen => absurd hOpen hClosed⟩ hLabel hConsteval hWord
  rw [hTail, nil_append] at hBranch
  have hHead := chain_head chain rest
  have hChain := ihChain left nesting links false (advance (advance p (.keyword .else' :: (attributeTokens
    others ++ (chain.tokens ++ rest)))
      ((if score then 1 + nesting else 0) + body.controls (nesting + 1)) (bodyDeepest (nesting + 1) body)
      (bodyUnbraced body)) (chain.tokens ++ rest) (1 + nesting) 0 0) rest
    hHeight.2 (by omega) hChainValid hFollows rfl
  rw [ifChain, bind_ok hBranch]
  refine Eq.trans (if_neg (not_not.mpr rfl)) ?_
  refine Eq.trans (bind_ok (else_eq rfl (by simp [hHead]))) ?_
  refine Eq.trans (if_neg (not_not.mpr hHead)) ?_
  refine Eq.trans hChain ?_
  rw [advance_advance, advance_advance]
  simp [Tree.controls, Tree.deepest, Tree.unbraced, Tree.tail, bodyDeepest, bodyUnbraced, Nat.add_assoc]

theorem parses (t : Tree k) : Parses t := by
  induction t with
  | simple expression => exact parses_simple expression
  | breaks => exact parses_breaks
  | continues => exact parses_continues
  | goto label => exact parses_goto label
  | labelled label attributes body ih => exact parses_labelled ih
  | block body ih => exact parses_block ih
  | conditional chain ih => exact parses_conditional ih
  | headed which header attributes body ih => exact parses_headed ih
  | doWhile attributes body header ih => exact parses_doWhile ih
  | tries body handlers ihBody ihHandlers => exact parses_tries ihBody ihHandlers
  | done => exact parses_done
  | next attributes first rest ihFirst ihRest => exact parses_next ihFirst ihRest
  | last condition attributes body ih => exact parses_last ih
  | otherwise condition attributes body others other ih ihOther => exact parses_otherwise ih ihOther
  | elseIf condition attributes body others chain ih ihChain => exact parses_elseIf ih ihChain
  | unhandled => exact parses_unhandled
  | handler header body rest ihBody ihRest => exact parses_handler ihBody ihRest

theorem FunctionBody.parse_eq {f : FunctionBody} (h : f.WithinLimits) :
    parse f.tokens = .ok (advance { rest := f.tokens } [] (f.body.controls 0 + f.handlers.controls 0)
      f.maxNesting
      (f.body.unbraced + f.handlers.unbraced)) := by
  have hHeight := Nat.max_le.mp h.height
  have hBody := ParsesSequence.compound (parses f.body) _ 0 { rest := f.tokens } _ hHeight.1
    h.body rfl
  have hHandlers := parses f.handlers maxControlNesting 0 _ (advance { rest := f.tokens }
    f.handlers.tokens (f.body.controls 0) (f.body.deepest 0) f.body.unbraced) []
    hHeight.2 h.handlers nofun (append_nil _).symm le_rfl
  rw [advance_advance] at hHandlers
  rw [parse]
  refine Eq.trans (if_pos rfl) ?_
  refine Eq.trans (bind_ok hBody) ?_
  refine Eq.trans (bind_ok hHandlers) ?_
  rfl

/-! ## The metric -/

/-- The text of a body with its comments and literals blanked and its braces spelled as such. -/
def structural (words : WordCodes) (body : Text) : Text := replaceDigraphs (maskCppLiterals words body)

theorem cppCognitiveMetric_read {body : Text}
    (hRenders : Renders (structural words body) tokens) (hDirective : 0x23 ∉ structural words body)
    (hLambda : ∃ masked, maskCppLambdaBodies words (structural words body) = .ok (masked, []))
    (hTokens : tokens.length ≤ maxTokensPerFunction) (hValidate : validateDelimiters [] tokens = .ok ()) :
    cppCognitiveMetric words body = (parse tokens).map fun parser => {
      cognitive := parser.cognitive + (tokens.foldl ExpressionCount.step {}).cognitive
      maxNesting := parser.maxNesting
      unbracedControls := parser.unbracedControls
      logicalSequences := (tokens.foldl ExpressionCount.step {}).sequences
      excludedLambdas := 0
      preprocessorConditional := hasConditionalDirective words (structural words body) } := by
  obtain ⟨masked, hMasked⟩ := hLambda
  obtain rfl := maskCppLambdaBodies_eq hMasked
  have hFound : findTokens (maskCppPreprocessorDirectives (structural words body)) = tokens := by
    rw [maskCppPreprocessorDirectives_eq hDirective, findTokens_of_renders hRenders]
  rw [cppCognitiveMetric]
  refine Eq.trans (bind_ok hMasked) ?_
  dsimp only
  rw [hFound, if_neg (Nat.not_lt.mpr hTokens)]
  refine Eq.trans (bind_ok hValidate) ?_
  cases parse tokens <;> rfl

theorem FunctionBody.metric_eq {body : Text} {f : FunctionBody}
    (hRenders : Renders (structural words body) f.tokens) (hDirective : 0x23 ∉ structural words body)
    (hLambda : ∃ masked, maskCppLambdaBodies words (structural words body) = .ok (masked, []))
    (hLimits : f.WithinLimits) :
    ∃ metric, cppCognitiveMetric words body = .ok metric ∧ metric.cognitive = f.cognitive ∧
      metric.maxNesting = f.maxNesting := by
  have hRead := cppCognitiveMetric_read hRenders hDirective hLambda hLimits.tokens f.validate
  rw [FunctionBody.parse_eq hLimits] at hRead
  refine ⟨_, hRead, ?_, Nat.zero_max _⟩
  have hCount := FunctionBody.count_eq hLimits.bodyApart hLimits.handlersApart
  simp only [hCount, advance, Nat.zero_add]
  rfl

theorem cpp_cognitive_follows_tree (words : WordCodes) :
    (∀ (body : Text) (f : FunctionBody), Renders (structural words body) f.tokens →
      0x23 ∉ structural words body →
      (∃ masked, maskCppLambdaBodies words (structural words body) = .ok (masked, [])) → f.WithinLimits →
      ∃ metric, cppCognitiveMetric words body = .ok metric ∧ metric.cognitive = f.cognitive ∧
        metric.maxNesting = f.maxNesting) ∧
    ∀ body, (∃ metric, cppCognitiveMetric words body = .ok metric) ∨
      ∃ text, cppCognitiveMetric words body = .error (valueError text) := by
  refine ⟨fun body f => FunctionBody.metric_eq, fun body => ?_⟩
  have hWithin := cppCognitiveMetric_within words body
  cases hMetric : cppCognitiveMetric words body with
  | ok metric => exact .inl ⟨metric, rfl⟩
  | error e =>
    rw [hMetric] at hWithin
    obtain ⟨text, rfl⟩ := hWithin
    exact .inr ⟨text, rfl⟩

def sampleBody : FunctionBody where
  body := .next [] (.headed .for' ⟨[.semicolon, .semicolon], .semicolon (.semicolon .nil)⟩ []
    (.block (.next [] (.conditional (.otherwise
      (.header false ⟨[.name (py "a"), .both, .name (py "b")], .atom rfl (.atom rfl (.atom rfl .nil))⟩) []
      (.simple ⟨[.name (py "c")], .atom rfl .nil, ⟨nofun, nofun⟩⟩) []
      (.block (.next [] .breaks .done)))) .done))) .done
  handlers := .unhandled

def sampleText : Text := py "\x7bfor(;;)\x7bif(a&&b) c; else\x7bbreak;\x7d\x7d\x7d"

def sampleLexemes : List Lexeme :=
  sampleBody.tokens.flatMap fun token =>
    if token ∈ [Token.keyword .else', .name (py "c")] then [.plain 0x20, .token token] else [.token token]

theorem sample_followed : ∃ metric, cppCognitiveMetric Core.asciiWords sampleText = .ok metric ∧
    metric.cognitive = 7 ∧ metric.maxNesting = 2 := by
  refine (cpp_cognitive_follows_tree Core.asciiWords).1 sampleText sampleBody
    ⟨sampleLexemes, by decide +kernel, by decide +kernel, by decide +kernel⟩ (by decide +kernel)
    ⟨sampleText, by decide +kernel⟩ ⟨by decide +kernel, by decide +kernel, ?_,
      Tree.valid_unhandled _ _, ?_, Tree.apart_unhandled _⟩
  · simp [sampleBody, Tree.Valid, Tree.isLabelled, Tree.isConditional, Tree.tail, Tree.endsOpen, Tree.links,
    isConsteval, behindColon, maxControlNesting, Headed.loops]
  · simp [sampleBody, Tree.Apart, AttributesApart, Unbroken, attributeTokens, logicalChanges, logicalWord,
    separates, lastOperator, lastOperator]

def emptyInside : Inside := ⟨[], .nil⟩

def emptyExpression : Expression := ⟨[], .nil, ⟨nofun, nofun⟩⟩

def longChain : ℕ → Tree .chain
  | 0 => .otherwise (.header false emptyInside) [] (.simple emptyExpression) [] (.simple emptyExpression)
  | n + 1 => .elseIf (.header false emptyInside) [] (.simple emptyExpression) [] (longChain n)

def longChainBody : FunctionBody := ⟨.next [] (.conditional (longChain 128)) .done, .unhandled⟩

def longChainText : Text := py "\x7b" ++ (List.replicate 129 (py "if();else ")).flatten ++ py ";\x7d"

def longChainLexemes : List Lexeme := longChainBody.tokens.flatMap fun token =>
  if token = .keyword .else' then [.token token, .plain 0x20] else [.token token]

theorem longChainText_structural : structural Core.asciiWords longChainText = longChainText :=
    by decide +kernel

theorem longChain_renders : Renders longChainText longChainBody.tokens :=
  ⟨longChainLexemes, by decide +kernel, by decide +kernel, by decide +kernel⟩

theorem long_chain_refused : (Renders (structural Core.asciiWords longChainText) longChainBody.tokens ∧
      0x23 ∉ longChainText ∧ 0x5b ∉ longChainText ∧
      max longChainBody.body.height longChainBody.handlers.height ≤ maxControlNesting) ∧
    cppCognitiveMetric Core.asciiWords longChainText =
      .error (valueError (py "else-if chain exceeds the bounded limit")) := by
  have hRenders := longChain_renders
  rw [← longChainText_structural] at hRenders
  refine ⟨⟨hRenders, by decide +kernel, by decide +kernel, by decide +kernel⟩, ?_⟩
  have hSquares : delimiterClosings longChainText 0x5b 0x5d = .ok [] := by decide +kernel
  have hBraces : delimiterClosings longChainText 0x7b 0x7d = .ok [(0, longChainText.length - 1)] := by
    decide +kernel
  have hLambda : ∃ masked,
      maskCppLambdaBodies Core.asciiWords (structural Core.asciiWords longChainText) = .ok (masked, []) := by
    rw [longChainText_structural]
    exact ⟨_, maskCppLambdaBodies_plain (by decide +kernel) hSquares hBraces⟩
  have hParse : parse longChainBody.tokens =
      .error (valueError (py "else-if chain exceeds the bounded limit")) := by decide +kernel
  rw [cppCognitiveMetric_read hRenders (by rw [longChainText_structural]; decide +kernel) hLambda
    (by decide +kernel) longChainBody.validate, hParse]
  rfl

end Ici.CppTrees
