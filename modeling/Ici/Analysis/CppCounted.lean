import Ici.Analysis.CppBalanced

/-! # The tokens of a tree are counted as its expressions

The delimiters of a tree match, and the walk over all the tokens finds the operators and jumps that the
recursion over the tree counts. -/

namespace Ici.CppTrees

open List Python CppCognitive ExpressionCount

/-! ## Delimiters -/

def Matched (tokens : List Token) : Prop :=
  ∀ stack rest, validateDelimiters stack (tokens ++ rest) = validateDelimiters stack rest

namespace Matched

theorem nil : Matched [] := fun _ _ => rfl

theorem append {xs ys : List Token} (hx : Matched xs) (hy : Matched ys) : Matched (xs ++ ys) := by
  intro stack rest
  rw [append_assoc, hx, hy]

theorem cons {token : Token} {tokens : List Token} (hOpening : isOpening token = false)
    (hCloses : closes token = none) (h : Matched tokens) : Matched (token :: tokens) := by
  intro stack rest
  rw [cons_append, validateDelimiters_other hOpening hCloses, h]

theorem group (delimiter : Delimiter) {inside rest : List Token} (hInside : Matched inside)
    (hRest : Matched rest) : Matched (delimiter.opening :: (inside ++ delimiter.closing :: rest)) := by
  intro stack more
  rw [cons_append, append_assoc, cons_append, validateDelimiters_opening, hInside,
    validateDelimiters_closing, hRest]

end Matched

variable {hidden : Bool} {tokens : List Token} {k : Kind} {attributes : List Inside}
  {before : Option Logical}

theorem Balanced.matched (h : Balanced hidden tokens) : Matched tokens :=
  h.validate

theorem matched_parenthesized (header : Inside) {rest : List Token} (h : Matched rest) :
    Matched (Tree.parenthesized header ++ rest) := by
  have hGroup := Matched.group .parentheses header.balanced.matched h
  simpa [Tree.parenthesized, Delimiter.opening, Delimiter.closing] using hGroup

theorem matched_attributes (attributes : List Inside) : Matched (attributeTokens attributes) := by
  induction attributes with
  | nil => exact .nil
  | cons inside attributes ih =>
    have hGroup := Matched.group .attributes inside.balanced.matched ih
    simpa [attributeTokens, Delimiter.opening, Delimiter.closing] using hGroup

theorem matched_condition (condition : Condition) : Matched condition.tokens := by
  cases condition with
  | header isConstexpr inside =>
    have hHeader := matched_parenthesized inside .nil
    rw [append_nil] at hHeader
    cases isConstexpr with
    | true => exact .cons rfl rfl hHeader
    | false => exact hHeader
  | consteval negated =>
    cases negated with
    | true => exact .cons rfl rfl (.cons rfl rfl .nil)
    | false => exact .cons rfl rfl .nil

theorem matched_label (label : Label) : Matched label.tokens := by
  cases label with
  | case value => exact .cons rfl rfl value.balanced.matched
  | default | name word => exact .cons rfl rfl .nil

theorem Tree.matched (t : Tree k) : Matched t.tokens := by
  induction t with
  | simple expression => exact expression.balanced.matched.append (.cons rfl rfl .nil)
  | breaks | continues => exact .cons rfl rfl (.cons rfl rfl .nil)
  | goto label => exact .cons rfl rfl (.cons rfl rfl (.cons rfl rfl .nil))
  | labelled label attributes body ih =>
    exact (matched_label label).append (.cons rfl rfl ((matched_attributes attributes).append ih))
  | block body ih => exact .group .braces ih .nil
  | conditional chain ih => exact ih
  | headed which header attributes body ih =>
    exact .cons rfl rfl (matched_parenthesized header ((matched_attributes attributes).append ih))
  | doWhile attributes body header ih =>
    refine .cons rfl rfl ((matched_attributes attributes).append (ih.append (.cons rfl rfl ?_)))
    exact matched_parenthesized header (.cons rfl rfl .nil)
  | tries body handlers ihBody ihHandlers => exact .cons rfl rfl (.group .braces ihBody ihHandlers)
  | done => exact .nil
  | next attributes first rest ihFirst ihRest =>
    exact (matched_attributes attributes).append (ihFirst.append ihRest)
  | last condition attributes body ih =>
    exact .cons rfl rfl ((matched_condition condition).append ((matched_attributes attributes).append ih))
  | otherwise condition attributes body others other ih ihOther
  | elseIf condition attributes body others other ih ihOther =>
    refine .cons rfl rfl ((matched_condition condition).append ((matched_attributes attributes).append ?_))
    exact ih.append (.cons rfl rfl ((matched_attributes others).append ihOther))
  | unhandled => exact .nil
  | handler header body rest ihBody ihRest =>
    exact .cons rfl rfl (matched_parenthesized header (.group .braces ihBody ihRest))

theorem FunctionBody.validate (f : FunctionBody) : validateDelimiters [] f.tokens = .ok () := by
  have h := Matched.group .braces f.body.matched f.handlers.matched [] []
  rw [append_nil] at h
  exact h

/-! ## Operators and jumps -/

def Counts (before : Option Logical) (tokens : List Token) (count : ℕ) (after : Option Logical) : Prop :=
  ∀ c : ExpressionCount, c.operator = before → (tokens.foldl step c).cognitive = c.cognitive + count ∧
      (tokens.foldl step c).operator = after

namespace Counts

theorem nil (before : Option Logical) : Counts before [] 0 before := fun _ h => ⟨rfl, h⟩

theorem append {a b c : Option Logical} {xs ys : List Token} {n m : ℕ} (hx : Counts a xs n b)
    (hy : Counts b ys m c) : Counts a (xs ++ ys) (n + m) c := by
  intro start hStart
  obtain ⟨hCount, hAfter⟩ := hx start hStart
  obtain ⟨hCount', hAfter'⟩ := hy _ hAfter
  rw [foldl_append]
  exact ⟨by omega, hAfter'⟩

theorem cons {a b c : Option Logical} {token : Token} {tokens : List Token} {n m : ℕ}
    (h : Counts a [token] n b) (hTokens : Counts b tokens m c) : Counts a (token :: tokens) (n + m) c :=
  h.append hTokens

theorem congr {a b : Option Logical} {tokens : List Token} {n m : ℕ} (h : Counts a tokens n b) (hEq : n = m) :
    Counts a tokens m b := hEq ▸ h

end Counts

def isUncounted (token : Token) : Bool :=
  logicalWord token = none && !token.isJump && token ≠ .question && !isBoundary token

theorem counts_uncounted (token : Token) (h : isUncounted token) (before : Option Logical) :
    Counts before [token] 0 before := by
  intro c hBefore
  simp only [isUncounted, Bool.and_eq_true, decide_eq_true_eq, Bool.not_eq_true', ne_eq] at h
  obtain ⟨⟨⟨hLogical, hJump⟩, hQuestion⟩, hBoundary⟩ := h
  simp [step, hLogical, hJump, hQuestion, hBoundary, hBefore]

def isReset (token : Token) : Bool :=
  logicalWord token = none && !token.isJump && token ≠ .question && isBoundary token

theorem counts_reset (token : Token) (h : isReset token) (before : Option Logical) :
    Counts before [token] 0 none := by
  intro c _
  simp only [isReset, Bool.and_eq_true, decide_eq_true_eq, Bool.not_eq_true', ne_eq] at h
  obtain ⟨⟨⟨hLogical, hJump⟩, hQuestion⟩, hBoundary⟩ := h
  simp [step, hLogical, hJump, hQuestion, hBoundary]

theorem counts_jump {word : Keyword} (h : word.isJump) (before : Option Logical) :
    Counts before [.keyword word] 1 before := by
  intro c hBefore
  cases word <;> first | exact ⟨rfl, hBefore⟩ | cases h

theorem counts_token {token : Token} (h : inExpression token) (before : Option Logical) :
    Counts before [token] ([token].count .question + logicalChanges before [token])
      (lastOperator before [token]) := by
  intro c hBefore
  subst hBefore
  have hJump : token.isJump = false := by
    cases token with
    | keyword word => cases word <;> first | rfl | exact absurd h (by decide)
    | _ => rfl
  have hBoundary : token ≠ .question → isBoundary token = separates token := by
    intro hQuestion
    cases token with
    | keyword word => cases word <;> first | rfl | exact absurd h (by decide)
    | question => exact absurd rfl hQuestion
    | _ => rfl
  cases hLogical : logicalWord token with
  | some operator =>
    have hQuestion : token ≠ .question := fun hEq => by
      subst hEq
      cases hLogical
    by_cases hSame : c.operator = some operator <;>
      simp [step, logicalChanges, lastOperator, hLogical, hSame, hQuestion]
  | none =>
    by_cases hQuestion : token = .question
    · subst hQuestion
      exact ⟨rfl, rfl⟩
    · have hSeparates := hBoundary hQuestion
      cases hReset : separates token <;>
        simp [step, logicalChanges, lastOperator, hLogical, hJump, hQuestion, hSeparates, hReset]

theorem logicalChanges_append (before : Option Logical) (xs ys : List Token) :
    logicalChanges before (xs ++ ys) = logicalChanges before xs + logicalChanges (lastOperator before xs)
      ys := by
  induction xs generalizing before with
  | nil => simp [logicalChanges, lastOperator]
  | cons token xs ih =>
    cases hLogical : logicalWord token with
    | some operator => simp [logicalChanges, lastOperator, hLogical, ih, Nat.add_assoc]
    | none => simp [logicalChanges, lastOperator, hLogical, ih]

theorem lastOperator_append (before : Option Logical) (xs ys : List Token) :
    lastOperator before (xs ++ ys) = lastOperator (lastOperator before xs) ys := by
  induction xs generalizing before with
  | nil => rfl
  | cons token xs ih =>
    cases hLogical : logicalWord token with
    | some operator | none => simp [lastOperator, hLogical, ih]

theorem counts_expression (h : ∀ token ∈ tokens, inExpression token) (before : Option Logical) :
    Counts before tokens (tokens.count .question + logicalChanges before tokens)
      (lastOperator before tokens) := by
  induction tokens generalizing before with
  | nil => exact .nil before
  | cons token tokens ih =>
    have hHead := counts_token (h token mem_cons_self) before
    have hTail := ih (fun token hToken => h token (mem_cons_of_mem _ hToken))
      (lastOperator before [token])
    have hBoth := hHead.cons hTail
    rw [← lastOperator_append] at hBoth
    refine hBoth.congr ?_
    rw [← singleton_append (l := tokens), count_append, logicalChanges_append]
    omega

theorem counts_unbroken (h : Balanced hidden tokens)
    {before : Option Logical} (hUnbroken : Unbroken before tokens) :
    Counts before tokens (weight tokens) (lastOperator before tokens) := by
  have hCounts := counts_expression h.inExpression before
  rwa [hUnbroken] at hCounts

theorem counts_parenthesized (header : Inside) :
    Counts none (Tree.parenthesized header) (weight header.tokens) (lastOperator none header.tokens) := by
  have hInside := counts_unbroken header.balanced (rfl : Unbroken none _)
  have hClosed := (counts_uncounted .parenOpen rfl none).cons
    (hInside.append (counts_uncounted .parenClose rfl _))
  exact hClosed.congr (by omega)

section

variable (attributes : List Inside)

theorem attributeTokens_inExpression : ∀ token ∈ attributeTokens attributes, inExpression token := by
  intro token hToken
  obtain ⟨inside, -, hToken⟩ := mem_flatMap.mp hToken
  simp only [mem_cons, mem_append, not_mem_nil, or_false] at hToken
  rcases hToken with rfl | hToken | rfl
  · decide
  · exact inside.balanced.inExpression token hToken
  · decide

theorem count_attributeTokens :
    (attributeTokens attributes).count .question = (attributes.map fun inside => inside.tokens.count
      .question).sum := by
  induction attributes with
  | nil => rfl
  | cons inside attributes ih =>
    have hHead : attributeTokens (inside :: attributes) =
        .attributeOpen :: (inside.tokens ++ .attributeClose :: attributeTokens attributes) := by
      simp [attributeTokens]
    rw [hHead, map_cons, sum_cons, ← ih]
    simp

theorem attributesWeight_eq :
    attributesWeight attributes = (attributes.map fun inside => inside.tokens.count .question).sum +
      (attributes.map fun inside => logicalChanges none inside.tokens).sum := by
  rw [attributesWeight, ← sum_map_add]
  rfl

end

theorem counts_attributes (h : AttributesApart before attributes) :
    Counts before (attributeTokens attributes) (attributesWeight attributes)
      (lastOperator before (attributeTokens attributes)) := by
  have hCounts := counts_expression (attributeTokens_inExpression attributes) before
  rw [h, count_attributeTokens] at hCounts
  exact hCounts.congr (attributesWeight_eq attributes).symm

theorem counts_condition (condition : Condition) :
    Counts none condition.tokens condition.weight condition.lastOperator := by
  cases condition with
  | header isConstexpr inside =>
    have hHeader := counts_parenthesized inside
    cases isConstexpr with
    | true => exact ((counts_uncounted (.keyword .constexpr') rfl none).cons hHeader).congr (Nat.zero_add _)
    | false => exact hHeader
  | consteval negated =>
    have hWord := counts_uncounted (.keyword .consteval') rfl none
    cases negated with
    | true => exact (counts_uncounted .bang rfl none).cons hWord
    | false => exact hWord

theorem counts_label {label : Label} (h : Unbroken before label.tokens) :
    Counts before label.tokens (weight label.tokens) (lastOperator before label.tokens) := by
  cases label with
  | case value =>
    have hValue : Unbroken before value.tokens := h
    have hCounts := (counts_uncounted (.keyword .case') rfl before).cons
      (counts_unbroken value.balanced hValue)
    exact hCounts.congr (Nat.zero_add _)
  | default | name word => exact counts_uncounted _ rfl before

def Counted : {k : Kind} → Tree k → Prop
  | .statement, s => ∀ before, s.Apart before → Counts before s.tokens s.expressions none
  | .sequence, ss => ss.Apart none → Counts none ss.tokens ss.expressions none
  | .chain, chain => ∀ before, chain.Apart none → Counts before chain.tokens chain.expressions none
  | .handlers, hs => hs.Apart none → Counts none hs.tokens hs.expressions none

/-- An `if` up to its branch. -/
theorem counts_branch {condition : Condition} {body : Tree .statement}
    (h : Counted body) (hAttributes : AttributesApart condition.lastOperator attributes)
    (hBody : body.Apart (lastOperator condition.lastOperator (attributeTokens attributes)))
    (before : Option Logical) :
    Counts before (.keyword .if' :: (condition.tokens ++ (attributeTokens attributes ++ body.tokens)))
      (condition.weight + attributesWeight attributes + body.expressions) none := by
  have hCounts := (counts_reset (.keyword .if') rfl before).cons
    ((counts_condition condition).append ((counts_attributes hAttributes).append (h _ hBody)))
  exact hCounts.congr (by omega)

theorem counted (t : Tree k) : Counted t := by
  induction t with
  | simple expression =>
    intro before hApart
    exact (counts_unbroken expression.balanced hApart).append (counts_reset _ rfl _)
  | breaks | continues => exact fun before _ => (counts_jump rfl before).cons (counts_reset _ rfl _)
  | goto label =>
    exact fun before _ => (counts_jump rfl before).cons ((counts_uncounted _ rfl _).cons (counts_reset _ rfl
      _))
  | labelled label attributes body ih =>
    rintro before ⟨hLabel, hAttributes, hBody⟩
    have hCounts := (counts_label hLabel).append ((counts_reset .colon rfl _).cons
      ((counts_attributes hAttributes).append (ih _ hBody)))
    exact hCounts.congr (by simp only [Tree.expressions]; omega)
  | block body ih =>
    intro before hBody
    have hCounts := (counts_reset .braceOpen rfl before).cons
      ((ih hBody).append (counts_reset .braceClose rfl _))
    exact hCounts.congr (by simp only [Tree.expressions]; omega)
  | conditional chain ih => exact ih
  | headed which header attributes body ih =>
    rintro before ⟨hAttributes, hBody⟩
    have hWord : isReset (.keyword which.word) := by cases which <;> rfl
    have hCounts := (counts_reset _ hWord before).cons ((counts_parenthesized header).append
      ((counts_attributes hAttributes).append (ih _ hBody)))
    exact hCounts.congr (by simp only [Tree.expressions]; omega)
  | doWhile attributes body header ih =>
    rintro before ⟨hAttributes, hBody⟩
    have hEnd := (counts_parenthesized header).append (counts_reset .semicolon rfl _)
    have hCounts := (counts_reset (.keyword .do') rfl before).cons ((counts_attributes hAttributes).append
      ((ih _ hBody).append ((counts_reset (.keyword .while') rfl _).cons hEnd)))
    exact hCounts.congr (by simp only [Tree.expressions]; omega)
  | tries body handlers ihBody ihHandlers =>
    rintro before ⟨hBody, hHandlers⟩
    have hCounts := (counts_uncounted (.keyword .try') rfl before).cons
      ((counts_reset .braceOpen rfl _).cons ((ihBody hBody).append
        ((counts_reset .braceClose rfl _).cons (ihHandlers hHandlers))))
    exact hCounts.congr (by simp only [Tree.expressions]; omega)
  | done | unhandled => exact fun _ => .nil none
  | next attributes first rest ihFirst ihRest =>
    rintro ⟨hAttributes, hFirst, hRest⟩
    have hCounts := (counts_attributes hAttributes).append ((ihFirst _ hFirst).append (ihRest hRest))
    exact hCounts.congr (by simp only [Tree.expressions]; omega)
  | last condition attributes body ih =>
    rintro before ⟨hAttributes, hBody⟩
    exact counts_branch ih hAttributes hBody before
  | otherwise condition attributes body others other ih ihOther
  | elseIf condition attributes body others other ih ihOther =>
    rintro before ⟨⟨hAttributes, hBody⟩, hOthers, hOther⟩
    have hCounts := (counts_branch ih hAttributes hBody before).append
      ((counts_reset (.keyword .else') rfl _).cons ((counts_attributes hOthers).append (ihOther _ hOther)))
    simp only [cons_append, append_assoc] at hCounts
    exact hCounts.congr (by simp only [Tree.expressions]; omega)
  | handler header body rest ihBody ihRest =>
    rintro ⟨hBody, hRest⟩
    have hCounts := (counts_reset (.keyword .catch') rfl none).cons ((counts_parenthesized header).append
      ((counts_reset .braceOpen rfl _).cons ((ihBody hBody).append
        ((counts_reset .braceClose rfl _).cons (ihRest hRest)))))
    exact hCounts.congr (by simp only [Tree.expressions]; omega)

theorem FunctionBody.count_eq {f : FunctionBody} (hBody : f.body.Apart none)
    (hHandlers : f.handlers.Apart none) :
    (f.tokens.foldl step {}).cognitive = f.body.expressions + f.handlers.expressions := by
  have hCounts := (counts_reset .braceOpen rfl none).cons ((counted f.body hBody).append
    ((counts_reset .braceClose rfl _).cons (counted f.handlers hHandlers)))
  refine (hCounts {} rfl).1.trans ?_
  simp only
  omega

end Ici.CppTrees
