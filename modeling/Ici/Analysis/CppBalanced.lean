import Ici.Analysis.CppTrees

/-! # Scanning balanced tokens

Every scanner of the metric passes over the tokens of an expression as if they were none; only a statement is
left behind the first colon that stands outside parentheses and braces. -/

namespace Ici.CppTrees

open List Python CppCognitive Delimiter

/-! ## Tokens of an expression -/

def isNeutral (token : Token) : Bool := isAtom token || token ∈ [Token.semicolon, .colon]

theorem ne_of_test {test : Token → Bool} {token other : Token} (h : test token = true)
    (hOther : test other = false) : token ≠ other := by
  rintro rfl
  rw [h] at hOther
  cases hOther

theorem isNeutral_of_isAtom {token : Token} (h : isAtom token) : isNeutral token := by simp [isNeutral, h]

def inExpression (token : Token) : Bool :=
  isNeutral token || token ∈ [Token.parenOpen, .parenClose, .bracketOpen, .bracketClose, .braceOpen,
    .braceClose, .attributeOpen, .attributeClose]

theorem inExpression_of_isNeutral {token : Token} (h : isNeutral token) : inExpression token := by
  simp [inExpression, h]

theorem inExpression_opening (delimiter : Delimiter) : inExpression delimiter.opening := by
  cases delimiter <;> decide

theorem inExpression_closing (delimiter : Delimiter) : inExpression delimiter.closing := by
  cases delimiter <;> decide

variable {hidden : Bool} {tokens : List Token}

theorem Balanced.inExpression (h : Balanced hidden tokens) :
    ∀ token ∈ tokens, CppTrees.inExpression token := by
  induction h with
  | nil => simp
  | atom hAtom _ ih =>
    exact forall_mem_cons.mpr ⟨inExpression_of_isNeutral (isNeutral_of_isAtom hAtom), ih⟩
  | semicolon _ ih | colon _ _ ih => exact forall_mem_cons.mpr ⟨by decide, ih⟩
  | group delimiter _ _ ihInside ihRest =>
    refine forall_mem_cons.mpr ⟨inExpression_opening delimiter, ?_⟩
    refine forall_mem_append.mpr ⟨ihInside, ?_⟩
    exact forall_mem_cons.mpr ⟨inExpression_closing delimiter, ihRest⟩

theorem Balanced.pass {σ α : Type} (scan : σ → List Token → α) (inside : σ → Prop) (enter : Delimiter → σ → σ)
    (hNeutral : ∀ s token rest, inside s → isNeutral token → scan s (token :: rest) = scan s rest)
    (hEnter : ∀ s delimiter, inside s → inside (enter delimiter s))
    (hOpen : ∀ s (delimiter : Delimiter) rest, inside s →
      scan s (delimiter.opening :: rest) = scan (enter delimiter s) rest)
    (hClose : ∀ s (delimiter : Delimiter) rest, inside s →
      scan (enter delimiter s) (delimiter.closing :: rest) = scan s rest)
    {hidden : Bool} {tokens : List Token} (h : Balanced hidden tokens) (s : σ) (rest : List Token)
    (hInside : inside s) : scan s (tokens ++ rest) = scan s rest := by
  induction h generalizing s rest with
  | nil => rfl
  | atom hAtom _ ih => rw [cons_append, hNeutral s _ _ hInside (isNeutral_of_isAtom hAtom),
    ih s rest hInside]
  | semicolon _ ih | colon _ _ ih => rw [cons_append, hNeutral s _ _ hInside (by decide), ih s rest hInside]
  | group delimiter _ _ ihInside ihRest =>
    rw [cons_append, append_assoc, cons_append, hOpen s delimiter _ hInside,
      ihInside _ _ (hEnter s delimiter hInside), hClose s delimiter _ hInside, ihRest s rest hInside]

section

variable (stack : List Token) (delimiter : Delimiter) (rest : List Token)

theorem validateDelimiters_opening : validateDelimiters stack (delimiter.opening :: rest) =
      validateDelimiters (delimiter.opening :: stack) rest := by
  cases delimiter <;> rfl

theorem validateDelimiters_closing :
    validateDelimiters (delimiter.opening :: stack) (delimiter.closing :: rest) =
      validateDelimiters stack rest := by
  cases delimiter <;> rfl

end

variable {token : Token}

theorem validateDelimiters_other (hOpening : isOpening token = false)
    (hCloses : closes token = none) (stack rest : List Token) :
    validateDelimiters stack (token :: rest) = validateDelimiters stack rest := by
  rw [validateDelimiters, hOpening, hCloses]
  rfl

theorem isNeutral_unopened (h : isNeutral token) : isOpening token = false ∧ closes token = none := by
  cases token with
  | keyword word => exact ⟨rfl, rfl⟩
  | _ => first | exact ⟨rfl, rfl⟩ | exact absurd h (by decide)

theorem Balanced.validate (h : Balanced hidden tokens) (stack rest : List Token) :
    validateDelimiters stack (tokens ++ rest) = validateDelimiters stack rest := by
  refine h.pass validateDelimiters (fun _ => True) (fun delimiter stack => delimiter.opening :: stack)
    ?_ ?_ ?_ ?_ stack rest
    trivial
  · intro stack token rest _ hNeutral
    obtain ⟨hOpening, hCloses⟩ := isNeutral_unopened hNeutral
    exact validateDelimiters_other hOpening hCloses stack rest
  · intro stack delimiter _
    trivial
  · intro stack delimiter rest _
    exact validateDelimiters_opening stack delimiter rest
  · intro stack delimiter rest _
    exact validateDelimiters_closing stack delimiter rest

/-! ## Headers and attributes -/

section

variable (h : Balanced hidden tokens) (depth : ℕ) (rest : List Token)
include h

theorem Balanced.skipBalanced : skipBalanced .parenOpen .parenClose (depth + 1) (tokens ++ rest) =
      CppCognitive.skipBalanced .parenOpen .parenClose (depth + 1) rest := by
  refine h.pass (fun depth rest => CppCognitive.skipBalanced .parenOpen .parenClose depth rest)
    (fun depth => 0 < depth) (fun delimiter depth => if delimiter = .parentheses then depth + 1 else depth)
    ?_ ?_ ?_ ?_ (depth + 1) rest (Nat.succ_pos depth)
  · intro depth token rest hDepth hNeutral
    simp +decide [CppCognitive.skipBalanced, Nat.ne_of_gt hDepth, ne_of_test hNeutral]
  · intro depth delimiter hDepth
    split <;> omega
  · intro depth delimiter rest hDepth
    cases delimiter <;>
      simp [CppCognitive.skipBalanced, opening, Nat.ne_of_gt hDepth]
  · intro depth delimiter rest hDepth
    cases delimiter <;>
      simp [CppCognitive.skipBalanced, closing, Nat.ne_of_gt hDepth]

theorem Balanced.skipAttributes :
    skipAttributes (depth + 1) (tokens ++ rest) = CppCognitive.skipAttributes (depth + 1) rest := by
  refine h.pass CppCognitive.skipAttributes
    (fun depth => 0 < depth) (fun delimiter depth => if delimiter = .attributes then depth + 1 else depth)
    ?_ ?_ ?_ ?_ (depth + 1) rest (Nat.succ_pos depth)
  · intro depth token rest hDepth hNeutral
    simp +decide [CppCognitive.skipAttributes, Nat.ne_of_gt hDepth, ne_of_test hNeutral]
  · intro depth delimiter hDepth
    split <;> omega
  · intro depth delimiter rest hDepth
    cases delimiter <;>
      simp [CppCognitive.skipAttributes, opening, Nat.ne_of_gt hDepth]
  · intro depth delimiter rest hDepth
    cases delimiter <;>
      simp [CppCognitive.skipAttributes, closing, Nat.ne_of_gt hDepth]

end

theorem skipBalanced_header (header : Inside) (rest : List Token) :
    skipBalanced .parenOpen .parenClose 1 (header.tokens ++ .parenClose :: rest) = .ok rest := by
  rw [header.balanced.skipBalanced 0]
  rfl

theorem skipAttributes_plain {rest : List Token} (h : rest.head? ≠ some .attributeOpen) :
    skipAttributes 0 rest = .ok rest := by
  cases rest with
  | nil => rfl
  | cons token rest =>
    have hToken : token ≠ .attributeOpen := fun hEq => h (congrArg some hEq)
    simp [skipAttributes, hToken]

theorem skipAttributes_attributes (attributes : List Inside) {rest : List Token}
    (h : rest.head? ≠ some .attributeOpen) :
    skipAttributes 0 (attributeTokens attributes ++ rest) = .ok rest := by
  induction attributes with
  | nil => exact skipAttributes_plain h
  | cons inside attributes ih =>
    have hTokens : attributeTokens (inside :: attributes) ++ rest =
        .attributeOpen :: (inside.tokens ++ .attributeClose :: (attributeTokens attributes ++ rest)) := by
      simp [attributeTokens]
    rw [hTokens]
    calc skipAttributes 0 (.attributeOpen :: (inside.tokens ++ .attributeClose ::
          (attributeTokens attributes ++ rest)))
        = skipAttributes 1 (inside.tokens ++ .attributeClose :: (attributeTokens attributes ++ rest)) := rfl
      _ = skipAttributes 1 (.attributeClose :: (attributeTokens attributes ++ rest)) :=
          inside.balanced.skipAttributes 0 _
      _ = skipAttributes 0 (attributeTokens attributes ++ rest) := rfl
      _ = .ok rest := ih

theorem startsStatement_inExpression (h : inExpression token) : startsStatement token = false := by
  cases token with
  | keyword word => cases word <;> first | rfl | exact absurd h (by decide)
  | _ => rfl

theorem Balanced.simpleFrom_hidden (h : Balanced hidden tokens)
    (parentheses braces : ℕ) (rest : List Token) (hDepth : 0 < parentheses + braces) :
    simpleFrom true parentheses braces (tokens ++ rest) = simpleFrom true parentheses braces rest := by
  have hTop {parentheses braces : ℕ} (h : 0 < parentheses + braces) : ¬(parentheses = 0 ∧ braces = 0) := by
    omega
  refine h.pass (fun (depths : ℕ × ℕ) rest => simpleFrom true depths.1 depths.2 rest)
    (fun depths => 0 < depths.1 + depths.2)
    (fun delimiter depths => match delimiter with
      | .parentheses => (depths.1 + 1, depths.2)
      | .braces => (depths.1, depths.2 + 1)
      | _ => depths)
    ?_ ?_ ?_ ?_ (parentheses, braces) rest hDepth
  · rintro ⟨parentheses, braces⟩ token rest hDepth hNeutral
    simp +decide [simpleFrom, hTop hDepth, ne_of_test hNeutral]
  · rintro ⟨parentheses, braces⟩ delimiter hDepth
    cases delimiter <;> dsimp only at hDepth ⊢ <;> omega
  · rintro ⟨parentheses, braces⟩ delimiter rest hDepth
    cases delimiter <;> simp [simpleFrom, opening, hTop hDepth]
  · rintro ⟨parentheses, braces⟩ delimiter rest hDepth
    cases delimiter <;> simp [simpleFrom, closing, hTop hDepth]

theorem Balanced.behindColon_hidden (h : Balanced hidden tokens) (depth : ℕ) (rest : List Token) :
    behindColon (depth + 1) (tokens ++ rest) = behindColon (depth + 1) rest := by
  refine h.pass behindColon (fun depth => 0 < depth)
    (fun delimiter depth => if delimiter.hides then depth + 1 else depth) ?_ ?_ ?_ ?_ (depth + 1) rest
    (Nat.succ_pos depth)
  · intro depth token rest hDepth hNeutral
    simp +decide [behindColon, Nat.ne_of_gt hDepth, ne_of_test hNeutral]
  · intro depth delimiter hDepth
    split <;> omega
  · intro depth delimiter rest hDepth
    cases delimiter <;> simp [behindColon, opening, hides]
  · intro depth delimiter rest hDepth
    cases delimiter <;> simp [behindColon, closing, hides]

/-! ## Where a simple statement is left -/

def isLooseAtom (token : Token) : Bool :=
  isAtom token || token ∈ [Token.bracketOpen, .bracketClose, .attributeOpen, .attributeClose]

theorem inExpression_of_isLooseAtom (h : isLooseAtom token) : inExpression token := by
  simp only [isLooseAtom, Bool.or_eq_true, decide_eq_true_eq] at h
  rcases h with hAtom | hBracket
  · exact inExpression_of_isNeutral (isNeutral_of_isAtom hAtom)
  · simp only [mem_cons, not_mem_nil, or_false] at hBracket
    rcases hBracket with rfl | rfl | rfl | rfl <;> decide

inductive Loose : List Token → Prop
  | nil : Loose []
  | atom {token : Token} {rest : List Token} (hToken : isLooseAtom token = true) (hRest : Loose rest) :
      Loose (token :: rest)
  | colon {rest : List Token} (hPlain : PlainHead rest) (hRest : Loose rest) : Loose (.colon :: rest)
  | group {inside rest : List Token} (delimiter : Delimiter) (hHides : delimiter.hides = true)
      (hInside : Balanced true inside) (hRest : Loose rest) :
      Loose (delimiter.opening :: (inside ++ delimiter.closing :: rest))

theorem PlainHead.append {rest : List Token} (h : PlainHead tokens) (hRest : PlainHead rest) :
    PlainHead (tokens ++ rest) := by
  cases tokens with
  | nil => exact hRest
  | cons token tokens => exact h

theorem PlainHead.closing (delimiter : Delimiter) (rest : List Token) :
    PlainHead (delimiter.closing :: rest) := by
  cases delimiter <;> exact ⟨by simp [Delimiter.closing], by simp [Delimiter.closing]⟩

theorem Balanced.loose_append (h : Balanced hidden tokens)
    (hHidden : hidden = false) {rest : List Token} (hRest : Loose rest) (hPlain : PlainHead rest) :
    Loose (tokens ++ rest) := by
  induction h generalizing rest with
  | nil => exact hRest
  | atom hAtom _ ih => exact .atom (by simp [isLooseAtom, hAtom]) (ih hHidden hRest hPlain)
  | semicolon _ _ => cases hHidden
  | colon hHead _ ih => exact .colon ((hHead hHidden).append hPlain) (ih hHidden hRest hPlain)
  | group delimiter hInside _ ihInside ihRest =>
    have hTail := ihRest hHidden hRest hPlain
    rw [cons_append, append_assoc, cons_append]
    subst hHidden
    cases delimiter with
    | parentheses => exact .group .parentheses rfl hInside hTail
    | braces => exact .group .braces rfl hInside hTail
    | brackets =>
      exact .atom (by decide) (ihInside rfl (.atom (by decide) hTail) (.closing .brackets _))
    | attributes =>
      exact .atom (by decide) (ihInside rfl (.atom (by decide) hTail) (.closing .attributes _))

theorem Expression.loose (expression : Expression) : Loose expression.tokens := by
  have h := expression.balanced.loose_append rfl .nil ⟨nofun, nofun⟩
  rwa [append_nil] at h

def Ends (token : Token) : Prop := token = .colon ∨ token = .semicolon

theorem simpleFrom_ends {last : Token} (h : Ends last) (moved : Bool) (rest : List Token) :
    simpleFrom moved 0 0 (last :: rest) = .ok rest := by
  rcases h with rfl | rfl <;> cases moved <;> rfl

theorem behindColon_ends {last : Token} (h : Ends last) : behindColon 0 [last] = [] := by
  rcases h with rfl | rfl <;> rfl

section Atoms

variable {token : Token} (h : isLooseAtom token)
include h

theorem simpleFrom_atom (moved : Bool) (rest : List Token) :
    simpleFrom moved 0 0 (token :: rest) = simpleFrom true 0 0 rest := by
  have hStarts := startsStatement_inExpression (inExpression_of_isLooseAtom h)
  simp +decide [simpleFrom, hStarts, ne_of_test h]

theorem behindColon_atom (rest : List Token) : behindColon 0 (token :: rest) = behindColon 0 rest := by
  simp +decide [behindColon, ne_of_test h]

end Atoms

section Groups

variable {delimiter : Delimiter} (hHides : delimiter.hides = true) {inside : List Token}
  (hInside : Balanced true inside)
include hHides hInside

theorem simpleFrom_group (moved : Bool) (rest : List Token) :
    simpleFrom moved 0 0 (delimiter.opening :: (inside ++ delimiter.closing :: rest)) =
      simpleFrom true 0 0 rest := by
  cases delimiter with
  | parentheses =>
    calc simpleFrom moved 0 0 (.parenOpen :: (inside ++ .parenClose :: rest))
        = simpleFrom true 1 0 (inside ++ .parenClose :: rest) := by
          simp [simpleFrom, startsStatement, Token.isControl]
      _ = simpleFrom true 1 0 (.parenClose :: rest) := hInside.simpleFrom_hidden 1 0 _ (by decide)
      _ = simpleFrom true 0 0 rest := by simp [simpleFrom]
  | braces =>
    calc simpleFrom moved 0 0 (.braceOpen :: (inside ++ .braceClose :: rest))
        = simpleFrom true 0 1 (inside ++ .braceClose :: rest) := by
          simp [simpleFrom, startsStatement, Token.isControl]
      _ = simpleFrom true 0 1 (.braceClose :: rest) := hInside.simpleFrom_hidden 0 1 _ (by decide)
      _ = simpleFrom true 0 0 rest := by simp [simpleFrom]
  | brackets | attributes => cases hHides

theorem behindColon_group (rest : List Token) :
    behindColon 0 (delimiter.opening :: (inside ++ delimiter.closing :: rest)) = behindColon 0 rest := by
  have hSkip := hInside.behindColon_hidden 0 (delimiter.closing :: rest)
  cases delimiter with
  | parentheses =>
    calc behindColon 0 (.parenOpen :: (inside ++ .parenClose :: rest))
        = behindColon 1 (inside ++ .parenClose :: rest) := by simp [behindColon]
      _ = behindColon 1 (.parenClose :: rest) := hSkip
      _ = behindColon 0 rest := by simp [behindColon]
  | braces =>
    calc behindColon 0 (.braceOpen :: (inside ++ .braceClose :: rest))
        = behindColon 1 (inside ++ .braceClose :: rest) := by simp [behindColon]
      _ = behindColon 1 (.braceClose :: rest) := hSkip
      _ = behindColon 0 rest := by simp [behindColon]
  | brackets => cases hHides
  | attributes => cases hHides

end Groups

theorem Loose.simpleFrom (h : Loose tokens) {last : Token} (hEnds : Ends last)
    (moved : Bool) (rest : List Token) :
    simpleFrom moved 0 0 (tokens ++ last :: rest) = .ok (behindColon 0 (tokens ++ [last]) ++ rest) := by
  induction h generalizing moved with
  | nil =>
    rw [nil_append, nil_append, simpleFrom_ends hEnds, behindColon_ends hEnds, nil_append]
  | atom hToken _ ih =>
    rw [cons_append, cons_append, simpleFrom_atom hToken, behindColon_atom hToken]
    exact ih true
  | colon _ _ _ => simp [CppCognitive.simpleFrom, behindColon, startsStatement, Token.isControl]
  | group delimiter hHides hInside _ ih =>
    rw [cons_append, append_assoc, cons_append, cons_append, append_assoc,
      cons_append, simpleFrom_group hHides hInside, behindColon_group hHides hInside]
    exact ih true

theorem Loose.behind (h : Loose tokens) {last : Token} (hEnds : Ends last) :
    behindColon 0 (tokens ++ [last]) = [] ∨
      ∃ shorter, behindColon 0 (tokens ++ [last]) = shorter ++ [last] ∧ Loose shorter ∧
        PlainHead shorter ∧ shorter.length < tokens.length := by
  induction h with
  | nil => exact .inl (behindColon_ends hEnds)
  | atom hToken _ ih =>
    rw [cons_append, behindColon_atom hToken]
    rcases ih with hNone | ⟨shorter, hShorter, hLoose, hPlain, hLength⟩
    · exact .inl hNone
    · exact .inr ⟨shorter, hShorter, hLoose, hPlain, Nat.lt_succ_of_lt hLength⟩
  | colon hPlain hRest _ => exact .inr ⟨_, rfl, hRest, hPlain, Nat.lt_succ_self _⟩
  | group delimiter hHides hInside _ ih =>
    rw [cons_append, append_assoc, cons_append, behindColon_group hHides hInside]
    rcases ih with hNone | ⟨shorter, hShorter, hLoose, hPlain, hLength⟩
    · exact .inl hNone
    · refine .inr ⟨shorter, hShorter, hLoose, hPlain, ?_⟩
      simp only [length_cons, length_append]
      omega

end Ici.CppTrees
