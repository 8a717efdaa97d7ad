import Ici.Analysis.CppCognitive

/-! # C++ statement trees

What a function body is made of, how it is spelled in tokens, and the metric as a recursion over the tree. -/

namespace Ici.CppTrees

open Python CppCognitive

/-! ## Expressions -/

inductive Delimiter where
  | parentheses
  | brackets
  | braces
  | attributes
deriving DecidableEq

namespace Delimiter

def opening : Delimiter → Token
  | parentheses => .parenOpen
  | brackets => .bracketOpen
  | braces => .braceOpen
  | attributes => .attributeOpen

def closing : Delimiter → Token
  | parentheses => .parenClose
  | brackets => .bracketClose
  | braces => .braceClose
  | attributes => .attributeClose

def hides : Delimiter → Bool
  | parentheses | braces => true
  | brackets | attributes => false

end Delimiter

def isAtom : Token → Bool
  | .name _ | .both | .either | .scope | .arrow | .comma | .question | .bang => true
  | .keyword word => word ∈ [Keyword.and', .or', .constexpr', .consteval']
  | _ => false

def PlainHead (tokens : List Token) : Prop :=
  tokens.head? ≠ some .braceOpen ∧ tokens.head? ≠ some .attributeOpen

/-- The tokens of an expression or a declaration; `hidden` when parentheses or braces stand around. -/
inductive Balanced : Bool → List Token → Prop
  | nil {hidden : Bool} : Balanced hidden []
  | atom {hidden : Bool} {token : Token} {rest : List Token} (hAtom : isAtom token = true)
      (hRest : Balanced hidden rest) : Balanced hidden (token :: rest)
  | semicolon {rest : List Token} (hRest : Balanced true rest) : Balanced true (.semicolon :: rest)
  | colon {hidden : Bool} {rest : List Token} (hPlain : hidden = false → PlainHead rest)
      (hRest : Balanced hidden rest) : Balanced hidden (.colon :: rest)
  | group {hidden : Bool} {inside rest : List Token} (delimiter : Delimiter)
      (hInside : Balanced (hidden || delimiter.hides) inside) (hRest : Balanced hidden rest) :
      Balanced hidden (delimiter.opening :: (inside ++ delimiter.closing :: rest))

/-- What stands in the parentheses of a header or between the brackets of an attribute. -/
structure Inside where
  tokens : List Token
  balanced : Balanced true tokens

structure Expression where
  tokens : List Token
  balanced : Balanced false tokens
  plain : PlainHead tokens

def attributeTokens (attributes : List Inside) : List Token :=
  attributes.flatMap fun inside => .attributeOpen :: (inside.tokens ++ [.attributeClose])

/-! ## Statements -/

inductive Label where
  | case (value : Expression)
  | default
  | name (word : Text)

namespace Label

def tokens : Label → List Token
  | case value => .keyword .case' :: value.tokens
  | default => [.keyword .default']
  | name word => [.name word]

def isCase : Label → Bool
  | name _ => false
  | _ => true

end Label

/-- What stands between `if` and its branch. -/
inductive Condition where
  | header (isConstexpr : Bool) (inside : Inside)
  | consteval (negated : Bool)

namespace Condition

def tokens : Condition → List Token
  | header isConstexpr inside =>
    (if isConstexpr then [.keyword .constexpr'] else []) ++ .parenOpen :: (inside.tokens ++ [.parenClose])
  | consteval negated => (if negated then [.bang] else []) ++ [.keyword .consteval']

def isConsteval : Condition → Bool
  | header _ _ => false
  | consteval _ => true

end Condition

inductive Headed where
  | for'
  | while'
  | switch'
deriving DecidableEq

namespace Headed

def word : Headed → Keyword
  | for' => .for'
  | while' => .while'
  | switch' => .switch'

def loops : Headed → ℕ
  | for' | while' => 1
  | switch' => 0

def switches : Headed → ℕ
  | for' | while' => 0
  | switch' => 1

end Headed

inductive Kind where
  | statement
  | sequence
  | chain
  | handlers

/-- The statements, their sequences, the chains of `if` and `else`, and the handlers of a `try`. -/
inductive Tree : Kind → Type where
  | simple (expression : Expression) : Tree .statement
  | breaks : Tree .statement
  | continues : Tree .statement
  | goto (label : Text) : Tree .statement
  | labelled (label : Label) (attributes : List Inside) (body : Tree .statement) : Tree .statement
  | block (body : Tree .sequence) : Tree .statement
  | conditional (chain : Tree .chain) : Tree .statement
  | headed (which : Headed) (header : Inside) (attributes : List Inside) (body : Tree .statement) :
      Tree .statement
  | doWhile (attributes : List Inside) (body : Tree .statement) (header : Inside) : Tree .statement
  | tries (body : Tree .sequence) (handlers : Tree .handlers) : Tree .statement
  | done : Tree .sequence
  | next (attributes : List Inside) (first : Tree .statement) (rest : Tree .sequence) : Tree .sequence
  | last (condition : Condition) (attributes : List Inside) (body : Tree .statement) : Tree .chain
  | otherwise (condition : Condition) (attributes : List Inside) (body : Tree .statement)
      (others : List Inside) (other : Tree .statement) : Tree .chain
  | elseIf (condition : Condition) (attributes : List Inside) (body : Tree .statement)
      (others : List Inside) (chain : Tree .chain) : Tree .chain
  | unhandled : Tree .handlers
  | handler (header : Inside) (body : Tree .sequence) (rest : Tree .handlers) : Tree .handlers

namespace Tree

def parenthesized (inside : Inside) : List Token := .parenOpen :: (inside.tokens ++ [.parenClose])

def tokens {k : Kind} : Tree k → List Token
  | simple expression => expression.tokens ++ [.semicolon]
  | breaks => [.keyword .break', .semicolon]
  | continues => [.keyword .continue', .semicolon]
  | goto label => [.keyword .goto', .name label, .semicolon]
  | labelled label attributes body => label.tokens ++ .colon :: (attributeTokens attributes ++ body.tokens)
  | block body => .braceOpen :: (body.tokens ++ [.braceClose])
  | conditional chain => chain.tokens
  | headed which header attributes body =>
    .keyword which.word :: (parenthesized header ++ (attributeTokens attributes ++ body.tokens))
  | doWhile attributes body header =>
    .keyword .do' :: (attributeTokens attributes ++ (body.tokens ++
      .keyword .while' :: (parenthesized header ++ [.semicolon])))
  | tries body handlers =>
    .keyword .try' :: .braceOpen :: (body.tokens ++ .braceClose :: handlers.tokens)
  | done => []
  | next attributes first rest => attributeTokens attributes ++ (first.tokens ++ rest.tokens)
  | last condition attributes body =>
    .keyword .if' :: (condition.tokens ++ (attributeTokens attributes ++ body.tokens))
  | otherwise condition attributes body others other =>
    .keyword .if' :: (condition.tokens ++ (attributeTokens attributes ++ (body.tokens ++
      .keyword .else' :: (attributeTokens others ++ other.tokens))))
  | elseIf condition attributes body others chain =>
    .keyword .if' :: (condition.tokens ++ (attributeTokens attributes ++ (body.tokens ++
      .keyword .else' :: (attributeTokens others ++ chain.tokens))))
  | unhandled => []
  | handler header body rest =>
    .keyword .catch' :: (parenthesized header ++ .braceOpen :: (body.tokens ++ .braceClose :: rest.tokens))

def isBlock {k : Kind} : Tree k → Bool
  | block _ => true
  | _ => false

def isLabelled {k : Kind} : Tree k → Bool
  | labelled _ _ _ => true
  | _ => false

def isConditional {k : Kind} : Tree k → Bool
  | conditional _ => true
  | _ => false

/-! ## The metric -/

/-- What the controls of a tree cost at a nesting: one and the nesting for each control,
    `else` and `catch`. -/
def controls {k : Kind} (nesting : ℕ) : Tree k → ℕ
  | simple _ | breaks | continues | goto _ | done | unhandled => 0
  | labelled _ _ body => body.controls nesting
  | block body => body.controls nesting
  | conditional chain => 1 + nesting + chain.controls nesting
  | headed _ _ _ body => 1 + nesting + body.controls (nesting + 1)
  | doWhile _ body _ => 1 + nesting + body.controls (nesting + 1)
  | tries body handlers => body.controls nesting + handlers.controls nesting
  | next _ first rest => first.controls nesting + rest.controls nesting
  | last _ _ body => body.controls (nesting + 1)
  | otherwise _ _ body _ other =>
    body.controls (nesting + 1) + (1 + nesting + other.controls (nesting + 1))
  -- the branch is the increment
  | elseIf _ _ body _ chain => body.controls (nesting + 1) + (1 + nesting + chain.controls nesting)
  | handler _ body rest => 1 + nesting + body.controls (nesting + 1) + rest.controls nesting

def deepest {k : Kind} (nesting : ℕ) : Tree k → ℕ
  | simple _ | breaks | continues | goto _ | done | unhandled => 0
  | labelled _ _ body => body.deepest nesting
  | block body => body.deepest nesting
  | conditional chain => chain.deepest nesting
  | headed _ _ _ body => max (if body.isBlock then nesting + 1 else 0) (body.deepest (nesting + 1))
  | doWhile _ body _ => max (if body.isBlock then nesting + 1 else 0) (body.deepest (nesting + 1))
  | tries body handlers => max (body.deepest nesting) (handlers.deepest nesting)
  | next _ first rest => max (first.deepest nesting) (rest.deepest nesting)
  | last _ _ body => max (if body.isBlock then nesting + 1 else 0) (body.deepest (nesting + 1))
  | otherwise _ _ body _ other =>
    max (max (if body.isBlock then nesting + 1 else 0) (body.deepest (nesting + 1)))
      (max (if other.isBlock then nesting + 1 else 0) (other.deepest (nesting + 1)))
  | elseIf _ _ body _ chain =>
    max (max (if body.isBlock then nesting + 1 else 0) (body.deepest (nesting + 1)))
      (chain.deepest nesting)
  | handler _ body rest => max (max (nesting + 1) (body.deepest (nesting + 1))) (rest.deepest nesting)

def unbraced {k : Kind} : Tree k → ℕ
  | simple _ | breaks | continues | goto _ | done | unhandled => 0
  | labelled _ _ body => body.unbraced
  | block body => body.unbraced
  | conditional chain => chain.unbraced
  | headed _ _ _ body => (if body.isBlock then 0 else 1) + body.unbraced
  | doWhile _ body _ => (if body.isBlock then 0 else 1) + body.unbraced
  | tries body handlers => body.unbraced + handlers.unbraced
  | next _ first rest => first.unbraced + rest.unbraced
  | last _ _ body => (if body.isBlock then 0 else 1) + body.unbraced
  | otherwise _ _ body _ other =>
    (if body.isBlock then 0 else 1) + body.unbraced + ((if other.isBlock then 0 else 1) + other.unbraced)
  | elseIf _ _ body _ chain => (if body.isBlock then 0 else 1) + body.unbraced + chain.unbraced
  | handler _ body rest => body.unbraced + rest.unbraced

end Tree

def separates (token : Token) : Bool :=
  token ∈ [Token.comma, .semicolon, .colon, .question, .braceOpen, .braceClose]

def logicalChanges (before : Option Logical) : List Token → ℕ
  | [] => 0
  | token :: rest =>
    match logicalWord token with
    | some operator => (if before = some operator then 0 else 1) + logicalChanges (some operator) rest
    | none => logicalChanges (if separates token then none else before) rest

def lastOperator (before : Option Logical) : List Token → Option Logical
  | [] => before
  | token :: rest =>
    match logicalWord token with
    | some operator => lastOperator (some operator) rest
    | none => lastOperator (if separates token then none else before) rest

/-- One for each conditional operator and each change of the logical operator. -/
def weight (tokens : List Token) : ℕ := tokens.count .question + logicalChanges none tokens

def attributesWeight (attributes : List Inside) : ℕ := (attributes.map fun inside => weight inside.tokens).sum

namespace Condition

def weight : Condition → ℕ
  | header _ inside => CppTrees.weight inside.tokens
  | consteval _ => 0

end Condition

namespace Tree

def expressions {k : Kind} : Tree k → ℕ
  | simple expression => weight expression.tokens
  | breaks | continues | goto _ => 1
  | labelled label attributes body => weight label.tokens + attributesWeight attributes + body.expressions
  | block body => body.expressions
  | conditional chain => chain.expressions
  | headed _ header attributes body =>
    weight header.tokens + attributesWeight attributes + body.expressions
  | doWhile attributes body header =>
    attributesWeight attributes + body.expressions + weight header.tokens
  | tries body handlers => body.expressions + handlers.expressions
  | next attributes first rest => attributesWeight attributes + first.expressions + rest.expressions
  | last condition attributes body => condition.weight + attributesWeight attributes + body.expressions
  | otherwise condition attributes body others other =>
    condition.weight + attributesWeight attributes + body.expressions +
      (attributesWeight others + other.expressions)
  | elseIf condition attributes body others chain =>
    condition.weight + attributesWeight attributes + body.expressions +
      (attributesWeight others + chain.expressions)
  | handler header body rest => weight header.tokens + body.expressions + rest.expressions
  | done | unhandled => 0

end Tree

/-! ## What is within the limits -/

def behindColon (depth : ℕ) : List Token → List Token
  | [] => []
  | token :: rest =>
    if token = .colon ∧ depth = 0 then rest
    else if token = .parenOpen ∨ token = .braceOpen then behindColon (depth + 1) rest
    else if token = .parenClose ∨ token = .braceClose then behindColon (depth - 1) rest
    else behindColon depth rest

namespace Tree

def tail {k : Kind} : Tree k → List Token
  | simple expression => behindColon 0 (expression.tokens ++ [.semicolon])
  | conditional chain => chain.tail
  | headed _ _ _ body => body.tail
  | last _ _ body => body.tail
  | otherwise _ _ _ _ other => other.tail
  | elseIf _ _ _ _ chain => chain.tail
  | _ => []

/-- Whether an `else` that follows would belong to the tree. -/
def endsOpen {k : Kind} : Tree k → Bool
  | labelled _ _ body => body.endsOpen
  | conditional chain => chain.endsOpen
  | headed _ _ _ body => body.endsOpen
  | last _ _ _ => true
  | otherwise _ _ _ _ other => other.endsOpen
  | elseIf _ _ _ _ chain => chain.endsOpen
  | _ => false

def links {k : Kind} : Tree k → ℕ
  | elseIf _ _ _ _ chain => chain.links + 1
  | _ => 1

def height {k : Kind} : Tree k → ℕ
  | simple _ | breaks | continues | goto _ => 1
  | labelled _ _ body => body.height
  | block body => body.height + 1
  | conditional chain => chain.height + 1
  | headed _ _ _ body => body.height - body.isBlock.toNat + 1
  | doWhile _ body _ => body.height - body.isBlock.toNat + 1
  | tries body handlers => max body.height handlers.height + 1
  | done | unhandled => 0
  | next _ first rest => max first.height rest.height
  | last _ _ body => body.height - body.isBlock.toNat
  | otherwise _ _ body _ other =>
    max (body.height - body.isBlock.toNat) (other.height - other.isBlock.toNat)
  | elseIf _ _ body _ chain => max (body.height - body.isBlock.toNat) chain.height
  | handler _ body rest => max body.height rest.height

/-- The language's own rules: jumps and labels stand where they may, an `else` belongs to the nearest `if`;
and those of the parser for a body without braces. -/
def Valid {k : Kind} (loops switches : ℕ) : Tree k → Prop
  | simple _ | goto _ | done | unhandled => True
  | breaks => 0 < loops ∨ 0 < switches
  | continues => 0 < loops
  | labelled label _ body => (label.isCase → 0 < switches) ∧ body.Valid loops switches
  | block body => body.Valid loops switches
  | conditional chain => chain.links ≤ maxControlNesting ∧ chain.Valid loops switches
  | headed which _ _ body =>
    ¬body.isLabelled ∧ body.Valid (loops + which.loops) (switches + which.switches)
  | doWhile _ body _ => ¬body.isLabelled ∧ body.tail = [] ∧ body.Valid (loops + 1) switches
  | tries body handlers =>
    handlers.tokens ≠ [] ∧ body.Valid loops switches ∧ handlers.Valid loops switches
  | next _ first rest => first.Valid loops switches ∧ rest.Valid loops switches
  | last condition _ body =>
    ¬body.isLabelled ∧ (condition.isConsteval → body.isBlock) ∧ body.Valid loops switches
  | otherwise condition _ body _ other =>
    ¬body.isLabelled ∧ (condition.isConsteval → body.isBlock) ∧ body.Valid loops switches ∧
      (body.tail = [] ∧ ¬body.endsOpen) ∧ ¬other.isLabelled ∧ ¬other.isConditional ∧
      (condition.isConsteval → other.isBlock) ∧ other.Valid loops switches
  | elseIf condition _ body _ chain =>
    ¬body.isLabelled ∧ (condition.isConsteval → body.isBlock) ∧ body.Valid loops switches ∧
      (body.tail = [] ∧ ¬body.endsOpen) ∧ chain.Valid loops switches
  | handler _ body rest => body.Valid loops switches ∧ rest.Valid loops switches

end Tree

def Unbroken (before : Option Logical) (tokens : List Token) : Prop :=
  logicalChanges before tokens = logicalChanges none tokens

def AttributesApart (before : Option Logical) (attributes : List Inside) : Prop :=
  logicalChanges before (attributeTokens attributes) =
    (attributes.map fun inside => logicalChanges none inside.tokens).sum

namespace Condition

def lastOperator : Condition → Option Logical
  | header _ inside => CppTrees.lastOperator none inside.tokens
  | consteval _ => none

end Condition

namespace Tree

/-- No sequence of a logical operator goes on from a header or an attribute into the statement behind it. -/
def Apart {k : Kind} (before : Option Logical) : Tree k → Prop
  | simple expression => Unbroken before expression.tokens
  | breaks | continues | goto _ | done | unhandled => True
  | labelled label attributes body =>
    Unbroken before label.tokens ∧ AttributesApart none attributes ∧
      body.Apart (lastOperator none (attributeTokens attributes))
  | block body => body.Apart none
  | conditional chain => chain.Apart none
  | headed _ header attributes body =>
    AttributesApart (lastOperator none header.tokens) attributes ∧
      body.Apart (lastOperator (lastOperator none header.tokens) (attributeTokens attributes))
  | doWhile attributes body _ =>
    AttributesApart none attributes ∧ body.Apart (lastOperator none (attributeTokens attributes))
  | tries body handlers => body.Apart none ∧ handlers.Apart none
  | next attributes first rest =>
    AttributesApart none attributes ∧ first.Apart (lastOperator none (attributeTokens attributes)) ∧
      rest.Apart none
  | last condition attributes body =>
    AttributesApart condition.lastOperator attributes ∧
      body.Apart (lastOperator condition.lastOperator (attributeTokens attributes))
  | otherwise condition attributes body others other =>
    (AttributesApart condition.lastOperator attributes ∧
      body.Apart (lastOperator condition.lastOperator (attributeTokens attributes))) ∧
      AttributesApart none others ∧ other.Apart (lastOperator none (attributeTokens others))
  | elseIf condition attributes body others chain =>
    (AttributesApart condition.lastOperator attributes ∧
      body.Apart (lastOperator condition.lastOperator (attributeTokens attributes))) ∧
      AttributesApart none others ∧ chain.Apart none
  | handler _ body rest => body.Apart none ∧ rest.Apart none

section

variable (expression : Expression)

@[simp]
theorem tokens_simple : (simple expression).tokens = expression.tokens ++ [.semicolon] := by rw [tokens]

@[simp]
theorem tail_simple :
    (simple expression).tail = behindColon 0 (expression.tokens ++ [.semicolon]) := by rw [tail]

@[simp]
theorem controls_simple (nesting : ℕ) : (simple expression).controls nesting = 0 := by rw [controls]

@[simp]
theorem deepest_simple (nesting : ℕ) : (simple expression).deepest nesting = 0 := by rw [deepest]

@[simp]
theorem unbraced_simple : (simple expression).unbraced = 0 := by rw [unbraced]

@[simp]
theorem height_simple : (simple expression).height = 1 := by rw [height]

end

theorem valid_unhandled (loops switches : ℕ) : unhandled.Valid loops switches := by
  rw [Valid]
  trivial

theorem apart_unhandled (before : Option Logical) : unhandled.Apart before := by
  rw [Apart]
  trivial

end Tree

/-- A compound statement, and the handlers of a function `try` block. -/
structure FunctionBody where
  body : Tree .sequence
  handlers : Tree .handlers

namespace FunctionBody

variable (f : FunctionBody)

def tokens : List Token := .braceOpen :: (f.body.tokens ++ .braceClose :: f.handlers.tokens)

def cognitive : ℕ :=
  f.body.controls 0 + f.handlers.controls 0 + (f.body.expressions + f.handlers.expressions)

def maxNesting : ℕ := max (f.body.deepest 0) (f.handlers.deepest 0)

structure WithinLimits : Prop where
  tokens : f.tokens.length ≤ maxTokensPerFunction
  height : max f.body.height f.handlers.height ≤ maxControlNesting
  body : f.body.Valid 0 0
  handlers : f.handlers.Valid 0 0
  bodyApart : f.body.Apart none
  handlersApart : f.handlers.Apart none

end FunctionBody

end Ici.CppTrees
