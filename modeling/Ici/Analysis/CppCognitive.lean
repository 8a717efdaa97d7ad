import Ici.Analysis.CppText

/-! # Bounded cognitive complexity of C++ functions

A lexical metric of one function body: the tokens are read off the masked text, and a small statement parser
weighs the controls by their nesting. -/

namespace Ici.CppCognitive

open Python CppText
open Core (WordCodes)

/-! ## Tokens -/

inductive Keyword where
  | if'
  | for'
  | while'
  | switch'
  | do'
  | else'
  | catch'
  | try'
  | break'
  | continue'
  | goto'
  | case'
  | default'
  | and'
  | or'
  | constexpr'
  | consteval'
deriving DecidableEq

namespace Keyword

def all : List Keyword :=
  [if', for', while', switch', do', else', catch', try', break', continue', goto', case', default', and',
    or', constexpr', consteval']

def spelling : Keyword → Text
  | if' => py "if"
  | for' => py "for"
  | while' => py "while"
  | switch' => py "switch"
  | do' => py "do"
  | else' => py "else"
  | catch' => py "catch"
  | try' => py "try"
  | break' => py "break"
  | continue' => py "continue"
  | goto' => py "goto"
  | case' => py "case"
  | default' => py "default"
  | and' => py "and"
  | or' => py "or"
  | constexpr' => py "constexpr"
  | consteval' => py "consteval"

def isControl : Keyword → Bool
  | if' | for' | while' | switch' | do' => true
  | _ => false

def isJump : Keyword → Bool
  | break' | continue' | goto' => true
  | _ => false

end Keyword

inductive Token where
  | keyword (word : Keyword)
  | name (word : Text)
  | both
  | either
  | scope
  | arrow
  | attributeOpen
  | attributeClose
  | braceOpen
  | braceClose
  | bracketOpen
  | bracketClose
  | parenOpen
  | parenClose
  | comma
  | semicolon
  | question
  | colon
  | bang
deriving DecidableEq

namespace Token

def spelling : Token → Text
  | keyword word => word.spelling
  | name word => word
  | both => py "&&"
  | either => py "||"
  | scope => py "::"
  | arrow => py "->"
  | attributeOpen => py "[["
  | attributeClose => py "]]"
  | braceOpen => py "\x7b"
  | braceClose => py "\x7d"
  | bracketOpen => py "["
  | bracketClose => py "]"
  | parenOpen => py "("
  | parenClose => py ")"
  | comma => py ","
  | semicolon => py ";"
  | question => py "?"
  | colon => py ":"
  | bang => py "!"

def ofWord (word : Text) : Token :=
  match Keyword.all.find? (·.spelling = word) with
  | some known => .keyword known
  | none => .name word

def ofPair (c d : CodePoint) : Option Token :=
  [both, either, scope, arrow, attributeOpen, attributeClose].find? (·.spelling = [c, d])

def ofSign (c : CodePoint) : Option Token :=
  [braceOpen, braceClose, bracketOpen, bracketClose, parenOpen, parenClose, comma, semicolon, question, colon,
    bang].find? (·.spelling = [c])

/-- `token in _CONTROL_WORDS`. -/
def isControl : Token → Bool
  | keyword word => word.isControl
  | _ => false

def isJump : Token → Bool
  | keyword word => word.isJump
  | _ => false

end Token

def isWordStart (c : CodePoint) : Bool :=
  (0x41 ≤ c.val && c.val ≤ 0x5a) || (0x61 ≤ c.val && c.val ≤ 0x7a) || c == 0x5f

def isWordPart (c : CodePoint) : Bool := isWordStart c || (0x30 ≤ c.val && c.val ≤ 0x39)

def wordToken (word : Text) : List Token := if word = [] then [] else [.ofWord word]

/-- `_TOKEN_RE.findall`, behind the beginning of a word. -/
def tokensFrom (word : Text) : Text → List Token
  | [] => wordToken word
  | [c] =>
    if word ≠ [] ∧ isWordPart c then wordToken (word ++ [c])
    else wordToken word ++ if isWordStart c then wordToken [c] else (Token.ofSign c).toList
  | c :: d :: rest =>
    if word ≠ [] ∧ isWordPart c then tokensFrom (word ++ [c]) (d :: rest)
    else wordToken word ++ match Token.ofPair c d with
      | some token => token :: tokensFrom [] rest
      | none =>
        if isWordStart c then tokensFrom [c] (d :: rest)
        else (Token.ofSign c).toList ++ tokensFrom [] (d :: rest)

def findTokens (t : Text) : List Token := tokensFrom [] t

def closes : Token → Option Token
  | .parenClose => some .parenOpen
  | .bracketClose => some .bracketOpen
  | .braceClose => some .braceOpen
  | .attributeClose => some .attributeOpen
  | _ => none

def isOpening (token : Token) : Bool :=
  token ∈ [Token.parenOpen, .bracketOpen, .braceOpen, .attributeOpen]

/-- `_validate_delimiters`, with the delimiters that are open. -/
def validateDelimiters (stack : List Token) : List Token → Result Unit
  | [] => if stack = [] then .ok () else .error (valueError (py "unclosed delimiter in function body"))
  | token :: rest =>
    if isOpening token then validateDelimiters (token :: stack) rest
    else match closes token with
      | none => validateDelimiters stack rest
      | some opening =>
        if stack.head? = some opening then validateDelimiters stack.tail rest
        else .error (valueError (py "mismatched delimiter in function body"))

inductive Logical where
  | and'
  | or'
deriving DecidableEq

def logicalWord : Token → Option Logical
  | .both | .keyword .and' => some .and'
  | .either | .keyword .or' => some .or'
  | _ => none

def isBoundary (token : Token) : Bool :=
  token ∈ [Token.comma, .semicolon, .braceOpen, .braceClose, .colon] || token.isControl ||
    token ∈ [Token.keyword .catch', .keyword .else']

structure ExpressionCount where
  cognitive : ℕ := 0
  sequences : ℕ := 0
  operator : Option Logical := none
deriving DecidableEq

def ExpressionCount.step (count : ExpressionCount) (token : Token) : ExpressionCount :=
  match logicalWord token with
  | some operator =>
    if count.operator = some operator then count
    else { cognitive := count.cognitive + 1, sequences := count.sequences + 1, operator := some operator }
  | none =>
    if token.isJump then { count with cognitive := count.cognitive + 1 }
    else if token = .question then { count with cognitive := count.cognitive + 1, operator := none }
    else if isBoundary token then { count with operator := none }
    else count

/-! ## Statements -/

def maxControlNesting : ℕ := 128

def maxTokensPerFunction : ℕ := 1000000

/-- `_CppControlParser`. The tokens at its position and behind are kept, and how often it may still recurse is
an argument of its own. -/
structure Parser where
  rest : List Token
  cognitive : ℕ := 0
  maxNesting : ℕ := 0
  unbracedControls : ℕ := 0
  loopDepth : ℕ := 0
  switchDepth : ℕ := 0
deriving DecidableEq

def streamEnded : PyError := valueError (py "function token stream ended unexpectedly")

/-- `_balanced`, behind the opening token. -/
def skipBalanced (opening closing : Token) (depth : ℕ) : List Token → Result (List Token)
  | [] => .error streamEnded
  | token :: rest =>
    let depth := if token = opening then depth + 1 else if token = closing then depth - 1 else depth
    if depth = 0 then .ok rest else skipBalanced opening closing depth rest

/-- `_attributes`: the depth is zero between two attributes. -/
def skipAttributes (depth : ℕ) : List Token → Result (List Token)
  | [] => if depth = 0 then .ok [] else .error streamEnded
  | token :: rest =>
    if depth = 0 ∧ token ≠ .attributeOpen then .ok (token :: rest)
    else skipAttributes (if token = .attributeOpen then depth + 1
      else if token = .attributeClose then depth - 1 else depth) rest

def startsStatement (token : Token) : Bool :=
  token.isControl || token ∈ [Token.keyword .catch', .keyword .else', .keyword .try']

def unterminated : PyError := valueError (py "simple statement is missing its terminating semicolon")

/-- The loop of `_simple`; `moved` says that it is past its start. -/
def simpleFrom (moved : Bool) (parentheses braces : ℕ) : List Token → Result (List Token)
  | [] =>
    if parentheses ≠ 0 ∨ braces ≠ 0 then
      .error (valueError (py "unclosed expression delimiter in function body"))
    else .error unterminated
  | token :: rest =>
    let isTop : Bool := parentheses = 0 && braces = 0
    -- a label does not swallow the control behind it
    if moved ∧ isTop ∧ startsStatement token then .error unterminated
    else if token = .parenClose ∧ parentheses = 0 then
      .error (valueError (py "unmatched closing parenthesis in function body"))
    else if token = .braceClose ∧ isTop then .error unterminated
    else if isTop ∧ (token = .colon ∨ token = .semicolon) then .ok rest
    else simpleFrom true
      (if token = .parenOpen then parentheses + 1 else if token = .parenClose then parentheses - 1
        else parentheses)
      (if token = .braceOpen then braces + 1 else if token = .braceClose then braces - 1 else braces) rest

namespace Parser

variable (p : Parser)

def peek : Option Token := p.rest.head?

def withRest (rest : Result (List Token)) : Result Parser := rest.map fun rest => { p with rest }

def take (expected : Token) : Result Parser :=
  match p.rest with
  | [] => .error streamEnded
  | token :: rest =>
    if token = expected then .ok { p with rest }
    else .error (valueError (py "expected " ++ pyRepr expected.spelling ++ py ", found " ++
      pyRepr token.spelling))

def header : Result Parser :=
  if p.peek ≠ some .parenOpen then
    .error (valueError (py "control statement is missing its parenthesized header"))
  else p.withRest (skipBalanced .parenOpen .parenClose 1 p.rest.tail)

def attributes : Result Parser := p.withRest (skipAttributes 0 p.rest)

def validateSimpleStart : Result Unit :=
  match p.peek with
  | some (.keyword .case') => if p.switchDepth = 0 then
      .error (valueError (py "case label is outside a switch statement")) else .ok ()
  | some (.keyword .default') => if p.switchDepth = 0 then
      .error (valueError (py "default label is outside a switch statement")) else .ok ()
  | some (.keyword .break') => if p.loopDepth = 0 ∧ p.switchDepth = 0 then
      .error (valueError (py "break statement is outside a loop or switch")) else .ok ()
  | some (.keyword .continue') => if p.loopDepth = 0 then
      .error (valueError (py "continue statement is outside a loop")) else .ok ()
  | _ => .ok ()

def simple : Result Parser := do
  p.validateSimpleStart
  p.withRest (simpleFrom false 0 0 p.rest)

/-- `self.cognitive += 1 + nesting`. -/
def score (nesting : ℕ) : Parser := { p with cognitive := p.cognitive + 1 + nesting }

end Parser

section Statements

-- `_statement`, one level further down
variable (statement : ℕ → Parser → Result Parser)

def statements (nesting : ℕ) : ℕ → Parser → Result Parser
  | fuel, p =>
    if p.peek = none ∨ p.peek = some .braceClose then .ok p
    else match fuel with
      | 0 => .error noReturn
      | fuel + 1 => do
        let p ← statement nesting p
        statements nesting fuel p

section

variable (nesting : ℕ) (p : Parser)

def compound : Result Parser := do
  let p ← p.take .braceOpen
  let p ← statements statement nesting p.rest.length p
  p.take .braceClose

def controlledBody : Result Parser :=
  if p.peek = some .braceOpen then
    compound statement nesting { p with maxNesting := max p.maxNesting nesting }
  else statement nesting { p with unbracedControls := p.unbracedControls + 1 }

/-- The head of an `if`: whether it is `consteval`. -/
def ifHead (p : Parser) : Result (Bool × Parser) := do
  let p := if p.peek = some (.keyword .constexpr') then { p with rest := p.rest.tail } else p
  let p ← if p.peek = some .bang then
      if p.rest.tail.head? ≠ some (.keyword .consteval') then
        .error (valueError (py "if ! must be followed by consteval"))
      else .ok { p with rest := p.rest.tail }
    else .ok p
  if p.peek = some (.keyword .consteval') then return (true, { p with rest := p.rest.tail })
  else do
    let p ← p.header
    return (false, p)

/-- One `if` of a chain with its branch: whether it is `consteval`. -/
def ifBranch (nesting : ℕ) (score : Bool) (p : Parser) : Result (Bool × Parser) := do
  let p ← p.take (.keyword .if')
  let (isConsteval, p) ← ifHead (if score then p.score nesting else p)
  let p ← p.attributes
  if isConsteval ∧ p.peek ≠ some .braceOpen then
    .error (valueError (py "if consteval requires a compound statement"))
  let p ← controlledBody statement (nesting + 1) p
  return (isConsteval, p)

/-- `_if`: how long the chain may still get, and whether this `if` is scored. -/
def ifChain (nesting : ℕ) : ℕ → Bool → Parser → Result Parser
  | 0, _, _ => .error (valueError (py "else-if chain exceeds the bounded limit"))
  | left + 1, score, p => do
    let (isConsteval, p) ← ifBranch statement nesting score p
    if p.peek ≠ some (.keyword .else') then return p
    else do
      let p ← ({ p with rest := p.rest.tail }.score nesting).attributes
      if p.peek ≠ some (.keyword .if') then
        if isConsteval ∧ p.peek ≠ some .braceOpen then
          .error (valueError (py "if consteval else requires a compound statement"))
        else controlledBody statement (nesting + 1) p
      -- an else-if extends the chain, the branch is its increment
      else ifChain nesting left false p

def doStatement : Result Parser := do
  let p ← p.take (.keyword .do')
  let p ← (p.score nesting).attributes
  let p ← controlledBody statement (nesting + 1) { p with loopDepth := p.loopDepth + 1 }
  let p ← { p with loopDepth := p.loopDepth - 1 }.take (.keyword .while')
  let p ← p.header
  p.take .semicolon

def catchHandler : Result Parser := do
  let p ← p.take (.keyword .catch')
  let p ← (p.score nesting).header
  let p ← p.attributes
  controlledBody statement (nesting + 1) p

def handlers (nesting : ℕ) : ℕ → Parser → Result Parser
  | fuel, p =>
    if p.peek ≠ some (.keyword .catch') then .ok p
    else match fuel with
      | 0 => .error noReturn
      | fuel + 1 => do
        let p ← catchHandler statement nesting p
        handlers nesting fuel p

def tryStatement : Result Parser := do
  let p ← p.take (.keyword .try')
  if p.peek ≠ some .braceOpen then
    .error (valueError (py "try must be followed by a compound statement"))
  let p ← compound statement nesting p
  if p.peek ≠ some (.keyword .catch') then
    .error (valueError (py "try statement is missing a catch handler"))
  else handlers statement nesting p.rest.length p

/-- The controls of `_control` with a header of their own. -/
def headedControl (nesting : ℕ) (word : Keyword) (p : Parser) : Result Parser := do
  let p ← p.take (.keyword word)
  let p ← (p.score nesting).header
  let p ← p.attributes
  if word = .switch' then do
    let p ← controlledBody statement (nesting + 1) { p with switchDepth := p.switchDepth + 1 }
    return { p with switchDepth := p.switchDepth - 1 }
  else do
    let p ← controlledBody statement (nesting + 1) { p with loopDepth := p.loopDepth + 1 }
    return { p with loopDepth := p.loopDepth - 1 }

def control (nesting : ℕ) (word : Keyword) (p : Parser) : Result Parser :=
  match word with
  | .if' => ifChain statement nesting maxControlNesting true p
  | .do' => doStatement statement nesting p
  | word => headedControl statement nesting word p

def unattributed : Result Parser :=
  match p.peek with
  | none => .ok p
  | some .braceOpen => compound statement nesting p
  | some (.keyword .try') => tryStatement statement nesting p
  | some (.keyword .catch') => .error (valueError (py "catch handler is missing its matching try"))
  | some (.keyword .else') => .error (valueError (py "else statement is missing its matching if"))
  | some .braceClose => .error (valueError (py "unmatched closing brace in function body"))
  | some (.keyword word) => if word.isControl then control statement nesting word p else p.simple
  | some _ => p.simple

end

end Statements

/-- `_statement`: how much deeper it may recurse, and the nesting it scores with. -/
def statement : ℕ → ℕ → Parser → Result Parser
  | 0, _, _ => .error (valueError (py "control nesting exceeds the bounded limit"))
  | left + 1, nesting, p => do
    let p ← p.attributes
    unattributed (statement left) nesting p

def trailing : ℕ → Parser → Result Parser
  | fuel, p =>
    if p.rest = [] then .ok p
    else match fuel with
      | 0 => .error noReturn
      | fuel + 1 => do
        let p ← statement maxControlNesting 0 p
        trailing fuel p

def parse (tokens : List Token) : Result Parser := do
  let p : Parser := { rest := tokens }
  let p ← if p.peek = some .braceOpen then do
      let p ← compound (statement maxControlNesting) 0 p
      handlers (statement maxControlNesting) 0 p.rest.length p
    else .ok p
  trailing p.rest.length p

structure CppCognitiveMetric where
  cognitive : ℕ
  maxNesting : ℕ
  unbracedControls : ℕ
  logicalSequences : ℕ
  excludedLambdas : ℕ
  preprocessorConditional : Bool
deriving DecidableEq

def cppCognitiveMetric (words : WordCodes) (body : Text) : Result CppCognitiveMetric := do
  let (withoutLambdas, lambdaRanges) ←
    maskCppLambdaBodies words (replaceDigraphs (maskCppLiterals words body))
  let conditional := hasConditionalDirective words withoutLambdas
  let tokens := findTokens (maskCppPreprocessorDirectives withoutLambdas)
  if maxTokensPerFunction < tokens.length then
    .error (valueError (py "function token count exceeds the bounded limit"))
  validateDelimiters [] tokens
  let expressions := tokens.foldl ExpressionCount.step {}
  let parser ← parse tokens
  return {
    cognitive := parser.cognitive + expressions.cognitive
    maxNesting := parser.maxNesting
    unbracedControls := parser.unbracedControls
    logicalSequences := expressions.sequences
    excludedLambdas := lambdaRanges.length
    preprocessorConditional := conditional }

end Ici.CppCognitive
