import Ici.Library.Regex

/-! # Redaction of credentials

Six rules run one after another, each on what the last one left. -/

namespace Ici.Core

open List Python Pattern

/-- The word characters of a pattern. Above ASCII they depend on the version of Unicode. -/
structure WordCodes where
  isWord : CodePoint → Bool
  ascii : ∀ c : CodePoint, c.val < 0x80 → isWord c =
    ((0x30 ≤ c.val && c.val ≤ 0x39) || (0x41 ≤ c.val && c.val ≤ 0x5a) ||
      (0x61 ≤ c.val && c.val ≤ 0x7a) || c.val == 0x5f)

def asciiWords : WordCodes where
  isWord c := (0x30 ≤ c.val && c.val ≤ 0x39) || (0x41 ≤ c.val && c.val ≤ 0x5a) ||
    (0x61 ≤ c.val && c.val ≤ 0x7a) || c.val == 0x5f
  ascii _ _ := rfl

def redactedMark : Text := py "***REDACTED***"

def literal (t : Text) : Pattern := t.foldr (fun c rest => cat (one (· == c)) rest) nothing

section

variable (c : CodePoint)

/-- The code points that a letter of a pattern matches when case is ignored. -/
def caseVariants : Text :=
  let upper : Text := if 0x61 ≤ c.val ∧ c.val ≤ 0x7a then [Fin.ofNat 0x110000 (c.val - 0x20)] else []
  let other : Text :=
    if c = 0x69 then [0x130, 0x131] else if c = 0x73 then [0x17f] else if c = 0x6b then [0x212a] else []
  c :: upper ++ other

def word (t : Text) : Pattern := t.foldr (fun c rest => cat (one (· ∈ caseVariants c)) rest) nothing

def anyOf : List Pattern → Pattern
  | [] => one fun _ => false
  | [pattern] => pattern
  | pattern :: rest => alt pattern (anyOf rest)

/-- `[_-]?` between two words. -/
def joined (first second : Text) : Pattern :=
  cat (word first) (cat (many (fun c => c = 0x5f || c = 0x2d) 0 (some 1) true) (word second))

def isAsciiAlnum : Bool :=
  (0x30 ≤ c.val && c.val ≤ 0x39) || (0x41 ≤ c.val && c.val ≤ 0x5a) || (0x61 ≤ c.val && c.val ≤ 0x7a)

/-- The letters that `[A-Za-z]` matches besides its own when case is ignored. -/
def isFoldedLetter : Bool := c ∈ ([0x130, 0x131, 0x17f, 0x212a] : Text)

/-! ## The rules -/

def secretKey : Pattern :=
  group 1 (anyOf [word (py "password"), word (py "passwd"), word (py "secret"),
    joined (py "client") (py "secret"), joined (py "api") (py "key"), joined (py "access") (py "key"),
    joined (py "auth") (py "token"), word (py "token")])

/-- `\s*[=:]\s*`; group 2. -/
def assignmentSign : Pattern :=
  group 2 (cat (many isSpace 0 none true)
    (cat (one fun c => c = 0x3d || c = 0x3a) (many isSpace 0 none true)))

def quotedSecretAssignment : Pattern :=
  cat secretKey (cat assignmentSign (cat (group 3 (one fun c => c = 0x22 || c = 0x27))
    (cat (group 4 (many (fun c => c ≠ 0xd ∧ c ≠ 0xa) 0 none false)) (back 3))))

def isUnquotedValue : Bool :=
  !isSpace c && c ≠ 0x2c && c ≠ 0x3b && c ≠ 0x22 && c ≠ 0x27

def secretAssignment : Pattern :=
  cat secretKey (cat assignmentSign (group 4 (many isUnquotedValue 1 none true)))

def privateKey : Pattern :=
  cat (literal (py "-----BEGIN "))
    (cat (group 5 (cat (many (fun c => (0x41 ≤ c.val && c.val ≤ 0x5a) || c = 0x20) 0 none true)
      (literal (py "PRIVATE KEY"))))
    (cat (literal (py "-----")) (cat (many (fun _ => true) 0 none false)
      (alt (cat (literal (py "-----END ")) (cat (back 5) (literal (py "-----")))) atEnd))))

def bearerToken : Pattern :=
  cat (group 6 (cat wordBoundary (cat (word (py "bearer")) (many isSpace 1 none true))))
    (many (fun c => isAsciiAlnum c || isFoldedLetter c || c ∈ py "._~+/=-") 1 none true)

def flagValue : Pattern :=
  cat (group 6 (cat (one (· == 0x2d)) (cat (many (· == 0x2d) 0 (some 1) true)
    (cat (anyOf [word (py "password"), word (py "passwd"), word (py "secret"), word (py "token"),
        joined (py "api") (py "key")])
      (alt (one (· == 0x3d)) (many isSpace 1 none true))))))
    (group 7 (many (fun c => !isSpace c) 1 none true))

def knownToken : Pattern :=
  cat wordBoundary (cat (anyOf [
      cat (literal (py "gh")) (cat (one (· ∈ py "pousr")) (cat (literal (py "_"))
        (many (fun c => isAsciiAlnum c || c = 0x5f) 20 none true))),
      cat (literal (py "sk-")) (many (fun c => isAsciiAlnum c || c = 0x5f || c = 0x2d) 16 none true),
      cat (literal (py "AKIA")) (many (fun c => (0x30 ≤ c.val && c.val ≤ 0x39) ||
        (0x41 ≤ c.val && c.val ≤ 0x5a)) 16 (some 16) true)])
    wordBoundary)

def matchedGroup (stop : Cursor) (index : ℕ) : Text := (stop.groupText index).getD []

def maskAssignment (stop : Cursor) : Text :=
  matchedGroup stop 1 ++ matchedGroup stop 2 ++ matchedGroup stop 3 ++ redactedMark ++ matchedGroup stop 3

/-- `\1` and the mark. -/
def maskAfter (stop : Cursor) : Text := matchedGroup stop 6 ++ redactedMark

def redactionRules : List (Pattern × (Cursor → Text)) :=
  [(quotedSecretAssignment, maskAssignment), (secretAssignment, maskAssignment),
    (privateKey, fun _ => py "-----BEGIN [REDACTED] PRIVATE KEY-----"), (bearerToken, maskAfter),
    (flagValue, maskAfter), (knownToken, fun _ => redactedMark)]

def redactText (words : WordCodes) (t : Text) : Text :=
  redactionRules.foldl (fun masked rule => rule.1.sub words.isWord rule.2 masked) t

/-! ## What redaction keeps -/

theorem redactText_eq_nil_iff (words : WordCodes) {t : Text} : redactText words t = [] ↔ t = [] := by
  have hMark : redactedMark ≠ [] := by decide
  have hRules : ∀ rule ∈ redactionRules, ∀ stop, rule.2 stop ≠ [] := by
    simp only [redactionRules, forall_mem_cons, not_mem_nil, false_implies, implies_true, and_true]
    refine ⟨fun stop => ?_, fun stop => ?_, fun stop => ?_, fun stop => ?_, fun stop => ?_, fun _ => hMark⟩
    · simp [maskAssignment, hMark]
    · simp [maskAssignment, hMark]
    · exact (by decide : py "-----BEGIN [REDACTED] PRIVATE KEY-----" ≠ [])
    · simp [maskAfter, hMark]
    · simp [maskAfter, hMark]
  unfold redactText
  generalize redactionRules = rules at hRules ⊢
  induction rules generalizing t with
  | nil => exact Iff.rfl
  | cons rule rest ih =>
    obtain ⟨hRule, hRest⟩ := forall_mem_cons.mp hRules
    rw [foldl_cons]
    exact (ih hRest).trans (sub_eq_nil_iff hRule)

def isDigestCode : Bool := c ∈ py "sha256:0123456789bcdef"

end

variable {kind : CodePoint → Prop} {t : Text}

theorem needs_word (h : ∃ c ∈ t, ∀ x ∈ caseVariants c, kind x) : (word t).Needs kind := by
  induction t with
  | nil =>
    obtain ⟨c, hMem, -⟩ := h
    cases hMem
  | cons c rest ih =>
    obtain ⟨d, hMem, hKind⟩ := h
    rcases mem_cons.mp hMem with rfl | hRest
    · exact .inl fun x hx => hKind x (of_decide_eq_true hx)
    · exact .inr (ih ⟨d, hRest, hKind⟩)

theorem needs_literal (h : ∃ c ∈ t, kind c) : (literal t).Needs kind := by
  induction t with
  | nil =>
    obtain ⟨c, hMem, -⟩ := h
    cases hMem
  | cons c rest ih =>
    obtain ⟨d, hMem, hKind⟩ := h
    rcases mem_cons.mp hMem with rfl | hRest
    · exact .inl fun x hx => eq_of_beq hx ▸ hKind
    · exact .inr (ih ⟨d, hRest, hKind⟩)

theorem needs_joined {first second : Text}
    (h : ∃ c ∈ second, ∀ x ∈ caseVariants c, kind x) : (joined first second).Needs kind :=
  .inr (.inr (needs_word h))

theorem needs_anyOf {patterns : List Pattern} (hSome : patterns ≠ [])
    (h : ∀ pattern ∈ patterns, pattern.Needs kind) : (anyOf patterns).Needs kind := by
  induction patterns with
  | nil => exact absurd rfl hSome
  | cons pattern rest ih =>
    obtain ⟨hFirst, hRest⟩ := forall_mem_cons.mp h
    cases rest with
    | nil => exact hFirst
    | cons next rest => exact ⟨hFirst, ih (cons_ne_nil _ _) hRest⟩

def IsForeign (c : CodePoint) : Prop := isDigestCode c = false

instance (c : CodePoint) : Decidable (IsForeign c) := inferInstanceAs (Decidable (_ = _))

theorem isForeign_caseVariants {c upper : CodePoint} (hVariants : caseVariants c = [c, upper])
    (hLower : IsForeign c) (hUpper : IsForeign upper) : ∀ x ∈ caseVariants c, IsForeign x := by
  rw [hVariants]
  simp only [forall_mem_cons, not_mem_nil, false_implies, implies_true, and_true]
  exact ⟨hLower, hUpper⟩

theorem isForeign_p : ∀ x ∈ caseVariants 0x70, IsForeign x :=
  @isForeign_caseVariants _ 0x50 rfl rfl rfl

theorem isForeign_r : ∀ x ∈ caseVariants 0x72, IsForeign x :=
  @isForeign_caseVariants _ 0x52 rfl rfl rfl

theorem isForeign_t : ∀ x ∈ caseVariants 0x74, IsForeign x :=
  @isForeign_caseVariants _ 0x54 rfl rfl rfl

theorem isForeign_y : ∀ x ∈ caseVariants 0x79, IsForeign x :=
  @isForeign_caseVariants _ 0x59 rfl rfl rfl

theorem needs_secretKey : secretKey.Needs IsForeign := by
  refine needs_anyOf (cons_ne_nil _ _) ?_
  simp only [forall_mem_cons, not_mem_nil, false_implies, implies_true, and_true]
  exact ⟨needs_word ⟨0x70, by decide, isForeign_p⟩, needs_word ⟨0x70, by decide, isForeign_p⟩,
    needs_word ⟨0x72, by decide, isForeign_r⟩, needs_joined ⟨0x72, by decide, isForeign_r⟩,
    needs_joined ⟨0x79, by decide, isForeign_y⟩, needs_joined ⟨0x79, by decide, isForeign_y⟩,
    needs_joined ⟨0x74, by decide, isForeign_t⟩, needs_word ⟨0x74, by decide, isForeign_t⟩⟩

theorem needs_knownToken : knownToken.Needs IsForeign := by
  refine .inr (.inl (needs_anyOf (cons_ne_nil _ _) ?_))
  simp only [forall_mem_cons, not_mem_nil, false_implies, implies_true, and_true]
  exact ⟨.inr (.inr (.inl (needs_literal ⟨0x5f, by decide, rfl⟩))),
    .inl (needs_literal ⟨0x2d, by decide, rfl⟩), .inl (needs_literal ⟨0x4b, by decide, rfl⟩)⟩

theorem needs_of_mem_rules : ∀ rule ∈ redactionRules, rule.1.Needs IsForeign := by
  have hDash : ∀ c, (c == (0x2d : CodePoint)) = true → IsForeign c :=
    fun c hc => eq_of_beq hc ▸ (by decide : IsForeign 0x2d)
  simp only [redactionRules, forall_mem_cons, not_mem_nil, false_implies, implies_true, and_true]
  exact ⟨.inl needs_secretKey, .inl needs_secretKey,
    .inl (needs_literal ⟨0x2d, by decide, rfl⟩),
    .inl (.inr (.inl (needs_word ⟨0x72, by decide, isForeign_r⟩))), .inl (.inl hDash),
    needs_knownToken⟩

theorem redactText_of_digest (words : WordCodes) {t : Text} (h : ∀ c ∈ t, isDigestCode c = true) :
    redactText words t = t := by
  have hNone : ∀ c ∈ t, ¬IsForeign c := fun c hc hForeign => by
    rw [IsForeign, h c hc] at hForeign
    cases hForeign
  have hRules := needs_of_mem_rules
  unfold redactText
  generalize redactionRules = rules at hRules ⊢
  induction rules with
  | nil => rfl
  | cons rule rest ih =>
    obtain ⟨hRule, hRest⟩ := forall_mem_cons.mp hRules
    rw [foldl_cons, sub_eq_self_of_needs hRule rule.2 hNone, ih hRest]

end Ici.Core
