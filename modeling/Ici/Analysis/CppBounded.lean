import Ici.Analysis.CppCognitive

/-! # The metric of every text

Every loop ends and every failure is a `ValueError`: each statement takes a token, and each interval that is
scanned for lambdas is replaced by shorter ones. -/

namespace Ici.CppCognitive

open List Python CppText
open Core (WordCodes)

/-- The computation returns something of a bounded size, or raises a `ValueError`. -/
def Within {α : Type} (size : α → ℕ) (bound : ℕ) : Result α → Prop
  | .ok a => size a ≤ bound
  | .error e => ∃ text, e = valueError text

namespace Within

variable {α β : Type} {size : α → ℕ} {size' : β → ℕ} {bound bound' : ℕ}

theorem error (text : Text) : Within size bound (.error (valueError text)) := ⟨text, rfl⟩

theorem mono {r : Result α} (h : Within size bound r) (hLe : bound ≤ bound') : Within size bound' r := by
  cases r with
  | ok a => exact Nat.le_trans h hLe
  | error e => exact h

theorem bind {r : Result α} {f : α → Result β} (h : Within size bound r)
    (hf : ∀ a, size a ≤ bound → Within size' bound' (f a)) : Within size' bound' (r >>= f) := by
  cases r with
  | ok a => exact hf a h
  | error e => exact h

theorem map {r : Result α} {f : α → β} (h : Within size bound r) (hf : ∀ a, size a ≤ bound → size' (f a)
    ≤ bound') :
    Within size' bound' (r.map f) := by
  cases r with
  | ok a => exact hf a h
  | error e => exact h

end Within

theorem skipBalanced_within (opening closing : Token) (depth : ℕ) (tokens : List Token) :
    Within List.length tokens.length (skipBalanced opening closing depth tokens) := by
  induction tokens generalizing depth with
  | nil => exact .error _
  | cons token rest ih =>
    rw [skipBalanced]
    generalize (if token = opening then depth + 1 else if token = closing then depth - 1 else depth) = inner
    split
    · exact Nat.le_succ _
    · exact (ih _).mono (Nat.le_succ _)

theorem skipAttributes_within (depth : ℕ) (tokens : List Token) :
    Within List.length tokens.length (skipAttributes depth tokens) := by
  induction tokens generalizing depth with
  | nil =>
    rw [skipAttributes]
    split
    · exact le_rfl
    · exact .error _
  | cons token rest ih =>
    rw [skipAttributes]
    split
    · exact le_rfl
    · exact (ih _).mono (Nat.le_succ _)

theorem simpleFrom_within (moved : Bool) (parentheses braces : ℕ) (tokens : List Token) :
    Within List.length (tokens.length - 1) (simpleFrom moved parentheses braces tokens) := by
  induction tokens generalizing moved parentheses braces with
  | nil =>
    rw [simpleFrom]
    split <;> exact .error _
  | cons token rest ih =>
    rw [simpleFrom]
    split
    · exact .error _
    split
    · exact .error _
    split
    · exact .error _
    split
    · exact le_rfl
    · refine (ih _ _ _).mono ?_
      simp only [length_cons]
      omega

theorem validateDelimiters_within (stack tokens : List Token) :
    Within (fun _ => 0) 0 (validateDelimiters stack tokens) := by
  induction tokens generalizing stack with
  | nil =>
    rw [validateDelimiters]
    split
    · exact le_rfl
    · exact .error _
  | cons token rest ih =>
    rw [validateDelimiters]
    split
    · exact ih _
    split
    · exact ih _
    split
    · exact ih _
    · exact .error _

/-! ## The parser -/

section

variable (p : Parser)

def remaining : ℕ := p.rest.length

theorem take_within (expected : Token) : Within remaining (remaining p - 1) (p.take expected) := by
  cases hRest : p.rest with
  | nil =>
    simp only [Parser.take, hRest]
    exact .error _
  | cons token rest =>
    simp only [Parser.take, hRest]
    split
    · simp [Within, remaining, hRest]
    · exact .error _

theorem header_within : Within remaining (remaining p) p.header := by
  rw [Parser.header]
  split
  · exact .error _
  · refine (skipBalanced_within .parenOpen .parenClose 1 p.rest.tail).map fun rest hRest => ?_
    simp only [length_tail] at hRest
    exact hRest.trans (Nat.sub_le _ _)

theorem attributes_within : Within remaining (remaining p) p.attributes :=
  (skipAttributes_within 0 p.rest).map fun _ hRest => hRest

theorem validateSimpleStart_within : Within (fun _ => 0) 0 p.validateSimpleStart := by
  rw [Parser.validateSimpleStart]
  split
  · split
    · exact .error _
    · exact le_rfl
  · split
    · exact .error _
    · exact le_rfl
  · split
    · exact .error _
    · exact le_rfl
  · split
    · exact .error _
    · exact le_rfl
  · exact le_rfl

theorem simple_within : Within remaining (remaining p - 1) p.simple :=
  (validateSimpleStart_within p).bind fun _ _ =>
    (simpleFrom_within false 0 0 p.rest).map fun _ hRest => hRest

end

section Statements

def TakesOne (statement : ℕ → Parser → Result Parser) : Prop :=
  ∀ nesting p, Within remaining (remaining p - 1) (statement nesting p)

variable {statement : ℕ → Parser → Result Parser} (h : TakesOne statement)
include h

theorem statements_within (nesting : ℕ) {fuel : ℕ} {p : Parser} (hFuel : remaining p ≤ fuel) :
    Within remaining (remaining p) (statements statement nesting fuel p) := by
  induction fuel generalizing p with
  | zero =>
    have hNone : p.peek = none := by
      rw [Parser.peek, eq_nil_of_length_eq_zero (Nat.le_zero.mp hFuel)]
      rfl
    rw [statements, if_pos (.inl hNone)]
    exact le_rfl
  | succ fuel ih =>
    rw [statements]
    split
    · exact le_rfl
    · refine ((h nesting p).bind fun q hq => ?_)
      exact (ih (by omega)).mono (by omega)

theorem compound_within (nesting : ℕ) (p : Parser) :
    Within remaining (remaining p - 1) (compound statement nesting p) := by
  refine (take_within p _).bind fun q hq => ?_
  refine (statements_within h nesting le_rfl).bind fun r hr => ?_
  exact (take_within r _).mono (by omega)

theorem controlledBody_within (nesting : ℕ) (p : Parser) :
    Within remaining (remaining p - 1) (controlledBody statement nesting p) := by
  rw [controlledBody]
  split
  · exact compound_within h nesting _
  · exact h nesting _

omit h in
theorem tail_le (p : Parser) : remaining { p with rest := p.rest.tail } ≤ remaining p := by
  simp [remaining]

omit h in
theorem ifHead_within (p : Parser) :
    Within (fun head : Bool × Parser => remaining head.2) (remaining p) (ifHead p) := by
  have hConstexpr : remaining (if p.peek = some (.keyword .constexpr') then { p with rest := p.rest.tail }
      else p) ≤ remaining p := by
    split
    · exact tail_le p
    · exact le_rfl
  have hConsteval : ∀ q : Parser, remaining q ≤ remaining p →
      Within (fun head : Bool × Parser => remaining head.2) (remaining p)
        (if q.peek = some (.keyword .consteval') then return (true, { q with rest := q.rest.tail })
        else do
          let r ← q.header
          return (false, r)) := by
    intro q hq
    split
    · exact (tail_le q).trans hq
    · exact (header_within q).bind fun r hr => hr.trans hq
  rw [ifHead]
  generalize (if p.peek = some (.keyword .constexpr') then { p with rest := p.rest.tail } else p) = q
    at hConstexpr ⊢
  split
  · split
    · exact .error _
    · exact hConsteval _ ((tail_le q).trans hConstexpr)
  · exact hConsteval q hConstexpr

section

variable (nesting : ℕ)

theorem ifBranch_within (score : Bool) (p : Parser) :
    Within (fun head : Bool × Parser => remaining head.2) (remaining p - 1)
      (ifBranch statement nesting score p) := by
  refine (take_within p _).bind fun q hq => ?_
  have hScore : remaining (if score then q.score nesting else q) = remaining q := by cases score <;> rfl
  refine (ifHead_within _).bind fun head hHead => ?_
  obtain ⟨isConsteval, r⟩ := head
  refine (attributes_within r).bind fun s hs => ?_
  have hBody : Within (fun head : Bool × Parser => remaining head.2) (remaining p - 1)
      (do let body ← controlledBody statement (nesting + 1) s; return (isConsteval, body)) := by
    refine (controlledBody_within h (nesting + 1) s).bind fun t ht => ?_
    simp only at hHead
    exact (by omega : remaining t ≤ remaining p - 1)
  dsimp only
  split
  · exact .error _
  · exact hBody

theorem ifChain_within (nesting links : ℕ) (score : Bool) (p : Parser) :
    Within remaining (remaining p - 1) (ifChain statement nesting links score p) := by
  induction links generalizing score p with
  | zero => exact .error _
  | succ links ih =>
    refine (ifBranch_within h nesting score p).bind fun head hHead => ?_
    obtain ⟨isConsteval, q⟩ := head
    dsimp only at hHead ⊢
    split
    · exact hHead
    · have hElse := (tail_le q).trans hHead
      refine (attributes_within _).bind fun r hr => ?_
      have hr' : remaining r ≤ remaining p - 1 := hr.trans hElse
      split
      · split
        · exact .error _
        · exact (controlledBody_within h (nesting + 1) r).mono (by omega)
      · exact (ih false r).mono (by omega)

theorem doStatement_within (p : Parser) :
    Within remaining (remaining p - 1) (doStatement statement nesting p) := by
  refine (take_within p _).bind fun q hq => ?_
  refine (attributes_within _).bind fun r hr => ?_
  refine (controlledBody_within h (nesting + 1) { r with loopDepth := r.loopDepth + 1 }).bind fun s hs => ?_
  refine (take_within { s with loopDepth := s.loopDepth - 1 } _).bind fun t ht => ?_
  refine (header_within t).bind fun u hu => ?_
  refine (take_within u _).mono ?_
  have hq' : remaining (q.score nesting) = remaining q := rfl
  have hr' : remaining { r with loopDepth := r.loopDepth + 1 } = remaining r := rfl
  have hs' : remaining { s with loopDepth := s.loopDepth - 1 } = remaining s := rfl
  omega

theorem catchHandler_within (p : Parser) :
    Within remaining (remaining p - 1) (catchHandler statement nesting p) := by
  refine (take_within p _).bind fun q hq => ?_
  refine (header_within _).bind fun r hr => ?_
  refine (attributes_within r).bind fun s hs => ?_
  refine (controlledBody_within h (nesting + 1) s).mono ?_
  have hq' : remaining (q.score nesting) = remaining q := rfl
  omega

theorem handlers_within {fuel : ℕ} {p : Parser} (hFuel : remaining p ≤ fuel) :
    Within remaining (remaining p) (handlers statement nesting fuel p) := by
  induction fuel generalizing p with
  | zero =>
    have hNone : p.peek ≠ some (.keyword .catch') := by
      rw [Parser.peek, eq_nil_of_length_eq_zero (Nat.le_zero.mp hFuel)]
      nofun
    rw [handlers, if_pos hNone]
    exact le_rfl
  | succ fuel ih =>
    rw [handlers]
    split
    · exact le_rfl
    · refine (catchHandler_within h nesting p).bind fun q hq => ?_
      exact (ih (by omega)).mono (by omega)

theorem tryStatement_within (p : Parser) :
    Within remaining (remaining p - 1) (tryStatement statement nesting p) := by
  refine (take_within p _).bind fun q hq => ?_
  have hHandlers : Within remaining (remaining p - 1) (do
      let r ← compound statement nesting q
      if r.peek ≠ some (.keyword .catch') then
        .error (valueError (py "try statement is missing a catch handler"))
      else handlers statement nesting r.rest.length r) := by
    refine (compound_within h nesting q).bind fun r hr => ?_
    split
    · exact .error _
    · exact (handlers_within h nesting le_rfl).mono (by omega)
  dsimp only
  split
  · exact .error _
  · exact hHandlers

theorem headedControl_within (word : Keyword) (p : Parser) :
    Within remaining (remaining p - 1) (headedControl statement nesting word p) := by
  refine (take_within p _).bind fun q hq => ?_
  refine (header_within _).bind fun r hr => ?_
  refine (attributes_within r).bind fun s hs => ?_
  have hq' : remaining (q.score nesting) = remaining q := rfl
  have hLe : remaining s - 1 ≤ remaining p - 1 := by omega
  split
  · refine (controlledBody_within h (nesting + 1) { s with switchDepth :=
      s.switchDepth + 1 }).bind fun t ht => ?_
    exact Nat.le_trans ht hLe
  · refine (controlledBody_within h (nesting + 1) { s with loopDepth := s.loopDepth + 1 }).bind fun t ht => ?_
    exact Nat.le_trans ht hLe

theorem unattributed_within (p : Parser) :
    Within remaining (remaining p - 1) (unattributed statement nesting p) := by
  rw [unattributed]
  split
  · rename_i hPeek
    have hNil : p.rest = [] := head?_eq_none_iff.mp hPeek
    simp [Within, remaining, hNil]
  · exact compound_within h nesting p
  · exact tryStatement_within h nesting p
  · exact .error _
  · exact .error _
  · exact .error _
  · rename_i word _ _ _ _
    split
    · cases word with
      | if' => exact ifChain_within h nesting _ _ p
      | do' => exact doStatement_within h nesting p
      | _ => exact headedControl_within h nesting _ p
    · exact simple_within p
  · exact simple_within p

end

end Statements

theorem statement_within (left : ℕ) : TakesOne (statement left) := by
  induction left with
  | zero => exact fun _ _ => .error _
  | succ left ih =>
    intro nesting p
    refine (attributes_within p).bind fun q hq => ?_
    exact (unattributed_within ih nesting q).mono (by omega)

theorem trailing_within {fuel : ℕ} {p : Parser} (hFuel : remaining p ≤ fuel) :
    Within remaining 0 (trailing fuel p) := by
  induction fuel generalizing p with
  | zero =>
    have hNil : p.rest = [] := eq_nil_of_length_eq_zero (Nat.le_zero.mp hFuel)
    simp [trailing, hNil, Within, remaining]
  | succ fuel ih =>
    rw [trailing]
    split
    · rename_i hNil
      simp [Within, remaining, hNil]
    · refine (statement_within maxControlNesting 0 p).bind fun q hq => ?_
      exact ih (by omega)

theorem parse_within (tokens : List Token) : Within remaining 0 (parse tokens) := by
  rw [parse]
  split
  · refine (compound_within (statement_within _) 0 _).bind fun p _ => ?_
    refine (handlers_within (statement_within _) 0 le_rfl).bind fun q _ => ?_
    exact trailing_within le_rfl
  · exact trailing_within le_rfl

/-! ## The maskers -/

def Behind (index : ℕ) (state : Delimiters) : Prop :=
  (∀ start ∈ state.1, start < index) ∧ ∀ start stop, state.2.get? start = some stop → start < stop

variable {opening closing : CodePoint} {index : ℕ} {t : Text} {words : WordCodes}

theorem closingStep_behind {c : CodePoint} {state next : Delimiters}
    (h : Behind index state) (hStep : closingStep opening closing state (c, index) = .ok next) :
    Behind (index + 1) next := by
  have hOpen : ∀ start ∈ state.1, start < index + 1 := fun start hStart => Nat.lt_succ_of_lt (h.1 start
    hStart)
  rw [closingStep] at hStep
  split at hStep
  · split at hStep
    · cases hStep
    · cases hStep
      refine ⟨fun start hStart => ?_, h.2⟩
      rcases mem_cons.mp hStart with rfl | hStart
      · exact Nat.lt_succ_self _
      · exact hOpen start hStart
  · split at hStep
    · split at hStep
      · cases hStep
        exact ⟨hOpen, h.2⟩
      · rename_i start stack hStack
        split at hStep
        · cases hStep
        · cases hStep
          refine ⟨fun start hStart => hOpen start (by rw [hStack]; exact mem_cons_of_mem _ hStart), ?_⟩
          intro from' stop hGet
          rw [Dict.get?_set] at hGet
          split at hGet
          · rename_i hSame
            cases hGet
            have hStart := h.1 start (by rw [hStack]; exact mem_cons_self)
            subst hSame
            exact hStart
          · exact h.2 from' stop hGet
    · cases hStep
      exact ⟨hOpen, h.2⟩

theorem closingStep_within (opening closing : CodePoint) (state : Delimiters) (item : CodePoint × ℕ) :
    Within (fun _ => 0) 0 (closingStep opening closing state item) := by
  rw [closingStep]
  split
  · split
    · exact .error _
    · exact le_rfl
  · split
    · split
      · exact le_rfl
      · split
        · exact .error _
        · exact le_rfl
    · exact le_rfl

theorem foldlM_closingStep (t : Text) {index : ℕ} {state : Delimiters} (h : Behind index state) :
    Within (fun _ => 0) 0 ((t.zipIdx index).foldlM (closingStep opening closing) state) ∧
      ∀ next, (t.zipIdx index).foldlM (closingStep opening closing) state = .ok next →
        Behind (index + t.length) next := by
  induction t generalizing index state with
  | nil =>
    refine ⟨le_rfl, fun next hNext => ?_⟩
    cases hNext
    exact h
  | cons c t ih =>
    rw [zipIdx_cons, foldlM_cons]
    have hWithin := closingStep_within opening closing state (c, index)
    cases hStep : closingStep opening closing state (c, index) with
    | error e =>
      rw [hStep] at hWithin
      exact ⟨hWithin, nofun⟩
    | ok next =>
      have hTail := ih (closingStep_behind h hStep)
      rw [length_cons, Nat.add_comm t.length, ← Nat.add_assoc]
      exact hTail

theorem delimiterClosings_within (t : Text) (opening closing : CodePoint) :
    Within (fun _ => 0) 0 (delimiterClosings t opening closing) := by
  have hStart : Behind 0 (([], []) : Delimiters) := ⟨nofun, nofun⟩
  exact (foldlM_closingStep t hStart).1.map fun _ _ => le_rfl

theorem delimiterClosings_behind {closings : Dict ℕ ℕ}
    (h : delimiterClosings t opening closing = .ok closings) {start stop : ℕ}
    (hGet : closings.get? start = some stop) : start < stop := by
  obtain ⟨state, hFold, rfl⟩ := Raising.map_eq_ok.mp h
  have hStart : Behind 0 (([], []) : Delimiters) := ⟨nofun, nofun⟩
  exact ((foldlM_closingStep t hStart).2 state hFold).2 start stop hGet

theorem matchingFrom_le {depth : ℤ} {stop : ℕ}
    (h : matchingFrom opening closing depth index t = some stop) : index ≤ stop := by
  induction t generalizing depth index with
  | nil => cases h
  | cons c rest ih =>
    rw [matchingFrom] at h
    split at h
    · exact Nat.le_of_succ_le (ih h)
    split at h
    · split at h
      · cases h
        exact le_rfl
      · exact Nat.le_of_succ_le (ih h)
    · exact Nat.le_of_succ_le (ih h)

theorem lambdaBodyFrom_le {captureEnd left bodyOpen : ℕ} {depths : Depths}
    (h : lambdaBodyFrom words t captureEnd left index depths = some bodyOpen) : index ≤ bodyOpen := by
  fun_induction lambdaBodyFrom words t captureEnd left index depths with
  | case1 | case2 | case3 | case4 => cases h
  | case5 index depths left c hGet hSemicolon hBrace hRequires closing hMatching ih =>
    have hClosing := matchingFrom_le hMatching
    exact (hClosing.trans (Nat.le_succ _)).trans (ih h)
  | case6 =>
    cases h
    exact le_rfl
  | case7 index depths left c hGet hSemicolon hBrace ih => exact Nat.le_of_succ_le (ih h)

structure ClosesBehind (scan : LambdaScan) : Prop where
  square : ∀ start stop, scan.squareClosings.get? start = some stop → start < stop
  brace : ∀ start stop, scan.braceClosings.get? start = some stop → start < stop

theorem lambdaAt_bounds {scan : LambdaScan} (h : ClosesBehind scan)
    {stop index captureEnd bodyOpen bodyClose : ℕ}
    (hAt : scan.lambdaAt words stop index = some (captureEnd, bodyOpen, bodyClose)) :
    index < captureEnd ∧ captureEnd < bodyOpen ∧ bodyOpen < bodyClose ∧ bodyClose < stop := by
  rw [LambdaScan.lambdaAt] at hAt
  split at hAt
  · cases hAt
  split at hAt
  · cases hAt
  rename_i capture hSquare
  split at hAt
  · cases hAt
  split at hAt
  · cases hAt
  rename_i opened hOpened
  split at hAt
  · cases hAt
  rename_i closed hBrace
  split at hAt
  · cases hAt
  cases hAt
  have hBody := lambdaBodyFrom_le hOpened
  exact ⟨h.square _ _ hSquare, by omega, h.brace _ _ hBrace, by omega⟩

def pending (intervals : List Interval) : ℕ := (intervals.map fun i => max 1 (i.2 - i.1)).sum

theorem pending_nonemptyInterval (start stop : ℕ) : pending (nonemptyInterval start stop) = stop - start := by
  rw [nonemptyInterval]
  split
  · simp only [pending, map_cons, map_nil, sum_singleton]
    omega
  · simp only [pending, map_nil, sum_nil]
    omega

theorem pending_append (xs ys : List Interval) : pending (xs ++ ys) = pending xs + pending ys := by
  simp [pending]

theorem scanInterval_within {scan : LambdaScan} (h : ClosesBehind scan) (stop : ℕ)
    (left index : ℕ) (finds : LambdaFinds) :
    Within (fun finds : LambdaFinds => pending finds.intervals)
      (pending finds.intervals + (stop - (index + 1)))
      (scan.scanInterval words stop left index finds) := by
  induction left using Nat.strong_induction_on generalizing index finds with
  | _ left ih =>
    cases left with
    | zero => exact Nat.le_add_right _ _
    | succ left =>
      rw [LambdaScan.scanInterval]
      split
      · exact Nat.le_add_right _ _
      split
      · exact (ih left (Nat.lt_succ_self _) (index + 1) finds).mono (by omega)
      · rename_i captureEnd bodyOpen bodyClose hAt
        obtain ⟨hCapture, hOpen, hClose, hStop⟩ := lambdaAt_bounds h hAt
        split
        · exact .error _
        · refine (ih left (Nat.lt_succ_self _) (bodyClose + 1) _).mono ?_
          simp only [pending_append, pending_nonemptyInterval]
          omega

theorem scanAll_within (words : WordCodes) {scan : LambdaScan} (h : ClosesBehind scan) {left : ℕ}
    (finds : LambdaFinds) (hLeft : pending finds.intervals ≤ left) :
    Within (fun _ => 0) 0 (scan.scanAll words left finds) := by
  induction left generalizing finds with
  | zero =>
    obtain ⟨ranges, intervals⟩ := finds
    cases intervals with
    | nil => exact le_rfl
    | cons interval intervals =>
      simp only [pending, map_cons, sum_cons] at hLeft
      omega
  | succ left ih =>
    obtain ⟨ranges, intervals⟩ := finds
    cases intervals with
    | nil => exact le_rfl
    | cons interval intervals =>
      obtain ⟨start, stop⟩ := interval
      rw [LambdaScan.scanAll]
      refine (scanInterval_within h stop _ start ⟨ranges, intervals⟩).bind fun next hNext => ih next ?_
      simp only [pending, map_cons, sum_cons] at hLeft hNext ⊢
      omega

theorem maskCppLambdaBodies_within (words : WordCodes) (t : Text) :
    Within (fun _ => 0) 0 (maskCppLambdaBodies words t) := by
  rw [maskCppLambdaBodies]
  have hSquare := delimiterClosings_within t 0x5b 0x5d
  have hBrace := delimiterClosings_within t 0x7b 0x7d
  cases hSquares : delimiterClosings t 0x5b 0x5d with
  | error e =>
    rw [hSquares] at hSquare
    exact hSquare
  | ok squares =>
    cases hBraces : delimiterClosings t 0x7b 0x7d with
    | error e =>
      rw [hBraces] at hBrace
      exact hBrace
    | ok braces =>
      have hScan : ClosesBehind ⟨t, squares, braces⟩ :=
        ⟨fun _ _ => delimiterClosings_behind hSquares, fun _ _ => delimiterClosings_behind hBraces⟩
      have hPending : pending [(0, t.length)] ≤ t.length + 1 := by
        simp only [pending, map_cons, map_nil, sum_singleton]
        omega
      exact (scanAll_within words hScan { intervals := [(0, t.length)] } hPending).bind fun ranges _ => le_rfl

/-- The metric of a text is a metric or a `ValueError`. -/
theorem cppCognitiveMetric_within (words : WordCodes) (body : Text) :
    Within (fun _ => 0) 0 (cppCognitiveMetric words body) := by
  refine (maskCppLambdaBodies_within words _).bind fun masked _ => ?_
  obtain ⟨withoutLambdas, lambdaRanges⟩ := masked
  dsimp only
  split
  · exact .error _
  · refine (validateDelimiters_within [] _).bind fun _ _ => ?_
    exact (parse_within _).bind fun _ _ => le_rfl

end Ici.CppCognitive
