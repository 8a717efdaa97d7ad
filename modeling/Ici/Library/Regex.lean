import Ici.Library.Python

/-! # Backtracking patterns

The part of `re` that single-character repetitions, groups and back references make up. A pattern
lists the places a match may end at in the order backtracking tries them; the first one counts. -/

namespace Python

open Option List

/-- A place in a text: the code point before it, what is left, and the groups matched so far. -/
structure Cursor where
  before : Option CodePoint
  rest : Text
  groups : List (ℕ × Text) := []

inductive Pattern where
  | nothing
  | one (accepts : CodePoint → Bool)
  | many (accepts : CodePoint → Bool) (least : ℕ) (most : Option ℕ) (greedy : Bool)
  | cat (first second : Pattern)
  | alt (first second : Pattern)
  | group (index : ℕ) (inner : Pattern)
  | back (index : ℕ)
  | wordBoundary
  | atEnd

namespace Cursor

def advance (cursor : Cursor) (n : ℕ) : Cursor where
  before := if n = 0 then cursor.before else (cursor.rest.take n).getLast?
  rest := cursor.rest.drop n
  groups := cursor.groups

def read (start stop : Cursor) : Text := start.rest.take (start.rest.length - stop.rest.length)

def groupText (cursor : Cursor) (index : ℕ) : Option Text :=
  (cursor.groups.find? (·.1 = index)).map Prod.snd

end Cursor

namespace Pattern

/-- How many code points a repetition may take, in the order they are tried. -/
def repeatCounts (accepts : CodePoint → Bool) (least : ℕ) (most : Option ℕ) (greedy : Bool) (t : Text) :
    List ℕ :=
  let run := (t.takeWhile accepts).length
  let longest := (most.map (min run)).getD run
  let counts := (List.range (longest + 1)).filter (least ≤ ·)
  if greedy then counts.reverse else counts

variable (isWord : CodePoint → Bool)

def ends : Pattern → Cursor → List Cursor
  | nothing, cursor => [cursor]
  | one accepts, cursor => if cursor.rest.head?.any accepts then [cursor.advance 1] else []
  | many accepts least most greedy, cursor =>
    (repeatCounts accepts least most greedy cursor.rest).map cursor.advance
  | cat first second, cursor => (first.ends cursor).flatMap second.ends
  | alt first second, cursor => first.ends cursor ++ second.ends cursor
  | group index inner, cursor =>
    (inner.ends cursor).map fun stop => { stop with groups := (index, cursor.read stop) :: stop.groups }
  | back index, cursor =>
    match cursor.groupText index with
    | some found => if found.isPrefixOf cursor.rest then [cursor.advance found.length] else []
    | none => []
  | wordBoundary, cursor =>
    if cursor.before.any isWord ≠ cursor.rest.head?.any isWord then [cursor] else []
  | atEnd, cursor => if cursor.rest = [] then [cursor] else []

/-- The match that starts at a place, where it takes at least one code point. -/
def matchAt (pattern : Pattern) (before : Option CodePoint) (t : Text) : Option Cursor :=
  ((pattern.ends isWord { before := before, rest := t }).head?).filter fun stop => stop.rest.length < t.length

def subFrom (pattern : Pattern) (replace : Cursor → Text) : ℕ → Option CodePoint → Text → Text
  | 0, _, t => t
  | _, _, [] => []
  | fuel + 1, before, c :: rest =>
    match pattern.matchAt isWord before (c :: rest) with
    | some stop => replace stop ++ subFrom pattern replace fuel stop.before stop.rest
    | none => c :: subFrom pattern replace fuel (some c) rest

/-- `pattern.sub(replace, text)`, for a pattern that matches no empty text. -/
def sub (pattern : Pattern) (replace : Cursor → Text) (t : Text) : Text :=
  pattern.subFrom isWord replace t.length none t

/-! ## Patterns that read something -/

def Needs (kind : CodePoint → Prop) : Pattern → Prop
  | one accepts => ∀ c, accepts c = true → kind c
  | many accepts least _ _ => 0 < least ∧ ∀ c, accepts c = true → kind c
  | cat first second => first.Needs kind ∨ second.Needs kind
  | alt first second => first.Needs kind ∧ second.Needs kind
  | group _ inner => inner.Needs kind
  | _ => False

def Later (start stop : Cursor) : Prop := ∃ front, start.rest = front ++ stop.rest

theorem Later.refl (cursor : Cursor) : Later cursor cursor := ⟨[], rfl⟩

theorem Later.trans {a b c : Cursor} (hab : Later a b) (hbc : Later b c) : Later a c := by
  obtain ⟨front, hFront⟩ := hab
  obtain ⟨middle, hMiddle⟩ := hbc
  exact ⟨front ++ middle, by rw [hFront, hMiddle, append_assoc]⟩

theorem later_advance (cursor : Cursor) (n : ℕ) : Later cursor (cursor.advance n) :=
  ⟨cursor.rest.take n, (take_append_drop n cursor.rest).symm⟩

variable {isWord}

variable {pattern : Pattern} {kind : CodePoint → Prop} {kept : CodePoint → Bool}

theorem later_of_mem_ends {start stop : Cursor} (h : stop ∈ pattern.ends isWord start) :
    Later start stop := by
  induction pattern generalizing start stop with
  | nothing =>
    rw [mem_singleton.mp h]
    exact Later.refl start
  | one accepts =>
    rw [ends] at h
    split at h
    · rw [mem_singleton.mp h]
      exact later_advance start 1
    · cases h
  | many accepts least most greedy =>
    obtain ⟨n, -, rfl⟩ := mem_map.mp h
    exact later_advance start n
  | cat first second ihFirst ihSecond =>
    obtain ⟨middle, hMiddle, hStop⟩ := mem_flatMap.mp h
    exact (ihFirst hMiddle).trans (ihSecond hStop)
  | alt first second ihFirst ihSecond =>
    rcases mem_append.mp h with hFirst | hSecond
    · exact ihFirst hFirst
    · exact ihSecond hSecond
  | group index inner ih =>
    obtain ⟨found, hFound, rfl⟩ := mem_map.mp h
    obtain ⟨front, hFront⟩ := ih hFound
    exact ⟨front, hFront⟩
  | back index =>
    rw [ends] at h
    split at h
    · split at h
      · rw [mem_singleton.mp h]
        exact later_advance start _
      · cases h
    · cases h
  | wordBoundary | atEnd =>
    rw [ends] at h
    split at h
    · rw [mem_singleton.mp h]
      exact Later.refl start
    · cases h

theorem ends_eq_nil_of_needs {kind : CodePoint → Prop} {pattern : Pattern} (h : pattern.Needs kind)
    {start : Cursor} (hNone : ∀ c ∈ start.rest, ¬kind c) : pattern.ends isWord start = [] := by
  induction pattern generalizing start with
  | one accepts =>
    rw [ends, if_neg]
    intro hAny
    obtain ⟨c, hHead, hAccepts⟩ := Option.any_eq_true _ _ |>.mp hAny
    exact hNone c (mem_of_mem_head? hHead) (h c hAccepts)
  | many accepts least most greedy =>
    obtain ⟨hLeast, hKind⟩ := h
    have hRun : start.rest.takeWhile accepts = [] := by
      refine eq_nil_iff_forall_not_mem.mpr fun c hc => ?_
      exact hNone c (takeWhile_subset _ hc) (hKind c (mem_takeWhile_imp hc))
    have hCounts : repeatCounts accepts least most greedy start.rest = [] := by
      have hZero : (most.map (min 0)).getD 0 = 0 := by cases most <;> simp
      have hFilter : [0].filter (least ≤ ·) = [] := by simp [Nat.not_le.mpr hLeast]
      simp [repeatCounts, hRun, hZero, hFilter]
    rw [ends, hCounts, map_nil]
  | cat first second ihFirst ihSecond =>
    rcases h with hFirst | hSecond
    · rw [ends, ihFirst hFirst hNone, flatMap_nil]
    · refine flatMap_eq_nil_iff.mpr fun middle hMiddle => ihSecond hSecond fun c hc => ?_
      obtain ⟨front, hFront⟩ := later_of_mem_ends hMiddle
      exact hNone c (by rw [hFront]; exact mem_append_right _ hc)
  | alt first second ihFirst ihSecond =>
    rw [ends, ihFirst h.1 hNone, ihSecond h.2 hNone, append_nil]
  | group index inner ih => rw [ends, ih h hNone, map_nil]
  | nothing | back index | wordBoundary | atEnd => cases h

theorem matchAt_eq_none_of_needs (h : pattern.Needs kind)
    {t : Text} (hNone : ∀ c ∈ t, ¬kind c) (before : Option CodePoint) :
    pattern.matchAt isWord before t = none := by
  have hEnds := @ends_eq_nil_of_needs isWord kind pattern h { before := before, rest := t } hNone
  rw [matchAt, hEnds]
  rfl

theorem sub_eq_self_of_needs (h : pattern.Needs kind)
    (replace : Cursor → Text) {t : Text} (hNone : ∀ c ∈ t, ¬kind c) :
    pattern.sub isWord replace t = t := by
  have hFrom (fuel : ℕ) (before : Option CodePoint) {t : Text} (hNone : ∀ c ∈ t, ¬kind c) :
      pattern.subFrom isWord replace fuel before t = t := by
    induction fuel generalizing before t with
    | zero => rfl
    | succ fuel ih =>
      cases t with
      | nil => rfl
      | cons c rest =>
        rw [subFrom, matchAt_eq_none_of_needs h hNone]
        exact congrArg (c :: ·) (ih (some c) (forall_mem_cons.mp hNone).2)
  exact hFrom t.length none hNone

theorem sub_eq_nil_iff {replace : Cursor → Text} (h : ∀ stop, replace stop ≠ [])
    {t : Text} : pattern.sub isWord replace t = [] ↔ t = [] := by
  cases t with
  | nil => exact ⟨fun _ => rfl, fun _ => rfl⟩
  | cons c rest =>
    refine ⟨fun hNone => ?_, nofun⟩
    rw [sub, length_cons, subFrom] at hNone
    split at hNone
    · exact absurd (append_eq_nil_iff.mp hNone).1 (h _)
    · cases hNone

theorem filter_dropWhile {dropped : CodePoint → Bool} (h : ∀ c, dropped c → kept c = false) (t : Text) :
    (t.dropWhile dropped).filter kept = t.filter kept := by
  conv_rhs => rw [← @List.takeWhile_append_dropWhile _ dropped t]
  have hTaken : (t.takeWhile dropped).filter kept = [] := filter_eq_nil_iff.mpr fun c hc => by
    rw [h c (mem_takeWhile_imp hc)]
    exact Bool.false_ne_true
  rw [filter_append, hTaken, nil_append]

abbrev runs (accepts : CodePoint → Bool) : Pattern := many accepts 1 none true

section

variable {accepts : CodePoint → Bool} {before : Option CodePoint} {c : CodePoint} {rest : Text}

theorem matchAt_runs_of_neg (h : ¬accepts c) : (runs accepts).matchAt isWord before (c :: rest) = none := by
  rw [matchAt, ends, repeatCounts, takeWhile_cons_of_neg h]
  rfl

theorem matchAt_runs_of_pos (h : accepts c) :
    ∃ stop, (runs accepts).matchAt isWord before (c :: rest) = some stop ∧
      stop.rest = rest.dropWhile accepts := by
  have hCounts : (repeatCounts accepts 1 none true (c :: rest)).head? =
      some ((rest.takeWhile accepts).length + 1) := by
    rw [repeatCounts, takeWhile_cons_of_pos h]
    simp [range_succ]
  have hRest : (c :: rest).drop ((rest.takeWhile accepts).length + 1) = rest.dropWhile accepts := by
    have hSplit := @List.takeWhile_append_dropWhile _ accepts rest
    rw [drop_succ_cons]
    exact (congrArg (List.drop _) hSplit.symm).trans drop_left
  have hShorter : (rest.dropWhile accepts).length < (c :: rest).length :=
    Nat.lt_succ_of_le (dropWhile_sublist _).length_le
  refine ⟨Cursor.advance { before := before, rest := c :: rest } ((rest.takeWhile accepts).length + 1), ?_,
    hRest⟩
  rw [matchAt, ends, head?_map, hCounts, map_some, filter_some, if_pos]
  exact decide_eq_true (by rw [Cursor.advance, hRest]; exact hShorter)

end

variable {accepts : CodePoint → Bool} {other : Text}

theorem mem_sub_runs {t : Text} {c : CodePoint} (h : c ∈ (runs accepts).sub isWord (fun _ => other) t) :
    c ∈ other ∨ accepts c = false := by
  have hFrom (fuel : ℕ) (before : Option CodePoint) (t : Text) (hFuel : t.length ≤ fuel)
      (h : c ∈ (runs accepts).subFrom isWord (fun _ => other) fuel before t) : c ∈ other ∨ accepts c =
        false := by
    induction fuel generalizing before t with
    | zero =>
      rw [length_eq_zero_iff.mp (Nat.le_zero.mp hFuel)] at h
      cases h
    | succ fuel ih =>
      cases t with
      | nil => cases h
      | cons d rest =>
        rw [subFrom] at h
        by_cases hAccepts : accepts d
        · obtain ⟨stop, hStop, hRest⟩ := @matchAt_runs_of_pos isWord _ before _ rest hAccepts
          rw [hStop] at h
          rcases mem_append.mp h with hOther | hLater
          · exact .inl hOther
          · refine ih _ _ ?_ hLater
            rw [hRest]
            exact (dropWhile_sublist _).length_le.trans (Nat.le_of_succ_le_succ hFuel)
        · rw [matchAt_runs_of_neg hAccepts] at h
          rcases mem_cons.mp h with rfl | hLater
          · exact .inr (Bool.eq_false_iff.mpr hAccepts)
          · exact ih _ _ (Nat.le_of_succ_le_succ hFuel) hLater
  exact hFrom t.length none t le_rfl h

theorem filter_sub_runs (hKept : ∀ c, accepts c → kept c = false)
    (hOther : other.filter kept = []) (t : Text) :
    ((runs accepts).sub isWord (fun _ => other) t).filter kept = t.filter kept := by
  have hFrom (fuel : ℕ) (before : Option CodePoint) (t : Text) (hFuel : t.length ≤ fuel) :
      ((runs accepts).subFrom isWord (fun _ => other) fuel before t).filter kept = t.filter kept := by
    induction fuel generalizing before t with
    | zero =>
      rw [length_eq_zero_iff.mp (Nat.le_zero.mp hFuel)]
      rfl
    | succ fuel ih =>
      cases t with
      | nil => rfl
      | cons c rest =>
        rw [subFrom]
        by_cases hAccepts : accepts c
        · obtain ⟨stop, hStop, hRest⟩ := @matchAt_runs_of_pos isWord _ before _ rest hAccepts
          have hLength : stop.rest.length ≤ fuel := by
            rw [hRest]
            exact (dropWhile_sublist _).length_le.trans (Nat.le_of_succ_le_succ hFuel)
          rw [hStop]
          dsimp only
          rw [filter_append, hOther, nil_append, ih _ _ hLength, hRest, filter_dropWhile hKept,
            filter_cons_of_neg (by rw [hKept c hAccepts]; exact Bool.false_ne_true)]
        · rw [matchAt_runs_of_neg hAccepts, filter_cons, filter_cons, ih _ _ (Nat.le_of_succ_le_succ hFuel)]
  exact hFrom t.length none t le_rfl

end Pattern

end Python
