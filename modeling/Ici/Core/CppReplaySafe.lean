import Ici.Core.CppReplay

/-! # What a replay runs

Filtering keeps options that the policy accepts alone, options with the value behind them and the
source, each spelled as it was; reading that again keeps all of it. -/

namespace Ici.CppReplay

open List Raising Python

/-! ## What is kept -/

inductive KeptItem where
  | alone (token : Text)
  | pair (option value : Text)
  | source
deriving DecidableEq

open KeptItem

def KeptItem.words (source : PurePath) : KeptItem → List Text
  | .alone token => [token]
  | .pair option value => [option, value]
  | .source => [source.asPosix]

/-- An option that is neither dropped nor refused and is safe alone, or an option that is kept with its
value, where the value is no option. -/
def KeptItem.IsAllowed : KeptItem → Prop
  | .alone token => token.head? = some 0x2d ∧ 0 ∉ token ∧ accepts token ∧ token ∉ dropValue ∧
      token ∉ preserveValue
  | .pair option value => (option ∈ preserveValue ∧ option ∉ dropValue ∧ shouldDrop option = false ∧
      isRejected option = false) ∧ value ≠ [] ∧ 0 ∉ value ∧ value.head? ≠ some 0x2d ∧
      (option ∈ [py "-x", py "--language"] → value ∈ safeLanguageValues)
  | .source => True

variable {option argument kept : Text} {front rest : List Text}

theorem head?_of_mem_preserveValue (h : option ∈ preserveValue) :
    option.head? = some 0x2d ∧ option ≠ py "--" ∧ option ≠ py "-" ∧ option ≠ py "-w" ∧ 0 ∉ option := by
  have hAll : ∀ option ∈ preserveValue, option.head? = some 0x2d ∧ option ≠ py "--" ∧ option ≠ py "-" ∧
      option ≠ py "-w" ∧ 0 ∉ option := by decide
  exact hAll option h

theorem ne_of_accepts {token : Text} (h : accepts token) :
    token ≠ py "--" ∧ token ≠ py "-" ∧ token ≠ py "-w" := by
  have hUnsafe : ∀ token ∈ [py "--", py "-", py "-w"], isSafe token = false := by decide +kernel
  have hSafe : isSafe token = true := by
    rw [accepts, Bool.and_eq_true] at h
    exact h.2
  refine ⟨?_, ?_, ?_⟩
  all_goals
    rintro rfl
    rw [hUnsafe _ (by simp)] at hSafe
    cases hSafe

section Filter

variable {files : FileSystem} {cwd source : PurePath} {suppresses preserves : Bool}

variable {token : Text} {state state' : Filtering} {items : List KeptItem}

theorem resolvedOperand_option (h : token.head? = some 0x2d) : resolvedOperand files cwd token = none := by
  rw [resolvedOperand, if_pos (.inr (.inr h))]

theorem consumeOption_ok (source : PurePath) {token : Text} {rest kept left : List Text}
    (hToken : token.head? = some 0x2d)
    (hNull : 0 ∉ token) (h : consumeOption token rest = .ok (kept, left)) :
    ∃ items : List KeptItem, kept = items.flatMap (words source) ∧
      (∀ item ∈ items, item.IsAllowed) ∧ KeptItem.source ∉ items := by
  unfold consumeOption at h
  split_ifs at h with hDrop hReject hDropValue hPreserve hSafe
  · cases h
    exact ⟨[], rfl, nofun, not_mem_nil⟩
  · cases h
  · obtain ⟨⟨value, after⟩, -, hDone⟩ := bind_eq_ok.mp h
    cases hDone
    exact ⟨[], rfl, nofun, not_mem_nil⟩
  · obtain ⟨⟨value, after⟩, hRead, hDone⟩ := bind_eq_ok.mp h
    dsimp only at hDone
    split_ifs at hDone with hLanguage
    · cases hDone
    · cases hDone
      obtain ⟨-, hValue, hFree, hPlain⟩ := suffix_requireValue hRead
      refine ⟨[.pair token value], rfl, fun item hItem => ?_, by simp⟩
      obtain rfl := mem_singleton.mp hItem
      rw [not_and_not_right] at hLanguage
      exact ⟨⟨hPreserve, hDropValue, Bool.eq_false_iff.mpr hDrop, Bool.eq_false_iff.mpr hReject⟩, hValue,
        hFree, hPlain, hLanguage⟩
  · cases h
    refine ⟨[.alone token], rfl, fun item hItem => ?_, by simp⟩
    obtain rfl := mem_singleton.mp hItem
    have hAccepts : accepts token := by
      rw [accepts, Bool.eq_false_iff.mpr hDrop, Bool.eq_false_iff.mpr hReject, hSafe]
      rfl
    exact ⟨hToken, hNull, hAccepts, hDropValue, hPreserve⟩
  · cases h

/-- The state holds the words of these items and has met the source as often as they do, where its
place is kept, and where it is not they do not name it. -/
structure Keeps (source : PurePath) (preserves : Bool) (state : Filtering) (items : List KeptItem)
    : Prop where
  kept : state.kept = items.flatMap (words source)
  allowed : ∀ item ∈ items, item.IsAllowed
  sources : items.count .source = if preserves then state.sourceOperands else 0

theorem Keeps.append {more : List KeptItem} (h : Keeps source preserves state items)
    (hKept : state'.kept = state.kept ++ more.flatMap (words source))
    (hAllowed : ∀ item ∈ more, item.IsAllowed)
    (hSources : more.count .source + (if preserves then state.sourceOperands else 0) =
      if preserves then state'.sourceOperands else 0) : Keeps source preserves state' (items ++ more) where
  kept := by rw [hKept, h.kept, flatMap_append]
  allowed item hItem := by
    rcases mem_append.mp hItem with hOld | hNew
    · exact h.allowed item hOld
    · exact hAllowed item hNew
  sources := by
    rw [count_append, h.sources]
    omega

theorem consumeReplayArgument_ok {rest left : List Text} (hNull : 0 ∉ token)
    (hState : Keeps source preserves state items)
    (h : consumeReplayArgument files cwd source suppresses preserves state token rest = .ok (state', left)) :
    ∃ items', Keeps source preserves state' items' := by
  unfold consumeReplayArgument at h
  split_ifs at h with hSeparator hAfter hReference hStdin hSource hPlace hOperand hWarning
  · cases h
  · cases h
    exact ⟨items, hState.kept, hState.allowed, hState.sources⟩
  · cases h
  · cases h
  · cases h
    refine ⟨items ++ [.source], hState.append rfl (by simp [KeptItem.IsAllowed]) ?_⟩
    rw [hPlace]
    exact Nat.add_comm _ _
  · cases h
    refine ⟨items, by simp [hState.kept], hState.allowed, ?_⟩
    rw [hState.sources, if_neg hPlace, if_neg hPlace]
  · cases h
  · cases h
    exact ⟨items, hState⟩
  · obtain ⟨⟨preserved, after⟩, hOption, hDone⟩ := bind_eq_ok.mp h
    cases hDone
    simp only [not_or, not_not] at hOperand
    obtain ⟨more, hMore, hAllowed, hNone⟩ := consumeOption_ok source hOperand.2 hNull hOption
    refine ⟨items ++ more, hState.append (by rw [hMore]) hAllowed ?_⟩
    rw [count_eq_zero.mpr hNone, Nat.zero_add]

theorem filterFrom_ok {argv : List Text}
    (hNull : ∀ token ∈ argv, 0 ∉ token) (hState : Keeps source preserves state items)
    (h : filterFrom files cwd source suppresses preserves state argv = .ok state') :
    ∃ items', Keeps source preserves state' items' := by
  generalize hLength : argv.length = length
  induction length using Nat.strong_induction_on generalizing argv state items with
  | _ length ih =>
    subst hLength
    cases argv with
    | nil =>
      rw [filterFrom] at h
      cases h
      exact ⟨items, hState⟩
    | cons token rest =>
      rw [filterFrom] at h
      split at h
      · cases h
      · rename_i between left hTurn
        have hSuffix := suffix_consumeReplayArgument hTurn
        obtain ⟨items', hItems⟩ := consumeReplayArgument_ok (hNull token mem_cons_self) hState hTurn
        apply ih left.length _ _ hItems h rfl
        · have hShorter := hSuffix.length_le
          rw [length_cons]
          omega
        · exact fun other hOther => hNull other (mem_cons_of_mem _ (hSuffix.subset hOther))

theorem consumeOption_alone (rest : List Text) (h : (alone token).IsAllowed) :
    consumeOption token rest = .ok ([token], rest) := by
  obtain ⟨-, -, hAccepts, hDropValue, hPreserve⟩ := h
  simp only [accepts, Bool.and_eq_true, Bool.not_eq_true'] at hAccepts
  obtain ⟨⟨hDrop, hReject⟩, hSafe⟩ := hAccepts
  rw [consumeOption, hDrop, hReject, hSafe]
  simp [hDropValue, hPreserve]

theorem consumeOption_pair {option value : Text} (rest : List Text) (h : (pair option value).IsAllowed) :
    consumeOption option (value :: rest) = .ok ([option, value], rest) := by
  obtain ⟨⟨hPreserve, hDropValue, hDrop, hReject⟩, hValue, hFree, hPlain, hLanguage⟩ := h
  have hRead : requireValue option (value :: rest) = .ok (value, rest) := by
    rw [requireValue, if_neg (by simp [hValue, hFree, hPlain])]
  rw [consumeOption, hDrop, hReject, hRead]
  simp only [Bool.false_eq_true, if_false, hDropValue, hPreserve, if_true]
  exact if_neg fun hOther => hOther.2 (hLanguage hOther.1)

structure IsOperand (files : FileSystem) (cwd source : PurePath) : Prop where
  plain : source.asPosix.head? ≠ some 0x2d ∧ source.asPosix.head? ≠ some 0x40
  resolved : resolvedOperand files cwd source.asPosix = some source

theorem IsOperand.ne {text : Text} (h : IsOperand files cwd source) (hText : text.head? = some 0x2d) :
    source.asPosix ≠ text := fun hSame => h.plain.1 (hSame ▸ hText)

theorem filterFrom_item {item : KeptItem} (rest : List Text)
    (hSource : IsOperand files cwd source) (hState : state.afterSeparator = false) (hItem : item.IsAllowed)
    (hPlace : item = .source → preserves = true) :
    filterFrom files cwd source suppresses preserves state (item.words source ++ rest) =
      filterFrom files cwd source suppresses preserves { state with
        kept := state.kept ++ item.words source
        sourceOperands := state.sourceOperands + if item = .source then 1 else 0 } rest := by
  cases item with
  | alone token =>
    obtain ⟨hSeparator, hStdin, hWarning⟩ := ne_of_accepts hItem.2.2.1
    have hTurn : consumeReplayArgument files cwd source suppresses preserves state token rest =
        .ok ({ state with kept := state.kept ++ [token] }, rest) := by
      rw [consumeReplayArgument, consumeOption_alone rest hItem, resolvedOperand_option hItem.1]
      simp [hSeparator, hStdin, hWarning, hItem.1, hState, bind, Except.bind, pure, Except.pure]
    rw [words, singleton_append, filterFrom]
    split <;> rename_i hOther <;> rw [hTurn] at hOther <;> cases hOther
    simp
  | pair option value =>
    obtain ⟨hOption, hSeparator, hStdin, hWarning, -⟩ := head?_of_mem_preserveValue hItem.1.1
    have hTurn : consumeReplayArgument files cwd source suppresses preserves state option (value :: rest) =
        .ok ({ state with kept := state.kept ++ [option, value] }, rest) := by
      rw [consumeReplayArgument, consumeOption_pair rest hItem, resolvedOperand_option hOption]
      simp [hSeparator, hStdin, hWarning, hOption, hState, bind, Except.bind, pure, Except.pure]
    rw [words, cons_append, singleton_append, filterFrom]
    split <;> rename_i hOther <;> rw [hTurn] at hOther <;> cases hOther
    simp
  | source =>
    have hTurn : consumeReplayArgument files cwd source suppresses preserves state source.asPosix rest =
        .ok ({ state with
          kept := state.kept ++ [source.asPosix]
          sourceOperands := state.sourceOperands + 1 }, rest) := by
      rw [consumeReplayArgument, hSource.resolved, if_neg (hSource.ne rfl), if_neg hSource.plain.2,
        if_neg (hSource.ne rfl), if_pos rfl, hPlace rfl]
      rfl
    rw [words, singleton_append, filterFrom]
    split <;> rename_i hOther <;> rw [hTurn] at hOther <;> cases hOther
    simp

theorem filterFrom_items (rest : List Text)
    (hSource : IsOperand files cwd source) (hState : state.afterSeparator = false)
    (hItems : ∀ item ∈ items, item.IsAllowed) (hPlace : KeptItem.source ∈ items → preserves = true) :
    filterFrom files cwd source suppresses preserves state (items.flatMap (words source) ++ rest) =
      filterFrom files cwd source suppresses preserves { state with
        kept := state.kept ++ items.flatMap (words source)
        sourceOperands := state.sourceOperands + items.count .source } rest := by
  induction items generalizing state with
  | nil => simp
  | cons item items ih =>
    obtain ⟨hItem, hItems⟩ := forall_mem_cons.mp hItems
    rw [flatMap_cons, append_assoc, filterFrom_item _ hSource hState hItem
      fun hSame => hPlace (hSame ▸ mem_cons_self), ih (by exact hState) hItems fun hMem =>
        hPlace (mem_cons_of_mem _ hMem)]
    simp only [append_assoc, count_cons, beq_iff_eq]
    congr 2
    omega

end Filter

/-! ## Warnings that are demoted -/

/-- A demoted option is a warning group or `-pedantic`, with no other characters. -/
theorem demote_form (h : demote argument = some kept) :
    kept = argument ∨ (startsWith kept (py "-W") ∨ kept = py "-pedantic") ∧ (0 ∉ argument → 0 ∉ kept) := by
  induction argument using demote.induct with
  | case1 =>
    rw [demote_eq, if_pos rfl] at h
    cases h
  | case2 argument hAll demoted hDemoted ih =>
    rw [demote_eq, if_neg hAll, hDemoted] at h
    have hTable : ∀ row ∈ warningPolicyDemotions,
        (startsWith row.2 (py "-W") ∨ row.2 = py "-pedantic") ∧ 0 ∉ row.2 := by decide
    obtain ⟨before, after, hRows, -⟩ := lookup_eq_some_iff.mp hDemoted
    obtain ⟨hForm, hNull⟩ := hTable (argument, demoted) (by simp [hRows])
    rcases ih h with rfl | ⟨hKept, hFree⟩
    · exact .inr ⟨hForm, fun _ => hNull⟩
    · exact .inr ⟨hKept, fun _ => hFree hNull⟩
  | case3 argument hAll hOlder hForm hEmpty =>
    rw [demote_eq, if_neg hAll, hOlder] at h
    simp [hForm, hEmpty] at h
  | case4 argument hAll hOlder hForm hRule ih =>
    rw [demote_eq, if_neg hAll, hOlder] at h
    have hRest := ih (by simpa [hForm, hRule] using h)
    have hNull : 0 ∉ argument → 0 ∉ py "-W" ++ argument.drop (py "-Werror=").length := by
      intro hFree hIn
      rcases mem_append.mp hIn with hFront | hBehind
      · revert hFront
        decide
      · exact hFree (mem_of_mem_drop hBehind)
    rcases hRest with rfl | ⟨hKept, hFree⟩
    · refine .inr ⟨.inl (List.isPrefixOf_iff_prefix.mpr (prefix_append ..)), hNull⟩
    · exact .inr ⟨hKept, fun hArgument => hFree (hNull hArgument)⟩
  | case5 argument hAll hOlder hForm =>
    rw [demote_eq, if_neg hAll, hOlder] at h
    exact .inl (by simpa [hForm] using h.symm)

theorem allowed_demoted {token : Text} (hToken : (alone token).IsAllowed)
    (h : diagnosticWarningArgument token = .ok (some kept)) : (alone kept).IsAllowed := by
  obtain ⟨hDemoted, hAccepts⟩ := diagnosticWarningArgument_eq_some h
  rcases demote_form hDemoted with rfl | ⟨hForm, hNull⟩
  · exact hToken
  · have hAccepts : accepts kept := by
      rcases hAccepts with rfl | hAccepts
      · exact hToken.2.2.1
      · exact hAccepts
    have hTables : ∀ option ∈ dropValue ++ preserveValue,
        ¬(startsWith option (py "-W") ∨ option = py "-pedantic") := by decide
    have hOutside : kept ∉ dropValue ++ preserveValue := fun hIn => hTables kept hIn hForm
    rw [mem_append, not_or] at hOutside
    refine ⟨?_, hNull hToken.2.1, hAccepts, hOutside⟩
    rcases hForm with hWarning | rfl
    · rw [eq_append_of_startsWith hWarning]
      rfl
    · rfl

theorem diagnosticWarningArgument_of_not_promotes (h : ¬PromotesWarnings argument) :
    diagnosticWarningArgument argument = .ok (some argument) := by
  rw [diagnosticWarningArgument, demote_of_not_promotes h]
  simp

theorem not_promotes_of_head (h : argument.head? ≠ some 0x2d) : ¬PromotesWarnings argument := by
  rintro (rfl | ⟨rule, rfl⟩ | rfl | rfl | rfl) <;> exact h rfl

theorem not_promotes_of_mem_preserveValue (h : option ∈ preserveValue) : ¬PromotesWarnings option := by
  have hTable : ∀ option ∈ preserveValue, ¬(option = py "-Werror" ∨ startsWith option (py "-Werror=") ∨
      (warningPolicyDemotions.lookup option).isSome) := by decide
  rw [promotesWarnings_iff]
  exact hTable option h

theorem projected_append {kept : List Text} (h : projected (front ++ rest) = .ok kept) :
    ∃ before after, projected front = .ok before ∧ projected rest = .ok after ∧ kept = before ++ after := by
  rw [projected, filter_append, mapM_append] at h
  obtain ⟨both, hBoth, hDone⟩ := bind_eq_ok.mp h
  obtain ⟨before, hBefore, hRest⟩ := bind_eq_ok.mp hBoth
  obtain ⟨after, hAfter, hPair⟩ := bind_eq_ok.mp hRest
  cases hPair
  cases hDone
  exact ⟨before.filterMap id, after.filterMap id, step hBefore rfl, step hAfter rfl, filterMap_append⟩

theorem append_projected {before after : List Text} (hFront : projected front = .ok before)
    (hRest : projected rest = .ok after) : projected (front ++ rest) = .ok (before ++ after) := by
  obtain ⟨first, hFirst, hBefore⟩ := bind_eq_ok.mp hFront
  obtain ⟨second, hSecond, hAfter⟩ := bind_eq_ok.mp hRest
  cases hBefore
  cases hAfter
  rw [projected, filter_append, mapM_append, hFirst, hSecond, ← filterMap_append]
  rfl

theorem projected_singleton {word : Text} (hWord : word ≠ py "-w") (h : ¬PromotesWarnings word) :
    projected [word] = .ok [word] := by
  rw [projected, filter_cons_of_pos (by simpa using hWord), filter_nil, mapM_cons,
    mapM_nil, diagnosticWarningArgument_of_not_promotes h]
  rfl

section Projection

variable {source : PurePath}

def IsSettled (source : PurePath) (items : List KeptItem) : Prop :=
  projected (items.flatMap (words source)) = .ok (items.flatMap (words source))

theorem projected_alone (source : PurePath) {token : Text} {kept : List Text}
    (hToken : (alone token).IsAllowed)
    (h : projected [token] = .ok kept) : ∃ items, kept = items.flatMap (words source) ∧
      (∀ item ∈ items, item.IsAllowed) ∧ KeptItem.source ∉ items ∧ IsSettled source items := by
  have hWarning := (ne_of_accepts hToken.2.2.1).2.2
  rw [projected, filter_cons_of_pos (by simpa using hWarning), filter_nil, mapM_cons, mapM_nil] at h
  obtain ⟨all, hAll, hDone⟩ := bind_eq_ok.mp h
  obtain ⟨one, hOne, hRest⟩ := bind_eq_ok.mp hAll
  obtain ⟨none', hNone, hPair⟩ := bind_eq_ok.mp hRest
  cases hNone
  cases hPair
  cases hDone
  cases hResult : diagnosticWarningArgument token with
  | error error =>
    rw [hResult] at hOne
    cases hOne
  | ok result =>
    rw [hResult] at hOne
    cases hOne
    cases one with
    | none => exact ⟨[], rfl, nofun, not_mem_nil, rfl⟩
    | some demoted =>
      have hAllowed := allowed_demoted hToken hResult
      have hFree := not_promotes_of_demote (diagnosticWarningArgument_eq_some hResult).1
      refine ⟨[.alone demoted], rfl, by simpa using hAllowed, by simp, ?_⟩
      exact projected_singleton (ne_of_accepts hAllowed.2.2.1).2.2 hFree

theorem projected_pair {option value : Text} (h : (pair option value).IsAllowed) :
    projected [option, value] = .ok [option, value] := by
  have hOption := projected_singleton (head?_of_mem_preserveValue h.1.1).2.2.2.1
    (not_promotes_of_mem_preserveValue h.1.1)
  have hPlain : value ≠ py "-w" := by
    rintro rfl
    exact h.2.2.2.1 rfl
  exact append_projected hOption (projected_singleton hPlain (not_promotes_of_head h.2.2.2.1))

theorem projected_source (h : source.asPosix.head? ≠ some 0x2d) :
    projected [source.asPosix] = .ok [source.asPosix] := by
  apply projected_singleton
  · intro hSame
    rw [hSame] at h
    exact h rfl
  · exact not_promotes_of_head h

theorem projected_items {items : List KeptItem} {kept : List Text}
    (hSource : source.asPosix.head? ≠ some 0x2d)
    (hItems : ∀ item ∈ items, item.IsAllowed)
    (h : projected (items.flatMap (words source)) = .ok kept) :
    ∃ items', kept = items'.flatMap (words source) ∧ (∀ item ∈ items', item.IsAllowed) ∧
      items'.count .source = items.count .source ∧ IsSettled source items' := by
  induction items generalizing kept with
  | nil =>
    cases h
    exact ⟨[], rfl, nofun, rfl, rfl⟩
  | cons item items ih =>
    obtain ⟨hItem, hItems⟩ := forall_mem_cons.mp hItems
    rw [flatMap_cons] at h
    obtain ⟨before, after, hBefore, hAfter, rfl⟩ := projected_append h
    obtain ⟨rest, rfl, hRest, hCount, hSettled⟩ := ih hItems hAfter
    have hOne : ∃ ones, before = ones.flatMap (words source) ∧ (∀ item ∈ ones, item.IsAllowed) ∧
        ones.count .source = [item].count .source ∧ IsSettled source ones := by
      cases item with
      | alone token =>
        obtain ⟨ones, hOnes, hAllowed, hNone, hSettled⟩ := projected_alone source hItem hBefore
        exact ⟨ones, hOnes, hAllowed, count_eq_zero.mpr hNone, hSettled⟩
      | pair option value =>
        have hSame := projected_pair hItem
        rw [words, hSame] at hBefore
        cases hBefore
        exact ⟨[.pair option value], rfl, by simpa using hItem, rfl, hSame⟩
      | source =>
        have hSame := projected_source hSource
        rw [words, hSame] at hBefore
        cases hBefore
        exact ⟨[.source], rfl, by simpa using hItem, rfl, hSame⟩
    obtain ⟨ones, rfl, hAllowed, hCountOne, hSettledOne⟩ := hOne
    refine ⟨ones ++ rest, by rw [flatMap_append], fun other hOther => ?_, ?_, ?_⟩
    · rcases mem_append.mp hOther with hNew | hOld
      · exact hAllowed other hNew
      · exact hRest other hOld
    · rw [count_append, hCountOne, hCount, ← count_append, singleton_append]
    · rw [IsSettled, flatMap_append]
      exact append_projected hSettledOne hSettled

end Projection

/-! ## The whole command -/

section Whole

variable {files : FileSystem}

/-- Resolving strictly gives an absolute path without a null that resolving otherwise gives as well and
that resolves to itself. -/
structure IsResolving (files : FileSystem) : Prop where
  agrees : ∀ path resolved, files.resolveStrict path = some resolved → files.resolve path = some resolved
  settled : ∀ path resolved, files.resolveStrict path = some resolved → files.resolve resolved = some resolved
  absolute : ∀ path resolved, files.resolveStrict path = some resolved → resolved.isAbsolute
  no_null : ∀ path resolved, files.resolveStrict path = some resolved → 0 ∉ resolved.asPosix

theorem head?_asPosix {path : PurePath} (h : path.isAbsolute) : path.asPosix.head? = some 0x2f := by
  rw [← PurePath.isAbsolute_asPosix, PurePosixPath.isAbsolute, beq_iff_eq] at h
  exact h

theorem IsResolving.isOperand (hFiles : IsResolving files) (cwd : PurePath) {path source : PurePath}
    (h : files.resolveStrict path = some source) : IsOperand files cwd source := by
  have hHead := head?_asPosix (hFiles.absolute path source h)
  refine ⟨by rw [hHead]; decide, ?_⟩
  have hSome : source.asPosix ≠ [] := by
    intro hNone
    rw [hNone] at hHead
    cases hHead
  have hFree := hFiles.no_null path source h
  have hAbsolute := hFiles.absolute path source h
  rw [resolvedOperand, if_neg (by simp [hSome, hFree, hHead]), PurePath.parse_asPosix, PurePath.join,
    if_pos hAbsolute]
  exact hFiles.settled path source h

/-- A tool that was probed and is a regular executable outside the project. -/
structure IsTrusted (files : FileSystem) (inventory : CapabilityInventory) (projectRoot compiler : PurePath) :
    Prop where
  approved : compiler ∈ approvedCompilerPaths files inventory
  executable : files.regularExecutable compiler
  outside : isWithin compiler projectRoot = false

theorem resolveCompiler_ok (hFiles : IsResolving files) {inventory : CapabilityInventory}
    {projectRoot cwd compiler : PurePath} {value : Text}
    (h : resolveCompiler files inventory projectRoot cwd value = .ok compiler) :
    IsTrusted files inventory projectRoot compiler ∧ isCompilerName (PurePosixPath.name value) ∧
      compiler.asPosix ≠ [] ∧ 0 ∉ compiler.asPosix := by
  unfold resolveCompiler at h
  split_ifs at h with hName
  · cases h
  · obtain ⟨candidate, -, h⟩ := bind_eq_ok.mp h
    split at h
    · cases h
    · rename_i resolved hResolved
      split_ifs at h with hExecutable hInside hProbed
      · cases h
      · cases h
      · rw [hFiles.agrees _ _ hResolved] at h
        cases h
        have hHead := head?_asPosix (hFiles.absolute _ _ hResolved)
        refine ⟨⟨hProbed, by simpa using hExecutable, by simpa using hInside⟩, by simpa using hName, ?_,
          hFiles.no_null _ _ hResolved⟩
        intro hNone
        rw [hNone] at hHead
        cases hHead
      · cases h

def fixedOptions : Operation → List Text
  | .syntax' => [noColor, py "-Wall", py "-Wextra", py "-fsyntax-only"]
  | .includes => [noColor, py "-w", py "-E", py "-H", py "-o", py "/dev/null"]
  | .unusedFunctions =>
    [noColor, py "-Wunused-function", py "-Wno-error=unused-function", py "-S", py "-o", py "/dev/null"]

/-- The source at the end, where the operation does not leave it in its place. -/
def trailing (operation : Operation) (source : PurePath) : List Text :=
  if operation = .unusedFunctions then [] else [source.asPosix]

theorem filteredArguments_ok {cwd source : PurePath} {diagnoses : Bool} {argv kept : List Text}
    (h : filteredArguments files cwd source diagnoses diagnoses argv = .ok kept) :
    ∃ items : List KeptItem, kept = items.flatMap (words source) ∧
      (∀ item ∈ items, item.IsAllowed) ∧ items.count .source = if diagnoses then 1 else 0 := by
  unfold filteredArguments at h
  by_cases hFits : !fits argv
  · rw [if_pos hFits] at h
    cases h
  by_cases hValid : ∃ value ∈ argv, value = [] ∨ 0 ∈ value
  · rw [if_neg hFits, if_pos hValid] at h
    cases h
  · rw [if_neg hFits, if_neg hValid] at h
    obtain ⟨state, hFilter, hRest⟩ := bind_eq_ok.mp h
    split_ifs at hRest with hSources
    · cases hRest
    · cases hRest
      rw [not_not] at hSources
      have hNull : ∀ token ∈ argv.tail, 0 ∉ token := by
        intro token hToken hIn
        exact hValid ⟨token, mem_of_mem_tail hToken, .inr hIn⟩
      have hStart : Keeps source diagnoses {} [] := ⟨rfl, nofun, by simp⟩
      obtain ⟨items, hItems⟩ := filterFrom_ok hNull hStart hFilter
      have hCount := hItems.sources
      rw [hSources] at hCount
      exact ⟨items, hItems.kept, hItems.allowed, hCount⟩

theorem diagnosticOperationArguments_ok {items : List KeptItem} {arguments : List Text}
    {operation : Operation} {source : PurePath} (hSource : source.asPosix.head? ≠ some 0x2d)
    (hItems : ∀ item ∈ items, item.IsAllowed)
    (h : diagnosticOperationArguments (items.flatMap (words source)) operation source = .ok arguments) :
    ∃ items' : List KeptItem,
      arguments = items'.flatMap (words source) ++ (fixedOptions operation ++ trailing operation
        source) ∧
      (∀ item ∈ items', item.IsAllowed) ∧ items'.count .source = items.count .source ∧
      (operation = .unusedFunctions → IsSettled source items') := by
  cases operation with
  | syntax' | includes =>
    cases h
    exact ⟨items, by simp [fixedOptions, trailing], hItems, rfl, nofun⟩
  | unusedFunctions =>
    obtain ⟨kept, hKept, hDone⟩ := bind_eq_ok.mp h
    cases hDone
    obtain ⟨before, after, hBefore, hAfter, rfl⟩ := projected_append hKept
    obtain ⟨items', rfl, hAllowed, hCount, hSettled⟩ := projected_items hSource hItems hBefore
    have hColor : projected [noColor] = .ok [noColor] := by decide +kernel
    rw [hColor] at hAfter
    cases hAfter
    exact ⟨items', by simp [fixedOptions, trailing], hAllowed, hCount, fun _ => hSettled⟩

theorem filteredArguments_again {cwd source : PurePath} {operation : Operation} {items : List KeptItem}
    {compiler : Text} (hSource : IsOperand files cwd source) (hItems : ∀ item ∈ items, item.IsAllowed)
    (hCount : items.count .source = if operation = .unusedFunctions then 1 else 0)
    (hFits : fits (compiler :: (items.flatMap (words source) ++ trailing operation source)))
    (hValid : ∀ value ∈ compiler :: (items.flatMap (words source) ++ trailing operation source),
      ¬(value = [] ∨ 0 ∈ value)) :
    filteredArguments files cwd source (operation = .unusedFunctions) (operation = .unusedFunctions)
      (compiler :: (items.flatMap (words source) ++ trailing operation source)) =
        .ok (items.flatMap (words source)) := by
  have hPlace : KeptItem.source ∈ items → decide (operation = .unusedFunctions) = true := by
    intro hMem
    by_contra hOther
    rw [if_neg (by simpa using hOther)] at hCount
    exact count_eq_zero.mp hCount hMem
  have hNone : ¬∃ value ∈ compiler :: (items.flatMap (words source) ++ trailing operation source),
      value = [] ∨ 0 ∈ value := fun ⟨value, hMem, hBad⟩ => hValid value hMem hBad
  have hState : filterFrom files cwd source (operation = .unusedFunctions) (operation = .unusedFunctions) {}
      (items.flatMap (words source) ++ trailing operation source) =
        .ok ⟨items.flatMap (words source), 1, false⟩ := by
    rw [filterFrom_items _ hSource rfl hItems hPlace]
    dsimp only
    rw [nil_append, Nat.zero_add, hCount, trailing]
    split_ifs with hOperation
    · rw [filterFrom]
    · have hTurn : consumeReplayArgument files cwd source (operation = .unusedFunctions)
          (operation = .unusedFunctions) ⟨items.flatMap (words source), 0, false⟩ source.asPosix [] =
            .ok (⟨items.flatMap (words source), 1, false⟩, []) := by
        rw [consumeReplayArgument, hSource.resolved, if_neg (hSource.ne rfl), if_neg hSource.plain.2,
          if_neg (hSource.ne rfl), if_pos rfl]
        simp [hOperation]
      rw [filterFrom]
      split <;> rename_i hOther <;> rw [hTurn] at hOther <;> cases hOther
      rw [filterFrom]
  rw [filteredArguments, if_neg (by simpa using hFits), if_neg hNone, tail_cons, hState]
  rfl

theorem buildReplayCommand_ok {root : PurePath} {unit : CompilationUnit} {inventory : CapabilityInventory}
    {operation : Operation} {command : ReplayCommand}
    (h : buildReplayCommand files root unit inventory operation = .ok command) :
    ∃ projectRoot compiler kept arguments, files.resolveStrict root = some projectRoot ∧
      files.resolveStrict (projectRoot.join (.parse unit.source)) = some command.source ∧
      resolveCompiler files inventory projectRoot command.cwd (unit.argv.headD []) = .ok compiler ∧
      filteredArguments files command.cwd command.source (operation = .unusedFunctions)
        (operation = .unusedFunctions) unit.argv = .ok kept ∧
      diagnosticOperationArguments kept operation command.source = .ok arguments ∧
      fits (compiler.asPosix :: arguments) ∧ command.argv = compiler.asPosix :: arguments := by
  unfold buildReplayCommand at h
  split at h
  · cases h
  rename_i projectRoot hRoot
  split at h
  · rename_i cwd source hCwd hSource
    by_cases hDirectory : !isWithin cwd projectRoot || !files.isDir cwd
    · rw [if_pos hDirectory] at h
      cases h
    by_cases hFile : !isWithin source projectRoot || !files.isFile source
    · rw [if_neg hDirectory, if_pos hFile] at h
      cases h
    rw [if_neg hDirectory, if_neg hFile] at h
    obtain ⟨compiler, hCompiler, h⟩ := bind_eq_ok.mp h
    obtain ⟨kept, hKept, h⟩ := bind_eq_ok.mp h
    obtain ⟨arguments, hArguments, h⟩ := bind_eq_ok.mp h
    dsimp only at h
    by_cases hFits : !fits (compiler.asPosix :: arguments)
    · rw [if_pos hFits] at h
      cases h
    rw [if_neg hFits] at h
    cases h
    exact ⟨projectRoot, compiler, kept, arguments, hRoot, hSource, hCompiler, hKept, hArguments,
      by simpa using hFits, rfl⟩
  · cases h

theorem fits_of_append {front more : List Text} (h : fits (front ++ more)) : fits front := by
  simp only [fits, Bool.and_eq_true, decide_eq_true_eq, length_append, map_append, sum_append] at h ⊢
  omega

theorem fits_perm {argv argv' : List Text} (hPerm : argv.Perm argv') : fits argv = fits argv' := by
  rw [fits, fits, hPerm.length_eq, (hPerm.map List.length).sum_eq]

theorem KeptItem.IsAllowed.valid {item : KeptItem} (h : item.IsAllowed) {source : PurePath}
    (hSource : source.asPosix ≠ [] ∧ 0 ∉ source.asPosix) :
    ∀ value ∈ item.words source, ¬(value = [] ∨ 0 ∈ value) := by
  intro value hValue hBad
  cases item with
  | alone token =>
    obtain rfl := mem_singleton.mp hValue
    rcases hBad with rfl | hNull
    · cases h.1
    · exact h.2.1 hNull
  | pair option value' =>
    obtain ⟨hOption, -, -, -, hFree⟩ := head?_of_mem_preserveValue h.1.1
    rcases mem_cons.mp hValue with rfl | hValue
    · rcases hBad with rfl | hNull
      · cases hOption
      · exact hFree hNull
    · obtain rfl := mem_singleton.mp hValue
      rcases hBad with hEmpty | hNull
      · exact h.2.1 hEmpty
      · exact h.2.2.1 hNull
  | source =>
    obtain rfl := mem_singleton.mp hValue
    rcases hBad with hEmpty | hNull
    · exact hSource.1 hEmpty
    · exact hSource.2 hNull

/-- The command runs a trusted compiler on options the policy keeps, with the source as its one operand
and the fixed options of the operation. Reading what was kept again keeps all of it. -/
def IsSafeReplay (files : FileSystem) (root : PurePath) (unit : CompilationUnit)
    (inventory : CapabilityInventory) (operation : Operation) (command : ReplayCommand) : Prop :=
  ∃ (projectRoot compiler : PurePath) (items : List KeptItem),
    files.resolveStrict root = some projectRoot ∧ IsTrusted files inventory projectRoot compiler ∧
    isCompilerName (PurePosixPath.name (unit.argv.headD [])) ∧
    command.argv = compiler.asPosix :: (items.flatMap (words command.source) ++
      (fixedOptions operation ++ trailing operation command.source)) ∧
    (∀ item ∈ items, item.IsAllowed) ∧
    items.count .source + (trailing operation command.source).length = 1 ∧
    filteredArguments files command.cwd command.source (operation = .unusedFunctions)
      (operation = .unusedFunctions) (compiler.asPosix ::
        (items.flatMap (words command.source) ++ trailing operation command.source)) =
      .ok (items.flatMap (words command.source)) ∧
    (operation = .unusedFunctions → projected (items.flatMap (words command.source)) =
      .ok (items.flatMap (words command.source)))

theorem buildReplayCommand_safe (hFiles : IsResolving files) {root : PurePath} {unit : CompilationUnit}
    {inventory : CapabilityInventory} {operation : Operation} {command : ReplayCommand}
    (h : buildReplayCommand files root unit inventory operation = .ok command) :
    IsSafeReplay files root unit inventory operation command := by
  obtain ⟨projectRoot, compiler, kept, arguments, hRoot, hSource, hCompiler, hKept, hArguments, hFits,
    hCommand⟩ := buildReplayCommand_ok h
  obtain ⟨hTrusted, hName, hSome, hFree⟩ := resolveCompiler_ok hFiles hCompiler
  have hOperand := hFiles.isOperand command.cwd hSource
  obtain ⟨items, rfl, hItems, hCount⟩ := filteredArguments_ok hKept
  obtain ⟨items', rfl, hAllowed, hCount', hSettled⟩ := diagnosticOperationArguments_ok hOperand.plain.1 hItems
    hArguments
  have hSources : items'.count .source = if operation = .unusedFunctions then 1 else 0 := by
    rw [hCount', hCount]
    simp
  have hText : command.source.asPosix ≠ [] ∧ 0 ∉ command.source.asPosix := by
    refine ⟨fun hNone => ?_, hFiles.no_null _ _ hSource⟩
    have hHead := head?_asPosix (hFiles.absolute _ _ hSource)
    rw [hNone] at hHead
    cases hHead
  have hMoved : (compiler.asPosix :: (items'.flatMap (words command.source) ++
      (fixedOptions operation ++ trailing operation command.source))).Perm
      (compiler.asPosix :: (items'.flatMap (words command.source) ++
        trailing operation command.source) ++ fixedOptions operation) := by
    rw [cons_append, append_assoc]
    exact (perm_append_comm.append_left _).cons _
  have hAgain : fits (compiler.asPosix :: (items'.flatMap (words command.source) ++
      trailing operation command.source)) := fits_of_append (fits_perm hMoved ▸ hFits)
  refine ⟨projectRoot, compiler, items', hRoot, hTrusted, hName, hCommand, hAllowed, ?_,
    filteredArguments_again hOperand hAllowed hSources hAgain ?_, hSettled⟩
  · rw [hSources, trailing]
    split_ifs <;> rfl
  · intro value hValue hBad
    rcases mem_cons.mp hValue with rfl | hValue
    · rcases hBad with hEmpty | hNull
      · exact hSome hEmpty
      · exact hFree hNull
    · rcases mem_append.mp hValue with hItem | hTrailing
      · obtain ⟨item, hMem, hWord⟩ := mem_flatMap.mp hItem
        exact (hAllowed item hMem).valid hText value hWord hBad
      · unfold trailing at hTrailing
        split_ifs at hTrailing
        · cases hTrailing
        · obtain rfl := mem_singleton.mp hTrailing
          rcases hBad with hEmpty | hNull
          · exact hText.1 hEmpty
          · exact hText.2 hNull

end Whole

/-! ## One command -/

def plainFiles : FileSystem where
  resolveStrict path := if path.asPosix ∈ [py "/p", py "/p/build", py "/p/src/main.cpp", py "/usr/bin/g++"]
    then some path else none
  resolve := some
  regularExecutable path := path.asPosix = py "/usr/bin/g++"
  isDir path := path.asPosix ∈ [py "/p", py "/p/build"]
  isFile path := path.asPosix ∈ [py "/p/src/main.cpp", py "/usr/bin/g++"]
  which _ := none

def probed : CapabilityInventory := [(py "g++", ⟨py "/usr/bin/g++", true, true⟩)]

def mainUnit : CompilationUnit where
  source := py "src/main.cpp"
  directory := py "build"
  argv := [py "/usr/bin/g++", py "-O2", py "-I", py "include", py "-o", py "main.o", py "-c",
    py "/p/src/main.cpp"]
  compiler := py "g++"
  configuration := []

def mainReplay : ReplayCommand where
  argv := [py "/usr/bin/g++", py "-O2", py "-I", py "include", py "-fdiagnostics-color=never", py "-Wall",
    py "-Wextra", py "-fsyntax-only", py "/p/src/main.cpp"]
  cwd := .parse (py "/p/build")
  source := .parse (py "/p/src/main.cpp")
  compiler := py "g++"
  configuration := []

theorem isResolving_plainFiles : IsResolving plainFiles := by
  have hResolved : ∀ path resolved, plainFiles.resolveStrict path = some resolved → path = resolved ∧
      path.asPosix ∈ [py "/p", py "/p/build", py "/p/src/main.cpp", py "/usr/bin/g++"] := by
    intro path resolved h
    simp only [plainFiles] at h
    split_ifs at h with hListed
    cases h
    exact ⟨rfl, hListed⟩
  have hListed : ∀ text ∈ [py "/p", py "/p/build", py "/p/src/main.cpp", py "/usr/bin/g++"],
      PurePosixPath.isAbsolute text ∧ 0 ∉ text := by decide
  refine ⟨fun path resolved h => ?_, fun _ _ _ => rfl, fun path resolved h => ?_, fun path resolved h => ?_⟩
  · rw [(hResolved path resolved h).1]
    rfl
  · obtain ⟨rfl, hText⟩ := hResolved path resolved h
    rw [← PurePath.isAbsolute_asPosix]
    exact (hListed _ hText).1
  · obtain ⟨rfl, hText⟩ := hResolved path resolved h
    exact (hListed _ hText).2

theorem buildReplayCommand_main :
    buildReplayCommand plainFiles (.parse (py "/p")) mainUnit probed .syntax' = .ok mainReplay := by
  decide +kernel

theorem mainReplay_safe : IsSafeReplay plainFiles (.parse (py "/p")) mainUnit probed .syntax' mainReplay :=
  buildReplayCommand_safe isResolving_plainFiles buildReplayCommand_main

/-- The operation's own `-fsyntax-only` is nothing the policy accepts alone and no value behind an option
that it keeps, and reading the whole command again drops it. -/
theorem fixed_option_outside_policy :
    buildReplayCommand plainFiles (.parse (py "/p")) mainUnit probed .syntax' = .ok mainReplay ∧
    (∃ before after, mainReplay.argv = before ++ [py "-Wextra", py "-fsyntax-only"] ++ after) ∧
    mainReplay.argv.count (py "-fsyntax-only") = 1 ∧ accepts (py "-fsyntax-only") = false ∧
    py "-fsyntax-only" ∉ preserveValue ∧ py "-Wextra" ∉ preserveValue ∧
    filteredArguments plainFiles mainReplay.cwd mainReplay.source false false mainReplay.argv =
      .ok [py "-O2", py "-I", py "include", py "-Wall", py "-Wextra"] := by
  refine ⟨buildReplayCommand_main, ⟨mainReplay.argv.take 6, mainReplay.argv.drop 8, ?_⟩, ?_, ?_, ?_, ?_, ?_⟩
  all_goals decide +kernel

end Ici.CppReplay
