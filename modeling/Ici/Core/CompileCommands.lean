import Ici.Library.Python

/-! # Splitting the commands of a compilation database

`_compile_db_commands` on Windows: the argument vector the Microsoft C runtime would build. -/

namespace Ici.CompileCommands

open List Python List

def backslash : CodePoint := 0x5c

def quote : CodePoint := 0x22

def isBlank (c : CodePoint) : Bool := c = 0x20 || c = 0x9

def unclosedQuote : PyError := valueError (py "unclosed quote")

/-- `_windows_quote`: what is left after the quote, whether it is inside quotes, and the argument. -/
def windowsQuote (rest : Text) (slashes : ℕ) (quoted : Bool) (value : Text) : Text × Bool × Text :=
  let value := value ++ replicate (slashes / 2) backslash
  if slashes % 2 = 1 then (rest, quoted, value ++ [quote])
  else if quoted ∧ rest.head? = some quote then (rest.tail, quoted, value ++ [quote])
  else (rest, !quoted, value)

theorem length_windowsQuote (rest : Text) (slashes : ℕ) (quoted : Bool) (value : Text) :
    (windowsQuote rest slashes quoted value).1.length ≤ rest.length := by
  unfold windowsQuote
  split_ifs <;> simp

def slashRun (command : Text) : ℕ := (command.takeWhile (· = backslash)).length

theorem length_of_drop {command rest : Text} {next : CodePoint} {n : ℕ}
    (h : command.drop n = next :: rest) : n + rest.length < command.length := by
  have hLength := congrArg length h
  rw [length_drop, length_cons] at hLength
  omega

/-- `_windows_argument`: the argument and what is left of the command. -/
def windowsArgument (quoted : Bool) (value : Text) : Text → Result (Text × Text)
  | [] => if quoted then .error unclosedQuote else .ok (value, [])
  | c :: command =>
    if _hBlank : !quoted && isBlank c then .ok (value, c :: command)
    else
      let slashes := slashRun (c :: command)
      match _hRest : (c :: command).drop slashes with
      | [] => windowsArgument quoted (value ++ replicate slashes backslash) []
      | next :: rest =>
        if next = quote then
          let after := windowsQuote rest slashes quoted value
          windowsArgument after.2.1 after.2.2 after.1
        else
          let value := value ++ replicate slashes backslash
          if _hStop : !quoted && isBlank next then windowsArgument quoted value (next :: rest)
          else windowsArgument quoted (value ++ [next]) rest
termination_by command => command.length
decreasing_by
  · simp
  · apply lt_of_le_of_lt (length_windowsQuote ..)
    have hLess := length_of_drop _hRest
    omega
  · have hLess := length_of_drop _hRest
    have hRun : slashes ≠ 0 := by
      intro hNone
      rw [hNone, drop_zero, cons.injEq] at _hRest
      exact _hBlank (_hRest.1 ▸ _hStop)
    rw [length_cons]
    omega
  · have hLess := length_of_drop _hRest
    omega

/-! ## One turn of the loop

A turn reads a run of backslashes and the code point that ends it. -/

def EndsRun (tail : Text) : Prop := ∀ c ∈ tail.head?, c ≠ backslash

theorem exists_run (command : Text) : ∃ n tail, EndsRun tail ∧ command = replicate n backslash ++ tail := by
  induction command with
  | nil => exact ⟨0, [], by simp [EndsRun], rfl⟩
  | cons c rest ih =>
    by_cases hc : c = backslash
    · obtain ⟨n, tail, hTail, rfl⟩ := ih
      exact ⟨n + 1, tail, hTail, by rw [hc, replicate_succ, cons_append]⟩
    · exact ⟨0, c :: rest, by simpa [EndsRun] using hc, rfl⟩

theorem slashRun_run (n : ℕ) {tail : Text} (h : EndsRun tail) :
    slashRun (replicate n backslash ++ tail) = n := by
  have hTail : tail.takeWhile (· = backslash) = [] := by
    cases tail with
    | nil => rfl
    | cons c rest => simp [h c rfl]
  rw [slashRun, takeWhile_append_of_pos (by simp), hTail]
  simp

def turn (quoted : Bool) (value : Text) (n : ℕ) : Text → Result (Text × Text)
  | [] => windowsArgument quoted (value ++ replicate n backslash) []
  | next :: rest =>
    if next = quote then
      let after := windowsQuote rest n quoted value
      windowsArgument after.2.1 after.2.2 after.1
    else if !quoted && isBlank next then .ok (value ++ replicate n backslash, next :: rest)
    else windowsArgument quoted (value ++ replicate n backslash ++ [next]) rest

section Turns

variable {quoted : Bool} {value rest : Text}

@[simp] theorem windowsArgument_nil :
    windowsArgument quoted value [] = if quoted then .error unclosedQuote else .ok (value, []) := by
  rw [windowsArgument]

theorem windowsArgument_blank {c : CodePoint} (h : !quoted && isBlank c) :
    windowsArgument quoted value (c :: rest) = .ok (value, c :: rest) := by
  rw [windowsArgument, dif_pos h]

theorem windowsArgument_run (n : ℕ) {tail : Text} (hTail : EndsRun tail) :
    windowsArgument quoted value (replicate n backslash ++ tail) = turn quoted value n tail := by
  cases hCommand : replicate n backslash ++ tail with
  | nil =>
    obtain ⟨hRun, rfl⟩ := append_eq_nil_iff.mp hCommand
    simp [turn, hRun]
  | cons c command =>
    have hRun : slashRun (c :: command) = n := hCommand ▸ slashRun_run n hTail
    have hDrop : (c :: command).drop n = tail := by
      rw [← hCommand]
      simp
    by_cases hBlank : !quoted && isBlank c
    · have hNone : n = 0 := by
        cases n with
        | zero => rfl
        | succ n =>
          rw [replicate_succ, cons_append, cons.injEq] at hCommand
          rw [← hCommand.1] at hBlank
          simp [isBlank, backslash] at hBlank
      have hQuote : c ≠ quote := by
        rintro rfl
        simp [isBlank, quote] at hBlank
      rw [hNone, drop_zero] at hDrop
      rw [windowsArgument_blank hBlank, ← hDrop, turn, if_neg hQuote, if_pos hBlank, hNone]
      simp
    · rw [windowsArgument, dif_neg hBlank]
      dsimp only
      split
      · rename_i hNone
        rw [hRun, hDrop] at hNone
        rw [hRun, hNone, turn]
      · rename_i next rest hNext
        rw [hRun, hDrop] at hNext
        rw [hRun, hNext, turn]
        simp only [dite_eq_ite]
        split_ifs with hQuote hStop
        · rfl
        · exact windowsArgument_blank hStop
        · rfl

theorem length_windowsArgument {command found : Text}
    (h : windowsArgument quoted value command = .ok (found, rest)) :
    rest.length ≤ command.length ∧
      (∀ c ∈ command.head?, !isBlank c → rest.length < command.length) := by
  induction hLength : command.length using Nat.strong_induction_on generalizing quoted value command with
  | _ length ih =>
    obtain ⟨n, tail, hTail, rfl⟩ := exists_run command
    rw [windowsArgument_run n hTail] at h
    rw [length_append, length_replicate] at hLength
    cases tail with
    | nil =>
      rw [turn, windowsArgument_nil] at h
      split_ifs at h
      cases h
      cases n with
      | zero => simp
      | succ n => simp [← hLength]
    | cons next tail =>
      rw [length_cons] at hLength
      rw [turn] at h
      split_ifs at h with hQuote hStop
      · have hShorter := length_windowsQuote tail n quoted value
        have hBelow := (ih _ (by omega) h rfl).1
        exact ⟨by omega, fun _ _ _ => by omega⟩
      · cases h
        rw [length_cons]
        refine ⟨by omega, ?_⟩
        intro c hc hInside
        cases n with
        | zero =>
          cases hc
          have hNot : isBlank next = false := by simpa using hInside
          simp [hNot] at hStop
        | succ n => omega
      · have hBelow := (ih _ (by omega) h rfl).1
        exact ⟨by omega, fun _ _ _ => by omega⟩

end Turns

def splitWindowsCommand (command : Text) : Result (List Text) :=
  match _hRest : command.dropWhile isBlank with
  | [] => .ok []
  | c :: rest =>
    match _hFound : windowsArgument false [] (c :: rest) with
    | .error error => .error error
    | .ok (value, after) =>
      (splitWindowsCommand after).map (value :: ·)
termination_by command.length
decreasing_by
  have hSkipped : (c :: rest).length ≤ command.length := by
    rw [← _hRest]
    exact length_dropWhile_le isBlank command
  have hInside : !isBlank c := by
    have hHead := head?_dropWhile_not isBlank command
    simpa [_hRest] using hHead
  have hShorter := (length_windowsArgument _hFound).2 c rfl hInside
  omega

/-! ## The quoting of the runtime

Backslashes are doubled before a quote, which gets one more; an argument that is empty or has a
blank stands between quotes, and then a run at its end is doubled too. -/

/-- The argument behind `n` backslashes, whose number at the end is multiplied. -/
def escape (atEnd : ℕ) : ℕ → Text → Text
  | n, [] => replicate (atEnd * n) backslash
  | n, c :: rest =>
    if c = backslash then escape atEnd (n + 1) rest
    else if c = quote then replicate (2 * n + 1) backslash ++ quote :: escape atEnd 0 rest
    else replicate n backslash ++ c :: escape atEnd 0 rest

/-- Which other arguments stand between quotes as well is up to the one who quotes. -/
def quoteArgument (wraps : Text → Bool) (argument : Text) : Text :=
  if argument = [] ∨ argument.any isBlank ∨ wraps argument then
    quote :: escape 2 0 argument ++ [quote]
  else escape 1 0 argument

def EndsArgument (tail : Text) : Prop := ∀ c ∈ tail.head?, isBlank c

theorem EndsArgument.endsRun {tail : Text} (h : EndsArgument tail) : EndsRun tail := by
  intro c hc hSame
  have hBlank := h c hc
  rw [hSame] at hBlank
  simp [isBlank, backslash] at hBlank

theorem endsArgument_space (rest : Text) : EndsArgument (py " " ++ rest) := by
  intro c hc
  cases (show some (0x20 : CodePoint) = some c from hc)
  decide

theorem windowsArgument_done {value tail : Text} (h : EndsArgument tail) :
    windowsArgument false value tail = .ok (value, tail) := by
  cases tail with
  | nil => simp
  | cons c rest => exact windowsArgument_blank (by simp [h c rfl])

theorem windowsQuote_odd {rest : Text} {n : ℕ} {quoted : Bool} {value : Text} :
    windowsQuote rest (2 * n + 1) quoted value =
      (rest, quoted, value ++ replicate n backslash ++ [quote]) := by
  have hHalf : (2 * n + 1) / 2 = n := by omega
  have hOdd : (2 * n + 1) % 2 = 1 := by omega
  simp [windowsQuote, hHalf, hOdd]

theorem windowsQuote_even {rest : Text} {n : ℕ} {quoted : Bool} {value : Text}
    (h : quoted = true → rest.head? ≠ some quote) :
    windowsQuote rest (2 * n) quoted value = (rest, !quoted, value ++ replicate n backslash) := by
  have hHalf : 2 * n / 2 = n := by omega
  have hEven : 2 * n % 2 ≠ 1 := by omega
  rw [windowsQuote, hHalf, if_neg hEven, if_neg (fun hBoth => h hBoth.1 hBoth.2)]

theorem windowsArgument_escape (quoted : Bool) (argument : Text) {tail : Text}
    (hTail : EndsArgument tail) (hPlain : quoted = false → ∀ c ∈ argument, isBlank c = false)
    (n : ℕ) (value : Text) :
    windowsArgument quoted value
        (escape (if quoted then 2 else 1) n argument ++ (if quoted then quote :: tail else tail)) =
      .ok (value ++ replicate n backslash ++ argument, tail) := by
  induction argument generalizing n value with
  | nil =>
    cases quoted with
    | false =>
      simp only [Bool.false_eq_true, if_false, escape, Nat.one_mul, append_nil]
      rw [windowsArgument_run n hTail.endsRun]
      cases tail with
      | nil => simp [turn]
      | cons c rest =>
        have hBlank := hTail c rfl
        have hQuote : c ≠ quote := by
          rintro rfl
          simp [isBlank, quote] at hBlank
        simp [turn, hQuote, hBlank]
    | true =>
      have hRun : EndsRun (quote :: tail) := by simp [EndsRun, quote, backslash]
      have hNext : tail.head? ≠ some quote := by
        intro hHead
        have hBlank := hTail quote hHead
        simp [isBlank, quote] at hBlank
      simp only [if_true, escape, append_nil]
      rw [windowsArgument_run _ hRun, turn, if_pos rfl, windowsQuote_even fun _ => hNext]
      exact windowsArgument_done hTail
  | cons c rest ih =>
    have hRest : quoted = false → ∀ c ∈ rest, isBlank c = false :=
      fun hOut c hc => hPlain hOut c (mem_cons_of_mem _ hc)
    have hInside : (!quoted && isBlank c) = false := by
      cases quoted with
      | false => simp [hPlain rfl c mem_cons_self]
      | true => simp
    generalize (if quoted = true then 2 else 1) = atEnd at ih ⊢
    generalize (if quoted = true then quote :: tail else tail) = back at ih ⊢
    rw [escape]
    split_ifs with hSlash hQuote
    · rw [ih hRest, hSlash, replicate_succ']
      simp only [append_assoc, cons_append, nil_append]
    · have hRun : EndsRun (quote :: (escape atEnd 0 rest ++ back)) := by
        simp [EndsRun, quote, backslash]
      rw [append_assoc, cons_append, windowsArgument_run _ hRun, turn, if_pos rfl,
        windowsQuote_odd, ih hRest, hQuote]
      simp only [replicate_zero, append_nil, append_assoc, cons_append, nil_append]
    · have hRun : EndsRun (c :: (escape atEnd 0 rest ++ back)) := by
        simpa [EndsRun] using hSlash
      rw [append_assoc, cons_append, windowsArgument_run _ hRun, turn, if_neg hQuote,
        hInside, if_neg (by simp), ih hRest]
      simp only [replicate_zero, append_nil, append_assoc, cons_append, nil_append]

section

variable (wraps : Text → Bool) (argument : Text)

theorem windowsArgument_quoteArgument {tail : Text} (hTail : EndsArgument tail) :
    windowsArgument false [] (quoteArgument wraps argument ++ tail) = .ok (argument, tail) := by
  rw [quoteArgument]
  split_ifs with hWrapped
  · have hRun : EndsRun (quote :: (escape 2 0 argument ++ quote :: tail)) := by
      simp [EndsRun, quote, backslash]
    have hOpen : windowsArgument false []
        (replicate 0 backslash ++ quote :: (escape 2 0 argument ++ quote :: tail)) =
          turn false [] 0 (quote :: (escape 2 0 argument ++ quote :: tail)) := windowsArgument_run 0 hRun
    have hInside := windowsArgument_escape true argument hTail (by simp) 0 []
    simp only [if_true, replicate_zero, nil_append] at hInside
    simp only [replicate_zero, nil_append] at hOpen
    simpa [hOpen, turn, windowsQuote] using hInside
  · simp only [not_or, Bool.not_eq_true, any_eq_false] at hWrapped
    have hRead := windowsArgument_escape false argument hTail (fun _ => hWrapped.2.1) 0 []
    simpa using hRead

theorem head?_escape {atEnd : ℕ} (hEnd : 0 < atEnd) {argument : Text}
    (hPlain : argument.any isBlank = false) (n : ℕ) (hSome : 0 < n ∨ argument ≠ []) :
    ∃ c rest, escape atEnd n argument = c :: rest ∧ isBlank c = false := by
  have hRun : ∀ m more, 0 < m →
      ∃ c rest, replicate m backslash ++ more = c :: rest ∧ isBlank c = false := by
    intro m more hm
    obtain ⟨k, rfl⟩ := Nat.exists_eq_succ_of_ne_zero hm.ne'
    exact ⟨backslash, replicate k backslash ++ more, by rw [replicate_succ, cons_append],
      by decide⟩
  induction argument generalizing n with
  | nil =>
    have hn : 0 < n := hSome.resolve_right (fun h => h rfl)
    have hBoth := hRun (atEnd * n) [] (Nat.mul_pos hEnd hn)
    rwa [append_nil] at hBoth
  | cons c rest ih =>
    simp only [any_cons, Bool.or_eq_false_iff] at hPlain
    rw [escape]
    split_ifs with hSlash hQuote
    · exact ih hPlain.2 (n + 1) (.inl n.succ_pos)
    · exact hRun (2 * n + 1) _ (2 * n).succ_pos
    · cases n with
      | zero => exact ⟨c, escape atEnd 0 rest, rfl, hPlain.1⟩
      | succ n => exact hRun (n + 1) _ n.succ_pos

theorem head?_quoteArgument : ∃ c rest, quoteArgument wraps argument = c :: rest ∧ isBlank c = false := by
  rw [quoteArgument]
  split_ifs with hWrapped
  · exact ⟨quote, escape 2 0 argument ++ [quote], rfl, by decide⟩
  · simp only [not_or, Bool.not_eq_true] at hWrapped
    exact head?_escape Nat.one_pos hWrapped.2.1 0 (.inr hWrapped.1)

@[simp] theorem splitWindowsCommand_nil : splitWindowsCommand [] = .ok [] := by
  rw [splitWindowsCommand]
  simp

theorem splitWindowsCommand_blank {c : CodePoint} (rest : Text) (h : isBlank c) :
    splitWindowsCommand (c :: rest) = splitWindowsCommand rest := by
  rw [splitWindowsCommand, splitWindowsCommand, dropWhile_cons_of_pos h]

theorem splitWindowsCommand_argument {c : CodePoint} {rest : Text} (h : isBlank c = false) :
    splitWindowsCommand (c :: rest) = do
      let found ← windowsArgument false [] (c :: rest)
      return found.1 :: (← splitWindowsCommand found.2) := by
  rw [splitWindowsCommand]
  split
  · rename_i hNone
    simp [h] at hNone
  · rename_i next after hNext
    rw [dropWhile_cons_of_neg (by simp [h])] at hNext
    rw [← hNext]
    split <;> rename_i hFound <;> rw [hFound]
    · rfl
    · dsimp only [bind, Except.bind]
      cases splitWindowsCommand _ <;> rfl

theorem splitWindowsCommand_quoteArgument {tail : Text}
    (hTail : EndsArgument tail) : splitWindowsCommand (quoteArgument wraps argument ++ tail) =
      (splitWindowsCommand tail).map (argument :: ·) := by
  obtain ⟨c, rest, hHead, hc⟩ := head?_quoteArgument wraps argument
  have hRead := windowsArgument_quoteArgument wraps argument hTail
  rw [hHead, cons_append] at hRead ⊢
  rw [splitWindowsCommand_argument hc, hRead]
  dsimp only [bind, Except.bind]
  cases splitWindowsCommand tail <;> rfl

end

theorem splitWindowsCommand_join (wraps : Text → Bool) (arguments : List Text) :
    splitWindowsCommand (join (py " ") (arguments.map (quoteArgument wraps))) = .ok arguments := by
  induction arguments with
  | nil => simp [join]
  | cons argument rest ih =>
    cases rest with
    | nil =>
      have hEnd : EndsArgument [] := by simp [EndsArgument]
      have hRead := splitWindowsCommand_quoteArgument wraps argument hEnd
      rw [append_nil, splitWindowsCommand_nil] at hRead
      rw [map_cons, map_nil, join_singleton, hRead]
      rfl
    | cons next rest =>
      rw [map_cons, map_cons, join_cons]
      rw [splitWindowsCommand_quoteArgument wraps argument (endsArgument_space _)]
      rw [map_cons] at ih
      have hBlank : py " " = [0x20] := rfl
      rw [hBlank, singleton_append, splitWindowsCommand_blank _ (by decide), ← hBlank, ih]
      rfl

/-! ## When a quote is left open -/

inductive Place where
  | outside
  | inside
  /-- Right behind a quote that closes unless another one follows. -/
  | closing
deriving DecidableEq

def Place.settled : Place → Place
  | inside => inside
  | _ => outside

def Place.ofQuoted (quoted : Bool) : Place := if quoted then inside else outside

def Place.quoted : Place → Place
  | outside => inside
  | inside => closing
  | closing => inside

def leavesOpen (place : Place) (odd : Bool) : Text → Bool
  | [] => place = .inside
  | c :: rest =>
    if c = backslash then leavesOpen place.settled (!odd) rest
    else if c = quote then leavesOpen (if odd then place.settled else place.quoted) false rest
    else leavesOpen place.settled false rest

@[simp] theorem settled_ofQuoted (quoted : Bool) : (Place.ofQuoted quoted).settled = .ofQuoted quoted := by
  cases quoted <;> rfl

theorem leavesOpen_run (quoted odd : Bool) (n : ℕ) (tail : Text) :
    leavesOpen (.ofQuoted quoted) odd (replicate n backslash ++ tail) =
      leavesOpen (.ofQuoted quoted) (odd != (n % 2 = 1)) tail := by
  induction n generalizing odd with
  | zero => simp
  | succ n ih =>
    rw [replicate_succ, cons_append, leavesOpen, if_pos rfl, settled_ofQuoted, ih]
    rcases Nat.mod_two_eq_zero_or_one n with hEven | hOdd
    · have hNext : (n + 1) % 2 = 1 := by omega
      simp [hEven, hNext]
    · have hNext : (n + 1) % 2 = 0 := by omega
      simp [hOdd, hNext]

theorem leavesOpen_closing (rest : Text) : leavesOpen .closing false rest =
    if rest.head? = some quote then leavesOpen .inside false rest.tail
    else leavesOpen .outside false rest := by
  have hSlash : quote ≠ backslash := by decide
  cases rest with
  | nil => rfl
  | cons next after =>
    by_cases hNext : next = quote
    · rw [hNext, leavesOpen, if_neg hSlash, if_pos rfl]
      rfl
    · have hHead : (next :: after).head? ≠ some quote := by simpa using hNext
      rw [if_neg hHead, leavesOpen, leavesOpen, if_neg hNext, if_neg hNext]
      rfl

theorem leavesOpen_quote (quoted : Bool) (n : ℕ) (rest value : Text) :
    leavesOpen (.ofQuoted quoted) false (replicate n backslash ++ quote :: rest) =
      leavesOpen (.ofQuoted (windowsQuote rest n quoted value).2.1) false
        (windowsQuote rest n quoted value).1 := by
  have hSlash : quote ≠ backslash := by decide
  rw [leavesOpen_run, leavesOpen, if_neg hSlash, if_pos rfl, windowsQuote]
  rcases Nat.mod_two_eq_zero_or_one n with hEven | hOdd
  · cases quoted with
    | false => simp [hEven, Place.ofQuoted, Place.quoted]
    | true =>
      have hBehind := leavesOpen_closing rest
      by_cases hNext : rest.head? = some quote
      all_goals simpa [hEven, Place.ofQuoted, Place.quoted, hNext] using hBehind
  · simp [hOdd]

theorem windowsArgument_leavesOpen {quoted : Bool} {value command : Text} :
    match windowsArgument quoted value command with
    | .ok (_, rest) => leavesOpen (.ofQuoted quoted) false command = leavesOpen .outside false rest
    | .error error => error = unclosedQuote ∧ leavesOpen (.ofQuoted quoted) false command = true := by
  induction hLength : command.length using Nat.strong_induction_on generalizing quoted value command with
  | _ length ih =>
    obtain ⟨n, tail, hTail, rfl⟩ := exists_run command
    rw [length_append, length_replicate] at hLength
    rw [windowsArgument_run n hTail]
    cases tail with
    | nil =>
      rw [turn, windowsArgument_nil, leavesOpen_run, leavesOpen]
      cases quoted <;> simp [Place.ofQuoted, leavesOpen]
    | cons next tail =>
      rw [length_cons] at hLength
      rw [turn]
      split_ifs with hQuote hStop
      · have hShorter := length_windowsQuote tail n quoted value
        rw [hQuote, leavesOpen_quote quoted n tail value]
        exact ih _ (by omega) rfl
      · have hOut : quoted = false := by
          cases quoted with
          | false => rfl
          | true => simp at hStop
        have hSlash : next ≠ backslash := hTail next rfl
        dsimp only
        rw [leavesOpen_run, leavesOpen, leavesOpen, if_neg hSlash, if_neg hQuote, if_neg hSlash,
          if_neg hQuote, hOut]
        rfl
      · have hSlash : next ≠ backslash := hTail next rfl
        rw [leavesOpen_run, leavesOpen, if_neg hSlash, if_neg hQuote, settled_ofQuoted]
        exact ih _ (by omega) rfl

theorem splitWindowsCommand_raises_iff (command : Text) :
    (∃ error, splitWindowsCommand command = .error error) ↔ leavesOpen .outside false command = true := by
  induction hLength : command.length using Nat.strong_induction_on generalizing command with
  | _ length ih =>
    cases command with
    | nil => simp [leavesOpen]
    | cons c rest =>
      rw [length_cons] at hLength
      cases hBlank : isBlank c with
      | true =>
        have hSlash : c ≠ backslash := by
          rintro rfl
          simp [isBlank, backslash] at hBlank
        have hQuote : c ≠ quote := by
          rintro rfl
          simp [isBlank, quote] at hBlank
        rw [splitWindowsCommand_blank rest hBlank, leavesOpen, if_neg hSlash, if_neg hQuote]
        exact ih _ (by omega) rest rfl
      | false =>
        have hOpen : match windowsArgument false [] (c :: rest) with
            | .ok (_, after) => leavesOpen .outside false (c :: rest) = leavesOpen .outside false after
            | .error error => error = unclosedQuote ∧ leavesOpen .outside false (c :: rest) = true :=
          windowsArgument_leavesOpen
        rw [splitWindowsCommand_argument hBlank]
        cases hFound : windowsArgument false [] (c :: rest) with
        | error error =>
          rw [hFound] at hOpen
          exact iff_of_true ⟨error, rfl⟩ hOpen.2
        | ok found =>
          rw [hFound] at hOpen
          have hShorter := (length_windowsArgument hFound).2 c rfl (by simp [hBlank])
          rw [length_cons] at hShorter
          rw [hOpen, ← ih _ (by omega) found.2 rfl]
          dsimp only [bind, Except.bind]
          cases splitWindowsCommand found.2 <;> simp [pure, Except.pure]

example : splitWindowsCommand (py "cl \"a b\\\\\" \"\" c\\d e\\\"f") =
    .ok [py "cl", py "a b\\", [], py "c\\d", py "e\"f"] := by decide +kernel

/-- Splitting inverts the quoting of the runtime, and raises only where a quote is left open. -/
theorem splitWindowsCommand_exact : (∀ (wraps : Text → Bool) (arguments : List Text),
      splitWindowsCommand (join (py " ") (arguments.map (quoteArgument wraps))) = .ok arguments) ∧
    ∀ command, (∃ error, splitWindowsCommand command = .error error) ↔
      leavesOpen .outside false command = true :=
  ⟨splitWindowsCommand_join, splitWindowsCommand_raises_iff⟩

end Ici.CompileCommands
