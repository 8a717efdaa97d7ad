import Ici.Core.Models
import Ici.Library.Dict
import Ici.Library.FirstMatch

/-! # The compiler's argv as a syntax check

`transform_argv` looks at the words of a captured command one by one; which of them is an operand of
the word before is known for dropped options only. -/

namespace Ici.Compiler

open Option List Python Core

def dropWithOperand : Dict Text Text := [
  (py "-o", py "output artifact — a syntax check writes nothing"),
  (py "-MF", py "dependency output file — nothing may be generated"),
  (py "-MT", py "dependency target — belongs to -M machinery"),
  (py "-MQ", py "dependency target — belongs to -M machinery"),
  (py "-MJ", py "JSON job record — a compilation-database writer, not a check"),
  (py "-include-pch", py "precompiled-header input — produced by a build step")]

def dropExact : Dict Text Text := [
  (py "-c", py "compile-only driver step — the analyzer checks syntax"),
  (py "-S", py "emit-assembly step — an artifact, not an analysis"),
  (py "-E", py "preprocess-only step — produces a different artifact"),
  (py "-M", py "dependency generation — writes make rules"),
  (py "-MD", py "dependency generation — writes make rules"),
  (py "-MM", py "dependency generation — writes make rules"),
  (py "-MMD", py "dependency generation — writes make rules"),
  (py "-pipe", py "inter-stage piping — irrelevant without codegen"),
  (py "-shared", py "link-mode flag — no link happens"),
  (py "-pie", py "link-mode flag — no link happens"),
  (py "-pg", py "profiling instrumentation — an artifact flag"),
  (py "--coverage", py "coverage instrumentation — writes .gcno"),
  (py "-ftest-coverage", py "coverage instrumentation — writes .gcno")]

def dropPrefixes : List (Text × Text) := [
  (py "-o", py "output artifact — a syntax check writes nothing"),
  (py "-MF", py "dependency output file — nothing may be generated"),
  (py "-MT", py "dependency target — belongs to -M machinery"),
  (py "-MQ", py "dependency target — belongs to -M machinery"),
  (py "-MJ", py "JSON job record — a compilation-database writer, not a check"),
  (py "-flto", py "link-time optimization — a link-step flag"),
  (py "-save-temps", py "intermediate-artifact retention — writes files"),
  (py "-fdump", py "compiler dump — writes files"),
  (py "-fprofile-", py "profile instrumentation — writes .gcda/.gcno"),
  (py "-Wa,", py "assembler passthrough — no assembly is emitted"),
  (py "-Wl,", py "linker passthrough — no link happens"),
  (py "-Wp,", py "preprocessor passthrough — may name output files"),
  (py "-l", py "link input — no link happens"),
  (py "-L", py "link search path — no link happens")]

/-! ## The transform -/

def drivers : List Text :=
  [py "c++", py "g++", py "gcc", py "clang++", py "clang", py "cc", py "em++", py "emcc"]

/-- What `(?:-\d+.*)?$` accepts; a newline may end the name. -/
def isVersion (digits : DigitTable) (tail : Text) : Bool :=
  let version := if tail.getLast? = some 0xa then tail.dropLast else tail
  version = [] || (version.head? = some 0x2d && (version.drop 1).head?.any digits.isDecimal &&
    !version.contains 0xa)

def compilerFamily (casefold : Casefold) (digits : DigitTable) (executable : Text) : Text :=
  let name := casefold (PurePosixPath.name executable)
  if drivers.any fun driver => driver.isPrefixOf name && isVersion digits (name.drop driver.length) then
    if py "clang" <:+: name then py "clang" else py "gcc"
  else []

structure TransformedInvocation where
  argv : List Text
  dropped : List (Text × Text)

/-- What becomes of one word: it is skipped as an operand, dropped for a reason, named last as the
source, or kept. -/
inductive Fate where
  | skipped
  | dropped (reason : Text)
  | source
  | kept

def Fate.isKept : Fate → Bool
  | kept => true
  | _ => false

def Fate.reason? : Fate → Option Text
  | dropped reason => some reason
  | _ => none

def dropReason (arg : Text) : Option Text :=
  ((dropWithOperand.get? arg).or (dropExact.get? arg)).or
    ((dropPrefixes.find? fun entry => entry.1.isPrefixOf arg).map Prod.snd)

def fateOf (sourceToken arg : Text) : Fate :=
  match dropReason arg with
  | some reason => .dropped reason
  | none => if arg = sourceToken then .source else .kept

def fates (sourceToken : Text) : Bool → List Text → List Fate
  | _, [] => []
  | true, _ :: rest => .skipped :: fates sourceToken false rest
  | false, arg :: rest => fateOf sourceToken arg :: fates sourceToken (dropWithOperand.get? arg).isSome rest

def transformArgv (casefold : Casefold) (digits : DigitTable) (argv : List Text) (sourceToken : Text) :
    Option TransformedInvocation :=
  match argv with
  | [] => none
  | executable :: args =>
    if compilerFamily casefold digits executable = [] then none
    else
      let sorted := args.zip (fates sourceToken false args)
      some {
        argv := [executable, py "-fsyntax-only"] ++
          (sorted.filter (·.2.isKept)).map Prod.fst ++ [sourceToken]
        dropped := sorted.filterMap fun entry => entry.2.reason?.map (entry.1, ·) }

/-! ## Commands in the driver's grammar -/

def isListed (option : Text) : Bool := (dropReason option).isSome

def takesOperand (option : Text) : Bool := (dropWithOperand.get? option).isSome

/-- What the driver makes of its options: which ones take the next word as their operand, and which
ones write a file during a syntax check. -/
structure Driver where
  separate : Text → Bool
  writes : Text → Option Text → Bool
  separate_of_takesOperand : ∀ option, takesOperand option = true → separate option = true

/-- An option that is one word, an operand attached or not, an option with its operand, or the source. -/
inductive Item where
  | flag (option : Text)
  | pair (option operand : Text)
  | source
deriving DecidableEq

open Item

namespace Item

def words (sourceToken : Text) : Item → List Text
  | flag option => [option]
  | pair option operand => [option, operand]
  | source => [sourceToken]

def isKept : Item → Bool
  | flag option => !isListed option
  | pair option _ => !isListed option
  | source => false

def mask : Item → List Bool
  | flag option => [!isListed option]
  | pair option _ => [!isListed option, !isListed option]
  | source => [false]

def writes (driver : Driver) : Item → Bool
  | flag option => driver.writes option none
  | pair option operand => driver.writes option (some operand)
  | source => false

end Item

structure Command (casefold : Casefold) (digits : DigitTable) (driver : Driver) where
  executable : Text
  sourceToken : Text
  items : List Item
  known : compilerFamily casefold digits executable ≠ []
  source_once : items.count .source = 1
  source_apart : sourceToken.head? ≠ some 0x2d
  flags : ∀ option, .flag option ∈ items → option.head? = some 0x2d ∧ driver.separate option = false
  pairs : ∀ option operand, .pair option operand ∈ items →
    option.head? = some 0x2d ∧ driver.separate option = true

variable {casefold : Casefold} {digits : DigitTable} {driver : Driver}

def Command.args (command : Command casefold digits driver) : List Text :=
  command.items.flatMap (·.words command.sourceToken)

/-- The words that stay are those of the options off the list, each with its operand, the source
comes last, and no option that stays writes a file. -/
structure IsFaithful (command : Command casefold digits driver) : Prop where
  words : (fates command.sourceToken false command.args).map Fate.isKept = command.items.flatMap mask
  argv : (transformArgv casefold digits (command.executable :: command.args) command.sourceToken).map (·.argv)
    =
    some ([command.executable, py "-fsyntax-only"] ++
      (command.items.filter isKept).flatMap (·.words command.sourceToken) ++ [command.sourceToken])
  writes : ∀ item ∈ command.items, item.isKept = true → item.writes driver = false

/-- Operands are told from options by what they spell: that of an option that stays is neither listed
nor the source, and that of a listed option which is not known to take one is listed itself or the
source. Such an operand may take the next word along, which then belongs to a listed option. -/
def IsApart (sourceToken : Text) : Bool → List Item → Prop
  | _, [] => True
  | taken, .flag option :: rest => (taken = true → isListed option = true) ∧ IsApart sourceToken false rest
  | _, .source :: rest => IsApart sourceToken false rest
  | taken, .pair option operand :: rest =>
    if isListed option then
      if taken = false ∧ takesOperand option = true then IsApart sourceToken false rest
      else (isListed operand = true ∨ operand = sourceToken) ∧ IsApart sourceToken (takesOperand operand) rest
    else taken = false ∧ isListed operand = false ∧ operand ≠ sourceToken ∧ IsApart sourceToken false rest

structure KeepsApart (command : Command casefold digits driver) : Prop where
  operands : IsApart command.sourceToken false command.items
  writes : ∀ item ∈ command.items, item.isKept = true → item.writes driver = false

/-! ## The fates of the words -/

variable {sourceToken : Text}

theorem isKept_fateOf (arg : Text) :
    (fateOf sourceToken arg).isKept = (!isListed arg && !decide (arg = sourceToken)) := by
  rw [fateOf, isListed]
  cases dropReason arg with
  | some reason => rfl
  | none => by_cases hSource : arg = sourceToken <;> simp [hSource, Fate.isKept]

theorem isListed_of_takesOperand {option : Text} (h : takesOperand option = true) : isListed option = true := by
  obtain ⟨reason, hReason⟩ := isSome_iff_exists.mp h
  rw [isListed, dropReason, hReason, some_or, some_or]
  rfl

theorem isListed_eq_false {arg : Text} (h : arg.head? ≠ some 0x2d) : isListed arg = false := by
  have hHead (entry : Text × Text)
      (hEntry : entry ∈ dropWithOperand ++ dropExact ++ dropPrefixes) : entry.1.head? = some 0x2d := by
    have hAll : (dropWithOperand ++ dropExact ++ dropPrefixes).all (·.1.head? = some 0x2d) := by decide
    simpa using all_eq_true.mp hAll entry hEntry
  have hGet {d : Dict Text Text} (hSub : ∀ entry ∈ d, entry.1.head? = some 0x2d) : d.get? arg = none := by
    rw [Dict.get?_eq_none_iff]
    intro hMem
    obtain ⟨entry, hEntry, rfl⟩ := mem_map.mp hMem
    exact h (hSub entry hEntry)
  have hPrefix : dropPrefixes.find? (fun entry => entry.1.isPrefixOf arg) = none := by
    rw [find?_eq_none]
    intro entry hEntry hPrefix
    obtain ⟨rest, rfl⟩ := isPrefixOf_iff_prefix.mp hPrefix
    apply h
    rw [head?_append, hHead entry (mem_append_right _ hEntry), some_or]
  rw [isListed, dropReason, hGet fun entry hEntry => hHead entry (by simp [hEntry]),
    hGet fun entry hEntry => hHead entry (by simp [hEntry]), hPrefix]
  rfl

theorem fates_kept_iff {items : List Item} (hSource : sourceToken.head? ≠ some 0x2d)
    (hFlags : ∀ option, .flag option ∈ items → option.head? = some 0x2d ∧ takesOperand option = false)
    (hPairs : ∀ option operand, .pair option operand ∈ items → option.head? = some 0x2d) (taken : Bool) :
    (fates sourceToken taken (items.flatMap (·.words sourceToken))).map Fate.isKept =
      items.flatMap mask ↔ IsApart sourceToken taken items := by
  have hNe {option : Text} (h : option.head? = some 0x2d) : option ≠ sourceToken := by
    rintro rfl
    exact hSource h
  induction items generalizing taken with
  | nil => cases taken <;> simp [fates, IsApart]
  | cons item rest ih =>
    have ih (taken : Bool) : (fates sourceToken taken (rest.flatMap (·.words sourceToken))).map Fate.isKept =
        rest.flatMap mask ↔ IsApart sourceToken taken rest :=
      ih (fun option h => hFlags option (mem_cons_of_mem _ h))
        (fun option operand h => hPairs option operand (mem_cons_of_mem _ h)) taken
    cases item with
    | flag option =>
      obtain ⟨hDash, hAlone⟩ := hFlags option mem_cons_self
      have hWords : (flag option :: rest).flatMap (·.words sourceToken) =
          option :: rest.flatMap (·.words sourceToken) := rfl
      have hMask : (flag option :: rest).flatMap mask = (!isListed option)
        :: rest.flatMap mask :=
        rfl
      rw [hWords, hMask, IsApart]
      cases taken with
      | true =>
        rw [fates, map_cons, cons.injEq, ih]
        simp [Fate.isKept]
      | false =>
        have hNext : (dropWithOperand.get? option).isSome = false := hAlone
        rw [fates, map_cons, cons.injEq, hNext, ih, isKept_fateOf]
        simp [hNe hDash]
    | source =>
      have hWords : (source :: rest).flatMap (·.words sourceToken) =
          sourceToken :: rest.flatMap (·.words sourceToken) := rfl
      have hMask : (source :: rest).flatMap mask = false :: rest.flatMap mask := rfl
      have hAlone : (dropWithOperand.get? sourceToken).isSome = false := by
        rw [Bool.eq_false_iff]
        intro hTakes
        exact Bool.false_ne_true ((isListed_eq_false hSource).symm.trans (isListed_of_takesOperand hTakes))
      rw [hWords, hMask, IsApart]
      cases taken with
      | true =>
        rw [fates, map_cons, cons.injEq, ih]
        simp [Fate.isKept]
      | false =>
        rw [fates, map_cons, cons.injEq, hAlone, ih, isKept_fateOf]
        simp
    | pair option operand =>
      have hDash := hPairs option operand mem_cons_self
      have hWords : (pair option operand :: rest).flatMap (·.words sourceToken) =
          option :: operand :: rest.flatMap (·.words sourceToken) := rfl
      have hMask : (pair option operand :: rest).flatMap mask =
          (!isListed option) :: (!isListed option) :: rest.flatMap mask := rfl
      have hOperand : (fates sourceToken false (operand :: rest.flatMap (·.words sourceToken))).map
        Fate.isKept = (!isListed option) :: rest.flatMap mask ↔
          (!isListed operand && !decide (operand = sourceToken)) = !isListed option ∧
            IsApart sourceToken (takesOperand operand) rest := by
        rw [fates, map_cons, cons.injEq, isKept_fateOf, ← ih]
        rfl
      rw [hWords, hMask, IsApart]
      cases taken with
      | true =>
        rw [fates, map_cons, cons.injEq, hOperand]
        cases hListed : isListed option <;> cases hOperand : isListed operand <;> simp [Fate.isKept]
      | false =>
        rw [fates, map_cons, cons.injEq, isKept_fateOf]
        cases hTakes : takesOperand option with
        | true =>
          have hListed := isListed_of_takesOperand hTakes
          have hNext : (dropWithOperand.get? option).isSome = true := hTakes
          rw [hNext, fates, map_cons, cons.injEq, ih, hListed]
          simp [Fate.isKept]
        | false =>
          have hNext : (dropWithOperand.get? option).isSome = false := hTakes
          rw [hNext, hOperand]
          cases hListed : isListed option with
          | true => cases isListed operand <;> simp
          | false =>
            have hSpared (h : isListed operand = false) : takesOperand operand = false := by
              rw [Bool.eq_false_iff]
              intro hTakes
              exact Bool.false_ne_true (h.symm.trans (isListed_of_takesOperand hTakes))
            simp only [Bool.not_false, Bool.and_eq_true, Bool.not_eq_true', decide_eq_false_iff_not,
              hNe hDash, not_false_eq_true, and_self, true_and, Bool.false_eq_true, if_false]
            constructor
            · rintro ⟨⟨hOff, hOther⟩, hRest⟩
              exact ⟨hOff, hOther, hSpared hOff ▸ hRest⟩
            · rintro ⟨hOff, hOther, hRest⟩
              exact ⟨⟨hOff, hOther⟩, (hSpared hOff).symm ▸ hRest⟩

theorem kept_words {items : List Item} {sorted : List Fate}
    (h : sorted.map Fate.isKept = items.flatMap mask) :
    (((items.flatMap (·.words sourceToken)).zip sorted).filter (·.2.isKept)).map Prod.fst =
      (items.filter isKept).flatMap (·.words sourceToken) := by
  induction items generalizing sorted with
  | nil => rfl
  | cons item rest ih =>
    cases item with
    | flag option =>
      obtain ⟨fate, sorted, rfl, hFate, hRest⟩ := map_eq_cons_iff.mp h
      have hItem : (flag option).isKept = !isListed option := rfl
      rw [flatMap_cons, Item.words, singleton_append, zip_cons_cons]
      cases hListed : isListed option with
      | true =>
        rw [hListed] at hFate hItem
        rw [filter_cons_of_neg (by simp [hFate]), filter_cons_of_neg (by simp [hItem]), ih hRest]
      | false =>
        rw [hListed] at hFate hItem
        rw [filter_cons_of_pos (by simp [hFate]), filter_cons_of_pos (by simp [hItem]), map_cons, ih hRest]
        rfl
    | source =>
      obtain ⟨fate, sorted, rfl, hFate, hRest⟩ := map_eq_cons_iff.mp h
      rw [flatMap_cons, Item.words, singleton_append, zip_cons_cons,
        filter_cons_of_neg (by simp [hFate]), ih hRest]
      rfl
    | pair option operand =>
      obtain ⟨fate, sorted, rfl, hFate, hRest⟩ := map_eq_cons_iff.mp h
      obtain ⟨second, sorted, rfl, hSecond, hRest⟩ := map_eq_cons_iff.mp hRest
      have hItem : (pair option operand).isKept = !isListed option := rfl
      rw [flatMap_cons, Item.words, cons_append, singleton_append, zip_cons_cons, zip_cons_cons]
      cases hListed : isListed option with
      | true =>
        rw [hListed] at hFate hSecond hItem
        rw [filter_cons_of_neg (by simp [hFate]), filter_cons_of_neg (by simp [hSecond]),
          filter_cons_of_neg (by simp [hItem]), ih hRest]
      | false =>
        rw [hListed] at hFate hSecond hItem
        rw [filter_cons_of_pos (by simp [hFate]), filter_cons_of_pos (by simp [hSecond]),
          filter_cons_of_pos (by simp [hItem]), map_cons, map_cons, ih hRest]
        rfl

theorem transform_faithful_iff (command : Command casefold digits driver) :
    IsFaithful command ↔ KeepsApart command := by
  have hWords := fates_kept_iff command.source_apart
    (fun option h => ⟨(command.flags option h).1, by
      rw [Bool.eq_false_iff]
      intro hTakes
      exact Bool.false_ne_true
        ((command.flags option h).2.symm.trans (driver.separate_of_takesOperand option hTakes))⟩)
    (fun option operand h => (command.pairs option operand h).1) false
  constructor
  · intro h
    exact ⟨hWords.mp h.words, h.writes⟩
  · intro h
    refine ⟨hWords.mpr h.operands, ?_, h.writes⟩
    rw [transformArgv, if_neg command.known, map_some]
    exact congrArg (fun words => some ([command.executable, py "-fsyntax-only"] ++ words ++
      [command.sourceToken]))
      (kept_words (hWords.mpr h.operands))

/-- Besides the options of the list, `-Xclang` takes an operand. -/
def clangDriver : Driver where
  separate option := takesOperand option || option = py "-Xclang"
  writes _ _ := false
  separate_of_takesOperand option h := by simp [h]

def headerCommand : Command id asciiDigits clangDriver where
  executable := py "clang"
  sourceToken := py "a.c"
  items := [.pair (py "-Xclang") (py "-include-pch"), .pair (py "-Xclang") (py "a.pch"), .source]
  known := by decide
  source_once := by decide
  source_apart := by decide
  flags option h := by simp at h
  pairs option operand h := by
    simp only [List.mem_cons, pair.injEq, reduceCtorEq, List.not_mem_nil, or_false] at h
    rcases h with ⟨rfl, -⟩ | ⟨rfl, -⟩ <;> decide

/-- `-Xclang -include-pch -Xclang a.pch` leaves `-Xclang a.pch`. -/
theorem passed_option_dropped : ¬IsFaithful headerCommand := by
  intro h
  have hWords := h.words
  revert hWords
  decide

end Ici.Compiler
