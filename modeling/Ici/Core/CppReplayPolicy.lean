import Mathlib.Data.List.Infix
import Ici.Library.Python

/-! # The compiler options a replay may keep

`_cpp_replay_policy`: which options are dropped, refused or kept, and how a warning policy is
demoted for a tool that only diagnoses. -/

namespace Ici.CppReplay

open Option List Python

def dropExact : List Text := [
    py "-c", py "-S", py "-E", py "-fsyntax-only", py "-M", py "-MM", py "-MD", py "-MMD", py "-MP",
    py "-MG", py "-H", py "-save-temps", py "--save-temps", py "-ftime-trace", py "-ftime-report",
    py "-ftime-report-details", py "-fmem-report", py "-fstats", py "-pipe", py "-fcolor-diagnostics",
    py "-fno-color-diagnostics", py "-fdiagnostics-show-option", py "-fno-diagnostics-show-option",
    py "-v", py "--verbose"]

def dropValue : List Text := [
    py "-o", py "--output", py "-MF", py "-MT", py "-MQ", py "-MJ", py "-dumpdir", py "-dumpbase",
    py "-dumpbase-ext", py "-auxbase", py "-auxbase-strip", py "-serialize-diagnostics",
    py "--serialize-diagnostics", py "-dependency-file", py "--dependency-file",
    py "-fdiagnostics-serialized-file"]

def dropJoined : List Text := [
    py "-o", py "--output=", py "-MF", py "-MT", py "-MQ", py "-MJ", py "-Wp,-M", py "-save-temps=",
    py "--save-temps=", py "-ftime-trace=", py "-fdiagnostics-color=", py "-fdiagnostics-format=",
    py "-dependency-file=", py "--dependency-file=", py "-fdiagnostics-serialized-file="]

def dropPrefixes : List Text := [
    py "-g"]

def preserveValue : List Text := [
    py "-D", py "-U", py "-I", py "-F", py "-x", py "--language", py "-std", py "-include",
    py "-include-pch", py "-imacros", py "-isystem", py "-iquote", py "-idirafter", py "-iprefix",
    py "-iwithprefix", py "-iwithprefixbefore", py "-iframework", py "-iframeworkwithsysroot",
    py "-isysroot", py "--sysroot", py "-target", py "--target", py "-arch", py "-march", py "-mcpu",
    py "-mtune", py "-mabi", py "-resource-dir"]

def rejectExact : List Text := [
    py "-Xclang", py "-Xpreprocessor", py "-Xassembler", py "-Xlinker", py "-mllvm", py "-load",
    py "-load-plugin", py "-plugin", py "-plugin-arg", py "-cc1", py "-cc1as", py "-wrapper",
    py "--config", py "--config-system-dir", py "--config-user-dir", py "-B", py "-specs"]

def rejectPrefixes : List Text := [
    py "-Xclang=", py "-Xpreprocessor=", py "-Xassembler=", py "-Xlinker=", py "-mllvm=", py "-mmlir",
    py "-Wa,", py "-Wl,", py "-Wp,", py "-fplugin", py "-fpass-plugin", py "-fmodules", py "-fmodule-",
    py "-fcxx-modules", py "-fprebuilt-module-path", py "-fdump-", py "-fopt-info", py "-fstack-usage",
    py "-fcallgraph-info", py "-fprofile-generate", py "-fprofile-dir", py "-fprofile-note",
    py "-fprofile-arcs", py "-ftest-coverage", py "-fpath-coverage", py "-fdiagnostics-add-output",
    py "-fdiagnostics-set-output", py "-fsave-optimization-record", py "-foptimization-record-file",
    py "-fproc-stat-report", py "-fmemory-profile", py "-freport-bug", py "-fself-test",
    py "-iplugindir", py "-emit-", py "--precompile", py "-precompile", py "-save-stats",
    py "--save-stats", py "-stats-file", py "-time=", py "-aux-info", py "--symbol-graph-dir",
    py "-plugin-arg-", py "-wrapper=", py "-specs=", py "--specs", py "--config=",
    py "--config-system-dir=", py "--config-user-dir=", py "--gcc-toolchain", py "--prefix",
    py "-working-directory", py "--vfsoverlay", py "-vfsoverlay", py "--for-assembler",
    py "--for-linker", py "--for-preprocessor", py "--coverage", py "-coverage", py "--profile",
    py "-pg", py "-B"]

def safeExact : List Text := [
    py "-ansi", py "-pedantic", py "-pedantic-errors", py "--pedantic-errors", py "-pthread",
    py "-nostdinc", py "-nostdinc++", py "-undef", py "-trigraphs", py "-Qunused-arguments", py "-fPIC",
    py "-fPIE", py "-fpic", py "-fpie", py "-fexceptions", py "-fno-exceptions", py "-frtti",
    py "-fno-rtti", py "-fpermissive", py "-ffreestanding", py "-fhosted", py "-fshort-enums",
    py "-fshort-wchar", py "-fsigned-char", py "-funsigned-char", py "-fsized-deallocation",
    py "-fno-sized-deallocation", py "-fthreadsafe-statics", py "-fno-threadsafe-statics",
    py "-fvisibility-inlines-hidden", py "-fno-visibility-inlines-hidden", py "-fconcepts",
    py "-fconcepts-ts", py "-fcoroutines", py "-fcoroutines-ts", py "-fdelayed-template-parsing",
    py "-fchar8_t", py "-fno-char8_t", py "-fms-extensions", py "-fms-compatibility",
    py "-fno-access-control", py "-fno-elide-constructors", py "-fno-enforce-eh-specs",
    py "-fno-operator-names", py "-fno-optional-diags", py "-fno-use-cxa-atexit", py "-fno-weak",
    py "-fstrict-enums", py "-fgnu-keywords", py "-fno-gnu-keywords", py "-fimplicit-templates",
    py "-fno-implicit-templates", py "-fopenmp", py "-fno-openmp", py "-fomit-frame-pointer",
    py "-fno-omit-frame-pointer", py "-fstrict-aliasing", py "-fno-strict-aliasing", py "-fcommon",
    py "-fno-common", py "-fbuiltin", py "-fno-builtin"]

def safePrefixes : List Text := [
    py "-D", py "-U", py "-I", py "-F", py "-W", py "-std=", py "--std=", py "-isystem", py "-iquote",
    py "-idirafter", py "-iprefix", py "-iwithprefix", py "-iframework", py "-imacros", py "--sysroot=",
    py "-isysroot=", py "-target=", py "--target=", py "-arch=", py "-resource-dir=", py "-stdlib=",
    py "-rtlib=", py "-unwindlib=", py "-fabi-version=", py "-fabi-compat-version=",
    py "-faligned-new=", py "-fconstexpr-depth=", py "-fconstexpr-loop-limit=",
    py "-fconstexpr-ops-limit=", py "-fconstexpr-steps=", py "-fmacro-prefix-map=",
    py "-ffile-prefix-map=", py "-fdebug-prefix-map=", py "-fms-compatibility-version=",
    py "-fno-builtin-", py "-fopenmp-version=", py "-fpack-struct=", py "-fsanitize=",
    py "-fno-sanitize=", py "-fsanitize-recover=", py "-fno-sanitize-recover=",
    py "-ftemplate-backtrace-limit=", py "-ftemplate-depth=", py "-fvisibility="]

def safeLanguageValues : List Text := [
    py "c", py "c++"]

/-- `_OPTIMIZATION_RE`: `-O` with one of the levels it lists, or none. -/
def optimizations : List Text := [
    py "-O", py "-O0", py "-O1", py "-O2", py "-O3", py "-Os", py "-Og", py "-Oz", py "-Ofast"]

def startsWith (token start : Text) : Bool := start.isPrefixOf token

def shouldDrop (token : Text) : Bool :=
  token ∈ dropExact || dropJoined.any (fun start => startsWith token start && token ≠ start) ||
    dropPrefixes.any (startsWith token)

def isRejected (token : Text) : Bool :=
  token ∈ rejectExact || rejectPrefixes.any (startsWith token)

def isSafe (token : Text) : Bool :=
  if token ∈ safeExact ∨ token ∈ optimizations then true
  else if startsWith token (py "-m") ∧ 2 < token.length then true
  else if token = py "-xc" ∨ token = py "-xc++" then true
  else if startsWith token (py "--language=") then
    token.drop (py "--language=").length ∈ safeLanguageValues
  else safePrefixes.any fun start => startsWith token start && token ≠ start

/-- What the policy accepts: an option that is neither dropped nor refused and is known to be safe. -/
def accepts (token : Text) : Bool := !shouldDrop token && !isRejected token && isSafe token

/-! ## Demoting a warning policy -/

structure ReplayCommandError where
  code : Text
  message : Text
deriving DecidableEq

def warningPolicyDemotions : List (Text × Text) := [
  (py "-pedantic-errors", py "-pedantic"),
  (py "--pedantic-errors", py "-pedantic"),
  (py "-Werror-implicit-function-declaration", py "-Wimplicit-function-declaration")]

variable {argument kept : Text}

theorem length_of_lookup_demotions {demoted : Text}
    (h : warningPolicyDemotions.lookup argument = some demoted) : demoted.length < argument.length := by
  obtain ⟨before, after, hTable, -⟩ := lookup_eq_some_iff.mp h
  have hMem : (argument, demoted) ∈ warningPolicyDemotions := by simp [hTable]
  simp only [warningPolicyDemotions, mem_cons, Prod.mk.injEq, not_mem_nil, or_false] at hMem
  rcases hMem with ⟨rfl, rfl⟩ | ⟨rfl, rfl⟩ | ⟨rfl, rfl⟩ <;> decide

theorem eq_append_of_startsWith {token start : Text} (h : startsWith token start) :
    token = start ++ token.drop start.length :=
  (prefix_iff_eq_append.mp (List.isPrefixOf_iff_prefix.mp h)).symm

/-- The loop of `diagnostic_warning_argument`. -/
def demote (argument : Text) : Option Text :=
  if argument = py "-Werror" then none
  else match _hDemoted : warningPolicyDemotions.lookup argument with
    | some demoted => demote demoted
    | none =>
      if _hForm : startsWith argument (py "-Werror=") then
        if argument.drop (py "-Werror=").length = [] then none
        else demote (py "-W" ++ argument.drop (py "-Werror=").length)
      else some argument
termination_by argument.length
decreasing_by
  · exact length_of_lookup_demotions _hDemoted
  · rw [congrArg List.length (eq_append_of_startsWith _hForm)]
    simp [py]

def diagnosticWarningArgument (original : Text) : Except ReplayCommandError (Option Text) :=
  match demote original with
  | none => .ok none
  | some argument =>
    if argument ≠ original ∧ (shouldDrop argument ∨ isRejected argument ∨ ¬isSafe argument) then
      .error ⟨py "unsafe-tooling-warning-policy",
        py "A warning-as-error option cannot be projected to a safe diagnostic flag."⟩
    else .ok (some argument)

/-- The spellings that promote warnings: all of them, a rule of any name (nested forms included),
and the three older options. -/
def PromotesWarnings (argument : Text) : Prop :=
  argument = py "-Werror" ∨ (∃ rule, argument = py "-Werror=" ++ rule) ∨
    argument = py "-pedantic-errors" ∨ argument = py "--pedantic-errors" ∨
    argument = py "-Werror-implicit-function-declaration"

theorem promotesWarnings_iff :
    PromotesWarnings argument ↔ argument = py "-Werror" ∨ startsWith argument (py "-Werror=") ∨
      (warningPolicyDemotions.lookup argument).isSome := by
  have hForm : (∃ rule, argument = py "-Werror=" ++ rule) ↔ startsWith argument (py "-Werror=") := by
    constructor
    · rintro ⟨rule, rfl⟩
      exact isPrefixOf_iff_prefix.mpr (prefix_append ..)
    · intro h
      exact ⟨_, eq_append_of_startsWith h⟩
  have hOlder : (warningPolicyDemotions.lookup argument).isSome ↔ argument = py "-pedantic-errors" ∨
      argument = py "--pedantic-errors" ∨ argument = py "-Werror-implicit-function-declaration" := by
    rw [lookup_isSome_iff]
    simp [warningPolicyDemotions]
  rw [PromotesWarnings, hForm, hOlder]

theorem demote_eq (argument : Text) : demote argument = if argument = py "-Werror" then none
    else match warningPolicyDemotions.lookup argument with
      | some demoted => demote demoted
      | none =>
        if startsWith argument (py "-Werror=") then
          if argument.drop (py "-Werror=").length = [] then none
          else demote (py "-W" ++ argument.drop (py "-Werror=").length)
        else some argument := by
  rw [demote]
  split
  · rfl
  · split <;> rename_i hDemoted <;> rw [hDemoted]
    split <;> rfl

theorem demote_of_not_promotes (h : ¬PromotesWarnings argument) : demote argument = some argument := by
  simp only [promotesWarnings_iff, not_or, Bool.not_eq_true, isSome_eq_false_iff, isNone_iff_eq_none] at h
  obtain ⟨hAll, hForm, hOlder⟩ := h
  rw [demote_eq, if_neg hAll, hOlder]
  simp [hForm]

theorem not_promotes_of_demote (h : demote argument = some kept) : ¬PromotesWarnings kept := by
  induction argument using demote.induct with
  | case1 =>
    rw [demote_eq, if_pos rfl] at h
    cases h
  | case2 argument hAll demoted hDemoted ih =>
    rw [demote_eq, if_neg hAll, hDemoted] at h
    exact ih h
  | case3 argument hAll hOlder hForm hEmpty =>
    rw [demote_eq, if_neg hAll, hOlder] at h
    simp [hForm, hEmpty] at h
  | case4 argument hAll hOlder hForm hRule ih =>
    rw [demote_eq, if_neg hAll, hOlder] at h
    apply ih
    simpa [hForm, hRule] using h
  | case5 argument hAll hOlder hForm =>
    rw [demote_eq, if_neg hAll, hOlder] at h
    have hSame : argument = kept := by simpa [hForm] using h
    rw [← hSame, promotesWarnings_iff, hOlder]
    simp [hAll, hForm]

theorem diagnosticWarningArgument_eq_some (h : diagnosticWarningArgument argument = .ok (some kept)) :
    demote argument = some kept ∧ (kept = argument ∨ accepts kept) := by
  rw [diagnosticWarningArgument] at h
  split at h
  · cases h
  · rename_i result hDemoted
    split_ifs at h with hUnsafe
    cases h
    refine ⟨hDemoted, ?_⟩
    by_cases hSame : kept = argument
    · exact .inl hSame
    · simp only [not_and_or, not_or, ne_eq, not_not, Bool.not_eq_true, hSame, false_or] at hUnsafe
      exact .inr (by simp [accepts, hUnsafe])

example : diagnosticWarningArgument (py "-Werror=error=unused-result") =
    .ok (some (py "-Wunused-result")) := by decide +kernel

end Ici.CppReplay
