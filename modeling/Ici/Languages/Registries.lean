import Ici.Domain.Validation

/-! # What a check is, shared by every language pack

The title is read by rendering only. -/

namespace Ici

open Python

instance : Fintype Profile := ⟨{.fast, .standard, .deep}, by rintro ⟨⟩ <;> decide⟩

theorem everyProfile_nonempty : (Finset.univ : Finset Profile).Nonempty := by decide

theorem needs_nothing : ∀ name ∈ ([] : List Text), name ∉ ([] : List Text) := by decide

@[ext]
structure CheckDefinition where
  id : Text
  language : Text
  tool : Option Text
  required : Bool := true
  profiles : Finset Profile := Finset.univ
  needs : List Text := []
  provides : List Text := []
  static : Bool := true
  id_ne_nil : id ≠ [] := by decide
  profiles_nonempty : profiles.Nonempty := by first | exact everyProfile_nonempty | decide
  disjoint : ∀ name ∈ needs, name ∉ provides := by first | exact needs_nothing | decide

instance : DecidableEq CheckDefinition := fun _ _ => decidable_of_iff' _ CheckDefinition.ext_iff

end Ici

/-! ## The checks of the built-in language packs -/

namespace Ici

open Python

def pythonLineCheck : CheckDefinition where
  id := py "python.line"
  language := py "python"
  tool := none

def pythonLintCheck : CheckDefinition where
  id := py "python.lint"
  language := py "python"
  tool := some (py "ruff")

def pythonFormatCheck : CheckDefinition where
  id := py "python.format"
  language := py "python"
  tool := some (py "ruff")

def pythonTypeCheck : CheckDefinition where
  id := py "python.type"
  language := py "python"
  tool := none

def pythonTestCheck : CheckDefinition where
  id := py "python.test"
  language := py "python"
  tool := none
  static := false
  provides := [py "python-test-evidence"]

def pythonCoverageCheck : CheckDefinition where
  id := py "python.coverage"
  language := py "python"
  tool := none
  static := false
  needs := [py "python-test-evidence"]

def pythonComplexityCheck : CheckDefinition where
  id := py "python.complexity"
  language := py "python"
  tool := none

def pythonCognitiveCheck : CheckDefinition where
  id := py "python.cognitive"
  language := py "python"
  tool := none

def pythonCycleCheck : CheckDefinition where
  id := py "python.cycle"
  language := py "python"
  tool := none

def pythonDupCheck : CheckDefinition where
  id := py "python.dup"
  language := py "python"
  tool := none

def pythonSecurityCheck : CheckDefinition where
  id := py "python.security"
  language := py "python"
  tool := none

def pythonResourceCheck : CheckDefinition where
  id := py "python.resource"
  language := py "python"
  tool := none

def pythonExceptionCheck : CheckDefinition where
  id := py "python.exception"
  language := py "python"
  tool := none

def pythonDeadCheck : CheckDefinition where
  id := py "python.dead"
  language := py "python"
  tool := none

def pythonCompatCheck : CheckDefinition where
  id := py "python.compat"
  language := py "python"
  tool := none

def pythonCompatRuntimeCheck : CheckDefinition where
  id := py "python.compat-runtime"
  language := py "python"
  tool := none
  static := false
  required := false

def pythonChecks : List CheckDefinition :=
  [pythonLineCheck, pythonLintCheck, pythonFormatCheck, pythonTypeCheck, pythonTestCheck,
   pythonCoverageCheck, pythonComplexityCheck, pythonCognitiveCheck, pythonCycleCheck,
   pythonDupCheck, pythonSecurityCheck, pythonResourceCheck, pythonExceptionCheck,
   pythonDeadCheck, pythonCompatCheck, pythonCompatRuntimeCheck]

def cppLineCheck : CheckDefinition where
  id := py "cpp.line"
  language := py "cpp"
  tool := none

def cppCompileCheck : CheckDefinition where
  id := py "cpp.compile"
  language := py "cpp"
  tool := none
  provides := [py "compile-inputs"]

def cppDiagnosticsCheck : CheckDefinition where
  id := py "cpp.diagnostics"
  language := py "cpp"
  tool := none
  needs := [py "compile-inputs"]

def cppTidyCheck : CheckDefinition where
  id := py "cpp.tidy"
  language := py "cpp"
  tool := some (py "clang-tidy")
  required := false
  needs := [py "compile-inputs"]

def cppTestCheck : CheckDefinition where
  id := py "cpp.test"
  language := py "cpp"
  tool := none
  static := false
  provides := [py "cpp-test-evidence"]

def cppCoverageCheck : CheckDefinition where
  id := py "cpp.coverage"
  language := py "cpp"
  tool := none
  static := false
  needs := [py "cpp-test-evidence"]

def cppComplexityCheck : CheckDefinition where
  id := py "cpp.complexity"
  language := py "cpp"
  tool := none

def cppCognitiveCheck : CheckDefinition where
  id := py "cpp.cognitive"
  language := py "cpp"
  tool := none

def cppCycleCheck : CheckDefinition where
  id := py "cpp.cycle"
  language := py "cpp"
  tool := none

def cppDupCheck : CheckDefinition where
  id := py "cpp.dup"
  language := py "cpp"
  tool := none

def cppExceptionCheck : CheckDefinition where
  id := py "cpp.exception"
  language := py "cpp"
  tool := none

def cppArtifactCheck : CheckDefinition where
  id := py "cpp.artifact"
  language := py "cpp"
  tool := none
  static := false
  required := false
  provides := [py "artifact-contract"]

def cppSanitizeCheck : CheckDefinition where
  id := py "cpp.sanitize"
  language := py "cpp"
  tool := none
  static := false
  profiles := {.deep}

def cppTsanCheck : CheckDefinition where
  id := py "cpp.tsan"
  language := py "cpp"
  tool := none
  static := false
  profiles := {.deep}

def cppBinaryCompatCheck : CheckDefinition where
  id := py "cpp.binary-compat"
  language := py "cpp"
  tool := none
  static := false
  required := false
  needs := [py "artifact-contract"]

def cppChecks : List CheckDefinition :=
  [cppLineCheck, cppCompileCheck, cppDiagnosticsCheck, cppTidyCheck, cppTestCheck,
   cppCoverageCheck, cppComplexityCheck, cppCognitiveCheck, cppCycleCheck, cppDupCheck,
   cppExceptionCheck, cppArtifactCheck, cppSanitizeCheck, cppTsanCheck, cppBinaryCompatCheck]

def rustClippyCheck : CheckDefinition where
  id := py "rust.clippy"
  language := py "rust"
  tool := some (py "cargo")

def javascriptLintCheck : CheckDefinition where
  id := py "javascript.lint"
  language := py "javascript"
  tool := some (py "eslint")

def typescriptLintCheck : CheckDefinition where
  id := py "typescript.lint"
  language := py "typescript"
  tool := some (py "eslint")

def typescriptTypeCheck : CheckDefinition where
  id := py "typescript.type"
  language := py "typescript"
  tool := some (py "tsc")

/-- A domain, not a language: only a component that declares cases has this check. -/
def integrationCasesCheck : CheckDefinition where
  id := py "integration"
  language := py "integration"
  tool := none
  static := false
  profiles := {.deep}

/-- `PackRegistry.checks` of the built-in registry. -/
def builtinChecks : List CheckDefinition :=
  pythonChecks ++ cppChecks ++ [rustClippyCheck, javascriptLintCheck, typescriptLintCheck,
    typescriptTypeCheck,
    integrationCasesCheck]

def checksFor (languages : List Text) : List CheckDefinition := builtinChecks.filter (·.language ∈ languages)

end Ici
