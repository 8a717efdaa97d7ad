import Ici.Domain.Decoding

/-! # The schema of the stable configuration

Which keys a document may set and what the values must be that the rest of the configuration relies
on. Ranges and vocabularies of the single settings are left to the validators of their engine. -/

namespace Ici.StableSchema

open Python

def configError (path message : Text) : PyError where
  name := py "ConfigError"
  text := if path = [] then message else path ++ py " " ++ message

def rejectUnknown (table : Dict Text Json) (allowed : List Text) (path : Text) : Result Unit :=
  table.forM fun field =>
    if field.1 ∈ allowed then .ok ()
    else .error (configError (if path = [] then field.1 else path ++ py "." ++ field.1)
      (py "is an unknown configuration key"))

section

variable (value : Json) (path : Text)

def requireTable : Result (Dict Text Json) :=
  match value with
  | .obj fields => .ok fields
  | _ => .error (configError path (py "must be a table"))

def requireBool : Result Unit :=
  match value with
  | .bool _ => .ok ()
  | _ => .error (configError path (py "must be a boolean"))

/-- `_require_string` of a text that may not be blank. -/
def requireFilled : Result Text :=
  match value with
  | .str t =>
    if strip t = [] then .error (configError path (py "must be a non-empty string")) else .ok t
  | _ => .error (configError path (py "must be a non-empty string"))

def isFilledText : Json → Bool
  | .str t => t ≠ []
  | _ => false

def requireStringList : Result Unit :=
  match value with
  | .arr items =>
    if items.all isFilledText then .ok ()
    else .error (configError path (py "must be a list of non-empty strings"))
  | _ => .error (configError path (py "must be a list of non-empty strings"))

def requireOneOf (value : Json) (vocabulary : List Text) (path : Text) : Result Unit := do
  let t ← requireFilled value path
  if t ∈ vocabulary then .ok ()
  else .error (configError path (py "must be one of: " ++ join (py ", ") vocabulary))

def whereSet (table : Dict Text Json) (key : Text) (check : Json → Result Unit) : Result Unit :=
  (table.get? key).toList.forM check

/-! ## Sections -/

def projectTypes : List Text := [py "cpp", py "hybrid", py "python"]

def analysisProfiles : List Text := [py "deep", py "fast", py "standard"]

def modes : List Text := [py "pass_fail", py "pass_warn", py "pass_warn_fail"]

def topLevelKeys : List Text :=
  [py "ici", py "project", py "engines", py "build", py "doctor", py "name", py "type", py "version"]

def iciKeys : List Text := [py "version", py "policy_name", py "profile"]

def projectKeys : List Text :=
  [py "source_dirs", py "name", py "type", py "version", py "cpp_pkg_config",
    py "cpp_external_build_dirs", py "compile_database"]

def projectLists : List Text := [py "source_dirs", py "cpp_pkg_config", py "cpp_external_build_dirs"]

def validateMetadataField (path : Text) (field : Text × Json) : Result Unit :=
  let place := path ++ py "." ++ field.1
  if path = py "project" ∧ field.1 ∈ projectLists then requireStringList field.2 place
  else if field.1 = py "type" then requireOneOf field.2 projectTypes place
  else if path = py "ici" ∧ field.1 = py "profile" then requireOneOf field.2 analysisProfiles place
  else (requireFilled field.2 place).map fun _ => ()

def validateMetadata : Result Unit := do
  let table ← requireTable value path
  rejectUnknown table (if path = py "ici" then iciKeys else projectKeys) path
  table.forM (validateMetadataField path)

end

structure SettingValidators where
  make : Json → Result Unit
  artifacts : Json → Result Unit
  engine : Text → Dict Text Json → Result Unit

section

variable (validators : SettingValidators)

def validateBuild (value : Json) : Result Unit := do
  let table ← requireTable value (py "build")
  rejectUnknown table [py "python", py "make", py "artifacts"] (py "build")
  whereSet table (py "python") fun value => do
    let python ← requireTable value (py "build.python")
    rejectUnknown python [py "entrypoint"] (py "build.python")
    whereSet python (py "entrypoint") fun value =>
      (requireFilled value (py "build.python.entrypoint")).map fun _ => ()
  whereSet table (py "make") validators.make
  whereSet table (py "artifacts") validators.artifacts

def validateDoctor (value : Json) : Result Unit := do
  let table ← requireTable value (py "doctor")
  rejectUnknown table [py "required_tools"] (py "doctor")
  whereSet table (py "required_tools") (requireStringList · (py "doctor.required_tools"))

def commonEngineKeys : List Text := [py "enabled", py "mode", py "required"]

def ownEngineKeys : List (Text × List Text) :=
  [(py "line", [py "warn_limit", py "fail_limit", py "gate_dirs", py "include_dirs", py "exclude_dirs"]),
    (py "lint", [py "ruff_required", py "clang_tidy", py "clang_tidy_checks", py "clang_tidy_config",
      py "clazy", py "clazy_profile", py "clazy_checks"]),
    (py "compile_db", [py "database_required", py "required_flags", py "forbidden_flags"]),
    (py "test", [py "min_tem_score", py "min_line_cov", py "min_file_cov", py "min_file_statements",
      py "min_branch_cov", py "min_func_cov", py "min_changed_line_cov", py "changed_lines",
      py "max_coverage_regression", py "coverage_required", py "python", py "quality"]),
    (py "type", [py "fail_on_error", py "warn_on_missing_annotation", py "mypy_required",
      py "mypy_profile"]),
    (py "python_compat", [py "interpreters", py "required_interpreters", py "imports",
      py "target_version", py "wheel_globs", py "wheel_required", py "wheel_policy",
      py "check_entrypoints", py "check_package_files", py "max_wheels", py "max_wheel_members",
      py "max_wheel_uncompressed_bytes"]),
    (py "complexity", [py "warn_cc", py "fail_cc", py "warn_nesting", py "cpp_boundaries"]),
    (py "sanitize", []),
    (py "thread_sanitize", []),
    (py "dead", [py "cpp_unused", py "cpp_linker", py "include_generated", py "include_vendor"]),
    (py "dup", [py "warn_pct", py "fail_pct", py "min_window", py "python_semantic",
      py "include_generated", py "include_vendor"]),
    (py "exception", []),
    (py "cycle", [py "max_reported"]),
    (py "cognitive", [py "warn", py "fail", py "warn_nesting", py "cpp_boundaries"]),
    (py "security", [py "scan_tests", py "secret_name_allowlist"]),
    (py "resource", []),
    (py "build", []),
    (py "binary_compat", [py "artifacts", py "expected_class", py "expected_machine", py "max_glibc",
      py "max_glibcxx", py "max_cxxabi", py "forbid_absolute_rpath", py "require_static",
      py "forbidden_needed", py "allowed_needed", py "forbid_build_paths", py "allow_non_elf",
      py "max_artifacts"]),
    (py "integration", [py "max_cases", py "max_output_bytes", py "python_targets", py "cases"])]

def validateCommonEngine (table : Dict Text Json) (path : Text) : Result Unit := do
  whereSet table (py "enabled") (requireBool · (path ++ py ".enabled"))
  whereSet table (py "required") (requireBool · (path ++ py ".required"))
  whereSet table (py "mode") (requireOneOf · modes (path ++ py ".mode"))

/-- `_validate_engine`: whatever an engine checks of its own comes after what all of them check. -/
def validateEngine (entry : Text × Json) : Result Unit := do
  let path := py "engines." ++ entry.1
  let table ← requireTable entry.2 path
  rejectUnknown table (commonEngineKeys ++ (ownEngineKeys.lookup entry.1).getD []) path
  validateCommonEngine table path
  validators.engine entry.1 table

def validateConfig (config : Dict Text Json) : Result Unit := do
  rejectUnknown config topLevelKeys []
  whereSet config (py "ici") (validateMetadata · (py "ici"))
  whereSet config (py "project") (validateMetadata · (py "project"))
  whereSet config (py "name") fun value => (requireFilled value (py "name")).map fun _ => ()
  whereSet config (py "version") fun value => (requireFilled value (py "version")).map fun _ => ()
  whereSet config (py "type") (requireOneOf · projectTypes (py "type"))
  whereSet config (py "build") (validateBuild validators)
  whereSet config (py "doctor") validateDoctor
  match config.get? (py "engines") with
  | some (.obj engines) => do
    rejectUnknown engines (ownEngineKeys.map Prod.fst) (py "engines")
    engines.forM (validateEngine validators)
  | _ => .error (configError [] (py "engines must be a table"))

end

end Ici.StableSchema

/-! ## Translating a stable document into the next schema

Every key of an engine is converted or named by a note; the other sections are asked for the keys
they are known to have. What the stable schema refuses does not get here. -/

namespace Ici.Convert

open Python

inductive Disposition where
  | converted
  | confirm
  | unsupported
deriving DecidableEq

structure Note where
  key : Text
  disposition : Disposition
  detail : Text
deriving DecidableEq

def engineToChecks : List (Text × List Text) :=
  [(py "line", [py "python.line", py "cpp.line"]),
    (py "lint", [py "python.lint", py "cpp.tidy", py "cpp.diagnostics"]),
    (py "compile_db", [py "cpp.compile"]),
    (py "test", [py "python.test", py "python.coverage", py "cpp.test", py "cpp.coverage"]),
    (py "type", [py "python.type"]),
    (py "python_compat", [py "python.compat", py "python.compat-runtime"]),
    (py "complexity", [py "python.complexity", py "cpp.complexity"]),
    (py "cognitive", [py "python.cognitive", py "cpp.cognitive"]),
    (py "sanitize", [py "cpp.sanitize"]),
    (py "thread_sanitize", [py "cpp.tsan"]),
    (py "dead", [py "python.dead"]),
    (py "dup", [py "python.dup", py "cpp.dup"]),
    (py "exception", [py "python.exception", py "cpp.exception"]),
    (py "cycle", [py "python.cycle", py "cpp.cycle"]),
    (py "security", [py "python.security"]),
    (py "resource", [py "python.resource"]),
    (py "build", [py "cpp.artifact"]),
    (py "binary_compat", [py "cpp.binary-compat"]),
    (py "integration", [py "integration"])]

def tuningKeys : List (Text × Text) :=
  [(py "warn_limit", py "no per-check warn threshold; the gate is fail-on-violation"),
    (py "fail_limit", py "no per-check fail threshold; the gate is fail-on-violation"),
    (py "gate_dirs", py ("scope is component " ++ "`sources`/`include`/`exclude`, not a gate")),
    (py "include_dirs", py "component `include` globs"),
    (py "exclude_dirs", py "component `exclude` globs"),
    (py "min_tem_score", py "TEM is recorded as a metric; no threshold key exists"),
    (py "min_line_cov", py "no coverage threshold key; coverage is evidence, not a gate knob"),
    (py "min_file_cov", py "no coverage threshold key"),
    (py "min_file_statements", py "no coverage threshold key"),
    (py "min_branch_cov", py "no coverage threshold key"),
    (py "min_func_cov", py "no coverage threshold key"),
    (py "min_changed_line_cov", py "no coverage threshold key"),
    (py "changed_lines", py "no changed-lines gate in the next policy"),
    (py "max_coverage_regression", py "no regression threshold; use `next diff` against a baseline"),
    (py "warn_cc", py "no per-check threshold; the gate is fail-on-violation"),
    (py "fail_cc", py "no per-check threshold"),
    (py "warn_nesting", py "no per-check threshold"),
    (py "warn_pct", py "no per-check threshold"),
    (py "fail_pct", py "no per-check threshold"),
    (py "min_window", py "not configurable; the duplicate detector's window is fixed"),
    (py "warn", py "no per-check threshold"),
    (py "fail", py "no per-check threshold"),
    (py "max_reported", py "not configurable"),
    (py "slow_test_threshold", py "recorded as a measurement; no threshold key"),
    (py "slow_threshold", py "recorded as a measurement; no threshold key"),
    (py "max_slow_tests", py "no threshold key")]

def tableOf (document : Dict Text Json) (key : Text) : Dict Text Json :=
  match document.get? key with
  | some (.obj fields) => fields
  | _ => []

/-- A value that is set and not empty; a setting is a text or a list of texts. -/
def filled (table : Dict Text Json) (key : Text) : Option Json :=
  (table.get? key).filter fun value => match value with
    | .str t => t ≠ []
    | .arr items => !items.isEmpty
    | _ => true

/-- The `!r` of a text or of a list of texts. -/
def shown : Json → Text
  | .str t => pyRepr t
  | .arr items => py "[" ++ join (py ", ") (items.map fun item => match item with
      | .str t => pyRepr t
      | _ => []) ++ py "]"
  | _ => []

def noteKeys (section' : Text) (table : Dict Text Json) (keys : List Text) (disposition : Disposition)
    (detail : Text) : List Note :=
  (keys.filter (· ∈ table.keys)).map fun key => ⟨section' ++ py "." ++ key, disposition, detail⟩

def workspaceTable (ici : Dict Text Json) (name : Text) : Dict Text Json :=
  (py "name", .str name) :: (filled ici (py "profile")).toList.map fun profile => (py "profile", profile)

def workspaceNotes (ici : Dict Text Json) : List Note :=
  ((filled ici (py "profile")).toList.map fun _ => ⟨py "ici.profile", .converted, py "workspace.profile"⟩) ++
    noteKeys (py "ici") ici [py "version", py "policy_name"] .unsupported
      (py "the next schema derives this; it is not set")

/-! ## The component -/

abbrev SourceTree := List (List Text)

def suffixOf (name : Text) : Text :=
  let extension := (splitOn 0x2e name).getLast?.getD []
  if extension.length + 1 < name.length ∧ extension ≠ [] then 0x2e :: extension else []

def cppSuffixes : List Text :=
  [py ".c", py ".cc", py ".cpp", py ".cxx", py ".h", py ".hh", py ".hpp", py ".hxx", py ".ui", py ".qrc"]

def isScanned (file : List Text) : Bool :=
  !file.any fun part => part.head? == some 0x2e || part ∈ [py "node_modules", py "build"]

def languageOf (file : List Text) : Option Text :=
  let suffix := suffixOf (file.getLast?.getD [])
  if suffix = py ".py" then some (py "python")
  else if suffix ∈ cppSuffixes then some (py "cpp")
  else none

def foundLanguages (tree : SourceTree) : List Text :=
  [py "cpp", py "python"].filter (· ∈ (tree.filter isScanned).filterMap languageOf)

def languages : Option SourceTree → List Text × List Note
  | none =>
    ([py "python"], [⟨py "components[].languages", .confirm,
      py "no tree to scan — declared as python; add cpp if the project has it"⟩])
  | some tree =>
    if foundLanguages tree = [] then ([py "python"], [])
    else (foundLanguages tree, [⟨py "components[].languages", .converted,
      py "detected from the tree: " ++ join (py ", ") (foundLanguages tree)⟩])

def globOf : Json → Json
  | .str directory => .str (directory ++ py "/**")
  | other => other

def sourceGlobs : Json → Json
  | .arr directories => .arr (directories.map globOf)
  | other => other

def componentTable (project : Dict Text Json) (root : Text) (tree : Option SourceTree) : Dict Text Json :=
  [(py "id", (filled project (py "name")).getD (.str (py "main"))), (py "root", .str root)] ++
    ((filled project (py "source_dirs")).toList.map fun directories => (py "sources",
      sourceGlobs directories)) ++
    [(py "languages", .arr ((languages tree).1.map .str))]

def componentNotes (stable : Dict Text Json) (tree : Option SourceTree) : List Note :=
  let project := tableOf stable (py "project")
  let python := tableOf (tableOf stable (py "build")) (py "python")
  ((filled project (py "source_dirs")).toList.map fun _ => ⟨py "project.source_dirs", .converted,
    py ("component `sources` globs; review — the stable value named directories, " ++
      "the next one wants workspace-relative glob patterns")⟩) ++
  ((filled python (py "entrypoint")).toList.map fun entrypoint => ⟨py "build.python.entrypoint", .confirm,
    py ("there is no entrypoint key; the suite runs under the component's " ++
      "declared interpreter — set `python.executable` (was ") ++ shown entrypoint ++ py "?)"⟩) ++
  noteKeys (py "project") project [py "cpp_pkg_config", py "cpp_external_build_dirs", py "compile_database"]
    .confirm (py ("declare a `[[builds]]` entry so the compile database is found " ++
      "explicitly — the next path never guesses a build directory")) ++
  noteKeys (py "project") project [py "type", py "version"] .unsupported
    (py "the next schema does not carry it") ++
  (languages tree).2

/-! ## Checks -/

/-- `checks.setdefault(target, \x7b\x7d)[key] = value`. -/
def assign (checks : Dict Text (Dict Text Json)) (setting : Text × Text × Json) : Dict Text (Dict Text Json) :=
  checks.set setting.1 (((checks.get? setting.1).getD []).set setting.2.1 setting.2.2)

def isSwitch (key : Text) : Bool := key = py "enabled" || key = py "required"

def settingsOf (targets : List Text) (field : Text × Json) : List (Text × Text × Json) :=
  if isSwitch field.1 then targets.map fun target => (target, field.1, field.2) else []

def settingNote (engine : Text) (targets : List Text) (key : Text) : Note :=
  let name := py "engines." ++ engine ++ py "." ++ key
  if key = py "mode" then ⟨py "engines." ++ engine ++ py ".mode", .confirm,
    py ("the next path uses `workspace.profile` (fast/standard/deep) " ++ "instead of per-engine modes")⟩
  else if isSwitch key then ⟨name, .converted, py "applied to " ++ join (py ", ") targets⟩
  else match tuningKeys.lookup key with
    | some detail => ⟨name, .confirm, detail⟩
    | none => ⟨name, .unsupported, py "no next-path equivalent"⟩

def coveredSettings (entry : Text × Json) : Option (List Text × Dict Text Json) :=
  match entry.2, engineToChecks.lookup entry.1 with
  | .obj settings, some targets => some (targets, settings)
  | _, _ => none

def engineSettings (entry : Text × Json) : List (Text × Text × Json) :=
  match coveredSettings entry with
  | some (targets, settings) => settings.flatMap (settingsOf targets)
  | none => []

def engineNotes (entry : Text × Json) : List Note :=
  match entry.2, engineToChecks.lookup entry.1 with
  | .obj settings, some targets => settings.map fun field => settingNote entry.1 targets field.1
  | .obj _, none => [⟨py "engines." ++ entry.1, .unsupported,
      py "no next check covers this engine — it is dropped, not silently kept"⟩]
  | _, _ => [⟨py "engines." ++ entry.1, .unsupported, py "not a table"⟩]

def checksOf (engines : Dict Text Json) : Dict Text (Dict Text Json) :=
  (engines.flatMap engineSettings).foldl assign []

/-! ## The document -/

def knownSections : List Text :=
  [py "ici", py "project", py "engines", py "build", py "doctor", py "name", py "type", py "version"]

def leftoverNotes (stable : Dict Text Json) : List Note :=
  ((filled (tableOf stable (py "doctor")) (py "required_tools")).toList.map fun tools =>
    ⟨py "doctor.required_tools", .unsupported,
      py "next `doctor` reports what the selected checks need — the list (" ++ shown tools ++
        py ") is declared nowhere"⟩) ++
  (stable.keys.filter (· ∉ knownSections)).map fun key =>
    ⟨key, .confirm, py "not a known stable section — left for review"⟩

def checksTable (checks : Dict Text (Dict Text Json)) : Json :=
  .obj (checks.map fun check => (check.1, .obj check.2))

structure Converted where
  workspace : Dict Text Json
  component : Dict Text Json
  checks : Dict Text (Dict Text Json)
  notes : List Note

def convert (stable : Dict Text Json) (workspaceName componentRoot : Text) (tree : Option SourceTree) :
    Converted where
  workspace := workspaceTable (tableOf stable (py "ici")) workspaceName
  component := componentTable (tableOf stable (py "project")) componentRoot tree
  checks := checksOf (tableOf stable (py "engines"))
  notes := workspaceNotes (tableOf stable (py "ici")) ++ componentNotes stable tree ++
    (tableOf stable (py "engines")).flatMap engineNotes ++ leftoverNotes stable

def Converted.document (converted : Converted) : Dict Text Json :=
  [(py "schema_version", .int 1), (py "workspace", .obj converted.workspace),
    (py "components", .arr [.obj converted.component])] ++
  if converted.checks = [] then [] else [(py "checks", checksTable converted.checks)]

def header : Text :=
  py ("# Written by `ici next migrate` — a preview, applied only when you ask.\n" ++
    "# Review the [confirm] and [unsupported] notes before using this file.\n")

/-- `convert_document`; `dumps` prints a document. -/
def convertDocument (dumps : Dict Text Json → Text) (stable : Dict Text Json)
    (workspaceName componentRoot : Text) (tree : Option SourceTree) : Text × List Note :=
  let converted := convert stable workspaceName componentRoot tree
  (header ++ dumps converted.document, converted.notes)

end Ici.Convert
