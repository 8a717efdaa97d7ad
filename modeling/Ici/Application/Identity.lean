import Ici.Application.Selection

/-! # What makes a task's answer this task's answer

The key of the cache hashes the task, the content of its declared inputs, the tool and the policy. -/

namespace Ici

open List Raising Python Framing

def observationVersion : Text := py "ici.next.observation.v2"

def fingerprintFormat : Text := py "ici.next.fingerprint.v3"

def ShareKey.repr (key : ShareKey) : Text :=
  tupleRepr [pyRepr key.provider, pyRepr key.kind, tupleRepr (key.argv.map pyRepr), pyRepr key.cwd,
    tupleRepr (key.envOverlay.map fun pair => tupleRepr [pyRepr pair.1, pyRepr pair.2]),
    tupleRepr (key.inputRefs.map pyRepr), optionRepr key.toolDigest,
    tupleRepr (key.requires.map pyRepr)]

def identityTexts (key : ShareKey) (inputDigests : List (Text × Text)) (toolDigest policyDigest : Text) :
    List Text :=
  [observationVersion ++ [0] ++ fingerprintFormat ++ [0], key.repr] ++
    inputDigests.flatMap (fun pair => [pair.1, [0], pair.2, [0]]) ++ [toolDigest, policyDigest]

/-- `task_identity`: the key of one unit, or why it has none. -/
def taskIdentity (sha256 : Sha256) (unit : WorkUnit) (inputDigests : Option (List (Text × Text)))
    (toolDigest : Option Text) (policyDigest : Text) : Result (Option Text × Text) :=
  match unit.isInternal, unit.plan with
  | false, some plan =>
    let task := plan.task.val
    if task.kind = .test then return (none, py "test evidence is per-run and is never persisted")
    else if !task.cacheable then
      if task.provider ∈ [py "ruff", py "mypy", py "ty"] then return (none, task.provider ++
        py " is not cacheable: automatic configuration/import inputs are not fully captured")
      else return (none, task.kind.value ++ py " tasks are not cacheable")
    else if task.inputRefs = [] then
      return (none, py "the provider did not declare its inputs; reuse stays off")
    else match inputDigests, toolDigest with
      | none, _ => return (none, py "a declared input could not be read; reuse stays off")
      | some _, none => return (none, py "the tool is not content-addressable; reuse stays off")
      | some digests, some tool => do
        let parts ← (identityTexts plan.task.shareKey digests tool policyDigest).mapM utf8
        return (some (py "sha256:" ++ sha256 parts.flatten), [])
  | _, _ => return (none, py "internal checks run in-process; there is nothing to cache")

/-- `digest_of`: a content digest in full. -/
abbrev FileDigest := { t : Text // digestMatch t = true }

structure Measuring where
  /-- A declared input, resolved against the working directory: no digest for what is no file. -/
  input : Text → Text → Option FileDigest
  /-- The executable the first word of a command names. -/
  executable : Text → Option FileDigest

def Measuring.inputs (measuring : Measuring) (task : TaskSpecFields) : Option (List (Text × Text)) :=
  task.inputRefs.mapM fun ref => (measuring.input task.cwd ref).map fun digest => (ref, digest.val)

/-- `_identifier`: the identity callback of a run. -/
def identify (sha256 : Sha256) (measuring : Measuring) (profile : Profile) (policyDigest : Text)
    (unit : WorkUnit) : Result (Option Text × Text) :=
  let policy := policyDigest ++ py "|" ++ profile.value
  if unit.isInternal then taskIdentity sha256 unit none none policy
  else match unit.plan with
    | none => .error ⟨py "AssertionError", []⟩
    | some plan =>
      match measuring.inputs plan.task.val with
      | none => taskIdentity sha256 unit none none policyDigest
      | some digests =>
        let tool := (plan.task.val.argv.head?.bind measuring.executable).map (·.val)
        taskIdentity sha256 unit (some digests) tool policy

/-- What the identity callback hands over for a unit with inputs: a digest for each declared one, in
their order, and the digest of the tool. -/
structure IsMeasured (task : TaskSpecFields) (inputDigests : List (Text × Text)) (toolDigest : Text) :
    Prop where
  declared : inputDigests.map Prod.fst = task.inputRefs
  digests : ∀ pair ∈ inputDigests, digestMatch pair.2 = true
  tool : digestMatch toolDigest = true

theorem framed_digest : Framed fun digest : FileDigest => digest.val := by
  refine @framed_of_length _ _ _ 71 Subtype.val_injective fun digest => ?_
  have h := digest.property
  simp only [digestMatch, Bool.and_eq_true, beq_iff_eq, length_drop] at h
  omega

theorem framed_pair : Framed fun pair : Text × Text => tupleRepr [pyRepr pair.1, pyRepr pair.2] := by
  have hTuple := framed_tupleRepr framed_pyRepr beginsEntry_pyRepr
  intro a b rest rest' hEq
  obtain ⟨hSame, hRest⟩ := hTuple [a.1, a.2] [b.1, b.2] rest rest' hEq
  simp only [cons.injEq, and_true] at hSame
  exact ⟨Prod.ext hSame.1 hSame.2, hRest⟩

theorem ShareKey.repr_eq (key : ShareKey) :
    key.repr = py "(" ++ (pyRepr key.provider ++ (py ", " ++ (pyRepr key.kind ++ (py ", " ++
      (tupleRepr (key.argv.map pyRepr) ++ (py ", " ++ (pyRepr key.cwd ++ (py ", " ++
      (tupleRepr (key.envOverlay.map fun pair => tupleRepr [pyRepr pair.1, pyRepr pair.2]) ++ (py ", " ++
      (tupleRepr (key.inputRefs.map pyRepr) ++ (py ", " ++ (optionRepr key.toolDigest ++ (py ", " ++
      (tupleRepr (key.requires.map pyRepr) ++ py ")"))))))))))))))) := by
  rw [ShareKey.repr, tupleRepr_cons_cons]
  simp only [flatMap_cons, flatMap_nil, append_nil, append_assoc]

theorem framed_shareKey : Framed ShareKey.repr := by
  have hTexts := framed_tupleRepr framed_pyRepr beginsEntry_pyRepr
  have hPairs := framed_tupleRepr framed_pair (beginsEntry_tupleRepr _)
  intro a b rest rest' hEq
  rw [ShareKey.repr_eq, ShareKey.repr_eq] at hEq
  simp only [append_assoc] at hEq
  obtain ⟨hProvider, hEq⟩ := framed_pyRepr _ _ _ _ (append_cancel_left hEq)
  obtain ⟨hKind, hEq⟩ := framed_pyRepr _ _ _ _ (append_cancel_left hEq)
  obtain ⟨hArgv, hEq⟩ := hTexts _ _ _ _ (append_cancel_left hEq)
  obtain ⟨hCwd, hEq⟩ := framed_pyRepr _ _ _ _ (append_cancel_left hEq)
  obtain ⟨hEnv, hEq⟩ := hPairs _ _ _ _ (append_cancel_left hEq)
  obtain ⟨hRefs, hEq⟩ := hTexts _ _ _ _ (append_cancel_left hEq)
  obtain ⟨hTool, hEq⟩ := framed_optionRepr _ _ _ _ (append_cancel_left hEq)
  obtain ⟨hRequires, hEq⟩ := hTexts _ _ _ _ (append_cancel_left hEq)
  have hEnd : rest = rest' := append_cancel_left hEq
  refine ⟨?_, hEnd⟩
  cases a
  cases b
  simp only [ShareKey.mk.injEq]
  exact ⟨hProvider, hKind, hArgv, hCwd, hEnv, hRefs, hTool, hRequires⟩

theorem framed_inputDigests {pairs pairs' : List (Text × Text)} {rest rest' : Text}
    (hPaths : pairs.map Prod.fst = pairs'.map Prod.fst)
    (hDigests : ∀ pair ∈ pairs, digestMatch pair.2 = true)
    (hDigests' : ∀ pair ∈ pairs', digestMatch pair.2 = true)
    (h : (pairs.flatMap (fun pair => [pair.1, [0], pair.2, [0]])).flatten ++ rest =
      (pairs'.flatMap (fun pair => [pair.1, [0], pair.2, [0]])).flatten ++ rest') :
    pairs = pairs' ∧ rest = rest' := by
  induction pairs generalizing pairs' with
  | nil =>
    obtain rfl := map_eq_nil_iff.mp hPaths.symm
    exact ⟨rfl, h⟩
  | cons pair pairs ih =>
    cases pairs' with
    | nil => exact nomatch hPaths
    | cons pair' pairs' =>
      obtain ⟨hPath, hMore⟩ := cons.inj hPaths
      obtain ⟨path, digest⟩ := pair
      obtain ⟨path', digest'⟩ := pair'
      obtain rfl : path = path' := hPath
      simp only [flatMap_cons, cons_append, nil_append, flatten_cons, append_assoc] at h
      obtain ⟨hDigest, hTail⟩ := framed_digest ⟨digest, hDigests _ mem_cons_self⟩
        ⟨digest', hDigests' _ mem_cons_self⟩ _ _ (cons.inj (append_cancel_left h)).2
      obtain rfl : digest = digest' := congrArg Subtype.val hDigest
      obtain ⟨rfl, hRest⟩ := ih hMore (fun pair hPair => hDigests pair (mem_cons_of_mem _ hPair))
        (fun pair hPair => hDigests' pair (mem_cons_of_mem _ hPair)) (cons.inj hTail).2
      exact ⟨rfl, hRest⟩

theorem identityTexts_injective {key key' : ShareKey} {inputDigests inputDigests' : List (Text × Text)}
    {toolDigest toolDigest' policyDigest policyDigest' : Text} {task task' : TaskSpecFields}
    (hRefs : key.inputRefs = task.inputRefs) (hRefs' : key'.inputRefs = task'.inputRefs)
    (hMeasured : IsMeasured task inputDigests toolDigest)
    (hMeasured' : IsMeasured task' inputDigests' toolDigest')
    (h : (identityTexts key inputDigests toolDigest policyDigest).flatten =
      (identityTexts key' inputDigests' toolDigest' policyDigest').flatten) :
    key = key' ∧ inputDigests = inputDigests' ∧ toolDigest = toolDigest' ∧ policyDigest = policyDigest' := by
  simp only [identityTexts, cons_append, nil_append, flatten_cons, flatten_append,
    append_assoc, flatten_nil, append_nil] at h
  have hKeyed := (cons.inj (append_cancel_left (cons.inj (append_cancel_left h)).2)).2
  obtain ⟨rfl, hDigests⟩ := framed_shareKey _ _ _ _ hKeyed
  have hPaths : inputDigests.map Prod.fst = inputDigests'.map Prod.fst := by
    rw [hMeasured.declared, hMeasured'.declared, ← hRefs, hRefs']
  obtain ⟨rfl, hRest⟩ := framed_inputDigests hPaths hMeasured.digests hMeasured'.digests hDigests
  obtain ⟨hTool, hPolicy⟩ := framed_digest ⟨toolDigest, hMeasured.tool⟩ ⟨toolDigest', hMeasured'.tool⟩
    _ _ hRest
  exact ⟨rfl, rfl, congrArg Subtype.val hTool, hPolicy⟩

/-! ## Keys -/

theorem taskIdentity_eq_key {sha256 : Sha256} {unit : WorkUnit} {inputDigests : Option (List (Text × Text))}
    {toolDigest : Option Text} {policyDigest key reason : Text}
    (h : taskIdentity sha256 unit inputDigests toolDigest policyDigest = .ok (some key, reason)) :
    ∃ plan digests tool, unit.plan = some plan ∧ inputDigests = some digests ∧ toolDigest = some tool ∧
      key = py "sha256:" ++ sha256
        ((identityTexts plan.task.shareKey digests tool policyDigest).flatten.flatMap utf8Char) := by
  unfold taskIdentity at h
  split at h
  · rename_i plan _ hPlan
    dsimp only at h
    split at h
    · exact nomatch Except.ok.inj h
    · split at h
      · split at h <;> exact nomatch Except.ok.inj h
      · split at h
        · exact nomatch Except.ok.inj h
        · split at h
          · exact nomatch Except.ok.inj h
          · exact nomatch Except.ok.inj h
          · rename_i digests tool
            obtain ⟨parts, hParts, h⟩ := bind_eq_ok.mp h
            obtain ⟨hKey, -⟩ := Prod.mk.inj (Except.ok.inj h)
            refine ⟨plan, digests, tool, hPlan, rfl, rfl, ?_⟩
            rw [← Option.some_inj.mp hKey, flatten_utf8 hParts]
  · exact nomatch Except.ok.inj h

theorem identity_separates (sha256 : Sha256) (hCollisionFree : Function.Injective sha256) :
    (∀ (unit unit' : WorkUnit) (inputDigests inputDigests' : Option (List (Text × Text)))
        (toolDigest toolDigest' : Option Text) (policyDigest policyDigest' key reason reason' : Text),
      (∀ plan ∈ unit.plan, ∀ digests ∈ inputDigests, ∀ tool ∈ toolDigest,
        IsMeasured plan.task.val digests tool) →
      (∀ plan ∈ unit'.plan, ∀ digests ∈ inputDigests', ∀ tool ∈ toolDigest',
        IsMeasured plan.task.val digests tool) →
      taskIdentity sha256 unit inputDigests toolDigest policyDigest = .ok (some key, reason) →
      taskIdentity sha256 unit' inputDigests' toolDigest' policyDigest' = .ok (some key, reason') →
      ∃ plan plan', unit.plan = some plan ∧ unit'.plan = some plan' ∧
        plan.task.shareKey = plan'.task.shareKey ∧ inputDigests = inputDigests' ∧ inputDigests.isSome ∧
        toolDigest = toolDigest' ∧ toolDigest.isSome ∧ policyDigest = policyDigest') ∧
    ∀ (task task' : TaskSpec) (inputDigests inputDigests' : List (Text × Text))
        (toolDigest toolDigest' policyDigest policyDigest' : Text),
      IsMeasured task.val inputDigests toolDigest → IsMeasured task'.val inputDigests' toolDigest' →
      (identityTexts task.shareKey inputDigests toolDigest policyDigest).flatten =
        (identityTexts task'.shareKey inputDigests' toolDigest' policyDigest').flatten →
      task.shareKey = task'.shareKey ∧ inputDigests = inputDigests' ∧ toolDigest = toolDigest' ∧
        policyDigest = policyDigest' := by
  refine ⟨?_, fun task task' inputDigests inputDigests' toolDigest toolDigest' policyDigest policyDigest'
    hMeasured hMeasured' h => identityTexts_injective rfl rfl hMeasured hMeasured' h⟩
  intro unit unit' inputDigests inputDigests' toolDigest toolDigest' policyDigest policyDigest' key reason
    reason' hMeasured hMeasured' h h'
  obtain ⟨plan, digests, tool, hPlan, rfl, rfl, rfl⟩ := taskIdentity_eq_key h
  obtain ⟨plan', digests', tool', hPlan', rfl, rfl, hKey⟩ := taskIdentity_eq_key h'
  have hTexts := utf8_injective (hCollisionFree (append_cancel_left hKey))
  obtain ⟨hShare, hDigests, hTool, hPolicy⟩ := identityTexts_injective rfl rfl
    (hMeasured plan hPlan digests rfl tool rfl) (hMeasured' plan' hPlan' digests' rfl tool' rfl) hTexts
  exact ⟨plan, plan', hPlan, hPlan', hShare, congrArg some hDigests, rfl, congrArg some hTool, rfl, hPolicy⟩

def diagnosticsTask : TaskSpec :=
  ⟨{ id := py "app.cpp.diagnostics", kind := .analyze, provider := py "gcc", argv := [py "gcc", py "a.cpp"]
     cwd := py ".", inputRefs := [py "a.cpp"] }, by decide⟩

def diagnosticsUnit : WorkUnit :=
  ⟨{ id := py "app.cpp.diagnostics", consumers := [py "app.cpp.diagnostics"], source := {
      check := {
        id := py "cpp.diagnostics", language := py "cpp", tool := none
        id_ne_nil := cppDiagnosticsCheck.id_ne_nil }
      task := some { task := diagnosticsTask }
      taskId := py "app.cpp.diagnostics"
      taskId_ne_nil := by decide
      not_both := fun _ => rfl
      taskId_agrees := by
        rintro _ ⟨⟩
        rfl } }, by decide⟩

def spellBytes : Sha256 := fun bytes => bytes.map fun b => Fin.ofNat 0x110000 b.toNat

theorem spellBytes_injective : Function.Injective spellBytes := by
  refine map_injective_iff.mpr fun a b h => ?_
  have hVal := congrArg Fin.val h
  have ha := a.toNat_lt
  have hb := b.toNat_lt
  simp only [Fin.ofNat] at hVal
  exact UInt8.toNat_inj.mp (by omega)

def blankDigest : Text := py "sha256:" ++ List.replicate 64 0x30

theorem identity_separates_diagnostics : ∃ plan plan',
    diagnosticsUnit.plan = some plan ∧ diagnosticsUnit.plan = some plan' ∧
      plan.task.shareKey = plan'.task.shareKey ∧
      some [(py "a.cpp", blankDigest)] = some [(py "a.cpp", blankDigest)] ∧
      (some [(py "a.cpp", blankDigest)]).isSome ∧ some blankDigest = some blankDigest ∧
      (some blankDigest).isSome ∧ py "policy|fast" = py "policy|fast" := by
  have hMeasured : ∀ plan ∈ diagnosticsUnit.plan, ∀ digests ∈ some [(py "a.cpp", blankDigest)],
      ∀ tool ∈ some blankDigest, IsMeasured plan.task.val digests tool := by
    rintro _ ⟨⟩ _ ⟨⟩ _ ⟨⟩
    exact ⟨rfl, forall_mem_singleton.mpr (by decide), by decide⟩
  obtain ⟨parts, hParts⟩ : ∃ parts, (identityTexts diagnosticsTask.shareKey [(py "a.cpp", blankDigest)]
      blankDigest (py "policy|fast")).mapM utf8 = .ok parts := by
    refine exists_mapM_eq_ok.mpr ?_
    simp only [exists_utf8_iff]
    decide +kernel
  have hKey : taskIdentity spellBytes diagnosticsUnit (some [(py "a.cpp", blankDigest)]) (some blankDigest)
      (py "policy|fast") = .ok (some (py "sha256:" ++ spellBytes parts.flatten), []) :=
    bind_eq_ok.mpr ⟨parts, hParts, rfl⟩
  exact (identity_separates spellBytes spellBytes_injective).1 diagnosticsUnit diagnosticsUnit _ _ _ _ _ _ _
    _ _ hMeasured hMeasured hKey hKey

end Ici
