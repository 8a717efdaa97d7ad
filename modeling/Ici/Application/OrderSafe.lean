import Ici.Application.InterleavingRuns

/-! # Order safety of every run

What holds of the units, their prerequisites and the cancellation in every state an interleaved
run can reach. -/

namespace Ici

open List Python Transition Machine

/-- `unit` waits for `other`. -/
def DependsOn (graph : TaskGraph) (unit other : WorkUnit) : Prop :=
  unit ∈ graph.units ∧ other ∈ graph.units ∧ other.val.id ∈ unit.val.dependsOn

/-- The attempt of `unit` returned. -/
def Ended (s : Machine) (unit : WorkUnit) (ending : Ending)
    (produced : Option Observation × Execution) : Prop :=
  (unit, .returned ending produced) ∈ s.units

structure OrderSafe (graph : TaskGraph) (s : Machine) : Prop where
  once : ∀ unit ∈ graph.units, s.trace.count (.of .performs unit.val.id) ≤ 1
  ready : ∀ unit ∈ graph.units, .of .performs unit.val.id ∈ s.trace →
    ∀ d ∈ unit.val.dependsOn, ∃ o, s.state.finished.get? d = some o ∧ o.val.state = .succeeded
  started_first : ∀ unit ∈ graph.units, .of .performs unit.val.id ∈ s.trace →
    .of .starts unit.val.id ∈ s.trace
  started_once : ∀ unit ∈ graph.units, s.trace.count (.of .starts unit.val.id) ≤ 1
  -- but for the moment between the call of the hook and the work
  started_iff : ∀ unit phase, (unit, phase) ∈ s.units → (∀ key reason, phase ≠ .started key reason) →
    (.of .starts unit.val.id ∈ s.trace ↔ .of .performs unit.val.id ∈ s.trace)
  not_refused : ∀ unit ending produced, Ended s unit ending produced →
    (.of .starts unit.val.id ∈ s.trace ↔ ending = .performed)
  ended_as : ∀ unit ending produced, Ended s unit ending produced → EndedAs ending produced
  dependents : ∀ unit other, Relation.TransGen (DependsOn graph) unit other →
    ∀ ending produced, Ended s unit ending produced →
    ∀ ending' produced', Ended s other ending' produced' → produced'.2.state ≠ .succeeded →
      produced.2.state = .blocked ∨ produced.2.state = .cancelled
  late : ∀ unit ∈ graph.units, BegunLate unit.val.id s.trace → .of .performs unit.val.id ∉ s.trace

namespace Consistent

variable {graph : TaskGraph} {s : Machine} (h : Consistent graph s)

include h

variable {unit : WorkUnit} {phase : Phase}

theorem exists_phase (hUnit : unit ∈ graph.units) : ∃ phase, (unit, phase) ∈ s.units := by
  obtain ⟨⟨unit', phase⟩, hEntry, rfl⟩ := mem_map.mp (h.perm.symm.subset hUnit)
  exact ⟨phase, hEntry⟩

theorem count_le_one (hUnit : unit ∈ graph.units) (mark : Mark) :
    s.trace.count (.of mark unit.val.id) ≤ 1 := by
  obtain ⟨phase, hEntry⟩ := h.exists_phase hUnit
  rw [h.counted unit phase hEntry mark]
  split <;> omega

theorem mem_trace_iff (hEntry : (unit, phase) ∈ s.units)
    (mark : Mark) : .of mark unit.val.id ∈ s.trace ↔ phase.passed mark = true := by
  rw [← count_pos_iff, h.counted unit phase hEntry mark]
  split
  · simp [*]
  · simp [*]

omit h in
theorem isFed_of_performs (hPassed : phase.passed .performs = true) : phase.IsFed := by
  cases phase with
  | returned ending produced =>
    right
    simpa [Phase.passed] using hPassed
  | queued | begun | admitted => simp [Phase.passed] at hPassed
  | fed | missed | started | working | worked | raised => trivial

theorem succeeded_of_isFed {other : WorkUnit} (hEntry : (unit, phase) ∈ s.units) (hFed : phase.IsFed)
    (hChain : Relation.TransGen (DependsOn graph) unit other) :
    ∃ ending o execution, Ended s other ending (some o, execution) ∧ o.val.state = .succeeded := by
  have hNext {unit other : WorkUnit} {phase : Phase} (hEntry : (unit, phase) ∈ s.units)
      (hFed : phase.IsFed) (hDep : DependsOn graph unit other) :
      ∃ ending o execution, Ended s other ending (some o, execution) ∧
        o.val.state = .succeeded := by
    obtain ⟨o, hGet, hState⟩ := (h.sound unit phase hEntry).isFed hFed _ hDep.2.2
    obtain ⟨found, ending, execution, hPast, hId⟩ := (h.finished_iff _ o).mp hGet
    obtain ⟨phase', hOther⟩ := h.exists_phase hDep.2.1
    have hFound : (found, .returned ending (some o, execution)) ∈ s.units :=
      mem_append_left _ (mem_append_left _ hPast)
    obtain ⟨rfl, -⟩ := h.phase_unique hOther hFound hId
    exact ⟨ending, o, execution, hFound, hState⟩
  induction hChain with
  | single hDep => exact hNext hEntry hFed hDep
  | tail _ hDep ih =>
    obtain ⟨ending, o, execution, hEnded, -⟩ := ih
    have hEndedAs := (h.sound _ _ hEnded).endedAs ending _ rfl
    refine hNext hEnded ?_ hDep
    cases ending with
    | cancelled | blocked =>
      have hNone := hEndedAs.1
      cases hNone
    | reused => exact .inl rfl
    | performed => exact .inr rfl

theorem orderSafe : OrderSafe graph s where
  once := fun unit hUnit => h.count_le_one hUnit .performs
  ready := by
    intro unit hUnit hPerforms
    obtain ⟨phase, hEntry⟩ := h.exists_phase hUnit
    have hPassed := (h.mem_trace_iff hEntry .performs).mp hPerforms
    exact (h.sound unit phase hEntry).isFed (isFed_of_performs hPassed)
  started_first := by
    intro unit hUnit hPerforms
    obtain ⟨phase, hEntry⟩ := h.exists_phase hUnit
    rw [h.mem_trace_iff hEntry] at hPerforms ⊢
    cases phase <;> simp_all [Phase.passed]
  started_once := fun unit hUnit => h.count_le_one hUnit .starts
  started_iff := by
    intro unit phase hEntry hBetween
    rw [h.mem_trace_iff hEntry, h.mem_trace_iff hEntry]
    cases phase with
    | started key reason => exact absurd rfl (hBetween key reason)
    | _ => simp [Phase.passed]
  not_refused := by
    intro unit ending produced hEnded
    rw [h.mem_trace_iff hEnded]
    simp [Phase.passed]
  ended_as := fun unit ending produced hEnded => (h.sound _ _ hEnded).endedAs ending produced rfl
  dependents := by
    intro unit other hChain ending produced hEnded ending' produced' hEnded' hFailed
    have hEndedAs := (h.sound _ _ hEnded).endedAs ending produced rfl
    have hContra (hFed : (Phase.returned ending produced).IsFed) : False := by
      obtain ⟨ending'', o, execution, hOther, hState⟩ := h.succeeded_of_isFed hEnded hFed hChain
      have hSame := (h.phase_unique hOther hEnded' rfl).2
      simp only [Phase.returned.injEq] at hSame
      obtain ⟨rfl, rfl⟩ := hSame
      have hOtherAs := (h.sound _ _ hOther).endedAs _ _ rfl
      cases ending' with
      | cancelled | blocked =>
        have hNone := hOtherAs.1
        cases hNone
      | reused | performed =>
        obtain ⟨o', hSome, hRecord⟩ := hOtherAs
        cases hSome
        exact hFailed (hRecord.trans hState)
    cases ending with
    | cancelled => exact .inr hEndedAs.2
    | blocked => exact .inl hEndedAs.2
    | reused => exact (hContra (.inl rfl)).elim
    | performed => exact (hContra (.inr rfl)).elim
  late := by
    intro unit hUnit hLate hPerforms
    obtain ⟨phase, hEntry⟩ := h.exists_phase hUnit
    have hPassed := (h.mem_trace_iff hEntry .performs).mp hPerforms
    rcases (h.sound unit phase hEntry).late hLate with rfl | ⟨produced, rfl⟩
    · cases hPassed
    · cases hPassed

end Consistent

theorem consistent_of_reaches {checks : List PlannedCheck} {catalog : Option (List CheckDefinition)}
    {graph : TaskGraph} (hGraph : buildGraph checks catalog = .ok graph)
    {layers : List (List WorkUnit)} (hLayers : graph.layers = .ok layers) {world : World}
    {maxParallel : ℤ} {s : Machine}
    (hRun : Reaches (Machine.Step world maxParallel) (start layers) s) :
    Consistent graph s :=
  hRun.invariant (fun _ _ h hStep => h.step hStep)
    (.start (layers_ok hLayers).1 (validate_ok (buildGraph_valid hGraph)).1)

theorem interleaved_orderSafe (checks : List PlannedCheck)
    (catalog : Option (List CheckDefinition)) (graph : TaskGraph)
    (hGraph : buildGraph checks catalog = .ok graph) (layers : List (List WorkUnit))
    (hLayers : graph.layers = .ok layers) (world : World) (maxParallel : ℤ) (s : Machine)
    (hRun : Reaches (Machine.Step world maxParallel) (start layers) s) :
    OrderSafe graph s :=
  (consistent_of_reaches hGraph hLayers hRun).orderSafe

/-! ## One way to schedule -/

namespace Machine

variable (world : World) (maxParallel : ℤ)

def firstMove (s : Machine) (before : List (WorkUnit × Phase)) : List (WorkUnit × Phase) → Option Machine
  | [] => none
  | (unit, phase) :: after =>
    match world.advance s.cancellation s.state.finished unit phase with
    | some (phase', mark) =>
      if !phase.passed .begins && !decide (s.busy < s.workers maxParallel) then
        firstMove s (before ++ [(unit, phase)]) after
      else some (s.moves before after unit phase' mark)
    | none => firstMove s (before ++ [(unit, phase)]) after

def settleLayer (s : Machine) : Option Machine :=
  match s.layer.mapM resultOf with
  | none => none
  | some results =>
    if s.layer.isEmpty && s.later.isEmpty then none
    else match results.foldlM Ici.settle s.state with
      | .error _ => none
      | .ok state => some { s with
          past := s.past ++ s.layer
          layer := enqueue (s.later.headD [])
          later := s.later.tail
          state := state }

def next (s : Machine) : Option Machine :=
  (firstMove world maxParallel s [] s.layer).or (settleLayer s)

def drive : ℕ → Machine → Machine
  | 0, s => s
  | n + 1, s =>
    match next world maxParallel s with
    | some t => drive n t
    | none => s

variable {world maxParallel} {s t : Machine}

theorem step_of_firstMove {before rest : List (WorkUnit × Phase)} (hLayer : s.layer = before ++ rest)
    (h : firstMove world maxParallel s before rest = some t) : Step world maxParallel s t := by
  induction rest generalizing before with
  | nil => cases h
  | cons entry after ih =>
    obtain ⟨unit, phase⟩ := entry
    have hShift : s.layer = (before ++ [(unit, phase)]) ++ after := by
      rw [hLayer, append_assoc, singleton_append]
    unfold firstMove at h
    split at h
    · rename_i phase' mark hAdvance
      split at h
      · exact ih hShift h
      · rename_i hFree
        cases h
        refine .unit hLayer hAdvance ?_
        rintro rfl
        simpa [Phase.passed] using hFree
    · exact ih hShift h

theorem step_of_settleLayer (h : settleLayer s = some t) : Step world maxParallel s t := by
  unfold settleLayer at h
  split at h
  · cases h
  rename_i results hReturned
  split at h
  · cases h
  rename_i hMore
  split at h
  · cases h
  rename_i state hSettled
  cases h
  refine .settle hReturned ?_ hSettled
  by_contra hNone
  push Not at hNone
  simp [hNone] at hMore

theorem reaches_drive (n : ℕ) (s : Machine) :
    Reaches (Step world maxParallel) s (drive world maxParallel n s) := by
  induction n generalizing s with
  | zero => exact .refl
  | succ n ih =>
    unfold drive
    split
    · rename_i t hNext
      refine .head ?_ (ih t)
      rcases Option.or_eq_some_iff.mp hNext with hMove | ⟨-, hSettle⟩
      · exact step_of_firstMove rfl hMove
      · exact step_of_settleLayer hSettle
    · exact .refl

end Machine

def interrupted : Hands where
  providers := fun name => some { name := name, parse := fun _ => .ok {} }
  analyses := fun _ => none
  runner := fun spec => .ok { spec := spec, outcome := .cancelled, exitCode := -15 }
  environment := none
  environ := []

def interruptedWorld : World := World.ofHands (fun _ => none) none (fun _ => Double.zero) fun _ => interrupted

def driven (world : World) (checks : List PlannedCheck) (n : ℕ) : Option Machine :=
  match buildGraph checks none with
  | .error _ => none
  | .ok graph =>
    match graph.layers with
    | .error _ => none
    | .ok layers => some (drive world 4 n (start layers))

theorem exists_driven {world : World} {checks : List PlannedCheck} {n : ℕ} {s : Machine}
    (h : driven world checks n = some s) :
    ∃ graph layers, buildGraph checks none = .ok graph ∧ graph.layers = .ok layers ∧
      Reaches (Machine.Step world 4) (start layers) s := by
  unfold driven at h
  split at h
  · cases h
  split at h
  · cases h
  rename_i graph hGraph _ layers hLayers
  cases h
  exact ⟨graph, layers, hGraph, hLayers, reaches_drive n _⟩

/-- A run with a unit that is done: everything before the unit's end was in order. -/
theorem interleaved_orderSafe_lint : ∃ graph layers s,
    buildGraph [lintCheck] none = .ok graph ∧ graph.layers = .ok layers ∧
    Reaches (Machine.Step interruptedWorld 4) (start layers) s ∧ s.past ≠ [] ∧
      OrderSafe graph s := by
  cases h : driven interruptedWorld [lintCheck] 9 with
  | none =>
    have hSome : (driven interruptedWorld [lintCheck] 9).isSome = true := by decide
    rw [h] at hSome
    cases hSome
  | some s =>
    obtain ⟨graph, layers, hGraph, hLayers, hRun⟩ := exists_driven h
    have hPast : (driven interruptedWorld [lintCheck] 9).any (!·.past.isEmpty) = true := by decide
    rw [h] at hPast
    refine ⟨graph, layers, s, hGraph, hLayers, hRun, ?_,
      interleaved_orderSafe [lintCheck] none graph hGraph layers hLayers interruptedWorld 4 s hRun⟩
    rintro hNone
    simp [hNone] at hPast

/-- Some unit the hook was called for has ended in state `state`. -/
def startedAndEnded (state : TaskState) (s : Machine) : Bool :=
  s.past.any fun entry => match entry.2 with
    | .returned _ produced =>
      produced.2.state = state && decide (Event.of .starts entry.1.val.id ∈ s.trace)
    | _ => false

theorem exists_of_startedAndEnded {state : TaskState} {s : Machine}
    (h : startedAndEnded state s = true) : ∃ unit ending produced, Ended s unit ending produced ∧
      produced.2.state = state ∧ .of .starts unit.val.id ∈ s.trace := by
  obtain ⟨⟨unit, phase⟩, hEntry, hBoth⟩ := any_eq_true.mp h
  cases phase with
  | returned ending produced =>
    simp only [Bool.and_eq_true, decide_eq_true_eq] at hBoth
    exact ⟨unit, ending, produced, mem_append_left _ (mem_append_left _ hEntry), hBoth.1, hBoth.2⟩
  | _ => cases hBoth

/-- A unit whose process was stopped ends cancelled although the hook was called for it. -/
theorem started_and_cancelled : ∃ graph layers s,
    buildGraph [lintCheck] none = .ok graph ∧ graph.layers = .ok layers ∧
    Reaches (Machine.Step interruptedWorld 4) (start layers) s ∧
    ∃ unit ending produced, Ended s unit ending produced ∧ produced.2.state = .cancelled ∧
      .of .starts unit.val.id ∈ s.trace := by
  have hStarted : (driven interruptedWorld [lintCheck] 9).any (startedAndEnded .cancelled) = true := by
    decide
  cases h : driven interruptedWorld [lintCheck] 9 with
  | none =>
    rw [h] at hStarted
    cases hStarted
  | some s =>
    obtain ⟨graph, layers, hGraph, hLayers, hRun⟩ := exists_driven h
    rw [h] at hStarted
    exact ⟨graph, layers, s, hGraph, hLayers, hRun, exists_of_startedAndEnded hStarted⟩

end Ici
