import Ici.Application.Graph

/-! # What wiring a plan records

One lemma for each loop of `build_graph`: which check produces an input, what edges and reasons a
check gets, and how the checks are divided. Everything they raise is a `GraphError`. -/

namespace Ici

open List Raising Python

def IsGraphError (e : PyError) : Prop := e.name = py "GraphError"

theorem isGraphError (text : Text) : IsGraphError (graphError text) := rfl

variable {found : Dict Text PlannedCheck} {checks : List PlannedCheck} {e : PyError}
  {available : Dict Text CheckDefinition}

theorem addProducer_ok {planned : PlannedCheck} {found' : Dict Text PlannedCheck} {name : Text}
    (h : addProducer planned found name = .ok found') (n : Text) (q : PlannedCheck) :
    found'.get? n = some q ↔ found.get? n = some q ∨ (q = planned ∧ n = name) := by
  unfold addProducer at h
  split at h
  · cases h
  · rename_i hNone
    cases h
    rw [Dict.get?_set]
    split
    · rename_i hEq
      subst hEq
      simp [hNone, eq_comm]
    · rename_i hne
      simp [Ne.symm hne]

theorem addProducers_ok {planned : PlannedCheck} {names : List Text} {found' : Dict Text PlannedCheck}
    (h : names.foldlM (addProducer planned) found = .ok found') (n : Text) (q : PlannedCheck) :
    found'.get? n = some q ↔ found.get? n = some q ∨ (q = planned ∧ n ∈ names) := by
  induction names generalizing found with
  | nil =>
    cases h
    simp
  | cons name names ih =>
    obtain ⟨mid, hHead, hTail⟩ := foldlM_cons_eq_ok.mp h
    rw [ih hTail, addProducer_ok hHead, mem_cons]
    tauto

theorem producers_get? (h : producers checks = .ok found) (n : Text) (q : PlannedCheck) :
    found.get? n = some q ↔ q ∈ checks ∧ n ∈ q.check.provides := by
  have hFrom : ∀ (checks : List PlannedCheck) (start : Dict Text PlannedCheck),
      checks.foldlM (fun found planned =>
        planned.check.provides.foldlM (addProducer planned) found) start = .ok found →
      (found.get? n = some q ↔ start.get? n = some q ∨ (q ∈ checks ∧ n ∈ q.check.provides)) := by
    intro checks
    induction checks with
    | nil =>
      intro start hRun
      cases hRun
      simp
    | cons planned checks ih =>
      intro start hRun
      obtain ⟨mid, hHead, hTail⟩ := foldlM_cons_eq_ok.mp hRun
      rw [ih mid hTail, addProducers_ok hHead, mem_cons]
      constructor
      · rintro ((hOld | ⟨rfl, hName⟩) | ⟨hMem, hName⟩)
        · exact .inl hOld
        · exact .inr ⟨.inl rfl, hName⟩
        · exact .inr ⟨.inr hMem, hName⟩
      · rintro (hOld | ⟨rfl | hMem, hName⟩)
        · exact .inl (.inl hOld)
        · exact .inl (.inr ⟨rfl, hName⟩)
        · exact .inr ⟨hMem, hName⟩
  simpa [Dict.get?] using hFrom checks [] h

theorem producers_error (h : producers checks = .error e) : IsGraphError e := by
  refine foldlM_error (fun _ => True) IsGraphError (fun _ _ _ _ _ _ => trivial) ?_
    trivial h
  intro found planned e _ _ hInner
  refine foldlM_error (fun _ => True) IsGraphError (fun _ _ _ _ _ _ => trivial) ?_
    trivial hInner
  intro found name e _ _ hAdd
  unfold addProducer at hAdd
  split at hAdd
  · cases hAdd
    exact isGraphError _
  · cases hAdd

/-! ## Edges -/

section

variable (produced : Dict Text PlannedCheck) (planned : PlannedCheck)

def feeds : List Text :=
  planned.check.needs.filterMap fun need => (produced.get? need).map (·.taskId)

def IsFed : Prop := ∀ need ∈ planned.check.needs, (produced.get? need).isSome

instance : Decidable (IsFed produced planned) := inferInstanceAs (Decidable (∀ _ ∈ _, _))

end

theorem Edges.of_set_self (edges : Edges) (taskId : Text) (targets : List Text) :
    Edges.of (Dict.set edges taskId targets) taskId = targets := by
  simp [Edges.of]

theorem Edges.of_set_of_ne {taskId other : Text} (h : taskId ≠ other) (edges : Edges)
    (targets : List Text) : Edges.of (Dict.set edges taskId targets) other = edges.of other := by
  rw [Edges.of, Dict.get?_set_of_ne h, Edges.of]

variable {produced : Dict Text PlannedCheck}

theorem wire_ok {planned : PlannedCheck} {edges edges' : Edges} {reasons : List Text}
    (h : wire produced available planned edges = .ok (edges', reasons)) :
    edges'.of planned.taskId = edges.of planned.taskId ++ feeds produced planned ∧
    (∀ other ≠ planned.taskId, edges'.of other = edges.of other) ∧
    (reasons = [] ↔ IsFed produced planned) := by
  have hFrom (needs : List Text) (start : Edges × List Text)
      (h : needs.foldlM (wireNeed produced available planned) start = .ok (edges', reasons)) :
      edges'.of planned.taskId = start.1.of planned.taskId ++
        needs.filterMap (fun need => (produced.get? need).map (·.taskId)) ∧
      (∀ other ≠ planned.taskId, edges'.of other = start.1.of other) ∧
      (reasons = [] ↔ start.2 = [] ∧ ∀ need ∈ needs, (produced.get? need).isSome) := by
    induction needs generalizing start with
    | nil =>
      cases h
      simp
    | cons need needs ih =>
      obtain ⟨mid, hHead, hTail⟩ := foldlM_cons_eq_ok.mp h
      obtain ⟨hSelf, hOther, hReasons⟩ := ih mid hTail
      unfold wireNeed at hHead
      cases hGet : produced.get? need with
      | none =>
        simp only [hGet] at hHead
        cases hHead
        refine ⟨?_, hOther, ?_⟩
        · simpa [hGet] using hSelf
        · simp [hReasons, hGet]
      | some producer =>
        simp only [hGet] at hHead
        split at hHead
        · cases hHead
        · cases hHead
          refine ⟨?_, ?_, ?_⟩
          · simpa [hGet, Edges.of_set_self] using hSelf
          · intro other hne
            rw [hOther other hne, Edges.of_set_of_ne (Ne.symm hne)]
          · simp [hReasons, hGet]
  simpa [feeds, IsFed] using hFrom planned.check.needs (edges, []) h

theorem wire_error {planned : PlannedCheck} {edges : Edges}
    (h : wire produced available planned edges = .error e) : IsGraphError e := by
  refine foldlM_error (fun _ => True) IsGraphError (fun _ _ _ _ _ _ => trivial) ?_
    trivial h
  intro state need e _ _ hNeed
  unfold wireNeed at hNeed
  split at hNeed
  · cases hNeed
  · split at hNeed
    · cases hNeed
      exact isGraphError _
    · cases hNeed

def StartsRunnable (produced : Dict Text PlannedCheck) (planned : PlannedCheck) : Prop :=
  planned.blocked = [] ∧ IsFed produced planned

instance (produced : Dict Text PlannedCheck) (planned : PlannedCheck) :
    Decidable (StartsRunnable produced planned) := inferInstanceAs (Decidable (_ ∧ _))

theorem wireCheck_ok {wiring wiring' : Wiring} {planned : PlannedCheck}
    (h : wireCheck produced available wiring planned = .ok wiring') :
    wiring'.blocked.map (·.check) = wiring.blocked.map (·.check) ++
      (if StartsRunnable produced planned then [] else [planned]) ∧
    wiring'.runnable = wiring.runnable ++
      (if StartsRunnable produced planned then [planned] else []) ∧
    (planned.blocked = [] → wiring'.edges.of planned.taskId =
      wiring.edges.of planned.taskId ++ feeds produced planned) ∧
    ∀ other ≠ planned.taskId, wiring'.edges.of other = wiring.edges.of other := by
  unfold wireCheck at h
  split at h
  · rename_i hBlocked
    cases h
    have hNot : ¬StartsRunnable produced planned := fun hStarts => hBlocked hStarts.1
    simp [hNot, hBlocked]
  · rename_i hBlocked
    obtain ⟨⟨edges, reasons⟩, hWire, h⟩ := bind_eq_ok.mp h
    obtain ⟨hSelf, hOther, hReasons⟩ := wire_ok hWire
    simp only at h
    split at h
    · rename_i hne
      cases h
      have hNot : ¬StartsRunnable produced planned := fun hStarts => hne (hReasons.mpr hStarts.2)
      simpa [hNot, hSelf] using hOther
    · rename_i hNil
      cases h
      have hStarts : StartsRunnable produced planned :=
        ⟨not_not.mp hBlocked, hReasons.mp (not_not.mp hNil)⟩
      simpa [hStarts, hSelf] using hOther

theorem wireCheck_error {wiring : Wiring} {planned : PlannedCheck}
    (h : wireCheck produced available wiring planned = .error e) : IsGraphError e := by
  unfold wireCheck at h
  split at h
  · cases h
  · rcases bind_eq_error.mp h with hWire | ⟨⟨edges, reasons⟩, -, h⟩
    · exact wire_error hWire
    · simp only at h
      split at h <;> cases h

theorem wiring_ok (hIds : (checks.map (·.taskId)).Nodup) {wiring : Wiring}
    (h : checks.foldlM (wireCheck produced available) {} = .ok wiring) :
    wiring.blocked.map (·.check) = checks.filter (fun p => ¬StartsRunnable produced p) ∧
    wiring.runnable = checks.filter (fun p => StartsRunnable produced p) ∧
    ∀ p ∈ checks, p.blocked = [] → wiring.edges.of p.taskId = feeds produced p := by
  have hFrom : ∀ (checks : List PlannedCheck) (start : Wiring), (checks.map (·.taskId)).Nodup →
      (∀ p ∈ checks, start.edges.of p.taskId = []) →
      checks.foldlM (wireCheck produced available) start = .ok wiring →
      wiring.blocked.map (·.check) = start.blocked.map (·.check) ++
        checks.filter (fun p => ¬StartsRunnable produced p) ∧
      wiring.runnable = start.runnable ++ checks.filter (fun p => StartsRunnable produced p) ∧
      (∀ p ∈ checks, p.blocked = [] → wiring.edges.of p.taskId = feeds produced p) ∧
      ∀ other ∉ checks.map (·.taskId), wiring.edges.of other = start.edges.of other := by
    intro checks
    induction checks with
    | nil =>
      intro start _ _ hRun
      cases hRun
      simp
    | cons planned checks ih =>
      intro start hIds hFresh hRun
      obtain ⟨hNotMem, hIds⟩ := nodup_cons.mp hIds
      obtain ⟨mid, hHead, hTail⟩ := foldlM_cons_eq_ok.mp hRun
      obtain ⟨hBlocked, hRunnable, hSelf, hOther⟩ := wireCheck_ok hHead
      have hFresh' : ∀ p ∈ checks, mid.edges.of p.taskId = [] := by
        intro p hp
        rw [hOther p.taskId, hFresh p (mem_cons_of_mem _ hp)]
        intro hEq
        exact hNotMem (mem_map.mpr ⟨p, hp, hEq⟩)
      obtain ⟨ihBlocked, ihRunnable, ihEdges, ihOther⟩ := ih mid hIds hFresh' hTail
      refine ⟨?_, ?_, ?_, ?_⟩
      · rw [ihBlocked, hBlocked, append_assoc]
        by_cases hStarts : StartsRunnable produced planned <;> simp [hStarts]
      · rw [ihRunnable, hRunnable, append_assoc]
        by_cases hStarts : StartsRunnable produced planned <;> simp [hStarts]
      · intro p hp hArrived
        rcases mem_cons.mp hp with rfl | hp
        · rw [ihOther p.taskId hNotMem, hSelf hArrived, hFresh p mem_cons_self, nil_append]
        · exact ihEdges p hp hArrived
      · intro other hNot
        obtain ⟨hne, hNot⟩ := not_or.mp (mt mem_cons.mpr hNot)
        rw [ihOther other hNot, hOther other hne]
  obtain ⟨hBlocked, hRunnable, hEdges, -⟩ := hFrom checks {} hIds (fun _ _ => rfl) h
  exact ⟨by simpa using hBlocked, by simpa using hRunnable, hEdges⟩

end Ici
