import Ici.Application.Wiring

/-! # Which checks a graph blocks

The loop of `build_graph` that blocks whatever waits for a blocked check ends, loses no check, and
reaches the least set closed under the three reasons for which a check cannot run. -/

namespace Ici

open Option List Python Saturation

/-- `p` consumes something `q` produces. -/
def NeedsFrom (p q : PlannedCheck) : Prop :=
  ∃ need ∈ p.check.needs, need ∈ q.check.provides

instance (p q : PlannedCheck) : Decidable (NeedsFrom p q) :=
  inferInstanceAs (Decidable (∃ _ ∈ _, _))

/-- A set of checks that contains what arrived blocked, what nothing can feed, and with a check
every check that needs something from it. -/
structure BlockClosed (checks : List PlannedCheck) (blocked : Set PlannedCheck) : Prop where
  arrived : ∀ p ∈ checks, p.blocked ≠ [] → p ∈ blocked
  unfed : ∀ p ∈ checks, ∀ need ∈ p.check.needs, (∀ q ∈ checks, need ∉ q.check.provides) → p ∈ blocked
  chained : ∀ p ∈ checks, ∀ q ∈ checks, q ∈ blocked → NeedsFrom p q → p ∈ blocked

section

variable {checks : List PlannedCheck} {produced : Dict Text PlannedCheck}

theorem isFed_iff (hProduced : producers checks = .ok produced) {p : PlannedCheck} :
    IsFed produced p ↔ ∀ need ∈ p.check.needs, ∃ q ∈ checks, need ∈ q.check.provides := by
  unfold IsFed
  constructor
  · intro h need hNeed
    obtain ⟨q, hq⟩ := isSome_iff_exists.mp (h need hNeed)
    exact ⟨q, (producers_get? hProduced need q).mp hq⟩
  · intro h need hNeed
    obtain ⟨q, hq⟩ := h need hNeed
    exact isSome_iff_exists.mpr ⟨q, (producers_get? hProduced need q).mpr hq⟩

theorem mem_feeds_iff (hProduced : producers checks = .ok produced) {p : PlannedCheck} {d : Text} :
    d ∈ feeds produced p ↔ ∃ q ∈ checks, NeedsFrom p q ∧ q.taskId = d := by
  unfold feeds
  rw [mem_filterMap]
  constructor
  · rintro ⟨need, hNeed, hGet⟩
    obtain ⟨q, hq, rfl⟩ := map_eq_some_iff.mp hGet
    obtain ⟨hMem, hProvides⟩ := (producers_get? hProduced need q).mp hq
    exact ⟨q, hMem, ⟨need, hNeed, hProvides⟩, rfl⟩
  · rintro ⟨q, hMem, ⟨need, hNeed, hProvides⟩, rfl⟩
    refine ⟨need, hNeed, ?_⟩
    rw [(producers_get? hProduced need q).mpr ⟨hMem, hProvides⟩]
    rfl

variable {edges : Edges} {blocked : List Blocked} {p : PlannedCheck}

theorem blockedBy_eq_some {b : Blocked} (h : blockedBy edges blocked p = some b) :
    b.check = p ∧ ∃ c ∈ blocked, c.check.taskId ∈ edges.of p.taskId := by
  unfold blockedBy at h
  obtain ⟨d, hFind, rfl⟩ := map_eq_some_iff.mp h
  have hBlocked : d ∈ blocked.map (·.check.taskId) := by simpa using find?_some hFind
  obtain ⟨c, hc, rfl⟩ := mem_map.mp hBlocked
  exact ⟨rfl, c, hc, mem_of_find?_eq_some hFind⟩

theorem blockedBy_eq_none (h : blockedBy edges blocked p = none) :
    ∀ c ∈ blocked, c.check.taskId ∉ edges.of p.taskId := by
  unfold blockedBy at h
  intro c hc hEdge
  have hNot := find?_eq_none.mp (map_eq_none_iff.mp h) _ hEdge
  exact hNot (decide_eq_true (mem_map.mpr ⟨c, hc, rfl⟩))

end

/-- The blocking loop of `build_graph`, run to its end on checks with distinct ids. -/
structure BlockingRun (checks : List PlannedCheck) (produced : Dict Text PlannedCheck)
    (wiring : Wiring) (blocked : List Blocked) (runnable : List PlannedCheck) : Prop where
  ids : (checks.map (·.taskId)).Nodup
  producers_eq : producers checks = .ok produced
  wiring_eq : ∃ available, checks.foldlM (wireCheck produced available) {} = .ok wiring
  loop_eq : ∃ fuel, saturate (blockedBy wiring.edges) fuel wiring.blocked
    wiring.runnable = some (blocked, runnable)

namespace BlockingRun

variable {checks : List PlannedCheck} {produced : Dict Text PlannedCheck} {wiring : Wiring}
  {blocked : List Blocked} {runnable : List PlannedCheck}
  (run : BlockingRun checks produced wiring blocked runnable)

include run

variable {p : PlannedCheck}

theorem eq_of_taskId {q : PlannedCheck} (hp : p ∈ checks) (hq : q ∈ checks)
    (h : p.taskId = q.taskId) : p = q :=
  inj_on_of_nodup_map run.ids hp hq h

theorem starts {p : PlannedCheck} (hp : p ∈ wiring.runnable) : p ∈ checks ∧ StartsRunnable produced p := by
  obtain ⟨available, hWiring⟩ := run.wiring_eq
  obtain ⟨-, hRunnable, -⟩ := wiring_ok run.ids hWiring
  rw [hRunnable] at hp
  simpa using hp

theorem mem_seed_iff : p ∈ wiring.blocked.map (·.check) ↔ p ∈ checks ∧ ¬StartsRunnable produced p := by
  obtain ⟨available, hWiring⟩ := run.wiring_eq
  obtain ⟨hBlocked, -, -⟩ := wiring_ok run.ids hWiring
  rw [hBlocked]
  simp

theorem mem_edges_of_starts (hp : p ∈ wiring.runnable) (d : Text) :
    d ∈ wiring.edges.of p.taskId ↔ ∃ q ∈ checks, NeedsFrom p q ∧ q.taskId = d := by
  obtain ⟨available, hWiring⟩ := run.wiring_eq
  obtain ⟨-, -, hEdges⟩ := wiring_ok run.ids hWiring
  obtain ⟨hMem, hArrived, -⟩ := run.starts hp
  rw [hEdges p hMem hArrived, mem_feeds_iff run.producers_eq]

theorem perm : (blocked.map (·.check) ++ runnable).Perm checks := by
  obtain ⟨available, hWiring⟩ := run.wiring_eq
  obtain ⟨fuel, hLoop⟩ := run.loop_eq
  obtain ⟨hBlocked, hRunnable, -⟩ := wiring_ok run.ids hWiring
  refine (saturate_perm Blocked.check
    (fun _ _ _ hb => (blockedBy_eq_some hb).1) hLoop).trans ?_
  rw [hBlocked, hRunnable]
  refine perm_append_comm.trans ?_
  simpa using filter_append_perm (fun p => decide (StartsRunnable produced p)) checks

theorem starts_of_runnable (hp : p ∈ runnable) : p ∈ wiring.runnable := by
  obtain ⟨fuel, hLoop⟩ := run.loop_eq
  refine (saturate_invariant (fun _ left => ∀ p ∈ left, p ∈ wiring.runnable) ?_ hLoop
    (fun _ hp => hp)).1 p hp
  intro got left hHolds p hp
  exact hHolds p (mem_of_mem_filter hp)

theorem mem_checks (hp : p ∈ runnable) : p ∈ checks :=
  (run.starts (run.starts_of_runnable hp)).1

theorem blocked_of_seed (hp : p ∈ checks) (h : ¬StartsRunnable produced p) : ∃ b ∈ blocked, b.check = p := by
  obtain ⟨fuel, hLoop⟩ := run.loop_eq
  have hKept : ∀ b ∈ wiring.blocked, b ∈ blocked := by
    refine (saturate_invariant (fun got _ => ∀ b ∈ wiring.blocked, b ∈ got) ?_ hLoop
      (fun _ hb => hb)).1
    intro got left hHolds b hb
    exact mem_append_left _ (hHolds b hb)
  obtain ⟨b, hb, hEq⟩ := mem_map.mp (run.mem_seed_iff.mpr ⟨hp, h⟩)
  exact ⟨b, hKept b hb, hEq⟩

theorem mem_edges (hp : p ∈ runnable) (d : Text) :
    d ∈ wiring.edges.of p.taskId ↔ ∃ q ∈ checks, NeedsFrom p q ∧ q.taskId = d :=
  run.mem_edges_of_starts (run.starts_of_runnable hp) d

theorem blocked_or_runnable (hp : p ∈ checks) : (∃ b ∈ blocked, b.check = p) ∨ p ∈ runnable :=
  (mem_append.mp (run.perm.symm.subset hp)).imp mem_map.mp id

theorem not_blocked_of_runnable (hp : p ∈ runnable) : ¬∃ b ∈ blocked, b.check = p := by
  have hNodup := run.perm.nodup_iff.mpr (Nodup.of_map _ run.ids)
  exact fun hBlocked =>
    disjoint_of_nodup_append hNodup (mem_map.mpr hBlocked) hp

theorem producer_runnable {q : PlannedCheck} (hp : p ∈ runnable) (hq : q ∈ checks)
    (hNeeds : NeedsFrom p q) : q ∈ runnable := by
  obtain ⟨fuel, hLoop⟩ := run.loop_eq
  rcases run.blocked_or_runnable hq with ⟨b, hb, rfl⟩ | hRun
  · have hEdge := (run.mem_edges hp b.check.taskId).mpr ⟨b.check, hq, hNeeds, rfl⟩
    exact absurd hEdge (blockedBy_eq_none (saturate_stable hLoop p hp) b hb)
  · exact hRun

theorem edgesRunnable (hp : p ∈ runnable) {d : Text}
    (hd : d ∈ wiring.edges.of p.taskId) : ∃ q ∈ runnable, q.taskId = d := by
  obtain ⟨q, hq, hNeeds, hId⟩ := (run.mem_edges hp d).mp hd
  exact ⟨q, run.producer_runnable hp hq hNeeds, hId⟩

theorem closed : BlockClosed checks {p | ∃ b ∈ blocked, b.check = p} := by
  refine ⟨?_, ?_, ?_⟩
  · intro p hp hArrived
    exact run.blocked_of_seed hp fun hStarts => hArrived hStarts.1
  · intro p hp need hNeed hNone
    apply run.blocked_of_seed hp
    intro hStarts
    obtain ⟨q, hq, hProvides⟩ := (isFed_iff run.producers_eq).mp hStarts.2 need hNeed
    exact hNone q hq hProvides
  · intro p hp q hq hBlocked hNeeds
    rcases run.blocked_or_runnable hp with hDone | hRun
    · exact hDone
    · exact absurd hBlocked (run.not_blocked_of_runnable (run.producer_runnable hRun hq hNeeds))

theorem seed_mem {S : Set PlannedCheck} (hS : BlockClosed checks S) {p : PlannedCheck}
    (hp : p ∈ checks) (h : ¬StartsRunnable produced p) : p ∈ S := by
  by_contra hOut
  apply h
  constructor
  · by_contra hArrived
    exact hOut (hS.arrived p hp hArrived)
  · apply (isFed_iff run.producers_eq).mpr
    intro need hNeed
    by_contra hNone
    push Not at hNone
    exact hOut (hS.unfed p hp need hNeed hNone)

theorem least {S : Set PlannedCheck} (hS : BlockClosed checks S) :
    ∀ b ∈ blocked, b.check ∈ checks ∧ b.check ∈ S := by
  obtain ⟨fuel, hLoop⟩ := run.loop_eq
  refine saturate_induction (fun b => b.check ∈ checks ∧ b.check ∈ S) ?_ hLoop ?_
  · intro got hGot p hp b hFire
    obtain ⟨rfl, c, hc, hEdge⟩ := blockedBy_eq_some hFire
    obtain ⟨hMem, -⟩ := run.starts hp
    obtain ⟨q, hq, hNeeds, hId⟩ := (run.mem_edges_of_starts hp _).mp hEdge
    obtain ⟨hcMem, hcS⟩ := hGot c hc
    have hEq := run.eq_of_taskId hq hcMem hId
    exact ⟨hMem, hS.chained _ hMem q hq (hEq ▸ hcS) hNeeds⟩
  · intro b hb
    obtain ⟨hMem, hNot⟩ := run.mem_seed_iff.mp (mem_map.mpr ⟨b, hb, rfl⟩)
    exact ⟨hMem, run.seed_mem hS hMem hNot⟩

theorem isLeast : IsLeast {S | BlockClosed checks S} {p | ∃ b ∈ blocked, b.check = p} := by
  refine ⟨run.closed, ?_⟩
  rintro S hS _ ⟨b, hb, rfl⟩
  exact (run.least hS b hb).2

end BlockingRun

end Ici
