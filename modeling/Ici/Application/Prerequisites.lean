import Ici.Application.CrashContained

/-! # What an attempt knows of its prerequisites

A unit stands in a later layer than everything it depends on, so what it finds finished about a
dependency is the last word on it. -/

namespace Ici

open Dict List Python

section

variable {world : World}

variable {finished : Dict Text Observation} {unit : WorkUnit}

theorem AttemptedFrom.split {start : RunState} {layers : List (List WorkUnit)}
    (h : AttemptedFrom world start layers finished unit) :
    ∃ before layer after mid, layers = before ++ layer :: after ∧
      before.foldlM (runLayer world) start = .ok mid ∧ finished = mid.finished ∧ unit ∈ layer := by
  induction h with
  | @here start layer rest unit hUnit => exact ⟨[], layer, rest, start, rfl, rfl, rfl, hUnit⟩
  | @later start mid layer rest finished unit hLayer hRest ih =>
    obtain ⟨before, layer', after, last, rfl, hBefore, hFinished, hUnit⟩ := ih
    exact ⟨layer :: before, layer', after, last, rfl,
      Raising.foldlM_cons_eq_ok.mpr ⟨mid, hLayer, hBefore⟩, hFinished, hUnit⟩

theorem AttemptedFrom.of_prefix {start : RunState} {before : List (List WorkUnit)}
    (h : AttemptedFrom world start before finished unit) (after : List (List WorkUnit)) :
    AttemptedFrom world start (before ++ after) finished unit := by
  induction h with
  | here hUnit => exact .here hUnit
  | later hLayer _ ih => exact .later hLayer ih

theorem Finishes.unique {first second : Observation} (h : Finishes world finished unit first)
    (h' : Finishes world finished unit second) : first = second := by
  obtain ⟨execution, hAttempt⟩ := h
  obtain ⟨execution', hAttempt'⟩ := h'
  cases hAttempt.symm.trans hAttempt'
  rfl

theorem failedPrerequisite_eq_none_iff : failedPrerequisite unit finished = none ↔
      ∀ d ∈ unit.val.dependsOn, ∃ o, finished.get? d = some o ∧ o.val.state = .succeeded := by
  unfold failedPrerequisite
  rw [find?_eq_none]
  refine forall₂_congr fun d _ => ?_
  cases finished.get? d with
  | none => simp
  | some o => simp

end

namespace ReturnedRun

variable {world : World} {graph : TaskGraph} {layers : List (List WorkUnit)}
  {writes : List (Text × Observation)} {scheduled : Scheduled}
  (run : ReturnedRun world graph layers writes scheduled)

include run

theorem eq_of_id_eq {unit other : WorkUnit} (hUnit : unit ∈ layers.flatten)
    (hOther : other ∈ layers.flatten) (h : unit.val.id = other.val.id) : unit = other :=
  inj_on_of_nodup_map run.layers_nodup hUnit hOther h

theorem finished_unique {finished finished' : Dict Text Observation} {unit : WorkUnit}
    (h : AttemptedFrom world {} layers finished unit)
    (h' : AttemptedFrom world {} layers finished' unit) : finished = finished' :=
  h.unique (Nodup.of_map _ run.layers_nodup) h'

/-- A dependency is found finished with `o` iff its own attempt left `o` behind. -/
theorem finished_get?_iff {finished : Dict Text Observation} {unit : WorkUnit}
    (h : AttemptedFrom world {} layers finished unit) {d : Text} (hd : d ∈ unit.val.dependsOn)
    (o : Observation) :
    finished.get? d = some o ↔ ∃ finished' other, AttemptedFrom world {} layers finished' other ∧
      other.val.id = d ∧ Finishes world finished' other o := by
  obtain ⟨before, layer, after, mid, hSplit, hBefore, rfl, hUnit⟩ := h.split
  obtain ⟨ends, hEnds, hMem⟩ := runLayers_finished hBefore
  have hOrdered := (layers_ok run.layers_eq).2
  rw [hEnds]
  have hWhole {finished' : Dict Text Observation} {other : WorkUnit}
      (hOther : AttemptedFrom world {} before finished' other) :
      AttemptedFrom world {} layers finished' other := hSplit ▸ hOther.of_prefix (layer :: after)
  constructor
  · intro hGet
    rcases mem_of_mem_setAll (mem_of_get? hGet) with hNone | hWrite
    · cases hNone
    · obtain ⟨finished', other, hOther, hId, hFinishes⟩ := (hMem d o).mp hWrite
      exact ⟨finished', other, hWhole hOther, hId, hFinishes⟩
  · rintro ⟨finished', other, hOther, rfl, hFinishes⟩
    rw [hSplit] at hOrdered
    have hIn := (hOrdered.before hUnit hd).resolve_left not_mem_nil
    obtain ⟨other', hOther', hId⟩ := mem_map.mp hIn
    obtain ⟨finished'', hEarly⟩ := attemptedFrom_of_ok hBefore hOther'
    have hSame : other' = other := run.eq_of_id_eq (hWhole hEarly).mem hOther.mem hId
    subst hSame
    have hFinished := run.finished_unique (hWhole hEarly) hOther
    subst hFinished
    apply get?_setAll_of_forall
    · rintro ⟨id, o'⟩ hWrite rfl
      obtain ⟨finished₁, other₁, hOther₁, hId₁, hFinishes₁⟩ := (hMem _ o').mp hWrite
      have hSame₁ := run.eq_of_id_eq (hWhole hOther₁).mem hOther.mem hId₁
      subst hSame₁
      have hFinished₁ := run.finished_unique (hWhole hOther₁) hOther
      subst hFinished₁
      exact hFinishes₁.unique hFinishes
    · exact ⟨_, (hMem _ o).mpr ⟨finished'', other', hEarly, rfl, hFinishes⟩, rfl⟩

end ReturnedRun

end Ici
