import Ici.Library.Augmenting
import Ici.Library.Decimals

/-! # Expected findings

Each expectation asks for so many findings of its own. What `_matches_finding` decides may be any relation here. -/

namespace Ici.ReportContract

open List Python Augmenting List

structure ContractFailure where
  engine : Text
  kind : Text
  detail : Text

def suiteScope : Text := py ""

/-- A validated expectation. -/
structure Expectation (π : Type) where
  predicate : π
  engine : Option Text
  count : ℕ+

variable {φ π : Type} (accepts : φ → π → Bool) (observed : List φ) (expected : List (Expectation π))

def slots : List (ℕ × Expectation π) :=
  expected.zipIdx.flatMap fun item => replicate item.1.count (item.2, item.1)

def candidates (slot : Fin (slots expected).length) : List (Fin observed.length) :=
  (finRange observed.length).filter fun item => accepts (observed.get item) ((slots expected).get slot).2.predicate

def findingMissing (slot : ℕ × Expectation π) : ContractFailure where
  engine := slot.2.engine.getD suiteScope
  kind := py "finding-missing"
  detail := py "expected finding #" ++ natDigits slot.1 ++ py " was not matched"

/-- `_match_expected_findings`; `none` stands for a search that did not end. -/
def matchExpectedFindings : Option (ℕ × List ContractFailure) :=
  ((finRange (slots expected).length).foldlM (place (candidates accepts observed expected)
    fun slot => findingMissing ((slots expected).get slot)) ⟨[], 0, []⟩).map
      fun state => (state.matched, state.failures)

/-! ## Matchings -/

def wanted : List π := expected.flatMap fun item => replicate item.count item.predicate

/-- Findings chosen for some of what is wanted, each at most once. -/
structure IsMatching (pairs : List (π × φ)) : Prop where
  wanted : (pairs.map Prod.fst).Subperm (wanted expected)
  observed : (pairs.map Prod.snd).Subperm observed
  accepted : ∀ pair ∈ pairs, accepts pair.2 pair.1 = true

theorem subperm_map_iff {ι α : Type} {places : List ι} (hPlaces : places.Nodup) (f : ι → α) {l : List α} :
    l.Subperm (places.map f) ↔ ∃ chosen, chosen ⊆ places ∧ chosen.Nodup ∧ chosen.map f = l := by
  constructor
  · rintro ⟨sub, hPerm, hSub⟩
    obtain ⟨chosen, hChosen, rfl⟩ := sublist_map_iff.mp hSub
    obtain ⟨again, rfl, hAgain⟩ :=
      Eq.mpr (congrFun₂ (eq_map_comp_perm f) l chosen) hPerm.symm
    exact ⟨again, fun _ hIn => hChosen.subset (hAgain.subset hIn),
      hAgain.nodup_iff.mpr (hPlaces.sublist hChosen), rfl⟩
  · rintro ⟨chosen, hSub, hNodup, rfl⟩
    obtain ⟨sub, hPerm, hChosen⟩ := hNodup.subperm hSub
    exact ⟨sub.map f, hPerm.map f, hChosen.map f⟩

theorem map_get_finRange {α : Type} (l : List α) : (finRange l.length).map l.get = l :=
  ofFn_eq_map.symm.trans (ofFn_get l)

variable {accepts observed expected}

theorem wanted_eq_map :
    wanted expected = (finRange _).map fun slot => ((slots expected).get slot).2.predicate := by
  calc wanted expected
      = (expected.zipIdx.map Prod.fst).flatMap fun item => replicate item.count item.predicate := by
        rw [zipIdx_map_fst, wanted]
    _ = (slots expected).map fun slot => slot.2.predicate := by
        simp only [slots, map_flatMap, flatMap_map, map_replicate]
    _ = _ := by
        conv_lhs => rw [← map_get_finRange (slots expected), map_map]
        rfl

theorem exists_matching_iff {n : ℕ} : (∃ pairs, IsMatching accepts observed expected pairs ∧ pairs.length = n) ↔
    ∃ pairs, Augmenting.IsMatching (candidates accepts observed expected)
      (finRange (slots expected).length) pairs ∧ pairs.length = n := by
  have hWanted {l : List π} := wanted_eq_map ▸
    subperm_map_iff (nodup_finRange _) (fun slot => ((slots expected).get slot).2.predicate) (l := l)
  have hFound {l : List φ} : l.Subperm observed ↔ _ :=
    map_get_finRange observed ▸ subperm_map_iff (nodup_finRange _) observed.get
  constructor
  · rintro ⟨pairs, h, rfl⟩
    obtain ⟨slotPlaces, hSlots, hOnce, hFirst⟩ := hWanted.mp h.wanted
    obtain ⟨itemPlaces, -, hUsed, hSecond⟩ := hFound.mp h.observed
    have hLength : slotPlaces.length = itemPlaces.length := by
      simpa using (congrArg length hFirst).trans (by simpa using (congrArg length hSecond).symm)
    have hPairs : pairs = (slotPlaces.zip itemPlaces).map (Prod.map _ _) :=
      (zip_of_prod hFirst.symm hSecond.symm).trans zip_map
    have hFst := map_fst_zip hLength.le
    have hSnd := map_snd_zip hLength.ge
    refine ⟨slotPlaces.zip itemPlaces, ⟨by rwa [hFst], by rwa [hFst], by rwa [hSnd], fun pair hPair => ?_⟩, ?_⟩
    · exact mem_filter.mpr ⟨mem_finRange _, h.accepted _ (hPairs ▸ mem_map_of_mem hPair)⟩
    · rw [hPairs, length_map]
  · rintro ⟨pairs, h, rfl⟩
    refine ⟨pairs.map (Prod.map (fun slot => ((slots expected).get slot).2.predicate) observed.get),
      ⟨hWanted.mpr ⟨_, h.slots, h.once, by simp⟩, hFound.mpr ⟨_, fun _ _ => mem_finRange _, h.used, by simp⟩,
        ?_⟩, length_map ..⟩
    rintro _ hMem
    obtain ⟨pair, hPair, rfl⟩ := mem_map.mp hMem
    exact (mem_filter.mp (h.accepted pair hPair)).2

theorem match_spec (accepts : φ → π → Bool) (observed : List φ) (expected : List (Expectation π)) :
    ∃ matched failures, matchExpectedFindings accepts observed expected = some (matched, failures) ∧
      IsGreatest {n | ∃ pairs, IsMatching accepts observed expected pairs ∧ pairs.length = n} matched ∧
      matched + failures.length = (wanted expected).length := by
  obtain ⟨last, hRun, hGreatest, hTotal⟩ := assignment_maximum (candidates accepts observed expected)
    (fun slot => findingMissing ((slots expected).get slot)) (nodup_finRange _)
  simp only [← exists_matching_iff] at hGreatest
  refine ⟨last.matched, last.failures, congrArg (Option.map _) hRun, hGreatest, ?_⟩
  rw [hTotal, wanted_eq_map, length_map]

theorem match_maximum {φ π : Type} (accepts : φ → π → Bool) (observed : List φ)
    (expected : List (Expectation π)) :
    ∃ matched failures, matchExpectedFindings accepts observed expected = some (matched, failures) ∧
      IsGreatest {n | ∃ pairs, IsMatching accepts observed expected pairs ∧ pairs.length = n} matched ∧
      (failures = [] ↔ ∃ pairs, IsMatching accepts observed expected pairs ∧
        (pairs.map Prod.fst).Perm (wanted expected)) ∧
      ∀ observed' expected', observed'.Perm observed → expected'.Perm expected → ∃ matched' failures',
        matchExpectedFindings accepts observed' expected' = some (matched', failures') ∧
          failures'.length = failures.length := by
  obtain ⟨matched, failures, hRun, hGreatest, hTotal⟩ := match_spec accepts observed expected
  refine ⟨matched, failures, hRun, hGreatest, ⟨fun hNone => ?_, ?_⟩, fun observed' expected' hObserved hExpected => ?_⟩
  · obtain ⟨pairs, hPairs, hLength⟩ := hGreatest.1
    refine ⟨pairs, hPairs, hPairs.wanted.perm_of_length_le ?_⟩
    simp [hLength, ← hTotal, hNone]
  · rintro ⟨pairs, hPairs, hAll⟩
    have hLe := hGreatest.2 ⟨pairs, hPairs, rfl⟩
    have hLength := hAll.length_eq
    rw [length_map] at hLength
    exact length_eq_zero_iff.mp (by omega)
  · obtain ⟨matched', failures', hRun', hGreatest', hTotal'⟩ := match_spec accepts observed' expected'
    have hWanted : (wanted expected').Perm (wanted expected) := hExpected.flatMap_right _
    have hSame (pairs) : IsMatching accepts observed' expected' pairs ↔ IsMatching accepts observed expected pairs :=
      ⟨fun h => ⟨h.wanted.trans hWanted.subperm, h.observed.trans hObserved.subperm, h.accepted⟩,
        fun h => ⟨h.wanted.trans hWanted.symm.subperm, h.observed.trans hObserved.symm.subperm, h.accepted⟩⟩
    simp only [hSame] at hGreatest'
    have hMatched := hGreatest'.unique hGreatest
    have hLength := hWanted.length_eq
    exact ⟨matched', failures', hRun', by omega⟩

end Ici.ReportContract
