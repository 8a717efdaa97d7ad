import Ici.Core.Pipeline
import Ici.Library.Sharing

/-! # Which pipelines are accepted

Every engine is listed once, depends on engines that run wherever it runs, without a cycle, and
consumes nothing that it does not reach a producer of. -/

namespace Ici

open Dict List Raising Python EngineDescriptor

/-- The engine called `name` lists `dependency`. -/
def NeedsEngine (descriptors : List EngineDescriptor) (name dependency : Text) : Prop :=
  ∃ engine ∈ descriptors, engine.name = name ∧ dependency ∈ engine.dependencies

structure IsPipeline (descriptors : List EngineDescriptor) : Prop where
  unique : (descriptors.map (·.name)).Nodup
  available : ∀ engine ∈ descriptors, ∀ dependency ∈ engine.dependencies, ∃ supplier ∈ descriptors,
    supplier.name = dependency ∧ engine.val.profiles ⊆ supplier.val.profiles
  produced : ∀ first ∈ descriptors, ∀ second ∈ descriptors, ∀ artifact ∈ first.val.produces,
    artifact ∈ second.val.produces → first = second
  acyclic : ∀ name, ¬Relation.TransGen (NeedsEngine descriptors) name name
  consumed : ∀ engine ∈ descriptors, ∀ artifact ∈ engine.val.consumes, artifact ∈ contextArtifacts ∨
    ∃ producer ∈ descriptors, artifact ∈ producer.val.produces ∧
      Relation.TransGen (NeedsEngine descriptors) engine.name producer.name

variable {descriptors : List EngineDescriptor}

def AreKnown (descriptors : List EngineDescriptor) : Prop :=
  ∀ engine ∈ descriptors, ∀ dependency ∈ engine.dependencies, dependency ∈ descriptors.map (·.name)

section

variable (hUnique : (descriptors.map (·.name)).Nodup)
include hUnique

theorem needsEngine_iff {engine : EngineDescriptor} (hEngine : engine ∈ descriptors) {dependency : Text} :
    NeedsEngine descriptors engine.name dependency ↔ dependency ∈ engine.dependencies := by
  constructor
  · rintro ⟨other, hOther, hName, hIn⟩
    obtain rfl : other = engine := inj_on_of_nodup_map hUnique hOther hEngine hName
    exact hIn
  · exact fun hIn => ⟨engine, hEngine, rfl, hIn⟩

omit hUnique in
theorem topologicalLayers_ok {layers : List (List EngineDescriptor)}
    (h : topologicalLayers descriptors = .ok layers) :
    layers.flatten.Perm descriptors ∧
    Layering.Ordered name dependencies [] layers ∧
    ∀ layer ∈ layers, layer ≠ [] := by
  unfold topologicalLayers at h
  split at h
  · rename_i hLayers
    cases h
    exact Layering.kahn_ok _ _ _ _ hLayers
  · cases h
  · cases h

theorem exists_rank {layers : List (List EngineDescriptor)} (h : topologicalLayers descriptors = .ok layers) :
    ∃ rank : Text → ℕ, (∀ name dependency, NeedsEngine descriptors name dependency →
      rank dependency < rank name) ∧ ∀ name ∈ descriptors.map (·.name), rank name < descriptors.length := by
  obtain ⟨hPerm, hOrdered, hNonempty⟩ := topologicalLayers_ok h
  have hNames := hPerm.map (·.name)
  refine ⟨Layering.rank name layers, ?_, fun name hName => ?_⟩
  · rintro name dependency ⟨engine, hEngine, rfl, hIn⟩
    rcases hOrdered.rank_lt (hNames.nodup_iff.mpr hUnique) (hPerm.mem_iff.mpr hEngine) hIn with hDone | hLess
    · cases hDone
    · exact hLess.2
  · rw [← hPerm.length_eq]
    exact (Layering.rank_lt_length (hNames.mem_iff.mpr hName)).trans_le
      (Layering.length_le_flatten hNonempty)

theorem exists_topologicalLayers_iff (hKnown : AreKnown descriptors) :
    (∃ layers, topologicalLayers descriptors = .ok layers) ↔
      ∀ name, ¬Relation.TransGen (NeedsEngine descriptors) name name := by
  constructor
  · rintro ⟨layers, h⟩ name
    obtain ⟨rank, hRank, -⟩ := exists_rank hUnique h
    have hAcyclic : ∀ name ∈ Set.univ, ¬Relation.TransGen (NeedsEngine descriptors) name name :=
      Sharing.acyclic_of_rank rank (fun _ _ _ _ => trivial)
        fun name _ dependency hNeeds => hRank name dependency hNeeds
    exact hAcyclic name trivial
  · intro hAcyclic
    have hClosed : ∀ name ∈ descriptors.map (·.name), ∀ dependency,
        NeedsEngine descriptors name dependency → dependency ∈ descriptors.map (·.name) := by
      rintro name - dependency ⟨engine, hEngine, -, hIn⟩
      exact hKnown engine hEngine dependency hIn
    have hWf := Sharing.wellFounded_of_acyclic _ hClosed fun name _ => hAcyclic name
    have hEngines : WellFounded fun b a : EngineDescriptor =>
        a ∈ descriptors ∧ b ∈ descriptors ∧ b.name ∈ a.dependencies := by
      refine Subrelation.wf ?_ (InvImage.wf name hWf)
      rintro b a ⟨ha, -, hIn⟩
      exact ⟨mem_map_of_mem ha, a, ha, rfl, hIn⟩
    obtain ⟨layers, hLayers⟩ := Layering.exists_kahn descriptors hEngines descriptors.length []
      descriptors le_rfl (fun _ h => h) fun engine hEngine dependency hIn =>
        .inr (mem_map.mp (hKnown engine hEngine dependency hIn))
    unfold topologicalLayers
    rw [hLayers]
    exact ⟨layers, rfl⟩

/-! ## Transitive dependencies -/

omit hUnique in
def IsResolved (descriptors : List EngineDescriptor) (resolved : Resolved) : Prop :=
  ∀ name found, resolved.get? name = some found →
    ∀ other, other ∈ found ↔ Relation.TransGen (NeedsEngine descriptors) name other

theorem transGen_iff_of_dependencies {engine : EngineDescriptor} (hEngine : engine ∈ descriptors)
    {other : Text} :
    Relation.TransGen (NeedsEngine descriptors) engine.name other ↔
      ∃ dependency ∈ engine.dependencies, other = dependency ∨
        Relation.TransGen (NeedsEngine descriptors) dependency other := by
  rw [Relation.TransGen.head'_iff]
  simp only [needsEngine_iff hUnique hEngine, Relation.reflTransGen_iff_eq_or_transGen]

omit hUnique in
/-- What a call of `visit` returns, and what it leaves behind. -/
structure Visits (descriptors : List EngineDescriptor) (name : Text) (before : Resolved)
    (found : Finset Text) (after : Resolved) : Prop where
  reached : ∀ other, other ∈ found ↔ Relation.TransGen (NeedsEngine descriptors) name other
  resolved : IsResolved descriptors after
  stored : name ∈ after.keys
  kept : ∀ other ∈ before.keys, other ∈ after.keys

omit hUnique in
theorem visitDependencies_ok {fuel : ℕ} {dependencies : List Text}
    (hVisit : ∀ dependency ∈ dependencies, ∀ resolved, IsResolved descriptors resolved →
      ∃ found after, visitEngine (enginesByName descriptors) fuel resolved dependency =
        .ok (found, after) ∧ Visits descriptors dependency resolved found after)
    (found : Finset Text) (resolved : Resolved) (hResolved : IsResolved descriptors resolved) :
    ∃ found' after, dependencies.foldlM (fun state dependency => do
        let (more, resolved) ← visitEngine (enginesByName descriptors) fuel state.2 dependency
        return (insert dependency state.1 ∪ more, resolved)) (found, resolved) =
          (.ok (found', after) : Result (Finset Text × Resolved)) ∧
      (∀ other, other ∈ found' ↔ other ∈ found ∨ ∃ dependency ∈ dependencies, other = dependency ∨
        Relation.TransGen (NeedsEngine descriptors) dependency other) ∧
      IsResolved descriptors after ∧ ∀ other ∈ resolved.keys, other ∈ after.keys := by
  induction dependencies generalizing found resolved with
  | nil => exact ⟨found, resolved, rfl, by simp, hResolved, fun _ h => h⟩
  | cons dependency rest ih =>
    rw [forall_mem_cons] at hVisit
    obtain ⟨more, next, hHead, hVisits⟩ := hVisit.1 resolved hResolved
    obtain ⟨found', after, hTail, hFound, hAfter, hKept⟩ :=
      ih hVisit.2 (insert dependency found ∪ more) next hVisits.resolved
    refine ⟨found', after, foldlM_cons_eq_ok.mpr ⟨_, step hHead rfl, hTail⟩,
      fun other => ?_, hAfter, fun other hOther => hKept other (hVisits.kept other hOther)⟩
    rw [hFound, Finset.mem_union, Finset.mem_insert, hVisits.reached]
    simp only [mem_cons, exists_eq_or_imp]
    rw [or_comm (a := other = dependency) (b := other ∈ found)]
    simp only [or_assoc]

theorem visitEngine_ok (hKnown : AreKnown descriptors)
    {rank : Text → ℕ} (hRank : ∀ name dependency, NeedsEngine descriptors name dependency →
      rank dependency < rank name) (fuel : ℕ) {name : Text} (hName : name ∈ descriptors.map (·.name))
    (hFuel : rank name < fuel) (resolved : Resolved) (hResolved : IsResolved descriptors resolved) :
    ∃ found after, visitEngine (enginesByName descriptors) fuel resolved name = .ok (found, after) ∧
      Visits descriptors name resolved found after := by
  induction fuel generalizing name resolved with
  | zero => omega
  | succ fuel ih =>
    rw [visitEngine]
    cases hGet : resolved.get? name with
    | some cached =>
      have hStored : name ∈ resolved.keys := by
        by_contra hNot
        cases hGet.symm.trans ((get?_eq_none_iff _ _).mpr hNot)
      exact ⟨cached, resolved, rfl, hResolved name cached hGet, hResolved, hStored, fun _ h => h⟩
    | none =>
      obtain ⟨engine, hEngine, rfl⟩ := mem_map.mp hName
      have hDependencies : dependenciesOf (enginesByName descriptors) engine.name =
          .ok engine.dependencies := by
        unfold dependenciesOf
        rw [(mem_enginesByName hUnique).mpr ⟨hEngine, rfl⟩]
      have hLess (dependency : Text) (hIn : dependency ∈ engine.dependencies) : rank dependency < fuel := by
        have hDrop := hRank _ _ ((needsEngine_iff hUnique hEngine).mpr hIn)
        omega
      obtain ⟨found, after, hLoop, hFound, hAfter, hKept⟩ := visitDependencies_ok
        (fun dependency hIn => ih (hKnown engine hEngine dependency hIn) (hLess dependency hIn)) ∅
        resolved hResolved
      have hReached (other : Text) :
          other ∈ found ↔ Relation.TransGen (NeedsEngine descriptors) engine.name other := by
        rw [hFound, transGen_iff_of_dependencies hUnique hEngine]
        simp
      refine ⟨found, after.set engine.name found,
        step hDependencies (step hLoop rfl), hReached, ?_, ?_, ?_⟩
      · intro name stored hStored
        rw [get?_set] at hStored
        split at hStored
        · rename_i hSame
          cases hStored
          exact hSame ▸ hReached
        · exact hAfter name stored hStored
      · exact (mem_keys_set _ _ _ _).mpr (.inl rfl)
      · exact fun other hOther => (mem_keys_set _ _ _ _).mpr (.inr (hKept other hOther))

theorem transitiveDependencies_ok (hKnown : AreKnown descriptors) {layers : List (List EngineDescriptor)}
    (hLayers : topologicalLayers descriptors = .ok layers) :
    ∃ resolved, transitiveDependencies (enginesByName descriptors) = .ok resolved ∧
      IsResolved descriptors resolved ∧ ∀ name ∈ descriptors.map (·.name), name ∈ resolved.keys := by
  obtain ⟨rank, hRank, hBound⟩ := exists_rank hUnique hLayers
  have hLength : (enginesByName descriptors).length = descriptors.length :=
    length_enginesByName_iff.mpr hUnique
  have hLoop (names : List Text) (hNames : ∀ name ∈ names, name ∈ descriptors.map (·.name))
      (resolved : Resolved) (hResolved : IsResolved descriptors resolved) :
      ∃ after, names.foldlM (fun resolved name => do
          let (_, resolved) ← visitEngine (enginesByName descriptors)
            ((enginesByName descriptors).length + 1) resolved name
          return resolved) resolved = (.ok after : Result Resolved) ∧ IsResolved descriptors after ∧
        (∀ other ∈ resolved.keys, other ∈ after.keys) ∧ ∀ name ∈ names, name ∈ after.keys := by
    induction names generalizing resolved with
    | nil => exact ⟨resolved, rfl, hResolved, fun _ h => h, nofun⟩
    | cons name rest ih =>
      rw [forall_mem_cons] at hNames
      have hFuel : rank name < (enginesByName descriptors).length + 1 := by
        have hLess := hBound name hNames.1
        omega
      obtain ⟨found, next, hHead, hVisits⟩ :=
        visitEngine_ok hUnique hKnown hRank _ hNames.1 hFuel resolved hResolved
      obtain ⟨after, hTail, hAfter, hKept, hStored⟩ := ih hNames.2 next hVisits.resolved
      refine ⟨after, foldlM_cons_eq_ok.mpr ⟨next, step hHead rfl, hTail⟩, hAfter,
        fun other hOther => hKept other (hVisits.kept other hOther), ?_⟩
      exact forall_mem_cons.mpr ⟨hKept name hVisits.stored, hStored⟩
  have hKeys : (enginesByName descriptors).keys = descriptors.map (·.name) := by
    rw [enginesByName_eq hUnique, keys_namedEngines]
  obtain ⟨resolved, hOk, hResolved, -, hStored⟩ :=
    hLoop (descriptors.map (·.name)) (fun _ h => h) [] nofun
  unfold transitiveDependencies
  rw [hKeys]
  exact ⟨resolved, hOk, hResolved, hStored⟩

end

theorem get?_claims (hNodup : (claims descriptors).keys.Nodup) {artifact producer : Text} :
    (claims descriptors).get? artifact = some producer ↔
      ∃ engine ∈ descriptors, artifact ∈ engine.val.produces ∧ engine.name = producer := by
  have hMem : (artifact, producer) ∈ claims descriptors ↔
      ∃ engine ∈ descriptors, artifact ∈ engine.val.produces ∧ engine.name = producer := by
    simp [claims, mem_flatMap]
  rw [← hMem]
  exact ⟨mem_of_get?, get?_of_mem hNodup⟩

theorem checkConsumed_eq_ok (hNodup : (claims descriptors).keys.Nodup) {resolved : Resolved}
    (hResolved : IsResolved descriptors resolved)
    (hStored : ∀ name ∈ descriptors.map (·.name), name ∈ resolved.keys) {engine : EngineDescriptor}
    (hEngine : engine ∈ descriptors) {artifact : Text} :
    checkConsumed (claims descriptors) resolved engine artifact = .ok () ↔
      artifact ∈ contextArtifacts ∨ ∃ producer ∈ descriptors, artifact ∈ producer.val.produces ∧
        Relation.TransGen (NeedsEngine descriptors) engine.name producer.name := by
  unfold checkConsumed
  split
  · exact iff_of_true rfl (.inl ‹_›)
  rename_i hContext
  rw [or_iff_right hContext]
  cases hProducer : (claims descriptors).get? artifact with
  | none =>
    refine ⟨by simp, ?_⟩
    rintro ⟨producer, hMem, hIn, -⟩
    cases hProducer.symm.trans ((get?_claims hNodup).mpr ⟨producer, hMem, hIn, rfl⟩)
  | some name =>
    cases hFound : resolved.get? engine.name with
    | none =>
      exact absurd (hStored engine.name (mem_map_of_mem hEngine))
        ((get?_eq_none_iff _ _).mp hFound)
    | some found =>
      have hReached := hResolved engine.name found hFound
      simp only
      constructor
      · intro h
        split at h
        · rename_i hReaches
          obtain ⟨producer, hMem, hIn, rfl⟩ := (get?_claims hNodup).mp hProducer
          exact ⟨producer, hMem, hIn, (hReached _).mp hReaches⟩
        · cases h
      · rintro ⟨producer, hMem, hIn, hReaches⟩
        obtain rfl : name = producer.name := Option.some.inj
          (hProducer.symm.trans ((get?_claims hNodup).mpr ⟨producer, hMem, hIn, rfl⟩))
        rw [if_pos ((hReached _).mpr hReaches)]

theorem validateEngineDescriptors_eq_ok {accepted : List EngineDescriptor} :
    validateEngineDescriptors descriptors = .ok accepted ↔
      accepted = descriptors ∧ descriptors ≠ [] ∧ IsPipeline descriptors := by
  unfold validateEngineDescriptors
  split
  · rename_i hEmpty
    exact iff_of_false nofun fun h => h.2.1 hEmpty
  rename_i hNonempty
  dsimp only
  split
  · rename_i hLength
    exact iff_of_false nofun fun h => hLength (length_enginesByName_iff.mpr h.2.2.unique)
  rename_i hLength
  have hUnique := length_enginesByName_iff.mp (not_not.mp hLength)
  have hNone : (Dict.keys ([] : Dict Text Text)).Nodup := nodup_nil
  constructor
  · intro h
    obtain ⟨producers, hChecked, h⟩ := bind_eq_ok.mp h
    obtain ⟨hSuppliers, hNodup, rfl⟩ := (checkDescriptors_eq_ok hUnique hNone).mp hChecked
    obtain ⟨layers, hLayers, h⟩ := bind_eq_ok.mp h
    obtain ⟨resolved, hTransitive, h⟩ := bind_eq_ok.mp h
    obtain ⟨hConsumed, h⟩ := seq_eq_ok.mp h
    obtain rfl : descriptors = accepted := Except.ok.inj h
    have hKnown : AreKnown descriptors := fun engine hEngine dependency hIn => by
      obtain ⟨supplier, hSupplier, rfl, -⟩ := hSuppliers engine hEngine dependency hIn
      exact mem_map_of_mem hSupplier
    obtain ⟨resolved', hTransitive', hResolved, hStored⟩ :=
      transitiveDependencies_ok hUnique hKnown hLayers
    cases hTransitive.symm.trans hTransitive'
    refine ⟨rfl, hNonempty, hUnique, hSuppliers, (nodup_produces_iff hUnique).mp hNodup,
      (exists_topologicalLayers_iff hUnique hKnown).mp ⟨layers, hLayers⟩, ?_⟩
    intro engine hEngine artifact hIn
    have hArtifact := forM_eq_ok.mp (forM_eq_ok.mp hConsumed engine hEngine) artifact hIn
    exact (checkConsumed_eq_ok ((keys_claims _).symm ▸ hNodup) hResolved hStored hEngine).mp hArtifact
  · rintro ⟨rfl, -, hPipeline⟩
    have hNodup := (nodup_produces_iff hUnique).mpr hPipeline.produced
    have hKnown : AreKnown accepted := fun engine hEngine dependency hIn => by
      obtain ⟨supplier, hSupplier, rfl, -⟩ := hPipeline.available engine hEngine dependency hIn
      exact mem_map_of_mem hSupplier
    obtain ⟨layers, hLayers⟩ := (exists_topologicalLayers_iff hUnique hKnown).mpr hPipeline.acyclic
    obtain ⟨resolved, hTransitive, hResolved, hStored⟩ :=
      transitiveDependencies_ok hUnique hKnown hLayers
    have hChecked := (checkDescriptors_eq_ok hUnique hNone).mpr
      ⟨hPipeline.available, hNodup, rfl⟩
    refine step hChecked (step hLayers (step hTransitive
      (seq_eq_ok.mpr ⟨forM_eq_ok.mpr fun engine hEngine => ?_, rfl⟩)))
    refine forM_eq_ok.mpr fun artifact hIn => ?_
    exact (checkConsumed_eq_ok ((keys_claims _).symm ▸ hNodup) hResolved hStored hEngine).mpr
      (hPipeline.consumed engine hEngine artifact hIn)

theorem exists_validateEngineDescriptors_iff :
    (∃ accepted, validateEngineDescriptors descriptors = .ok accepted) ↔
      descriptors ≠ [] ∧ IsPipeline descriptors :=
  ⟨fun ⟨_, h⟩ => (validateEngineDescriptors_eq_ok.mp h).2,
    fun h => ⟨descriptors, validateEngineDescriptors_eq_ok.mpr ⟨rfl, h⟩⟩⟩

/-- Nothing is wrong with an empty definition, but it is refused. -/
theorem not_accepts_empty : ¬((∃ accepted, validateEngineDescriptors [] = .ok accepted) ↔ IsPipeline []) := by
  have hPipeline : IsPipeline [] := by
    refine ⟨nodup_nil, nofun, nofun, fun name hCycle => ?_, nofun⟩
    obtain ⟨other, ⟨engine, hEngine, -⟩, -⟩ := Relation.TransGen.head'_iff.mp hCycle
    cases hEngine
  intro h
  obtain ⟨accepted, hOk⟩ := h.mpr hPipeline
  cases hOk

end Ici
