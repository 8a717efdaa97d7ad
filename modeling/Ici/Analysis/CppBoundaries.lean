import Mathlib.Data.Prod.Lex
import Ici.Library.Decimals
import Ici.Library.Matching

/-! # Function boundaries over all configurations

Each configuration that compiles a file tells where it sees functions begin and end. A function is reported where
all of them tell the same. -/

namespace Ici.CppBoundaries

open List Python Matching Dict Subtype

structure CppFunctionConfigurationMetric where
  configuration : Text
  lines : ℕ
  statements : ℕ
  parameters : ℕ
  deriving DecidableEq

def CppFunctionConfigurationMetric.sizes (metric : CppFunctionConfigurationMetric) : ℕ × ℕ × ℕ :=
  (metric.lines, metric.statements, metric.parameters)

def CppFunctionConfigurationMetric.order (metric : CppFunctionConfigurationMetric) : Text ×ₗ ℕ ×ₗ ℕ ×ₗ ℕ :=
  toLex (metric.configuration, toLex (metric.lines, toLex (metric.statements, metric.parameters)))

/-- Where a function stands, and how it is written there. -/
structure Shape where
  filePath : Text
  startLine : ℕ
  startColumn : Option ℕ
  endLine : ℕ
  endColumn : Option ℕ
  bodyStartLine : ℕ
  bodyStartColumn : ℕ
  name : Text
  functionKind : Text
  isTemplate : Bool
  origin : Text
  deriving DecidableEq

structure CppFunctionBoundary extends Shape where
  lines : ℕ
  statements : ℕ
  parameters : ℕ
  configurations : List Text
  configurationMetrics : List CppFunctionConfigurationMetric
  metricVariant : Bool
  preprocessorConditional : Bool
  deriving DecidableEq

abbrev Position := Text × ℕ × Option ℕ

def CppFunctionBoundary.position (boundary : CppFunctionBoundary) : Position :=
  (boundary.filePath, boundary.startLine, boundary.startColumn)

/-- What `replace` gives for a boundary seen again. -/
def CppFunctionBoundary.absorb (existing boundary : CppFunctionBoundary) : CppFunctionBoundary :=
  let metrics := sorted (·.order) (existing.configurationMetrics ++ boundary.configurationMetrics).dedup
  { existing with
    lines := max existing.lines boundary.lines
    statements := max existing.statements boundary.statements
    parameters := max existing.parameters boundary.parameters
    configurations := sorted id (existing.configurations ++ boundary.configurations).dedup
    configurationMetrics := metrics
    metricVariant := existing.metricVariant || boundary.metricVariant || 1 < (metrics.map (·.sizes)).dedup.length
    preprocessorConditional := existing.preprocessorConditional || boundary.preprocessorConditional }

structure Merging where
  grouped : Dict Position CppFunctionBoundary
  rejected : List Position
  warningKeys : List (Text × Text × ℕ)
  warnings : List Text

open Merging

def Merging.warn (kind message : Text) (s : Merging) (boundary : CppFunctionBoundary) : Merging :=
  let key := (kind, boundary.filePath, boundary.startLine)
  if key ∈ s.warningKeys then s
  else
    { s with
      warningKeys := key :: s.warningKeys
      warnings := s.warnings ++ [message ++ py ": " ++ boundary.filePath ++ py ":" ++ natDigits boundary.startLine] }

def notPromoted : Text := py "configuration-dependent function boundary was not promoted"

def Merging.add (s : Merging) (boundary : CppFunctionBoundary) : Merging :=
  let key := boundary.position
  if key ∈ s.rejected then s
  else match s.grouped.get? key with
    | none => { s with grouped := s.grouped.set key boundary }
    | some existing =>
      if existing.toShape ≠ boundary.toShape then
        let warned := s.warn (py "scope") notPromoted boundary
        { warned with grouped := warned.grouped.filter (·.1 ≠ key), rejected := key :: warned.rejected }
      else
        let merged := existing.absorb boundary
        let warned := if merged.metricVariant then
            s.warn (py "metric") (py "configuration-dependent function metrics remain estimated") boundary
          else s
        { warned with grouped := warned.grouped.set key merged }

/-- A file without recorded configurations, as every header is, asks for none. -/
def covered (successful : Dict Text (Finset Text)) (boundary : CppFunctionBoundary) : Bool :=
  match successful.get? boundary.filePath with
  | none => true
  | some expected => boundary.configurations.toFinset = expected

def sortKey (boundary : CppFunctionBoundary) : Text ×ₗ ℕ ×ₗ ℕ ×ₗ Text :=
  toLex (boundary.filePath, toLex (boundary.startLine, toLex (boundary.startColumn.getD 0, boundary.name)))

def mergeBoundaries (boundaries : List CppFunctionBoundary) (successful : Dict Text (Finset Text)) :
    List CppFunctionBoundary × List Text :=
  let s := boundaries.foldl add ⟨[], [], [], []⟩
  let kept := s.grouped.values.filter (covered successful)
  let dropped := (s.grouped.values.filter (!covered successful ·)).foldl (warn (py "coverage") notPromoted) s
  let estimated := (kept.filter (·.preprocessorConditional)).foldl
    (warn (py "preprocessor") (py "preprocessor-dependent function metrics remain estimated")) dropped
  (sorted sortKey kept, estimated.warnings)

/-! ## What is observed -/

/-- What one configuration tells of a function. -/
structure IsObservation (boundary : CppFunctionBoundary) : Prop where
  configurations : ∃ configuration, boundary.configurations = [configuration] ∧
    boundary.configurationMetrics = [⟨configuration, boundary.lines, boundary.statements, boundary.parameters⟩]
  metricVariant : boundary.metricVariant = false
  column : boundary.startColumn ≠ some 0

abbrev Observation := {boundary : CppFunctionBoundary // IsObservation boundary}

def IsLargest (size : CppFunctionBoundary → ℕ) (group : List CppFunctionBoundary) (n : ℕ) : Prop :=
  IsGreatest {n | ∃ boundary ∈ group, size boundary = n} n

/-- One boundary for all of a group. -/
structure IsMerged (group : List CppFunctionBoundary) (merged : CppFunctionBoundary) : Prop where
  shape : ∀ boundary ∈ group, boundary.toShape = merged.toShape
  lines : IsLargest (·.lines) group merged.lines
  statements : IsLargest (·.statements) group merged.statements
  parameters : IsLargest (·.parameters) group merged.parameters
  configurations : ∀ name, name ∈ merged.configurations ↔ ∃ boundary ∈ group, name ∈ boundary.configurations
  configurations_sorted : merged.configurations.Pairwise (· < ·)
  metrics : ∀ metric, metric ∈ merged.configurationMetrics ↔
    ∃ boundary ∈ group, metric ∈ boundary.configurationMetrics
  metrics_sorted : merged.configurationMetrics.Pairwise (·.order < ·.order)
  metricVariant : merged.metricVariant = true ↔
    ∃ metric ∈ merged.configurationMetrics, ∃ other ∈ merged.configurationMetrics, metric.sizes ≠ other.sizes
  conditional : merged.preprocessorConditional = true ↔
    ∃ boundary ∈ group, boundary.preprocessorConditional = true

variable {group : List CppFunctionBoundary} {merged boundary : CppFunctionBoundary}

variable {α κ : Type*} [LinearOrder κ]

theorem mem_sorted (key : α → κ) {l : List α} {a : α} : a ∈ sorted key l ↔ a ∈ l :=
  (sorted_perm key l).mem_iff

theorem sorted_lt [DecidableEq α] {key : α → κ} (hKey : Function.Injective key)
    (l : List α) : (sorted key l.dedup).Pairwise (key · < key ·) :=
  ((pairwise_sorted key _).and ((sorted_perm key _).nodup_iff.mpr l.nodup_dedup)).imp
    fun ⟨hLe, hNe⟩ => lt_of_le_of_ne hLe (hKey.ne hNe)

theorem order_injective : Function.Injective CppFunctionConfigurationMetric.order := fun metric other h => by
  cases metric
  cases other
  simpa [CppFunctionConfigurationMetric.order] using h

theorem one_lt_length_dedup {α : Type*} [DecidableEq α] {l : List α} :
    1 < l.dedup.length ↔ ∃ a ∈ l, ∃ b ∈ l, a ≠ b := by
  rw [← toFinset_card_of_nodup l.nodup_dedup, Finset.one_lt_card_iff]
  simp

theorem isMerged_singleton (h : IsObservation boundary) : IsMerged [boundary] boundary := by
  obtain ⟨⟨configuration, hConfigurations, hMetrics⟩, hVariant, -⟩ := h
  have hLargest (size : CppFunctionBoundary → ℕ) : IsLargest size [boundary] (size boundary) :=
    ⟨⟨boundary, mem_singleton_self _, rfl⟩, by rintro _ ⟨other, hOther, rfl⟩; rw [mem_singleton.mp hOther]⟩
  constructor <;> simp [hLargest, hConfigurations, hMetrics, hVariant]

theorem IsLargest.concat {size : CppFunctionBoundary → ℕ} {n : ℕ} (h : IsLargest size group n) :
    IsLargest size (group ++ [boundary]) (max n (size boundary)) := by
  obtain ⟨⟨most, hMost, rfl⟩, hUpper⟩ := h
  constructor
  · rcases le_total (size boundary) (size most) with hLe | hLe
    · exact ⟨most, mem_append_left _ hMost, (max_eq_left hLe).symm⟩
    · exact ⟨boundary, mem_append_right _ (mem_singleton_self _), (max_eq_right hLe).symm⟩
  · rintro _ ⟨other, hOther, rfl⟩
    rcases mem_append.mp hOther with hMem | hMem
    · exact le_max_of_le_left (hUpper ⟨other, hMem, rfl⟩)
    · exact mem_singleton.mp hMem ▸ le_max_right _ _

theorem IsMerged.absorb (h : IsMerged group merged) (hShape : merged.toShape = boundary.toShape)
    (hVariant : boundary.metricVariant = false) : IsMerged (group ++ [boundary]) (merged.absorb boundary) where
  shape := by
    simpa [or_imp, forall_and, CppFunctionBoundary.absorb] using ⟨h.shape, hShape.symm⟩
  lines := h.lines.concat
  statements := h.statements.concat
  parameters := h.parameters.concat
  configurations name := by
    rw [CppFunctionBoundary.absorb, mem_sorted, mem_dedup, mem_append, h.configurations]
    simp [or_and_right, exists_or]
  configurations_sorted := sorted_lt Function.injective_id _
  metrics metric := by
    rw [CppFunctionBoundary.absorb, mem_sorted, mem_dedup, mem_append, h.metrics]
    simp [or_and_right, exists_or]
  metrics_sorted := sorted_lt order_injective _
  metricVariant := by
    have hMany := one_lt_length_dedup (l := (merged.absorb boundary).configurationMetrics.map (·.sizes))
    simp only [mem_map, exists_exists_and_eq_and] at hMany
    rw [← hMany]
    refine ⟨fun hTrue => ?_, fun hSizes => by simp [CppFunctionBoundary.absorb] at hSizes ⊢; simp [hSizes]⟩
    simp only [CppFunctionBoundary.absorb, hVariant, Bool.or_false, Bool.or_eq_true, decide_eq_true_eq] at hTrue
    refine hTrue.elim (fun hBefore => ?_) id
    obtain ⟨metric, hMetric, other, hOther, hNe⟩ := h.metricVariant.mp hBefore
    have hKept {metric} (hIn : metric ∈ merged.configurationMetrics) :
        metric ∈ (merged.absorb boundary).configurationMetrics :=
      (mem_sorted _).mpr (mem_dedup.mpr (mem_append_left _ hIn))
    exact hMany.mpr ⟨metric, hKept hMetric, other, hKept hOther, hNe⟩
  conditional := by
    simp [CppFunctionBoundary.absorb, h.conditional, or_and_right, exists_or]

theorem eq_of_sorted {key : α → κ} {l l' : List α}
    (h : l.Pairwise (key · < key ·)) (h' : l'.Pairwise (key · < key ·)) (hMem : ∀ a, a ∈ l ↔ a ∈ l') : l = l' :=
  have hNe {a b : α} (hLt : key a < key b) : a ≠ b := fun hEq => (hEq ▸ hLt).false
  ((perm_ext_iff_of_nodup (h.imp hNe) (h'.imp hNe)).mpr hMem).eq_of_pairwise
    (fun _ _ _ _ hLt hGt => (lt_asymm hLt hGt).elim) h h'

theorem IsMerged.unique {merged' : CppFunctionBoundary} (hGroup : group ≠ []) (h : IsMerged group merged)
    (h' : IsMerged group merged') : merged' = merged := by
  obtain ⟨hShape', hLines', hStatements', hParameters', hNames', hNamesSorted', hMetrics', hMetricsSorted',
    hVariant', hConditional'⟩ := h'
  obtain ⟨first, hFirst⟩ := exists_mem_of_ne_nil group hGroup
  have hNames := eq_of_sorted hNamesSorted' h.configurations_sorted fun name =>
    (hNames' name).trans (h.configurations name).symm
  have hMetrics := eq_of_sorted hMetricsSorted' h.metrics_sorted fun metric =>
    (hMetrics' metric).trans (h.metrics metric).symm
  have hVariant : merged'.metricVariant = merged.metricVariant :=
    Bool.eq_iff_iff.mpr (hVariant'.trans (hMetrics ▸ h.metricVariant.symm))
  have hConditional : merged'.preprocessorConditional = merged.preprocessorConditional :=
    Bool.eq_iff_iff.mpr (hConditional'.trans h.conditional.symm)
  have hShape := (hShape' first hFirst).symm.trans (h.shape first hFirst)
  have hLines := hLines'.unique h.lines
  have hStatements := hStatements'.unique h.statements
  have hParameters := hParameters'.unique h.parameters
  cases merged
  cases merged'
  simp_all

/-! ## The merge -/

def seenAt (boundaries : List CppFunctionBoundary) (key : Position) : List CppFunctionBoundary :=
  boundaries.filter (·.position = key)

def Agrees (group : List CppFunctionBoundary) : Prop :=
  ∀ boundary ∈ group, ∀ other ∈ group, boundary.toShape = other.toShape

/-- What is kept for a position at which a group was seen. -/
structure Stands (group : List CppFunctionBoundary) (isRejected : Prop) (found : Option CppFunctionBoundary) :
    Prop where
  rejected : isRejected ↔ ¬Agrees group
  merged : ∀ merged, found = some merged → IsMerged group merged ∧ group ≠ []
  absent : found = none → Agrees group → group = []

variable {seen : List CppFunctionBoundary} {s : Merging} {key : Position}

theorem IsMerged.agrees (h : IsMerged group merged) : Agrees group := fun boundary hBoundary other hOther =>
  (h.shape boundary hBoundary).trans (h.shape other hOther).symm

@[simp] theorem grouped_warn (kind message : Text) : (s.warn kind message boundary).grouped = s.grouped := by
  unfold warn
  dsimp only
  split <;> rfl

@[simp] theorem rejected_warn (kind message : Text) : (s.warn kind message boundary).rejected = s.rejected := by
  unfold warn
  dsimp only
  split <;> rfl

theorem get?_filter_ne (d : Dict Position CppFunctionBoundary) (k : Position) :
    get? (d.filter (·.1 ≠ k)) key = if key = k then none else d.get? key := by
  induction d with
  | nil => simp
  | cons pair rest ih =>
    simp only [filter_cons]
    split <;> simp only [get?, ih] <;> grind

theorem nodup_add (h : s.grouped.keys.Nodup) : (s.add boundary).grouped.keys.Nodup := by
  unfold add
  dsimp only
  split_ifs
  · exact h
  · split
    · exact nodup_keys_set h _ _
    · split_ifs
      · exact (grouped_warn (s := s) _ _ ▸ h).sublist (filter_sublist.map _)
      · exact nodup_keys_set (grouped_warn (s := s) _ _ ▸ h) _ _
      · exact nodup_keys_set h _ _

theorem add_other (hNe : key ≠ boundary.position) : (key ∈ (s.add boundary).rejected ↔ key ∈ s.rejected) ∧
    (s.add boundary).grouped.get? key = s.grouped.get? key := by
  unfold add
  dsimp only
  split_ifs
  · exact ⟨Iff.rfl, rfl⟩
  · split
    · exact ⟨Iff.rfl, get?_set_of_ne hNe.symm _ _⟩
    · split_ifs
      · rw [get?_filter_ne, if_neg hNe, grouped_warn, mem_cons, rejected_warn]
        exact ⟨or_iff_right hNe, rfl⟩
      · simp [get?_set_of_ne hNe.symm]
      · exact ⟨Iff.rfl, get?_set_of_ne hNe.symm _ _⟩

theorem Stands.add (hBoundary : IsObservation boundary)
    (h : Stands group (boundary.position ∈ s.rejected) (s.grouped.get? boundary.position)) :
    Stands (group ++ [boundary]) (boundary.position ∈ (s.add boundary).rejected)
      ((s.add boundary).grouped.get? boundary.position) := by
  have hStill (hNot : ¬Agrees group) : ¬Agrees (group ++ [boundary]) := fun hAll =>
    hNot fun one hOne other hOther => hAll one (mem_append_left _ hOne) other (mem_append_left _ hOther)
  have hMerged {merged : CppFunctionBoundary} (hIs : IsMerged (group ++ [boundary]) merged) (isRejected : Prop)
      (hNot : ¬isRejected) : Stands (group ++ [boundary]) isRejected (some merged) :=
    ⟨iff_of_false hNot (not_not.mpr hIs.agrees), fun _ hSome => ⟨Option.some.inj hSome ▸ hIs, by simp⟩, nofun⟩
  have hRefused {isRejected : Prop} (hIs : isRejected) (hNot : ¬Agrees (group ++ [boundary])) :
      Stands (group ++ [boundary]) isRejected none :=
    ⟨iff_of_true hIs hNot, nofun, fun _ hAll => (hNot hAll).elim⟩
  unfold Merging.add
  dsimp only
  split_ifs with hRejected
  · have hNot := h.rejected.mp hRejected
    cases hFound : s.grouped.get? boundary.position with
    | none => exact hRefused hRejected (hStill hNot)
    | some merged => exact (hNot (h.merged merged hFound).1.agrees).elim
  · split
    · rename_i hNone
      rw [h.absent hNone (not_not.mp (mt h.rejected.mpr hRejected))] at hMerged ⊢
      rw [get?_set_self]
      exact hMerged (isMerged_singleton hBoundary) _ hRejected
    · rename_i existing hSome
      obtain ⟨hExisting, hGroup⟩ := h.merged existing hSome
      split_ifs with hShape hVariant
      · obtain ⟨one, hOne⟩ := exists_mem_of_ne_nil group hGroup
        rw [get?_filter_ne, if_pos rfl]
        refine hRefused mem_cons_self fun hAll => hShape ?_
        exact (hExisting.shape one hOne).symm.trans
          (hAll one (mem_append_left _ hOne) boundary (mem_append_right _ (mem_singleton_self _)))
      all_goals
        have hNext := hExisting.absorb (not_not.mp hShape) hBoundary.metricVariant
        rw [get?_set_self]
        exact hMerged hNext _ (by simpa using hRejected)

def Kept (seen : List CppFunctionBoundary) (s : Merging) : Prop :=
  s.grouped.keys.Nodup ∧ ∀ key, Stands (seenAt seen key) (key ∈ s.rejected) (s.grouped.get? key)

theorem Kept.add (h : Kept seen s) (hBoundary : IsObservation boundary) :
    Kept (seen ++ [boundary]) (s.add boundary) := by
  refine ⟨nodup_add h.1, fun key => ?_⟩
  rw [seenAt, filter_append]
  by_cases hKey : boundary.position = key
  · subst hKey
    simpa using! (h.2 boundary.position).add hBoundary
  · obtain ⟨hRejected, hFound⟩ := add_other (s := s) (Ne.symm hKey)
    simpa [hKey, hRejected, hFound] using! h.2 key

theorem Kept.foldl {later : List CppFunctionBoundary} : ∀ {seen s}, Kept seen s →
    (∀ boundary ∈ later, IsObservation boundary) → Kept (seen ++ later) (later.foldl Merging.add s) := by
  induction later with
  | nil => exact fun h _ => by simpa using h
  | cons boundary later ih =>
    intro seen s h hAll
    obtain ⟨hFirst, hRest⟩ := forall_mem_cons.mp hAll
    simpa using ih (h.add hFirst) hRest

variable {successful : Dict Text (Finset Text)}

theorem Kept.of_observed (hAll : ∀ boundary ∈ seen, IsObservation boundary) :
    Kept seen (seen.foldl Merging.add ⟨[], [], [], []⟩) := by
  have hStart : Kept [] ⟨[], [], [], []⟩ :=
    ⟨nodup_nil, fun _ => ⟨iff_of_false not_mem_nil (not_not.mpr fun _ h => nomatch h), nofun, fun _ _ => rfl⟩⟩
  exact hStart.foldl hAll

theorem IsMerged.position_eq (h : IsMerged (seenAt seen key) merged) (hSeen : seenAt seen key ≠ []) :
    merged.position = key := by
  obtain ⟨one, hOne⟩ := exists_mem_of_ne_nil _ hSeen
  rw [← of_decide_eq_true (mem_filter.mp hOne).2, CppFunctionBoundary.position, ← h.shape one hOne]
  rfl

theorem Kept.get?_iff (h : Kept seen s) : s.grouped.get? key = some merged ↔
    seenAt seen key ≠ [] ∧ IsMerged (seenAt seen key) merged := by
  constructor
  · exact fun hFound => ((h.2 key).merged merged hFound).symm
  · rintro ⟨hSeen, hIs⟩
    cases hFound : s.grouped.get? key with
    | none => exact (hSeen ((h.2 key).absent hFound hIs.agrees)).elim
    | some found => rw [((h.2 key).merged found hFound).1.unique hSeen hIs]

theorem mem_mergeBoundaries_iff (hAll : ∀ boundary ∈ seen, IsObservation boundary) :
    merged ∈ (mergeBoundaries seen successful).1 ↔ (seenAt seen merged.position ≠ [] ∧
      IsMerged (seenAt seen merged.position) merged) ∧ covered successful merged = true := by
  have hKept := Kept.of_observed hAll
  rw [mergeBoundaries, mem_sorted, mem_filter, ← hKept.get?_iff]
  refine and_congr_left fun _ => ⟨fun hMem => ?_, fun hFound => mem_map.mpr ⟨_, mem_of_get? hFound, rfl⟩⟩
  obtain ⟨⟨key, merged⟩, hPair, rfl⟩ := mem_map.mp hMem
  have hFound := get?_of_mem hKept.1 hPair
  obtain ⟨hSeen, hIs⟩ := hKept.get?_iff.mp hFound
  rwa [hIs.position_eq hSeen]

theorem nodup_mergeBoundaries (hAll : ∀ boundary ∈ seen, IsObservation boundary) :
    (mergeBoundaries seen successful).1.Nodup := by
  have hKept := Kept.of_observed hAll
  have hKeys : (seen.foldl add ⟨[], [], [], []⟩).grouped.values.map CppFunctionBoundary.position =
      (seen.foldl add ⟨[], [], [], []⟩).grouped.keys := by
    rw [values, map_map]
    refine map_congr_left fun pair hPair => ?_
    obtain ⟨hSeen, hIs⟩ := hKept.get?_iff.mp (get?_of_mem hKept.1 hPair)
    exact hIs.position_eq hSeen
  exact (sorted_perm _ _).nodup_iff.mpr ((hKeys ▸ hKept.1).of_map.filter _)

theorem covered_iff : covered successful merged = true ↔ ∀ expected,
    successful.get? merged.filePath = some expected → ∀ name, name ∈ expected ↔ name ∈ merged.configurations := by
  unfold covered
  cases successful.get? merged.filePath with
  | none => simp
  | some expected =>
    simp only [Option.some.injEq, forall_eq']
    simp only [decide_eq_true_eq, Finset.ext_iff, mem_toFinset]
    exact forall_congr' fun _ => iff_comm

theorem IsMerged.of_perm {group' : List CppFunctionBoundary} (hPerm : group'.Perm group)
    (h : IsMerged group merged) : IsMerged group' merged := by
  obtain ⟨⟩ := h
  constructor <;> simpa only [IsLargest, hPerm.mem_iff]

theorem position_injective {a b : CppFunctionBoundary} (ha : a.startColumn ≠ some 0)
    (hb : b.startColumn ≠ some 0)
    (h : sortKey a = sortKey b) : a.position = b.position := by
  simp only [sortKey, toLex_inj, Prod.mk.injEq] at h
  obtain ⟨hFile, hLine, hColumn, -⟩ := h
  simp only [CppFunctionBoundary.position, hFile, hLine, Prod.mk.injEq, true_and]
  cases hA : a.startColumn <;> cases hB : b.startColumn <;> simp_all

theorem mergeBoundaries_perm {seen' : List CppFunctionBoundary} (hPerm : seen'.Perm seen)
    (hAll : ∀ boundary ∈ seen, IsObservation boundary) :
    (mergeBoundaries seen' successful).1 = (mergeBoundaries seen successful).1 := by
  have hAll' : ∀ boundary ∈ seen', IsObservation boundary := fun boundary hIn => hAll boundary (hPerm.subset hIn)
  have hSame (merged) : merged ∈ (mergeBoundaries seen' successful).1 ↔ merged ∈ (mergeBoundaries seen successful).1 := by
    have hSeen : (seenAt seen' merged.position).Perm (seenAt seen merged.position) := hPerm.filter _
    rw [mem_mergeBoundaries_iff hAll', mem_mergeBoundaries_iff hAll, ← length_pos_iff, ← length_pos_iff,
      hSeen.length_eq]
    exact and_congr_left' (and_congr_right fun _ => ⟨IsMerged.of_perm hSeen.symm, IsMerged.of_perm hSeen⟩)
  have hColumn {merged} (hIn : merged ∈ (mergeBoundaries seen successful).1) : merged.startColumn ≠ some 0 := by
    obtain ⟨⟨hSeen, hIs⟩, -⟩ := (mem_mergeBoundaries_iff hAll).mp hIn
    obtain ⟨one, hOne⟩ := exists_mem_of_ne_nil _ hSeen
    rw [← hIs.shape one hOne]
    exact (hAll one (mem_of_mem_filter hOne)).column
  refine Perm.eq_of_pairwise (fun a b ha hb hLe hGe => ?_) (pairwise_sorted _ _) (pairwise_sorted _ _)
    ((perm_ext_iff_of_nodup (nodup_mergeBoundaries hAll') (nodup_mergeBoundaries hAll)).mpr hSame)
  rw [hSame] at ha
  have hPosition := position_injective (hColumn ha) (hColumn hb) (le_antisymm hLe hGe)
  obtain ⟨⟨-, hIsA⟩, -⟩ := (mem_mergeBoundaries_iff hAll).mp ha
  obtain ⟨⟨hSeen, hIsB⟩, -⟩ := (mem_mergeBoundaries_iff hAll).mp hb
  exact hIsB.unique hSeen (hPosition ▸ hIsA)

/-- A header has no configuration of its own, and is reported all the same. -/
def headerObservation : Observation where
  val :=
    { filePath := py "a.h", startLine := 1, startColumn := some 5, endLine := 1, endColumn := some 12
      bodyStartLine := 1, bodyStartColumn := 9, name := py "f", functionKind := py "function", isTemplate := false
      origin := py "source-spelled", lines := 1, statements := 0, parameters := 0, configurations := [py "debug"]
      configurationMetrics := [⟨py "debug", 1, 0, 0⟩], metricVariant := false, preprocessorConditional := false }
  property := ⟨⟨_, rfl, rfl⟩, rfl, by decide⟩

theorem header_reported : ∃ merged ∈ (mergeBoundaries [headerObservation.val] []).1,
    ¬∀ name, name ∈ merged.configurations ↔
      ∃ expected : Finset Text, get? [] merged.filePath = some expected ∧ name ∈ expected :=
  ⟨headerObservation.val, by decide, fun h => by simpa using (h (py "debug")).mp (by decide)⟩

theorem boundaries_merge (observations : List Observation) (successful : Dict Text (Finset Text)) :
    (∀ other : List Observation, other.Perm observations →
      (mergeBoundaries (other.map val) successful).1 =
        (mergeBoundaries (observations.map val) successful).1) ∧
    (∀ key, (∃ merged ∈ (mergeBoundaries (observations.map val) successful).1, merged.position = key) ↔
      seenAt (observations.map val) key ≠ [] ∧ Agrees (seenAt (observations.map val) key) ∧
        ∀ expected, successful.get? key.1 = some expected → ∀ name, name ∈ expected ↔
          ∃ boundary ∈ seenAt (observations.map val) key, name ∈ boundary.configurations) ∧
    ∀ merged ∈ (mergeBoundaries (observations.map val) successful).1,
      IsMerged (seenAt (observations.map val) merged.position) merged := by
  have hAll : ∀ boundary ∈ observations.map val, IsObservation boundary := by
    rintro _ hIn
    obtain ⟨observation, -, rfl⟩ := mem_map.mp hIn
    exact observation.property
  refine ⟨fun other hPerm => mergeBoundaries_perm (hPerm.map _) hAll, fun key => ⟨?_, ?_⟩, fun merged hIn =>
    ((mem_mergeBoundaries_iff hAll).mp hIn).1.2⟩
  · rintro ⟨merged, hIn, rfl⟩
    obtain ⟨⟨hSeen, hIs⟩, hCovered⟩ := (mem_mergeBoundaries_iff hAll).mp hIn
    refine ⟨hSeen, hIs.agrees, fun expected hExpected name => ?_⟩
    rw [covered_iff.mp hCovered expected hExpected, hIs.configurations]
  · rintro ⟨hSeen, hAgrees, hCovered⟩
    have hKept := Kept.of_observed hAll
    cases hFound : get? (foldl add ⟨[], [], [], []⟩ (observations.map val)).grouped key with
    | none => exact (hSeen ((hKept.2 key).absent hFound hAgrees)).elim
    | some merged =>
      obtain ⟨-, hIs⟩ := hKept.get?_iff.mp hFound
      have hKey := hIs.position_eq hSeen
      refine ⟨merged, (mem_mergeBoundaries_iff hAll).mpr ⟨by rw [hKey]; exact ⟨hSeen, hIs⟩, ?_⟩, hKey⟩
      refine covered_iff.mpr fun expected hExpected name => ?_
      rw [hIs.configurations, hCovered expected (hKey ▸ hExpected)]

end Ici.CppBoundaries
