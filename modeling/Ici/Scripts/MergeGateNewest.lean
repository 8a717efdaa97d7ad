import Ici.Scripts.MergeGatePages

/-! # Only the newest exact Merge Gate is selected

What a listing of pages has to be, which entry of it is meant, and that nothing else is returned. -/

namespace Ici

open List Raising Python Json

/-- Pages that hold together all entries they count, each under its own id. -/
structure IsListing (pages : List Json) (parts : List (List CheckRun)) : Prop where
  held : List.Forall₂ (IsPage parts.flatten.length) pages parts
  small : ∀ part ∈ parts, part.length ≤ maxCheckRunsPerPage
  runs : ∀ entry ∈ parts.flatten, IsCheckRun entry
  distinct : (parts.flatten.map checkRunId).Nodup
  count : (pages.length : ℤ) = pageCount parts.flatten.length
  few : pages.length ≤ maxCheckRunPages

theorem one_le_pageCount (total : ℤ) : 1 ≤ pageCount total := le_max_left _ _

variable {pages pages' : List Json} {entries : List CheckRun} {targetSha repository : Text}
  {selection : MergeGateSelection} {parts : List (List CheckRun)}

theorem flattenPages_eq_ok_iff : flattenPages pages = .ok entries ↔
      (1 ≤ pages.length ∧ pages.length ≤ maxCheckRunPages) ∧
        ∃ parts, List.Forall₂ (IsPage parts.flatten.length) pages parts ∧
          (∀ part ∈ parts, part.length ≤ maxCheckRunsPerPage) ∧
            ((∀ entry ∈ parts.flatten, IsCheckRun entry) ∧ (parts.flatten.map checkRunId).Nodup) ∧
              entries = parts.flatten := by
  have hTakes {total : ℤ} {all : List CheckRun} : ({ expectedTotal := some total } : Flattening).Takes all ↔
      (∀ entry ∈ all, IsCheckRun entry) ∧ (all.map checkRunId).Nodup :=
    ⟨fun h => ⟨h.runs, h.distinct⟩, fun h => ⟨h.1, h.2, fun _ _ => not_mem_nil⟩⟩
  unfold flattenPages
  by_cases hCount : 1 ≤ pages.length ∧ pages.length ≤ maxCheckRunPages
  · rw [if_neg (not_not.mpr hCount), and_iff_right hCount]
    constructor
    · intro h
      obtain ⟨found, hFound, h⟩ := bind_eq_ok.mp h
      cases pages with
      | nil => exact absurd hCount.1 (by decide)
      | cons page pages =>
        rw [zipIdx_cons, foldlM_cons_eq_ok] at hFound
        obtain ⟨middle, hPage, hRest⟩ := hFound
        obtain ⟨total, part, hPart, hTotal, hLength, -, hOwn, rfl⟩ := addCheckPage_eq_ok_iff.mp hPage
        obtain ⟨parts, hPages, hLengths, hOthers, rfl⟩ := (addCheckPages_eq_ok_iff hTotal rfl).mp hRest
        have hAll : (part :: parts).flatten = part ++ parts.flatten := flatten_cons
        split at h
        · rename_i hComplete
          obtain rfl : total = ((part :: parts).flatten.length : ℤ) := by
            rw [hAll]
            exact Option.some_inj.mp hComplete
          refine ⟨part :: parts, .cons hPart hPages, forall_mem_cons.mpr ⟨hLength, hLengths⟩, ?_, ?_⟩
          · exact hTakes.mp (Flattening.takes_append_iff.mpr ⟨⟨hOwn.runs, hOwn.distinct, hOwn.new⟩,
              ⟨hOthers.runs, hOthers.distinct, hOthers.new⟩⟩)
          · exact (Except.ok.inj h).symm
        · obtain ⟨_, -, h⟩ := bind_eq_ok.mp h
          cases h
    · rintro ⟨parts, hPages, hLengths, hRuns, rfl⟩
      refine step (a := ({ expectedTotal := some (parts.flatten.length : ℤ) }
        : Flattening).add parts.flatten)
        ?_ (if_pos rfl)
      cases hPages with
      | nil => exact absurd hCount.1 (by decide)
      | @cons page part pages parts hPart hPages =>
        obtain ⟨hLength, hLengths⟩ := forall_mem_cons.mp hLengths
        obtain ⟨hOwn, hOthers⟩ := Flattening.takes_append_iff.mp (hTakes.mpr hRuns)
        rw [zipIdx_cons, foldlM_cons_eq_ok]
        refine ⟨_, addCheckPage_eq_ok_iff.mpr ⟨_, part, hPart, Int.natCast_nonneg _, hLength,
          fun _ h => absurd h (Option.not_mem_none _), ⟨hOwn.runs, hOwn.distinct, hOwn.new⟩, rfl⟩, ?_⟩
        exact (addCheckPages_eq_ok_iff (Int.natCast_nonneg _) rfl).mpr ⟨parts, hPages, hLengths,
          ⟨hOthers.runs, hOthers.distinct, hOthers.new⟩, by simp [Flattening.add]⟩
  · rw [if_pos hCount]
    exact iff_of_false (by simp) fun h => hCount h.1

/-! ## The entry that is meant -/

/-- The newest exact Merge Gate of the entries: completed, successful and at its canonical address. -/
structure IsSelected (targetSha repository : Text) (entries : List CheckRun) (selection : MergeGateSelection) :
    Prop where
  newest : ∃ entry ∈ entries, isMergeGate targetSha entry = true ∧
    (∀ other ∈ entries, isMergeGate targetSha other = true → checkRunId other ≤ checkRunId entry) ∧
      selection.checkRunId = checkRunId entry ∧ getValue entry (py "status") = .str (py "completed") ∧
        getValue entry (py "conclusion") = .str (py "success") ∧
          getValue entry (py "details_url") = .str selection.detailsUrl
  run : IsGithubId selection.workflowRunId
  job : IsGithubId selection.workflowJobId
  address : selection.detailsUrl = canonicalUrl repository selection.workflowRunId selection.workflowJobId

theorem isText_eq_true_iff {value : Json} {wanted : Text} : isText value wanted = true ↔ value =
    .str wanted := by
  unfold isText
  split
  · rename_i t
    rw [beq_iff_eq, str.injEq]
  · rename_i hOther
    exact iff_of_false Bool.false_ne_true fun h => hOther wanted h

theorem mapM_checkRunId (hRuns : ∀ entry ∈ entries, IsCheckRun entry) :
    ((entries.filter (isMergeGate targetSha)).mapM fun entry =>
      (positiveId (getValue entry (py "id")) (py "check-run ID")).map fun id => (id, entry)) =
        .ok ((entries.filter (isMergeGate targetSha)).map fun entry => (checkRunId entry, entry)) := by
  rw [mapM_eq_ok, forall₂_map_right_iff, forall₂_same]
  intro entry hEntry
  rw [positiveId_entry_iff.mpr ⟨hRuns entry (mem_of_mem_filter hEntry), rfl⟩]
  rfl

theorem maxOn_checkRunId_eq_some_iff (hDistinct : (entries.map checkRunId).Nodup)
    {id : ℤ} {entry : CheckRun} :
    (entries.map fun entry => (checkRunId entry, entry)).maxOn? Prod.fst = some (id, entry) ↔
      entry ∈ entries ∧ id = checkRunId entry ∧ ∀ other ∈ entries, checkRunId other ≤ checkRunId entry := by
  have hMem {pair : ℤ × CheckRun} : pair ∈ entries.map (fun entry => (checkRunId entry, entry)) ↔
      pair.2 ∈ entries ∧ pair.1 = checkRunId pair.2 := by
    rw [mem_map]
    constructor
    · rintro ⟨entry, hEntry, rfl⟩
      exact ⟨hEntry, rfl⟩
    · rintro ⟨hEntry, hId⟩
      exact ⟨pair.2, hEntry, Prod.ext hId.symm rfl⟩
  have hGreatest {pair other : ℤ × CheckRun}
      (hMax : (entries.map fun entry => (checkRunId entry, entry)).maxOn? Prod.fst = some pair)
      (hOther : other ∈ entries.map fun entry => (checkRunId entry, entry)) : other.1 ≤ pair.1 := by
    have hLe := List.le_apply_get_maxOn?_of_mem (f := Prod.fst) hOther
    simp only [hMax, Option.get_some] at hLe
    exact hLe
  constructor
  · intro hMax
    obtain ⟨hEntry, hId⟩ := hMem.mp (List.maxOn?_mem hMax)
    obtain rfl : id = checkRunId entry := hId
    exact ⟨hEntry, rfl, fun other hOther => 
      (hGreatest hMax (hMem.mpr ⟨hOther, rfl⟩) : (checkRunId other, other).1 ≤ checkRunId entry)⟩
  · rintro ⟨hEntry, rfl, hAll⟩
    have hIn : (checkRunId entry, entry) ∈ entries.map fun entry => (checkRunId entry, entry) :=
      hMem.mpr ⟨hEntry, rfl⟩
    obtain ⟨pair, hMax⟩ := Option.isSome_iff_exists.mp (List.isSome_maxOn?_of_mem (f := Prod.fst) hIn)
    obtain ⟨hOther, hId⟩ := hMem.mp (List.maxOn?_mem hMax)
    have hSame : pair.2 = entry := by
      refine inj_on_of_nodup_map hDistinct hOther hEntry (le_antisymm (hAll pair.2 hOther) ?_)
      rw [← hId]
      exact hGreatest hMax hIn
    rw [hMax, show pair = (checkRunId entry, entry) from Prod.ext (by rw [hId, hSame]) hSame]

theorem selectMergeGateValue_eq_ok_iff :
    selectMergeGateValue (.arr pages) targetSha repository = .ok selection ↔
      validateSha targetSha = .ok () ∧ validateRepository repository = .ok () ∧
        ∃ entries, flattenPages pages = .ok entries ∧ IsSelected targetSha repository entries selection := by
  unfold selectMergeGateValue
  rw [seq_eq_ok, seq_eq_ok]
  refine and_congr_right fun _ => and_congr_right fun _ => ?_
  have hFlatten {entries : List CheckRun} (h : flattenPages pages = .ok entries) :
      (∀ entry ∈ entries, IsCheckRun entry) ∧ (entries.map checkRunId).Nodup := by
    obtain ⟨-, parts, -, -, hRuns, rfl⟩ := flattenPages_eq_ok_iff.mp h
    exact hRuns
  constructor
  · intro h
    obtain ⟨entries, hEntries, h⟩ := bind_eq_ok.mp h
    obtain ⟨hRuns, hDistinct⟩ := hFlatten hEntries
    rw [mapM_checkRunId hRuns] at h
    refine ⟨entries, hEntries, ?_⟩
    obtain ⟨_, hCandidates, h⟩ := bind_eq_ok.mp h
    cases hCandidates
    split at h
    · cases h
    · rename_i id entry hNewest
      obtain ⟨hIn, rfl, hGreatest⟩ := (maxOn_checkRunId_eq_some_iff
        (hDistinct.sublist (filter_sublist.map _))).mp hNewest
      obtain ⟨hEntry, hGate⟩ := mem_filter.mp hIn
      split at h
      · obtain ⟨_, -, h⟩ := bind_eq_ok.mp h
        obtain ⟨_, -, h⟩ := bind_eq_ok.mp h
        obtain ⟨_, h, -⟩ := bind_eq_ok.mp h
        cases h
      · rename_i hDone
        obtain ⟨hStatus, hConclusion⟩ := not_not.mp hDone
        obtain ⟨⟨url, runId, jobId⟩, hUrl, h⟩ := bind_eq_ok.mp h
        cases h
        obtain ⟨hValue, hRun, hJob, hAddress⟩ := detailsUrl_eq_ok_iff.mp hUrl
        exact ⟨⟨entry, hEntry, hGate, fun other hOther hOtherGate =>
            hGreatest other (mem_filter.mpr ⟨hOther, hOtherGate⟩), rfl, isText_eq_true_iff.mp hStatus,
            isText_eq_true_iff.mp hConclusion, hValue⟩, hRun, hJob, hAddress⟩
  · rintro ⟨entries, hEntries, ⟨entry, hEntry, hGate, hGreatest, hId, hStatus, hConclusion, hValue⟩, hRun,
      hJob,
      hAddress⟩
    obtain ⟨hRuns, hDistinct⟩ := hFlatten hEntries
    refine step hEntries (step (mapM_checkRunId hRuns) ?_)
    rw [(maxOn_checkRunId_eq_some_iff (hDistinct.sublist (filter_sublist.map _))).mpr
      ⟨mem_filter.mpr ⟨hEntry, hGate⟩, rfl, fun other hOther =>
        hGreatest other (mem_of_mem_filter hOther) (mem_filter.mp hOther).2⟩]
    dsimp only
    rw [if_neg (not_not.mpr ⟨isText_eq_true_iff.mpr hStatus, isText_eq_true_iff.mpr hConclusion⟩)]
    refine step (detailsUrl_eq_ok_iff.mpr ⟨hValue, hRun, hJob, hAddress⟩) ?_
    cases selection
    cases hId
    rfl

def IsRepositoryName (repository : Text) : Prop :=
  IsRepository repository ∧ ∃ bytes, utf8 repository = .ok bytes ∧ bytes.length ≤ 200

theorem validateSha_eq_ok_iff : validateSha targetSha = .ok () ↔ IsSha targetSha := by
  unfold validateSha
  split
  · rename_i hSha
    exact iff_of_true rfl hSha
  · rename_i hSha
    exact iff_of_false nofun hSha

theorem validateRepository_eq_ok_iff :
    validateRepository repository = .ok () ↔ IsRepositoryName repository := by
  unfold validateRepository IsRepositoryName
  rw [bind_eq_ok]
  constructor
  · rintro ⟨bytes, hBytes, h⟩
    split at h
    · cases h
    · rename_i hGood
      obtain ⟨hShort, hPair⟩ := not_or.mp hGood
      exact ⟨not_not.mp hPair, bytes, hBytes, not_lt.mp hShort⟩
  · rintro ⟨hPair, bytes, hBytes, hShort⟩
    exact ⟨bytes, hBytes, if_neg (not_or.mpr ⟨not_lt.mpr hShort, not_not.mpr hPair⟩)⟩

theorem selectMergeGatePages_eq_ok_iff : selectMergeGatePages pages targetSha repository = .ok selection ↔
      IsSha targetSha ∧ IsRepositoryName repository ∧
        ∃ parts, IsListing pages parts ∧ IsSelected targetSha repository parts.flatten selection := by
  have hHead {parts : List (List CheckRun)} (hHeld : List.Forall₂ (IsPage parts.flatten.length) pages parts)
      (hSome : 1 ≤ pages.length) : ∃ first, pages.head? = some (.obj first) ∧
        getValue first (py "total_count") = .int parts.flatten.length := by
    generalize (parts.flatten.length : ℤ) = total at hHeld ⊢
    cases hHeld with
    | nil => exact absurd hSome (by decide)
    | cons hPage _ =>
      obtain ⟨first, rfl, hTotal, -⟩ := hPage
      exact ⟨first, rfl, hTotal⟩
  have hTotal {parts : List (List CheckRun)} : ¬(parts.flatten.length : ℤ) < 0 :=
    not_lt.mpr (Int.natCast_nonneg _)
  unfold selectMergeGatePages
  constructor
  · intro h
    split at h
    · cases h
    · split at h
      · rename_i first hFirst
        split at h
        · rename_i total hCount
          split at h
          · cases h
          · split at h
            · obtain ⟨_, -, h⟩ := bind_eq_ok.mp h
              cases h
            · rename_i hPages
              obtain ⟨hSha, hRepository, entries, hEntries, hSelected⟩ := selectMergeGateValue_eq_ok_iff.mp h
              obtain ⟨⟨hSome, hFew⟩, parts, hHeld, hSmall, ⟨hRuns, hDistinct⟩, rfl⟩ :=
                flattenPages_eq_ok_iff.mp hEntries
              obtain ⟨first', hFirst', hCount'⟩ := hHead hHeld hSome
              obtain rfl : first = first' := by
                rw [hFirst] at hFirst'
                exact obj.inj (Option.some_inj.mp hFirst')
              obtain rfl := int.inj (hCount.symm.trans hCount')
              exact ⟨validateSha_eq_ok_iff.mp hSha, validateRepository_eq_ok_iff.mp hRepository, parts,
                ⟨hHeld, hSmall, hRuns, hDistinct, not_not.mp hPages, hFew⟩, hSelected⟩
        · cases h
      · cases h
  · rintro ⟨hSha, hRepository, parts, hListing, hSelected⟩
    have hSome : 1 ≤ pages.length := by
      have hPages := one_le_pageCount parts.flatten.length
      rw [← hListing.count] at hPages
      exact_mod_cast hPages
    obtain ⟨first, hFirst, hCount⟩ := hHead hListing.held hSome
    have hEntries : flattenPages pages = .ok parts.flatten :=
      flattenPages_eq_ok_iff.mpr ⟨⟨hSome, hListing.few⟩, parts, hListing.held, hListing.small,
        ⟨hListing.runs, hListing.distinct⟩, rfl⟩
    rw [hFirst]
    dsimp only
    rw [hCount]
    dsimp only
    rw [if_neg (not_not.mpr ⟨hSome, hListing.few⟩), if_neg hTotal, if_neg (not_not.mpr hListing.count)]
    exact selectMergeGateValue_eq_ok_iff.mpr ⟨validateSha_eq_ok_iff.mpr hSha,
      validateRepository_eq_ok_iff.mpr hRepository, parts.flatten, hEntries, hSelected⟩

/-! ## The order of pages and of entries -/

inductive PageReordered : Json → Json → Prop
  | same (page : Json) : PageReordered page page
  | entries {fields : Dict Text Json} {runs runs' : List Json} :
      getValue fields (py "check_runs") = .arr runs → runs.Perm runs' →
        PageReordered (.obj fields) (.obj (fields.set (py "check_runs") (.arr runs')))

def PagesReordered (pages pages' : List Json) : Prop :=
  ∃ middle, List.Forall₂ PageReordered pages middle ∧ middle.Perm pages'

theorem exists_perm_of_perm_map {part : List CheckRun} {runs : List Json} (h : (part.map obj).Perm runs) :
    ∃ part', runs = part'.map .obj ∧ part.Perm part' := by
  have hObjects : ∀ run ∈ runs, run ∈ Set.range obj := by
    intro run hRun
    obtain ⟨entry, -, rfl⟩ := mem_map.mp (h.mem_iff.mpr hRun)
    exact ⟨entry, rfl⟩
  obtain ⟨part', rfl⟩ : runs ∈ Set.range (List.map obj) := by
    rw [Set.range_list_map]
    exact hObjects
  exact ⟨part', rfl, (map_perm_map_iff fun _ _ => obj.inj).mp h⟩

theorem PageReordered.isPage_iff {page page' : Json} (h : PageReordered page page') {total : ℤ} :
    (∀ part, IsPage total page part → ∃ part', IsPage total page' part' ∧ part.Perm part') ∧
      ∀ part', IsPage total page' part' → ∃ part, IsPage total page part ∧ part.Perm part' := by
  cases h with
  | same => exact ⟨fun part h => ⟨part, h, .refl part⟩, fun part h => ⟨part, h, .refl part⟩⟩
  | @entries fields runs runs' hRuns hPerm =>
    have hCount : getValue (fields.set (py "check_runs") (.arr runs')) (py "total_count") =
        getValue fields (py "total_count") := by
      rw [getValue, Dict.get?_set_of_ne (by decide), getValue]
    have hSet : getValue (fields.set (py "check_runs") (.arr runs')) (py "check_runs") = .arr runs' := by
      rw [getValue, Dict.get?_set_self]
      rfl
    constructor
    · rintro part ⟨_, hFields, hTotal, hPart⟩
      cases hFields
      obtain rfl := arr.inj (hRuns.symm.trans hPart)
      obtain ⟨part', rfl, hSame⟩ := exists_perm_of_perm_map hPerm
      exact ⟨part', ⟨_, rfl, hCount.trans hTotal, hSet⟩, hSame⟩
    · rintro part' ⟨_, hFields, hTotal, hPart⟩
      cases hFields
      obtain rfl := arr.inj (hSet.symm.trans hPart)
      obtain ⟨part, rfl, hSame⟩ := exists_perm_of_perm_map hPerm.symm
      exact ⟨part, ⟨fields, rfl, hCount.symm.trans hTotal, hRuns⟩, hSame.symm⟩

theorem exists_parts_of_forall₂ {total : ℤ}
    (hPages : List.Forall₂ (fun page page' => ∀ part, IsPage total page part →
      ∃ part', IsPage total page' part' ∧ part.Perm part') pages pages')
    (hHeld : List.Forall₂ (IsPage total) pages parts) :
    ∃ parts', List.Forall₂ (IsPage total) pages' parts' ∧ List.Forall₂ List.Perm parts parts' := by
  induction hPages generalizing parts with
  | nil =>
    cases hHeld
    exact ⟨[], .nil, .nil⟩
  | cons hPage _ ih =>
    cases hHeld with
    | cons hPart hHeld =>
      obtain ⟨part', hPart', hPerm⟩ := hPage _ hPart
      obtain ⟨parts', hHeld', hPerms⟩ := ih hHeld
      exact ⟨part' :: parts', .cons hPart' hHeld', .cons hPerm hPerms⟩

theorem flatten_perm_of_forall₂ {parts' : List (List CheckRun)} (h : List.Forall₂ List.Perm parts parts') :
    parts.flatten.Perm parts'.flatten := by
  induction h with
  | nil => exact .nil
  | cons hPart _ ih =>
    rw [flatten_cons, flatten_cons]
    exact hPart.append ih

theorem IsListing.of_parts {parts' : List (List CheckRun)}
    (h : IsListing pages parts) (hHeld : List.Forall₂ (IsPage parts.flatten.length) pages' parts')
    (hSmall : ∀ part ∈ parts', part.length ≤ maxCheckRunsPerPage) (hPerm : parts.flatten.Perm parts'.flatten)
    (hLength : pages.length = pages'.length) : IsListing pages' parts' where
  held := by rwa [← hPerm.length_eq]
  small := hSmall
  runs entry hEntry := h.runs entry (hPerm.mem_iff.mpr hEntry)
  distinct := (hPerm.map checkRunId).nodup_iff.mp h.distinct
  count := by rw [← hLength, ← hPerm.length_eq, h.count]
  few := hLength ▸ h.few

theorem IsSelected.perm {entries' : List CheckRun} (h : IsSelected targetSha repository entries selection)
    (hPerm : entries.Perm entries') : IsSelected targetSha repository entries' selection where
  newest := by
    obtain ⟨entry, hEntry, hGate, hGreatest, hRest⟩ := h.newest
    exact ⟨entry, hPerm.mem_iff.mp hEntry, hGate, fun other hOther =>
      hGreatest other (hPerm.mem_iff.mpr hOther), hRest⟩
  run := h.run
  job := h.job
  address := h.address

def Lists (targetSha repository : Text) (selection : MergeGateSelection) (pages : List Json) : Prop :=
  ∃ parts, IsListing pages parts ∧ IsSelected targetSha repository parts.flatten selection

theorem Lists.of_forall₂ (h : Lists targetSha repository selection pages)
    (hPages : List.Forall₂ (fun page page' => ∀ total part, IsPage total page part →
      ∃ part', IsPage total page' part' ∧ part.Perm part') pages pages') :
    Lists targetSha repository selection pages' := by
  obtain ⟨parts, hListing, hSelected⟩ := h
  obtain ⟨parts', hHeld, hPerms⟩ := exists_parts_of_forall₂ (hPages.imp fun _ _ h => h _) hListing.held
  have hPerm := flatten_perm_of_forall₂ hPerms
  have hSmall : List.Forall₂ (fun part' part : List CheckRun => part.length ≤ maxCheckRunsPerPage ∧
      part.Perm part') parts' parts :=
    ((forall₂_and_left _ _).mpr ⟨hListing.small, hPerms⟩).flip
  refine ⟨parts', hListing.of_parts hHeld (fun part' hPart' => ?_) hPerm hPages.length_eq,
    hSelected.perm hPerm⟩
  obtain ⟨part, -, hShort, hSame⟩ := exists_of_forall₂_mem hSmall.flip hPart'
  rw [← hSame.length_eq]
  exact hShort

theorem Lists.of_perm (h : Lists targetSha repository selection pages) (hPages : pages.Perm pages') :
    Lists targetSha repository selection pages' := by
  obtain ⟨parts, hListing, hSelected⟩ := h
  obtain ⟨parts', hHeld, hPerm⟩ := perm_comp_forall₂ hPages.symm hListing.held
  have hFlat := hPerm.symm.flatten
  exact ⟨parts', hListing.of_parts hHeld (fun part hPart => hListing.small part (hPerm.mem_iff.mp hPart))
    hFlat
    hPages.length_eq, hSelected.perm hFlat⟩

theorem lists_iff_of_reordered (h : PagesReordered pages pages') :
    Lists targetSha repository selection pages ↔ Lists targetSha repository selection pages' := by
  obtain ⟨middle, hPages, hPerm⟩ := h
  constructor
  · intro hLists
    exact (hLists.of_forall₂ (hPages.imp fun _ _ h _ => h.isPage_iff.1)).of_perm hPerm
  · intro hLists
    refine (hLists.of_perm hPerm.symm).of_forall₂ (hPages.flip.imp fun _ _ h total part hPart => ?_)
    obtain ⟨part', hPart', hSame⟩ := h.isPage_iff.2 part hPart
    exact ⟨part', hPart', hSame.symm⟩

theorem selects_newest_merge_gate (targetSha repository : Text) :
    (∀ pages selection, selectMergeGatePages pages targetSha repository = .ok selection ↔
      IsSha targetSha ∧ IsRepositoryName repository ∧
        ∃ parts, IsListing pages parts ∧ IsSelected targetSha repository parts.flatten selection) ∧
      ∀ pages pages', PagesReordered pages pages' → ∀ selection,
        selectMergeGatePages pages targetSha repository = .ok selection ↔
          selectMergeGatePages pages' targetSha repository = .ok selection := by
  refine ⟨fun pages selection => selectMergeGatePages_eq_ok_iff, fun pages pages' hReordered selection => ?_⟩
  rw [selectMergeGatePages_eq_ok_iff, selectMergeGatePages_eq_ok_iff]
  exact and_congr_right fun _ => and_congr_right fun _ => lists_iff_of_reordered hReordered

section Pages

def pageSha : Text := List.replicate 40 0x61

def pageRepository : Text := py "owner/name"

def pageRun (id : ℤ) (conclusion : Text) : CheckRun :=
  [(py "id", .int id), (py "name", .str (py "Merge Gate")), (py "head_sha", .str pageSha),
    (py "app", .obj [(py "slug", .str (py "github-actions"))]), (py "status", .str (py "completed")),
    (py "conclusion", .str conclusion),
    (py "details_url", .str (py "https://github.com/owner/name/actions/runs/7/job/8"))]

def pageOf (runs : List CheckRun) : Json :=
  .obj [(py "total_count", .int runs.length), (py "check_runs", .arr (runs.map .obj))]

/-- An older failure and a newer success, in either order. -/
theorem selects_newest_of_two : selectMergeGatePages [pageOf [pageRun 2 (py "success"),
        pageRun 1 (py "failure")]] pageSha pageRepository =
          .ok ⟨2, 7, 8, py "https://github.com/owner/name/actions/runs/7/job/8"⟩ ∧
      selectMergeGatePages [pageOf [pageRun 1 (py "failure"),
        pageRun 2 (py "success")]] pageSha pageRepository =
          .ok ⟨2, 7, 8, py "https://github.com/owner/name/actions/runs/7/job/8"⟩ := by
  have hFirst : selectMergeGatePages [pageOf [pageRun 2 (py "success"),
      pageRun 1 (py "failure")]] pageSha pageRepository =
        .ok ⟨2, 7, 8, py "https://github.com/owner/name/actions/runs/7/job/8"⟩ := by
    decide +kernel
  have hReordered : PagesReordered
      [pageOf [pageRun 2 (py "success"), pageRun 1 (py "failure")]]
      [pageOf [pageRun 1 (py "failure"), pageRun 2 (py "success")]] :=
    ⟨_, .cons (.entries rfl (.swap _ _ [])) .nil, .refl _⟩
  exact ⟨hFirst, ((selects_newest_merge_gate pageSha pageRepository).2 _ _ hReordered _).mp hFirst⟩

/-- An id past what is taken for one of GitHub is refused, although it is positive and the only one. -/
theorem refuses_greater_id : let entry := pageRun (2 ^ 63) (py "success")
    IsSha pageSha ∧ IsRepositoryName pageRepository ∧ IsPage 1 (pageOf [entry]) [entry] ∧ pageCount 1 = 1 ∧
      getValue entry (py "id") = .int (2 ^ 63) ∧ isMergeGate pageSha entry = true ∧
        getValue entry (py "status") = .str (py "completed") ∧
          getValue entry (py "conclusion") = .str (py "success") ∧
            getValue entry (py "details_url") = .str (canonicalUrl pageRepository 7 8) ∧
              ∀ selection, selectMergeGatePages [pageOf [entry]] pageSha pageRepository ≠ .ok selection := by
  intro entry
  have hRefused : selectMergeGatePages [pageOf [entry]] pageSha pageRepository =
      .error (mergeGateError (py "check-run ID must be a positive GitHub ID")) := by
    decide +kernel
  refine ⟨by decide +kernel, ⟨by decide +kernel, pageRepository.map fun c => UInt8.ofNat c.val,
      by decide +kernel, by decide +kernel⟩,
    ⟨_, rfl, rfl, rfl⟩, rfl, rfl, by decide +kernel, rfl, rfl,
    congrArg str (by decide +kernel), fun selection => ?_⟩
  rw [hRefused]
  exact nofun

end Pages

end Ici
