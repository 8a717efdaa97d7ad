import Ici.Library.JsonScan
import Ici.Scripts.CandidateMergeGate

/-! # What the pages of check runs have to be

Which ids and addresses are taken, and what reading one page, and page after page, leaves. -/

namespace Ici

open Option List Raising Python Flattening

/-! ## Ids -/

def IsGithubId (id : ℤ) : Prop := 0 < id ∧ id ≤ maxGithubId

instance (id : ℤ) : Decidable (IsGithubId id) := inferInstanceAs (Decidable (_ ∧ _))

variable {id : ℤ} {found found' : Flattening} {pageIndex : ℕ}

variable {value : Json} {label t repository url : Text} {n : ℕ} {runs : List Json} {total : ℤ}

theorem positiveId_eq_ok_iff : positiveId value label = .ok id ↔ value = .int id ∧ IsGithubId id := by
  unfold positiveId IsGithubId
  split
  · rename_i found
    by_cases hBad : found ≤ 0 ∨ maxGithubId < found
    · rw [if_pos hBad]
      refine iff_of_false nofun ?_
      rintro ⟨hValue, hId⟩
      cases hValue
      omega
    · rw [if_neg hBad, Except.ok.injEq, Json.int.injEq]
      constructor
      · rintro rfl
        exact ⟨rfl, by omega⟩
      · exact And.left
  · rename_i hOther
    exact iff_of_false nofun fun h => hOther id h.1

theorem natDigits_digitsValue (hDigits : ∀ c ∈ t, isDigit c = true) (hNe : t ≠ [])
    (hHead : t.head? ≠ some 0x30) : natDigits (digitsValue t) = t := by
  induction t using List.reverseRecOn with
  | nil => exact absurd rfl hNe
  | append_singleton front last ih =>
    have hLast := hDigits last (mem_append_right _ (mem_singleton_self last))
    simp only [isDigit, Bool.and_eq_true, decide_eq_true_eq] at hLast
    obtain ⟨hLow, hHigh⟩ : 0x30 ≤ last.val ∧ last.val ≤ 0x39 := hLast
    have hDigit : natDigits (last.val - 0x30) = [last] := by
      rw [natDigits_of_lt (by omega)]
      refine congrArg (· :: []) (Fin.ext ?_)
      change (0x30 + (last.val - 0x30)) % 0x110000 = last.val
      rw [Nat.add_sub_cancel' hLow, Nat.mod_eq_of_lt last.isLt]
    have hValue : digitsValue (front ++ [last]) = digitsValue front * 10 + (last.val - 0x30) := by
      rw [digitsValue_append]
      simp [digitsValue]
    rw [hValue]
    by_cases hFront : front = []
    · subst hFront
      rw [nil_append, ← hDigit]
      simp [digitsValue]
    · have hFrontDigits := ih (fun c hc => hDigits c (mem_append_left _ hc)) hFront (by
        rwa [head?_append_of_ne_nil _ hFront] at hHead)
      have hPos : digitsValue front ≠ 0 := by
        intro hZero
        rw [hZero] at hFrontDigits
        rw [← hFrontDigits, show natDigits 0 = [0x30] by decide] at hHead
        exact hHead rfl
      have hDiv : (digitsValue front * 10 + (last.val - 0x30)) / 10 = digitsValue front := by omega
      have hMod : (digitsValue front * 10 + (last.val - 0x30)) % 10 = last.val - 0x30 := by omega
      rw [natDigits_of_le (by omega), hDiv, hMod, hFrontDigits, hDigit]

theorem length_natDigits_le (h : IsGithubId id) : (natDigits id.toNat).length ≤ 19 := by
  rw [natDigits, length_map, Nat.length_toDigits_le_iff (by decide) (by decide)]
  have hMax := h.2
  unfold maxGithubId at hMax
  omega

theorem scanUrlId_eq_some_iff {digits rest : Text} :
    scanUrlId t = some (digits, rest) ↔ t = digits ++ rest ∧ (∀ c ∈ digits, isDigit c = true) ∧
      NoDigitNext rest ∧ digits ≠ [] ∧ digits.head? ≠ some 0x30 ∧ digits.length ≤ 19 := by
  unfold scanUrlId
  dsimp only
  constructor
  · intro h
    split at h
    · cases h
    · rename_i hGood
      rw [not_or, not_or] at hGood
      rw [some_inj, Prod.mk.injEq] at h
      obtain ⟨rfl, rfl⟩ := h
      have hDrop : t.drop (t.takeWhile isDigit).length = t.dropWhile isDigit := by
        have hSplit := @List.takeWhile_append_dropWhile _ isDigit t
        exact (congrArg (List.drop _) hSplit.symm).trans drop_left
      refine ⟨?_, fun c hc => mem_takeWhile_imp hc, ?_, hGood.1, hGood.2.1, Nat.not_lt.mp hGood.2.2⟩
      · rw [hDrop, takeWhile_append_dropWhile]
      · rw [hDrop]
        intro c hc
        have hNe : t.dropWhile isDigit ≠ [] := by
          intro hNil
          rw [hNil] at hc
          cases hc
        have hHead := head_dropWhile_not isDigit hNe
        rw [head?_eq_some_head hNe, mem_some_iff] at hc
        rwa [← hc]
  · rintro ⟨rfl, hDigits, hNext, hNe, hHead, hLength⟩
    rw [takeWhile_digits hDigits hNext,
      if_neg (by rw [not_or, not_or]; exact ⟨hNe, hHead, Nat.not_lt.mpr hLength⟩), drop_left]

def canonicalUrl (repository : Text) (runId jobId : ℤ) : Text :=
  runsUrl repository ++ natDigits runId.toNat ++ py "/job/" ++ natDigits jobId.toNat

theorem IsGithubId.digits (h : IsGithubId id) :
    (∀ c ∈ natDigits id.toNat, isDigit c = true) ∧ natDigits id.toNat ≠ [] ∧
      (natDigits id.toNat).head? ≠ some 0x30 ∧ (natDigits id.toNat).length ≤ 19 := by
  have hPos : 0 < id.toNat := by
    have := h.1
    omega
  refine ⟨digits_natDigits _, natDigits_ne_nil _, ?_, length_natDigits_le h⟩
  rw [head?_eq_some_head (natDigits_ne_nil _), ne_eq, some_inj]
  exact head_natDigits hPos

theorem scanDetailsUrl_eq_some_iff {run job : Text} : scanDetailsUrl repository url = some (run, job) ↔
      ∃ tail, url = runsUrl repository ++ tail ∧ ∃ rest, scanUrlId tail = some (run, py "/job/" ++ rest) ∧
        scanUrlId rest = some (job, []) := by
  unfold scanDetailsUrl
  constructor
  · intro h
    split at h
    · cases h
    · rename_i hFront
      obtain ⟨tail, rfl⟩ := not_not.mp hFront
      rw [drop_left] at h
      obtain ⟨⟨found, middle⟩, hRun, h⟩ := bind_eq_some_iff.mp h
      dsimp only at h
      split at h
      · cases h
      · rename_i hJob
        obtain ⟨rest, rfl⟩ := not_not.mp hJob
        rw [drop_left] at h
        obtain ⟨⟨found', last⟩, hScan, h⟩ := bind_eq_some_iff.mp h
        dsimp only at h
        split at h
        · rename_i hLast
          cases h
          subst hLast
          exact ⟨tail, rfl, rest, hRun, hScan⟩
        · cases h
  · rintro ⟨tail, rfl, rest, hRun, hJob⟩
    rw [if_neg (not_not.mpr (prefix_append _ _)), drop_left]
    refine bind_eq_some_iff.mpr ⟨(run, py "/job/" ++ rest), hRun, ?_⟩
    dsimp only
    rw [if_neg (not_not.mpr (prefix_append _ _)), drop_left]
    exact bind_eq_some_iff.mpr ⟨(job, []), hJob, if_pos rfl⟩

theorem detailsUrl_eq_ok_iff {runId jobId : ℤ} : detailsUrl repository value = .ok (url, runId, jobId) ↔
      value = .str url ∧ IsGithubId runId ∧ IsGithubId jobId ∧ url = canonicalUrl repository runId jobId := by
  have hSlash (rest : Text) : NoDigitNext (py "/job/" ++ rest) := by
    intro c hc
    obtain rfl : 0x2f = c := some_inj.mp hc
    decide
  constructor
  · intro h
    unfold detailsUrl at h
    split at h
    · rename_i found
      split at h
      · cases h
      · rename_i run job hScan
        obtain ⟨run', hRun, h⟩ := bind_eq_ok.mp h
        obtain ⟨job', hJob, h⟩ := bind_eq_ok.mp h
        obtain ⟨hRunInt, hRunId⟩ := positiveId_eq_ok_iff.mp hRun
        obtain ⟨hJobInt, hJobId⟩ := positiveId_eq_ok_iff.mp hJob
        cases h
        obtain ⟨tail, rfl, rest, hRunScan, hJobScan⟩ := scanDetailsUrl_eq_some_iff.mp hScan
        obtain ⟨rfl, hRunDigits, -, hRunNe, hRunHead, -⟩ := scanUrlId_eq_some_iff.mp hRunScan
        obtain ⟨rfl, hJobDigits, -, hJobNe, hJobHead, -⟩ := scanUrlId_eq_some_iff.mp hJobScan
        refine ⟨rfl, hRunId, hJobId, ?_⟩
        rw [← Json.int.inj hRunInt, ← Json.int.inj hJobInt, canonicalUrl, Int.toNat_natCast,
          Int.toNat_natCast, natDigits_digitsValue hRunDigits hRunNe hRunHead,
          natDigits_digitsValue hJobDigits hJobNe hJobHead, append_nil, append_assoc, append_assoc]
    · cases h
  · rintro ⟨rfl, hRun, hJob, rfl⟩
    obtain ⟨hRunDigits, hRunNe, hRunHead, hRunLength⟩ := hRun.digits
    obtain ⟨hJobDigits, hJobNe, hJobHead, hJobLength⟩ := hJob.digits
    have hScan : scanDetailsUrl repository (canonicalUrl repository runId jobId) =
        some (natDigits runId.toNat, natDigits jobId.toNat) := by
      refine scanDetailsUrl_eq_some_iff.mpr ⟨natDigits runId.toNat ++ (py "/job/" ++ natDigits jobId.toNat),
        ?_,
        natDigits jobId.toNat, ?_, ?_⟩
      · rw [canonicalUrl, append_assoc, append_assoc]
      · exact scanUrlId_eq_some_iff.mpr ⟨rfl, hRunDigits, hSlash _, hRunNe, hRunHead, hRunLength⟩
      · have hEnd : NoDigitNext [] := fun c hc => nomatch hc
        exact scanUrlId_eq_some_iff.mpr
          ⟨(append_nil _).symm, hJobDigits, hEnd, hJobNe, hJobHead, hJobLength⟩
    have hInt {id : ℤ} (h : IsGithubId id) (label : Text) :
        positiveId (.int (digitsValue (natDigits id.toNat))) label = .ok id := by
      have hPos := h.1
      rw [digitsValue_natDigits, Int.toNat_of_nonneg hPos.le]
      exact positiveId_eq_ok_iff.mpr ⟨rfl, h⟩
    unfold detailsUrl
    dsimp only
    rw [hScan]
    exact step (hInt hRun _) (step (hInt hJob _) rfl)

/-! ## The pages of one listing -/

def checkRunId (entry : CheckRun) : ℤ :=
  match getValue entry (py "id") with
  | .int id => id
  | _ => 0

def IsCheckRun (entry : CheckRun) : Prop :=
  getValue entry (py "id") = .int (checkRunId entry) ∧ IsGithubId (checkRunId entry)

theorem positiveId_entry_iff {entry : CheckRun} :
    positiveId (getValue entry (py "id")) label = .ok id ↔ IsCheckRun entry ∧ id = checkRunId entry := by
  rw [positiveId_eq_ok_iff]
  constructor
  · rintro ⟨hValue, hId⟩
    have hSame : checkRunId entry = id := by rw [checkRunId, hValue]
    exact ⟨⟨by rw [hSame, hValue], hSame ▸ hId⟩, hSame.symm⟩
  · rintro ⟨⟨hValue, hId⟩, rfl⟩
    exact ⟨hValue, hId⟩

def Flattening.add (found : Flattening) (part : List CheckRun) : Flattening :=
  { found with
    entries := found.entries ++ part
    seenIds := (part.map checkRunId).reverse ++ found.seenIds }

structure Flattening.Takes (found : Flattening) (part : List CheckRun) : Prop where
  runs : ∀ entry ∈ part, IsCheckRun entry
  distinct : (part.map checkRunId).Nodup
  new : ∀ entry ∈ part, checkRunId entry ∉ found.seenIds

theorem Flattening.takes_append_iff {part rest : List CheckRun} :
    found.Takes (part ++ rest) ↔ found.Takes part ∧ (found.add part).Takes rest := by
  constructor
  · rintro ⟨hRuns, hDistinct, hNew⟩
    rw [map_append, nodup_append] at hDistinct
    obtain ⟨hPart, hRest, hApart⟩ := hDistinct
    refine ⟨⟨fun entry h => hRuns entry (mem_append_left _ h), hPart,
      fun entry h => hNew entry (mem_append_left _ h)⟩,
      ⟨fun entry h => hRuns entry (mem_append_right _ h), hRest, fun entry h hSeen => ?_⟩⟩
    rcases mem_append.mp hSeen with hOwn | hOld
    · exact hApart _ (mem_reverse.mp hOwn) _ (mem_map_of_mem h) rfl
    · exact hNew entry (mem_append_right _ h) hOld
  · rintro ⟨hPart, hRest⟩
    refine ⟨fun entry h => (mem_append.mp h).elim (hPart.runs entry) (hRest.runs entry), ?_,
      fun entry h => (mem_append.mp h).elim (hPart.new entry) fun hIn hOld =>
        hRest.new entry hIn (mem_append_right _ hOld)⟩
    rw [map_append, nodup_append]
    refine ⟨hPart.distinct, hRest.distinct, ?_⟩
    rintro id hOwn _ hOther rfl
    obtain ⟨entry, hEntry, hId⟩ := mem_map.mp hOther
    refine hRest.new entry hEntry (mem_append_left _ ?_)
    rw [hId]
    exact mem_reverse.mpr hOwn

theorem Flattening.add_add (found : Flattening) (part rest : List CheckRun) :
    (found.add part).add rest = found.add (part ++ rest) := by
  simp [add, append_assoc]

theorem addCheckRun_eq_ok_iff {item : Json} : addCheckRun pageIndex found (item, n) = .ok found' ↔
      ∃ entry, item = .obj entry ∧ found.Takes [entry] ∧ found' = found.add [entry] := by
  have hTakes (entry : CheckRun) : found.Takes [entry] ↔ IsCheckRun entry ∧
    checkRunId entry ∉ found.seenIds :=
    ⟨fun h => ⟨h.runs entry (mem_singleton_self entry), h.new entry (mem_singleton_self entry)⟩,
      fun h => ⟨by simpa using h.1, nodup_singleton _, by simpa using h.2⟩⟩
  unfold addCheckRun
  cases item with
  | obj entry =>
    simp only [bind_eq_ok, positiveId_entry_iff, Json.obj.injEq, exists_eq_left', hTakes]
    constructor
    · rintro ⟨id, ⟨hRun, rfl⟩, h⟩
      split at h
      · cases h
      · rename_i hNew
        cases h
        exact ⟨⟨hRun, hNew⟩, rfl⟩
    · rintro ⟨⟨hRun, hNew⟩, rfl⟩
      exact ⟨_, ⟨hRun, rfl⟩, if_neg hNew⟩
  | _ => exact iff_of_false nofun (by rintro ⟨entry, hItem, -⟩; cases hItem)

theorem addCheckRuns_eq_ok_iff : (runs.zipIdx n).foldlM (addCheckRun pageIndex) found = .ok found' ↔
      ∃ part : List CheckRun, runs = part.map .obj ∧ found.Takes part ∧ found' = found.add part := by
  induction runs generalizing n found with
  | nil =>
    constructor
    · intro h
      cases h
      refine ⟨[], rfl, ⟨fun _ h => absurd h not_mem_nil, nodup_nil,
        fun _ h => absurd h not_mem_nil⟩, ?_⟩
      simp [add]
    · rintro ⟨part, hPart, -, rfl⟩
      rw [map_eq_nil_iff.mp hPart.symm]
      simp [add]
      rfl
  | cons item runs ih =>
    rw [zipIdx_cons, foldlM_cons_eq_ok]
    constructor
    · rintro ⟨middle, hItem, hRest⟩
      obtain ⟨entry, rfl, hEntry, rfl⟩ := addCheckRun_eq_ok_iff.mp hItem
      obtain ⟨part, rfl, hPart, rfl⟩ := ih.mp hRest
      exact ⟨entry :: part, rfl, takes_append_iff.mpr ⟨hEntry, hPart⟩, add_add found [entry] part⟩
    · rintro ⟨part, hRuns, hTakes, rfl⟩
      cases part with
      | nil => cases hRuns
      | cons entry part =>
        obtain ⟨rfl, rfl⟩ := cons.inj hRuns
        obtain ⟨hEntry, hPart⟩ := takes_append_iff.mp
          (show found.Takes ([entry] ++ part) from hTakes)
        exact ⟨_, addCheckRun_eq_ok_iff.mpr ⟨entry, rfl, hEntry, rfl⟩,
          ih.mpr ⟨part, rfl, hPart, (add_add found [entry] part).symm⟩⟩

def IsPage (total : ℤ) (page : Json) (part : List CheckRun) : Prop :=
  ∃ fields, page = .obj fields ∧ getValue fields (py "total_count") = .int total ∧
    getValue fields (py "check_runs") = .arr (part.map .obj)

theorem pageCounts_eq_some_iff {fields : Dict Text Json} : pageCounts fields = some (total, runs) ↔
      getValue fields (py "total_count") = .int total ∧ getValue fields (py "check_runs") = .arr runs ∧
        0 ≤ total ∧ runs.length ≤ maxCheckRunsPerPage := by
  unfold pageCounts
  split
  · rename_i found listed hTotal hRuns
    rw [hTotal, hRuns, Json.int.injEq, Json.arr.injEq]
    by_cases hBad : found < 0 ∨ maxCheckRunsPerPage < listed.length
    · rw [if_pos hBad]
      refine iff_of_false nofun ?_
      rintro ⟨rfl, rfl, hTotal, hLength⟩
      omega
    · rw [if_neg hBad, some_inj, Prod.mk.injEq]
      constructor
      · rintro ⟨rfl, rfl⟩
        exact ⟨rfl, rfl, by omega, by omega⟩
      · rintro ⟨rfl, rfl, -⟩
        exact ⟨rfl, rfl⟩
  · rename_i hOther
    exact iff_of_false nofun fun h => hOther total runs h.1 h.2.1

theorem addCheckPage_eq_ok_iff {page : Json} : addCheckPage found (page, pageIndex) = .ok found' ↔
      ∃ total part, IsPage total page part ∧ 0 ≤ total ∧ part.length ≤ maxCheckRunsPerPage ∧
        (∀ expected ∈ found.expectedTotal, expected = total) ∧ found.Takes part ∧
        found' = { found.add part with expectedTotal := some total } := by
  unfold addCheckPage
  dsimp only
  constructor
  · intro h
    split at h
    · rename_i fields
      split at h
      · cases h
      · rename_i total runs hCounts
        split at h
        · cases h
        · rename_i hAgree
          obtain ⟨hTotal, hRuns, hPositive, hLength⟩ := pageCounts_eq_some_iff.mp hCounts
          obtain ⟨part, rfl, hPart, rfl⟩ := addCheckRuns_eq_ok_iff.mp h
          rw [length_map] at hLength
          refine ⟨total, part, ⟨fields, rfl, hTotal, hRuns⟩, hPositive, hLength, fun expected hExpected => ?_,
            ⟨hPart.runs, hPart.distinct, hPart.new⟩, rfl⟩
          rw [mem_def.mp hExpected] at hAgree
          simpa using hAgree
    · cases h
  · rintro ⟨total, part, ⟨fields, rfl, hTotal, hRuns⟩, hPositive, hLength, hAgree, hPart, rfl⟩
    have hCounts : pageCounts fields = some (total, part.map .obj) :=
      pageCounts_eq_some_iff.mpr ⟨hTotal, hRuns, hPositive, by rwa [length_map]⟩
    have hSame : ¬(found.expectedTotal.any (· ≠ total)) = true := by
      cases hExpected : found.expectedTotal with
      | none => exact Bool.false_ne_true
      | some expected => simp [hAgree expected hExpected]
    dsimp only
    rw [hCounts]
    dsimp only
    rw [if_neg hSame]
    exact addCheckRuns_eq_ok_iff.mpr ⟨part, rfl, ⟨hPart.runs, hPart.distinct, hPart.new⟩, rfl⟩

theorem addCheckPages_eq_ok_iff (hTotal : 0 ≤ total) {pages : List Json} {n : ℕ}
    {found found' : Flattening} (hFound : found.expectedTotal = some total) :
    (pages.zipIdx n).foldlM addCheckPage found = .ok found' ↔
      ∃ parts, List.Forall₂ (IsPage total) pages parts ∧ (∀ part ∈ parts, part.length ≤ maxCheckRunsPerPage) ∧
        found.Takes parts.flatten ∧ found' = found.add parts.flatten := by
  induction pages generalizing n found with
  | nil =>
    constructor
    · intro h
      cases h
      refine ⟨[], .nil, fun _ h => absurd h not_mem_nil, ⟨fun _ h => absurd h not_mem_nil,
        nodup_nil, fun _ h => absurd h not_mem_nil⟩, ?_⟩
      simp [add]
    · rintro ⟨parts, hPages, -, -, rfl⟩
      rw [forall₂_nil_left_iff.mp hPages]
      simp [add]
      rfl
  | cons page pages ih =>
    have hAdd (part : List CheckRun) :
        { found.add part with expectedTotal := some total } = found.add part := by
      rw [← hFound]
      rfl
    have hNext (part : List CheckRun) : (found.add part).expectedTotal = some total := hFound
    rw [zipIdx_cons, foldlM_cons_eq_ok]
    constructor
    · rintro ⟨middle, hPage, hRest⟩
      obtain ⟨_, part, hPart, -, hLength, hSame, hTakes, rfl⟩ := addCheckPage_eq_ok_iff.mp hPage
      obtain rfl := hSame total hFound
      rw [hAdd] at hRest
      obtain ⟨parts, hPages, hLengths, hTakesRest, rfl⟩ := (ih (hNext part)).mp hRest
      exact ⟨part :: parts, .cons hPart hPages, forall_mem_cons.mpr ⟨hLength, hLengths⟩,
        takes_append_iff.mpr ⟨hTakes, hTakesRest⟩, add_add found part parts.flatten⟩
    · rintro ⟨parts, hPages, hLengths, hTakes, rfl⟩
      cases hPages with
      | @cons _ part _ parts hPart hPages =>
        obtain ⟨hLength, hLengths⟩ := forall_mem_cons.mp hLengths
        obtain ⟨hOwn, hRest⟩ := takes_append_iff.mp
          (show found.Takes (part ++ parts.flatten) from hTakes)
        refine ⟨found.add part, addCheckPage_eq_ok_iff.mpr ⟨total, part, hPart, hTotal, hLength,
          fun expected hExpected => some_inj.mp (hExpected.symm.trans hFound), hOwn, (hAdd part).symm⟩,
            ?_⟩
        exact (ih (hNext part)).mpr ⟨parts, hPages, hLengths, hRest,
          (add_add found part parts.flatten).symm⟩

end Ici
