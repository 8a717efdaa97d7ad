import Ici.Toolchain.ResolverExact

/-! # Answers that depend on nothing else

A run of requests is compared with each of them asked alone. -/

namespace Ici.Toolchain

open List Python Raising Components

section

variable {surroundings : Surroundings} {ask : Probe} {request : Request}
  {probed : Dict Text ProbeResult} {earlier : List Request}

/-! ## The course of one request -/

def failure (surroundings : Surroundings) (ask : Probe) (request : Request)
    (outputs : Text → ProbeResult) : Unresolved :=
  match request.candidates.find? (·.explicit) with
  | none => exhausted surroundings ask request outputs request.candidates
  | some candidate =>
    (firstReason surroundings ask request outputs [candidate] []).getD
      (refusal request candidate [] .unavailable (py "no such file: " ++ candidate.path)
        unavailable_ne_available)

inductive Course (surroundings : Surroundings) (ask : Probe) (request : Request)
    (outputs : Text → ProbeResult) : Result Resolution → List Candidate → Prop
  | taken {front back : List Candidate} {candidate : Candidate} {version : Option Text}
    {capabilities : List Text} (hOffered : offered request = front ++ candidate :: back)
    (hFront : AllRefused surroundings ask request outputs front)
    (hThere : surroundings.exists' candidate.path = true)
    (hStand : stand surroundings ask request outputs candidate = .ok (.accepted version capabilities)) :
    Course surroundings ask request outputs (.ok (.resolved (choice surroundings request candidate
      (front.map (·.path)) version capabilities [] hThere))) (front ++ [candidate])
  | out (hAll : AllRefused surroundings ask request outputs (offered request)) :
    Course surroundings ask request outputs (.ok (.unresolved (failure surroundings ask request outputs)))
      (offered request)
  | raised {front back : List Candidate} {candidate : Candidate} {e : PyError}
    (hOffered : offered request = front ++ candidate :: back)
    (hFront : AllRefused surroundings ask request outputs front)
    (hThere : surroundings.exists' candidate.path = true)
    (hStand : stand surroundings ask request outputs candidate = .error e) :
    Course surroundings ask request outputs (.error e) (front ++ [candidate])

theorem offered_of_none (h : request.candidates.find? (·.explicit) = none) :
    offered request = request.candidates := by
  rw [offered, h]

variable {candidate : Candidate} {outputs outputs' : Text → ProbeResult}
  {front back looked : List Candidate}

theorem offered_of_some
    (h : request.candidates.find? (·.explicit) = some candidate) : offered request = [candidate] := by
  rw [offered, h]

theorem standing_cases {standing : Result Standing} (h : ¬IsRefused standing) :
    (∃ e, standing = .error e) ∨ ∃ version capabilities, standing = .ok (.accepted version capabilities) := by
  rcases standing with e | ⟨availability, detail, hRefused⟩ | ⟨version, capabilities⟩
  · exact .inl ⟨e, rfl⟩
  · exact absurd ⟨availability, detail, hRefused, rfl⟩ h
  · exact .inr ⟨version, capabilities, rfl⟩

def HasCourse (surroundings : Surroundings) (ask : Probe) (request : Request)
    (probed : Dict Text ProbeResult) : Prop :=
  ∃ looked, Course surroundings ask request (view ask request probed)
    (resolve surroundings (some ask) request probed).1 looked ∧
    ∀ resolution, (resolve surroundings (some ask) request probed).1 = .ok resolution →
      (resolve surroundings (some ask) request probed).2 = record surroundings ask request probed looked

theorem course_search (h : request.candidates.find? (·.explicit) = none) :
    HasCourse surroundings ask request probed := by
  have hOffered := offered_of_none h
  rw [HasCourse, resolve, h]
  dsimp only
  have hCases : AllRefused surroundings ask request (view ask request probed) request.candidates ∨ _ :=
    allRefused_or _ _
  rcases hCases with hAll | ⟨front, candidate, back, hSplit, hFront, hThere, hNot⟩
  · rw [search_exhausted hAll]
    have hOut := Course.out (hOffered.symm ▸ hAll)
    rw [failure, h, hOffered] at hOut
    exact ⟨_, hOut, fun _ _ => rfl⟩
  · rcases standing_cases hNot with ⟨e, hRaised⟩ | ⟨version, capabilities, hStand⟩
    · rw [hSplit, search_raised hThere hFront hRaised]
      exact ⟨_, .raised (hOffered.trans hSplit) hFront hThere hRaised, nofun⟩
    · rw [hSplit, search_accepted hThere hFront hStand]
      exact ⟨_, .taken (hOffered.trans hSplit) hFront hThere hStand, fun _ _ => rfl⟩

theorem course_explicit (h : request.candidates.find? (·.explicit) = some candidate) :
    HasCourse surroundings ask request probed := by
  have hOffered := offered_of_some h
  rw [HasCourse, resolve, h]
  dsimp only
  by_cases hThere : surroundings.exists' candidate.path = true
  · rw [resolveOne_eq hThere]
    cases hStand : stand surroundings ask request (view ask request probed) candidate with
    | error e =>
      have hFirst : offered request = [] ++ candidate :: [] := hOffered
      exact ⟨_, .raised hFirst nofun hThere hStand, nofun⟩
    | ok standing =>
      cases standing with
      | accepted version capabilities =>
        have hFirst : offered request = [] ++ candidate :: [] := hOffered
        refine ⟨_, .taken hFirst nofun hThere hStand, fun _ _ => ?_⟩
        rw [nil_append, record, if_pos hThere, record]
      | refused availability detail hRefused =>
        have hOut : Course surroundings ask request (view ask request probed) _ _ :=
          .out (hOffered.symm ▸ forall_mem_singleton.mpr fun _ => ⟨_, _, _, hStand⟩)
        rw [failure, h] at hOut
        dsimp only at hOut
        rw [firstReason, if_pos hThere, hStand, hOffered] at hOut
        refine ⟨_, hOut, fun _ _ => ?_⟩
        rw [record, if_pos hThere, record]
  · have hOut : Course surroundings ask request (view ask request probed) _ _ :=
      .out (hOffered.symm ▸ forall_mem_singleton.mpr fun hAgain => absurd hAgain hThere)
    rw [failure, h] at hOut
    dsimp only at hOut
    rw [firstReason, if_neg hThere, firstReason, hOffered] at hOut
    rw [resolveOne, dif_neg hThere]
    refine ⟨_, hOut, fun _ _ => ?_⟩
    rw [record, if_neg hThere, record]

theorem course (surroundings : Surroundings) (ask : Probe) (request : Request)
    (probed : Dict Text ProbeResult) :
    HasCourse surroundings ask request probed := by
  cases h : request.candidates.find? (·.explicit) with
  | none => exact course_search h
  | some candidate => exact course_explicit h

/-! ## One request -/

theorem split_unique {α : Type} {kind : α → Prop} {front front' back back' : List α} {a a' : α}
    (h : front ++ a :: back = front' ++ a' :: back') (hFront : ∀ x ∈ front, ¬kind x) (ha : kind a)
    (hFront' : ∀ x ∈ front', ¬kind x) (ha' : kind a') : front = front' ∧ a = a' := by
  induction front generalizing front' with
  | nil =>
    cases front' with
    | nil =>
      cases h
      exact ⟨rfl, rfl⟩
    | cons first rest =>
      cases h
      exact absurd ha (hFront' a mem_cons_self)
  | cons first rest ih =>
    cases front' with
    | nil =>
      cases h
      exact absurd ha' (hFront a' mem_cons_self)
    | cons first' rest' =>
      obtain ⟨rfl, hRest⟩ := cons.inj h
      obtain ⟨rfl, rfl⟩ := ih hRest (fun x hx => hFront x (mem_cons_of_mem _ hx))
        fun x hx => hFront' x (mem_cons_of_mem _ hx)
      exact ⟨rfl, rfl⟩

theorem exists_first {α : Type} {kind : α → Prop} {l : List α} (h : ∃ x ∈ l, kind x) :
    ∃ front a back, l = front ++ a :: back ∧ kind a ∧ ∀ x ∈ front, ¬kind x := by
  induction l with
  | nil =>
    obtain ⟨_, hx, _⟩ := h
    cases hx
  | cons first rest ih =>
    by_cases hFirst : kind first
    · exact ⟨[], first, rest, rfl, hFirst, nofun⟩
    · obtain ⟨x, hx, hKind⟩ := h
      rcases mem_cons.mp hx with rfl | hx
      · exact absurd hKind hFirst
      · obtain ⟨front, a, back, rfl, ha, hFront⟩ := ih ⟨x, hx, hKind⟩
        exact ⟨first :: front, a, back, rfl, ha, forall_mem_cons.mpr ⟨hFirst, hFront⟩⟩

theorem stand_congr {first second : Candidate} (h : first.path = second.path) :
    stand surroundings ask request outputs first = stand surroundings ask request outputs second := by
  rw [stand, stand, h]

theorem not_meets_of_refused_front (hOffered : offered request = front ++ back)
    (hWhole : ∀ candidate, IsTried surroundings ask request candidate →
      Meets surroundings ask request candidate → ¬LacksZeros surroundings ask request candidate)
    (h : AllRefused surroundings ask request (own ask request) front) :
    ∀ candidate ∈ front, ¬Meets surroundings ask request candidate := by
  intro candidate hMem hMeets
  obtain ⟨before, first, after, rfl, hFirst, hBefore⟩ := exists_first ⟨candidate, hMem, hMeets⟩
  have hTried : IsTried surroundings ask request first :=
    ⟨before, after ++ back, by rw [hOffered, append_assoc, cons_append], hFirst.there, hBefore⟩
  obtain ⟨version, capabilities, hStand⟩ := accepted_of_meets hFirst (hWhole first hTried hFirst)
  have hRefused := h first (by simp) hFirst.there
  rw [hStand] at hRefused
  exact not_isRefused_accepted hRefused

theorem firstReason_congr (candidates considered : List _)
    (h : ∀ front candidate back, candidates = front ++ candidate :: back →
      surroundings.exists' candidate.path = true →
      (∀ earlier ∈ front, surroundings.exists' earlier.path = false) →
      stand surroundings ask request outputs candidate = stand surroundings ask request outputs' candidate) :
    firstReason surroundings ask request outputs candidates considered =
      firstReason surroundings ask request outputs' candidates considered := by
  induction candidates generalizing considered with
  | nil => rfl
  | cons candidate rest ih =>
    rw [firstReason, firstReason]
    split
    · rename_i hThere
      rw [h [] candidate rest rfl hThere (forall_mem_nil _)]
    · rename_i hMissing
      refine ih _ fun front found back hSplit hThere hFront => h (candidate :: front) found back ?_ hThere ?_
      · rw [hSplit, cons_append]
      · exact forall_mem_cons.mpr ⟨Bool.eq_false_iff.mpr hMissing, hFront⟩

theorem failure_congr (h : ∀ candidate, IsFirst surroundings request candidate →
      stand surroundings ask request outputs candidate = stand surroundings ask request outputs' candidate) :
    failure surroundings ask request outputs = failure surroundings ask request outputs' := by
  have hReason : firstReason surroundings ask request outputs (offered request) [] =
      firstReason surroundings ask request outputs' (offered request) [] :=
    firstReason_congr _ _ fun front candidate back hSplit hThere hFront =>
      h candidate ⟨front, back, hSplit, hThere, hFront⟩
  unfold failure
  split
  · rename_i hNone
    rw [offered_of_none hNone] at hReason
    rw [exhausted, exhausted, hReason]
  · rename_i candidate hSome
    rw [offered_of_some hSome] at hReason
    rw [hReason]

variable {availability : Availability} {detail : Text} {version : Option Text}
  {capabilities : List Text} {looked' : List Candidate} {resolution : Resolution}

theorem firstReason_of_first {hRefused} (hThere : surroundings.exists' candidate.path = true)
    (hFront : ∀ earlier ∈ front, surroundings.exists' earlier.path = false)
    (h : stand surroundings ask request outputs candidate = .ok (.refused availability detail hRefused))
    (considered : List Text) : ∃ passedOver,
      firstReason surroundings ask request outputs (front ++ candidate :: back) considered =
        some (refusal request candidate passedOver availability detail hRefused) := by
  induction front generalizing considered with
  | nil =>
    refine ⟨considered, ?_⟩
    rw [nil_append, firstReason, if_pos hThere, h]
  | cons missing front ih =>
    obtain ⟨hMissing, hRest⟩ := forall_mem_cons.mp hFront
    obtain ⟨passedOver, hReason⟩ := ih hRest (considered ++ [missing.path])
    refine ⟨passedOver, ?_⟩
    rw [cons_append, firstReason, if_neg (Bool.eq_false_iff.mp hMissing), hReason]

theorem failure_of_first {hRefused} (hFirst : IsFirst surroundings request candidate)
    (h : stand surroundings ask request outputs candidate = .ok (.refused availability detail hRefused)) :
    (failure surroundings ask request outputs).availability = availability ∧
      (failure surroundings ask request outputs).detail = detail := by
  obtain ⟨front, back, hSplit, hThere, hFront⟩ := hFirst
  have hSome : ∃ passedOver, firstReason surroundings ask request outputs (front ++ candidate :: back) [] =
      some (refusal request candidate passedOver availability detail hRefused) :=
    firstReason_of_first hThere hFront h []
  obtain ⟨passedOver, hReason⟩ := hSome
  unfold failure
  split
  · rename_i hNone
    rw [← hSplit, offered_of_none hNone] at hReason
    rw [exhausted, hReason]
    exact ⟨rfl, rfl⟩
  · rename_i found hSome
    rw [← hSplit, offered_of_some hSome] at hReason
    rw [hReason]
    exact ⟨rfl, rfl⟩

theorem stand_eq_of_failure_eq (hFirst : IsFirst surroundings request candidate)
    (hRefused : IsRefused (stand surroundings ask request outputs candidate))
    (hRefused' : IsRefused (stand surroundings ask request outputs' candidate))
    (h : failure surroundings ask request outputs = failure surroundings ask request outputs') :
    stand surroundings ask request outputs candidate = stand surroundings ask request outputs' candidate := by
  obtain ⟨availability, detail, hNot, hStand⟩ := hRefused
  obtain ⟨availability', detail', hNot', hStand'⟩ := hRefused'
  obtain ⟨hAvailability, hDetail⟩ := failure_of_first hFirst hStand
  obtain ⟨hAvailability', hDetail'⟩ := failure_of_first hFirst hStand'
  rw [h, hAvailability'] at hAvailability
  rw [h, hDetail'] at hDetail
  subst hAvailability hDetail
  rw [hStand, hStand']

theorem failure_origin (h : request.candidates.find? (·.explicit) = some candidate) :
    (failure surroundings ask request outputs).origin = originOf request candidate := by
  rw [failure, h]
  dsimp only
  rw [firstReason]
  split
  · split <;> rfl
  · rfl

theorem failure_considered (h : request.candidates.find? (·.explicit) = none) :
    (failure surroundings ask request outputs).considered = request.candidates.map (·.path) := by
  rw [failure, h]
  dsimp only
  rw [exhausted]
  cases firstReason surroundings ask request outputs request.candidates [] <;> rfl

/-! ## Fitting requests -/

theorem view_nil : view ask request [] = own ask request := rfl

theorem AllRefused.no_accepted {candidates : List Candidate}
    (h : AllRefused surroundings ask request outputs candidates) (hMem : candidate ∈ candidates)
    (hThere : surroundings.exists' candidate.path = true)
    (hStand : stand surroundings ask request outputs candidate = .ok (.accepted version capabilities)) :
    False := by
  have hRefused := h candidate hMem hThere
  rw [hStand] at hRefused
  exact not_isRefused_accepted hRefused

theorem Fits.allRefused (h : Fits surroundings ask earlier request) {candidates : List Candidate}
    (hTried : ∀ candidate ∈ candidates, surroundings.exists' candidate.path = true →
      IsTried surroundings ask request candidate)
    (hAll : AllRefused surroundings ask request (own ask request) candidates) :
    AllRefused surroundings ask request (outputsAfter surroundings ask earlier request) candidates := by
  intro candidate hMem hThere
  rcases h.alike candidate (hTried candidate hMem hThere) with ⟨-, hRefused⟩ | ⟨_, _, hAccepted, -⟩
  · exact hRefused
  · exact absurd hAccepted fun hStand => hAll.no_accepted hMem hThere hStand

theorem tried_of_front (hSplit : offered request = front ++ back)
    (hFront : ∀ candidate ∈ front, ¬Meets surroundings ask request candidate) {candidate : Candidate}
    (hMem : candidate ∈ front) (hThere : surroundings.exists' candidate.path = true) :
    IsTried surroundings ask request candidate := by
  obtain ⟨before, after, rfl⟩ := append_of_mem hMem
  refine ⟨before, after ++ back, ?_, hThere, fun x hx => hFront x (mem_append_left _ hx)⟩
  rw [hSplit, append_assoc, cons_append]

theorem mem_of_tried {tried : Candidate} (hSplit : offered request = front ++ candidate :: back)
    (hMeets : Meets surroundings ask request candidate)
    (hTried : IsTried surroundings ask request tried) :
    tried ∈ front ++ [candidate] ∧ surroundings.exists' tried.path = true := by
  obtain ⟨before, after, hOther, hThere, hBefore⟩ := hTried
  refine ⟨?_, hThere⟩
  rcases append_eq_append_iff.mp (hSplit.symm.trans hOther) with ⟨more, rfl, hRest⟩ | ⟨more, rfl, hRest⟩
  · cases more with
    | nil =>
      cases hRest
      simp
    | cons first more =>
      cases hRest
      exact absurd hMeets (hBefore candidate (by simp))
  · cases more with
    | nil | cons first more =>
      cases hRest
      simp

theorem Fits.courses (h : Fits surroundings ask earlier request) :
    ∃ resolution looked, Course surroundings ask request (own ask request) (.ok resolution) looked ∧
      Course surroundings ask request (outputsAfter surroundings ask earlier request) (.ok resolution)
        looked ∧
      IsAnswer surroundings ask request resolution ∧
      ∀ candidate, IsTried surroundings ask request candidate ↔
        candidate ∈ looked ∧ surroundings.exists' candidate.path = true := by
  rcases allRefused_or (own ask request) (offered request) with
    hAll | ⟨front, candidate, back, hSplit, hFront, hThere, hNot⟩
  · have hNone : ∀ candidate ∈ offered request, ¬Meets surroundings ask request candidate :=
      not_meets_of_refused_front (append_nil _).symm h.whole hAll
    have hTried : ∀ candidate, IsTried surroundings ask request candidate ↔
        candidate ∈ offered request ∧ surroundings.exists' candidate.path = true := by
      intro candidate
      constructor
      · rintro ⟨front, back, hSplit, hThere, -⟩
        exact ⟨by rw [hSplit]; simp, hThere⟩
      · rintro ⟨hMem, hThere⟩
        exact tried_of_front (append_nil _).symm hNone hMem hThere
    have hOut := Course.out hAll
    have hAfter := Course.out
      (h.allRefused (fun candidate hMem hThere => (hTried candidate).mpr ⟨hMem, hThere⟩) hAll)
    rw [failure_congr (h.reason hNone)] at hAfter
    exact ⟨_, _, hOut, hAfter, .none hNone (fun _ => failure_origin) failure_considered, hTried⟩
  · have hNone := not_meets_of_refused_front hSplit h.whole hFront
    have hTried : IsTried surroundings ask request candidate := ⟨front, back, hSplit, hThere, hNone⟩
    rcases h.alike candidate hTried with ⟨hRefused, -⟩ | ⟨version, capabilities, hStand, hSame⟩
    · exact absurd hRefused hNot
    · obtain ⟨hMeets, -⟩ := meets_of_accepted hThere hStand
      have hFrontAfter := h.allRefused (fun x hx hxThere => tried_of_front hSplit hNone hx hxThere) hFront
      refine ⟨_, _, .taken hSplit hFront hThere hStand, .taken hSplit hFrontAfter hThere (hSame.trans hStand),
        .chosen hSplit hNone hMeets rfl rfl rfl, fun x => ⟨mem_of_tried hSplit hMeets, ?_⟩⟩
      rintro ⟨hMem, hxThere⟩
      rcases mem_append.mp hMem with hMem | hMem
      · exact tried_of_front hSplit hNone hMem hxThere
      · rw [mem_singleton.mp hMem]
        exact hTried

theorem Course.unique {result result' : Result Resolution} (h : Course surroundings ask request outputs result
    looked)
    (h' : Course surroundings ask request outputs result' looked') : result = result' ∧ looked = looked' := by
  have hStops {front : List Candidate} (hFront : AllRefused surroundings ask request outputs front) :
      ∀ x ∈ front, ¬(surroundings.exists' x.path = true ∧
        ¬IsRefused (stand surroundings ask request outputs x)) :=
    fun x hx hBoth => hBoth.2 (hFront x hx hBoth.1)
  have hRaised (e : PyError) : ¬IsRefused (.error e) := by
    rintro ⟨_, _, _, hEq⟩
    cases hEq
  cases h with
  | out hAll =>
    cases h' with
    | out _ => exact ⟨rfl, rfl⟩
    | taken hSplit' _ hThere' hStand' =>
      exact (hAll.no_accepted (by rw [hSplit']; simp) hThere' hStand').elim
    | raised hSplit' _ hThere' hStand' =>
      have hRefused := hAll _ (by rw [hSplit']; simp) hThere'
      rw [hStand'] at hRefused
      exact absurd hRefused (hRaised _)
  | taken hSplit hFront hThere hStand =>
    cases h' with
    | out hAll' => exact (hAll'.no_accepted (by rw [hSplit]; simp) hThere hStand).elim
    | taken hSplit' hFront' hThere' hStand' =>
      obtain ⟨rfl, rfl⟩ := split_unique (hSplit.symm.trans hSplit') (hStops hFront)
        ⟨hThere, by rw [hStand]; exact not_isRefused_accepted⟩ (hStops hFront')
        ⟨hThere', by rw [hStand']; exact not_isRefused_accepted⟩
      cases hStand.symm.trans hStand'
      exact ⟨rfl, rfl⟩
    | raised hSplit' hFront' hThere' hStand' =>
      obtain ⟨rfl, rfl⟩ := split_unique (hSplit.symm.trans hSplit') (hStops hFront)
        ⟨hThere, by rw [hStand]; exact not_isRefused_accepted⟩ (hStops hFront')
        ⟨hThere', by rw [hStand']; exact hRaised _⟩
      cases hStand.symm.trans hStand'
  | raised hSplit hFront hThere hStand =>
    cases h' with
    | out hAll' =>
      have hRefused := hAll' _ (by rw [hSplit]; simp) hThere
      rw [hStand] at hRefused
      exact absurd hRefused (hRaised _)
    | taken hSplit' hFront' hThere' hStand' =>
      obtain ⟨rfl, rfl⟩ := split_unique (hSplit.symm.trans hSplit') (hStops hFront)
        ⟨hThere, by rw [hStand]; exact hRaised _⟩ (hStops hFront')
        ⟨hThere', by rw [hStand']; exact not_isRefused_accepted⟩
      cases hStand.symm.trans hStand'
    | raised hSplit' hFront' hThere' hStand' =>
      obtain ⟨rfl, rfl⟩ := split_unique (hSplit.symm.trans hSplit') (hStops hFront)
        ⟨hThere, by rw [hStand]; exact hRaised _⟩ (hStops hFront')
        ⟨hThere', by rw [hStand']; exact hRaised _⟩
      cases hStand.symm.trans hStand'
      exact ⟨rfl, rfl⟩

theorem taken_is_first {passedOver : List Text} (hSplit : offered request = front ++ candidate :: back)
    (hFront : AllRefused surroundings ask request (own ask request) front)
    (hThere : surroundings.exists' candidate.path = true)
    (hStand : stand surroundings ask request (own ask request) candidate =
      .ok (.accepted version capabilities))
    (h : IsAnswer surroundings ask request (.resolved (choice surroundings request candidate passedOver
      version capabilities [] hThere))) : ∀ x ∈ front, ¬Meets surroundings ask request x := by
  cases h with
  | @chosen front' back' other _ hSplit' hFront' hMeets' hPath _ _ =>
    have hAccepted : ¬IsRefused (stand surroundings ask request (own ask request) other) := by
      rw [← stand_congr hPath, hStand]
      exact not_isRefused_accepted
    intro x hx hMeets
    obtain ⟨before, first, after, rfl, hFirst, hBefore⟩ := exists_first ⟨x, hx, hMeets⟩
    have hSplitFirst : offered request = before ++ first :: (after ++ candidate :: back) := by
      rw [hSplit, append_assoc, cons_append]
    obtain ⟨-, rfl⟩ := split_unique (hSplitFirst.symm.trans hSplit') hBefore hFirst hFront' hMeets'
    exact hAccepted (hFront first (by simp) hFirst.there)

theorem Course.of_ok (h : Course surroundings ask request outputs (.ok resolution) looked) :
    (∃ (front : List Candidate) (candidate : Candidate) (back : List Candidate) (version : Option Text)
        (capabilities : List Text) (hThere : surroundings.exists' candidate.path = true),
      offered request = front ++ candidate :: back ∧ AllRefused surroundings ask request outputs front ∧
      stand surroundings ask request outputs candidate = .ok (.accepted version capabilities) ∧
      resolution = .resolved (choice surroundings request candidate (front.map (·.path)) version
        capabilities [] hThere)) ∨
    AllRefused surroundings ask request outputs (offered request) ∧
      resolution = .unresolved (failure surroundings ask request outputs) := by
  generalize hResult : (.ok resolution : Result Resolution) = result at h
  cases h with
  | taken hSplit hFront hThere hStand =>
    exact .inl ⟨_, _, _, _, _, hThere, hSplit, hFront, hStand, Except.ok.inj hResult⟩
  | out hAll => exact .inr ⟨hAll, Except.ok.inj hResult⟩
  | raised _ _ _ _ => cases hResult

theorem fits_of_answers (hOwn : Course surroundings ask request (own ask request) (.ok resolution) looked)
    (hAfter : Course surroundings ask request (outputsAfter surroundings ask earlier request)
      (.ok resolution) looked')
    (hAnswer : IsAnswer surroundings ask request resolution) : Fits surroundings ask earlier request := by
  rcases hOwn.of_ok with
    ⟨front, candidate, back, version, capabilities, hThere, hSplit, hFront, hStand, rfl⟩ | ⟨hAll, rfl⟩
  · obtain ⟨hMeets, hWhole⟩ := meets_of_accepted hThere hStand
    have hNone := taken_is_first hSplit hFront hThere hStand hAnswer
    rcases hAfter.of_ok with ⟨front', other, back', version', capabilities', hThere', hSplit', hFront',
      hStand', hSame⟩ | ⟨-, hSame⟩
    · -- the paths passed over tell how far the search came
      have hTool := Resolution.resolved.inj hSame
      have hPassed : front.map (·.path) = front'.map (·.path) := congrArg ResolvedTool.passedOver hTool
      have hLength : front.length = front'.length := by
        have hPaths := congrArg List.length hPassed
        rwa [length_map, length_map] at hPaths
      obtain ⟨rfl, hRest⟩ := append_inj (hSplit.symm.trans hSplit') hLength
      cases hRest
      obtain rfl : version = version' := congrArg ResolvedTool.version hTool
      obtain rfl : capabilities = capabilities' := congrArg ResolvedTool.capabilities hTool
      refine ⟨?_, ?_, fun hAlone => absurd hMeets (hAlone candidate (by rw [hSplit]; simp))⟩
      · rintro tried ⟨before, after, hOther, -, hBefore⟩ hTriedMeets
        obtain ⟨-, rfl⟩ := split_unique (hSplit.symm.trans hOther) hNone hMeets hBefore hTriedMeets
        exact hWhole
      · intro tried hTried
        obtain ⟨hMem, hTriedThere⟩ := mem_of_tried hSplit hMeets hTried
        rcases mem_append.mp hMem with hMem | hMem
        · exact .inl ⟨hFront tried hMem hTriedThere, hFront' tried hMem hTriedThere⟩
        · rw [mem_singleton.mp hMem]
          exact .inr ⟨version, capabilities, hStand, hStand'.trans hStand.symm⟩
    · cases hSame
  · cases hAnswer with
    | none hNone _ _ =>
      rcases hAfter.of_ok with ⟨_, _, _, _, _, _, _, _, _, hSame⟩ | ⟨hAll', hSame⟩
      · cases hSame
      · have hFailure := Resolution.unresolved.inj hSame
        refine ⟨?_, ?_, fun _ candidate hFirst => ?_⟩
        · rintro candidate ⟨front, back, hSplit, -, -⟩ hMeets
          exact absurd hMeets (hNone candidate (by rw [hSplit]; simp))
        · rintro candidate ⟨front, back, hSplit, hThere, -⟩
          have hMem : candidate ∈ offered request := by rw [hSplit]; simp
          exact .inl ⟨hAll candidate hMem hThere, hAll' candidate hMem hThere⟩
        · obtain ⟨front, back, hSplit, hThere, -⟩ := id hFirst
          have hMem : candidate ∈ offered request := by rw [hSplit]; simp
          exact stand_eq_of_failure_eq hFirst (hAll' candidate hMem hThere) (hAll candidate hMem hThere)
            hFailure.symm

/-! ## Many requests -/

def Remembers (surroundings : Surroundings) (ask : Probe) (probed : Dict Text ProbeResult)
    (earlier : List Request) : Prop := ∀ path, probed.get? path = remembered surroundings ask earlier path

theorem Remembers.view_eq (h : Remembers surroundings ask probed earlier) :
    view ask request probed = outputsAfter surroundings ask earlier request := by
  funext path
  rw [view, h path, outputsAfter]
  rfl

theorem remembered_append (path : Text) : remembered surroundings ask (earlier ++ [request]) path =
    (remembered surroundings ask earlier path).or
      (remembered surroundings ask [request] path) := by
  rw [remembered, find?_append, Option.map_or]
  rfl

open Classical in
theorem remembered_singleton (path : Text) : remembered surroundings ask [request] path =
      if Asks surroundings ask path request then some (own ask request path) else none := by
  rw [remembered, find?_singleton]
  split <;> rename_i h
  · rw [if_pos (of_decide_eq_true h)]
    rfl
  · rw [if_neg fun hAsks => h (decide_eq_true hAsks)]
    rfl

section

variable (h : Remembers surroundings ask probed earlier)
include h

theorem Remembers.record {looked : List Candidate}
    (hLooked : ∀ candidate, IsTried surroundings ask request candidate ↔
      candidate ∈ looked ∧ surroundings.exists' candidate.path = true) :
    Remembers surroundings ask (record surroundings ask request probed looked) (earlier ++ [request]) := by
  classical
  intro path
  have hAsked : (∃ candidate ∈ looked, surroundings.exists' candidate.path = true ∧ candidate.path = path) ↔
      Asks surroundings ask path request := by
    refine exists_congr fun candidate => ?_
    rw [hLooked, and_assoc]
  rw [get?_record, remembered_append, h path, remembered_singleton]
  exact congrArg _ (if_congr hAsked rfl rfl)

omit h in
/-- One request of many: answered as it would be alone, and as it should be. -/
def IsExact (surroundings : Surroundings) (ask : Probe) (request : Request) (answer : Result Resolution) :
    Prop :=
  answer = resolveFresh surroundings (some ask) request ∧
    ∃ resolution, answer = .ok resolution ∧ IsAnswer surroundings ask request resolution

theorem isExact_iff : IsExact surroundings ask request (resolve surroundings (some ask) request probed).1 ↔
      Fits surroundings ask earlier request := by
  obtain ⟨looked, hOwn, -⟩ := course surroundings ask request []
  obtain ⟨looked', hAfter, -⟩ := course surroundings ask request probed
  rw [view_nil] at hOwn
  rw [h.view_eq] at hAfter
  constructor
  · rintro ⟨hFresh, resolution, hOk, hAnswer⟩
    rw [hOk] at hAfter
    rw [← resolveFresh, ← hFresh, hOk] at hOwn
    exact fits_of_answers hOwn hAfter hAnswer
  · intro hFits
    obtain ⟨resolution, _, hOwn', hAfter', hAnswer, -⟩ := hFits.courses
    have hFresh := (hOwn.unique hOwn').1
    have hResult := (hAfter.unique hAfter').1
    exact ⟨hResult.trans hFresh.symm, resolution, hResult, hAnswer⟩

theorem Remembers.step (hFits : Fits surroundings ask earlier request) :
    Remembers surroundings ask (resolve surroundings (some ask) request probed).2 (earlier ++ [request]) := by
  obtain ⟨looked, hAfter, hRecord⟩ := course surroundings ask request probed
  rw [h.view_eq] at hAfter
  obtain ⟨resolution, _, _, hAfter', -, hLooked⟩ := hFits.courses
  obtain ⟨hResult, rfl⟩ := hAfter.unique hAfter'
  rw [hRecord resolution hResult]
  exact h.record hLooked

theorem resolveAll_exact_iff (requests : List Request) :
    List.Forall₂ (IsExact surroundings ask) requests (resolveAll surroundings (some ask) requests probed) ↔
      ∀ front request back, requests = front ++ request :: back →
        Fits surroundings ask (earlier ++ front) request := by
  induction requests generalizing probed earlier with
  | nil => exact iff_of_true .nil fun front _ _ hSplit => by simp at hSplit
  | cons first rest ih =>
    rw [resolveAll, forall₂_cons, isExact_iff h]
    constructor
    · rintro ⟨hFits, hRest⟩ front request back hSplit
      cases front with
      | nil =>
        cases hSplit
        rwa [append_nil]
      | cons _ front =>
        cases hSplit
        have hLater := (ih (h.step hFits)).mp hRest front request back rfl
        rwa [append_assoc, singleton_append] at hLater
    · intro hAll
      have hFits : Fits surroundings ask earlier first := by
        have hFirst := hAll [] first rest rfl
        rwa [append_nil] at hFirst
      refine ⟨hFits, (ih (h.step hFits)).mpr fun front request back hSplit => ?_⟩
      rw [append_assoc, singleton_append]
      exact hAll (first :: front) request back (by rw [hSplit, cons_append])

end

end

/-- Requests to one resolver are answered as each of them should be alone when, and only when, no
version lacks zeros and no path was asked before to another effect. -/
theorem resolutions_exact_iff (surroundings : Surroundings) (ask : Probe) (requests : List Request) :
    List.Forall₂ (IsExact surroundings ask) requests (resolveAll surroundings (some ask) requests []) ↔
      ∀ front request back, requests = front ++ request :: back → Fits surroundings ask front request :=
  resolveAll_exact_iff (show Remembers surroundings ask [] [] from fun _ => rfl) requests

def Resolution.usable : Resolution → Bool
  | resolved _ => true
  | unresolved _ => false

def bareSurroundings : Surroundings where
  exists' path := path ≠ []
  realpath := id
  decimal c := if 0x30 ≤ c.val ∧ c.val ≤ 0x39 then some (c.val - 0x30) else none
  exists_nil := rfl
  realpath_ne_nil _ h := of_decide_eq_true h

def askedWith (option : Text) : Request where
  role := .buildSystem
  name := py "qmake"
  candidates := [{ path := py "/usr/bin/qmake", source := py "PATH" }]
  versionArgv := [option]
  named := nofun

/-- A tool that knows `--version` and nothing else. -/
def knowsVersion (argv : List Text) : ProbeResult where
  exitCode := if argv.tail = [py "--version"] then 0 else 1

theorem stale_probe_answers : ¬∀ (surroundings : Surroundings) (ask : Probe) (requests : List Request),
      List.Forall₂ (IsExact surroundings ask) requests (resolveAll surroundings (some ask) requests []) := by
  intro hAll
  have hBoth := hAll bareSurroundings knowsVersion [askedWith (py "--version"), askedWith (py "-v")]
  cases hBoth with
  | cons _ hRest =>
    cases hRest with
    | cons hSecond _ =>
      have hUsable := congrArg (Except.map Resolution.usable) hSecond.1
      exact absurd hUsable (by decide)

end Ici.Toolchain
