import Ici.Application.Publish
import Ici.Library.Transition

/-! # When no older run overwrites a newer one

What the comment records is compared before the update, on the body that was found. The body may have been
rewritten since, and the path of a page says nothing of the run that wrote it. -/

namespace Ici

open Option List Python Transition

/-! ## The first comment with the marker -/

section Sticky

variable {α : Type*} {p : α → Bool} {l : List α} {k : ℕ}

theorem findIdx?_modify (h : l.findIdx? p = some k) {a : α} (ha : p a = true) :
    (l.modify k fun _ => a).findIdx? p = some k := by
  induction l generalizing k with
  | nil => exact nomatch h
  | cons b l ih =>
    rw [findIdx?_cons] at h
    cases hb : p b with
    | true =>
      rw [hb, if_pos rfl, some.injEq] at h
      subst h
      rw [modify_zero_cons, findIdx?_cons, ha, if_pos rfl]
    | false =>
      rw [hb, if_neg Bool.false_ne_true] at h
      obtain ⟨j, hj, rfl⟩ := map_eq_some_iff.mp h
      rw [modify_succ_cons, findIdx?_cons, hb, if_neg Bool.false_ne_true, ih hj, map_some]

theorem findIdx?_concat (h : l.findIdx? p = some k) (a : α) : (l ++ [a]).findIdx? p = some k := by
  rw [findIdx?_append, h, some_or]

end Sticky

section Runs

variable {ι : Type} (decimals : Decimals) (destination : Destination) (invocations : ι → Invocation)

/-- The run and the attempt the sticky comment records; nothing is less than any of them. -/
def recorded (state : PublishState ι) : WithBot (ℕ ×ₗ ℕ) :=
  (((findComment destination.marker state.comments).bind fun found => searchMeta decimals found.2).map
    fun found => toLex found : Option (ℕ ×ₗ ℕ))

/-- No invocation has begun; what is on the pull request was written by others. -/
structure PublishState.Initial (state : PublishState ι) : Prop where
  pages : state.pages = []
  comments : ∀ comment ∈ state.comments, comment.author = none
  phase : ∀ i, state.phase i = .reading

/-- The page that stands under the same twelve characters of a SHA is not of a newer run, and the comment that
was found is as it was found, or not of a newer run. -/
def Timely (state : PublishState ι) : PublishAction ι → Prop
  | .putPage i reply => reply.took = true → ∀ j,
      state.pages.get? (destination.remotePath (invocations i).sha) = some j →
        (invocations j).order ≤ (invocations i).order
  | .upsertComment i reply => reply.took = true → Legible decimals destination (invocations i) ∧
      ∀ id body, state.phase i = .upserting (some (id, body)) →
        ∀ comment, state.comments[id]? = some comment →
          comment.body = body ∨ ∃ j, comment.author = some j ∧ (invocations j).order ≤ (invocations i).order
  | _ => True

structure Kept (s t : PublishState ι) : Prop where
  comment : recorded decimals destination s ≤ recorded decimals destination t
  page : ∀ path i, s.pages.get? path = some i →
    ∃ j, t.pages.get? path = some j ∧ (invocations i).order ≤ (invocations j).order

structure Attributed (state : PublishState ι) : Prop where
  found : ∀ i id body, state.phase i = .upserting (some (id, body)) →
    state.comments.findIdx? (hasMarker destination.marker) = some id
  author : ∀ comment ∈ state.comments, ∀ j, comment.author = some j →
    searchMeta decimals comment.body = some ((invocations j).run, (invocations j).attempt)

variable {decimals destination invocations} {s t : PublishState ι}

theorem Attributed.start (h : s.Initial) : Attributed decimals destination invocations s where
  found i id body hPhase := by rw [h.phase i] at hPhase; cases hPhase
  author comment hMem j hAuthor := by rw [h.comments comment hMem] at hAuthor; cases hAuthor

theorem Kept.trans {u : PublishState ι} (hst : Kept decimals destination invocations s t)
    (htu : Kept decimals destination invocations t u) : Kept decimals destination invocations s u := by
  refine ⟨hst.comment.trans htu.comment, fun path i hi => ?_⟩
  obtain ⟨j, hj, hij⟩ := hst.page path i hi
  obtain ⟨k, hk, hjk⟩ := htu.page path j hj
  exact ⟨k, hk, hij.trans hjk⟩

variable {state : PublishState ι} {id : ℕ} {comment : Comment ι} {existing : Option (ℕ × Text)}

variable (decimals destination) in
theorem recorded_of_found (hFound : state.comments.findIdx? (hasMarker destination.marker) = some id)
    (hComment : state.comments[id]? = some comment) :
    recorded decimals destination state =
      ((searchMeta decimals comment.body).map fun found => toLex found : Option (ℕ ×ₗ ℕ)) := by
  rw [recorded, findComment, hFound, bind_some, hComment, map_some, bind_some]

variable (decimals destination) in
theorem recorded_of_none (hNone : state.comments.findIdx? (hasMarker destination.marker) = none) :
    recorded decimals destination state = ⊥ := by
  rw [recorded, findComment, hNone]
  rfl

theorem recorded_congr (h : t.comments = s.comments) :
    recorded decimals destination t = recorded decimals destination s := by
  rw [recorded, recorded, h]

theorem exists_comment_of_findIdx? {p : Comment ι → Bool} (h : s.comments.findIdx? p = some id) :
    ∃ comment, s.comments[id]? = some comment := by
  obtain ⟨hLess, -, -⟩ := findIdx?_eq_some_iff_getElem.mp h
  exact ⟨_, getElem?_eq_getElem hLess⟩

theorem upsert_found {k : ℕ} (hMarker : destination.marker <:+: comment.body) (hExisting : ∀ found ∈ existing,
      s.comments.findIdx? (hasMarker destination.marker) = some found.1)
    (h : s.comments.findIdx? (hasMarker destination.marker) = some k) :
    (upsert s.comments existing comment).findIdx? (hasMarker destination.marker) =
      some k := by
  cases existing with
  | none => exact findIdx?_concat h comment
  | some found =>
    obtain rfl : found.1 = k := some.inj ((hExisting found rfl).symm.trans h)
    exact findIdx?_modify h (decide_eq_true hMarker)

theorem mem_upsert {comments : List (Comment ι)} {other : Comment ι}
    (h : other ∈ upsert comments existing comment) : other = comment ∨ other ∈ comments := by
  cases existing with
  | none =>
    rw [upsert, mem_append, mem_singleton] at h
    exact h.symm
  | some found =>
    obtain ⟨k, hk⟩ := mem_iff_getElem?.mp h
    rw [upsert, getElem?_modify] at hk
    obtain ⟨before, hBefore, hOther⟩ := map_eq_some_iff.mp hk
    split_ifs at hOther
    · exact .inl hOther.symm
    · exact .inr (hOther ▸ mem_of_getElem? hBefore)

theorem recorded_upsert (h : Attributed decimals destination invocations s) {i : ι} {reply : Reply}
    {existing : Option (ℕ × Text)}
    (hTimely : Timely decimals destination invocations s (.upsertComment i reply)) (hTook : reply.took = true)
    (hPhase : s.phase i = .upserting existing)
    (hNewer : ∀ found ∈ existing, newerRunAlready decimals found.2 (invocations i) = false)
    (hComments : t.comments = upsert s.comments existing ⟨destination.commentBody (invocations i), some i⟩) :
    recorded decimals destination s ≤ recorded decimals destination t := by
  obtain ⟨hLegible, hOthers⟩ := hTimely hTook
  cases existing with
  | none =>
    -- the new comment stands behind every other
    cases hFound : s.comments.findIdx? (hasMarker destination.marker) with
    | none =>
      rw [recorded_of_none decimals destination hFound]
      exact bot_le
    | some k =>
      obtain ⟨comment, hComment⟩ := exists_comment_of_findIdx? hFound
      have hAfter : t.comments[k]? = some comment := by
        rw [hComments, upsert, getElem?_append_left (List.getElem?_eq_some_iff.mp hComment).1, hComment]
      have hFoundAfter := findIdx?_concat hFound ⟨destination.commentBody (invocations i), some i⟩
      rw [recorded_of_found decimals destination hFound hComment,
        recorded_of_found decimals destination (hComments ▸ hFoundAfter) hAfter]
      exact le_refl _
  | some found =>
    obtain ⟨k, body⟩ := found
    have hFound := h.found i k body hPhase
    obtain ⟨comment, hComment⟩ := exists_comment_of_findIdx? hFound
    have hFoundAfter :
        (upsert s.comments (some (k, body)) ⟨destination.commentBody (invocations i), some i⟩).findIdx?
          (hasMarker destination.marker) = some k := by
      refine upsert_found (marker_infix_commentBody destination _) (fun found hExisting => ?_) hFound
      rw [← some.inj hExisting]
      exact hFound
    have hAfter : t.comments[k]? = some ⟨destination.commentBody (invocations i), some i⟩ := by
      rw [hComments, upsert, getElem?_modify_eq, hComment]
      rfl
    rw [recorded_of_found decimals destination hFound hComment,
      recorded_of_found decimals destination (hComments ▸ hFoundAfter) hAfter,
      hLegible.searchMeta_commentBody]
    have hOwn := hNewer (k, body) rfl
    rcases hOthers k body hPhase comment hComment with hBody | ⟨j, hAuthor, hOrder⟩
    · rw [hBody]
      rw [newerRunAlready] at hOwn
      cases hMeta : searchMeta decimals body with
      | none => exact bot_le
      | some found =>
        simp only [hMeta, decide_eq_false_iff_not, not_lt] at hOwn
        exact WithBot.coe_le_coe.mpr hOwn
    · rw [h.author comment (mem_of_getElem? hComment) j hAuthor]
      exact WithBot.coe_le_coe.mpr hOrder

/-! ## What a step does -/

variable [DecidableEq ι] {action : PublishAction ι}

@[simp] theorem PublishState.goTo_pages (i : ι) (phase : PublishPhase) :
    (s.goTo i phase).pages = s.pages := rfl

@[simp] theorem PublishState.goTo_comments (i : ι) (phase : PublishPhase) :
    (s.goTo i phase).comments = s.comments := rfl

theorem PublishState.goTo_phase (i j : ι) (phase : PublishPhase) :
    (s.goTo i phase).phase j = if j = i then phase else s.phase j := Function.update_apply _ _ _ _

section

variable (h : publishStep decimals destination invocations s action = some t)
include h

theorem publishStep_cases : (t.pages = s.pages ∧ t.comments = s.comments) ∨
    (∃ i reply, action = .putPage i reply ∧ reply.took = true ∧ t.comments = s.comments ∧
      t.pages = s.pages.set (destination.remotePath (invocations i).sha) i) ∨
    (∃ i reply existing, action = .upsertComment i reply ∧ reply.took = true ∧
      s.phase i = .upserting existing ∧
      (∀ found ∈ existing, newerRunAlready decimals found.2 (invocations i) = false) ∧
      t.pages = s.pages ∧
      t.comments = upsert s.comments existing ⟨destination.commentBody (invocations i), some i⟩) := by
  cases action with
  | push _ | stop _ =>
    obtain rfl := some.inj h
    exact .inl ⟨rfl, rfl⟩
  | readHead i _ | ensureBranch i _ | findComment i _ =>
    cases hPhase : s.phase i <;> simp only [publishStep, hPhase, some.injEq, reduceCtorEq] at h
    subst h
    exact .inl ⟨rfl, rfl⟩
  | putPage i reply =>
    cases hPhase : s.phase i <;> simp only [publishStep, hPhase, some.injEq, reduceCtorEq] at h
    subst h
    cases hTook : reply.took with
    | false => exact .inl ⟨by simp, rfl⟩
    | true => exact .inr (.inl ⟨i, reply, rfl, hTook, rfl, by simp⟩)
  | upsertComment i reply =>
    cases hPhase : s.phase i <;> simp only [publishStep, hPhase, some.injEq, reduceCtorEq] at h
    rename_i existing
    subst h
    cases hWrites :
        (existing.any fun found => newerRunAlready decimals found.2 (invocations i)) || !reply.took with
    | true => exact .inl ⟨rfl, by simp⟩
    | false =>
      have hBoth := hWrites
      rw [Bool.or_eq_false_iff, Bool.not_eq_false'] at hBoth
      refine .inr (.inr ⟨i, reply, existing, rfl, hBoth.2, hPhase, ?_, rfl, by simp⟩)
      intro found hFound
      rw [mem_def.mp hFound, any_some] at hBoth
      exact hBoth.1

theorem publishStep_found {i : ι}
    {id : ℕ} {body : Text} (hPhase : t.phase i = .upserting (some (id, body))) :
    s.phase i = .upserting (some (id, body)) ∨
      (findComment destination.marker s.comments = some (id, body) ∧ t.comments = s.comments) := by
  cases action with
  | push sha =>
    obtain rfl := some.inj h
    exact .inl hPhase
  | stop j =>
    obtain rfl := some.inj h
    rw [PublishState.goTo_phase] at hPhase
    split_ifs at hPhase
    exact .inl hPhase
  | findComment j answered =>
    cases hj : s.phase j <;> simp only [publishStep, hj, some.injEq, reduceCtorEq] at h
    subst h
    rw [PublishState.goTo_phase] at hPhase
    split_ifs at hPhase with hi hAnswered
    · exact .inr ⟨by simpa using hPhase, rfl⟩
    · exact absurd hPhase (by simp)
    · exact .inl hPhase
  | readHead j _ | ensureBranch j _ | putPage j _ | upsertComment j _ =>
    cases hj : s.phase j <;> simp only [publishStep, hj, some.injEq, reduceCtorEq] at h
    subst h
    rw [PublishState.goTo_phase] at hPhase
    split_ifs at hPhase
    all_goals exact .inl hPhase

end

section

variable (h : Attributed decimals destination invocations s)
  (hTimely : Timely decimals destination invocations s action)
  (hStep : publishStep decimals destination invocations s action = some t)
include h hTimely hStep

theorem Attributed.step : Attributed decimals destination invocations t := by
  constructor
  · intro i id body hPhase
    rcases publishStep_found hStep hPhase with hBefore | ⟨hFound, hSame⟩
    · have hId := h.found i id body hBefore
      rcases publishStep_cases hStep with ⟨-, hSame⟩ | ⟨j, reply, -, -, hSame, -⟩ | ⟨j, reply, existing, -, -,
        hUpserting, -, -, hComments⟩
      · rw [hSame]
        exact hId
      · rw [hSame]
        exact hId
      · rw [hComments]
        refine upsert_found (marker_infix_commentBody destination (invocations j)) ?_ hId
        rintro ⟨k, found⟩ hExisting
        rw [mem_def] at hExisting
        exact h.found j k found (hExisting ▸ hUpserting)
    · rw [hSame]
      obtain ⟨k, hk, hBody⟩ := bind_eq_some_iff.mp hFound
      obtain ⟨comment, -, hPair⟩ := map_eq_some_iff.mp hBody
      rw [hk, (Prod.mk.inj hPair).1]
  · rcases publishStep_cases hStep with ⟨-, hSame⟩ | ⟨j, reply, -, -, hSame, -⟩ | hWritten
    · rw [hSame]
      exact h.author
    · rw [hSame]
      exact h.author
    · obtain ⟨i, reply, existing, rfl, hTook, -, -, -, hComments⟩ := hWritten
      intro comment hMem j hAuthor
      rw [hComments] at hMem
      rcases mem_upsert hMem with rfl | hMem
      · obtain rfl := some.inj hAuthor
        exact (hTimely hTook).1.searchMeta_commentBody
      · exact h.author comment hMem j hAuthor

theorem Kept.step : Kept decimals destination invocations s t := by
  rcases publishStep_cases hStep with ⟨hPages, hSame⟩ | ⟨i, reply, rfl, hTook, hSame, hPages⟩ | hWritten
  · refine ⟨(recorded_congr hSame).ge, fun path j hj => ⟨j, ?_, le_refl _⟩⟩
    rw [hPages, hj]
  · refine ⟨(recorded_congr hSame).ge, fun path j hj => ?_⟩
    by_cases hPath : destination.remotePath (invocations i).sha = path
    · subst hPath
      exact ⟨i, by rw [hPages, Dict.get?_set_self], hTimely hTook j hj⟩
    · exact ⟨j, by rw [hPages, Dict.get?_set_of_ne hPath, hj], le_refl _⟩
  · obtain ⟨i, reply, existing, rfl, hTook, hPhase, hNewer, hPages, hComments⟩ := hWritten
    refine ⟨recorded_upsert h hTimely hTook hPhase hNewer hComments, fun path j hj => ⟨j, ?_, le_refl _⟩⟩
    rw [hPages, hj]

end

variable (decimals destination invocations) in
def TimelyStep (s t : PublishState ι) : Prop :=
  ∃ action, Timely decimals destination invocations s action ∧
    publishStep decimals destination invocations s action = some t

/-- Where each write is timely, the comment never goes back to an older run, and no older page replaces a
newer one. -/
theorem stale_run_clobbers_nothing {start : PublishState ι} (hStart : start.Initial)
    (hs : Reaches (TimelyStep decimals destination invocations) start s)
    (ht : Reaches (TimelyStep decimals destination invocations) s t) :
    Kept decimals destination invocations s t := by
  have hStep (a b : PublishState ι) (h : Attributed decimals destination invocations a)
      (hab : TimelyStep decimals destination invocations a b) :
      Attributed decimals destination invocations b := by
    obtain ⟨action, hTimely, hab⟩ := hab
    exact h.step hTimely hab
  have hAttributed := hs.invariant hStep (Attributed.start hStart)
  induction ht with
  | refl => exact ⟨le_refl _, fun path i hi => ⟨i, hi, le_refl _⟩⟩
  | tail hPrior hLast ih =>
    obtain ⟨action, hTimely, hLast⟩ := hLast
    exact ih.trans (Kept.step (Reaches.invariant hStep hPrior hAttributed) hTimely hLast)

end Runs

/-! ## Two runs of one commit -/

def asciiDecimals : Decimals where
  value c := if isDigit c then some (c.val - 0x30) else none
  ascii := fun (_ : Fin 0x110000) _ => rfl

def ofCommit (run : ℕ) : Invocation where
  sha := py "0a1b2c3"
  run := run
  attempt := 1
  report := { verdict := py "GREEN" }

def twoRuns (second : Bool) : Invocation := ofCommit (if second then 2 else 1)

def pullRequest : Destination := ⟨py "app", 7⟩

def twoRunsStart : PublishState Bool where
  head := py "0a1b2c3"
  pages := []
  comments := [⟨pullRequest.marker, none⟩]
  phase _ := .reading

theorem twoRunsStart_initial : twoRunsStart.Initial where
  pages := rfl
  comments := by simp [twoRunsStart]
  phase _ := rfl

def publishAll (state : PublishState Bool) (actions : List (PublishAction Bool)) :
    Option (PublishState Bool) :=
  actions.foldlM (publishStep asciiDecimals pullRequest twoRuns) state

theorem legible_twoRuns (second : Bool) : Legible asciiDecimals pullRequest (twoRuns second) where
  hexadecimal := by cases second <;> exact all_eq_true.mp rfl
  long := by cases second <;> decide
  short := by cases second <;> decide
  lines := by cases second <;> decide

theorem first_run_kept : ∃ s t,
    publishAll twoRunsStart [.readHead false true, .ensureBranch false true] = some s ∧
    publishAll s [.putPage false .accepted, .findComment false true, .upsertComment false .accepted] =
      some t ∧
    Kept asciiDecimals pullRequest twoRuns s t := by
  refine ⟨_, _, rfl, rfl, stale_run_clobbers_nothing twoRunsStart_initial
    (.head ⟨.readHead false true, trivial, rfl⟩ (.single ⟨.ensureBranch false true, trivial, rfl⟩))
    (.head ⟨.putPage false .accepted, ?_, rfl⟩ (.head ⟨.findComment false true, trivial, rfl⟩
      (.single ⟨.upsertComment false .accepted, ?_, rfl⟩)))⟩
  · intro _ j hj
    cases hj
  · intro _
    refine ⟨legible_twoRuns false, fun id body hPhase comment hComment => .inl ?_⟩
    obtain ⟨rfl, rfl⟩ := Prod.mk.inj (some.inj (PublishPhase.upserting.inj hPhase))
    exact congrArg Comment.body (some.inj hComment).symm

/-- The page of the run 2 is replaced by the page of the run 1, and then its comment is. -/
theorem first_run_clobbers_second : ∃ s t u,
    publishAll twoRunsStart [.readHead false true, .readHead true true, .ensureBranch false true,
      .ensureBranch true true, .putPage true .accepted] = some s ∧
    publishAll s [.putPage false .accepted, .findComment false true, .findComment true true,
      .upsertComment true .accepted] = some t ∧
    publishAll t [.upsertComment false .accepted] = some u ∧
    s.pages = [(pullRequest.remotePath (py "0a1b2c3"), true)] ∧
    t.pages = [(pullRequest.remotePath (py "0a1b2c3"), false)] ∧
    recorded asciiDecimals pullRequest t = (toLex (2, 1) : ℕ ×ₗ ℕ) ∧
    recorded asciiDecimals pullRequest u = (toLex (1, 1) : ℕ ×ₗ ℕ) :=
  ⟨_, _, _, rfl, rfl, rfl, rfl, by decide, by decide, by decide⟩

end Ici
