import Mathlib.Data.Fintype.Card
import Mathlib.Order.Bounds.Defs
import Ici.Library.Dict

/-! # Augmenting searches

A slot takes a free candidate, or one whose owner finds another. Where it finds none, the items it saw and their
owners are closed: no later search leaves them, so nothing is lost by not trying again. -/

namespace Augmenting

open List Dict

universe u

structure Search (α β : Type u) where
  visited : Finset β
  owner : Dict β α

variable {α β γ : Type u} [DecidableEq β]

def Search.see (s : Search α β) (item : β) : Search α β := { s with visited := insert item s.visited }

def Search.give (s : Search α β) (item : β) (slot : α) : Search α β :=
  { s with owner := s.owner.set item slot }

/-- One slot's candidates in order; `reassign` is the search for an earlier slot. -/
def scan (reassign : α → Search α β → Option (Bool × Search α β)) (slot : α) :
    List β → Search α β → Option (Bool × Search α β)
  | [], s => some (false, s)
  | item :: rest, s =>
    if item ∈ s.visited then scan reassign slot rest s
    else match s.owner.get? item with
      | none => some (true, (s.see item).give item slot)
      | some previous =>
        match reassign previous (s.see item) with
        | none => none
        | some (true, later) => some (true, later.give item slot)
        | some (false, later) => scan reassign slot rest later

/-- `none` stands for fuel that ran out. -/
def assign (candidates : α → List β) : ℕ → α → Search α β → Option (Bool × Search α β)
  | 0, _, _ => none
  | fuel + 1, slot, s => scan (assign candidates fuel) slot (candidates slot) s

/-! ## Augmenting paths -/

variable (candidates : α → List β) (owner : Dict β α)

/-- The owners after every item of a path has passed to the slot before it. -/
inductive Augments : α → List β → Dict β α → Prop
  | free {slot item} : item ∈ candidates slot → owner.get? item = none →
      Augments slot [item] (owner.set item slot)
  | shift {slot item previous path later} : item ∈ candidates slot → owner.get? item = some previous →
      Augments previous path later → item ∉ path → Augments slot (item :: path) (later.set item slot)

def IsClosed (closed : Finset β) : Prop :=
  ∀ item ∈ closed, ∃ slot, owner.get? item = some slot ∧ ∀ other ∈ candidates slot, other ∈ closed

structure IsSound : Prop where
  nodup : owner.keys.Nodup
  accepted : ∀ pair ∈ owner, pair.1 ∈ candidates pair.2

variable {candidates owner} {slot : α} {path : List β} {later : Dict β α}

theorem IsSound.set (h : IsSound candidates owner) {item : β} (hItem : item ∈ candidates slot) :
    IsSound candidates (owner.set item slot) where
  nodup := nodup_keys_set h.nodup _ _
  accepted pair hPair := by
    rcases mem_of_mem_set hPair with rfl | hMem
    · exact hItem
    · exact h.accepted pair hMem

theorem perm_values_set (owner : Dict β α) (item : β) (slot : α) :
    ((owner.get? item).toList ++ (owner.set item slot).values).Perm (slot :: owner.values) := by
  induction owner with
  | nil => exact .refl _
  | cons pair rest ih =>
    obtain ⟨key, value⟩ := pair
    by_cases hSame : key = item
    · simpa [Dict.get?, Dict.set, Dict.values, hSame] using List.Perm.swap _ _ _
    · simp only [Dict.get?, Dict.set, Dict.values, hSame, if_false, map_cons] at ih ⊢
      exact perm_middle.trans ((ih.cons value).trans (.swap _ _ _))

theorem Augments.avoids {closed : Finset β} (h : Augments candidates owner slot path later)
    (hClosed : IsClosed candidates owner closed) :
    (∃ item ∈ candidates slot, item ∉ closed) ∧ ∀ item ∈ path, item ∉ closed := by
  induction h with
  | free hItem hOwner =>
    have hOut : _ ∉ closed := fun hMem => by
      obtain ⟨other, hOther, -⟩ := hClosed _ hMem
      cases hOwner.symm.trans hOther
    exact ⟨⟨_, hItem, hOut⟩, by simpa using hOut⟩
  | shift hItem hOwner _ _ ih =>
    obtain ⟨⟨next, hNext, hNotIn⟩, hPath⟩ := ih
    have hOut : _ ∉ closed := fun hMem => by
      obtain ⟨other, hOther, hIn⟩ := hClosed _ hMem
      cases hOwner.symm.trans hOther
      exact hNotIn (hIn next hNext)
    exact ⟨⟨_, hItem, hOut⟩, forall_mem_cons.mpr ⟨hOut, hPath⟩⟩

section

variable (h : Augments candidates owner slot path later)
include h

theorem Augments.kept : ∀ item ∉ path, later.get? item = owner.get? item := by
  induction h with
  | free _ _ => exact fun item hOut => get?_set_of_ne (fun hSame => hOut (by simp [hSame])) _ _
  | shift _ _ _ _ ih =>
    intro item hOut
    rw [mem_cons, not_or] at hOut
    exact (get?_set_of_ne (Ne.symm hOut.1) _ _).trans (ih item hOut.2)

theorem Augments.sound (hSound : IsSound candidates owner) : IsSound candidates later := by
  induction h with
  | free hItem _ => exact hSound.set hItem
  | shift hItem _ _ _ ih => exact ih.set hItem

theorem Augments.values : later.values.Perm (slot :: owner.values) := by
  induction h with
  | @free slot item _ hOwner => simpa [hOwner] using perm_values_set owner item slot
  | @shift slot item previous _ later _ hOwner hPath hOut ih =>
    have hSet := perm_values_set later item slot
    rw [hPath.kept item hOut, hOwner] at hSet
    exact (hSet.trans ((ih.cons slot).trans (.swap _ _ _))).cons_inv

end

structure Fails (candidates : α → List β) (items : List β) (s later : Search α β) : Prop where
  owner_eq : later.owner = s.owner
  visited : s.visited ⊆ later.visited
  seen : ∀ item ∈ items, item ∈ later.visited
  closed : ∀ item ∈ later.visited, item ∉ s.visited →
    ∃ slot, s.owner.get? item = some slot ∧ ∀ other ∈ candidates slot, other ∈ later.visited

def Outcome (candidates : α → List β) (slot : α) (items : List β) (s : Search α β)
    (result : Option (Bool × Search α β)) : Prop :=
  ∃ found later, result = some (found, later) ∧
    if found then ∃ path, Augments candidates s.owner slot path later.owner ∧ ∀ item ∈ path, item ∉ s.visited
    else Fails candidates items s later

theorem outcome_of_fails {items rest : List β} {s middle : Search α β} {result : Option (Bool × Search α β)}
    (h : Outcome candidates slot rest middle result) (hFails : Fails candidates items s middle) :
    Outcome candidates slot (items ++ rest) s result := by
  obtain ⟨found, later, rfl, h⟩ := h
  refine ⟨found, later, rfl, ?_⟩
  rw [hFails.owner_eq] at h
  cases found with
  | true =>
    obtain ⟨path, hPath, hOut⟩ := h
    exact ⟨path, hPath, fun item hItem hMem => hOut item hItem (hFails.visited hMem)⟩
  | false =>
    refine ⟨h.owner_eq.trans hFails.owner_eq, hFails.visited.trans h.visited, ?_, fun item hMem hOut => ?_⟩
    · exact forall_mem_append.mpr ⟨fun item hItem => h.visited (hFails.seen item hItem), h.seen⟩
    · by_cases hMiddle : item ∈ middle.visited
      · obtain ⟨other, hOwner, hIn⟩ := hFails.closed item hMiddle hOut
        exact ⟨other, hOwner, fun next hNext => h.visited (hIn next hNext)⟩
      · rw [← hFails.owner_eq]
        exact h.closed item hMem hMiddle

variable [Fintype β] {fuel : ℕ}

theorem outcome_scan {reassign : α → Search α β → Option (Bool × Search α β)}
    (hNext : ∀ previous s, s.visitedᶜ.card < fuel →
      Outcome candidates previous (candidates previous) s (reassign previous s))
    {items : List β} : ∀ {s : Search α β}, items ⊆ candidates slot → s.visitedᶜ.card < fuel + 1 →
      Outcome candidates slot items s (scan reassign slot items s) := by
  induction items with
  | nil => exact fun _ _ => ⟨false, _, rfl, rfl, subset_rfl, by simp, fun _ hIn hOut => (hOut hIn).elim⟩
  | cons item rest ih =>
    intro s hItems hFuel
    obtain ⟨hItem, hRest⟩ := cons_subset.mp hItems
    rw [scan]
    split_ifs with hMem
    · exact outcome_of_fails (ih hRest hFuel)
        (⟨rfl, subset_rfl, by simpa using hMem, fun _ hIn hOut => (hOut hIn).elim⟩ : Fails _ [item] s s)
    · split
      · rename_i hOwner
        exact ⟨true, _, rfl, [item], .free hItem hOwner, by simpa using hMem⟩
      · rename_i previous hOwner
        have hLess : (s.see item).visitedᶜ.card < s.visitedᶜ.card :=
          Finset.card_lt_card (Finset.compl_ssubset_compl.mpr (Finset.ssubset_insert hMem))
        obtain ⟨found, later, hRun, hLater⟩ := hNext previous (s.see item) (by omega)
        rw [hRun]
        cases found with
        | true =>
          obtain ⟨path, hPath, hOut⟩ := hLater
          obtain ⟨hNew, hOut⟩ : item ∉ path ∧ ∀ other ∈ path, other ∉ s.visited :=
            ⟨fun hIn => hOut item hIn (Finset.mem_insert_self _ _),
              fun other hIn hSeen => hOut other hIn (Finset.mem_insert_of_mem hSeen)⟩
          exact ⟨true, _, rfl, item :: path, .shift hItem hOwner hPath hNew,
            forall_mem_cons.mpr ⟨hMem, hOut⟩⟩
        | false =>
          have hSub : s.visited ⊆ later.visited := (Finset.subset_insert _ _).trans hLater.visited
          have hFails : Fails candidates [item] s later := by
            refine ⟨hLater.owner_eq, hSub, ?_, fun other hIn hOut => ?_⟩
            · simpa using hLater.visited (Finset.mem_insert_self _ _)
            · by_cases hSame : other = item
              · exact ⟨previous, hSame ▸ hOwner, hLater.seen⟩
              · exact hLater.closed other hIn (by simpa [Search.see, hSame] using hOut)
          have hLeft := Finset.card_le_card (Finset.compl_subset_compl.mpr hSub)
          exact outcome_of_fails (ih hRest (by omega)) hFails

theorem outcome_assign (candidates : α → List β) (fuel : ℕ) : ∀ (slot : α)
    (s : Search α β), s.visitedᶜ.card < fuel →
    Outcome candidates slot (candidates slot) s (assign candidates fuel slot s) := by
  induction fuel with
  | zero => exact fun _ _ h => (Nat.not_lt_zero _ h).elim
  | succ fuel ih => exact fun _ _ h => outcome_scan ih (List.Subset.refl _) h

/-! ## All slots in turn -/

structure Assignment (α β γ : Type u) where
  owner : Dict β α
  matched : ℕ
  failures : List γ

def place (candidates : α → List β) (report : α → γ) (state : Assignment α β γ) (slot : α) :
    Option (Assignment α β γ) :=
  match assign candidates (Fintype.card β + 1) slot ⟨∅, state.owner⟩ with
  | none => none
  | some (true, later) => some ⟨later.owner, state.matched + 1, state.failures⟩
  | some (false, _) => some { state with failures := state.failures ++ [report slot] }

structure IsMatching (candidates : α → List β) (slots : List α) (pairs : List (α × β)) : Prop where
  slots : pairs.map Prod.fst ⊆ slots
  once : (pairs.map Prod.fst).Nodup
  used : (pairs.map Prod.snd).Nodup
  accepted : ∀ pair ∈ pairs, pair.2 ∈ candidates pair.1

/-- What holds once some slots had their turn. -/
structure Settles (candidates : α → List β) (report : α → γ) (slots taken left : List α) (closed : Finset β)
    (state : Assignment α β γ) : Prop where
  perm : (taken ++ left).Perm slots
  sound : IsSound candidates state.owner
  values : state.owner.values.Perm taken
  matched : state.matched = taken.length
  failures : state.failures = left.map report
  isClosed : IsClosed candidates state.owner closed
  confined : ∀ slot ∈ left, ∀ item ∈ candidates slot, item ∈ closed

variable {report : α → γ} {slots taken left : List α} {closed : Finset β} {state : Assignment α β γ}

theorem Settles.place (h : Settles candidates report slots taken left closed state) (slot : α) :
    ∃ taken' left' closed' next, place candidates report state slot = some next ∧
      Settles candidates report (slot :: slots) taken' left' closed' next := by
  have hCard : (∅ : Finset β)ᶜ.card < Fintype.card β + 1 := Nat.lt_succ_of_le (Finset.card_le_univ _)
  obtain ⟨found, later, hRun, hLater⟩ := outcome_assign candidates _ slot ⟨∅, state.owner⟩ hCard
  unfold Augmenting.place
  rw [hRun]
  cases found with
  | true =>
    obtain ⟨path, hPath, -⟩ := hLater
    have hAvoids := (hPath.avoids h.isClosed).2
    refine ⟨slot :: taken, left, closed, _, rfl, h.perm.cons slot, hPath.sound h.sound,
      hPath.values.trans (h.values.cons slot), congrArg (· + 1) h.matched, h.failures, fun item hItem => ?_,
      h.confined⟩
    obtain ⟨other, hOwner, hIn⟩ := h.isClosed item hItem
    exact ⟨other, (hPath.kept item fun hMem => hAvoids item hMem hItem).trans hOwner, hIn⟩
  | false =>
    refine ⟨taken, left ++ [slot], closed ∪ later.visited, _, rfl, ?_, h.sound, h.values, h.matched,
      by simp [h.failures], fun item hItem => ?_, fun other hOther item hItem => ?_⟩
    · rw [← append_assoc]
      exact (perm_append_singleton _ _).trans (h.perm.cons slot)
    · rcases Finset.mem_union.mp hItem with hMem | hMem
      · obtain ⟨other, hOwner, hIn⟩ := h.isClosed item hMem
        exact ⟨other, hOwner, fun next hNext => Finset.mem_union_left _ (hIn next hNext)⟩
      · obtain ⟨other, hOwner, hIn⟩ := hLater.closed item hMem (Finset.notMem_empty _)
        exact ⟨other, hOwner, fun next hNext => Finset.mem_union_right _ (hIn next hNext)⟩
    · rcases mem_append.mp hOther with hMem | hMem
      · exact Finset.mem_union_left _ (h.confined other hMem item hItem)
      · rw [mem_singleton.mp hMem] at hItem
        exact Finset.mem_union_right _ (hLater.seen item hItem)

theorem Settles.run (later : List α) : ∀ {slots taken left closed} {state : Assignment α β γ},
    Settles candidates report slots taken left closed state →
    ∃ taken' left' closed' last, later.foldlM (Augmenting.place candidates report) state = some last ∧
      Settles candidates report (later ++ slots) taken' left' closed' last := by
  induction later with
  | nil => exact fun h => ⟨_, _, _, _, rfl, h⟩
  | cons slot later ih =>
    intro slots taken left closed state h
    obtain ⟨taken', left', closed', next, hPlace, hNext⟩ := h.place slot
    obtain ⟨taken'', left'', closed'', last, hRun, hLast⟩ := ih hNext
    refine ⟨taken'', left'', closed'', last, ?_, { hLast with perm := hLast.perm.trans perm_middle }⟩
    rw [foldlM_cons, hPlace]
    exact hRun

omit [Fintype β] in
theorem Settles.exists_matching (h : Settles candidates report slots taken left closed state)
    (hTaken : taken.Nodup) : ∃ pairs, IsMatching candidates slots pairs ∧ pairs.length = state.matched := by
  have hSlots : (state.owner.map Prod.swap).map Prod.fst = state.owner.values := by simp [Dict.values]
  have hItems : (state.owner.map Prod.swap).map Prod.snd = state.owner.keys := by simp [Dict.keys]
  refine ⟨state.owner.map Prod.swap, ⟨fun slot hSlot => ?_, ?_, hItems ▸ h.sound.nodup, ?_⟩, ?_⟩
  · exact h.perm.subset (mem_append_left _ (h.values.subset (hSlots ▸ hSlot)))
  · rw [hSlots]
    exact h.values.nodup_iff.mpr hTaken
  · intro pair hPair
    obtain ⟨owned, hOwned, rfl⟩ := mem_map.mp hPair
    exact h.sound.accepted owned hOwned
  · rw [h.matched, ← h.values.length_eq]
    simp [Dict.values]

omit [Fintype β] in
/-- A pair whose slot cannot leave the closed items stands for the owner of its item, any other for its slot. -/
theorem Settles.length_le (h : Settles candidates report slots taken left closed state) (hTaken : taken.Nodup)
    {pairs : List (α × β)} (hPairs : IsMatching candidates slots pairs) : pairs.length ≤ state.matched := by
  classical
  let Confined (slot : α) : Prop := ∀ item ∈ candidates slot, item ∈ closed
  let stands (pair : α × β) : Option α := if Confined pair.1 then state.owner.get? pair.2 else some pair.1
  have hOwned (pair) (hPair : pair ∈ pairs) (hIn : Confined pair.1) :
      ∃ slot, state.owner.get? pair.2 = some slot ∧ Confined slot :=
    h.isClosed pair.2 (hIn pair.2 (hPairs.accepted pair hPair))
  have hStands : (pairs.map stands).Nodup := by
    refine hPairs.once.of_map.map_on fun pair hPair pair' hPair' hSame => ?_
    simp only [stands] at hSame
    split_ifs at hSame with hIn hIn' hIn'
    · obtain ⟨slot, hOwner, -⟩ := hOwned pair hPair hIn
      have hBoth := inj_on_of_nodup_map (h.values.nodup_iff.mpr hTaken) (mem_of_get? hOwner)
        (mem_of_get? (hSame.symm.trans hOwner)) rfl
      exact inj_on_of_nodup_map hPairs.used hPair hPair' (congrArg Prod.fst hBoth)
    · obtain ⟨slot, hOwner, hConfined⟩ := hOwned pair hPair hIn
      exact (hIn' (Option.some.inj (hSame.symm.trans hOwner) ▸ hConfined)).elim
    · obtain ⟨slot, hOwner, hConfined⟩ := hOwned pair' hPair' hIn'
      exact (hIn (Option.some.inj (hSame.trans hOwner) ▸ hConfined)).elim
    · exact inj_on_of_nodup_map hPairs.once hPair hPair' (Option.some.inj hSame)
  have hSub : pairs.map stands ⊆ taken.map some := by
    intro value hValue
    obtain ⟨pair, hPair, rfl⟩ := mem_map.mp hValue
    simp only [stands]
    split_ifs with hIn
    · obtain ⟨slot, hOwner, -⟩ := hOwned pair hPair hIn
      exact hOwner ▸ mem_map_of_mem (h.values.subset (mem_map_of_mem (mem_of_get? hOwner)))
    · have hSlot := h.perm.symm.subset (hPairs.slots (mem_map_of_mem hPair))
      exact mem_map_of_mem ((mem_append.mp hSlot).resolve_right fun hLeft => hIn (h.confined _ hLeft))
  rw [h.matched]
  simpa using (hStands.subperm hSub).length_le

theorem assignment_maximum (candidates : α → List β) (report : α → γ) {slots : List α} (hSlots : slots.Nodup) :
    ∃ last, slots.foldlM (place candidates report) ⟨[], 0, []⟩ = some last ∧
      IsGreatest {n | ∃ pairs, IsMatching candidates slots pairs ∧ pairs.length = n} last.matched ∧
      last.matched + last.failures.length = slots.length := by
  have hStart : Settles candidates report [] [] [] ∅ ⟨[], 0, []⟩ :=
    ⟨.nil, ⟨nodup_nil, fun _ h => nomatch h⟩, .nil, rfl, rfl, fun _ h => (Finset.notMem_empty _ h).elim,
      fun _ h => nomatch h⟩
  obtain ⟨taken, left, closed, last, hRun, hLast⟩ := hStart.run slots
  rw [append_nil] at hLast
  have hTaken := (hLast.perm.nodup_iff.mpr hSlots).of_append_left
  refine ⟨last, hRun, ⟨hLast.exists_matching hTaken, ?_⟩, ?_⟩
  · rintro _ ⟨pairs, hPairs, rfl⟩
    exact hLast.length_le hTaken hPairs
  · rw [hLast.matched, hLast.failures, length_map, ← length_append, hLast.perm.length_eq]

end Augmenting
