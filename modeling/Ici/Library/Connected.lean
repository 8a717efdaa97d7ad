import Mathlib.Data.List.Nodup
import Mathlib.Data.List.Perm.Subperm

/-! # Connected parts

Every node that no earlier part has seen begins a part. A stack holds what was seen and not yet
taken; taking a node puts its unseen neighbours on top. -/

namespace Connected

open Option List

universe u

variable {κ : Type u} [DecidableEq κ] (next : κ → List κ)

def push (state : List κ × List κ) (node : κ) : List κ × List κ :=
  if node ∈ state.1 then state else (node :: state.1, node :: state.2)

/-- The part that was taken and all that was seen; `none` is a loop that outlasted its rounds. -/
def collect : ℕ → List κ → List κ → List κ → Option (List κ × List κ)
  | _, seen, [], part => some (part, seen)
  | 0, _, _ :: _, _ => none
  | rounds + 1, seen, node :: stack, part =>
    let (seen, stack) := (next node).foldl push (seen, stack)
    collect rounds seen stack (part ++ [node])

def parts (rounds : ℕ) : List κ → List κ → Option (List (List κ))
  | [], _ => some []
  | node :: nodes, seen =>
    if node ∈ seen then parts rounds nodes seen
    else do
      let (part, seen) ← collect next rounds (node :: seen) [node] []
      let rest ← parts rounds nodes seen
      return part :: rest

def Next (a b : κ) : Prop := b ∈ next a

structure Growing (start : κ) (earlier seen stack part : List κ) : Prop where
  seen_perm : (part ++ stack ++ earlier).Perm seen
  nodup : seen.Nodup
  begun : start ∈ seen ∧ start ∉ earlier
  reached : ∀ a ∈ part ++ stack, Relation.ReflTransGen (Next next) start a
  closed : ∀ a ∈ part ++ earlier, ∀ b ∈ next a, b ∈ seen

variable {next}

theorem mem_foldl_push {nodes : List κ} {state : List κ × List κ} {a : κ} :
    a ∈ (nodes.foldl push state).1 ↔ a ∈ state.1 ∨ a ∈ nodes := by
  induction nodes generalizing state with
  | nil => simp
  | cons node rest ih =>
    rw [foldl_cons, ih, push]
    split
    · rename_i hSeen
      simp only [mem_cons]
      constructor
      · rintro (h | h)
        · exact .inl h
        · exact .inr (.inr h)
      · rintro (h | rfl | h)
        · exact .inl h
        · exact .inl hSeen
        · exact .inr h
    · simp only [mem_cons]
      tauto

theorem foldl_push_eq (nodes : List κ) (state : List κ × List κ) (hNodup : state.1.Nodup) :
    ∃ fresh, nodes.foldl push state = (fresh ++ state.1, fresh ++ state.2) ∧
      (fresh ++ state.1).Nodup ∧ ∀ a ∈ fresh, a ∈ nodes := by
  induction nodes generalizing state with
  | nil => exact ⟨[], rfl, hNodup, nofun⟩
  | cons node rest ih =>
    rw [foldl_cons, push]
    split
    · obtain ⟨fresh, hFold, hFresh, hMem⟩ := ih state hNodup
      exact ⟨fresh, hFold, hFresh, fun a ha => mem_cons_of_mem _ (hMem a ha)⟩
    · rename_i hNew
      obtain ⟨fresh, hFold, hFresh, hMem⟩ := ih (node :: state.1, node :: state.2)
        (nodup_cons.mpr ⟨hNew, hNodup⟩)
      refine ⟨fresh ++ [node], ?_, ?_, ?_⟩
      · rw [hFold, append_assoc, append_assoc]
        rfl
      · rwa [append_assoc]
      · intro a ha
        rcases mem_append.mp ha with hFront | hNode
        · exact mem_cons_of_mem _ (hMem a hFront)
        · obtain rfl := mem_singleton.mp hNode
          exact mem_cons_self

theorem Growing.take {start node : κ} {earlier seen stack part : List κ}
    (h : Growing next start earlier seen (node :: stack) part) :
    Growing next start earlier ((next node).foldl push (seen, stack)).1
      ((next node).foldl push (seen, stack)).2 (part ++ [node]) := by
  have hClosed : ∀ b ∈ next node, b ∈ ((next node).foldl push (seen, stack)).1 := fun b hb =>
    mem_foldl_push.mpr (.inr hb)
  obtain ⟨fresh, hFold, hNodup, hFresh⟩ := foldl_push_eq (next node) (seen, stack) h.nodup
  rw [hFold] at hClosed ⊢
  dsimp only at hClosed hNodup ⊢
  have hNode := h.reached node (mem_append_right _ mem_cons_self)
  refine ⟨?_, hNodup, ⟨mem_append_right _ h.begun.1, h.begun.2⟩, ?_, ?_⟩
  · have hSeen := h.seen_perm
    have hMoved : (part ++ [node] ++ (fresh ++ stack) ++ earlier).Perm
        (fresh ++ (part ++ node :: stack ++ earlier)) := by
      have hSwap : (part ++ [node] ++ fresh).Perm (fresh ++ (part ++ [node])) := perm_append_comm
      have hTail := hSwap.append_right (stack ++ earlier)
      simpa only [append_assoc, cons_append, nil_append] using hTail
    exact hMoved.trans (hSeen.append_left fresh)
  · intro a ha
    rcases mem_append.mp ha with hTaken | hWaiting
    · rcases mem_append.mp hTaken with hPart | hOne
      · exact h.reached a (mem_append_left _ hPart)
      · obtain rfl := mem_singleton.mp hOne
        exact hNode
    · rcases mem_append.mp hWaiting with hNew | hStack
      · exact hNode.tail (hFresh a hNew)
      · exact h.reached a (mem_append_right _ (mem_cons_of_mem _ hStack))
  · intro a ha b hb
    rcases mem_append.mp ha with hTaken | hEarlier
    · rcases mem_append.mp hTaken with hPart | hOne
      · exact mem_append_right _ (h.closed a (mem_append_left _ hPart) b hb)
      · obtain rfl := mem_singleton.mp hOne
        exact hClosed b hb
    · exact mem_append_right _ (h.closed a (mem_append_right _ hEarlier) b hb)

def IsPart (next : κ → List κ) (start : κ) (part : List κ) : Prop :=
  ∀ a, a ∈ part ↔ Relation.ReflTransGen (Next next) start a

omit [DecidableEq κ] in
theorem growing_begin {start : κ} {seen : List κ} (hNew : start ∉ seen) (hNodup : seen.Nodup)
    (hClosed : ∀ a ∈ seen, ∀ b ∈ next a, b ∈ seen) : Growing next start seen (start :: seen) [start] [] where
  seen_perm := .refl _
  nodup := nodup_cons.mpr ⟨hNew, hNodup⟩
  begun := ⟨mem_cons_self, hNew⟩
  reached a ha := by
    obtain rfl := mem_singleton.mp ha
    exact .refl
  closed a ha b hb := mem_cons_of_mem _ (hClosed a ha b hb)

section Symmetric

variable (hSymm : ∀ a b, b ∈ next a → a ∈ next b)
include hSymm

omit [DecidableEq κ] in
theorem Growing.done {start : κ} {earlier seen part : List κ} (h : Growing next start earlier seen [] part)
    (hEarlier : ∀ a ∈ earlier, ∀ b ∈ next a, b ∈ earlier) : IsPart next start part := by
  have hPerm := h.seen_perm
  rw [append_nil] at hPerm
  refine fun a => ⟨fun ha => h.reached a (mem_append_left _ ha), fun hReach => ?_⟩
  induction hReach with
  | refl =>
    rcases mem_append.mp (hPerm.mem_iff.mpr h.begun.1) with hPart | hOld
    · exact hPart
    · exact absurd hOld h.begun.2
  | @tail b c _ hStep ih =>
    have hSeen := h.closed b (mem_append_left _ ih) c hStep
    rcases mem_append.mp (hPerm.mem_iff.mpr hSeen) with hPart | hOld
    · exact hPart
    · -- an earlier part would have had the node before as well
      have hBoth : b ∈ earlier := hEarlier c hOld b (hSymm b c hStep)
      have hTwice := hPerm.nodup_iff.mpr h.nodup
      exact absurd hBoth (disjoint_of_nodup_append hTwice ih)

theorem collect_eq_some (rounds : ℕ) {start : κ} {earlier seen stack part part' seen' : List κ}
    (h : Growing next start earlier seen stack part)
    (hEarlier : ∀ a ∈ earlier, ∀ b ∈ next a, b ∈ earlier)
    (hCollect : collect next rounds seen stack part = some (part', seen')) :
    IsPart next start part' ∧ (part' ++ earlier).Perm seen' ∧ seen'.Nodup ∧
      ∀ a ∈ seen', ∀ b ∈ next a, b ∈ seen' := by
  have hDone {seen part : List κ} (h : Growing next start earlier seen [] part) :
      IsPart next start part ∧ (part ++ earlier).Perm seen ∧ seen.Nodup ∧
        ∀ a ∈ seen, ∀ b ∈ next a, b ∈ seen := by
    have hPerm := h.seen_perm
    rw [append_nil] at hPerm
    exact ⟨h.done hSymm hEarlier, hPerm, h.nodup, fun a ha => h.closed a (hPerm.mem_iff.mpr ha)⟩
  induction rounds generalizing seen stack part with
  | zero =>
    cases stack with
    | nil =>
      cases hCollect
      exact hDone h
    | cons node stack => cases hCollect
  | succ rounds ih =>
    cases stack with
    | nil =>
      cases hCollect
      exact hDone h
    | cons node stack =>
      rw [collect] at hCollect
      exact ih h.take hCollect

theorem parts_eq_some (rounds : ℕ) {nodes seen : List κ} {found : List (List κ)} (hNodup : seen.Nodup)
    (hClosed : ∀ a ∈ seen, ∀ b ∈ next a, b ∈ seen) (h : parts next rounds nodes seen = some found) :
    (∀ part ∈ found, ∃ start ∈ nodes, IsPart next start part) ∧ (found.flatten ++ seen).Nodup ∧
      ∀ a ∈ nodes, a ∈ found.flatten ++ seen := by
  induction nodes generalizing seen found with
  | nil =>
    cases h
    exact ⟨nofun, hNodup, nofun⟩
  | cons node nodes ih =>
    rw [parts] at h
    split at h
    · rename_i hSeen
      obtain ⟨hParts, hOnce, hAll⟩ := ih hNodup hClosed h
      refine ⟨fun part hPart => ?_, hOnce, fun a ha => ?_⟩
      · obtain ⟨start, hStart, hPart⟩ := hParts part hPart
        exact ⟨start, mem_cons_of_mem _ hStart, hPart⟩
      · rcases mem_cons.mp ha with rfl | hRest
        · exact mem_append_right _ hSeen
        · exact hAll a hRest
    · rename_i hNew
      obtain ⟨⟨part, seen'⟩, hCollect, h⟩ := bind_eq_some_iff.mp h
      obtain ⟨rest, hRest, hFound⟩ := bind_eq_some_iff.mp h
      cases hFound
      obtain ⟨hPart, hPerm, hNodup', hClosed'⟩ := collect_eq_some hSymm rounds
        (growing_begin hNew hNodup hClosed) hClosed hCollect
      obtain ⟨hParts, hOnce, hAll⟩ := ih hNodup' hClosed' hRest
      have hMoved : ((part :: rest).flatten ++ seen).Perm (rest.flatten ++ seen') := by
        have hSwap : (part ++ rest.flatten).Perm (rest.flatten ++ part) := perm_append_comm
        have hJoin := hSwap.append_right seen
        rw [append_assoc rest.flatten] at hJoin
        exact hJoin.trans (hPerm.append_left rest.flatten)
      refine ⟨fun other hOther => ?_, hMoved.nodup_iff.mpr hOnce, fun a ha => ?_⟩
      · rcases mem_cons.mp hOther with rfl | hOther
        · exact ⟨node, mem_cons_self, hPart⟩
        · obtain ⟨start, hStart, hOther⟩ := hParts other hOther
          exact ⟨start, mem_cons_of_mem _ hStart, hOther⟩
      · rcases mem_cons.mp ha with rfl | hRest
        · have hNode : a ∈ part := (hPart a).mpr .refl
          exact mem_append_left _ (mem_append_left _ hNode)
        · exact hMoved.mem_iff.mpr (hAll a hRest)

end Symmetric

section Rounds

variable (all : List κ) (hAll : ∀ a, ∀ b ∈ next a, b ∈ all)
include hAll

theorem exists_collect (rounds : ℕ) {start : κ} {earlier seen stack part : List κ}
    (h : Growing next start earlier seen stack part) (hSeen : ∀ a ∈ seen, a ∈ all)
    (hRounds : all.length ≤ rounds + part.length) :
    ∃ part' seen', collect next rounds seen stack part = some (part', seen') ∧ ∀ a ∈ seen', a ∈ all := by
  induction rounds generalizing seen stack part with
  | zero =>
    cases stack with
    | nil => exact ⟨part, seen, rfl, hSeen⟩
    | cons node stack =>
      have hNodup := h.seen_perm.nodup_iff.mpr h.nodup
      have hTaken : (part ++ node :: stack).Subperm all := (Nodup.of_append_left hNodup).subperm
        fun a ha => hSeen a (h.seen_perm.mem_iff.mp (mem_append_left _ ha))
      have hLength := hTaken.length_le
      rw [length_append, length_cons] at hLength
      omega
  | succ rounds ih =>
    cases stack with
    | nil => exact ⟨part, seen, rfl, hSeen⟩
    | cons node stack =>
      rw [collect]
      apply ih h.take
      · intro a ha
        rcases mem_foldl_push.mp ha with hOld | hNew
        · exact hSeen a hOld
        · exact hAll node a hNew
      · rw [length_append, length_singleton]
        omega

theorem exists_parts (hSymm : ∀ a b, b ∈ next a → a ∈ next b) {rounds : ℕ} (hRounds : all.length ≤ rounds)
    {nodes seen : List κ} (hNodes : ∀ a ∈ nodes, a ∈ all) (hNodup : seen.Nodup)
    (hClosed : ∀ a ∈ seen, ∀ b ∈ next a, b ∈ seen) (hSeen : ∀ a ∈ seen, a ∈ all) :
    ∃ found, parts next rounds nodes seen = some found := by
  induction nodes generalizing seen with
  | nil => exact ⟨[], rfl⟩
  | cons node nodes ih =>
    have hRest := fun a ha => hNodes a (mem_cons_of_mem _ ha)
    rw [parts]
    split
    · exact ih hRest hNodup hClosed hSeen
    · rename_i hNew
      have hBegin := growing_begin hNew hNodup hClosed
      obtain ⟨part, seen', hCollect, hSeen'⟩ := exists_collect all hAll rounds hBegin
        (forall_mem_cons.mpr ⟨hNodes node mem_cons_self, hSeen⟩) (by simpa using hRounds)
      obtain ⟨-, -, hNodup', hClosed'⟩ := collect_eq_some hSymm rounds hBegin hClosed hCollect
      obtain ⟨found, hFound⟩ := ih hRest hNodup' hClosed' hSeen'
      refine ⟨part :: found, ?_⟩
      rw [hCollect]
      simp only [bind_eq_bind, bind_some, hFound]
      rfl

end Rounds

end Connected
