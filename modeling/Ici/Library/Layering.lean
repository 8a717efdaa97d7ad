import Mathlib.Data.List.Nodup
import Mathlib.Data.List.Perm.Basic
import Mathlib.Order.WellFounded
import Ici.Library.Raising

/-! # Layering a dependency graph

Kahn's pass over a finite list of nodes: every round takes the nodes whose dependencies are all
done. It either lists all nodes, each after its dependencies, or stops at a remainder in which
every node waits for another one. -/

namespace Layering

open List Raising

universe u v

variable {α : Type u} {κ : Type v} [DecidableEq κ] (key : α → κ) (deps : α → List κ)

def isReady (done : List κ) (a : α) : Bool := (deps a).all (· ∈ done)

/-- Why a pass stopped early; the second is a loop that outlasted its rounds. -/
inductive Halt (α : Type u) where
  | stuck (left : List α)
  | outOfFuel

def kahn : ℕ → List κ → List α → Except (Halt α) (List (List α))
  | _, _, [] => .ok []
  | 0, _, _ :: _ => .error .outOfFuel
  | fuel + 1, done, left =>
    let ready := left.filter (isReady deps done)
    if ready.isEmpty then .error (.stuck left)
    else (kahn fuel (done ++ ready.map key) (left.filter (!isReady deps done ·))).map (ready :: ·)

inductive Ordered : List κ → List (List α) → Prop
  | nil (done : List κ) : Ordered done []
  | cons (done : List κ) (layer : List α) (rest : List (List α))
      (hLayer : ∀ a ∈ layer, ∀ d ∈ deps a, d ∈ done)
      (hRest : Ordered (done ++ layer.map key) rest) : Ordered done (layer :: rest)

variable {key deps}

variable {done : List κ} {layers : List (List α)}

theorem isReady_iff {a : α} : isReady deps done a = true ↔ ∀ d ∈ deps a, d ∈ done := by
  simp [isReady]

theorem kahn_ne_outOfFuel (fuel : ℕ) (done : List κ) (left : List α) (hFuel : left.length ≤ fuel) :
    kahn key deps fuel done left ≠ .error .outOfFuel := by
  induction fuel generalizing done left with
  | zero =>
    rw [length_eq_zero_iff.mp (Nat.le_zero.mp hFuel)]
    exact fun h => (nomatch h)
  | succ fuel ih =>
    cases left with
    | nil => exact fun h => (nomatch h)
    | cons a rest =>
      simp only [kahn]
      split
      · exact fun h => (nomatch h)
      · rename_i hReady
        intro h
        refine ih _ _ ?_ (map_eq_error.mp h)
        obtain ⟨b, hb⟩ := exists_mem_of_ne_nil _ (mt List.isEmpty_iff.mpr hReady)
        obtain ⟨hMem, hIsReady⟩ := mem_filter.mp hb
        have hLess : ((a :: rest).filter (!isReady deps done ·)).length < (a :: rest).length :=
          length_filter_lt_length_iff_exists.mpr ⟨b, hMem, by simpa using hIsReady⟩
        omega

theorem kahn_ok (fuel : ℕ) (done : List κ) (left : List α) (layers : List (List α))
    (h : kahn key deps fuel done left = .ok layers) :
    layers.flatten.Perm left ∧ Ordered key deps done layers ∧ ∀ layer ∈ layers, layer ≠ [] := by
  induction fuel generalizing done left layers with
  | zero =>
    cases left with
    | nil =>
      cases h
      exact ⟨List.Perm.refl _, .nil done, by simp⟩
    | cons a rest => cases h
  | succ fuel ih =>
    cases left with
    | nil =>
      cases h
      exact ⟨List.Perm.refl _, .nil done, by simp⟩
    | cons a rest =>
      simp only [kahn] at h
      split at h
      · cases h
      · rename_i hReady
        obtain ⟨later, hLater, hEq⟩ := map_eq_ok.mp h
        subst hEq
        obtain ⟨hPerm, hOrdered, hNonempty⟩ := ih _ _ later hLater
        refine ⟨?_, .cons done _ later ?_ hOrdered, ?_⟩
        · rw [flatten_cons]
          exact (Perm.append_left _ hPerm).trans
            (filter_append_perm (isReady deps done) (a :: rest))
        · intro b hb
          exact isReady_iff.mp (mem_filter.mp hb).2
        · intro layer hMem
          rcases mem_cons.mp hMem with rfl | hMem
          · simpa using hReady
          · exact hNonempty layer hMem

omit [DecidableEq κ] in
theorem Ordered.earlier (h : Ordered key deps done layers)
    {i : ℕ} {layer : List α} (hLayer : layers[i]? = some layer) {a : α} (ha : a ∈ layer) {d : κ}
    (hd : d ∈ deps a) :
    d ∈ done ∨ ∃ j < i, ∃ before, layers[j]? = some before ∧ ∃ b ∈ before, key b = d := by
  induction h generalizing i with
  | nil done => cases hLayer
  | cons done first rest hFirst hRest ih =>
    cases i with
    | zero =>
      cases hLayer
      exact .inl (hFirst a ha d hd)
    | succ i =>
      rcases ih hLayer with hDone | ⟨j, hj, before, hBefore, hKey⟩
      · rcases mem_append.mp hDone with hDone | hKey
        · exact .inl hDone
        · exact .inr ⟨0, by omega, first, rfl, mem_map.mp hKey⟩
      · exact .inr ⟨j + 1, by omega, before, hBefore, hKey⟩

theorem exists_kahn (nodes : List α) (hWf : WellFounded fun b a => a ∈ nodes ∧ b ∈ nodes ∧ key b ∈ deps a)
    (fuel : ℕ) (done : List κ) (left : List α) (hFuel : left.length ≤ fuel)
    (hNodes : ∀ a ∈ left, a ∈ nodes)
    (hKnown : ∀ a ∈ left, ∀ d ∈ deps a, d ∈ done ∨ ∃ b ∈ left, key b = d) :
    ∃ layers, kahn key deps fuel done left = .ok layers := by
  induction fuel generalizing done left with
  | zero =>
    rw [length_eq_zero_iff.mp (Nat.le_zero.mp hFuel)]
    exact ⟨[], rfl⟩
  | succ fuel ih =>
    cases left with
    | nil => exact ⟨[], rfl⟩
    | cons a rest =>
      obtain ⟨first, hFirst, hMin⟩ := hWf.has_min {b | b ∈ a :: rest} ⟨a, mem_cons_self⟩
      have hReady : isReady deps done first = true := by
        apply isReady_iff.mpr
        intro d hd
        rcases hKnown first hFirst d hd with hDone | ⟨b, hb, rfl⟩
        · exact hDone
        · exact absurd ⟨hNodes first hFirst, hNodes b hb, hd⟩ (hMin b hb)
      have hSome : ((a :: rest).filter (isReady deps done)).isEmpty = false := by
        rw [isEmpty_eq_false_iff]
        exact ne_nil_of_mem (mem_filter.mpr ⟨hFirst, hReady⟩)
      have hLess : ((a :: rest).filter (!isReady deps done ·)).length < (a :: rest).length :=
        length_filter_lt_length_iff_exists.mpr ⟨first, hFirst, by simpa using hReady⟩
      obtain ⟨layers, hLayers⟩ := ih (done ++ ((a :: rest).filter (isReady deps done)).map key)
        ((a :: rest).filter (!isReady deps done ·)) (by omega)
        (fun b hb => hNodes b (mem_of_mem_filter hb)) (by
          intro b hb d hd
          rcases hKnown b (mem_of_mem_filter hb) d hd with hDone | ⟨c, hc, rfl⟩
          · exact .inl (mem_append_left _ hDone)
          · cases hc' : isReady deps done c with
            | true => exact .inl (mem_append_right _
                (mem_map.mpr ⟨c, mem_filter.mpr ⟨hc, hc'⟩, rfl⟩))
            | false => exact .inr ⟨c, mem_filter.mpr ⟨hc, by simp [hc']⟩, rfl⟩)
      simp only [kahn, hSome, Bool.false_eq_true, if_false, hLayers]
      exact ⟨_, rfl⟩

omit [DecidableEq κ] in
theorem Ordered.before {before after : List (List α)} {layer : List α}
    (h : Ordered key deps done (before ++ layer :: after)) {a : α} (ha : a ∈ layer) {d : κ}
    (hd : d ∈ deps a) : d ∈ done ∨ d ∈ before.flatten.map key := by
  induction before generalizing done with
  | nil =>
    cases h with
    | cons _ _ _ hLayer _ => exact .inl (hLayer a ha d hd)
  | cons first before ih =>
    cases h with
    | cons _ _ _ _ hRest =>
      rw [flatten_cons, map_append, mem_append]
      rcases ih hRest with hDone | hIn
      · exact (mem_append.mp hDone).imp_right .inl
      · exact .inr (.inr hIn)

/-! Ranks read off the layers. -/

section Rank

variable (key)

def rank : List (List α) → κ → ℕ
  | [], _ => 0
  | layer :: rest, k => if k ∈ layer.map key then 0 else rank rest k + 1

end Rank

theorem rank_lt_length {k : κ} (hk : k ∈ layers.flatten.map key) : rank key layers k < layers.length := by
  induction layers with
  | nil => cases hk
  | cons layer rest ih =>
    rw [rank, length_cons]
    split
    · omega
    · rename_i hNot
      rw [flatten_cons, map_append, mem_append] at hk
      have hLess := ih (hk.resolve_left hNot)
      omega

theorem length_le_flatten (hNonempty : ∀ layer ∈ layers, layer ≠ []) :
    layers.length ≤ layers.flatten.length := by
  induction layers with
  | nil => exact le_rfl
  | cons layer rest ih =>
    rw [forall_mem_cons] at hNonempty
    have hLayer := length_pos_of_ne_nil hNonempty.1
    have hRest := ih hNonempty.2
    rw [flatten_cons, length_append, length_cons]
    omega

theorem Ordered.rank_lt (h : Ordered key deps done layers)
    (hNodup : (layers.flatten.map key).Nodup) {a : α} (ha : a ∈ layers.flatten) {d : κ}
    (hd : d ∈ deps a) :
    d ∈ done ∨ (d ∈ layers.flatten.map key ∧ rank key layers d < rank key layers (key a)) := by
  induction h with
  | nil done => cases ha
  | cons done first rest hFirst hRest ih =>
    rw [flatten_cons, map_append] at hNodup
    have hApart := disjoint_of_nodup_append hNodup
    rcases mem_append.mp ha with ha | ha
    · exact .inl (hFirst a ha d hd)
    · have hKey : key a ∉ first.map key := fun hIn =>
        hApart hIn (mem_map.mpr ⟨a, ha, rfl⟩)
      rw [flatten_cons, map_append, mem_append, rank, rank, if_neg hKey]
      rcases ih hNodup.of_append_right ha with hDone | ⟨hMem, hLess⟩
      · rcases mem_append.mp hDone with hDone | hIn
        · exact .inl hDone
        · exact .inr ⟨.inl hIn, by rw [if_pos hIn]; omega⟩
      · refine .inr ⟨.inr hMem, ?_⟩
        rw [if_neg fun hIn => hApart hIn hMem]
        omega

end Layering
