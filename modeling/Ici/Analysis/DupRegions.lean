import Mathlib.Data.Finset.Sort
import Mathlib.Data.List.TakeWhile
import Mathlib.Data.Prod.Lex

/-! # Regions of source lines

The sweep keeps the regions that have begun in a heap, the narrowest on top, and takes those that are over off
it only where they come to the top. -/

namespace Ici.Duplicates

open List

structure ScopeRegion where
  start : ℤ
  stop : ℤ
  scope : ℤ

/-- The place of a region in the heap: its width, its end and its scope. -/
abbrev HeapKey := ℤ ×ₗ ℤ ×ₗ ℤ

namespace ScopeRegion

def sortKey (region : ScopeRegion) : HeapKey := toLex (region.start, toLex (region.stop, region.scope))

def heapKey (region : ScopeRegion) : HeapKey :=
  toLex (region.stop - region.start, toLex (region.stop, region.scope))

def Holds (region : ScopeRegion) (line : ℤ) : Prop := region.start ≤ line ∧ line ≤ region.stop

instance (region : ScopeRegion) (line : ℤ) : Decidable (region.Holds line) := inferInstanceAs (Decidable (_ ∧ _))

end ScopeRegion

namespace HeapKey

def stop (key : HeapKey) : ℤ := (ofLex (ofLex key).2).1

def scope (key : HeapKey) : ℤ := (ofLex (ofLex key).2).2

end HeapKey

def segmentFor (line : ℤ) (barriers : List ℤ) : ℕ := (barriers.takeWhile (· ≤ line)).length

/-- `heapq.heappush`: the list is the heap's keys in order, its head the one on top. -/
def heapPush (active : List HeapKey) (key : HeapKey) : List HeapKey := active.orderedInsert (· ≤ ·) key

structure Sweep where
  waiting : List ScopeRegion
  active : List HeapKey

/-- The heap with the regions that have begun. -/
def Sweep.pushed (sweep : Sweep) (line : ℤ) : List HeapKey :=
  ((sweep.waiting.takeWhile (·.start ≤ line)).map ScopeRegion.heapKey).foldl heapPush sweep.active

/-- A turn of the sweep. -/
def Sweep.advance (sweep : Sweep) (line : ℤ) : Sweep where
  waiting := sweep.waiting.dropWhile (·.start ≤ line)
  active := (sweep.pushed line).dropWhile (·.stop < line)

def Sweep.scope (sweep : Sweep) : ℤ := (sweep.active.head?.map HeapKey.scope).getD 0

def sweepLines (barriers : List ℤ) : Sweep → List ℤ → List (ℤ × ℕ)
  | _, [] => []
  | sweep, line :: lines =>
    let next := sweep.advance line
    (next.scope, segmentFor line barriers) :: sweepLines barriers next lines

def projectRegions (lines : List ℤ) (intervals : List ScopeRegion) (barriers : Finset ℤ) : List (ℤ × ℕ) :=
  sweepLines (barriers.sort (· ≤ ·)) ⟨intervals.insertionSort (·.sortKey ≤ ·.sortKey), []⟩ lines

/-- The narrowest of the regions that hold a line; of those, the one that ends first, then the least scope. -/
def narrowest (intervals : List ScopeRegion) (line : ℤ) : Option HeapKey :=
  ((intervals.filter (·.Holds line)).map ScopeRegion.heapKey).min?

def directScope (intervals : List ScopeRegion) (line : ℤ) : ℤ := ((narrowest intervals line).map HeapKey.scope).getD 0

variable {intervals : List ScopeRegion} {line : ℤ} {sweep : Sweep}

theorem narrowest_eq_some_iff {key : HeapKey} : narrowest intervals line = some key ↔
    (∃ region ∈ intervals, region.Holds line ∧ region.heapKey = key) ∧
      ∀ region ∈ intervals, region.Holds line → key ≤ region.heapKey := by
  rw [narrowest, min?_eq_some_iff]
  simp only [mem_map, mem_filter, decide_eq_true_eq, and_assoc, forall_exists_index, and_imp]
  exact and_congr_right fun _ => ⟨fun h region hRegion hHolds => h _ region hRegion hHolds rfl,
    fun h _ region hRegion hHolds hSame => hSame ▸ h region hRegion hHolds⟩

theorem narrowest_eq_none_iff : narrowest intervals line = none ↔ ∀ region ∈ intervals, ¬region.Holds line := by
  rw [narrowest, min?_eq_none_iff]
  simp

/-! ## The sweep -/

/-- A region waits until it begins, and from then on it is in the heap until it is over. -/
structure Sweep.IsAt (sweep : Sweep) (intervals : List ScopeRegion) (line : ℤ) : Prop where
  sorted : sweep.active.Pairwise (· ≤ ·)
  waits : sweep.waiting.Pairwise (·.start ≤ ·.start)
  given : ∀ region ∈ sweep.waiting, region ∈ intervals
  begun : ∀ key ∈ sweep.active, ∃ region ∈ intervals, region.heapKey = key ∧ region.start ≤ line
  all : ∀ region ∈ intervals, region ∈ sweep.waiting ∨ region.heapKey ∈ sweep.active ∨ region.stop < line

theorem Sweep.IsAt.mono {later : ℤ} (h : sweep.IsAt intervals line) (hLine : line ≤ later) :
    sweep.IsAt intervals later where
  sorted := h.sorted
  waits := h.waits
  given := h.given
  begun key hKey := by
    obtain ⟨region, hRegion, hSame, hStart⟩ := h.begun key hKey
    exact ⟨region, hRegion, hSame, hStart.trans hLine⟩
  all region hRegion := (h.all region hRegion).imp_right fun hEither => hEither.imp_right fun hOver => hOver.trans_le hLine

theorem mem_foldl_heapPush {keys active : List HeapKey} {key : HeapKey} :
    key ∈ keys.foldl heapPush active ↔ key ∈ keys ∨ key ∈ active := by
  induction keys generalizing active with
  | nil => simp
  | cons next keys ih =>
    rw [foldl_cons, ih, heapPush, mem_orderedInsert, mem_cons]
    tauto

theorem sorted_foldl_heapPush {keys active : List HeapKey} (h : active.Pairwise (· ≤ ·)) :
    (keys.foldl heapPush active).Pairwise (· ≤ ·) := by
  induction keys generalizing active with
  | nil => exact h
  | cons next keys ih => exact ih (h.orderedInsert next active)

theorem mem_dropWhile_or {α : Type*} (p : α → Bool) {l : List α} {a : α} (h : a ∈ l) :
    a ∈ l.dropWhile p ∨ p a = true := by
  rw [← takeWhile_append_dropWhile (p := p) (l := l), mem_append] at h
  exact h.symm.imp_right mem_takeWhile_imp

section

variable (h : sweep.IsAt intervals line)
include h

theorem Sweep.IsAt.advance : (sweep.advance line).IsAt intervals line where
  sorted := (sorted_foldl_heapPush h.sorted).sublist (dropWhile_sublist _)
  waits := h.waits.sublist (dropWhile_sublist _)
  given region hRegion := h.given region ((dropWhile_suffix _).subset hRegion)
  begun key hKey := by
    rcases mem_foldl_heapPush.mp ((dropWhile_suffix _).subset hKey) with hNew | hOld
    · obtain ⟨region, hRegion, hSame⟩ := mem_map.mp hNew
      exact ⟨region, h.given region ((List.takeWhile_prefix _).subset hRegion), hSame,
        by simpa using mem_takeWhile_imp hRegion⟩
    · exact h.begun key hOld
  all region hRegion := by
    have hPushed (hIn : region.heapKey ∈ sweep.pushed line) :
        region.heapKey ∈ (sweep.advance line).active ∨ region.stop < line :=
      (mem_dropWhile_or (fun key : HeapKey => decide (key.stop < line)) hIn).imp_right fun hOver =>
        (of_decide_eq_true hOver : region.heapKey.stop < line)
    rcases h.all region hRegion with hWaits | hActive | hOver
    · rw [← takeWhile_append_dropWhile (p := fun region => decide (region.start ≤ line)) (l := sweep.waiting),
        mem_append] at hWaits
      exact hWaits.symm.imp_right fun hBegun => hPushed (mem_foldl_heapPush.mpr (.inl (mem_map_of_mem hBegun)))
    · exact .inr (hPushed (mem_foldl_heapPush.mpr (.inr hActive)))
    · exact .inr (.inr hOver)

theorem Sweep.IsAt.lt_start : ∀ region ∈ (sweep.advance line).waiting, line < region.start := by
  intro region hRegion
  change region ∈ sweep.waiting.dropWhile (·.start ≤ line) at hRegion
  have hWaits : (sweep.waiting.dropWhile (·.start ≤ line)).Pairwise (·.start ≤ ·.start) := h.advance.waits
  have hHead := head?_dropWhile_not (fun region : ScopeRegion => decide (region.start ≤ line)) sweep.waiting
  cases hDrop : sweep.waiting.dropWhile (·.start ≤ line) with
  | nil =>
    rw [hDrop] at hRegion
    cases hRegion
  | cons first rest =>
    simp only [hDrop, head?_cons, decide_eq_false_iff_not, not_le] at hHead
    rw [hDrop] at hRegion hWaits
    rcases mem_cons.mp hRegion with rfl | hRest
    · exact hHead
    · exact hHead.trans_le ((pairwise_cons.mp hWaits).1 region hRest)

theorem Sweep.IsAt.active_of_holds {region : ScopeRegion} (hRegion : region ∈ intervals)
    (hHolds : region.Holds line) : region.heapKey ∈ (sweep.advance line).active := by
  rcases h.advance.all region hRegion with hWaits | hActive | hOver
  · exact absurd (h.lt_start region hWaits) hHolds.1.not_gt
  · exact hActive
  · exact absurd hOver hHolds.2.not_gt

theorem Sweep.IsAt.scope_advance : (sweep.advance line).scope = directScope intervals line := by
  have hSorted := h.advance.sorted
  have hBegun := h.advance.begun
  have hHolds := fun region (hRegion : region ∈ intervals) => h.active_of_holds hRegion
  have hTop : ∀ top ∈ (sweep.advance line).active.head?, line ≤ top.stop := by
    intro top hTop
    have hHead := head?_dropWhile_not (fun key : HeapKey => decide (key.stop < line)) (sweep.pushed line)
    rw [show dropWhile _ _ = (sweep.advance line).active from rfl, hTop] at hHead
    simpa using hHead
  rw [Sweep.scope, directScope]
  cases hActive : (sweep.advance line).active with
  | nil =>
    have hNone : narrowest intervals line = none := narrowest_eq_none_iff.mpr fun region hRegion hHeld => by
      have hIn := hHolds region hRegion hHeld
      rw [hActive] at hIn
      cases hIn
    rw [hNone]
    rfl
  | cons top rest =>
    rw [hActive] at hSorted hBegun hTop
    obtain ⟨region, hRegion, hSame, hStart⟩ := hBegun top mem_cons_self
    have hStop : line ≤ region.heapKey.stop := by
      rw [hSame]
      exact hTop top rfl
    have hSome : narrowest intervals line = some top := by
      refine narrowest_eq_some_iff.mpr ⟨⟨region, hRegion, ⟨hStart, hStop⟩, hSame⟩, fun other hOther hHeld => ?_⟩
      have hIn := hHolds other hOther hHeld
      rw [hActive] at hIn
      rcases mem_cons.mp hIn with hTop | hRest
      · exact hTop.ge
      · exact (pairwise_cons.mp hSorted).1 _ hRest
    rw [hSome]
    rfl

end

theorem sweepLines_eq (barriers : List ℤ) {lines : List ℤ} (hLines : lines.Pairwise (· ≤ ·))
    (h : ∀ line ∈ lines, sweep.IsAt intervals line) : sweepLines barriers sweep lines =
      lines.map fun line => (directScope intervals line, segmentFor line barriers) := by
  induction lines generalizing sweep with
  | nil => rfl
  | cons line lines ih =>
    obtain ⟨hBehind, hRest⟩ := pairwise_cons.mp hLines
    have hAt := h line mem_cons_self
    rw [sweepLines, map_cons, hAt.scope_advance, ih hRest fun later hLater => hAt.advance.mono (hBehind later hLater)]

-- the laws of the order by name, wherever more of the library is in scope
local instance intTrans : IsTrans ℤ (· ≤ ·) := ⟨fun _ _ _ => le_trans⟩

local instance intAntisymm : Std.Antisymm fun a b : ℤ => a ≤ b := ⟨fun _ _ => le_antisymm⟩

local instance intTotal : Std.Total fun a b : ℤ => a ≤ b := ⟨le_total⟩

theorem regions_projected {lines : List ℤ} (hLines : lines.Pairwise (· ≤ ·)) (intervals : List ScopeRegion)
    (barriers : Finset ℤ) : projectRegions lines intervals barriers =
      lines.map (fun line => (directScope intervals line, segmentFor line (barriers.sort (· ≤ ·)))) ∧
    ∀ line, narrowest intervals line = none ↔ ∀ region ∈ intervals, ¬region.Holds line := by
  refine ⟨sweepLines_eq _ hLines fun line _ => ?_, fun line => narrowest_eq_none_iff⟩
  have hMem : ∀ region, region ∈ intervals.insertionSort (·.sortKey ≤ ·.sortKey) ↔ region ∈ intervals :=
    fun region => mem_insertionSort _
  have hSorted : (intervals.insertionSort (·.sortKey ≤ ·.sortKey)).Pairwise (·.sortKey ≤ ·.sortKey) :=
    haveI : IsTrans ScopeRegion fun a b => a.sortKey ≤ b.sortKey := ⟨fun _ _ _ => le_trans⟩
    haveI : Std.Total fun a b : ScopeRegion => a.sortKey ≤ b.sortKey := ⟨fun a b => le_total a.sortKey b.sortKey⟩
    pairwise_insertionSort _ _
  exact
    { sorted := .nil
      waits := hSorted.imp fun hKey => (Prod.Lex.le_iff.mp hKey).elim le_of_lt fun hSame => hSame.1.le
      given := fun region hRegion => (hMem region).mp hRegion
      begun := nofun
      all := fun region hRegion => .inl ((hMem region).mpr hRegion) }

/-- A region that ends with the line it is in is buried below one that is over. -/
theorem regions_projected_nested : projectRegions [2, 4, 8] [⟨1, 9, 1⟩, ⟨3, 5, 2⟩, ⟨4, 4, 3⟩] {6}
    = [(1, 0), (3, 0), (1, 1)] := by
  rw [(regions_projected (by decide) _ _).1, Finset.sort_singleton]
  decide

end Ici.Duplicates
