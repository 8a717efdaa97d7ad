import Ici.Library.Dict

/-! # Values that come with reports

A reader that goes on after a problem returns a value together with everything it found wrong on
the way, in the order it came by it. -/

universe u v w

structure Reported (ε : Type u) (α : Type v) where
  value : α
  reports : List ε := []
deriving DecidableEq

namespace Reported

open Dict List

variable {ε : Type u} {α : Type v} {β : Type w}

instance : Monad (Reported ε) where
  pure a := { value := a }
  bind x f := { value := (f x.value).value, reports := x.reports ++ (f x.value).reports }

def report (e : ε) : Reported ε Unit := { value := (), reports := [e] }

def reportIf (condition : Prop) [Decidable condition] (e : ε) : Reported ε Unit :=
  { value := (), reports := if condition then [e] else [] }

def each (f : α → Reported ε β) (l : List α) : Reported ε (List β) :=
  { value := l.map fun a => (f a).value, reports := l.flatMap fun a => (f a).reports }

def collect (x : Reported ε α) : Except (List ε) α :=
  match x.reports with
  | [] => .ok x.value
  | e :: rest => .error (e :: rest)

@[simp] theorem value_pure {α : Type v} (a : α) : (pure a : Reported ε α).value = a := rfl

@[simp] theorem reports_pure {α : Type v} (a : α) : (pure a : Reported ε α).reports = [] := rfl

section

variable {α β : Type v} (x : Reported ε α) (f : α → Reported ε β)

@[simp] theorem value_bind : (x >>= f).value = (f x.value).value := rfl

@[simp] theorem reports_bind : (x >>= f).reports = x.reports ++ (f x.value).reports := rfl

end

@[simp] theorem reports_report (e : ε) : (report e).reports = [e] := rfl

@[simp] theorem reports_reportIf (condition : Prop) [Decidable condition] (e : ε) :
    (reportIf condition e).reports = if condition then [e] else [] := rfl

@[simp] theorem value_each (f : α → Reported ε β) (l : List α) :
    (each f l).value = l.map fun a => (f a).value := rfl

@[simp] theorem reports_each (f : α → Reported ε β) (l : List α) :
    (each f l).reports = l.flatMap fun a => (f a).reports := rfl

theorem reportIf_eq_nil_iff {condition : Prop} [Decidable condition] {e : ε} :
    (reportIf condition e).reports = [] ↔ ¬condition := by
  rw [reports_reportIf]
  split <;> simp [*]

theorem each_eq_nil_iff {f : α → Reported ε β} {l : List α} :
    (each f l).reports = [] ↔ ∀ a ∈ l, (f a).reports = [] :=
  flatMap_eq_nil_iff

theorem collect_eq_ok_iff {x : Reported ε α} {a : α} : x.collect = .ok a ↔ x.reports = [] ∧ x.value = a := by
  unfold collect
  cases x.reports with
  | nil => simp
  | cons e rest => simp

/-! ## Two readers side by side -/

/-- Both found something wrong, or neither did and what they read is related. -/
def Agrees {δ : Type u} {γ : Type w} (R : α → γ → Prop) (x : Reported ε α) (y : Reported δ γ) : Prop :=
  (x.reports = [] ↔ y.reports = []) ∧ (x.reports = [] → R x.value y.value)

section

variable {ε δ : Type u} {α β γ ζ : Type v} {R : α → β → Prop} {S : γ → ζ → Prop}
  {x : Reported ε α} {y : Reported δ β}

theorem agrees_pure {a : α} {b : β} (h : R a b) : Agrees R (pure a : Reported ε α) (pure b : Reported δ β) :=
  ⟨⟨fun _ => rfl, fun _ => rfl⟩, fun _ => h⟩

theorem agrees_of_reports {e : ε} {d : δ} {later : List ε} {others : List δ} (hx : x.reports = e :: later)
    (hy : y.reports = d :: others) : Agrees R x y := by
  refine ⟨?_, fun h => ?_⟩
  · rw [hx, hy]
    exact ⟨nofun, nofun⟩
  · rw [hx] at h
    cases h

theorem Agrees.mono {R' : α → β → Prop} (h : Agrees R x y) (hR : ∀ a b, R a b → R' a b) : Agrees R' x y :=
  ⟨h.1, fun hNone => hR _ _ (h.2 hNone)⟩

theorem agrees_reportIf {condition other : Prop} [Decidable condition] [Decidable other]
    (h : condition ↔ other) (e : ε) (d : δ) :
    Agrees (fun _ _ => True) (reportIf condition e) (reportIf other d) := by
  refine ⟨?_, fun _ => trivial⟩
  rw [reportIf_eq_nil_iff, reportIf_eq_nil_iff, h]

theorem agrees_bind (h : Agrees R x y) {f : α → Reported ε γ} {g : β → Reported δ ζ}
    (hRest : ∀ a b, R a b → Agrees S (f a) (g b)) : Agrees S (x >>= f) (y >>= g) := by
  by_cases hNone : x.reports = []
  · have hStep := hRest _ _ (h.2 hNone)
    constructor
    · rw [reports_bind, reports_bind, hNone, h.1.mp hNone]
      exact hStep.1
    · intro hAll
      exact hStep.2 (append_eq_nil_iff.mp hAll).2
  · have hOther := mt h.1.mpr hNone
    constructor
    · rw [reports_bind, reports_bind, append_eq_nil_iff, append_eq_nil_iff]
      exact ⟨fun hAll => absurd hAll.1 hNone, fun hAll => absurd hAll.1 hOther⟩
    · intro hAll
      exact absurd (append_eq_nil_iff.mp hAll).1 hNone

theorem agrees_each {f : α → Reported ε γ} {g : β → Reported δ ζ} {l : List α} {m : List β}
    (h : List.Forall₂ (fun a b => Agrees S (f a) (g b)) l m) :
    Agrees (List.Forall₂ S) (each f l) (each g m) := by
  induction h with
  | nil => exact ⟨⟨fun _ => rfl, fun _ => rfl⟩, fun _ => .nil⟩
  | cons hHead _ ih =>
    constructor
    · rw [reports_each, reports_each, flatMap_cons, flatMap_cons, append_eq_nil_iff, append_eq_nil_iff,
      hHead.1]
      exact and_congr_right fun _ => ih.1
    · intro hAll
      rw [reports_each, flatMap_cons, append_eq_nil_iff] at hAll
      exact .cons (hHead.2 hAll.1) (ih.2 hAll.2)

theorem agrees_foldlM {ι κ : Type w} {A : ι → κ → Prop} {f : α → ι → Reported ε α}
    {g : β → κ → Reported δ β} {l : List ι} {m : List κ} (hItems : List.Forall₂ A l m)
    (hStep : ∀ a b i j, R a b → A i j → Agrees R (f a i) (g b j)) {a : α} {b : β} (hStart : R a b) :
    Agrees R (l.foldlM f a) (m.foldlM g b) := by
  induction hItems generalizing a b with
  | nil => exact agrees_pure hStart
  | cons hHead _ ih =>
    rw [foldlM_cons, foldlM_cons]
    exact agrees_bind (hStep _ _ _ _ hStart hHead) fun _ _ hNext => ih hNext

theorem Agrees.collect (h : Agrees R x y) :
    (∃ errors others, x.collect = .error errors ∧ y.collect = .error others) ∨
      ∃ a b, x.collect = .ok a ∧ y.collect = .ok b ∧ R a b := by
  by_cases hNone : x.reports = []
  · exact .inr ⟨_, _, collect_eq_ok_iff.mpr ⟨hNone, rfl⟩, collect_eq_ok_iff.mpr ⟨h.1.mp hNone, rfl⟩,
      h.2 hNone⟩
  · obtain ⟨e, later, hx⟩ := exists_cons_of_ne_nil hNone
    obtain ⟨d, others, hy⟩ := exists_cons_of_ne_nil (mt h.1.mpr hNone)
    refine .inl ⟨e :: later, d :: others, ?_, ?_⟩
    · rw [Reported.collect, hx]
    · rw [Reported.collect, hy]

end

section

variable {κ ν : Type v} [DecidableEq κ] {ι : Type w} {key : ι → κ} {f : Option ν → ι → Reported ε ν}

def assign (key : ι → κ) (f : Option ν → ι → Reported ε ν) (d : Dict κ ν) (i : ι) :
    Reported ε (Dict κ ν) := do
  let value ← f (d.get? (key i)) i
  pure (d.set (key i) value)

theorem reports_foldlM_assign {l : List ι} (h : (l.map key).Nodup) (d : Dict κ ν) :
    (l.foldlM (assign key f) d).reports = l.flatMap fun i => (f (d.get? (key i)) i).reports := by
  induction l generalizing d with
  | nil => rfl
  | cons i rest ih =>
    obtain ⟨hFresh, hRest⟩ := nodup_cons.mp h
    rw [foldlM_cons, reports_bind, ih hRest, flatMap_cons]
    congr 1
    · exact append_nil _
    · refine flatMap_congr fun j hj => ?_
      have hNe : key i ≠ key j := fun hSame => hFresh (hSame ▸ mem_map_of_mem hj)
      rw [assign, value_bind, value_pure, get?_set_of_ne hNe]

theorem get?_foldlM_assign {l : List ι} (h : (l.map key).Nodup) (d : Dict κ ν) (k : κ) :
    (l.foldlM (assign key f) d).value.get? k =
      match l.find? fun i => key i = k with
      | some i => some (f (d.get? k) i).value
      | none => d.get? k := by
  induction l generalizing d with
  | nil => rfl
  | cons i rest ih =>
    obtain ⟨hFresh, hRest⟩ := nodup_cons.mp h
    rw [foldlM_cons, value_bind, ih hRest]
    by_cases hKey : key i = k
    · have hNone : (rest.find? fun j => key j = k) = none := by
        refine find?_eq_none.mpr fun j hj hSame => hFresh ?_
        rw [hKey, ← of_decide_eq_true hSame]
        exact mem_map_of_mem hj
      rw [hNone, find?_cons, decide_eq_true hKey, ← hKey]
      exact get?_set_self _ _ _
    · rw [find?_cons, decide_eq_false hKey]
      have hGet : ((assign key f d i).value).get? k = d.get? k := get?_set_of_ne hKey _ _
      rw [hGet]

end

end Reported
