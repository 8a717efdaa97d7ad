import Mathlib.Data.List.Forall2

/-! # Computations that may raise

Inversion lemmas for `Except`: what a sequence, a loop or a comprehension that returned went
through, and which step a raised one failed at. -/

namespace Raising

open List

universe u v w

variable {ε : Type u} {α β : Type v} {σ : Type v}

variable {x : Except ε α} {f : α → Except ε β}

theorem bind_eq_ok {b : β} : (x >>= f) = .ok b ↔ ∃ a, x = .ok a ∧ f a = .ok b := by
  cases x with
  | error e => exact ⟨fun h => (nomatch h), fun ⟨_, h, _⟩ => (nomatch h)⟩
  | ok a =>
    constructor
    · intro h
      exact ⟨a, rfl, h⟩
    · rintro ⟨a', hEq, h⟩
      cases hEq
      exact h

theorem step {a : α} {b : β} (hx : x = .ok a)
    (h : f a = .ok b) : (x >>= f) = .ok b := bind_eq_ok.mpr ⟨a, hx, h⟩

theorem bind_eq_error {e : ε} : (x >>= f) = .error e ↔ x = .error e ∨ ∃ a, x = .ok a ∧ f a = .error e := by
  cases x with
  | error e' =>
    constructor
    · intro h
      cases h
      exact .inl rfl
    · rintro (h | ⟨a, h, _⟩)
      · cases h
        rfl
      · cases h
  | ok a =>
    constructor
    · intro h
      exact .inr ⟨a, rfl, h⟩
    · rintro (h | ⟨a', hEq, h⟩)
      · cases h
      · cases hEq
        exact h

theorem seq_eq_ok {ε : Type u} {β : Type} {x : Except ε Unit} {y : Except ε β} {b : β} :
    (x >>= fun _ => y) = .ok b ↔ x = .ok () ∧ y = .ok b := by
  rw [bind_eq_ok]
  constructor
  · rintro ⟨⟨⟩, hx, hy⟩
    exact ⟨hx, hy⟩
  · rintro ⟨hx, hy⟩
    exact ⟨(), hx, hy⟩

theorem map_eq_ok {x : Except ε α} {f : α → β} {b : β} : x.map f = .ok b ↔ ∃ a, x = .ok a ∧ f a = b := by
  cases x with
  | error e => exact ⟨fun h => (nomatch h), fun ⟨_, h, _⟩ => (nomatch h)⟩
  | ok a =>
    constructor
    · intro h
      exact ⟨a, rfl, Except.ok.inj h⟩
    · rintro ⟨a', hEq, h⟩
      cases hEq
      exact congrArg Except.ok h

theorem map_eq_error {x : Except ε α} {f : α → β} {e : ε} : x.map f = .error e ↔ x = .error e := by
  cases x with
  | error e' =>
    constructor <;>
    · intro h
      cases h
      rfl
  | ok a => exact ⟨fun h => (nomatch h), fun h => (nomatch h)⟩

theorem exists_pair_iff {γ : Type v} {x : Except ε α} {y : Except ε β} {f : α → β → γ} :
    (∃ c, (do let a ← x; let b ← y; return f a b : Except ε γ) = .ok c) ↔
      (∃ a, x = .ok a) ∧ ∃ b, y = .ok b := by
  constructor
  · rintro ⟨c, h⟩
    obtain ⟨a, ha, h⟩ := bind_eq_ok.mp h
    obtain ⟨b, hb, -⟩ := bind_eq_ok.mp h
    exact ⟨⟨a, ha⟩, b, hb⟩
  · rintro ⟨⟨a, ha⟩, b, hb⟩
    exact ⟨f a b, step ha (step hb rfl)⟩

variable {f : σ → α → Except ε σ}

theorem foldlM_cons_eq_ok {s t : σ} {a : α} {l : List α} :
    (a :: l).foldlM f s = .ok t ↔ ∃ s', f s a = .ok s' ∧ l.foldlM f s' = .ok t := by
  rw [foldlM_cons]
  exact bind_eq_ok

theorem foldlM_invariant (holds : σ → Prop) {l : List α}
    (hStep : ∀ s a s', a ∈ l → holds s → f s a = .ok s' → holds s') {s t : σ} (hs : holds s)
    (h : l.foldlM f s = .ok t) : holds t := by
  induction l generalizing s with
  | nil =>
    cases h
    exact hs
  | cons a l ih =>
    obtain ⟨s', hHead, hTail⟩ := foldlM_cons_eq_ok.mp h
    exact ih (fun s a s' ha => hStep s a s' (mem_cons_of_mem _ ha))
      (hStep s a s' mem_cons_self hs hHead) hTail

theorem foldlM_error (holds : σ → Prop) (raised : ε → Prop) {l : List α}
    (hStep : ∀ s a s', a ∈ l → holds s → f s a = .ok s' → holds s')
    (hRaise : ∀ s a e, a ∈ l → holds s → f s a = .error e → raised e) {s : σ} (hs : holds s)
    {e : ε} (h : l.foldlM f s = .error e) : raised e := by
  induction l generalizing s with
  | nil => cases h
  | cons a l ih =>
    rw [foldlM_cons] at h
    rcases bind_eq_error.mp h with hHead | ⟨s', hHead, hTail⟩
    · exact hRaise s a e mem_cons_self hs hHead
    · exact ih (fun s a s' ha => hStep s a s' (mem_cons_of_mem _ ha))
        (fun s a e ha => hRaise s a e (mem_cons_of_mem _ ha))
        (hStep s a s' mem_cons_self hs hHead) hTail

theorem exists_foldlM_iff (returns : α → Prop) {l : List α}
    (hStep : ∀ s, ∀ a ∈ l, (∃ s', f s a = .ok s') ↔ returns a) (s : σ) :
    (∃ t, l.foldlM f s = .ok t) ↔ ∀ a ∈ l, returns a := by
  induction l generalizing s with
  | nil => exact ⟨fun _ a ha => (nomatch ha), fun _ => ⟨s, rfl⟩⟩
  | cons a l ih =>
    have hTail := ih fun s b hb => hStep s b (mem_cons_of_mem _ hb)
    rw [forall_mem_cons, ← hStep s a mem_cons_self]
    constructor
    · rintro ⟨t, h⟩
      obtain ⟨s', hHead, hRest⟩ := foldlM_cons_eq_ok.mp h
      exact ⟨⟨s', hHead⟩, (hTail s').mp ⟨t, hRest⟩⟩
    · rintro ⟨⟨s', hHead⟩, hAll⟩
      obtain ⟨t, hRest⟩ := (hTail s').mpr hAll
      exact ⟨t, foldlM_cons_eq_ok.mpr ⟨s', hHead, hRest⟩⟩

variable {f : α → Except ε β} {l : List α}

theorem mapM_eq_ok {bs : List β} : l.mapM f = .ok bs ↔ List.Forall₂ (fun a b => f a = .ok b) l bs := by
  induction l generalizing bs with
  | nil =>
    constructor
    · intro h
      cases h
      exact .nil
    · intro h
      cases h
      rfl
  | cons a l ih =>
    rw [mapM_cons]
    constructor
    · intro h
      obtain ⟨b, hb, h⟩ := bind_eq_ok.mp h
      obtain ⟨rest, hRest, h⟩ := bind_eq_ok.mp h
      cases h
      exact .cons hb (ih.mp hRest)
    · rintro (_ | ⟨hb, hRest⟩)
      exact bind_eq_ok.mpr ⟨_, hb, bind_eq_ok.mpr ⟨_, ih.mpr hRest, rfl⟩⟩

theorem map_of_mapM {γ : Type w} {f : α → Except ε β} {result : β → γ} {given : α → γ} {l : List α}
    {bs : List β} (hStep : ∀ a b, f a = .ok b → result b = given a) (h : l.mapM f = .ok bs) :
    bs.map result = l.map given := by
  have hAll := mapM_eq_ok.mp h
  clear h
  induction hAll with
  | nil => rfl
  | cons hHead _ ih => rw [map_cons, map_cons, ih, hStep _ _ hHead]

theorem mapM_congr {f g : α → Except ε β} {l : List α} (h : ∀ a ∈ l, f a = g a) : l.mapM f = l.mapM g := by
  induction l with
  | nil => rfl
  | cons a l ih =>
    obtain ⟨hHead, hTail⟩ := forall_mem_cons.mp h
    rw [mapM_cons, mapM_cons, hHead, ih hTail]

theorem mapM_map {α' β' : Type v} {f : α → Except ε β} {g : α' → Except ε β'} {before : α → α'}
    {after : β → β'} {l : List α} (h : ∀ a ∈ l, g (before a) = (f a).map after) :
    (l.map before).mapM g = (l.mapM f).map (List.map after) := by
  induction l with
  | nil => rfl
  | cons a l ih =>
    obtain ⟨hHead, hTail⟩ := forall_mem_cons.mp h
    rw [map_cons, mapM_cons, mapM_cons, hHead, ih hTail]
    cases f a with
    | error => rfl
    | ok b => cases l.mapM f <;> rfl

theorem exists_mapM_eq_ok : (∃ bs, l.mapM f = .ok bs) ↔ ∀ a ∈ l, ∃ b, f a = .ok b := by
  induction l with
  | nil => exact ⟨fun _ a ha => (nomatch ha), fun _ => ⟨[], rfl⟩⟩
  | cons a l ih =>
    constructor
    · rintro ⟨bs, h⟩
      rw [mapM_cons] at h
      obtain ⟨b, hb, h⟩ := bind_eq_ok.mp h
      obtain ⟨rest, hRest, -⟩ := bind_eq_ok.mp h
      intro a' ha'
      rcases mem_cons.mp ha' with rfl | ha'
      · exact ⟨b, hb⟩
      · exact ih.mp ⟨rest, hRest⟩ a' ha'
    · intro h
      obtain ⟨b, hb⟩ := h a mem_cons_self
      obtain ⟨rest, hRest⟩ := ih.mpr fun a' ha' => h a' (mem_cons_of_mem _ ha')
      rw [mapM_cons]
      exact ⟨b :: rest, bind_eq_ok.mpr ⟨b, hb, bind_eq_ok.mpr ⟨rest, hRest, rfl⟩⟩⟩

theorem exists_mapM_of_forall {wanted : α → β → Prop} {f : α → Except ε β} {l : List α}
    (h : ∀ a ∈ l, ∃ b, f a = .ok b ∧ wanted a b) :
    ∃ bs, l.mapM f = .ok bs ∧ List.Forall₂ wanted l bs := by
  induction l with
  | nil => exact ⟨[], rfl, .nil⟩
  | cons a l ih =>
    obtain ⟨⟨b, hb, hWanted⟩, hRest⟩ := forall_mem_cons.mp h
    obtain ⟨bs, hbs, hAll⟩ := ih hRest
    rw [mapM_cons]
    exact ⟨b :: bs, step hb (step hbs rfl), .cons hWanted hAll⟩

theorem mem_zip_iff {α β : Type*} {f : α → Except ε β} {l : List α} {bs : List β}
    (h : List.Forall₂ (fun a b => f a = .ok b) l bs) {a : α} {b : β} :
    (a, b) ∈ l.zip bs ↔ a ∈ l ∧ f a = .ok b := by
  induction h with
  | nil => simp
  | @cons first out rest outs hHead _ ih =>
    rw [zip_cons_cons, mem_cons, ih, mem_cons, Prod.mk.injEq]
    constructor
    · rintro (⟨rfl, rfl⟩ | ⟨hMem, hEq⟩)
      · exact ⟨.inl rfl, hHead⟩
      · exact ⟨.inr hMem, hEq⟩
    · rintro ⟨rfl | hMem, hEq⟩
      · exact .inl ⟨rfl, Except.ok.inj (hEq.symm.trans hHead)⟩
      · exact .inr ⟨hMem, hEq⟩

section

variable {f : α → Except ε β} {l : List α} {bs : List β} (h : l.mapM f = .ok bs)
include h

theorem exists_of_mem_mapM {b : β} (hb : b ∈ bs) : ∃ a ∈ l, f a = .ok b := by
  have hForall := mapM_eq_ok.mp h
  clear h
  induction hForall with
  | nil => cases hb
  | cons hHead _ ih =>
    rcases mem_cons.mp hb with rfl | hb
    · exact ⟨_, mem_cons_self, hHead⟩
    · obtain ⟨a, ha, hEq⟩ := ih hb
      exact ⟨a, mem_cons_of_mem _ ha, hEq⟩

theorem mem_mapM_of_mem {a : α} (ha : a ∈ l) : ∃ b ∈ bs, f a = .ok b := by
  have hForall := mapM_eq_ok.mp h
  clear h
  induction hForall with
  | nil => cases ha
  | cons hHead _ ih =>
    rcases mem_cons.mp ha with rfl | ha
    · exact ⟨_, mem_cons_self, hHead⟩
    · obtain ⟨b, hb, hEq⟩ := ih ha
      exact ⟨b, mem_cons_of_mem _ hb, hEq⟩

theorem mem_mapM_iff {b : β} : b ∈ bs ↔ ∃ a ∈ l, f a = .ok b := by
  refine ⟨exists_of_mem_mapM h, fun ⟨a, ha, hEq⟩ => ?_⟩
  obtain ⟨b', hMem, hEq'⟩ := mem_mapM_of_mem h ha
  rwa [Except.ok.inj (hEq.symm.trans hEq')]

end

theorem exists_mapM_perm {f : α → Except ε β} {l l' : List α} {bs : List β} (h : l.mapM f = .ok bs)
    (hPerm : l.Perm l') : ∃ bs', l'.mapM f = .ok bs' :=
  exists_mapM_eq_ok.mpr fun a ha => exists_mapM_eq_ok.mp ⟨bs, h⟩ a (hPerm.mem_iff.mpr ha)

theorem forM_eq_ok {ε : Type u} {α : Type w} {f : α → Except ε Unit} {l : List α} :
    l.forM f = .ok () ↔ ∀ a ∈ l, f a = .ok () := by
  induction l with
  | nil => exact ⟨fun _ a ha => (nomatch ha), fun _ => rfl⟩
  | cons a l ih =>
    have hCons : (a :: l).forM f = (f a >>= fun _ => l.forM f) := rfl
    rw [hCons, bind_eq_ok, forall_mem_cons, ← ih]
    constructor
    · rintro ⟨⟨⟩, ha, hl⟩
      exact ⟨ha, hl⟩
    · rintro ⟨ha, hl⟩
      exact ⟨(), ha, hl⟩

theorem forM_error {ε : Type u} {α : Type w} {raised : ε → Prop} {f : α → Except ε Unit}
    {l : List α} (hRaise : ∀ a ∈ l, ∀ e, f a = .error e → raised e) {e : ε}
    (h : l.forM f = .error e) : raised e := by
  induction l with
  | nil => cases h
  | cons a l ih =>
    have hCons : (a :: l).forM f = (f a >>= fun _ => l.forM f) := rfl
    rw [hCons] at h
    rcases bind_eq_error.mp h with h | ⟨_, -, h⟩
    · exact hRaise a mem_cons_self e h
    · exact ih (fun a ha => hRaise a (mem_cons_of_mem _ ha)) h

/-! ## Guarded computations

A guarded computation makes the same steps as another one, but stops where that one would take a
value it should not take. -/

section Raises

variable {ε : Type u} {α β : Type v} {p : ε → Prop}

def Raises (p : ε → Prop) (x : Except ε α) : Prop := ∀ e, x = .error e → p e

theorem Raises.ok (a : α) : Raises p (.ok a : Except ε α) := fun _ h => nomatch h

theorem Raises.error {e : ε} (h : p e) : Raises p (.error e : Except ε α) := by
  intro e' hEq
  rwa [← Except.error.inj hEq]

theorem Raises.bind {x : Except ε α} {f : α → Except ε β} (hx : Raises p x)
    (hf : ∀ a, Raises p (f a)) : Raises p (x >>= f) := by
  intro e h
  rcases bind_eq_error.mp h with h | ⟨a, -, h⟩
  · exact hx e h
  · exact hf a e h

theorem Raises.map {x : Except ε α} (hx : Raises p x) (f : α → β) : Raises p (x.map f) :=
  fun e h => hx e (map_eq_error.mp h)

theorem Raises.ite {c : Prop} [Decidable c] {x y : Except ε α} (hx : c → Raises p x)
    (hy : ¬c → Raises p y) : Raises p (if c then x else y) := by
  split
  · exact hx ‹_›
  · exact hy ‹_›

theorem Raises.mono {q : ε → Prop} {x : Except ε α} (hx : Raises p x) (h : ∀ e, p e → q e) :
    Raises q x := fun e hEq => h e (hx e hEq)

theorem Raises.mapM {f : α → Except ε β} {l : List α} (h : ∀ a ∈ l, Raises p (f a)) :
    Raises p (l.mapM f) := by
  induction l with
  | nil => exact .ok []
  | cons a l ih =>
    obtain ⟨hHead, hTail⟩ := forall_mem_cons.mp h
    rw [mapM_cons]
    exact hHead.bind fun _ => (ih hTail).bind fun _ => .ok _

end Raises

section Yields

variable {ε : Type u} {α β : Type v} {returned : α → Prop} {raised : ε → Prop}

def Yields (returned : α → Prop) (raised : ε → Prop) : Except ε α → Prop
  | .ok a => returned a
  | .error e => raised e

theorem Yields.bind {x : Except ε α} {f : α → Except ε β} {returned' : β → Prop}
    (hx : Yields returned raised x) (hf : ∀ a, returned a → Yields returned' raised (f a)) :
    Yields returned' raised (x >>= f) := by
  cases x with
  | error e => exact hx
  | ok a => exact hf a hx

theorem Yields.map {x : Except ε α} {f : α → β} {returned' : β → Prop}
    (hx : Yields returned raised x) (hf : ∀ a, returned a → returned' (f a)) :
    Yields returned' raised (x.map f) := by
  cases x with
  | error e => exact hx
  | ok a => exact hf a hx

theorem Yields.ite {c : Prop} [Decidable c] {x y : Except ε α}
    (hx : c → Yields returned raised x) (hy : ¬c → Yields returned raised y) :
    Yields returned raised (if c then x else y) := by
  split
  · exact hx ‹_›
  · exact hy ‹_›

end Yields

theorem Raises.forM {ε : Type u} {α : Type w} {p : ε → Prop} {f : α → Except ε Unit} {l : List α}
    (h : ∀ a ∈ l, Raises p (f a)) : Raises p (l.forM f) :=
  fun _ hEq => forM_error h hEq

/-- How a computation may differ from the one it guards: it stops, where the other one raises or,
if that is allowed, goes on. -/
structure Guarding (ε : Type u) where
  stop : ε
  raised : ε → Prop
  goesOn : Prop
  handled : ε → Prop
  unhandled : ¬handled stop

namespace Guarding

variable {ε : Type u} {α β : Type v} (g : Guarding ε)

structure Follows (x y : Except ε α) : Prop where
  agrees : x = y ∧ x ≠ .error g.stop ∨ x = .error g.stop ∧ (g.goesOn ∨ ∃ e, g.raised e ∧ y = .error e)
  raises : Raises (fun e => g.handled e ∨ e = g.stop) x

variable {g}

variable {x y : Except ε α} {f k : α → Except ε β}

theorem Follows.refl (h : Raises g.handled x) : g.Follows x x where
  agrees := .inl ⟨rfl, fun hStop => g.unhandled (h _ hStop)⟩
  raises := h.mono fun _ => .inl

theorem Follows.stop (h : g.goesOn ∨ ∃ e, g.raised e ∧ y = .error e) : g.Follows (.error g.stop) y :=
  ⟨.inr ⟨rfl, h⟩, Raises.error (.inr rfl)⟩

theorem Follows.bind (hx : g.Follows x y)
    (hf : ∀ a, g.Follows (f a) (k a)) : g.Follows (x >>= f) (y >>= k) := by
  refine ⟨?_, hx.raises.bind fun a => (hf a).raises⟩
  rcases hx.agrees with ⟨rfl, hGo⟩ | ⟨rfl, hStop⟩
  · cases x with
    | error e => exact .inl ⟨rfl, fun h => hGo (congrArg _ (Except.error.inj h))⟩
    | ok a => exact (hf a).agrees
  · refine .inr ⟨rfl, hStop.imp_right ?_⟩
    rintro ⟨e, hRaised, rfl⟩
    exact ⟨e, hRaised, rfl⟩

theorem Follows.step (hx : Raises g.handled x)
    (hf : ∀ a, g.Follows (f a) (k a)) : g.Follows (x >>= f) (x >>= k) := (refl hx).bind hf

theorem Follows.map (hx : g.Follows x y) (f : α → β) : g.Follows (x.map f) (y.map f) := by
  refine ⟨?_, hx.raises.map f⟩
  rcases hx.agrees with ⟨rfl, hGo⟩ | ⟨rfl, hStop⟩
  · exact .inl ⟨rfl, fun h => hGo (map_eq_error.mp h)⟩
  · refine .inr ⟨rfl, hStop.imp_right ?_⟩
    rintro ⟨e, hRaised, rfl⟩
    exact ⟨e, hRaised, rfl⟩

theorem Follows.mapM {l : List α} (h : ∀ a ∈ l, g.Follows (f a) (k a)) : g.Follows (l.mapM f) (l.mapM k) := by
  induction l with
  | nil => exact refl (Raises.ok [])
  | cons a l ih =>
    obtain ⟨hHead, hTail⟩ := forall_mem_cons.mp h
    rw [mapM_cons, mapM_cons]
    exact hHead.bind fun _ => (ih hTail).bind fun _ => refl (Raises.ok _)

theorem Follows.ite {c : Prop} [Decidable c] {x' y' : Except ε α} (hx : c → g.Follows x x')
    (hy : ¬c → g.Follows y y') : g.Follows (if c then x else y) (if c then x' else y') := by
  split
  · exact hx ‹_›
  · exact hy ‹_›

theorem Follows.eq_of_ne (h : g.Follows x y) (hGo : x ≠ .error g.stop) : x = y :=
  (h.agrees.resolve_right fun hStop => hGo hStop.1).1

theorem Follows.of_stop (h : g.Follows x y) (hStop : x = .error g.stop) :
    g.goesOn ∨ ∃ e, g.raised e ∧ y = .error e :=
  (h.agrees.resolve_left fun hSame => hSame.2 hStop).2

end Guarding

end Raising

/-! ## Values that passed their constructor

A frozen dataclass runs its checks once, at construction. A checked value is the record together
with the fact that its check accepted it, so a rejected record cannot be built. -/

universe u v

variable {α : Type u} {ε : Type v}

abbrev Checked (check : α → Except ε Unit) := { a : α // check a = .ok () }

namespace Checked

def construct (check : α → Except ε Unit) (a : α) : Except ε (Checked check) :=
  match h : check a with
  | .ok () => .ok ⟨a, h⟩
  | .error e => .error e

variable {check : α → Except ε Unit} {a : α}

theorem construct_eq_ok (h : check a = .ok ()) : construct check a = .ok ⟨a, h⟩ := by
  unfold construct
  split
  · rfl
  · rename_i e he
    rw [h] at he
    cases he

theorem construct_eq_ok_iff {c : Checked check} : construct check a = .ok c ↔ c.val = a := by
  constructor
  · intro h
    unfold construct at h
    split at h
    · cases h
      rfl
    · cases h
  · rintro rfl
    exact construct_eq_ok c.property

theorem construct_eq_error_iff {e : ε} : construct check a = .error e ↔ check a = .error e := by
  constructor
  · intro h
    unfold construct at h
    split at h
    · cases h
    · rename_i e' he
      cases h
      exact he
  · intro h
    unfold construct
    split
    · rename_i h'
      rw [h] at h'
      cases h'
    · rename_i e' he
      rw [h] at he
      cases he
      rfl

theorem exists_construct_iff : (∃ c, construct check a = .ok c) ↔ check a = .ok () :=
  ⟨fun ⟨c, h⟩ => construct_eq_ok_iff.mp h ▸ c.property, fun h => ⟨_, construct_eq_ok h⟩⟩

end Checked
