import Ici.Library.Framing
import Ici.Library.Json
import Ici.Library.PurePaths
import Ici.Library.Regex
import Ici.Library.Substrings

/-! # Cutting texts into words -/

namespace Python

def rstrip (t : Text) : Text := t.rdropWhile isSpace

/-- `text.split()`, from a word that has been begun. -/
def wordsFrom (begun : Text) : Text → List Text
  | [] => if begun = [] then [] else [begun]
  | c :: rest =>
    if !isSpace c then wordsFrom (begun ++ [c]) rest
    else if begun = [] then wordsFrom [] rest
    else begun :: wordsFrom [] rest

def words (t : Text) : List Text := wordsFrom [] t

/-- `text.partition(marker)` as the two outer parts, where the marker is found. -/
def partition? (marker t : Text) : Option (Text × Text) :=
  (before? marker t).map fun front => (front, t.drop (front.length + marker.length))

namespace PurePosixPath

def stem (t : Text) : Text :=
  let suffix := (name t).reverse.takeWhile (· ≠ 0x2e)
  let front := ((name t).reverse.drop (suffix.length + 1)).reverse
  if suffix = [] ∨ front = [] then name t else front

end PurePosixPath

end Python

namespace Python

def placesFrom (before : Option CodePoint) : Text → List Cursor
  | [] => [{ before := before, rest := [] }]
  | c :: rest => { before := before, rest := c :: rest } :: placesFrom (some c) rest

namespace Cursor

/-- `^`, where every line counts. -/
def startsLine (cursor : Cursor) : Bool := cursor.before.all (· == 0xa)

/-- `$`, where every line counts. -/
def endsLine (cursor : Cursor) : Bool := cursor.rest.head?.all (· == 0xa)

end Cursor

namespace Pattern

def spelled (t : Text) : Pattern := t.foldr (fun c rest => cat (one (· == c)) rest) nothing

def spaces : Pattern := many isSpace 0 none true

/-- Where the first match that begins a line ends, of those that end as they should. -/
def searchLines (isWord : CodePoint → Bool) (pattern : Pattern) (ending : Cursor → Bool) (t : Text) :
    Option Cursor :=
  (placesFrom none t).findSome? fun start =>
    if start.startsLine then (pattern.ends isWord start).find? ending else none

end Pattern

end Python

/-! ## Lines of a text

`str.splitlines` ends a line at every line boundary Python knows, not only at the newline. -/

namespace Python

open List

/-- The line boundaries of `str.splitlines`. -/
def isLineBreak (c : CodePoint) : Bool :=
  (0xa ≤ c.val && c.val ≤ 0xd) || (0x1c ≤ c.val && c.val ≤ 0x1e) || c.val == 0x85 ||
  c.val == 0x2028 || c.val == 0x2029

def splitLines : Text → List Text
  | [] => []
  | c :: rest =>
    if c = 0xd ∧ rest.head? = some 0xa then splitLines rest
    else if isLineBreak c then [] :: splitLines rest
    else match splitLines rest with
      | [] => [[c]]
      | line :: lines => (c :: line) :: lines

/-- What a file opened for text makes of its line ends: every one is a newline. -/
def universalNewlines : Text → Text
  | [] => []
  | c :: rest =>
    if c = 0xd ∧ rest.head? = some 0xa then universalNewlines rest
    else (if c = 0xd then 0xa else c) :: universalNewlines rest

variable {t : Text} {c : CodePoint}

theorem universalNewlines_eq_self (h : ∀ c ∈ t, c ≠ 0xd) : universalNewlines t = t := by
  induction t with
  | nil => rfl
  | cons c t ih =>
    have hNe := h c mem_cons_self
    rw [universalNewlines, if_neg fun hEq => hNe hEq.1, if_neg hNe, ih fun d hd => h d (mem_cons_of_mem _ hd)]

def Unbroken (t : Text) : Prop := ∀ c ∈ t, isLineBreak c = false

instance (t : Text) : Decidable (Unbroken t) := List.decidableBAll _ t

theorem splitLines_cons (h : isLineBreak c = false) (rest : Text) :
    splitLines (c :: rest) = match splitLines rest with
      | [] => [[c]]
      | line :: lines => (c :: line) :: lines := by
  have hReturn : ¬(c = 0xd ∧ rest.head? = some 0xa) := by
    rintro ⟨rfl, -⟩
    cases h
  rw [splitLines, if_neg hReturn, h, if_neg Bool.false_ne_true]

theorem splitLines_newline (rest : Text) : splitLines (0xa :: rest) = [] :: splitLines rest := by
  have hReturn : ¬((0xa : CodePoint) = 0xd ∧ rest.head? = some 0xa) := by
    rintro ⟨h, -⟩
    cases h
  rw [splitLines, if_neg hReturn]
  rfl

theorem splitLines_of_unbroken (h : Unbroken t) (hNe : t ≠ []) : splitLines t = [t] := by
  induction t with
  | nil => exact absurd rfl hNe
  | cons c t ih =>
    rw [splitLines_cons (h c mem_cons_self)]
    cases t with
    | nil => rfl
    | cons d t =>
      rw [ih (fun e he => h e (mem_cons_of_mem _ he)) (cons_ne_nil d t)]

theorem splitLines_line (h : Unbroken t) (rest : Text) :
    splitLines (t ++ 0xa :: rest) = t :: splitLines rest := by
  induction t with
  | nil => exact splitLines_newline rest
  | cons c t ih =>
    rw [cons_append, splitLines_cons (h c mem_cons_self), ih fun d hd => h d (mem_cons_of_mem _ hd)]

theorem splitLines_ne_nil (h : t ≠ []) : splitLines t ≠ [] := by
  induction t with
  | nil => exact absurd rfl h
  | cons c t ih =>
    rw [splitLines]
    split_ifs with hReturn
    · apply ih
      rintro rfl
      cases hReturn.2
    · exact cons_ne_nil _ _
    · cases splitLines t <;> exact cons_ne_nil _ _

/-- A newline ends the lines before it; only an empty line may be added to them. -/
theorem exists_splitLines_newline (a b : Text) : ∃ blank : List Text, (blank = [] ∨ blank = [[]]) ∧
      splitLines (a ++ 0xa :: b) = splitLines a ++ (blank ++ splitLines b) := by
  induction a with
  | nil => exact ⟨[[]], .inr rfl, splitLines_newline b⟩
  | cons c a ih =>
    obtain ⟨blank, hBlank, hRest⟩ := ih
    cases a with
    | nil =>
      by_cases hReturn : c = 0xd
      · refine ⟨[], .inl rfl, ?_⟩
        subst hReturn
        exact splitLines_newline b
      · cases hBreak : isLineBreak c with
        | false =>
          refine ⟨[], .inl rfl, ?_⟩
          rw [cons_append, nil_append, splitLines_cons hBreak, splitLines_cons hBreak, splitLines_newline]
          rfl
        | true =>
          refine ⟨[[]], .inr rfl, ?_⟩
          have hStep (rest : Text) : splitLines (c :: rest) = [] :: splitLines rest := by
            rw [splitLines, if_neg fun hBoth => hReturn hBoth.1, if_pos hBreak]
          rw [cons_append, nil_append, hStep, hStep, splitLines_newline]
          rfl
    | cons d a =>
      refine ⟨blank, hBlank, ?_⟩
      have hHead : (d :: a ++ 0xa :: b).head? = (d :: a).head? := rfl
      rw [cons_append, splitLines, splitLines, hRest, hHead]
      cases hLines : splitLines (d :: a) with
      | nil => exact absurd hLines (splitLines_ne_nil (cons_ne_nil d a))
      | cons line lines =>
        by_cases hReturn : c = 0xd ∧ (d :: a).head? = some 0xa
        · rw [if_pos hReturn, if_pos hReturn]
        · rw [if_neg hReturn, if_neg hReturn]
          cases isLineBreak c <;> rfl

theorem exists_splitLines_of_break (hBreak : isLineBreak c = true) {t : Text}
    (h : Unbroken t) (rest : Text) : ∃ lines, splitLines (t ++ c :: rest) = t :: lines := by
  induction t with
  | nil =>
    rw [nil_append, splitLines]
    split_ifs with hReturn
    · obtain ⟨rest, rfl⟩ := head?_eq_some_iff.mp hReturn.2
      exact ⟨_, splitLines_newline rest⟩
    · exact ⟨_, rfl⟩
  | cons d t ih =>
    obtain ⟨lines, hLines⟩ := ih fun e he => h e (mem_cons_of_mem _ he)
    rw [cons_append, splitLines_cons (h d mem_cons_self), hLines]
    exact ⟨lines, rfl⟩

theorem exists_break_of_not_unbroken (h : ¬Unbroken t) :
    ∃ line c rest, t = line ++ c :: rest ∧ Unbroken line ∧ isLineBreak c = true := by
  induction t with
  | nil => exact absurd (fun _ hc => nomatch hc) h
  | cons c t ih =>
    cases hc : isLineBreak c with
    | true => exact ⟨[], c, t, rfl, fun _ hd => (nomatch hd), hc⟩
    | false =>
      obtain ⟨line, d, rest, rfl, hLine, hd⟩ := ih fun hRest => h (forall_mem_cons.mpr ⟨hc, hRest⟩)
      exact ⟨c :: line, d, rest, rfl, forall_mem_cons.mpr ⟨hc, hLine⟩, hd⟩

/-! ## Documents on one line

A rendered text escapes every control character, and no line boundary above them. -/

/-- A line boundary that is written as it is without `ensure_ascii`. -/
def isBareBreak (c : CodePoint) : Bool := c == 0x85 || c == 0x2028 || c == 0x2029

theorem isLineBreak_of_plain (h : 0x20 ≤ c.val ∧ c.val < 0x80) : isLineBreak c = false := by
  simp only [isLineBreak, Bool.or_eq_false_iff, Bool.and_eq_false_iff, decide_eq_false_iff_not,
    beq_eq_false_iff_ne]
  omega

theorem IsPlain.unbroken (h : IsPlain t) : Unbroken t := fun c hc =>
  isLineBreak_of_plain (h c hc)

theorem isBareBreak_eq_isLineBreak (h : 0x20 ≤ c.val) : isBareBreak c = isLineBreak c := by
  rw [Bool.eq_iff_iff]
  simp only [isBareBreak, isLineBreak, Bool.or_eq_true, Bool.and_eq_true, decide_eq_true_eq,
    beq_iff_eq, Fin.ext_iff]
  have h85 : ((0x85 : CodePoint) : ℕ) = 0x85 := rfl
  have h2028 : ((0x2028 : CodePoint) : ℕ) = 0x2028 := rfl
  have h2029 : ((0x2029 : CodePoint) : ℕ) = 0x2029 := rfl
  omega

theorem isBareBreak_of_control (h : c.val < 0x20) : isBareBreak c = false := by
  have h85 : ((0x85 : CodePoint) : ℕ) = 0x85 := rfl
  have h2028 : ((0x2028 : CodePoint) : ℕ) = 0x2028 := rfl
  have h2029 : ((0x2029 : CodePoint) : ℕ) = 0x2029 := rfl
  simp only [isBareBreak, Bool.or_eq_false_iff, beq_eq_false_iff_ne, ne_eq, Fin.ext_iff]
  omega

namespace Json

def Leaf.IsOneLine : Leaf → Prop
  | text value => ∀ c ∈ value, isBareBreak c = false
  | _ => True

theorem unbroken_escapeChar (c : CodePoint) : Unbroken (escapeChar false c) ↔ isBareBreak c = false := by
  unfold escapeChar
  split
  · rename_i h
    rcases h with rfl | rfl <;> decide
  iterate 5
    split
    · rename_i h
      subst h
      decide
  split
  · rename_i h
    have hPlain : IsPlain (py "\\u" ++ hex 4 c.val) := IsPlain.append (by decide) (isPlain_hex _ _)
    exact iff_of_true hPlain.unbroken (isBareBreak_of_control h)
  · rename_i h
    rw [isBareBreak_eq_isLineBreak (by omega)]
    simp [Unbroken]

/-- Without `ensure_ascii` a document stays on one line iff its texts hold no bare boundary. -/
theorem unbroken_encode_iff {style : Style} (hAscii : style.ensureAscii = false)
    (hStyle : style.Admits (isLineBreak · = false)) {j : Json} {t : Text}
    (h : encode style j = .ok t) : Unbroken t ↔ ∀ leaf ∈ j.leaves, leaf.IsOneLine := by
  refine (forall_encode_iff hStyle j t h).trans ?_
  refine forall₂_congr fun leaf _ => ?_
  cases leaf with
  | int value => rfl
  | float value => rfl
  | text value =>
    simp only [Leaf.WrittenIn, Leaf.IsOneLine, hAscii, mem_flatMap, forall_exists_index, and_imp]
    constructor
    · intro hAll c hc
      exact (unbroken_escapeChar c).mp fun d hd => hAll d c hc hd
    · intro hAll d c hc hd
      exact (unbroken_escapeChar c).mpr (hAll c hc) d hd

end Json

end Python

/-! ## Lines that begin with a mark

Lines are told apart again where each begins with a mark, a mark is recognised whatever follows it,
and no line hides a separator with a mark behind it. -/

namespace MarkedLines

open List Framing

universe u w

variable {α : Type u} {σ : Type w} (mark : α → List σ) (stop : σ)

def line (entry : α × List σ) : List σ := mark entry.1 ++ entry.2

def text (entries : List (α × List σ)) : List σ := List.intercalate [stop] (entries.map (line mark))

def Plain (held : List σ) : Prop := ∀ a, ¬(stop :: mark a) <:+: held

def tails (entries : List (α × List σ)) : List σ := entries.flatMap fun entry => stop :: line mark entry

section

variable (entry : α × List σ) (entries : List (α × List σ))

theorem tails_cons : tails mark stop (entry :: entries) =
      stop :: (mark entry.1 ++ (entry.2 ++ tails mark stop entries)) := by
  rw [tails, flatMap_cons, cons_append, line, append_assoc]
  rfl

theorem text_cons :
    text mark stop (entry :: entries) = mark entry.1 ++ (entry.2 ++ tails mark stop entries) := by
  have hTails (first : List σ) : List.intercalate [stop] (first :: entries.map (line mark)) =
      first ++ tails mark stop entries := by
    induction entries generalizing first with
    | nil => simp [List.intercalate, tails]
    | cons next entries ih =>
      rw [map_cons, intercalate_cons_cons, ih, tails_cons, line, append_assoc, append_assoc, singleton_append]
  rw [text, map_cons, hTails, line, append_assoc]

end

variable {mark stop}

theorem prefix_eq (hClean : ∀ a, stop ∉ mark a) {held more : List σ} {entries entries' : List (α × List σ)}
    (hPlain : Plain mark stop (held ++ more))
    (hEq : tails mark stop entries = more ++ tails mark stop entries') : more = [] := by
  rcases more with _ | ⟨first, more⟩
  · rfl
  rcases entries with _ | ⟨entry, entries⟩
  · cases hEq
  have hMarked : (stop :: mark entry.1) ++ (entry.2 ++ tails mark stop entries) =
      (first :: more) ++ tails mark stop entries' := by
    rw [← hEq, tails_cons, cons_append]
  rcases append_eq_append_iff.mp hMarked with ⟨behind, hMore, -⟩ | ⟨cut, hMark, hTails⟩
  · refine absurd ?_ (hPlain entry.1)
    rw [hMore]
    exact ⟨held, behind, by rw [append_assoc]⟩
  · rcases cut with _ | ⟨letter, cut⟩
    · refine absurd ?_ (hPlain entry.1)
      rw [hMark, append_nil]
      exact ⟨held, [], by rw [append_nil]⟩
    · -- the next line would begin inside of the mark
      rcases entries' with _ | ⟨entry', entries'⟩
      · cases hTails
      rw [tails_cons, cons_append] at hTails
      obtain ⟨rfl, -⟩ := cons.inj hTails
      refine absurd ?_ (hClean entry.1)
      rw [cons_append] at hMark
      rw [(cons.inj hMark).2]
      exact mem_append_right _ mem_cons_self

theorem held_eq (hClean : ∀ a, stop ∉ mark a) {held held' : List σ} {entries entries' : List (α × List σ)}
    (hPlain : Plain mark stop held) (hPlain' : Plain mark stop held')
    (hEq : held ++ tails mark stop entries = held' ++ tails mark stop entries') :
    held = held' ∧ tails mark stop entries = tails mark stop entries' := by
  rcases append_eq_append_iff.mp hEq with ⟨more, rfl, hTails⟩ | ⟨more, rfl, hTails⟩
  · obtain rfl := prefix_eq hClean hPlain' hTails
    exact ⟨(append_nil held).symm, hTails⟩
  · obtain rfl := prefix_eq hClean hPlain hTails
    exact ⟨append_nil held', hTails.symm⟩

theorem tails_injective (hMark : Framed mark) (hClean : ∀ a, stop ∉ mark a)
    {entries entries' : List (α × List σ)} (hPlain : ∀ entry ∈ entries, Plain mark stop entry.2)
    (hPlain' : ∀ entry ∈ entries', Plain mark stop entry.2)
    (hEq : tails mark stop entries = tails mark stop entries') : entries = entries' := by
  induction entries generalizing entries' with
  | nil =>
    cases entries' with
    | nil => rfl
    | cons entry' entries' => cases hEq
  | cons entry entries ih =>
    cases entries' with
    | nil => cases hEq
    | cons entry' entries' =>
      obtain ⟨hOwn, hRest⟩ := forall_mem_cons.mp hPlain
      obtain ⟨hOwn', hRest'⟩ := forall_mem_cons.mp hPlain'
      rw [tails_cons, tails_cons] at hEq
      obtain ⟨hSame, hHeld⟩ := hMark _ _ _ _ (cons.inj hEq).2
      obtain ⟨hText, hTails⟩ := held_eq hClean hOwn hOwn' hHeld
      rw [Prod.ext hSame hText, ih hRest hRest' hTails]

theorem text_injective (hMark : Framed mark) (hClean : ∀ a, stop ∉ mark a) (hNonempty : ∀ a, mark a ≠ [])
    {entries entries' : List (α × List σ)} (hPlain : ∀ entry ∈ entries, Plain mark stop entry.2)
    (hPlain' : ∀ entry ∈ entries', Plain mark stop entry.2)
    (hEq : text mark stop entries = text mark stop entries') : entries = entries' := by
  cases entries with
  | nil =>
    cases entries' with
    | nil => rfl
    | cons entry' entries' =>
      rw [text_cons] at hEq
      exact absurd (append_eq_nil_iff.mp hEq.symm).1 (hNonempty _)
  | cons entry entries =>
    cases entries' with
    | nil =>
      rw [text_cons] at hEq
      exact absurd (append_eq_nil_iff.mp hEq).1 (hNonempty _)
    | cons entry' entries' =>
      refine tails_injective hMark hClean hPlain hPlain' ?_
      rw [text_cons, text_cons] at hEq
      rw [tails_cons, tails_cons, hEq]

end MarkedLines
