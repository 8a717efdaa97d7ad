import Ici.Library.Python

/-! # Lexical paths and shell patterns

The parts of `pathlib.PurePosixPath` and `fnmatch.fnmatchcase` that work on text alone. -/

namespace Python

open List

def splitOn (separator : CodePoint) : Text → List Text
  | [] => [[]]
  | c :: rest =>
    if c = separator then [] :: splitOn separator rest
    else match splitOn separator rest with
      | [] => [[c]]
      | part :: parts => (c :: part) :: parts

theorem splitOn_ne_nil (separator : CodePoint) (t : Text) : splitOn separator t ≠ [] := by
  cases t with
  | nil => exact nofun
  | cons c rest =>
    rw [splitOn]
    split
    · exact nofun
    · split <;> exact nofun

variable {separator : CodePoint} {t part : Text}

theorem notMem_of_mem_splitOn (h : part ∈ splitOn separator t) : separator ∉ part := by
  induction t generalizing part with
  | nil =>
    rw [mem_singleton.mp h]
    exact not_mem_nil
  | cons c rest ih =>
    rw [splitOn] at h
    split at h
    · rcases mem_cons.mp h with rfl | hRest
      · exact not_mem_nil
      · exact ih hRest
    · rename_i hc
      split at h
      · rw [mem_singleton.mp h]
        exact fun hMem => hc (mem_singleton.mp hMem).symm
      · rename_i first parts hParts
        rcases mem_cons.mp h with rfl | hRest
        · intro hMem
          rcases mem_cons.mp hMem with hSame | hIn
          · exact hc hSame.symm
          · exact ih (by rw [hParts]; exact mem_cons_self) hIn
        · exact ih (by rw [hParts]; exact mem_cons_of_mem _ hRest)

theorem splitOn_of_notMem (h : separator ∉ t) : splitOn separator t = [t] := by
  induction t with
  | nil => rfl
  | cons c rest ih =>
    obtain ⟨hc, hRest⟩ := not_or.mp (mt mem_cons.mpr h)
    rw [splitOn, if_neg (Ne.symm hc), ih hRest]

theorem splitOn_append (h : separator ∉ part) (rest : Text) :
    splitOn separator (part ++ separator :: rest) = part :: splitOn separator rest := by
  induction part with
  | nil => rw [nil_append, splitOn, if_pos rfl]
  | cons c part ih =>
    obtain ⟨hc, hRest⟩ := not_or.mp (mt mem_cons.mpr h)
    rw [cons_append, splitOn, if_neg (Ne.symm hc), ih hRest]

theorem splitOn_append_cons (separator : CodePoint) (front rest : Text) :
    splitOn separator (front ++ separator :: rest) = splitOn separator front ++ splitOn separator rest := by
  induction front with
  | nil => simp [splitOn]
  | cons c front ih =>
    rw [cons_append, splitOn, splitOn, ih]
    split
    · rfl
    · cases hFront : splitOn separator front with
      | nil => exact absurd hFront (splitOn_ne_nil separator front)
      | cons part parts => rfl

theorem splitOn_join {items : List Text} (hItems : items ≠ [])
    (h : ∀ item ∈ items, separator ∉ item) : splitOn separator (join [separator] items) = items := by
  induction items with
  | nil => exact absurd rfl hItems
  | cons item rest ih =>
    rw [forall_mem_cons] at h
    cases rest with
    | nil => rw [join_singleton, splitOn_of_notMem h.1]
    | cons next rest =>
      rw [join_cons, singleton_append, splitOn_append h.1, ih (cons_ne_nil _ _) h.2]

namespace PurePosixPath

def isAbsolute (t : Text) : Bool := t.head? == some 0x2f

/-- The components: empty ones and `.` are dropped. -/
def parts (t : Text) : List Text := (splitOn 0x2f t).filter fun part => part ≠ [] ∧ part ≠ py "."

def root (t : Text) : Text :=
  if !isAbsolute t then [] else if t.take 2 = py "//" ∧ t.take 3 ≠ py "///" then py "//" else py "/"

def asPosix (t : Text) : Text :=
  if root t = [] ∧ parts t = [] then py "." else root t ++ join (py "/") (parts t)

def name (t : Text) : Text := (parts t).getLast?.getD []

end PurePosixPath

namespace Fnmatch

inductive Token where
  | star
  | any
  | literal (c : CodePoint)
  | oneOf (negated : Bool) (body : Text)
deriving DecidableEq

/-- The body of a bracket up to its closing `]`, which is literal in first place. -/
def bracket (t : Text) : Option (Text × Text) :=
  let first : Text := if t.head? = some 0x5d then t.take 1 else []
  let rest := t.drop first.length
  if 0x5d ∈ rest then
    some (first ++ rest.takeWhile (· ≠ 0x5d), (rest.dropWhile (· ≠ 0x5d)).drop 1)
  else none

def translate : Nat → Text → List Token
  | 0, _ => []
  | _, [] => []
  | fuel + 1, c :: rest =>
    if c = 0x2a then .star :: translate fuel rest
    else if c = 0x3f then .any :: translate fuel rest
    else if c = 0x5b then
      let negated := rest.head? = some 0x21
      match bracket (if negated then rest.drop 1 else rest) with
      | some (body, later) => .oneOf negated body :: translate fuel later
      | none => .literal c :: translate fuel rest
    else .literal c :: translate fuel rest

/-- Membership in a bracket body: `x-y` is a range, empty when its ends are swapped. -/
def inBody (c : CodePoint) : Text → Bool
  | low :: 0x2d :: high :: rest => (low ≤ c && c ≤ high) || inBody c rest
  | x :: rest => x = c || inBody c rest
  | [] => false

def run : List Token → Text → Bool
  | [], t => t.isEmpty
  | .star :: tokens, t => t.tails.any fun rest => run tokens rest
  | .any :: _, [] => false
  | .any :: tokens, _ :: t => run tokens t
  | .literal _ :: _, [] => false
  | .literal x :: tokens, c :: t => x = c && run tokens t
  | .oneOf _ _ :: _, [] => false
  | .oneOf negated body :: tokens, c :: t => (negated != inBody c body) && run tokens t

end Fnmatch

def fnmatchcase (name pattern : Text) : Bool :=
  Fnmatch.run (Fnmatch.translate pattern.length pattern) name

example : fnmatchcase (py "src/a_test.py") (py "src/*_[!a-s]es?.py") = true := by decide

end Python

/-! ## Path values

`pathlib.PurePosixPath` as a value: an anchor and the names below it. -/

namespace Python

open List

inductive PathRoot where
  | relative
  | slash
  | doubleSlash
deriving DecidableEq

def PathRoot.text : PathRoot → Text
  | relative => []
  | slash => py "/"
  | doubleSlash => py "//"

def IsPathName (name : Text) : Prop := name ≠ [] ∧ name ≠ py "." ∧ 0x2f ∉ name

instance (name : Text) : Decidable (IsPathName name) := inferInstanceAs (Decidable (_ ∧ _ ∧ _))

structure PurePath where
  root : PathRoot
  names : List Text
  names_ok : ∀ name ∈ names, IsPathName name
deriving DecidableEq

namespace PurePath

theorem isPathName_of_mem_parts {t name : Text} (h : name ∈ PurePosixPath.parts t) : IsPathName name := by
  obtain ⟨hSplit, hKept⟩ := mem_filter.mp h
  obtain ⟨hNe, hDot⟩ := of_decide_eq_true hKept
  exact ⟨hNe, hDot, notMem_of_mem_splitOn hSplit⟩

def parse (t : Text) : PurePath where
  root :=
    if !PurePosixPath.isAbsolute t then .relative
    else if t.take 2 = py "//" ∧ t.take 3 ≠ py "///" then .doubleSlash else .slash
  names := PurePosixPath.parts t
  names_ok _ := isPathName_of_mem_parts

section

variable (path : PurePath)

def isAbsolute : Bool := path.root != .relative

def join (path other : PurePath) : PurePath :=
  if other.isAbsolute then other
  else
    { root := path.root
      names := path.names ++ other.names
      names_ok := fun name h => (List.mem_append.mp h).elim (path.names_ok name) (other.names_ok name) }

def parent : PurePath where
  root := path.root
  names := path.names.dropLast
  names_ok name h := path.names_ok name (List.dropLast_subset _ h)

def parts : List Text :=
  if path.isAbsolute then path.root.text :: path.names else path.names

def asPosix : Text :=
  if path.isAbsolute = false ∧ path.names = [] then py "."
  else path.root.text ++ Python.join (py "/") path.names

end

def ofSegments (segments : List Text) : PurePath :=
  segments.foldl (fun path segment => path.join (parse segment)) (parse [])

def relativeTo (path base : PurePath) : Option PurePath :=
  if path.root = base.root ∧ base.names.isPrefixOf path.names then
    some
      { root := .relative
        names := path.names.drop base.names.length
        names_ok := fun name h => path.names_ok name (List.mem_of_mem_drop h) }
  else none

/-! ## Texts -/

section

variable {names : List Text} (h : ∀ name ∈ names, IsPathName name)
include h

theorem head?_join_names : (Python.join (py "/") names).head? ≠ some 0x2f := by
  cases names with
  | nil => exact nofun
  | cons name rest =>
    obtain ⟨⟨hNe, -, hSlash⟩, -⟩ := forall_mem_cons.mp h
    obtain ⟨c, t, rfl⟩ := exists_cons_of_ne_nil hNe
    have hc : c ≠ 0x2f := fun hSame => hSlash (hSame ▸ mem_cons_self)
    have hHead : (Python.join (py "/") ((c :: t) :: rest)).head? = some c := by
      cases rest with
      | nil => rw [join_singleton, head?_cons]
      | cons next rest => rw [join_cons, cons_append, head?_cons]
    rw [hHead]
    exact fun hSame => hc (Option.some.inj hSame)

theorem filter_names : (names.filter fun part => part ≠ [] ∧ part ≠ py ".") = names :=
  filter_eq_self.mpr fun name hName => decide_eq_true ⟨(h name hName).1, (h name hName).2.1⟩

theorem parts_join : PurePosixPath.parts (Python.join (py "/") names) = names := by
  cases names with
  | nil => rfl
  | cons name rest =>
    have hSplit := splitOn_join (cons_ne_nil name rest) fun item hItem => (h item hItem).2.2
    unfold PurePosixPath.parts
    rw [show py "/" = [(0x2f : CodePoint)] from rfl, hSplit, filter_names h]

end

theorem parts_slash (t : Text) : PurePosixPath.parts (0x2f :: t) = PurePosixPath.parts t := by
  unfold PurePosixPath.parts
  rw [splitOn, if_pos rfl, filter_cons_of_neg (by decide)]

theorem parse_asPosix (path : PurePath) : parse path.asPosix = path := by
  obtain ⟨root, names, hNames⟩ := path
  have hHead := head?_join_names hNames
  have hParts := parts_join hNames
  cases root with
  | relative =>
    cases names with
    | nil => rfl
    | cons name rest =>
      have hText : asPosix ⟨.relative, name :: rest, hNames⟩ = Python.join (py "/") (name :: rest) := by
        simp [asPosix, isAbsolute, PathRoot.text]
      have hRelative : PurePosixPath.isAbsolute (Python.join (py "/") (name :: rest)) = false := by
        simpa [PurePosixPath.isAbsolute] using hHead
      simp only [hText, parse, hRelative, hParts, Bool.not_false, if_true]
  | slash =>
    have hText : asPosix ⟨.slash, names, hNames⟩ = 0x2f :: Python.join (py "/") names := by
      simp only [asPosix, isAbsolute, PathRoot.text]
      rfl
    have hSingle : (0x2f :: Python.join (py "/") names).take 2 ≠ py "//" := by
      cases hJoin : Python.join (py "/") names with
      | nil => exact nofun
      | cons c rest =>
        rw [hJoin] at hHead
        intro hTake
        have hPair : [(0x2f : CodePoint), c] = [0x2f, 0x2f] := hTake
        exact hHead (congrArg some (cons.inj (cons.inj hPair).2).1)
    simp only [hText, parse, parts_slash, hParts, PurePosixPath.isAbsolute, head?_cons,
      BEq.rfl, Bool.not_true, Bool.false_eq_true, if_false, hSingle, false_and]
  | doubleSlash =>
    have hText : asPosix ⟨.doubleSlash, names, hNames⟩ = 0x2f :: 0x2f :: Python.join (py "/") names := by
      simp only [asPosix, isAbsolute, PathRoot.text]
      rfl
    have hTriple : (0x2f :: 0x2f :: Python.join (py "/") names).take 3 ≠ py "///" := by
      cases hJoin : Python.join (py "/") names with
      | nil => exact nofun
      | cons c rest =>
        rw [hJoin] at hHead
        intro hTake
        have hThree : [(0x2f : CodePoint), 0x2f, c] = [0x2f, 0x2f, 0x2f] := hTake
        have hTwo := (cons.inj (cons.inj hThree).2).2
        exact hHead (congrArg some (cons.inj hTwo).1)
    have hDouble : (0x2f :: 0x2f :: Python.join (py "/") names).take 2 = py "//" := rfl
    simp only [hText, parse, parts_slash, hParts, PurePosixPath.isAbsolute, head?_cons, BEq.rfl,
      Bool.not_true, Bool.false_eq_true, if_false, hDouble, hTriple, ne_eq, not_false_iff, and_self, if_true]

theorem isAbsolute_parse (t : Text) : (parse t).isAbsolute = PurePosixPath.isAbsolute t := by
  unfold isAbsolute parse
  cases PurePosixPath.isAbsolute t with
  | false => rfl
  | true =>
    simp only [Bool.not_true, Bool.false_eq_true, if_false]
    split <;> rfl

theorem isAbsolute_asPosix (path : PurePath) : PurePosixPath.isAbsolute path.asPosix = path.isAbsolute := by
  rw [← isAbsolute_parse, parse_asPosix]

theorem parse_append {front : Text} (hFront : front ≠ []) (hRelative : PurePosixPath.isAbsolute front = false)
    {rest : Text} (hRest : PurePosixPath.isAbsolute rest = false) :
    parse (front ++ 0x2f :: rest) = (parse front).join (parse rest) := by
  obtain ⟨c, front, rfl⟩ := exists_cons_of_ne_nil hFront
  have hAll : PurePosixPath.isAbsolute (c :: front ++ 0x2f :: rest) = false := by
    simpa [PurePosixPath.isAbsolute] using hRelative
  have hParts : PurePosixPath.parts (c :: front ++ 0x2f :: rest) =
      PurePosixPath.parts (c :: front) ++ PurePosixPath.parts rest := by
    rw [PurePosixPath.parts, splitOn_append_cons, filter_append]
    rfl
  have hOther : (parse rest).isAbsolute = false := by rw [isAbsolute_parse, hRest]
  unfold join
  simp only [hOther, Bool.false_eq_true, if_false]
  simp only [parse, hAll, hParts, hRelative, Bool.not_false, if_true]

theorem isAbsolute_join {path other : PurePath} (h : other.isAbsolute = false) :
    (path.join other).isAbsolute = path.isAbsolute := by
  unfold join
  rw [if_neg (Bool.eq_false_iff.mp h)]
  rfl

theorem join_assoc {path middle last : PurePath} (hMiddle : middle.isAbsolute = false)
    (hLast : last.isAbsolute = false) : (path.join middle).join last = path.join (middle.join last) := by
  have hJoin : (middle.join last).isAbsolute = false := by rw [isAbsolute_join hLast, hMiddle]
  unfold join at hJoin ⊢
  simp only [hMiddle, hLast, Bool.false_eq_true, if_false] at hJoin ⊢
  simp only [hJoin, Bool.false_eq_true, if_false, append_assoc]

theorem relativeTo_eq_some {path base relative : PurePath} (h : path.relativeTo base = some relative) :
    relative.root = .relative ∧ path = base.join relative := by
  unfold relativeTo at h
  split at h
  · rename_i hInside
    obtain ⟨hRoot, hNames⟩ := hInside
    cases h
    refine ⟨rfl, ?_⟩
    obtain ⟨root, names, hOk⟩ := path
    have hAll : base.names ++ names.drop base.names.length = names :=
      prefix_iff_eq_append.mp (List.isPrefixOf_iff_prefix.mp hNames)
    subst hRoot
    simp only [join, isAbsolute, bne_self_eq_false, Bool.false_eq_true, if_false, hAll]
  · cases h

theorem relativeTo_join {relative : PurePath} (h : relative.root = .relative) (base : PurePath) :
    (base.join relative).relativeTo base = some relative := by
  obtain ⟨root, names, hOk⟩ := relative
  subst h
  have hJoin : base.join ⟨.relative, names, hOk⟩ =
      ⟨base.root, base.names ++ names, fun name hName =>
        (mem_append.mp hName).elim (base.names_ok name) (hOk name)⟩ := rfl
  rw [hJoin, relativeTo, if_pos ⟨rfl, isPrefixOf_iff_prefix.mpr (prefix_append _ _)⟩]
  simp only [drop_left]

end PurePath

end Python

/-! ## Normal paths

`os.path.normpath` and what is left of a path below a directory. -/

namespace Python

open List

theorem mem_of_mem_splitOn {separator : CodePoint} {t part : Text} (h : part ∈ splitOn separator t)
    {c : CodePoint} (hc : c ∈ part) : c ∈ t := by
  induction t generalizing part with
  | nil =>
    rw [mem_singleton.mp h] at hc
    exact nomatch hc
  | cons d rest ih =>
    rw [splitOn] at h
    split at h
    · rcases mem_cons.mp h with rfl | hRest
      · exact nomatch hc
      · exact mem_cons_of_mem _ (ih hRest hc)
    · split at h
      · rw [mem_singleton.mp h] at hc
        exact mem_cons.mpr (.inl (mem_singleton.mp hc))
      · rename_i first parts hParts
        rcases mem_cons.mp h with rfl | hRest
        · rcases mem_cons.mp hc with hSame | hIn
          · exact mem_cons.mpr (.inl hSame)
          · exact mem_cons_of_mem _ (ih (by rw [hParts]; exact mem_cons_self) hIn)
        · exact mem_cons_of_mem _ (ih (by rw [hParts]; exact mem_cons_of_mem _ hRest) hc)

def collapse (absolute : Bool) (names : List Text) (name : Text) : List Text :=
  if name ≠ py ".." ∨ (absolute = false ∧ names = []) ∨ names.getLast? = some (py "..") then names ++ [name]
  else names.dropLast

variable {absolute : Bool} {names more : List Text}

theorem mem_foldl_collapse {name : Text}
    (h : name ∈ more.foldl (collapse absolute) names) : name ∈ names ∨ name ∈ more := by
  induction more generalizing names with
  | nil => exact .inl h
  | cons next more ih =>
    rcases ih h with hNames | hMore
    · unfold collapse at hNames
      split at hNames
      · rcases mem_append.mp hNames with hOld | hNext
        · exact .inl hOld
        · exact .inr (mem_cons.mpr (.inl (mem_singleton.mp hNext)))
      · exact .inl (dropLast_subset _ hNames)
    · exact .inr (mem_cons_of_mem _ hMore)

theorem foldl_collapse_of_ne (h : ∀ name ∈ more, name ≠ py "..") :
    more.foldl (collapse absolute) names = names ++ more := by
  induction more generalizing names with
  | nil => exact (append_nil names).symm
  | cons next more ih =>
    obtain ⟨hNext, hMore⟩ := forall_mem_cons.mp h
    rw [foldl_cons, collapse, if_pos (.inl hNext), ih hMore, append_assoc, singleton_append]

def normalPath (t : Text) : PurePath where
  root := (PurePath.parse t).root
  names := (PurePosixPath.parts t).foldl (collapse (PurePosixPath.isAbsolute t)) []
  names_ok _ h := (mem_foldl_collapse h).elim (nomatch ·) PurePath.isPathName_of_mem_parts

def normpath (t : Text) : Text := (normalPath t).asPosix

theorem parse_normpath (t : Text) : PurePath.parse (normpath t) = normalPath t := PurePath.parse_asPosix _

/-- A path without `..` is normal. -/
theorem normalPath_asPosix {path : PurePath} (h : ∀ name ∈ path.names, name ≠ py "..") :
    normalPath path.asPosix = path := by
  have hParse := PurePath.parse_asPosix path
  have hNames : PurePosixPath.parts path.asPosix = path.names := congrArg PurePath.names hParse
  have hRoot : (PurePath.parse path.asPosix).root = path.root := congrArg PurePath.root hParse
  obtain ⟨root, names, hOk⟩ := path
  unfold normalPath
  simp only [hNames, hRoot, foldl_collapse_of_ne h, nil_append]

theorem mem_of_mem_names {t name : Text} (hName : name ∈ (normalPath t).names) {c : CodePoint} (hc : c ∈ name) :
    c ∈ t := by
  rcases mem_foldl_collapse hName with hNil | hPart
  · exact nomatch hNil
  · exact mem_of_mem_splitOn (mem_filter.mp hPart).1 hc

end Python
