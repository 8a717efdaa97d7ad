import Mathlib.Data.Prod.Lex
import Ici.Library.Decimals
import Ici.Library.Dict

/-! # Publishing a saved result

The remote is shared: the head of the pull request, the pages of the publish branch and the comments.
A call to it may be refused, take effect, or take effect without an answer. -/

namespace Ici

open Python

/-- What `\d` reads: the ASCII digits, and whatever else has a decimal value. -/
structure Decimals where
  value : CodePoint → Option ℕ
  ascii : ∀ c : CodePoint, c.val < 0x80 → value c = if isDigit c then some (c.val - 0x30) else none

namespace Decimals

variable (decimals : Decimals)

def number (t : Text) : ℕ := t.foldl (fun n c => n * 10 + (decimals.value c).getD 0) 0

def isDecimal (c : CodePoint) : Bool := (decimals.value c).isSome

end Decimals

def isHexLower (c : CodePoint) : Bool := isDigit c || (0x61 ≤ c.val && c.val ≤ 0x66)

def afterWord (word t : Text) : Option Text := if word <+: t then some (t.drop word.length) else none

def scanNumber (decimals : Decimals) (t : Text) : Option (ℕ × Text) :=
  let digits := t.takeWhile decimals.isDecimal
  if digits = [] then none else some (decimals.number digits, t.drop digits.length)

/-- `head:([0-9a-f]{7,64}) run:(\d+)\.(\d+)` at the front: the run and the attempt. -/
def metaAt (decimals : Decimals) (t : Text) : Option (ℕ × ℕ) :=
  (afterWord (py "head:") t).bind fun rest =>
    let sha := rest.takeWhile isHexLower
    if sha.length < 7 ∨ 64 < sha.length then none
    else (afterWord (py " run:") (rest.drop sha.length)).bind fun rest =>
      (scanNumber decimals rest).bind fun (run, rest) =>
        (afterWord (py ".") rest).bind fun rest =>
          (scanNumber decimals rest).map fun (attempt, _) => (run, attempt)

def searchMeta (decimals : Decimals) : Text → Option (ℕ × ℕ)
  | [] => none
  | c :: t => (metaAt decimals (c :: t)).or (searchMeta decimals t)

/-! ## Invocations -/

structure CommentReport where
  verdict : Text
  reason : Option Text := none
  findings : ℕ := 0
  suppressed : ℕ := 0
  baseline : Option (ℕ × ℕ × ℕ) := none
  viewerUrl : Option Text := none
  runUrl : Option Text := none
deriving DecidableEq

structure Invocation where
  sha : Text
  run : ℕ
  attempt : ℕ
  report : CommentReport
deriving DecidableEq

def Invocation.order (invocation : Invocation) : ℕ ×ₗ ℕ := toLex (invocation.run, invocation.attempt)

def Invocation.metaLine (invocation : Invocation) : Text :=
  py "<!-- head:" ++ (if invocation.sha = [] then py "unknown" else invocation.sha) ++ py " run:" ++
    natDigits invocation.run ++ py "." ++ natDigits invocation.attempt ++ py " -->"

structure Destination where
  label : Text
  prNumber : ℕ
deriving DecidableEq

namespace Destination

variable (destination : Destination)

def marker : Text := py "<!-- ici-next:" ++ destination.label ++ py " -->"

def remotePath (sha : Text) : Text :=
  py "ici/" ++ destination.label ++ py "/pr-" ++ natDigits destination.prNumber ++ py "/" ++
    (if sha = [] then py "unversioned" else sha).take 12 ++ py "/index.html"

def bodyLines (invocation : Invocation) : List Text :=
  [destination.marker, py "## ici — **" ++ invocation.report.verdict ++ py "**", []] ++
    (invocation.report.reason.toList.map fun reason => py "> " ++ reason) ++
    [if invocation.report.findings = 0 then py "no findings recorded"
      else natDigits invocation.report.findings ++ py " finding(s)" ++
        if invocation.report.suppressed = 0 then []
        else py " (" ++ natDigits invocation.report.suppressed ++ py " suppressed)"] ++
    (invocation.report.baseline.toList.map fun (new, resolved, carried) =>
      py "baseline: " ++ natDigits new ++ py " new, " ++ natDigits resolved ++ py " resolved, " ++
        natDigits carried ++ py " carried") ++
    [[], match invocation.report.viewerUrl with
      | some url => py "report: " ++ url
      | none => py "report uploaded to `" ++ destination.remotePath invocation.sha ++
          py "` (downloads, not a served page)"] ++
    (invocation.report.runUrl.toList.map fun url => py "run: " ++ url)

def commentBody (invocation : Invocation) : Text :=
  join (py "\n") (destination.bodyLines invocation ++ [invocation.metaLine])

end Destination

/-- `_newer_run_already`: without metadata it cannot be told, and the update goes on. -/
def newerRunAlready (decimals : Decimals) (body : Text) (invocation : Invocation) : Bool :=
  match searchMeta decimals body with
  | some (run, attempt) => invocation.order < toLex (run, attempt)
  | none => false

/-! ## The remote, and the steps -/

section Steps

variable {ι : Type}

/-- A comment, and who wrote its body, where it was one of the invocations. -/
structure Comment (ι : Type) where
  body : Text
  author : Option ι
deriving DecidableEq

inductive PublishPhase where
  | reading
  | ensuring (stale : Bool)
  | putting (stale : Bool)
  | finding
  | upserting (existing : Option (ℕ × Text))
  | done
deriving DecidableEq

structure PublishState (ι : Type) where
  head : Text
  pages : Dict Text ι
  comments : List (Comment ι)
  phase : ι → PublishPhase

inductive Reply where
  | accepted
  | lost
  | refused
deriving DecidableEq

def Reply.took : Reply → Bool
  | accepted | lost => true
  | refused => false

inductive PublishAction (ι : Type) where
  | push (sha : Text)
  | readHead (i : ι) (answered : Bool)
  | ensureBranch (i : ι) (ensured : Bool)
  | putPage (i : ι) (reply : Reply)
  | findComment (i : ι) (answered : Bool)
  | upsertComment (i : ι) (reply : Reply)
  | stop (i : ι)
deriving DecidableEq

def hasMarker (marker : Text) (comment : Comment ι) : Bool := marker <:+: comment.body

/-- `find_comment`: the first comment with the marker. -/
def findComment (marker : Text) (comments : List (Comment ι)) : Option (ℕ × Text) :=
  (comments.findIdx? (hasMarker marker)).bind fun id =>
    comments[id]?.map fun comment => (id, comment.body)

variable [DecidableEq ι] (decimals : Decimals) (destination : Destination) (invocations : ι → Invocation)

def PublishState.goTo (state : PublishState ι) (i : ι) (phase : PublishPhase) : PublishState ι :=
  { state with phase := Function.update state.phase i phase }

/-- `upsert_comment`, where it takes effect. -/
def upsert (comments : List (Comment ι)) (existing : Option (ℕ × Text)) (comment : Comment ι) :
    List (Comment ι) :=
  match existing with
  | some (id, _) => comments.modify id fun _ => comment
  | none => comments ++ [comment]

/-- One remote step of `publish`, or a push to the pull request. -/
def publishStep (state : PublishState ι) : PublishAction ι → Option (PublishState ι)
  | .push sha => some { state with head := sha }
  | .readHead i answered =>
    match state.phase i with
    | .reading =>
      -- without a SHA of its own the head is not asked for; without an answer nothing is stale
      let stale := answered && (invocations i).sha ≠ [] && state.head ≠ [] && state.head ≠ (invocations i).sha
      some (state.goTo i (.ensuring stale))
    | _ => none
  | .ensureBranch i ensured =>
    match state.phase i with
    | .ensuring stale => some (state.goTo i (if ensured then .putting stale else .done))
    | _ => none
  | .putPage i reply =>
    match state.phase i with
    | .putting stale =>
      let next := if reply = .accepted ∧ stale = false then .finding else .done
      let pages := if reply.took then state.pages.set (destination.remotePath (invocations i).sha) i
        else state.pages
      some ({ state with pages }.goTo i next)
    | _ => none
  | .findComment i answered =>
    match state.phase i with
    | .finding =>
      let found := if answered then findComment destination.marker state.comments else none
      some (state.goTo i (.upserting found))
    | _ => none
  | .upsertComment i reply =>
    match state.phase i with
    | .upserting existing =>
      let newer := existing.any fun found => newerRunAlready decimals found.2 (invocations i)
      let comments := if newer || !reply.took then state.comments
        else upsert state.comments existing ⟨destination.commentBody (invocations i), some i⟩
      some ({ state with comments }.goTo i .done)
    | _ => none
  | .stop i => some (state.goTo i .done)

end Steps

end Ici

/-! ## What a comment records

No part of the metadata holds a line end, so a body is searched line by line. -/

namespace Ici

open Option List Python

namespace Decimals

variable (decimals : Decimals)

theorem isDecimal_of_isDigit {c : CodePoint} (hDigit : isDigit c = true) : decimals.isDecimal c = true := by
  have hLess : c.val < 0x80 := by
    simp only [isDigit, Bool.and_eq_true, decide_eq_true_eq] at hDigit
    omega
  rw [isDecimal, decimals.ascii c hLess, if_pos hDigit]
  rfl

theorem not_isDecimal {c : CodePoint} (hLess : c.val < 0x80) (hDigit : isDigit c = false) :
    decimals.isDecimal c = false := by
  rw [isDecimal, decimals.ascii c hLess, if_neg (by simp [hDigit])]
  rfl

theorem foldl_number {t : Text} (hDigits : ∀ c ∈ t, isDigit c = true) (n : ℕ) :
    t.foldl (fun n c => n * 10 + (decimals.value c).getD 0) n =
      t.foldl (fun n c => 10 * n + (c.val - 0x30)) n := by
  induction t generalizing n with
  | nil => rfl
  | cons c t ih =>
    have hDigit := hDigits c mem_cons_self
    have hLess : c.val < 0x80 := by
      simp only [isDigit, Bool.and_eq_true, decide_eq_true_eq] at hDigit
      omega
    rw [foldl_cons, foldl_cons, ih fun d hd => hDigits d (mem_cons_of_mem c hd),
      decimals.ascii c hLess, if_pos hDigit, getD_some, Nat.mul_comm]

theorem number_natDigits (n : ℕ) : decimals.number (natDigits n) = n := by
  rw [number, decimals.foldl_number (digits_natDigits n)]
  exact digitsValue_natDigits n

end Decimals

theorem takeWhile_append_of_stop {p : CodePoint → Bool} {c : CodePoint} (hStop : p c = false)
    (t rest : Text) :
    (t ++ c :: rest).takeWhile p = t.takeWhile p := by
  induction t with
  | nil => simp [hStop]
  | cons d t ih =>
    rw [cons_append, takeWhile_cons, takeWhile_cons, ih]

theorem drop_takeWhile_append {p : CodePoint → Bool} (t rest : Text) :
    (t ++ rest).drop (t.takeWhile p).length = t.drop (t.takeWhile p).length ++ rest := by
  have hShort : (t.takeWhile p).length ≤ t.length := (List.takeWhile_prefix p).length_le
  exact drop_append_of_le_length hShort

theorem afterWord_append {word : Text} {c : CodePoint} (hWord : c ∉ word) (t rest : Text) :
    afterWord word (t ++ c :: rest) = (afterWord word t).map (· ++ c :: rest) := by
  have hPrefix : word <+: t ++ c :: rest ↔ word <+: t := by
    constructor
    · intro h
      rcases Nat.le_total word.length t.length with hLength | hLength
      · exact prefix_of_prefix_length_le h (prefix_append t _) hLength
      · have ht := prefix_of_prefix_length_le (prefix_append t (c :: rest)) h hLength
        obtain ⟨tail, rfl⟩ := ht
        rw [prefix_append_right_inj] at h
        cases tail with
        | nil => simp
        | cons d tail =>
          obtain ⟨rfl, -⟩ := cons_prefix_cons.mp h
          simp at hWord
    · exact fun h => h.trans (prefix_append t _)
  unfold afterWord
  by_cases h : word <+: t
  · rw [if_pos h, if_pos (hPrefix.mpr h), map_some, drop_append_of_le_length h.length_le]
  · rw [if_neg h, if_neg (mt hPrefix.mp h), map_none]

theorem afterWord_self (word rest : Text) : afterWord word (word ++ rest) = some rest := by
  rw [afterWord, if_pos (prefix_append word rest), drop_left]

theorem afterWord_of_head {word t : Text} {c d : CodePoint} (hWord : word.head? = some c)
    (ht : t.head? = some d) (hNe : c ≠ d) : afterWord word t = none := by
  rw [afterWord, if_neg]
  rintro ⟨rest, rfl⟩
  rw [head?_append, hWord, some_or, some.injEq] at ht
  exact hNe ht

theorem scanNumber_append (decimals : Decimals) {c : CodePoint} (hStop : decimals.isDecimal c = false)
    (t rest : Text) :
    scanNumber decimals (t ++ c :: rest) =
      (scanNumber decimals t).map fun scanned => (scanned.1, scanned.2 ++ c :: rest) := by
  simp only [scanNumber, takeWhile_append_of_stop hStop, drop_takeWhile_append]
  split_ifs
  · rfl
  · rfl

theorem scanNumber_natDigits (decimals : Decimals) (n : ℕ) {c : CodePoint} (hLess : c.val < 0x80)
    (hDigit : isDigit c = false) (rest : Text) :
    scanNumber decimals (natDigits n ++ c :: rest) = some (n, c :: rest) := by
  have hAll : (natDigits n).takeWhile decimals.isDecimal = natDigits n :=
    takeWhile_eq_self_iff.mpr fun d hd => decimals.isDecimal_of_isDigit (isDigit_of_mem_natDigits hd)
  rw [scanNumber_append decimals (decimals.not_isDecimal hLess hDigit)]
  simp only [scanNumber, hAll, natDigits_ne_nil n, if_false, decimals.number_natDigits, drop_length,
    map_some, nil_append]

/-! ## Searching line by line -/

section Search

variable (decimals : Decimals)

theorem metaAt_line (t rest : Text) : metaAt decimals (t ++ 0xa :: rest) = metaAt decimals t := by
  have hStop : decimals.isDecimal 0xa = false := decimals.not_isDecimal (by decide) (by decide)
  have hHex : isHexLower 0xa = false := by decide
  unfold metaAt
  rw [afterWord_append (by decide)]
  cases afterWord (py "head:") t with
  | none => rfl
  | some t =>
    simp only [map_some, bind_some, takeWhile_append_of_stop hHex, drop_takeWhile_append]
    split_ifs
    · rfl
    · rw [afterWord_append (by decide)]
      cases afterWord (py " run:") (t.drop (t.takeWhile isHexLower).length) with
      | none => rfl
      | some t =>
        simp only [map_some, bind_some, scanNumber_append decimals hStop]
        cases scanNumber decimals t with
        | none => rfl
        | some scanned =>
          have hDot : (0xa : CodePoint) ∉ py "." := by decide
          simp only [map_some, bind_some, afterWord_append hDot]
          cases afterWord (py ".") scanned.2 with
          | none => rfl
          | some t =>
            simp only [map_some, bind_some, scanNumber_append decimals hStop, Option.map_map]
            rfl

theorem metaAt_of_head {t : Text} {c : CodePoint} (ht : t.head? = some c) (hNe : 0x68 ≠ c) :
    metaAt decimals t = none := by
  rw [metaAt, afterWord_of_head (by rfl) ht hNe, bind_none]

theorem searchMeta_line (t rest : Text) :
    searchMeta decimals (t ++ 0xa :: rest) = (searchMeta decimals t).or (searchMeta decimals rest) := by
  induction t with
  | nil =>
    change (metaAt decimals (0xa :: rest)).or (searchMeta decimals rest) = _
    rw [metaAt_of_head decimals (t := 0xa :: rest) (c := 0xa) rfl (by decide)]
    rfl
  | cons c t ih =>
    rw [cons_append, searchMeta, ← cons_append, metaAt_line, ih, searchMeta, Option.or_assoc]

theorem searchMeta_of_lines {lines : List Text} (hLines : ∀ line ∈ lines, searchMeta decimals line = none)
    (last : Text) : searchMeta decimals (join (py "\n") (lines ++ [last])) = searchMeta decimals last := by
  induction lines with
  | nil => rw [nil_append, join_singleton]
  | cons line lines ih =>
    have hRest := ih fun other hOther => hLines other (mem_cons_of_mem line hOther)
    have hSplit : join (py "\n") (line :: (lines ++ [last])) =
        line ++ 0xa :: join (py "\n") (lines ++ [last]) := by
      cases lines with
      | nil | cons next lines => exact join_cons _ _ _ _
    rw [cons_append, hSplit, searchMeta_line, hLines line mem_cons_self, none_or, hRest]

theorem searchMeta_skip {front : Text} (hFront : (0x68 : CodePoint) ∉ front) (t : Text) :
    searchMeta decimals (front ++ t) = searchMeta decimals t := by
  induction front with
  | nil => rfl
  | cons c front ih =>
    rw [mem_cons, not_or] at hFront
    rw [cons_append, searchMeta, metaAt_of_head decimals (by rfl) hFront.1, none_or, ih hFront.2]

theorem searchMeta_of_metaAt {t : Text} {found : ℕ × ℕ} (h : metaAt decimals t = some found) :
    searchMeta decimals t = some found := by
  cases t with
  | nil => exact nomatch h
  | cons c t => rw [searchMeta, h, some_or]

/-- The body says which run wrote it: the SHA has its usual form, and nothing before the last line reads as
metadata. -/
structure Legible (destination : Destination) (invocation : Invocation) : Prop where
  hexadecimal : ∀ c ∈ invocation.sha, isHexLower c = true
  long : 7 ≤ invocation.sha.length
  short : invocation.sha.length ≤ 64
  lines : ∀ line ∈ destination.bodyLines invocation, searchMeta decimals line = none

variable {decimals} {destination : Destination} {invocation : Invocation}

theorem Legible.searchMeta_metaLine (h : Legible decimals destination invocation) :
    searchMeta decimals invocation.metaLine = some (invocation.run, invocation.attempt) := by
  have hNe : invocation.sha ≠ [] := fun hNil => absurd h.long (by rw [hNil]; decide)
  have hLine : invocation.metaLine = py "<!-- " ++ (py "head:" ++ (invocation.sha ++ (0x20 :: (py "run:" ++
      (natDigits invocation.run ++ 0x2e :: (natDigits invocation.attempt ++ 0x20 :: py "-->")))))) := by
    simp [Invocation.metaLine, hNe, py]
  have hSha : invocation.sha.takeWhile isHexLower = invocation.sha :=
    takeWhile_eq_self_iff.mpr h.hexadecimal
  have hBounds : ¬(invocation.sha.length < 7 ∨ 64 < invocation.sha.length) := by
    have := h.long
    have := h.short
    omega
  have hFound : metaAt decimals (py "head:" ++ (invocation.sha ++ (0x20 :: (py "run:" ++
      (natDigits invocation.run ++ 0x2e :: (natDigits invocation.attempt ++ 0x20 :: py "-->")))))) =
      some (invocation.run, invocation.attempt) := by
    have hRun (rest : Text) : (0x20 :: (py "run:" ++ rest) : Text) = py " run:" ++ rest := rfl
    have hDot (rest : Text) : (0x2e :: rest : Text) = py "." ++ rest := rfl
    unfold metaAt
    rw [afterWord_self, bind_some]
    simp only [takeWhile_append_of_stop (show isHexLower 0x20 = false by decide), hSha, if_neg hBounds,
      drop_left]
    rw [hRun, afterWord_self, bind_some, scanNumber_natDigits decimals _ (by decide) (by decide), bind_some,
      hDot, afterWord_self, bind_some, scanNumber_natDigits decimals _ (by decide) (by decide), map_some]
  rw [hLine, searchMeta_skip decimals (by decide), searchMeta_of_metaAt decimals hFound]

theorem Legible.searchMeta_commentBody (h : Legible decimals destination invocation) :
    searchMeta decimals (destination.commentBody invocation) = some (invocation.run, invocation.attempt) := by
  rw [Destination.commentBody, searchMeta_of_lines decimals h.lines, h.searchMeta_metaLine]

theorem marker_infix_commentBody (destination : Destination) (invocation : Invocation) :
    destination.marker <:+: destination.commentBody invocation := by
  have hLines : destination.bodyLines invocation ++ [invocation.metaLine] =
      destination.marker :: (destination.bodyLines invocation ++ [invocation.metaLine]).tail := rfl
  rw [Destination.commentBody, hLines]
  cases (destination.bodyLines invocation ++ [invocation.metaLine]).tail with
  | nil => rw [join_singleton]
  | cons next rest =>
    rw [join_cons]
    exact (prefix_append _ _).isInfix

end Search

end Ici
