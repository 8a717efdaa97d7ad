import Mathlib.Data.Finset.Basic
import Mathlib.Data.String.Basic
import Ici.Library.Dict
import Ici.Library.StrongComponents

/-! # Cycles of the import graph

Both searches keep their own stack of nodes with the neighbours still to look at, the top first. -/

namespace Ici.ImportCycles

universe u

variable {α : Type u} [DecidableEq α]

/-- Neighbours need not be keys; a set is a list in the order it is iterated in. -/
abbrev Graph (α : Type u) := Dict α (List α)

def neighbors (graph : Graph α) (node : α) : List α := (Dict.get? graph node).getD []

def Edge (graph : Graph α) (node dep : α) : Prop := dep ∈ neighbors graph node

/-! ## The components -/

structure Tarjan (α : Type u) where
  indexCounter : ℕ
  -- The top of the stack stands first.
  stack : List α
  onStack : Finset α
  indices : Dict α ℕ
  lowlink : Dict α ℕ
  cycles : List (List α)
  -- The keys of the graph that were not tried as roots yet.
  roots : List α
  work : List (α × List α)

namespace Tarjan

def start (graph : Graph α) : Tarjan α where
  indexCounter := 0
  stack := []
  onStack := ∅
  indices := []
  lowlink := []
  cycles := []
  roots := Dict.keys graph
  work := []

def isIndexed (s : Tarjan α) (node : α) : Bool := (Dict.get? s.indices node).isSome

-- Both are read for nodes that were numbered, where the default is not used.
def index (s : Tarjan α) (node : α) : ℕ := (Dict.get? s.indices node).getD 0

def low (s : Tarjan α) (node : α) : ℕ := (Dict.get? s.lowlink node).getD 0

section

variable (graph : Graph α) (s : Tarjan α)

def enter (node : α) : Tarjan α :=
  { s with
    indices := s.indices.set node s.indexCounter
    lowlink := s.lowlink.set node s.indexCounter
    indexCounter := s.indexCounter + 1
    stack := node :: s.stack
    onStack := insert node s.onStack
    work := (node, neighbors graph node) :: s.work }

def lower (s : Tarjan α) (node : α) (found : ℕ) : Tarjan α :=
  { s with lowlink := s.lowlink.set node (min (s.low node) found) }

def popThrough (node : α) : List α → List α × List α
  | [] => ([], [])
  | member :: stack =>
    if member = node then ([member], stack)
    else (member :: (popThrough node stack).1, (popThrough node stack).2)

def close (node : α) : Tarjan α :=
  let (component, stack) := popThrough node s.stack
  { s with
    stack
    onStack := s.onStack \ component.toFinset
    cycles :=
      if 1 < component.length ∨ node ∈ neighbors graph node then s.cycles ++ [component]
      else s.cycles }

def pass (s : Tarjan α) (node : α) : Tarjan α :=
  match s.work with
  | [] => s
  | (parent, _) :: _ => s.lower parent (s.low node)

def leave (node : α) : Tarjan α :=
  let s := s.pass node
  if s.low node = s.index node then close graph s node else s

def step : Tarjan α :=
  match s.work, s.roots with
  | [], [] => s
  | [], root :: roots =>
    if s.isIndexed root then { s with roots } else enter graph { s with roots } root
  | (node, dep :: rest) :: work, _ =>
    let s := { s with work := (node, rest) :: work }
    if !s.isIndexed dep then enter graph s dep
    else if dep ∈ s.onStack then s.lower node (s.index dep)
    else s
  | (node, []) :: work, _ => leave graph { s with work } node

end

/-- `none` is a loop that outlasted its rounds. -/
def run (graph : Graph α) : ℕ → Tarjan α → Option (List (List α))
  | 0, s => if s.work = [] ∧ s.roots = [] then some s.cycles else none
  | fuel + 1, s => if s.work = [] ∧ s.roots = [] then some s.cycles else run graph fuel (step graph s)

end Tarjan

def findCyclesTarjan (graph : Graph α) (fuel : ℕ) : Option (List (List α)) :=
  Tarjan.run graph fuel (Tarjan.start graph)

/-! ## The path of one component -/

structure Trail (α : Type u) where
  path : List α
  visiting : Finset α
  work : List (α × List α)

inductive Found (α : Type u) where
  | closed (path : List α)
  -- Every way was tried; the caller falls back to the sorted component.
  | exhausted

namespace Trail

section

variable (graph : Graph α) (component : List α)

def inside (node : α) : List α :=
  (neighbors graph node).filter (· ∈ component)

def start (first : α) : Trail α where
  path := [first]
  visiting := {first}
  work := [(first, inside graph component first)]

def step (first : α) (t : Trail α) : Found α ⊕ Trail α :=
  match t.work with
  | [] => .inl .exhausted
  | (node, nxt :: rest) :: work =>
    if nxt = first then .inl (.closed t.path)
    else if nxt ∉ t.visiting then
      .inr {
        path := t.path ++ [nxt]
        visiting := insert nxt t.visiting
        work := (nxt, inside graph component nxt) :: (node, rest) :: work }
    else .inr { t with work := (node, rest) :: work }
  | (node, []) :: work =>
    .inr { path := t.path.dropLast, visiting := t.visiting.erase node, work }

end

def run (graph : Graph α) (component : List α) (first : α) : ℕ → Trail α → Option (Found α)
  | 0, _ => none
  | fuel + 1, t =>
    match step graph component first t with
    | .inl found => some found
    | .inr t => run graph component first fuel t

end Trail

def searchCyclePath (graph : Graph α) (component : List α) (first : α) (fuel : ℕ) : Option (Found α) :=
  Trail.run graph component first fuel (Trail.start graph component first)

/-- `str` is how a node is printed. -/
def findActualCyclePath (str : α → String) (graph : Graph α) (component : List α) (first : α)
    (fuel : ℕ) : Option (List α) :=
  (searchCyclePath graph component first fuel).map fun
    | .closed path => path
    | .exhausted => component.mergeSort fun a b => decide (str a ≤ str b)

end Ici.ImportCycles
