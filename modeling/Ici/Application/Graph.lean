import Ici.Adapters.Gcov
import Ici.Languages.Registries
import Ici.Library.Layering
import Ici.Library.Worklist

/-! # What a run will do, and the graph of its tasks -/

namespace Ici

open List Python

/-- One selected check, as `__post_init__` leaves it: the task id has been filled in. -/
@[ext]
structure PlannedCheck where
  check : CheckDefinition
  task : Option ProviderPlan := none
  blocked : Text := []
  taskId : Text
  taskId_ne_nil : taskId ≠ []
  not_both : task ≠ none → blocked = []
  taskId_agrees : ∀ plan ∈ task, plan.task.val.id = taskId

namespace PlannedCheck

instance : DecidableEq PlannedCheck := fun _ _ => decidable_of_iff' _ PlannedCheck.ext_iff

theorem untasked : (none : Option ProviderPlan) ≠ none → ([] : Text) = [] := fun _ => rfl

def willRun (planned : PlannedCheck) : Bool := planned.blocked = []

def isInternal (planned : PlannedCheck) : Bool := planned.willRun && planned.task.isNone

end PlannedCheck

def nothingSelected : PyError := ⟨py "NothingSelected", py "no check was selected"⟩

/-- The loop of `Plan.__post_init__`, from the task ids it has seen. -/
def checkPlanned (seen : List Text) : List PlannedCheck → Result Unit
  | [] => .ok ()
  | planned :: rest =>
    if planned.taskId ∈ seen then .error (valueError (planned.taskId ++ py " was selected twice"))
    else if planned.task.any (·.task.val.dependsOn ≠ []) then
      .error (valueError (planned.check.id ++ py " declares dependencies, which this plan cannot order"))
    else checkPlanned (planned.taskId :: seen) rest

def checkPlan (checks : List PlannedCheck) : Result Unit :=
  if checks = [] then .error nothingSelected else checkPlanned [] checks

abbrev Plan := Checked checkPlan

theorem checkPlanned_eq_ok_iff {seen : List Text} {checks : List PlannedCheck} :
    checkPlanned seen checks = .ok () ↔
      (checks.map (·.taskId)).Nodup ∧ (∀ id ∈ seen, id ∉ checks.map (·.taskId)) ∧
        ∀ planned ∈ checks, ∀ plan ∈ planned.task, plan.task.val.dependsOn = [] := by
  induction checks generalizing seen with
  | nil => simp [checkPlanned]
  | cons planned rest ih =>
    have hNone : planned.task.any (·.task.val.dependsOn ≠ []) = false ↔
        ∀ plan ∈ planned.task, plan.task.val.dependsOn = [] := by
      cases planned.task <;> simp
    rw [checkPlanned]
    split
    · rename_i hSeen
      refine iff_of_false nofun fun h => h.2.1 _ hSeen mem_cons_self
    · rename_i hNew
      split
      · rename_i hDepends
        refine iff_of_false nofun fun h => ?_
        rw [hNone.mpr (h.2.2 planned mem_cons_self)] at hDepends
        cases hDepends
      · rename_i hFree
        rw [Bool.not_eq_true] at hFree
        rw [ih, map_cons, nodup_cons, forall_mem_cons, forall_mem_cons, iff_true_intro (hNone.mp hFree)]
        simp only [mem_cons, not_or, true_and]
        constructor
        · rintro ⟨hNodup, ⟨hOut, hSeen⟩, hRest⟩
          exact ⟨⟨hOut, hNodup⟩, fun id hId => ⟨fun hEq => hNew (hEq ▸ hId), hSeen id hId⟩, hRest⟩
        · rintro ⟨⟨hOut, hNodup⟩, hSeen, hRest⟩
          exact ⟨hNodup, ⟨hOut, fun id hId => (hSeen id hId).2⟩, hRest⟩

theorem checkPlan_eq_ok_iff {checks : List PlannedCheck} : checkPlan checks = .ok () ↔
      checks ≠ [] ∧ (checks.map (·.taskId)).Nodup ∧
        ∀ planned ∈ checks, ∀ plan ∈ planned.task, plan.task.val.dependsOn = [] := by
  unfold checkPlan
  split
  · rename_i hNil
    exact iff_of_false nofun fun h => h.1 hNil
  · rename_i hNe
    rw [checkPlanned_eq_ok_iff]
    simp [hNe]

/-! ## The task graph a plan becomes

Edges come from logical inputs, equal work is folded into one unit, and a check whose
prerequisite cannot run is blocked with the reason. Nothing here executes. -/

def graphError (text : Text) : PyError := ⟨py "GraphError", text⟩

structure WorkUnitFields where
  id : Text
  consumers : List Text
  source : PlannedCheck
  dependsOn : List Text := []
deriving DecidableEq

def WorkUnitFields.check (unit : WorkUnitFields) : Result Unit :=
  if unit.id = [] then .error (valueError (py "a work unit must have an id"))
  else if unit.consumers = [] then
    .error (valueError (py "work unit " ++ unit.id ++ py " serves no check"))
  else if unit.id ∈ unit.dependsOn then
    .error (valueError (py "work unit " ++ unit.id ++ py " cannot depend on itself"))
  else .ok ()

abbrev WorkUnit := Checked WorkUnitFields.check

namespace WorkUnit

def plan (unit : WorkUnit) : Option ProviderPlan := unit.val.source.task

def isInternal (unit : WorkUnit) : Bool := unit.val.source.isInternal

end WorkUnit

structure Blocked where
  check : PlannedCheck
  reason : Text
deriving DecidableEq

structure TaskGraph where
  units : List WorkUnit
  blocked : List Blocked
deriving DecidableEq

def TaskGraph.layers (graph : TaskGraph) : Result (List (List WorkUnit)) :=
  match Layering.kahn (fun unit : WorkUnit => unit.val.id) (fun unit => unit.val.dependsOn)
      graph.units.length [] graph.units with
  | .ok layers => .ok layers
  | .error (.stuck _) => .error (graphError (py "the task graph contains a cycle"))
  | .error .outOfFuel => .error noReturn

def addProducer (planned : PlannedCheck) (found : Dict Text PlannedCheck) (name : Text) :
    Result (Dict Text PlannedCheck) :=
  match found.get? name with
  | some previous => .error (graphError (py "input " ++ pyRepr name ++ py " is produced by both " ++
      previous.check.id ++ py " and " ++ planned.check.id))
  | none => .ok (found.set name planned)

/-- Which selected check produces each logical input; two producers are a definition error. -/
def producers (checks : List PlannedCheck) : Result (Dict Text PlannedCheck) :=
  checks.foldlM (fun found planned => planned.check.provides.foldlM (addProducer planned) found) []

def catalogProducers (catalog : Option (List CheckDefinition)) : Dict Text CheckDefinition :=
  (catalog.getD []).foldl
    (fun found check => check.provides.foldl (fun found name => found.setDefault name check) found)
    []

abbrev Edges := Dict Text (List Text)

def Edges.of (edges : Edges) (taskId : Text) : List Text := (edges.get? taskId).getD []

section Wire

variable (produced : Dict Text PlannedCheck) (available : Dict Text CheckDefinition)
  (planned : PlannedCheck)

def wireNeed (state : Edges × List Text) (need : Text) : Result (Edges × List Text) :=
  match produced.get? need with
  | none =>
    let reason := match available.get? need with
      | some supplier => py "needs " ++ need ++ py ", which " ++ supplier.id ++
          py " was not selected to produce"
      | none => py "needs " ++ need ++ py ", which no selected check produces"
    .ok (state.1, state.2 ++ [reason])
  | some producer =>
    if producer.taskId = planned.taskId then
      .error (graphError (py "check " ++ planned.check.id ++ py " cannot consume its own " ++ need))
    else
      .ok (state.1.set planned.taskId (state.1.of planned.taskId ++ [producer.taskId]), state.2)

def wire (edges : Edges) : Result (Edges × List Text) :=
  planned.check.needs.foldlM (wireNeed produced available planned) (edges, [])

end Wire

structure Wiring where
  blocked : List Blocked := []
  runnable : List PlannedCheck := []
  edges : Edges := []

def wireCheck (produced : Dict Text PlannedCheck) (available : Dict Text CheckDefinition)
    (wiring : Wiring) (planned : PlannedCheck) : Result Wiring := do
  if planned.blocked ≠ [] then
    return { wiring with blocked := wiring.blocked ++ [⟨planned, planned.blocked⟩] }
  else
    let (edges, reasons) ← wire produced available planned wiring.edges
    if reasons ≠ [] then
      return { wiring with
        edges := edges, blocked := wiring.blocked ++ [⟨planned, join (py "; ") reasons⟩] }
    else return { wiring with edges := edges, runnable := wiring.runnable ++ [planned] }

/-- A runnable check with a blocked prerequisite, judged against the blocked ones so far. -/
def blockedBy (edges : Edges) (blocked : List Blocked) (planned : PlannedCheck) : Option Blocked :=
  ((edges.of planned.taskId).find? (· ∈ blocked.map (·.check.taskId))).map fun prerequisite =>
    ⟨planned, py "prerequisite " ++ prerequisite ++ py " did not run"⟩

inductive FoldKey where
  | internal (taskId : Text)
  | shared (key : ShareKey)
deriving DecidableEq

def foldKey (planned : PlannedCheck) : FoldKey :=
  match planned.task with
  | none => .internal planned.taskId
  | some plan => .shared plan.task.shareKey

abbrev Groups := Dict FoldKey (List PlannedCheck)

def groupsOf (runnable : List PlannedCheck) : Groups := Dict.groupBy foldKey runnable

def groupOf (groups : Groups) : Dict Text FoldKey :=
  Dict.setAll [] (groups.flatMap fun group => group.2.map fun member => (member.taskId, group.1))

/-- The unit that serves one producer of a group, unless it is the group itself. -/
def dependency (groups : Groups) (owners : Dict Text FoldKey) (key : FoldKey) (producer : Text) :
    Result (Option Text) :=
  match owners.get? producer with
  | none => .error (keyError producer)
  | some depGroup =>
    if depGroup = key then .ok none
    else match (groups.get? depGroup).bind List.head? with
      | some first => .ok (some first.taskId)
      | none => .error ⟨py "IndexError", py "list index out of range"⟩

def unitOf (groups : Groups) (edges : Edges) (group : FoldKey × List PlannedCheck) : Result WorkUnit := do
  let deps ← (group.2.flatMap fun member => edges.of member.taskId).mapM
    (dependency groups (groupOf groups) group.1)
  match group.2.head? with
  | none => .error ⟨py "IndexError", py "list index out of range"⟩
  | some first =>
    Checked.construct WorkUnitFields.check {
      id := first.taskId
      consumers := group.2.map (·.taskId)
      source := first
      dependsOn := (deps.reduceOption.dedup).insertionSort (· ≤ ·) }

def addOwner (unit : WorkUnit) (owners : Dict Text Text) (output : Text) : Result (Dict Text Text) :=
  match owners.get? output with
  | some previous => .error (graphError (py "output " ++ pyRepr output ++ py " is claimed by both " ++
      previous ++ py " and " ++ unit.val.id))
  | none => .ok (owners.set output unit.val.id)

def claimOutputs (owners : Dict Text Text) (unit : WorkUnit) : Result (Dict Text Text) :=
  match unit.plan with
  | none => .ok owners
  | some plan => plan.task.val.outputSpecs.foldlM (addOwner unit) owners

def knownDependencies (ids : List Text) (unit : WorkUnit) : Result Unit :=
  let unknown := unit.val.dependsOn.filter (· ∉ ids)
  if unknown = [] then .ok ()
  else .error (graphError (py "task " ++ unit.val.id ++ py " depends on " ++ reprSorted unknown ++
    py ", which are not in the plan"))

def validate (units : List WorkUnit) : Result Unit := do
  let ids := units.map (·.val.id)
  (if ids.Nodup then .ok ()
    else .error (graphError (py "the task graph contains duplicate unit ids")))
  units.forM (knownDependencies ids)
  let _ ← units.foldlM claimOutputs []
  match Layering.kahn (fun unit : WorkUnit => unit.val.id) (fun unit => unit.val.dependsOn)
      units.length [] units with
  | .ok _ => .ok ()
  | .error (.stuck left) => .error (graphError (py "the task graph contains a cycle: " ++
      join (py ", ") ((left.map (·.val.id)).insertionSort (· ≤ ·))))
  | .error .outOfFuel => .error noReturn

def unitsOf (runnable : List PlannedCheck) (edges : Edges) : Result (List WorkUnit) := do
  let groups := groupsOf runnable
  let units ← groups.mapM (unitOf groups edges)
  validate units
  return units

section

variable (checks : List PlannedCheck) (catalog : Option (List CheckDefinition))

/-- The first half of `build_graph`: the edges, what is blocked and what is left runnable. -/
def blockChecks : Result (Edges × List Blocked × List PlannedCheck) := do
  let produced ← producers checks
  let wiring ← checks.foldlM (wireCheck produced (catalogProducers catalog)) {}
  match Saturation.saturate (blockedBy wiring.edges) (wiring.runnable.length + 1)
      wiring.blocked wiring.runnable with
  | none => .error noReturn
  | some (blocked, runnable) => .ok (wiring.edges, blocked, runnable)

def buildGraph : Result TaskGraph := do
  let (edges, blocked, runnable) ← blockChecks checks catalog
  let units ← unitsOf runnable edges
  return { units := units, blocked := blocked }

end

end Ici
