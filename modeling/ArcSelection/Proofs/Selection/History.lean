import ArcSelection.Proofs.Graph.Store
import ArcSelection.Proofs.Selection.Run
import ArcSelection.Selection.Posed

/-!
# What a task shows of its last run

A selection task stands beside the graphs of a store. Between its runs the graphs change in
any way, and its functions may answer otherwise than before. A run shows what the solver
answered this time, or nothing if it failed: `SelectionTask.run_cases` tells what one run
leaves, and `PosedTask.Selects` is what any history keeps of the task.
-/

namespace ArcSelection

open Decimal Fallible

/-- The objective of the last solution. -/
def TaskProgress.objective? : TaskProgress → Option Value
  | .selection s => s.objective?
  | .matching s => s.run.objective?

/-- Every value of the solution is a number. -/
def Solution.Numeric (s : Solution Arc Value) : Prop := ∀ e ∈ s.values, e.2.isNumeric = true

/-- The solver returns numbers, if it returns at all. -/
def Solver.Numeric (solver : Solver Arc Arc Value) : Prop :=
  ∀ p s, (solver p).result = .ok s → s.Numeric

/-- The values of a numeric solution are numbers. -/
theorem Solution.Numeric.value {s : Solution Arc Value} (numeric : s.Numeric) (a : Arc) :
    (s.value a).isNumeric = true := by
  unfold Solution.value
  split
  · exact numeric _ (List.mem_of_find?_eq_some ‹_›)
  · rfl

theorem SolutionType.hasSolution_iff {type : SolutionType} :
    type.hasSolution = true ↔ type = .feasible ∨ type = .optimal := by
  cases type <;> simp [hasSolution]

namespace SelectionTask

variable {t : SelectionTask Value} {g : Graph} {solver : Solver Arc Arc Value}
  {last : RunState Value}

/-- A run fails with the fault of the compilation or of the solver and leaves nothing, or it
leaves the answer of the solver, with a selection if the answer has a solution: of the arcs
whose values reach the threshold, in the order in which the graph first lists them. -/
theorem run_cases (number : t.threshold.isNumeric = true) (numeric : solver.Numeric)
    (last : RunState Value) :
    (∃ fault, (t.compile g = .error fault ∨
        ∃ p, t.compile g = .ok p ∧ (solver p).result = .error fault) ∧
      (t.run g solver last).outcome = .error fault ∧ (t.run g solver last).state = .blank) ∨
    ∃ p answer selected, t.compile g = .ok p ∧ (solver p).result = .ok answer ∧
      (t.run g solver last).outcome = .ok answer.type ∧
      (t.run g solver last).state = ⟨some answer, selected⟩ ∧
      selected.isSome = answer.type.hasSolution ∧
      ∀ chosen, selected = some chosen → chosen.enabled.keys =
        (g.arcs .all).eraseDups.filter fun a => t.threshold.exact ≤ (answer.value a).exact := by
  cases compiled : t.compile g with
  | error fault =>
      refine .inl ⟨fault, .inl rfl, ?_, ?_⟩
      · simp [run, compiled]
      · simp [run, compiled, RunState.blank]
  | ok p =>
      cases answered : (solver p).result with
      | error fault =>
          refine .inl ⟨fault, .inr ⟨p, rfl, answered⟩, ?_, ?_⟩
          · simp [run, compiled, answered]
          · simp [run, compiled, answered, RunState.blank]
      | ok answer =>
          cases solved : answer.type.hasSolution with
          | false =>
              refine .inr ⟨p, answer, none, rfl, answered, ?_, ?_, solved.symm, ?_⟩
              · simp [run, compiled, answered, solved]
              · simp [run, compiled, answered, solved]
              · rintro chosen ⟨⟩
          | true =>
              have tests : ∀ a ∈ p.unknowns.keys, Arithmetic.atMost t.threshold (answer.value a) =
                  .ok (decide (t.threshold.exact ≤ (answer.value a).exact)) := fun a _ =>
                Value.atMost_of_numeric number ((numeric p answer answered).value a)
              obtain ⟨chosen, decoded, keys⟩ := decode_of_tests tests
              rw [keys_of_compile compiled] at keys
              refine .inr ⟨p, answer, some chosen, rfl, answered, ?_, ?_, solved.symm, ?_⟩
              · simp [run, compiled, answered, solved, decoded]
              · simp [run, compiled, answered, solved, decoded]
              · rintro _ ⟨⟩
                exact keys

/-- A run fails exactly if the compilation or the solver does. -/
theorem run_eq_error_iff (number : t.threshold.isNumeric = true) (numeric : solver.Numeric)
    {fault : Fault} : (t.run g solver last).outcome = .error fault ↔
      t.compile g = .error fault ∨
        ∃ p, t.compile g = .ok p ∧ (solver p).result = .error fault := by
  obtain ⟨own, cause, ended, _⟩ | ⟨p, answer, _, compiled, answered, ended, _⟩ :=
    run_cases (g := g) number numeric last
  · rw [ended]
    rcases cause with failed | ⟨p, compiled, failed⟩
    · simp [failed]
    · simp [compiled, failed]
  · simp [ended, compiled, answered]

end SelectionTask

namespace PosedTask

/-- What happens to a task and the store it stands beside: an event of the store, other
answers of the functions of the task from now on, or a run. -/
inductive Event where
  | change (event : Store.Event)
  | functions (degree inDegree outDegree : DegreeBounds Value) (costs : List (WeightedCost Value))
  | run (solver : Solver Arc Arc Value)

/-- The task and the store after an event. -/
def after : PosedTask × Store → Event → PosedTask × Store
  | (t, s), .change event => (t, s.after event)
  | (t, s), .functions degree inDegree outDegree costs =>
      ({ t with task := { t.task with degree, inDegree, outDegree, costs } }, s)
  | (t, s), .run solver => (t.run s solver).state

/-- The task and the store after a history. -/
def afterAll (state : PosedTask × Store) (history : List Event) : PosedTask × Store :=
  history.foldl after state

/-- A selection task on the graph at a position, with a threshold. -/
structure Selects (t : PosedTask) (position : Nat) (threshold : Value) : Prop where
  graph : t.graph = position
  threshold : t.task.threshold = threshold
  last : ∃ state, t.last = .selection state

/-- The task shows nothing: no type, no objective and no result. -/
structure ShowsNothing (t : PosedTask) : Prop where
  type : t.last.type? = none
  objective : t.last.objective? = none
  result : t.result = none

/-- The task shows an answer of the solver, and has a result in the store exactly if the
answer has a solution: a selection over the graph of the task with the given arcs. -/
structure ShowsAnswer (t : PosedTask) (s : Store) (answer : Solution Arc Value)
    (arcs : List Arc) : Prop where
  type : t.last.type? = some answer.type
  objective : t.last.objective? = answer.objective
  result : t.result.isSome = true ↔ answer.type = .feasible ∨ answer.type = .optimal
  layer : ∀ i, t.result = some i → ∃ chosen,
    s.layers[i]? = some (.selection chosen t.graph) ∧ chosen.enabled.keys = arcs

variable {t : PosedTask} {s : Store} {position : Nat} {threshold : Value}
  {solver : Solver Arc Arc Value}

/-- A result that is added is found at its position. -/
theorem addResult_layer {β : Type} {layer : β → Layer} {selected : Option β} {i : Nat}
    (placed : (addResult s layer selected).1 = some i) :
    ∃ x, selected = some x ∧ (addResult s layer selected).2.layers[i]? = some (layer x) := by
  cases selected with
  | none => cases placed
  | some x =>
      cases placed
      exact ⟨x, rfl, List.getElem?_concat_length⟩

theorem addResult_isSome {β : Type} {layer : β → Layer} {selected : Option β} :
    (addResult s layer selected).1.isSome = selected.isSome := by
  cases selected <;> rfl

/-- A result that is added leaves the graphs that are there. -/
theorem graph_addResult {β : Type} {layer : β → Layer} {selected : Option β} {i : Nat}
    (there : i < s.layers.length) : (addResult s layer selected).2.graph i = s.graph i := by
  cases selected with
  | none => rfl
  | some x => exact Store.graph_add s (layer x) there

/-- A run of a selection task is a run of the same task as if it were the first. -/
theorem Selects.run_eq (selects : t.Selects position threshold) :
    t.run s solver = (selecting position t.task).run s solver := by
  obtain ⟨rfl, _, state, isSelection⟩ := selects
  simp only [run, selecting, isSelection, SelectionTask.run_eq_run_blank _ _ _ state]

/-- A run keeps the graph and the threshold of a task. -/
theorem Selects.run (selects : t.Selects position threshold) :
    (t.run s solver).state.1.Selects position threshold := by
  rw [selects.run_eq]
  exact ⟨rfl, selects.threshold, _, rfl⟩

/-- Every event leaves the task a selection task on the same graph, with its threshold. -/
theorem Selects.after (selects : t.Selects position threshold) (event : Event) :
    (PosedTask.after (t, s) event).1.Selects position threshold := by
  cases event with
  | change event => exact selects
  | functions degree inDegree outDegree costs =>
      exact ⟨selects.graph, selects.threshold, selects.last⟩
  | run solver => exact selects.run

/-- Events keep the graph and the threshold of a task. -/
theorem Selects.afterAll (selects : t.Selects position threshold) (history : List Event) :
    (PosedTask.afterAll (t, s) history).1.Selects position threshold := by
  induction history generalizing t s with
  | nil => exact selects
  | cons event history ih => exact ih (selects.after event)

/-- What is left of a selection task that is run once. -/
theorem run_selecting (position : Nat) (task : SelectionTask Value) (s : Store)
    (solver : Solver Arc Arc Value) :
    ((selecting position task).run s solver).outcome =
        (task.run (s.graph position) solver .blank).outcome ∧
      ((selecting position task).run s solver).state =
        (let left := (task.run (s.graph position) solver .blank).state
        let placed := addResult s (.selection · position) left.selected
        (⟨position, task, .selection left, placed.1⟩, placed.2)) :=
  ⟨rfl, rfl⟩

/-- After any history a run shows its own answer or nothing. It fails exactly with the fault
of the compilation or of the solver, and then the task shows nothing. If it ends, the task
shows the answer of this run's solver to this run's program; the selected arcs are those
that the graph lists now and whose values reach the threshold, in this order. The run is
that of the same task as if it were the first, and changes no graph that is there. -/
theorem run_never_stale {input : TaskInput} {task : SelectionTask Value}
    (accepted : SelectionTask.ofInput input = .ok task) {start : Store} {history : List Event}
    (reached : afterAll (selecting position task, start) history = (t, s))
    (numeric : solver.Numeric) :
    (∀ fault, (t.run s solver).outcome = .error fault ↔
      t.compile s = .error fault ∨ ∃ p, t.compile s = .ok p ∧ (solver p).result = .error fault) ∧
    (∀ fault, (t.run s solver).outcome = .error fault →
      (t.run s solver).state.1.ShowsNothing) ∧
    (∀ type, (t.run s solver).outcome = .ok type →
      ∃ p answer, t.compile s = .ok p ∧ (solver p).result = .ok answer ∧ answer.type = type ∧
        (t.run s solver).state.1.ShowsAnswer (t.run s solver).state.2 answer
          (((s.graph position).arcs .all).eraseDups.filter fun a =>
            task.threshold.exact ≤ (answer.value a).exact)) ∧
    t.run s solver = (selecting position t.task).run s solver ∧
    ∀ i < s.layers.length, (t.run s solver).state.2.graph i = s.graph i := by
  have selects : t.Selects position task.threshold := by
    have fresh : (selecting position task).Selects position task.threshold := ⟨rfl, rfl, _, rfl⟩
    have kept := fresh.afterAll (s := start) history
    rwa [reached] at kept
  have number : t.task.threshold.isNumeric = true :=
    selects.threshold ▸ SelectionTask.numeric_threshold_of_ofInput accepted
  rw [selects.run_eq, compile, selects.graph, ← selects.threshold]
  obtain ⟨outcome, state⟩ := run_selecting position t.task s solver
  rw [outcome, state]
  refine ⟨fun fault => SelectionTask.run_eq_error_iff number numeric, ?_, ?_, rfl,
    fun i there => graph_addResult there⟩
  · intro fault failed
    obtain ⟨_, _, _, left⟩ | ⟨_, _, _, _, _, ended, _⟩ :=
      SelectionTask.run_cases (g := s.graph position) number numeric .blank
    · rw [left]
      exact ⟨rfl, rfl, rfl⟩
    · rw [ended] at failed
      cases failed
  · intro type ended
    obtain ⟨_, _, failed, _⟩ | ⟨p, answer, selected, compiled, answered, own, left, some, keys⟩ :=
      SelectionTask.run_cases (g := s.graph position) number numeric .blank
    · rw [failed] at ended
      cases ended
    · rw [own] at ended
      rw [left]
      refine ⟨p, answer, compiled, answered, Except.ok.inj ended, rfl, rfl, ?_, ?_⟩
      · rw [addResult_isSome, some, SolutionType.hasSolution_iff]
      · intro i placed
        obtain ⟨chosen, isSelected, layer⟩ := addResult_layer placed
        exact ⟨chosen, layer, keys chosen isSelected⟩

/-- Two nodes with two arcs between them. -/
def twoArcs : Store :=
  Store.empty.afterAll [.stored, .change 0 [] (.addNode none none), .change 0 [] (.addNode none none),
    .change 0 [] (.addArc ⟨1⟩ ⟨2⟩ .directed none none),
    .change 0 [] (.addArc ⟨2⟩ ⟨1⟩ .undirected none none)]

/-- A feasible answer of three quarters for the first two arcs. -/
def threeQuarters : Solution Arc Value :=
  ⟨.feasible, some (.int 3), [(⟨1⟩, .float 0.75), (⟨2⟩, .float 0.75)]⟩

/-- A run that selects both arcs; then the first arc is deleted and a third one is added. -/
def selectedThenChanged : List Event :=
  [.run fun _ => ⟨[], .ok threeQuarters⟩, .change (.change 0 [] (.deleteArc ⟨1⟩)),
    .change (.change 0 [] (.addArc ⟨1⟩ ⟨2⟩ .directed none none))]

/-- A solver that fails, and one that gives the same answer again. -/
def silent : Solver Arc Arc Value := fun _ => ⟨[], .error (.backend "no answer")⟩

/-- A solver that takes the second arc each time. -/
def repeating : Solver Arc Arc Value := fun _ => ⟨[], .ok threeQuarters⟩

section Evaluation

-- The queries are defined by recursion on positions, which is opened to evaluate them here.
unseal Store.graph

/-- An answer is shown until the next run and never after it. -/
theorem run_never_stale_selectedThenChanged :
    ∃ task, SelectionTask.ofInput SelectionTask.leastArc = .ok task ∧
      ∃ t s, afterAll (selecting 0 task, twoArcs) selectedThenChanged = (t, s) ∧
        t.last.type? = some .feasible ∧ t.result = some 1 ∧
        (t.run s silent).state.1.ShowsNothing ∧
        (t.run s repeating).state.1.ShowsAnswer (t.run s repeating).state.2 threeQuarters
          [⟨2⟩] := by
  have silentNumeric : silent.Numeric := nofun
  have repeatingNumeric : repeating.Numeric := by
    rintro _ _ ⟨⟩ e listed
    fin_cases listed <;> rfl
  obtain ⟨task, accepted, t, s, reached, type, result, ⟨p, compiled⟩, arcs⟩ :
      ∃ task, SelectionTask.ofInput SelectionTask.leastArc = .ok task ∧
        ∃ t s, afterAll (selecting 0 task, twoArcs) selectedThenChanged = (t, s) ∧
          t.last.type? = some .feasible ∧ t.result = some 1 ∧
          (∃ p, t.compile s = .ok p) ∧
          (((s.graph 0).arcs .all).eraseDups.filter fun a =>
            task.threshold.exact ≤ (threeQuarters.value a).exact) = [⟨2⟩] :=
    ⟨_, rfl, _, _, rfl, rfl, rfl, ⟨_, rfl⟩, by decide +kernel⟩
  refine ⟨task, accepted, t, s, reached, type, result, ?_, ?_⟩
  · obtain ⟨fails, shows, _⟩ := run_never_stale accepted reached silentNumeric
    exact shows _ ((fails (.backend "no answer")).mpr (.inr ⟨p, compiled, rfl⟩))
  · obtain ⟨fails, _, shows, _⟩ := run_never_stale accepted reached repeatingNumeric
    cases outcome : (t.run s repeating).outcome with
    | error fault =>
        obtain failed | ⟨_, _, failed⟩ := (fails fault).mp outcome
        · rw [compiled] at failed
          cases failed
        · cases failed
    | ok type =>
        obtain ⟨_, _, _, answered, _, shown⟩ := shows type outcome
        cases answered
        exact arcs ▸ shown

end Evaluation

end PosedTask

end ArcSelection
