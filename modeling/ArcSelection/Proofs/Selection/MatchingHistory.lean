import ArcSelection.Proofs.Selection.History

/-!
# What a matching task shows of its runs

A matching task takes the type of an answer over when the selection task behind it ends, and
the matching when the selection converts into one. It forgets neither when a run starts. A
run that ends therefore shows its own answer. A run that fails shows the matching of the last
run that ended, next to the type of the last answer there was, which may be its own.
-/

namespace ArcSelection

open Fallible

/-- The matching of the last run that had one to show. -/
def TaskProgress.matching? : TaskProgress → Option Matching
  | .selection _ => none
  | .matching s => s.matching

/-- A matching made of a selection has the visible arcs of the selection, in order. -/
theorem keys_of_toMatching {g : Graph} {chosen : Selection} {m : Matching}
    (converted : toMatching g chosen = .ok m) :
    m.selection.enabled.keys = chosen.arcs g .all := by
  have nodup : (chosen.arcs g .all).Nodup := chosen.enabled.nodup_keys.filter _
  refine invariant_of_foldlM_ok (fun done (m : Matching) =>
    done.Nodup → m.selection.enabled.keys = done) ?_ (fun _ => rfl) converted nodup
  intro done a m next keys enabled nodup
  obtain ⟨doneNodup, _, fresh⟩ := List.nodup_append.mp nodup
  have keys := keys doneNodup
  rcases m.enable_cases g a with ⟨on, eq⟩ | ⟨off, ⟨_, fault, eq, _⟩ | ⟨_, eq⟩⟩
  · -- An arc that is on was done before, and no arc comes twice.
    have early : a ∈ done := keys ▸ (OrderedMap.mem_keys_iff _ _).mpr on
    exact absurd rfl (fresh a early a (by simp))
  · cases enabled.symm.trans eq
  · cases enabled.symm.trans eq
    have off : m.selection.enabled.contains a = false := off
    simp [Matching.join, Selection.enable, OrderedMap.keys_insert, off, keys]

namespace SelectionTask

variable {t : SelectionTask Value} {g : Graph} {solver : Solver Arc Arc Value}

/-- A run gets as far as an answer: the task compiles, and the solver answers its program. -/
def Answered (t : SelectionTask Value) (g : Graph) (solver : Solver Arc Arc Value)
    (answer : Solution Arc Value) : Prop :=
  ∃ p, t.compile g = .ok p ∧ (solver p).result = .ok answer

/-- The arcs of a graph whose values reach the threshold of the task. -/
def reaching (t : SelectionTask Value) (g : Graph) (answer : Solution Arc Value) : List Arc :=
  ((g.arcs .all).eraseDups.filter fun a => t.threshold.exact ≤ (answer.value a).exact).filter
    g.hasArc

/-- How a run of a matching task goes that comes after another one. -/
inductive MatchingRun (t : SelectionTask Value) (g : Graph) (solver : Solver Arc Arc Value)
    (before : MatchingState Value) (r : RunResult (MatchingState Value)) : Prop
  /-- The run fails without an answer, and leaves what was there. -/
  | unanswered (silent : ∀ answer, ¬ t.Answered g solver answer) (fault : Fault)
      (failed : r.outcome = .error fault) (type : r.state.type = before.type)
      (matching : r.state.matching = before.matching)
  /-- The run fails to make a matching of its answer, and leaves the one that was there. -/
  | unmatched (answer : Solution Arc Value) (answered : t.Answered g solver answer)
      (fault : Fault) (failed : r.outcome = .error fault) (type : r.state.type = some answer.type)
      (matching : r.state.matching = before.matching)
  /-- The run ends with its answer, and with a matching if the answer has a solution. -/
  | ended (answer : Solution Arc Value) (answered : t.Answered g solver answer)
      (ended : r.outcome = .ok answer.type) (type : r.state.type = some answer.type)
      (matching : r.state.matching.isSome = answer.type.hasSolution)
      (arcs : ∀ m, r.state.matching = some m → m.selection.enabled.keys = t.reaching g answer)

/-- A run of a matching task goes one of the ways that are told. -/
theorem matchingRun (number : t.threshold.isNumeric = true) (numeric : solver.Numeric)
    (before : MatchingState Value) :
    t.MatchingRun g solver before (t.runMatching g solver before) := by
  obtain ⟨fault, cause, failed, _⟩ | ⟨p, answer, selected, compiled, found, ended, left, solved,
    keys⟩ := run_cases (g := g) number numeric before.run
  · have silent : ∀ answer, ¬ t.Answered g solver answer := by
      rintro answer ⟨p, compiled, answered⟩
      rcases cause with unfit | ⟨q, same, unanswered⟩
      · cases compiled.symm.trans unfit
      · cases compiled.symm.trans same
        cases answered.symm.trans unanswered
    simp only [runMatching, failed]
    exact .unanswered silent fault rfl rfl rfl
  · have answered : t.Answered g solver answer := ⟨p, compiled, found⟩
    simp only [runMatching, ended, left]
    cases selected with
    | none => exact .ended answer answered rfl rfl solved nofun
    | some chosen =>
        dsimp only
        cases converted : toMatching g chosen with
        | error fault => exact .unmatched answer answered fault rfl rfl rfl
        | ok m =>
            refine .ended answer answered rfl rfl solved ?_
            rintro _ ⟨⟩
            rw [keys_of_toMatching converted, Selection.arcs, keys chosen rfl]
            exact List.filter_congr fun a _ => by simp

end SelectionTask

namespace PosedTask

/-- A matching task on the graph at a position, with a threshold. -/
structure Matches (t : PosedTask) (position : Nat) (threshold : Value) : Prop where
  graph : t.graph = position
  threshold : t.task.threshold = threshold
  last : ∃ state, t.last = .matching state

/-- The task shows an answer of the solver, with a matching of the given arcs if the answer
has a solution; the result in the store is that matching. -/
structure ShowsMatching (t : PosedTask) (s : Store) (answer : Solution Arc Value)
    (arcs : List Arc) : Prop where
  type : t.last.type? = some answer.type
  matching : t.last.matching?.isSome = true ↔ answer.type = .feasible ∨ answer.type = .optimal
  arcs : ∀ m, t.last.matching? = some m → m.selection.enabled.keys = arcs
  result : t.result.isSome = t.last.matching?.isSome
  layer : ∀ i, t.result = some i → ∃ m, t.last.matching? = some m ∧
    s.layers[i]? = some (.matching m t.graph)

/-- The task shows what the run did: the type that the run returned, and a matching exactly
for a type with a solution, or nothing if the run failed. -/
structure ShowsOwn (r : RunResult (PosedTask × Store)) : Prop where
  ended : ∀ type, r.outcome = .ok type → r.state.1.last.type? = some type ∧
    (r.state.1.last.matching?.isSome = true ↔ type = .feasible ∨ type = .optimal)
  failed : ∀ fault, r.outcome = .error fault →
    r.state.1.last.type? = none ∧ r.state.1.last.matching? = none

/-- A run of the task gets as far as an answer. -/
def Answered (t : PosedTask) (s : Store) (solver : Solver Arc Arc Value)
    (answer : Solution Arc Value) : Prop :=
  t.task.Answered (s.graph t.graph) solver answer

/-- The event is a run that gets as far as an answer. -/
def AnsweredBy : PosedTask × Store → Event → Prop
  | (t, s), .run solver => ∃ answer, t.Answered s solver answer
  | _, _ => False

/-- Some run of a history gets as far as an answer. -/
def AnsweredIn : PosedTask × Store → List Event → Prop
  | _, [] => False
  | state, event :: history => AnsweredBy state event ∨ AnsweredIn (after state event) history

variable {t : PosedTask} {s : Store} {position : Nat} {threshold : Value}
  {solver : Solver Arc Arc Value}

/-- What a run of a matching task leaves: the task, the store and the outcome. -/
inductive MatchingRun (t : PosedTask) (s : Store) (solver : Solver Arc Arc Value)
    (r : RunResult (PosedTask × Store)) : Prop
  /-- The run fails without an answer, and the task shows what it showed. -/
  | unanswered (silent : ∀ answer, ¬ t.Answered s solver answer) (fault : Fault)
      (failed : r.outcome = .error fault) (type : r.state.1.last.type? = t.last.type?)
      (matching : r.state.1.last.matching? = t.last.matching?)
      (result : r.state.1.result = t.result)
  /-- The run fails to make a matching of its answer, and the task shows the type of the
  answer with the matching that it showed. -/
  | unmatched (answer : Solution Arc Value) (answered : t.Answered s solver answer)
      (fault : Fault) (failed : r.outcome = .error fault)
      (type : r.state.1.last.type? = some answer.type)
      (matching : r.state.1.last.matching? = t.last.matching?)
      (result : r.state.1.result = t.result)
  /-- The run ends, and the task shows its answer. -/
  | ended (answer : Solution Arc Value) (answered : t.Answered s solver answer)
      (ended : r.outcome = .ok answer.type)
      (shows : r.state.1.ShowsMatching r.state.2 answer
        (t.task.reaching (s.graph t.graph) answer))

/-- A run keeps the graph and the threshold of a task. -/
theorem Matches.run (posed : t.Matches position threshold) :
    (t.run s solver).state.1.Matches position threshold := by
  obtain ⟨rfl, rfl, state, isMatching⟩ := posed
  simp only [PosedTask.run, isMatching]
  split
  · exact ⟨rfl, rfl, _, rfl⟩
  · exact ⟨rfl, rfl, _, rfl⟩

/-- A run of a posed task goes one of the ways that are told. -/
theorem Matches.matchingRun (posed : t.Matches position threshold)
    (number : threshold.isNumeric = true) (numeric : solver.Numeric) :
    t.MatchingRun s solver (t.run s solver) := by
  obtain ⟨rfl, rfl, before, isMatching⟩ := posed
  have type : t.last.type? = before.type := congrArg TaskProgress.type? isMatching
  have matching : t.last.matching? = before.matching := congrArg TaskProgress.matching? isMatching
  simp only [PosedTask.run, isMatching]
  cases SelectionTask.matchingRun (g := s.graph t.graph) number numeric before with
  | unanswered silent fault failed typeEq matchingEq =>
      simp only [failed]
      exact .unanswered silent fault rfl (typeEq.trans type.symm)
        (matchingEq.trans matching.symm) rfl
  | unmatched answer answered fault failed typeEq matchingEq =>
      simp only [failed]
      exact .unmatched answer answered fault rfl typeEq (matchingEq.trans matching.symm) rfl
  | ended answer answered ended typeEq solved arcs =>
      simp only [ended]
      refine .ended answer answered rfl ⟨typeEq, ?_, arcs, addResult_isSome, fun i placed => ?_⟩
      · rw [← SolutionType.hasSolution_iff, ← solved]
        rfl
      · obtain ⟨m, shown, layer⟩ := addResult_layer placed
        exact ⟨m, shown, layer⟩

/-- Every event leaves the task a matching task on the same graph, with its threshold. -/
theorem Matches.after (posed : t.Matches position threshold) (event : Event) :
    (PosedTask.after (t, s) event).1.Matches position threshold := by
  cases event with
  | change event => exact posed
  | functions degree inDegree outDegree costs =>
      exact ⟨posed.graph, posed.threshold, posed.last⟩
  | run solver => exact posed.run

/-- Events keep the graph and the threshold of a task. -/
theorem Matches.afterAll (posed : t.Matches position threshold) (history : List Event) :
    (PosedTask.afterAll (t, s) history).1.Matches position threshold := by
  induction history generalizing t s with
  | nil => exact posed
  | cons event history ih => exact ih (posed.after event)

/-- A type is shown after an event exactly if one was shown before, or the event is a run
that gets as far as an answer. A matching is shown beside a type only. -/
theorem Matches.shows_after (posed : t.Matches position threshold)
    (number : threshold.isNumeric = true) {event : Event}
    (numeric : ∀ solver, event = .run solver → solver.Numeric) :
    ((PosedTask.after (t, s) event).1.last.type?.isSome = true ↔
      t.last.type?.isSome = true ∨ AnsweredBy (t, s) event) ∧
    ((t.last.type? = none → t.last.matching? = none) →
      (PosedTask.after (t, s) event).1.last.type? = none →
        (PosedTask.after (t, s) event).1.last.matching? = none) := by
  cases event with
  | change event => exact ⟨(or_iff_left id).symm, id⟩
  | functions degree inDegree outDegree costs => exact ⟨(or_iff_left id).symm, id⟩
  | run solver =>
      cases posed.matchingRun (s := s) number (numeric solver rfl) with
      | unanswered silent fault failed type matching result =>
          change ((t.run s solver).state.1.last.type?.isSome = true ↔ _) ∧
            (_ → (t.run s solver).state.1.last.type? = none →
              (t.run s solver).state.1.last.matching? = none)
          rw [type, matching]
          exact ⟨(or_iff_left fun ⟨answer, answered⟩ => silent answer answered).symm, id⟩
      | unmatched answer answered fault failed type matching result =>
          refine ⟨iff_of_true ?_ (.inr ⟨answer, answered⟩), fun _ untyped => ?_⟩
          · exact Option.isSome_of_eq_some type
          · cases type.symm.trans untyped
      | ended answer answered ended shows =>
          refine ⟨iff_of_true ?_ (.inr ⟨answer, answered⟩), fun _ untyped => ?_⟩
          · exact Option.isSome_of_eq_some shows.type
          · cases shows.type.symm.trans untyped

/-- A history shows a type exactly if some run had an answer, or there was one before. -/
theorem Matches.shows_afterAll (posed : t.Matches position threshold)
    (number : threshold.isNumeric = true) {history : List Event}
    (numeric : ∀ solver, .run solver ∈ history → solver.Numeric)
    (paired : t.last.type? = none → t.last.matching? = none) :
    ((PosedTask.afterAll (t, s) history).1.last.type?.isSome = true ↔
      t.last.type?.isSome = true ∨ AnsweredIn (t, s) history) ∧
    ((PosedTask.afterAll (t, s) history).1.last.type? = none →
      (PosedTask.afterAll (t, s) history).1.last.matching? = none) := by
  induction history generalizing t s with
  | nil => exact ⟨(or_iff_left id).symm, paired⟩
  | cons event history ih =>
      have here : ∀ solver, event = .run solver → solver.Numeric :=
        fun solver same => numeric solver (same ▸ List.mem_cons_self)
      obtain ⟨typed, pairs⟩ := posed.shows_after (s := s) number here
      obtain ⟨typedLater, pairsLater⟩ := ih (s := (PosedTask.after (t, s) event).2)
        (posed.after event) (fun solver later => numeric solver (List.mem_cons_of_mem _ later))
        (pairs paired)
      exact ⟨typedLater.trans ((or_congr_left typed).trans or_assoc), pairsLater⟩

/-- A run that ends shows what it did, and a run that fails does so exactly if the task shows
no type. -/
theorem MatchingRun.showsOwn_iff {r : RunResult (PosedTask × Store)}
    (run : t.MatchingRun s solver r)
    (paired : r.state.1.last.type? = none → r.state.1.last.matching? = none) :
    ShowsOwn r ↔ (∃ type, r.outcome = .ok type) ∨ r.state.1.last.type? = none := by
  have failing : ∀ fault, r.outcome = .error fault →
      (ShowsOwn r ↔ (∃ type, r.outcome = .ok type) ∨ r.state.1.last.type? = none) := by
    intro fault failed
    rw [or_iff_right (by simp [failed])]
    refine ⟨fun shows => (shows.failed fault failed).1, fun untyped => ⟨?_, ?_⟩⟩
    · intro type ended
      cases failed.symm.trans ended
    · exact fun _ _ => ⟨untyped, paired untyped⟩
  cases run with
  | unanswered silent fault failed => exact failing fault failed
  | unmatched answer answered fault failed => exact failing fault failed
  | ended answer answered ended shows =>
      refine iff_of_true ⟨fun type same => ?_, fun fault failed => ?_⟩ (.inl ⟨_, ended⟩)
      · cases ended.symm.trans same
        exact ⟨shows.type, shows.matching⟩
      · cases ended.symm.trans failed

/-- After any history a run of a matching task ends with its own answer, or leaves what the
task showed before, with the type of its answer if it had one. The task shows what the run
did exactly if the run ends, or no run so far had an answer. -/
theorem run_showsOwn_iff {input : TaskInput} {task : SelectionTask Value}
    (accepted : SelectionTask.ofInput input = .ok task) {start : Store} {history : List Event}
    (reached : afterAll (matching position task, start) history = (t, s))
    (numeric : ∀ asked, .run asked ∈ history ++ [.run solver] → asked.Numeric) :
    t.MatchingRun s solver (t.run s solver) ∧
      (ShowsOwn (t.run s solver) ↔ (∃ type, (t.run s solver).outcome = .ok type) ∨
        ¬ AnsweredIn (matching position task, start) (history ++ [.run solver])) := by
  have number := SelectionTask.numeric_threshold_of_ofInput accepted
  have fresh : (matching position task).Matches position task.threshold := ⟨rfl, rfl, _, rfl⟩
  have kept := fresh.afterAll (s := start) history
  rw [reached] at kept
  have run := kept.matchingRun (s := s) number (numeric solver (by simp))
  obtain ⟨typed, paired⟩ := fresh.shows_afterAll (s := start) number numeric fun _ => rfl
  have last : afterAll (matching position task, start) (history ++ [.run solver]) =
      (t.run s solver).state := by
    rw [afterAll, List.foldl_concat]
    exact congrArg (PosedTask.after · (.run solver)) reached
  rw [last] at typed paired
  refine ⟨run, (run.showsOwn_iff paired).trans (or_congr_right ?_)⟩
  rw [← Option.not_isSome_iff_eq_none, typed]
  exact not_congr (or_iff_right nofun)

/-- A solver that takes the first arc. -/
def takesFirst : Solver Arc Arc Value :=
  fun _ => ⟨[], .ok ⟨.optimal, some (.int 1), [(⟨1⟩, .int 1), (⟨2⟩, .int 0)]⟩⟩

theorem numeric_takesFirst : takesFirst.Numeric := by
  rintro _ _ ⟨⟩ e listed
  fin_cases listed <;> rfl

section Evaluation

-- The queries are defined by recursion on positions, which is opened to evaluate them here.
unseal Store.graph

/-- The same run shows nothing after a run that failed, and something after one that ended. -/
theorem run_showsOwn_iff_twoArcs :
    ∃ task, SelectionTask.ofInput SelectionTask.leastArc = .ok task ∧
      (∃ t s, afterAll (matching 0 task, twoArcs) [.run silent] = (t, s) ∧
        ShowsOwn (t.run s silent)) ∧
      ∃ t s, afterAll (matching 0 task, twoArcs) [.run takesFirst] = (t, s) ∧
        ¬ ShowsOwn (t.run s silent) := by
  obtain ⟨task, accepted, ⟨p, compiled⟩, t, s, u, r, neverAnswered, answered, outcome⟩ :
      ∃ task, SelectionTask.ofInput SelectionTask.leastArc = .ok task ∧
        (∃ p, (matching 0 task).compile twoArcs = .ok p) ∧
        ∃ t s u r, afterAll (matching 0 task, twoArcs) [.run silent] = (t, s) ∧
          afterAll (matching 0 task, twoArcs) [.run takesFirst] = (u, r) ∧
          (u.run r silent).outcome = .error (.backend "no answer") :=
    ⟨_, rfl, ⟨_, rfl⟩, _, _, _, _, rfl, rfl, rfl⟩
  have numericSilent : silent.Numeric := nofun
  refine ⟨task, accepted, ⟨t, s, neverAnswered, ?_⟩, u, r, answered, ?_⟩
  · have numeric : ∀ asked, Event.run asked ∈ [.run silent] ++ [.run silent] → asked.Numeric := by
      simp [numericSilent]
    refine (run_showsOwn_iff accepted neverAnswered numeric).2.mpr (.inr ?_)
    rintro (⟨_, _, _, ⟨⟩⟩ | ⟨_, _, _, ⟨⟩⟩ | done)
    exact done
  · have numeric : ∀ asked, Event.run asked ∈ [.run takesFirst] ++ [.run silent] →
        asked.Numeric := by
      simp [numericSilent, numeric_takesFirst]
    intro shows
    rcases (run_showsOwn_iff accepted answered numeric).2.mp shows with ⟨type, ended⟩ | never
    · cases outcome.symm.trans ended
    · exact never (.inl ⟨_, p, compiled, rfl⟩)

/-- The run fails, and the task shows the matching of the run before. -/
theorem run_shows_former :
    ∃ task, SelectionTask.ofInput SelectionTask.leastArc = .ok task ∧
      ∃ t s m, afterAll (matching 0 task, twoArcs) [.run takesFirst] = (t, s) ∧
        (t.run s silent).outcome = .error (.backend "no answer") ∧
        (t.run s silent).state.1.last.type? = some .optimal ∧
        (t.run s silent).state.1.last.matching? = some m ∧
        m.selection.enabled.keys = [⟨1⟩] :=
  ⟨_, rfl, _, _, _, rfl, rfl, rfl, rfl, rfl⟩

end Evaluation

end PosedTask

end ArcSelection
