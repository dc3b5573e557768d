import ArcSelection.Proofs.CommandLine.MatchingProgram

/-!
# How a matching command ends

A matching command on a graph that could be loaded ends with a status that tells the outcome of
the solver, or with status one. There is one exception: an integer that no double can hold is no
bad value for the command, and leaves it as a failure that nothing is prepared for.

The solver is any that fails only as solvers do, and whose solutions take a point of the program.
-/

namespace ArcSelection

open Decimal Fallible

/-- The solver fails only as solvers do, and a solution either takes a feasible point of the
program or has no values. -/
structure Solver.Faithful (solver : Solver Arc Arc Value) (p : Problem Arc Arc Value) : Prop where
  fails : ∀ fault, (solver p).result = .error fault → fault.kind = .solver
  solves : ∀ answer, (solver p).result = .ok answer → answer.type.hasSolution = true →
    answer.values = [] ∨ ∃ x : Arc → Rat, p.exact.Feasible x ∧
      ∀ a ∈ p.unknowns.keys, (answer.value a).exact = .finite (x a)

namespace CommandLine

open SelectionTask

/-- The solver is faithful about the program of the command, if there is one. -/
def Settings.AsksFaithful (s : Settings) (g : Graph) (solver : Solver Arc Arc Value) : Prop :=
  ∀ t p, ofInput (s.input g) = .ok t → t.compile g = .ok p → solver.Faithful p

/-- The solver gives one outcome. -/
theorem Settings.Outcome.unique {s : Settings} {g : Graph} {solver : Solver Arc Arc Value}
    {type other : SolutionType} (outcome : s.Outcome g solver type)
    (outcome' : s.Outcome g solver other) : type = other := by
  obtain ⟨t, p, answer, accepted, compiled, answered, rfl⟩ := outcome
  obtain ⟨t', p', answer', accepted', compiled', answered', rfl⟩ := outcome'
  cases accepted.symm.trans accepted'
  cases compiled.symm.trans compiled'
  cases answered.symm.trans answered'
  rfl

/-! ### Reports that can be printed -/

/-- A number that is shown as a double. -/
def IsShown (v : Value) : Prop := ∃ x, v.numericFloat = .ok x

theorem isShown_float (x : Float) : IsShown (.float x) := ⟨x, rfl⟩

/-- A number that is shown has a text. -/
theorem IsShown.numberText {v : Value} (shown : IsShown v) : ∃ text, numberText v = .ok text := by
  obtain ⟨x, read⟩ := shown
  have same : v.toFloat = .ok x := by
    cases v with
    | text word => cases read
    | _ => exact read
  exact ⟨costText x, by rw [CommandLine.numberText, same]; rfl⟩

/-- All the numbers of a report can be shown. -/
structure Report.IsPrintable (r : Report) : Prop where
  objective : ∀ v, r.objective = some v → IsShown v
  costs : ∀ a ∈ r.arcs, IsShown a.cost

theorem isPrintable_without (type : SolutionType) : Report.IsPrintable ⟨type, none, []⟩ :=
  ⟨by simp, by simp⟩

/-- A report that can be printed has a line for its objective. -/
theorem Report.IsPrintable.objectiveLine {r : Report} (printable : r.IsPrintable) :
    ∃ text, r.objectiveLine = .ok text := by
  unfold Report.objectiveLine
  cases objective : r.objective with
  | none => exact ⟨"", rfl⟩
  | some v =>
      obtain ⟨text, number⟩ := (printable.objective v objective).numberText
      exact ⟨_, bind_eq_ok_iff.mpr ⟨text, number, rfl⟩⟩

/-- A report that can be printed is rendered, as text and as JSON. -/
theorem Report.IsPrintable.render {r : Report} (printable : r.IsPrintable) (asJson : Bool) :
    ∃ text, r.render asJson = .ok text := by
  have line : ∀ a ∈ r.arcs, ∃ text, a.line = .ok text ∧ True := by
    intro a member
    obtain ⟨text, number⟩ := (printable.costs a member).numberText
    exact ⟨_, bind_eq_ok_iff.mpr ⟨text, number, rfl⟩, trivial⟩
  obtain ⟨objectiveText, objective⟩ := printable.objectiveLine
  obtain ⟨texts, lines, _⟩ := mapM_ok line
  cases asJson with
  | true => exact ⟨_, rfl⟩
  | false =>
      change ∃ text, r.lines = .ok text
      unfold Report.lines
      cases r.outcome.hasSolution with
      | false => exact ⟨_, rfl⟩
      | true => exact ⟨_, bind_eq_ok_iff.mpr ⟨_, objective, bind_eq_ok_iff.mpr ⟨_, lines, rfl⟩⟩⟩

/-! ### The end of a command -/

/-- A report that can be printed ends a command with its own status. -/
theorem finish_of_ok (s : Settings) {w : Work Report} {r : Report} (ended : w.result = .ok r)
    (printable : r.IsPrintable) : ∃ e, finish s w = .ok e ∧ e.status = r.status := by
  obtain ⟨text, rendered⟩ := printable.render s.json
  have printed : ∃ log, finish s w = .ok ⟨r.status, text, "", log⟩ := by
    rw [finish, ended]
    dsimp only [bind, Except.bind]
    rw [rendered]
    exact ⟨_, rfl⟩
  obtain ⟨log, printed⟩ := printed
  exact ⟨_, printed, rfl⟩

/-- A failure that is told ends a command with status one. -/
theorem finish_of_told (s : Settings) {w : Work Report} {fault : Fault}
    (ended : w.result = .error fault) (told : (failureText? fault).isSome = true) :
    ∃ e, finish s w = .ok e ∧ e.status = 1 := by
  obtain ⟨text, isText⟩ := Option.isSome_iff_exists.mp told
  have ends : ∃ log, finish s w = .ok ⟨1, "", "", log⟩ := by
    rw [finish, ended]
    dsimp only [bind, Except.bind]
    rw [isText]
    exact ⟨_, rfl⟩
  obtain ⟨log, ends⟩ := ends
  exact ⟨_, ends, rfl⟩

/-- Any other failure is left to the caller. -/
theorem finish_of_untold (s : Settings) {w : Work Report} {fault : Fault}
    (ended : w.result = .error fault) (untold : failureText? fault = none) :
    finish s w = .error fault := by
  rw [finish, ended]
  dsimp only [bind, Except.bind]
  rw [untold]

/-- Bad values and failures of solvers are told. -/
theorem isSome_failureText {fault : Fault}
    (isTold : fault.kind.label = "ValueError" ∨ fault.kind = .solver) :
    (failureText? fault).isSome = true := by
  unfold failureText?
  rcases isTold with isValue | isSolver
  · cases kind : fault.kind <;>
      first | rfl | exact absurd (kind ▸ isValue) (by decide)
  · rw [isSolver]
    rfl

/-! ### The selected arcs -/

/-- Arcs whose costs are doubles are listed with doubles. -/
theorem selectedArcs_ok (g : Graph) (names : NodeNames) {cost : Arc → Except Fault Value}
    {arcs : List Arc} (costs : ∀ a ∈ arcs, ∃ x, cost a = .ok (.float x)) :
    ∃ selected, selectedArcs g names cost arcs = .ok selected ∧
      ∀ r ∈ selected, ∃ x, r.cost = .float x := by
  have each : ∀ a ∈ arcs, ∃ r, (do
      return { source := names.name (g.tail a), target := names.name (g.head a)
               directed := !g.isEdge a, cost := <- cost a } : Except Fault SelectedArc) = .ok r ∧
      ∃ x, r.cost = .float x := by
    intro a member
    obtain ⟨x, isCost⟩ := costs a member
    exact ⟨_, bind_eq_ok_iff.mpr ⟨_, isCost, rfl⟩, x, rfl⟩
  obtain ⟨selected, listed, _⟩ := mapM_ok each
  refine ⟨selected, listed, fun r member => ?_⟩
  obtain ⟨a, among, made⟩ := mem_of_mapM_ok listed r member
  obtain ⟨r', made', priced⟩ := each a among
  cases made.symm.trans made'
  exact priced

/-- Costs in doubles have a sum that can be shown. -/
theorem totalCost_ok {arcs : List SelectedArc} (costs : ∀ r ∈ arcs, ∃ x, r.cost = .float x) :
    ∃ v, totalCost arcs = .ok v ∧ IsShown v := by
  have zero : IsShown (.int 0) := ⟨_, rfl⟩
  refine foldlM_ok (fun _ total => IsShown total) zero ?_
  intro done r rest total split shown
  obtain ⟨x, isCost⟩ := costs r (by simp [split])
  obtain ⟨y, read⟩ := shown
  refine ⟨.float (y + x), ?_, isShown_float _⟩
  have sum : total.add (.float x) = total.numericFloat.map fun y => .float (y + x) := by
    cases total <;> rfl
  rw [isCost, sum, read]
  rfl

/-! ### A command on a loaded graph -/

/-- The report on a run of a matching task. -/
def matchingReport (s : Settings) (l : GraphML.Loaded) (r : RunResult (MatchingState Value)) :
    Except Fault Report := do
  let g := l.graph.graph
  let outcome <- r.outcome
  match r.state.matching with
  | none => return { outcome, objective := none, arcs := [] }
  | some m =>
      let arcs <- selectedArcs g l.names (s.cost g) (m.selection.arcs g .all)
      return { outcome, objective := some (<- totalCost arcs), arcs }

section Loaded

variable {reader : GraphML.Reader} {read : String → Except Fault String} {path text : String}
variable {l : GraphML.Loaded}
variable {s : Settings} {solver : Solver Arc Arc Value} {t : SelectionTask Value}
variable {p : Problem Arc Arc Value}

/-- A matching command ends with the report on the run of its task. -/
theorem result_matching (file : read path = .ok text)
    (loaded : GraphML.load reader path text = .ok l) :
    ((Request.matching path s).run solver reader read).result = (do
      let t <- ofInput (s.input l.graph.graph)
      matchingReport s l (t.runMatching l.graph.graph solver .blank)) := by
  have reported : ∀ r : RunResult (MatchingState Value),
      (do
        let outcome <- (⟨r.log, r.outcome⟩ : Work SolutionType)
        match r.state.matching with
        | none => return { outcome, objective := none, arcs := [] }
        | some m =>
            let arcs <- Work.quietly (selectedArcs l.graph.graph l.names (s.cost l.graph.graph)
              (m.selection.arcs l.graph.graph .all))
            return { outcome, objective := some (<- Work.quietly (totalCost arcs)), arcs }
        : Work Report).result = matchingReport s l r := by
    intro r
    refine (Work.result_bind _ _).trans ?_
    rw [matchingReport]
    refine bind_congr fun outcome => ?_
    cases r.state.matching with
    | none => rfl
    | some m =>
        dsimp only
        simp only [Work.result_bind, Work.result_quietly, Work.result_pure]
        rfl
  rw [Request.run, Work.result_bind, Work.result_quietly, file]
  change (findMatching solver reader path text s).result = _
  rw [findMatching, Work.result_bind, Work.result_quietly, loaded]
  change (Work.quietly _ >>= _ : Work Report).result = _
  rw [Work.result_bind, Work.result_quietly, Settings.input_eq]
  exact bind_congr fun t => reported _

/-- A run without a matching is reported by its outcome alone. -/
theorem matchingReport_of_none {r : RunResult (MatchingState Value)} {type : SolutionType}
    (outcome : r.outcome = .ok type) (none : r.state.matching = none) :
    matchingReport s l r = .ok ⟨type, .none, []⟩ := by
  rw [matchingReport, outcome, none]
  rfl

/-- The report on a matching of arcs with costs can be printed. -/
theorem matchingReport_of_some {r : RunResult (MatchingState Value)} {type : SolutionType}
    {m : Matching} (outcome : r.outcome = .ok type) (some : r.state.matching = some m)
    (costs : ∀ a ∈ m.selection.arcs l.graph.graph .all,
      ∃ x, s.cost l.graph.graph a = .ok (.float x)) :
    ∃ report, matchingReport s l r = .ok report ∧ report.IsPrintable ∧ report.outcome = type := by
  obtain ⟨arcs, selected, priced⟩ := selectedArcs_ok l.graph.graph l.names costs
  obtain ⟨total, sum, shown⟩ := totalCost_ok priced
  refine ⟨⟨type, .some total, arcs⟩, ?_, ⟨?_, fun a member => ?_⟩, rfl⟩
  · rw [matchingReport, outcome, some]
    exact bind_eq_ok_iff.mpr ⟨type, rfl,
      bind_eq_ok_iff.mpr ⟨arcs, selected, bind_eq_ok_iff.mpr ⟨total, sum, rfl⟩⟩⟩
  · intro v isTotal
    cases isTotal
    exact shown
  · obtain ⟨x, isCost⟩ := priced a member
    exact isCost ▸ isShown_float x

/-- A solution of a faithful solver is decoded to a matching of the graph. -/
theorem runMatching_of_faithful {g : Graph} (accepted : ofInput (s.input g) = .ok t)
    (lawful : g.Lawful) (compiled : t.compile g = .ok p) (faithful : solver.Faithful p)
    {answer : Solution Arc Value} (answered : (solver p).result = .ok answer)
    (solved : answer.type.hasSolution = true) :
    ∃ m, (t.runMatching g solver .blank).outcome = .ok answer.type ∧
      (t.runMatching g solver .blank).state.matching = some m ∧
      ∀ a ∈ m.selection.arcs g .all, a ∈ g.arcs .all := by
  rcases faithful.solves answer answered solved with bare | ⟨x, feasible, values⟩
  · have zero : ∀ a ∈ g.arcs .all, (answer.value a).exact = .finite 0 := by
      intro a _
      have origin : Value.exact (Arithmetic.origin : Value) = .finite 0 := by decide +kernel
      rw [Solution.value, bare]
      exact origin
    have nothing : Describes.taken g (fun _ => 0) = ∅ := by simp [Describes.taken]
    refine Settings.runMatching_of_isMatching accepted lawful compiled answered solved zero
      (fun _ _ => Or.inl rfl) ?_
    rw [nothing]
    exact ⟨by simp, by simp⟩
  · obtain ⟨unit, fits⟩ := Settings.fits_of_feasible accepted lawful compiled feasible
    rw [keys_of_compile compiled, eraseDups_of_nodup lawful.nodup] at values
    exact Settings.runMatching_of_isMatching accepted lawful compiled answered solved values unit
      fits.matching

/-- If the solver answers, the command ends with a report of the outcome. -/
theorem result_of_outcome (graphs : reader.ReadsGraphs) (file : read path = .ok text)
    (loaded : GraphML.load reader path text = .ok l)
    (faithful : s.AsksFaithful l.graph.graph solver)
    {type : SolutionType} (outcome : s.Outcome l.graph.graph solver type) :
    ∃ report, ((Request.matching path s).run solver reader read).result = .ok report ∧
      report.IsPrintable ∧ report.outcome = type := by
  obtain ⟨t, p, answer, accepted, compiled, answered, rfl⟩ := outcome
  have lawful := GraphML.lawful_of_load graphs loaded
  rw [result_matching file loaded, accepted]
  change ∃ report, matchingReport s l _ = .ok report ∧ _
  cases solved : answer.type.hasSolution with
  | false =>
      have ran : (t.runMatching l.graph.graph solver .blank).outcome = .ok answer.type := by
        simp [runMatching, SelectionTask.run, compiled, answered, solved]
      have unmatched : (t.runMatching l.graph.graph solver .blank).state.matching = none := by
        simp [runMatching, SelectionTask.run, compiled, answered, solved]
      exact ⟨_, matchingReport_of_none ran unmatched, isPrintable_without _, rfl⟩
  | true =>
      obtain ⟨m, ran, matched, within⟩ := runMatching_of_faithful accepted lawful compiled
        (faithful t p accepted compiled) answered solved
      refine matchingReport_of_some ran matched fun a member => ?_
      rcases Settings.compile_cases accepted with oversized | ⟨fault, failed, _⟩ | ⟨_, _, costs⟩
      · cases compiled.symm.trans (Settings.compile_of_meetsOversized accepted oversized)
      · cases compiled.symm.trans failed
      · exact (costs a (within a member)).cost

/-- If the solver gives no answer, the command fails, and the failure is told unless it is met
an integer that is too large. -/
theorem result_of_no_outcome (file : read path = .ok text)
    (loaded : GraphML.load reader path text = .ok l)
    (faithful : s.AsksFaithful l.graph.graph solver)
    (unanswered : ∀ type, ¬ s.Outcome l.graph.graph solver type)
    (notOversized : ¬ s.MeetsOversized l.graph.graph) :
    ∃ fault, ((Request.matching path s).run solver reader read).result = .error fault ∧
      (failureText? fault).isSome = true := by
  rw [result_matching file loaded]
  rcases s.ofInput_input l.graph.graph with ⟨_, t, accepted⟩ | ⟨_, fault, refused, isValue⟩
  · have fails : ∀ fault, (t.runMatching l.graph.graph solver .blank).outcome = .error fault →
        matchingReport s l (t.runMatching l.graph.graph solver .blank) = .error fault := by
      intro fault failed
      rw [matchingReport, failed]
      rfl
    rw [accepted]
    change ∃ fault, matchingReport s l _ = .error fault ∧ _
    rcases Settings.compile_cases accepted with oversized | ⟨fault, failed, isValue⟩ |
      ⟨p, compiled, _⟩
    · exact absurd oversized notOversized
    · refine ⟨fault, fails fault ?_, isSome_failureText (Or.inl isValue)⟩
      simp [runMatching, SelectionTask.run, failed]
    · cases answered : (solver p).result with
      | ok answer =>
          have outcome : s.Outcome l.graph.graph solver answer.type :=
            ⟨t, p, answer, accepted, compiled, answered, rfl⟩
          exact absurd outcome (unanswered answer.type)
      | error fault =>
          refine ⟨fault, fails fault ?_, isSome_failureText (Or.inr
            ((faithful t p accepted compiled).fails fault answered))⟩
          simp [runMatching, SelectionTask.run, compiled, answered]
  · rw [refused]
    exact ⟨fault, rfl, isSome_failureText (Or.inl isValue)⟩

/-- An integer that no double can hold stops the command with a failure that is not told. -/
theorem result_of_meetsOversized (file : read path = .ok text)
    (loaded : GraphML.load reader path text = .ok l) (oversized : s.MeetsOversized l.graph.graph) :
    ((Request.matching path s).run solver reader read).result = .error .tooLarge := by
  rw [result_matching file loaded]
  rcases s.ofInput_input l.graph.graph with ⟨_, t, accepted⟩ | ⟨outside, _⟩
  · have stopped : (t.runMatching l.graph.graph solver .blank).outcome = .error .tooLarge := by
      simp [runMatching, SelectionTask.run, Settings.compile_of_meetsOversized accepted oversized]
    rw [accepted]
    change matchingReport s l _ = _
    rw [matchingReport, stopped]
    rfl
  · exact absurd oversized.inRange outside

/-- A matching command on a loaded graph ends with status zero exactly if the solver finds a
solution, with two exactly if there is none or no best one, and with one exactly if it gets no
outcome. Only an integer that no double can hold, met before any other bad cost, leaves the
command without an end of its own. -/
theorem run_matching_status {texts : List String} (graphs : reader.ReadsGraphs)
    (request : Request.read texts = .ok (.matching path s)) (file : read path = .ok text)
    (loaded : GraphML.load reader path text = .ok l)
    (faithful : s.AsksFaithful l.graph.graph solver) :
    (s.MeetsOversized l.graph.graph → run solver reader read texts = .error .tooLarge) ∧
    (¬ s.MeetsOversized l.graph.graph → ∃ e, run solver reader read texts = .ok e ∧
      (e.status = 0 ↔ s.Outcome l.graph.graph solver .feasible ∨
        s.Outcome l.graph.graph solver .optimal) ∧
      (e.status = 2 ↔ s.Outcome l.graph.graph solver .infeasible ∨
        s.Outcome l.graph.graph solver .unbounded) ∧
      (e.status = 1 ↔ ∀ type, ¬ s.Outcome l.graph.graph solver type)) := by
  have ran : run solver reader read texts =
      finish s ((Request.matching path s).run solver reader read) := by
    rw [run, request]
    rfl
  rw [ran]
  refine ⟨fun oversized => ?_, fun notOversized => ?_⟩
  · exact finish_of_untold s (result_of_meetsOversized file loaded oversized) rfl
  by_cases answered : ∃ type, s.Outcome l.graph.graph solver type
  · obtain ⟨type, outcome⟩ := answered
    obtain ⟨report, ended, printable, rfl⟩ := result_of_outcome graphs file loaded faithful outcome
    obtain ⟨e, finished, status⟩ := finish_of_ok s ended printable
    have only : ∀ other, s.Outcome l.graph.graph solver other ↔ other = report.outcome :=
      fun other => ⟨fun another => another.unique outcome, fun same => same ▸ outcome⟩
    refine ⟨e, finished, ?_⟩
    rw [status, Report.status]
    simp only [only]
    cases report.outcome <;> simp [SolutionType.hasSolution]
  · have unanswered : ∀ type, ¬ s.Outcome l.graph.graph solver type :=
      fun type outcome => answered ⟨type, outcome⟩
    obtain ⟨fault, failed, told⟩ := result_of_no_outcome file loaded faithful unanswered
      notOversized
    obtain ⟨e, finished, status⟩ := finish_of_told s failed told
    exact ⟨e, finished, by simp [status, unanswered]⟩

end Loaded

/-- The characters of a graph file with one edge, which has an integer for its cost. -/
def costedEdge (digits : List Char) : List Char :=
  "<graphml xmlns=\"http://graphml.graphdrawing.org/xmlns\">".toList ++
    "<key id=\"d\" for=\"edge\" attr.name=\"cost\" attr.type=\"long\"/>".toList ++
    "<graph><node id=\"a\"/><node id=\"b\"/>".toList ++
    "<edge source=\"a\" target=\"b\"><data key=\"d\">".toList ++ digits ++
    "</data></edge></graph></graphml>".toList

/-- The path that the word for the file stands for. -/
def costedEdgePath : String := normalPath "g.graphml"

/-- Every file is the one with the edge. -/
def costedEdgeFile (digits : List Char) : String → Except Fault String :=
  fun _ => .ok (String.ofList (costedEdge digits))

theorem costedEdgeFile_path (digits : List Char) :
    costedEdgeFile digits costedEdgePath = .ok (String.ofList (costedEdge digits)) := rfl

/-- The graph that is an edge with a cost between two nodes. -/
def costedPair (n : Int) : StoredGraph :=
  .grown [none, none] [(⟨.nth 0, .nth 1, true⟩, some [(.text "cost", .int n)])]

/-- The pair lists its one edge with its cost. -/
theorem lists_costedPair (n : Int) : (costedPair n).Lists [none, none]
    [(⟨.nth 0, .nth 1, true⟩, some [(.text "cost", .int n)])] := by
  refine StoredGraph.lists_grown fun a member => ?_
  obtain rfl := List.mem_singleton.mp member
  exact ⟨⟨0, by simp⟩, ⟨1, by simp⟩⟩

/-- The graph with names that is the edge with its cost. -/
def costed (parallel : Bool) (key : Value) (n : Int) : NamedGraph :=
  ⟨false, parallel, [(.text "a", []), (.text "b", [])],
    [⟨0, 1, .text "a", .text "b", key, [(.text "cost", .int n)]⟩]⟩

/-- What is read of the file with the edge is loaded as the pair. -/
theorem load_costed {text : String} {parallel : Bool} {key : Value} {n : Int}
    (read : GraphML.readFirst text = .ok (costed parallel key n)) :
    ∃ l, GraphML.load GraphML.readFirst costedEdgePath text = .ok l ∧ l.graph = costedPair n := by
  have wellFormed : (costed parallel key n).WellFormed :=
    GraphML.readsGraphs_readFirst text _ read
  have spelled : (costed parallel key n).Spellable := by
    simp [costed, NamedGraph.Spellable, NamedGraph.names, Value.isWritable]
  have sorted : (costed parallel key n).sortedNodes =
      [((.text "a", []), 0), ((.text "b", []), 1)] := by
    refine List.mergeSort_of_pairwise (List.pairwise_pair.mpr ?_)
    decide +kernel
  have nodes : (costed parallel key n).madeNodes = [none, none] := by
    rw [NamedGraph.madeNodes, sorted]
    rfl
  have arcs : (costed parallel key n).madeArcs =
      [(⟨.nth 0, .nth 1, true⟩, some [(.text "cost", .int n)])] := by
    have listed : (costed parallel key n).edgesInOrder =
        [⟨0, 1, .text "a", .text "b", key, [(.text "cost", .int n)]⟩] := rfl
    simp only [NamedGraph.madeArcs, listed, List.map_cons, List.map_nil, NamedGraph.arcOf,
      NamedGraph.nodeOf, NamedGraph.order, sorted]
    rfl
  refine ⟨_, GraphML.load_eq_ok_iff.mpr ⟨_, [], read, rfl, spelled, rfl⟩, ?_⟩
  exact wellFormed.imported_graph.trans (by rw [nodes, arcs, costedPair])

/-- The file with the edge is loaded if its characters are read as that. -/
theorem load_costedEdge (digits : List Char) (n : Int)
    (read : (match GraphML.readCharacters (costedEdge digits).length
        (Xml.contentOf (costedEdge digits)) with
      | .ok [⟨false, _, [(.text tail, []), (.text head, [])],
          [⟨0, 1, .text source, .text target, _, [(.text name, .int m)]⟩]⟩] =>
        [tail, head, source, target, name] == ["a", "b", "a", "b", "cost"] && m == n
      | _ => false) = true) :
    ∃ l, GraphML.load GraphML.readFirst costedEdgePath (String.ofList (costedEdge digits)) =
        .ok l ∧ l.graph = costedPair n := by
  split at read
  · next characters =>
      simp only [Bool.and_eq_true, beq_iff_eq, List.cons.injEq] at read
      obtain ⟨⟨rfl, rfl, rfl, rfl, rfl, _⟩, rfl⟩ := read
      exact load_costed (GraphML.readFirst_ofList characters)
  · cases read

/-- The solver that takes the first arc of a graph, whatever it is asked. -/
def takingFirst : Solver Arc Arc Value :=
  fun _ => ⟨[], .ok ⟨.optimal, some (.float 7.0), [(.nth 0, .float 1.0)]⟩⟩

/-- The settings of a command that wants at least one arc. -/
def atLeastOne : Settings := { Settings.default with leastSize := 1 }

/-- Taking the arc of the pair is feasible for a matching of at least one arc. -/
theorem asksFaithful_takingFirst (n : Int) :
    atLeastOne.AsksFaithful (costedPair n).graph takingFirst := by
  intro t p accepted compiled
  have lists := lists_costedPair n
  have lawful := lists.consistent.lawful
  have arcs : (costedPair n).graph.arcs .all = [.nth 0] := lists.graph_arcs
  obtain ⟨tail, head, _, _⟩ := lists.graph_record (i := 0) rfl
  have fits : (costedPair n).graph.Fits atLeastOne.sizes.1 atLeastOne.sizes.2 {.nth 0} := by
    refine ⟨by simp [Graph.arcSet, arcs], ⟨?_, by simp +contextual⟩, ?_, ?_⟩
    · intro a member
      rw [Finset.mem_singleton.mp member, tail, head]
      decide
    · decide +kernel
    · decide +kernel
  obtain ⟨within, kept⟩ := (fits_iff lawful.toListsArcs).mp fits
  have feasible := (feasible_indicator_iff_keptBy accepted lawful.nodup compiled within).mpr
    ((keptBy_iff accepted (definedOn_exact_of_compile accepted compiled) _).mp kept)
  refine ⟨fun _ failed => (by cases failed), fun answer answered _ =>
    .inr ⟨_, feasible, fun a member => ?_⟩⟩
  rw [keys_of_compile compiled, arcs] at member
  obtain rfl := List.mem_singleton.mp (List.mem_eraseDups.mp member)
  cases answered
  decide +kernel

/-- A command on an edge with a small cost selects it. -/
theorem run_matching_status_seven :
    GraphML.Reader.ReadsGraphs GraphML.readFirst ∧
    Request.read ["match", "g.graphml", "--min-size", "1"] =
      .ok (.matching costedEdgePath atLeastOne) ∧
    ∃ l e, GraphML.load GraphML.readFirst costedEdgePath (String.ofList (costedEdge ['7'])) =
        .ok l ∧
      atLeastOne.AsksFaithful l.graph.graph takingFirst ∧
      ¬ atLeastOne.MeetsOversized l.graph.graph ∧
      atLeastOne.Outcome l.graph.graph takingFirst .optimal ∧
      run takingFirst GraphML.readFirst (costedEdgeFile ['7'])
        ["match", "g.graphml", "--min-size", "1"] = .ok e ∧
      e.status = 0 := by
  obtain ⟨l, loaded, graph⟩ := load_costedEdge ['7'] 7 (by decide +kernel)
  have request : Request.read ["match", "g.graphml", "--min-size", "1"] =
      .ok (.matching costedEdgePath atLeastOne) := rfl
  have faithful : atLeastOne.AsksFaithful l.graph.graph takingFirst :=
    graph ▸ asksFaithful_takingFirst 7
  have small : ¬ atLeastOne.MeetsOversized l.graph.graph := by
    have lists := lists_costedPair 7
    rw [graph]
    rintro ⟨_, _, before, a, after, n, split, _, found, large⟩
    have arcs : (costedPair 7).graph.arcs .all = [.nth 0] := lists.graph_arcs
    have member : a ∈ (costedPair 7).graph.arcs .all := by simp [split]
    obtain rfl := List.mem_singleton.mp (arcs ▸ member)
    rw [(lists.graph_record (i := 0) rfl).2.2.2] at found
    cases found
    exact absurd large (by decide +kernel)
  have outcome : atLeastOne.Outcome l.graph.graph takingFirst .optimal := by
    rw [graph]
    exact ⟨_, _, _, rfl, rfl, rfl, rfl⟩
  obtain ⟨e, ran, status, _⟩ := (run_matching_status GraphML.readsGraphs_readFirst request
    (costedEdgeFile_path ['7']) loaded faithful).2 small
  exact ⟨GraphML.readsGraphs_readFirst, request, l, e, loaded, faithful, small, outcome, ran,
    status.mpr (.inr outcome)⟩

/-- An edge with a cost of too many digits is loaded, and the command ends without a status. -/
theorem run_matching_overflows :
    Request.read ["match", "g.graphml"] = .ok (.matching costedEdgePath .default) ∧
      (GraphML.load GraphML.readFirst costedEdgePath
        (String.ofList (costedEdge ('1' :: List.replicate 309 '0')))).isOk = true ∧
      run takingFirst GraphML.readFirst (costedEdgeFile ('1' :: List.replicate 309 '0'))
        ["match", "g.graphml"] = .error .tooLarge ∧
      Fault.tooLarge.kind.label = "OverflowError" := by
  obtain ⟨l, loaded, graph⟩ := load_costedEdge ('1' :: List.replicate 309 '0') (10 ^ 309)
    (by decide +kernel)
  have request : Request.read ["match", "g.graphml"] =
      .ok (.matching costedEdgePath .default) := rfl
  have oversized : Settings.default.MeetsOversized l.graph.graph := by
    rw [graph]
    refine Settings.meetsOversized_of_lists (lists_costedPair _) rfl ⟨by decide, nofun⟩ rfl ?_
    decide +kernel
  have stopped : ((Request.matching costedEdgePath .default).run takingFirst GraphML.readFirst
      (costedEdgeFile ('1' :: List.replicate 309 '0'))).result = .error .tooLarge :=
    result_of_meetsOversized (costedEdgeFile_path _) loaded oversized
  refine ⟨request, ?_, ?_, rfl⟩
  · rw [loaded]
    rfl
  · rw [run, request]
    exact finish_of_untold _ stopped rfl

end CommandLine

end ArcSelection
