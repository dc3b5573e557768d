import ArcSelection.Graph.Query
import ArcSelection.Log.Record
import ArcSelection.Program.Problem
import ArcSelection.Selection.Task

/-!
# From a task to an integer program

Every arc becomes a variable between zero and one.  The degree of a node is the sum of the
variables of the arcs at it, a loop counting twice; in-degree and out-degree count
directed arcs only.  A lower bound that is not positive and an upper bound that is
infinite give no row, because the variables are nonnegative.
-/

namespace ArcSelection

/-- The degree expressions by node; a node without arcs has none. -/
abbrev DegreeMap (α : Type) := OrderedMap Node (Expression Arc α)

namespace DegreeMap

variable {α : Type} [Arithmetic α]

/-- The expression of a node, zero if it has none. -/
def of (m : DegreeMap α) (n : Node) : Expression Arc α := (m.get? n).getD .zero

/-- Counts an arc once at a node. -/
def count (m : DegreeMap α) (n : Node) (a : Arc) : Except Fault (DegreeMap α) := do
  return m.insert n (<- (m.of n).addTerm a Arithmetic.unit)

end DegreeMap

/-- What the pass over the arcs collects. -/
structure ArcSums (α : Type) where
  unknowns : OrderedMap Arc (Variable Arc α)
  degree : DegreeMap α
  inDegree : DegreeMap α
  outDegree : DegreeMap α
  total : Expression Arc α
  objective : Expression Arc α

namespace SelectionTask

variable {α : Type} [Arithmetic α]

/-- The variable of an arc. -/
def variableOf (t : SelectionTask α) (a : Arc) : Variable Arc α :=
  ⟨a, if t.relaxed then .real else .integer, Arithmetic.origin, Arithmetic.unit⟩

/-- The weighted cost of an arc, summed over the cost functions. -/
def arcCost (t : SelectionTask α) (a : Arc) : Except Fault α :=
  t.costs.foldlM
    (fun total f => do
      let cost <- f.cost a
      if !Arithmetic.isFinite cost then throw (.costNotFinite a (Arithmetic.toValue cost))
      Arithmetic.add total (<- Arithmetic.mul f.weight cost))
    Arithmetic.origin

/-- Enters one arc into the sums. -/
def enter (t : SelectionTask α) (g : Graph) (s : ArcSums α) (a : Arc) :
    Except Fault (ArcSums α) := do
  let tail := g.tail a
  let head := g.head a
  let degree <- (<- s.degree.count tail a).count head a
  let outDegree <- if g.isEdge a then pure s.outDegree else s.outDegree.count tail a
  let inDegree <- if g.isEdge a then pure s.inDegree else s.inDegree.count head a
  let total <- s.total.addTerm a Arithmetic.unit
  let cost <- t.arcCost a
  let objective <-
    if Arithmetic.isZero cost then pure s.objective else s.objective.addTerm a cost
  return {
    unknowns :=
      if s.unknowns.contains a then s.unknowns else s.unknowns.insert a (t.variableOf a)
    degree, inDegree, outDegree, total, objective }

/-- The sums over all arcs of a graph. -/
def sums (t : SelectionTask α) (g : Graph) : Except Fault (ArcSums α) :=
  (g.arcs .all).foldlM (t.enter g) ⟨.empty, .empty, .empty, .empty, .zero, .zero⟩

/-- The row of a lower bound; none if the bound is not positive. -/
def lowerRow (e : Expression Arc α) (n : Node) :
    Option (Node -> Except Fault α) -> Except Fault (List (Constraint Arc α))
  | none => .ok []
  | some bound => do
      let b <- bound n
      if Arithmetic.isNaN b then throw (.nodeBoundIsNaN "Lower" n)
      if <- Arithmetic.less Arithmetic.origin b then return [⟨e, .atLeast, b⟩]
      else return []

/-- The row of an upper bound; none if the bound is infinite. -/
def upperRow (e : Expression Arc α) (n : Node) :
    Option (Node -> Except Fault α) -> Except Fault (List (Constraint Arc α))
  | none => .ok []
  | some bound => do
      let b <- bound n
      if Arithmetic.isNaN b then throw (.nodeBoundIsNaN "Upper" n)
      if <- Arithmetic.less b Arithmetic.top then return [⟨e, .atMost, b⟩]
      else return []

/-- The rows of one kind of degree, node by node, the lower bound of a node first. -/
def degreeRows (g : Graph) (m : DegreeMap α) (b : DegreeBounds α) :
    Except Fault (List (Constraint Arc α)) :=
  if b.lower.isNone && b.upper.isNone then .ok []
  else do
    let rows <- g.nodes.mapM fun n => do
      return (<- lowerRow (m.of n) n b.lower) ++ (<- upperRow (m.of n) n b.upper)
    return rows.flatten

/-- The rows of the arc counts. -/
def countRows (t : SelectionTask α) (total : Expression Arc α) : List (Constraint Arc α) :=
  (if t.minimum = 0 then [] else [⟨total, .atLeast, Arithmetic.ofCount t.minimum⟩]) ++
    (match t.maximum with
      | none => []
      | some m => [⟨total, .atMost, Arithmetic.ofCount m⟩])

/-- The integer program of a task on a graph. -/
def compile (t : SelectionTask α) (g : Graph) : Except Fault (Problem Arc Arc α) := do
  let s <- t.sums g
  let degree <- degreeRows g s.degree t.degree
  let inDegree <- degreeRows g s.inDegree t.inDegree
  let outDegree <- degreeRows g s.outDegree t.outDegree
  return {
    unknowns := s.unknowns
    constraints := degree ++ inDegree ++ outDegree ++ t.countRows s.total
    objective := s.objective
    sense := .minimize }

/-- The report on a compiled problem. -/
def compiledReport (p : Problem Arc Arc α) : LogRecord :=
  ⟨.debug, .compiler,
    "Compiled optimal subgraph problem: " ++ toString p.unknowns.size ++ " variables, " ++
      toString p.constraints.length ++ " constraints"⟩

end SelectionTask

end ArcSelection
