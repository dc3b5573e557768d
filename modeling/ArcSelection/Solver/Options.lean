import ArcSelection.Arithmetic

/-!
# Solver options

The options handed to the solver backend: limits on time, gap and nodes, and two
switches.  An option that is absent puts no limit.
-/

namespace ArcSelection

/-- The options of the solver backend, as they were given. -/
structure SolverOptions where
  timeLimit : Value
  gap : Value
  nodeLimit : Value
  presolve : Bool
  display : Bool

namespace SolverOptions

/-- No limits, presolve on, no progress shown. -/
def default : SolverOptions := ⟨.null, .null, .null, true, false⟩

/-- The names of the options, in the order they are listed. -/
def names : List String := ["time_limit", "mip_rel_gap", "node_limit", "presolve", "disp"]

/-- A limit must be absent or a nonnegative number that a float can hold; infinity is one. -/
def checkLimit (name : String) (v : Value) : Except Fault Unit :=
  if v matches .null then .ok ()
  else if v.isNumber then
    match v.numericFloat with
    | .ok x => if x >= 0.0 then .ok () else .error (.badLimit name v)
    | .error _ => .error (.badLimit name v)
  else .error (.badLimit name v)

/-- A node limit must be absent or an integer that 32 bits can hold. -/
def checkNodeLimit (v : Value) : Except Fault Unit :=
  match v with
  | .null => .ok ()
  | .int n => if 0 ≤ n && n ≤ (Fault.maxNodeLimit : Int) then .ok () else .error (.badNodeLimit v)
  | _ => .error (.badNodeLimit v)

/-- A switch must be a boolean. -/
def readSwitch (name : String) : Value -> Except Fault Bool
  | .bool b => .ok b
  | v => .error (.notSwitch name v)

/-- The value of an option in a map, or a default. -/
def lookup (data : List (Value × Value)) (name : String) (absent : Value) : Value :=
  match data.find? fun e => e.1 == .text name with
  | some e => e.2
  | none => absent

/-- Whether a key is the name of an option. -/
def isName : Value -> Bool
  | .text s => names.contains s
  | _ => false

/-- Reads options from a map; unknown keys are refused before bad values. -/
def ofMap (data : List (Value × Value)) : Except Fault SolverOptions := do
  let unknown := (data.map (·.1)).filter fun k => !isName k
  if !unknown.isEmpty then
    throw (.unknownOptions ((unknown.map Value.plainText).mergeSort (· ≤ ·)))
  let timeLimit := lookup data "time_limit" .null
  let gap := lookup data "mip_rel_gap" .null
  let nodeLimit := lookup data "node_limit" .null
  checkLimit "time_limit" timeLimit
  checkLimit "mip_rel_gap" gap
  checkNodeLimit nodeLimit
  let presolve <- readSwitch "presolve" (lookup data "presolve" (.bool true))
  let display <- readSwitch "disp" (lookup data "disp" (.bool false))
  return ⟨timeLimit, gap, nodeLimit, presolve, display⟩

/-- A limit as the backend gets it, if there is one. -/
def limitEntry (name : String) (v : Value) : List (Value × Value) :=
  match v with
  | .null => []
  | v =>
      match v.numericFloat with
      | .ok x => [(.text name, .float x)]
      | .error _ => []

/-- The options as the backend gets them: the switches, then the limits that are set. -/
def toMap (o : SolverOptions) : List (Value × Value) :=
  [(.text "presolve", .bool o.presolve), (.text "disp", .bool o.display)] ++
    limitEntry "time_limit" o.timeLimit ++ limitEntry "mip_rel_gap" o.gap ++
    (match o.nodeLimit with
      | .null => []
      | v => [(.text "node_limit", v)])

/-- The options in the order they are listed. -/
def fields (o : SolverOptions) : List Value :=
  [o.timeLimit, o.gap, o.nodeLimit, .bool o.presolve, .bool o.display]

end SolverOptions

end ArcSelection
