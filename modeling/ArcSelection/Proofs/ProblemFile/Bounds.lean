import ArcSelection.Proofs.Decimal.IntegerValue
import ArcSelection.Proofs.ProblemFile.Described
import ArcSelection.Proofs.Selection.CompiledRows
import ArcSelection.Proofs.Selection.Subset

/-!
# What the bounds of a problem file mean

The number that a document gives for a degree is found by the name of the node, and the reader
keeps it by the node itself (`ProblemFile.readDegree_numbers`).  From there it reaches the
rows of the compiled program as a double, which compares with every degree below `2 ^ 53` as
the number of the document does.  So a set of arcs satisfies the compiled program exactly if
it obeys the numbers of the document.
-/

namespace ArcSelection

open Decimal Fallible

/-- A degree obeys a bound on the side of a key. -/
def DegreeKey.Admits (k : DegreeKey) (bound : Extended) (d : Nat) : Prop :=
  if k.isLower then bound ≤ .finite d else .finite d ≤ bound

/-- Where there is no bound, every degree keeps it. -/
theorem DegreeKey.keeps_none (k : DegreeKey) (n : Node) (d : Rat) : k.Keeps none n d := by
  rw [Keeps]
  split
  · intro _ found
    cases found
  · intro _ found
    cases found

/-- A degree keeps a bound exactly if it is on the right side of the answer. -/
theorem DegreeKey.keeps_some_iff {k : DegreeKey} {f : Node → Except Fault Extended} {n : Node}
    {bound : Extended} (answer : f n = .ok bound) {d : Nat} :
    k.Keeps (some f) n d ↔ k.Admits bound d := by
  rw [Keeps, Admits]
  split
  · simp [DegreeBounds.LowerAdmits, answer]
  · simp [DegreeBounds.UpperAdmits, answer]

/-- The bound that is no bound is obeyed by every degree. -/
theorem DegreeKey.admits_infinity (k : DegreeKey) (d : Nat) :
    k.Admits (.ofFloat (infinity k.isLower)) d := by
  have bottom : Extended.ofFloat (infinity true) = .bottom := by decide +kernel
  have top : Extended.ofFloat (infinity false) = .top := by decide +kernel
  rw [Admits]
  split
  · rename_i lower
    rw [lower, bottom]
    exact Extended.bottom_le_finite
  · rename_i upper
    rw [Bool.eq_false_of_not_eq_true upper, top]
    exact Extended.finite_le_top

/-- The value of the double that a number is read as. -/
def Value.rounded (v : Value) : Extended :=
  match v.numericFloat with
  | .ok x => .ofFloat x
  | .error _ => .nan

/-- The double of a number is the one it is read as. -/
theorem Value.rounded_of_numericFloat {v : Value} {x : Float} (reads : v.numericFloat = .ok x) :
    v.rounded = .ofFloat x := by
  rw [rounded, reads]

/-- A degree below `2 ^ 53` obeys the double of a number exactly if it obeys the number. -/
theorem DegreeKey.admits_ofFloat_iff (k : DegreeKey) {v : Value} {x : Float}
    (reads : v.numericFloat = .ok x) {d : Nat} (small : d < 2 ^ 53) :
    k.Admits (.ofFloat x) d ↔ k.Admits v.exact d := by
  cases v with
  | bool b =>
      have same : Extended.ofFloat x = (Value.bool b).exact := by
        cases reads
        cases b <;> decide +kernel
      rw [same]
  | int n =>
      obtain ⟨q, value, below, above⟩ :=
        compare_ofFloat_ofInt? (ProblemFile.ofInt?_of_floatOfInt reads) small
      have number : (Value.int n).exact = .finite n := rfl
      rw [Admits, Admits, value, number]
      split
      · rw [Extended.finite_le_finite, Extended.finite_le_finite, below]
      · rw [Extended.finite_le_finite, Extended.finite_le_finite, above]
  | float y =>
      cases reads
      exact Iff.rfl
  | _ => cases reads

namespace ProblemFile

/-- A value that is not null. -/
def nonNull (v? : Option Value) : Option Value := v?.filter fun v => !(v matches .null)

/-- The value of a key; null counts as missing. -/
def given (data : Properties) (key : String) : Option Value := nonNull (Properties.value? data key)

/-- The value of the entry whose key stands for a name. -/
def entryFor (entries : Properties) (name : String) : Option Value :=
  (entries.find? fun e => e.1.plainText == name).map (·.2)

/-- The number that a bound gives for a name. A mapping gives that of the entry for the name,
and else its default; the key of the default is no name. -/
def numberFor (bound : Value) (name : String) : Option Value :=
  match bound with
  | .map entries =>
      (if name = defaultKey then none else entryFor entries name).or
        (nonNull (entryFor entries defaultKey))
  | v => some v

/-- The number that a document gives for the degree of the node with a name. -/
def degreeNumber (document : Value) (k : DegreeKey) (name : String) : Option Value :=
  (given (constraintFields document) k.word).bind fun v => numberFor v name

/-- A set of arcs obeys the bounds of a document. The numbers for degrees are read by `number`. -/
structure Obeys (document : Value) (p : ProblemFile) (number : Value → Extended)
    (S : Finset Arc) : Prop where
  degree : ∀ k, ∀ n ∈ p.graph.graph.nodes, ∀ name, p.names.names.get? n = some (.text name) →
    ∀ v, degreeNumber document k name = some v →
      k.Admits (number v) (p.graph.graph.degreeIn S k.kind n)
  minimum : ∀ v, given (constraintFields document) "min_arc_count" = some v →
    v.exact ≤ .finite S.card
  maximum : ∀ v, given (constraintFields document) "max_arc_count" = some v →
    .finite S.card ≤ v.exact

/-! ### What is read -/

/-- A key is looked up in the group of its own entries. -/
private theorem lookup_flatten {κ β ε : Type} [BEq κ] [LawfulBEq κ]
    {f : κ → Except ε (List (κ × β))} (Group : κ → List (κ × β) → Prop)
    (own : ∀ k group, Group k group → ∀ e ∈ group, e.1 = k)
    (made : ∀ k group, f k = .ok group → Group k group) {keys : List κ} (nodup : keys.Nodup)
    {groups : List (List (κ × β))} (mapped : keys.mapM f = .ok groups) {k : κ} (member : k ∈ keys) :
    ∃ group, Group k group ∧ groups.flatten.lookup k = group.lookup k := by
  have apart : ∀ (k : κ) (entries : List (κ × β)), (∀ e ∈ entries, e.1 ≠ k) →
      entries.lookup k = none := by
    intro k entries other
    rw [List.lookup_eq_none_iff]
    exact fun e inside => bne_iff_ne.mpr (other e inside).symm
  induction keys generalizing groups with
  | nil => cases member
  | cons head rest ih =>
      obtain ⟨new, nodupRest⟩ := List.nodup_cons.mp nodup
      rw [List.mapM_cons] at mapped
      obtain ⟨group, groupEq, mapped⟩ := bind_eq_ok_iff.mp mapped
      obtain ⟨others, othersEq, isCons⟩ := bind_eq_ok_iff.mp mapped
      cases isCons
      rw [List.flatten_cons, List.lookup_append]
      rcases List.mem_cons.mp member with rfl | later
      · refine ⟨group, made k group groupEq, ?_⟩
        rw [apart k others.flatten, Option.or_none]
        rintro e listed rfl
        obtain ⟨other, isOther, inside⟩ := List.mem_flatten.mp listed
        obtain ⟨k', isKey, otherEq⟩ := mem_of_mapM_ok othersEq other isOther
        exact new (own k' other (made k' other otherEq) e inside ▸ isKey)
      · obtain ⟨found, isGroup, looked⟩ := ih nodupRest othersEq later
        refine ⟨found, isGroup, ?_⟩
        rw [apart k group, Option.none_or, looked]
        rintro e inside rfl
        exact new (own head group (made head group groupEq) e inside ▸ later)

/-- What is read for a key: nothing, or the bound that is given. -/
def GroupRead (names : NodeNames) (constraints : Properties) (k : DegreeKey)
    (group : List (DegreeKey × DegreeEntry)) : Prop :=
  given constraints k.word = none ∧ group = [] ∨
    ∃ v e, given constraints k.word = some v ∧ readDegree names k v = .ok e ∧ group = [(k, e)]

/-- The bounds on a degree are those of its group. -/
theorem groupRead_of_readDegrees {names : NodeNames} {constraints : Properties}
    {bounds : List (DegreeKey × DegreeEntry)}
    (read : readDegrees names constraints = .ok bounds) (k : DegreeKey) :
    ∃ group, GroupRead names constraints k group ∧ bounds.lookup k = group.lookup k := by
  obtain ⟨groups, mapped, made⟩ := bind_eq_ok_iff.mp read
  cases made
  refine lookup_flatten (GroupRead names constraints) (fun k group isGroup e inside => ?_)
    (fun k group computed => ?_) (by decide : DegreeKey.all.Nodup) mapped (by cases k <;> decide)
  · rcases isGroup with ⟨-, rfl⟩ | ⟨_, _, -, -, rfl⟩
    · cases inside
    · rw [List.mem_singleton.mp inside]
  · rw [GroupRead, given]
    split at computed
    · rename_i missing
      cases computed
      exact .inl ⟨by rw [missing]; rfl, rfl⟩
    · rename_i isNull
      cases computed
      exact .inl ⟨by rw [isNull]; rfl, rfl⟩
    · rename_i v notNull found
      obtain ⟨e, reads, isSingle⟩ := bind_eq_ok_iff.mp computed
      cases isSingle
      refine .inr ⟨v, e, ?_, reads, rfl⟩
      rw [found, nonNull, Option.filter_some, if_pos]
      cases v with
      | null => exact absurd rfl notNull
      | _ => rfl

/-- A bound that is given is read, and no other. -/
theorem lookup_of_readDegrees {names : NodeNames} {constraints : Properties}
    {bounds : List (DegreeKey × DegreeEntry)}
    (read : readDegrees names constraints = .ok bounds) (k : DegreeKey) :
    (given constraints k.word = none → bounds.lookup k = none) ∧
      ∀ v, given constraints k.word = some v →
        ∃ e, readDegree names k v = .ok e ∧ bounds.lookup k = some e := by
  obtain ⟨group, isGroup, looked⟩ := groupRead_of_readDegrees read k
  rw [looked]
  rcases isGroup with ⟨missing, rfl⟩ | ⟨v, e, found, reads, rfl⟩
  · refine ⟨fun _ => rfl, fun v found => ?_⟩
    cases missing.symm.trans found
  · refine ⟨fun missing => ?_, fun v' found' => ?_⟩
    · cases missing.symm.trans found
    · cases found.symm.trans found'
      exact ⟨e, reads, List.lookup_cons_self⟩

/-- A count is missing, infinite, or the number that is given. -/
theorem readCount_cases {constraints : Properties} {key : String} {absent count : Option Nat}
    (read : readCount constraints key absent = .ok count) :
    given constraints key = none ∧ count = absent ∨
      ∃ v, given constraints key = some v ∧
        (v.exact = .top ∧ count = none ∨ ∃ m : Nat, v.exact = .finite m ∧ count = some m) := by
  rw [readCount] at read
  rw [given]
  split at read
  · rename_i missing
    cases read
    exact .inl ⟨by rw [missing]; rfl, rfl⟩
  · rename_i isNull
    cases read
    exact .inl ⟨by rw [isNull]; rfl, rfl⟩
  · rename_i v notNull found
    rw [found]
    split at read
    · rename_i isTop
      cases read
      have number : v.number? = some .top := eq_of_beq isTop
      refine .inr ⟨v, ?_, .inl ⟨by rw [Value.exact, number]; rfl, rfl⟩⟩
      cases v with
      | null => cases number
      | _ => rfl
    · split at read
      · split at read
        · rename_i m _ inRange
          cases read
          simp only [Bool.and_eq_true, decide_eq_true_eq] at inRange
          refine .inr ⟨.int m, rfl, .inr ⟨m.toNat, ?_, rfl⟩⟩
          rw [Value.exact, ← Int.cast_natCast, Int.toNat_of_nonneg inRange.1]
          rfl
        · cases read
      · cases read

/-! ### The bound of a node -/

/-- The number for a node is the double of what is given for its name, or no bound at all. -/
def Numbers (k : DegreeKey) (v? : Option Value) (x : Float) : Prop :=
  match v? with
  | some v => v.numericFloat = .ok x
  | none => x = infinity k.isLower

/-- No node has two names. -/
def TellsNames (names : NodeNames) : Prop :=
  ∀ name name' n, names.nodes.get? (.text name) = some n →
    names.nodes.get? (.text name') = some n → name = name'

/-- The names of a file are texts that tell its nodes apart. -/
theorem Describes.tellsNames {document : Value} {p : ProblemFile}
    (describes : Describes document p) : TellsNames p.names := by
  intro name name' n first second
  cases ((describes.inverse _ _).mp first).symm.trans ((describes.inverse _ _).mp second)
  rfl

/-- Bounds by node are those of some entries by name. -/
def BoundsOf (names : NodeNames) (entries : List (String × Value)) (m : OrderedMap Node Float) :
    Prop :=
  ∀ name n, names.nodes.get? (.text name) = some n →
    ((∀ v, (name, v) ∉ entries) → m.get? n = none) ∧
      ∀ v, (name, v) ∈ entries → ∃ x, m.get? n = some x ∧ v.numericFloat = .ok x

/-- A name that is new gets its bound, and no other name gets another. -/
theorem BoundsOf.readNamedBound {names : NodeNames} (tells : TellsNames names)
    {entries : List (String × Value)} {m next : OrderedMap Node Float}
    (holds : BoundsOf names entries m) {e : String × Value} (new : ∀ v, (e.1, v) ∉ entries)
    {key : String} (read : readNamedBound names key m e = .ok next) :
    BoundsOf names (entries ++ [e]) next := by
  obtain ⟨name, v⟩ := e
  rw [ProblemFile.readNamedBound] at read
  split at read
  · cases read
  rename_i n isNode
  split at read
  · cases read
  rename_i isNumber
  obtain ⟨x, isBounded, made⟩ := bind_eq_ok_iff.mp read
  cases made
  have judged := bounded_judges (by simpa using isNumber) (key ++ "." ++ name)
  rw [isBounded] at judged
  have reads : v.numericFloat = .ok x := judged.2
  intro name' n' isNode'
  simp only [List.mem_append, List.mem_singleton, Prod.mk.injEq, not_or]
  by_cases same : n = n'
  · subst same
    obtain rfl := tells name' name n isNode' isNode
    refine ⟨fun absent => absurd ⟨rfl, rfl⟩ (absent v).2, fun w listed => ?_⟩
    rcases listed with early | ⟨-, rfl⟩
    · exact absurd early (new w)
    · exact ⟨x, OrderedMap.get?_insert_self _ _ _, reads⟩
  · have other : name' ≠ name := fun equal => by
      subst equal
      exact same (Option.some.inj (isNode.symm.trans isNode'))
    rw [OrderedMap.get?_insert_of_ne _ same]
    refine ⟨fun absent => (holds name' n' isNode').1 fun w => (absent w).1, fun w listed => ?_⟩
    rcases listed with early | ⟨equal, -⟩
    · exact (holds name' n' isNode').2 w early
    · exact absurd equal other

/-- Bounds by name become bounds by node. -/
theorem boundsOf_of_foldlM {names : NodeNames} (tells : TellsNames names)
    {byName : OrderedMap String Value} {key : String} {bounds : OrderedMap Node Float}
    (folded : byName.entries.foldlM (ProblemFile.readNamedBound names key) .empty = .ok bounds) :
    BoundsOf names byName.entries bounds := by
  refine invariant_of_foldlM_ok_at (BoundsOf names) ?_ ?_ folded
  · intro done e rest m next split holds stepped
    refine holds.readNamedBound tells (fun v early => ?_) stepped
    have apart := byName.distinct
    rw [split, List.pairwise_append] at apart
    simpa using apart.2.2 (e.1, v) early e List.mem_cons_self
  · exact fun name n _ => ⟨fun _ => rfl, fun v listed => nomatch listed⟩

/-- A number is no null. -/
theorem nonNull_of_isNumber {v : Value} (isNumber : v.isNumber = true) :
    nonNull (some v) = some v := by
  cases v with
  | int n => rfl
  | float x => rfl
  | _ => cases isNumber

/-- A mapping is read with its default, if it has one that is not null. -/
theorem default_of_readDegree {names : NodeNames} {k : DegreeKey} {entries : Properties}
    {e : DegreeEntry} (read : readDegree names k (.map entries) = .ok e) :
    ∃ (byName : OrderedMap String Value) (others : Value),
      Properties.normalize entries = .ok byName ∧ others.isNumber = true ∧
      (∀ x, others.numericFloat = .ok x → Numbers k (nonNull (byName.get? defaultKey)) x) ∧
      (do
        let bounds ← (byName.erase defaultKey).entries.foldlM (readNamedBound names k.word) .empty
        return DegreeEntry.perNode bounds (← bounded others (k.word ++ "." ++ defaultKey))) =
        .ok e := by
  have vacuous : ∀ x, k.vacuous.numericFloat = .ok x → Numbers k none x := by
    rintro x ⟨⟩
    rfl
  obtain ⟨byName, normal, read⟩ := bind_eq_ok_iff.mp read
  dsimp only at read
  split at read
  · rename_i missing
    exact ⟨byName, k.vacuous, normal, rfl, by rw [missing]; exact vacuous, read⟩
  · rename_i isNull
    exact ⟨byName, k.vacuous, normal, rfl, by rw [isNull]; exact vacuous, read⟩
  · rename_i d _ found
    split at read
    · rename_i isNumber
      refine ⟨byName, d, normal, isNumber, fun x reads => ?_, read⟩
      rw [found, nonNull_of_isNumber isNumber]
      exact reads
    · cases read

/-- A mapping is read as the bounds of its names and its default. -/
theorem perNode_of_readDegree {names : NodeNames} {k : DegreeKey} {entries : Properties}
    {e : DegreeEntry} (read : readDegree names k (.map entries) = .ok e) :
    ∃ (byName : OrderedMap String Value) (bounds : OrderedMap Node Float) (others : Float),
      (∀ name, entryFor entries name = byName.get? name) ∧
      (byName.erase defaultKey).entries.foldlM (readNamedBound names k.word) .empty = .ok bounds ∧
      Numbers k (nonNull (byName.get? defaultKey)) others ∧ e = .perNode bounds others := by
  obtain ⟨byName, others, normal, isNumber, isDefault, read⟩ := default_of_readDegree read
  obtain ⟨bounds, folded, read⟩ := bind_eq_ok_iff.mp read
  obtain ⟨x, isBounded, made⟩ := bind_eq_ok_iff.mp read
  cases made
  have named := normalize_judges entries
  rw [normal] at named
  have judged := bounded_judges isNumber (k.word ++ "." ++ defaultKey)
  rw [isBounded] at judged
  refine ⟨byName, bounds, x, fun name => ?_, folded, isDefault x judged.2, rfl⟩
  rw [OrderedMap.get?, named.2, List.find?_map, Option.map_map]
  rfl

/-- Every node gets the number that the bound gives for its name. -/
theorem readDegree_numbers {names : NodeNames} (tells : TellsNames names) {k : DegreeKey}
    {v : Value} {e : DegreeEntry} (read : readDegree names k v = .ok e)
    {name : String} {n : Node} (isNode : names.nodes.get? (.text name) = some n) :
    Numbers k (numberFor v name) (e.boundAt n) := by
  cases v with
  | map entries =>
      obtain ⟨byName, bounds, others, named, folded, isDefault, rfl⟩ := perNode_of_readDegree read
      obtain ⟨absent, present⟩ := boundsOf_of_foldlM tells folded name n isNode
      simp only [OrderedMap.mem_entries_iff] at absent present
      have own : (if name = defaultKey then none else entryFor entries name) =
          (byName.erase defaultKey).get? name := by
        rw [OrderedMap.get?_erase, named]
        simp only [beq_iff_eq, eq_comm (a := name)]
      rw [numberFor, own, named, DegreeEntry.boundAt]
      cases found : (byName.erase defaultKey).get? name with
      | none =>
          rw [absent (by simp [found])]
          exact isDefault
      | some v =>
          obtain ⟨x, isBound, reads⟩ := present v found
          rw [isBound]
          exact reads
  | int m =>
      obtain ⟨x, isBounded, rfl⟩ := map_eq_ok_iff.mp read
      have judged := bounded_judges (v := .int m) rfl k.word
      rw [isBounded] at judged
      exact judged.2
  | float y =>
      cases read
      rfl
  | _ => cases read

/-! ### The bounds of the task -/

/-- A bound of a file is read as a function that answers with its doubles. -/
theorem answers_of_readBound {e : DegreeEntry} {word side : String}
    {bound : Option (Node → Except Fault Value)}
    (read : SelectionTask.readBound word side e.toBound = .ok bound) :
    ∃ f, bound = some f ∧ ∀ n v, f n = .ok v → v = .float (e.boundAt n) := by
  have double : ∀ {f : Node → Except Fault Value} {n x v}, f n = .ok (.float x) →
      SelectionTask.askBound side f n = .ok v → v = .float x := by
    intro f n x v own answer
    obtain ⟨_, _, _, found, reads, rfl⟩ := SelectionTask.askNumber_eq_ok_iff.mp answer
    cases own.symm.trans found
    exact congrArg Value.float (Except.ok.inj reads).symm
  cases e with
  | constant x =>
      change (if Arithmetic.isNaN (Value.float x) then _ else _) = _ at read
      split at read
      · cases read
      · cases read
        exact ⟨_, rfl, fun n v => double rfl⟩
  | perNode bounds others =>
      cases read
      exact ⟨_, rfl, fun n v => double rfl⟩

/-- A number of arcs is read as it is. -/
theorem eq_of_readFiniteCount {m count : Nat} {name : String}
    (read : SelectionTask.readFiniteCount (countValue (some m)) name = .ok count) : count = m := by
  rw [countValue, SelectionTask.readFiniteCount] at read
  split at read
  · cases read
  · split at read
    · cases read
    · exact (Except.ok.inj read).symm.trans (Int.toNat_natCast m)

/-- Every node of the graph has a name. -/
theorem name_of_mem_nodes {document : Value} {p : ProblemFile}
    (read : ofDocument document = .ok p) {n : Node} (listed : n ∈ p.graph.graph.nodes) :
    ∃ name, p.names.names.get? n = some (.text name) := by
  have describes := describes_of_ofDocument read
  rw [describes.nodes] at listed
  obtain ⟨i, inside, rfl⟩ := List.mem_map.mp listed
  obtain ⟨name, known⟩ : ∃ name, (nodeNames document)[i]? = some name :=
    ⟨_, List.getElem?_eq_getElem (List.mem_range.mp inside)⟩
  refine ⟨name, describes.names.get?_back.mpr ⟨i, ?_, rfl⟩⟩
  rw [List.getElem?_map, known, Option.map_some]

section Built

variable {document : Value} {p : ProblemFile} {task : SelectionTask Value}
  (read : ofDocument document = .ok p) (built : p.toTask = .ok task)

include read built

/-- The task has a bound for a key exactly if one is given, and it answers with the doubles
that were read. -/
theorem bound_of_toTask (k : DegreeKey) :
    (given (constraintFields document) k.word = none → (task.bounds k.kind).onSide k = none) ∧
    ∀ v, given (constraintFields document) k.word = some v →
      ∃ e f, readDegree p.names k v = .ok e ∧ (task.bounds k.kind).onSide k = some f ∧
        ∀ n v, f n = .ok v → v = .float (e.boundAt n) := by
  have reads := SelectionTask.bound_of_ofInput built k
  have isBound : p.toTaskInput.bound k = p.bound k := by cases k <;> rfl
  obtain ⟨missing, present⟩ := lookup_of_readDegrees (readFrom_of_ofDocument read).bounds k
  rw [isBound, bound] at reads
  constructor
  · intro absent
    rw [missing absent] at reads
    exact (Except.ok.inj reads).symm
  · intro v found
    obtain ⟨e, readsEntry, isEntry⟩ := present v found
    rw [isEntry] at reads
    obtain ⟨f, isFunction, answers⟩ := answers_of_readBound reads
    exact ⟨e, f, readsEntry, isFunction, answers⟩

/-- The bound of a node is the double of the number for its name, if there is one. -/
theorem keeps_of_toTask {program : Problem Arc Arc Value}
    (compiled : task.compile p.graph.graph = .ok program) (k : DegreeKey) {n : Node}
    (listed : n ∈ p.graph.graph.nodes) {name : String}
    (isName : p.names.names.get? n = some (.text name)) :
    (degreeNumber document k name = none →
      ∀ d : Nat, k.Keeps ((task.exact.bounds k.kind).onSide k) n d) ∧
    ∀ v, degreeNumber document k name = some v → ∃ x, v.numericFloat = .ok x ∧
      ∀ d : Nat, k.Keeps ((task.exact.bounds k.kind).onSide k) n d ↔ k.Admits (.ofFloat x) d := by
  obtain ⟨missing, present⟩ := bound_of_toTask read built k
  have answered := fun f isBound => SelectionTask.number_of_compile (f := f) compiled k isBound listed
  rw [SelectionTask.bounds_exact, DegreeBounds.onSide_exact, degreeNumber]
  cases found : given (constraintFields document) k.word with
  | none =>
      rw [missing found]
      exact ⟨fun _ d => k.keeps_none n d, nofun⟩
  | some bound =>
      obtain ⟨e, f, readsEntry, isFunction, answers⟩ := present bound found
      have describes := describes_of_ofDocument read
      have numbers := readDegree_numbers describes.tellsNames readsEntry
        ((describes.inverse _ _).mpr isName)
      obtain ⟨v, answer, _⟩ := answered f isFunction
      cases answers n v answer
      have keeps : ∀ d : Nat, k.Keeps (some (exactly f)) n d ↔
          k.Admits (.ofFloat (e.boundAt n)) d :=
        fun d => DegreeKey.keeps_some_iff (exactly_of_ok answer)
      rw [isFunction, Option.map_some, Option.bind_some]
      refine ⟨fun unbounded d => ?_, fun v bounded => ?_⟩
      · rw [unbounded] at numbers
        rw [keeps, show e.boundAt n = _ from numbers]
        exact k.admits_infinity d
      · rw [bounded] at numbers
        exact ⟨_, numbers, keeps⟩

omit read in
/-- The range of sizes is that of the file, whose least size is finite. -/
theorem range_of_toTask : p.minimum = some task.minimum ∧ p.maximum = task.maximum := by
  obtain ⟨least, most⟩ := SelectionTask.range_of_ofInput built
  change SelectionTask.readFiniteCount (countValue p.minimum) _ = _ at least
  change SelectionTask.readCount (countValue p.maximum) _ = _ at most
  constructor
  · cases isMinimum : p.minimum with
    | none =>
        rw [isMinimum] at least
        cases least
    | some m =>
        rw [isMinimum] at least
        rw [eq_of_readFiniteCount least]
  · cases isMaximum : p.maximum with
    | none =>
        have isTop : SelectionTask.isTop (countValue none) = true := by decide +kernel
        rw [isMaximum, SelectionTask.readCount, if_pos isTop] at most
        exact Except.ok.inj most
    | some m =>
        rw [isMaximum, SelectionTask.readCount, if_neg (by exact Bool.false_ne_true)] at most
        obtain ⟨m', reads, isMost⟩ := map_eq_ok_iff.mp most
        rw [← isMost, eq_of_readFiniteCount reads]

/-- A size reaches the minimum exactly if it reaches the one that is given. -/
theorem minimum_iff {size : Nat} : task.minimum ≤ size ↔
    ∀ v, given (constraintFields document) "min_arc_count" = some v → v.exact ≤ .finite size := by
  have isMinimum := (range_of_toTask built).1
  rcases readCount_cases (readFrom_of_ofDocument read).minimum with
    ⟨missing, absent⟩ | ⟨v, found, ⟨-, infinite⟩ | ⟨m, value, finite⟩⟩
  · rw [absent] at isMinimum
    simp [missing, ← Option.some.inj isMinimum]
  · rw [infinite] at isMinimum
    cases isMinimum
  · rw [finite] at isMinimum
    simp [found, value, ← Option.some.inj isMinimum]

/-- A size keeps to the maximum exactly if it keeps to the one that is given. -/
theorem maximum_iff {size : Nat} : (∀ m, task.maximum = some m → size ≤ m) ↔
    ∀ v, given (constraintFields document) "max_arc_count" = some v → .finite size ≤ v.exact := by
  have isMaximum := (range_of_toTask built).2
  rcases readCount_cases (readFrom_of_ofDocument read).maximum with
    ⟨missing, absent⟩ | ⟨v, found, ⟨value, infinite⟩ | ⟨m, value, finite⟩⟩
  · simp [missing, ← isMaximum, absent]
  · simp [found, value, ← isMaximum, infinite]
  · simp [found, value, ← isMaximum, finite]

/-- The sets that keep the bounds of the task obey those of the document, if `number` compares
with their degrees as doubles do. -/
theorem keptBy_iff_obeys {program : Problem Arc Arc Value}
    (compiled : task.compile p.graph.graph = .ok program) {number : Value → Extended}
    {S : Finset Arc}
    (agrees : ∀ (k : DegreeKey) v x n, v.numericFloat = .ok x →
      (k.Admits (.ofFloat x) (p.graph.graph.degreeIn S k.kind n) ↔
        k.Admits (number v) (p.graph.graph.degreeIn S k.kind n))) :
    task.exact.KeptBy p.graph.graph S ↔ Obeys document p number S := by
  constructor
  · intro kept
    refine ⟨fun k n listed name isName v given => ?_, (minimum_iff read built).mp kept.minimum,
      (maximum_iff read built).mp kept.maximum⟩
    obtain ⟨x, reads, keeps⟩ := (keeps_of_toTask read built compiled k listed isName).2 v given
    rw [← agrees k v x n reads, ← keeps]
    exact DegreeBounds.forall_admits_iff.mp (fun kind => kept.degree kind n listed) k
  · intro obeys
    have degree : ∀ n ∈ p.graph.graph.nodes, ∀ kind,
        (task.exact.bounds kind).Admits n (p.graph.graph.degreeIn S kind n) := by
      intro n listed
      refine DegreeBounds.forall_admits_iff.mpr fun k => ?_
      obtain ⟨name, isName⟩ := name_of_mem_nodes read listed
      obtain ⟨unbounded, bounded⟩ := keeps_of_toTask read built compiled k listed isName
      cases given : degreeNumber document k name with
      | none => exact unbounded given _
      | some v =>
          obtain ⟨x, reads, keeps⟩ := bounded v given
          rw [keeps, agrees k v x n reads]
          exact obeys.degree k n listed name isName v given
    exact ⟨fun kind n listed => degree n listed kind, (minimum_iff read built).mpr obeys.minimum,
      (maximum_iff read built).mpr obeys.maximum⟩

/-- The compiled program admits the sets of arcs that obey the bounds of the document. The
numbers for degrees are read as doubles, which makes no difference for sets of fewer than
`2 ^ 52` arcs. -/
theorem feasible_iff_obeys {program : Problem Arc Arc Value}
    (compiled : task.compile p.graph.graph = .ok program) {S : Finset Arc}
    (within : S ⊆ p.graph.graph.arcSet) :
    (program.exact.Feasible (indicator S) ↔ Obeys document p Value.rounded S) ∧
      (S.card < 2 ^ 52 →
        (program.exact.Feasible (indicator S) ↔ Obeys document p Value.exact S)) := by
  have nodup : (p.graph.graph.arcs .all).Nodup := by
    rw [(describes_of_ofDocument read).arcs]
    exact List.nodup_range.map Arc.nth_injective
  have kept := SelectionTask.feasible_indicator_iff_keptBy built nodup compiled within
  constructor
  · rw [kept]
    refine keptBy_iff_obeys read built compiled fun k v x n reads => ?_
    rw [Value.rounded_of_numericFloat reads]
  · intro few
    rw [kept]
    refine keptBy_iff_obeys read built compiled fun k v x n reads => k.admits_ofFloat_iff reads ?_
    have bound := p.graph.graph.degreeIn_le S k.kind n
    omega

end Built

/-- Two nodes with an arc, an edge and a loop, and bounds on degrees by name, by default and for
all nodes. -/
def boundedNames : Value :=
  .map [
    (.text "nodes", .list [.int 7, .text "b"]),
    (.text "arcs", .list [
      .map [(.text "source", .int 7), (.text "target", .text "b")],
      .map [(.text "source", .text "b"), (.text "target", .text "7"),
        (.text "directed", .bool false)],
      .map [(.text "source", .text "b"), (.text "target", .text "b")]]),
    (.text "constraints", .map [
      (.text "min_degree", .map [(.text "default", .float 0.5), (.text "7", .int 2)]),
      (.text "max_in_degree", .int 1), (.text "max_out_degree", .null),
      (.text "min_arc_count", .int 1)])]

/-- An arc and an edge are compared with the bounds of a file. -/
theorem feasible_iff_obeys_boundedNames :
    ∃ p task program, ofDocument boundedNames = .ok p ∧ p.toTask = .ok task ∧
      task.compile p.graph.graph = .ok program ∧ {⟨1⟩, ⟨2⟩} ⊆ p.graph.graph.arcSet ∧
      (program.exact.Feasible (indicator {⟨1⟩, ⟨2⟩}) ↔
        Obeys boundedNames p Value.exact {⟨1⟩, ⟨2⟩}) := by
  obtain ⟨p, read, task, built, program, compiled⟩ : ∃ p, ofDocument boundedNames = .ok p ∧
      ∃ task, p.toTask = .ok task ∧ ∃ program, task.compile p.graph.graph = .ok program := by
    have succeeds : (do
        let p ← ofDocument boundedNames
        let task ← p.toTask
        task.compile p.graph.graph : Except Fault _).toBool = true := by decide +kernel
    cases computed : (do
        let p ← ofDocument boundedNames
        let task ← p.toTask
        task.compile p.graph.graph : Except Fault _) with
    | error fault =>
        rw [computed] at succeeds
        cases succeeds
    | ok program =>
        obtain ⟨p, read, rest⟩ := bind_eq_ok_iff.mp computed
        obtain ⟨task, built, compiled⟩ := bind_eq_ok_iff.mp rest
        exact ⟨p, read, task, built, program, compiled⟩
  have within : {⟨1⟩, ⟨2⟩} ⊆ p.graph.graph.arcSet := by
    intro a member
    rw [Graph.mem_arcSet, (describes_of_ofDocument read).arcs]
    revert a
    decide
  exact ⟨p, task, program, read, built, compiled, within,
    (feasible_iff_obeys read built compiled within).2 (by decide)⟩

end ProblemFile

end ArcSelection
