import ArcSelection.Proofs.Graph.Attempt
import ArcSelection.Proofs.Graph.View

/-!
# The index of a matching

A matching keeps its arcs twice: in its selection, and by their ends in its index. Both
may hold arcs that have left the base. For the arcs of the base the two tell the same, and
then the index answers what a scan of the visible arcs would.
-/

namespace ArcSelection

namespace Matching

/-- About the arcs of a base, the index of a matching tells the same as its selection. -/
structure Exact (m : Matching) (base : Graph) : Prop where
  /-- An arc that is on is no loop and stands at both its ends. -/
  indexed : ∀ a, m.selection.isEnabled a = true → base.hasArc a = true →
    base.tail a ≠ base.head a ∧
      m.matched.get? (base.tail a) = some a ∧ m.matched.get? (base.head a) = some a
  /-- An arc that stands at a node is on and has the node as an end. -/
  enabled : ∀ n a, m.matched.get? n = some a → base.hasArc a = true →
    m.selection.isEnabled a = true ∧ base.touches a n = true

/-- The index of a matching and its selection tell the same about one arc: it stands at its
ends if it is on, and nowhere else. -/
def AgreesOn (m : Matching) (base : Graph) (a : Arc) : Prop :=
  ∀ n, m.matched.get? n = some a ↔ m.selection.isEnabled a = true ∧ base.touches a n = true

variable {m next : Matching} {base : Graph} {a b : Arc} {n : Node} {f : ArcFilter}

/-- An index is exact if it agrees on every arc of the base, and none that is on is a loop. -/
theorem exact_iff : m.Exact base ↔ ∀ a, base.hasArc a = true →
    m.AgreesOn base a ∧ (m.selection.isEnabled a = true → base.tail a ≠ base.head a) := by
  constructor
  · refine fun exact a has => ⟨fun n => ⟨fun found => exact.enabled n a found has, ?_⟩,
      fun on => (exact.indexed a on has).1⟩
    rintro ⟨on, touched⟩
    obtain ⟨_, atTail, atHead⟩ := exact.indexed a on has
    rcases Ends.touches_iff.mp touched with rfl | rfl
    · exact atTail
    · exact atHead
  · refine fun agrees => ⟨fun a on has => ?_, fun n a found has => ((agrees a has).1 n).mp found⟩
    obtain ⟨here, loopless⟩ := agrees a has
    exact ⟨loopless on, (here _).mpr ⟨on, Ends.touches_iff.mpr (.inl rfl)⟩,
      (here _).mpr ⟨on, Ends.touches_iff.mpr (.inr rfl)⟩⟩

/-- What an index tells about an arc stays right in a base where the arc has the same ends. -/
theorem AgreesOn.of_ends {base' : Graph} (agrees : m.AgreesOn base a)
    (tail : base'.tail a = base.tail a) (head : base'.head a = base.head a) :
    m.AgreesOn base' a := by
  intro n
  rw [agrees n, Ends.touches, Ends.touches, tail, head]

/-- The empty matching is indexed exactly. -/
theorem exact_empty (base : Graph) : Matching.empty.Exact base := ⟨nofun, nofun⟩

/-- An arc is matched with a node if the index has it and the base too. -/
theorem matchedArc?_eq_some_iff :
    m.matchedArc? base n = some a ↔ m.matched.get? n = some a ∧ base.hasArc a = true := by
  rw [matchedArc?, Option.filter_eq_some_iff]

/-- The arcs of the matching that can be seen. -/
theorem mem_arcs : a ∈ (m.graphOver base).arcs .all ↔
    m.selection.isEnabled a = true ∧ base.hasArc a = true :=
  Selection.mem_arcs

/-- Every arc of a matching is listed once. -/
theorem nodup_arcs : ((m.graphOver base).arcs .all).Nodup := Selection.nodup_arcs .all

/-- Where the index agrees, the arc that it gives a node is the visible one at it. -/
theorem matchedArc?_iff (agrees : base.hasArc a = true → m.AgreesOn base a) :
    m.matchedArc? base n = some a ↔
      a ∈ (m.graphOver base).arcs .all ∧ base.touches a n = true := by
  rw [matchedArc?_eq_some_iff, mem_arcs]
  cases has : base.hasArc a with
  | false => simp
  | true => simp [agrees has n]

/-- The arcs at a node are the matched one, if it passes. -/
theorem mem_incidentArcs : a ∈ (m.graphOver base).incidentArcs n f ↔
    m.matchedArc? base n = some a ∧ base.passes a n f = true := by
  change a ∈ m.incidentArcs base n f ↔ _
  unfold incidentArcs
  cases found : m.matchedArc? base n with
  | none => simp
  | some b =>
      dsimp only
      rw [List.mem_ite_nil_right, List.mem_singleton, Option.some.injEq]
      constructor
      · rintro ⟨passes, rfl⟩
        exact ⟨rfl, passes⟩
      · rintro ⟨rfl, passes⟩
        exact ⟨passes, rfl⟩

/-- The index gives a node no arc or one. -/
theorem incidentArcs_eq_nil_or (m : Matching) (base : Graph) (n : Node) (f : ArcFilter) :
    (m.graphOver base).incidentArcs n f = [] ∨
      ∃ a, (m.graphOver base).incidentArcs n f = [a] := by
  change m.incidentArcs base n f = [] ∨ ∃ a, m.incidentArcs base n f = [a]
  unfold incidentArcs
  split
  · split
    · exact .inr ⟨_, rfl⟩
    · exact .inl rfl
  · exact .inl rfl

/-- The scan finds the arcs of the matching at a node that pass. -/
theorem mem_scan : a ∈ m.selection.incidentArcs base n f ↔
    (a ∈ (m.graphOver base).arcs .all ∧ base.touches a n = true) ∧
      base.passes a n f = true := by
  rw [Selection.incidentArcs, List.mem_filter, Bool.and_eq_true, and_assoc]
  rfl

/-- The index finds the arcs at every node that a scan of the visible arcs finds, exactly
if it agrees with the selection on every arc of the base. -/
theorem incidentArcs_eq_iff :
    (∀ n f, (m.graphOver base).incidentArcs n f = m.selection.incidentArcs base n f) ↔
      ∀ a, base.hasArc a = true → m.AgreesOn base a := by
  constructor
  · intro same a has n
    have here : a ∈ (m.graphOver base).incidentArcs n .all ↔
        a ∈ m.selection.incidentArcs base n .all := by rw [same]
    simpa [mem_incidentArcs, mem_scan, matchedArc?_eq_some_iff, mem_arcs, has, Ends.passes]
      using here
  · intro agrees n f
    have members : ∀ a, a ∈ m.selection.incidentArcs base n f ↔
        a ∈ (m.graphOver base).incidentArcs n f := fun a => by
      rw [mem_scan, mem_incidentArcs, matchedArc?_iff (agrees a)]
    have scanned : (m.selection.incidentArcs base n f).Nodup := (Selection.nodup_arcs .all).filter _
    rcases m.incidentArcs_eq_nil_or base n f with eq | ⟨a, eq⟩
    · rw [eq] at members ⊢
      exact (List.eq_nil_iff_forall_not_mem.mpr fun b listed =>
        List.not_mem_nil ((members b).mp listed)).symm
    · rw [eq] at members ⊢
      exact (List.perm_singleton.mp ((List.perm_ext_iff_of_nodup scanned
        (List.nodup_singleton a)).mpr members)).symm

section Exact

variable (exact : m.Exact base)

include exact

/-- An exact index agrees on every arc of the base. -/
theorem Exact.agreesOn (has : base.hasArc a = true) : m.AgreesOn base a :=
  (exact_iff.mp exact a has).1

/-- The arc that the index gives a node is the visible one at it. -/
theorem Exact.matchedArc?_iff : m.matchedArc? base n = some a ↔
    a ∈ (m.graphOver base).arcs .all ∧ base.touches a n = true :=
  Matching.matchedArc?_iff exact.agreesOn

/-- No two visible arcs share a node. -/
theorem Exact.eq_of_touches (first : a ∈ (m.graphOver base).arcs .all)
    (second : b ∈ (m.graphOver base).arcs .all) (atFirst : base.touches a n = true)
    (atSecond : base.touches b n = true) : a = b := by
  have here := exact.matchedArc?_iff.mpr ⟨first, atFirst⟩
  rw [exact.matchedArc?_iff.mpr ⟨second, atSecond⟩] at here
  exact (Option.some.inj here).symm

/-- No arc of a matching is a loop. -/
theorem Exact.loopless (listed : a ∈ (m.graphOver base).arcs .all) :
    base.tail a ≠ base.head a := by
  obtain ⟨on, has⟩ := mem_arcs.mp listed
  exact (exact.indexed a on has).1

/-- The index finds the arcs at a node that a scan of the visible arcs finds. -/
theorem Exact.incidentArcs_eq (n : Node) (f : ArcFilter) :
    (m.graphOver base).incidentArcs n f = m.selection.incidentArcs base n f :=
  incidentArcs_eq_iff.mpr (fun _ => exact.agreesOn) n f

omit exact in
/-- The ends of an arc are the nodes that it touches. -/
private theorem mem_ends : n ∈ [base.tail a, base.head a] ↔ base.touches a n = true :=
  List.mem_pair.trans ((or_congr eq_comm eq_comm).trans Ends.touches_iff.symm)

/-- The matched nodes are the ends of the visible arcs, two to an arc. -/
theorem Exact.matched_perm (lawful : base.Lawful) :
    (base.nodes.filter fun n => (m.matchedArc? base n).isSome).Perm
      (((m.graphOver base).arcs .all).flatMap fun a => [base.tail a, base.head a]) := by
  have ends : (((m.graphOver base).arcs .all).flatMap fun a =>
      [base.tail a, base.head a]).Nodup := by
    rw [List.nodup_flatMap]
    refine ⟨fun a listed => by simpa using exact.loopless listed, ?_⟩
    refine (List.nodup_iff_pairwise_ne.mp nodup_arcs).imp_of_mem
      fun {a b} first second different n atFirst atSecond => ?_
    exact different (exact.eq_of_touches first second (mem_ends.mp atFirst) (mem_ends.mp atSecond))
  refine (List.perm_ext_iff_of_nodup (lawful.nodes_nodup.filter _) ends).mpr fun n => ?_
  simp only [List.mem_filter, Option.isSome_iff_exists, exact.matchedArc?_iff, List.mem_flatMap,
    mem_ends]
  refine ⟨And.right, fun matched => ⟨?_, matched⟩⟩
  obtain ⟨a, listed, touched⟩ := matched
  have inBase := (lawful.mem_arcs a).mpr (mem_arcs.mp listed).2
  exact lawful.mem_nodes_of_touches inBase touched

/-- Every arc of a matching matches two nodes. -/
theorem Exact.two_mul_arcCount (lawful : base.Lawful) :
    2 * (m.graphOver base).arcCount .all =
      (base.nodes.filter fun n => (m.matchedArc? base n).isSome).length := by
  rw [(exact.matched_perm lawful).length_eq, List.length_flatMap]
  simp only [List.length_cons, List.length_nil, Nat.zero_add, Nat.reduceAdd]
  rw [List.map_const', List.sum_replicate_nat, Nat.mul_comm]
  rfl

end Exact

/-- An arc can join if it is no loop and no visible arc stands at its ends. -/
theorem conflict?_eq_none_iff : m.conflict? base a = none ↔
    base.tail a ≠ base.head a ∧ ∀ n, base.touches a n = true → m.matchedArc? base n = none := by
  unfold conflict?
  split
  · simp [*]
  · simp [*, List.findSome?_eq_none_iff, Ends.touches_iff, or_imp, forall_and]

/-- A conflict is told as a bad value. -/
theorem kind_of_conflict? {fault : Fault} (conflict : m.conflict? base a = some fault) :
    fault.kind = .invalid := by
  unfold conflict? at conflict
  split at conflict
  · cases conflict
    rfl
  · obtain ⟨n, _, found⟩ := List.exists_of_findSome?_eq_some conflict
    obtain ⟨other, _, rfl⟩ := Option.map_eq_some_iff.mp found
    rfl

/-- The matching with one more arc of the base. -/
def join (m : Matching) (base : Graph) (a : Arc) : Matching where
  selection := m.selection.enable a true
  matched := (m.matched.insert (base.tail a) a).insert (base.head a) a

/-- An arc that is on is left alone; another one is refused or joins. -/
theorem enable_cases (m : Matching) (base : Graph) (a : Arc) :
    m.selection.isEnabled a = true ∧ m.enable base a = .ok m ∨
      m.selection.isEnabled a = false ∧
        ((base.hasArc a = false ∨ m.conflict? base a ≠ none) ∧
            (∃ fault, m.enable base a = .error fault ∧ fault.kind = .invalid) ∨
          (base.hasArc a = true ∧ m.conflict? base a = none) ∧
            m.enable base a = .ok (m.join base a)) := by
  rw [enable_eq]
  cases on : m.selection.isEnabled a with
  | true => exact .inl ⟨rfl, rfl⟩
  | false =>
      refine .inr ⟨rfl, ?_⟩
      cases has : base.hasArc a with
      | false => exact .inl ⟨.inl rfl, _, rfl, rfl⟩
      | true =>
          cases conflict : m.conflict? base a with
          | some fault => exact .inl ⟨.inr nofun, fault, rfl, kind_of_conflict? conflict⟩
          | none => exact .inr ⟨⟨rfl, rfl⟩, rfl⟩

/-- A refused arc is told as a bad value. -/
theorem kind_of_refused {fault : Fault} (refused : m.enable base a = .error fault) :
    fault.kind = .invalid := by
  rcases m.enable_cases base a with ⟨_, eq⟩ | ⟨_, ⟨_, other, eq, kind⟩ | ⟨_, eq⟩⟩
  · cases refused.symm.trans eq
  · cases refused.symm.trans eq
    exact kind
  · cases refused.symm.trans eq

/-- The matching that switching an arc on or off makes, or why it is refused. -/
def switch (m : Matching) (base : Graph) (a : Arc) (on : Bool) : Except Fault Matching :=
  if on then m.enable base a else .ok (m.disable base a)

/-- The matching that is left after an arc is switched, or refused on the way. -/
def after (m : Matching) (base : Graph) (a : Arc) (on : Bool) : Matching :=
  (trySwitch base a on).left m

theorem trySwitch_apply (m : Matching) (base : Graph) (a : Arc) (on : Bool) :
    trySwitch base a on m = Attempt.settle m ((m.switch base a on).map fun next => ((), next)) := by
  cases on with
  | false => rfl
  | true =>
      refine ((atomic_trySwitch base a true).eq_settle m).trans ?_
      rw [switch, if_pos rfl, enable, trySwitch, if_pos rfl]
      cases (tryEnable base a).outcome m <;> rfl

/-- A switch leaves what it makes of the matching, and the matching as it was if refused. -/
theorem after_eq (m : Matching) (base : Graph) (a : Arc) (on : Bool) :
    m.after base a on = match m.switch base a on with
      | .ok next => next
      | .error _ => m := by
  rw [after, Attempt.left_of_settle (m.trySwitch_apply base a on)]
  cases m.switch base a on <;> rfl

/-- An arc is refused if it is not on yet and is foreign, a loop, or shares a node with
a visible arc. -/
theorem Exact.refused_iff (exact : m.Exact base) :
    (∃ fault, m.enable base a = .error fault) ↔
      m.selection.isEnabled a = false ∧
        (base.hasArc a = false ∨ base.tail a = base.head a ∨
          ∃ b ∈ (m.graphOver base).arcs .all, b ≠ a ∧
            ∃ n, base.touches a n = true ∧ base.touches b n = true) := by
  rcases m.enable_cases base a with
    ⟨on, eq⟩ | ⟨off, ⟨reason, refused, eq, _⟩ | ⟨⟨has, free⟩, eq⟩⟩
  · simp [on, eq]
  · refine iff_of_true ⟨refused, eq⟩ ⟨off, ?_⟩
    rcases reason with foreign | conflict
    · exact .inl foreign
    · refine .inr (Decidable.or_iff_not_imp_left.mpr fun loopless => ?_)
      by_contra noneShared
      refine conflict (conflict?_eq_none_iff.mpr ⟨loopless, fun n touched => ?_⟩)
      refine Option.eq_none_iff_forall_ne_some.mpr fun b found => noneShared ?_
      obtain ⟨listed, touched'⟩ := exact.matchedArc?_iff.mp found
      refine ⟨b, listed, ?_, n, touched, touched'⟩
      rintro rfl
      cases off.symm.trans (mem_arcs.mp listed).1
  · refine iff_of_false (by simp [eq]) ?_
    obtain ⟨loopless, free⟩ := conflict?_eq_none_iff.mp free
    rintro ⟨_, foreign | loop | ⟨b, listed, _, n, touched, touched'⟩⟩
    · cases has.symm.trans foreign
    · exact loopless loop
    · cases (free n touched).symm.trans (exact.matchedArc?_iff.mpr ⟨listed, touched'⟩)

/-- An arc is enabled as it was switched, and all others are as they were. -/
theorem isEnabled_enable {s : Selection} {on : Bool} :
    (s.enable a on).isEnabled b = if a = b then on else s.isEnabled b := by
  cases on <;> by_cases same : a = b <;>
    simp [Selection.enable, Selection.isEnabled, OrderedMap.contains_insert,
      OrderedMap.contains_erase, same]

/-- An arc that joins is entered at its free ends, so that no entry of an arc of the base is
overwritten. -/
theorem AgreesOn.join (agrees : m.AgreesOn base b) (has : base.hasArc b = true)
    (free : ∀ n, base.touches a n = true → m.matchedArc? base n = none) :
    (m.join base a).AgreesOn base b := by
  intro n
  have entered : (m.join base a).matched.get? n =
      if base.touches a n = true then some a else m.matched.get? n := by
    rw [Matching.join, OrderedMap.get?_insert, OrderedMap.get?_insert, Ends.touches]
    by_cases head : base.head a = n <;> by_cases tail : base.tail a = n <;> simp [head, tail]
  rw [entered, Matching.join, isEnabled_enable]
  by_cases same : a = b
  · subst same
    by_cases touched : base.touches a n = true
    · simp [touched]
    · simp [touched, agrees n]
  · rw [if_neg same, ← agrees n]
    by_cases touched : base.touches a n = true
    · have none := free n touched
      rw [if_pos touched, Option.some.injEq]
      refine ⟨fun eq => absurd eq same, fun found => ?_⟩
      cases none.symm.trans (matchedArc?_eq_some_iff.mpr ⟨found, has⟩)
    · rw [if_neg touched]

/-- Forgetting an arc at a node drops no other entry. -/
theorem get?_forget (matched : OrderedMap Node Arc) (n : Node) (a : Arc) (k : Node) :
    (forget matched n a).get? k = if n = k ∧ matched.get? k = some a then none
      else matched.get? k := by
  unfold forget
  by_cases same : n = k
  · subst same
    by_cases found : matched.get? n = some a <;> simp [found]
  · split <;> simp [OrderedMap.get?_erase, same]

/-- A node loses its entry to an arc that is forgotten, and no other. -/
theorem get?_forget_forget (matched : OrderedMap Node Arc) (u v : Node) (a : Arc) (k : Node) :
    (forget (forget matched u a) v a).get? k =
      if (u = k ∨ v = k) ∧ matched.get? k = some a then none else matched.get? k := by
  rw [get?_forget, get?_forget]
  by_cases first : u = k <;> by_cases second : v = k <;>
    by_cases found : matched.get? k = some a <;> simp [first, second, found]

/-- Disabling an arc keeps the agreement on others. -/
theorem AgreesOn.disable (agrees : m.AgreesOn base b) (a : Arc) :
    (m.disable base a).AgreesOn base b := by
  unfold Matching.disable
  split
  · intro n
    rw [get?_forget_forget, isEnabled_enable]
    by_cases same : a = b
    · subst same
      by_cases found : m.matched.get? n = some a
      · simp [found, Ends.touches_iff.mp ((agrees n).mp found).2]
      · simp [found]
    · rw [if_neg same, ← agrees n]
      split
      · rename_i gone
        exact ⟨nofun, fun found => absurd (Option.some.inj (gone.2.symm.trans found)) same⟩
      · rfl
  · exact agrees

/-- Switching arcs keeps an index right about the arcs of the base about which it is. -/
theorem AgreesOn.after (agrees : m.AgreesOn base b) (has : base.hasArc b = true) (a : Arc)
    (on : Bool) : (m.after base a on).AgreesOn base b := by
  rw [Matching.after_eq]
  cases on with
  | false => exact agrees.disable a
  | true =>
      rw [switch, if_pos rfl]
      rcases m.enable_cases base a with ⟨_, eq⟩ | ⟨_, ⟨_, fault, eq, _⟩ | ⟨⟨_, free⟩, eq⟩⟩ <;>
        rw [eq]
      · exact agrees
      · exact agrees
      · exact agrees.join has (conflict?_eq_none_iff.mp free).2

/-- An arc that is on after a switch was on before, or has joined and is no loop. -/
theorem loopless_of_after {on : Bool} (loopless : m.selection.isEnabled b = true →
    base.tail b ≠ base.head b) (enabled : (m.after base a on).selection.isEnabled b = true) :
    base.tail b ≠ base.head b := by
  rw [Matching.after_eq] at enabled
  cases on with
  | false =>
      simp only [switch, disable, Bool.false_eq_true, if_false] at enabled
      split at enabled
      · rw [isEnabled_enable] at enabled
        split at enabled
        · cases enabled
        · exact loopless enabled
      · exact loopless enabled
  | true =>
      rw [switch, if_pos rfl] at enabled
      rcases m.enable_cases base a with ⟨_, eq⟩ | ⟨_, ⟨_, fault, eq, _⟩ | ⟨⟨_, free⟩, eq⟩⟩ <;>
        rw [eq] at enabled
      · exact loopless enabled
      · exact loopless enabled
      · rw [join, isEnabled_enable] at enabled
        split at enabled
        · rename_i same
          exact same ▸ (conflict?_eq_none_iff.mp free).1
        · exact loopless enabled

/-- A call keeps the index exact. -/
theorem Exact.after (exact : m.Exact base) (a : Arc) (on : Bool) :
    (m.after base a on).Exact base := by
  refine exact_iff.mpr fun b has => ?_
  obtain ⟨agrees, loopless⟩ := exact_iff.mp exact b has
  exact ⟨agrees.after has a on, loopless_of_after loopless⟩

end Matching

end ArcSelection
