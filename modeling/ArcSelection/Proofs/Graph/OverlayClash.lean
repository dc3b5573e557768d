import ArcSelection.Proofs.Graph.Stack

/-!
# Ids that a base takes from its overlay

An overlay takes an id only while it is free in the overlay and in the base. The base knows
nothing of the overlay, and may take an id later that the overlay owns. As long as both own
it, a node is listed twice, and an arc is listed twice, or it is listed and does not belong
to the graph because the overlay hides its own. This is the only way in which an overlay
can fail to list everything once.
-/

namespace ArcSelection

/-- What can belong to a graph. -/
inductive Member where
  | node (n : Node)
  | arc (a : Arc)

namespace Graph

/-- Whether something belongs to the graph. -/
def has (g : Graph) : Member → Bool
  | .node n => g.hasNode n
  | .arc a => g.hasArc a

/-- The nodes and the arcs are listed once each, and the arcs that are listed are those that
belong to the graph. -/
structure ListsOnce (g : Graph) : Prop where
  nodes : g.nodes.Nodup
  arcs : ∀ f, (g.arcs f).Nodup
  mem_arcs : ∀ a, a ∈ g.arcs .all ↔ g.hasArc a = true

/-- A lawful graph lists every item once. -/
theorem Lawful.listsOnce {g : Graph} (lawful : g.Lawful) : g.ListsOnce where
  nodes := lawful.nodes_nodup
  arcs f := by
    cases f with
    | all => exact lawful.nodup
    | edge => exact lawful.arcs_edge ▸ lawful.nodup.filter _
    | forward => exact lawful.arcs_forward ▸ lawful.nodup
    | backward => exact lawful.arcs_backward ▸ lawful.nodup
  mem_arcs := lawful.mem_arcs

end Graph

namespace Overlay

/-- Whether something is owned, hidden arcs included. -/
def owns (o : Overlay) : Member → Bool
  | .node n => o.nodes.contains n
  | .arc a => o.arcs.contains a

variable {o o' : Overlay} {base : Graph} {draws : List Int} {call : Change}

/-- An overlay is apart from its base if the base has nothing that it owns. -/
theorem apart_iff : o.Apart base ↔ ∀ x, o.owns x = true → base.has x = false where
  mp apart x := match x with
    | .node n => apart.node n
    | .arc a => apart.arc a
  mpr free := ⟨fun n => free (.node n), fun a => free (.arc a)⟩

/-- An overlay lists everything once exactly if it owns nothing that the base has. -/
theorem Consistent.listsOnce_iff (consistent : o.Consistent) (lawful : base.Lawful) :
    (o.graphOver base).ListsOnce ↔ o.Apart base := by
  refine ⟨fun lists => ⟨fun n owned => ?_, fun a owned => ?_⟩,
    fun apart => (lawful_graphOver consistent apart lawful).listsOnce⟩
  · by_contra has
    have below := (lawful.mem_nodes n).mpr (by simpa using has)
    have own := (OrderedMap.mem_keys_iff _ _).mpr owned
    exact (List.nodup_append.mp lists.nodes).2.2 n below n own rfl
  · by_contra has
    have below := (lawful.mem_arcs a).mpr (by simpa using has)
    have listed := (OrderedMap.mem_keys_iff _ _).mpr owned
    obtain ⟨r, recorded⟩ := (OrderedMap.mem_keys_iff_get? _ _).mp listed
    -- The base lists the arc, so it belongs to the graph, and the overlay lists it as well.
    have alive : o.isAlive base r = true := by
      have has := (lists.mem_arcs a).mp (mem_arcs.mpr (.inl below))
      simp only [graphOver, recorded] at has
      exact has
    have own : a ∈ o.ownArcs base .all :=
      List.mem_filter.mpr ⟨listed, ownsAlive_iff.mpr ⟨r, recorded, alive⟩⟩
    exact (List.nodup_append.mp (lists.arcs .all)).2.2 a below a own rfl

/-- What an overlay owns after a call it owned before, or the base does not have it. -/
theorem Alters.owned (alters : Alters base o o') {x : Member} (owned : o'.owns x = true) :
    o.owns x = true ∨ base.has x = false := by
  cases x with
  | node n =>
      change o'.nodes.contains n = true at owned
      cases alters with
      | addsNode m free nodes arcs =>
          rw [nodes, OrderedMap.contains_insert, Bool.or_eq_true, beq_iff_eq] at owned
          rcases owned with rfl | owned
          · exact .inr (Bool.or_eq_false_iff.mp free).2
          · exact .inl owned
      | dropsNode m nodes arcs =>
          rw [nodes, OrderedMap.contains_erase, Bool.and_eq_true] at owned
          exact .inl owned.2
      | clears empty => cases empty ▸ owned
      | addsArc _ _ _ _ _ nodes | dropsArc _ nodes | keeps nodes =>
          rw [nodes] at owned
          exact .inl owned
  | arc a =>
      obtain ⟨r, recorded⟩ := (OrderedMap.mem_keys_iff_get? _ _).mp
        ((OrderedMap.mem_keys_iff _ _).mpr owned)
      cases alters with
      | addsArc b q tail head free nodes arcs =>
          rw [arcs, OrderedMap.get?_insert] at recorded
          by_cases same : b = a
          · exact .inr (same ▸ (Bool.or_eq_false_iff.mp free).2)
          · rw [if_neg (by simpa using same)] at recorded
            exact .inl (OrderedMap.contains_of_get? recorded)
      | dropsNode _ _ arcs | dropsArc _ _ arcs =>
          rw [arcs, Option.ite_none_left_eq_some] at recorded
          exact .inl (OrderedMap.contains_of_get? recorded.2)
      | clears empty => cases empty ▸ recorded
      | addsNode _ _ _ arcs | keeps _ arcs =>
          rw [arcs] at recorded
          exact .inl (OrderedMap.contains_of_get? recorded)

end Overlay

namespace Store

/-- The event gives the base of the overlay at a position something that the overlay owns. -/
def BaseTakes (i : Nat) (x : Member) (s : Store) (event : Event) : Prop :=
  ∃ o base, s.layers[i]? = some (.overlay o base) ∧ o.owns x = true ∧
    (s.graph base).has x = false ∧ ((s.after event).graph base).has x = true

/-- What overlay and base have both was taken by the base. -/
theorem happened_baseTakes (events : List Event) {i base : Nat} {o : Overlay} {x : Member}
    (found : (empty.afterAll events).layers[i]? = some (.overlay o base))
    (owned : o.owns x = true)
    (both : ((empty.afterAll events).graph base).has x = true) :
    Happened (BaseTakes i x) events := by
  refine happened_of_overlay (fun o base => o.owns x = true ∧ base.has x = true) ?_ ?_ ?_ events
    found ⟨owned, both⟩
  · rintro base ⟨owned, _⟩
    cases x <;> cases owned
  · rintro o o' base _ _ alters ⟨owned, has⟩
    refine ⟨(alters.owned owned).resolve_right fun free => ?_, has⟩
    cases free.symm.trans has
  · rintro s o base event found before ⟨owned, has⟩
    exact ⟨o, base, found, owned, by simpa [owned] using before, has⟩

/-- After every history an overlay lists everything once exactly if it no longer owns what
the base took while it did. -/
theorem listsOnce_overlay_iff (events : List Event) {i base : Nat} {o : Overlay}
    (found : (empty.afterAll events).layers[i]? = some (.overlay o base))
    (below : (empty.afterAll events).Stack base) :
    ((empty.afterAll events).graph i).ListsOnce ↔
      ∀ x, Happened (BaseTakes i x) events → o.owns x = true →
        ((empty.afterAll events).graph base).has x = false := by
  have sound := sound_empty.afterAll events
  have kept := sound _ _ found
  rw [graph_of_view found rfl kept.2]
  refine ((kept.1.listsOnce_iff (sound.lawful below)).trans Overlay.apart_iff).trans
    ⟨fun apart x _ => apart x, fun returned x owned => ?_⟩
  cases both : ((empty.afterAll events).graph base).has x with
  | false => rfl
  | true =>
      have taken := happened_baseTakes events found owned both
      exact both.symm.trans (returned x taken owned)

/-- An overlay joins a node of its own to one of the base, which then takes the id of the
node and that of the arc. -/
def takenByBase : List Event :=
  [.stored, .change 0 [] (.addNode none none), .overlay 0,
    .change 1 [] (.addNode (some (.int 2)) none),
    .change 1 [] (.addArc ⟨1⟩ ⟨2⟩ .directed (some (.int 1)) none),
    .change 0 [] (.addNode none none), .change 0 [] (.addArc ⟨1⟩ ⟨2⟩ .directed none none)]

/-- The overlay deletes its node, and the arc with it. -/
def leftToBase : List Event := takenByBase ++ [.change 1 [] (.deleteNode ⟨2⟩)]

section Evaluation

-- The queries are defined by recursion on positions, which is opened to evaluate them here.
unseal graph

/-- The base took a node and an arc, and the overlay gave them up. -/
theorem listsOnce_overlay_iff_leftToBase :
    Happened (BaseTakes 1 (.node ⟨2⟩)) leftToBase ∧
      Happened (BaseTakes 1 (.arc ⟨1⟩)) leftToBase ∧
      ∃ o, (empty.afterAll leftToBase).layers[1]? = some (.overlay o 0) ∧
        (empty.afterAll leftToBase).Stack 0 ∧
        ((empty.afterAll leftToBase).graph 1).ListsOnce := by
  refine ⟨⟨takenByBase.take 5, _, _, rfl, _, _, rfl, rfl, rfl, rfl⟩,
    ⟨takenByBase.take 6, _, _, rfl, _, _, rfl, rfl, rfl, rfl⟩, _, rfl, .stored rfl, ?_⟩
  refine (listsOnce_overlay_iff leftToBase rfl (.stored rfl)).mpr fun x _ owned => ?_
  cases x <;> cases owned

/-- Overlay and base list a node and an arc each. -/
theorem nodes_arcs_takenByBase :
    ((empty.afterAll takenByBase).graph 1).nodes = [⟨1⟩, ⟨2⟩, ⟨2⟩] ∧
      ((empty.afterAll takenByBase).graph 1).arcs .all = [⟨1⟩, ⟨1⟩] := by
  decide

end Evaluation

end Store

end ArcSelection
