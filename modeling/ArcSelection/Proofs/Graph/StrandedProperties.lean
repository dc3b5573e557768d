import ArcSelection.Proofs.Graph.OverlayClash
import ArcSelection.Proofs.Graph.OverlayIsolation

/-!
# Property maps of absent items

An undirected view or an overlay keeps property maps of its own, and answers with them
before it asks its base. It takes a map for an item only while the item belongs to it, and
its own calls drop the maps of what they remove. The base tells a view nothing: when it
deletes an item, or an end of an arc of an overlay, the view keeps the map for an item
that is gone, and has it ready for whatever comes later under the id. This is the only way
in which a map of the view is left behind. A map of the base is answered for an item that is
absent only where an overlay hides an arc whose id the base took.
-/

namespace ArcSelection

namespace PropertyStore

/-- The map that is kept for an item. -/
def propertiesOf (p : PropertyStore) : Member → Option Properties
  | .node n => p.nodes.get? n
  | .arc a => p.arcs.get? a

/-- Whether a map is kept for an item. -/
def holds (p : PropertyStore) : Member → Bool
  | .node n => p.nodes.contains n
  | .arc a => p.arcs.contains a

/-- Attaches a map to an item, or detaches the one it has. -/
def set (p : PropertyStore) : Member → Option Properties → PropertyStore
  | .node n => p.setNode n
  | .arc a => p.setArc a

variable {p : PropertyStore} {x y : Member} {properties : Option Properties}

theorem propertiesOf_eq_none_iff : p.propertiesOf x = none ↔ p.holds x = false := by
  cases x <;> exact OrderedMap.get?_eq_none_iff _ _

theorem holds_empty : empty.holds x = false := by
  cases x <;> rfl

/-- Setting the map of a node holds one for it, and for nothing else that had none. -/
theorem holds_setNode {n : Node} (held : (p.setNode n properties).holds x = true) :
    x = .node n ∨ p.holds x = true := by
  cases x with
  | node m => exact (contains_setNode held).imp_left fun same => congrArg _ same.symm
  | arc a => exact .inr (by rwa [holds, arcs_setNode] at held)

/-- Setting the map of an arc holds one for it, and for nothing else that had none. -/
theorem holds_setArc {a : Arc} (held : (p.setArc a properties).holds x = true) :
    x = .arc a ∨ p.holds x = true := by
  cases x with
  | node m => exact .inr (by rwa [holds, nodes_setArc] at held)
  | arc b => exact (contains_setArc held).imp_left fun same => congrArg _ same.symm

/-- Attaching a map to a node holds one for it, and for nothing else that had none. -/
theorem holds_attachNode {n : Node} (held : (p.attachNode n properties).holds x = true) :
    x = .node n ∨ p.holds x = true := by
  cases properties with
  | none => exact .inr held
  | some properties => exact holds_setNode held

/-- Attaching a map to an arc holds one for it, and for nothing else that had none. -/
theorem holds_attachArc {a : Arc} (held : (p.attachArc a properties).holds x = true) :
    x = .arc a ∨ p.holds x = true := by
  cases properties with
  | none => exact .inr held
  | some properties => exact holds_setArc held

/-- What is detached is not kept. -/
theorem holds_set_none (held : (p.set y none).holds x = true) : x ≠ y ∧ p.holds x = true := by
  cases y with
  | node n =>
      cases x with
      | node m =>
          obtain ⟨other, before⟩ : n ≠ m ∧ p.nodes.contains m = true := by
            simpa [set, setNode, holds, OrderedMap.contains_erase] using held
          exact ⟨fun same => other (Member.node.inj same).symm, before⟩
      | arc a => exact ⟨by simp, held⟩
  | arc b =>
      cases x with
      | node m => exact ⟨by simp, held⟩
      | arc a =>
          obtain ⟨other, before⟩ : b ≠ a ∧ p.arcs.contains a = true := by
            simpa [set, setArc, holds, OrderedMap.contains_erase] using held
          exact ⟨fun same => other (Member.arc.inj same).symm, before⟩

/-- Setting a map holds one for its item, and for nothing else that had none. -/
theorem holds_set (held : (p.set y properties).holds x = true) : x = y ∨ p.holds x = true := by
  cases y with
  | node n => exact holds_setNode held
  | arc a => exact holds_setArc held

end PropertyStore

namespace Graph

/-- The property map of an item. -/
def propertiesOf (g : Graph) : Member → Option Properties
  | .node n => g.nodeProperties n
  | .arc a => g.arcProperties a

/-- No property map is answered for an item that is absent. -/
def Clean (g : Graph) : Prop := ∀ x, g.has x = false → g.propertiesOf x = none

end Graph

/-- A stored graph has maps for its own items only. -/
theorem StoredGraph.Consistent.clean {g : StoredGraph} (consistent : g.Consistent) :
    g.graph.Clean := by
  intro x absent
  cases x with
  | node n =>
      refine (OrderedMap.get?_eq_none_iff _ _).mpr (Bool.eq_false_of_not_eq_true fun held => ?_)
      cases absent.symm.trans (consistent.nodeProperties n held)
  | arc a =>
      refine (OrderedMap.get?_eq_none_iff _ _).mpr (Bool.eq_false_of_not_eq_true fun held => ?_)
      cases absent.symm.trans (consistent.arcProperties a held)

/-- An arc that the overlay does not own is there exactly if the base has it. -/
theorem Overlay.hasArc_of_foreign {o : Overlay} {a : Arc} (base : Graph)
    (foreign : o.arcs.get? a = none) : (o.graphOver base).hasArc a = base.hasArc a := by
  simp [graphOver, foreign]

/-- An owned arc is there exactly if it is alive. -/
theorem Overlay.hasArc_of_owned {o : Overlay} {a : Arc} {r : ArcRecord} (base : Graph)
    (owned : o.arcs.get? a = some r) : (o.graphOver base).hasArc a = o.isAlive base r := by
  simp [graphOver, owned]

/-- The layer is a view that answers with property maps of its own before those of a base. -/
inductive Layer.Shadows : Layer → PropertyStore → Nat → Prop
  | undirected (view : UndirectedView) (base : Nat) :
      Layer.Shadows (.undirected view base) view.properties base
  | overlay (view : Overlay) (base : Nat) : Layer.Shadows (.overlay view base) view.properties base

namespace Layer.Shadows

variable {layer : Layer} {p : PropertyStore} {base : Nat} {below : Graph} {x : Member}

theorem base?_eq (shadows : layer.Shadows p base) : layer.base? = some base := by
  cases shadows <;> rfl

/-- A layer that shadows its base answers with its own map, or else with that of the base. -/
theorem propertiesOf_eq (shadows : layer.Shadows p base) :
    (layer.graph below).propertiesOf x = (p.propertiesOf x).or (below.propertiesOf x) := by
  cases shadows <;> cases x <;> rfl

/-- What a base has and its view has not is an arc that an overlay owns and hides. -/
theorem owns_of_hidden (shadows : layer.Shadows p base) (has : below.has x = true)
    (absent : (layer.graph below).has x = false) :
    ∃ o, layer = .overlay o base ∧ o.owns x = true := by
  cases shadows with
  | undirected view base => cases x <;> cases has.symm.trans absent
  | overlay o base =>
      refine ⟨o, rfl, ?_⟩
      cases x with
      | node n => cases absent.symm.trans (Overlay.hasNode_of_base has)
      | arc a =>
          refine Bool.eq_true_of_not_eq_false fun foreign => ?_
          have unowned := (OrderedMap.get?_eq_none_iff _ _).mpr foreign
          have same := Overlay.hasArc_of_foreign below unowned
          cases absent.symm.trans (same.trans has)

end Layer.Shadows

namespace Overlay

variable {o o' p : Overlay} {base : Graph} {draws : List Int} {call : Change} {x : Member}
  {n : Node} {a : Arc} {r : ArcRecord} {properties : Option Properties}

/-- What is owned stays owned when a node is added. -/
theorem owns_putNode (owned : o.owns x = true) : (o.putNode n properties).owns x = true := by
  cases x with
  | node m => simp_all [owns, putNode, OrderedMap.contains_insert]
  | arc b => exact owned

/-- What is owned stays owned when an arc is added. -/
theorem owns_putArc (owned : o.owns x = true) : (o.putArc a r properties).owns x = true := by
  cases x with
  | node m => exact owned
  | arc b => simp_all [owns, putArc, OrderedMap.contains_insert]

/-- An arc that is added between nodes is there. -/
theorem has_putArc (tail : o.hasNode base r.tail = true) (head : o.hasNode base r.head = true) :
    ((o.putArc a r properties).graphOver base).hasArc a = true :=
  (hasArc_of_owned base (OrderedMap.get?_insert_self ..)).trans (isAlive_iff.mpr ⟨tail, head⟩)

/-- Every map that is kept was kept before, and its item is still owned if it was. -/
def Sheds (o o' : Overlay) : Prop :=
  ∀ x, o'.properties.holds x = true →
    o.properties.holds x = true ∧ (o.owns x = true → o'.owns x = true)

/-- What is shed step by step is shed. -/
theorem Sheds.trans (first : Sheds o p) (second : Sheds p o') : Sheds o o' := by
  intro x held
  obtain ⟨between, stays⟩ := second x held
  obtain ⟨before, stayed⟩ := first x between
  exact ⟨before, stays ∘ stayed⟩

/-- Deleting an arc sheds at most the map of this arc. -/
theorem sheds_deleteArc (o : Overlay) (a : Arc) : Sheds o (o.deleteArc a).2 := by
  cases recorded : o.arcs.get? a with
  | none =>
      rw [deleteArc_of_none recorded]
      exact fun x held => ⟨held, id⟩
  | some r =>
      intro x held
      simp only [deleteArc, recorded] at held ⊢
      obtain ⟨other, before⟩ := PropertyStore.holds_set_none (y := .arc a) held
      refine ⟨before, fun owned => ?_⟩
      cases x with
      | node n => exact owned
      | arc b =>
          have apart : a ≠ b := fun same => other (same ▸ rfl)
          simpa [owns, OrderedMap.contains_erase, apart] using owned

/-- Deleting arcs sheds at most what is owned and deleted. -/
theorem sheds_deleteArcs (o : Overlay) (as : List Arc) :
    Sheds o (as.foldl (fun p a => (p.deleteArc a).2) o) := by
  induction as generalizing o with
  | nil => exact fun x held => ⟨held, id⟩
  | cons a as ih => exact (sheds_deleteArc o a).trans (ih (o.deleteArc a).2)

/-- Deleting a node sheds at most what is owned and deleted. -/
theorem sheds_deleteNode (o : Overlay) (n : Node) : Sheds o (o.deleteNode n).2 := by
  unfold deleteNode
  split
  · refine (sheds_deleteArcs o (o.ownAt n)).trans fun x held => ?_
    obtain ⟨other, before⟩ := PropertyStore.holds_set_none (y := .node n) held
    refine ⟨before, fun owned => ?_⟩
    cases x with
    | node m =>
        have apart : n ≠ m := fun same => other (same ▸ rfl)
        simpa [owns, OrderedMap.contains_erase, apart] using owned
    | arc b => exact owned
  · exact fun x held => ⟨held, id⟩

/-- A map that an overlay keeps after a call is for an item that belongs to it now, or it was
kept before, and the call did not take the item from the overlay. -/
theorem held_of_perform (performed : o.perform base draws call = .ok o')
    (held : o'.properties.holds x = true) :
    (o'.graphOver base).has x = true ∨
      o.properties.holds x = true ∧ (o.owns x = true → o'.owns x = true) := by
  cases call with
  | addNode id properties =>
      obtain ⟨⟨n, next, rest⟩, added, rfl⟩ := Fallible.map_eq_ok_iff.mp performed
      obtain ⟨_, rfl⟩ := addNode_cases added
      rcases PropertyStore.holds_attachNode held with rfl | before
      · exact .inl hasNode_putNode_self
      · exact .inr ⟨before, owns_putNode⟩
  | addArc u v direction id properties =>
      obtain ⟨⟨a, next, rest⟩, added, rfl⟩ := Fallible.map_eq_ok_iff.mp performed
      obtain ⟨tail, head, _, rfl⟩ := addArc_cases added
      rcases PropertyStore.holds_attachArc held with rfl | before
      · exact .inl (has_putArc tail head)
      · exact .inr ⟨before, owns_putArc⟩
  | deleteNode n =>
      cases performed
      exact .inr (sheds_deleteNode o n x held)
  | deleteArc a =>
      cases performed
      exact .inr (sheds_deleteArc o a x held)
  | clear =>
      cases performed
      cases PropertyStore.holds_empty.symm.trans held
  | setNodeProperties n properties =>
      simp only [perform] at performed
      split at performed <;> cases performed
      rcases PropertyStore.holds_setNode held with rfl | before
      · exact .inl ‹_›
      · exact .inr ⟨before, id⟩
  | setArcProperties a properties =>
      simp only [perform] at performed
      split at performed <;> cases performed
      rcases PropertyStore.holds_setArc held with rfl | before
      · exact .inl ‹_›
      · exact .inr ⟨before, id⟩

/-- What a call takes from an overlay was owned before, and is not owned any more. -/
theorem Alters.dropped (alters : Alters base o o') (consistent : o.Consistent)
    (consistent' : o'.Consistent) (present : (o.graphOver base).has x = true)
    (absent : (o'.graphOver base).has x = false) : o.owns x = true ∧ o'.owns x = false := by
  cases x with
  | node n =>
      obtain ⟨foreign, below⟩ := Bool.or_eq_false_iff.mp absent
      exact ⟨(Bool.or_eq_true_iff.mp present).resolve_right (by simp [below]), foreign⟩
  | arc a =>
      cases recorded' : o'.arcs.get? a with
      | none =>
          have below := (hasArc_of_foreign base recorded').symm.trans absent
          refine ⟨?_, (OrderedMap.get?_eq_none_iff _ _).mp recorded'⟩
          cases recorded : o.arcs.get? a with
          | none => cases ((hasArc_of_foreign base recorded).symm.trans present).symm.trans below
          | some r => exact OrderedMap.contains_of_get? recorded
      | some r' =>
          -- An arc that lacks an end after a call lacked it before, so it was hidden.
          exfalso
          have hidden := (hasArc_of_owned base recorded').symm.trans absent
          have lacking : ∃ n, a ∈ o'.ownAt n ∧ o'.hasNode base n = false := by
            simp only [consistent'.mem_ownAt, recorded', Option.some.injEq, exists_eq_left']
            rcases Bool.and_eq_false_iff.mp hidden with tail | head
            · exact ⟨r'.tail, .inl rfl, tail⟩
            · exact ⟨r'.head, .inr rfl, head⟩
          obtain ⟨n, atNode, missing⟩ := lacking
          obtain ⟨atNode, missing⟩ := alters.lacked consistent consistent' atNode missing
          obtain ⟨r, recorded, touched⟩ := consistent.mem_ownAt.mp atNode
          obtain ⟨tail, head⟩ :=
            isAlive_iff.mp ((hasArc_of_owned base recorded).symm.trans present)
          rcases touched with rfl | rfl
          · cases missing.symm.trans tail
          · cases missing.symm.trans head

/-- No call to an overlay leaves a map behind for an item that it takes from it. -/
theorem absent_before_of_perform (consistent : o.Consistent)
    (performed : o.perform base draws call = .ok o') (held : o'.properties.holds x = true)
    (absent : (o'.graphOver base).has x = false) :
    o.properties.holds x = true ∧ (o.graphOver base).has x = false := by
  obtain ⟨before, stays⟩ := (held_of_perform performed held).resolve_left (by simp [absent])
  refine ⟨before, Bool.eq_false_of_not_eq_true fun present => ?_⟩
  obtain ⟨owned, foreign⟩ := (alters_of_perform performed).dropped consistent
    (consistent.perform performed) present absent
  cases foreign.symm.trans (stays owned)

end Overlay

namespace Store

variable {s s' : Store} {i base : Nat} {layer : Layer} {p : PropertyStore} {x : Member}

/-- A new layer leaves those that are there. -/
theorem getElem?_add_of_some (found : s.layers[i]? = some layer) (other : Layer) :
    (s.add other).2.layers[i]? = some layer :=
  (List.getElem?_append_left (List.getElem?_eq_some_iff.mp found).1).trans found

/-- A call to an undirected view that is not refused is about the map of an item that the
view has. -/
theorem change_undirected_cases {view : UndirectedView} {draws : List Int} {call : Change}
    (there : s.layers[i]? = some (.undirected view base))
    (changed : s.change i draws call = .ok s') :
    ∃ y properties, (s.graph i).has y = true ∧
      s' = s.set i (.undirected ⟨view.properties.set y properties⟩ base) := by
  cases call with
  | setNodeProperties n properties =>
      simp only [change, setNodeProperties_eq, isReadOnly, modifyProperties, there] at changed
      split at changed
      · cases changed
      · split at changed
        · cases changed
        · rename_i present
          cases changed
          exact ⟨.node n, properties, by simpa [Graph.has] using present, rfl⟩
  | setArcProperties a properties =>
      simp only [change, setArcProperties_eq, isReadOnly, modifyProperties, there] at changed
      split at changed
      · cases changed
      · split at changed
        · cases changed
        · rename_i present
          cases changed
          exact ⟨.arc a, properties, by simpa [Graph.has] using present, rfl⟩
  | _ =>
      simp only [change, addNode_eq, addArc_eq, deleteNode_eq, deleteArc_eq, clear_eq, there]
        at changed
      cases changed

/-- An event that is not refused leaves an undirected view as it is, or is such a call. -/
theorem Sound.perform_undirected_cases (sound : s.Sound) {view : UndirectedView} {event : Event}
    (there : s.layers[i]? = some (.undirected view base)) (performed : s.perform event = .ok s') :
    s'.layers[i]? = some (.undirected view base) ∨
      ∃ y properties, (s.graph i).has y = true ∧
        s' = s.set i (.undirected ⟨view.properties.set y properties⟩ base) := by
  have gained : s.Gains s' → s'.layers[i]? = some (.undirected view base) := by
    rintro ⟨other, _, _, rfl⟩
    exact getElem?_add_of_some there other
  cases event with
  | stored => exact .inl (gained ⟨_, .stored, nofun, (Except.ok.inj performed).symm⟩)
  | complete count direction =>
      obtain ⟨g, _, rfl⟩ := Fallible.map_eq_ok_iff.mp performed
      exact .inl (getElem?_add_of_some there _)
  | undirected b => exact .inl (gained (look_cases performed (.undirected b) rfl))
  | overlay b => exact .inl (gained (look_cases performed (.overlay b) rfl))
  | selection b => exact .inl (gained (look_cases performed (.selection b) rfl))
  | matching b => exact .inl (gained (look_cases performed (.matching b) rfl))
  | enable j a on =>
      by_cases same : j = i
      · subst same
        simp only [Store.perform, Store.enable_eq, there] at performed
        cases performed
      · obtain ⟨_, layer', _, rfl, _⟩ := enable_cases performed
        exact .inl ((List.getElem?_set_ne same).trans there)
  | change j draws call =>
      by_cases same : j = i
      · subst same
        exact .inr (change_undirected_cases there performed)
      · obtain ⟨_, layer', _, rfl, _⟩ := sound.change_cases performed
        exact .inl ((List.getElem?_set_ne same).trans there)

/-- Any event leaves an undirected view as it is, or sets the map of an item that it shows. -/
theorem Sound.after_undirected_cases (sound : s.Sound) {view : UndirectedView}
    (there : s.layers[i]? = some (.undirected view base)) (event : Event) :
    (s.after event).layers[i]? = some (.undirected view base) ∨
      ∃ y properties, (s.graph i).has y = true ∧
        s.after event = s.set i (.undirected ⟨view.properties.set y properties⟩ base) := by
  rw [Store.after_eq]
  split
  · exact sound.perform_undirected_cases there ‹_›
  · exact .inl there

/-- The event takes an item from the view at a position without touching the view, which
keeps a map for the item. -/
def Strands (i : Nat) (x : Member) (s : Store) (event : Event) : Prop :=
  ∃ layer p base, s.layers[i]? = some layer ∧ (s.after event).layers[i]? = some layer ∧
    layer.Shadows p base ∧ p.holds x = true ∧
    (s.graph i).has x = true ∧ ((s.after event).graph i).has x = false

/-- The view at a position keeps a map for an item that it does not have. -/
def HoldsAbsent (i : Nat) (x : Member) (s : Store) : Prop :=
  ∃ layer p base, s.layers[i]? = some layer ∧ layer.Shadows p base ∧ p.holds x = true ∧
    (s.graph i).has x = false

/-- A map that a view keeps for an absent item it kept for it before, unless the event left
the map behind. -/
theorem Sound.holdsAbsent_before (sound : s.Sound) {event : Event}
    (holds : HoldsAbsent i x (s.after event)) : HoldsAbsent i x s ∨ Strands i x s event := by
  obtain ⟨layer, p, base, found, shadows, held, absent⟩ := holds
  have untouched (same : s.layers[i]? = some layer) : HoldsAbsent i x s ∨ Strands i x s event := by
    cases present : (s.graph i).has x with
    | false => exact .inl ⟨layer, p, base, same, shadows, held, present⟩
    | true => exact .inr ⟨layer, p, base, same, found, shadows, held, present, absent⟩
  rcases sound.layer_after found with same | ⟨_, made⟩ | ⟨former, there, eq, turns⟩
  · exact untouched same
  · cases made <;> cases shadows <;> cases PropertyStore.holds_empty.symm.trans held
  · have below : base < i := (sound.after event _ _ found).base_lt shadows.base?_eq
    have kept : (s.after event).graph base = s.graph base := by rw [eq, graph_set _ _ below]
    rw [graph_of_view found shadows.base?_eq below, kept] at absent
    cases shadows with
    | undirected view base =>
        cases turns with
        | called becomes =>
            cases becomes with
            | @undirected former _ properties =>
                obtain same | ⟨y, attached, present, eq⟩ := sound.after_undirected_cases there event
                · exact untouched (there.trans (same.symm.trans found))
                · rw [eq, Store.set, List.getElem?_set_self (List.getElem?_eq_some_iff.mp there).1]
                    at found
                  cases found
                  rw [graph_of_view there rfl below] at present
                  obtain rfl | before := PropertyStore.holds_set held
                  · cases absent.symm.trans present
                  · refine .inl ⟨_, _, base, there, .undirected _ _, before, ?_⟩
                    rwa [graph_of_view there rfl below]
    | overlay o' base =>
        cases turns with
        | called becomes =>
            cases becomes with
            | overlay performed =>
                rw [baseGraph_of_view there rfl below] at performed
                obtain ⟨before, missing⟩ := Overlay.absent_before_of_perform
                  (sound _ _ there).1 performed held absent
                refine .inl ⟨_, _, base, there, .overlay _ _, before, ?_⟩
                rwa [graph_of_view there rfl below]

/-- A map that a view keeps for an absent item was left behind by the base. -/
theorem happened_strands (events : List Event) (holds : HoldsAbsent i x (empty.afterAll events)) :
    Happened (Strands i x) events := by
  induction events using List.reverseRecOn with
  | nil =>
      obtain ⟨_, _, _, found, _⟩ := holds
      cases found
  | append_singleton events event ih =>
      rw [afterAll_concat] at holds
      refine happened_of_concat ?_
      exact ((sound_empty.afterAll events).holdsAbsent_before holds).imp_left ih

/-- After every history an undirected view or an overlay of a stored graph answers with no
map for an absent item exactly if it dropped the maps that were left behind in it, and the base
has no map for an arc that it took from the overlay, where the overlay hides its own. -/
theorem clean_view_iff (events : List Event) {g : StoredGraph}
    (found : (empty.afterAll events).layers[i]? = some layer) (shadows : layer.Shadows p base)
    (ground : (empty.afterAll events).layers[base]? = some (.stored g)) :
    ((empty.afterAll events).graph i).Clean ↔
      ∀ x, ((empty.afterAll events).graph i).has x = false →
        (Happened (Strands i x) events → p.holds x = false) ∧
          (Happened (BaseTakes i x) events → g.graph.propertiesOf x = none) := by
  have sound := sound_empty.afterAll events
  have below : base < i := (sound _ _ found).base_lt shadows.base?_eq
  have baseEq : (empty.afterAll events).graph base = g.graph := graph_of_ground ground rfl
  have viewEq : (empty.afterAll events).graph i = layer.graph g.graph :=
    (graph_of_view found shadows.base?_eq below).trans (congrArg _ baseEq)
  have answered (x : Member) : ((empty.afterAll events).graph i).propertiesOf x = none ↔
      p.holds x = false ∧ g.graph.propertiesOf x = none := by
    rw [viewEq, shadows.propertiesOf_eq, Option.or_eq_none_iff,
      PropertyStore.propertiesOf_eq_none_iff]
  constructor
  · intro clean x absent
    obtain ⟨unheld, unanswered⟩ := (answered x).mp (clean x absent)
    exact ⟨fun _ => unheld, fun _ => unanswered⟩
  · intro dropped x absent
    obtain ⟨own, taken⟩ := dropped x absent
    refine (answered x).mpr ⟨Bool.eq_false_of_not_eq_true fun held => ?_, ?_⟩
    · have stranded := happened_strands events ⟨_, p, base, found, shadows, held, absent⟩
      cases held.symm.trans (own stranded)
    · cases has : g.graph.has x with
      | false => exact StoredGraph.Consistent.clean (sound _ _ ground) x has
      | true =>
          obtain ⟨o, rfl, owned⟩ := shadows.owns_of_hidden has (viewEq ▸ absent)
          exact taken (happened_baseTakes events found owned (baseEq ▸ has))

/-- A view takes a map for a node of its base, which then deletes the node. -/
def leftBehind (view : Nat → Event) : List Event :=
  [.stored, .change 0 [] (.addNode none none), view 0,
    .change 1 [] (.setNodeProperties ⟨1⟩ (some [(.text "name", .text "a")])),
    .change 0 [] (.deleteNode ⟨1⟩)]

/-- The overlay is cleared at last. -/
def leftBehindCleared : List Event := leftBehind .overlay ++ [.change 1 [] .clear]

section Evaluation

-- The queries are defined by recursion on positions, which is opened to evaluate them here.
unseal graph

/-- The overlay drops the map that was left behind. -/
theorem clean_view_iff_leftBehindCleared :
    Happened (Strands 1 (.node ⟨1⟩)) leftBehindCleared ∧
      ∃ layer p g, (empty.afterAll leftBehindCleared).layers[1]? = some layer ∧
        layer.Shadows p 0 ∧ (empty.afterAll leftBehindCleared).layers[0]? = some (.stored g) ∧
        ((empty.afterAll leftBehindCleared).graph 1).Clean := by
  refine ⟨⟨(leftBehind .overlay).take 4, _, _, rfl, _, _, _, rfl, rfl, .overlay _ 0, rfl, rfl, rfl⟩,
    _, _, _, rfl, .overlay .empty 0, rfl, ?_⟩
  refine (clean_view_iff leftBehindCleared rfl (.overlay .empty 0) rfl).mpr fun x _ => ?_
  exact ⟨fun _ => PropertyStore.holds_empty, fun _ => by cases x <;> rfl⟩

/-- The undirected view answers with the map of a node that is gone, and with the same map for
the node that takes the id later. -/
theorem nodeProperties_leftBehind :
    ((empty.afterAll (leftBehind .undirected)).graph 1).hasNode ⟨1⟩ = false ∧
      ((empty.afterAll (leftBehind .undirected)).graph 1).nodeProperties ⟨1⟩ =
        some [(.text "name", .text "a")] ∧
      ((empty.afterAll (leftBehind .undirected ++
        [.change 0 [] (.addNode (some (.int 1)) none)])).graph 1).nodeProperties ⟨1⟩ =
        some [(.text "name", .text "a")] :=
  ⟨rfl, rfl, rfl⟩

end Evaluation

end Store

end ArcSelection
