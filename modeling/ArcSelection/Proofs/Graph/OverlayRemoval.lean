import ArcSelection.Proofs.Graph.Removal
import ArcSelection.Proofs.Graph.Store

/-!
# Deleting a node of a graph in a store

An overlay deletes a node it owns as a stored graph does, with the arcs it owns at the node,
hidden ones included, and never looks at its base. The arcs it keeps for a node follow from
its records, so that what it owns decides all its queries.

In a store a deletion touches one layer. Adding a node to a stored graph, then arcs at it, and
deleting the node leads back to the queries of before, in every graph of the store. An overlay
may hold an arc whose end the base lost, or a property map that was left behind; what is added
under the lost id takes them with it when it goes. That is all an overlay can lose.
-/

namespace ArcSelection

/-- What an overlay owns. -/
structure Owned where
  nodes : OrderedSet Node
  arcs : OrderedMap Arc ArcRecord
  edges : OrderedSet Arc
  properties : PropertyStore

/-- What is left without a node, the arcs at it, and the property maps of both. -/
def Owned.without (w : Owned) (n : Node) : Owned where
  nodes := w.nodes.erase n
  arcs := staying w.arcs n w.arcs
  edges := staying w.arcs n w.edges
  properties := ⟨w.properties.nodes.erase n, staying w.arcs n w.properties.arcs⟩

/-- What is left without the property maps under the ids of some arcs. -/
def Owned.dropMaps (w : Owned) (gone : List Arc) : Owned :=
  { w with properties := ⟨w.properties.nodes, w.properties.arcs.filter fun a _ => a ∉ gone⟩ }

theorem Owned.dropMaps_nil (w : Owned) : w.dropMaps [] = w := by
  rw [dropMaps, OrderedMap.filter_eq_self fun _ _ => by simp]

/-- Maps may be dropped in two steps. -/
theorem Owned.dropMaps_append (w : Owned) (gone later : List Arc) :
    w.dropMaps (gone ++ later) = (w.dropMaps gone).dropMaps later := by
  simp only [dropMaps, OrderedMap.filter_filter, List.mem_append, not_or, Bool.decide_and]

namespace Overlay

/-- The nodes, arcs, edges and property maps of the overlay itself. -/
def owned (o : Overlay) : Owned := ⟨o.nodes, o.arcs, o.edges, o.properties⟩

variable {o p : Overlay} {base : Graph} {n : Node} {a : Arc} {r : ArcRecord}

/-- What an overlay owns decides its queries. -/
theorem Consistent.graphOver_congr (consistent : o.Consistent) (consistent' : p.Consistent)
    (same : o.owned = p.owned) (base : Graph) : o.graphOver base = p.graphOver base := by
  have ownAt : o.ownAt = p.ownAt := funext fun m => by
    rw [consistent.indexed, consistent'.indexed, (Owned.mk.inj same).2.1]
  obtain ⟨nodes, arcs, edges, arcsAt, properties⟩ := o
  obtain ⟨nodes', arcs', edges', arcsAt', properties'⟩ := p
  obtain ⟨rfl, rfl, rfl, rfl⟩ := Owned.mk.inj same
  have incident : incidentArcs ⟨nodes, arcs, edges, arcsAt, properties⟩ base =
      incidentArcs ⟨nodes, arcs, edges, arcsAt', properties⟩ base :=
    funext fun m => funext fun f => by
      rw [incidentArcs, ownAt]
      rfl
  have between : arcsBetween ⟨nodes, arcs, edges, arcsAt, properties⟩ base =
      arcsBetween ⟨nodes, arcs, edges, arcsAt', properties⟩ base :=
    funext fun u => funext fun v => funext fun f => by
      rw [arcsBetween, ownAt]
      rfl
  rw [graphOver, incident, between]
  rfl

/-- It makes no difference whether an owned arc at the node is deleted before. -/
theorem without_owned_deleteArc (o : Overlay) (a : Arc)
    (touched : ∀ r, o.arcs.get? a = some r → r.touches n = true) :
    (o.deleteArc a).2.owned.without n = o.owned.without n := by
  cases recorded : o.arcs.get? a with
  | none => rw [deleteArc_of_none recorded]
  | some r =>
      simp only [deleteArc, recorded, owned, Owned.without, PropertyStore.setArc,
        staying_erase recorded (touched r recorded)]

/-- A node without arcs is all that goes. -/
theorem without_owned_of_bare (bare : ∀ a r, o.arcs.get? a = some r → r.touches n = false) :
    o.owned.without n =
      ⟨o.nodes.erase n, o.arcs, o.edges, ⟨o.properties.nodes.erase n, o.properties.arcs⟩⟩ := by
  simp only [owned, Owned.without, staying_eq_self bare]

/-- The arcs that the index has at a node are those that touch it. -/
theorem Consistent.mem_ownAt_iff_touches (consistent : o.Consistent) (n : Node) (a : Arc) :
    a ∈ o.ownAt n ↔ ∃ r, o.arcs.get? a = some r ∧ r.touches n = true := by
  simp only [consistent.mem_ownAt, ArcRecord.touches_iff]

/-- Deleting an owned node, arc by arc, removes what the overlay owns at it and nothing
else. -/
theorem Consistent.owned_deleteNode (consistent : o.Consistent)
    (present : o.nodes.contains n = true) :
    (o.deleteNode n).1 = true ∧ (o.deleteNode n).2.owned = o.owned.without n := by
  have listed := consistent.mem_ownAt_iff_touches n
  have bare := bare_of_listed listed (get?_arcs_deleteArcs o (o.ownAt n))
  have forgets : ((o.ownAt n).foldl (fun p a => (p.deleteArc a).2) o).owned.without n =
      o.owned.without n :=
    foldl_forgets (fun o : Overlay => o.owned.without n) get?_arcs_deleteArc
      without_owned_deleteArc (touches_of_listed listed)
  rw [Overlay.deleteNode, if_pos present]
  exact ⟨rfl, (without_owned_of_bare bare).symm.trans forgets⟩

/-- An arc at the node that is added before leaves no trace, and no map under its id. -/
theorem Consistent.without_owned_putArc (consistent : o.Consistent)
    (free : o.arcs.contains a = false) (touched : r.touches n = true)
    (properties : Option Properties) :
    (o.putArc a r properties).owned.without n = (o.owned.without n).dropMaps [a] := by
  have notEdge : o.edges.contains a = false := by
    rw [OrderedMap.contains_eq_any consistent.edges, (OrderedMap.get?_eq_none_iff _ _).mpr free,
      Option.any_none]
  have maps : staying o.arcs n (o.properties.arcs.erase a) =
      (staying o.arcs n o.properties.arcs).filter fun b _ => b ∉ [a] := by
    rw [staying, staying, OrderedMap.erase, OrderedMap.filter_filter, OrderedMap.filter_filter]
    exact OrderedMap.filter_congr fun e _ => by
      rw [Bool.and_comm]
      simp [beq_eq_decide]
  simp only [owned, Overlay.putArc, Owned.without, Owned.dropMaps, staying_insert free touched,
    staying_edges notEdge touched, staying_attachArc _ touched, PropertyStore.nodes_attachArc,
    maps]

/-- It makes no difference whether the node is added before. -/
theorem without_owned_putNode (o : Overlay) (n : Node) (properties : Option Properties) :
    (o.putNode n properties).owned.without n = o.owned.without n := by
  simp only [owned, Owned.without, putNode, OrderedMap.erase_insert_self,
    PropertyStore.erase_attachNode, PropertyStore.arcs_attachNode]

/-- The overlay holds nothing under the id of a node or of the arcs: no arc that lost the node,
no map that was left behind. -/
structure Lacks (o : Overlay) (n : Node) (as : List Arc) : Prop where
  noArc : o.ownAt n = []
  noMap : o.properties.nodes.contains n = false
  noMaps : ∀ a ∈ as, o.properties.arcs.contains a = false

/-- Nothing goes with a node that is foreign, and with arcs, exactly if the overlay holds nothing
under their ids. -/
theorem Consistent.without_dropMaps_eq_self_iff (consistent : o.Consistent)
    (foreign : o.nodes.contains n = false) (gone : List Arc) :
    (o.owned.without n).dropMaps gone = o.owned ↔ o.Lacks n gone := by
  have listed := consistent.mem_ownAt_iff_touches n
  constructor
  · intro same
    obtain ⟨_, arcs, _, maps⟩ := Owned.mk.inj same
    obtain ⟨nodeMaps, arcMaps⟩ := PropertyStore.mk.inj maps
    refine ⟨List.eq_nil_iff_forall_not_mem.mpr fun a member => ?_, ?_, fun a member => ?_⟩
    · obtain ⟨r, found, touched⟩ := (listed a).mp member
      have left : (staying o.arcs n o.arcs).get? a = none := by
        rw [get?_staying, stays_of_get? found, touched]
        rfl
      have all : staying o.arcs n o.arcs = o.arcs := arcs
      rw [all, found] at left
      cases left
    · have erased : (o.properties.nodes.erase n).contains n = false := by
        simp [OrderedMap.contains_erase]
      exact nodeMaps ▸ erased
    · have dropped : ((staying o.arcs n o.properties.arcs).filter fun b _ => b ∉ gone).get? a =
          none := by
        rw [OrderedMap.get?_filter]
        simp [member]
      rw [← OrderedMap.get?_eq_none_iff]
      exact arcMaps ▸ dropped
  · rintro ⟨noArc, noMap, noMaps⟩
    have bare : ∀ a r, o.arcs.get? a = some r → r.touches n = false := by
      refine bare_of_listed listed fun a => ?_
      rw [noArc, if_neg List.not_mem_nil]
    rw [without_owned_of_bare bare, OrderedMap.erase_eq_self foreign,
      OrderedMap.erase_eq_self noMap, Owned.dropMaps, OrderedMap.filter_eq_self]
    · rfl
    · intro e member
      refine decide_eq_true fun listed => ?_
      have has : o.properties.arcs.contains e.1 = true :=
        List.any_eq_true.mpr ⟨e, member, beq_self_eq_true _⟩
      cases (noMaps e.1 listed).symm.trans has

/-- The arcs that are kept for a node are those left, in their order. -/
theorem Consistent.ownAt_of_without (consistent : o.Consistent) (consistent' : p.Consistent)
    (left : p.owned = o.owned.without n) (m : Node) :
    p.ownAt m = (o.ownAt m).filter (stays o.arcs n) := by
  have arcs : p.arcs = staying o.arcs n o.arcs := congrArg Owned.arcs left
  rw [consistent.indexed, consistent'.indexed, OrderedMap.keysWhere_eq_filter,
    OrderedMap.keysWhere_eq_filter, arcs, keys_staying, List.filter_filter, List.filter_filter]
  refine List.filter_congr fun a _ => ?_
  rw [get?_staying]
  cases stays o.arcs n a <;> simp

/-- Adding a node makes a difference to what is owned there only. -/
theorem owned_of_addNode {draws rest : List Int} {id : Option Value}
    {properties : Option Properties} {next : Overlay}
    (added : o.addNode base draws id properties = .ok (n, next, rest)) :
    o.nodes.contains n = false ∧ next.nodes.contains n = true ∧ next.arcs = o.arcs ∧
      next.owned.without n = o.owned.without n := by
  obtain ⟨absent, rfl⟩ := addNode_cases added
  exact ⟨(Bool.or_eq_false_iff.mp absent).1, by simp [putNode, OrderedMap.contains_insert], rfl,
    without_owned_putNode o n properties⟩

/-- An arc that is added at the node comes last, and makes a difference to what is owned there
and to the maps under its id only. -/
theorem Consistent.owned_of_addsArcAt (consistent : o.Consistent)
    (present : o.nodes.contains n = true) {draws : List Int} {change : Change} {next : Overlay}
    (adds : change.AddsArcAt n) (performed : o.perform base draws change = .ok next) :
    next.nodes.contains n = true ∧ ∃ a, next.arcs.keys = o.arcs.keys ++ [a] ∧
      next.owned.without n = (o.owned.without n).dropMaps [a] := by
  cases change with
  | addArc u v direction id properties =>
      obtain ⟨⟨a, o', rest⟩, added, rfl⟩ := Fallible.map_eq_ok_iff.mp performed
      obtain ⟨_, _, free, rfl⟩ := addArc_cases added
      have touched : (⟨u, v, direction == .undirected⟩ : ArcRecord).touches n = true :=
        ArcRecord.touches_iff.mpr adds
      have absent := (Bool.or_eq_false_iff.mp free).1
      refine ⟨present, a, ?_, consistent.without_owned_putArc absent touched properties⟩
      rw [Overlay.putArc, OrderedMap.keys_insert, absent]
      rfl
  | _ => cases adds

end Overlay

namespace Store

variable {s : Store} {i j : Nat} {layer layer' : Layer}

theorem set_set (s : Store) (i : Nat) (layer layer' : Layer) :
    (s.set i layer).set i layer' = s.set i layer' := by
  rw [set, set, List.set_set]
  rfl

/-- A layer that answers as another does can replace it. -/
theorem graph_set_congr (found : s.layers[i]? = some layer) (looks : layer'.base? = layer.base?)
    (answers : ∀ base, layer'.graph base = layer.graph base) (j : Nat) :
    (s.set i layer').graph j = s.graph j := by
  induction j using Nat.strong_induction_on with
  | _ j below =>
      unfold graph
      by_cases same : i = j
      · subst same
        rw [getElem?_set_self found, found]
        simp only [looks, answers]
        cases layer.base? with
        | none => rfl
        | some base =>
            dsimp only
            split
            · rw [below base ‹_›]
            · rfl
      · rw [set, List.getElem?_set_ne same]
        cases s.layers[j]? with
        | none => rfl
        | some other =>
            dsimp only
            cases other.base? with
            | none => rfl
            | some base =>
                dsimp only
                split
                · have lower := below base ‹_›
                  rw [set] at lower
                  rw [lower]
                · rfl

/-- A layer over the same base leaves the base alone. -/
theorem baseGraph_set (found : s.layers[i]? = some layer) (looks : layer'.base? = layer.base?) :
    (s.set i layer').baseGraph i = s.baseGraph i := by
  rw [baseGraph, baseGraph, getElem?_set_self found, found]
  dsimp only
  rw [looks]
  cases layer.base? with
  | none => rfl
  | some base =>
      dsimp only
      split
      · exact graph_set s layer' ‹_›
      · rfl

/-- The event is a call to the graph at a position that adds an arc at a node. -/
def Event.AddsArcAt (i : Nat) (n : Node) : Event → Prop
  | .change j _ call => j = i ∧ call.AddsArcAt n
  | _ => False

/-- Calls to one graph that add arcs at a node keep what each of them keeps of its layer. -/
theorem Sound.afterAll_of_addsArcAt (sound : s.Sound) {n : Node} (Inv : Layer → Prop)
    (found : s.layers[i]? = some layer) (initial : Inv layer)
    (step : ∀ {draws : List Int} {call : Change} {now next : Layer}, now.Sound i →
      call.AddsArcAt n → Inv now → Layer.Becomes (s.baseGraph i) draws call now next → Inv next)
    {later : List Event} (adds : ∀ event ∈ later, event.AddsArcAt i n) :
    ∃ now : Layer, s.afterAll later = s.set i now ∧ now.base? = layer.base? ∧ now.Sound i ∧
      Inv now := by
  induction later using List.reverseRecOn with
  | nil => exact ⟨layer, (set_eq_self found).symm, rfl, sound i layer found, initial⟩
  | append_singleton later event ih =>
      obtain ⟨now, eq, looks, soundNow, holds⟩ :=
        ih fun event member => adds event (List.mem_append_left _ member)
      have last := adds event (List.mem_append_right _ (List.mem_singleton_self _))
      have soundThere : (s.set i now).Sound := eq ▸ sound.afterAll later
      rw [afterAll_concat, eq, Store.after_eq]
      cases performed : (s.set i now).perform event with
      | error fault => exact ⟨now, rfl, looks, soundNow, holds⟩
      | ok s' =>
          cases event with
          | change j draws call =>
              obtain ⟨rfl, adding⟩ := last
              obtain ⟨former, next, there, rfl, becomes⟩ := soundThere.change_cases performed
              rw [getElem?_set_self found, Option.some.injEq] at there
              subst there
              refine ⟨next, set_set _ _ _ _, ?_, becomes.sound soundNow, ?_⟩
              · cases becomes <;> exact looks
              · rw [baseGraph_set found looks] at becomes
                exact step soundNow adding holds becomes
          | _ => cases last

/-- What deleting a node of the stored graph at a position does. -/
structure DeletesFromStored (s : Store) (i : Nat) (g : StoredGraph) (n : Node) : Prop where
  /-- A node of the graph goes with the arcs at it and the property maps of both; all else, the
  order of every list and the two counters included, stays. -/
  present : g.nodes.contains n = true → ∃ next : StoredGraph,
    s.deleteNode i n = .ok (true, s.set i (.stored next)) ∧ g.graph.LosesNode next.graph n ∧
      next.nextNode = g.nextNode ∧ next.nextArc = g.nextArc
  absent : g.nodes.contains n = false → s.deleteNode i n = .ok (false, s)
  /-- Deleting the node after it was added, and arcs at it, restores all queries. -/
  undone : ∀ (draws : List Int) (id : Option Value) (properties : Option Properties)
    (added : Store) (rest : List Int) (later : List Event),
    s.addNode i draws id properties = .ok (n, added, rest) →
      (∀ event ∈ later, event.AddsArcAt i n) →
        ∃ restored, (added.afterAll later).deleteNode i n = .ok (true, restored) ∧
          ∀ j, restored.graph j = s.graph j

/-- What deleting a node of the overlay at a position does. -/
structure DeletesFromOverlay (s : Store) (i : Nat) (o : Overlay) (base : Nat) (n : Node) :
    Prop where
  /-- An owned node goes with the owned arcs at it and the property maps of both; what else the
  overlay owns stays, in the same order, and so do the graphs below. -/
  owned : o.nodes.contains n = true → ∃ next : Overlay,
    s.deleteNode i n = .ok (true, s.set i (.overlay next base)) ∧
      next.owned = o.owned.without n ∧
      (∀ m, next.ownAt m = (o.ownAt m).filter (stays o.arcs n)) ∧
      ∀ j < i, (s.set i (.overlay next base)).graph j = s.graph j
  foreign : o.nodes.contains n = false → s.deleteNode i n = .ok (false, s)
  /-- Deleting the node after it was added, and arcs at it, leaves what the overlay owned without
  what it held at the node and without the maps it held under the ids of these arcs.  It restores
  what the overlay owned, and with that all queries, exactly if it held none of this. -/
  undone : ∀ (draws : List Int) (id : Option Value) (properties : Option Properties)
    (added : Store) (rest : List Int) (later : List Event),
    s.addNode i draws id properties = .ok (n, added, rest) →
      (∀ event ∈ later, event.AddsArcAt i n) →
        ∃ (grown next : Overlay) (gone : List Arc),
          (added.afterAll later).layers[i]? = some (.overlay grown base) ∧
          grown.arcs.keys = o.arcs.keys ++ gone ∧
          (added.afterAll later).deleteNode i n = .ok (true, s.set i (.overlay next base)) ∧
          next.owned = (o.owned.without n).dropMaps gone ∧
          (next.owned = o.owned ↔ o.Lacks n gone) ∧
          (next.owned = o.owned → ∀ j, (s.set i (.overlay next base)).graph j = s.graph j)

variable {n : Node}

/-- Deleting from a stored graph takes the node and what is at it, and nothing else. -/
theorem Sound.deletesFromStored (sound : s.Sound) {g : StoredGraph}
    (found : s.layers[i]? = some (.stored g)) : s.DeletesFromStored i g n where
  present has := by
    have consistent : g.Consistent := sound _ _ found
    refine ⟨g.without n, ?_, consistent.losesNode has, rfl, rfl⟩
    simp only [deleteNode_eq, found, consistent.deleteNode_eq has]
  absent lacks := by
    have kept : g.deleteNode n = (false, g) := by simp [StoredGraph.deleteNode, lacks]
    simp only [deleteNode_eq, found, kept, set_eq_self found]
  undone draws id properties added rest later adding adds := by
    have consistent : g.Consistent := sound _ _ found
    rw [addNode_eq, found] at adding
    obtain ⟨⟨m, g'⟩, taken, eq⟩ := Fallible.bind_eq_ok_iff.mp adding
    cases eq
    have soundAdded : (s.set i (.stored g')).Sound :=
      sound.set (consistent.addNode taken : Layer.Sound i (.stored g'))
    obtain ⟨_, after, _, consistent', h, rfl, present, back⟩ := soundAdded.afterAll_of_addsArcAt
      (fun now => ∃ h : StoredGraph, now = .stored h ∧ h.nodes.contains n = true ∧
        (h.without n).graph = g.graph)
      (getElem?_set_self found) ⟨g', rfl, consistent.queries_of_addNode taken⟩
      (fun soundNow adding holds becomes => by
        obtain ⟨h, rfl, present, back⟩ := holds
        cases becomes with
        | stored performed =>
            have consistent : h.Consistent := soundNow
            obtain ⟨present, same⟩ := consistent.queries_of_addsArcAt present adding performed
            exact ⟨_, rfl, present, same.trans back⟩)
      adds
    have consistent' : h.Consistent := consistent'
    rw [after, set_set]
    refine ⟨s.set i (.stored (h.without n)), ?_, graph_set_congr found rfl fun _ => back⟩
    simp only [deleteNode_eq, getElem?_set_self found, consistent'.deleteNode_eq present, set_set]

/-- Deleting from an overlay takes the node and what is owned at it, and nothing else. -/
theorem Sound.deletesFromOverlay (sound : s.Sound) {o : Overlay} {base : Nat}
    (found : s.layers[i]? = some (.overlay o base)) : s.DeletesFromOverlay i o base n where
  owned has := by
    obtain ⟨consistent, below⟩ := sound _ _ found
    obtain ⟨told, left⟩ := consistent.owned_deleteNode has
    refine ⟨(o.deleteNode n).2, ?_, left,
      consistent.ownAt_of_without (consistent.deleteNode n) left, fun j before => ?_⟩
    · simp only [deleteNode_eq, found, told]
    · exact graph_set s _ before
  foreign lacks := by
    have kept : o.deleteNode n = (false, o) := by simp [Overlay.deleteNode, lacks]
    simp only [deleteNode_eq, found, kept, set_eq_self found]
  undone draws id properties added rest later adding adds := by
    obtain ⟨consistent, below⟩ := sound _ _ found
    rw [addNode_eq, found] at adding
    obtain ⟨⟨m, o', left⟩, taken, eq⟩ := Fallible.bind_eq_ok_iff.mp adding
    cases eq
    have soundAdded : (s.set i (.overlay o' base)).Sound :=
      sound.set (⟨consistent.addNode taken, below⟩ : Layer.Sound i (.overlay o' base))
    obtain ⟨foreign, present, arcs, same⟩ := Overlay.owned_of_addNode taken
    obtain ⟨_, after, _, soundNow, p, rfl, present, gone, grown, lost⟩ :=
      soundAdded.afterAll_of_addsArcAt
        (fun now => ∃ p : Overlay, now = .overlay p base ∧ p.nodes.contains n = true ∧
          ∃ gone, p.arcs.keys = o.arcs.keys ++ gone ∧
            p.owned.without n = (o.owned.without n).dropMaps gone)
        (getElem?_set_self found)
        ⟨o', rfl, present, [], by rw [arcs, List.append_nil], by rw [same, Owned.dropMaps_nil]⟩
        (fun soundNow adding holds becomes => by
          obtain ⟨p, rfl, present, gone, grown, lost⟩ := holds
          cases becomes with
          | overlay performed =>
              obtain ⟨present, a, last, loses⟩ :=
                soundNow.1.owned_of_addsArcAt present adding performed
              refine ⟨_, rfl, present, gone ++ [a], ?_, ?_⟩
              · rw [last, grown, List.append_assoc]
              · rw [loses, lost, ← Owned.dropMaps_append])
        adds
    obtain ⟨consistent', _⟩ := soundNow
    obtain ⟨told, left⟩ := consistent'.owned_deleteNode present
    have owned := left.trans lost
    rw [after, set_set]
    refine ⟨p, (p.deleteNode n).2, gone, getElem?_set_self found, grown, ?_, owned, ?_, ?_⟩
    · simp only [deleteNode_eq, getElem?_set_self found, told, set_set]
    · rw [owned]
      exact consistent.without_dropMaps_eq_self_iff foreign gone
    · intro restored
      exact graph_set_congr found rfl fun below =>
        (consistent'.deleteNode n).graphOver_congr consistent restored below

/-- After every history, deleting a node of a stored graph or of an overlay removes the node and
what is at it, and nothing else, and a node that is not owned is not deleted and nothing
changes.  Deleting a new node restores what there was before it and its arcs were added: in a
stored graph always, in an overlay exactly if it held nothing under their ids. -/
theorem deleteNode_afterAll (events : List Event) (i : Nat) (n : Node) :
    (∀ g, (empty.afterAll events).layers[i]? = some (.stored g) →
      (empty.afterAll events).DeletesFromStored i g n) ∧
    ∀ o base, (empty.afterAll events).layers[i]? = some (.overlay o base) →
      (empty.afterAll events).DeletesFromOverlay i o base n := by
  have sound := sound_empty.afterAll events
  exact ⟨fun _ found => sound.deletesFromStored found,
    fun _ _ found => sound.deletesFromOverlay found⟩

/-- Two nodes with arcs in both directions and a loop, and an overlay that joins a node of its
own to the first. -/
def joinedPair : List Event :=
  [.stored, .change 0 [] (.addNode none none), .change 0 [] (.addNode none none),
    .change 0 [] (.addArc ⟨1⟩ ⟨2⟩ .directed none none),
    .change 0 [] (.addArc ⟨2⟩ ⟨1⟩ .undirected none none),
    .change 0 [] (.addArc ⟨2⟩ ⟨2⟩ .directed none none), .overlay 0,
    .change 1 [7] (.addNode none none),
    .change 1 [] (.addArc ⟨1⟩ ⟨7⟩ .directed (some (.int 4)) none)]

section Evaluation

-- The queries are defined by recursion on positions, which is opened to evaluate them here.
unseal graph

/-- The second node goes from the stored graph only, the overlay's own node from the overlay,
and a new node of the overlay with an edge goes without a trace. -/
theorem deleteNode_afterAll_joinedPair :
    (∃ g next, (empty.afterAll joinedPair).layers[0]? = some (.stored g) ∧
      (empty.afterAll joinedPair).deleteNode 0 ⟨2⟩ =
        .ok (true, (empty.afterAll joinedPair).set 0 (.stored next)) ∧
      g.graph.LosesNode next.graph ⟨2⟩) ∧
    (empty.afterAll joinedPair).deleteNode 1 ⟨2⟩ = .ok (false, empty.afterAll joinedPair) ∧
    (∃ o next, (empty.afterAll joinedPair).layers[1]? = some (.overlay o 0) ∧
      (empty.afterAll joinedPair).deleteNode 1 ⟨7⟩ =
        .ok (true, (empty.afterAll joinedPair).set 1 (.overlay next 0)) ∧
      next.owned = o.owned.without ⟨7⟩) ∧
    ∃ added restored, (empty.afterAll joinedPair).addNode 1 [9] none none = .ok (⟨9⟩, added, []) ∧
      (added.afterAll [.change 1 [] (.addArc ⟨1⟩ ⟨9⟩ .undirected (some (.int 5)) none)]).deleteNode
        1 ⟨9⟩ = .ok (true, restored) ∧
      ∀ j, restored.graph j = (empty.afterAll joinedPair).graph j := by
  obtain ⟨g, stored⟩ : ∃ g, (empty.afterAll joinedPair).layers[0]? = some (.stored g) := ⟨_, rfl⟩
  obtain ⟨o, overlay⟩ : ∃ o, (empty.afterAll joinedPair).layers[1]? = some (.overlay o 0) :=
    ⟨_, rfl⟩
  obtain ⟨added, adding⟩ : ∃ added, (empty.afterAll joinedPair).addNode 1 [9] none none =
      .ok (⟨9⟩, added, []) := ⟨_, rfl⟩
  have hasSecond : g.nodes.contains ⟨2⟩ = true := by
    cases stored
    rfl
  have own : o.nodes.contains ⟨7⟩ = true ∧ o.nodes.contains ⟨2⟩ = false ∧
      o.ownAt ⟨9⟩ = [] ∧ o.properties = .empty := by
    cases overlay
    exact ⟨rfl, rfl, rfl, rfl⟩
  obtain ⟨next, deleted, loses, _⟩ :=
    ((deleteNode_afterAll joinedPair 0 ⟨2⟩).1 g stored).present hasSecond
  obtain ⟨nextOverlay, deletedOwn, left, _⟩ :=
    ((deleteNode_afterAll joinedPair 1 ⟨7⟩).2 o 0 overlay).owned own.1
  obtain ⟨_, restored, gone, _, _, undone, _, exactly, same⟩ :=
    ((deleteNode_afterAll joinedPair 1 ⟨9⟩).2 o 0 overlay).undone [9] none none added
      [] [.change 1 [] (.addArc ⟨1⟩ ⟨9⟩ .undirected (some (.int 5)) none)] adding
      (List.forall_mem_singleton.mpr ⟨rfl, .inr rfl⟩)
  have lacks : o.Lacks ⟨9⟩ gone :=
    ⟨own.2.2.1, by rw [own.2.2.2]; rfl, fun _ _ => by rw [own.2.2.2]; rfl⟩
  exact ⟨⟨g, next, stored, deleted, loses⟩,
    ((deleteNode_afterAll joinedPair 1 ⟨2⟩).2 o 0 overlay).foreign own.2.1,
    ⟨o, nextOverlay, overlay, deletedOwn, left⟩, added, _, adding, undone,
    same (exactly.mpr lacks)⟩

/-- An overlay has a map for an arc of its base and an arc to the second node, and then the base
deletes that node. -/
def lostToBase : List Event :=
  [.stored, .change 0 [] (.addNode none none), .change 0 [] (.addNode none none),
    .change 0 [] (.addArc ⟨1⟩ ⟨2⟩ .directed none none), .overlay 0,
    .change 1 [] (.setArcProperties ⟨1⟩ (some [(.text "name", .text "a")])),
    .change 1 [] (.addArc ⟨1⟩ ⟨2⟩ .directed (some (.int 7)) none),
    .change 0 [] (.deleteNode ⟨2⟩)]

/-- A node and an arc are added under the lost ids and deleted again: the overlay no longer
answers with the map, nor owns the arc that had lost its end. -/
theorem deleteNode_lostToBase :
    ∃ o next added restored,
      (empty.afterAll lostToBase).layers[1]? = some (.overlay o 0) ∧
      (empty.afterAll lostToBase).addNode 1 [] (some (.int 2)) none = .ok (⟨2⟩, added, []) ∧
      (added.afterAll [.change 1 [] (.addArc ⟨1⟩ ⟨2⟩ .directed (some (.int 1)) none)]).deleteNode
        1 ⟨2⟩ = .ok (true, restored) ∧
      restored.layers[1]? = some (.overlay next 0) ∧
      (o.arcs.contains ⟨7⟩ = true ∧ next.arcs.contains ⟨7⟩ = false) ∧
      ((empty.afterAll lostToBase).graph 1).arcProperties ⟨1⟩ = some [(.text "name", .text "a")] ∧
      (restored.graph 1).arcProperties ⟨1⟩ = none :=
  ⟨_, _, _, _, rfl, rfl, rfl, rfl, ⟨rfl, rfl⟩, rfl, rfl⟩

end Evaluation

end Store

end ArcSelection
