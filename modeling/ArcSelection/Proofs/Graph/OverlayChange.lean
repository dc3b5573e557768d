import ArcSelection.Proofs.Graph.History
import ArcSelection.Proofs.Graph.Overlay

/-!
# Changes of an overlay

Every change keeps the parts of an overlay in agreement, whatever its base does.
-/

namespace ArcSelection

namespace Overlay

/-- The arcs that an index keeps for a node. -/
def keptAt (m : OrderedMap Node (OrderedSet Arc)) (n : Node) : List Arc :=
  ((m.get? n).getD .empty).keys

section Index

variable {m : OrderedMap Node (OrderedSet Arc)} {n k : Node} {a : Arc}

/-- Indexing an arc at a node puts it last there, once. -/
theorem keptAt_index :
    keptAt (index m n a) k =
      if n = k ∧ a ∉ keptAt m k then keptAt m k ++ [a] else keptAt m k := by
  by_cases same : n = k
  · subst same
    rw [keptAt, index, OrderedMap.get?_insert_self, Option.getD_some, OrderedMap.keys_insert]
    by_cases listed : a ∈ keptAt m n
    · rw [if_pos ((OrderedMap.mem_keys_iff _ _).mp listed), if_neg (by simp [listed]), keptAt]
    · rw [if_neg (listed ∘ (OrderedMap.mem_keys_iff _ _).mpr), if_pos ⟨rfl, listed⟩, keptAt]
  · rw [keptAt, index, OrderedMap.get?_insert_of_ne _ same, if_neg (by simp [same]), keptAt]

/-- The last arc of a node takes the node with it. -/
theorem unindex_cases :
    (∃ as, m.get? n = some as ∧
      ((as.erase a).isEmpty = true ∧ unindex m n a = m.erase n ∨
        (as.erase a).isEmpty = false ∧ unindex m n a = m.insert n (as.erase a))) ∨
      m.get? n = none ∧ unindex m n a = m := by
  cases found : m.get? n with
  | none => exact .inr ⟨rfl, by rw [unindex, found]⟩
  | some as =>
      refine .inl ⟨as, rfl, ?_⟩
      cases last : (as.erase a).isEmpty with
      | true => exact .inl ⟨rfl, by simp [unindex, found, last]⟩
      | false => exact .inr ⟨rfl, by simp [unindex, found, last]⟩

/-- An arc is no longer found at a node where its entry was dropped. -/
theorem keptAt_unindex :
    keptAt (unindex m n a) k =
      if n = k then (keptAt m k).filter (· != a) else keptAt m k := by
  by_cases same : n = k
  · subst same
    rw [if_pos rfl]
    rcases unindex_cases (m := m) (n := n) (a := a) with
      ⟨as, found, ⟨last, eq⟩ | ⟨_, eq⟩⟩ | ⟨found, eq⟩
    · rw [eq, keptAt, keptAt, OrderedMap.get?_erase_self, found, Option.getD_some,
        ← OrderedMap.keys_erase, OrderedMap.keys_eq_nil_of_isEmpty last]
      rfl
    · rw [eq, keptAt, keptAt, OrderedMap.get?_insert_self, found, Option.getD_some,
        Option.getD_some, OrderedMap.keys_erase]
    · rw [eq, keptAt, found]
      rfl
  · rw [if_neg same]
    rcases unindex_cases (m := m) (n := n) (a := a) with
      ⟨as, _, ⟨_, eq⟩ | ⟨_, eq⟩⟩ | ⟨_, eq⟩
    · rw [eq, keptAt, OrderedMap.get?_erase_of_ne _ same, keptAt]
    · rw [eq, keptAt, OrderedMap.get?_insert_of_ne _ same, keptAt]
    · rw [eq]

/-- Indexing leaves no entry bare. -/
theorem NoneBare.index (noneBare : NoneBare m) : NoneBare (index m n a) := by
  intro k as found
  rw [Overlay.index, OrderedMap.get?_insert] at found
  split at found
  · cases found
    exact OrderedMap.isEmpty_of_contains (k := a) (by simp [OrderedMap.contains_insert])
  · exact noneBare k as found

/-- Dropping an entry leaves none bare. -/
theorem NoneBare.unindex (noneBare : NoneBare m) : NoneBare (unindex m n a) := by
  intro k as found
  rcases unindex_cases (m := m) (n := n) (a := a) with
    ⟨rest, _, ⟨_, eq⟩ | ⟨some, eq⟩⟩ | ⟨_, eq⟩
  · rw [eq, OrderedMap.get?_erase] at found
    split at found
    · cases found
    · exact noneBare k as found
  · rw [eq, OrderedMap.get?_insert] at found
    split at found
    · cases found
      exact some
    · exact noneBare k as found
  · exact noneBare k as (eq ▸ found)

end Index

variable {o : Overlay} {base : Graph} {a : Arc} {n : Node} {r : ArcRecord}

theorem ownAt_eq : o.ownAt n = keptAt o.arcsAt n := by
  rw [ownAt, keptAt]
  cases o.arcsAt.get? n <;> rfl

theorem consistent_empty : empty.Consistent := ⟨rfl, fun _ => rfl, nofun⟩

/-- Nodes and properties can be changed freely. -/
theorem Consistent.withNodes (consistent : o.Consistent) (nodes : OrderedSet Node)
    (properties : PropertyStore) :
    { o with nodes := nodes, properties := properties : Overlay }.Consistent :=
  ⟨consistent.edges, consistent.indexed, consistent.noneBare⟩

/-- Adding a new arc keeps an overlay consistent. -/
theorem Consistent.putArc (consistent : o.Consistent) (absent : o.arcs.contains a = false)
    (r : ArcRecord) (properties : Option Properties) : (o.putArc a r properties).Consistent where
  edges := OrderedMap.keys_insert_eq_keysWhere consistent.edges absent r
  indexed n := by
    have kept : ∀ k, keptAt o.arcsAt k = o.arcs.keysWhere (·.touches k) := fun k =>
      ownAt_eq.symm.trans (consistent.indexed k)
    have notKept : ∀ k, a ∉ keptAt o.arcsAt k := fun k =>
      kept k ▸ OrderedMap.not_mem_keysWhere absent _
    -- A loop is recorded twice at its node, and listed once.
    rw [ownAt_eq, Overlay.putArc, OrderedMap.keysWhere_insert absent, ← kept]
    by_cases head : r.head = n <;> by_cases tail : r.tail = n <;>
      simp [keptAt_index, head, tail, notKept, ArcRecord.touches]
  noneBare := NoneBare.index (NoneBare.index consistent.noneBare)

/-- Deleting an arc that is not owned changes nothing. -/
theorem deleteArc_of_none (found : o.arcs.get? a = none) : (o.deleteArc a).2 = o := by
  simp [Overlay.deleteArc, found]

/-- Deleting an arc keeps an overlay consistent. -/
theorem Consistent.deleteArc (consistent : o.Consistent) (a : Arc) :
    (o.deleteArc a).2.Consistent := by
  cases recorded : o.arcs.get? a with
  | none => rwa [deleteArc_of_none recorded]
  | some r =>
      have removed : (o.deleteArc a).2 =
          { o with
            arcs := o.arcs.erase a
            edges := o.edges.erase a
            arcsAt := unindex (unindex o.arcsAt r.tail a) r.head a
            properties := o.properties.setArc a none } := by
        simp [Overlay.deleteArc, recorded]
      rw [removed]
      refine ⟨?_, fun n => ?_, NoneBare.unindex (NoneBare.unindex consistent.noneBare)⟩
      · rw [OrderedMap.keys_erase, OrderedMap.keysWhere_erase, consistent.edges]
      · have kept : keptAt o.arcsAt n = o.arcs.keysWhere (·.touches n) :=
          ownAt_eq.symm.trans (consistent.indexed n)
        rw [ownAt_eq, keptAt_unindex, keptAt_unindex, kept]
        by_cases touched : r.touches n = true
        · rw [OrderedMap.keysWhere_erase]
          rcases ArcRecord.touches_iff.mp touched with tail | head
          · rw [if_pos tail]
            split <;> simp
          · rw [if_pos head]
            split <;> simp
        · rw [OrderedMap.keysWhere_erase_of_fails recorded (by simpa using touched)]
          rw [ArcRecord.touches_iff, not_or] at touched
          rw [if_neg touched.2, if_neg touched.1]

/-- Deleting arcs one after the other keeps an overlay consistent. -/
theorem Consistent.deleteArcs (consistent : o.Consistent) (as : List Arc) :
    (as.foldl (fun p a => (p.deleteArc a).2) o).Consistent := by
  induction as generalizing o with
  | nil => exact consistent
  | cons a as ih => exact ih (consistent.deleteArc a)

/-- Deleting an arc leaves the records of the others. -/
theorem get?_arcs_deleteArc (o : Overlay) (a b : Arc) :
    (o.deleteArc a).2.arcs.get? b = if a = b then none else o.arcs.get? b := by
  cases recorded : o.arcs.get? a with
  | none =>
      rw [deleteArc_of_none recorded]
      split
      · rw [← ‹a = b›, recorded]
      · rfl
  | some r => simp only [Overlay.deleteArc, recorded, OrderedMap.get?_erase, beq_iff_eq]

/-- Deleting arcs leaves the records of all others. -/
theorem get?_arcs_deleteArcs (o : Overlay) (as : List Arc) (b : Arc) :
    (as.foldl (fun p a => (p.deleteArc a).2) o).arcs.get? b =
      if b ∈ as then none else o.arcs.get? b := by
  induction as generalizing o with
  | nil => rfl
  | cons a as ih =>
      rw [List.foldl_cons, ih, get?_arcs_deleteArc]
      by_cases later : b ∈ as
      · rw [if_pos later, if_pos (List.mem_cons_of_mem _ later)]
      · simp only [later, List.mem_cons, or_false, if_false, eq_comm]

/-- Deleting arcs deletes no node. -/
theorem nodes_deleteArcs (o : Overlay) (as : List Arc) :
    (as.foldl (fun p a => (p.deleteArc a).2) o).nodes = o.nodes := by
  induction as generalizing o with
  | nil => rfl
  | cons a as ih =>
      rw [List.foldl_cons, ih, Overlay.deleteArc]
      split <;> rfl

/-- Deleting a node that is not owned changes nothing. -/
theorem deleteNode_of_foreign (foreign : o.nodes.contains n = false) : (o.deleteNode n).2 = o := by
  simp [Overlay.deleteNode, foreign]

/-- An owned node is deleted with the owned arcs at it. -/
theorem deleteNode_of_owned (owned : o.nodes.contains n = true) :
    (o.deleteNode n).2.nodes = o.nodes.erase n ∧
      ∀ a, (o.deleteNode n).2.arcs.get? a = if a ∈ o.ownAt n then none else o.arcs.get? a := by
  rw [Overlay.deleteNode, if_pos owned]
  exact ⟨congrArg (OrderedMap.erase · n) (nodes_deleteArcs o _), get?_arcs_deleteArcs o _⟩

/-- Deleting a node keeps an overlay consistent. -/
theorem Consistent.deleteNode (consistent : o.Consistent) (n : Node) :
    (o.deleteNode n).2.Consistent := by
  unfold Overlay.deleteNode
  split
  · exact (consistent.deleteArcs _).withNodes _ _
  · exact consistent

variable {draws rest : List Int} {id : Option Value} {properties : Option Properties}
  {o' : Overlay}

/-- An allocation takes an id that is free. -/
theorem free_of_allocate? {taken : Int → Bool} {given : Allocation}
    (allocated : allocate? taken draws = some given) : taken given.id = false := by
  induction draws generalizing given with
  | nil => cases allocated
  | cons draw rest ih =>
      rw [allocate?] at allocated
      split at allocated
      · obtain ⟨later, found, rfl⟩ := Option.map_eq_some_iff.mp allocated
        have free : taken later.id = false := ih found
        exact free
      · cases allocated
        exact Bool.not_eq_true _ ▸ ‹¬taken draw = true›

/-- A node that is added was not there, and is entered as it is given. -/
theorem addNode_cases (added : o.addNode base draws id properties = .ok (n, o', rest)) :
    o.hasNode base n = false ∧ o' = o.putNode n properties := by
  cases id with
  | none =>
      simp only [addNode_eq] at added
      split at added
      · cases added
      · rename_i given allocated
        cases added
        exact ⟨free_of_allocate? allocated, rfl⟩
  | some value =>
      simp only [addNode_eq] at added
      split at added
      · cases added
      · split at added
        · cases added
        · rename_i free
          cases added
          exact ⟨Bool.not_eq_true _ ▸ free, rfl⟩

/-- An arc that is added has a free id and joins nodes, and is entered as it is given. -/
theorem addArc_cases {u v : Node} {direction : Directedness}
    (added : o.addArc base draws u v direction id properties = .ok (a, o', rest)) :
    o.hasNode base u = true ∧ o.hasNode base v = true ∧ o.isArcTaken base a = false ∧
      o' = o.putArc a ⟨u, v, direction == .undirected⟩ properties := by
  rw [addArc_eq] at added
  split at added
  · cases added
  · rename_i tail
    split at added
    · cases added
    · rename_i head
      refine ⟨by simpa using tail, by simpa using head, ?_⟩
      cases id with
      | none =>
          dsimp only at added
          split at added
          · cases added
          · rename_i given allocated
            cases added
            exact ⟨free_of_allocate? allocated, rfl⟩
      | some value =>
          dsimp only at added
          split at added
          · cases added
          · split at added
            · cases added
            · rename_i free
              cases added
              exact ⟨Bool.not_eq_true _ ▸ free, rfl⟩

/-- An added node keeps an overlay consistent. -/
theorem Consistent.addNode (consistent : o.Consistent)
    (added : o.addNode base draws id properties = .ok (n, o', rest)) : o'.Consistent := by
  obtain ⟨_, rfl⟩ := addNode_cases added
  exact consistent.withNodes _ _

/-- An added arc keeps an overlay consistent. -/
theorem Consistent.addArc (consistent : o.Consistent) {u v : Node} {direction : Directedness}
    (added : o.addArc base draws u v direction id properties = .ok (a, o', rest)) :
    o'.Consistent := by
  obtain ⟨_, _, free, rfl⟩ := addArc_cases added
  exact consistent.putArc (Bool.or_eq_false_iff.mp free).1 _ _

/-- The overlay a call makes of an overlay over a base, or why it is refused. -/
def perform (o : Overlay) (base : Graph) (draws : List Int) : Change → Except Fault Overlay
  | .addNode id properties => (o.addNode base draws id properties).map (·.2.1)
  | .addArc u v direction id properties =>
      (o.addArc base draws u v direction id properties).map (·.2.1)
  | .deleteNode n => .ok (o.deleteNode n).2
  | .deleteArc a => .ok (o.deleteArc a).2
  | .clear => .ok .empty
  | .setNodeProperties n properties =>
      if (o.graphOver base).hasNode n then
        .ok { o with properties := o.properties.setNode n properties }
      else .error (.foreignNode n)
  | .setArcProperties a properties =>
      if (o.graphOver base).hasArc a then
        .ok { o with properties := o.properties.setArc a properties }
      else .error (.foreignArc a)

/-- What a call can do to the nodes and arcs that an overlay owns. -/
inductive Alters (base : Graph) (o o' : Overlay) : Prop
  | addsNode (n : Node) (free : o.hasNode base n = false)
      (nodes : o'.nodes = o.nodes.insert n ()) (arcs : o'.arcs = o.arcs)
  | addsArc (a : Arc) (r : ArcRecord) (tail : o.hasNode base r.tail = true)
      (head : o.hasNode base r.head = true) (free : o.isArcTaken base a = false)
      (nodes : o'.nodes = o.nodes) (arcs : o'.arcs = o.arcs.insert a r)
  | dropsNode (n : Node) (nodes : o'.nodes = o.nodes.erase n)
      (arcs : ∀ a, o'.arcs.get? a = if a ∈ o.ownAt n then none else o.arcs.get? a)
  | dropsArc (b : Arc) (nodes : o'.nodes = o.nodes)
      (arcs : ∀ a, o'.arcs.get? a = if b = a then none else o.arcs.get? a)
  | clears (empty : o' = .empty)
  | keeps (nodes : o'.nodes = o.nodes) (arcs : o'.arcs = o.arcs)

/-- A call that is accepted alters the overlay in one of the ways that are listed. -/
theorem alters_of_perform {change : Change} (performed : o.perform base draws change = .ok o') :
    Alters base o o' := by
  cases change with
  | addNode id properties =>
      obtain ⟨⟨n, next, rest⟩, added, rfl⟩ := Fallible.map_eq_ok_iff.mp performed
      obtain ⟨free, rfl⟩ := addNode_cases added
      exact .addsNode n free rfl rfl
  | addArc u v direction id properties =>
      obtain ⟨⟨a, next, rest⟩, added, rfl⟩ := Fallible.map_eq_ok_iff.mp performed
      obtain ⟨tail, head, free, rfl⟩ := addArc_cases added
      exact .addsArc a _ tail head free rfl rfl
  | deleteNode n =>
      cases performed
      cases owned : o.nodes.contains n with
      | false =>
          rw [deleteNode_of_foreign owned]
          exact .keeps rfl rfl
      | true => exact .dropsNode n (deleteNode_of_owned owned).1 (deleteNode_of_owned owned).2
  | deleteArc b =>
      cases performed
      exact .dropsArc b (nodes_deleteArcs o [b]) (get?_arcs_deleteArc o b)
  | clear =>
      cases performed
      exact .clears rfl
  | setNodeProperties n properties =>
      simp only [perform] at performed
      split at performed <;> cases performed
      exact .keeps rfl rfl
  | setArcProperties a properties =>
      simp only [perform] at performed
      split at performed <;> cases performed
      exact .keeps rfl rfl

/-- A call that is not refused keeps the parts of the overlay in agreement. -/
theorem Consistent.perform (consistent : o.Consistent) {change : Change}
    (performed : o.perform base draws change = .ok o') : o'.Consistent := by
  cases change with
  | addNode id properties =>
      obtain ⟨⟨n, next, rest⟩, added, rfl⟩ := Fallible.map_eq_ok_iff.mp performed
      exact consistent.addNode added
  | addArc u v direction id properties =>
      obtain ⟨⟨a, next, rest⟩, added, rfl⟩ := Fallible.map_eq_ok_iff.mp performed
      exact consistent.addArc added
  | deleteNode n =>
      cases performed
      exact consistent.deleteNode n
  | deleteArc a =>
      cases performed
      exact consistent.deleteArc a
  | clear =>
      cases performed
      exact consistent_empty
  | setNodeProperties n properties =>
      simp only [Overlay.perform] at performed
      split at performed
      · cases performed
        exact consistent.withNodes _ _
      · cases performed
  | setArcProperties a properties =>
      simp only [Overlay.perform] at performed
      split at performed
      · cases performed
        exact consistent.withNodes _ _
      · cases performed

end Overlay

end ArcSelection
