import ArcSelection.Proofs.Graph.Matching
import ArcSelection.Proofs.Graph.OverlayChange
import ArcSelection.Proofs.Graph.StoreAttempt

/-!
# Histories of a store

A history is a list of events: a graph or a view is made, or a call is made to one of the
graphs there are. An event that is refused has written nothing and leaves the store as it was.
In every store that a history leads to, a view looks at an earlier graph and the parts of each
stored graph and of each overlay agree.
-/

namespace ArcSelection

/-- What a layer needs at its position, whatever the layers below it hold. -/
def Layer.Sound (i : Nat) : Layer → Prop
  | .stored g => g.Consistent
  | .complete _ => True
  | .overlay o base => o.Consistent ∧ base < i
  | .undirected _ base | .selection _ base | .matching _ base => base < i

/-- A layer looks at one below it. -/
theorem Layer.Sound.base_lt {i base : Nat} {layer : Layer} (sound : layer.Sound i)
    (looks : layer.base? = some base) : base < i := by
  cases layer <;> cases looks
  case overlay => exact sound.2
  all_goals exact sound

namespace Store

open Attempt

/-- Every layer of the store is sound. -/
def Sound (s : Store) : Prop :=
  ∀ (i : Nat) (layer : Layer), s.layers[i]? = some layer → layer.Sound i

variable {s s' : Store} {i base : Nat} {layer : Layer}

/-- A layer that looks at none is queried by itself. -/
theorem graph_of_ground (found : s.layers[i]? = some layer) (ground : layer.base? = none) :
    s.graph i = layer.graph StoredGraph.empty.graph := by
  rw [graph, found]
  simp [ground]

/-- A view is queried over the layer that it looks at. -/
theorem graph_of_view (found : s.layers[i]? = some layer) (looks : layer.base? = some base)
    (below : base < i) : s.graph i = layer.graph (s.graph base) := by
  rw [graph, found]
  simp [looks, below]

theorem baseGraph_of_view (found : s.layers[i]? = some layer) (looks : layer.base? = some base)
    (below : base < i) : s.baseGraph i = s.graph base := by
  rw [baseGraph, found]
  simp [looks, below]

/-- The queries of a sound layer are computed from those of its base. -/
theorem Sound.graph_eq (sound : s.Sound) (found : s.layers[i]? = some layer) :
    s.graph i = layer.graph (s.baseGraph i) := by
  cases looks : layer.base? with
  | none =>
      rw [graph_of_ground found looks, baseGraph, found]
      simp [looks]
  | some base =>
      have below := (sound i layer found).base_lt looks
      rw [graph_of_view found looks below, baseGraph_of_view found looks below]

/-- The graph at a position depends on the layers up to there. -/
theorem graph_congr {i : Nat} (same : ∀ k ≤ i, s'.layers[k]? = s.layers[k]?) :
    s'.graph i = s.graph i := by
  induction i using Nat.strong_induction_on with
  | _ i below =>
      unfold graph
      rw [same i le_rfl]
      cases s.layers[i]? with
      | none => rfl
      | some view =>
          dsimp only
          cases view.base? with
          | none => rfl
          | some base =>
              dsimp only
              by_cases lower : base < i
              · rw [if_pos lower, if_pos lower,
                  below base lower fun k upTo => same k (upTo.trans lower.le)]
              · rw [if_neg lower, if_neg lower]

/-- Adding a layer changes no graph that is there. -/
theorem graph_add (s : Store) (layer : Layer) {i : Nat} (there : i < s.layers.length) :
    (s.add layer).2.graph i = s.graph i :=
  graph_congr fun _ upTo => List.getElem?_append_left (upTo.trans_lt there)

/-- A layer that was put is found. -/
theorem getElem?_set_self {layer' : Layer} (found : s.layers[i]? = some layer) :
    (s.set i layer').layers[i]? = some layer' :=
  List.getElem?_set_self (List.getElem?_eq_some_iff.mp found).1

/-- Replacing a layer changes no graph before it. -/
theorem graph_set (s : Store) (layer : Layer) {i j : Nat} (before : i < j) :
    (s.set j layer).graph i = s.graph i :=
  graph_congr fun _ upTo => List.getElem?_set_ne (upTo.trans_lt before).ne'

/-- The empty store is sound. -/
theorem sound_empty : empty.Sound := by
  intro i layer found
  cases found

/-- A layer of a store with one more was there before, or is the new one. -/
theorem layer_add_cases {other : Layer} (found : (s.add layer).2.layers[i]? = some other) :
    s.layers[i]? = some other ∨ s.layers.length = i ∧ other = layer := by
  rcases Nat.lt_trichotomy i s.layers.length with before | rfl | after
  · exact .inl (by rwa [Store.add, List.getElem?_append_left before] at found)
  · rw [Store.add, List.getElem?_concat_length, Option.some.injEq] at found
    exact .inr ⟨rfl, found.symm⟩
  · rw [Store.add, List.getElem?_eq_none (by simp; omega)] at found
    cases found

/-- A layer that is sound at the end can be added. -/
theorem Sound.add (sound : s.Sound) (fresh : layer.Sound s.layers.length) :
    (s.add layer).2.Sound := by
  intro i other found
  obtain there | ⟨rfl, rfl⟩ := layer_add_cases found
  · exact sound i other there
  · exact fresh

/-- Putting a sound layer keeps the store sound. -/
theorem Sound.set (sound : s.Sound) (kept : layer.Sound i) : (s.set i layer).Sound := by
  intro j other found
  rw [Store.set, List.getElem?_set] at found
  split at found
  · rename_i same
    subst same
    split at found
    · cases found
      exact kept
    · cases found
  · exact sound j other found

/-- What happens to a store. -/
inductive Event where
  | stored
  | complete (count : Value) (direction : Directedness)
  | undirected (base : Nat)
  | overlay (base : Nat)
  | selection (base : Nat)
  | matching (base : Nat)
  | change (i : Nat) (draws : List Int) (call : Change)
  | enable (i : Nat) (a : Arc) (on : Bool)

/-- The store with a view over a graph that is there. -/
def look (s : Store) (base : Nat) (view : Layer) : Except Fault Store :=
  if base < s.layers.length then .ok (s.add view).2 else .error .unsupported

/-- The store a call to one of its graphs makes of it. -/
def change (s : Store) (i : Nat) (draws : List Int) : Change → Except Fault Store
  | .addNode id properties => (s.addNode i draws id properties).map (·.2.1)
  | .addArc u v direction id properties =>
      (s.addArc i draws u v direction id properties).map (·.2.1)
  | .deleteNode n => (s.deleteNode i n).map (·.2)
  | .deleteArc a => (s.deleteArc i a).map (·.2)
  | .clear => s.clear i
  | .setNodeProperties n properties => s.setNodeProperties i n properties
  | .setArcProperties a properties => s.setArcProperties i a properties

/-- The store an event makes of a store, or why it is refused. -/
def perform (s : Store) : Event → Except Fault Store
  | .stored => .ok (s.add (.stored .empty)).2
  | .complete count direction =>
      (CompleteGraph.create count direction).map fun g => (s.add (.complete g)).2
  | .undirected base => s.look base (.undirected .fresh base)
  | .overlay base => s.look base (.overlay .empty base)
  | .selection base => s.look base (.selection .empty base)
  | .matching base => s.look base (.matching .empty base)
  | .change i draws call => s.change i draws call
  | .enable i a on => s.enable i a on

/-- Attempts to look at a graph that is there. -/
def tryLook (base : Nat) (view : Layer) : Attempt Store Unit := do
  if !decide (base < (<- get).layers.length) then throw .unsupported
  modify fun s => (s.add view).2

/-- Attempts a call to one of the graphs, check by check and write by write. -/
def tryChange (i : Nat) (draws : List Int) : Change → Attempt Store Unit
  | .addNode id properties => do let _ <- tryAddNode i draws id properties
  | .addArc u v direction id properties => do
      let _ <- tryAddArc i draws u v direction id properties
  | .deleteNode n => do let _ <- tryDeleteNode i n
  | .deleteArc a => do let _ <- tryDeleteArc i a
  | .clear => tryClear i
  | .setNodeProperties n properties => trySetNodeProperties i n properties
  | .setArcProperties a properties => trySetArcProperties i a properties

/-- Attempts what an event asks for. -/
def attempt : Event → Attempt Store Unit
  | .stored => modify fun s => (s.add (.stored .empty)).2
  | .complete count direction =>
      match CompleteGraph.create count direction with
      | .ok g => modify fun s => (s.add (.complete g)).2
      | .error fault => throw fault
  | .undirected base => tryLook base (.undirected .fresh base)
  | .overlay base => tryLook base (.overlay .empty base)
  | .selection base => tryLook base (.selection .empty base)
  | .matching base => tryLook base (.matching .empty base)
  | .change i draws call => tryChange i draws call
  | .enable i a on => tryEnable i a on

/-- The store an event leaves, whether it happens or is refused on its way. -/
def after (s : Store) (event : Event) : Store := (attempt event).left s

/-- The store after a history. -/
def afterAll (s : Store) (events : List Event) : Store := events.foldl after s

/-- An attempted look is performed as a whole or changes nothing. -/
theorem tryLook_apply (s : Store) (base : Nat) (view : Layer) :
    tryLook base view s = settle s ((s.look base view).map fun next => ((), next)) := by
  simp only [tryLook, look, get_bind_apply, check_apply]
  by_cases there : base < s.layers.length <;> simp only [there] <;> rfl

/-- An attempted call is performed as a whole or changes nothing. -/
theorem tryChange_apply (s : Store) (i : Nat) (draws : List Int) (call : Change) :
    tryChange i draws call s =
      settle s ((s.change i draws call).map fun next => ((), next)) := by
  cases call with
  | addNode id properties =>
      refine ((atomic_tryAddNode i draws id properties).drop_apply s).trans ?_
      rw [change, addNode]
      cases (tryAddNode i draws id properties).outcome s <;> rfl
  | addArc u v direction id properties =>
      refine ((atomic_tryAddArc i draws id properties u v direction).drop_apply s).trans ?_
      rw [change, addArc]
      cases (tryAddArc i draws u v direction id properties).outcome s <;> rfl
  | deleteNode n => exact (atomic_tryDeleteNode i n).drop_apply s
  | deleteArc a => exact (atomic_tryDeleteArc i a).drop_apply s
  | clear =>
      refine ((atomic_tryClear i).eq_settle s).trans ?_
      rw [change, clear]
      cases (tryClear i).outcome s <;> rfl
  | setNodeProperties n properties =>
      refine (s.trySetNodeProperties_apply i properties n).trans ?_
      rw [change, setNodeProperties_eq]
      split
      · rfl
      · split <;> rfl
  | setArcProperties a properties =>
      refine (s.trySetArcProperties_apply i properties a).trans ?_
      rw [change, setArcProperties_eq]
      split
      · rfl
      · split <;> rfl

/-- An attempted event happens as a whole or changes nothing. -/
theorem attempt_apply (s : Store) (event : Event) :
    attempt event s = settle s ((s.perform event).map fun next => ((), next)) := by
  cases event with
  | stored => rfl
  | complete count direction =>
      simp only [attempt, perform]
      cases CompleteGraph.create count direction <;> rfl
  | undirected base => exact s.tryLook_apply base _
  | overlay base => exact s.tryLook_apply base _
  | selection base => exact s.tryLook_apply base _
  | matching base => exact s.tryLook_apply base _
  | change i draws call => exact s.tryChange_apply i draws call
  | enable i a on =>
      refine ((atomic_tryEnable i a on).eq_settle s).trans ?_
      rw [perform, enable]
      cases (tryEnable i a on).outcome s <;> rfl

/-- An event leaves what it makes of the store, and the store as it was if it is refused. -/
theorem after_eq (s : Store) (event : Event) :
    s.after event = match s.perform event with
      | .ok next => next
      | .error _ => s := by
  rw [after, left_of_settle (s.attempt_apply event)]
  cases s.perform event <;> rfl

end Store

/-- What a call to a graph can make of its layer, from the queries of the base. -/
inductive Layer.Becomes (base : Graph) (draws : List Int) (call : Change) : Layer → Layer → Prop
  | stored {g g' : StoredGraph} (performed : g.perform call = .ok g') :
      Layer.Becomes base draws call (.stored g) (.stored g')
  | overlay {o o' : Overlay} {b : Nat} (performed : o.perform base draws call = .ok o') :
      Layer.Becomes base draws call (.overlay o b) (.overlay o' b)
  | complete {g : CompleteGraph} (properties : PropertyStore) :
      Layer.Becomes base draws call (.complete g) (.complete { g with properties := properties })
  | undirected {view : UndirectedView} {b : Nat} (properties : PropertyStore) :
      Layer.Becomes base draws call (.undirected view b)
        (.undirected { view with properties := properties } b)

/-- A layer as it is made, before anything happens to it. -/
inductive Layer.Made : Layer → Prop
  | stored : Layer.Made (.stored .empty)
  | complete (g : CompleteGraph) : Layer.Made (.complete g)
  | undirected (base : Nat) : Layer.Made (.undirected .fresh base)
  | overlay (base : Nat) : Layer.Made (.overlay .empty base)
  | selection (base : Nat) : Layer.Made (.selection .empty base)
  | matching (base : Nat) : Layer.Made (.matching .empty base)

/-- A layer that is made over a layer before it is sound. -/
theorem Layer.Made.sound {layer : Layer} {i : Nat} (made : layer.Made)
    (below : ∀ base, layer.base? = some base → base < i) : layer.Sound i := by
  cases made with
  | stored => exact StoredGraph.consistent_empty
  | complete g => trivial
  | undirected base => exact below base rfl
  | overlay base => exact ⟨Overlay.consistent_empty, below base rfl⟩
  | selection base => exact below base rfl
  | matching base => exact below base rfl

/-- What an event can make of a layer that is there, from the queries of its base. -/
inductive Layer.Turns (base : Graph) : Layer → Layer → Prop
  | called {draws : List Int} {call : Change} {layer layer' : Layer}
      (becomes : Layer.Becomes base draws call layer layer') : Layer.Turns base layer layer'
  | selection {view : Selection} {b : Nat} (a : Arc) (on : Bool) :
      Layer.Turns base (.selection view b) (.selection (view.enable a on) b)
  | matching {view view' : Matching} {b : Nat} {a : Arc} {on : Bool}
      (switched : view.switch base a on = .ok view') :
      Layer.Turns base (.matching view b) (.matching view' b)

/-- A layer that a call has changed is sound. -/
theorem Layer.Becomes.sound {base : Graph} {draws : List Int} {call : Change}
    {layer layer' : Layer} {i : Nat} (becomes : Layer.Becomes base draws call layer layer')
    (sound : layer.Sound i) : layer'.Sound i := by
  cases becomes with
  | stored performed => exact StoredGraph.Consistent.perform sound performed
  | overlay performed => exact ⟨sound.1.perform performed, sound.2⟩
  | complete properties => trivial
  | undirected properties => exact sound

/-- A layer that a change of properties has turned is sound. -/
theorem Layer.Turns.sound {base : Graph} {layer layer' : Layer} {i : Nat}
    (turns : Layer.Turns base layer layer') (sound : layer.Sound i) : layer'.Sound i := by
  cases turns with
  | called becomes => exact becomes.sound sound
  | selection a on => exact sound
  | matching switched => exact sound

namespace Store

variable {s s' : Store} {i base : Nat} {layer : Layer}

/-- Properties of something present are changed in the layer that keeps them. -/
theorem Sound.becomes_of_modifyProperties (sound : s.Sound) (present : Graph → Prop)
    (inside : present (s.graph i)) {draws : List Int} {call : Change}
    {f : PropertyStore → PropertyStore} (modified : s.modifyProperties i f = .ok s')
    (stored : ∀ g : StoredGraph, present g.graph →
      g.perform call = .ok { g with properties := f g.properties })
    (overlay : ∀ o : Overlay, present (o.graphOver (s.baseGraph i)) →
      o.perform (s.baseGraph i) draws call = .ok { o with properties := f o.properties }) :
    ∃ layer layer', s.layers[i]? = some layer ∧ s' = s.set i layer' ∧
      Layer.Becomes (s.baseGraph i) draws call layer layer' := by
  unfold modifyProperties at modified
  split at modified
  · rename_i g found
    cases modified
    rw [sound.graph_eq found] at inside
    exact ⟨_, _, found, rfl, .stored (stored g inside)⟩
  · cases modified
    exact ⟨_, _, ‹_›, rfl, .complete _⟩
  · cases modified
    exact ⟨_, _, ‹_›, rfl, .undirected _⟩
  · rename_i o b found
    cases modified
    rw [sound.graph_eq found] at inside
    exact ⟨_, _, found, rfl, .overlay (overlay o inside)⟩
  · cases modified
  · cases modified

/-- A call that is not refused changes the layer it is made to, and no other. -/
theorem Sound.change_cases (sound : s.Sound) {draws : List Int} {call : Change}
    (changed : s.change i draws call = .ok s') :
    ∃ layer layer', s.layers[i]? = some layer ∧ s' = s.set i layer' ∧
      Layer.Becomes (s.baseGraph i) draws call layer layer' := by
  cases call with
  | addNode id properties =>
      obtain ⟨⟨n, next, rest⟩, added, rfl⟩ := Fallible.map_eq_ok_iff.mp changed
      rw [Store.addNode_eq] at added
      split at added
      · obtain ⟨⟨n, g⟩, taken, eq⟩ := Fallible.bind_eq_ok_iff.mp added
        cases eq
        exact ⟨_, _, ‹_›, rfl, .stored (Fallible.map_eq_ok_iff.mpr ⟨_, taken, rfl⟩)⟩
      · obtain ⟨⟨n, o, left⟩, taken, eq⟩ := Fallible.bind_eq_ok_iff.mp added
        cases eq
        exact ⟨_, _, ‹_›, rfl, .overlay (Fallible.map_eq_ok_iff.mpr ⟨_, taken, rfl⟩)⟩
      · cases added
  | addArc u v direction id properties =>
      obtain ⟨⟨a, next, rest⟩, added, rfl⟩ := Fallible.map_eq_ok_iff.mp changed
      rw [Store.addArc_eq] at added
      split at added
      · obtain ⟨⟨a, g⟩, taken, eq⟩ := Fallible.bind_eq_ok_iff.mp added
        cases eq
        exact ⟨_, _, ‹_›, rfl, .stored (Fallible.map_eq_ok_iff.mpr ⟨_, taken, rfl⟩)⟩
      · obtain ⟨⟨a, o, left⟩, taken, eq⟩ := Fallible.bind_eq_ok_iff.mp added
        cases eq
        exact ⟨_, _, ‹_›, rfl, .overlay (Fallible.map_eq_ok_iff.mpr ⟨_, taken, rfl⟩)⟩
      · cases added
  | deleteNode n =>
      obtain ⟨⟨present, next⟩, deleted, rfl⟩ := Fallible.map_eq_ok_iff.mp changed
      rw [Store.deleteNode_eq] at deleted
      split at deleted
      · cases deleted
        exact ⟨_, _, ‹_›, rfl, .stored rfl⟩
      · cases deleted
        exact ⟨_, _, ‹_›, rfl, .overlay rfl⟩
      · cases deleted
  | deleteArc a =>
      obtain ⟨⟨present, next⟩, deleted, rfl⟩ := Fallible.map_eq_ok_iff.mp changed
      rw [Store.deleteArc_eq] at deleted
      split at deleted
      · cases deleted
        exact ⟨_, _, ‹_›, rfl, .stored rfl⟩
      · cases deleted
        exact ⟨_, _, ‹_›, rfl, .overlay rfl⟩
      · cases deleted
  | clear =>
      simp only [change, clear_eq] at changed
      split at changed
      · cases changed
        exact ⟨_, _, ‹_›, rfl, .stored rfl⟩
      · cases changed
        exact ⟨_, _, ‹_›, rfl, .overlay rfl⟩
      · cases changed
  | setNodeProperties n properties =>
      simp only [change, setNodeProperties_eq] at changed
      split at changed
      · cases changed
      · split at changed
        · cases changed
        · rename_i inside
          exact sound.becomes_of_modifyProperties (fun g => g.hasNode n = true)
            (by simpa using inside) changed (fun _ present => if_pos present)
            fun _ present => if_pos present
  | setArcProperties a properties =>
      simp only [change, setArcProperties_eq] at changed
      split at changed
      · cases changed
      · split at changed
        · cases changed
        · rename_i inside
          exact sound.becomes_of_modifyProperties (fun g => g.hasArc a = true)
            (by simpa using inside) changed (fun _ present => if_pos present)
            fun _ present => if_pos present

/-- Switching an arc that is not refused changes a selection or a matching. -/
theorem enable_cases {a : Arc} {on : Bool} (switched : s.enable i a on = .ok s') :
    ∃ layer layer', s.layers[i]? = some layer ∧ s' = s.set i layer' ∧
      Layer.Turns (s.baseGraph i) layer layer' := by
  rw [Store.enable_eq] at switched
  split at switched
  · cases switched
    exact ⟨_, _, ‹_›, rfl, .selection a on⟩
  · rename_i view b found
    split at switched
    · obtain ⟨view', joined, eq⟩ := Fallible.bind_eq_ok_iff.mp switched
      cases eq
      have switch : view.switch (s.baseGraph i) a true = .ok view' := joined
      exact ⟨_, _, found, rfl, .matching switch⟩
    · cases switched
      have switch : view.switch (s.baseGraph i) a false =
          .ok (view.disable (s.baseGraph i) a) := rfl
      exact ⟨_, _, found, rfl, .matching switch⟩
  · cases switched

/-- The store has one more layer, made over a layer that was there. -/
def Gains (s s' : Store) : Prop :=
  ∃ layer : Layer, layer.Made ∧ (∀ base, layer.base? = some base → base < s.layers.length) ∧
    s' = (s.add layer).2

/-- Looking at a layer adds a view at most. -/
theorem look_cases {view : Layer} (looked : s.look base view = .ok s') (made : view.Made)
    (looks : view.base? = some base) : s.Gains s' := by
  unfold Store.look at looked
  split at looked
  · cases looked
    refine ⟨view, made, fun b same => ?_, rfl⟩
    cases looks.symm.trans same
    assumption
  · cases looked

/-- An event that is not refused makes a layer, or turns one that is there. -/
theorem Sound.perform_cases (sound : s.Sound) {event : Event}
    (performed : s.perform event = .ok s') :
    s.Gains s' ∨ ∃ i layer layer', s.layers[i]? = some layer ∧ s' = s.set i layer' ∧
      Layer.Turns (s.baseGraph i) layer layer' := by
  cases event with
  | stored =>
      cases performed
      exact .inl ⟨_, .stored, nofun, rfl⟩
  | complete count direction =>
      obtain ⟨g, _, rfl⟩ := Fallible.map_eq_ok_iff.mp performed
      exact .inl ⟨_, .complete g, nofun, rfl⟩
  | undirected base => exact .inl (look_cases performed (.undirected base) rfl)
  | overlay base => exact .inl (look_cases performed (.overlay base) rfl)
  | selection base => exact .inl (look_cases performed (.selection base) rfl)
  | matching base => exact .inl (look_cases performed (.matching base) rfl)
  | change i draws call =>
      obtain ⟨layer, layer', found, rfl, becomes⟩ := sound.change_cases performed
      exact .inr ⟨i, layer, layer', found, rfl, .called becomes⟩
  | enable i a on =>
      obtain ⟨layer, layer', found, rfl, turns⟩ := enable_cases performed
      exact .inr ⟨i, layer, layer', found, rfl, turns⟩

/-- An event that is not refused leads from a sound store to a sound one. -/
theorem Sound.perform (sound : s.Sound) {event : Event} (performed : s.perform event = .ok s') :
    s'.Sound := by
  obtain ⟨layer, made, below, rfl⟩ | ⟨i, layer, layer', found, rfl, turns⟩ :=
    sound.perform_cases performed
  · exact sound.add (made.sound below)
  · exact sound.set (turns.sound (sound i layer found))

/-- Any event keeps the store sound. -/
theorem Sound.after (sound : s.Sound) (event : Event) : (s.after event).Sound := by
  rw [Store.after_eq]
  split
  · exact sound.perform ‹_›
  · exact sound

/-- Every history leads to a sound store. -/
theorem Sound.afterAll (sound : s.Sound) (events : List Event) : (s.afterAll events).Sound := by
  induction events generalizing s with
  | nil => exact sound
  | cons event events ih => exact ih (sound.after event)

/-- The layer at a position after an event was there before, is made by the event, or comes
from the layer that was there and is the only one that changed. -/
theorem Sound.layer_after (sound : s.Sound) {event : Event}
    (found : (s.after event).layers[i]? = some layer) :
    s.layers[i]? = some layer ∨ s.layers.length = i ∧ layer.Made ∨
      ∃ former, s.layers[i]? = some former ∧ s.after event = s.set i layer ∧
        Layer.Turns (s.baseGraph i) former layer := by
  rw [Store.after_eq] at found ⊢
  split at found
  · rename_i s' performed
    obtain ⟨made, isMade, _, rfl⟩ | ⟨j, former, turned, there, rfl, turns⟩ :=
      sound.perform_cases performed
    · obtain there | ⟨atEnd, rfl⟩ := layer_add_cases found
      · exact .inl there
      · exact .inr (.inl ⟨atEnd, isMade⟩)
    · by_cases same : j = i
      · subst same
        rw [getElem?_set_self there, Option.some.injEq] at found
        subst found
        exact .inr (.inr ⟨former, there, rfl, turns⟩)
      · exact .inl (by rwa [Store.set, List.getElem?_set_ne same] at found)
  · exact .inl found

/-- An event of the history did something to the store it came to. -/
def Happened (what : Store → Event → Prop) (events : List Event) : Prop :=
  ∃ earlier event later, events = earlier ++ event :: later ∧ what (empty.afterAll earlier) event

/-- A history may be run up to its last event first. -/
theorem afterAll_concat (s : Store) (events : List Event) (event : Event) :
    s.afterAll (events ++ [event]) = (s.afterAll events).after event := by
  simp [Store.afterAll]

/-- What happened up to an event, or at it, happened in the history with it. -/
theorem happened_of_concat {what : Store → Event → Prop} {events : List Event} {event : Event}
    (happened : Happened what events ∨ what (empty.afterAll events) event) :
    Happened what (events ++ [event]) := by
  obtain ⟨earlier, other, later, rfl, did⟩ | did := happened
  · exact ⟨earlier, other, later ++ [event], by simp, did⟩
  · exact ⟨events, event, [], rfl, did⟩

/-- What is bad about an overlay and its base is the work of an event that left the overlay
as it was, if nothing is bad about a new overlay and no call to an overlay is to blame. -/
theorem happened_of_overlay (Bad : Overlay → Graph → Prop) {what : Store → Event → Prop}
    (fresh : ∀ base, ¬ Bad .empty base)
    (called : ∀ {o o' : Overlay} {base : Graph}, o.Consistent → o'.Consistent →
      Overlay.Alters base o o' → Bad o' base → Bad o base)
    (caused : ∀ {s : Store} {o : Overlay} {base : Nat} {event : Event},
      s.layers[i]? = some (.overlay o base) → ¬ Bad o (s.graph base) →
        Bad o ((s.after event).graph base) → what s event)
    (events : List Event) {o : Overlay}
    (found : (empty.afterAll events).layers[i]? = some (.overlay o base))
    (bad : Bad o ((empty.afterAll events).graph base)) : Happened what events := by
  induction events using List.reverseRecOn generalizing o with
  | nil => cases found
  | append_singleton events event ih =>
      have sound := sound_empty.afterAll events
      refine happened_of_concat ?_
      have kept := (sound.after event) _ _ (afterAll_concat .. ▸ found)
      rw [afterAll_concat] at found bad
      rcases sound.layer_after found with
        same | ⟨_, made⟩ | ⟨former, there, eq, turns⟩
      · by_cases before : Bad o ((empty.afterAll events).graph base)
        · exact .inl (ih same before)
        · exact .inr (caused same before bad)
      · cases made
        exact absurd bad (fresh _)
      · cases turns with
        | called becomes =>
            cases becomes with
            | overlay performed =>
                -- A call to the overlay leaves its base alone.
                have below : base < i := (sound _ _ there).base_lt rfl
                rw [eq, graph_set _ _ below] at bad
                rw [baseGraph_of_view there rfl below] at performed
                have alters := Overlay.alters_of_perform performed
                exact .inl (ih there (called (sound _ _ there).1 kept.1 alters bad))

end Store

end ArcSelection
