import FreeNames.Proofs.Scope.Built
import FreeNames.Resolution.Report

/-!
# The replay of a run

The report of a laid out tree in terms of its places: the scopes of the places that open one have
been entered in order, and the free references have been recorded in the order of the tree, each
read inside the nodes around its place.

* `freed` lists the free references that events speak of; `freed_trace` finds those of a trace
  at the places of the tree.
* `Report.foldlM_add_eq` replays events that do not get stuck, `Node.Laid.ofTree_eq` a whole run.
* `Node.Laid.built` says what the scopes are after any front part of a run.
-/

namespace FreeNames

/-! ## Free references -/

/-- A free reference and the nodes around it. -/
structure Freed where
  name : Text
  node : Node
  enclosing : List Node

/-- The free reference of a name that stands at a place. -/
def Freed.at (x : Text × Place) : Freed := ⟨x.1, x.2.node, x.2.enclosing⟩

/-- What an event does to the stack. -/
def Event.onStack (stack : List Node) : Event → List Node
  | .push n => n :: stack
  | .pop => stack.tail
  | _ => stack

/-- The name of the free reference that an event speaks of. -/
def Event.freeName? : Event → Option Text
  | .free name _ => some name
  | _ => none

/-- The free references that events speak of, if they start with this stack. -/
def freed : List Node → List Event → List Freed
  | _, [] => []
  | stack, .free name n :: es => ⟨name, n, stack⟩ :: freed stack es
  | stack, e :: es => freed (e.onStack stack) es

theorem freed_append (stack : List Node) (xs ys : List Event) :
    freed stack (xs ++ ys) = freed stack xs ++ freed (xs.foldl Event.onStack stack) ys := by
  induction xs generalizing stack with
  | nil => rfl
  | cons e xs ih =>
    cases e with
    | free name n => exact congrArg (_ :: ·) (ih stack)
    | _ => exact ih _

namespace Place

variable {report : Bool} {p q : Place} {c : String × Node}

theorem onStack_own (p : Place) (stack : List Node) :
    (p.own report).foldl Event.onStack stack = stack := by
  unfold own
  split
  · rfl
  · split
    · split <;> rfl
    · rfl
  · rfl

theorem onStack_lead (p : Place) {es : List Event} {stack : List Node}
    (balanced : es.foldl Event.onStack (p.node :: stack) = p.node :: stack) :
    (p.lead es).foldl Event.onStack stack = p.node :: stack := by
  have entry : ∀ stack, p.entry.foldl Event.onStack stack = stack := by
    intro stack
    unfold entry
    split <;> rfl
  unfold lead
  split
  · rw [List.foldl_append, entry]
    exact balanced
  · rw [List.foldl_append, entry]
    exact balanced

theorem onStack_flatMap {ps : List Place} {f : Place → List Event} {stack : List Node}
    (each : ∀ p ∈ ps, (f p).foldl Event.onStack stack = stack) :
    (ps.flatMap f).foldl Event.onStack stack = stack := by
  induction ps with
  | nil => rfl
  | cons p ps ih =>
    rw [List.flatMap_cons, List.foldl_append, each p (List.mem_cons_self ..)]
    exact ih fun q hq => each q (List.mem_cons_of_mem _ hq)

/-- In the end of a trace the stack is what it was before. -/
theorem onStack_trace (p : Place) (stack : List Node) :
    (p.trace report).foldl Event.onStack stack = stack := by
  have parts : ∀ ps : List Place, (∀ q ∈ ps, sizeOf q.node < sizeOf p.node) → ∀ stack,
      (traces report ps).foldl Event.onStack stack = stack := fun ps smaller stack =>
    onStack_flatMap fun q hq =>
      have := smaller q hq
      onStack_trace q stack
  have outside := parts p.outsideParts fun q hq => sizeOf_lt_of_mem_parts hq
  have inside := parts p.insideParts fun q hq => sizeOf_lt_of_mem_parts hq
  rw [trace_eq]
  split
  · exact onStack_own p stack
  · rw [List.foldl_append, List.foldl_append, onStack_lead p (outside _), inside]
    rfl
termination_by sizeOf p.node

/-- The free references at a place, under their names. -/
def frees (report : Bool) (p : Place) : List (Text × Place) :=
  if p.isActive then (p.own report).filterMap fun e => e.freeName?.map fun name => (name, p)
  else []

theorem frees_of_not_isActive (inactive : p.isActive = false) : p.frees report = [] := by
  rw [frees, inactive]
  rfl

/-- What stands at a place itself is read inside the nodes around the place. -/
theorem freed_own (active : p.isActive = true) :
    freed p.enclosing (p.own report) = (p.frees report).map Freed.at := by
  rw [frees, if_pos active]
  unfold own
  split
  · rfl
  · split
    · split <;> rfl
    · rfl
  · rfl

theorem frees_of_not_isSealed (unsealed : p.node.isSealed = false) : p.frees report = [] := by
  simp only [Node.isSealed, Bool.or_eq_false_iff, decide_eq_false_iff_not] at unsealed
  obtain ⟨⟨⟨noName, noThis⟩, -⟩, -⟩ := unsealed
  have own : p.own report = [] := by
    unfold Place.own
    split
    · next hk => exact absurd hk noThis
    · next hk => exact absurd hk noName
    · rfl
  rw [frees, own]
  split <;> rfl

theorem freed_lead (p : Place) {es : List Event} {stack : List Node} :
    freed stack (p.lead es) = freed (p.node :: stack) es := by
  have entry : ∀ stack, freed stack p.entry = [] := by
    intro stack
    unfold entry
    split <;> rfl
  unfold lead
  split
  · have same : p.entry.foldl Event.onStack stack = stack := by
      unfold Place.entry
      split <;> rfl
    rw [freed_append, entry, same]
    rfl
  · rw [freed_append, entry, List.append_nil]
    rfl

variable {root : Node}

/-- The parts of a node are its children in order, up to the name of a class. -/
theorem flatMap_parts (h : root.Laid) (hp : p ∈ root.places) {β : Type} {f : Place → List β}
    (silent : ∀ i : Node, p.node.kind.isClass = true → i.kind = .identifier →
      f (p.child ("id", i)) = []) :
    p.outsideParts.flatMap f ++ p.insideParts.flatMap f = p.children.flatMap f := by
  have layout := h.hasLayout hp
  unfold outsideParts insideParts children
  by_cases cls : p.node.kind.isClass = true
  · obtain ⟨decorators, name, heritage, body, -, -, names, -, -, children⟩ := Node.laid_class layout cls
    have noSwitch : p.node.kind ≠ .switchStatement := by
      intro hk
      simp [hk, Kind.isClass] at cls
    have outside : ∀ field, p.node.isOutside field =
        (field = "decorators" || field = "superClass") := by
      intro field
      simp [Node.isOutside, cls, noSwitch]
    have name_silent : ((Node.inField "id" name.toList).map p.child).flatMap f = [] := by
      cases name with
      | none => rfl
      | some i =>
        show f (p.child ("id", i)) ++ [] = []
        rw [silent i cls (names i rfl), List.append_nil]
    rw [children]
    simp only [List.filter_append]
    rw [Node.filter_inField "decorators" true (by simp [outside]),
      Node.filter_inField "id" false (by simp [outside]),
      Node.filter_inField "superClass" true (by simp [outside]),
      Node.filter_inField "decorators" false (by simp [outside]),
      Node.filter_inField "id" true (by simp [outside]),
      Node.filter_inField "superClass" false (by simp [outside])]
    simp [outside, name_silent]
  · by_cases hk : p.node.kind = .switchStatement
    · obtain ⟨d, cs, -, -, -, children⟩ := Node.laid_switch layout hk
      have outside : ∀ field, p.node.isOutside field = decide (field = "discriminant") := by
        intro field
        simp [Node.isOutside, hk, Kind.isClass]
      rw [children, List.filter_cons, List.filter_cons, Node.filter_inField "cases" false
        (by simp [outside]), Node.filter_inField "cases" true (by simp [outside])]
      simp [outside]
    · have outside : ∀ field, p.node.isOutside field = false :=
        isOutside_of_kind rfl ⟨Bool.eq_false_iff.mpr cls, hk⟩
      simp [outside]

theorem flatMap_frees_of_isSealed (sealed : p.node.isSealed = true) :
    p.below.flatMap (frees report) = p.frees report := by
  have inner : (p.children.flatMap fun q => q.below.flatMap (frees report)) = [] := by
    rw [List.flatMap_eq_nil_iff]
    intro q hq
    obtain ⟨c, -, rfl⟩ := mem_children.mp hq
    rw [List.flatMap_eq_nil_iff]
    exact fun r hr => frees_of_not_isActive (isActive_below_child hr (Or.inl sealed))
  rw [below_eq, List.flatMap_cons, List.flatMap_assoc, inner, List.append_nil]

/-- The name of a class is no free reference. -/
theorem frees_class_name {i : Node} (cls : p.node.kind.isClass = true)
    (hi : i.kind = .identifier) : (p.child ("id", i)).frees report = [] := by
  have position : (p.node.kind, "id") ∈ namingPositions := by
    cases hn : p.node.kind <;> rw [hn] at cls <;> cases cls <;> simp [namingPositions]
  have reads : (p.child ("id", i)).reads = false := by
    simp [reads, isReadPosition, position]
  have own : (p.child ("id", i)).own report = [] := by
    rw [← trace_of_not_reads hi reads, trace_eq,
      if_pos (by simp [Node.isSealed, hi])]
  rw [frees, own]
  split <;> rfl

theorem freed_traces (ps : List Place) (stack : List Node) :
    freed stack (traces report ps) = ps.flatMap fun q => freed stack (q.trace report) := by
  induction ps with
  | nil => rfl
  | cons p ps ih =>
    rw [traces_cons, freed_append, onStack_trace, ih]
    rfl

/-- The free references of a trace are those at its places, in the order of the tree. -/
theorem freed_trace (h : root.Laid) (p : Place) (hp : p ∈ root.places)
    (active : p.isActive = true) :
    freed p.enclosing (p.trace report) = (p.below.flatMap (frees report)).map Freed.at := by
  rw [trace_eq]
  split
  · next sealed => rw [flatMap_frees_of_isSealed sealed, freed_own active]
  · next unsealed =>
    have unsealed := Bool.eq_false_iff.mpr unsealed
    have each : ∀ ps : List Place, (∀ q ∈ ps, q ∈ p.children) →
        freed (p.node :: p.enclosing) (traces report ps) =
          (ps.flatMap fun q => q.below.flatMap (frees report)).map Freed.at := by
      intro ps sub
      rw [freed_traces, List.map_flatMap]
      refine List.flatMap_congr fun q hq => ?_
      have := sizeOf_lt_of_mem_children (sub q hq)
      obtain ⟨c, hc, rfl⟩ := mem_children.mp (sub q hq)
      refine freed_trace h (p.child c) (Node.child_mem_places hp hc) ?_
      rw [isActive_child, unsealed, active]
      rfl
    have outside := each p.outsideParts fun q hq => p.perm_parts.subset (List.mem_append_left _ hq)
    have inside := each p.insideParts fun q hq => p.perm_parts.subset (List.mem_append_right _ hq)
    have balanced : (traces report p.outsideParts).foldl Event.onStack (p.node :: p.enclosing) =
        p.node :: p.enclosing := onStack_flatMap fun q _ => onStack_trace q _
    have last : ∀ stack, freed stack [.pop] = [] := fun _ => rfl
    rw [freed_append, freed_append, freed_lead, onStack_lead p balanced, outside, inside, last,
      List.append_nil, ← List.map_append, below_eq, List.flatMap_cons, List.flatMap_assoc,
      frees_of_not_isSealed unsealed, List.nil_append]
    congr 1
    refine flatMap_parts h hp fun i cls hi => ?_
    rw [flatMap_frees_of_isSealed (by simp [Node.isSealed, hi]), frees_class_name cls hi]
termination_by sizeOf p.node

/-! ## Nothing is missing -/

theorem clean_own (p : Place) (f : Fault) : .stuck f ∉ p.own report := by
  unfold own
  split
  · simp
  · split
    · split <;> simp
    · simp
  · simp

theorem clean_lead {p : Place} {es : List Event} {f : Fault} (clean : .stuck f ∉ es) :
    .stuck f ∉ p.lead es := by
  have entry : .stuck f ∉ p.entry := by
    unfold entry
    split <;> simp
  unfold lead
  split <;> simp [entry, clean]

/-- A trace does not get stuck. -/
theorem clean_trace (p : Place) (f : Fault) : .stuck f ∉ p.trace report := by
  have parts : ∀ ps : List Place, (∀ q ∈ ps, sizeOf q.node < sizeOf p.node) →
      .stuck f ∉ traces report ps := by
    intro ps smaller hf
    obtain ⟨q, hq, hf⟩ := List.mem_flatMap.mp hf
    have := smaller q hq
    exact clean_trace q f hf
  have outside := parts p.outsideParts fun q hq => sizeOf_lt_of_mem_parts hq
  have inside := parts p.insideParts fun q hq => sizeOf_lt_of_mem_parts hq
  rw [trace_eq]
  split
  · exact clean_own p f
  · simp [clean_lead outside, inside]
termination_by sizeOf p.node

end Place

/-! ## Replays -/

namespace Report

/-- Read the path of a free reference and record it. -/
def record (refs : List Reference) (x : Freed) : Except Fault (List Reference) :=
  (Occurrence.read x.node x.enclosing).map fun o => recordOccurrence x.name o refs

/-- The replay of events that do not get stuck: what they say of references, of scopes and of the
stack does not depend on each other. -/
theorem foldlM_add_eq {events : List Event} (clean : ∀ f, .stuck f ∉ events) (r : Report) :
    events.foldlM add r = ((freed r.enclosing events).foldlM record r.references).map fun refs =>
      ⟨refs, (events.filterMap Event.entered?).foldl Builder.enterIn r.scopes,
        events.foldl Event.onStack r.enclosing⟩ := by
  induction events generalizing r with
  | nil => rfl
  | cons e events ih =>
    have rest : ∀ f, .stuck f ∉ events := fun f hf => clean f (List.mem_cons_of_mem _ hf)
    rw [List.foldlM_cons]
    cases e with
    | stuck f => exact absurd (List.mem_cons_self ..) (clean f)
    | enter n outer => exact ih rest _
    | push n => exact ih rest _
    | pop => exact ih rest _
    | free name n =>
      rw [freed, List.foldlM_cons]
      cases hread : Occurrence.read n r.enclosing with
      | error f => simp only [add, record, hread, Except.map, bind, Except.bind]
      | ok o =>
        simp only [add, record, hread, Except.map, bind, Except.bind]
        exact ih rest _

/-- A replay that ends well did not get stuck. -/
theorem clean_of_foldlM {events : List Event} {r r' : Report} (run : events.foldlM add r = .ok r')
    (f : Fault) : .stuck f ∉ events := by
  intro hf
  obtain ⟨before, after, rfl⟩ := List.append_of_mem hf
  rw [List.foldlM_append] at run
  cases hr : before.foldlM add r with
  | error g => rw [hr] at run; cases run
  | ok s => rw [hr] at run; cases run

/-- What a replay has made of the scopes. -/
theorem scopes_of_foldlM {events : List Event} {r r' : Report}
    (run : events.foldlM add r = .ok r') :
    r'.scopes = (events.filterMap Event.entered?).foldl Builder.enterIn r.scopes := by
  rw [foldlM_add_eq (clean_of_foldlM run)] at run
  cases hrefs : (freed r.enclosing events).foldlM record r.references with
  | error f => rw [hrefs] at run; cases run
  | ok refs => rw [hrefs] at run; cases run; rfl

end Report

namespace Node.Laid

variable {root : Node} {report : Bool}

/-- The report of a laid out tree. -/
theorem ofTree_eq (h : root.Laid) : Report.ofTree report root =
    ((root.places.flatMap (Place.frees report)).foldlM (fun refs x => Report.record refs (.at x))
      []).map fun refs => ⟨refs, root.place.entries.foldl Builder.enterPlace (.new report), []⟩ := by
  have frees : freed [] (root.place.trace report) =
      (root.places.flatMap (Place.frees report)).map Freed.at :=
    Place.freed_trace h root.place root.place_mem_places rfl
  unfold Report.ofTree Report.ofEvents
  rw [h.events_eq, Report.foldlM_add_eq root.place.clean_trace, Place.entered_trace,
    Place.onStack_trace, List.foldl_map]
  show Except.map _ (List.foldlM Report.record [] (freed [] _)) = _
  rw [frees, List.foldlM_map]
  rfl

/-- After any front part of a run, the scopes are those of the first places to be entered. -/
theorem built (h : root.Laid) {before after : List Event} {r : Report}
    (split : root.events report = before ++ after) (run : Report.ofEvents report before = .ok r) :
    ∃ seen, seen <+: root.place.entries ∧ before.filterMap Event.entered? = seen.map Place.entered ∧
      Built report seen r.scopes := by
  have all : before.filterMap Event.entered? ++ after.filterMap Event.entered? =
      root.place.entries.map Place.entered := by
    rw [← List.filterMap_append, ← split, h.events_eq, Place.entered_trace]
  obtain ⟨seen, rest, entries, hseen, -⟩ := List.map_eq_append_iff.mp all.symm
  refine ⟨seen, ⟨rest, entries.symm⟩, hseen.symm, ?_⟩
  have ordered : Place.Ordered [] seen := by
    have all : Place.Ordered [] (seen ++ rest) := entries ▸ ordered_entries root
    exact all.left
  have nodup : (([] ++ seen).map fun (p : Place) => p.node.id).Nodup := by
    have := h.nodup_entries
    rw [entries, List.map_append] at this
    exact (List.nodup_append.mp this).1
  have builder : r.scopes = seen.foldl Builder.enterPlace (.new report) := by
    rw [Report.scopes_of_foldlM run, ← hseen, List.foldl_map]
    rfl
  rw [builder]
  exact (Built.new report).run ordered nodup

/-- In the end they are those of all places that open one. -/
theorem built_ofTree (h : root.Laid) {r : Report} (run : Report.ofTree report root = .ok r) :
    Built report root.place.entries r.scopes := by
  obtain ⟨seen, front, entered, built⟩ := h.built (List.append_nil _).symm run
  rw [h.events_eq, Place.entered_trace] at entered
  have length : seen.length = root.place.entries.length := by
    rw [← List.length_map Place.entered, ← entered, List.length_map]
  rwa [front.eq_of_length length] at built

end Node.Laid

end FreeNames
