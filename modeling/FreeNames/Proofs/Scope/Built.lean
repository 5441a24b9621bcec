import FreeNames.Proofs.Resolution.Order
import FreeNames.Scope.Builder

/-!
# Scopes of entered places

What a builder holds after the scopes of some places have been entered one after the other.

* `Forest.IsLinked`: parents come earlier, and the children of a scope are exactly the scopes
  that have it as their parent, in order.  Opening a scope keeps this
  (`Forest.IsLinked.openScope`).
* `Built` describes the whole builder by the list of places; `Built.enter` is its step and
  `Built.run` the run over an ordered list.
-/

namespace FreeNames

/-! ## Forests -/

namespace Forest

variable {f : Forest} {kind : ScopeKind} {node : Option Node} {parent : Option Nat}
  {bindings : Bindings}

/-- The parent that a scope was opened with. -/
def parentOf (f : Forest) (i : Nat) : Option Nat := (f.get? i).bind Scope.parent

/-- Parents and children of the scopes belong together. -/
structure IsLinked (f : Forest) : Prop where
  earlier : ∀ i p, f.parentOf i = some p → p < i
  children : ∀ i s, f.get? i = some s →
    s.children = (List.range f.size).filter fun j => f.parentOf j = some i

theorem lt_size_of_get? {i : Nat} {s : Scope} (h : f.get? i = some s) : i < f.size :=
  (Array.getElem?_eq_some_iff.mp h).1

theorem size_openScope : (f.openScope kind node parent bindings).size = f.size + 1 := by
  unfold openScope adopt size
  cases parent with
  | none => simp
  | some p => simp

/-- Opening a scope adds it and enters it into the children of its parent. -/
theorem get?_openScope (i : Nat) : (f.openScope kind node parent bindings).get? i =
    if i = f.size then some ⟨kind, node, parent, [], bindings⟩
    else (f.get? i).map fun s =>
      if parent = some i then { s with children := s.children ++ [f.size] } else s := by
  unfold openScope adopt get? size
  cases parent with
  | none =>
    simp only [Array.getElem?_push]
    split
    · rfl
    · simp
  | some p =>
    simp only [Array.getElem?_push, Array.size_modify, Array.getElem?_modify]
    split
    · rfl
    · by_cases hp : p = i
      · simp [hp]
      · simp [hp]

theorem parentOf_openScope (i : Nat) : (f.openScope kind node parent bindings).parentOf i =
    if i = f.size then parent else f.parentOf i := by
  unfold parentOf
  rw [get?_openScope]
  split
  · rfl
  · cases f.get? i with
    | none => rfl
    | some s =>
      simp only [Option.map_some, Option.bind_some]
      split <;> rfl

theorem isLinked_empty : empty.IsLinked where
  earlier := by
    intro i p h
    simp [parentOf, get?, empty] at h
  children := by
    intro i s h
    simp [get?, empty] at h

theorem IsLinked.openScope (h : f.IsLinked) (inside : ∀ p ∈ parent, p < f.size) :
    (f.openScope kind node parent bindings).IsLinked where
  earlier := by
    intro i p hp
    rw [parentOf_openScope] at hp
    split at hp
    · next hi => exact hi ▸ inside p hp
    · exact h.earlier i p hp
  children := by
    have old : ∀ i, (List.range f.size).filter (fun j =>
        (f.openScope kind node parent bindings).parentOf j = some i) =
          (List.range f.size).filter fun j => f.parentOf j = some i := by
      intro i
      refine List.filter_congr fun j hj => ?_
      have := List.mem_range.mp hj
      rw [parentOf_openScope, if_neg (by omega)]
    have last : (f.openScope kind node parent bindings).parentOf f.size = parent := by
      rw [parentOf_openScope, if_pos rfl]
    intro i s hs
    rw [size_openScope, List.range_succ, List.filter_append, old, List.filter_singleton, last]
    rw [get?_openScope] at hs
    split at hs
    · next hi =>
      obtain rfl := Option.some.inj hs
      have none : (List.range f.size).filter (fun j => f.parentOf j = some i) = [] := by
        rw [List.filter_eq_nil_iff]
        intro j hj
        have := List.mem_range.mp hj
        simp only [decide_eq_true_eq]
        intro hp
        have := h.earlier j i hp
        omega
      have notOwn : parent ≠ some i := fun hp => by
        have := inside i hp
        omega
      simp [none, notOwn]
    · obtain ⟨t, ht, rfl⟩ := Option.map_eq_some_iff.mp hs
      have children := h.children i t ht
      by_cases hp : parent = some i
      · simp [hp, children]
      · simp [hp, children]

end Forest

/-! ## Builders -/

namespace Builder

variable {b : Builder} {n m : Node} {parent : Option Nat}

/-- Enter the scope of a node, inside that of the node around it. -/
def enterIn (b : Builder) (e : Node × Option Node) : Builder := b.enter e.1 (e.2.bind b.scopeOf?)

/-- Enter the scope of a place, inside that of the place around it. -/
def enterPlace (b : Builder) (p : Place) : Builder := b.enterIn p.entered

theorem enterPlace_eq (b : Builder) (p : Place) :
    b.enterPlace p = b.enter p.node ((p.outer.map Place.node).bind b.scopeOf?) := rfl

theorem remember_of_fresh (fresh : ∀ e ∈ b.entered, e.1.id ≠ n.id) (s : Nat) :
    remember b.entered n s = b.entered ++ [(n, s)] := by
  unfold remember
  rw [if_neg]
  simpa using fresh

theorem scopeOf?_enter (fresh : ∀ e ∈ b.entered, e.1.id ≠ n.id) :
    (b.enter n parent).scopeOf? m =
      (b.scopeOf? m).or (if n.id = m.id then some b.forest.size else none) := by
  unfold scopeOf?
  show Option.map _ (List.find? _ (remember b.entered n b.forest.size)) = _
  rw [remember_of_fresh fresh, List.find?_append]
  cases b.entered.find? fun e => e.1.id = m.id with
  | some e => rfl
  | none =>
    by_cases hm : n.id = m.id
    · simp [hm]
    · simp [hm]

end Builder

/-- The builder after the scopes of these places have been entered. -/
structure Built (report : Bool) (places : List Place) (b : Builder) : Prop where
  mode : b.reportArrowArguments = report
  closed : ∀ p ∈ places, ∀ o ∈ p.outer, o ∈ places
  size : b.forest.size = places.length
  entered : b.entered = places.mapIdx fun i p => (p.node, i)
  linked : b.forest.IsLinked
  scope : ∀ i p, places[i]? = some p → ∃ s, b.forest.get? i = some s ∧ s.node = some p.node ∧
    s.kind = p.node.scopeKind ∧ s.bindings = (p.node.declared report).bindings ∧
    s.parent = p.outer.bind fun o => b.scopeOf? o.node
  globalScope : b.globalScope = places.findIdx? fun p => p.node.kind = .program

namespace Built

variable {report : Bool} {places : List Place} {b : Builder} {p : Place}

theorem new (report : Bool) : Built report [] (Builder.new report) where
  mode := rfl
  closed := by simp
  size := rfl
  entered := rfl
  linked := Forest.isLinked_empty
  scope := by
    intro i p h
    simp at h
  globalScope := rfl

/-- The scope of an entered node has the number of its place. -/
theorem scopeOf?_eq (h : Built report places b) {n : Node} {i : Nat}
    (hi : b.scopeOf? n = some i) : ∃ p, places[i]? = some p ∧ p.node.id = n.id := by
  unfold Builder.scopeOf? at hi
  obtain ⟨e, he, rfl⟩ := Option.map_eq_some_iff.mp hi
  have mem := List.mem_of_find?_eq_some he
  have same := List.find?_some he
  rw [h.entered, List.mem_mapIdx] at mem
  obtain ⟨j, hj, rfl⟩ := mem
  exact ⟨places[j], List.getElem?_eq_getElem hj, by simpa using same⟩

theorem scopeOf?_of_getElem? (h : Built report places b)
    (nodup : (places.map fun p => p.node.id).Nodup) {i : Nat} (hi : places[i]? = some p) :
    b.scopeOf? p.node = some i := by
  have found : ∃ e, b.entered.find? (fun e => e.1.id = p.node.id) = some e := by
    rw [← Option.isSome_iff_exists, List.find?_isSome, h.entered]
    obtain ⟨hlt, rfl⟩ := List.getElem?_eq_some_iff.mp hi
    exact ⟨(places[i].node, i), List.mem_mapIdx.mpr ⟨i, hlt, rfl⟩, by simp⟩
  obtain ⟨e, he⟩ := found
  have number : b.scopeOf? p.node = some e.2 := by
    unfold Builder.scopeOf?
    rw [he]
    rfl
  obtain ⟨q, hq, same⟩ := h.scopeOf?_eq number
  have ids : (places.map fun p => p.node.id)[e.2]? = (places.map fun p => p.node.id)[i]? := by
    rw [List.getElem?_map, List.getElem?_map, hq, hi, Option.map_some, Option.map_some, same]
  have lt : e.2 < (places.map fun p => p.node.id).length := by
    simpa using (List.getElem?_eq_some_iff.mp hq).1
  rw [number, (List.getElem?_inj lt nodup).mp ids]

theorem mem_entered (h : Built report places b) {n : Node} {i : Nat} :
    (n, i) ∈ b.entered ↔ ∃ p, places[i]? = some p ∧ p.node = n := by
  rw [h.entered, List.mem_mapIdx]
  constructor
  · rintro ⟨j, hj, same⟩
    obtain ⟨rfl, rfl⟩ := Prod.mk.inj same
    exact ⟨places[j], List.getElem?_eq_getElem hj, rfl⟩
  · rintro ⟨p, hp, rfl⟩
    obtain ⟨hi, rfl⟩ := List.getElem?_eq_some_iff.mp hp
    exact ⟨i, hi, rfl⟩

theorem parentOf (h : Built report places b) {i : Nat} (hi : places[i]? = some p) :
    b.forest.parentOf i = p.outer.bind fun o => b.scopeOf? o.node := by
  obtain ⟨s, hs, -, -, -, parent⟩ := h.scope i p hi
  rw [Forest.parentOf, hs]
  exact parent

theorem exists_of_get? (h : Built report places b) {i : Nat} {s : Scope}
    (hi : b.forest.get? i = some s) : ∃ p, places[i]? = some p ∧ s.node = some p.node ∧
      s.kind = p.node.scopeKind ∧ s.bindings = (p.node.declared report).bindings := by
  have lt := Forest.lt_size_of_get? hi
  rw [h.size] at lt
  obtain ⟨t, ht, node, kind, bindings, -⟩ := h.scope i _ (List.getElem?_eq_getElem lt)
  cases hi.symm.trans ht
  exact ⟨_, List.getElem?_eq_getElem lt, node, kind, bindings⟩

/-! ## Entering one more place -/

theorem id_ne_of_mem_entered (h : Built report places b)
    (fresh : p.node.id ∉ places.map fun p => p.node.id) : ∀ e ∈ b.entered, e.1.id ≠ p.node.id := by
  intro e he same
  rw [h.entered, List.mem_mapIdx] at he
  obtain ⟨i, hi, rfl⟩ := he
  exact fresh (same ▸ List.mem_map_of_mem (List.getElem_mem hi))

/-- A place that has been entered has a scope. -/
theorem exists_scopeOf? (h : Built report places b)
    (nodup : (places.map fun p => p.node.id).Nodup) {o : Place} (ho : o ∈ places) :
    ∃ i, b.scopeOf? o.node = some i ∧ i < b.forest.size := by
  obtain ⟨i, hi, rfl⟩ := List.getElem_of_mem ho
  exact ⟨i, h.scopeOf?_of_getElem? nodup (List.getElem?_eq_getElem hi), h.size ▸ hi⟩

/-- The scope around a place, if that is inside one that has been entered. -/
theorem outerScope_lt (h : Built report places b) (nodup : (places.map fun p => p.node.id).Nodup)
    (around : ∀ o ∈ p.outer, o ∈ places) :
    ∀ i ∈ p.outer.bind fun o => b.scopeOf? o.node, i < b.forest.size := by
  intro i hi
  obtain ⟨o, ho, hi⟩ := Option.bind_eq_some_iff.mp hi
  obtain ⟨j, hj, lt⟩ := h.exists_scopeOf? nodup (around o ho)
  exact Option.some.inj (hj.symm.trans hi) ▸ lt

/-- Entering a place leaves the scopes as they are that are around places. -/
theorem outerScope_enterPlace (h : Built report places b)
    (nodup : (places.map fun p => p.node.id).Nodup)
    (fresh : p.node.id ∉ places.map fun p => p.node.id) {q : Place}
    (around : ∀ o ∈ q.outer, o ∈ places) :
    (q.outer.bind fun o => b.scopeOf? o.node) =
      q.outer.bind fun o => (b.enterPlace p).scopeOf? o.node := by
  cases ho : q.outer with
  | none => rfl
  | some o =>
    obtain ⟨i, hi, -⟩ := h.exists_scopeOf? nodup (around o ho)
    show b.scopeOf? o.node = (b.enterPlace p).scopeOf? o.node
    rw [Builder.enterPlace_eq, Builder.scopeOf?_enter (h.id_ne_of_mem_entered fresh), hi]
    rfl

theorem forest_enterPlace (h : Built report places b) : (b.enterPlace p).forest =
    b.forest.openScope p.node.scopeKind p.node (p.outer.bind fun o => b.scopeOf? o.node)
      (p.node.declared report).bindings := by
  have outer : (p.outer.map Place.node).bind b.scopeOf? =
      p.outer.bind fun o => b.scopeOf? o.node := by cases p.outer <;> rfl
  rw [← h.mode, ← outer]
  rfl

/-- Entering one more place. -/
theorem enter (h : Built report places b) (nodup : (places.map fun p => p.node.id).Nodup)
    (fresh : p.node.id ∉ places.map fun p => p.node.id) (around : ∀ o ∈ p.outer, o ∈ places) :
    Built report (places ++ [p]) (b.enterPlace p) where
  mode := h.mode
  closed := by
    intro q hq o ho
    rcases List.mem_append.mp hq with hq | hq
    · exact List.mem_append_left _ (h.closed q hq o ho)
    · obtain rfl := List.mem_singleton.mp hq
      exact List.mem_append_left _ (around o ho)
  size := by
    rw [h.forest_enterPlace, Forest.size_openScope, h.size, List.length_append,
      List.length_singleton]
  entered := by
    show Builder.remember b.entered p.node b.forest.size = _
    rw [Builder.remember_of_fresh (h.id_ne_of_mem_entered fresh), h.entered, h.size,
      List.mapIdx_append]
    simp
  linked := by
    rw [h.forest_enterPlace]
    exact h.linked.openScope (h.outerScope_lt nodup around)
  scope := by
    intro i q hq
    rw [h.forest_enterPlace, Forest.get?_openScope]
    rw [List.getElem?_append] at hq
    split at hq
    · next hi =>
      obtain ⟨s, hs, node, kind, bindings, parent⟩ := h.scope i q hq
      have other : i ≠ b.forest.size := by
        rw [h.size]
        omega
      have same := parent.trans
        (h.outerScope_enterPlace nodup fresh (h.closed q (List.mem_of_getElem? hq)))
      rw [if_neg other, hs]
      refine ⟨_, rfl, ?_⟩
      split
      · exact ⟨node, kind, bindings, same⟩
      · exact ⟨node, kind, bindings, same⟩
    · next hi =>
      have last : i = places.length ∧ p = q := by
        rw [List.getElem?_singleton] at hq
        split at hq
        · next hz => exact ⟨by omega, Option.some.inj hq⟩
        · cases hq
      obtain ⟨rfl, rfl⟩ := last
      rw [← h.size, if_pos rfl]
      exact ⟨_, rfl, rfl, rfl, rfl, h.outerScope_enterPlace nodup fresh around⟩
  globalScope := by
    show (if p.node.kind = .program then b.globalScope.or (some b.forest.size)
      else b.globalScope) = _
    rw [List.findIdx?_append, ← h.globalScope, h.size, List.findIdx?_singleton]
    by_cases hk : p.node.kind = .program
    · simp [hk]
    · simp [hk]

/-- Entering places one after the other, each inside one that was entered before. -/
theorem run {seen ps : List Place} (h : Built report seen b) (ordered : Place.Ordered seen ps)
    (nodup : ((seen ++ ps).map fun p => p.node.id).Nodup) :
    Built report (seen ++ ps) (ps.foldl Builder.enterPlace b) := by
  induction ps generalizing seen b with
  | nil => rwa [List.append_nil]
  | cons p ps ih =>
    have regroup : seen ++ p :: ps = (seen ++ [p]) ++ ps := by simp
    rw [regroup] at nodup ⊢
    have front : ((seen ++ [p]).map fun p => p.node.id).Nodup := by
      rw [List.map_append] at nodup
      exact (List.nodup_append.mp nodup).1
    rw [List.map_append, List.nodup_append] at front
    refine ih (h.enter front.1 ?_ ordered.1) ordered.2 nodup
    exact fun mem => front.2.2 _ mem _ (List.mem_singleton_self _) rfl

end Built

end FreeNames
