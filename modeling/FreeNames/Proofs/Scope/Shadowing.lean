import FreeNames.Proofs.Resolution.InScope
import Mathlib.Logic.Relation

/-!
# Declaring a name in a scope

What one more declaration changes in a forest that was put together scope by scope and name by
name: from some scopes its name is now found in a nearer scope, and that is all.

* `Forest.Around` says which scopes are on the way outwards from a scope, and `Forest.IsNearest`
  which of them a look-up is to find.
* `Forest.Exposes` is the condition for a declaration to be seen from a scope.
* `Forest.Grown` are the forests that come about; `Forest.Grown.isLinked` is the invariant that
  keeps the way outwards finite, and `Forest.Grown.shadows_exactly` the result.
-/

namespace FreeNames.Forest

variable {f : Forest} {s t u i p : Nat} {name : Text} {x : Binding}

/-! ## The way outwards -/

/-- The scope `s` is on the way outwards from `t`, which begins with `t` itself. -/
def Around (f : Forest) (s t : Nat) : Prop :=
  Relation.ReflTransGen (fun i p => f.parentOf i = some p) t s

/-- What `s` declares under the name is seen from `t`: `s` is around `t`, and no nearer scope binds
the name. -/
structure Exposes (f : Forest) (s t : Nat) (name : Text) : Prop where
  around : f.Around s t
  free : ∀ u, f.Around u t → f.Around s u → u ≠ s → f.declares u name = false

/-- Of the scopes around `t` that bind the name, `s` is the nearest. -/
structure IsNearest (f : Forest) (s t : Nat) (name : Text) : Prop extends f.Exposes s t name where
  binds : f.declares s name = true

theorem around_self : f.Around s s := .refl

theorem Around.trans (inner : f.Around u t) (outer : f.Around s u) : f.Around s t :=
  Relation.ReflTransGen.trans inner outer

theorem Around.of_parentOf (parent : f.parentOf t = some p) (h : f.Around s p) : f.Around s t :=
  Relation.ReflTransGen.head parent h

/-- A scope around `t` is `t` itself or around the parent of `t`. -/
theorem around_iff : f.Around s t ↔ t = s ∨ ∃ p, f.parentOf t = some p ∧ f.Around s p :=
  Relation.ReflTransGen.cases_head_iff

/-- The way outwards is decided by the parents alone. -/
theorem around_congr {g : Forest} (same : ∀ i, g.parentOf i = f.parentOf i) :
    g.Around s t ↔ f.Around s t := by
  have links : (fun i p => g.parentOf i = some p) = fun i p => f.parentOf i = some p := by
    funext i p
    rw [same]
  rw [Around, links, Around]

/-! ## Looking up -/

/-- Going outwards from a scope that does not bind the name changes nothing. -/
theorem isNearest_iff_of_not_declares (unbound : f.declares t name = false) :
    f.IsNearest s t name ↔ ∃ p, f.parentOf t = some p ∧ f.IsNearest s p name := by
  constructor
  · intro h
    rcases around_iff.mp h.around with rfl | ⟨p, parent, around⟩
    · exact absurd (unbound.symm.trans h.binds) Bool.false_ne_true
    · exact ⟨p, parent, ⟨around, fun u inner => h.free u (inner.of_parentOf parent)⟩, h.binds⟩
  · rintro ⟨p, parent, h⟩
    refine ⟨⟨h.around.of_parentOf parent, fun u inner outer other => ?_⟩, h.binds⟩
    rcases around_iff.mp inner with rfl | ⟨q, parent', inner⟩
    · exact unbound
    · obtain rfl := Option.some.inj (parent.symm.trans parent')
      exact h.free u inner outer other

namespace IsLinked

variable (linked : f.IsLinked)

include linked

theorem le_of_around (h : f.Around s t) : s ≤ t := by
  induction h with
  | refl => exact Nat.le_refl t
  | tail _ parent ih => exact Nat.le_trans (Nat.le_of_lt (linked.earlier _ _ parent)) ih

/-- No scope is around itself in two ways. -/
theorem eq_of_around (inner : f.Around s t) (outer : f.Around t s) : s = t :=
  Nat.le_antisymm (linked.le_of_around inner) (linked.le_of_around outer)

/-- A scope that binds the name is the nearest to itself. -/
theorem isNearest_self (binds : f.declares s name = true) : f.IsNearest s s name where
  around := around_self
  free := fun _ inner outer other => absurd (linked.eq_of_around inner outer) other
  binds := binds

/-- A look-up finds the nearest scope that binds the name. -/
theorem lookup_eq_some_iff : f.lookup t name = some s ↔ f.IsNearest s t name := by
  induction t using Nat.strongRecOn with | ind t ih => ?_
  rw [linked.lookup_eq]
  cases binds : f.declares t name with
  | true =>
    rw [if_pos rfl, Option.some.injEq]
    refine ⟨fun same => same ▸ linked.isNearest_self binds, fun h => ?_⟩
    by_contra other
    exact absurd ((h.free t around_self h.around other).symm.trans binds) Bool.false_ne_true
  | false =>
    rw [if_neg Bool.false_ne_true, isNearest_iff_of_not_declares binds,
      Option.bind_eq_some_iff]
    exact exists_congr fun p => and_congr_right fun parent => ih p (linked.earlier t p parent)

/-- A look-up finds nothing only where no scope on the way outwards binds the name. -/
theorem lookup_eq_none_iff :
    f.lookup t name = none ↔ ∀ s, f.Around s t → f.declares s name = false := by
  induction t using Nat.strongRecOn with | ind t ih => ?_
  rw [linked.lookup_eq]
  cases binds : f.declares t name with
  | true =>
    rw [if_pos rfl]
    refine ⟨fun h => (by cases h), fun h => ?_⟩
    exact absurd ((h t around_self).symm.trans binds) Bool.false_ne_true
  | false =>
    rw [if_neg Bool.false_ne_true, Option.bind_eq_none_iff]
    constructor
    · intro none s around
      rcases around_iff.mp around with rfl | ⟨p, parent, around⟩
      · exact binds
      · exact (ih p (linked.earlier t p parent)).mp (none p parent) s around
    · exact fun h p parent => (ih p (linked.earlier t p parent)).mpr fun s around =>
        h s (around.of_parentOf parent)

end IsLinked

/-! ## Declaring -/

/-- Declaring appends to the bindings of one scope, unless the name is bound there. -/
theorem get?_declare (i : Nat) : (f.declare s x).2.get? i = (f.get? i).map fun c =>
    if s = i then { c with bindings := (c.bindings.declare x).2 } else c := by
  unfold declare get?
  rw [Array.getElem?_modify]
  cases f.scopes[i]? with
  | none => simp
  | some c => by_cases here : s = i <;> simp [here]

theorem size_declare : (f.declare s x).2.size = f.size := by simp [declare, size]

theorem parentOf_declare (i : Nat) : (f.declare s x).2.parentOf i = f.parentOf i := by
  rw [parentOf, parentOf, get?_declare]
  cases f.get? i with
  | none => rfl
  | some c => by_cases here : s = i <;> simp [here]

theorem find?_declare (hs : s < f.size) (t : Nat) (name : Text) : (f.declare s x).2.find? t name =
    (f.find? t name).or (if t = s ∧ x.name = name then some x else none) := by
  obtain ⟨c, hc⟩ : ∃ c, f.get? s = some c := ⟨_, Array.getElem?_eq_getElem hs⟩
  rw [find?, find?, get?_declare]
  by_cases here : s = t
  · subst here
    simp [hc, Bindings.find?_declare]
  · simp [here, Ne.symm here]

/-- What a declaration gives back is what the scope binds the name to then. -/
theorem declare_fst (hs : s < f.size) (x : Binding) :
    (f.declare s x).1 = (f.declare s x).2.find? s x.name := by
  obtain ⟨c, hc⟩ : ∃ c, f.get? s = some c := ⟨_, Array.getElem?_eq_getElem hs⟩
  have old : f.find? s x.name = c.bindings.find? x.name := by rw [find?, hc, Option.bind_some]
  rw [find?_declare hs, if_pos ⟨rfl, rfl⟩, declare, hc, Option.map_some, Bindings.declare_fst, old]
  cases c.bindings.find? x.name <;> rfl

theorem declares_declare (hs : s < f.size) (t : Nat) (name : Text) :
    (f.declare s x).2.declares t name = (f.declares t name || decide (t = s ∧ x.name = name)) := by
  rw [declares, declares, find?_declare hs]
  by_cases here : t = s ∧ x.name = name <;> simp [here]

theorem IsLinked.declare (linked : f.IsLinked) : (f.declare s x).2.IsLinked where
  earlier i p parent := linked.earlier i p (parentOf_declare (f := f) i ▸ parent)
  children i c hc := by
    rw [get?_declare] at hc
    obtain ⟨old, found, rfl⟩ := Option.map_eq_some_iff.mp hc
    have children := linked.children i old found
    simp only [size_declare, parentOf_declare]
    rw [← children]
    split <;> rfl

theorem around_declare : (f.declare s x).2.Around u t ↔ f.Around u t := around_congr parentOf_declare

section

variable (hs : s < f.size)

include hs

theorem declares_declare_of_ne (other : t ≠ s ∨ x.name ≠ name) :
    (f.declare s x).2.declares t name = f.declares t name := by
  rw [declares_declare hs, decide_eq_false (fun same => other.elim (· same.1) (· same.2)),
    Bool.or_false]

/-- Whether a declaration is seen from a scope does not depend on the declaration itself. -/
theorem exposes_declare : (f.declare s x).2.Exposes s t name ↔ f.Exposes s t name := by
  have same : ∀ u, u ≠ s → (f.declare s x).2.declares u name = f.declares u name :=
    fun u other => declares_declare_of_ne hs (.inl other)
  constructor
  · intro h
    exact ⟨around_declare.mp h.around, fun u inner outer other =>
      same u other ▸ h.free u (around_declare.mpr inner) (around_declare.mpr outer) other⟩
  · intro h
    exact ⟨around_declare.mpr h.around, fun u inner outer other =>
      (same u other).trans (h.free u (around_declare.mp inner) (around_declare.mp outer) other)⟩

/-- Where a declaration is seen, its scope is the nearest that binds the name. -/
theorem isNearest_declare (h : f.Exposes s t x.name) :
    (f.declare s x).2.IsNearest s t x.name where
  toExposes := (exposes_declare hs).mpr h
  binds := by rw [declares_declare hs, decide_eq_true ⟨rfl, rfl⟩, Bool.or_true]

/-- Where it is not seen, and for all other names, the nearest scope is the one that it was. -/
theorem isNearest_declare_iff (linked : f.IsLinked)
    (hidden : ¬ (name = x.name ∧ f.Exposes s t x.name)) :
    (f.declare s x).2.IsNearest i t name ↔ f.IsNearest i t name := by
  constructor
  · intro h
    have elsewhere : i ≠ s ∨ x.name ≠ name := by
      by_contra here
      obtain ⟨rfl, rfl⟩ : i = s ∧ x.name = name := by simpa using here
      exact hidden ⟨rfl, (exposes_declare hs).mp h.toExposes⟩
    refine ⟨⟨around_declare.mp h.around, fun u inner outer other => ?_⟩, ?_⟩
    · have none := h.free u (around_declare.mpr inner) (around_declare.mpr outer) other
      rw [declares_declare hs, Bool.or_eq_false_iff] at none
      exact none.1
    · exact declares_declare_of_ne hs elsewhere ▸ h.binds
  · intro h
    refine ⟨⟨around_declare.mpr h.around, fun u inner outer other => ?_⟩, ?_⟩
    · replace inner := around_declare.mp inner
      replace outer := around_declare.mp outer
      refine (declares_declare_of_ne hs ?_).trans (h.free u inner outer other)
      by_contra here
      obtain ⟨rfl, rfl⟩ : u = s ∧ x.name = name := by simpa using here
      -- the scope of the declaration is nearer than the one found, so it would be seen
      refine hidden ⟨rfl, inner, fun v inner' outer' _ => ?_⟩
      refine h.free v inner' (outer'.trans outer) fun same => other ?_
      exact linked.eq_of_around (same ▸ outer') outer
    · rw [declares_declare hs, h.binds, Bool.true_or]

end

/-! ## Forests that come about -/

/-- A forest that was put together from nothing, by opening scopes inside earlier ones or outside of
all, and by declaring names in them. -/
inductive Grown : Forest → Prop
  | empty : Grown .empty
  | openScope {f : Forest} (grown : Grown f) (kind : ScopeKind) (node : Option Node)
      {parent : Option Nat} (earlier : ∀ p ∈ parent, p < f.size) :
      Grown (f.openScope kind node parent .empty)
  | declare {f : Forest} (grown : Grown f) {s : Nat} (hs : s < f.size) (x : Binding) :
      Grown (f.declare s x).2

theorem Grown.isLinked (grown : f.Grown) : f.IsLinked := by
  induction grown with
  | empty => exact isLinked_empty
  | openScope _ _ _ earlier ih => exact ih.openScope earlier
  | declare _ _ _ ih => exact ih.declare

/-- The way outwards ends, and a look-up finds the nearest scope on it that binds the name. -/
structure FindsNearest (f : Forest) : Prop where
  ends : WellFounded fun p t => f.parentOf t = some p
  finds : ∀ t name s, f.lookup t name = some s ↔ f.IsNearest s t name
  misses : ∀ t name, f.lookup t name = none ↔ ∀ s, f.Around s t → f.declares s name = false

theorem IsLinked.findsNearest (linked : f.IsLinked) : f.FindsNearest where
  ends := Subrelation.wf (linked.earlier _ _) Nat.lt_wfRel.wf
  finds _ _ _ := linked.lookup_eq_some_iff
  misses _ _ := linked.lookup_eq_none_iff

/-- All that a declaration of `x` in `s` does: the name is found in `s` from where the declaration
is seen, every other look-up finds what it found, the scope has one binding of the name, the one
that it had or else `x` at the end, which is given back, and nothing else of any scope changes. -/
structure Shadows (f : Forest) (s : Nat) (x : Binding) : Prop where
  seen : ∀ t, f.Exposes s t x.name → (f.declare s x).2.lookup t x.name = some s
  unseen : ∀ t name, ¬ (name = x.name ∧ f.Exposes s t x.name) →
    (f.declare s x).2.lookup t name = f.lookup t name
  stored : (f.declare s x).2.find? s x.name = some ((f.find? s x.name).getD x)
  returned : (f.declare s x).1 = (f.declare s x).2.find? s x.name
  size : (f.declare s x).2.size = f.size
  scope : ∀ c, f.get? s = some c → (f.declare s x).2.get? s = some { c with
    bindings.entries := c.bindings.entries ++ if f.declares s x.name then [] else [x] }
  others : ∀ t, t ≠ s → (f.declare s x).2.get? t = f.get? t

/-- In a forest that came about so, look-ups find the nearest scope, and a further declaration
shadows its name where it is seen and does nothing else. -/
theorem Grown.shadows_exactly (grown : f.Grown) :
    f.FindsNearest ∧ ∀ s < f.size, ∀ x, f.Shadows s x := by
  have linked := grown.isLinked
  refine ⟨linked.findsNearest, fun s hs x => ⟨fun t exposed => ?_, fun t name hidden => ?_, ?_,
    declare_fst hs x, size_declare, fun c hc => ?_, fun t other => ?_⟩⟩
  · exact linked.declare.lookup_eq_some_iff.mpr (isNearest_declare hs exposed)
  · refine Option.ext fun r => ?_
    rw [linked.declare.lookup_eq_some_iff, linked.lookup_eq_some_iff]
    exact isNearest_declare_iff hs linked hidden
  · rw [find?_declare hs, if_pos ⟨rfl, rfl⟩]
    cases f.find? s x.name <;> rfl
  · have declares : f.declares s x.name = c.bindings.declares x.name := by
      rw [Forest.declares, find?, hc, Option.bind_some, Bindings.declares]
    rw [get?_declare, hc, Option.map_some, if_pos rfl, declares, Bindings.declare_snd]
    cases c.bindings.declares x.name <;> simp
  · rw [get?_declare]
    simp [Ne.symm other]

/-- A program that declares `a`, with two functions in it, and a block in the first of them. -/
def functionsAside : Forest :=
  ((((empty.openScope .global none none .empty).declare 0 ⟨"a", .keyword "var", none⟩).2.openScope
    .function none (some 0) .empty).openScope .block none (some 1) .empty).openScope
      .function none (some 0) .empty

theorem grown_functionsAside : functionsAside.Grown := by
  refine .openScope (.openScope (.openScope (.declare (.openScope .empty _ _ ?_) ?_ _) _ _ ?_)
    _ _ ?_) _ _ ?_ <;> decide

/-- A parameter `a` of the first function is seen from its block, and not from the other
function. -/
theorem functionsAside_shadows :
    let parameter : Binding := ⟨"a", .parameter, none⟩
    functionsAside.Grown ∧ 1 < functionsAside.size ∧
      [1, 2, 3].map (functionsAside.lookup · "a") = [some 0, some 0, some 0] ∧
      [1, 2, 3].map ((functionsAside.declare 1 parameter).2.lookup · "a") =
        [some 1, some 1, some 0] ∧
      functionsAside.FindsNearest ∧ functionsAside.Shadows 1 parameter := by
  obtain ⟨nearest, shadows⟩ := Grown.shadows_exactly grown_functionsAside
  exact ⟨grown_functionsAside, by decide, by cbv, by cbv, nearest, shadows 1 (by decide) _⟩

end FreeNames.Forest
