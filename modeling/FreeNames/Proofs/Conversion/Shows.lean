import FreeNames.Conversion.Template
import FreeNames.Proofs.Conversion.Reads
import FreeNames.Proofs.Tree.Place

/-!
# Templates that show a variable

A template shows a variable of the parse if every way to fill it gives a node for that
variable: the template builds the node itself, or it stands in a field, or there is a hole for
a part that holds the variable.  A template that is a fault is never filled.

* `Node.Has` says that a tree has a node of a kind at a place, and `Node.Has.numbered` that
  numbering keeps it.
* `Template.Shows.has_fill` is what the notion is for.
* `Slot.Shows` and the lemmas on it are how a template is seen to show a variable.
-/

namespace FreeNames

/-! ## Nodes of a tree -/

/-- In the tree is a node of this kind at this place. -/
inductive Node.Has (kind : Kind) (span : Span) : Node → Prop
  | self {n : Node} (hk : n.kind = kind) (hs : n.span = span) : Has kind span n
  | inField {n c : Node} {f : String × Value} (hf : f ∈ n.fields) (hc : c ∈ f.2.nodes)
      (h : Has kind span c) : Has kind span n

namespace Node

variable {kind : Kind} {span : Span} {n c : Node}

theorem Has.exists_mem_preorder (h : n.Has kind span) :
    ∃ m ∈ n.preorder, m.kind = kind ∧ m.span = span := by
  induction h with
  | self hk hs => exact ⟨_, self_mem_preorder _, hk, hs⟩
  | @inField n c f hf hc _ ih =>
    obtain ⟨m, hm, hk, hs⟩ := ih
    have child : (f.1, c) ∈ n.children := mem_children.mpr ⟨f.2, hf, hc⟩
    exact ⟨m, mem_preorder_of_mem_children child hm, hk, hs⟩

/-- Numbering takes the nodes of a list to nodes of the numbered list. -/
theorem exists_mem_numberValues {vs : List Value} (h : c ∈ vs.filterMap Value.node?) (i : Nat) :
    ∃ j, (numberFrom j c).1 ∈ (numberValues i vs).1.filterMap Value.node? := by
  induction vs generalizing i with
  | nil => cases h
  | cons v vs ih =>
    obtain ⟨w, hw, hc⟩ := List.mem_filterMap.mp h
    rcases List.mem_cons.mp hw with rfl | hw
    · cases w with
      | node m =>
        cases hc
        exact ⟨i, by simp [numberValues, numberValue, Value.node?]⟩
      | _ => cases hc
    · obtain ⟨j, hj⟩ := ih (List.mem_filterMap.mpr ⟨w, hw, hc⟩) (numberValue i v).2
      obtain ⟨u, hu, hj⟩ := List.mem_filterMap.mp hj
      exact ⟨j, List.mem_filterMap.mpr ⟨u, List.mem_cons_of_mem _ hu, hj⟩⟩

theorem exists_mem_nodes_numberValue {v : Value} (h : c ∈ v.nodes) (i : Nat) :
    ∃ j, (numberFrom j c).1 ∈ (numberValue i v).1.nodes := by
  cases v with
  | node m =>
    rw [Value.nodes, List.mem_singleton] at h
    subst h
    exact ⟨i, by simp [numberValue, Value.nodes]⟩
  | list items => exact exists_mem_numberValues h i
  | _ => cases h

theorem exists_mem_numberFields {fs : List (String × Value)} {f : String × Value} (hf : f ∈ fs)
    (hc : c ∈ f.2.nodes) (i : Nat) :
    ∃ j, ∃ g ∈ (numberFields i fs).1, (numberFrom j c).1 ∈ g.2.nodes := by
  induction fs generalizing i with
  | nil => cases hf
  | cons g fs ih =>
    rcases List.mem_cons.mp hf with rfl | hf
    · obtain ⟨j, hj⟩ := exists_mem_nodes_numberValue hc i
      exact ⟨j, _, List.mem_cons_self .., hj⟩
    · obtain ⟨j, u, hu, hj⟩ := ih hf (numberValue i g.2).2
      exact ⟨j, u, List.mem_cons_of_mem _ hu, hj⟩

theorem Has.numberFrom (h : n.Has kind span) (i : Nat) : (numberFrom i n).1.Has kind span := by
  induction h generalizing i with
  | @self n hk hs =>
    cases n
    exact .self hk hs
  | @inField n c f hf hc _ ih =>
    obtain ⟨_, k, s, fs⟩ := n
    obtain ⟨j, g, hg, hj⟩ := exists_mem_numberFields hf hc (i + 1)
    exact .inField hg hj (ih j)

/-- Numbering changes neither the kinds nor the places of nodes. -/
theorem Has.numbered (h : n.Has kind span) : n.numbered.Has kind span := h.numberFrom 0

end Node

/-! ## Templates -/

namespace Slot

variable {w : Parsed}

/-- The template in a slot that is to hold one node. -/
def template? : Slot w → Option (Template w)
  | .one t => some t
  | .turn _ slot => slot.template?
  | _ => none

/-- The templates directly in a slot. -/
def templates : Slot w → List (Template w)
  | .one t => [t]
  | .many slots => slots.filterMap template?
  | .turn _ slot => slot.templates
  | .value _ => []

end Slot

namespace Part

variable {w : Parsed}

def setting (q : Part w) : Setting := if q.inObject then .object else .plain

/-- The part holds a variable, and it has a template of its own, which a name alone in an object
literal has not. -/
structure Covers (ℓ : Parsed) (q : Part w) : Prop extends q.parsed.Holds q.setting ℓ where
  ne_shorthand : q.symbol ≠ .shorthandPropertyIdentifier

end Part

/-- Filling the template gives a node for the variable. -/
inductive Template.Shows {w : Parsed} (ℓ : Parsed) : Template w → Prop
  | fault (f : Fault) : Shows ℓ (.fault f)
  | hole {q : Part w} (h : q.Covers ℓ) : Shows ℓ (.hole q)
  | self {kind : Kind} {span : Span} {fields : List (String × Slot w)} {dropped : List (Slot w)}
      (hk : kind = ℓ.readKind) (hs : span = ℓ.span) : Shows ℓ (.build kind span fields dropped)
  | field {kind : Kind} {span : Span} {fields : List (String × Slot w)} {dropped : List (Slot w)}
      {name : String} {slot : Slot w} {t : Template w} (hf : (name, slot) ∈ fields)
      (ht : t ∈ slot.templates) (h : Shows ℓ t) : Shows ℓ (.build kind span fields dropped)

/-- Filling the slot gives such a node directly in the value. -/
def Slot.Shows {w : Parsed} (ℓ : Parsed) (slot : Slot w) : Prop := ∃ t ∈ slot.templates, t.Shows ℓ

/-! ## Filling -/

namespace Template

variable {w : Parsed} {convert : Part w → Except Fault Node}

section

variable {v : Value} {slot : Slot w}

theorem exists_of_fillSlot_one {t : Template w} (hv : fillSlot convert (.one t) = .ok v) :
    ∃ n, fill convert t = .ok n ∧ v = .node n := by
  rw [fillSlot] at hv
  cases h : fill convert t with
  | error f => rw [h] at hv; cases hv
  | ok n => rw [h] at hv; exact ⟨n, rfl, (Except.ok.inj hv).symm⟩

theorem exists_of_fillSlot_many {slots : List (Slot w)}
    (hv : fillSlot convert (.many slots) = .ok v) :
    ∃ vs, fillSlots convert slots = .ok vs ∧ v = .list vs := by
  rw [fillSlot] at hv
  cases h : fillSlots convert slots with
  | error f => rw [h] at hv; cases hv
  | ok vs => rw [h] at hv; exact ⟨vs, rfl, (Except.ok.inj hv).symm⟩

theorem fillSlot_of_turn {k : Nat} (hv : fillSlot convert (.turn k slot) = .ok v) :
    fillSlot convert slot = .ok v := by
  rw [fillSlot] at hv
  cases h : fillSlot convert slot with
  | error f => rw [h] at hv; cases hv
  | ok u => rw [h] at hv; exact hv

/-- What is put together from two results is put together from both. -/
theorem exists_of_map_both {α β γ : Type} {x : Except TurnFault α} {y : Except TurnFault β}
    {f : α × β → γ} {c : γ} (h : (TurnFault.both x y).map f = .ok c) :
    ∃ a b, x = .ok a ∧ y = .ok b ∧ c = f (a, b) := by
  cases hb : TurnFault.both x y with
  | error e => rw [hb] at h; cases h
  | ok both =>
    obtain ⟨first, second⟩ := TurnFault.both_eq_ok.mp hb
    rw [hb] at h
    exact ⟨both.1, both.2, first, second, (Except.ok.inj h).symm⟩

theorem exists_of_fillSlots_cons {slots : List (Slot w)} {vs : List Value}
    (hv : fillSlots convert (slot :: slots) = .ok vs) :
    ∃ v rest, fillSlot convert slot = .ok v ∧ fillSlots convert slots = .ok rest ∧
      vs = v :: rest := by
  rw [fillSlots] at hv
  exact exists_of_map_both hv

theorem exists_of_fillFields_cons {name : String} {fields : List (String × Slot w)}
    {vs : List (String × Value)} (hv : fillFields convert ((name, slot) :: fields) = .ok vs) :
    ∃ v rest, fillSlot convert slot = .ok v ∧ fillFields convert fields = .ok rest ∧
      vs = (name, v) :: rest := by
  rw [fillFields] at hv
  exact exists_of_map_both hv

theorem fillFields_filter (keep : String → Bool) {fields : List (String × Slot w)}
    {vs : List (String × Value)} (hv : fillFields convert fields = .ok vs) :
    fillFields convert (fields.filter fun f => keep f.1) = .ok (vs.filter fun f => keep f.1) := by
  induction fields generalizing vs with
  | nil =>
    cases hv
    rfl
  | cons f fields ih =>
    obtain ⟨name, slot⟩ := f
    obtain ⟨v, others, filled, hrest, rfl⟩ := exists_of_fillFields_cons hv
    cases kept : keep name with
    | true =>
      rw [List.filter_cons_of_pos (by exact kept), List.filter_cons_of_pos (by exact kept),
        fillFields, filled, ih hrest]
      rfl
    | false =>
      rw [List.filter_cons_of_neg (by simp [kept]), List.filter_cons_of_neg (by simp [kept])]
      exact ih hrest

end

/-- The node in the place of a template, once the slot is filled. -/
theorem fill_of_template? (slot : Slot w) {t : Template w} (ht : slot.template? = some t)
    {v : Value} (hv : fillSlot convert slot = .ok v) :
    ∃ n, fill convert t = .ok n ∧ v = .node n := by
  match slot with
  | .value _ => cases ht
  | .many _ => cases ht
  | .one t' =>
    cases ht
    exact exists_of_fillSlot_one hv
  | .turn k slot => exact fill_of_template? slot ht (fillSlot_of_turn hv)

theorem exists_mem_fillSlots {slots : List (Slot w)} {slot : Slot w} (hs : slot ∈ slots)
    {vs : List Value} (hv : fillSlots convert slots = .ok vs) :
    ∃ v ∈ vs, fillSlot convert slot = .ok v := by
  induction slots generalizing vs with
  | nil => cases hs
  | cons s slots ih =>
    obtain ⟨u, rest, first, filled, rfl⟩ := exists_of_fillSlots_cons hv
    rcases List.mem_cons.mp hs with rfl | hs
    · exact ⟨u, List.mem_cons_self .., first⟩
    · obtain ⟨v, hv, filled⟩ := ih hs filled
      exact ⟨v, List.mem_cons_of_mem _ hv, filled⟩

theorem exists_mem_fillFields {fields : List (String × Slot w)} {f : String × Slot w}
    (hf : f ∈ fields) {vs : List (String × Value)} (hv : fillFields convert fields = .ok vs) :
    ∃ v, (f.1, v) ∈ vs ∧ fillSlot convert f.2 = .ok v := by
  induction fields generalizing vs with
  | nil => cases hf
  | cons g fields ih =>
    obtain ⟨u, rest, first, filled, rfl⟩ := exists_of_fillFields_cons hv
    rcases List.mem_cons.mp hf with rfl | hf
    · exact ⟨u, List.mem_cons_self .., first⟩
    · obtain ⟨v, hv, filled⟩ := ih hf filled
      exact ⟨v, List.mem_cons_of_mem _ hv, filled⟩

/-- What a field of the node holds is what the slot under its name is filled with. -/
theorem exists_slot_of_fillFields {fields : List (String × Slot w)} {vs : List (String × Value)}
    (hv : fillFields convert fields = .ok vs) {f : String × Value} (hf : f ∈ vs) :
    ∃ slot, (f.1, slot) ∈ fields ∧ fillSlot convert slot = .ok f.2 := by
  induction fields generalizing vs with
  | nil =>
    cases hv
    cases hf
  | cons g fields ih =>
    obtain ⟨u, rest, first, filled, rfl⟩ := exists_of_fillFields_cons hv
    rcases List.mem_cons.mp hf with rfl | hf
    · exact ⟨g.2, List.mem_cons_self .., first⟩
    · obtain ⟨slot, hs, hv⟩ := ih filled hf
      exact ⟨slot, List.mem_cons_of_mem _ hs, hv⟩

/-- Every template directly in a slot gives a node directly in its value. -/
theorem exists_mem_nodes_of_fillSlot (slot : Slot w) {t : Template w} (ht : t ∈ slot.templates)
    {v : Value} (hv : fillSlot convert slot = .ok v) :
    ∃ n ∈ v.nodes, fill convert t = .ok n := by
  match slot with
  | .value _ => cases ht
  | .one t' =>
    rw [Slot.templates, List.mem_singleton] at ht
    subst ht
    obtain ⟨n, filled, rfl⟩ := exists_of_fillSlot_one hv
    exact ⟨n, List.mem_singleton_self n, filled⟩
  | .many slots =>
    obtain ⟨slot, hs, ht⟩ := List.mem_filterMap.mp ht
    obtain ⟨vs, filled, rfl⟩ := exists_of_fillSlot_many hv
    obtain ⟨u, hu, filled⟩ := exists_mem_fillSlots hs filled
    obtain ⟨n, node, rfl⟩ := fill_of_template? slot ht filled
    exact ⟨n, List.mem_filterMap.mpr ⟨.node n, hu, rfl⟩, node⟩
  | .turn k slot => exact exists_mem_nodes_of_fillSlot slot ht (fillSlot_of_turn hv)

/-- The node of a template has the fields of the template. -/
theorem exists_fields_of_fill {kind : Kind} {span : Span} {fields : List (String × Slot w)}
    {dropped : List (Slot w)} {n : Node}
    (h : fill convert (.build kind span fields dropped) = .ok n) :
    ∃ vs, fillFields convert fields = .ok vs ∧ n = .mk 0 kind span vs := by
  rw [fill] at h
  cases hb : TurnFault.both (fillFields convert fields) (fillSlots convert dropped) with
  | error f => rw [hb] at h; cases h
  | ok both =>
    rw [hb] at h
    exact ⟨both.1, (TurnFault.both_eq_ok.mp hb).1, (Except.ok.inj h).symm⟩

/-- If the holes are filled with nodes that have their variables, then a template that shows a
variable gives a node that has it. -/
theorem Shows.has_fill {ℓ : Parsed} {t : Template w} (h : t.Shows ℓ)
    (covered : ∀ q : Part w, q.Covers ℓ → ∀ n, convert q = .ok n → n.Has ℓ.readKind ℓ.span)
    {n : Node} (hn : fill convert t = .ok n) : n.Has ℓ.readKind ℓ.span := by
  induction h generalizing n with
  | fault f => cases hn
  | hole h => exact covered _ h n hn
  | self hk hs =>
    obtain ⟨vs, -, rfl⟩ := exists_fields_of_fill hn
    exact .self hk hs
  | field hf ht _ ih =>
    obtain ⟨vs, filled, rfl⟩ := exists_fields_of_fill hn
    obtain ⟨v, hv, filled⟩ := exists_mem_fillFields hf filled
    obtain ⟨c, hc, filled⟩ := exists_mem_nodes_of_fillSlot _ ht filled
    exact .inField hv hc (ih filled)

end Template

/-! ## Showing a variable -/

variable {w ℓ : Parsed}

theorem Template.Shows.inField {kind : Kind} {span : Span} {fields : List (String × Slot w)}
    {dropped : List (Slot w)} (name : String) {slot : Slot w} (hf : (name, slot) ∈ fields)
    (h : slot.Shows ℓ) : (Template.build kind span fields dropped).Shows ℓ := by
  obtain ⟨t, ht, h⟩ := h
  exact .field hf ht h

namespace Slot

theorem Shows.one {t : Template w} (h : t.Shows ℓ) : (Slot.one t).Shows ℓ :=
  ⟨t, List.mem_singleton_self t, h⟩

theorem Shows.hole {q : Part w} (h : q.Covers ℓ) : (Slot.hole q).Shows ℓ := .one (.hole h)

theorem Shows.fault (f : Fault) : (Slot.fault f : Slot w).Shows ℓ := .one (.fault f)

theorem Shows.turn {n : Nat} {slot : Slot w} (h : slot.Shows ℓ) : (Slot.turn n slot).Shows ℓ := h

theorem Shows.late {slot : Slot w} (h : slot.Shows ℓ) : slot.late.Shows ℓ := h

/-- One of the slots of a list, if it is to hold one node. -/
theorem Shows.many {slots : List (Slot w)} {slot : Slot w} (hs : slot ∈ slots) {t : Template w}
    (ht : slot.template? = some t) (h : t.Shows ℓ) : (Slot.many slots).Shows ℓ :=
  ⟨t, List.mem_filterMap.mpr ⟨slot, hs, ht⟩, h⟩

theorem Shows.single {t : Template w} (h : t.Shows ℓ) : (Slot.many [.one t]).Shows ℓ :=
  .many (List.mem_singleton_self _) rfl h

theorem Shows.holes {qs : List (Part w)} {q : Part w} (hq : q ∈ qs) (h : q.Covers ℓ) :
    (Slot.holes qs).Shows ℓ :=
  .many (List.mem_map_of_mem hq) rfl (.hole h)

end Slot

end FreeNames
