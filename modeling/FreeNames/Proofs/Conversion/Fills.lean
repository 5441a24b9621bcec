import FreeNames.Conversion.Names
import FreeNames.Proofs.Conversion.Needs
import FreeNames.Proofs.Conversion.Parts

/-!
# Templates that can be filled

A template can be filled if it is no fault, has none in its fields, and each of its holes is for
a part that is ready to be converted.  The lemmas here say so of the common slots of templates,
and of the templates of names and keys, in a node that is ready itself.

* `Template.Fills` and `Slot.Fills` are the notion, with one lemma for each way to build a
  template or a slot.
* `Inside.exists_needed` and its relatives are the lemmas on what a node must have, for parts.
-/

namespace FreeNames

variable {w : Parsed} {src : Source}

/-! ## Templates and slots -/

/-- The holes of templates can be filled, where the parts are ready. -/
def FillsHoles (src : Source) (convert : Part w → Except Fault Node) : Prop :=
  ∀ q : Part w, q.parsed.Ready src → ∃ n, convert q = .ok n

/-- The template can be filled. -/
def Template.Fills (src : Source) (t : Template w) : Prop :=
  ∀ convert, FillsHoles src convert → ∃ n, t.fill convert = .ok n

/-- The slot can be filled. -/
def Slot.Fills (src : Source) (slot : Slot w) : Prop :=
  ∀ convert, FillsHoles src convert → ∃ v, Template.fillSlot convert slot = .ok v

/-- All fields can be filled. -/
def Template.FieldsFill (src : Source) (fields : List (String × Slot w)) : Prop :=
  ∀ f ∈ fields, f.2.Fills src

theorem TurnFault.exists_both {α β : Type} {x : Except TurnFault α} {y : Except TurnFault β}
    (hx : ∃ a, x = .ok a) (hy : ∃ b, y = .ok b) : ∃ c, TurnFault.both x y = .ok c := by
  obtain ⟨a, rfl⟩ := hx
  obtain ⟨b, rfl⟩ := hy
  exact ⟨(a, b), rfl⟩

namespace Slot.Fills

theorem value (v : Value) : (Slot.value v : Slot w).Fills src := fun _ _ => ⟨v, rfl⟩

theorem one {t : Template w} (h : t.Fills src) : (Slot.one t).Fills src := by
  intro convert filled
  obtain ⟨n, hn⟩ := h convert filled
  exact ⟨.node n, by rw [Template.fillSlot, hn]; rfl⟩

theorem turn {slot : Slot w} (h : slot.Fills src) (n : Nat) : (Slot.turn n slot).Fills src := by
  intro convert filled
  obtain ⟨v, hv⟩ := h convert filled
  exact ⟨v, by rw [Template.fillSlot, hv]; rfl⟩

theorem late {slot : Slot w} (h : slot.Fills src) : slot.late.Fills src := h.turn 1

theorem exists_fillSlots {slots : List (Slot w)} (h : ∀ slot ∈ slots, slot.Fills src)
    {convert : Part w → Except Fault Node} (filled : FillsHoles src convert) :
    ∃ vs, Template.fillSlots convert slots = .ok vs := by
  induction slots with
  | nil => exact ⟨[], rfl⟩
  | cons slot rest ih =>
    obtain ⟨c, hc⟩ := TurnFault.exists_both (h slot (List.mem_cons_self ..) convert filled)
      (ih fun s hs => h s (List.mem_cons_of_mem _ hs))
    exact ⟨c.1 :: c.2, by rw [Template.fillSlots, hc]; rfl⟩

theorem many {slots : List (Slot w)} (h : ∀ slot ∈ slots, slot.Fills src) :
    (Slot.many slots).Fills src := by
  intro convert filled
  obtain ⟨vs, hv⟩ := exists_fillSlots h filled
  exact ⟨.list vs, by rw [Template.fillSlot, hv]; rfl⟩

theorem empty : (Slot.many [] : Slot w).Fills src := .many (List.forall_mem_nil _)

end Slot.Fills

namespace Template

theorem Fills.hole {q : Part w} (h : q.parsed.Ready src) : (Template.hole q).Fills src := by
  intro convert filled
  rw [fill]
  exact filled q h

theorem FieldsFill.nil : FieldsFill src ([] : List (String × Slot w)) :=
  List.forall_mem_nil _

theorem FieldsFill.cons {name : String} {slot : Slot w} {rest : List (String × Slot w)}
    (h : slot.Fills src) (hr : FieldsFill src rest) : FieldsFill src ((name, slot) :: rest) :=
  List.forall_mem_cons.mpr ⟨h, hr⟩

theorem FieldsFill.exists_fillFields {fields : List (String × Slot w)}
    (h : FieldsFill src fields) {convert : Part w → Except Fault Node}
    (filled : FillsHoles src convert) : ∃ vs, fillFields convert fields = .ok vs := by
  induction fields with
  | nil => exact ⟨[], rfl⟩
  | cons f rest ih =>
    obtain ⟨first, others⟩ := List.forall_mem_cons.mp h
    obtain ⟨c, hc⟩ := TurnFault.exists_both (first convert filled) (ih others)
    exact ⟨(f.1, c.1) :: c.2, by rw [fillFields, hc]; rfl⟩

variable {kind : Kind} {span : Span} {fields : List (String × Slot w)}

theorem Fills.build {dropped : List (Slot w)} (h : FieldsFill src fields)
    (hd : ∀ slot ∈ dropped, slot.Fills src) :
    (Template.build kind span fields dropped).Fills src := by
  intro convert filled
  obtain ⟨kept, hk⟩ := TurnFault.exists_both (h.exists_fillFields filled)
    (Slot.Fills.exists_fillSlots hd filled)
  exact ⟨.mk 0 kind span kept.1, by rw [fill, hk]; rfl⟩

theorem Fills.node (h : FieldsFill src fields) : (Template.node kind span fields).Fills src :=
  .build h (List.forall_mem_nil _)

end Template

namespace Slot.Fills

theorem hole {q : Part w} (h : q.parsed.Ready src) : (Slot.hole q).Fills src := .one (.hole h)

theorem holes {qs : List (Part w)} (h : ∀ q ∈ qs, q.parsed.Ready src) :
    (Slot.holes qs).Fills src := by
  refine .many fun slot hs => ?_
  obtain ⟨q, hq, rfl⟩ := List.mem_map.mp hs
  exact .hole (h q hq)

theorem text {span : Span} (h : ∃ t, src.text? span = some t) :
    (Slot.text src span : Slot w).Fills src := by
  obtain ⟨t, ht⟩ := h
  rw [Slot.text, ht]
  exact .value _

end Slot.Fills

/-! ## Parts of a node that is ready -/

namespace Inside

variable {x : Inside w} {q : Part w} {name : String}

theorem mem_children_of_mem_parts (hq : q ∈ x.parts) : q.parsed ∈ x.parsed.children := by
  rw [← x.map_parsed_parts]
  exact List.mem_map_of_mem hq

section

variable (h : x.parsed.Ready src)

include h

theorem exists_text : ∃ t, src.text? x.span = some t :=
  h.exists_text_of_mem (Parsed.self_mem_preorder _)

theorem exists_text_of_mem_parts (hq : q ∈ x.parts) : ∃ t, src.text? q.span = some t :=
  h.exists_text_of_mem
    (Parsed.mem_preorder_of_child (mem_children_of_mem_parts hq) (Parsed.self_mem_preorder _))

theorem ready_of_mem_parts (hq : q ∈ x.parts) (named : q.parsed.isNamed = true) :
    q.parsed.Ready src := h.child (mem_children_of_mem_parts hq) named

theorem ready_of_mem_named (hq : q ∈ x.named) : q.parsed.Ready src := by
  have named := (List.mem_filter.mp hq).2
  rw [Bool.and_eq_true] at named
  exact ready_of_mem_parts h (mem_parts_of_named hq) named.1

theorem named_fill : (Slot.holes x.named).Fills src := .holes fun _ => ready_of_mem_named h

/-- The parts of a part, which need not be ready itself. -/
theorem named_fill_of_mem_parts (hq : q ∈ x.parts) : (Slot.holes q.inside.named).Fills src := by
  refine .holes fun r hr => ?_
  have named := (List.mem_filter.mp hr).2
  rw [Bool.and_eq_true] at named
  have below : r.parsed ∈ q.parsed.children :=
    mem_children_of_mem_parts (x := q.inside) (mem_parts_of_named hr)
  exact h.grandchild (mem_children_of_mem_parts hq) below named.1

theorem fieldAll_fill (name : String) : (Slot.holes (x.fieldAll name)).Fills src := by
  refine .holes fun q hq => ?_
  obtain ⟨mem, named⟩ := List.mem_filter.mp hq
  simp only [Bool.and_eq_true] at named
  exact ready_of_mem_parts h mem named.1.2

theorem optional_fills (name : String) : (x.optional name).Fills src := by
  unfold optional
  split
  · next q hq =>
    split
    · next named => exact .hole (ready_of_mem_parts h (mem_parts_of_field? hq) named)
    · exact .value _
  · exact .value _

theorem firstOrNull_fills : x.firstOrNull.Fills src := by
  unfold firstOrNull
  split
  · next q hq => exact .hole (ready_of_mem_named h (List.mem_of_mem_head? hq))
  · exact .value _

section

variable {s : Symbol} (hs : x.parsed.symbol = s)

include hs

theorem exists_needed (hn : name ∈ s.neededFields) :
    ∃ q, x.field? name = some q ∧ q.parsed.Ready src := by
  obtain ⟨c, hf, ready⟩ := h.exists_needed hs hn
  rw [← x.field?_map_parsed] at hf
  obtain ⟨q, hq, rfl⟩ := Option.map_eq_some_iff.mp hf
  exact ⟨q, hq, ready⟩

theorem ready_of_optional (hn : name ∈ s.optionalFields) (hq : x.field? name = some q) :
    q.parsed.Ready src := h.of_optional hs hn (parsed_field? hq)

theorem exists_word (hn : name ∈ s.neededWords) : ∃ q, x.field? name = some q := by
  obtain ⟨c, hf⟩ := h.exists_word hs hn
  rw [← x.field?_map_parsed] at hf
  obtain ⟨q, hq, -⟩ := Option.map_eq_some_iff.mp hf
  exact ⟨q, hq⟩

theorem exists_part (part : s.needsPart = true) :
    ∃ q, x.named.head? = some q ∧ q ∈ x.named := by
  obtain ⟨c, hc⟩ := h.exists_part hs part
  rw [← x.named_map_parsed, List.head?_map] at hc
  obtain ⟨q, hq, -⟩ := Option.map_eq_some_iff.mp hc
  exact ⟨q, hq, List.mem_of_mem_head? hq⟩

theorem convert_fills (hn : name ∈ s.neededFields) : (x.convert name).Fills src := by
  obtain ⟨q, hq, ready⟩ := exists_needed h hs hn
  rw [convert, hq]
  exact .hole ready

theorem textOf_fills (hn : name ∈ s.neededWords) : (x.textOf src name).Fills src := by
  obtain ⟨q, hq⟩ := exists_word h hs hn
  rw [textOf, hq]
  exact .text (exists_text_of_mem_parts h (mem_parts_of_field? hq))

theorem first_fills (part : s.needsPart = true) : x.first.Fills src := by
  obtain ⟨q, hq, mem⟩ := exists_part h hs part
  rw [first, hq]
  exact .hole (ready_of_mem_named h mem)

end

end

end Inside

/-! ## Names and keys -/

namespace Conversion

variable {x : Inside w} {q : Part w} {span : Span}

theorem identifier_fills (h : ∃ t, src.text? span = some t) :
    (identifier src span : Template w).Fills src := .node (.cons (.text h) .nil)

theorem privateName_fills (h : ∃ t, src.text? span = some t) :
    (privateName src span : Template w).Fills src := by
  obtain ⟨t, ht⟩ := h
  rw [privateName, ht]
  exact .node (.cons (.value _) .nil)

section

variable (h : x.parsed.Ready src)

include h

theorem identifierIn_fills {name : String} (hq : x.field? name = some q) :
    (identifierIn src x name).Fills src := by
  rw [identifierIn, hq]
  have text := Inside.exists_text_of_mem_parts h (Inside.mem_parts_of_field? hq)
  exact .one (identifier_fills text)

theorem identifierOrNull_fills (name : String) : (identifierOrNull src x name).Fills src := by
  unfold identifierOrNull
  split
  · next q hq =>
    have text := Inside.exists_text_of_mem_parts h (Inside.mem_parts_of_field? hq)
    exact .one (identifier_fills text)
  · exact .value _

theorem exportName_fills (hq : q ∈ x.parts) : (exportName src q).Fills src := by
  unfold exportName
  split
  · next string =>
    -- a string needs nothing, so it is ready even as a token
    have needs : q.parsed.hasNeeds = true := by
      have hs : q.parsed.symbol = .string := string
      simp [Parsed.hasNeeds, hs, Symbol.neededFields, Symbol.optionalFields, Symbol.neededWords,
        Symbol.needsPart]
    exact .hole (h.child_of_needs (Inside.mem_children_of_mem_parts hq) needs)
  · exact .one (identifier_fills (Inside.exists_text_of_mem_parts h hq))

end

theorem propertyKey_fills (h : q.parsed.Ready src) : (propertyKey src q).Fills src := by
  have text : ∃ t, src.text? q.span = some t := Inside.exists_text (x := q.inside) h
  unfold propertyKey
  split
  · next computed =>
    exact .one (Inside.first_fills (x := q.inside) h computed rfl)
  · exact .one (privateName_fills text)
  · exact .hole h
  · exact .hole h
  · exact .one (identifier_fills text)

end Conversion

end FreeNames
