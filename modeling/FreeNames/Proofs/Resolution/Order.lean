import FreeNames.Proofs.Resolution.Simulation
import Mathlib.Data.List.Perm.Basic

/-!
# The order in which scopes are entered

`Place.entries` lists the places whose scopes a run enters, in the order in which it does: what
stands outside the scope of a node is entered before the node.

* They are the places that open a scope, each once (`Node.Laid.mem_entries`,
  `Node.Laid.nodup_entries`).
* A scope is entered after the scope around it (`Place.Ordered`, `Place.ordered_entries`).
-/

namespace FreeNames

namespace Place

variable {report : Bool} {p q : Place} {c : String × Node}

/-! ## Looked at -/

/-- Is a node looked at?  Nothing is below a sealed node. -/
def isActive (p : Place) : Bool := p.enclosing.all fun n => !n.isSealed

theorem isActive_child : (p.child c).isActive = (!p.node.isSealed && p.isActive) := rfl

theorem isActive_of_mem_below (hq : q ∈ p.below) (active : q.isActive = true) :
    p.isActive = true := by
  revert active
  refine below_induction (P := fun q => q.isActive = true → p.isActive = true) id ?_ q hq
  intro r _ hr s hs active
  obtain ⟨c, -, rfl⟩ := mem_children.mp hs
  rw [isActive_child, Bool.and_eq_true] at active
  exact hr active.2

/-- Below a node that is not looked at, or is sealed, nothing is looked at. -/
theorem isActive_below_child (hq : q ∈ (p.child c).below)
    (silent : p.node.isSealed = true ∨ p.isActive = false) : q.isActive = false := by
  cases active : q.isActive with
  | false => rfl
  | true =>
    have := isActive_of_mem_below hq active
    rw [isActive_child, Bool.and_eq_true, Bool.not_eq_true'] at this
    rcases silent with sealed | inactive
    · cases sealed.symm.trans this.1
    · cases inactive.symm.trans this.2

/-! ## Parts -/

theorem perm_parts (p : Place) : (p.outsideParts ++ p.insideParts).Perm p.children := by
  unfold outsideParts insideParts children
  rw [← List.map_append]
  exact (List.filter_append_perm (fun c => p.node.isOutside c.1) p.node.children).map _

theorem mem_outsideParts : q ∈ p.outsideParts ↔
    ∃ c ∈ p.node.children, p.node.isOutside c.1 = true ∧ p.child c = q := by
  simp only [outsideParts, List.mem_map, List.mem_filter, and_assoc]

theorem mem_insideParts : q ∈ p.insideParts ↔
    ∃ c ∈ p.node.children, p.node.isOutside c.1 = false ∧ p.child c = q := by
  simp only [insideParts, List.mem_map, List.mem_filter, Bool.not_eq_true', and_assoc]

/-! ## Entered scopes -/

/-- The places at and below a place whose scopes a run enters, in the order in which it does. -/
def entries (p : Place) : List Place :=
  if p.node.isSealed then []
  else (p.outsideParts.attach.flatMap fun q => q.1.entries) ++ (if p.opens then [p] else [])
    ++ p.insideParts.attach.flatMap fun q => q.1.entries
termination_by sizeOf p.node
decreasing_by all_goals exact sizeOf_lt_of_mem_parts q.2

theorem entries_eq (p : Place) : p.entries = if p.node.isSealed then []
    else p.outsideParts.flatMap entries ++ (if p.opens then [p] else [])
      ++ p.insideParts.flatMap entries := by
  rw [entries]
  have unattach : ∀ ps : List Place, (ps.attach.flatMap fun q => q.1.entries) =
      ps.flatMap entries := by
    intro ps
    conv => rhs; rw [← List.attach_map_subtype_val ps]
    rw [List.flatMap_map]
  rw [unattach, unattach]

end Place

/-- What an event says of scopes: the node whose scope is entered, and the node around it. -/
def Event.entered? : Event → Option (Node × Option Node)
  | .enter n outer => some (n, outer)
  | _ => none

namespace Place

variable {report : Bool} {p q : Place} {c : String × Node}

/-- What the entering of a scope says. -/
def entered (p : Place) : Node × Option Node := (p.node, p.outer.map node)

theorem entered_own (p : Place) : (p.own report).filterMap Event.entered? = [] := by
  unfold own
  split
  · rfl
  · split
    · split <;> rfl
    · rfl
  · rfl

theorem entered_lead (p : Place) (es : List Event) :
    (p.lead es).filterMap Event.entered? =
      if p.node.kind.isFunction then (if p.opens then [p.entered] else [])
          ++ es.filterMap Event.entered?
      else es.filterMap Event.entered? ++ if p.opens then [p.entered] else [] := by
  have entry : p.entry.filterMap Event.entered? = if p.opens then [p.entered] else [] := by
    unfold entry
    split <;> rfl
  unfold lead
  split
  · rw [List.filterMap_append, entry]
    rfl
  · rw [List.filterMap_append, entry]
    rfl

theorem outsideParts_of_isFunction (hk : p.node.kind.isFunction = true) : p.outsideParts = [] := by
  have outside := isOutside_of_isFunction hk
  rw [outsideParts, List.filter_eq_nil_iff.mpr fun c _ => by simp [outside], List.map_nil]

/-- The scopes that a trace enters. -/
theorem entered_trace (p : Place) :
    (p.trace report).filterMap Event.entered? = p.entries.map entered := by
  have parts : ∀ ps : List Place, (∀ q ∈ ps, sizeOf q.node < sizeOf p.node) →
      (traces report ps).filterMap Event.entered? = (ps.flatMap entries).map entered := by
    intro ps smaller
    rw [traces, List.filterMap_flatMap, List.map_flatMap]
    exact List.flatMap_congr fun q hq =>
      have := smaller q hq
      entered_trace q
  have outside := parts p.outsideParts fun q hq => sizeOf_lt_of_mem_parts hq
  have inside := parts p.insideParts fun q hq => sizeOf_lt_of_mem_parts hq
  rw [trace_eq, entries_eq]
  split
  · exact entered_own p
  · rw [List.filterMap_append, List.filterMap_append, entered_lead, outside, inside]
    have last : [Event.pop].filterMap Event.entered? = [] := rfl
    have here : (if p.opens then [p] else []).map entered = if p.opens then [p.entered] else [] := by
      split <;> rfl
    rw [last, List.append_nil, List.map_append, List.map_append, here]
    split
    · next hk =>
      rw [outsideParts_of_isFunction hk]
      simp
    · rfl
termination_by sizeOf p.node

theorem isSealed_of_opens (opens : p.opens = true) : p.node.isSealed = false := by
  cases hn : p.node.kind
  case other => exact isSealed_of_kind hn (by simp [Kind.isInert])
  all_goals first
    | exact isSealed_of_kind hn (by decide)
    | cases opens.symm.trans (opens_of_kind hn (by decide))

/-- The entered scopes are those of the places that are looked at and open one. -/
theorem perm_entries (p : Place) (active : p.isActive = true) :
    p.entries.Perm (p.below.filter fun q => q.isActive && q.opens) := by
  rw [entries_eq, below_eq, List.filter_cons, active, Bool.true_and, List.filter_flatMap]
  split
  · next sealed =>
    have none : (p.children.flatMap fun q => q.below.filter fun r => r.isActive && r.opens) = [] := by
      rw [List.flatMap_eq_nil_iff]
      intro q hq
      obtain ⟨c, -, rfl⟩ := mem_children.mp hq
      rw [List.filter_eq_nil_iff]
      intro r hr
      rw [isActive_below_child hr (Or.inl sealed), Bool.false_and]
      exact Bool.false_ne_true
    have closed : p.opens = false := by
      cases opens : p.opens with
      | false => rfl
      | true => cases sealed.symm.trans (isSealed_of_opens opens)
    rw [none, closed]
    exact .nil
  · next unsealed =>
    have each : ∀ q ∈ p.children, q.entries.Perm (q.below.filter fun r => r.isActive && r.opens) := by
      intro q hq
      have := sizeOf_lt_of_mem_children hq
      refine perm_entries q ?_
      obtain ⟨c, -, rfl⟩ := mem_children.mp hq
      rw [isActive_child, active, Bool.eq_false_iff.mpr unsealed]
      rfl
    have parts : (p.outsideParts.flatMap entries ++ p.insideParts.flatMap entries).Perm
        (p.children.flatMap fun q => q.below.filter fun r => r.isActive && r.opens) := by
      rw [← List.flatMap_append]
      exact (p.perm_parts.flatMap_right _).trans (List.Perm.flatMap_left _ each)
    split
    · refine List.Perm.trans ?_ (parts.cons p)
      rw [List.append_assoc]
      exact List.perm_middle
    · rw [List.append_nil]
      exact parts
termination_by sizeOf p.node

/-! ## The scope around is entered first -/

/-- The scope around each place of the list is among those seen before. -/
def Ordered : List Place → List Place → Prop
  | _, [] => True
  | seen, p :: ps => (∀ o ∈ p.outer, o ∈ seen) ∧ Ordered (seen ++ [p]) ps

namespace Ordered

variable {seen ps qs : List Place}

theorem mono {seen' : List Place} (h : Ordered seen ps) (more : seen ⊆ seen') :
    Ordered seen' ps := by
  induction ps generalizing seen seen' with
  | nil => trivial
  | cons p ps ih =>
    refine ⟨fun o ho => more (h.1 o ho), ih h.2 ?_⟩
    exact List.append_subset.mpr ⟨List.Subset.trans more (List.subset_append_left _ _),
      List.subset_append_right _ _⟩

theorem append (hp : Ordered seen ps) (hq : Ordered (seen ++ ps) qs) :
    Ordered seen (ps ++ qs) := by
  induction ps generalizing seen with
  | nil => rwa [List.append_nil] at hq
  | cons p ps ih =>
    refine ⟨hp.1, ih hp.2 ?_⟩
    rwa [List.append_assoc]

theorem left (h : Ordered seen (ps ++ qs)) : Ordered seen ps := by
  induction ps generalizing seen with
  | nil => trivial
  | cons p ps ih => exact ⟨h.1, ih h.2⟩

theorem flatMap {f : Place → List Place} (h : ∀ p ∈ ps, Ordered seen (f p)) :
    Ordered seen (ps.flatMap f) := by
  induction ps with
  | nil => trivial
  | cons p ps ih =>
    rw [List.flatMap_cons]
    exact (h p (List.mem_cons_self ..)).append
      ((ih fun q hq => h q (List.mem_cons_of_mem _ hq)).mono (List.subset_append_left _ _))

end Ordered

/-- A scope is entered after the scope around it. -/
theorem ordered_entries (p : Place) {seen : List Place} (around : ∀ o ∈ p.outer, o ∈ seen) :
    Ordered seen p.entries := by
  rw [entries_eq]
  split
  · trivial
  · have outside : Ordered seen (p.outsideParts.flatMap entries) := by
      refine .flatMap fun q hq => ?_
      have := sizeOf_lt_of_mem_parts hq
      refine ordered_entries q ?_
      obtain ⟨c, -, out, rfl⟩ := mem_outsideParts.mp hq
      rwa [outer, holders_child_of_isOutside out]
    have here : Ordered (seen ++ p.outsideParts.flatMap entries) (if p.opens then [p] else []) := by
      split
      · exact ⟨fun o ho => List.mem_append_left _ (around o ho), trivial⟩
      · trivial
    refine (outside.append here).append (.flatMap fun q hq => ?_)
    have := sizeOf_lt_of_mem_parts hq
    refine ordered_entries q ?_
    obtain ⟨c, -, inside, rfl⟩ := mem_insideParts.mp hq
    cases opens : p.opens with
    | true =>
      rw [outer, holders_child_of_opens opens inside]
      intro o ho
      simp only [List.head?_cons, Option.mem_some_iff] at ho
      simp [ho]
    | false =>
      rw [outer, holders_child_of_not_opens opens]
      exact fun o ho => List.mem_append_left _ (around o ho)
termination_by sizeOf p.node

end Place

namespace Node.Laid

variable {root : Node} {p q : Place}

/-! ## Nothing opens below a sealed node -/

theorem opens_of_isLeaf (h : root.Laid) (hp : p ∈ root.places) (leaf : p.node.kind.isLeaf = true)
    (hq : q ∈ p.below) : q.opens = false := by
  rw [Place.below_eq, Place.children, children_of_isLeaf (h.hasLayout hp) leaf] at hq
  obtain rfl : q = p := List.mem_singleton.mp hq
  cases hn : q.node.kind <;> rw [hn] at leaf <;> cases leaf <;>
    exact Place.opens_of_kind hn (by decide)

theorem isLeaf_of_isModuleName {k : Kind} (hk : k.isModuleName = true) : k.isLeaf = true := by
  simp only [Kind.isModuleName, Kind.isIdentifier, Kind.isLiteral, Bool.or_eq_true,
    decide_eq_true_eq] at hk
  rcases hk with rfl | rfl <;> rfl

theorem opens_below_of_children (hp : p.opens = false)
    (inner : ∀ c ∈ p.node.children, ∀ q ∈ (p.child c).below, q.opens = false)
    (hq : q ∈ p.below) : q.opens = false := by
  rcases Place.mem_below.mp hq with rfl | ⟨r, hr, hq⟩
  · exact hp
  · obtain ⟨c, hc, rfl⟩ := Place.mem_children.mp hr
    exact inner c hc q hq

theorem opens_of_isSealed (h : root.Laid) (hp : p ∈ root.places) (sealed : p.node.isSealed = true)
    (hq : q ∈ p.below) : q.opens = false := by
  have closed : p.opens = false := by
    cases opens : p.opens with
    | false => rfl
    | true => cases sealed.symm.trans (Place.isSealed_of_opens opens)
  have names : ∀ {r : Place}, r ∈ root.places → r.opens = false →
      (∀ c ∈ r.node.children, c.2.kind.isModuleName = true) → ∀ q ∈ r.below, q.opens = false :=
    fun hr hclosed kinds _ => opens_below_of_children hclosed fun c hc _ =>
      h.opens_of_isLeaf (child_mem_places hr hc) (isLeaf_of_isModuleName (kinds c hc))
  have layout := h.hasLayout hp
  by_cases leaf : p.node.kind.isLeaf = true
  · exact h.opens_of_isLeaf hp leaf hq
  · by_cases module : p.node.kind = .exportAllDeclaration ∨ p.node.kind = .metaProperty
    · refine names hp closed (laid_moduleNames layout ?_) q hq
      exact module.imp_right Or.inr
    · by_cases import_ : p.node.kind = .importDeclaration
      · refine opens_below_of_children closed (fun c hc => ?_) hq
        obtain ⟨ss, source, -, kinds, literal, children⟩ := laid_import layout import_
        have hr := child_mem_places hp hc
        rw [children, List.mem_append, List.mem_singleton] at hc
        obtain ⟨field, c⟩ := c
        rcases hc with hc | hc
        · have kind := kinds c (mem_inField.mp hc).2
          obtain ⟨-, -, -, inner⟩ := laid_importSpecifier (h.hasLayout hr) kind
          refine names hr ?_ inner
          cases hn : c.kind <;> rw [hn] at kind <;> cases kind <;>
            exact Place.opens_of_kind hn (by decide)
        · cases hc
          exact fun _ => h.opens_of_isLeaf hr (by rw [Place.node_child, literal]; rfl)
      · have reexport : p.node.isReexport = true := by
          simp only [isSealed, Bool.or_eq_true, decide_eq_true_eq] at sealed
          rcases sealed with ((hk | hk) | inert) | reexport
          · simp [hk, Kind.isLeaf] at leaf
          · simp [hk, Kind.isLeaf] at leaf
          · cases hn : p.node.kind <;> rw [hn] at inert leaf module import_ <;>
              simp [Kind.isInert, Kind.isLeaf] at inert leaf module import_
          · exact reexport
        simp only [isReexport, Bool.and_eq_true, decide_eq_true_eq] at reexport
        obtain ⟨fromModule, -, given, -, kinds⟩ := laid_exportNamed layout reexport.1
        rw [given] at reexport
        obtain rfl : fromModule = true := reexport.2
        refine opens_below_of_children closed (fun c hc => ?_) hq
        have hr := child_mem_places hp hc
        rcases kinds c hc with ⟨-, none⟩ | specifier | literal
        · cases none
        · exact names hr (Place.opens_of_kind (show (p.child c).node.kind = _ from specifier)
            (by decide)) (laid_moduleNames (h.hasLayout hr) (Or.inr (Or.inl specifier)))
        · exact fun _ => h.opens_of_isLeaf hr (by rw [Place.node_child, literal]; rfl)

/-- What opens a scope is looked at. -/
theorem isActive_of_opens (h : root.Laid) (hp : p ∈ root.places) (opens : p.opens = true) :
    p.isActive = true := by
  rw [Place.isActive, List.all_eq_true]
  intro n hn
  obtain ⟨⟨field, m⟩, mem, rfl⟩ := List.mem_map.mp hn
  obtain ⟨r, hr, rfl, c, hc, below⟩ := exists_of_mem_above hp mem
  rw [Bool.not_eq_true']
  cases sealed : r.node.isSealed with
  | false => rfl
  | true =>
    have inside := Place.mem_below_trans
      (Place.mem_below_of_mem_children (Place.self_mem_below r) (Place.child_mem_children hc)) below
    cases opens.symm.trans (h.opens_of_isSealed hr sealed inside)

/-- The scopes that a run enters are those of the places that open one. -/
theorem mem_entries (h : root.Laid) :
    p ∈ root.place.entries ↔ p ∈ root.places ∧ p.opens = true := by
  rw [(Place.perm_entries root.place rfl).mem_iff, List.mem_filter, Bool.and_eq_true]
  constructor
  · rintro ⟨hp, -, opens⟩
    exact ⟨hp, opens⟩
  · rintro ⟨hp, opens⟩
    exact ⟨hp, h.isActive_of_opens hp opens, opens⟩

/-- Each scope is entered once. -/
theorem nodup_entries (h : root.Laid) : (root.place.entries.map fun p => p.node.id).Nodup := by
  have perm := (Place.perm_entries root.place rfl).map fun p => p.node.id
  exact perm.nodup_iff.mpr (h.isTree.nodup_map_places.sublist (List.filter_sublist.map _))

theorem ordered_entries (root : Node) : Place.Ordered [] root.place.entries :=
  Place.ordered_entries root.place (by simp [Place.outer, Place.holders, Place.holdersOf, place])

end Node.Laid

end FreeNames
