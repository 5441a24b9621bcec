import Mathlib.Data.List.Flatten
import FreeNames.Proofs.Tree.Laid
import FreeNames.Proofs.Tree.Place
import FreeNames.Resolution.Position
import FreeNames.Tree.Pattern

/-!
# What stands in a declaration pattern

`Node.sites` lists the names, keys, defaults and other code in a pattern, in the order of the tree,
each with the field of the parent that holds it.

* `Node.stands_of_mem_sites`, `Node.sites_sublist` and `Node.identifiers_eq` say that sites stand
  where they say, in order and apart, and that every identifier of the pattern stands at one.
* `Node.IsDeclarationPattern` are the forms that patterns take; every tree with the layout
  throughout has one (`Node.isDeclarationPattern_of_hasLayout`).
* The names among the sites are the names that the pattern binds
  (`Node.IsDeclarationPattern.patternNames_eq`).
-/

namespace FreeNames

/-! ## What stands in a pattern -/

/-- What a node is there for in a declaration pattern. -/
inductive Role where
  | name
  | staticKey
  | computedKey
  | default
  | leaf
  deriving DecidableEq, Repr

/-- A node in a pattern, with the field of the parent that holds it. -/
structure Site where
  role : Role
  field : Option String
  parent : Option Node
  node : Node

/-- The identifiers in a tree. -/
def Node.identifiers (n : Node) : List Node := n.preorder.filter fun m => m.kind = .identifier

namespace Site

/-- The identifiers that stand there. -/
def identifiers (s : Site) : List Node :=
  if s.role = .name then [s.node] else s.node.identifiers

end Site

namespace Node

/-- What the key of a property is there for. -/
def keyRole (p : Node) : Role := if p.isComputed then .computedKey else .staticKey

theorem keyRole_ne_name (p : Node) : p.keyRole ≠ .name := by
  unfold keyRole
  split <;> simp

/-- What stands in a pattern, down to where a name is bound, a key stands or code begins. -/
def sites (n : Node) (field : Option String) (parent : Option Node) : List Site :=
  if n.kind = .identifier then [⟨.name, field, parent, n⟩]
  else if n.kind.isPattern then
    n.children.attach.flatMap fun ⟨c, _⟩ =>
      if n.kind = .assignmentPattern ∧ c.1 = "right" then [⟨.default, some c.1, some n, c.2⟩]
      else if n.kind = .objectPattern ∧ c.2.kind = .property then
        c.2.children.attach.flatMap fun ⟨d, _⟩ =>
          if d.1 = "key" then [⟨c.2.keyRole, some d.1, some c.2, d.2⟩]
          else d.2.sites (some d.1) (some c.2)
      else c.2.sites (some c.1) (some n)
  else [⟨.leaf, field, parent, n⟩]
termination_by sizeOf n
decreasing_by
  · exact Nat.lt_trans (sizeOf_lt_of_mem_children (by assumption))
      (sizeOf_lt_of_mem_children (by assumption))
  · exact sizeOf_lt_of_mem_children (by assumption)

/-- What stands in one child of an object pattern that is a property. -/
def entrySites (p : Node) : List Site :=
  p.children.flatMap fun d =>
    if d.1 = "key" then [⟨p.keyRole, some d.1, some p, d.2⟩] else d.2.sites (some d.1) (some p)

/-- What stands in one child of a pattern. -/
def sitesIn (n : Node) (c : String × Node) : List Site :=
  if n.kind = .assignmentPattern ∧ c.1 = "right" then [⟨.default, some c.1, some n, c.2⟩]
  else if n.kind = .objectPattern ∧ c.2.kind = .property then c.2.entrySites
  else c.2.sites (some c.1) (some n)

variable {n p : Node} {field : Option String} {parent : Option Node}

theorem sites_of_name (hk : n.kind = .identifier) :
    n.sites field parent = [⟨.name, field, parent, n⟩] := by
  rw [sites, if_pos hk]

theorem not_identifier_of_not_isPattern (hk : n.kind.isPattern = false) :
    n.kind ≠ .identifier := by
  intro same
  rw [same] at hk
  cases hk

theorem sites_of_leaf (hk : n.kind.isPattern = false) :
    n.sites field parent = [⟨.leaf, field, parent, n⟩] := by
  rw [sites, if_neg (not_identifier_of_not_isPattern hk), if_neg (by simp [hk])]

theorem sites_of_pattern (name : n.kind ≠ .identifier) (hk : n.kind.isPattern = true) :
    n.sites field parent = n.children.flatMap n.sitesIn := by
  rw [sites, if_neg name, if_pos hk]
  conv => rhs; rw [← List.attach_map_subtype_val n.children]
  rw [List.flatMap_map]
  refine List.flatMap_congr fun c _ => ?_
  obtain ⟨c, hc⟩ := c
  unfold sitesIn entrySites
  by_cases default : n.kind = .assignmentPattern ∧ c.1 = "right"
  · simp only [if_pos default]
  · by_cases entry : n.kind = .objectPattern ∧ c.2.kind = .property
    · simp only [if_neg default, if_pos entry]
      conv => rhs; rw [← List.attach_map_subtype_val c.2.children]
      rw [List.flatMap_map]
    · simp only [if_neg default, if_neg entry]

/-! ## Where sites stand -/

/-- Induction on what stands inside a node. -/
@[elab_as_elim]
theorem inside_induction {motive : Node → Prop}
    (step : ∀ n, (∀ c : Node, c.Inside n → motive c) → motive n) (n : Node) : motive n :=
  step n fun c _ => inside_induction step c
termination_by sizeOf n
decreasing_by exact Inside.sizeOf_lt (by assumption)

theorem identifiers_of_ne (hk : n.kind ≠ .identifier) :
    n.identifiers = n.children.flatMap fun c => c.2.identifiers := by
  rw [identifiers, preorder_eq, List.filter_cons_of_neg (by simpa using hk), List.filter_flatMap]
  rfl

/-- A part of a pattern is the default of an assignment, an entry with a key, or a pattern. -/
theorem sitesIn_cases (n : Node) (c : String × Node) :
    n.sitesIn c = [⟨.default, some c.1, some n, c.2⟩] ∨
      (c.2.kind = .property ∧ n.sitesIn c = c.2.entrySites) ∨
      n.sitesIn c = c.2.sites (some c.1) (some n) := by
  unfold sitesIn
  split
  · exact .inl rfl
  · split
    · next entry => exact .inr (.inl ⟨entry.2, rfl⟩)
    · exact .inr (.inr rfl)

/-- Every site is the pattern itself, or stands in the field of the parent that it names, which is
the pattern or something inside. -/
theorem stands_of_mem_sites (n : Node) {field : Option String} {parent : Option Node} {s : Site}
    (hs : s ∈ n.sites field parent) :
    (s.field = field ∧ s.parent = parent ∧ s.node = n) ∨
      ∃ f m, s.field = some f ∧ s.parent = some m ∧ (f, s.node) ∈ m.children ∧
        (m = n ∨ m.Inside n) := by
  induction n using inside_induction generalizing field parent with
  | step n ih =>
    by_cases name : n.kind = .identifier
    · rw [sites_of_name name, List.mem_singleton] at hs
      rw [hs]
      exact .inl ⟨rfl, rfl, rfl⟩
    cases pattern : n.kind.isPattern with
    | false =>
      rw [sites_of_leaf pattern, List.mem_singleton] at hs
      rw [hs]
      exact .inl ⟨rfl, rfl, rfl⟩
    | true =>
      rw [sites_of_pattern name pattern] at hs
      obtain ⟨⟨f, c⟩, hc, hs⟩ := List.mem_flatMap.mp hs
      have inside : c.Inside n := .child hc
      right
      rcases sitesIn_cases n (f, c) with same | ⟨-, same⟩ | same <;> rw [same] at hs
      · rw [List.mem_singleton] at hs
        rw [hs]
        exact ⟨f, n, rfl, rfl, hc, .inl rfl⟩
      · obtain ⟨⟨g, d⟩, hd, hs⟩ := List.mem_flatMap.mp hs
        have inside' : d.Inside n := .trans (.child hd) inside
        split at hs
        · rw [List.mem_singleton] at hs
          rw [hs]
          exact ⟨g, c, rfl, rfl, hd, .inr inside⟩
        · rcases ih d inside' hs with ⟨hf, hm, rfl⟩ | ⟨f', m, hf, hm, h, rfl | below⟩
          · exact ⟨g, c, hf, hm, hd, .inr inside⟩
          · exact ⟨f', m, hf, hm, h, .inr inside'⟩
          · exact ⟨f', m, hf, hm, h, .inr (below.trans inside')⟩
      · rcases ih c inside hs with ⟨hf, hm, rfl⟩ | ⟨f', m, hf, hm, h, rfl | below⟩
        · exact ⟨f, n, hf, hm, hc, .inl rfl⟩
        · exact ⟨f', m, hf, hm, h, .inr inside⟩
        · exact ⟨f', m, hf, hm, h, .inr (below.trans inside)⟩

theorem singleton_sublist_preorder (n : Node) : [n].Sublist n.preorder :=
  List.singleton_sublist.mpr (self_mem_preorder n)

/-- The sites stand in the order of the tree, no two of them one in the other. -/
theorem sites_sublist (n : Node) (field : Option String) (parent : Option Node) :
    ((n.sites field parent).map Site.node).Sublist n.preorder := by
  induction n using inside_induction generalizing field parent with
  | step n ih =>
    by_cases name : n.kind = .identifier
    · rw [sites_of_name name]
      exact singleton_sublist_preorder n
    cases pattern : n.kind.isPattern with
    | false =>
      rw [sites_of_leaf pattern]
      exact singleton_sublist_preorder n
    | true =>
      rw [sites_of_pattern name pattern, List.map_flatMap, preorder_eq]
      refine .cons _ (List.Sublist.flatMap_right _ fun c hc => ?_)
      rcases sitesIn_cases n c with same | ⟨-, same⟩ | same <;> rw [same]
      · exact singleton_sublist_preorder c.2
      · rw [entrySites, List.map_flatMap, preorder_eq]
        refine .cons _ (List.Sublist.flatMap_right _ fun d hd => ?_)
        split
        · exact singleton_sublist_preorder d.2
        · exact ih d.2 (.trans (.child hd) (.child hc)) _ _
      · exact ih c.2 (.child hc) _ _

/-- The identifiers of a pattern are those at its sites, if nothing stands below a name. -/
theorem identifiers_eq (n : Node) (field : Option String) (parent : Option Node)
    (bare : ∀ s ∈ n.sites field parent, s.role = .name → s.node.children = []) :
    n.identifiers = (n.sites field parent).flatMap Site.identifiers := by
  induction n using inside_induction generalizing field parent with
  | step n ih =>
    by_cases name : n.kind = .identifier
    · rw [sites_of_name name] at bare ⊢
      rw [identifiers, preorder_eq, bare _ (List.mem_singleton_self _) rfl]
      simp [Site.identifiers, name]
    cases pattern : n.kind.isPattern with
    | false =>
      rw [sites_of_leaf pattern]
      simp [Site.identifiers]
    | true =>
      rw [sites_of_pattern name pattern] at bare ⊢
      rw [List.flatMap_assoc, identifiers_of_ne name]
      refine List.flatMap_congr fun c hc => ?_
      have bareIn : ∀ s ∈ n.sitesIn c, s.role = .name → s.node.children = [] := fun s hs =>
        bare s (List.mem_flatMap.mpr ⟨c, hc, hs⟩)
      rcases sitesIn_cases n c with same | ⟨property, same⟩ | same <;> rw [same] at bareIn ⊢
      · simp [Site.identifiers]
      · rw [entrySites] at bareIn ⊢
        rw [List.flatMap_assoc, identifiers_of_ne (by simp [property])]
        refine List.flatMap_congr fun d hd => ?_
        have bareAt := fun s hs => bareIn s (List.mem_flatMap.mpr ⟨d, hd, hs⟩)
        split
        · simp [Site.identifiers, keyRole_ne_name]
        · next other =>
          rw [if_neg other] at bareAt
          exact ih d.2 (.trans (.child hd) (.child hc)) _ _ bareAt
      · exact ih c.2 (.child hc) _ _ bareIn

/-! ## The form of patterns -/

/-- A property holds a key and a value, in this order, and says if the key is computed. -/
structure IsPair (p key value : Node) : Prop where
  computed : p.flag "computed" = .ok p.isComputed
  key_eq : p.child "key" = .ok key
  value_eq : p.child "value" = .ok value
  children : p.children = [("key", key), ("value", value)]

/-- A node is a declaration pattern: a name, a pattern whose parts are patterns, or anything that
is no pattern. -/
inductive IsDeclarationPattern : Node → Prop
  | name {n : Node} : n.kind = .identifier → n.children = [] → IsDeclarationPattern n
  | leaf {n : Node} : n.kind.isPattern = false → IsDeclarationPattern n
  | rest {n a : Node} : n.kind = .restElement → n.child "argument" = .ok a →
      n.children = [("argument", a)] → IsDeclarationPattern a → IsDeclarationPattern n
  | assignment {n l r : Node} : n.kind = .assignmentPattern → n.child "left" = .ok l →
      n.child "right" = .ok r → n.children = [("left", l), ("right", r)] →
      IsDeclarationPattern l → IsDeclarationPattern n
  | array {n : Node} {es : List (Option Node)} : n.kind = .arrayPattern →
      n.slots "elements" = .ok es → n.children = inField "elements" (es.flatMap Option.toList) →
      (∀ e, some e ∈ es → IsDeclarationPattern e) → IsDeclarationPattern n
  | object {n : Node} {ps : List Node} : n.kind = .objectPattern →
      n.items "properties" = .ok ps → n.children = inField "properties" ps →
      (∀ p ∈ ps, p.kind = .property → ∃ key value, p.IsPair key value) →
      (∀ p ∈ ps, p.kind = .property → ∀ value, p.child "value" = .ok value →
        IsDeclarationPattern value) →
      (∀ p ∈ ps, p.kind ≠ .property → IsDeclarationPattern p) → IsDeclarationPattern n

/-- A tree with the layout throughout is a declaration pattern wherever it is looked at as one. -/
theorem isDeclarationPattern_of_hasLayout (n : Node) (h : ∀ m ∈ n.preorder, m.hasLayout = true) :
    n.IsDeclarationPattern := by
  induction n using inside_induction with
  | step n ih =>
    have self := h n (self_mem_preorder n)
    have part : ∀ c ∈ n.children, c.2.IsDeclarationPattern := fun c hc =>
      ih c.2 (.child hc) fun m hm => h m (mem_preorder_of_mem_children hc hm)
    cases kind : n.kind
    case identifier => exact .name kind (children_of_isLeaf self (by rw [kind]; rfl))
    case objectPattern =>
      obtain ⟨ps, items, children⟩ := laid_objectPattern self kind
      have mem : ∀ p ∈ ps, ("properties", p) ∈ n.children := fun p hp => by
        rw [children]
        exact mem_inField.mpr ⟨rfl, hp⟩
      refine .object kind items children (fun p hp property => ?_)
        (fun p hp property value hv => ?_) fun p hp _ => part _ (mem p hp)
      · have laid := h p (mem_preorder_of_mem_children (mem p hp) (self_mem_preorder p))
        obtain ⟨key, value, computed, hkey, hvalue, inside⟩ := laid_property laid property
        exact ⟨key, value, computed, hkey, hvalue, inside⟩
      · have below := mem_children_of_child hv
        exact ih value (.trans (.child below) (.child (mem p hp))) fun m hm =>
          h m (mem_preorder_of_mem_children (mem p hp) (mem_preorder_of_mem_children below hm))
    case arrayPattern =>
      obtain ⟨es, slots, children⟩ := laid_arrayPattern self kind
      exact .array kind slots children fun e he => part _ (mem_children_of_slots slots he)
    case restElement =>
      obtain ⟨a, argument, children⟩ := laid_restElement self kind
      exact .rest kind argument children (part _ (mem_children_of_child argument))
    case assignmentPattern =>
      obtain ⟨l, r, left, right, children⟩ := laid_assignmentPattern self kind
      exact .assignment kind left right children (part _ (mem_children_of_child left))
    all_goals exact .leaf (by rw [kind]; rfl)

/-! ## Sites of the forms -/

section Forms

variable {es : List (Option Node)} {ps : List Node} {a l r key value : Node}

theorem sites_of_rest (hk : n.kind = .restElement) (children : n.children = [("argument", a)]) :
    n.sites field parent = a.sites (some "argument") (some n) := by
  rw [sites_of_pattern (by simp [hk]) (by simp [hk, Kind.isPattern]), children]
  simp [sitesIn, hk]

theorem sites_of_assignment (hk : n.kind = .assignmentPattern)
    (children : n.children = [("left", l), ("right", r)]) :
    n.sites field parent =
      l.sites (some "left") (some n) ++ [⟨.default, some "right", some n, r⟩] := by
  rw [sites_of_pattern (by simp [hk]) (by simp [hk, Kind.isPattern]), children]
  simp [sitesIn, hk]

theorem sites_of_array (hk : n.kind = .arrayPattern)
    (children : n.children = inField "elements" (es.flatMap Option.toList)) :
    n.sites field parent =
      es.flatMap fun e => e.toList.flatMap fun c => c.sites (some "elements") (some n) := by
  rw [sites_of_pattern (by simp [hk]) (by simp [hk, Kind.isPattern]), children, inField,
    List.flatMap_map, List.flatMap_assoc]
  simp [sitesIn, hk]

theorem sites_of_object (hk : n.kind = .objectPattern)
    (children : n.children = inField "properties" ps) :
    n.sites field parent = ps.flatMap fun p =>
      if p.kind = .property then p.entrySites else p.sites (some "properties") (some n) := by
  rw [sites_of_pattern (by simp [hk]) (by simp [hk, Kind.isPattern]), children, inField,
    List.flatMap_map]
  simp [sitesIn, hk]

theorem IsPair.entrySites_eq (h : p.IsPair key value) :
    p.entrySites = ⟨p.keyRole, some "key", some p, key⟩ :: value.sites (some "value") (some p) := by
  rw [entrySites, h.children]
  simp

end Forms

/-! ## The names -/

/-- The names at the sites of a pattern. -/
def namesOf (sites : List Site) : List Node :=
  sites.filterMap fun s => if s.role = .name then some s.node else none

@[simp] theorem namesOf_append (xs ys : List Site) :
    namesOf (xs ++ ys) = namesOf xs ++ namesOf ys := List.filterMap_append ..

theorem namesOf_flatMap {α : Type} (xs : List α) (f : α → List Site) :
    namesOf (xs.flatMap f) = xs.flatMap fun x => namesOf (f x) := List.filterMap_flatMap ..

theorem namesOf_key (p key : Node) (field : Option String) (sites : List Site) :
    namesOf (⟨p.keyRole, field, parent, key⟩ :: sites) = namesOf sites := by
  simp [namesOf, keyRole_ne_name]

theorem patternNames_of_subpatterns (name : n.kind ≠ .identifier) {parts : List Node}
    (h : n.subpatterns = parts.map .ok) : n.patternNames = parts.flatMap patternNames := by
  rw [patternNames_eq, if_neg name, h, List.flatMap_map]

theorem patternNames_of_leaf (hk : n.kind.isPattern = false) : n.patternNames = [] := by
  have none : n.subpatterns = ([] : List Node).map .ok := by
    unfold subpatterns
    split <;> simp_all [Kind.isPattern]
  exact patternNames_of_subpatterns (not_identifier_of_not_isPattern hk) none

theorem IsPair.propertyPatterns_eq {key value : Node} (h : p.IsPair key value)
    (hk : p.kind = .property) : p.propertyPatterns = [.ok value] := by
  rw [propertyPatterns, if_pos hk, child?_of_child h.value_eq]
  rfl

/-- The names that a pattern binds are those at its sites. -/
theorem IsDeclarationPattern.patternNames_eq (h : n.IsDeclarationPattern) (field : Option String)
    (parent : Option Node) : n.patternNames = (namesOf (n.sites field parent)).map .ok := by
  induction h generalizing field parent with
  | name hk _ =>
    rw [Node.patternNames_eq, if_pos hk, sites_of_name hk]
    rfl
  | leaf hk =>
    rw [patternNames_of_leaf hk, sites_of_leaf hk]
    rfl
  | @rest n a hk child children _ ih =>
    have parts : n.subpatterns = [a].map .ok := by
      simp [subpatterns, hk, child?_of_child child, Readings.ofOption]
    rw [patternNames_of_subpatterns (by simp [hk]) parts, sites_of_rest hk children,
      List.flatMap_singleton, ih]
  | @assignment n l r hk left right children _ ih =>
    have parts : n.subpatterns = [l].map .ok := by
      simp [subpatterns, hk, child?_of_child left, Readings.ofOption]
    rw [patternNames_of_subpatterns (by simp [hk]) parts, sites_of_assignment hk children,
      List.flatMap_singleton, ih (some "left") (some n), namesOf_append]
    simp [namesOf]
  | @array n es hk slots children _ ih =>
    have parts : n.subpatterns = (es.flatMap Option.toList).map .ok := by
      simp only [subpatterns, hk, slots, Readings.ofSlots, List.filterMap_eq_flatMap_toList,
        List.map_flatMap, Option.toList_map]
    rw [patternNames_of_subpatterns (by simp [hk]) parts, sites_of_array hk children,
      namesOf_flatMap, List.map_flatMap, List.flatMap_assoc]
    refine List.flatMap_congr fun e he => ?_
    cases e with
    | none => rfl
    | some c => simpa using ih c he _ _
  | @object n ps hk items children pairs _ _ ihValue ihOther =>
    rw [Node.patternNames_eq, if_neg (by simp [hk]), sites_of_object hk children, namesOf_flatMap,
      List.map_flatMap, subpatterns, hk]
    simp only [items, Readings.ofList]
    rw [List.flatMap_map, List.flatMap_assoc]
    refine List.flatMap_congr fun p hp => ?_
    by_cases property : p.kind = .property
    · obtain ⟨key, value, pair⟩ := pairs p hp property
      rw [if_pos property, pair.entrySites_eq, namesOf_key]
      simpa [pair.propertyPatterns_eq property] using ihValue p hp property value pair.value_eq _ _
    · simpa [propertyPatterns, property] using ihOther p hp property _ _

/-- The names of a pattern are identifiers, and nothing stands below them. -/
theorem IsDeclarationPattern.bare (h : n.IsDeclarationPattern) {s : Site}
    (hs : s ∈ n.sites field parent) (role : s.role = .name) :
    s.node.kind = .identifier ∧ s.node.children = [] := by
  induction h generalizing field parent with
  | name hk children =>
    rw [sites_of_name hk, List.mem_singleton] at hs
    rw [hs]
    exact ⟨hk, children⟩
  | leaf hk =>
    rw [sites_of_leaf hk, List.mem_singleton] at hs
    rw [hs] at role
    cases role
  | rest hk _ children _ ih =>
    rw [sites_of_rest hk children] at hs
    exact ih hs
  | assignment hk _ _ children _ ih =>
    rw [sites_of_assignment hk children] at hs
    rcases List.mem_append.mp hs with hs | hs
    · exact ih hs
    · rw [List.mem_singleton] at hs
      rw [hs] at role
      cases role
  | array hk _ children _ ih =>
    rw [sites_of_array hk children] at hs
    obtain ⟨e, he, hs⟩ := List.mem_flatMap.mp hs
    obtain ⟨c, hc, hs⟩ := List.mem_flatMap.mp hs
    exact ih c (Option.mem_toList.mp hc ▸ he) hs
  | object hk _ children pairs _ _ ihValue ihOther =>
    rw [sites_of_object hk children] at hs
    obtain ⟨p, hp, hs⟩ := List.mem_flatMap.mp hs
    split at hs
    · next property =>
      obtain ⟨key, value, pair⟩ := pairs p hp property
      rw [pair.entrySites_eq] at hs
      rcases List.mem_cons.mp hs with rfl | hs
      · exact absurd role (keyRole_ne_name p)
      · exact ihValue p hp property value pair.value_eq hs
    · next other => exact ihOther p hp other hs

end Node

end FreeNames
