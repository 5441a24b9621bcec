import FreeNames.Proofs.Tree.Laid
import FreeNames.Resolution.Visit

/-!
# Declaration patterns and places

Whether a node is looked at as code or as a part of a declaration pattern is decided by its
place: `Place.binds`.

* `Place.mem_patternNames` finds the identifiers of a pattern below it, as parts of it.
* `Node.Laid.binds_iff` says that an identifier is such a part exactly if it is among the
  `Node.patternNames` of what a declarator, a parameter or a catch clause declares.
-/

namespace FreeNames

/-! ## Positions of patterns -/

namespace Node

/-- Does the field hold patterns that declare? -/
def declaresIn (n : Node) (field : String) : Bool :=
  (n.kind = .variableDeclarator && field = "id") || (n.kind.isFunction && field = "params")
    || (n.kind = .catchClause && field = "param")

/-- Does the field hold the parts of the pattern that the node is? -/
def patternIn (n : Node) (field : String) : Bool :=
  match n.kind with
  | .objectPattern => field = "properties"
  | .arrayPattern => field = "elements"
  | .restElement => field = "argument"
  | .assignmentPattern => field = "left"
  | _ => false

end Node

namespace Place

/-- Is the node an entry of an object pattern? -/
def isEntryOf (n : Node) (above : List (String × Node)) : Bool :=
  n.kind = .property &&
    match above with
    | (field, m) :: _ => m.kind = .objectPattern && field = "properties"
    | [] => false

/-- Do the surroundings make a node a part of a declaration pattern? -/
def bindsOf : List (String × Node) → Bool
  | [] => false
  | (field, n) :: rest => n.declaresIn field || (n.patternIn field && bindsOf rest)
      || (isEntryOf n rest && field = "value" && bindsOf rest)

def isEntry (p : Place) : Bool := isEntryOf p.node p.above

/-- Is the node a part of a declaration pattern? -/
def binds (p : Place) : Bool := bindsOf p.above

variable {p : Place} {c : String × Node}

theorem binds_child : (p.child c).binds = (p.node.declaresIn c.1
    || (p.node.patternIn c.1 && p.binds) || (p.isEntry && c.1 = "value" && p.binds)) := rfl

theorem binds_child_of_declaresIn (h : p.node.declaresIn c.1 = true) :
    (p.child c).binds = true := by
  rw [binds_child, h, Bool.true_or, Bool.true_or]

theorem binds_child_of_patternIn (h : p.node.patternIn c.1 = true) (hp : p.binds = true) :
    (p.child c).binds = true := by
  rw [binds_child, h, hp, Bool.and_true, Bool.or_true, Bool.true_or]

theorem binds_child_of_isEntry {value : Node} (h : p.isEntry = true) (hp : p.binds = true) :
    (p.child ("value", value)).binds = true := by
  rw [binds_child, h, hp]
  simp

theorem isEntry_child {q : Node} (hp : p.node.kind = .objectPattern) (hq : q.kind = .property) :
    (p.child ("properties", q)).isEntry = true := by
  simp [isEntry, isEntryOf, hp, hq, child]

/-! ## The names of a pattern -/

/-- What stands directly inside a pattern stands below it, and is a part of a declaration if
the pattern is one. -/
theorem exists_of_mem_subpatterns {c : Node} (h : .ok c ∈ p.node.subpatterns) :
    ∃ q ∈ p.below, q.node = c ∧ (p.binds = true → q.binds = true) := by
  have direct : ∀ {field : String}, (field, c) ∈ p.node.children → p.node.patternIn field = true →
      ∃ q ∈ p.below, q.node = c ∧ (p.binds = true → q.binds = true) := fun hc hin =>
    ⟨_, mem_below_of_mem_children (self_mem_below p) (child_mem_children hc), rfl,
      binds_child_of_patternIn hin⟩
  unfold Node.subpatterns at h
  split at h
  · next hk =>
    obtain ⟨r, hr, hc⟩ := List.mem_flatMap.mp h
    cases r with
    | error f => simp at hc
    | ok q =>
      obtain ⟨qs, hqs, hq⟩ := Readings.ok_mem_ofList.mp hr
      have mem := Node.mem_children_of_items hqs hq
      replace hc : .ok c ∈ q.propertyPatterns := hc
      unfold Node.propertyPatterns at hc
      split at hc
      · next hprop =>
        have hvalue := Node.mem_children_of_child? (Readings.ok_mem_ofOption.mp hc)
        refine ⟨(p.child ("properties", q)).child ("value", c), ?_, rfl, fun hp => ?_⟩
        · exact mem_below_of_mem_children (mem_below_of_mem_children (self_mem_below p)
            (child_mem_children mem)) (child_mem_children hvalue)
        · exact binds_child_of_isEntry (isEntry_child hk hprop)
            (binds_child_of_patternIn (by simp [Node.patternIn, hk]) hp)
      · simp only [List.mem_singleton, Except.ok.injEq] at hc
        exact direct (hc ▸ mem) (by simp [Node.patternIn, hk])
  · next hk =>
    obtain ⟨es, hes, hc⟩ := Readings.ok_mem_ofSlots.mp h
    exact direct (Node.mem_children_of_slots hes hc) (by simp [Node.patternIn, hk])
  · next hk =>
    exact direct (Node.mem_children_of_child? (Readings.ok_mem_ofOption.mp h))
      (by simp [Node.patternIn, hk])
  · next hk =>
    exact direct (Node.mem_children_of_child? (Readings.ok_mem_ofOption.mp h))
      (by simp [Node.patternIn, hk])
  · simp at h

/-- The identifiers of a pattern stand below it as parts of it. -/
theorem exists_of_mem_patternNames {p : Place} {i : Node} (h : .ok i ∈ p.node.patternNames) :
    ∃ q ∈ p.below, q.node = i ∧ i.kind = .identifier ∧ (p.binds = true → q.binds = true) := by
  rw [Node.patternNames_eq] at h
  split at h
  · next hk =>
    simp only [List.mem_singleton, Except.ok.injEq] at h
    exact ⟨p, self_mem_below p, h.symm, h ▸ hk, id⟩
  · obtain ⟨r, hr, hi⟩ := List.mem_flatMap.mp h
    cases r with
    | error f => simp at hi
    | ok c =>
      replace hi : .ok i ∈ c.patternNames := hi
      have := Node.sizeOf_lt_of_mem_subpatterns hr
      obtain ⟨q, hq, rfl, hbinds⟩ := exists_of_mem_subpatterns hr
      obtain ⟨r, hr, hnode, hkind, hrest⟩ := exists_of_mem_patternNames hi
      exact ⟨r, mem_below_trans hq hr, hnode, hkind, fun hp => hrest (hbinds hp)⟩
termination_by sizeOf p.node

end Place

theorem Node.mem_patternNames_of_mem_subpatterns {n c i : Node} (hk : n.kind ≠ .identifier)
    (hc : .ok c ∈ n.subpatterns) (hi : .ok i ∈ c.patternNames) : .ok i ∈ n.patternNames := by
  rw [patternNames_eq, if_neg hk]
  exact List.mem_flatMap.mpr ⟨_, hc, hi⟩

namespace Node.Laid

variable {root : Node} {p : Place}

/-- The parts of a pattern are among its subpatterns; entries of an object pattern stand for
their values. -/
theorem mem_subpatterns (h : root.Laid) {c : String × Node} (hp : p ∈ root.places)
    (hc : c ∈ p.node.children) (hin : p.node.patternIn c.1 = true) :
    .ok c.2 ∈ p.node.subpatterns ∨ (p.child c).isEntry = true := by
  have layout := h.hasLayout hp
  obtain ⟨field, c⟩ := c
  unfold patternIn at hin
  split at hin
  · next hk =>
    obtain ⟨ps, hps, children⟩ := laid_objectPattern layout hk
    rw [children, mem_inField] at hc
    obtain ⟨rfl, hc⟩ := hc
    by_cases hprop : c.kind = .property
    · exact Or.inr (Place.isEntry_child hk hprop)
    · left
      rw [subpatterns, hk]
      refine List.mem_flatMap.mpr ⟨.ok c, Readings.ok_mem_ofList.mpr ⟨ps, hps, hc⟩, ?_⟩
      simp [propertyPatterns, hprop]
  · next hk =>
    obtain ⟨es, hes, children⟩ := laid_arrayPattern layout hk
    rw [children, mem_inField] at hc
    obtain ⟨rfl, hc⟩ := hc
    left
    rw [subpatterns, hk]
    refine Readings.ok_mem_ofSlots.mpr ⟨es, hes, ?_⟩
    obtain ⟨o, ho, hco⟩ := List.mem_flatMap.mp hc
    rwa [← Option.mem_toList.mp hco]
  · next hk =>
    obtain ⟨a, ha, children⟩ := laid_restElement layout hk
    simp only [children, List.mem_singleton, Prod.mk.injEq] at hc
    obtain ⟨rfl, rfl⟩ := hc
    left
    rw [subpatterns, hk]
    exact Readings.ok_mem_ofOption.mpr (child?_of_child ha)
  · next hk =>
    obtain ⟨l, r, hl, hr, children⟩ := laid_assignmentPattern layout hk
    simp only [children, List.mem_cons, List.not_mem_nil, or_false, Prod.mk.injEq] at hc
    left
    rw [subpatterns, hk]
    rcases hc with ⟨rfl, rfl⟩ | ⟨rfl, rfl⟩
    · exact Readings.ok_mem_ofOption.mpr (child?_of_child hl)
    · simp at hin
  · cases hin

theorem patternNames_of_property {n : Node} (hk : n.kind = .property) : n.patternNames = [] := by
  rw [patternNames_eq, if_neg (by simp [hk]), subpatterns, hk]
  rfl

/-- An entry of a declared object pattern belongs to it. -/
theorem exists_of_isEntry (hp : p ∈ root.places) (entry : p.isEntry = true) :
    ∃ q ∈ root.places, q.child ("properties", p.node) = p ∧ ("properties", p.node) ∈ q.node.children ∧
      q.node.kind = .objectPattern ∧ p.node.kind = .property ∧ p.binds = q.binds := by
  obtain ⟨node, above⟩ := p
  obtain _ | ⟨⟨field, n⟩, rest⟩ := above
  · simp [Place.isEntry, Place.isEntryOf] at entry
  · obtain ⟨hq, hc⟩ := mem_places_of_above hp rfl
    simp only [Place.isEntry, Place.isEntryOf, Bool.and_eq_true, decide_eq_true_eq] at entry
    obtain ⟨hprop, hk, rfl⟩ := entry
    refine ⟨⟨n, rest⟩, hq, rfl, hc, hk, hprop, ?_⟩
    show (Place.child ⟨n, rest⟩ ("properties", node)).binds = _
    rw [Place.binds_child]
    simp [declaresIn, patternIn, hk, Kind.isFunction, Place.isEntry, Place.isEntryOf]

/-- The names of a part of a declaration pattern are among those of a whole one. -/
theorem exists_declared (h : root.Laid) (hp : p ∈ root.places) (hb : p.binds = true) :
    ∃ n ∈ root.preorder, ∃ d ∈ n.children, n.declaresIn d.1 = true ∧
      ∀ i, .ok i ∈ p.node.patternNames → .ok i ∈ d.2.patternNames := by
  induction depth : p.above.length using Nat.strongRecOn generalizing p with | ind k ih => ?_
  rcases places_cases hp with rfl | ⟨q, hq, c, hc, rfl⟩
  · cases hb
  · have closer : q.above.length < k := by
      rw [← depth]
      simp
    rw [Place.binds_child, Bool.or_eq_true, Bool.or_eq_true, Bool.and_eq_true, Bool.and_eq_true,
      Bool.and_eq_true] at hb
    rcases hb with (declares | ⟨part, hqb⟩) | ⟨⟨entry, value⟩, hqb⟩
    · exact ⟨q.node, node_mem_preorder hq, c, hc, declares, fun i hi => hi⟩
    · obtain ⟨n, hn, d, hd, declares, names⟩ := ih _ closer hq hqb rfl
      refine ⟨n, hn, d, hd, declares, fun i hi => names i ?_⟩
      rcases h.mem_subpatterns hq hc part with hsub | entry
      · exact mem_patternNames_of_mem_subpatterns
          (by intro hk; simp [patternIn, hk] at part) hsub hi
      · obtain ⟨-, -, -, -, -, hprop, -⟩ := exists_of_isEntry (child_mem_places hq hc) entry
        rw [Place.node_child] at hi hprop
        rw [patternNames_of_property hprop] at hi
        cases hi
    · obtain ⟨r, hr, hchild, hmem, hk, hprop, hsame⟩ := exists_of_isEntry hq entry
      have outer : r.above.length < q.above.length := by
        rw [← hchild]
        simp
      obtain ⟨n, hn, d, hd, declares, names⟩ := ih _ (Nat.lt_trans outer closer) hr (hsame ▸ hqb) rfl
      refine ⟨n, hn, d, hd, declares, fun i hi => names i ?_⟩
      obtain ⟨ps, hps, children⟩ := laid_objectPattern (h.hasLayout hr) hk
      obtain ⟨key, v, -, -, hv, hchildren⟩ := laid_property (h.hasLayout hq) hprop
      obtain ⟨field, c⟩ := c
      obtain rfl : field = "value" := by simpa using value
      obtain rfl : c = v := by simpa [hchildren] using hc
      refine mem_patternNames_of_mem_subpatterns (by simp [hk]) ?_ hi
      rw [subpatterns, hk]
      refine List.mem_flatMap.mpr ⟨.ok q.node, Readings.ok_mem_ofList.mpr ⟨ps, hps, ?_⟩, ?_⟩
      · rw [children] at hmem
        exact (mem_inField.mp hmem).2
      · show _ ∈ q.node.propertyPatterns
        rw [propertyPatterns, if_pos hprop]
        exact Readings.ok_mem_ofOption.mpr (child?_of_child hv)

/-- An identifier is a part of a declaration pattern exactly if a declarator, a parameter or a
catch clause declares it. -/
theorem binds_iff (h : root.Laid) (hp : p ∈ root.places) (hk : p.node.kind = .identifier) :
    p.binds = true ↔ ∃ n ∈ root.preorder, ∃ d ∈ n.children, n.declaresIn d.1 = true ∧
      .ok p.node ∈ d.2.patternNames := by
  constructor
  · intro hb
    obtain ⟨n, hn, d, hd, declares, names⟩ := h.exists_declared hp hb
    refine ⟨n, hn, d, hd, declares, names _ ?_⟩
    rw [patternNames_eq, if_pos hk]
    exact List.mem_singleton_self _
  · rintro ⟨n, hn, d, hd, declares, hi⟩
    obtain ⟨q, hq, rfl⟩ := exists_place_of_mem_preorder hn
    obtain ⟨r, hr, hnode, -, hbinds⟩ := Place.exists_of_mem_patternNames (p := q.child d) hi
    have mem : r ∈ root.places := Place.mem_below_trans (child_mem_places hq hd) hr
    rw [h.isTree.eq_of_id_eq hp mem (by rw [hnode])]
    exact hbinds (Place.binds_child_of_declaresIn declares)

end Node.Laid

end FreeNames
