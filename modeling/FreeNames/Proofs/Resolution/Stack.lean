import FreeNames.Proofs.Resolution.Point

/-!
# The stack of enclosing nodes

Wherever a run is, its stack holds the nodes around a place of the tree, and when a visit is
over the stack is what it was before.

* `Visit.follows_steps` is the step lemma, one case for each rule of the traversal;
  `Visit.follows_events` is the run lemma, and `Node.follows_events` speaks of a whole tree.

Nothing is assumed of the layout of the tree, except that what stands among the declarators of
a variable declaration can hold other nodes (`Node.DeclaratorsHold`).
-/

namespace FreeNames

variable {report : Bool} {root : Node} {s t : Point} {p : Place} {scopes : List Frame}

theorem Place.opens_of_operandField? {p : Place} {field : String}
    (hk : p.node.kind.operandField? = some field) : p.opens = false := by
  cases hp : p.node.kind <;> rw [hp] at hk <;>
    first | exact opens_of_kind hp (by decide) | cases hk

namespace Visit

/-! ## Declarations and plain nodes -/

theorem follows_declaratorSteps (hold : root.DeclaratorsHold) (w : Within root t p)
    (hk : p.node.kind = .variableDeclaration) {d : Node}
    (hd : ("declarations", d) ∈ p.node.children)
    (frames : Scoped report root t (p.child ("declarations", d)) scopes) :
    Follows report root t.enclosing t (declaratorSteps d scopes) := by
  refine .within ?_
  cases hid : d.child "id" with
  | error f => trivial
  | ok pattern =>
    have around := w.around hd
    have inner : Within root (t.after (.push d)) (p.child ("declarations", d)) :=
      around.within (hold _ (Node.node_mem_preorder w.mem) hk d hd pattern hid)
    have closed : root.PlainDeclarators → (p.child ("declarations", d)).opens = false :=
      fun plain => Place.opens_of_kind
        (plain _ (Node.node_mem_preorder w.mem) hk d hd) (by decide)
    refine .append (inner.follows (Node.mem_children_of_child hid) (frames.child closed)) ?_
    refine .need fun init hinit => inner.followsAll (fun c hc => ?_) fun c _ =>
      frames.child closed
    exact Node.mem_children_of_child? (Option.mem_toList.mp hc ▸ hinit)

theorem follows_insideSteps (hold : root.DeclaratorsHold) (w : Within root t p)
    (noClass : p.node.kind.isClass = false)
    (frames : ∀ c ∈ p.node.children, p.node.isOutside c.1 = false →
      Scoped report root t (p.child c) scopes) :
    Follows report root t.enclosing t (insideSteps p.node scopes) := by
  have inside : ∀ {field : String}, (p.node.kind = .switchStatement → field ≠ "discriminant") →
      p.node.isOutside field = false := Node.isOutside_eq_false noClass
  unfold insideSteps
  split
  · next hk =>
    refine .need fun ds hds => .flatMap fun d hd => ?_
    have hmem := Node.mem_children_of_items hds hd
    exact follows_declaratorSteps hold w hk hmem (frames _ hmem (inside (by simp)))
  · next hk =>
    have inside : ∀ field, p.node.isOutside field = false := fun _ => inside (by simp [hk])
    refine .append (.need fun param hparam => w.followsAll (fun c hc => ?_) fun c hc => ?_)
      (.need fun body hb => ?_)
    · exact Node.mem_children_of_child? (Option.mem_toList.mp hc ▸ hparam)
    · exact frames _ (Node.mem_children_of_child? (Option.mem_toList.mp hc ▸ hparam)) (inside _)
    · have hmem := Node.mem_children_of_child hb
      exact w.follows hmem (frames _ hmem (inside _))
  · exact w.follows_readingChildren fun c hc hkeep =>
      frames c hc (inside fun _ => by simpa using hkeep)
  · next hks _ hk =>
    exact w.follows_readingChildren fun c hc _ =>
      frames c hc (inside fun hs => absurd hs hk)

theorem follows_plainSteps (hold : root.DeclaratorsHold) (around : Around root s p)
    (canHold : p.node.CanHold) (noClass : p.node.kind.isClass = false)
    (frames : Scoped report root s p scopes) (mode : Mode) :
    Follows report root s.enclosing s ((p.visit mode scopes).plainSteps report) := by
  have w := around.within canHold
  refine .within (.both ?_ ?_)
  · unfold outsideSteps
    split
    · next hk =>
      have hk : p.node.kind = .switchStatement := hk
      refine .need fun d hd => w.follows (Node.mem_children_of_child hd) ?_
      exact (frames.push p.node).outside (by simp [Node.isOutside, hk])
    · exact .nil rfl
  · split
    · next hopens =>
      refine .entering (follows_insideSteps hold (w.enter p.node none) noClass fun c _ inside => ?_)
      exact (frames.push p.node).opened hopens inside
    · next hopens =>
      refine follows_insideSteps hold w noClass fun c _ _ => (frames.push p.node).child fun _ => ?_
      exact Bool.eq_false_iff.mpr hopens

/-! ## Functions and classes -/

theorem follows_bodySteps (w : Within root t p) (hk : p.node.kind.isFunction = true)
    {body : Node} (hb : ("body", body) ∈ p.node.children)
    (frames : Scoped report root t (p.child ("body", body)) scopes) :
    Follows report root t.enclosing t (bodySteps p.node body scopes) := by
  unfold bodySteps
  split
  · next hblock =>
    have inner : Within root (t.after (.push body)) (p.child ("body", body)) :=
      (w.around hb).within (Node.canHold_of_kind (by simp [hblock]))
    refine .within (.need fun statements hs => inner.followsAll (fun c hc => ?_) fun c _ => ?_)
    · exact Node.mem_children_of_items hs hc
    · exact (frames.push body).child fun _ => Place.opens_body hk hblock
  · exact w.follows hb frames

theorem follows_functionSteps (around : Around root s p)
    (hk : p.node.kind.isFunction = true) (frames : Scoped report root s p scopes) (mode : Mode) :
    Follows report root s.enclosing s ((p.visit mode scopes).functionSteps report) := by
  have canHold : p.node.CanHold := by
    refine Node.canHold_of_kind ⟨?_, ?_, ?_⟩ <;> intro h <;> simp [h, Kind.isFunction] at hk
  have noClass : p.node.kind.isClass = false := by
    generalize p.node.kind = k at hk
    cases k <;> simp_all [Kind.isFunction, Kind.isClass]
  have inside : ∀ field, p.node.isOutside field = false := fun field =>
    Node.isOutside_eq_false noClass fun h => by simp [h, Kind.isFunction] at hk
  have opened : ∀ c, Scoped report root ⟨s.enclosing, p.node :: s.entered⟩ (p.child c)
      (Frame.of report p.node :: scopes) := fun c =>
    frames.opened (Place.opens_eq_true (Or.inl hk)) (inside c.1)
  have w := (around.within canHold).enter p.node none
  refine .entering (.within (.both (.need fun params hp => w.followsAll (fun c hc => ?_) ?_)
    (.need fun body hb => ?_)))
  · exact Node.mem_children_of_items hp hc
  · exact fun c _ => opened _
  · exact follows_bodySteps w hk (Node.mem_children_of_child hb) (opened _)

theorem follows_classSteps (around : Around root s p) (hk : p.node.kind.isClass = true)
    (frames : Scoped report root s p scopes) (mode : Mode) :
    Follows report root s.enclosing s ((p.visit mode scopes).classSteps report) := by
  have canHold : p.node.CanHold := by
    refine Node.canHold_of_kind ⟨?_, ?_, ?_⟩ <;> intro h <;> simp [h, Kind.isClass] at hk
  have w := around.within canHold
  unfold classSteps
  rw [List.append_assoc _ (entering _ _ _)]
  refine .within (.both (.both (.need fun ds hd => w.followsAll (fun c hc => ?_) fun c _ => ?_)
    (.need fun heritage hh => w.followsAll (fun c hc => ?_) fun c _ => ?_))
    (.entering (.need fun body hb => ?_)))
  · exact Node.mem_children_of_items hd hc
  · exact (frames.push p.node).outside (by simp [Node.isOutside, hk])
  · exact Node.mem_children_of_child? (Option.mem_toList.mp hc ▸ hh)
  · exact (frames.push p.node).outside (by simp [Node.isOutside, hk])
  · refine (w.enter p.node none).follows (Node.mem_children_of_child hb) ?_
    refine (frames.push p.node).opened (Place.opens_eq_true (Or.inr (Or.inl hk))) ?_
    have : p.node.kind ≠ .switchStatement := fun h => by simp [h, Kind.isClass] at hk
    simp [Node.isOutside, this]

/-! ## Chains -/

theorem canHold_of_operand {n operand : Node} {field : String}
    (hk : n.kind.operandField? = some field) (hc : n.child field = .ok operand) :
    n.CanHold := by
  refine ⟨fun h => ?_, fun h => ?_, fun h => ⟨operand, ?_⟩⟩
  · rw [h] at hk
    cases hk
  · rw [h] at hk
    cases hk
  · rw [h] at hk
    cases hk
    exact hc

theorem follows_spineSteps {links : List Node} {operand : Node} (around : Around root s p)
    (spine : SpineOf p.node links operand) (frames : Scoped report root s p scopes) :
    Follows report root s.enclosing s (spineSteps links operand scopes) := by
  generalize hn : p.node = n at spine
  induction spine generalizing s p with
  | @last n operand field hk hc _ =>
    subst hn
    have w := around.within (canHold_of_operand hk hc)
    have inner : ∀ c, Scoped report root (s.after (.push p.node)) (p.child c) scopes :=
      fun c => (frames.push p.node).child fun _ => Place.opens_of_operandField? hk
    rw [spineSteps_singleton, hk]
    refine .within ⟨⟨_, w.standsAt (Node.mem_children_of_child hc) (inner _)⟩, ?_⟩
    exact w.follows_readingChildren fun c _ _ => inner c
  | @link n inner operand field links hk hc spine ih =>
    subst hn
    have w := around.within (canHold_of_operand hk hc)
    have frames' : ∀ c, Scoped report root (s.after (.push p.node)) (p.child c) scopes :=
      fun c => (frames.push p.node).child fun _ => Place.opens_of_operandField? hk
    rw [spineSteps_cons _ _ spine.ne_nil]
    refine .within (.both ?_ ?_)
    · exact ih (w.around (Node.mem_children_of_child hc)) (frames' _) rfl
    · exact w.follows_readingChildren fun c _ _ => frames' c

theorem follows_chainSteps (around : Around root s p) (hk : p.node.kind.isChainLink = true)
    (frames : Scoped report root s p scopes) (mode : Mode) :
    Follows report root s.enclosing s (p.visit mode scopes).chainSteps :=
  .need fun (_, _) hs => follows_spineSteps around (spineOf hk hs) frames

/-! ## Code -/

theorem follows_identifierSteps (around : Around root s p) (hk : p.node.kind = .identifier)
    (mode : Mode) : Follows report root s.enclosing s (p.visit mode scopes).identifierSteps := by
  unfold identifierSteps
  split
  · next hread =>
    refine .need fun name hname => ?_
    split
    · exact .nil rfl
    · exact ⟨⟨p, around, rfl, Or.inr ⟨hk, hname, hread⟩⟩, rfl⟩
  · exact .nil rfl

theorem follows_readSteps (hold : root.DeclaratorsHold) (around : Around root s p)
    (frames : Scoped report root s p scopes) (mode : Mode) :
    Follows report root s.enclosing s ((p.visit mode scopes).readSteps report) := by
  have plain : ∀ k, p.node.kind = k → k ≠ .identifier → k ≠ .thisExpression →
      k.isClass = false → k.isChainLink = false →
      Follows report root s.enclosing s ((p.visit mode scopes).plainSteps report) := by
    intro k hk hi ht hc hl
    refine follows_plainSteps hold around (Node.canHold_of_kind ?_) (hk ▸ hc) frames mode
    rw [hk]
    exact ⟨hi, ht, fun h => by simp [h, Kind.isChainLink, Kind.operandField?] at hl⟩
  unfold readSteps
  split
  · next hk => exact follows_identifierSteps around hk mode
  · next hk => exact ⟨⟨p, around, rfl, Or.inl ⟨hk, rfl⟩⟩, rfl⟩
  · next hk =>
    refine .need fun fromModule _ => ?_
    split
    · exact .nil rfl
    · exact plain _ hk (by decide) (by decide) rfl rfl
  · next hi ht _ =>
    split
    · exact .nil rfl
    · split
      · next hf => exact follows_functionSteps around hf frames mode
      · split
        · next hc => exact follows_classSteps around hc frames mode
        · next hc =>
          split
          · next hl => exact follows_chainSteps around hl frames mode
          · next hl =>
            exact plain _ rfl hi ht (Bool.eq_false_iff.mpr hc) (Bool.eq_false_iff.mpr hl)

/-! ## Patterns -/

theorem follows_propertySteps (w : Within root t p) {q : Node}
    (hq : ("properties", q) ∈ p.node.children)
    (frames : Scoped report root t (p.child ("properties", q)) scopes) :
    Follows report root t.enclosing t (propertySteps q p.node scopes) := by
  unfold propertySteps
  split
  · next hk =>
    have inner : Within root (t.after (.push q)) (p.child ("properties", q)) :=
      (w.around hq).within (Node.canHold_of_kind (by simp [hk]))
    have closed : (p.child ("properties", q)).opens = false := Place.opens_of_kind hk (by decide)
    refine .within (.both (.need fun computed _ => ?_) (.need fun value hv => ?_))
    · split
      · exact .need fun key hkey => inner.follows (Node.mem_children_of_child hkey)
          ((frames.push q).child fun _ => closed)
      · exact .nil rfl
    · exact inner.follows (Node.mem_children_of_child hv) ((frames.push q).child fun _ => closed)
  · exact w.follows hq frames

theorem follows_patternSteps (w : Within root t p)
    (frames : ∀ c, Scoped report root t (p.child c) scopes) :
    Follows report root t.enclosing t (patternSteps p.node scopes) := by
  unfold patternSteps
  split
  · exact .need fun properties hp => .flatMap fun q hq =>
      follows_propertySteps w (Node.mem_children_of_items hp hq) (frames _)
  · refine .need fun elements he => .flatMap fun e hmem => w.followsAll (fun c hc => ?_)
      fun c _ => frames _
    exact Node.mem_children_of_slots he (Option.mem_toList.mp hc ▸ hmem)
  · exact .need fun a ha => w.follows (Node.mem_children_of_child ha) (frames _)
  · exact .both (.need fun l hl => w.follows (Node.mem_children_of_child hl) (frames _))
      (.need fun r hr => w.follows (Node.mem_children_of_child hr) (frames _))

theorem follows_bindSteps (hold : root.DeclaratorsHold) (around : Around root s p)
    (frames : Scoped report root s p scopes) (mode : Mode) :
    Follows report root s.enclosing s ((p.visit mode scopes).bindSteps report) := by
  unfold bindSteps
  split
  · exact .nil rfl
  · next hi =>
    split
    · next hk =>
      have hk : p.node.kind.isPattern = true := hk
      have canHold : p.node.CanHold := by
        refine Node.canHold_of_kind ⟨hi, ?_, ?_⟩ <;> intro h <;> simp [h, Kind.isPattern] at hk
      have closed : p.opens = false := by
        cases hp : p.node.kind <;> rw [hp] at hk <;>
          first | exact Place.opens_of_kind hp (by decide) | cases hk
      exact .within (follows_patternSteps (around.within canHold) fun c =>
        (frames.push p.node).child fun _ => closed)
    · exact follows_readSteps hold around frames mode

/-! ## Steps and runs -/

/-- Every step of a visit fits the point it is met at, and the stack ends as it was. -/
theorem follows_steps (hold : root.DeclaratorsHold) {v : Visit}
    (h : v.StandsAt report root s p) :
    Follows report root s.enclosing s (v.steps report) := by
  obtain ⟨around, hv, frames⟩ := h
  rw [hv] at frames ⊢
  unfold steps
  split
  · exact follows_readSteps hold around frames _
  · exact follows_bindSteps hold around frames _

/-- So does everything that happens in the run of a visit. -/
theorem follows_events (hold : root.DeclaratorsHold) (v : Visit) : ∀ {s : Point} {p : Place},
    v.StandsAt report root s p →
      Follows report root s.enclosing s ((v.events report).map .emit) := by
  intro s p h
  rw [events_eq]
  refine (follows_steps hold h).flatten fun w s' q hw hq => ?_
  have := sizeOf_lt_of_mem_steps report hw
  exact follows_events hold w hq
termination_by sizeOf v.node

end Visit

/-- The point at which the run of a tree starts and ends. -/
def Point.start : Point := ⟨[], []⟩

theorem Node.standsAt_visit (root : Node) :
    root.visit.StandsAt report root .start root.place where
  around := ⟨root.place_mem_places, rfl, by simp [Point.start]⟩
  visit := rfl
  scopes := fun _ => ⟨rfl, by simp [Node.visit]⟩

/-- Everything that happens in the run of a tree fits the point it is met at, and the stack is
empty in the end. -/
theorem Node.follows_events {root : Node} (hold : root.DeclaratorsHold) :
    Follows report root [] .start ((root.events report).map .emit) :=
  Visit.follows_events hold _ root.standsAt_visit

end FreeNames
