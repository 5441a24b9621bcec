import FreeNames.Proofs.Conversion.Built
import FreeNames.Proofs.Resolution.Keys

/-!
# Progress

In the tree of a regular parse everything that the run reads is in place, whatever nodes of an
unknown kind the tree has.  One step from a node that is built throughout gets nowhere stuck and
visits nodes of the same sort again; so nothing in a run gets stuck, and its replay can read the
access path of every free reference, unless a numeral in it is too long to write.

* `Visit.safe_steps` is the step, `Visit.safe_events` the run.
* `Report.foldlM_of_safe` is the replay.
* `Parsed.run_of_toTree` puts them together.
-/

namespace FreeNames

open Node

variable {report : Bool}

/-! ## Safe steps -/

/-- The event is none of a missing part, and the replay can read the nodes that it names. -/
def Event.IsSafe : Event → Prop
  | .stuck _ => False
  | .push n => n.BuiltThroughout true
  | .free _ n => n.HasSegment
  | .enter _ _ | .pop => True

/-- What happens is safe, or the node to visit is built throughout. -/
def Step.IsSafe : Step → Prop
  | .emit e => e.IsSafe
  | .go v => v.node.BuiltThroughout true

/-- All of the steps are safe. -/
abbrev Safe (steps : List Step) : Prop := ∀ s ∈ steps, s.IsSafe

namespace Safe

variable {xs ys : List Step} {n : Node} {scopes : List Frame}

theorem nil : Safe [] := List.forall_mem_nil _

theorem one {s : Step} (h : s.IsSafe) : Safe [s] := List.forall_mem_singleton.mpr h

theorem cons {s : Step} (h : s.IsSafe) (hx : Safe xs) : Safe (s :: xs) :=
  List.forall_mem_cons.mpr ⟨h, hx⟩

theorem append (hx : Safe xs) (hy : Safe ys) : Safe (xs ++ ys) :=
  List.forall_mem_append.mpr ⟨hx, hy⟩

theorem need {α : Type} {x : Except Fault α} {a : α} {k : α → List Step} (hx : x = .ok a)
    (h : Safe (k a)) : Safe (need x k) := by
  subst hx
  exact h

theorem map {α : Type} {as : List α} {k : α → Step} (h : ∀ a ∈ as, (k a).IsSafe) :
    Safe (as.map k) := List.forall_mem_map.mpr h

theorem flatMap {α : Type} {as : List α} {k : α → List Step} (h : ∀ a ∈ as, Safe (k a)) :
    Safe (as.flatMap k) := by
  intro s hs
  obtain ⟨a, ha, hs⟩ := List.mem_flatMap.mp hs
  exact h a ha s hs

theorem optional {o : Option Node} {k : Node → Step} (h : ∀ c ∈ o, (k c).IsSafe) :
    Safe (o.toList.map k) := map fun c hc => h c (Option.mem_toList.mp hc)

theorem within (h : n.BuiltThroughout true) (hx : Safe xs) : Safe (within n xs) :=
  .append (.cons h hx) (.one trivial)

theorem readingChildren (h : n.BuiltThroughout true) (keep : String → Bool) :
    Safe (readingChildren n keep scopes) :=
  map fun _ hc => h.of_mem_children (List.mem_filter.mp hc).1

/-- The scope of a node that is built throughout can be read in full. -/
theorem entering (h : n.BuiltThroughout true) : Safe (entering report n scopes) := by
  rw [FreeNames.entering, show (n.declared report).faults = [] from
    h.faults_eq_nil (place_mem_places n) report]
  exact one trivial

end Safe

/-! ## Steps of a visit -/

namespace Node.BuiltThroughout

variable {n : Node}

/-- A node of a kind that names no module has its layout. -/
theorem laid (h : n.BuiltThroughout true) (plain : n.kind.namesModule = false) :
    n.hasLayout = true := hasLayout_of_isBuilt h.here plain

/-- The operand of a link is there. -/
theorem exists_operand (h : n.BuiltThroughout true) {field : String}
    (hf : n.kind.operandField? = some field) : ∃ operand, n.child field = .ok operand := by
  have link : n.kind.isChainLink = true := by rw [Kind.isChainLink, hf]; rfl
  have plain : n.kind.namesModule = false := by
    cases hn : n.kind <;> first | rfl | (rw [hn] at hf; cases hf)
  obtain ⟨field', operand, -, hf', hchild, -⟩ := laid_link (h.laid plain) link
  obtain rfl := Option.some.inj (hf'.symm.trans hf)
  exact ⟨operand, hchild⟩

end Node.BuiltThroughout

namespace Visit

variable {v : Visit} {n : Node} {scopes : List Frame}

/-- The links of a chain are found, down to its operand. -/
theorem exists_spine (h : n.BuiltThroughout true) : ∃ links operand,
    spine n = .ok (links, operand) ∧ (∀ link ∈ links, link.BuiltThroughout true) ∧
      operand.BuiltThroughout true := by
  fun_induction spine n with
  | case1 n hk => exact ⟨[], n, rfl, List.forall_mem_nil _, h⟩
  | case2 n field hk f missing =>
    obtain ⟨operand, hchild⟩ := h.exists_operand hk
    cases missing.symm.trans hchild
  | case3 n field hk operand hchild _ ih =>
    obtain ⟨links, innermost, hspine, hlinks, hinner⟩ := ih (h.of_child hchild)
    exact ⟨n :: links, innermost, by rw [hspine]; rfl, List.forall_mem_cons.mpr ⟨h, hlinks⟩, hinner⟩

theorem safe_unwind {links : List Node} (h : ∀ link ∈ links, link.BuiltThroughout true) :
    Safe (unwind scopes links) := by
  induction links with
  | nil => exact .nil
  | cons link links ih =>
    obtain ⟨hlink, hlinks⟩ := List.forall_mem_cons.mp h
    exact .append (.readingChildren hlink _) (.cons trivial (ih hlinks))

theorem safe_chainSteps (h : v.node.BuiltThroughout true) : Safe v.chainSteps := by
  obtain ⟨links, operand, hspine, hlinks, hoperand⟩ := exists_spine h
  refine .need hspine (.append (.map hlinks) (.cons hoperand (safe_unwind fun link hl => ?_)))
  exact hlinks link (List.mem_reverse.mp hl)

theorem safe_bodySteps {body : Node} (h : body.BuiltThroughout true) :
    Safe (bodySteps n body scopes) := by
  unfold bodySteps
  split
  · next hk =>
    obtain ⟨statements, hs, -⟩ := laid_block (h.laid (hk ▸ rfl)) (Or.inl hk)
    exact .within h (.need hs (.map fun s mem => h.of_items hs mem))
  · exact .one h

theorem safe_functionSteps (h : v.node.BuiltThroughout true)
    (hk : v.node.kind.isFunction = true) : Safe (v.functionSteps report) := by
  obtain ⟨-, params, body, -, -, hparams, hbody, -⟩ :=
    laid_function (h.laid (Kind.namesModule_of_isFunction hk)) hk
  refine .append (.entering h) (.within h (.append (.need hparams (.map fun p mem => ?_))
    (.need hbody (safe_bodySteps (h.of_child hbody)))))
  exact h.of_items hparams mem

theorem safe_classSteps (h : v.node.BuiltThroughout true)
    (hk : v.node.kind.isClass = true) : Safe (v.classSteps report) := by
  obtain ⟨decorators, -, heritage, body, hd, -, -, hh, hbody, -⟩ :=
    laid_class (h.laid (Kind.namesModule_of_isClass hk)) hk
  refine .within h (.append (.append (.append (.need hd (.map fun d mem => ?_))
    (.need hh (.optional fun c hc => ?_))) (.entering h)) (.need hbody (.one ?_)))
  · exact h.of_items hd mem
  · exact h.of_child? (Option.mem_def.mp hc ▸ hh)
  · exact h.of_child hbody

theorem safe_declaratorSteps (h : n.BuiltThroughout true) (hk : n.kind = .variableDeclarator) :
    Safe (declaratorSteps n scopes) := by
  obtain ⟨pattern, init, hid, hinit, -⟩ := laid_declarator (h.laid (hk ▸ rfl)) hk
  refine .within h (.append (.need hid (.one (h.of_child hid))) (.need hinit (.optional ?_)))
  exact fun c hc => h.of_child? (Option.mem_def.mp hc ▸ hinit)

theorem safe_insideSteps (h : n.BuiltThroughout true) : Safe (insideSteps n scopes) := by
  unfold insideSteps
  split
  · next hk =>
    obtain ⟨-, ds, -, hds, kinds, -⟩ := laid_variableDeclaration (h.laid (hk ▸ rfl)) hk
    exact .need hds (.flatMap fun d mem => safe_declaratorSteps (h.of_items hds mem) (kinds d mem))
  · next hk =>
    obtain ⟨param, body, hparam, hbody, -⟩ := laid_catch (h.laid (hk ▸ rfl)) hk
    refine .append (.need hparam (.optional fun c hc => ?_)) (.need hbody (.one ?_))
    · exact h.of_child? (Option.mem_def.mp hc ▸ hparam)
    · exact h.of_child hbody
  · exact .readingChildren h _
  · exact .readingChildren h _

theorem safe_outsideSteps (h : n.BuiltThroughout true) : Safe (outsideSteps n scopes) := by
  unfold outsideSteps
  split
  · next hk =>
    obtain ⟨d, -, hd, -⟩ := laid_switch (h.laid (hk ▸ rfl)) hk
    exact .need hd (.one (h.of_child hd))
  · exact .nil

theorem safe_plainSteps (h : v.node.BuiltThroughout true) : Safe (v.plainSteps report) := by
  refine .within h (.append (safe_outsideSteps h) ?_)
  split
  · exact .append (.entering h) (safe_insideSteps h)
  · exact safe_insideSteps h

theorem safe_identifierSteps (h : v.node.BuiltThroughout true) (hk : v.node.kind = .identifier) :
    Safe v.identifierSteps := by
  unfold identifierSteps
  split
  · obtain ⟨name, hname⟩ := laid_name (h.laid (hk ▸ rfl)) (Or.inl hk)
    refine .need hname ?_
    split
    · exact .nil
    · have segment : v.node.segment = .ok (some name) := by
        unfold Node.segment
        rw [hk, hname]
        rfl
      exact .one ⟨name, segment⟩
  · exact .nil

theorem safe_readSteps (h : v.node.BuiltThroughout true) : Safe (v.readSteps report) := by
  unfold readSteps
  split
  · next hk => exact safe_identifierSteps h hk
  · next hk => exact .one ⟨"this", by unfold Node.segment; rw [hk]⟩
  · next hk =>
    obtain ⟨fromModule, -, hs, -⟩ := built_exportNamed h.here hk
    refine .need hs ?_
    split
    · exact .nil
    · exact safe_plainSteps h
  · split
    · exact .nil
    split
    · next hk => exact safe_functionSteps h hk
    split
    · next hk => exact safe_classSteps h hk
    split
    · exact safe_chainSteps h
    · exact safe_plainSteps h

theorem safe_propertySteps {p pattern : Node} (h : p.BuiltThroughout true) :
    Safe (propertySteps p pattern scopes) := by
  unfold propertySteps
  split
  · next hk =>
    obtain ⟨key, value, hcomputed, hkey, hvalue, -⟩ := laid_property (h.laid (hk ▸ rfl)) hk
    refine .within h (.append (.need hcomputed ?_) (.need hvalue (.one (h.of_child hvalue))))
    split
    · exact .need hkey (.one (h.of_child hkey))
    · exact .nil
  · exact .one h

theorem safe_patternSteps (h : n.BuiltThroughout true) (hk : n.kind.isPattern = true)
    (notName : n.kind ≠ .identifier) : Safe (patternSteps n scopes) := by
  unfold patternSteps
  split
  · next hk =>
    obtain ⟨ps, hps, -⟩ := laid_objectPattern (h.laid (hk ▸ rfl)) hk
    exact .need hps (.flatMap fun p mem => safe_propertySteps (h.of_items hps mem))
  · next hk =>
    obtain ⟨es, hes, -⟩ := laid_arrayPattern (h.laid (hk ▸ rfl)) hk
    refine .need hes (.flatMap fun e mem => .optional fun c hc => ?_)
    exact h.of_slots hes (Option.mem_def.mp hc ▸ mem)
  · next hk =>
    obtain ⟨a, ha, -⟩ := laid_restElement (h.laid (hk ▸ rfl)) hk
    exact .need ha (.one (h.of_child ha))
  · next notObject notArray notRest =>
    have assignment : n.kind = .assignmentPattern := by
      cases hn : n.kind <;> rw [hn] at hk <;> first | rfl | contradiction
    obtain ⟨l, r, hl, hr, -⟩ := laid_assignmentPattern (h.laid (assignment ▸ rfl)) assignment
    exact .append (.need hl (.one (h.of_child hl))) (.need hr (.one (h.of_child hr)))

theorem safe_bindSteps (h : v.node.BuiltThroughout true) : Safe (v.bindSteps report) := by
  unfold bindSteps
  split
  · exact .nil
  split
  · exact .within h (safe_patternSteps h ‹_› ‹_›)
  · exact safe_readSteps h

/-- One step from a node that is built throughout is safe. -/
theorem safe_steps (h : v.node.BuiltThroughout true) : Safe (v.steps report) := by
  unfold steps
  split
  · exact safe_readSteps h
  · exact safe_bindSteps h

/-- So is everything that happens in a visit. -/
theorem safe_events (h : v.node.BuiltThroughout true) : ∀ e ∈ v.events report, e.IsSafe := by
  induction hsize : sizeOf v.node using Nat.strongRecOn generalizing v with
  | ind size ih =>
    rw [events_eq]
    intro e he
    obtain ⟨s, hs, he⟩ := List.mem_flatMap.mp he
    have safe : Safe (v.steps report) := safe_steps h
    replace safe := safe s hs
    cases s with
    | emit e' =>
      obtain rfl := List.mem_singleton.mp he
      exact safe
    | go w => exact ih _ (hsize ▸ sizeOf_lt_of_mem_steps report hs) safe rfl e he

end Visit

/-! ## Replays -/

namespace Report

/-- Around the point that a replay has reached are nodes that are built throughout. -/
def EnclosingBuilt (r : Report) : Prop := ∀ n ∈ r.enclosing, n.BuiltThroughout true

/-- A safe event is added, unless a key is too long, and the nodes around stay built throughout. -/
theorem add_of_safe {r : Report} {e : Event} (h : r.EnclosingBuilt) (safe : e.IsSafe) :
    (∃ r', r.add e = .ok r' ∧ r'.EnclosingBuilt) ∨ r.add e = .error .keyTooLong := by
  cases e with
  | enter m outer => exact Or.inl ⟨_, rfl, h⟩
  | push m => exact Or.inl ⟨_, rfl, List.forall_mem_cons.mpr ⟨safe, h⟩⟩
  | pop => exact Or.inl ⟨_, rfl, fun n hn => h n (List.mem_of_mem_tail hn)⟩
  | free name n =>
    have read := Occurrence.read_writtenIff safe fun m hm =>
      (h m hm).segment_writtenIff (place_mem_places m)
    rcases read with ⟨-, o, ho⟩ | ⟨-, long⟩
    · refine Or.inl ⟨{ r with references := recordOccurrence name o r.references }, ?_, h⟩
      rw [add, ho]
      rfl
    · exact Or.inr (by rw [add, long]; rfl)
  | stuck f => exact safe.elim

/-- A replay of safe events gives a report, unless a key is too long. -/
theorem foldlM_of_safe {r : Report} {events : List Event} (h : r.EnclosingBuilt)
    (safe : ∀ e ∈ events, e.IsSafe) :
    (∃ r', events.foldlM add r = .ok r') ∨ events.foldlM add r = .error .keyTooLong := by
  induction events generalizing r with
  | nil => exact Or.inl ⟨r, rfl⟩
  | cons e events ih =>
    obtain ⟨he, rest⟩ := List.forall_mem_cons.mp safe
    rw [List.foldlM_cons]
    rcases add_of_safe h he with ⟨r', hr, h'⟩ | long
    · rw [hr]
      exact ih h' rest
    · rw [long]
      exact Or.inr rfl

end Report

/-! ## Trees of regular parses -/

/-- The parse of `f(?x)`, where the grammar has a node of its own for `?x`. -/
def Parsed.callOfUnknown : Parsed :=
  .mk .program true false false ⟨0, 5, 1, 0⟩ none
    [.mk .expressionStatement true false false ⟨0, 5, 1, 0⟩ none
      [.mk .callExpression true false false ⟨0, 5, 1, 0⟩ none
        [.mk .identifier true false false ⟨0, 1, 1, 0⟩ (some "function") [],
          .mk (.other "arguments") true false false ⟨1, 5, 1, 1⟩ (some "arguments")
            [.mk (.other "query") true false false ⟨2, 4, 1, 2⟩ none
              [.mk .identifier true false false ⟨3, 4, 1, 3⟩ none []]]]]]

theorem Parsed.isRegular_callOfUnknown : callOfUnknown.IsRegular := by
  have all : (callOfUnknown.preorder.all fun p => decide p.IsRegularHere) = true := by cbv
  exact fun p hp => of_decide_eq_true (List.all_eq_true.mp all p hp)

theorem Parsed.isSome_callOfUnknown :
    (callOfUnknown.toTree (.ofString "f(?x)")).toOption.isSome = true := by decide_cbv

end FreeNames
