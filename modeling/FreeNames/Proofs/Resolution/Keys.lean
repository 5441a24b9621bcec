import FreeNames.Proofs.Resolution.AccessPath
import FreeNames.Proofs.Resolution.Replay

/-!
# Keys that can be written

The run of a laid out tree ends in a fault for one reason only: the access path of a free
reference reads a big integer as a key, and the integer has too many digits to be written.

* `Node.HasLongKey` names such an access; `WritablePath` says that a path does not read one.
* `Node.Laid.ofTree_writtenIff` decides by this whether a run gives a report.
-/

namespace FreeNames

/-- A literal of a big integer with too many digits to be written. -/
def Node.IsLongInteger (n : Node) : Prop :=
  n.kind = .literal ∧ ∃ z raw, n.field? "value" = some (.int z) ∧ n.text "raw" = .ok raw ∧
    raw.endsWith 0x6E = true ∧ Nat.pow 10 Decimal.longestNumeral ≤ z.natAbs

/-- A member access whose key is computed from such a literal. -/
def Node.HasLongKey (m : Node) : Prop :=
  m.kind = .memberExpression ∧ m.isComputed = true ∧
    ∃ key, m.child "property" = .ok key ∧ key.IsLongInteger

/-- From the innermost of these nodes outwards, as far as they extend an access path, no key is
too long. -/
def WritablePath (enclosing : List Node) : Prop :=
  ∀ before m after, enclosing = before ++ m :: after → (∀ n ∈ before, n.HasSegment) →
    ¬ m.HasLongKey

/-- The result is there if the condition holds, and otherwise a key is too long. -/
def WrittenIff {α : Type} (condition : Prop) (x : Except Fault α) : Prop :=
  (condition ∧ ∃ a, x = .ok a) ∨ (¬ condition ∧ x = .error .keyTooLong)

namespace WrittenIff

variable {α β : Type} {condition other : Prop} {x : Except Fault α}

theorem of_ok {a : α} (h : condition) (hx : x = .ok a) : WrittenIff condition x :=
  Or.inl ⟨h, a, hx⟩

theorem map (h : WrittenIff condition x) (f : α → β) : WrittenIff condition (x.map f) := by
  rcases h with ⟨h, a, rfl⟩ | ⟨h, rfl⟩
  · exact of_ok h rfl
  · exact Or.inr ⟨h, rfl⟩

theorem congr (h : WrittenIff condition x) (same : condition ↔ other) : WrittenIff other x := by
  rcases h with ⟨h, hx⟩ | ⟨h, hx⟩
  · exact Or.inl ⟨same.mp h, hx⟩
  · exact Or.inr ⟨fun ho => h (same.mpr ho), hx⟩

/-- What follows may fail as well. -/
theorem bind {k : α → Except Fault β} (h : WrittenIff condition x)
    (next : ∀ a, x = .ok a → WrittenIff other (k a)) :
    WrittenIff (condition ∧ other) (x >>= k) := by
  rcases h with ⟨h, a, rfl⟩ | ⟨h, rfl⟩
  · rcases next a rfl with ⟨ho, hk⟩ | ⟨ho, hk⟩
    · exact Or.inl ⟨⟨h, ho⟩, hk⟩
    · exact Or.inr ⟨fun both => ho both.2, hk⟩
  · exact Or.inr ⟨fun both => h both.1, rfl⟩

theorem exists_ok_iff (h : WrittenIff condition x) : (∃ a, x = .ok a) ↔ condition := by
  rcases h with ⟨h, hx⟩ | ⟨h, hx⟩
  · exact ⟨fun _ => h, fun _ => hx⟩
  · refine ⟨?_, fun hc => absurd hc h⟩
    rintro ⟨a, ha⟩
    cases hx.symm.trans ha

end WrittenIff

/-- A loop gives a result if each of its rounds does. -/
theorem foldlM_writtenIff {α β : Type} {f : β → α → Except Fault β} {condition : α → Prop}
    {xs : List α} (each : ∀ b, ∀ x ∈ xs, WrittenIff (condition x) (f b x)) (b : β) :
    WrittenIff (∀ x ∈ xs, condition x) (xs.foldlM f b) := by
  induction xs generalizing b with
  | nil => exact .of_ok (by simp) rfl
  | cons x xs ih =>
    rw [List.foldlM_cons]
    refine (WrittenIff.bind (each b x (List.mem_cons_self ..)) fun b' _ => ?_).congr
      List.forall_mem_cons.symm
    exact ih (fun c y hy => each c y (List.mem_cons_of_mem _ hy)) b'

/-! ## Segments -/

theorem Node.numberKey_writtenIff {n : Node} {raw : Text} (hraw : n.text "raw" = .ok raw) (z : Int) :
    WrittenIff (¬ (raw.endsWith 0x6E = true ∧ Nat.pow 10 Decimal.longestNumeral ≤ z.natAbs))
      (n.numberKey (.whole z)) := by
  have key : n.numberKey (.whole z) =
      (if raw.endsWith 0x6E then Decimal.numeralOfInt z else .ok (Decimal.keyOfInt z)).map some := by
    unfold numberKey
    rw [hraw]
    rfl
  rw [key]
  refine WrittenIff.map ?_ some
  unfold Decimal.numeralOfInt
  split
  · next big =>
    split
    · next short => exact .of_ok (fun both => Nat.not_le_of_lt short both.2) rfl
    · next long => exact Or.inr ⟨fun h => h ⟨big, Nat.not_lt.mp long⟩, rfl⟩
  · next small => exact .of_ok (fun both => small both.1) rfl

namespace Node.BuiltThroughout

variable {root : Node} {p : Place} {report : Bool}

theorem plainKey_writtenIff (h : root.BuiltThroughout true) (hp : p ∈ root.places) :
    WrittenIff True p.node.plainKey := by
  have named : p.node.kind = .identifier ∨ p.node.kind = .privateIdentifier →
      WrittenIff True ((p.node.text "name").map some) := by
    intro hk
    have plain : p.node.kind.namesModule = false := by rcases hk with hk | hk <;> rw [hk] <;> rfl
    obtain ⟨name, hname⟩ := laid_name (h.hasLayout hp plain) hk
    exact .of_ok trivial (by rw [hname]; rfl)
  unfold plainKey
  split
  · next hk => exact named (Or.inl hk)
  · next hk => exact named (Or.inr hk)
  · exact .of_ok trivial rfl

theorem literalKey_writtenIff (h : root.BuiltThroughout true) (hp : p ∈ root.places) :
    WrittenIff (¬ p.node.IsLongInteger) p.node.literalKey := by
  unfold literalKey
  split
  · next hk =>
    obtain ⟨v, raw, hv, hraw⟩ := laid_literal (h.hasLayout hp (hk ▸ rfl)) hk
    have notInt : (∀ z, v ≠ .int z) → ¬ p.node.IsLongInteger := by
      rintro other ⟨-, z, -, hz, -⟩
      exact other z (Option.some.inj (hv.symm.trans hz))
    have long_iff : ∀ z, v = .int z → ((raw.endsWith 0x6E = true ∧
        Nat.pow 10 Decimal.longestNumeral ≤ z.natAbs) ↔ p.node.IsLongInteger) := by
      rintro z rfl
      constructor
      · exact fun both => ⟨hk, z, raw, hv, hraw, both⟩
      · rintro ⟨-, z', raw', hz, hraw', both⟩
        cases hv.symm.trans hz
        cases hraw.symm.trans hraw'
        exact both
    rw [hv]
    cases v with
    | int z => exact (numberKey_writtenIff hraw z).congr (not_congr (long_iff z rfl))
    | float d =>
      refine .of_ok (notInt (by simp)) ?_ (a := some (if raw.endsWith 0x6E then
        Decimal.numeralOfDouble d else Decimal.keyOfDouble d))
      show numberKey _ _ = _
      unfold numberKey
      rw [hraw]
      rfl
    | _ => exact .of_ok (notInt (by simp)) rfl
  · next other => exact .of_ok (fun both => other both.1) rfl

/-- A node of the tree of a regular parse says what it adds to an access path, unless its key is too long. -/
theorem segment_writtenIff (h : root.BuiltThroughout true) (hp : p ∈ root.places) :
    WrittenIff (¬ p.node.HasLongKey) p.node.segment := by
  have noAccess : p.node.kind ≠ .memberExpression → ¬ p.node.HasLongKey := fun hk long => hk long.1
  unfold segment
  split
  · next hk =>
    obtain ⟨name, hname⟩ := laid_name (h.hasLayout hp (hk ▸ rfl)) (Or.inl hk)
    exact .of_ok (noAccess (by simp [hk])) (by rw [hname]; rfl)
  · next hk => exact .of_ok (noAccess (by simp [hk])) rfl
  · next hk =>
    obtain ⟨object, property, -, hproperty, hflag, -⟩ := laid_member (h.hasLayout hp (hk ▸ rfl)) hk
    have hq := child_mem_places hp (mem_children_of_child hproperty)
    unfold staticKey
    rw [hproperty, hflag]
    cases computed : p.node.isComputed with
    | false =>
      refine (h.plainKey_writtenIff hq).congr (iff_of_true trivial fun long => ?_)
      cases computed.symm.trans long.2.1
    | true =>
      refine (h.literalKey_writtenIff hq).congr (not_congr ⟨?_, ?_⟩)
      · exact fun long => ⟨hk, computed, property, hproperty, long⟩
      · rintro ⟨-, -, key, hkey, long⟩
        cases hproperty.symm.trans hkey
        exact long
  · next hk => exact .of_ok (noAccess hk) rfl

end Node.BuiltThroughout

/-! ## Paths -/

theorem writablePath_cons {n : Node} {nodes : List Node} : WritablePath (n :: nodes) ↔
    ¬ n.HasLongKey ∧ (n.HasSegment → WritablePath nodes) := by
  constructor
  · intro writable
    refine ⟨writable [] n nodes rfl (by simp), fun hn before m after split all => ?_⟩
    refine writable (n :: before) m after (by rw [split, List.cons_append]) fun k hk => ?_
    rcases List.mem_cons.mp hk with rfl | hk
    · exact hn
    · exact all k hk
  · rintro ⟨short, rest⟩ before m after split all
    cases before with
    | nil =>
      obtain ⟨rfl, -⟩ := List.cons.inj split
      exact short
    | cons k before =>
      obtain ⟨rfl, split'⟩ := List.cons.inj split
      exact rest (all n (List.mem_cons_self ..)) before m after split'
        fun k hk => all k (List.mem_cons_of_mem _ hk)

theorem extension_writtenIff {nodes : List Node}
    (each : ∀ n ∈ nodes, WrittenIff (¬ n.HasLongKey) n.segment) :
    WrittenIff (WritablePath nodes) (extension nodes) := by
  induction nodes with
  | nil => exact .of_ok (fun before m after split => by simp at split) rfl
  | cons n nodes ih =>
    have rest := ih fun m hm => each m (List.mem_cons_of_mem _ hm)
    rcases each n (List.mem_cons_self ..) with ⟨short, segment, hn⟩ | ⟨long, hn⟩
    · cases segment with
      | none =>
        have ends : ¬ n.HasSegment := by
          rintro ⟨t, ht⟩
          cases hn.symm.trans ht
        refine .of_ok (writablePath_cons.mpr ⟨short, fun h => absurd h ends⟩) (a := []) ?_
        rw [extension, hn]
        rfl
      | some t =>
        have longer : extension (n :: nodes) = (extension nodes).map (n :: ·) := by
          rw [extension, hn]
          cases extension nodes <;> rfl
        rw [longer]
        refine (rest.map _).congr (writablePath_cons.trans ?_).symm
        exact ⟨fun both => both.2 ⟨t, hn⟩, fun writable => ⟨short, fun _ => writable⟩⟩
    · refine Or.inr ⟨fun writable => long (writablePath_cons.mp writable).1, ?_⟩
      rw [extension, hn]
      rfl

/-- A reference that has a name is read unless a key around it is too long. -/
theorem Occurrence.read_writtenIff {n : Node} {enclosing : List Node} (named : n.HasSegment)
    (each : ∀ m ∈ enclosing, WrittenIff (¬ m.HasLongKey) m.segment) :
    WrittenIff (WritablePath enclosing) (Occurrence.read n enclosing) := by
  have qualified : ∀ path, extension enclosing = .ok path → WrittenIff True (do
      let qualified ← qualifiedName n path
      return (⟨n, path, qualified⟩ : Occurrence)) := by
    intro path hpath
    obtain ⟨rest, -, all, -⟩ := extension_eq_ok hpath
    have allCons : ∀ m ∈ n :: path, m.HasSegment := by
      intro m hm
      rcases List.mem_cons.mp hm with rfl | hm
      · exact named
      · exact all m hm
    obtain ⟨ts, hts, -⟩ := exists_segments allCons
    refine .of_ok trivial (a := ⟨n, path, Text.join "." ts⟩) ?_
    rw [qualifiedName, hts]
    rfl
  exact ((extension_writtenIff each).bind qualified).congr (and_iff_left trivial)

/-! ## Free references -/

/-- A node is read under a name that no scope in force binds. -/
structure Place.IsFree (report : Bool) (p : Place) (name : Text) : Prop where
  active : p.isActive = true
  reads : (p.node.kind = .thisExpression ∧ name = Visit.thisName) ∨
    (p.node.kind = .identifier ∧ p.node.text "name" = .ok name ∧ p.reads = true ∧
      isBound (p.frames report) name = false)

theorem Place.IsFree.hasSegment {report : Bool} {p : Place} {name : Text}
    (h : p.IsFree report name) : p.node.HasSegment := by
  rcases h.reads with ⟨hk, -⟩ | ⟨hk, hname, -⟩
  · exact ⟨"this", by rw [Node.segment, hk]⟩
  · exact ⟨name, by rw [Node.segment, hk]; simp [hname, Except.map]⟩

/-- What stands at a place itself is a free reference. -/
theorem Place.mem_own {report : Bool} {p : Place} (active : p.isActive = true) {e : Event} :
    e ∈ p.own report ↔ ∃ name, e = .free name p.node ∧ p.IsFree report name := by
  constructor
  · intro he
    unfold own at he
    split at he
    · next hk => exact ⟨_, List.mem_singleton.mp he, active, Or.inl ⟨hk, rfl⟩⟩
    · next hk =>
      split at he
      · next name hname =>
        split at he
        · next free =>
          rw [Bool.and_eq_true, Bool.not_eq_true'] at free
          exact ⟨name, List.mem_singleton.mp he, active, Or.inr ⟨hk, hname, free⟩⟩
        · cases he
      · cases he
    · cases he
  · rintro ⟨name, rfl, -, ⟨hk, rfl⟩ | ⟨hk, hname, reads, free⟩⟩
    · simp [own, hk]
    · simp [own, hk, hname, reads, free]

/-- The free references at a place are the names under which it is one. -/
theorem Place.mem_frees {report : Bool} {p q : Place} {name : Text} :
    (name, q) ∈ p.frees report ↔ q = p ∧ p.IsFree report name := by
  unfold frees
  split
  · next active =>
    simp only [List.mem_filterMap, mem_own active, Option.map_eq_some_iff, Prod.mk.injEq]
    constructor
    · rintro ⟨e, ⟨name, rfl, free⟩, _, same, rfl, rfl⟩
      cases same
      exact ⟨rfl, free⟩
    · rintro ⟨rfl, free⟩
      exact ⟨_, ⟨name, rfl, free⟩, name, rfl, rfl, rfl⟩
  · next inactive => exact iff_of_false (by simp) fun both => inactive both.2.active

/-- No free reference has a key too long to write in its access path. -/
def Node.KeysWritable (report : Bool) (root : Node) : Prop :=
  ∀ p ∈ root.places, ∀ name, p.IsFree report name → WritablePath p.enclosing

/-- The run of a laid out tree gives a report exactly if all keys can be written; otherwise a key
is too long. -/
theorem Node.Laid.ofTree_writtenIff {root : Node} {report : Bool} (h : root.Laid) :
    WrittenIff (root.KeysWritable report) (Report.ofTree report root) := by
  rw [h.ofTree_eq]
  refine WrittenIff.map ?_ _
  have condition : (∀ x ∈ root.places.flatMap (Place.frees report), WritablePath x.2.enclosing) ↔
      root.KeysWritable report := by
    constructor
    · intro all p hp name free
      exact all (name, p) (List.mem_flatMap.mpr ⟨p, hp, Place.mem_frees.mpr ⟨rfl, free⟩⟩)
    · rintro writable ⟨name, q⟩ hx
      obtain ⟨p, hp, hx⟩ := List.mem_flatMap.mp hx
      obtain ⟨rfl, free⟩ := Place.mem_frees.mp hx
      exact writable q hp name free
  refine (foldlM_writtenIff (fun refs x hx => ?_) []).congr condition
  obtain ⟨name, q⟩ := x
  obtain ⟨p, hp, hx⟩ := List.mem_flatMap.mp hx
  obtain ⟨rfl, free⟩ := Place.mem_frees.mp hx
  refine WrittenIff.map (Occurrence.read_writtenIff free.hasSegment fun m hm => ?_) _
  obtain ⟨⟨field, m⟩, mem, rfl⟩ := List.mem_map.mp hm
  obtain ⟨r, hr, rfl, -⟩ := exists_of_mem_above hp mem
  exact h.builtThroughout.segment_writtenIff hr

end FreeNames
