import FreeNames.Proofs.Resolution.AccessPath
import FreeNames.Proofs.Resolution.Beside
import FreeNames.Proofs.Resolution.Replay

/-!
# Comparing reports

If two runs go side by side, so do their reports: at every point the second is to the first as the
comparison says.

* Access paths correspond: the nodes do, and the texts differ only where they are names of
  identifiers (`Likeness.read`).
* `RunLikeness.Keeps` says that a relation between what two runs have recorded is kept by every
  event; `Beside.replay` is the induction over the events.
-/

namespace FreeNames

/-! ## Access paths -/

namespace Node

/-- Is the text that a node adds to an access path the name of an identifier? -/
def addsIdentifier (n : Node) : Bool :=
  n.kind = .identifier || (n.kind = .memberExpression && !n.isComputed &&
    match n.child "property" with
    | .ok property => property.kind = .identifier
    | .error _ => false)

/-- What nodes add to an access path up to the first that adds nothing, with the names of
identifiers renamed. -/
def renamedSegments (rename : Text → Text) : List Node → List Text
  | [] => []
  | n :: rest =>
    match n.segment with
    | .ok (some t) => (if n.addsIdentifier then rename t else t) :: renamedSegments rename rest
    | _ => []

theorem renamedSegments_eq {rename : Text → Text} (same : ∀ t, rename t = t) {ns : List Node}
    {ts : List Text} (h : segments ns = .ok ts) : renamedSegments rename ns = ts := by
  induction ns generalizing ts with
  | nil => exact Except.ok.inj h
  | cons n ns ih =>
    unfold segments at h
    unfold renamedSegments
    cases hn : n.segment with
    | error f => rw [hn] at h; cases h
    | ok segment =>
      rw [hn] at h
      cases segment with
      | none => exact Except.ok.inj h
      | some t =>
        cases hs : segments ns with
        | error f => simp [hs, bind, Except.bind] at h
        | ok rest =>
          simp only [hs, bind, Except.bind, pure, Except.pure, Except.ok.injEq] at h
          simp [← h, ih hs, same]

theorem isComputed_of_flag {n : Node} {b : Bool} (h : n.flag "computed" = .ok b) :
    n.isComputed = b := by
  unfold flag at h
  unfold isComputed
  cases hf : n.field? "computed" with
  | none => rw [hf] at h; cases h
  | some v => rw [hf] at h; exact Except.ok.inj h

end Node

namespace Likeness

variable {L : Likeness} {n n' : Node}

theorem literalKey (h : L.Like n n') : n'.literalKey = n.literalKey := by
  have raw : n'.text "raw" = n.text "raw" := L.text_eq h (isOwnName_eq_false (by decide))
  unfold Node.literalKey Node.numberKey
  rw [L.kind_eq h, L.lacking h, raw]
  split
  · have values := L.field? h "value"
    generalize n.field? "value" = x, n'.field? "value" = x' at values ⊢
    cases values with
    | none => rfl
    | some hv =>
      cases hv with
      | text t => rw [isOwnName_eq_false (by decide)]; rfl
      | _ => rfl
  · rfl

/-- A plain key is renamed exactly if it is an identifier. -/
theorem plainKey (h : L.Like n n') : n'.plainKey =
    n.plainKey.map (Option.map fun t => if n.kind = .identifier then L.rename t else t) := by
  unfold Node.plainKey
  rw [L.kind_eq h, L.text h]
  cases hk : n.kind <;> try rfl
  all_goals cases n.text "name" <;> rfl

theorem segment (h : L.Like n n') : n'.segment =
    n.segment.map (Option.map fun t => if n.addsIdentifier then L.rename t else t) := by
  unfold Node.segment
  rw [L.kind_eq h]
  split
  · next hk =>
    rw [L.text_name h hk]
    simp only [Node.addsIdentifier, hk, decide_true, Bool.true_or, if_true]
    cases n.text "name" <;> rfl
  · next hk => simp [Node.addsIdentifier, hk, Except.map]
  · next hk =>
    have property := L.child h "property"
    have flag : n'.flag "computed" = n.flag "computed" :=
      L.flag h rfl (isOwnName_eq_false (by decide))
    unfold Node.staticKey
    rw [flag]
    unfold Node.addsIdentifier
    generalize n.child "property" = x, n'.child "property" = x' at property ⊢
    cases property with
    | error f => rfl
    | @ok q q' hq =>
      cases hf : n.flag "computed" with
      | error f => rfl
      | ok computed =>
        rw [Node.isComputed_of_flag hf]
        cases computed with
        | true =>
          simp only [bind, Except.bind, if_true, L.literalKey hq, hk]
          cases q.literalKey with
          | error f => rfl
          | ok key => cases key <;> rfl
        | false =>
          simp [bind, Except.bind, L.plainKey hq, hk]
  · next hi _ hm => rfl

theorem extension {ns ns' : List Node} (h : List.Forall₂ L.Like ns ns') :
    Agree (List.Forall₂ L.Like) (extension ns) (extension ns') := by
  induction h with
  | nil => exact .ok .nil
  | @cons n n' ns ns' hn hns ih =>
    unfold FreeNames.extension
    rw [L.segment hn]
    cases n.segment with
    | error f => exact .error f
    | ok segment =>
      cases segment with
      | none => exact .ok .nil
      | some t => exact ih.bind fun path path' hpath => .ok (.cons hn hpath)

theorem segments {ns ns' : List Node} (h : List.Forall₂ L.Like ns ns') :
    Agree (fun _ ts' => ts' = Node.renamedSegments L.rename ns) (segments ns) (segments ns') := by
  induction h with
  | nil => exact .ok rfl
  | @cons n n' ns ns' hn hns ih =>
    unfold FreeNames.segments Node.renamedSegments
    rw [L.segment hn]
    cases n.segment with
    | error f => exact .error f
    | ok segment =>
      cases segment with
      | none => exact .ok rfl
      | some t =>
        refine ih.bind fun ts ts' hts => .ok ?_
        rw [hts]

/-- Occurrences at corresponding nodes, with corresponding paths. -/
structure OccurrenceLike (L : Likeness) (o o' : Occurrence) : Prop where
  node : L.Like o.node o'.node
  path : List.Forall₂ L.Like o.path o'.path
  qualified : ∃ ts, FreeNames.segments (o.node :: o.path) = .ok ts ∧
    o.qualified = Text.join "." ts ∧
      o'.qualified = Text.join "." (Node.renamedSegments L.rename (o.node :: o.path))

/-- Where no name is changed, the texts of paths are not either. -/
theorem OccurrenceLike.qualified_eq {o o' : Occurrence} (h : L.OccurrenceLike o o')
    (same : ∀ t, L.rename t = t) : o'.qualified = o.qualified := by
  obtain ⟨ts, hts, hq, hq'⟩ := h.qualified
  rw [hq, hq', Node.renamedSegments_eq same hts]

/-- If what is in a path stays as it is, so does an occurrence. -/
theorem OccurrenceLike.eq {o o' : Occurrence} (h : L.OccurrenceLike o o')
    (same : ∀ t, L.rename t = t) (fixed : ∀ {m m'}, L.Like m m' → m.HasSegment → m' = m)
    (named : ∀ m ∈ o.node :: o.path, m.HasSegment) : o' = o := by
  have path : o'.path = o.path := by
    have below : ∀ m ∈ o.path, m.HasSegment := fun m hm => named m (List.mem_cons_of_mem _ hm)
    have like := h.path
    generalize o.path = ns, o'.path = ns' at below like ⊢
    induction like with
    | nil => rfl
    | cons hn _ ih =>
      rw [fixed hn (below _ (List.mem_cons_self ..)),
        ih fun m hm => below m (List.mem_cons_of_mem _ hm)]
  obtain ⟨node', path', qualified'⟩ := o'
  obtain ⟨node, paths, qualified⟩ := o
  rw [Occurrence.mk.injEq]
  exact ⟨fixed h.node (named _ (List.mem_cons_self ..)), path, h.qualified_eq same⟩

/-- A reference is read with corresponding paths inside corresponding nodes. -/
theorem read {ns ns' : List Node} (hn : L.Like n n') (h : List.Forall₂ L.Like ns ns') :
    Agree L.OccurrenceLike (Occurrence.read n ns) (Occurrence.read n' ns') := by
  refine (L.extension h).bind fun path path' hpath => ?_
  have segments := L.segments (List.Forall₂.cons hn hpath)
  unfold qualifiedName
  cases hs : FreeNames.segments (n :: path) with
  | error f =>
    rw [hs] at segments
    generalize FreeNames.segments (n' :: path') = x at segments
    cases segments
    exact .error f
  | ok ts =>
    rw [hs] at segments
    generalize FreeNames.segments (n' :: path') = x at segments
    cases segments with
    | ok hts => exact .ok ⟨hn, hpath, ts, hs, rfl, by rw [hts]⟩

end Likeness

theorem Occurrence.hasSegment_of_read {n : Node} {enclosing : List Node} {o : Occurrence}
    (read : Occurrence.read n enclosing = .ok o) (named : n.HasSegment) :
    ∀ m ∈ o.node :: o.path, m.HasSegment := by
  obtain ⟨rfl, path, -⟩ := Occurrence.node_of_read read
  obtain ⟨_, -, all, -⟩ := extension_eq_ok path
  exact List.forall_mem_cons.mpr ⟨named, all⟩

/-! ## Groups of other names -/

section

variable {x name : Text} {o : Occurrence} {refs : List Reference}

/-- Groups of other names are recorded as if the group of a name was not there. -/
theorem filter_recordOccurrence_of_ne (other : name ≠ x) :
    (recordOccurrence name o refs).filter (fun g => g.name ≠ x) =
      recordOccurrence name o (refs.filter fun g => g.name ≠ x) := by
  induction refs with
  | nil => simp [recordOccurrence, other]
  | cons g refs ih =>
    by_cases same : g.name = name
    · simp [recordOccurrence, same, other]
    · by_cases dropped : g.name = x
      · simpa [recordOccurrence, same, dropped, Ne.symm other] using ih
      · simpa [recordOccurrence, same, dropped] using ih

/-- What is recorded with a name changes its group only. -/
theorem filter_recordOccurrence_self :
    (recordOccurrence x o refs).filter (fun g => g.name ≠ x) = refs.filter fun g => g.name ≠ x := by
  induction refs with
  | nil => simp [recordOccurrence]
  | cons g refs ih =>
    by_cases same : g.name = x
    · simp [recordOccurrence, same]
    · simpa [recordOccurrence, same] using ih

end

/-! ## Replays -/

/-- A relation between what two runs have recorded that every event keeps.  It may depend on the
free references that the first has met; `At` is what is known of their places. -/
structure RunLikeness.Keeps (L : RunLikeness) (At : Freed → Prop)
    (Inv : List Freed → List Reference → Builder → List Reference → Builder → Prop) : Prop where
  free : ∀ {seen refs b refs' b' stack name n o o'}, Inv seen refs b refs' b' →
    At ⟨name, n, stack⟩ → ¬ L.Bound stack name → n.segment = .ok (some name) →
    Occurrence.read n stack = .ok o → L.OccurrenceLike o o' →
    Inv (seen ++ [⟨name, n, stack⟩]) (recordOccurrence name o refs) b
      (recordOccurrence (L.rename name) o' refs') b'
  bound : ∀ {seen refs b refs' b' stack name n o}, Inv seen refs b refs' b' →
    At ⟨name, n, stack⟩ → L.Bound stack name → Occurrence.read n stack = .ok o →
    Inv (seen ++ [⟨name, n, stack⟩]) (recordOccurrence name o refs) b refs' b'
  enter : ∀ {seen refs b refs' b' n n' o o'}, Inv seen refs b refs' b' → L.Like n n' →
    Option.Rel L.Like o o' → Inv seen refs (b.enterIn (n, o)) refs' (b'.enterIn (n', o'))

/-- Reports that are related, at a point of two runs. -/
structure RunLikeness.ReportLike (L : RunLikeness)
    (Inv : List Freed → List Reference → Builder → List Reference → Builder → Prop)
    (stack : List Node) (seen : List Freed) (r r' : Report) : Prop where
  enclosing : r.enclosing = stack
  like : List.Forall₂ L.Like r.enclosing r'.enclosing
  inv : Inv seen r.references r.scopes r'.references r'.scopes

namespace RunLikeness.ReportLike

variable {L : RunLikeness} {At : Freed → Prop}
  {Inv : List Freed → List Reference → Builder → List Reference → Builder → Prop}
  {stack : List Node} {seen : List Freed} {r r' : Report} {n n' : Node} {outer outer' : Option Node}
  {name : Text} {o : Occurrence}

theorem push (like : L.ReportLike Inv stack seen r r') (hn : L.Like n n') :
    L.ReportLike Inv (n :: stack) seen { r with enclosing := n :: r.enclosing }
      { r' with enclosing := n' :: r'.enclosing } :=
  ⟨congrArg (n :: ·) like.enclosing, .cons hn like.like, like.inv⟩

theorem pop (like : L.ReportLike Inv stack seen r r') :
    L.ReportLike Inv stack.tail seen { r with enclosing := r.enclosing.tail }
      { r' with enclosing := r'.enclosing.tail } := by
  have tails : List.Forall₂ L.Like r.enclosing.tail r'.enclosing.tail := by
    simpa using List.forall₂_drop 1 like.like
  exact ⟨congrArg List.tail like.enclosing, tails, like.inv⟩

theorem enter (K : L.Keeps At Inv) (like : L.ReportLike Inv stack seen r r') (hn : L.Like n n')
    (ho : Option.Rel L.Like outer outer') :
    L.ReportLike Inv stack seen { r with scopes := r.scopes.enterIn (n, outer) }
      { r' with scopes := r'.scopes.enterIn (n', outer') } :=
  ⟨like.enclosing, like.like, K.enter like.inv hn ho⟩

/-- A reference that is free in both runs is recorded in both, or it is the same fault. -/
theorem free (K : L.Keeps At Inv) (like : L.ReportLike Inv stack seen r r')
    (located : At ⟨name, n, stack⟩) (hb : ¬ L.Bound stack name)
    (named : n.segment = .ok (some name)) (hn : L.Like n n') :
    Agree (L.ReportLike Inv stack (seen ++ [⟨name, n, stack⟩])) (r.add (.free name n))
      (r'.add (.free (L.rename name) n')) := by
  have reads := L.read hn like.like
  rw [Report.add, Report.add]
  cases ho : Occurrence.read n r.enclosing with
  | error f =>
    rw [ho] at reads
    generalize Occurrence.read n' r'.enclosing = x at reads ⊢
    cases reads
    exact .error f
  | ok o =>
    rw [ho] at reads
    generalize Occurrence.read n' r'.enclosing = x at reads ⊢
    cases reads with
    | ok like_o =>
      have recorded := K.free like.inv located hb named (like.enclosing ▸ ho) like_o
      exact .ok ⟨like.enclosing, like.like, recorded⟩

/-- One that the second run has bound is recorded in the first. -/
theorem bound (K : L.Keeps At Inv) (like : L.ReportLike Inv stack seen r r')
    (located : At ⟨name, n, stack⟩) (hb : L.Bound stack name)
    (ho : Occurrence.read n r.enclosing = .ok o) :
    L.ReportLike Inv stack (seen ++ [⟨name, n, stack⟩])
      { r with references := recordOccurrence name o r.references } r' :=
  ⟨like.enclosing, like.like, K.bound like.inv located hb (like.enclosing ▸ ho)⟩

end RunLikeness.ReportLike

/-- Reading a free reference that is bound in the second run ends the first in this fault. -/
def RunLikeness.FailsBound (L : RunLikeness) (f : Fault) : Prop :=
  ∃ stack name n, L.Bound stack name ∧ Occurrence.read n stack = .error f

/-- Events whose steps begin with that of an event begin with the event. -/
theorem exists_of_map_emit {e : Event} {es : List Event} {xs : List Step}
    (h : es.map Step.emit = .emit e :: xs) : ∃ rest, es = e :: rest ∧ rest.map Step.emit = xs := by
  obtain ⟨_, rest, rfl, same, hrest⟩ := List.map_eq_cons_iff.mp h
  cases same
  exact ⟨rest, rfl, hrest⟩

/-- The second report follows the first through all events, unless the first run stops at a reference
that the second has bound. -/
theorem Beside.replay {L : RunLikeness} {At : Freed → Prop}
    {Inv : List Freed → List Reference → Builder → List Reference → Builder → Prop}
    (K : L.Keeps At Inv) {stack last : List Node} {seen : List Freed} {es es' : List Event}
    {r r' : Report} (h : Beside L stack last (es.map .emit) (es'.map .emit))
    (located : ∀ x ∈ freed stack es, At x) (like : L.ReportLike Inv stack seen r r') :
    Agree (L.ReportLike Inv last (seen ++ freed stack es)) (es.foldlM Report.add r)
      (es'.foldlM Report.add r') ∨ ∃ f, es.foldlM Report.add r = .error f ∧ L.FailsBound f := by
  generalize hxs : es.map Step.emit = xs, hxs' : es'.map Step.emit = xs' at h
  induction h generalizing seen es es' r r' with
  | nil =>
    obtain rfl := List.map_eq_nil_iff.mp hxs
    obtain rfl := List.map_eq_nil_iff.mp hxs'
    rw [freed, List.append_nil]
    exact Or.inl (.ok like)
  | go =>
    obtain ⟨e, _, -, he, -⟩ := List.map_eq_cons_iff.mp hxs
    cases he
  | push hn _ ih =>
    obtain ⟨es, rfl, hes⟩ := exists_of_map_emit hxs
    obtain ⟨es', rfl, hes'⟩ := exists_of_map_emit hxs'
    exact @ih _ es es' _ _ located (like.push hn) hes hes'
  | pop _ ih =>
    obtain ⟨es, rfl, hes⟩ := exists_of_map_emit hxs
    obtain ⟨es', rfl, hes'⟩ := exists_of_map_emit hxs'
    exact @ih _ es es' _ _ located like.pop hes hes'
  | enter hn ho _ ih =>
    obtain ⟨es, rfl, hes⟩ := exists_of_map_emit hxs
    obtain ⟨es', rfl, hes'⟩ := exists_of_map_emit hxs'
    exact @ih _ es es' _ _ located (like.enter K hn ho) hes hes'
  | stuck =>
    obtain ⟨es, rfl, hes⟩ := exists_of_map_emit hxs
    obtain ⟨es', rfl, hes'⟩ := exists_of_map_emit hxs'
    exact Or.inl (.error _)
  | free hb named hn _ ih =>
    obtain ⟨es, rfl, hes⟩ := exists_of_map_emit hxs
    obtain ⟨es', rfl, hes'⟩ := exists_of_map_emit hxs'
    have added := like.free K (located _ (List.mem_cons_self ..)) hb named hn
    rw [List.foldlM_cons, List.foldlM_cons, freed, List.append_cons]
    generalize r.add _ = x, r'.add _ = x' at added ⊢
    cases added with
    | error f => exact Or.inl (.error f)
    | ok next => exact ih (fun x hx => located x (List.mem_cons_of_mem _ hx)) next hes hes'
  | @bound stack _ name n _ _ hb _ ih =>
    obtain ⟨es, rfl, hes⟩ := exists_of_map_emit hxs
    rw [List.foldlM_cons, Report.add, freed, List.append_cons]
    cases ho : Occurrence.read n r.enclosing with
    | error f => exact Or.inr ⟨f, rfl, stack, name, n, hb, like.enclosing ▸ ho⟩
    | ok o =>
      have next := like.bound K (located _ (List.mem_cons_self ..)) hb ho
      exact ih (fun x hx => located x (List.mem_cons_of_mem _ hx)) next hes hxs'
  | idle hi _ ih =>
    obtain ⟨ds, es', rfl, hds, hes'⟩ := List.map_eq_append_iff.mp hxs'
    have same := hi r'
    rw [← hds, flatMap_events_emit] at same
    rw [List.foldlM_append, same]
    exact ih located like hxs hes'

end FreeNames
