import FreeNames.Proofs.Terminal.Icons
import Mathlib.Algebra.Ring.Parity
import Mathlib.Tactic.Common

/-!
# Where markup reads tags

A group is a tag where an even number of backslashes stands in front of it, and text otherwise.
Sanitizing escapes every stand-in by itself, so the backslashes that a text has in front of an icon
count too: behind an odd number of them a stand-in that is written as a tag is read as one.

* `markupParts` reads markup and keeps what every piece is written as.
* `exists_parts_of_isGroup` finds the piece of a group, wherever it stands, by induction on the
  reading.  With it `readsTag_iff` says which groups are tags.
* `Terminal.reading_standIn` is the law for the stand-ins.
-/

namespace FreeNames

/-! ## Reading with places -/

/-- The pieces of a group behind backslashes, each behind what it is written as. -/
def GroupAhead.parts (g : GroupAhead) : List (List Nat × MarkupPiece) :=
  let shown := List.replicate (g.slashes.length / 2) 0x5C
  if g.slashes.length % 2 = 1 then [(g.slashes ++ g.group, .text (shown ++ g.group))]
  else [(g.slashes, .text shown), (g.group, .tag g.group)]

/-- The pieces of markup, each behind what it is written as. -/
def markupParts (points : List Nat) : List (List Nat × MarkupPiece) :=
  match _ahead : groupAhead? points with
  | some g => g.parts ++ markupParts g.tail
  | none =>
    match points with
    | [] => []
    | c :: rest => ([c], .text [c]) :: markupParts rest
termination_by points.length
decreasing_by
  · exact groupAhead?_length _ahead
  · simp

/-- Is a group that stands between two texts read as a tag? -/
def ReadsTag (before group after : Text) : Prop :=
  ∃ ps qs, markupParts (before ++ group ++ after).points =
      ps ++ (group.points, .tag group.points) :: qs ∧
    ps.flatMap Prod.fst = before.points

/-- Is a stretch between two texts shown as it is written, in one piece with the backslashes in
front of it? -/
def ReadsText (before group after : Text) : Prop :=
  ∃ ps qs slashes shown, markupParts (before ++ group ++ after).points =
      ps ++ (slashes ++ group.points, .text (shown ++ group.points)) :: qs ∧
    ps.flatMap Prod.fst ++ slashes = before.points ∧ ∀ c ∈ slashes, c = 0x5C

section Reading

variable {points group tail : List Nat}

theorem markupParts_of_some {g : GroupAhead} (h : groupAhead? points = some g) :
    markupParts points = g.parts ++ markupParts g.tail := by
  rw [markupParts]
  split
  · next g' h' => rw [Option.some.inj (h.symm.trans h')]
  · next none => rw [none] at h; cases h

theorem markupParts_of_none {c : Nat} {rest : List Nat} (h : groupAhead? (c :: rest) = none) :
    markupParts (c :: rest) = ([c], .text [c]) :: markupParts rest := by
  rw [markupParts]
  split
  · next g h' => rw [h] at h'; cases h'
  · rfl

theorem markupPieces_of_some {g : GroupAhead} (h : groupAhead? points = some g) :
    markupPieces points = g.pieces ++ markupPieces g.tail := by
  rw [markupPieces]
  split
  · next g' h' => rw [Option.some.inj (h.symm.trans h')]
  · next none => rw [none] at h; cases h

theorem markupPieces_of_none {c : Nat} {rest : List Nat} (h : groupAhead? (c :: rest) = none) :
    markupPieces (c :: rest) = .text [c] :: markupPieces rest := by
  rw [markupPieces]
  split
  · next g h' => rw [h] at h'; cases h'
  · rfl

theorem GroupAhead.parts_of_odd {g : GroupAhead} (odd : Odd g.slashes.length) :
    g.parts = [(g.slashes ++ g.group,
      .text (List.replicate (g.slashes.length / 2) 0x5C ++ g.group))] :=
  if_pos (Nat.odd_iff.mp odd)

theorem GroupAhead.parts_of_even {g : GroupAhead} (even : Even g.slashes.length) :
    g.parts = [(g.slashes, .text (List.replicate (g.slashes.length / 2) 0x5C)),
      (g.group, .tag g.group)] :=
  if_neg (by rw [Nat.even_iff.mp even]; exact Nat.zero_ne_one)

theorem GroupAhead.parts_fst (g : GroupAhead) : g.parts.flatMap Prod.fst = g.slashes ++ g.group := by
  unfold parts
  dsimp only
  split <;> simp

theorem GroupAhead.parts_snd (g : GroupAhead) : g.parts.map Prod.snd = g.pieces := by
  unfold parts pieces
  dsimp only
  split <;> rfl

/-- What the pieces are written as is the whole text. -/
theorem markupParts_fst (points : List Nat) : (markupParts points).flatMap Prod.fst = points := by
  induction points using markupParts.induct with
  | case1 points g ahead ih =>
    rw [markupParts_of_some ahead, List.flatMap_append, ih, g.parts_fst, List.append_assoc,
      groupAhead?_append ahead]
  | case2 ahead => simp [markupParts, groupAhead?, tagGroup?]
  | case3 c rest ahead ih =>
    rw [markupParts_of_none ahead, List.flatMap_cons, ih]
    rfl

/-- The pieces are those of markup. -/
theorem markupParts_snd (points : List Nat) :
    (markupParts points).map Prod.snd = markupPieces points := by
  induction points using markupParts.induct with
  | case1 points g ahead ih =>
    rw [markupParts_of_some ahead, List.map_append, ih, g.parts_snd, markupPieces_of_some ahead]
  | case2 ahead => simp [markupParts, markupPieces, groupAhead?, tagGroup?]
  | case3 c rest ahead ih =>
    rw [markupParts_of_none ahead, List.map_cons, ih, markupPieces_of_none ahead]

end Reading

/-! ## Groups -/

/-- Is the whole text one group? -/
def IsGroup (group : List Nat) : Prop := tagGroup? group = some (group, [])

instance (group : List Nat) : Decidable (IsGroup group) :=
  inferInstanceAs (Decidable (tagGroup? group = some (group, [])))

section Groups

variable {points group tail : List Nat}

/-- A group is in brackets, with no opening bracket inside. -/
theorem exists_body_of_tagGroup? (h : tagGroup? points = some (group, tail)) :
    ∃ body, group = 0x5B :: body ++ [0x5D] ∧ 0x5B ∉ body ∧
      ∀ after, tagGroup? (group ++ after) = some (group, after) := by
  unfold tagGroup? at h
  split at h
  · next c rest =>
    split at h
    · next begins =>
      simp only at h
      split at h
      · next behind =>
        cases h
        have inside := List.all_takeWhile (p := fun x => decide (x ≠ 0x5B) && decide (x ≠ 0x5D))
          (l := rest)
        generalize rest.takeWhile (fun x => decide (x ≠ 0x5B) && decide (x ≠ 0x5D)) = body at *
        have inside : ∀ x ∈ body, (decide (x ≠ 0x5B) && decide (x ≠ 0x5D)) = true :=
          List.all_eq_true.mp inside
        refine ⟨c :: body, rfl, ?_, fun after => ?_⟩
        · rintro mem
          rcases List.mem_cons.mp mem with rfl | mem
          · simp [beginsTag] at begins
          · simpa using inside _ mem
        · show tagGroup? (0x5B :: c :: (body ++ [0x5D] ++ after)) = _
          rw [List.append_assoc, List.singleton_append, tagGroup?, if_pos begins]
          dsimp only
          rw [List.dropWhile_append_of_pos inside, List.takeWhile_append_of_pos inside]
          simp
      · cases h
    · cases h
  · cases h

theorem isGroup_of_tagGroup? (h : tagGroup? points = some (group, tail)) : IsGroup group := by
  obtain ⟨body, -, -, ahead⟩ := exists_body_of_tagGroup? h
  have whole := ahead []
  rwa [List.append_nil] at whole

theorem IsGroup.ahead (h : IsGroup group) (after : List Nat) :
    tagGroup? (group ++ after) = some (group, after) := by
  obtain ⟨body, -, -, ahead⟩ := exists_body_of_tagGroup? h
  exact ahead after

/-- A group behind backslashes is found there. -/
theorem IsGroup.groupAhead? (h : IsGroup group) (n : Nat) (after : List Nat) :
    groupAhead? (List.replicate n 0x5C ++ (group ++ after)) =
      some ⟨List.replicate n 0x5C, group, after⟩ := by
  obtain ⟨body, rfl, -, ahead⟩ := exists_body_of_tagGroup? h
  have slashes : ∀ c ∈ List.replicate n 0x5C, decide (c = 0x5C) = true := fun c mem =>
    decide_eq_true (List.eq_of_mem_replicate mem)
  have stop : decide ((0x5B : Nat) = 0x5C) = false := rfl
  rw [FreeNames.groupAhead?, List.dropWhile_append_of_pos slashes,
    List.takeWhile_append_of_pos slashes]
  simp only [List.cons_append, List.dropWhile_cons, List.takeWhile_cons, stop, if_neg,
    Bool.false_eq_true, not_false_eq_true, List.append_nil]
  rw [← List.cons_append, ← List.cons_append, ahead]
  rfl

/-- The backslashes in front of a group are a run of backslashes. -/
theorem slashes_eq {g : GroupAhead} (h : groupAhead? points = some g) :
    g.slashes = List.replicate g.slashes.length 0x5C ∧ IsGroup g.group := by
  obtain ⟨⟨group, tail⟩, found, rfl⟩ := Option.map_eq_some_iff.mp h
  refine ⟨List.eq_replicate_of_mem fun c mem => ?_, isGroup_of_tagGroup? found⟩
  exact of_decide_eq_true (List.all_eq_true.mp List.all_takeWhile c mem)

end Groups

/-! ## Backslashes at the end -/

/-- The number of backslashes at the end of a text. -/
def slashesAtEnd (points : List Nat) : Nat := (points.reverse.takeWhile (· = 0x5C)).length

section AtEnd

theorem slashesAtEnd_replicate (n : Nat) : slashesAtEnd (List.replicate n 0x5C) = n := by
  rw [slashesAtEnd, List.reverse_replicate, List.takeWhile_replicate]
  simp

/-- What stands in front of another character does not count. -/
theorem slashesAtEnd_append_cons {c : Nat} (h : c ≠ 0x5C) (front points : List Nat) :
    slashesAtEnd (front ++ c :: points) = slashesAtEnd points := by
  rw [slashesAtEnd, slashesAtEnd, List.reverse_append, List.reverse_cons, List.append_assoc,
    List.takeWhile_append]
  split
  · next all => simp [h, all]
  · rfl

theorem slashesAtEnd_concat (points : List Nat) :
    slashesAtEnd (points ++ [0x5C]) = slashesAtEnd points + 1 := by
  simp [slashesAtEnd]

/-- A character counts only in front of nothing but backslashes. -/
theorem slashesAtEnd_cons {c : Nat} {points : List Nat}
    (h : ∀ n, c :: points ≠ List.replicate (n + 1) 0x5C) :
    slashesAtEnd (c :: points) = slashesAtEnd points := by
  by_cases slash : c = 0x5C
  · have more : ∃ d ∈ points, d ≠ 0x5C := by
      by_contra! all
      refine h points.length (List.eq_replicate_iff.mpr ⟨by simp, fun d mem => ?_⟩)
      rcases List.mem_cons.mp mem with rfl | mem
      · exact slash
      · exact all d mem
    obtain ⟨d, mem, other⟩ := more
    obtain ⟨front, rest, rfl⟩ := List.append_of_mem mem
    rw [← List.cons_append, slashesAtEnd_append_cons other, slashesAtEnd_append_cons other]
  · exact slashesAtEnd_append_cons slash [] points

end AtEnd

/-! ## Finding groups -/

section Finding

variable {before group after : List Nat}

/-- The group that is found first is the given one or stands in front of it. -/
theorem IsGroup.apart (h : IsGroup group) {g : GroupAhead}
    (found : FreeNames.groupAhead? (before ++ (group ++ after)) = some g) :
    (before = g.slashes ∧ g.group = group ∧ g.tail = after) ∨
      ∃ mid, before = g.slashes ++ (g.group ++ mid) ∧ g.tail = mid ++ (group ++ after) := by
  have whole := groupAhead?_append found
  obtain ⟨run, first⟩ := slashes_eq found
  -- A group begins with an opening bracket and has no other one.
  obtain ⟨body, bracketed, -, -⟩ := exists_body_of_tagGroup? h
  obtain ⟨body', bracketed', free, -⟩ := exists_body_of_tagGroup? first
  have same (tails : group ++ after = g.group ++ g.tail) : g.group = group ∧ g.tail = after := by
    have ahead := first.ahead g.tail
    rw [← tails, h.ahead after] at ahead
    cases ahead
    exact ⟨rfl, rfl⟩
  rcases List.append_eq_append_iff.mp whole with ⟨mid, front, rest⟩ | ⟨mid, front, rest⟩
  · rcases List.append_eq_append_iff.mp rest with ⟨mid', rfl, tail⟩ | ⟨mid', inside, tail⟩
    · exact .inr ⟨mid', front, tail⟩
    · match mid, mid' with
      | [], _ =>
        rw [List.nil_append] at inside
        rw [List.append_nil] at front
        exact .inl ⟨front, same (inside ▸ tail)⟩
      | c :: mid, [] =>
        rw [List.append_nil] at inside
        exact .inr ⟨[], by rw [front, inside, List.append_nil], tail.symm⟩
      | c :: mid, d :: mid' =>
        rw [bracketed] at tail
        rw [bracketed'] at inside
        obtain rfl := (List.cons.inj tail).1
        have mem : (0x5B : Nat) ∈ body' ++ [0x5D] := by
          rw [show body' ++ [0x5D] = mid ++ 0x5B :: mid' from (List.cons.inj inside).2]
          simp
        simp [free] at mem
  · match mid with
    | [] =>
      rw [List.append_nil] at front
      exact .inl ⟨front.symm, same rest⟩
    | c :: mid =>
      rw [bracketed] at rest
      have mem : (0x5B : Nat) ∈ g.slashes := by
        rw [front, ← (List.cons.inj rest).1]
        simp
      rw [run] at mem
      cases List.eq_of_mem_replicate mem

/-- A group is read together with the backslashes in front of it. -/
theorem exists_parts_of_isGroup (h : IsGroup group) (before after : List Nat) :
    ∃ ps qs, markupParts (before ++ (group ++ after)) = ps ++
        ((GroupAhead.mk (List.replicate (slashesAtEnd before) 0x5C) group after).parts ++ qs) ∧
      ps.flatMap Prod.fst ++ List.replicate (slashesAtEnd before) 0x5C = before := by
  generalize whole : before ++ (group ++ after) = points
  induction points using markupParts.induct generalizing before with
  | case1 points g found ih =>
    subst whole
    rw [markupParts_of_some found]
    obtain ⟨run, first⟩ := slashes_eq found
    rcases h.apart found with ⟨front, rfl, rfl⟩ | ⟨mid, rfl, tail⟩
    · refine ⟨[], markupParts g.tail, ?_, ?_⟩
      · rw [front, run, slashesAtEnd_replicate, ← run]
        rfl
      · rw [front, run, slashesAtEnd_replicate]
        rfl
    · obtain ⟨ps, qs, parts, front⟩ := ih mid tail.symm
      obtain ⟨body, bracketed, -, -⟩ := exists_body_of_tagGroup? first
      have count : slashesAtEnd (g.slashes ++ (g.group ++ mid)) = slashesAtEnd mid := by
        rw [bracketed, List.append_assoc, ← List.append_assoc]
        exact slashesAtEnd_append_cons (by decide) _ mid
      refine ⟨g.parts ++ ps, qs, ?_, ?_⟩
      · rw [count, parts, List.append_assoc]
      · rw [count, List.flatMap_append, List.append_assoc, front, g.parts_fst, List.append_assoc]
  | case2 none =>
    obtain ⟨body, rfl, -, -⟩ := exists_body_of_tagGroup? h
    simp at whole
  | case3 c rest none ih =>
    cases before with
    | nil =>
      have found := h.groupAhead? 0 after
      rw [← whole] at none
      rw [List.replicate_zero] at found
      rw [found] at none
      cases none
    | cons d before =>
      rw [List.cons_append] at whole
      obtain ⟨rfl, rfl⟩ := List.cons.inj whole
      obtain ⟨ps, qs, parts, front⟩ := ih before rfl
      have count : slashesAtEnd (d :: before) = slashesAtEnd before := by
        refine slashesAtEnd_cons fun n run => ?_
        have found := h.groupAhead? (n + 1) after
        rw [← run, List.cons_append, none] at found
        cases found
      refine ⟨([d], .text [d]) :: ps, qs, ?_, ?_⟩
      · rw [count, markupParts_of_none none, parts, List.cons_append]
      · rw [count, List.flatMap_cons, List.append_assoc, front]
        rfl

/-- Only groups are tags. -/
theorem isGroup_of_mem_markupParts {points source : List Nat}
    (mem : (source, .tag group) ∈ markupParts points) : IsGroup group := by
  induction points using markupParts.induct with
  | case1 points g found ih =>
    rw [markupParts_of_some found] at mem
    rcases List.mem_append.mp mem with mem | mem
    · obtain ⟨-, first⟩ := slashes_eq found
      unfold GroupAhead.parts at mem
      dsimp only at mem
      split at mem
      · simp at mem
      · have same : source = g.group ∧ group = g.group := by
          simpa using (List.mem_cons.mp mem).resolve_left (by simp)
        exact same.2 ▸ first
    · exact ih mem
  | case2 none => simp [markupParts, FreeNames.groupAhead?, tagGroup?] at mem
  | case3 c rest none ih =>
    rw [markupParts_of_none none] at mem
    exact ih ((List.mem_cons.mp mem).resolve_left (by simp))

end Finding

/-! ## Tags and text -/

section TagsAndText

variable {before group after : Text}

/-- A group behind an odd number of backslashes is shown as it is written. -/
theorem readsText_of_isGroup (h : IsGroup group.points)
    (odd : Odd (slashesAtEnd before.points)) : ReadsText before group after := by
  obtain ⟨ps, qs, parts, front⟩ := exists_parts_of_isGroup h before.points after.points
  rw [GroupAhead.parts_of_odd (by rwa [List.length_replicate])] at parts
  refine ⟨ps, qs, List.replicate (slashesAtEnd before.points) 0x5C,
    List.replicate (slashesAtEnd before.points / 2) 0x5C, ?_, front, fun c => List.eq_of_mem_replicate⟩
  rw [Text.points_append, Text.points_append, List.append_assoc, parts, List.length_replicate]
  rfl

/-- Of two pieces in one reading, one stands behind the other, unless they are the same. -/
theorem piece_cases {ps qs ps' qs' : List (List Nat × MarkupPiece)} {a b : List Nat × MarkupPiece}
    (h : ps ++ a :: qs = ps' ++ b :: qs') : a = b ∨
      (ps.flatMap Prod.fst).length + a.1.length ≤ (ps'.flatMap Prod.fst).length ∨
      (ps'.flatMap Prod.fst).length + b.1.length ≤ (ps.flatMap Prod.fst).length := by
  rcases List.append_eq_append_iff.mp h with ⟨mid, rfl, rest⟩ | ⟨mid, rfl, rest⟩
  · cases mid with
    | nil => exact .inl (List.cons.inj rest).1
    | cons c mid =>
      obtain rfl := (List.cons.inj rest).1
      refine .inr (.inl ?_)
      rw [List.flatMap_append, List.flatMap_cons, List.length_append, List.length_append]
      omega
  · cases mid with
    | nil => exact .inl (List.cons.inj rest).1.symm
    | cons c mid =>
      obtain rfl := (List.cons.inj rest).1
      refine .inr (.inr ?_)
      rw [List.flatMap_append, List.flatMap_cons, List.length_append, List.length_append]
      omega

/-- A group is a tag exactly if the number of backslashes in front of it is even. -/
theorem readsTag_iff :
    ReadsTag before group after ↔ IsGroup group.points ∧ Even (slashesAtEnd before.points) := by
  constructor
  · rintro ⟨ps, qs, parts, front⟩
    have isGroup : IsGroup group.points := isGroup_of_mem_markupParts
      (parts ▸ List.mem_append_right ps List.mem_cons_self)
    refine ⟨isGroup, ?_⟩
    by_contra odd
    rw [Nat.not_even_iff_odd] at odd
    -- Otherwise the group is text, and nothing else is read at its place.
    have asText : ReadsText before group after := readsText_of_isGroup isGroup odd
    obtain ⟨ps', qs', slashes, shown, parts', front', -⟩ := asText
    obtain ⟨body, bracketed, -, -⟩ := exists_body_of_tagGroup? isGroup
    have some : 0 < group.points.length := by rw [bracketed]; simp
    have length := congrArg List.length front
    have length' := congrArg List.length front'
    rw [List.length_append] at length'
    rcases piece_cases (parts.symm.trans parts') with same | behind | behind
    · cases (Prod.mk.inj same).2
    · dsimp only at behind
      omega
    · rw [List.length_append] at behind
      omega
  · rintro ⟨isGroup, even⟩
    obtain ⟨ps, qs, parts, front⟩ := exists_parts_of_isGroup isGroup before.points after.points
    rw [GroupAhead.parts_of_even (by rwa [List.length_replicate])] at parts
    refine ⟨ps ++ [(List.replicate (slashesAtEnd before.points) 0x5C,
      .text (List.replicate (slashesAtEnd before.points / 2) 0x5C))], qs, ?_, ?_⟩
    · rw [Text.points_append, Text.points_append, List.append_assoc, parts, List.length_replicate,
        List.append_assoc]
      rfl
    · rw [List.flatMap_append, List.flatMap_singleton]
      exact front

end TagsAndText

/-! ## Stand-ins -/

section StandIns

variable {i : Nat} {s : Text}

/-- The stand-ins of the icons for what is global and for a file are written as tags. -/
theorem isGroup_standIn (h : standIn? i = some s) :
    IsGroup s.points ↔ i = 0x1F310 ∨ i = 0x1F4C4 := by
  have all : ∀ entry ∈ icons, IsGroup entry.2.points ↔ entry.1 = 0x1F310 ∨ entry.1 = 0x1F4C4 := by
    decide
  exact all _ (entry_mem_icons h)

/-- Escaping puts a backslash in front of a stand-in that is written as a tag, and leaves the others
alone. -/
theorem escapeMarkup_standIn (h : standIn? i = some s) :
    s.escapeMarkup = (if IsGroup s.points then "\\" else "" : String) ++ s := by
  have all : ∀ entry ∈ icons, entry.2.escapeMarkup =
      ((if IsGroup entry.2.points then "\\" else "" : String) : Text) ++ entry.2 := by
    decide +kernel
  exact all _ (entry_mem_icons h)

/-- What replaces an icon ends with something other than a backslash. -/
theorem exists_last_escapeMarkup (h : standIn? i = some s) :
    ∃ front c, s.escapeMarkup.points = front ++ [c] ∧ c ≠ 0x5C := by
  have all : ∀ entry ∈ icons, ∀ c ∈ entry.2.points.getLast?, c ≠ 0x5C := by decide
  have some : ∀ entry ∈ icons, entry.2.points ≠ [] := by decide
  have other := all _ (entry_mem_icons h)
  obtain ⟨front, c, parts⟩ := (List.eq_nil_or_concat' s.points).resolve_left
    (some _ (entry_mem_icons h))
  refine ⟨((if IsGroup s.points then "\\" else "" : String) : Text).points ++ front, c, ?_,
    other c (by rw [parts]; exact List.getLast?_concat)⟩
  rw [escapeMarkup_standIn h, Text.points_append, List.append_assoc, ← parts]

/-- Replacing icons keeps the number of backslashes at the end. -/
theorem slashesAtEnd_replaceIcons (t : Text) :
    slashesAtEnd (t.replaceIcons Text.escapeMarkup).points = slashesAtEnd t.points := by
  obtain ⟨points⟩ := t
  induction points using List.reverseRecOn with
  | nil => rfl
  | append_singleton front c ih =>
    have parts := Text.replaceIcons_append Text.escapeMarkup ⟨front⟩ ⟨[c]⟩
    rw [show (⟨front ++ [c]⟩ : Text) = ⟨front⟩ ++ ⟨[c]⟩ from rfl, parts, Text.points_append,
      Text.points_append]
    cases icon : standIn? c with
    | none =>
      rw [Text.replaceIcons_other _ icon]
      by_cases slash : c = 0x5C
      · rw [slash, slashesAtEnd_concat, slashesAtEnd_concat, ih]
      · rw [slashesAtEnd_append_cons slash, slashesAtEnd_append_cons slash]
    | some s =>
      rw [Text.replaceIcons_icon _ icon]
      obtain ⟨front', d, last, other⟩ := exists_last_escapeMarkup icon
      have slash : c ≠ 0x5C := by
        rintro rfl
        rw [standIn?_eq_none (by decide)] at icon
        cases icon
      rw [last, ← List.append_assoc, slashesAtEnd_append_cons other, slashesAtEnd_append_cons slash]

end StandIns

namespace Terminal

variable {terminal : Terminal} {forced : Bool} {i : Nat} {s : Text}

theorem sanitizeMarkup_of_degraded (degraded : (forced || !terminal.isUtf8) = true) (t : Text) :
    terminal.sanitizeMarkup forced t = t.replaceIcons Text.escapeMarkup := by
  rw [sanitizeMarkup, if_neg]
  revert degraded
  cases forced <;> cases terminal.isUtf8 <;> simp

/-- Behind an odd number of backslashes, a stand-in that is written as a tag is read as one. -/
theorem reading_standIn (degraded : (forced || !terminal.isUtf8) = true)
    (icon : standIn? i = some s) (before after : Text) :
    let written := i = 0x1F310 ∨ i = 0x1F4C4
    let front := terminal.sanitizeMarkup forced before ++ (if written then "\\" else "" : String)
    let behind := terminal.sanitizeMarkup forced after
    terminal.sanitizeMarkup forced (before ++ ⟨[i]⟩ ++ after) = front ++ s ++ behind ∧
      (ReadsTag front s behind ↔ written ∧ Odd (slashesAtEnd before.points)) ∧
      (written ∧ Even (slashesAtEnd before.points) → ReadsText front s behind) := by
  intro written front behind
  have count (h : written) :
      slashesAtEnd front.points = slashesAtEnd before.points + 1 := by
    rw [show front.points = _ from Text.points_append _ _, if_pos h]
    rw [sanitizeMarkup_of_degraded degraded, ← slashesAtEnd_replaceIcons before]
    exact slashesAtEnd_concat _
  have isGroup := isGroup_standIn icon
  refine ⟨Text.ext ?_, ?_, fun ⟨h, even⟩ => ?_⟩
  · rw [sanitizeMarkup_of_degraded degraded, Text.replaceIcons_append, Text.replaceIcons_append,
      Text.replaceIcons_icon _ icon, escapeMarkup_standIn icon]
    simp only [isGroup, front, behind, written, sanitizeMarkup_of_degraded degraded,
      Text.points_append, List.append_assoc]
  · rw [readsTag_iff, isGroup]
    exact and_congr_right fun h => by rw [count h, Nat.even_add_one, Nat.not_even_iff_odd]
  · exact readsText_of_isGroup (isGroup.mpr h) (count h ▸ even.add_one)

/-- The backslash in front of an icon takes away the one that escapes the stand-in. -/
theorem globeBehindBackslash_reading :
    (true || !utf8.isUtf8) = true ∧ standIn? 0x1F310 = some "[global]" ∧
      markupPieces (utf8.sanitizeMarkup true "\\🌐").points =
        [.text [0x5C], .tag (Text.ofString "[global]").points] ∧
      ReadsTag "\\\\" "[global]" "" := by
  have icon : standIn? 0x1F310 = some "[global]" := by decide
  obtain ⟨-, tag, -⟩ := @reading_standIn utf8 true _ _ rfl icon "\\" ""
  have odd : Odd (slashesAtEnd (Text.ofString "\\").points) := by decide
  exact ⟨rfl, icon, by decide +kernel, tag.mpr ⟨.inl rfl, odd⟩⟩

end Terminal

end FreeNames
