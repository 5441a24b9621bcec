import FreeNames.Output.Document
import FreeNames.Proofs.Literal.Digits
import FreeNames.Proofs.Literal.Units
import FreeNames.Proofs.Text.Content
import FreeNames.Terminal.Encoding

/-!
# Reading JSON documents

A reader of JSON, and what it makes of the text of a document: the document itself, except that
halves of surrogate pairs that stand side by side are one code point.

* `Document.readValue?` reads a value at the front of a text and gives what follows it.  The fuel is
  the length of the text, since every value and every item takes a code point or more.
* `Document.isReadBack` says what it makes of a document, by `Document.parts_induction`, and
  `Document.read?_render` says it of a whole text.
-/

namespace FreeNames

open Literal

/-- The text with the halves of surrogate pairs joined that stand side by side. -/
def Text.joined (t : Text) : Text := ⟨joinPairs (t.points.filter fun c => c ≤ lastPoint)⟩

theorem Text.isAscii_append {a b : Text} (ha : a.IsAscii) (hb : b.IsAscii) : (a ++ b).IsAscii :=
  List.forall_mem_append.mpr ⟨ha, hb⟩

theorem Text.isAscii_join {separator : Text} (hs : separator.IsAscii) {ts : List Text}
    (hts : ∀ t ∈ ts, t.IsAscii) : (join separator ts).IsAscii := by
  induction ts with
  | nil => exact List.forall_mem_nil _
  | cons t ts ih =>
    obtain ⟨first, others⟩ := List.forall_mem_cons.mp hts
    cases ts with
    | nil => exact first
    | cons u ts => exact isAscii_append (isAscii_append first hs) (ih others)

theorem Text.joined_of_isJoined {t : Text} (h : t.IsJoined) : t.joined = t := by
  have all : t.points.filter (fun c => c ≤ lastPoint) = t.points :=
    List.filter_eq_self.mpr fun c mem => decide_eq_true (h.le_lastPoint c mem)
  rw [joined, all, joinPairs_of_isChain h.apart]

theorem Text.isJoined_ofString (s : String) : (ofString s).IsJoined where
  apart := by
    refine (List.pairwise_map.mpr (List.pairwise_of_forall fun a b pair => ?_)).isChain
    have valid : a.toNat < 0xD800 ∨ 0xDFFF < a.toNat ∧ a.toNat < 0x110000 := a.valid
    have half := isHighSurrogate_iff.mp pair.1
    omega
  le_lastPoint := by
    intro c mem
    obtain ⟨ch, -, rfl⟩ := List.mem_map.mp mem
    have valid : ch.toNat < 0xD800 ∨ 0xDFFF < ch.toNat ∧ ch.toNat < 0x110000 := ch.valid
    unfold lastPoint
    omega

namespace Document

/-! ## The reader -/

/-- May the code point stand between values? -/
def isBlank (c : Nat) : Bool := c = 0x20 || c = 0x0A || c = 0x0D || c = 0x09

def skipBlanks (s : List Nat) : List Nat := s.dropWhile isBlank

/-- What a letter or a sign stands for behind a backslash. -/
def escape? (c : Nat) : Option Nat :=
  if c = 0x22 || c = 0x5C || c = 0x2F then some c
  else if c = 0x62 then some 0x08
  else if c = 0x66 then some 0x0C
  else if c = 0x6E then some 0x0A
  else if c = 0x72 then some 0x0D
  else if c = 0x74 then some 0x09
  else none

/-- One code unit of a string, and what follows it. -/
def readUnit? : List Nat → Option (Nat × List Nat)
  | [] => none
  | c :: rest =>
    if c = 0x5C then
      match rest with
      | [] => none
      | e :: after => if e = 0x75 then fixedHex? 4 after else (escape? e).map (·, after)
    else if c = 0x22 || c < 0x20 then none
    else some (c, rest)

/-- The code units up to the mark that closes a string, and what follows it. -/
def readUnits? : Nat → List Nat → Option (List Nat × List Nat)
  | 0, _ => none
  | fuel + 1, s =>
    if s.head? = some 0x22 then some ([], s.tail)
    else do
      let (u, rest) ← readUnit? s
      let (us, rest) ← readUnits? fuel rest
      return (u :: us, rest)

/-- A string behind the mark that opens it, and what follows it. -/
def readText? (s : List Nat) : Option (Text × List Nat) :=
  (readUnits? s.length s).map fun (us, rest) => (⟨joinPairs us⟩, rest)

/-- A number without needless zeros, and what follows it. -/
def readNumber? (s : List Nat) : Option (Nat × List Nat) :=
  let digits := s.takeWhile (isDigitOf 10)
  if digits.isEmpty || (digits.head? = some 0x30 && digits.length ≠ 1) then none
  else some (valueOf 10 digits, s.dropWhile (isDigitOf 10))

mutual

/-- A value, and what follows it. -/
def readValue? : Nat → List Nat → Option (Document × List Nat)
  | 0, _ => none
  | fuel + 1, s =>
    match skipBlanks s with
    | [] => none
    | c :: rest =>
      if c = 0x22 then (readText? rest).map fun (t, rest) => (.text t, rest)
      else if c = 0x5B then
        if (skipBlanks rest).head? = some 0x5D then some (.list [], (skipBlanks rest).tail)
        else (readItems? fuel rest).map fun (ds, rest) => (.list ds, rest)
      else if c = 0x7B then
        if (skipBlanks rest).head? = some 0x7D then some (.object [], (skipBlanks rest).tail)
        else (readMembers? fuel rest).map fun (ms, rest) => (.object ms, rest)
      else (readNumber? (c :: rest)).map fun (n, rest) => (.number n, rest)

/-- Items up to the bracket that closes their list, and what follows it. -/
def readItems? : Nat → List Nat → Option (List Document × List Nat)
  | 0, _ => none
  | fuel + 1, s => do
    let (d, rest) ← readValue? fuel s
    match skipBlanks rest with
    | [] => none
    | c :: rest =>
      if c = 0x2C then (readItems? fuel rest).map fun (ds, rest) => (d :: ds, rest)
      else if c = 0x5D then some ([d], rest)
      else none

/-- Members up to the brace that closes their object, and what follows it. -/
def readMembers? : Nat → List Nat → Option (List (Text × Document) × List Nat)
  | 0, _ => none
  | fuel + 1, s =>
    if (skipBlanks s).head? = some 0x22 then do
      let (name, rest) ← readText? (skipBlanks s).tail
      if (skipBlanks rest).head? = some 0x3A then do
        let (d, rest) ← readValue? fuel (skipBlanks rest).tail
        match skipBlanks rest with
        | [] => none
        | c :: rest =>
          if c = 0x2C then (readMembers? fuel rest).map fun (ms, rest) => ((name, d) :: ms, rest)
          else if c = 0x7D then some ([(name, d)], rest)
          else none
      else none
    else none

end

/-- Read a text that holds one value and nothing else. -/
def read? (t : Text) : Option Document :=
  match readValue? t.points.length t.points with
  | some (d, rest) => if (skipBlanks rest).isEmpty then some d else none
  | none => none

mutual

/-- The document with all its texts joined. -/
def joined : Document → Document
  | .number n => .number n
  | .text t => .text t.joined
  | .list items => .list (joinedItems items)
  | .object members => .object (joinedMembers members)

def joinedItems : List Document → List Document
  | [] => []
  | d :: rest => d.joined :: joinedItems rest

def joinedMembers : List (Text × Document) → List (Text × Document)
  | [] => []
  | (name, d) :: rest => (name.joined, d.joined) :: joinedMembers rest

end

/-! ## Blanks and numbers -/

section Parts

variable {c n : Nat} {blanks s rest : List Nat}

/-- Something follows that is no digit. -/
def EndsNumber (s : List Nat) : Prop := ∀ c ∈ s.head?, isDigitOf 10 c = false

theorem skipBlanks_append (all : ∀ c ∈ blanks, isBlank c = true) :
    skipBlanks (blanks ++ s) = skipBlanks s := by
  rw [skipBlanks, List.dropWhile_append_of_pos all]
  rfl

theorem skipBlanks_cons (h : isBlank c = false) : skipBlanks (c :: rest) = c :: rest :=
  List.dropWhile_cons_of_neg (by simp [h])

theorem isBlank_of_mem_newLine (level : Nat) : ∀ c ∈ (newLine level).points, isBlank c = true := by
  intro c mem
  rcases List.mem_cons.mp mem with rfl | mem
  · rfl
  · rw [List.eq_of_mem_replicate mem]
    rfl

theorem endsNumber_newLine (level : Nat) (rest : List Nat) :
    EndsNumber ((newLine level).points ++ rest) := by
  intro c mem
  cases mem
  rfl

theorem takeWhile_ofNat (ends : EndsNumber rest) :
    ((Text.ofNat n).points ++ rest).takeWhile (isDigitOf 10) = (Text.ofNat n).points ∧
      ((Text.ofNat n).points ++ rest).dropWhile (isDigitOf 10) = rest := by
  have digits := isDigitOf_of_mem_ofNat n
  rw [List.takeWhile_append_of_pos digits, List.dropWhile_append_of_pos digits]
  cases rest with
  | nil => exact ⟨List.append_nil _, rfl⟩
  | cons c rest =>
    have none : ¬ isDigitOf 10 c = true := by simp [ends c rfl]
    rw [List.takeWhile_cons_of_neg none, List.dropWhile_cons_of_neg none]
    exact ⟨List.append_nil _, rfl⟩

theorem readNumber?_ofNat (ends : EndsNumber rest) :
    readNumber? ((Text.ofNat n).points ++ rest) = some (n, rest) := by
  obtain ⟨taken, left⟩ := takeWhile_ofNat (n := n) ends
  have plain : ((Text.ofNat n).points.head? = some 0x30 && (Text.ofNat n).points.length ≠ 1) =
      false := by
    rcases Nat.eq_zero_or_pos n with rfl | pos
    · rfl
    · simp [head_ofNat pos]
  rw [readNumber?, taken, left, plain, valueOf_ofNat, if_neg (by simp [points_ofNat_ne_nil])]

/-! ## Strings -/

/-- The hexadecimal numeral of a number is its digits, and the number of the others before them. -/
theorem toDigits_sixteen (width : Nat) (h : n < 16 ^ (width + 1)) :
    (∀ c ∈ (Nat.toDigits 16 n).map Char.toNat, isDigitOf 16 c = true) ∧
      valueOf 16 ((Nat.toDigits 16 n).map Char.toNat) = n ∧
      (Nat.toDigits 16 n).length ≤ width + 1 := by
  have digit : ∀ d < 16, isDigitOf 16 (Nat.digitChar d).toNat = true ∧
      valueOf 16 [(Nat.digitChar d).toNat] = d := by decide
  induction width generalizing n with
  | zero =>
    rw [Nat.toDigits_of_lt_base (by simpa using h)]
    simpa using digit n (by simpa using h)
  | succ width ih =>
    rcases Nat.lt_or_ge n 16 with small | large
    · rw [Nat.toDigits_of_lt_base small]
      simpa using digit n small
    · have split : Nat.toDigits 16 n =
          Nat.toDigits 16 (n / 16) ++ [Nat.digitChar (n % 16)] := by
        rw [← Nat.toDigits_of_lt_base (Nat.mod_lt n (by decide)),
          Nat.toDigits_append_toDigits (by decide) (by omega) (Nat.mod_lt n (by decide)),
          Nat.div_add_mod]
      have less : n / 16 < 16 ^ (width + 1) := by
        rw [Nat.div_lt_iff_lt_mul (by decide), ← Nat.pow_succ]
        exact h
      obtain ⟨digits, value, length⟩ := ih less
      obtain ⟨last, lastValue⟩ := digit (n % 16) (Nat.mod_lt n (by decide))
      rw [split, List.map_append, List.length_append]
      refine ⟨?_, ?_, by simpa using length⟩
      · rw [List.forall_mem_append]
        exact ⟨digits, by simpa using last⟩
      · rw [valueOf_append, value, List.map_singleton, lastValue, List.length_singleton]
        omega

/-- Four hexadecimal digits are read as the number that they were written for. -/
theorem fixedHex?_hex (h : c < 0x10000) :
    fixedHex? 4 (Text.hex 4 c ++ rest) = some (c, rest) := by
  obtain ⟨digits, value, length⟩ := toDigits_sixteen 3 h
  have all : ∀ d ∈ Text.hex 4 c, isDigitOf 16 d = true := by
    rw [Text.hex, List.forall_mem_append]
    exact ⟨fun d mem => List.eq_of_mem_replicate mem ▸ rfl, digits⟩
  have four : (Text.hex 4 c).length = 4 := by
    simp only [Text.hex, List.length_append, List.length_replicate, List.length_map]
    omega
  have whole : valueOf 16 (Text.hex 4 c) = c := by
    simp only [Text.hex]
    rw [valueOf_append, valueOf_replicate_zero, value]
    omega
  rw [fixedHex?, List.take_left' four, List.drop_left' four, whole]
  simp only [four]
  rw [if_pos]
  simpa using all

/-- A code unit is read as it was written. -/
theorem readUnit?_jsonPoint (h : c < 0x10000) (rest : List Nat) :
    readUnit? (Text.jsonPoint c ++ rest) = some (c, rest) ∧
      (Text.jsonPoint c ++ rest).head? ≠ some 0x22 := by
  have long : readUnit? (0x5C :: 0x75 :: Text.hex 4 c ++ rest) = some (c, rest) := by
    show fixedHex? 4 (Text.hex 4 c ++ rest) = _
    exact fixedHex?_hex h
  unfold Text.jsonPoint
  split_ifs with mark feed ret tab back form plain
  · obtain rfl | rfl : c = 0x22 ∨ c = 0x5C := by simpa using mark
    · exact ⟨rfl, by simp⟩
    · exact ⟨rfl, by simp⟩
  · exact ⟨feed ▸ rfl, by simp⟩
  · exact ⟨ret ▸ rfl, by simp⟩
  · exact ⟨tab ▸ rfl, by simp⟩
  · exact ⟨back ▸ rfl, by simp⟩
  · exact ⟨form ▸ rfl, by simp⟩
  · simp only [Bool.or_eq_true, decide_eq_true_eq, not_or, Bool.and_eq_true] at mark plain
    refine ⟨?_, by simpa using mark.1⟩
    have printable : (c = 0x22 || c < 0x20) = false := by
      simp only [Bool.or_eq_false_iff, decide_eq_false_iff_not]
      omega
    simp only [List.singleton_append, readUnit?, if_neg mark.2, printable, Bool.false_eq_true,
      if_false]
  · exact ⟨long, by simp⟩

/-- Beyond ASCII everything is written by its number. -/
theorem jsonPoint_of_le (h : 0x7F ≤ c) : Text.jsonPoint c =
    if c < 0x10000 then 0x5C :: 0x75 :: Text.hex 4 c
    else if c < 0x110000 then
      (0x5C :: 0x75 :: Text.hex 4 (0xD800 + (c - 0x10000) / 0x400))
        ++ (0x5C :: 0x75 :: Text.hex 4 (0xDC00 + (c - 0x10000) % 0x400))
    else [] := by
  have mark : (c = 0x22 || c = 0x5C) = false := by
    simp only [Bool.or_eq_false_iff, decide_eq_false_iff_not]
    omega
  have plain : (0x20 ≤ c && c < 0x7F) = false := by
    simp only [Bool.and_eq_false_iff, decide_eq_false_iff_not]
    omega
  rw [Text.jsonPoint, mark, plain, if_neg Bool.false_ne_true, if_neg (by omega), if_neg (by omega),
    if_neg (by omega), if_neg (by omega), if_neg (by omega), if_neg Bool.false_ne_true]

/-- A code point of the other planes is written as its two units. -/
theorem jsonPoint_eq_flatMap_unitsOf (h : c ≤ lastPoint) :
    Text.jsonPoint c = (unitsOf c).flatMap Text.jsonPoint := by
  by_cases small : c < 0x10000
  · rw [unitsOf_of_lt small, List.flatMap_singleton]
  · have le : c < 0x110000 := Nat.lt_succ_of_le h
    have half {u : Nat} (lo : 0xD800 ≤ u) (hi : u < 0x10000) :
        Text.jsonPoint u = 0x5C :: 0x75 :: Text.hex 4 u := by
      rw [jsonPoint_of_le (by omega), if_pos hi]
    rw [jsonPoint_of_le (by omega), if_neg small, if_pos le, unitsOf, if_neg small,
      List.flatMap_cons, List.flatMap_singleton, half (by omega) (by omega),
      half (by omega) (by omega)]

theorem jsonPoint_of_lt (h : lastPoint < c) : Text.jsonPoint c = [] := by
  unfold lastPoint at h
  rw [jsonPoint_of_le (by omega), if_neg (by omega), if_neg (by omega)]

/-- The code units of a text are read up to the closing mark. -/
theorem readUnits?_flatMap {us : List Nat} (all : ∀ u ∈ us, u < 0x10000) {fuel : Nat}
    (long : us.length < fuel) :
    readUnits? fuel (us.flatMap Text.jsonPoint ++ 0x22 :: rest) = some (us, rest) := by
  induction us generalizing fuel with
  | nil =>
    obtain ⟨fuel, rfl⟩ := Nat.exists_eq_add_of_lt long
    rfl
  | cons u us ih =>
    obtain ⟨fuel, rfl⟩ := Nat.exists_eq_add_one_of_ne_zero (Nat.ne_zero_of_lt long)
    obtain ⟨small, all⟩ := List.forall_mem_cons.mp all
    obtain ⟨unit, mark⟩ := readUnit?_jsonPoint small (us.flatMap Text.jsonPoint ++ 0x22 :: rest)
    have inner := ih all (Nat.lt_of_succ_lt_succ long)
    rw [List.flatMap_cons, List.append_assoc, readUnits?, if_neg mark, unit]
    simp only [Option.bind_eq_bind, Option.bind_some, inner]
    rfl

theorem jsonPoint_ne_nil (h : c < 0x10000) : Text.jsonPoint c ≠ [] := by
  intro nil
  have unit := (readUnit?_jsonPoint h []).1
  rw [nil] at unit
  cases unit

/-- A text is written unit by unit; what is no code point is left out. -/
theorem flatMap_jsonPoint_eq (points : List Nat) : points.flatMap Text.jsonPoint =
    ((points.filter fun c => c ≤ lastPoint).flatMap unitsOf).flatMap Text.jsonPoint := by
  rw [List.flatMap_assoc]
  induction points with
  | nil => rfl
  | cons c points ih =>
    rw [List.flatMap_cons, ih]
    by_cases le : c ≤ lastPoint
    · rw [List.filter_cons_of_pos (by simpa using le), List.flatMap_cons,
        ← jsonPoint_eq_flatMap_unitsOf le]
    · rw [List.filter_cons_of_neg (by simpa using le), jsonPoint_of_lt (by omega),
        List.nil_append]

theorem length_le_flatMap_jsonPoint {us : List Nat} (all : ∀ u ∈ us, u < 0x10000) :
    us.length ≤ (us.flatMap Text.jsonPoint).length := by
  induction us with
  | nil => exact Nat.le_refl _
  | cons u us ih =>
    obtain ⟨first, others⟩ := List.forall_mem_cons.mp all
    have some := List.length_pos_iff.mpr (jsonPoint_ne_nil first)
    have := ih others
    rw [List.flatMap_cons, List.length_append, List.length_cons]
    omega

theorem lt_of_mem_unitsOf {u : Nat} (le : c ≤ lastPoint) (mem : u ∈ unitsOf c) : u < 0x10000 := by
  unfold lastPoint at le
  unfold unitsOf at mem
  split at mem
  · next small => exact List.mem_singleton.mp mem ▸ small
  · simp only [List.mem_cons, List.not_mem_nil, or_false] at mem
    omega

/-- A text is read as it was written, but with its surrogate pairs joined. -/
theorem readText?_flatMap (points rest : List Nat) :
    readText? (points.flatMap Text.jsonPoint ++ 0x22 :: rest) =
      some ((⟨points⟩ : Text).joined, rest) := by
  have valid : ∀ c ∈ points.filter fun c => c ≤ lastPoint, c ≤ lastPoint := fun c mem => by
    simpa using (List.mem_filter.mp mem).2
  have small : ∀ u ∈ (points.filter fun c => c ≤ lastPoint).flatMap unitsOf, u < 0x10000 := by
    intro u mem
    obtain ⟨c, hc, hu⟩ := List.mem_flatMap.mp mem
    exact lt_of_mem_unitsOf (valid c hc) hu
  have joins := joinPairs_flatMap_unitsOf valid
  rw [readText?, flatMap_jsonPoint_eq]
  generalize (points.filter fun c => c ≤ lastPoint).flatMap unitsOf = us at small joins
  have long : us.length < (us.flatMap Text.jsonPoint ++ 0x22 :: rest).length := by
    have := length_le_flatMap_jsonPoint small
    rw [List.length_append, List.length_cons]
    omega
  rw [readUnits?_flatMap small long, Option.map_some]
  simp only [joins, Text.joined]

/-! ## Documents -/

/-- Induction on a document, with the documents that stand in it. -/
@[elab_as_elim]
theorem parts_induction {motive : Document → Prop} (number : ∀ n, motive (.number n))
    (text : ∀ t, motive (.text t)) (list : ∀ items, (∀ d ∈ items, motive d) → motive (.list items))
    (object : ∀ members, (∀ m ∈ members, motive m.2) → motive (.object members)) :
    (d : Document) → motive d
  | .number n => number n
  | .text t => text t
  | .list items => list items fun d _ => parts_induction number text list object d
  | .object members => object members fun m _ => parts_induction number text list object m.2
termination_by d => sizeOf d
decreasing_by
  · next mem =>
    have := List.sizeOf_lt_of_mem mem
    rw [Document.list.sizeOf_spec]
    omega
  · next mem =>
    have := List.sizeOf_lt_of_mem mem
    obtain ⟨name, e⟩ := m
    rw [Prod.mk.sizeOf_spec] at this
    rw [Document.object.sizeOf_spec]
    show sizeOf e < 1 + sizeOf members
    omega

theorem exists_points_ofNat (n : Nat) :
    ∃ c digits, (Text.ofNat n).points = c :: digits ∧ 0x30 ≤ c ∧ c ≤ 0x39 := by
  obtain ⟨c, digits, same⟩ := List.exists_cons_of_ne_nil (points_ofNat_ne_nil n)
  exact ⟨c, digits, same, Text.digit_of_mem_ofNat (same ▸ List.mem_cons_self)⟩

/-- A digit is no blank and no bracket. -/
theorem isBlank_of_digit (lo : 0x30 ≤ c) (hi : c ≤ 0x39) : isBlank c = false := by
  simp only [isBlank, Bool.or_eq_false_iff, decide_eq_false_iff_not]
  omega

/-- A value begins with something that is neither a blank nor closes a list. -/
theorem exists_points_render (d : Document) (level : Nat) :
    ∃ c points, (d.render level).points = c :: points ∧ isBlank c = false ∧ c ≠ 0x5D := by
  cases d with
  | number n =>
    obtain ⟨c, digits, same, lo, hi⟩ := exists_points_ofNat n
    exact ⟨c, digits, by rw [render, same], isBlank_of_digit lo hi, by omega⟩
  | text t => exact ⟨_, _, by rw [render]; rfl, rfl, by decide⟩
  | list items =>
    cases items with
    | nil => exact ⟨_, _, by rw [render]; rfl, rfl, by decide⟩
    | cons d items => exact ⟨_, _, by rw [render]; rfl, rfl, by decide⟩
  | object members =>
    cases members with
    | nil => exact ⟨_, _, by rw [render]; rfl, rfl, by decide⟩
    | cons m members => exact ⟨_, _, by rw [render]; rfl, rfl, by decide⟩

/-- To read a value takes fuel. -/
theorem exists_fuel {d : Document} {level fuel : Nat} (long : (d.render level).points.length ≤ fuel) :
    ∃ less, fuel = less + 1 := by
  obtain ⟨c, points, begins, -, -⟩ := exists_points_render d level
  rw [begins, List.length_cons] at long
  exact Nat.exists_eq_add_one_of_ne_zero (by omega)

/-- What stands between items: a comma, and the blanks of a new line. -/
theorem points_join_cons (separator t u : Text) (ts : List Text) :
    (Text.join separator (t :: u :: ts)).points =
      t.points ++ separator.points ++ (Text.join separator (u :: ts)).points := by
  rw [Text.join, Text.points_append, Text.points_append]

/-- The points of a list or an object that is not empty. -/
theorem points_bracketed {opening closing : Text} {level : Nat} {items : List Text}
    (some : items ≠ []) : (bracketed opening closing level items).points =
      opening.points ++ ((newLine (level + 1)).points ++
        ((Text.join ("," ++ newLine (level + 1)) items).points ++
          ((newLine level).points ++ closing.points))) := by
  rw [bracketed, if_neg (by simpa using some)]
  simp only [Text.points_append, List.append_assoc]

/-- What stands between brackets is shorter than what is bracketed. -/
theorem length_join_lt {opening closing : Text} (first : 0 < opening.points.length) {level : Nat}
    {items : List Text} (some : items ≠ []) :
    (Text.join ("," ++ newLine (level + 1)) items).points.length + 1 <
      (bracketed opening closing level items).points.length := by
  have feed : 0 < (newLine level).points.length := Nat.succ_pos _
  rw [points_bracketed some]
  simp only [List.length_append]
  omega

/-- The points of an object's member and what follows it. -/
theorem points_member (name : Text) (written : Text) (rest : List Nat) :
    (name.jsonQuoted ++ ": " ++ written).points ++ rest =
      0x22 :: (name.points.flatMap Text.jsonPoint ++
        0x22 :: 0x3A :: ([0x20] ++ (written.points ++ rest))) := by
  simp [Text.jsonQuoted]

theorem skipBlanks_newLine (level : Nat) (rest : List Nat) :
    skipBlanks ((newLine level).points ++ rest) = skipBlanks rest :=
  skipBlanks_append (isBlank_of_mem_newLine level)

theorem skipBlanks_comma (rest : List Nat) : skipBlanks (0x2C :: rest) = 0x2C :: rest :=
  skipBlanks_cons rfl

theorem exists_points_join (separator t : Text) (ts : List Text) :
    ∃ more, (Text.join separator (t :: ts)).points = t.points ++ more := by
  cases ts with
  | nil => exact ⟨[], (List.append_nil _).symm⟩
  | cons u ts => exact ⟨_, by rw [points_join_cons, List.append_assoc]⟩

/-- A comma and the blanks of a new line, with what follows them. -/
theorem points_separator (level : Nat) (rest : List Nat) :
    (("," : Text) ++ newLine level).points ++ rest = 0x2C :: ((newLine level).points ++ rest) := rfl

section Heads

variable {inner : List Nat} {fuel : Nat}

theorem readValue?_text (all : ∀ c ∈ blanks, isBlank c = true) :
    readValue? (fuel + 1) (blanks ++ 0x22 :: inner) =
      (readText? inner).map fun (t, rest) => (.text t, rest) := by
  rw [readValue?, skipBlanks_append all, skipBlanks_cons rfl]
  rfl

theorem readValue?_list (all : ∀ c ∈ blanks, isBlank c = true)
    (more : (skipBlanks inner).head? ≠ some 0x5D) :
    readValue? (fuel + 1) (blanks ++ 0x5B :: inner) =
      (readItems? fuel inner).map fun (ds, rest) => (.list ds, rest) := by
  rw [readValue?, skipBlanks_append all, skipBlanks_cons rfl]
  exact if_neg more

theorem readValue?_object (all : ∀ c ∈ blanks, isBlank c = true)
    (more : (skipBlanks inner).head? ≠ some 0x7D) :
    readValue? (fuel + 1) (blanks ++ 0x7B :: inner) =
      (readMembers? fuel inner).map fun (ms, rest) => (.object ms, rest) := by
  rw [readValue?, skipBlanks_append all, skipBlanks_cons rfl]
  exact if_neg more

theorem readMembers?_cons {name : Text} (all : ∀ c ∈ blanks, isBlank c = true) :
    readMembers? (fuel + 1) (blanks ++ 0x22 :: (name.points.flatMap Text.jsonPoint ++ 0x22 :: inner)) =
      if (skipBlanks inner).head? = some 0x3A then do
        let (d, rest) ← readValue? fuel (skipBlanks inner).tail
        match skipBlanks rest with
        | [] => none
        | c :: rest =>
          if c = 0x2C then
            (readMembers? fuel rest).map fun (ms, rest) => ((name.joined, d) :: ms, rest)
          else if c = 0x7D then some ([(name.joined, d)], rest)
          else none
      else none := by
  rw [readMembers?, skipBlanks_append all, skipBlanks_cons rfl, List.head?_cons, if_pos rfl,
    List.tail_cons, readText?_flatMap, Option.bind_eq_bind, Option.bind_some]

theorem readValue?_number {n : Nat} (all : ∀ c ∈ blanks, isBlank c = true) (ends : EndsNumber rest) :
    readValue? (fuel + 1) (blanks ++ ((Text.ofNat n).points ++ rest)) = some (.number n, rest) := by
  have read := readNumber?_ofNat (n := n) ends
  obtain ⟨c, digits, same, lo, hi⟩ := exists_points_ofNat n
  rw [same, List.cons_append] at read
  rw [same, List.cons_append, readValue?, skipBlanks_append all,
    skipBlanks_cons (isBlank_of_digit lo hi)]
  simp only
  rw [if_neg (by omega), if_neg (by omega), if_neg (by omega), read]
  rfl

end Heads

/-- The text of the document, wherever it stands, is read as the document with its texts joined. -/
def IsReadBack (d : Document) : Prop :=
  ∀ (level fuel : Nat) (blanks rest : List Nat), (∀ c ∈ blanks, isBlank c = true) →
    EndsNumber rest → (d.render level).points.length ≤ fuel →
    readValue? fuel (blanks ++ ((d.render level).points ++ rest)) = some (d.joined, rest)

/-- Items are read up to the bracket that closes their list. -/
theorem readItems?_renderItems {d : Document} {items : List Document}
    (reads : ∀ e ∈ d :: items, e.IsReadBack) (level outer fuel : Nat) (rest : List Nat)
    (all : ∀ c ∈ blanks, isBlank c = true)
    (long : (Text.join ("," ++ newLine level) (renderItems level (d :: items))).points.length <
      fuel) :
    readItems? fuel (blanks ++
      ((Text.join ("," ++ newLine level) (renderItems level (d :: items))).points ++
        ((newLine outer).points ++ 0x5D :: rest))) = some (joinedItems (d :: items), rest) := by
  induction items generalizing d fuel blanks with
  | nil =>
    obtain ⟨fuel, rfl⟩ := Nat.exists_eq_add_one_of_ne_zero (Nat.ne_zero_of_lt long)
    have first := reads d List.mem_cons_self level fuel blanks _ all
      (endsNumber_newLine outer (0x5D :: rest)) (Nat.le_of_lt_succ long)
    rw [readItems?, renderItems, renderItems, Text.join, first, Option.bind_eq_bind,
      Option.bind_some]
    simp only [skipBlanks_newLine]
    rfl
  | cons e items ih =>
    obtain ⟨fuel, rfl⟩ := Nat.exists_eq_add_one_of_ne_zero (Nat.ne_zero_of_lt long)
    obtain ⟨first, others⟩ := List.forall_mem_cons.mp reads
    rw [renderItems, renderItems, points_join_cons, ← renderItems] at long ⊢
    have comma : (Text.ofString ",").points.length = 1 := rfl
    simp only [List.length_append, Text.points_append] at long
    have inner := ih others fuel (isBlank_of_mem_newLine level) (by omega)
    rw [readItems?, List.append_assoc, List.append_assoc, points_separator,
      first level fuel blanks _ all (fun c mem => by cases mem; rfl) (by omega),
      Option.bind_eq_bind, Option.bind_some]
    simp only [skipBlanks_comma, if_true]
    rw [inner]
    rfl

/-- Members are read up to the brace that closes their object. -/
theorem readMembers?_renderMembers {name : Text} {d : Document} {members : List (Text × Document)}
    (reads : ∀ m ∈ (name, d) :: members, m.2.IsReadBack) (level outer fuel : Nat)
    (rest : List Nat)
    (all : ∀ c ∈ blanks, isBlank c = true)
    (long : (Text.join ("," ++ newLine level)
      (renderMembers level ((name, d) :: members))).points.length < fuel) :
    readMembers? fuel (blanks ++
      ((Text.join ("," ++ newLine level) (renderMembers level ((name, d) :: members))).points ++
        ((newLine outer).points ++ 0x7D :: rest))) =
      some (joinedMembers ((name, d) :: members), rest) := by
  have space : ∀ c ∈ [0x20], isBlank c = true := by decide
  induction members generalizing name d fuel blanks with
  | nil =>
    obtain ⟨fuel, rfl⟩ := Nat.exists_eq_add_one_of_ne_zero (Nat.ne_zero_of_lt long)
    rw [renderMembers, renderMembers, Text.join] at long ⊢
    simp only [List.length_append, Text.points_append] at long
    have own : d.IsReadBack := reads (name, d) List.mem_cons_self
    have value := own level fuel [0x20] _ space (endsNumber_newLine outer (0x7D :: rest)) (by omega)
    rw [points_member, readMembers?_cons all, skipBlanks_cons rfl, List.head?_cons, if_pos rfl,
      List.tail_cons, value, Option.bind_eq_bind, Option.bind_some]
    simp only [skipBlanks_newLine]
    rfl
  | cons m members ih =>
    obtain ⟨fuel, rfl⟩ := Nat.exists_eq_add_one_of_ne_zero (Nat.ne_zero_of_lt long)
    obtain ⟨next, e⟩ := m
    have own : d.IsReadBack := reads (name, d) List.mem_cons_self
    have others := (List.forall_mem_cons.mp reads).2
    rw [renderMembers, renderMembers, points_join_cons, ← renderMembers] at long ⊢
    have comma : (Text.ofString ",").points.length = 1 := rfl
    simp only [List.length_append, Text.points_append] at long
    have inner := ih others fuel (isBlank_of_mem_newLine level) (by omega)
    rw [List.append_assoc, List.append_assoc, points_member, readMembers?_cons all,
      skipBlanks_cons rfl, List.head?_cons, if_pos rfl, List.tail_cons, points_separator,
      own level fuel [0x20] _ space (fun c mem => by cases mem; rfl) (by omega),
      Option.bind_eq_bind, Option.bind_some]
    simp only [skipBlanks_comma, if_true]
    rw [inner]
    rfl

theorem isReadBack_list {items : List Document} (reads : ∀ e ∈ items, e.IsReadBack) :
    (list items).IsReadBack := by
  intro level fuel blanks rest all _ long
  obtain ⟨fuel, rfl⟩ := exists_fuel long
  cases items with
  | nil =>
    rw [readValue?, skipBlanks_append all]
    rfl
  | cons e items =>
    rw [render] at long
    have some : renderItems (level + 1) (e :: items) ≠ [] := List.cons_ne_nil _ _
    have short := Nat.lt_of_lt_of_le (length_join_lt (by decide) some) long
    have read := readItems?_renderItems reads (level + 1) level fuel rest
      (isBlank_of_mem_newLine (level + 1)) (Nat.lt_of_succ_lt_succ short)
    -- behind the bracket stands the first item, and not the bracket that closes the list
    obtain ⟨more, joins⟩ := exists_points_join ("," ++ newLine (level + 1))
      (e.render (level + 1)) (renderItems (level + 1) items)
    obtain ⟨c, points, begins, solid, other⟩ := exists_points_render e (level + 1)
    have opens : (skipBlanks ((newLine (level + 1)).points ++
        ((Text.join ("," ++ newLine (level + 1)) (renderItems (level + 1) (e :: items))).points ++
          ((newLine level).points ++ 0x5D :: rest)))).head? ≠ Option.some 0x5D := by
      rw [skipBlanks_newLine, renderItems, joins, begins, List.cons_append, List.cons_append,
        skipBlanks_cons solid]
      simpa using other
    have written : ((list (e :: items)).render level).points ++ rest =
        0x5B :: ((newLine (level + 1)).points ++
          ((Text.join ("," ++ newLine (level + 1)) (renderItems (level + 1) (e :: items))).points ++
            ((newLine level).points ++ 0x5D :: rest))) := by
      rw [render, points_bracketed some]
      simp
    rw [written, readValue?_list all opens, read]
    rfl

theorem isReadBack_object {members : List (Text × Document)}
    (reads : ∀ m ∈ members, m.2.IsReadBack) : (object members).IsReadBack := by
  intro level fuel blanks rest all _ long
  obtain ⟨fuel, rfl⟩ := exists_fuel long
  cases members with
  | nil =>
    rw [readValue?, skipBlanks_append all]
    rfl
  | cons m members =>
    obtain ⟨name, e⟩ := m
    rw [render] at long
    have some : renderMembers (level + 1) ((name, e) :: members) ≠ [] := List.cons_ne_nil _ _
    have short := Nat.lt_of_lt_of_le (length_join_lt (by decide) some) long
    have read := readMembers?_renderMembers reads (level + 1) level fuel rest
      (isBlank_of_mem_newLine (level + 1)) (Nat.lt_of_succ_lt_succ short)
    obtain ⟨more, joins⟩ := exists_points_join ("," ++ newLine (level + 1))
      (name.jsonQuoted ++ ": " ++ e.render (level + 1)) (renderMembers (level + 1) members)
    have opens : (skipBlanks ((newLine (level + 1)).points ++
        ((Text.join ("," ++ newLine (level + 1))
          (renderMembers (level + 1) ((name, e) :: members))).points ++
            ((newLine level).points ++ 0x7D :: rest)))).head? ≠ Option.some 0x7D := by
      rw [skipBlanks_newLine, renderMembers, joins, List.append_assoc, points_member,
        skipBlanks_cons rfl]
      simp
    have written : ((object ((name, e) :: members)).render level).points ++ rest =
        0x7B :: ((newLine (level + 1)).points ++
          ((Text.join ("," ++ newLine (level + 1))
            (renderMembers (level + 1) ((name, e) :: members))).points ++
              ((newLine level).points ++ 0x7D :: rest))) := by
      rw [render, points_bracketed some]
      simp
    rw [written, readValue?_object all opens, read]
    rfl

theorem isReadBack (d : Document) : d.IsReadBack := by
  induction d using parts_induction with
  | number n =>
    intro level fuel blanks rest all ends long
    obtain ⟨fuel, rfl⟩ := exists_fuel long
    rw [render, readValue?_number all ends]
    rfl
  | text t =>
    intro level fuel blanks rest all _ long
    obtain ⟨fuel, rfl⟩ := exists_fuel long
    rw [render, Text.jsonQuoted, List.cons_append, List.cons_append, readValue?_text all,
      List.append_assoc, List.singleton_append, readText?_flatMap]
    rfl
  | list items ih => exact isReadBack_list ih
  | object members ih => exact isReadBack_object ih

/-- Reading the text of a document gives the document with its texts joined. -/
theorem read?_render (d : Document) : read? (d.render 0 ++ "\n") = some d.joined := by
  have value := d.isReadBack 0 (d.render 0 ++ "\n").points.length [] [0x0A]
    (List.forall_mem_nil _) (fun c mem => by cases mem; rfl)
    (by rw [Text.points_append, List.length_append]; exact Nat.le_add_right _ _)
  have whole : (d.render 0 ++ "\n").points = [] ++ ((d.render 0).points ++ [0x0A]) := rfl
  rw [← whole] at value
  rw [read?, value]
  rfl

/-! ## ASCII -/

theorem isAscii_hex (h : n < 0x10000) : (⟨Text.hex 4 n⟩ : Text).IsAscii := by
  intro c mem
  rcases List.mem_append.mp mem with mem | mem
  · rw [List.eq_of_mem_replicate mem]
    decide
  · have digit := (toDigits_sixteen 3 h).1 c mem
    obtain ⟨-, le, -⟩ | ⟨-, le, -⟩ | ⟨-, le, -⟩ | ⟨none, -⟩ := digitValue?_cases c
    · omega
    · omega
    · omega
    · rw [isDigitOf, none] at digit
      cases digit

theorem isAscii_jsonPoint (c : Nat) : (⟨Text.jsonPoint c⟩ : Text).IsAscii := by
  have escape {e : Nat} (ascii : e < 0x80) : (⟨[0x5C, e]⟩ : Text).IsAscii := by
    simpa [Text.IsAscii] using ascii
  have number {u : Nat} (h : u < 0x10000) :
      (⟨0x5C :: 0x75 :: Text.hex 4 u⟩ : Text).IsAscii := by
    simpa [Text.IsAscii] using isAscii_hex h
  unfold Text.jsonPoint
  split_ifs with mark feed ret tab back form plain small valid
  · refine escape ?_
    simp only [Bool.or_eq_true, decide_eq_true_eq] at mark
    omega
  · exact escape (by decide)
  · exact escape (by decide)
  · exact escape (by decide)
  · exact escape (by decide)
  · exact escape (by decide)
  · simp only [Bool.and_eq_true, decide_eq_true_eq] at plain
    simp only [Text.IsAscii, List.mem_singleton, forall_eq]
    omega
  · exact number small
  · exact Text.isAscii_append (number (by omega)) (number (by omega))
  · simp [Text.IsAscii]

theorem isAscii_jsonQuoted (t : Text) : t.jsonQuoted.IsAscii := by
  intro c mem
  simp only [Text.jsonQuoted, List.cons_append, List.mem_cons, List.mem_append, List.mem_flatMap,
    List.not_mem_nil, or_false] at mem
  obtain rfl | ⟨p, -, mem⟩ | rfl := mem
  · decide
  · exact isAscii_jsonPoint p c mem
  · decide

theorem isAscii_newLine (level : Nat) : (newLine level).IsAscii := by
  intro c mem
  rcases List.mem_cons.mp mem with rfl | mem
  · decide
  · rw [List.eq_of_mem_replicate mem]
    decide

theorem isAscii_bracketed {opening closing : Text} (hopening : opening.IsAscii)
    (hclosing : closing.IsAscii) (level : Nat) {items : List Text}
    (hitems : ∀ t ∈ items, t.IsAscii) : (bracketed opening closing level items).IsAscii := by
  rw [bracketed]
  split
  · exact Text.isAscii_append hopening hclosing
  · have separator : (("," : Text) ++ newLine (level + 1)).IsAscii :=
      Text.isAscii_append (by decide) (isAscii_newLine _)
    exact Text.isAscii_append (Text.isAscii_append (Text.isAscii_append
      (Text.isAscii_append hopening (isAscii_newLine _)) (Text.isAscii_join separator hitems))
        (isAscii_newLine _)) hclosing

theorem renderItems_eq (level : Nat) (items : List Document) :
    renderItems level items = items.map (render level) := by
  induction items with
  | nil => rfl
  | cons d items ih => rw [renderItems, ih, List.map_cons]

theorem renderMembers_eq (level : Nat) (members : List (Text × Document)) :
    renderMembers level members =
      members.map fun m => m.1.jsonQuoted ++ (": " : Text) ++ m.2.render level := by
  induction members with
  | nil => rfl
  | cons m members ih => rw [renderMembers, ih, List.map_cons]

/-- The text of a document holds ASCII characters only. -/
theorem isAscii_render (level : Nat) (d : Document) : (d.render level).IsAscii := by
  induction d using parts_induction generalizing level with
  | number n =>
    intro c mem
    rw [render] at mem
    have := Text.digit_of_mem_ofNat mem
    omega
  | text t =>
    rw [render]
    exact isAscii_jsonQuoted t
  | list items ih =>
    rw [render, renderItems_eq]
    refine isAscii_bracketed (by decide) (by decide) level (List.forall_mem_map.mpr ?_)
    exact fun e mem => ih e mem (level + 1)
  | object members ih =>
    rw [render, renderMembers_eq]
    refine isAscii_bracketed (by decide) (by decide) level (List.forall_mem_map.mpr ?_)
    exact fun m mem => Text.isAscii_append
      (Text.isAscii_append (isAscii_jsonQuoted m.1) (by decide)) (ih m mem (level + 1))

end Parts

end Document

end FreeNames
