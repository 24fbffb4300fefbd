import CrossReference.Proofs.Text.Assembly
import CrossReference.Source.Lines
import Mathlib.Data.String.Basic

/-!
# Positions in a text

Lines are counted by the newline bytes of a text. Where they start is found by reading characters,
and a position by looking among the starts; here both are compared with the bytes alone.

* `Text.newlinesBefore` counts newline bytes, and `Lines.StartsAt` says from it where a line starts.
* `Lines.length_takeWhile_starts` is the search among the starts, and `Lines.starts_eq_some_iff`
  says that the starts are those of the lines.
* `Lines.exists_cut` cuts a text around a line, between characters.
* `Lines.positions_and_lines_exact` is the result.
-/

namespace CrossReference

/-! ## Newline bytes -/

namespace Text

/-- The bytes of a text. -/
def bytes (text : String) : List UInt8 :=
  text.toByteArray.data.toList

/-- How many of the bytes before an offset are newlines. -/
def newlinesBefore (text : String) (offset : Nat) : Nat :=
  ((bytes text).take offset).count 10

theorem bytes_eq_flatMap (text : String) :
    bytes text = text.toList.flatMap String.utf8EncodeChar := by
  rw [bytes, ← String.utf8Encode_toList, List.utf8Encode, List.toList_data_toByteArray]

theorem utf8EncodeChar_newline : String.utf8EncodeChar '\n' = [10] := rfl

/-- No byte of another character is a newline: what does not stand for itself has its high bit
set. -/
theorem newline_not_mem_utf8EncodeChar {c : Char} (h : c ≠ '\n') :
    10 ∉ String.utf8EncodeChar c := by
  have hval : c.val.toNat ≠ 10 := fun hval => h (Char.ext (UInt32.toNat_inj.1 hval))
  have hbyte : ∀ n : Nat, n % 256 ≠ 10 → (10 : UInt8) ≠ UInt8.ofNat n := by
    intro n hn heq
    have hnat := congrArg UInt8.toNat heq
    rw [UInt8.toNat_ofNat'] at hnat
    exact hn hnat.symm
  unfold String.utf8EncodeChar
  simp only
  split
  · simp only [List.mem_singleton]
    exact hbyte _ (by omega)
  · split
    · simp only [List.mem_cons, List.not_mem_nil, or_false, not_or]
      exact ⟨hbyte _ (by omega), hbyte _ (by omega)⟩
    · split
      · simp only [List.mem_cons, List.not_mem_nil, or_false, not_or]
        exact ⟨hbyte _ (by omega), hbyte _ (by omega), hbyte _ (by omega)⟩
      · simp only [List.mem_cons, List.not_mem_nil, or_false, not_or]
        exact ⟨hbyte _ (by omega), hbyte _ (by omega), hbyte _ (by omega), hbyte _ (by omega)⟩

theorem newlinesBefore_mono (text : String) {a b : Nat} (h : a ≤ b) :
    newlinesBefore text a ≤ newlinesBefore text b :=
  (List.take_sublist_take_left h).count_le 10

/-! ## Slices -/

theorem dropBytes?_cons (n : Nat) (c : Char) (cs : List Char) :
    dropBytes? (n + c.utf8Size) (c :: cs) = dropBytes? n cs := by
  have hpos := c.utf8Size_pos
  obtain ⟨k, hk⟩ : ∃ k, n + c.utf8Size = k + 1 := ⟨n + c.utf8Size - 1, by omega⟩
  rw [hk, dropBytes?, if_pos (by omega), ← hk, Nat.add_sub_cancel]

theorem takeBytes?_cons (n : Nat) (c : Char) (cs : List Char) :
    takeBytes? (n + c.utf8Size) (c :: cs) = (takeBytes? n cs).map (c :: ·) := by
  have hpos := c.utf8Size_pos
  obtain ⟨k, hk⟩ : ∃ k, n + c.utf8Size = k + 1 := ⟨n + c.utf8Size - 1, by omega⟩
  rw [hk, takeBytes?, if_pos (by omega), ← hk, Nat.add_sub_cancel]

theorem dropBytes?_append (xs ys : List Char) :
    dropBytes? (String.utf8Len xs) (xs ++ ys) = some ys := by
  induction xs with
  | nil => simp [dropBytes?]
  | cons c xs ih => rw [String.utf8Len_cons, List.cons_append, dropBytes?_cons, ih]

theorem takeBytes?_append (xs ys : List Char) :
    takeBytes? (String.utf8Len xs) (xs ++ ys) = some xs := by
  induction xs with
  | nil => simp [takeBytes?]
  | cons c xs ih =>
      rw [String.utf8Len_cons, List.cons_append, takeBytes?_cons, ih]
      rfl

theorem utf8Len_toList (text : String) : String.utf8Len text.toList = text.utf8ByteSize := by
  rw [← String.utf8ByteSize_ofList, String.ofList_toList]

/-- A slice between two parts of a text. -/
theorem slice?_append (before middle after : String) :
    slice? (before ++ middle ++ after) before.utf8ByteSize (before ++ middle).utf8ByteSize =
      some middle := by
  rw [String.utf8ByteSize_append, slice?, if_pos (Nat.le_add_right _ _), String.toList_append,
    String.toList_append, List.append_assoc, ← utf8Len_toList before, dropBytes?_append]
  simp only [Nat.add_sub_cancel_left]
  rw [← utf8Len_toList middle, takeBytes?_append, Option.map_some, String.ofList_toList]

end Text

/-- `p` stands before `q`: on an earlier line, or on the same line in an earlier column. -/
def Position.Before (p q : Position) : Prop :=
  p.line < q.line ∨ p.line = q.line ∧ p.column < q.column

namespace Lines

open CrossReference.Text

/-! ## Where lines start -/

/-- Line `line` starts at `start`, the first offset with so many newlines before it. -/
def StartsAt (text : String) (line start : Nat) : Prop :=
  newlinesBefore text start = line ∧ ∀ offset < start, newlinesBefore text offset < line

theorem bounds_of_mem_startsAfter {offset x : Nat} {cs : List Char}
    (h : x ∈ startsAfter offset cs) : offset < x ∧ x ≤ offset + String.utf8Len cs := by
  induction cs generalizing offset with
  | nil => exact absurd h List.not_mem_nil
  | cons c cs ih =>
      have hpos := c.utf8Size_pos
      rw [String.utf8Len_cons]
      rw [startsAfter] at h
      split at h
      · rcases List.mem_cons.1 h with rfl | h
        · omega
        · have := ih h
          omega
      · have := ih h
        omega

theorem pairwise_startsAfter (offset : Nat) (cs : List Char) :
    (startsAfter offset cs).Pairwise (· < ·) := by
  induction cs generalizing offset with
  | nil => exact List.Pairwise.nil
  | cons c cs ih =>
      rw [startsAfter]
      split
      · exact List.pairwise_cons.2 ⟨fun _ hx => (bounds_of_mem_startsAfter hx).1, ih _⟩
      · exact ih _

theorem pairwise_starts (text : String) : (ofText text).starts.Pairwise (· < ·) :=
  List.pairwise_cons.2
    ⟨fun _ hx => (bounds_of_mem_startsAfter hx).1, pairwise_startsAfter 0 text.toList⟩

theorem takeWhile_eq_nil_of_lt {xs : List Nat} {bound : Nat} (h : ∀ x ∈ xs, bound < x) :
    xs.takeWhile (· ≤ bound) = [] := by
  cases xs with
  | nil => rfl
  | cons x xs => exact List.takeWhile_cons_of_neg (by simpa using h x List.mem_cons_self)

theorem takeWhile_startsAfter_eq_nil {offset bound : Nat} {cs : List Char} (h : bound ≤ offset) :
    (startsAfter offset cs).takeWhile (· ≤ bound) = [] :=
  takeWhile_eq_nil_of_lt fun _ hx => Nat.lt_of_le_of_lt h (bounds_of_mem_startsAfter hx).1

/-- So many of the lines that open later have begun as there are newlines among the bytes that were
passed. -/
theorem length_takeWhile_startsAfter (offset passed : Nat) (cs : List Char) :
    ((startsAfter offset cs).takeWhile (· ≤ offset + passed)).length =
      ((cs.flatMap String.utf8EncodeChar).take passed).count 10 := by
  induction cs generalizing offset passed with
  | nil => simp [startsAfter]
  | cons c cs ih =>
      rw [startsAfter, List.flatMap_cons, List.take_append, List.count_append,
        String.length_utf8EncodeChar]
      have hrest : ((startsAfter (offset + c.utf8Size) cs).takeWhile
          (· ≤ offset + passed)).length =
            ((cs.flatMap String.utf8EncodeChar).take (passed - c.utf8Size)).count 10 := by
        rw [← ih (offset + c.utf8Size)]
        by_cases hle : c.utf8Size ≤ passed
        · rw [Nat.add_assoc, Nat.add_sub_cancel' hle]
        · rw [takeWhile_startsAfter_eq_nil (by omega), takeWhile_startsAfter_eq_nil (by omega)]
      by_cases hc : c = '\n'
      · subst hc
        have hsize : '\n'.utf8Size = 1 := rfl
        rw [if_pos rfl, utf8EncodeChar_newline, hsize]
        rw [hsize] at hrest
        cases passed with
        | zero => simp
        | succ passed =>
            rw [List.takeWhile_cons_of_pos (by simp), List.length_cons, hrest]
            simp [Nat.add_comm]
      · have hnone : ((String.utf8EncodeChar c).take passed).count 10 = 0 :=
          List.count_eq_zero.2 fun hmem =>
            newline_not_mem_utf8EncodeChar hc (List.mem_of_mem_take hmem)
        rw [if_neg hc, hrest, hnone, Nat.zero_add]

/-- The search for an offset among the starts passes the first line and one for each newline before
the offset. -/
theorem length_takeWhile_starts (text : String) (offset : Nat) :
    ((ofText text).starts.takeWhile (· ≤ offset)).length = newlinesBefore text offset + 1 := by
  have hafter := length_takeWhile_startsAfter 0 offset text.toList
  rw [Nat.zero_add, ← bytes_eq_flatMap] at hafter
  rw [ofText, List.takeWhile_cons_of_pos (by simp), List.length_cons, hafter, newlinesBefore]

section Search

variable {xs : List Nat} {x : Nat} {k : Nat}

theorem exists_getElem?_of_takeWhile {p : Nat → Bool} (h : (xs.takeWhile p).length = k + 1) :
    ∃ x, xs[k]? = some x ∧ p x = true := by
  have hlt : k < (xs.takeWhile p).length := by omega
  refine ⟨(xs.takeWhile p)[k], ?_, List.mem_takeWhile_imp (List.getElem_mem hlt)⟩
  obtain ⟨rest, hrest⟩ := List.takeWhile_prefix (l := xs) p
  rw [← List.getElem?_eq_getElem hlt, ← List.getElem?_append_left hlt, hrest]

/-- In an increasing list the search for an element passes it and stops right after. -/
theorem length_takeWhile_of_getElem? (hxs : xs.Pairwise (· < ·)) (h : xs[k]? = some x) :
    (xs.takeWhile (· ≤ x)).length = k + 1 := by
  induction xs generalizing k with
  | nil => exact absurd h (by simp)
  | cons y ys ih =>
      obtain ⟨hy, hys⟩ := List.pairwise_cons.1 hxs
      cases k with
      | zero =>
          obtain rfl : y = x := by simpa using h
          simp [takeWhile_eq_nil_of_lt hy]
      | succ k =>
          have htail : ys[k]? = some x := by simpa using h
          have hlt := hy x (List.mem_of_getElem? htail)
          rw [List.takeWhile_cons_of_pos (by simpa using hlt.le), List.length_cons, ih hys htail]

/-- The search for something smaller stops before. -/
theorem length_takeWhile_le_of_getElem? {y : Nat} (h : xs[k]? = some x) (hy : y < x) :
    (xs.takeWhile (· ≤ y)).length ≤ k := by
  by_contra hlong
  have hk : k < (xs.takeWhile (· ≤ y)).length := by omega
  obtain ⟨rest, hrest⟩ := List.takeWhile_prefix (l := xs) (· ≤ y)
  have hget : (xs.takeWhile (· ≤ y))[k] = x := by
    rw [← hrest, List.getElem?_append_left hk, List.getElem?_eq_getElem hk] at h
    exact Option.some.inj h
  have hle := List.mem_takeWhile_imp (List.getElem_mem hk)
  simp only [hget, decide_eq_true_eq] at hle
  omega

end Search

/-- The starts are those of the lines. -/
theorem starts_eq_some_iff {text : String} {line start : Nat} :
    (ofText text).starts[line]? = some start ↔ StartsAt text line start := by
  have hcount := length_takeWhile_starts text
  have hforward : ∀ {start}, (ofText text).starts[line]? = some start →
      StartsAt text line start := by
    intro start h
    refine ⟨?_, fun offset hoffset => ?_⟩
    · have := length_takeWhile_of_getElem? (pairwise_starts text) h
      rw [hcount] at this
      omega
    · have := length_takeWhile_le_of_getElem? h hoffset
      rw [hcount] at this
      omega
  refine ⟨hforward, fun h => ?_⟩
  obtain ⟨first, hfirst, hle⟩ :=
    exists_getElem?_of_takeWhile (k := line) (h.1 ▸ hcount start)
  have hfirst' := hforward hfirst
  -- Both are the least offset with so many newlines before it.
  rcases Nat.lt_or_ge first start with hlt | hge
  · exact absurd hfirst'.1 (Nat.ne_of_lt (h.2 first hlt))
  · rw [hfirst, Nat.le_antisymm (by simpa using hle) hge]

theorem StartsAt.unique {text : String} {line start start' : Nat} (h : StartsAt text line start)
    (h' : StartsAt text line start') : start = start' :=
  Option.some.inj ((starts_eq_some_iff.2 h).symm.trans (starts_eq_some_iff.2 h'))

/-- There is one line more than there are newlines. -/
theorem count_ofText (text : String) :
    (ofText text).count = newlinesBefore text text.utf8ByteSize + 1 := by
  have hall : (ofText text).starts.takeWhile (· ≤ text.utf8ByteSize) = (ofText text).starts := by
    refine List.takeWhile_eq_self_iff.2 fun x hx => ?_
    rcases List.mem_cons.1 hx with rfl | hx
    · simp
    · have hle := (bounds_of_mem_startsAfter hx).2
      rw [Nat.zero_add, ← String.utf8ByteSize_ofList, String.ofList_toList] at hle
      simpa using hle
  rw [count, ← length_takeWhile_starts, hall]

/-! ## Positions -/

theorem line_position (text : String) (offset : Nat) :
    ((ofText text).position offset).line =
      newlinesBefore text (min offset text.utf8ByteSize) := by
  simp only [position, length_takeWhile_starts, Nat.add_sub_cancel]
  rfl

theorem line_position_lt (text : String) (offset : Nat) :
    ((ofText text).position offset).line < (ofText text).count := by
  rw [line_position, count_ofText]
  exact Nat.lt_succ_of_le (newlinesBefore_mono text (Nat.min_le_right _ _))

/-- A column counts from the start of its line. -/
theorem exists_start_position (text : String) (offset : Nat) :
    ∃ start, StartsAt text ((ofText text).position offset).line start ∧
      start + ((ofText text).position offset).column = min offset text.utf8ByteSize := by
  obtain ⟨start, hstart, hle⟩ :=
    exists_getElem?_of_takeWhile (length_takeWhile_starts text (min offset text.utf8ByteSize))
  have hline := line_position text offset
  refine ⟨start, starts_eq_some_iff.1 (hline ▸ hstart), ?_⟩
  have hcolumn : ((ofText text).position offset).column =
      min offset text.utf8ByteSize - start := by
    show _ - (ofText text).starts.getD ((ofText text).position offset).line 0 = _
    rw [hline, List.getD_eq_getElem?_getD, hstart]
    rfl
  rw [hcolumn]
  exact Nat.add_sub_cancel' (by simpa using hle)

theorem position_of_size_le {text : String} {offset : Nat} (h : text.utf8ByteSize ≤ offset) :
    (ofText text).position offset = (ofText text).position text.utf8ByteSize := by
  have hsize : (ofText text).size = text.utf8ByteSize := rfl
  simp only [position, hsize, Nat.min_eq_right h, Nat.min_self]

theorem position_before {text : String} {a b : Nat} (hab : a < b) (hb : b ≤ text.utf8ByteSize) :
    ((ofText text).position a).Before ((ofText text).position b) := by
  obtain ⟨start, hstart, hcolumn⟩ := exists_start_position text a
  obtain ⟨start', hstart', hcolumn'⟩ := exists_start_position text b
  have hle : ((ofText text).position a).line ≤ ((ofText text).position b).line := by
    rw [line_position, line_position]
    exact newlinesBefore_mono text (by omega)
  rcases Nat.lt_or_eq_of_le hle with hlt | heq
  · exact .inl hlt
  · obtain rfl := hstart.unique (heq ▸ hstart')
    exact .inr ⟨heq, by omega⟩

/-! ## Texts of lines -/

/-- Line `line` stops at `stop`: where the next line starts, or with the text. -/
def StopsAt (text : String) (line stop : Nat) : Prop :=
  StartsAt text (line + 1) stop ∨
    newlinesBefore text text.utf8ByteSize = line ∧ stop = text.utf8ByteSize

/-- A text cut around one of its lines. -/
structure Cut (text : String) (line : Nat) where
  before : String
  body : String
  ending : String
  after : String
  text_eq : text = before ++ body ++ ending ++ after
  startsAt : StartsAt text line before.utf8ByteSize
  stopsAt : StopsAt text line (before ++ body ++ ending).utf8ByteSize
  /-- The body has no newline in it. -/
  newline_not_mem : '\n' ∉ body.toList
  /-- The ending is made of carriage returns and newlines. -/
  ending_eq : ∀ c ∈ ending.toList, c = '\n' ∨ c = '\r'
  /-- Nothing of the ending is left in the body. -/
  isTerminator_getLast? : ∀ c ∈ body.toList.getLast?, isTerminator c = false

/-- Characters that begin at `offset` have a line from `start` to `stop`, with ends between
characters and no newline before its last character. -/
def HasLine (offset : Nat) (cs : List Char) (start stop : Nat) : Prop :=
  ∃ before middle after, cs = before ++ middle ++ after ∧
    start = offset + String.utf8Len before ∧ stop = start + String.utf8Len middle ∧
    '\n' ∉ middle.dropLast

/-- A character before a line. -/
theorem HasLine.cons {offset start stop : Nat} {cs : List Char} (c : Char)
    (h : HasLine (offset + c.utf8Size) cs start stop) : HasLine offset (c :: cs) start stop := by
  obtain ⟨before, middle, after, rfl, hstart, hstop, hnewline⟩ := h
  refine ⟨c :: before, middle, after, rfl, ?_, hstop, hnewline⟩
  rw [String.utf8Len_cons]
  omega

/-- A character in front of the first line belongs to it. -/
theorem HasLine.cons_first {offset stop : Nat} {cs : List Char} {c : Char} (hc : c ≠ '\n')
    (h : HasLine (offset + c.utf8Size) cs (offset + c.utf8Size) stop) :
    HasLine offset (c :: cs) offset stop := by
  obtain ⟨before, middle, after, rfl, hstart, hstop, hnewline⟩ := h
  obtain rfl : before = [] := String.utf8Len_eq_zero.1 (by omega)
  refine ⟨[], c :: middle, after, rfl, rfl, ?_, ?_⟩
  · rw [String.utf8Len_cons]
    omega
  · cases middle with
    | nil => simp
    | cons d middle =>
        rw [List.dropLast_cons_of_ne_nil (List.cons_ne_nil d middle), List.mem_cons, not_or]
        exact ⟨Ne.symm hc, hnewline⟩

/-- Neighbouring starts are the ends of a line. -/
theorem hasLine_of_getElem? {offset line start : Nat} {cs : List Char}
    (h : (offset :: startsAfter offset cs)[line]? = some start) :
    HasLine offset cs start
      ((offset :: startsAfter offset cs).getD (line + 1) (offset + String.utf8Len cs)) := by
  induction cs generalizing offset line start with
  | nil =>
      cases line with
      | zero =>
          obtain rfl : offset = start := by simpa using h
          exact ⟨[], [], [], rfl, rfl, rfl, List.not_mem_nil⟩
      | succ line => exact absurd h (by simp [startsAfter])
  | cons c cs ih =>
      have hend : offset + String.utf8Len (c :: cs) =
          offset + c.utf8Size + String.utf8Len cs := by
        rw [String.utf8Len_cons]
        omega
      rw [hend]
      by_cases hc : c = '\n'
      · rw [startsAfter, if_pos hc] at h ⊢
        cases line with
        | zero =>
            obtain rfl : offset = start := by simpa using h
            refine ⟨[], [c], cs, rfl, rfl, ?_, List.not_mem_nil⟩
            simp
        | succ line => exact (ih h).cons c
      · rw [startsAfter, if_neg hc] at h ⊢
        cases line with
        | zero =>
            obtain rfl : offset = start := by simpa using h
            have hfirst : ((offset + c.utf8Size) :: startsAfter (offset + c.utf8Size) cs)[0]? =
                some (offset + c.utf8Size) := rfl
            exact (ih hfirst).cons_first hc
        | succ line =>
            have hlater :
                ((offset + c.utf8Size) :: startsAfter (offset + c.utf8Size) cs)[line + 1]? =
                  some start := h
            exact (ih hlater).cons c

/-- What is left of a line without its terminator has no newline. -/
theorem newline_not_mem_trimEnd {middle : String} (h : '\n' ∉ middle.toList.dropLast) :
    '\n' ∉ (trimEnd isTerminator middle).toList := by
  obtain ⟨ending, -, hlast, hmiddle⟩ := exists_trimEnd isTerminator middle
  rw [hmiddle, String.toList_append] at h
  intro hmem
  rcases List.eq_nil_or_concat' ending.toList with hnil | ⟨front, c, hending⟩
  · -- Nothing was trimmed, and the last character is no newline either.
    rw [hnil, List.append_nil] at h
    rcases List.eq_nil_or_concat' (trimEnd isTerminator middle).toList with
      hbody | ⟨front, c, hbody⟩
    · exact List.not_mem_nil (hbody ▸ hmem)
    · rw [hbody, List.dropLast_concat] at h
      rw [hbody, List.mem_append, List.mem_singleton] at hmem
      rcases hmem with hmem | rfl
      · exact h hmem
      · exact absurd (hlast '\n' (by simp [hbody])) (by decide)
  · rw [hending, ← List.append_assoc, List.dropLast_concat] at h
    exact h (List.mem_append_left _ hmem)

theorem stopsAt_getD {text : String} {line : Nat} (h : line < (ofText text).count) :
    StopsAt text line ((ofText text).starts.getD (line + 1) text.utf8ByteSize) := by
  rw [List.getD_eq_getElem?_getD]
  cases hnext : (ofText text).starts[line + 1]? with
  | some stop => exact .inl (starts_eq_some_iff.1 hnext)
  | none =>
      have hlast : (ofText text).count ≤ line + 1 := List.getElem?_eq_none_iff.1 hnext
      rw [count_ofText] at h hlast
      exact .inr ⟨by omega, rfl⟩

/-- A text falls into what is before a line, the line with its newline, and what is after it. -/
theorem exists_split {text : String} {line : Nat} (h : line < (ofText text).count) :
    ∃ before middle after : String, text = before ++ middle ++ after ∧
      (ofText text).starts[line]? = some before.utf8ByteSize ∧
      (ofText text).starts.getD (line + 1) text.utf8ByteSize = (before ++ middle).utf8ByteSize ∧
      '\n' ∉ middle.toList.dropLast := by
  have hstart : (ofText text).starts[line]? = some (ofText text).starts[line] :=
    List.getElem?_eq_getElem h
  obtain ⟨before, middle, after, htext, hbefore, hmiddle, hnewline⟩ := hasLine_of_getElem? hstart
  rw [Nat.zero_add] at hbefore
  rw [Nat.zero_add, utf8Len_toList, hbefore] at hmiddle
  refine ⟨.ofList before, .ofList middle, .ofList after, ?_, ?_, ?_, ?_⟩
  · rw [← String.ofList_append, ← String.ofList_append, ← htext, String.ofList_toList]
  · rw [hstart, hbefore, String.utf8ByteSize_ofList]
  · rw [String.utf8ByteSize_append, String.utf8ByteSize_ofList, String.utf8ByteSize_ofList]
    exact hmiddle
  · rwa [String.toList_ofList]

/-- Every line has a text. -/
theorem exists_cut {text : String} {line : Nat} (h : line < (ofText text).count) :
    ∃ cut : Cut text line, (ofText text).text? text line = some cut.body := by
  obtain ⟨before, middle, after, htext, hstart, hstop, hnewline⟩ := exists_split h
  obtain ⟨ending, hending, hlast, hmiddle⟩ := exists_trimEnd isTerminator middle
  have hbody : before ++ trimEnd isTerminator middle ++ ending = before ++ middle := by
    rw [String.append_assoc, ← hmiddle]
  let cut : Cut text line :=
    { before := before
      body := trimEnd isTerminator middle
      ending := ending
      after := after
      text_eq := by rw [hbody, htext]
      startsAt := starts_eq_some_iff.1 hstart
      stopsAt := by
        rw [hbody, ← hstop]
        exact stopsAt_getD h
      newline_not_mem := newline_not_mem_trimEnd hnewline
      ending_eq := fun c hc => by simpa [isTerminator] using hending c hc
      isTerminator_getLast? := hlast }
  refine ⟨cut, ?_⟩
  have hslice : slice? text before.utf8ByteSize (before ++ middle).utf8ByteSize = some middle := by
    rw [htext]
    exact slice?_append before middle after
  have hsize : (ofText text).size = text.utf8ByteSize := rfl
  simp only [text?, hstart, hsize, hstop, hslice, Option.map_some, cut]

theorem text?_eq_none {text : String} {line : Nat} (h : (ofText text).count ≤ line) :
    (ofText text).text? text line = none := by
  have hnone : (ofText text).starts[line]? = none := List.getElem?_eq_none h
  simp only [text?, hnone]

/-! ## The result -/

/-- The position of an offset tells the newlines before it and how far it is from the start of its
line. Positions increase with the offsets up to the end of the text, and offsets beyond stand for
the end. Each line has the text from its start to its terminator, and there are no other lines. -/
theorem positions_and_lines_exact (text : String) :
    (∀ offset ≤ text.utf8ByteSize,
      ((ofText text).position offset).line = newlinesBefore text offset ∧
      ∃ start, StartsAt text ((ofText text).position offset).line start ∧
        start + ((ofText text).position offset).column = offset) ∧
    (∀ a b, a < b → b ≤ text.utf8ByteSize →
      ((ofText text).position a).Before ((ofText text).position b)) ∧
    (∀ offset, text.utf8ByteSize ≤ offset →
      (ofText text).position offset = (ofText text).position text.utf8ByteSize) ∧
    (∀ line < (ofText text).count,
      ∃ cut : Cut text line, (ofText text).text? text line = some cut.body) ∧
    (∀ line, (ofText text).count ≤ line → (ofText text).text? text line = none) ∧
    (ofText text).count = newlinesBefore text text.utf8ByteSize + 1 := by
  refine ⟨fun offset hoffset => ?_, fun _ _ => position_before, fun _ => position_of_size_le,
    fun _ => exists_cut, fun _ => text?_eq_none, count_ofText text⟩
  have hmin : min offset text.utf8ByteSize = offset := Nat.min_eq_left hoffset
  have hline := line_position text offset
  have hstart := exists_start_position text offset
  rw [hmin] at hline hstart
  exact ⟨hline, hstart⟩

/-- Three lines: a wide character before a carriage return and a newline, then a letter before a
newline, then nothing. -/
def mixedEndings : String := "é\r\nb\n"

theorem mixedEndings_positions_and_lines :
    let lines := ofText mixedEndings
    (4 ≤ mixedEndings.utf8ByteSize ∧
      (lines.position 4).line = newlinesBefore mixedEndings 4 ∧
      ∃ start, StartsAt mixedEndings (lines.position 4).line start ∧
        start + (lines.position 4).column = 4) ∧
    (3 < 4 ∧ (lines.position 3).Before (lines.position 4)) ∧
    (mixedEndings.utf8ByteSize ≤ 99 ∧
      lines.position 99 = lines.position mixedEndings.utf8ByteSize) ∧
    (1 < lines.count ∧ ∃ cut : Cut mixedEndings 1, lines.text? mixedEndings 1 = some cut.body) ∧
    lines.count ≤ 3 ∧ lines.text? mixedEndings 3 = none := by
  obtain ⟨hposition, hbefore, hend, hline, hnone, -⟩ := positions_and_lines_exact mixedEndings
  have hsize : mixedEndings.utf8ByteSize = 6 := by decide
  have hcount : (ofText mixedEndings).count = 3 := by decide
  exact ⟨⟨by omega, hposition 4 (by omega)⟩, ⟨by omega, hbefore 3 4 (by omega) (by omega)⟩,
    ⟨by omega, hend 99 (by omega)⟩, ⟨by omega, hline 1 (by omega)⟩, by omega, hnone 3 (by omega)⟩

example : (ofText mixedEndings).position 4 = ⟨1, 0⟩ ∧
    (ofText mixedEndings).text? mixedEndings 0 = some "é" := by
  decide

end Lines
end CrossReference
