import BeamMP.Common.Bytes

/-!
# The tags of the server as a list

`SplitString` and `TagsAsPrettyArray`. The splitting loop looks for the next byte
that is no separator and for the separator after it, so empty pieces are
skipped. An index outside the vector has no value here.
-/
namespace BeamMP

/-- `s.find_first_not_of(c, pos)`, where no position is `npos`. -/
def Bytes.findFirstNotOf (s : Bytes) (c : Char) (pos : Option ℕ) : Option ℕ :=
  pos.bind fun pos => ((s.drop pos).findIdx? (· != c.toUInt8)).map (· + pos)

/-- The non-empty pieces of a string between separators, in order. -/
def pieces (delim : Char) (str : Bytes) : List Bytes :=
  (str.splitOn delim.toUInt8).filter (!·.isEmpty)

/-- The loop of `SplitString` from `end` on, giving up after a number of rounds. -/
def splitLoop (str : Bytes) (delim : Char) : ℕ → Option ℕ → List Bytes → Option (List Bytes)
  | 0, _, _ => none
  | rounds + 1, stop, out =>
    match str.findFirstNotOf delim stop with
    | none => some out
    | some start =>
      let stop := str.find delim start
      splitLoop str delim rounds stop (out ++ [str.substr start (stop.map (· - start))])

/-- `SplitString`. Every round passes a byte, so its loop ends in time. -/
def splitString (str : Bytes) (delim : Char) (out : List Bytes) : Option (List Bytes) :=
  splitLoop str delim (str.length + 1) (some 0) out

/-- `size() - 1` of a container, a `size_t` that wraps around for an empty one. -/
def lastIndex (tagsArray : List Bytes) : ℕ :=
  if tagsArray.length = 0 then 2 ^ 64 - 1 else tagsArray.length - 1

/-- A tag in quotes. -/
def quoted (tag : Bytes) : Bytes := ascii "\"" ++ tag ++ ascii "\""

/-- The rounds that are left of the loop of `TagsAsPrettyArray`, from index `i` on. -/
def prettyLoop (tagsArray : List Bytes) : ℕ → ℕ → Bytes → Option Bytes
  | 0, _, pretty => some pretty
  | rounds + 1, i, pretty => do
    let tag ← tagsArray[i]?
    prettyLoop tagsArray rounds (i + 1) (pretty ++ quoted tag ++ ascii ", ")

/-- `TagsAsPrettyArray` for the `General_Tags` of the settings. -/
def tagsAsPrettyArray (tags : Bytes) : Option Bytes := do
  let tagsArray ← splitString tags ',' []
  let pretty ← prettyLoop tagsArray (lastIndex tagsArray) 0 []
  let last ← tagsArray[lastIndex tagsArray]?
  some (pretty ++ quoted last)

/-- The list the tags are meant to be shown as. -/
def prettyArray (tags : List Bytes) : Bytes := (ascii ", ").intercalate (tags.map quoted)

section Pieces

variable {delim : Char} {s t : Bytes}

@[simp] theorem pieces_nil : pieces delim [] = [] := by simp [pieces]

theorem pieces_append_cons :
    pieces delim (s ++ delim.toUInt8 :: t) = pieces delim s ++ pieces delim t := by
  simp [pieces, List.splitOn_append_cons_self]

@[simp] theorem pieces_cons_self : pieces delim (delim.toUInt8 :: t) = pieces delim t :=
  pieces_append_cons (s := [])

theorem pieces_of_not_mem (hs : delim.toUInt8 ∉ s) (hne : s ≠ []) : pieces delim s = [s] := by
  simp [pieces, List.splitOn_eq_singleton hs, hne]

theorem pieces_append_of_forall (hs : ∀ b ∈ s, b = delim.toUInt8) :
    pieces delim (s ++ t) = pieces delim t := by
  induction s with
  | nil => rfl
  | cons b s ih =>
    obtain rfl := hs b List.mem_cons_self
    rw [List.cons_append, pieces_cons_self]
    exact ih fun c hc => hs c (List.mem_cons_of_mem _ hc)

theorem pieces_of_forall (hs : ∀ b ∈ s, b = delim.toUInt8) : pieces delim s = [] := by
  have h := pieces_append_of_forall (t := []) hs
  rwa [List.append_nil, pieces_nil] at h

/-- A string that starts with a byte of a piece is this piece, up to a separator. -/
theorem pieces_of_find {stop : ℕ} (hne : s.head? ≠ some delim.toUInt8)
    (h : s.find delim 0 = some stop) :
    pieces delim s = s.take stop :: pieces delim (s.drop stop) ∧ 0 < stop := by
  obtain ⟨piece, rest, rfl, hpiece, rfl⟩ := Bytes.exists_of_find_eq_some h
  have hnonempty : piece ≠ [] := by
    rintro rfl
    exact hne rfl
  refine ⟨?_, List.length_pos_iff.mpr hnonempty⟩
  rw [pieces_append_cons, pieces_of_not_mem hpiece hnonempty, List.take_left, List.drop_left,
    pieces_cons_self]
  rfl

end Pieces

/-- The first byte from a position on that is no separator, and what comes before it. -/
theorem Bytes.findFirstNotOf_eq_some {s : Bytes} {c : Char} {pos start : ℕ}
    (h : s.findFirstNotOf c (some pos) = some start) :
    ∃ skipped rest : Bytes, s.drop pos = skipped ++ rest ∧ s.drop start = rest ∧
      pos + skipped.length = start ∧ (∀ b ∈ skipped, b = c.toUInt8) ∧
      ∃ b u, rest = b :: u ∧ b ≠ c.toUInt8 := by
  simp only [findFirstNotOf, Option.bind_some, Option.map_eq_some_iff] at h
  obtain ⟨i, hi, rfl⟩ := h
  obtain ⟨hlt, hfound, hbefore⟩ := List.findIdx?_eq_some_iff_getElem.mp hi
  refine ⟨(s.drop pos).take i, (s.drop pos).drop i, (List.take_append_drop _ _).symm, ?_, ?_, ?_,
    (s.drop pos)[i], (s.drop pos).drop (i + 1), List.drop_eq_getElem_cons hlt,
    by simpa using hfound⟩
  · rw [List.drop_drop, Nat.add_comm]
  · rw [List.length_take, Nat.min_eq_left hlt.le, Nat.add_comm]
  · intro b hb
    obtain ⟨j, hj, rfl⟩ := List.mem_take_iff_getElem.mp hb
    simpa using hbefore j (by omega)

theorem Bytes.findFirstNotOf_eq_none {s : Bytes} {c : Char} {pos : ℕ}
    (h : s.findFirstNotOf c (some pos) = none) : ∀ b ∈ s.drop pos, b = c.toUInt8 := by
  simpa [findFirstNotOf] using h

section Split

variable {str : Bytes} {delim : Char}

theorem pieces_ne_nil {b : UInt8} {u : Bytes} (hb : b ≠ delim.toUInt8) :
    pieces delim (b :: u) ≠ [] := by
  cases hfind : Bytes.find (b :: u) delim 0 with
  | none =>
    have habsent := Bytes.find_eq_none_iff.mp hfind
    simp [pieces_of_not_mem habsent]
  | some stop =>
    have hhead : (b :: u).head? ≠ some delim.toUInt8 := by simpa using hb
    simp [(pieces_of_find hhead hfind).1]

theorem pieces_eq_nil_iff : pieces delim str = [] ↔ ∀ b ∈ str, b = delim.toUInt8 := by
  refine ⟨fun h => ?_, pieces_of_forall⟩
  cases hstart : str.findFirstNotOf delim (some 0) with
  | none => exact Bytes.findFirstNotOf_eq_none hstart
  | some start =>
    obtain ⟨skipped, rest, hsplit, -, -, hskipped, b, u, rfl, hb⟩ :=
      Bytes.findFirstNotOf_eq_some hstart
    rw [List.drop_zero] at hsplit
    rw [hsplit, pieces_append_of_forall hskipped] at h
    exact absurd h (pieces_ne_nil hb)

/-- From any position the loop ends and appends the pieces that are left. -/
theorem splitLoop_eq {rounds pos : ℕ} {out : List Bytes} (hpos : pos ≤ str.length)
    (hrounds : str.length < rounds + pos) :
    splitLoop str delim rounds (some pos) out = some (out ++ pieces delim (str.drop pos)) := by
  induction rounds generalizing pos out with
  | zero => omega
  | succ rounds ih =>
    cases hstart : str.findFirstNotOf delim (some pos) with
    | none =>
      have hnone := pieces_of_forall (Bytes.findFirstNotOf_eq_none hstart)
      simp [splitLoop, hstart, hnone]
    | some start =>
      obtain ⟨skipped, rest, hsplit, hrest, hlength, hskipped, b, u, rfl, hb⟩ :=
        Bytes.findFirstNotOf_eq_some hstart
      have hlt : start < str.length := by
        have := congrArg List.length hrest
        simp only [List.length_drop, List.length_cons] at this
        omega
      rw [hsplit, pieces_append_of_forall hskipped]
      simp only [splitLoop, hstart]
      rw [Bytes.find_add, hrest]
      cases hstop : Bytes.find (b :: u) delim 0 with
      | none =>
        -- the last piece: the next round finds nothing behind `npos`
        obtain ⟨more, rfl⟩ : ∃ more, rounds = more + 1 := ⟨rounds - 1, by omega⟩
        have hpiece := pieces_of_not_mem (Bytes.find_eq_none_iff.mp hstop) (List.cons_ne_nil b u)
        simp [splitLoop, Bytes.findFirstNotOf, Bytes.substr, hrest, hpiece]
      | some stop =>
        have hhead : (b :: u).head? ≠ some delim.toUInt8 := by simpa using hb
        obtain ⟨hpiece, hprogress⟩ := pieces_of_find hhead hstop
        have hbound : stop + start ≤ str.length := by
          obtain ⟨piece, tail, heq, -, rfl⟩ := Bytes.exists_of_find_eq_some hstop
          have hdrop := congrArg List.length (hrest.trans heq)
          simp only [List.length_drop, List.length_append, List.length_cons] at hdrop
          omega
        simp only [Option.map_some, Nat.add_sub_cancel]
        rw [ih hbound (by omega), hpiece, Nat.add_comm stop, ← List.drop_drop, hrest]
        simp [Bytes.substr, hrest]

theorem splitString_eq (str : Bytes) (delim : Char) (out : List Bytes) :
    splitString str delim out = some (out ++ pieces delim str) :=
  splitLoop_eq (Nat.zero_le _) (Nat.lt_succ_self _)

end Split

section Pretty

variable {tagsArray : List Bytes}

theorem prettyLoop_eq {rounds i : ℕ} {pretty : Bytes} (h : i + rounds ≤ tagsArray.length) :
    prettyLoop tagsArray rounds i pretty =
      some (pretty ++ ((tagsArray.drop i).take rounds).flatMap
        fun tag => quoted tag ++ ascii ", ") := by
  induction rounds generalizing i pretty with
  | zero => simp [prettyLoop]
  | succ rounds ih =>
    have hlt : i < tagsArray.length := by omega
    rw [prettyLoop, List.getElem?_eq_getElem hlt, Option.bind_eq_bind, Option.bind_some,
      ih (by omega), List.drop_eq_getElem_cons hlt]
    simp only [List.take_succ_cons, List.flatMap_cons, List.append_assoc]

theorem prettyLoop_nil (rounds : ℕ) (pretty : Bytes) :
    prettyLoop [] (rounds + 1) 0 pretty = none := rfl

theorem prettyArray_append_singleton (tags : List Bytes) (last : Bytes) :
    prettyArray (tags ++ [last]) =
      tags.flatMap (fun tag => quoted tag ++ ascii ", ") ++ quoted last := by
  induction tags with
  | nil => simp [prettyArray]
  | cons tag tags ih =>
    have hne : (tags ++ [last]).map quoted ≠ [] := by simp
    rw [List.flatMap_cons, List.append_assoc, ← ih, prettyArray, List.cons_append, List.map_cons,
      List.intercalate_cons_of_ne_nil hne, List.append_assoc, List.append_assoc]
    rfl

theorem tagsAsPrettyArray_of_pieces {tags : Bytes} (h : pieces ',' tags ≠ []) :
    tagsAsPrettyArray tags = some (prettyArray (pieces ',' tags)) := by
  rcases List.eq_nil_or_concat (pieces ',' tags) with hnil | ⟨front, last, hsplit⟩
  · exact absurd hnil h
  · rw [List.concat_eq_append] at hsplit
    have hlast : lastIndex (front ++ [last]) = front.length := by simp [lastIndex]
    simp only [tagsAsPrettyArray, splitString_eq, List.nil_append, hsplit, hlast,
      Option.bind_eq_bind, Option.bind_some]
    rw [prettyLoop_eq (by simp), prettyArray_append_singleton]
    simp

theorem tagsAsPrettyArray_of_no_piece {tags : Bytes} (h : pieces ',' tags = []) :
    tagsAsPrettyArray tags = none := by
  simp only [tagsAsPrettyArray, splitString_eq, List.nil_append, h, Option.bind_eq_bind,
    Option.bind_some]
  rw [show lastIndex [] = (2 ^ 64 - 2) + 1 by rfl, prettyLoop_nil]
  rfl

end Pretty

/-- `SplitString` is exact for every string; the list of tags is exact, and made without an index
outside the vector, if and only if some byte of the tags is not a comma. -/
theorem tags_pretty_iff (tags : Bytes) :
    (∀ str delim out, splitString str delim out = some (out ++ pieces delim str)) ∧
    (tagsAsPrettyArray tags = some (prettyArray (pieces ',' tags)) ↔
      ∃ b ∈ tags, b ≠ ','.toUInt8) := by
  refine ⟨splitString_eq, ?_⟩
  have hsome : (∃ b ∈ tags, b ≠ ','.toUInt8) ↔ pieces ',' tags ≠ [] := by
    simp [pieces_eq_nil_iff]
  rw [hsome]
  refine ⟨fun h hnone => ?_, tagsAsPrettyArray_of_pieces⟩
  rw [tagsAsPrettyArray_of_no_piece hnone] at h
  cases h

/-- Without tags the loop bound wraps around and the first round reads outside the vector. -/
theorem empty_tags_read_outside :
    tagsAsPrettyArray [] ≠ some (prettyArray (pieces ',' [])) := by
  simp [tagsAsPrettyArray_of_no_piece]

example :
    tagsAsPrettyArray (ascii ",Freeroam,,Modded") = some (ascii "\"Freeroam\", \"Modded\"") := by
  decide

end BeamMP
