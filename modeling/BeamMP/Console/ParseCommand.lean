import BeamMP.Common.Bytes
import BeamMP.Foundation.Iteration

/-!
# Splitting a console command

`ParseCommand` cuts the command off at the first space and walks a pointer over
the rest. Blanks end an argument, except that the pointer jumps from a quote to the
next one of its kind, if there is one. Every test and every increment is a step of
its own here, and reading a byte behind the end has no next state.
-/
namespace BeamMP

/-- The three quote characters, in the order they are tried. -/
def quotes : Bytes := ascii "\"'`"

theorem isSpace_of_mem_quotes : ∀ q ∈ quotes, isSpace q = false := by
  have hall : quotes.all (!isSpace ·) = true := by decide
  simpa using hall

/-- Where `ParseCommand` is: before the loop over the arguments, in the loop over blanks, in the
loop over the bytes of an argument, in the search for a closing quote, or at its end. -/
inductive ParseLoc
  | args
  | blanks
  | word
  | seek (quote : UInt8) (seeker : ℕ)
  | returned
deriving DecidableEq

structure ParseState where
  loc : ParseLoc
  prevPtr : ℕ
  ptr : ℕ
  args : List Bytes
deriving DecidableEq

/-- `Arg` without the quotes it is enclosed in; a lone quote leaves nothing. -/
def stripQuotes (arg : Bytes) : Bytes :=
  match quotes.find? fun quote => arg.head? = some quote ∧ arg.getLast? = some quote with
  | some _ => arg.substr 1 (if arg.length < 2 then none else some (arg.length - 2))
  | none => arg

namespace ParseState

variable (s : Bytes) (st : ParseState)

/-- The end of one argument. -/
def pushArg : ParseState :=
  let arg := stripQuotes (s.substr st.prevPtr (some (st.ptr - st.prevPtr)))
  { st with loc := .args, args := if arg = [] then st.args else st.args ++ [arg] }

/-- One step over `ArgsStr`, whose length is `End`. -/
def step : Option ParseState :=
  match st.loc with
  | .args =>
    if st.ptr ≠ s.length then some { st with loc := .blanks }
    else some { st with loc := .returned }
  | .blanks =>
    if st.ptr ≠ s.length then do
      let b ← s[st.ptr]?
      if isSpace b then some { st with ptr := st.ptr + 1 }
      else some { st with prevPtr := st.ptr, loc := .word }
    else some { st with prevPtr := st.ptr, loc := .word }
  | .word =>
    if st.ptr ≠ s.length then do
      let b ← s[st.ptr]?
      if isSpace b then some (st.pushArg s)
      else
        match quotes.find? (· = b) with
        | some quote => some { st with loc := .seek quote (st.ptr + 1) }
        | none => some { st with ptr := st.ptr + 1 }
    else some (st.pushArg s)
  | .seek quote seeker =>
    if seeker ≠ s.length then do
      let b ← s[seeker]?
      if b ≠ quote then some { st with loc := .seek quote (seeker + 1) }
      else some { st with ptr := seeker + 1, loc := .word }
    else some { st with ptr := st.ptr + 1, loc := .word }
  | .returned => some st

def start : ParseState where
  loc := .args
  prevPtr := 0
  ptr := 0
  args := []

/-- A bound on the steps that are left: a round over an argument is paid for by the bytes the
pointer passes, and the search for a closing quote by the bytes behind the pointer. -/
def stepsLeft : ℕ :=
  (s.length - st.ptr) * (s.length + 8) +
    match st.loc with
    | .args => if s[st.ptr]?.all isSpace then 3 else s.length + 8
    | .blanks => if s[st.ptr]?.any isSpace then 2 else s.length + 6
    | .word => s.length + 4
    | .seek _ seeker => s.length - seeker + 2
    | .returned => 0

/-- The pointers are in order and inside the string, and no argument is empty. -/
structure InBounds : Prop where
  prevPtr_le : st.prevPtr ≤ st.ptr
  ptr_le : st.ptr ≤ s.length
  seeker : ∀ quote seeker, st.loc = .seek quote seeker → st.ptr < seeker ∧ seeker ≤ s.length
  args_ne_nil : ∀ arg ∈ st.args, arg ≠ []

end ParseState

/-- The loops of `ParseCommand` over `ArgsStr`. -/
def parseArgs (argsStr : Bytes) : Option (List Bytes) := do
  let st ← Iteration.iterate (ParseState.step argsStr)
    (ParseState.start.stepsLeft argsStr) ParseState.start
  if st.loc = .returned then some st.args else none

/-- `ArgsStr`, which is empty without a space. -/
def argsStr (commandWithArgs : Bytes) : Bytes :=
  match commandWithArgs.find ' ' 0 with
  | some i => commandWithArgs.substr i none
  | none => []

def parseCommand (commandWithArgs : Bytes) : Option (Bytes × List Bytes) := do
  let command := commandWithArgs.substr 0 (commandWithArgs.find ' ' 0)
  let args ← parseArgs (argsStr commandWithArgs)
  some (command, args)

namespace ParseState

variable {s : Bytes} {st t : ParseState}

theorem start_inBounds (s : Bytes) : start.InBounds s where
  prevPtr_le := le_rfl
  ptr_le := Nat.zero_le _
  seeker := by
    intro quote seeker h
    cases h
  args_ne_nil := List.forall_mem_nil _

/-- The bytes the pointer passes pay for a round. -/
theorem round_paid {n p p' : ℕ} (h : p < p') (hn : p' ≤ n) :
    (n - p') * (n + 8) + (n + 8) ≤ (n - p) * (n + 8) := by
  rw [← Nat.succ_mul]
  exact Nat.mul_le_mul_right _ (by omega)

theorem pushArg_inBounds (h : st.InBounds s) : (st.pushArg s).InBounds s where
  prevPtr_le := h.prevPtr_le
  ptr_le := h.ptr_le
  seeker := by
    intro quote seeker hloc
    cases hloc
  args_ne_nil := by
    intro arg harg
    simp only [pushArg] at harg
    split_ifs at harg with hempty
    · exact h.args_ne_nil arg harg
    · rcases List.mem_append.mp harg with harg | harg
      · exact h.args_ne_nil arg harg
      · rw [List.mem_singleton.mp harg]
        exact hempty

/-- What a step that is not the last one does to the pointers, and to the bound. -/
def Advances (s : Bytes) (st : ParseState) : Prop :=
  ∃ t, st.step s = some t ∧ t.InBounds s ∧ t.stepsLeft s < st.stepsLeft s

section Steps

variable {prev p k : ℕ} {args : List Bytes} {quote : UInt8}

theorem advances_args (h : InBounds s ⟨.args, prev, p, args⟩) :
    Advances s ⟨.args, prev, p, args⟩ := by
  by_cases hend : p = s.length
  · refine ⟨⟨.returned, prev, p, args⟩, by simp [step, hend], ?_, by simp [stepsLeft, hend]⟩
    exact { h with seeker := by simp }
  · have hlt : p < s.length := Nat.lt_of_le_of_ne h.ptr_le hend
    refine ⟨⟨.blanks, prev, p, args⟩, by simp [step, hend], { h with seeker := by simp }, ?_⟩
    simp only [stepsLeft, List.getElem?_eq_getElem hlt, Option.all_some, Option.any_some]
    split_ifs <;> omega

theorem advances_blanks (h : InBounds s ⟨.blanks, prev, p, args⟩) :
    Advances s ⟨.blanks, prev, p, args⟩ := by
  have hword : InBounds s ⟨.word, p, p, args⟩ :=
    { h with prevPtr_le := le_rfl, seeker := by simp }
  by_cases hend : p = s.length
  · exact ⟨⟨.word, p, p, args⟩, by simp [step, hend], hword, by simp [stepsLeft, hend]⟩
  · have hlt : p < s.length := Nat.lt_of_le_of_ne h.ptr_le hend
    by_cases hspace : isSpace s[p] = true
    · refine ⟨⟨.blanks, prev, p + 1, args⟩, by simp [step, hend, hlt, hspace], ?_, ?_⟩
      · exact { h with
          prevPtr_le := Nat.le_succ_of_le h.prevPtr_le
          ptr_le := hlt
          seeker := by simp }
      · have hpaid := round_paid (Nat.lt_add_one p) hlt
        simp only [stepsLeft, List.getElem?_eq_getElem hlt, Option.any_some, hspace, if_true]
        split_ifs <;> omega
    · refine ⟨⟨.word, p, p, args⟩, by simp [step, hend, hlt, hspace], hword, ?_⟩
      simp [stepsLeft, hlt, hspace]

theorem word_inBounds (h : InBounds s ⟨.word, prev, p, args⟩) (hpk : p ≤ k) (hk : k ≤ s.length) :
    InBounds s ⟨.word, prev, k, args⟩ :=
  { h with
    prevPtr_le := h.prevPtr_le.trans hpk
    ptr_le := hk
    seeker := by simp }

theorem advances_word (h : InBounds s ⟨.word, prev, p, args⟩) :
    Advances s ⟨.word, prev, p, args⟩ := by
  by_cases hend : p = s.length
  · refine ⟨pushArg s ⟨.word, prev, p, args⟩, by simp [step, hend], pushArg_inBounds h, ?_⟩
    simp [stepsLeft, pushArg, hend]
  · have hlt : p < s.length := Nat.lt_of_le_of_ne h.ptr_le hend
    by_cases hspace : isSpace s[p] = true
    · refine ⟨pushArg s ⟨.word, prev, p, args⟩, ?_, pushArg_inBounds h, ?_⟩
      · simp [step, hend, hlt, hspace]
      · simp [stepsLeft, pushArg, hlt, hspace]
    · cases hquote : quotes.find? (· = s[p]) with
      | some quote =>
        refine ⟨⟨.seek quote (p + 1), prev, p, args⟩, ?_, ?_, ?_⟩
        · simp [step, hend, hlt, hspace, hquote]
        · refine { h with seeker := ?_ }
          rintro _ _ ⟨⟩
          exact ⟨Nat.lt_succ_self p, hlt⟩
        · simp only [stepsLeft]
          omega
      | none =>
        refine ⟨⟨.word, prev, p + 1, args⟩, ?_, word_inBounds h (Nat.le_succ p) hlt, ?_⟩
        · simp [step, hend, hlt, hspace, hquote]
        · have hpaid := round_paid (Nat.lt_add_one p) hlt
          simp only [stepsLeft]
          omega

theorem advances_seek (h : InBounds s ⟨.seek quote k, prev, p, args⟩) :
    Advances s ⟨.seek quote k, prev, p, args⟩ := by
  obtain ⟨(hpk : p < k), hk⟩ := h.seeker quote k rfl
  have hword : InBounds s ⟨.word, prev, p, args⟩ := { h with seeker := by simp }
  by_cases hend : k = s.length
  · refine ⟨⟨.word, prev, p + 1, args⟩, by simp [step, hend], ?_, ?_⟩
    · exact word_inBounds hword (Nat.le_succ p) (by omega)
    · have hpaid := round_paid (Nat.lt_add_one p) (hpk.trans_le hk)
      simp only [stepsLeft]
      omega
  · have hlt : k < s.length := Nat.lt_of_le_of_ne hk hend
    by_cases hfound : s[k] = quote
    · refine ⟨⟨.word, prev, k + 1, args⟩, by simp [step, hend, hlt, hfound], ?_, ?_⟩
      · exact word_inBounds hword (by omega) hlt
      · have hpaid := round_paid (p := p) (Nat.lt_add_right 1 hpk) hlt
        simp only [stepsLeft]
        omega
    · refine ⟨⟨.seek quote (k + 1), prev, p, args⟩, by simp [step, hend, hlt, hfound], ?_, ?_⟩
      · refine { h with seeker := ?_ }
        rintro _ _ ⟨⟩
        exact ⟨Nat.lt_succ_of_lt hpk, hlt⟩
      · simp only [stepsLeft]
        omega

end Steps

/-- Step lemma: a step never reads outside the string, and keeps the pointers in order. -/
theorem InBounds.advances (h : st.InBounds s) (hrunning : st.loc ≠ .returned) :
    st.Advances s := by
  obtain ⟨loc, prev, p, args⟩ := st
  cases loc with
  | args => exact advances_args h
  | blanks => exact advances_blanks h
  | word => exact advances_word h
  | seek quote k => exact advances_seek h
  | returned => exact absurd rfl hrunning

theorem step_of_returned (h : st.loc = .returned) : st.step s = some st := by
  simp [step, h]

theorem InBounds.exists_step (h : st.InBounds s) : ∃ t, st.step s = some t ∧ t.InBounds s := by
  by_cases hloc : st.loc = .returned
  · exact ⟨st, step_of_returned hloc, h⟩
  · obtain ⟨t, ht, hbounds, -⟩ := h.advances hloc
    exact ⟨t, ht, hbounds⟩

theorem exists_inBounds (s : Bytes) (n : ℕ) :
    ∃ st, Iteration.iterate (ParseState.step s) n start = some st ∧ st.InBounds s :=
  Iteration.exists_iterate (fun _ h => h.exists_step) n (start_inBounds s)

theorem exists_returned (s : Bytes) :
    ∃ st, Iteration.iterate (ParseState.step s) (start.stepsLeft s) start = some st ∧
      st.InBounds s ∧ st.loc = .returned :=
  Iteration.exists_end (fun _ hI hrunning => hI.advances hrunning)
    (fun _ hend => step_of_returned hend) (start_inBounds s) le_rfl

end ParseState

/-- One or more blanks. -/
structure Gap where
  blanks : Bytes
  ne_nil : blanks ≠ []
  isSpace : ∀ b ∈ blanks, isSpace b = true

/-- A single space. -/
def Gap.space : Gap where
  blanks := [32]
  ne_nil := by decide
  isSpace := List.forall_mem_singleton.mpr rfl

/-- An argument and how it is written: bare, or in quotes of a kind it does not contain. -/
structure ConsoleArg where
  value : Bytes
  quote : Option UInt8
  ne_nil : value ≠ []
  bare : quote = none → ∀ b ∈ value, isSpace b = false ∧ b ∉ quotes
  quoted : ∀ q, quote = some q → q ∈ quotes ∧ q ∉ value

namespace ConsoleArg

def text (a : ConsoleArg) : Bytes :=
  match a.quote with
  | none => a.value
  | some q => q :: a.value ++ [q]

theorem exists_text_eq_cons (a : ConsoleArg) :
    ∃ b t, a.text = b :: t ∧ isSpace b = false := by
  unfold text
  split
  · next hquote =>
    obtain ⟨b, t, heq⟩ := List.exists_cons_of_ne_nil a.ne_nil
    exact ⟨b, t, heq, (a.bare hquote b (heq ▸ List.mem_cons_self)).1⟩
  · next q hquote => exact ⟨q, _, rfl, isSpace_of_mem_quotes q (a.quoted q hquote).1⟩

/-- What stands behind the command word. -/
def line : List (Gap × ConsoleArg) → Bytes
  | [] => []
  | (gap, a) :: rest => gap.blanks ++ a.text ++ line rest

def values (args : List (Gap × ConsoleArg)) : List Bytes := args.map (·.2.value)

theorem line_head (args : List (Gap × ConsoleArg)) :
    (line args).head?.all isSpace = true := by
  cases args with
  | nil => rfl
  | cons x rest =>
    obtain ⟨gap, a⟩ := x
    obtain ⟨b, blanks, hblanks⟩ := List.exists_cons_of_ne_nil gap.ne_nil
    have hb := gap.isSpace b (hblanks ▸ List.mem_cons_self)
    simp [line, hblanks, hb]

end ConsoleArg

namespace ParseState

section Scanning

variable (pre post : Bytes) (prev p : ℕ) (args : List Bytes) {w : Bytes} {q : UInt8}

theorem reaches_blanks (hw : ∀ b ∈ w, isSpace b = true) :
    Iteration.Reaches (step (pre ++ w ++ post)) ⟨.blanks, prev, pre.length, args⟩
      ⟨.blanks, prev, (pre ++ w).length, args⟩ := by
  induction w generalizing pre with
  | nil => simpa using Iteration.Reaches.refl _
  | cons b w ih =>
    have hb := hw b List.mem_cons_self
    have htail := ih (pre ++ [b]) fun c hc => hw c (List.mem_cons_of_mem b hc)
    simp only [List.append_assoc, List.cons_append] at htail ⊢
    refine Iteration.Reaches.head ?_ htail
    simp [step, hb]

theorem reaches_bare (hw : ∀ b ∈ w, isSpace b = false ∧ b ∉ quotes) :
    Iteration.Reaches (step (pre ++ w ++ post)) ⟨.word, prev, pre.length, args⟩
      ⟨.word, prev, (pre ++ w).length, args⟩ := by
  induction w generalizing pre with
  | nil => simpa using Iteration.Reaches.refl _
  | cons b w ih =>
    obtain ⟨hspace, hquote⟩ := hw b List.mem_cons_self
    have hnone : quotes.find? (· = b) = none := by
      rw [List.find?_eq_none]
      rintro q hq heq
      exact hquote (of_decide_eq_true heq ▸ hq)
    have htail := ih (pre ++ [b]) fun c hc => hw c (List.mem_cons_of_mem b hc)
    simp only [List.append_assoc, List.cons_append] at htail ⊢
    refine Iteration.Reaches.head ?_ htail
    simp [step, hspace, hnone]

theorem reaches_seek (hw : q ∉ w) :
    Iteration.Reaches (step (pre ++ w ++ post)) ⟨.seek q pre.length, prev, p, args⟩
      ⟨.seek q (pre ++ w).length, prev, p, args⟩ := by
  induction w generalizing pre with
  | nil => simpa using Iteration.Reaches.refl _
  | cons b w ih =>
    obtain ⟨hb, hw⟩ := List.ne_and_not_mem_of_not_mem_cons hw
    have htail := ih (pre ++ [b]) hw
    simp only [List.append_assoc, List.cons_append] at htail ⊢
    refine Iteration.Reaches.head ?_ htail
    simp [step, Ne.symm hb]

theorem find_quotes_of_mem (h : q ∈ quotes) : quotes.find? (· = q) = some q := by
  cases hfind : quotes.find? (· = q) with
  | none =>
    have hnone := List.find?_eq_none.mp hfind q h
    simp at hnone
  | some x => simpa using List.find?_some hfind

/-- From a quote the pointer jumps behind the next one of its kind. -/
theorem reaches_quoted (hq : q ∈ quotes) (hw : q ∉ w) :
    Iteration.Reaches (step (pre ++ (q :: w ++ [q]) ++ post)) ⟨.word, prev, pre.length, args⟩
      ⟨.word, prev, (pre ++ (q :: w ++ [q])).length, args⟩ := by
  have hspace := isSpace_of_mem_quotes q hq
  have hseek := reaches_seek (pre ++ [q]) (q :: post) prev pre.length args hw
  simp only [List.append_assoc, List.cons_append, List.nil_append] at hseek ⊢
  refine Iteration.Reaches.head ?_ (hseek.trans (Iteration.Reaches.head ?_ (.refl _)))
  · simp [step, hspace, find_quotes_of_mem hq]
  · have hquote : (pre ++ q :: (w ++ q :: post))[(pre ++ q :: w).length]? = some q := by
      have hsplit : pre ++ q :: (w ++ q :: post) = (pre ++ q :: w) ++ q :: post := by simp
      rw [hsplit, List.getElem?_append_right le_rfl, Nat.sub_self, List.getElem?_cons_zero]
    simp only [step, hquote]
    simp [Nat.add_assoc]

theorem reaches_text (a : ConsoleArg) :
    Iteration.Reaches (step (pre ++ a.text ++ post)) ⟨.word, prev, pre.length, args⟩
      ⟨.word, prev, (pre ++ a.text).length, args⟩ := by
  unfold ConsoleArg.text
  split
  · next hquote => exact reaches_bare pre post prev args (a.bare hquote)
  · next q hquote =>
    obtain ⟨hq, hmem⟩ := a.quoted q hquote
    exact reaches_quoted pre post prev args hq hmem

theorem stripQuotes_bare (hw : ∀ b ∈ w, isSpace b = false ∧ b ∉ quotes) :
    stripQuotes w = w := by
  have hnone : (quotes.find? fun quote => decide (w.head? = some quote ∧
      w.getLast? = some quote)) = none := by
    rw [List.find?_eq_none]
    intro q hq hends
    have hhead := (of_decide_eq_true hends).1
    exact (hw q (List.mem_of_mem_head? hhead)).2 hq
  simp only [stripQuotes, hnone]

theorem stripQuotes_quoted (hq : q ∈ quotes) : stripQuotes (q :: w ++ [q]) = w := by
  have hsome : (quotes.find? fun quote => decide ((q :: w ++ [q]).head? = some quote ∧
      (q :: w ++ [q]).getLast? = some quote)).isSome = true := by
    rw [List.find?_isSome]
    exact ⟨q, hq, decide_eq_true ⟨rfl, List.getLast?_concat⟩⟩
  obtain ⟨x, hx⟩ := Option.isSome_iff_exists.mp hsome
  simp only [stripQuotes, hx]
  simp [Bytes.substr]

theorem stripQuotes_text (a : ConsoleArg) : stripQuotes a.text = a.value := by
  unfold ConsoleArg.text
  split
  · next hquote => exact stripQuotes_bare (a.bare hquote)
  · next q hquote => exact stripQuotes_quoted (a.quoted q hquote).1

theorem pushArg_text (a : ConsoleArg) :
    pushArg (pre ++ a.text ++ post) ⟨.word, pre.length, (pre ++ a.text).length, args⟩ =
      ⟨.args, pre.length, (pre ++ a.text).length, args ++ [a.value]⟩ := by
  have hsub : Bytes.substr (pre ++ a.text ++ post) pre.length
      (some ((pre ++ a.text).length - pre.length)) = a.text := by
    simp [Bytes.substr]
  simp only [pushArg, hsub, stripQuotes_text, a.ne_nil, if_false]

theorem step_word_end (hpost : post.head?.all isSpace = true) :
    step (pre ++ post) ⟨.word, prev, pre.length, args⟩ =
      some (pushArg (pre ++ post) ⟨.word, prev, pre.length, args⟩) := by
  cases post with
  | nil => simp [step]
  | cons b post =>
    have hb : isSpace b = true := hpost
    simp [step, hb]

theorem reaches_round (x : Gap × ConsoleArg) (hpost : post.head?.all isSpace = true) :
    Iteration.Reaches (step (pre ++ x.1.blanks ++ x.2.text ++ post))
      ⟨.args, prev, pre.length, args⟩
      ⟨.args, (pre ++ x.1.blanks).length, (pre ++ x.1.blanks ++ x.2.text).length,
        args ++ [x.2.value]⟩ := by
  obtain ⟨gap, a⟩ := x
  obtain ⟨b, t, htext, hb⟩ := a.exists_text_eq_cons
  have hround : step (pre ++ gap.blanks ++ a.text ++ post) ⟨.args, prev, pre.length, args⟩ =
      some ⟨.blanks, prev, pre.length, args⟩ := by
    simp [step, gap.ne_nil]
  have hblanks := reaches_blanks pre (a.text ++ post) prev args gap.isSpace
  rw [← List.append_assoc] at hblanks
  have hstart : step (pre ++ gap.blanks ++ a.text ++ post)
      ⟨.blanks, prev, (pre ++ gap.blanks).length, args⟩ =
        some ⟨.word, (pre ++ gap.blanks).length, (pre ++ gap.blanks).length, args⟩ := by
    simp [step, htext, hb]
  have hword := reaches_text (pre ++ gap.blanks) post (pre ++ gap.blanks).length args a
  have hend := step_word_end (pre ++ gap.blanks ++ a.text) post (pre ++ gap.blanks).length args
    hpost
  rw [pushArg_text] at hend
  exact .head hround (hblanks.trans (.head hstart (hword.trans (.head hend (.refl _)))))

theorem reaches_returned (rest : List (Gap × ConsoleArg)) :
    ∃ st,
      Iteration.Reaches (step (pre ++ ConsoleArg.line rest)) ⟨.args, prev, pre.length, args⟩ st ∧
      st.loc = .returned ∧ st.args = args ++ ConsoleArg.values rest := by
  induction rest generalizing pre prev args with
  | nil =>
    refine ⟨⟨.returned, prev, pre.length, args⟩, .head ?_ (.refl _), rfl, ?_⟩
    · simp [step, ConsoleArg.line]
    · simp [ConsoleArg.values]
  | cons x rest ih =>
    have hround := reaches_round pre (ConsoleArg.line rest) prev args x
      (ConsoleArg.line_head rest)
    obtain ⟨st, hst, hloc, hargs⟩ := ih (pre ++ x.1.blanks ++ x.2.text)
      (pre ++ x.1.blanks).length (args ++ [x.2.value])
    have hline : pre ++ ConsoleArg.line (x :: rest) =
        pre ++ x.1.blanks ++ x.2.text ++ ConsoleArg.line rest := by
      simp [ConsoleArg.line]
    rw [hline]
    refine ⟨st, hround.trans hst, hloc, ?_⟩
    rw [hargs]
    simp [ConsoleArg.values]

end Scanning

end ParseState

theorem exists_parseArgs (s : Bytes) :
    ∃ args, parseArgs s = some args ∧ ∀ arg ∈ args, arg ≠ [] := by
  obtain ⟨st, hst, hbounds, hloc⟩ := ParseState.exists_returned s
  refine ⟨st.args, ?_, hbounds.args_ne_nil⟩
  rw [parseArgs, hst, Option.bind_eq_bind, Option.bind_some, if_pos hloc]

theorem parseArgs_line (args : List (Gap × ConsoleArg)) :
    parseArgs (ConsoleArg.line args) = some (ConsoleArg.values args) := by
  obtain ⟨st, hst, -, hloc⟩ := ParseState.exists_returned (ConsoleArg.line args)
  obtain ⟨u, hu, huloc, huargs⟩ := ParseState.reaches_returned [] 0 [] args
  have heq : st = u := Iteration.Reaches.unique ⟨_, hst⟩ hu
    (ParseState.step_of_returned hloc) (ParseState.step_of_returned huloc)
  rw [parseArgs, hst, Option.bind_eq_bind, Option.bind_some, if_pos hloc, heq, huargs]
  rfl

theorem parseCommand_word {word : Bytes} (hword : ' '.toUInt8 ∉ word) :
    parseCommand word = some (word, []) := by
  have hnone := Bytes.find_eq_none_iff.mpr hword
  have hargs : parseArgs [] = some [] := parseArgs_line []
  simp [parseCommand, argsStr, hnone, hargs, Bytes.substr]

theorem parseCommand_line {word : Bytes} (hword : ' '.toUInt8 ∉ word) (first : ConsoleArg)
    (rest : List (Gap × ConsoleArg)) :
    parseCommand (word ++ ConsoleArg.line ((Gap.space, first) :: rest)) =
      some (word, first.value :: ConsoleArg.values rest) := by
  have hfind : Bytes.find (word ++ ConsoleArg.line ((Gap.space, first) :: rest)) ' ' 0 =
      some word.length := Bytes.find_append_cons (first.text ++ ConsoleArg.line rest) hword
  have hargs : parseArgs (ConsoleArg.line ((Gap.space, first) :: rest)) =
      some (first.value :: ConsoleArg.values rest) := parseArgs_line _
  simp [parseCommand, argsStr, hfind, hargs, Bytes.substr]

/-- A command word and arguments that are quoted where they need to be come apart again. On any
input at all the loops end, no step reads outside the string, the pointers stay in order, and no
argument is empty. -/
theorem parseCommand_undoes_quoting (word : { w : Bytes // ' '.toUInt8 ∉ w })
    (first : ConsoleArg) (rest : List (Gap × ConsoleArg)) (input : Bytes) :
    parseCommand word.1 = some (word.1, []) ∧
    parseCommand (word.1 ++ ConsoleArg.line ((Gap.space, first) :: rest)) =
      some (word.1, first.value :: ConsoleArg.values rest) ∧
    (∃ command args, parseCommand input = some (command, args) ∧ ∀ arg ∈ args, arg ≠ []) ∧
    ∀ n, ∃ st, Iteration.iterate (ParseState.step (argsStr input)) n ParseState.start = some st ∧
      st.prevPtr ≤ st.ptr ∧ st.ptr ≤ (argsStr input).length := by
  refine ⟨parseCommand_word word.2, parseCommand_line word.2 first rest, ?_, fun n => ?_⟩
  · obtain ⟨args, hargs, hne⟩ := exists_parseArgs (argsStr input)
    exact ⟨_, args, by rw [parseCommand, hargs]; rfl, hne⟩
  · obtain ⟨st, hst, hbounds⟩ := ParseState.exists_inBounds (argsStr input) n
    exact ⟨st, hst, hbounds.prevPtr_le, hbounds.ptr_le⟩

end BeamMP
