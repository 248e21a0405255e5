import BeamMP.Common.Bytes

/-!
# Command line arguments

`ArgsParser`: flags `--name` and assignments `--name=value`, the lookups over all
names of an argument, and the check of what was found against what is registered.
The messages are part of the parser here.
-/
namespace BeamMP

namespace ArgsParser

/-- The bits of `ArgsParser::Flags`. -/
inductive Flag
  | REQUIRED
  | HAS_VALUE

def Flag.mask : Flag → BitVec 32
  | .REQUIRED => 1
  | .HAS_VALUE => 2

structure Argument where
  name : Bytes
  value : Option Bytes

structure RegisteredArgument where
  names : List Bytes
  flags : BitVec 32

def RegisteredArgument.has (r : RegisteredArgument) (flag : Flag) : Bool :=
  r.flags &&& flag.mask != 0

end ArgsParser

/-- `ArgsParser` and the messages it has printed. -/
structure ArgsParser where
  registeredArguments : List ArgsParser.RegisteredArgument := []
  foundArgs : List ArgsParser.Argument := []
  printed : List Bytes := []

namespace ArgsParser

variable (p : ArgsParser)

def print (message : Bytes) : ArgsParser := { p with printed := p.printed ++ [message] }

def registerArgument (argumentNames : List Bytes) (flags : BitVec 32) : ArgsParser :=
  { p with registeredArguments := p.registeredArguments ++ [⟨argumentNames, flags⟩] }

/-- Whether one of the names is that of the argument. -/
def Argument.isCalled (a : Argument) (names : List Bytes) : Bool := names.any (a.name == ·)

def foundArgument (names : List Bytes) : Bool := p.foundArgs.any (·.isCalled names)

def getValueOfArgument (names : List Bytes) : Option Bytes :=
  match p.foundArgs.find? (·.isCalled names) with
  | some found => found.value
  | none => none

def isRegistered (name : Bytes) : Bool :=
  p.registeredArguments.any (·.names.contains name)

/-- The warning about a name that is not registered. -/
def warnUnlessRegistered (name : Bytes) : ArgsParser :=
  if p.isRegistered name then p
  else p.print (ascii "Argument '" ++ name ++
    ascii "' was supplied but isn't a known argument, so it is likely being ignored.")

/-- `Arg.substr(2, Arg.rfind("=") - 2)`; without the sign this is the rest. -/
def longName (arg : Bytes) : Bytes := arg.substr 2 ((arg.rfind '=').map (· - 2))

/-- `Arg.substr(Arg.rfind("=") + 1)`; without the sign this starts at 0. -/
def longValue (arg : Bytes) : Bytes :=
  arg.substr (match arg.rfind '=' with | some i => i + 1 | none => 0) none

def consumeLongAssignment (arg : Bytes) : ArgsParser :=
  let p := p.warnUnlessRegistered (longName arg)
  { p with foundArgs := p.foundArgs ++ [⟨longName arg, some (longValue arg)⟩] }

def consumeLongFlag (arg : Bytes) : ArgsParser :=
  let p : ArgsParser := { p with foundArgs := p.foundArgs ++ [⟨longName arg, none⟩] }
  p.warnUnlessRegistered (longName arg)

/-- The body of the loop of `Parse`. -/
def parseArg (arg : Bytes) : ArgsParser :=
  if arg.length > 2 ∧ arg.substr 0 (some 2) = ascii "--" then
    if arg.find '=' 0 ≠ none then p.consumeLongAssignment arg else p.consumeLongFlag arg
  else
    p.print (ascii "Error parsing commandline arguments: Supplied argument '" ++ arg ++
      ascii "' is not a valid argument and was ignored.")

def parse (argList : List Bytes) : ArgsParser := argList.foldl parseArg p

/-- What `Verify` objects to. -/
inductive Objection
  | notFound
  | noValue
  | unexpectedValue

def Objection.message (name : Bytes) : Objection → Bytes
  | .notFound =>
    ascii "Error in commandline arguments: Argument '" ++ name ++
      ascii "' is required but wasn't found."
  | .noValue =>
    ascii "Error in commandline arguments: Argument '" ++ name ++
      ascii "' expects a value, but no value was given."
  | .unexpectedValue =>
    ascii "Error in commandline arguments: Argument '" ++ name ++
      ascii "' does not expect a value, but one was given."

def objection (r : RegisteredArgument) : Option Objection :=
  if r.has .REQUIRED && !p.foundArgument r.names then some .notFound
  else if p.foundArgument r.names then
    if r.has .HAS_VALUE then
      if !(p.getValueOfArgument r.names).isSome then some .noValue else none
    else if (p.getValueOfArgument r.names).isSome then some .unexpectedValue
    else none
  else none

/-- The loop of `Verify`. The messages take the first name, so that an argument registered
without a name throws. -/
def verifyLoop : List RegisteredArgument → ArgsParser → Bool → Option (Bool × ArgsParser)
  | [], p, ok => some (ok, p)
  | r :: rs, p, ok =>
    match p.objection r with
    | none => verifyLoop rs p ok
    | some o => do
      let name ← r.names[0]?
      verifyLoop rs (p.print (o.message name)) false

/-- `Verify`, with no value for the exception. -/
def verify : Option (Bool × ArgsParser) := verifyLoop p.registeredArguments p true

/-- Whether `Verify` returns, and returns `true`. -/
def verifies : Bool := p.verify.any Prod.fst

/-- An argument as a user means it: a name without `=`, and a value or none. -/
structure LongArgument where
  name : Bytes
  value : Option Bytes
  name_ne_nil : name ≠ []
  assign_not_mem : '='.toUInt8 ∉ name

namespace LongArgument

variable (a : LongArgument)

/-- How the argument stands on the command line. -/
def text : Bytes :=
  match a.value with
  | none => ascii "--" ++ a.name
  | some value => ascii "--" ++ a.name ++ '='.toUInt8 :: value

def toArgument : Argument := ⟨a.name, a.value⟩

/-- The value has no `=` of its own. -/
def Plain : Prop := ∀ value, a.value = some value → '='.toUInt8 ∉ value

/-- The value of the first argument with one of these names. -/
def valueOf (args : List LongArgument) (names : List Bytes) : Option Bytes :=
  (args.find? (names.contains ·.name)).bind value

end LongArgument

/-- A required argument is there, and one that is there has a value if it is to have one. -/
structure RegisteredArgument.SatisfiedBy (r : RegisteredArgument) (args : List LongArgument) :
    Prop where
  found : r.has .REQUIRED = true → ∃ a ∈ args, a.name ∈ r.names
  value : (∃ a ∈ args, a.name ∈ r.names) →
    ((LongArgument.valueOf args r.names).isSome ↔ r.has .HAS_VALUE = true)

/-- What the parser answers is what the arguments say. -/
structure Reads (p : ArgsParser) (registered : List RegisteredArgument)
    (args : List LongArgument) : Prop where
  found : ∀ a ∈ args, p.foundArgument [a.name] = true
  value : ∀ a ∈ args, p.getValueOfArgument [a.name] = LongArgument.valueOf args [a.name]
  other : ∀ name, (∀ a ∈ args, a.name ≠ name) → p.foundArgument [name] = false
  verifies : p.verifies = true ↔ ∀ r ∈ registered, r.SatisfiedBy args

section Splitting

variable {s t : Bytes} {c : Char}

theorem longName_flag (hs : '='.toUInt8 ∉ s) : longName (ascii "--" ++ s) = s := by
  have habsent : '='.toUInt8 ∉ ascii "--" ++ s := by
    rw [List.mem_append]
    exact not_or.mpr ⟨by decide, hs⟩
  rw [longName, Bytes.rfind_eq_none habsent]
  rfl

theorem longName_assignment (ht : '='.toUInt8 ∉ t) :
    longName (ascii "--" ++ s ++ '='.toUInt8 :: t) = s := by
  rw [longName, Bytes.rfind_append_cons ht]
  simp [ascii, Bytes.substr]

theorem longValue_assignment (ht : '='.toUInt8 ∉ t) :
    longValue (ascii "--" ++ s ++ '='.toUInt8 :: t) = t := by
  rw [longValue, Bytes.rfind_append_cons ht]
  simp [ascii, Bytes.substr]

end Splitting

section Parsing

variable {p : ArgsParser} {arg name : Bytes} {a : LongArgument}

@[simp] theorem foundArgs_warnUnlessRegistered :
    (p.warnUnlessRegistered name).foundArgs = p.foundArgs := by
  unfold warnUnlessRegistered
  split <;> rfl

@[simp] theorem registeredArguments_warnUnlessRegistered :
    (p.warnUnlessRegistered name).registeredArguments = p.registeredArguments := by
  unfold warnUnlessRegistered
  split <;> rfl

@[simp] theorem registeredArguments_parseArg :
    (p.parseArg arg).registeredArguments = p.registeredArguments := by
  unfold parseArg
  split_ifs <;> simp [consumeLongAssignment, consumeLongFlag, print]

@[simp] theorem registeredArguments_parse (argList : List Bytes) :
    (p.parse argList).registeredArguments = p.registeredArguments := by
  induction argList generalizing p with
  | nil => rfl
  | cons arg argList ih => exact (ih (p := p.parseArg arg)).trans registeredArguments_parseArg

/-- What `Parse` makes of a flag or an assignment. -/
def consumed (arg : Bytes) : Argument :=
  ⟨longName arg, if arg.find '=' 0 ≠ none then some (longValue arg) else none⟩

theorem foundArgs_parseArg_text :
    (p.parseArg a.text).foundArgs = p.foundArgs ++ [consumed a.text] := by
  have hlong : a.text.length > 2 ∧ a.text.substr 0 (some 2) = ascii "--" := by
    have hpos := List.length_pos_iff.mpr a.name_ne_nil
    unfold LongArgument.text
    split
    · exact ⟨by simpa [ascii] using hpos, rfl⟩
    · exact ⟨by simp [ascii], rfl⟩
  rw [parseArg, if_pos hlong]
  split_ifs with hassign
  · simp [consumeLongAssignment, consumed, hassign]
  · simp [consumeLongFlag, consumed, hassign]

theorem foundArgs_parse_text (args : List LongArgument) :
    (p.parse (args.map LongArgument.text)).foundArgs =
      p.foundArgs ++ args.map (consumed ·.text) := by
  induction args generalizing p with
  | nil => simp [parse]
  | cons a args ih =>
    have hstep := ih (p := p.parseArg a.text)
    rw [foundArgs_parseArg_text, List.append_assoc] at hstep
    exact hstep

theorem consumed_text_of_plain (h : a.Plain) : consumed a.text = a.toArgument := by
  unfold LongArgument.text LongArgument.toArgument
  cases hvalue : a.value with
  | none =>
    have habsent : Bytes.find (ascii "--" ++ a.name) '=' 0 = none := by
      rw [Bytes.find_eq_none_iff, List.mem_append]
      exact not_or.mpr ⟨by decide, a.assign_not_mem⟩
    simp [consumed, habsent, longName_flag a.assign_not_mem]
  | some value =>
    have hplain := h value hvalue
    have hpresent : Bytes.find (ascii "--" ++ a.name ++ '='.toUInt8 :: value) '=' 0 ≠ none := by
      rw [Ne, Bytes.find_eq_none_iff]
      simp
    simp only [consumed, hpresent, ne_eq, not_false_eq_true, if_true,
      longName_assignment hplain, longValue_assignment hplain]

/-- A value with a sign of its own ends up in the name. -/
theorem assign_mem_consumed_text (h : ¬ a.Plain) : '='.toUInt8 ∈ (consumed a.text).name := by
  simp only [LongArgument.Plain, not_forall, not_not] at h
  obtain ⟨value, hvalue, hmem⟩ := h
  obtain ⟨t, u, rfl, hu⟩ := Bytes.exists_last_of_mem hmem
  have htext : a.text = ascii "--" ++ (a.name ++ '='.toUInt8 :: t) ++ '='.toUInt8 :: u := by
    simp [LongArgument.text, hvalue]
  rw [htext, consumed, longName_assignment hu]
  simp

end Parsing

section Lookup

variable {p : ArgsParser} {names : List Bytes} {args : List LongArgument}

theorem Argument.isCalled_eq_contains (a : Argument) (names : List Bytes) :
    a.isCalled names = names.contains a.name := by
  rw [isCalled, List.contains_eq_any_beq]

theorem foundArgument_iff :
    p.foundArgument names = true ↔ ∃ a ∈ p.foundArgs, a.name ∈ names := by
  simp [foundArgument, Argument.isCalled_eq_contains]

theorem foundArgument_iff_of_eq (h : p.foundArgs = args.map LongArgument.toArgument) :
    p.foundArgument names = true ↔ ∃ a ∈ args, a.name ∈ names := by
  simp [foundArgument_iff, h, LongArgument.toArgument]

theorem getValueOfArgument_of_eq (h : p.foundArgs = args.map LongArgument.toArgument) :
    p.getValueOfArgument names = LongArgument.valueOf args names := by
  have hfind : p.foundArgs.find? (·.isCalled names) =
      (args.find? (names.contains ·.name)).map LongArgument.toArgument := by
    rw [h, List.find?_map]
    simp only [Function.comp_def, Argument.isCalled_eq_contains]
    rfl
  unfold getValueOfArgument LongArgument.valueOf
  rw [hfind]
  cases args.find? (names.contains ·.name) <;> rfl

theorem objection_eq_none_iff {r : RegisteredArgument} :
    p.objection r = none ↔
      (r.has .REQUIRED = true → p.foundArgument r.names = true) ∧
      (p.foundArgument r.names = true →
        ((p.getValueOfArgument r.names).isSome ↔ r.has .HAS_VALUE = true)) := by
  unfold objection
  cases r.has .REQUIRED <;> cases p.foundArgument r.names <;> cases r.has .HAS_VALUE <;>
    cases (p.getValueOfArgument r.names).isSome <;> simp

end Lookup

section Verify

variable {p q : ArgsParser} {rs : List RegisteredArgument} {ok b : Bool}

@[simp] theorem objection_print (message : Bytes) (r : RegisteredArgument) :
    (p.print message).objection r = p.objection r := rfl

theorem verifyLoop_any_fst :
    (verifyLoop rs p ok).any Prod.fst = true ↔ ok = true ∧ ∀ r ∈ rs, p.objection r = none := by
  induction rs generalizing p ok with
  | nil => simp [verifyLoop]
  | cons r rs ih =>
    cases ho : p.objection r with
    | none => simp [verifyLoop, ho, ih]
    | some o =>
      cases hname : r.names[0]? with
      | none => simp [verifyLoop, ho, hname]
      | some name => simp [verifyLoop, ho, hname, ih]

theorem verifies_iff :
    p.verifies = true ↔ ∀ r ∈ p.registeredArguments, p.objection r = none := by
  simp [verifies, verify, verifyLoop_any_fst]

end Verify

/-- After `Parse` the parser answers what the arguments say, if and only if no value has a `=` of
its own. -/
theorem parse_reads_iff (registered : List RegisteredArgument) (args : List LongArgument) :
    (parse { registeredArguments := registered } (args.map LongArgument.text)).Reads
        registered args ↔ ∀ a ∈ args, a.Plain := by
  have hfound := foundArgs_parse_text (p := { registeredArguments := registered }) args
  rw [List.nil_append] at hfound
  constructor
  · intro h a ha
    by_contra hplain
    -- the name with the sign is found, and nobody gave it
    have hother := h.other (consumed a.text).name fun b _ heq =>
      b.assign_not_mem (heq ▸ assign_mem_consumed_text hplain)
    have hthere : foundArgument (parse { registeredArguments := registered }
        (args.map LongArgument.text)) [(consumed a.text).name] = true := by
      rw [foundArgument_iff, hfound]
      exact ⟨_, List.mem_map_of_mem ha, List.mem_singleton_self _⟩
    rw [hother] at hthere
    cases hthere
  · intro hplain
    have heq : (parse { registeredArguments := registered }
        (args.map LongArgument.text)).foundArgs = args.map LongArgument.toArgument := by
      rw [hfound]
      exact List.map_congr_left fun a ha => consumed_text_of_plain (hplain a ha)
    constructor
    · intro a ha
      exact (foundArgument_iff_of_eq heq).mpr ⟨a, ha, List.mem_singleton_self _⟩
    · intro a _
      exact getValueOfArgument_of_eq heq
    · intro name hname
      rw [Bool.eq_false_iff, Ne, foundArgument_iff_of_eq heq]
      rintro ⟨a, ha, hmem⟩
      exact hname a ha (List.mem_singleton.mp hmem)
    · rw [verifies_iff, registeredArguments_parse]
      refine forall₂_congr fun r _ => ?_
      rw [objection_eq_none_iff, foundArgument_iff_of_eq heq, getValueOfArgument_of_eq heq]
      exact ⟨fun h => ⟨h.1, h.2⟩, fun h => ⟨h.found, h.value⟩⟩

/-- What `BeamMPServerMain` registers. -/
def serverParser : ArgsParser :=
  (((((registerArgument {} [ascii "help"] 0).registerArgument [ascii "version"] 0).registerArgument
    [ascii "config"] Flag.HAS_VALUE.mask).registerArgument
    [ascii "port"] Flag.HAS_VALUE.mask).registerArgument
    [ascii "working-directory"] Flag.HAS_VALUE.mask)

/-- `--config=/a=b`. -/
def configPath : LongArgument where
  name := ascii "config"
  value := some (ascii "/a=b")
  name_ne_nil := by decide
  assign_not_mem := by decide

/-- The path is cut at its sign, and `config` is not found. -/
theorem configPath_not_found :
    ¬ (serverParser.parse [configPath.text]).Reads serverParser.registeredArguments
      [configPath] := by
  intro h
  have hfound := h.found configPath List.mem_cons_self
  revert hfound
  decide

end ArgsParser

end BeamMP
