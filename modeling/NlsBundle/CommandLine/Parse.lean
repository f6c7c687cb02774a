import NlsBundle.CommandLine.Basic

/-!
# Reading command lines

First every argument is classified on its own: as an option, known or unknown, as the separator
`--`, or as a plain argument. Then the arguments are worked off from left to right. The first run of
plain arguments is taken for the module paths. What is left over at the end is reported, unless
there are no module paths, which is worse.
-/

namespace NlsBundle.CommandLine

/-! ## Classification -/

/-- A value that is given in the same argument as its option. -/
structure Attached where
  /-- whether an equals sign stands before it -/
  signed : Bool
  value : Text
  deriving DecidableEq, Repr

inductive Class
  | plain
  /-- everything after it is plain -/
  | separator
  | unknown
  | known (o : OptionSpec) (attached : Option Attached)
  deriving DecidableEq, Repr

/-- An integer or a decimal fraction with a minus sign. -/
def negativeNumber : Pattern :=
  let digit : Pattern := .one ⟨false, [.inClass .digit]⟩
  let integer : Pattern := .loop .greedy 1 none digit
  let optional : Pattern := .loop .greedy 0 none digit
  .sequence [.char '-', .alt integer (.sequence [optional, .char '.', integer]), .anchor .finish]

/-- The options that an argument can be short for. A long name can be cut short; a short one can
have its value right after it. -/
def candidates (p : Program) (argument : Text) : List (Text × OptionSpec × Option Attached) :=
  if (Text.after? ['-', '-'] argument).isSome then
    let (name, attached) := match Text.cut? ['='] argument with
      | some (name, value) => (name, some ⟨true, value⟩)
      | none => (argument, none)
    p.optionNames.filterMap fun (full, o) =>
      if (Text.after? name full).isSome then some (full, o, attached) else none
  else
    p.optionNames.filterMap fun (full, o) =>
      if full = argument.take 2 then some (full, o, some ⟨false, argument.drop 2⟩)
      else if (Text.after? argument full).isSome then some (full, o, none)
      else none

/-- An option given by its full name with a value after an equals sign. -/
def signedOption? (p : Program) (argument : Text) : Option Class := do
  let (name, value) ← Text.cut? ['='] argument
  let o ← p.option? name
  some (.known o (some ⟨true, value⟩))

/-- Classifies an argument before the separator. A single hyphen, a negative number and anything
with a space that is no option are plain. -/
def classify (p : Program) (argument : Text) : Except UsageError Class :=
  if argument.head? ≠ some '-' then .ok .plain
  else if let some o := p.option? argument then .ok (.known o none)
  else if argument.length = 1 then .ok .plain
  else if let some known := signedOption? p argument then .ok known
  else match candidates p argument with
    | [] =>
      if (negativeNumber.matchAt? ⟨none, argument⟩).isSome ∨ ' ' ∈ argument then .ok .plain
      else .ok .unknown
    | [(_, o, attached)] => .ok (.known o attached)
    | found => .error (.ambiguous argument (found.map (·.1)))

/-- Classifies all arguments. -/
def classifyAll (p : Program) : List Text → Except UsageError (List (Text × Class))
  | [] => .ok []
  | argument :: rest =>
    if argument = ['-', '-'] then .ok ((argument, .separator) :: rest.map fun a => (a, .plain))
    else do
      let kind ← classify p argument
      let classes ← classifyAll p rest
      .ok ((argument, kind) :: classes)

/-! ## Options in one argument -/

/-- What one argument asks for: options with their values, perhaps a last option whose value, if it
takes one, is the next argument, and perhaps a rest that is no option. -/
structure Cluster where
  settled : List (OptionSpec × Option Text)
  pending : Option OptionSpec
  leftover : Option Text
  deriving DecidableEq, Repr

namespace Cluster

def add (o : OptionSpec) (c : Cluster) : Cluster := { c with settled := (o, none) :: c.settled }

/-- An option with a value after an equals sign. -/
def ofSigned (o : OptionSpec) (value : Text) : Except UsageError Cluster :=
  if o.takesValue then .ok ⟨[(o, some value)], none, none⟩ else .error (.ignoredValue o value)

/-- A short option with something right after it: its value or, if it takes none, more short
options. -/
def ofShort (p : Program) (o : OptionSpec) : Text → Except UsageError Cluster
  | [] => .error (.ignoredValue o [])
  | c :: rest =>
    if o.takesValue then .ok ⟨[(o, some (c :: rest))], none, none⟩
    else if c = '-' then .error (.ignoredValue o (c :: rest))
    else match p.option? ['-', c], rest with
      | none, _ => .ok ⟨[(o, none)], none, some ('-' :: c :: rest)⟩
      | some next, [] => .ok ⟨[(o, none)], some next, none⟩
      | some next, d :: ds =>
        if d = '=' then (ofSigned next ds).map (add o) else (ofShort p next (d :: ds)).map (add o)

/-- What a known option in an argument asks for. -/
def ofKnown (p : Program) (o : OptionSpec) : Option Attached → Except UsageError Cluster
  | none => .ok ⟨[], some o, none⟩
  | some ⟨true, value⟩ => ofSigned o value
  | some ⟨false, value⟩ => ofShort p o value

/-- The last option, if it waits for a value. -/
def waiting? (c : Cluster) : Option OptionSpec := c.pending.filter (·.takesValue)

/-- All options with their values, given the value of the last one. -/
def uses (c : Cluster) (value : Option Text) : List (OptionSpec × Option Text) :=
  c.settled ++ (c.pending.map fun o => (o, value)).toList

end Cluster

/-! ## Working off the arguments -/

/-- The module paths: not yet seen, being taken, or complete. -/
inductive Paths
  | unseen
  | taking (paths : List Text)
  | complete (paths : List Text)
  deriving DecidableEq, Repr

/-- What has been worked off. -/
structure State where
  paths : Paths
  given : List (Setting × Option Text)
  leftover : List Text
  deriving DecidableEq, Repr

namespace State

/-- An option ends the run of plain arguments. -/
def endRun (s : State) : State :=
  match s.paths with
  | .taking paths => { s with paths := .complete paths }
  | _ => s

def leave (s : State) (argument : Text) : State := { s with leftover := s.leftover ++ [argument] }

def plain (s : State) (argument : Text) : State :=
  match s.paths with
  | .unseen => { s with paths := .taking [argument] }
  | .taking paths => { s with paths := .taking (paths ++ [argument]) }
  | .complete _ => s.leave argument

/-- The separator is dropped, unless the module paths are complete. -/
def separator (s : State) (argument : Text) : State :=
  match s.paths with
  | .complete _ => s.leave argument
  | _ => s

/-- Takes options over; help stops everything. -/
def useAll (s : State) : List (OptionSpec × Option Text) → Except Stop State
  | [] => .ok s
  | (o, value) :: rest =>
    if o.setting = .help then .error .help
    else useAll { s with given := s.given ++ [(o.setting, value)] } rest

/-- Takes over what one argument asks for. -/
def takeCluster (s : State) (c : Cluster) (value : Option Text) : Except Stop State :=
  useAll { s.endRun with leftover := s.leftover ++ c.leftover.toList } (c.uses value)

end State

/-- Works off the arguments from left to right. -/
def consume (p : Program) (s : State) : List (Text × Class) → Except Stop State
  | [] => .ok s
  | (argument, .plain) :: rest => consume p (s.plain argument) rest
  | (argument, .separator) :: rest => consume p (s.separator argument) rest
  | (argument, .unknown) :: rest => consume p (s.endRun.leave argument) rest
  | (_, .known o attached) :: rest => do
    let c ← (Cluster.ofKnown p o attached).mapError .usage
    match c.waiting? with
    | none => consume p (← s.takeCluster c none) rest
    | some last =>
      match rest with
      | (value, .plain) :: others => consume p (← s.takeCluster c (some value)) others
      | _ => .error (.usage (.missingValue last))

/-- Reads a command line. -/
def parse (p : Program) (arguments : List Text) : Except Stop Arguments := do
  let classes ← (classifyAll p arguments).mapError .usage
  let s ← consume p ⟨.unseen, [], []⟩ classes
  match s.endRun.paths with
  | .complete paths =>
    if s.leftover = [] then .ok ⟨paths, s.given⟩ else .error (.usage (.unrecognized s.leftover))
  | _ => .error (.usage .noModulePaths)

end NlsBundle.CommandLine
