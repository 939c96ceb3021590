import Stepwise.Decimal.Reader

/-!
# Arguments

A command takes options: flags, and options with a value that follows (`--count 5`) or is attached
(`--count=5`, `-n5`).  A long name may be shortened as long as one option alone has it as a
beginning.  What begins with a hyphen is an option unless it is a negative number or holds a blank,
and behind a lone `--` nothing is.  A `--` that is attached to an option gives it an empty value.
-/

namespace Stepwise.Cli

/-- What kind of value an option takes. -/
inductive OptionKind where
  | flag
  | text
  | integer
  | choice (names : List String)
  | help
  deriving DecidableEq, Repr

/-- An option of a command. -/
structure OptionSpec where
  long : String
  short : Option Char
  kind : OptionKind
  deriving DecidableEq, Repr

/-- The value of an option. -/
inductive OptionValue where
  | on
  | text (s : String)
  | integer (n : Int)
  deriving DecidableEq, Repr

/-- Why arguments are not taken: help was asked for, or they make no sense. -/
inductive Rejection where
  | help
  | usage
  deriving DecidableEq, Repr

namespace Arguments

/-- The option that every command has. -/
def helpOption : OptionSpec := ⟨"help", some 'h', .help⟩

/-- The role that an argument may have. -/
inductive Role where
  | value (s : String)
  | separator
  /-- An option, if there is one of the name, and the value attached to it. -/
  | option (spec : Option OptionSpec) (attached : Option String)
  /-- A wish for help, and the short options that are attached to it. -/
  | help (attached : List Char)
  deriving Repr

/-- Whether characters are a negative number. -/
def isNegativeNumber : List Char → Bool
  | '-' :: cs =>
    let isDigit (c : Char) : Bool := (Text.digitValue? c).isSome
    let whole := cs.takeWhile isDigit
    match cs.dropWhile isDigit with
    | [] => !whole.isEmpty
    | '.' :: places => !places.isEmpty && places.all isDigit
    | _ => false
  | _ => false

/-- A text up to the first equals sign, and what follows it. -/
def splitAtEquals (cs : List Char) : List Char × Option (List Char) :=
  match cs.dropWhile (· != '=') with
  | [] => (cs, none)
  | _ :: value => (cs.takeWhile (· != '='), some value)

/-- The option with exactly this name, hyphens included. -/
def named? (specs : List OptionSpec) (name : List Char) : Option OptionSpec :=
  match name with
  | '-' :: '-' :: long => specs.find? (·.long.toList == long)
  | ['-', c] => specs.find? (·.short == some c)
  | _ => none

/-- The options that an inexact name may stand for, and what is attached. -/
def candidates (specs : List OptionSpec) (cs : List Char) :
    List (OptionSpec × Option (List Char)) :=
  match cs with
  | '-' :: '-' :: rest =>
    let (name, attached) := splitAtEquals rest
    (specs.filter fun s => name.isPrefixOf s.long.toList).map (·, attached)
  | '-' :: c :: rest => (specs.filter (·.short == some c)).map (·, some rest)
  | _ => []

/-- The role of an argument before any separator. -/
def role (specs : List OptionSpec) (s : String) : Except Rejection Role :=
  match s.toList with
  | '-' :: c :: rest =>
    let cs := '-' :: c :: rest
    match named? specs cs with
    | some spec => .ok (.option (some spec) none)
    | none =>
      let (name, attached) := splitAtEquals cs
      match attached, named? specs name with
      | some value, some spec => .ok (.option (some spec) (some (String.ofList value)))
      | _, _ =>
        match candidates specs cs with
        | [(spec, value)] =>
          if spec.kind = .help ∧ c ≠ '-' then .ok (.help rest)
          else .ok (.option (some spec) (value.map String.ofList))
        | _ :: _ :: _ => .error .usage
        | [] =>
          if isNegativeNumber cs || cs.contains ' ' then .ok (.value s)
          else .ok (.option none none)
  | _ => .ok (.value s)

/-- The roles of arguments. -/
def roles (specs : List OptionSpec) : List String → Except Rejection (List Role)
  | [] => .ok []
  | "--" :: rest => .ok (.separator :: rest.map .value)
  | s :: rest => do
    let r ← role specs s
    return r :: (← roles specs rest)

/-- Whether short options may be attached to a wish for help: the first one with a value takes
the rest of the characters, or else the argument behind, if one is `followed` there. -/
def isCluster (specs : List OptionSpec) (followed : Bool) : List Char → Bool
  | [] => true
  | c :: cs =>
    if c = '-' ∨ c = '=' then false
    else
      match specs.find? (·.short == some c) with
      | none => true
      | some spec =>
        if spec.kind = .help then isCluster specs followed cs else !cs.isEmpty || followed

/-- The value of an option from its text. -/
def valueOf (kind : OptionKind) (s : String) : Except Rejection OptionValue :=
  match kind with
  | .integer =>
    match Decimal.intOfText? s.toList with
    | some n => .ok (.integer n)
    | none => .error .usage
  | .choice names => if names.contains s then .ok (.text s) else .error .usage
  | _ => .ok (.text s)

/-- The values of options, the last one first; `stray` tells whether something stood there that
no option wants. -/
structure Taken where
  values : List (String × OptionValue)
  stray : Bool

/-- The value that comes next, and what follows it.  A separator beside it goes with it. -/
def nextValue? : List Role → Option (String × List Role)
  | .separator :: .value s :: rest => some (s, rest)
  | .value s :: .separator :: rest => some (s, rest)
  | .value s :: rest => some (s, rest)
  | _ => none

theorem length_of_nextValue? {roles rest : List Role} {s : String}
    (h : nextValue? roles = some (s, rest)) : rest.length < roles.length := by
  unfold nextValue? at h
  split at h <;> cases h <;> simp only [List.length_cons] <;> omega

/-- Goes through the arguments. -/
def collect (specs : List OptionSpec) (roles : List Role) (t : Taken) : Except Rejection Taken :=
  match roles with
  | [] => .ok t
  | .value _ :: rest => collect specs rest { t with stray := true }
  | .separator :: rest => collect specs rest { t with stray := true }
  | .option none _ :: rest => collect specs rest { t with stray := true }
  | .help attached :: rest =>
    .error (if isCluster specs (nextValue? rest).isSome attached then .help else .usage)
  | .option (some spec) attached :: rest =>
    match spec.kind, attached with
    | .help, none => .error .help
    | .help, some _ => .error .usage
    | .flag, none => collect specs rest { t with values := (spec.long, .on) :: t.values }
    | .flag, some _ => .error .usage
    | kind, some s =>
      match valueOf kind (if s == "--" then "" else s) with
      | .error e => .error e
      | .ok v => collect specs rest { t with values := (spec.long, v) :: t.values }
    | kind, none =>
      match _h : nextValue? rest with
      | none => .error .usage
      | some (s, rest') =>
        match valueOf kind s with
        | .error e => .error e
        | .ok v => collect specs rest' { t with values := (spec.long, v) :: t.values }
  termination_by roles.length
  decreasing_by
    all_goals simp_wf
    all_goals first
      | omega
      | have := length_of_nextValue? ‹_›; omega

/-- The values of the options of a command. -/
def parse (specs : List OptionSpec) (arguments : List String) :
    Except Rejection (List (String × OptionValue)) := do
  let specs := helpOption :: specs
  let t ← collect specs (← roles specs arguments) ⟨[], false⟩
  if t.stray then .error .usage else .ok t.values

/-- The last text given for an option. -/
def text? (values : List (String × OptionValue)) (name : String) : Option String :=
  match values.lookup name with
  | some (.text s) => some s
  | _ => none

/-- The last integer given for an option. -/
def integer? (values : List (String × OptionValue)) (name : String) : Option Int :=
  match values.lookup name with
  | some (.integer n) => some n
  | _ => none

/-- Whether a flag is given. -/
def isOn (values : List (String × OptionValue)) (name : String) : Bool :=
  (values.lookup name).isSome

end Arguments

end Stepwise.Cli
