/-!
# Options of a command

How the arguments of a command are told apart into options, their values and everything else. A long
option takes its value after an equals sign or as the next argument; short options may be written
together, and the last of them takes the rest of the argument, or the next one, as its value. Two dashes
end the options.
-/

namespace ProviderBindings.CommandLine

/-- An option that a command knows. -/
structure OptionSpec where
  /-- What the option is called inside this program. -/
  id : String
  /-- Its long names, with their dashes. -/
  long : List String
  /-- Its letter, if it has one. -/
  short : Option Char := none
  takesValue : Bool := false
  deriving DecidableEq, Repr

/-- An option that was given: its name inside this program, and its value if it takes one. -/
abbrev GivenOption := String × Option String

/-- The arguments of a command, told apart. -/
structure Parsed where
  /-- The options in the order in which they were given. -/
  options : List GivenOption := []
  /-- Everything else. -/
  rest : List String := []
  deriving DecidableEq, Repr

namespace Parsed

/-- The parsed arguments with one more option in front. -/
def withOption (o : GivenOption) (p : Parsed) : Parsed :=
  { p with options := o :: p.options }

/-- The parsed arguments with one more other argument in front. -/
def withRest (arg : String) (p : Parsed) : Parsed :=
  { p with rest := arg :: p.rest }

/-- Whether an option was given. -/
def has (p : Parsed) (id : String) : Bool :=
  p.options.any (·.1 == id)

/-- All values given for an option. -/
def values (p : Parsed) (id : String) : List String :=
  p.options.filterMap fun o => if o.1 == id then o.2 else none

/-- The last value given for an option. -/
def value? (p : Parsed) (id : String) : Option String :=
  (p.values id).getLast?

end Parsed

/-- The options given by letters written together, and whether the value of the last of them is still to
come. Nothing if a letter is no option. -/
def shortOptions (specs : List OptionSpec) : List Char → Option (List GivenOption × Option String)
  | [] => some ([], none)
  | letter :: more => do
    let spec ← specs.find? (·.short == some letter)
    if spec.takesValue then
      if more.isEmpty then some ([], some spec.id)
      else some ([(spec.id, some (String.ofList more))], none)
    else
      let (options, pending) ← shortOptions specs more
      some ((spec.id, none) :: options, pending)

/-- The options of one argument, and whether the value of the last of them is still to come. Nothing if
the argument is no option of the command. -/
def argumentOptions (specs : List OptionSpec) (arg : String) :
    Option (List GivenOption × Option String) :=
  let cs := arg.toList
  let name := String.ofList (cs.takeWhile (· != '='))
  let value := if cs.contains '=' then some (String.ofList ((cs.dropWhile (· != '=')).drop 1)) else none
  match specs.find? (·.long.contains name) with
  | some spec =>
    match spec.takesValue, value with
    | true, some value => some ([(spec.id, some value)], none)
    | true, none => some ([], some spec.id)
    | false, none => some ([(spec.id, none)], none)
    | false, some _ => none
  | none => if cs.take 2 == ['-', '-'] then none else shortOptions specs (cs.drop 1)

/-- Whether an argument is written as an option. -/
def looksLikeOption (arg : String) : Bool :=
  arg.startsWith "-" && arg != "-"

/-- The arguments of a command, told apart, or nothing if the command does not take them. Unless options
may stand after other arguments, the first other argument ends them. -/
def parseArguments (specs : List OptionSpec) (mixed : Bool) : List String → Option Parsed
  | [] => some {}
  | arg :: args =>
    if arg == "--" then some { rest := args }
    else if looksLikeOption arg then
      match argumentOptions specs arg, args with
      | none, _ => none
      | some (options, none), args =>
        (parseArguments specs mixed args).map fun p => options.foldr Parsed.withOption p
      | some (_, some _), [] => none
      | some (options, some id), value :: args =>
        (parseArguments specs mixed args).map fun p =>
          options.foldr Parsed.withOption (p.withOption (id, some value))
    else if mixed then (parseArguments specs mixed args).map (Parsed.withRest arg)
    else some { rest := arg :: args }

end ProviderBindings.CommandLine
