import Policer.Aggregator.Config

/-!
# Option strings of aggregators

The first part of `Agg::init`: the option string is copied into a buffer, cut at
blanks and read with `getopt`. Tokens behind the buffer for pointers are dropped,
and a string that is longer than its buffer overruns it.
-/

namespace Policer.Aggregator

open Policer.Lib Policer.Parsing

/-- Undefined behaviour of a step. -/
inductive Fault where
  | bufferOverrun
  | nullFunction
  | divisionByZero
deriving DecidableEq, Repr

/-- `MAX_ARGS`. -/
def maxArgs : Nat := 128

/-- `MAX_STRING`. -/
def maxString : Nat := 1024

/-- `strcpy(text, options)`: the terminating zero has to fit as well. -/
def copyOptions (options : Str) : Except Fault Str :=
  if options.length < maxString then .ok options else .error .bufferOverrun

/-- `get_argc_argv`. -/
def getArgcArgv (text : Str) : List Str := (tokens ' ' text).take (maxArgs - 1)

/-- The option letters of `"k:t:s:a:m:M:f:l:o:n:c:r:"`, which all take an argument. -/
def optionLetters : List Char := "ktsamMfloncr".toList

/-- One result of `getopt`: a letter with its argument, or a letter it rejects. -/
inductive Opt where
  | argument (letter : Char) (optarg : Str)
  | invalid (letter : Char)
deriving DecidableEq

/-- The letters of one token behind its dash, with the letter whose argument is the next
token. -/
def getoptToken : Str → List Opt × Option Char
  | [] => ([], none)
  | letter :: rest =>
      if letter ∈ optionLetters then
        if rest.isEmpty then ([], some letter) else ([.argument letter rest], none)
      else
        let later := getoptToken rest
        (.invalid letter :: later.1, later.2)

/-- The results of `getopt`, given a letter that waits for its argument. Tokens that are no
options are skipped, which is what permuting them to the end amounts to, and `--` ends the
options. -/
def getoptFrom : Option Char → List Str → List Opt
  | none, [] => []
  | some letter, [] => [.invalid letter]
  | some letter, optarg :: rest => .argument letter optarg :: getoptFrom none rest
  | none, token :: rest =>
      if token = "--".toList then []
      else
        match token with
        | '-' :: letter :: letters =>
            let here := getoptToken (letter :: letters)
            here.1 ++ getoptFrom here.2 rest
        | _ => getoptFrom none rest

/-- The results of `getopt` over the tokens behind `argv[0]`. -/
def getopt (argv : List Str) : List Opt := getoptFrom none argv.tail

/-- The function that an option letter passes to `add_member`. -/
def memberFunction : Char → Option FunctionCode
  | 'k' => some .key
  | 's' => some .sum
  | 'a' => some .avg
  | 'm' => some .min
  | 'M' => some .max
  | 'f' => some .first
  | 'l' => some .last
  | 'o' => some .bitOr
  | 'n' => some .bitAnd
  | 'r' => some .rate
  | _ => none

namespace Config

/-- The body of the loop over the options in `Agg::init`. -/
def applyOption (config : Config) : Opt → Config
  | .argument 't' optarg => config.setTimeout optarg
  | .argument 'c' optarg => config.addPtrMember optarg
  | .argument letter optarg =>
      match memberFunction letter with
      | some func => config.addMember func optarg
      | none => config
  | .invalid _ => config

/-- The configuration `Agg::init` reads off its options. -/
def ofOptions (options : Str) : Except Fault Config :=
  (copyOptions options).map fun text =>
    (getopt (getArgcArgv text)).foldl applyOption new

end Config

end Policer.Aggregator
