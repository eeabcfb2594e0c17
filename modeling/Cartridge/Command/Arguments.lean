import Cartridge.Storage.Path

/-!
# Command lines

The arguments are read from left to right. Flags may be written together after one dash, a value
stands in the same argument or in the next, and a value in an argument of its own does
not begin with a dash. Every option but the repeatable one may be given once.
-/
namespace Cartridge.Command

/-- What a subcommand can be told. -/
inductive Key where
  | naming
  | verbose
  | version
  | help
  | input
  | offset
  | output
  | showHeader
  | showExtended
  | showTable
  | printSection
  | raw
  | yaml
  deriving DecidableEq, Repr

/-- How an option takes part in a command line. -/
inductive Arity where
  | flag
  /-- A flag that may be repeated. -/
  | counter
  /-- An option with a text. -/
  | text
  /-- An option with a path, which is not empty. -/
  | path
  /-- An option with a number of 64 bits. -/
  | number
  deriving DecidableEq, Repr

structure Opt where
  key : Key
  short : Option Char
  long : String
  arity : Arity
  deriving DecidableEq, Repr

inductive Verb where
  | dump
  | extract
  | boot
  deriving DecidableEq, Repr

def sharedOptions : List Opt :=
  [⟨.naming, some 'c', "config", .path⟩, ⟨.verbose, some 'v', "verbose", .counter⟩,
    ⟨.help, some 'h', "help", .flag⟩]

/-- The options before the subcommand, or after a given one. -/
def options : Option Verb → List Opt
  | none => ⟨.version, some 'V', "version", .flag⟩ :: sharedOptions
  | some .dump => sharedOptions ++
    [⟨.input, some 'i', "input", .path⟩, ⟨.offset, some 'O', "offset", .number⟩,
      ⟨.showHeader, some 'H', "show-header", .flag⟩,
      ⟨.showExtended, some 'x', "show-exheader", .flag⟩,
      ⟨.showTable, some 'e', "show-exefs", .flag⟩,
      ⟨.printSection, some 's', "print-section", .text⟩, ⟨.raw, some 'R', "raw", .flag⟩,
      ⟨.yaml, none, "yaml", .flag⟩]
  | some .extract => sharedOptions ++
    [⟨.input, some 'i', "input", .path⟩, ⟨.offset, some 'O', "offset", .number⟩,
      ⟨.output, some 'o', "output", .path⟩]
  | some .boot => sharedOptions ++ [⟨.input, some 'i', "input", .path⟩]

/-- What ends the reading of a command line before its end. -/
inductive Stop where
  | usage
  | version
  | help
  deriving DecidableEq, Repr

/-- The options that were given, with their values. -/
abbrev Given := List (Key × String)

/-- Every number of an option is below this bound. -/
def numberBound : Nat := UInt64.size

/-- A decimal number of 64 bits, a plus sign before it or not. -/
def number? (s : String) : Option Nat :=
  let digits :=
    match s.toList with
    | '+' :: rest => rest
    | cs => cs
  if digits.isEmpty || digits.any (!·.isDigit) then none
  else
    let value := digits.foldl (fun n c => 10 * n + (c.toNat - '0'.toNat)) 0
    if value < numberBound then some value else none

def isValid (arity : Arity) (value : String) : Bool :=
  match arity with
  | .flag | .counter | .text => true
  | .path => !value.isEmpty
  | .number => (number? value).isSome

/-- Adds an option. -/
def give (given : Given) (option : Opt) (value : String) : Except Stop Given :=
  if option.key = .help then .error .help
  else if option.key = .version then .error .version
  else if option.arity != .counter && given.any (·.1 == option.key) then .error .usage
  else if isValid option.arity value then .ok (given ++ [(option.key, value)])
  else .error .usage

def takesValue (option : Opt) : Bool := option.arity != .flag && option.arity != .counter

/-- The flags behind one dash. An option with a value takes what is left as its value, with or
without an equals sign, and waits for the next argument if nothing is left. -/
def readCluster (known : List Opt) : List Char → Given → Except Stop (Given × Option Opt)
  | [], given => .ok (given, none)
  | c :: rest, given =>
    match known.find? (·.short == some c) with
    | none => .error .usage
    | some option =>
      if takesValue option then
        match rest with
        | [] => .ok (given, some option)
        | '=' :: value => (give given option (String.ofList value)).map (·, none)
        | value => (give given option (String.ofList value)).map (·, none)
      else
        match give given option "" with
        | .error stop => .error stop
        | .ok given => readCluster known rest given

/-- An option after two dashes. -/
def readLong (known : List Opt) (body : List Char) (given : Given) :
    Except Stop (Given × Option Opt) :=
  let name := body.takeWhile (· != '=')
  let attached := body.drop name.length
  match known.find? (·.long.toList == name) with
  | none => .error .usage
  | some option =>
    match takesValue option, attached with
    | false, [] => (give given option "").map (·, none)
    | false, _ => .error .usage
    | true, [] => .ok (given, some option)
    | true, _ :: value => (give given option (String.ofList value)).map (·, none)

/-- What an argument looks like. -/
inductive Shape where
  | separator
  | long (body : List Char)
  | cluster (body : List Char)
  | word (text : String)

def shape (argument : String) : Shape :=
  match argument.toList with
  | ['-', '-'] => .separator
  | '-' :: '-' :: body => .long body
  | ['-'] => .word argument
  | '-' :: body => .cluster body
  | _ => .word argument

def verbs : List (String × Verb) := [("dump", .dump), ("extract", .extract), ("boot", .boot)]

/-- The options up to the first word that is no value, and what comes from there on. -/
def readOptions (known : List Opt) : List String → Given → Option Opt →
    Except Stop (Given × List String)
  | [], given, none => .ok (given, [])
  | [], _, some _ => .error .usage
  | argument :: rest, given, waiting =>
    match waiting, shape argument with
    | some option, .word text =>
      match give given option text with
      | .error stop => .error stop
      | .ok given => readOptions known rest given none
    | some _, _ => .error .usage
    | none, .word _ => .ok (given, argument :: rest)
    | none, .separator => if rest.isEmpty then .ok (given, []) else .error .usage
    | none, .long body =>
      match readLong known body given with
      | .error stop => .error stop
      | .ok (given, waiting) => readOptions known rest given waiting
    | none, .cluster body =>
      match readCluster known body given with
      | .error stop => .error stop
      | .ok (given, waiting) => readOptions known rest given waiting

/-- What a command line asks for. -/
structure Request where
  verb : Verb
  /-- Options after the subcommand come before those in front of it. -/
  given : Given
  deriving Repr

namespace Request

def value? (r : Request) (key : Key) : Option String := r.given.lookup key

def has (r : Request) (key : Key) : Bool := (r.value? key).isSome

def path? (r : Request) (key : Key) : Option Path := (r.value? key).map Path.mk

/-- The container file. It is always given. -/
def input (r : Request) : Path := (r.path? .input).getD ⟨""⟩

/-- The offset of the container, zero if none is given. -/
def offset (r : Request) : UInt64 :=
  UInt64.ofNat (((r.value? .offset).bind number?).getD 0)

end Request

/-- The options that a subcommand cannot do without. -/
def required : Verb → List Key
  | .dump | .boot => [.input]
  | .extract => [.input, .output]

/-- The request that a command line states. -/
def readArguments (arguments : List String) : Except Stop Request := do
  let (before, rest) ← readOptions (options none) arguments [] none
  match rest with
  | [] => .error .usage
  | "help" :: [] => .error .help
  | "help" :: name :: more =>
    if more.isEmpty && (name == "help" || (verbs.lookup name).isSome) then .error .help
    else .error .usage
  | name :: rest =>
    match verbs.lookup name with
    | none => .error .usage
    | some verb =>
      let (after, words) ← readOptions (options (some verb)) rest [] none
      if words.isEmpty && (required verb).all fun key => after.any (·.1 == key) then
        .ok ⟨verb, after ++ before⟩
      else .error .usage

end Cartridge.Command
