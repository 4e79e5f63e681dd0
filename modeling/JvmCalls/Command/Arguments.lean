import JvmCalls.Call.Edge
import JvmCalls.Walk.Basic

/-!
# Command line arguments

Arguments are read from left to right.  The first one that cannot be accepted
is a usage fault; a request for the version or for help before it wins.
-/

namespace JvmCalls.Command

/-- What a run is asked to do. -/
structure Options where
  archives : List String
  includePackages : List String
  descriptors : Bool
  skipMalformed : Bool
  parallel : Bool
  json : Bool
  verbose : Bool
  deriving DecidableEq, Repr

namespace Options

def none : Options where
  archives := []
  includePackages := []
  descriptors := false
  skipMalformed := false
  parallel := false
  json := false
  verbose := false

/-- The filter of the last list of prefixes. -/
def filter (options : Options) : TypeFilter :=
  match options.includePackages.getLast? with
  | some list => TypeFilter.ofList list
  | Option.none => TypeFilter.everything

def style (options : Options) : SignatureStyle :=
  if options.descriptors then .descriptor else .readable

def policy (options : Options) : DecodePolicy :=
  if options.skipMalformed then .skip else .abort

def walker (options : Options) : Walker where
  filter := options.filter
  policy := options.policy

end Options

inductive UsageFault
  | unknown (argument : String)
  | repeated (argument : String)
  | unexpectedValue (argument : String)
  | missingValue (argument : String)
  | emptyPath
  | noArchives
  deriving DecidableEq, Repr

def UsageFault.message : UsageFault → String
  | unknown argument => s!"error: unexpected argument '{argument}' found"
  | repeated argument => s!"error: the argument '{argument}' cannot be used multiple times"
  | unexpectedValue argument => s!"error: unexpected value in '{argument}'"
  | missingValue argument => s!"error: equal sign is needed when assigning a value to '{argument}'"
  | emptyPath => "error: a path must not be empty"
  | noArchives => "error: the following required arguments were not provided: <JAR>..."

inductive Request
  | extract (options : Options)
  | version
  | help
  deriving DecidableEq, Repr

/-- The outcome of one argument: more options, or a request that ends the
reading. -/
inductive Reading
  | options (options : Options)
  | request (request : Request)
  deriving DecidableEq, Repr

/-- The outcome of a flag that may be given once. -/
def once (argument : String) (given : Bool) (options : Options) : Except UsageFault Reading :=
  if given then .error (.repeated argument) else .ok (.options options)

def readFlag (options : Options) (argument : String) : Except UsageFault Reading :=
  match argument with
  | "--json" => once argument options.json { options with json := true }
  | "--verbose" => once argument options.verbose { options with verbose := true }
  | "--descriptors" => once argument options.descriptors { options with descriptors := true }
  | "--skip-malformed" =>
      once argument options.skipMalformed { options with skipMalformed := true }
  | "--parallel" => once argument options.parallel { options with parallel := true }
  | "--version" => .ok (.request .version)
  | "--help" => .ok (.request .help)
  | "--includePackages" => .error (.missingValue argument)
  | _ => .error (.unknown argument)

/-- Reads an argument that starts with two hyphens. -/
def readLong (options : Options) (argument : String) : Except UsageFault Reading :=
  let text := argument.toList
  match text.dropWhile (· != '=') with
  | [] => readFlag options argument
  | _ :: value =>
      let name := String.ofList (text.takeWhile (· != '='))
      if name = "--includePackages" then
        .ok (.options { options with
          includePackages := options.includePackages ++ [String.ofList value] })
      else
        match readFlag Options.none name with
        | .ok _ => .error (.unexpectedValue argument)
        | .error fault => .error fault

/-- Reads the letters behind a single hyphen. -/
def readShort (options : Options) (argument : String) : (letters : List Char) →
    Except UsageFault Reading
  | [] => .ok (.options options)
  | 'v' :: letters =>
      if options.verbose then .error (.repeated argument)
      else readShort { options with verbose := true } argument letters
  | 'V' :: _ => .ok (.request .version)
  | 'h' :: _ => .ok (.request .help)
  | _ :: _ => .error (.unknown argument)

def readPath (options : Options) (argument : String) : Except UsageFault Reading :=
  if argument.isEmpty then
    .error .emptyPath
  else
    .ok (.options { options with archives := options.archives ++ [argument] })

/-- Reads an argument in front of which no other ended the flags.  A single
hyphen is a path. -/
def readArgument (options : Options) (argument : String) : Except UsageFault Reading :=
  match argument.toList with
  | '-' :: '-' :: _ => readLong options argument
  | '-' :: letter :: letters => readShort options argument (letter :: letters)
  | _ => readPath options argument

/-- The request of options that no other request replaces. -/
def finish (options : Options) : Except UsageFault Request :=
  if options.archives.isEmpty then .error .noArchives else .ok (.extract options)

/-- Reads arguments; once `pathsOnly` holds, all of them are paths. -/
def readFrom (options : Options) (pathsOnly : Bool) : (arguments : List String) →
    Except UsageFault Request
  | [] => finish options
  | argument :: arguments =>
      if !pathsOnly && argument = "--" then
        readFrom options true arguments
      else do
        let reading ←
          if pathsOnly then readPath options argument else readArgument options argument
        match reading with
        | .request request => return request
        | .options options => readFrom options pathsOnly arguments

/-- The request of the arguments of a command line. -/
def readArguments (arguments : List String) : Except UsageFault Request :=
  readFrom Options.none false arguments

end JvmCalls.Command
