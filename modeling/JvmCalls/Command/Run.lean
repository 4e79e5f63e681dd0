import JvmCalls.Command.Arguments
import JvmCalls.Output.Buffered
import JvmCalls.Walk.Chunked
import JvmCalls.Walk.Sinks

/-!
# Running the command

Archives are processed in the order of the arguments.  A fault of one archive
is reported and the next one follows; a fault of the output ends the run.  The
output is flushed after each archive.
-/

namespace JvmCalls.Command

abbrev ExtractFault := WalkFault OutputFault

inductive Report
  | missing (path : String)
  | archive (path : String) (fault : ArchiveFault)
  | undecodable (path entry : String) (fault : Fault)
  | output
  | flush
  deriving DecidableEq, Repr

namespace Report

/-- The text of a report up to the details of its cause. -/
def summary : Report → String
  | missing path => "Jar file " ++ path ++ " does not exist"
  | archive path _ => "failed to process archive: " ++ path
  | undecodable path entry _ =>
      "failed to process archive: " ++ path ++ ": Failed to decode " ++ entry
  | output => "Failed to write output"
  | flush => "failed to write output"

def line : Report → String
  | missing path => (missing path).summary
  | archive path fault => "Error: " ++ (archive path fault).summary ++ ": " ++ fault.message
  | undecodable path entry fault =>
      "Error: " ++ (undecodable path entry fault).summary ++ ": " ++ fault.message
  | output => "Error: " ++ output.summary
  | flush => "Error: " ++ flush.summary

end Report

inductive Ending
  | complete (success : Bool)
  | outputFailed
  | aborted
  deriving DecidableEq, Repr

def Ending.status : Ending → Nat
  | complete true => 0
  | complete false | outputFailed => 1
  | aborted => 101

/-- The exit status of arguments that are refused. -/
def usageStatus : Nat := 2

section Extract

variable {State : Type} [Output State]

def Options.sink (options : Options) : Sink State OutputFault :=
  if options.json then recordSink options.style else lineSink options.style

/-- The outcomes of reading an archive that its walk deals with. -/
def Options.readsOf (options : Options) (archive : Archive) : List EntryRead :=
  if options.parallel then Chunk.surviving archive.entries else archive.entries

def extractPath (options : Options) (path : String) (content : PathContent) :
    Walk State OutputFault WalkStats :=
  match Archive.ofPath path content with
  | .error fault => throw (.read fault)
  | .ok archive => options.walker.walk options.parallel options.sink (options.readsOf archive)

/-- What a fault of one archive leads to: a report, or the end of the run. -/
def judge (path : String) : ExtractFault → Except (Ending × List Report) Report
  | .read (.missing _) => .ok (.missing path)
  | .read (.excessiveSize ..) => .error (.aborted, [])
  | .read fault => .ok (.archive path fault)
  | .undecodable entry fault => .ok (.undecodable path entry fault)
  | .sink _ => .error (.outputFailed, [.output])

/-- The archives from a path on; `reports` are the reports so far, the last
one first, and `success` tells whether all archives so far were processed. -/
def extractFrom (options : Options) (contentOf : String → PathContent) :
    (paths : List String) → (success : Bool) → (reports : List Report) → State →
    Ending × List Report × State
  | [], success, reports, state => (.complete success, reports.reverse, state)
  | path :: paths, success, reports, state =>
      let continueWith (success : Bool) (reports : List Report) (state : State) :=
        match Output.flush state with
        | .ok () state => extractFrom options contentOf paths success reports state
        | .error _ state => (.outputFailed, (Report.flush :: reports).reverse, state)
      match extractPath options path (contentOf path) state with
      | .ok _ state => continueWith success reports state
      | .error fault state =>
          match judge path fault with
          | .ok report => continueWith false (report :: reports) state
          | .error (ending, last) => (ending, (last ++ reports).reverse, state)

def extract (options : Options) (contentOf : String → PathContent) (state : State) :
    Ending × List Report × State :=
  extractFrom options contentOf options.archives true [] state

end Extract

structure Outcome where
  status : Nat
  output : Device
  reports : List Report
  deriving DecidableEq, Repr

def versionLine : String := "javacg 0.1.0\n"

def helpText : String :=
  "Usage: javacg [OPTIONS] <JAR>...\n\n" ++
  "Options:\n" ++
  "      --json                        Write one JSON object per call\n" ++
  "  -v, --verbose                     Write debug messages\n" ++
  "      --includePackages=<PREFIXES>  Only calls to types with one of the prefixes\n" ++
  "      --descriptors                 Write descriptors instead of readable types\n" ++
  "      --skip-malformed              Skip classes that cannot be decoded\n" ++
  "      --parallel                    Decode classes in chunks\n" ++
  "  -h, --help                        Print help\n" ++
  "  -V, --version                     Print version\n"

/-- Writes a text that is not the output of a run; a refusal is ignored. -/
def printed (device : Device) (text : String) : Device :=
  match Device.write (Utf8.encode text) device with
  | .ok () device => device
  | .error _ device => device

/-- The output of a run: a device whose lines go out at once, behind a buffer for
many of them. -/
abbrev BufferedDevice := Buffered .byBlock 8192 (Buffered .byLine 1024 Device)

/-- The outcome of a command line whose output goes to the device through
buffers. -/
def run (arguments : List String) (contentOf : String → PathContent) (device : Device) :
    Outcome :=
  match readArguments arguments with
  | .error _ => { status := usageStatus, output := device, reports := [] }
  | .ok .version => { status := 0, output := printed device versionLine, reports := [] }
  | .ok .help => { status := 0, output := printed device helpText, reports := [] }
  | .ok (.extract options) =>
      let output : BufferedDevice := .ofOutput (.ofOutput device)
      let (ending, reports, output) := extract options contentOf output
      { status := ending.status, output := output.close.close, reports }

end JvmCalls.Command
