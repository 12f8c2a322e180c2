import Netlist.Command.FileTree
import Netlist.Command.Request
import Netlist.Config.Document
import Netlist.Config.Setting
import Netlist.Json
import Netlist.LineDiff
import Netlist.Pipeline

/-!
# Commands

What each action of the command line prints, as a function of the files it can
read: lines for the standard output, notes for the error output and an exit
code.
-/

namespace Netlist

namespace Command

structure Output where
  code : Nat := 0
  lines : List Text := []
  /-- Warnings of a netlist that was expanded, or faults on the cards of one that was not. -/
  notes : List Text := []
  /-- What went wrong, in one sentence. -/
  complaint : Option Text := none
deriving DecidableEq, Repr

namespace Output

def refuse (complaint : Text) : Output := { code := 1, complaint := some complaint }

/-- The end of a run without a result. -/
def broken : Output := { code := 101, complaint := some "capacity overflow".toList }

def usage : Output :=
  { code := 2
    complaint := some "usage: netmacro <expand|trace|list|check> [OPTIONS] [PATH]".toList }

end Output

/-- A number with blanks in front that make it at least five characters wide. -/
def padded (n : Nat) : Text :=
  List.replicate (5 - (Text.ofNat n).length) ' ' ++ Text.ofNat n

/-- The cards of a failed deck that carry a note. -/
def annotations (deck : Deck) : List Text :=
  deck.filterMap fun card =>
    card.note.map fun note => padded card.number ++ " | " ++ card.render ++ "    <- " ++ note

def failed (failure : Failure) : Output :=
  { code := 1
    notes := (failure.deck.map annotations).getD []
    complaint := some failure.message }

def cardJson (card : Card) : Json :=
  .record [("text", .text card.text), ("line_no", .number card.number),
    ("error", .option card.note), ("disabled", .bool card.disabled)]

def warningJson (warning : Warning) : Json :=
  .record [("line_no", .number warning.number), ("text", .text warning.text),
    ("message", .text warning.message)]

def stepJson (step : Step) : Json :=
  .record [("depth", .number step.depth), ("instance", .text step.inst),
    ("subckt", .text step.subcircuit), ("call_text", .text step.call),
    ("expanded", .texts step.expanded)]

def flattenedJson {policy : CasePolicy} (flat : Flattened policy) (strip : Bool) : Json :=
  .record [("title", .option flat.title), ("lines", .list ((flat.shown strip).map cardJson)),
    ("warnings", .list (flat.expansion.warnings.map warningJson)),
    ("trace", .list (flat.expansion.trace.map stepJson))]

def summaryJson (summary : Summary) : Json :=
  .record [("name", .text summary.name), ("formals", .texts summary.formals),
    ("defaults", .list (summary.defaults.map fun entry => .texts [entry.1, entry.2])),
    ("line_no", .number summary.number)]

/-- A default of a listed definition. -/
def defaultText (entry : Text × Text) : Text := " " ++ entry.1 ++ "=" ++ entry.2

def summaryLine (summary : Summary) : Text :=
  summary.name ++ " (" ++ Text.join " " summary.formals ++ ")" ++
    summary.defaults.flatMap defaultText ++ "  [line " ++ Text.ofNat summary.number ++ "]"

/-- A replaced call as a difference between the call and what stands in its place. -/
def stepLines (index : Nat) (step : Step) : List Text :=
  let title := "--- Step " ++ Text.ofNat index ++ ": " ++ step.inst ++ " -> " ++ step.subcircuit ++
    " (depth " ++ Text.ofNat step.depth ++ ") ---"
  title :: (LineDiff.ofTexts step.call (Text.join "\n" step.expanded)).map LineDiff.render ++ [[]]

def traceLines (index : Nat) : List Step → List Text
  | [] => []
  | first :: rest => stepLines index first ++ traceLines (index + 1) rest

/-- The configuration that the options ask for. -/
def configure (files : Files) (options : Options) : Except Text Config :=
  let base : Except Text Config :=
    match options.config with
    | none => .ok {}
    | some path =>
        match files.read? path with
        | none => .error ("failed to read " ++ path)
        | some source =>
            match Config.ofYaml? source with
            | none => .error ("invalid configuration file: " ++ path)
            | some config => .ok config
  match base with
  | .error complaint => .error complaint
  | .ok config =>
      match config.applyAll options.settings with
      | .error error => .error error.message
      | .ok config => .ok config

/-- Answers for one netlist file. -/
def onFile (files : Files) (file : Text) (answer : Text → Output) : Output :=
  match files.read? file with
  | none => .refuse ("failed to read netlist '" ++ file ++ "'")
  | some source => answer source

def expand (pipeline : Pipeline) (json strip : Bool) (source : Text) : Output :=
  match pipeline.run? Scopes.mostFrames .empty source with
  | none => .broken
  | some (_, .error failure) => failed failure
  | some (_, .ok flat) =>
      if json then { lines := [(flattenedJson flat strip).print] }
      else { lines := flat.lines strip, notes := flat.expansion.warnings.map Warning.render }

def trace (pipeline : Pipeline) (source : Text) : Output :=
  match pipeline.run? Scopes.mostFrames .empty source with
  | none => .broken
  | some (_, .error failure) => failed failure
  | some (_, .ok flat) =>
      { lines := traceLines 0 flat.expansion.trace
        notes := flat.expansion.warnings.map Warning.render }

def listing (pipeline : Pipeline) (json : Bool) (source : Text) : Output :=
  match pipeline.definitions source with
  | .error diagnosis => .refuse diagnosis.message
  | .ok summaries =>
      if json then { lines := [(Json.list (summaries.map summaryJson)).print] }
      else { lines := summaries.map summaryLine }

/-- The file names of netlists end like this, in any letter case. -/
def extensions : List Text := ["cir", "sp", "spi", "spice", "net", "ckt"]

def isNetlistName (name : Text) : Bool :=
  match Files.extension? name with
  | none => false
  | some letters => extensions.contains (Text.lower letters)

/-- A file is checked as it is, a directory for the netlists below it. -/
def netlists (files : Files) (path : Text) : List Text :=
  match files.read? path with
  | some _ => [path]
  | none => files.find isNetlistName path

/-- Checks files one after the other, with the cache blocks of earlier ones at hand, up to a run
without a result. -/
def checkFrom (files : Files) (pipeline : Pipeline) (store : CacheStore) :
    List Text → List (Option (Bool × Text))
  | [] => []
  | file :: rest =>
      match files.read? file with
      | none => some (false, "FAIL " ++ file) :: checkFrom files pipeline store rest
      | some source =>
          match pipeline.run? Scopes.mostFrames store source with
          | none => [none]
          | some (store, result) =>
              let verdict :=
                match result with
                | .error _ => (false, "FAIL " ++ file)
                | .ok flat =>
                    (true, "ok   " ++ file ++ " (" ++
                      Text.ofNat flat.expansion.warnings.length ++ " warnings)")
              some verdict :: checkFrom files pipeline store rest

def check (files : Files) (pipeline : Pipeline) (path : Text) : Output :=
  match netlists files path with
  | [] => .refuse ("no netlists found under '" ++ path ++ "'")
  | paths =>
      let checked := checkFrom files pipeline .empty paths
      let verdicts := checked.filterMap id
      let bad := (verdicts.filter fun verdict => !verdict.1).length
      if checked.any Option.isNone then { Output.broken with lines := verdicts.map Prod.snd }
      else if bad = 0 then { lines := verdicts.map Prod.snd }
      else
        { code := 1
          lines := verdicts.map Prod.snd
          complaint := some (Text.ofNat bad ++ " of " ++ Text.ofNat paths.length ++
            " netlists failed") }

def perform (files : Files) (action : Action) (options : Options) : Output :=
  match configure files options with
  | .error complaint => .refuse complaint
  | .ok config =>
      let pipeline : Pipeline := { config, hasTitle := !options.noTitle }
      match action with
      | .expand file json strip => onFile files file (expand pipeline json strip)
      | .trace file => onFile files file (trace pipeline)
      | .list file json => onFile files file (listing pipeline json)
      | .check path => check files pipeline path

/-- What the program answers to its arguments. -/
def run (files : Files) (arguments : List Text) : Output :=
  match request? arguments with
  | none => .usage
  | some .version => { lines := ["netmacro 0.1.0"] }
  | some .help => { lines := ["Hierarchical SPICE netlist subcircuit expansion."] }
  | some (.perform action options) => perform files action options

end Command

end Netlist
