import Assay.Command.Quoted
import Assay.Datum
import Assay.Digest.Base64
import Assay.Log
import Assay.Text.Blank
import Assay.Text.Lines

/-!
# Jobs

What a job does, event by event, and what one hears of it who waits for its end, but not longer
than a limit.
-/

namespace Assay

namespace Job

inductive Event where
  | out (text : String)
  | err (text : String)
  | wait (seconds : Float)

end Job

/-- The events of a job, and the code it ends with; a signal that ends it counts negative. -/
structure Job where
  events : List Job.Event
  code : Int

namespace Job

/-- The jobs that commands start; a command without one cannot be started. -/
abbrev Starter := List String → Option Job

/-- The events before a limit, and whether the job ended by then. -/
def before (limit : Float) : Float → List Event → List Event × Bool
  | _, [] => ([], true)
  | time, e :: es =>
    let time := match e with
      | .wait s => time + s
      | _ => time
    if limit ≤ time then ([], false)
    else
      let (rest, ended) := Job.before limit time es
      (e :: rest, ended)

/-- A limit of zero is none. -/
def heard (limit : Float) (p : Job) : List Event × Bool :=
  if limit == 0 then (p.events, true) else Job.before limit 0 p.events

def outText (es : List Event) : String :=
  Text.fromFile (String.join (es.map fun
    | .out s => s
    | _ => ""))

def errText (es : List Event) : String :=
  Text.fromFile (String.join (es.map fun
    | .err s => s
    | _ => ""))

/-- The lines that have been read; of a job that goes on, only those that are complete. -/
def linesOf (ended : Bool) (text : String) : List String :=
  (Text.feedLines text).filter fun l => ended || l.endsWith "\n"

/-- A line as it is logged: without its last character. -/
def logged (line : String) : String := String.ofList line.toList.dropLast

/-- How the wait for a job ended. -/
inductive Ending where
  | done (out : String)
  | failed (code : Int) (out err : String)
  | timedOut
  | notFound

/-- What was heard of a job: its lines, and how the wait ended. -/
structure Heard where
  outs : List String
  errs : List String
  ending : Ending

/-- Waits for a job, hearing both of its channels line by line. -/
def listen (start : Starter) (command : List String) (limit : Float) : Heard :=
  match start command with
  | none => ⟨[], [], .notFound⟩
  | some p =>
    let (es, ended) := p.heard limit
    let outs := (linesOf ended (outText es)).map logged
    let errs := (linesOf ended (errText es)).map logged
    if !ended then ⟨outs, errs, .timedOut⟩
    else if p.code ≠ 0 then ⟨outs, errs, .failed p.code (outText es) (errText es)⟩
    else ⟨outs, errs, .done (outText es)⟩

/-- The name by which the messages of a command are marked. -/
def mark (command : List String) : String :=
  Digest.summary (Datum.list (command.map Datum.str)).text

/-- Waits for a job, logging its start, its complaints and its end. -/
def supervise (start : Starter) (command : List String) (limit : Float) :
    Ending × List Message :=
  let note (text : String) : Message := ⟨.debug, text⟩
  let started := note ("starting: " ++ Command.line command)
  match start command with
  | none => (.notFound, [started])
  | some p =>
    let (es, ended) := p.heard limit
    let lines := linesOf ended (errText es)
    let log := started :: lines.map fun l => note (logged l)
    let out := Text.trim (outText es)
    if !ended then (.timedOut, log ++ [note "process timed out, terminating"])
    else if p.code ≠ 0 then (.failed p.code out ("\n".intercalate lines), log)
    else (.done out, log ++ [note "done"])

end Job

end Assay
