import Assay.Command.Job
import Assay.Decimal.Reading
import Assay.Text.Digit

/-!
# A small shell

The jobs of a few plain commands, and of scripts made of them: words with quotes, sequences,
conditions on the last code, and redirections of one channel to the other.
-/

namespace Assay.Shell

open Job (Event)

/-- The characters that octal digits at the front stand for. -/
def octal (cs : List Char) : Char × List Char :=
  let ds := (cs.take 3).takeWhile fun c => '0' ≤ c && c ≤ '7'
  (Char.ofNat (ds.foldl (fun n d => 8 * n + (d.toNat - 48)) 0), cs.drop ds.length)

/-- The characters after a backslash, up to `fuel` of them. -/
def unescape : Nat → List Char → List Char
  | 0, _ => []
  | _, [] => []
  | fuel + 1, '\\' :: c :: cs =>
    match c with
    | 'n' => '\n' :: unescape fuel cs
    | 't' => '\t' :: unescape fuel cs
    | 'r' => '\r' :: unescape fuel cs
    | 'a' => '\x07' :: unescape fuel cs
    | 'b' => '\x08' :: unescape fuel cs
    | 'f' => '\x0c' :: unescape fuel cs
    | 'v' => '\x0b' :: unescape fuel cs
    | '\\' => '\\' :: unescape fuel cs
    | '"' => '"' :: unescape fuel cs
    | c =>
      if '0' ≤ c ∧ c ≤ '7' then
        let (x, rest) := octal (c :: cs)
        x :: unescape fuel rest
      else '\\' :: c :: unescape fuel cs
  | fuel + 1, c :: cs => c :: unescape fuel cs

def unescaped (s : String) : String := String.ofList (unescape (s.length + 1) s.toList)

/-- A format with its arguments filled in, and the arguments left over. -/
def fill : List Char → List String → List Char × List String
  | '%' :: '%' :: cs, args =>
    let (r, rest) := fill cs args
    ('%' :: r, rest)
  | '%' :: c :: cs, args =>
    let arg := args.headD (if c = 'd' ∨ c = 'i' ∨ c = 'u' then "0" else "")
    let shown := match c with
      | 's' => arg.toList
      | 'c' => arg.toList.take 1
      | 'b' => (unescaped arg).toList
      | 'd' | 'i' | 'u' => (toString ((arg.toInt?).getD 0)).toList
      | c => ['%', c]
    let (r, rest) := fill cs args.tail
    (shown ++ r, rest)
  | c :: cs, args =>
    let (r, rest) := fill cs args
    (c :: r, rest)
  | [], args => ([], args)

/-- The format is used again until no argument is left. -/
def fillAll (format : List Char) : Nat → List String → List Char
  | 0, _ => []
  | fuel + 1, args =>
    match fill format args with
    | (r, []) => r
    | (r, rest) => if rest.length < args.length then r ++ fillAll format fuel rest else r

def printf : List String → String
  | [] => ""
  | format :: args =>
    String.ofList (fillAll (unescaped format).toList (args.length + 1) args)

def upTo (a step : Int) : Nat → List Int
  | 0 => []
  | n + 1 => a :: upTo (a + step) step n

/-- The numbers from one to another. -/
def seq (args : List String) : String :=
  let count (a s b : Int) : Nat :=
    if 0 < s ∧ a ≤ b then ((b - a) / s).toNat + 1
    else if s < 0 ∧ b ≤ a then ((a - b) / (-s)).toNat + 1 else 0
  let shown (a s b : Int) : String :=
    String.join ((upTo a s (count a s b)).map fun n => toString n ++ "\n")
  match args.mapM String.toInt? with
  | some [b] => shown 1 1 b
  | some [a, b] => shown a 1 b
  | some [a, s, b] => shown a s b
  | _ => ""

/-- The options at the front of an echo: no line feed at the end, and escapes. -/
def echoOptions : List String → Bool → Bool → Bool × Bool × List String
  | w :: ws, quiet, escapes =>
    match w.toList with
    | '-' :: c :: cs =>
      if (c :: cs).all fun x => x = 'n' || x = 'e' || x = 'E' then
        let escapes := (c :: cs).foldl
          (fun e x => if x = 'e' then true else if x = 'E' then false else e) escapes
        echoOptions ws (quiet || (c :: cs).contains 'n') escapes
      else (quiet, escapes, w :: ws)
    | _ => (quiet, escapes, w :: ws)
  | [], quiet, escapes => (quiet, escapes, [])

def echo (args : List String) : String :=
  let (quiet, escapes, words) := echoOptions args false false
  let s := " ".intercalate words
  (if escapes then unescaped s else s) ++ (if quiet then "" else "\n")

/-- The echo of a script knows one option, and always reads escapes. -/
def scriptEcho (args : List String) : String :=
  match args with
  | "-n" :: words => unescaped (" ".intercalate words)
  | words => unescaped (" ".intercalate words) ++ "\n"

/-- How a command leaves the script that it stands in. -/
inductive Effect where
  /-- The script goes on. -/
  | code (n : Int)
  /-- The script ends. -/
  | exit (n : Int)

def signals : List (String × Int) :=
  [("HUP", 1), ("INT", 2), ("QUIT", 3), ("KILL", 9), ("TERM", 15), ("9", 9), ("15", 15), ("1", 1),
    ("2", 2), ("3", 3)]

def seconds (arg : String) : Float := valueOr 0 (Decimal.read arg)

/-- What a plain command does, in a script or on its own. -/
def plain? (inScript : Bool) (last : Int) : List String → Option (List Event × Effect)
  | [] => some ([], .code last)
  | name :: args =>
    match name with
    | "echo" => some ([.out (if inScript then scriptEcho args else echo args)], .code 0)
    | "printf" => some ([.out (printf args)], .code 0)
    | "true" => some ([], .code 0)
    | "false" => some ([], .code 1)
    | "sleep" => some ([.wait ((args.map seconds).foldl (· + ·) 0)], .code 0)
    | "seq" => some ([.out (seq args)], .code 0)
    | ":" => if inScript then some ([], .code 0) else none
    | "exit" =>
      if inScript then
        some ([], .exit (match args with
          | a :: _ => (a.toInt?.getD 2).emod 256
          | [] => last))
      else none
    | "kill" =>
      match args with
      | [flag, "$$"] =>
        (signals.lookup (String.ofList (flag.toList.drop 1))).map fun n => ([], .exit (-n))
      | ["$$"] => some ([], .exit (-15))
      | _ => none
    | _ => none

/-- A word or an operator of a script. -/
inductive Lexeme where
  | word (s : String)
  | op (s : String)
  deriving DecidableEq

/-- The characters up to the closing double quote, and the rest. -/
def doubleQuoted : List Char → List Char → List Char × List Char
  | acc, '"' :: cs => (acc.reverse, cs)
  | acc, '\\' :: c :: cs =>
    if c = '"' ∨ c = '\\' ∨ c = '$' then doubleQuoted (c :: acc) cs
    else doubleQuoted (c :: '\\' :: acc) cs
  | acc, c :: cs => doubleQuoted (c :: acc) cs
  | acc, [] => (acc.reverse, [])

/-- The word that has been read, if one has. -/
def finished (acc : Option (List Char)) : List Lexeme :=
  match acc with
  | some cs => [.word (String.ofList cs.reverse)]
  | none => []

/-- Cuts a script into words and operators. -/
def scan : Nat → Option (List Char) → List Char → List Lexeme
  | 0, acc, _ => finished acc
  | _, acc, [] => finished acc
  | fuel + 1, acc, c :: cs =>
    let sofar := acc.getD []
    match c with
    | '\'' =>
      let inner := cs.takeWhile (· ≠ '\'')
      scan fuel (some (inner.reverse ++ sofar)) (cs.drop (inner.length + 1))
    | '"' =>
      let (inner, rest) := doubleQuoted [] cs
      scan fuel (some (inner.reverse ++ sofar)) rest
    | '\\' => scan fuel (some (cs.head?.toList ++ sofar)) cs.tail
    | ';' => finished acc ++ .op ";" :: scan fuel none cs
    | '\n' => finished acc ++ .op ";" :: scan fuel none cs
    | '&' =>
      match cs with
      | '&' :: rest => finished acc ++ .op "&&" :: scan fuel none rest
      | _ => finished acc ++ .op "&" :: scan fuel none cs
    | '|' =>
      match cs with
      | '|' :: rest => finished acc ++ .op "||" :: scan fuel none rest
      | _ => finished acc ++ .op "|" :: scan fuel none cs
    | '>' =>
      let (channel, before) := match acc with
        | some ['2'] => ("2", [])
        | some ['1'] => ("1", [])
        | acc => ("1", finished acc)
      match cs with
      | '&' :: d :: rest =>
        before ++ .op (channel ++ ">&" ++ String.singleton d) :: scan fuel none rest
      | _ => before ++ .op (channel ++ ">") :: scan fuel none cs
    | c =>
      if c = ' ' ∨ c = '\t' then finished acc ++ scan fuel none cs
      else scan fuel (some (c :: sofar)) cs

/-- A command of a script: its words, and where its channels go. -/
structure Simple where
  words : List String
  redirects : List String

/-- Commands, each with the operator in front of it. -/
def commands : List Lexeme → String → Simple → List (String × Simple)
  | [], before, c => [(before, ⟨c.words.reverse, c.redirects.reverse⟩)]
  | .word w :: ls, before, c => commands ls before { c with words := w :: c.words }
  | .op o :: ls, before, c =>
    if o = ";" ∨ o = "&&" ∨ o = "||" then
      (before, ⟨c.words.reverse, c.redirects.reverse⟩) :: commands ls o ⟨[], []⟩
    else commands ls before { c with redirects := o :: c.redirects }

/-- The events of a command after its redirections. -/
def redirected (redirects : List String) (e : Event) : Event :=
  match e with
  | .out s => if redirects.contains "1>&2" then .err s else .out s
  | .err s => if redirects.contains "2>&1" then .out s else .err s
  | e => e

def runCommands : List (String × Simple) → Int → Job
  | [], last => ⟨[], last⟩
  | (before, c) :: rest, last =>
    if (before = "&&" ∧ last ≠ 0) ∨ (before = "||" ∧ last = 0) then runCommands rest last
    else
      let (events, effect) := match plain? true last c.words with
        | some r => r
        | none => ([Event.err ("sh: 1: " ++ c.words.headD "" ++ ": not found\n")], .code 127)
      let events := events.map (redirected c.redirects)
      match effect with
      | .exit n => ⟨events, n⟩
      | .code n =>
        let p := runCommands rest n
        ⟨events ++ p.events, p.code⟩

def script (text : String) : Job :=
  runCommands (commands (scan (text.length + 1) none text.toList) ";" ⟨[], []⟩) 0

/-- The job of a command. -/
def start : Job.Starter
  | ["sh", "-c", text] => some (script text)
  | "sh" :: "-c" :: text :: _ => some (script text)
  | command =>
    match plain? false 0 command with
    | some (events, .code n) => some ⟨events, n⟩
    | some (events, .exit n) => some ⟨events, n⟩
    | none => none

end Assay.Shell
