import IocpRuntime.Buffer.Sequence
import IocpRuntime.Http.QueryParams

/-! The three loops over the arguments of a server: that of `CliParser` and the `ApplyCommandLine`
of the echo server and of the HTTP server. `applyOption` and `showHelp` set the options. -/

namespace IocpRuntime.Server
open Lib Buffer Http

/-- What a loop takes some arguments for. -/
inductive Item where
  | help (flag : Octets)
  | config (arguments : List Octets) (path : Octets)
  | option (arguments : List Octets) (name value : Octets)
  | positional (text : Octets)

/-- How a loop reads an argument with those behind it. -/
abbrev Next := Octets → List Octets → Except Thrown (Item × List Octets)

/-- A loop: it takes the next arguments and acts on them. -/
def runLoop (next : Next) (act : σ → Item → Except Thrown σ) :
    Nat → σ → List Octets → Except Thrown σ
  | rounds + 1, s, arg :: rest =>
    match next arg rest with
    | .ok (item, rest) => act s item >>= fun s => runLoop next act rounds s rest
    | .error error => .error error
  | _, s, _ => .ok s

def isHelp (arg : Octets) : Bool := arg = octets "--help" ∨ arg = octets "-h"

/-- `--name=value`, or `--name` and the argument behind it. -/
def nameAndValue (missing after : String) : Next := fun arg rest =>
  let body := arg.drop 2
  match find body 61 with
  | some separator =>
    .ok (.option [arg] (body.take separator) (body.drop (separator + 1)), rest)
  | none =>
    match rest with
    | [] => .error (.invalidArgument
        (missing ++ String.ofList (body.map fun c => Char.ofNat c.toNat) ++ after))
    | value :: rest => .ok (.option [arg, value] body value, rest)

structure CliParser where
  showHelp : Bool := false
  configFile : Option Octets := none
  options : StringMap := ∅
  positional : List Octets := []

namespace CliParser

def next : Next := fun arg rest =>
  if isHelp arg then .ok (.help arg, rest)
  else if arg = octets "--config" then
    match rest with
    | [] => .error (.invalidArgument "--config requires a path")
    | path :: rest => .ok (.config [arg, path] path, rest)
  else if (octets "--config=").isPrefixOf arg then .ok (.config [arg] (arg.drop 9), rest)
  else if ¬ (octets "--").isPrefixOf arg then .ok (.positional arg, rest)
  else nameAndValue "--" " requires a value" arg rest

def act (cli : CliParser) : Item → Except Thrown CliParser
  | .help _ => .ok { cli with showHelp := true }
  | .config _ path => .ok { cli with configFile := some path }
  | .option _ name value => .ok { cli with options := emplace cli.options name value }
  | .positional text => .ok { cli with positional := cli.positional ++ [text] }

def create (args : List Octets) : Except Thrown CliParser := runLoop next act args.length {} args

end CliParser

variable (applyOption : σ → Octets → Octets → Except Thrown σ) (showHelp : σ → σ)

namespace Echo

/-- Where the name is `config`, the loop goes on. -/
def next : Next := fun arg rest =>
  if isHelp arg then .ok (.help arg, rest)
  else if ¬ (octets "--").isPrefixOf arg then .ok (.positional arg, rest)
  else
    match nameAndValue "설정 값이 없습니다: --" "" arg rest with
    | .ok (.option arguments name value, rest) =>
      if name = octets "config" then .ok (.config arguments value, rest)
      else .ok (.option arguments name value, rest)
    | result => result

/-- With whether the port was set. -/
def act (s : Bool × σ) : Item → Except Thrown (Bool × σ)
  | .help _ => .ok (s.1, showHelp s.2)
  | .config _ _ => .ok s
  | .option _ name value =>
    if name = octets "port" ∧ s.1 then .error (.invalidArgument "port는 한 번만 지정할 수 있습니다")
    else (applyOption s.2 name value).map (s.1 || name = octets "port", ·)
  | .positional text =>
    if s.1 then .error (.invalidArgument "positional port는 한 번만 지정할 수 있습니다")
    else (applyOption s.2 (octets "port") text).map (true, ·)

def applyCommandLine (options : σ) (args : List Octets) : Except Thrown σ :=
  (runLoop next (act applyOption showHelp) args.length (false, options) args).map Prod.snd

end Echo

namespace HttpApplication

def next : Next := fun arg rest =>
  if isHelp arg then .ok (.help arg, rest)
  else if arg = octets "--config" then .ok (.config (arg :: rest.take 1) (rest.headD []), rest.tail)
  else if (octets "--config=").isPrefixOf arg then .ok (.config [arg] (arg.drop 9), rest)
  else if ¬ (octets "--").isPrefixOf arg then .ok (.positional arg, rest)
  else nameAndValue "--" " requires a value" arg rest

def act (s : Bool × σ) : Item → Except Thrown (Bool × σ)
  | .help _ => .ok (s.1, showHelp s.2)
  | .config _ _ => .ok s
  | .option _ name value => (applyOption s.2 name value).map (s.1, ·)
  | .positional text =>
    if s.1 then .error (.invalidArgument "only one positional port may be specified")
    else (applyOption s.2 (octets "port") text).map (true, ·)

def applyCommandLine (options : σ) (args : List Octets) : Except Thrown σ :=
  (runLoop next (act applyOption showHelp) args.length (false, options) args).map Prod.snd

end HttpApplication

end IocpRuntime.Server
