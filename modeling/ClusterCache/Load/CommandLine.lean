/-
# Options on a command line

A setting is a word that begins with two hyphens.  A switch stands alone; any other setting has a
value, in the same word after an equals sign or in the word that follows, which must not begin with a
hyphen.  A value in a word of its own is looked at only when the next setting begins or the line ends,
so a word that is no setting at all is refused before it.  No setting comes twice.
-/

import ClusterCache.Decimal.Reader
import ClusterCache.Duration.Text
import ClusterCache.Load.Options

namespace ClusterCache
namespace Load

/-- What can be set on the command line. -/
inductive Setting where
  | maxEntries
  | strategy
  | wakeUpInterval
  | writers
  | duration
  | settleTimeout
  | lockStriping
  | shards
  | keySpace
  | json
  deriving DecidableEq, Repr

/-- Why a command line was refused. -/
inductive UsageError where
  /-- A setting without its value. -/
  | missingValue
  /-- A value that is not among those that can be chosen. -/
  | unknownChoice
  /-- A value that cannot be read. -/
  | malformedValue
  /-- A word that is no setting, and no value of one. -/
  | unknownArgument
  /-- A setting that comes twice. -/
  | repeatedSetting
  /-- A switch with a value. -/
  | unneededValue
  deriving DecidableEq, Repr

/-- What keeps a command line from giving options. -/
inductive Interruption where
  /-- Help was asked for: in full, or a summary. -/
  | help (full : Bool)
  /-- The version was asked for. -/
  | version
  | refused (e : UsageError)
  deriving DecidableEq, Repr

namespace Setting

/-- All settings. -/
def all : List Setting :=
  [maxEntries, strategy, wakeUpInterval, writers, duration, settleTimeout, lockStriping, shards,
    keySpace, json]

/-- The word for a setting, without its hyphens. -/
def name : Setting → String
  | maxEntries => "max-entries"
  | strategy => "strategy"
  | wakeUpInterval => "wake-up-interval"
  | writers => "writers"
  | duration => "duration"
  | settleTimeout => "settle-timeout"
  | lockStriping => "lock-striping"
  | shards => "shards"
  | keySpace => "key-space"
  | json => "json"

/-- Whether a setting stands alone. -/
def isSwitch (s : Setting) : Bool := s = lockStriping || s = json

end Setting

/-- A number of 64 bits; a plus sign may stand in front. -/
def number? (s : String) : Option UInt64 :=
  let ds := match s.toList with
    | '+' :: ds => ds
    | ds => ds
  let n := Decimal.digitsToNat ds
  if ds.isEmpty || !ds.all Char.isDigit || UInt64.size ≤ n then none else some n.toUInt64

/-- The order with this name in lower case. -/
def choice? (s : String) : Option EvictionOrder :=
  EvictionOrder.all.find? fun o => o.name.toLower = s

/-- A value, or else a reason to refuse it. -/
def readAs {α : Type} (e : UsageError) : Option α → Except Interruption α
  | some a => .ok a
  | none => .error (.refused e)

/-- Gives a setting its value; a switch has none. -/
def Options.set (o : Options) (value : String) : Setting → Except Interruption Options
  | .maxEntries => (readAs .malformedValue (number? value)).map fun v => { o with maxEntries := v }
  | .strategy => (readAs .unknownChoice (choice? value)).map fun v => { o with order := v }
  | .wakeUpInterval =>
    (readAs .malformedValue (Duration.parse? value)).map fun v => { o with wakeUpInterval := v }
  | .writers => (readAs .malformedValue (number? value)).map fun v => { o with writers := v }
  | .duration =>
    (readAs .malformedValue (Duration.parse? value)).map fun v => { o with duration := v }
  | .settleTimeout =>
    (readAs .malformedValue (Duration.parse? value)).map fun v => { o with settleTimeout := v }
  | .lockStriping => .ok { o with lockStriping := true }
  | .shards => (readAs .malformedValue (number? value)).map fun v => { o with shards := v }
  | .keySpace => (readAs .malformedValue (number? value)).map fun v => { o with keySpace := v }
  | .json => .ok { o with json := true }

/-- What a word on the command line is. -/
inductive Word where
  /-- Two hyphens; nothing after it is a setting. -/
  | divider
  /-- A word after two hyphens, and a value if there is an equals sign. -/
  | long (name : String) (value : Option String)
  /-- A letter after one hyphen. -/
  | short (c : Char)
  | plain (text : String)

/-- Tells what a word is. -/
def Word.of (s : String) : Word :=
  match s.toList with
  | ['-', '-'] => .divider
  | '-' :: '-' :: cs =>
    match cs.dropWhile (· ≠ '=') with
    | [] => .long (String.ofList cs) none
    | _ :: value => .long (String.ofList (cs.takeWhile (· ≠ '='))) (some (String.ofList value))
  | '-' :: c :: _ => .short c
  | _ => .plain s

/-- A command line that has been read in part. -/
structure Line where
  options : Options := {}
  /-- The settings that have come. -/
  given : List Setting := []
  /-- The last setting, if its value was not in the same word, and the value. -/
  pending : Option (Setting × Option String) := none
  /-- Whether a divider has come. -/
  divided : Bool := false

namespace Line

/-- Gives a setting its value, unless it came before. -/
def settle (l : Line) (s : Setting) (value : String) : Except Interruption Line :=
  if s ∈ l.given then .error (.refused .repeatedSetting)
  else (l.options.set value s).map fun options => { l with options, given := s :: l.given }

/-- Looks at the last setting. -/
def finish (l : Line) : Except Interruption Line :=
  match l.pending with
  | none => .ok l
  | some (_, none) => .error (.refused .missingValue)
  | some (s, some value) => { l with pending := none }.settle s value

/-- Takes a word after two hyphens. -/
def long (l : Line) (name : String) (value : Option String) : Except Interruption Line :=
  if name = "help" ∨ name = "version" then
    match value with
    | some _ => .error (.refused .unneededValue)
    | none => l.finish.bind fun _ => .error (if name = "help" then .help true else .version)
  else match Setting.all.find? (·.name = name) with
    | none => .error (.refused .unknownArgument)
    | some s =>
      match s.isSwitch, value with
      | true, some _ => .error (.refused .unneededValue)
      | true, none => l.finish.bind fun l => l.settle s ""
      | false, some value => l.finish.bind fun l => l.settle s value
      | false, none => l.finish.map fun l => { l with pending := some (s, none) }

/-- Takes a word. -/
def take (l : Line) (word : String) : Except Interruption Line :=
  if l.divided then .error (.refused .unknownArgument)
  else match Word.of word with
    | .divider => .ok { l with divided := true }
    | .long name value => l.long name value
    | .short c =>
      if c = 'h' then l.finish.bind fun _ => .error (.help false)
      else if c = 'V' then l.finish.bind fun _ => .error .version
      else .error (.refused .unknownArgument)
    | .plain text =>
      match l.pending with
      | some (s, none) => .ok { l with pending := some (s, some text) }
      | _ => .error (.refused .unknownArgument)

end Line

/-- The options that a command line gives. -/
def Options.ofWords (words : List String) : Except Interruption Options :=
  (words.foldlM Line.take {}).bind fun l => l.finish.map Line.options

end Load
end ClusterCache
