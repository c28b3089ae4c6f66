/-
# Faults

What an operation answers when it cannot do its work: one of six kinds, a message, facts about the
circumstances in the order in which they were added, and possibly what caused it.  Every fault has
three texts: one line for a log (`Fault.line`), a report over several lines (`Fault.report`), and
an outline of its parts (`Fault.outline`).
-/

import ClusterCache.Text.Outline

namespace ClusterCache

open Text (Outline)

/-- What a fault is about. -/
inductive FaultKind where
  /-- Settings that rule each other out. -/
  | config
  /-- Bytes that are cut short or malformed. -/
  | decode
  /-- A value that has no encoded form. -/
  | encode
  /-- A lock that is held by another transaction. -/
  | lockConflict
  /-- A lock that was not given up in time. -/
  | lockTimeout
  /-- Something that went wrong outside of this library. -/
  | external
  deriving DecidableEq, Repr

namespace FaultKind

/-- The kind in words. -/
def text : FaultKind → String
  | config => "Config error"
  | decode => "Decode error"
  | encode => "Encode error"
  | lockConflict => "Lock conflict"
  | lockTimeout => "Lock timeout"
  | external => "External error"

/-- The kind as one word. -/
def name : FaultKind → String
  | config => "Config"
  | decode => "Decode"
  | encode => "Encode"
  | lockConflict => "LockConflict"
  | lockTimeout => "LockTimeout"
  | external => "External"

end FaultKind

mutual

/-- A failure with its circumstances. -/
inductive Fault where
  | mk (kind : FaultKind) (message : String) (context : List (String × String)) (cause : Cause)

/-- What brought a fault about. -/
inductive Cause where
  /-- Nothing is known. -/
  | unknown
  /-- A message, and the messages of what lies behind it, outermost first. -/
  | messages (outer : String) (inner : List String)
  /-- Something was refused, for the reason given. -/
  | denied (reason : String)
  /-- Another fault. -/
  | fault (inner : Fault)

end

namespace Fault

/-- A fault about which nothing but its kind and message is known. -/
def new (kind : FaultKind) (message : String) : Fault := .mk kind message [] .unknown

/-- A fault in the settings. -/
def config (message : String) : Fault := new .config message

/-- A fault whose whole content is its cause. -/
def external (cause : Cause) : Fault := .mk .external "" [] cause

/-- What the fault is about. -/
def kind : Fault → FaultKind
  | .mk kind _ _ _ => kind

/-- What went wrong, in words. -/
def message : Fault → String
  | .mk _ message _ _ => message

/-- The circumstances, in the order in which they were added. -/
def context : Fault → List (String × String)
  | .mk _ _ context _ => context

/-- What brought it about. -/
def cause : Fault → Cause
  | .mk _ _ _ cause => cause

/-- Adds a circumstance after those already known. -/
def withContext (f : Fault) (key value : String) : Fault :=
  .mk f.kind f.message (f.context ++ [(key, value)]) f.cause

/-- Names the cause. -/
def withCause (f : Fault) (cause : Cause) : Fault := .mk f.kind f.message f.context cause

end Fault

/-! ### One line -/

/-- The circumstances on one line. -/
def contextLine (context : List (String × String)) : String :=
  ", ".intercalate (context.map fun (k, v) => k ++ ": " ++ v)

mutual

/-- The fault on one line: kind, circumstances, message and the outermost cause. -/
def Fault.line : Fault → String
  | .mk kind message context cause =>
    kind.text ++
      (if context.isEmpty then "" else ", context: \x7b " ++ contextLine context ++ " \x7d") ++
      (if message = "" then "" else " => " ++ message) ++
      (match cause.line? with
        | none => ""
        | some s => ", source: " ++ s)

/-- The outermost cause on one line. -/
def Cause.line? : Cause → Option String
  | .unknown => none
  | .messages outer _ => some outer
  | .denied reason => some ("denied: " ++ reason)
  | .fault inner => some inner.line

end

/-! ### A report -/

mutual

/-- The lines of the causes behind a fault, outermost first. -/
def Fault.causes : Fault → List String
  | .mk _ _ _ cause => cause.chain

/-- The lines of a cause and of everything behind it. -/
def Cause.chain : Cause → List String
  | .unknown => []
  | .messages outer inner => outer :: inner
  | .denied reason => ["denied: " ++ reason]
  | .fault inner => inner.line :: inner.causes

end

/-- The fault over several lines, with every circumstance and the whole chain of causes. -/
def Fault.report (f : Fault) : String :=
  f.kind.text ++ (if f.message = "" then "" else " => " ++ f.message) ++ "\n" ++
    (if f.context.isEmpty then ""
      else "\nContext:\n" ++ String.join (f.context.map fun (k, v) => "  " ++ k ++ ": " ++ v ++ "\n")) ++
    (if f.causes.isEmpty then ""
      else "\nSource:\n  " ++ ": ".intercalate f.causes ++ "\n") ++
    "\nBacktrace:\ndisabled backtrace\n"

/-! ### An outline -/

/-- The outline of a chain of messages: the innermost is a text, every other one wraps it. -/
def messagesOutline : String → List String → Outline
  | m, [] => .text m
  | m, n :: rest =>
    .record "Error" [("context", .word (Text.quotedMessage m)), ("source", messagesOutline n rest)]

mutual

/-- The parts of a fault. -/
def Fault.outline : Fault → Outline
  | .mk kind message context cause =>
    .record "Error" [
      ("kind", .word kind.name),
      ("message", .text message),
      ("context", .list (context.map fun (k, v) => .tuple "" [.text k, .text v])),
      ("source", .option cause.outline?),
      ("backtrace", .option (some (.word "<disabled>")))]

/-- The parts of a cause. -/
def Cause.outline? : Cause → Option Outline
  | .unknown => none
  | .messages outer inner => some (messagesOutline outer inner)
  | .denied reason => some (.tuple "Denied" [.text reason])
  | .fault inner => some inner.outline

end

end ClusterCache
