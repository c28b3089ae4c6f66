/-
# Transactions and where they come from

A transaction is told apart from all others in a cluster by the node that began it and a number of
that node.  Commands of a transaction carry its boundary: the transaction, the node that sent the
command, and whether the transaction commits in a single phase.
-/

import ClusterCache.Json.Record
import ClusterCache.Text.Outline

namespace ClusterCache

open Text (Outline)

/-- The name of a node. -/
structure Address where
  name : String
  deriving DecidableEq, Repr

namespace Address

/-- Addresses go by the code points of their names. -/
instance : Ord Address where
  compare a b := compare a.name b.name

/-- The parts of an address. -/
def outline (a : Address) : Outline := .tuple "Address" [.text a.name]

/-- An address is its name. -/
def toJson (a : Address) : Json := .string a.name

/-- Reads an address. -/
def ofJson? (j : Json) : Option Address := j.string?.map Address.mk

end Address

/-- A transaction. -/
structure Transaction where
  /-- The number that its node gave it. -/
  id : UInt64
  /-- The node that began it. -/
  address : Address
  deriving DecidableEq, Repr

namespace Transaction

/-- The transaction in one word. -/
def text (x : Transaction) : String :=
  "GlobalTransaction(" ++ x.address.name ++ ":" ++ toString x.id.toNat ++ ")"

/-- The parts of a transaction. -/
def outline (x : Transaction) : Outline :=
  .record "GlobalTransaction" [("id", .nat x.id.toNat), ("address", x.address.outline)]

/-- The transaction as a JSON object. -/
def toJson (x : Transaction) : Json :=
  .obj [("id", .nat x.id.toNat), ("address", x.address.toJson)]

/-- Reads a transaction; all of it must be there. -/
def ofJson? (j : Json) : Option Transaction := do
  match ← j.record? ["id", "address"] with
  | [id, address] =>
    some {
      id := ← Json.required Json.natural? id
      address := ← Json.required Address.ofJson? address }
  | _ => none

end Transaction

/-- What all commands of a transaction carry. -/
structure Boundary where
  transaction : Transaction
  /-- The node that sent the command. -/
  origin : Address
  /-- Whether the transaction commits in a single phase. -/
  onePhaseCommit : Bool
  deriving DecidableEq, Repr

namespace Boundary

/-- A command from the node that began the transaction, which commits in two phases. -/
def new (x : Transaction) : Boundary := ⟨x, x.address, false⟩

/-- Names the node that sent the command. -/
def withOrigin (b : Boundary) (origin : Address) : Boundary := { b with origin }

/-- Says whether the transaction commits in a single phase. -/
def withOnePhaseCommit (b : Boundary) (onePhaseCommit : Bool) : Boundary :=
  { b with onePhaseCommit }

/-- The parts of a boundary. -/
def outline (b : Boundary) : Outline :=
  .record "TxBoundary" [
    ("gtx", b.transaction.outline),
    ("origin", b.origin.outline),
    ("one_phase_commit", .bool b.onePhaseCommit)]

/-- The boundary as a JSON object. -/
def toJson (b : Boundary) : Json :=
  .obj [
    ("gtx", b.transaction.toJson),
    ("origin", b.origin.toJson),
    ("one_phase_commit", .bool b.onePhaseCommit)]

/-- Reads a boundary; all of it must be there. -/
def ofJson? (j : Json) : Option Boundary := do
  match ← j.record? ["gtx", "origin", "one_phase_commit"] with
  | [transaction, origin, onePhaseCommit] =>
    some {
      transaction := ← Json.required Transaction.ofJson? transaction
      origin := ← Json.required Address.ofJson? origin
      onePhaseCommit := ← Json.required Json.bool? onePhaseCommit }
  | _ => none

end Boundary
end ClusterCache
