/-
# A cache as lists of entries

`Lines` is what a cache comes to that gives up its records in order, told without shards, numbers and
hash tables: lists of keys with their values, each key belonging to the list that its hash names.  A
new key goes to the end of its list.  A key that is used goes to the end as well or keeps its place,
which is all that tells the two orders apart (`Line.use`).  If there are more entries than allowed,
the first list that has any gives up its head, in a round that begins at the list of the new key
(`Lines.shed`).

With a single list this is the textbook's cache, for which nothing needs to be said of rounds and
hashes (`OneLine`, `Lines.perform_one`).
-/

import ClusterCache.Cache.Call

namespace ClusterCache

variable {K V : Type}

/-- What the holder of a record sees of it. -/
def Record.entry (r : Record K V) : K × V := (r.key, r.value)

/-- An answer as the caller sees it. -/
inductive Reply (K V : Type) where
  | stored (e : K × V)
  | found (e : Option (K × V))
  | flag (b : Bool)
  | count (n : Nat)
  | done
  deriving DecidableEq

/-- What the caller sees of an answer. -/
def Answer.reply : Answer K V → Reply K V
  | .stored r => .stored r.entry
  | .found r => .found (r.map Record.entry)
  | .flag b => .flag b
  | .count n => .count n
  | .done => .done

/-- What is seen of a call: the reply, the entries that leave singly, each with its reason, and how
many there are afterwards. -/
structure Sight (K V : Type) where
  reply : Reply K V
  told : List (Reason × K × V)
  size : Nat
  deriving DecidableEq

/-! ### One list -/

namespace Line

variable [DecidableEq K]

/-- The entry of a key. -/
def find? (l : List (K × V)) (k : K) : Option (K × V) := l.find? fun e => e.1 = k

/-- Takes out the entry of a key. -/
def drop (l : List (K × V)) (k : K) : List (K × V) := l.filter fun e => e.1 ≠ k

/-- Writes an entry over the one of its key: at the end, if keys that are used go there, or in its
place. -/
def use (refreshes : Bool) (l : List (K × V)) (e : K × V) : List (K × V) :=
  if refreshes then drop l e.1 ++ [e] else l.map fun e' => if e'.1 = e.1 then e else e'

end Line

/-- A cache with one list. -/
structure OneLine (K V : Type) where
  list : List (K × V)
  /-- Whether the bound is enforced. -/
  running : Bool

namespace OneLine

variable [DecidableEq K] {S : Strategy K}

/-- What a call does to a cache with one list, of at most `most` entries. -/
def perform (most : Nat) (refreshes : Bool) (s : OneLine K V) :
    Call S V → Reply K V × List (Reason × K × V) × OneLine K V
  | .insert k v =>
    match Line.find? s.list k with
    | some old =>
      (.stored (k, v), [(.replace, old)], { s with list := Line.use refreshes s.list (k, v) })
    | none =>
      let list := s.list ++ [(k, v)]
      if s.running ∧ most < list.length then
        (.stored (k, v), list.head?.toList.map (Prod.mk .evict), { s with list := list.tail })
      else (.stored (k, v), [], { s with list })
  | .get k =>
    match Line.find? s.list k with
    | some e => (.found (some e), [], { s with list := Line.use refreshes s.list e })
    | none => (.found none, [], s)
  | .contains k => (.flag (Line.find? s.list k).isSome, [], s)
  | .remove k =>
    (.found (Line.find? s.list k), (Line.find? s.list k).toList.map (Prod.mk .remove),
      { s with list := Line.drop s.list k })
  | .clear => (.done, [], { s with list := [] })
  | .sweep => (.count 0, [], s)
  | .stop => (.done, [], { s with running := false })
  | .adjust _ => (.done, [], s)

/-- What is seen of some calls, one after another. -/
def transcript (most : Nat) (refreshes : Bool) : OneLine K V → List (Call S V) → List (Sight K V)
  | _, [] => []
  | s, x :: xs =>
    let (reply, told, s) := s.perform most refreshes x
    ⟨reply, told, s.list.length⟩ :: transcript most refreshes s xs

end OneLine

/-! ### Many lists -/

/-- A cache with many lists. -/
structure Lines (K V : Type) where
  lists : List (List (K × V))
  /-- Whether the bound is enforced. -/
  running : Bool

namespace Lines

/-- What is chosen when a cache with many lists is made. -/
structure Rules (K : Type) where
  /-- The hash of a key. -/
  hash : K → UInt64
  /-- The most entries. -/
  most : Nat
  /-- Whether keys that are used go to the end. -/
  refreshes : Bool

/-- The list at a place. -/
def list (s : Lines K V) (i : Nat) : List (K × V) := s.lists[i]?.getD []

/-- Replaces the list at a place. -/
def set (s : Lines K V) (i : Nat) (l : List (K × V)) : Lines K V :=
  { s with lists := s.lists.set i l }

/-- The number of entries. -/
def size (s : Lines K V) : Nat := total List.length s.lists

/-- The place of the list that a key belongs to. -/
def home (p : Rules K) (s : Lines K V) (k : K) : Nat := (p.hash k >>> 32).toNat % s.lists.length

/-- The places of all lists, in the order of a round that begins at one of them. -/
def round (s : Lines K V) (start : Nat) : List Nat :=
  (List.range s.lists.length).map fun i => (start + i) % s.lists.length

/-- The first list that has entries, of those at the places given, gives up its head. -/
def shed (s : Lines K V) : List Nat → Option (K × V) × Lines K V
  | [] => (none, s)
  | i :: rest =>
    match s.list i with
    | [] => shed s rest
    | e :: l => (some e, s.set i l)

variable [DecidableEq K] {S : Strategy K}

/-- What a call does to a cache with many lists. -/
def perform (p : Rules K) (s : Lines K V) :
    Call S V → Reply K V × List (Reason × K × V) × Lines K V
  | .insert k v =>
    let i := s.home p k
    match Line.find? (s.list i) k with
    | some old =>
      (.stored (k, v), [(.replace, old)], s.set i (Line.use p.refreshes (s.list i) (k, v)))
    | none =>
      let s := s.set i (s.list i ++ [(k, v)])
      if s.running ∧ p.most < s.size then
        let (out, s) := s.shed (s.round i)
        (.stored (k, v), out.toList.map (Prod.mk .evict), s)
      else (.stored (k, v), [], s)
  | .get k =>
    let i := s.home p k
    match Line.find? (s.list i) k with
    | some e => (.found (some e), [], s.set i (Line.use p.refreshes (s.list i) e))
    | none => (.found none, [], s)
  | .contains k => (.flag (Line.find? (s.list (s.home p k)) k).isSome, [], s)
  | .remove k =>
    let i := s.home p k
    (.found (Line.find? (s.list i) k), (Line.find? (s.list i) k).toList.map (Prod.mk .remove),
      s.set i (Line.drop (s.list i) k))
  | .clear => (.done, [], { s with lists := s.lists.map fun _ => [] })
  | .sweep => (.count 0, [], s)
  | .stop => (.done, [], { s with running := false })
  | .adjust _ => (.done, [], s)

/-- What is seen of some calls, one after another. -/
def transcript (p : Rules K) : Lines K V → List (Call S V) → List (Sight K V)
  | _, [] => []
  | s, x :: xs =>
    let (reply, told, s) := s.perform p x
    ⟨reply, told, s.size⟩ :: transcript p s xs

/-! ### A single one of many -/

variable {p : Rules K}

/-- The cache with many lists that has but one. -/
def ofOne (s : OneLine K V) : Lines K V := ⟨[s.list], s.running⟩

omit [DecidableEq K] in
/-- The line of a single one is that line. -/
@[simp] theorem list_ofOne (s : OneLine K V) : (ofOne s).list 0 = s.list := rfl

omit [DecidableEq K] in
/-- Writing the line of a single one is writing that line. -/
@[simp] theorem set_ofOne (s : OneLine K V) (l : List (K × V)) :
    (ofOne s).set 0 l = ofOne { s with list := l } := rfl

omit [DecidableEq K] in
/-- The length of a single one is that of its line. -/
@[simp] theorem size_ofOne (s : OneLine K V) : (ofOne s).size = s.list.length := Nat.zero_add _

omit [DecidableEq K] in
/-- With a single line every key belongs there. -/
@[simp] theorem home_ofOne (s : OneLine K V) (k : K) : (ofOne s).home p k = 0 := Nat.mod_one _

omit [DecidableEq K] in
/-- A round through a single line visits it once. -/
@[simp] theorem round_ofOne (s : OneLine K V) : (ofOne s).round 0 = [0] := rfl

omit [DecidableEq K] in
/-- A single line sheds entries or not as it did before. -/
@[simp] theorem running_ofOne (s : OneLine K V) : (ofOne s).running = s.running := rfl

omit [DecidableEq K] in
/-- A single line sheds its first entry. -/
theorem shed_ofOne (s : OneLine K V) :
    (ofOne s).shed [0] = (s.list.head?, ofOne { s with list := s.list.tail }) := by
  unfold shed
  rcases h : s.list with _ | ⟨e, l⟩
  · simp only [list_ofOne, h]
    cases s
    cases h
    rfl
  · simp only [list_ofOne, h, set_ofOne]
    rfl

/-- **With one list, a call does what it does to a cache with one list.** -/
theorem perform_one (s : OneLine K V) (x : Call S V) :
    (ofOne s).perform p x = ((s.perform p.most p.refreshes x).1,
      (s.perform p.most p.refreshes x).2.1, ofOne (s.perform p.most p.refreshes x).2.2) := by
  cases x with
  | insert k v =>
    simp only [perform, OneLine.perform, home_ofOne, list_ofOne]
    cases Line.find? s.list k with
    | some old => rfl
    | none =>
      simp only [set_ofOne, running_ofOne, size_ofOne]
      split
      · rw [round_ofOne, shed_ofOne]
      · rfl
  | get k =>
    simp only [perform, OneLine.perform, home_ofOne, list_ofOne]
    cases Line.find? s.list k with
    | some e => rfl
    | none => rfl
  | contains k => simp only [perform, OneLine.perform, home_ofOne, list_ofOne]
  | remove k => simp only [perform, OneLine.perform, home_ofOne, list_ofOne, set_ofOne]
  | clear | sweep | stop | adjust f => rfl

/-- **A single line seen as one of several** shows the same, whatever the calls. -/
theorem transcript_one (s : OneLine K V) (xs : List (Call S V)) :
    (ofOne s).transcript p xs = s.transcript p.most p.refreshes xs := by
  induction xs generalizing s with
  | nil => rfl
  | cons x xs ih =>
    simp only [transcript, OneLine.transcript, perform_one, size_ofOne, ih]

end Lines
end ClusterCache
