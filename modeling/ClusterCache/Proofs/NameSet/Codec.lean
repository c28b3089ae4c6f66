/-
# Name sets and their bytes

The bytes of a name set are a number and as many names, each with its length in front
(`NameSet.Spells`).  Those bytes are what is written for a set, in whatever order its names are
written (`NameSet.spells_of_encodeNames`), and exactly those are read (`NameSet.exact_decodeNames`):
from the front of a stream whatever follows, and alone if nothing may follow.

Two results come of this.  A set that was written is read back, and so are several sets in a row
(`NameSet.decode_encode_append`).  And bytes that hold one set and nothing else are accepted exactly
if they have the form, so cutting them short or adding to them makes them refused
(`NameSet.ofBytes_accepts_iff`).
-/

import Mathlib.Data.List.Forall2
import ClusterCache.NameSet.Codec
import ClusterCache.Proofs.Wire.Form

namespace ClusterCache
namespace NameSet

open Wire

variable {s t : NameSet} {name : String} {names : List String} {bytes front out rest : List UInt8}

/-! ### Members -/

/-- A set contains the names that it lists. -/
theorem contains_iff_mem_toList : s.contains name = true ↔ name ∈ s.toList := by
  rw [contains, toList, Std.TreeSet.mem_toList, Std.TreeSet.contains_iff_mem]

/-- A set has as many names as it lists. -/
theorem size_eq_length (s : NameSet) : s.size = s.toList.length := Std.TreeSet.length_toList.symm

/-- A set made of names contains those names and no others. -/
theorem contains_ofList_iff : (ofList names).contains name = true ↔ name ∈ names := by
  have hfold : ∀ (set : Std.TreeSet String),
      (names.foldl (fun s n => s.insert n) set).contains name = true ↔
        name ∈ names ∨ set.contains name = true := by
    induction names with
    | nil => simp
    | cons n names ih =>
      intro set
      rw [List.foldl_cons, ih, Std.TreeSet.contains_insert, List.mem_cons, Bool.or_eq_true,
        beq_iff_eq, Std.LawfulEqCmp.compare_eq_iff_eq, eq_comm (a := n)]
      tauto
  rw [contains, ofList, hfold]
  simp

/-! ### The form -/

/-- The bytes of a name set: the number of its entries, and then the entries, each a name with its
length in front. -/
def Spells (bytes : List UInt8) (names : List String) : Prop :=
  ∃ count n entries, bytes = count ++ entries.flatten ∧ Varint.Spells count n ∧
    n.toNat = entries.length ∧ List.Forall₂ SizedText.Spells entries names

/-- **The entries are read exactly**: as many as asked for, one after another. -/
theorem decodeEach_eq_ok_iff {count left : Nat} :
    decodeEach count left bytes = (.ok names, rest) ↔
      ∃ entries, entries.length = left ∧ bytes = entries.flatten ++ rest ∧
        List.Forall₂ SizedText.Spells entries names := by
  induction left generalizing bytes names with
  | zero =>
    rw [decodeEach]
    constructor
    · intro h
      obtain ⟨hnames, rfl⟩ := Prod.mk.inj h
      obtain rfl := Except.ok.inj hnames
      exact ⟨[], rfl, rfl, .nil⟩
    · rintro ⟨entries, hlength, rfl, hentries⟩
      obtain rfl := List.length_eq_zero_iff.1 hlength
      cases hentries
      rfl
  | succ left ih =>
    rw [decodeEach]
    constructor
    · intro h
      rcases hd : SizedText.decode bytes with ⟨e | name, tail⟩ <;> rw [hd] at h
      · cases (Prod.mk.inj h).1
      · obtain ⟨entry, rfl, hentry⟩ := (SizedText.exact _ _ _).1 hd
        rcases hm : decodeEach count left tail with ⟨e | more, tail'⟩ <;> simp only [hm] at h
        · cases (Prod.mk.inj h).1
        · obtain ⟨hnames, rfl⟩ := Prod.mk.inj h
          obtain rfl := Except.ok.inj hnames
          obtain ⟨entries, hlength, rfl, hentries⟩ := ih.1 hm
          have hcount : (entry :: entries).length = left + 1 := by rw [List.length_cons, hlength]
          have hbytes : entry ++ (entries.flatten ++ tail') = (entry :: entries).flatten ++ tail' := by
            rw [List.flatten_cons, List.append_assoc]
          exact ⟨entry :: entries, hcount, hbytes, .cons hentry hentries⟩
    · rintro ⟨_ | ⟨entry, entries⟩, hlength, rfl, hentries⟩
      · cases hlength
      · cases hentries with
        | cons hentry hentries =>
          have hmore := ih.2 ⟨entries, Nat.succ.inj hlength, rfl, hentries⟩
          rw [List.flatten_cons, List.append_assoc, SizedText.exact.read_append hentry]
          simp only [hmore]
          rfl

/-- **A number and that many names are read exactly.** -/
theorem exact_decodeNames : Exact decodeNames Spells := by
  intro bytes names rest
  constructor
  · intro h
    unfold decodeNames at h
    rcases hd : Varint.decode bytes with ⟨e | n, tail⟩ <;> rw [hd] at h
    · cases (Prod.mk.inj h).1
    · obtain ⟨count, rfl, hcount⟩ := (Varint.exact _ _ _).1 hd
      obtain ⟨entries, hlength, rfl, hentries⟩ := decodeEach_eq_ok_iff.1 h
      have hspells : Spells (count ++ entries.flatten) names :=
        ⟨count, n, entries, rfl, hcount, hlength.symm, hentries⟩
      exact ⟨count ++ entries.flatten, by rw [List.append_assoc], hspells⟩
  · rintro ⟨front, rfl, count, n, entries, rfl, hcount, hlength, hentries⟩
    have hread := Varint.exact.read_append hcount (entries.flatten ++ rest)
    rw [decodeNames, List.append_assoc, hread]
    exact decodeEach_eq_ok_iff.2 ⟨entries, hlength.symm, rfl, hentries⟩

/-- **Bytes that spell names are read as their set**, and what follows is left. -/
theorem decode_append (h : Spells front names) (rest : List UInt8) :
    decode (front ++ rest) = (.ok (ofList names), rest) := by
  rw [decode, exact_decodeNames.read_append h]
  rfl

/-- Bytes that hold one set and nothing else. -/
theorem ofBytes_eq_ok_iff : ofBytes bytes = .ok s ↔ ∃ names, Spells bytes names ∧ s = ofList names := by
  constructor
  · intro h
    unfold ofBytes decode at h
    rcases hd : decodeNames bytes with ⟨e | names, tail⟩ <;> rw [hd] at h
    · cases h
    · cases tail with
      | nil =>
        obtain ⟨front, rfl, hfront⟩ := (exact_decodeNames _ _ _).1 hd
        rw [List.append_nil]
        exact ⟨names, hfront, (Except.ok.inj h).symm⟩
      | cons b tail => cases h
  · rintro ⟨names, hbytes, rfl⟩
    have hd := decode_append hbytes []
    rw [List.append_nil] at hd
    rw [ofBytes, hd]

/-- **No accepted bytes begin others.** -/
theorem eq_of_begins {other : List UInt8} (h : ofBytes bytes = .ok s) (h' : ofBytes other = .ok t)
    (hbegins : bytes <+: other) : bytes = other := by
  obtain ⟨names, hbytes, -⟩ := ofBytes_eq_ok_iff.1 h
  obtain ⟨names', hother, -⟩ := ofBytes_eq_ok_iff.1 h'
  exact exact_decodeNames.eq_of_begins hbytes hother hbegins

/-! ### What is written -/

/-- Names that are short enough are written as their entries. -/
theorem encodeEach_eq (h : ∀ name ∈ names, name.utf8ByteSize ≤ maxTextLength) :
    ∃ entries : List (List UInt8), encodeEach names = (.ok (), entries.flatten) ∧
      List.Forall₂ SizedText.Spells entries names := by
  induction names with
  | nil => exact ⟨[], rfl, .nil⟩
  | cons name names ih =>
    have hshort : name.utf8ByteSize ≤ maxTextLength := h name List.mem_cons_self
    obtain ⟨entries, hmore, hentries⟩ := ih fun n hn => h n (List.mem_cons_of_mem name hn)
    obtain ⟨hname, hentry⟩ := SizedText.spells_encode hshort
    refine ⟨_ :: entries, ?_, .cons hentry hentries⟩
    rw [encodeEach, hname]
    simp only [hmore, List.flatten_cons]

/-- **A set is written exactly if its names can be counted and each of them is short enough.** -/
theorem encodeNames_eq_ok_iff : (∃ out, encodeNames names = (.ok (), out)) ↔
    names.length < UInt32.size ∧ ∀ name ∈ names, name.utf8ByteSize ≤ maxTextLength := by
  unfold encodeNames
  constructor
  · rintro ⟨out, h⟩
    split at h
    · cases (Prod.mk.inj h).1
    · rename_i hcount
      split at h
      · cases (Prod.mk.inj h).1
      · rename_i hfind
        refine ⟨Nat.lt_of_not_le hcount, fun name hname => ?_⟩
        simpa using List.find?_eq_none.1 hfind name hname
  · rintro ⟨hcount, hshort⟩
    have hfind : (names.find? fun name => maxTextLength < name.utf8ByteSize) = none :=
      List.find?_eq_none.2 fun name hname => by simpa using hshort name hname
    obtain ⟨entries, hentries, -⟩ := encodeEach_eq hshort
    rw [if_neg (Nat.not_le.2 hcount), hfind, hentries]
    exact ⟨_, rfl⟩

/-- **What is written for a set has the form**, in whatever order its names come. -/
theorem spells_of_encodeNames (h : encodeNames names = (.ok (), out)) : Spells out names := by
  obtain ⟨hcount, hshort⟩ := encodeNames_eq_ok_iff.1 ⟨out, h⟩
  obtain ⟨entries, hentries, hspells⟩ := encodeEach_eq hshort
  have hfind : (names.find? fun name => maxTextLength < name.utf8ByteSize) = none :=
    List.find?_eq_none.2 fun name hname => by simpa using hshort name hname
  rw [encodeNames, if_neg (Nat.not_le.2 hcount), hfind, hentries] at h
  obtain ⟨-, rfl⟩ := Prod.mk.inj h
  refine ⟨_, _, entries, rfl, Varint.spells_encode _, ?_, hspells⟩
  rw [hspells.length_eq]
  exact UInt32.toNat_ofNat_of_lt' hcount

/-! ### There and back -/

/-- Reads a number of sets, one after another. -/
def decodeMany : Nat → List UInt8 → Outcome (List NameSet)
  | 0, bytes => (.ok [], bytes)
  | n + 1, bytes =>
    match decode bytes with
    | (.error e, rest) => (.error e, rest)
    | (.ok s, rest) =>
      let (sets, rest) := decodeMany n rest
      (sets.map (s :: ·), rest)

/-- Sets written one behind the other are read back one by one, and what follows is left. -/
theorem decodeMany_append {orders : List (List String)} {outs : List (List UInt8)}
    (h : List.Forall₂ (fun names out => encodeNames names = (.ok (), out)) orders outs)
    (rest : List UInt8) :
    decodeMany orders.length (outs.flatten ++ rest) = (.ok (orders.map ofList), rest) := by
  induction h with
  | nil => rfl
  | cons hout _ ih =>
    have hspells := spells_of_encodeNames hout
    rw [List.length_cons, decodeMany, List.flatten_cons, List.append_assoc, decode_append hspells]
    simp only [ih]
    rfl

/-- **A set that was written is read back.**  A set that has fewer than 2³² names, none of them too
long, is written in any order of its names, and read back from the front of a stream: the set that
comes out has the same members, and what follows is left unread.  So sets that were written one after
another are read back one after another. -/
theorem decode_encode_append :
    (∀ (s : NameSet) (names : List String), names.Perm s.toList → s.size ≤ 2 ^ 32 - 1 →
      (∀ name, s.contains name = true → name.utf8ByteSize ≤ 65535) →
      ∃ out, encodeNames names = (.ok (), out) ∧ ∀ rest, ∃ t, decode (out ++ rest) = (.ok t, rest) ∧
        ∀ name, t.contains name = s.contains name) ∧
    ∀ (sets : List NameSet) (orders : List (List String)) (outs : List (List UInt8)),
      List.Forall₂ (fun names s => names.Perm (toList s)) orders sets →
      List.Forall₂ (fun names out => encodeNames names = (.ok (), out)) orders outs → ∀ rest,
      ∃ read, decodeMany sets.length (outs.flatten ++ rest) = (.ok read, rest) ∧
        List.Forall₂ (fun t s => ∀ name, contains t name = contains s name) read sets := by
  have hmembers : ∀ {s : NameSet} {names : List String}, names.Perm s.toList →
      ∀ name, (ofList names).contains name = s.contains name := fun horder name => by
    rw [Bool.eq_iff_iff, contains_ofList_iff, contains_iff_mem_toList, horder.mem_iff]
  constructor
  · intro s names horder hcount hshort
    have hlength : names.length = s.size := by rw [horder.length_eq, size_eq_length]
    obtain ⟨out, hout⟩ := encodeNames_eq_ok_iff.2 ⟨show names.length < 2 ^ 32 by omega,
      fun name hname => hshort name (contains_iff_mem_toList.2 (horder.mem_iff.1 hname))⟩
    exact ⟨out, hout, fun rest => ⟨_, decode_append (spells_of_encodeNames hout) rest,
      hmembers horder⟩⟩
  · intro sets orders outs horders houts rest
    refine ⟨orders.map ofList, ?_, ?_⟩
    · rw [← horders.length_eq]
      exact decodeMany_append houts rest
    · rw [List.forall₂_map_left_iff]
      exact horders.imp fun _ _ => hmembers

/-- Two names, one of them in two bytes, are written against the order of their bytes and read back
in front of a byte that is left unread; so are two such sets in a row. -/
theorem decode_encode_append_accented :
    ["é", "a"].Perm (ofList ["a", "é"]).toList ∧
    ∃ out, encodeNames ["é", "a"] = (.ok (), out) ∧
      (∃ t, decode (out ++ [0xff]) = (.ok t, [0xff]) ∧
        ∀ name, t.contains name = (ofList ["a", "é"]).contains name) ∧
      ∃ read, decodeMany 2 ([out, out].flatten ++ [0xff]) = (.ok read, [0xff]) ∧
        List.Forall₂ (fun t s => ∀ name, contains t name = contains s name) read
          [ofList ["a", "é"], ofList ["a", "é"]] := by
  have horder : ["é", "a"].Perm (ofList ["a", "é"]).toList := by decide +kernel
  have hshort : ∀ name, (ofList ["a", "é"]).contains name = true → name.utf8ByteSize ≤ 65535 := by
    intro name hname
    have hmem : name ∈ ["a", "é"] := contains_ofList_iff.1 hname
    simp only [List.mem_cons, List.not_mem_nil, or_false] at hmem
    rcases hmem with rfl | rfl <;> decide
  obtain ⟨out, hout, hread⟩ := decode_encode_append.1 _ _ horder (by decide +kernel) hshort
  have hmany := decode_encode_append.2 _ _ _ (.cons horder (.cons horder .nil))
    (.cons hout (.cons hout .nil)) [0xff]
  exact ⟨horder, out, hout, hread [0xff], hmany⟩

/-- **Bytes are accepted as a set exactly if they have the form of one**: a number of at most five
groups, and as many entries, each a length in two bytes and as many bytes of UTF-8.  The set is that of
the names in the entries.  Other bytes are refused with a `decode` fault.  So no accepted bytes begin
others, and whatever was written for a set is refused when cut short or added to. -/
theorem ofBytes_accepts_iff (bytes : List UInt8) :
    ((∃ s, ofBytes bytes = .ok s) ↔ ∃ names, Spells bytes names) ∧
    (∀ s names, ofBytes bytes = .ok s → Spells bytes names →
      ∀ name, s.contains name = true ↔ name ∈ names) ∧
    ((¬ ∃ names, Spells bytes names) → ∃ e, ofBytes bytes = .error e ∧ e.toFault.kind = .decode) ∧
    (∀ s, ofBytes bytes = .ok s → ∀ other, bytes ≠ other → bytes <+: other ∨ other <+: bytes →
      ∃ e, ofBytes other = .error e) ∧
    ∀ names, encodeNames names = (.ok (), bytes) → ∀ other, bytes ≠ other →
      bytes <+: other ∨ other <+: bytes → ∃ e, ofBytes other = .error e := by
  have hapart : ∀ {s other}, ofBytes bytes = .ok s → bytes ≠ other →
      bytes <+: other ∨ other <+: bytes → ∃ e, ofBytes other = .error e := by
    intro s other hs hne hbegins
    cases ho : ofBytes other with
    | error e => exact ⟨e, rfl⟩
    | ok t =>
      rcases hbegins with hbegins | hbegins
      · exact absurd (eq_of_begins hs ho hbegins) hne
      · exact absurd (eq_of_begins ho hs hbegins).symm hne
  refine ⟨⟨?_, ?_⟩, ?_, ?_, ?_, ?_⟩
  · rintro ⟨s, hs⟩
    obtain ⟨names, hnames, -⟩ := ofBytes_eq_ok_iff.1 hs
    exact ⟨names, hnames⟩
  · rintro ⟨names, hnames⟩
    exact ⟨_, ofBytes_eq_ok_iff.2 ⟨names, hnames, rfl⟩⟩
  · intro s names hs hnames name
    have hset : ofBytes bytes = .ok (ofList names) := ofBytes_eq_ok_iff.2 ⟨names, hnames, rfl⟩
    obtain rfl := Except.ok.inj (hs.symm.trans hset)
    exact contains_ofList_iff
  · intro hnone
    cases hb : ofBytes bytes with
    | error e => exact ⟨e, rfl, e.kind_toFault⟩
    | ok s =>
      obtain ⟨names, hnames, -⟩ := ofBytes_eq_ok_iff.1 hb
      exact absurd ⟨names, hnames⟩ hnone
  · intro s hs other hne hbegins
    exact hapart hs hne hbegins
  · intro names hout other hne hbegins
    have hs := ofBytes_eq_ok_iff.2 ⟨names, spells_of_encodeNames hout, rfl⟩
    exact hapart hs hne hbegins

/-- A name that comes twice, after a number with a group more than it needs, is a set of one name.
With a byte less or more it is refused. -/
theorem ofBytes_accepts_repeated :
    ∃ s, ofBytes [0x82, 0, 0, 1, 0x61, 0, 1, 0x61] = .ok s ∧
      (∀ name, s.contains name = true ↔ name ∈ ["a", "a"]) ∧
      (∃ e, ofBytes [0x82, 0, 0, 1, 0x61, 0, 1] = .error e) ∧
      ∃ e, ofBytes [0x82, 0, 0, 1, 0x61, 0, 1, 0x61, 7] = .error e := by
  have hform : Spells [0x82, 0, 0, 1, 0x61, 0, 1, 0x61] ["a", "a"] :=
    ⟨[0x82, 0], 2, [[0, 1, 0x61], [0, 1, 0x61]], rfl, by decide, rfl,
      .cons ⟨0, 1, [0x61], rfl, rfl, rfl⟩ (.cons ⟨0, 1, [0x61], rfl, rfl, rfl⟩ .nil)⟩
  obtain ⟨haccept, hmembers, -, happart, -⟩ :=
    ofBytes_accepts_iff [0x82, 0, 0, 1, 0x61, 0, 1, 0x61]
  obtain ⟨s, hs⟩ := haccept.2 ⟨_, hform⟩
  exact ⟨s, hs, hmembers s _ hs hform,
    happart s hs _ (by decide) (Or.inr (by decide)), happart s hs _ (by decide) (Or.inl (by decide))⟩

end NameSet
end ClusterCache
