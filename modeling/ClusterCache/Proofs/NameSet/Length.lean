/-
# How long name sets are on the wire

Names are written one after another by a writer that may fail at each of them, and at the end of a
buffer that holds something already (`NameSet.write`).  What is in the buffer afterwards is told by what
was written alone (`write_eq`), and since all names are looked at first, that is the whole set or
nothing.  Its length was told before (`length_of_encodeNames`), and does not depend on the order of the
names (`encode_whole_or_nothing`).

Bytes that are accepted may be longer than what is written for their set: the number in front may have
groups that it does not need, and a name may come more than once.  To read them and write the set again
is to do away with that, and with nothing else (`rewrite_shortens`).
-/

import Mathlib.Algebra.BigOperators.Group.List.Basic
import Mathlib.Data.List.Perm.Subperm
import ClusterCache.Proofs.NameSet.Codec
import ClusterCache.Proofs.Wire.Length

namespace ClusterCache

/-! ### Sums over the same things -/

section

variable {α : Type} {f : α → Nat} {l m : List α}

/-- A total is the sum of what is added up. -/
theorem total_eq_sum (f : α → Nat) (l : List α) : total f l = (l.map f).sum := by
  induction l with
  | nil => rfl
  | cons a rest ih => rw [total_cons, List.map_cons, List.sum_cons, ih]

/-- The total of two rows is that of the one and of the other. -/
theorem total_append (f : α → Nat) (l m : List α) : total f (l ++ m) = total f l + total f m := by
  rw [total_eq_sum, total_eq_sum, total_eq_sum, List.map_append, List.sum_append]

/-- A total does not depend on the order. -/
theorem total_perm (f : α → Nat) (h : l.Perm m) : total f l = total f m := by
  rw [total_eq_sum, total_eq_sum, (h.map f).sum_eq]

/-- A sum of numbers above zero is zero only if there are none. -/
theorem total_eq_zero_iff (hpos : ∀ a, 0 < f a) : total f l = 0 ↔ l = [] := by
  cases l with
  | nil => exact iff_of_true rfl rfl
  | cons a rest =>
    have ha := hpos a
    rw [total_cons]
    exact iff_of_false (by omega) (List.cons_ne_nil _ _)

/-- What comes more than once in a list is left over if everything is taken out of it once. -/
theorem exists_perm_append (hnd : l.Nodup) (hmem : ∀ a, a ∈ l ↔ a ∈ m) :
    ∃ rest, m.Perm (l ++ rest) ∧ (rest = [] ↔ m.Nodup) := by
  obtain ⟨l', hl', hsub⟩ := List.subperm_of_subset hnd fun a => (hmem a).1
  obtain ⟨rest, hrest'⟩ := hsub.exists_perm_append
  have hrest : m.Perm (l ++ rest) := hrest'.trans (hl'.append_right rest)
  refine ⟨rest, hrest, ?_, fun hm => List.eq_nil_iff_forall_not_mem.2 fun a ha => ?_⟩
  · rintro rfl
    rw [List.append_nil] at hrest
    exact hrest.nodup_iff.2 hnd
  · have hl := (hmem a).2 (hrest.mem_iff.2 (List.mem_append_right l ha))
    exact (List.nodup_append.1 (hrest.nodup_iff.1 hm)).2.2 a hl a ha rfl

end

namespace NameSet

open Wire

variable {s : NameSet} {name : String} {names order : List String} {buffer bytes out : List UInt8}

/-! ### Writers into a buffer -/

/-- Puts a text with its length in front at the end of a buffer. -/
def writeText (buffer : List UInt8) (s : String) : Except WriteError Unit × List UInt8 :=
  if maxTextLength < s.utf8ByteSize then (.error (.textTooLong s.utf8ByteSize), buffer)
  else (.ok (), (buffer ++ SizedText.lengthBytes s.utf8ByteSize) ++ Utf8.encode s)

/-- Puts names one after another at the end of a buffer, up to the first that cannot be written. -/
def writeEach (buffer : List UInt8) : List String → Except WriteError Unit × List UInt8
  | [] => (.ok (), buffer)
  | name :: rest =>
    match writeText buffer name with
    | (.error e, buffer) => (.error e, buffer)
    | (.ok _, buffer) => writeEach buffer rest

/-- Puts the number of names and then the names at the end of a buffer, in the order given, unless
there are too many names or one of them is too long. -/
def write (buffer : List UInt8) (names : List String) : Except WriteError Unit × List UInt8 :=
  if UInt32.size ≤ names.length then (.error .tooManyNames, buffer)
  else match names.find? fun name => maxTextLength < name.utf8ByteSize with
    | some name => (.error (.nameTooLong name.utf8ByteSize), buffer)
    | none => writeEach (buffer ++ Varint.encode names.length.toUInt32) names

/-- A text is written behind what is in the buffer, in the bytes that it has alone. -/
theorem writeText_eq (buffer : List UInt8) (s : String) :
    writeText buffer s = ((SizedText.encode s).1, buffer ++ (SizedText.encode s).2) := by
  unfold writeText SizedText.encode
  split
  · rw [List.append_nil]
  · rw [List.append_assoc]

/-- Texts are written behind what is in the buffer, in the bytes that they have alone. -/
theorem writeEach_eq (buffer : List UInt8) (names : List String) :
    writeEach buffer names = ((encodeEach names).1, buffer ++ (encodeEach names).2) := by
  induction names generalizing buffer with
  | nil => rw [writeEach, encodeEach, List.append_nil]
  | cons name rest ih =>
    rw [writeEach, encodeEach, writeText_eq]
    rcases SizedText.encode name with ⟨e | _, out⟩
    · rfl
    · simp only
      rw [ih, List.append_assoc]

/-- **What is put at the end of a buffer is what is written**, whether that succeeds or not. -/
theorem write_eq (buffer : List UInt8) (names : List String) :
    write buffer names = ((encodeNames names).1, buffer ++ (encodeNames names).2) := by
  unfold write encodeNames
  split
  · rw [List.append_nil]
  · cases names.find? fun name => maxTextLength < name.utf8ByteSize with
    | some name => simp only [List.append_nil]
    | none =>
      simp only
      rw [writeEach_eq, List.append_assoc]

/-- The bytes of names alone, in the order given. -/
def bytesOf (names : List String) : Except WriteError (List UInt8) :=
  match encodeNames names with
  | (.error e, _) => .error e
  | (.ok _, out) => .ok out

/-- The bytes of a set are those of the names that it lists. -/
theorem toBytes_eq (s : NameSet) : s.toBytes = bytesOf s.toList := rfl

/-- Names have bytes if they can be written. -/
theorem bytesOf_eq_ok_iff : bytesOf names = .ok out ↔ encodeNames names = (.ok (), out) := by
  unfold bytesOf
  rcases encodeNames names with ⟨e | _, out'⟩ <;> simp

/-! ### The whole set or nothing -/

/-- **Nothing is written if it fails.** -/
theorem encodeNames_of_error {e : WriteError} (h : (encodeNames names).1 = .error e) :
    encodeNames names = (.error e, []) := by
  unfold encodeNames at h ⊢
  split at h
  · rename_i hcount
    rw [if_pos hcount]
    exact congrArg (·, []) h
  · rename_i hcount
    rw [if_neg hcount]
    cases hfind : names.find? fun name => maxTextLength < name.utf8ByteSize with
    | some name =>
      rw [hfind] at h
      exact congrArg (·, []) h
    | none =>
      -- A name that cannot be written would have been found.
      have hshort : ∀ name ∈ names, name.utf8ByteSize ≤ maxTextLength := fun name hname => by
        simpa using List.find?_eq_none.1 hfind name hname
      obtain ⟨entries, hentries, -⟩ := encodeEach_eq hshort
      rw [hfind, hentries] at h
      cases h

/-- **What is written for names has the length that was told.** -/
theorem length_of_encodeNames (h : encodeNames names = (.ok (), out)) :
    out.length = lengthOfNames names := by
  obtain ⟨hcount, hshort⟩ := encodeNames_eq_ok_iff.1 ⟨out, h⟩
  have hfind : (names.find? fun name => maxTextLength < name.utf8ByteSize) = none :=
    List.find?_eq_none.2 fun name hname => by simpa using hshort name hname
  obtain ⟨entries, hentries, hspells⟩ := encodeEach_eq hshort
  rw [encodeNames, if_neg (Nat.not_le.2 hcount), hfind, hentries] at h
  obtain ⟨-, rfl⟩ := Prod.mk.inj h
  rw [List.length_append, Varint.length_encode, SizedText.total_length_of_spells hspells,
    lengthOfNames]

/-- The length that is told does not depend on the order of the names. -/
theorem lengthOfNames_perm (h : order.Perm names) : lengthOfNames order = lengthOfNames names := by
  rw [lengthOfNames, lengthOfNames, h.length_eq, total_perm _ h]

/-- **A set is written as a whole or not at all.**  Let a set have fewer than 2³² names, and let them be
put at the end of a buffer in any order, whatever the buffer holds.  That fails if and only if one of
the names has more than 65535 bytes; it is an `encode` fault then, and the buffer is as it was.
Otherwise what was in the buffer is still there, and as many bytes are behind it as were told before.
To write the set alone fails in the same cases, and comes to the same bytes in the others. -/
theorem encode_whole_or_nothing (s : NameSet) (hsize : s.size ≤ 2 ^ 32 - 1) (names : List String)
    (horder : names.Perm s.toList) (buffer : List UInt8) :
    ((∃ e, (write buffer names).1 = .error e) ↔
      ∃ name, s.contains name = true ∧ 65535 < name.utf8ByteSize) ∧
    (∀ e, (write buffer names).1 = .error e →
      e.toFault.kind = .encode ∧ (write buffer names).2 = buffer) ∧
    ((write buffer names).1 = .ok () → ∃ out, (write buffer names).2 = buffer ++ out ∧
      out.length = s.encodedLength ∧ bytesOf names = .ok out) ∧
    ((∃ e, bytesOf names = .error e) ↔ ∃ e, (write buffer names).1 = .error e) := by
  have hcount : names.length < UInt32.size := by
    rw [horder.length_eq, ← size_eq_length]
    show s.size < 2 ^ 32
    omega
  have hlong : (¬ ∃ out, encodeNames names = (.ok (), out)) ↔
      ∃ name, s.contains name = true ∧ 65535 < name.utf8ByteSize := by
    rw [encodeNames_eq_ok_iff, and_iff_right hcount]
    push Not
    simp only [maxTextLength, contains_iff_mem_toList, horder.mem_iff]
  rw [write_eq]
  rcases hw : encodeNames names with ⟨e | _, out⟩
  · -- Nothing can have been written before the failure.
    obtain rfl : out = [] := (Prod.mk.inj (hw.symm.trans (encodeNames_of_error (by rw [hw])))).2
    have hbytes : bytesOf names = .error e := by rw [bytesOf, hw]
    refine ⟨iff_of_true ⟨e, rfl⟩ (hlong.1 ?_), ?_, fun hok => ?_, iff_of_true ⟨e, hbytes⟩ ⟨e, rfl⟩⟩
    · rintro ⟨out, hout⟩
      cases hw.symm.trans hout
    · exact fun e' _ => ⟨e'.kind_toFault, List.append_nil buffer⟩
    · cases hok
  · have hbytes : bytesOf names = .ok out := bytesOf_eq_ok_iff.2 hw
    have hwritten : ¬ ∃ e, (Except.ok () : Except WriteError Unit) = .error e := by
      rintro ⟨e, he⟩
      cases he
    refine ⟨iff_of_false hwritten fun h => hlong.2 h ⟨out, hw⟩, fun e he => ?_, fun _ => ?_,
      iff_of_false ?_ hwritten⟩
    · cases he
    · refine ⟨out, rfl, ?_, hbytes⟩
      rw [length_of_encodeNames hw, lengthOfNames_perm horder, encodedLength]
    · rintro ⟨e, he⟩
      cases hbytes.symm.trans he

/-- Two names, one of them in two bytes, are put behind a byte against the order of their bytes. -/
theorem encode_whole_or_nothing_accented :
    ["é", "a"].Perm (ofList ["a", "é"]).toList ∧ (ofList ["a", "é"]).encodedLength = 8 ∧
    ∃ out, (write [0xff] ["é", "a"]).2 = [0xff] ++ out ∧ out.length = 8 ∧
      bytesOf ["é", "a"] = .ok out := by
  have horder : ["é", "a"].Perm (ofList ["a", "é"]).toList := by decide +kernel
  have hlength : (ofList ["a", "é"]).encodedLength = 8 := by decide +kernel
  obtain ⟨-, -, hok, -⟩ := encode_whole_or_nothing _ (by decide +kernel) _ horder [0xff]
  rw [hlength] at hok
  exact ⟨horder, hlength, hok (by decide +kernel)⟩

/-! ### To read and to write again -/

/-- No name is listed twice. -/
theorem nodup_toList (s : NameSet) : s.toList.Nodup :=
  Std.TreeSet.distinct_toList.imp fun h heq => h (Std.LawfulEqCmp.compare_eq_iff_eq.2 heq)

/-- The bytes `count` for the number `n` are in front of as many entries, and these are of `names`. -/
def Counted (bytes count : List UInt8) (n : UInt32) (names : List String) : Prop :=
  ∃ entries : List (List UInt8), bytes = count ++ entries.flatten ∧ Varint.Spells count n ∧
    n.toNat = entries.length ∧ List.Forall₂ SizedText.Spells entries names

namespace Counted

variable {count : List UInt8} {n : UInt32}

/-- The bytes spell the names. -/
theorem spells (h : Counted bytes count n names) : Spells bytes names := by
  obtain ⟨entries, hbytes, hcount, hn, hentries⟩ := h
  exact ⟨count, n, entries, hbytes, hcount, hn, hentries⟩

/-- The bytes are those of the count and those of the names. -/
theorem length_eq (h : Counted bytes count n names) :
    bytes.length = count.length + total SizedText.length names := by
  obtain ⟨entries, rfl, -, -, hentries⟩ := h
  rw [List.length_append, SizedText.total_length_of_spells hentries]

/-- The count is the number of names. -/
theorem toNat_eq (h : Counted bytes count n names) : n.toNat = names.length := by
  obtain ⟨entries, -, -, hn, hentries⟩ := h
  rw [hn, hentries.length_eq]

/-- The count is spelt by its bytes. -/
theorem spells_count (h : Counted bytes count n names) : Varint.Spells count n := by
  obtain ⟨-, -, hcount, -⟩ := h
  exact hcount

/-- The names are short enough to be written, and few enough to be counted. -/
theorem encodable (h : Counted bytes count n names) :
    names.length < UInt32.size ∧ ∀ name ∈ names, name.utf8ByteSize ≤ maxTextLength := by
  refine ⟨h.toNat_eq ▸ n.toNat_lt, ?_⟩
  obtain ⟨entries, -, -, -, hentries⟩ := h
  induction hentries with
  | nil => exact fun name hname => absurd hname List.not_mem_nil
  | cons hentry _ ih => exact List.forall_mem_cons.2 ⟨SizedText.le_of_spells hentry, ih⟩

/-- **Names that come once take no more bytes** than others of the same names, and as many only if
those come once too and their number is as short as can be. -/
theorem length_le (h : Counted bytes count n names) (hnd : order.Nodup)
    (hmem : ∀ name, name ∈ order ↔ name ∈ names) :
    lengthOfNames order ≤ bytes.length ∧
      (lengthOfNames order = bytes.length ↔ names.Nodup ∧ count.length = Varint.length n) := by
  obtain ⟨rest, hrest, hnil⟩ := exists_perm_append hnd hmem
  have htotal : total SizedText.length names =
      total SizedText.length order + total SizedText.length rest := by
    rw [total_perm _ hrest, total_append]
  have hzero : total SizedText.length rest = 0 ↔ names.Nodup := by
    rw [total_eq_zero_iff fun name => by rw [SizedText.length]; omega, hnil]
  have hle : order.length ≤ names.length := by
    rw [hrest.length_eq, List.length_append]
    exact Nat.le_add_right ..
  have hn : n = names.length.toUInt32 := UInt32.toNat_inj.1 <| by
    rw [h.toNat_eq]
    exact (UInt32.toNat_ofNat_of_lt' h.encodable.1).symm
  have hfewer : Varint.length order.length.toUInt32 ≤ Varint.length n := by
    refine Varint.length_mono ?_
    rw [h.toNat_eq]
    exact (UInt32.toNat_ofNat_of_lt' (Nat.lt_of_le_of_lt hle h.encodable.1)).trans_le hle
  have hshort := Varint.length_le_of_spells h.spells_count
  rw [h.length_eq, lengthOfNames, htotal]
  refine ⟨by omega, ?_, ?_⟩
  · intro heq
    exact ⟨hzero.1 (by omega), by omega⟩
  · rintro ⟨hnames, hcount⟩
    -- Nothing is left over, so there are as many names as were counted.
    obtain rfl := hnil.2 hnames
    rw [List.append_nil] at hrest
    rw [hcount, hn, hrest.length_eq, total_nil, Nat.add_zero]

end Counted

/-- **To read and to write again does away with repetitions.**  Let bytes be accepted as a set, and let
that be written in any order of its names.  This succeeds, and what is written is read as the same
set.  It is not longer than the bytes that were read; and it is as long exactly if no name came twice
there, and the number in front of the names was as short as can be. -/
theorem rewrite_shortens (bytes : List UInt8) (s : NameSet) (hread : ofBytes bytes = .ok s)
    (order : List String) (horder : order.Perm s.toList) :
    ∃ out, bytesOf order = .ok out ∧
      (∃ t, ofBytes out = .ok t ∧ ∀ name, t.contains name = s.contains name) ∧
      out.length ≤ bytes.length ∧
      (∃ count n names, Counted bytes count n names) ∧
      ∀ count n names, Counted bytes count n names →
        (out.length = bytes.length ↔
          names.Nodup ∧ ∀ other, Varint.Spells other n → count.length ≤ other.length) := by
  obtain ⟨names, ⟨count, n, entries, hentries⟩, rfl⟩ := ofBytes_eq_ok_iff.1 hread
  have hcounted : Counted bytes count n names := ⟨entries, hentries⟩
  have hnd : order.Nodup := horder.nodup_iff.2 (nodup_toList _)
  have hmem : ∀ name, name ∈ order ↔ name ∈ names := fun name => by
    rw [horder.mem_iff, ← contains_iff_mem_toList, contains_ofList_iff]
  obtain ⟨hcount, hshort⟩ := hcounted.encodable
  have hfewer : order.length ≤ names.length :=
    (List.subperm_of_subset hnd fun name => (hmem name).1).length_le
  obtain ⟨out, hout⟩ := encodeNames_eq_ok_iff.2
    ⟨Nat.lt_of_le_of_lt hfewer hcount, fun name hname => hshort name ((hmem name).1 hname)⟩
  have hlength := length_of_encodeNames hout
  refine ⟨out, bytesOf_eq_ok_iff.2 hout, ?_, hlength ▸ (hcounted.length_le hnd hmem).1,
    ⟨count, n, names, hcounted⟩, ?_⟩
  · refine ⟨_, ofBytes_eq_ok_iff.2 ⟨order, spells_of_encodeNames hout, rfl⟩, fun name => ?_⟩
    rw [Bool.eq_iff_iff, contains_ofList_iff, contains_ofList_iff, hmem]
  · intro count' n' names' hcounted'
    -- The names are the same, since bytes are read in one way only.
    obtain rfl : names' = names := by
      have hspells := exact_decodeNames.read_append hcounted.spells []
      rw [exact_decodeNames.read_append hcounted'.spells []] at hspells
      exact Except.ok.inj (Prod.mk.inj hspells).1
    rw [hlength, (hcounted'.length_le hnd hmem).2, Varint.minimal_iff hcounted'.spells_count]

/-- A name that came twice, after a number with a group more than it needs, is written once, after a
number without it. -/
theorem rewrite_shortens_repeated :
    ofBytes [0x82, 0, 0, 1, 0x61, 0, 1, 0x61] = .ok (ofList ["a", "a"]) ∧
    ["a"].Perm (ofList ["a", "a"]).toList ∧
    ∃ out, bytesOf ["a"] = .ok out ∧ out.length < 8 := by
  have hcounted : Counted [0x82, 0, 0, 1, 0x61, 0, 1, 0x61] [0x82, 0] 2 ["a", "a"] :=
    ⟨[[0, 1, 0x61], [0, 1, 0x61]], rfl, by decide, rfl,
      .cons ⟨0, 1, [0x61], rfl, rfl, rfl⟩ (.cons ⟨0, 1, [0x61], rfl, rfl, rfl⟩ .nil)⟩
  have hread := ofBytes_eq_ok_iff.2 ⟨_, hcounted.spells, rfl⟩
  have horder : ["a"].Perm (ofList ["a", "a"]).toList := by decide +kernel
  obtain ⟨out, hout, -, hle, -, heq⟩ := rewrite_shortens _ _ hread ["a"] horder
  refine ⟨hread, horder, out, hout, lt_of_le_of_ne hle fun h => ?_⟩
  have hnd : ["a", "a"].Nodup := ((heq _ _ _ hcounted).1 h).1
  exact absurd hnd (by decide)

end NameSet
end ClusterCache
