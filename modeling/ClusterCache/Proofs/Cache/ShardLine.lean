/-
# A shard as a list of entries

A shard whose strategy keeps its keys in one line is a list of entries: those of its records, in the
order of the line (`Shard.line`).  Each operation of the shard does to this list what its name says:
a new entry goes to the end (`Shard.line_place_of_none`), one that is used goes there or keeps its
place (`Shard.line_place_of_some`, `Shard.line_lookup`), one that is taken out leaves its place
(`Shard.line_detach`), and the head is given up (`Shard.line_evict`).
-/

import ClusterCache.Proofs.Cache.Lines
import ClusterCache.Proofs.Cache.Shard
import ClusterCache.Proofs.Eviction.Lining

namespace ClusterCache

variable {K V : Type} [DecidableEq K]

/-! ### Lists of entries found under their keys -/

namespace Line

/-- Each entry that is found has the key under which it was looked for. -/
def Keyed (f : K → Option (K × V)) : Prop := ∀ k e, f k = some e → e.1 = k

variable {f g : K → Option (K × V)} {ks : List K} {k : K}

/-- In entries listed by their keys each key is found that is listed and has an entry. -/
theorem find?_filterMap (hf : Keyed f) (ks : List K) (k : K) :
    find? (ks.filterMap f) k = if k ∈ ks then f k else none := by
  induction ks with
  | nil => rfl
  | cons a ks ih =>
    by_cases ha : k = a
    · subst ha
      rw [if_pos (List.mem_cons_self ..)]
      cases h : f k with
      | none =>
        rw [List.filterMap_cons_none h, ih]
        split
        · exact h
        · rfl
      | some e =>
        rw [List.filterMap_cons_some h, find?, List.find?_cons_of_pos]
        exact decide_eq_true (hf k e h)
    · have hmem : k ∈ a :: ks ↔ k ∈ ks := by simp [ha]
      simp only [hmem]
      cases h : f a with
      | none => rw [List.filterMap_cons_none h, ih]
      | some e =>
        have hne : ¬ e.1 = k := fun he => ha (he.symm.trans (hf a e h))
        rw [List.filterMap_cons_some h, find?, List.find?_cons_of_neg (by simp [hne])]
        exact ih

/-- Without a key the others are listed as before. -/
theorem drop_filterMap (hf : Keyed f) (hnd : ks.Nodup) (hg : ∀ a, a ≠ k → g a = f a) :
    drop (ks.filterMap f) k = (ks.erase k).filterMap g := by
  rw [drop, List.filter_filterMap, hnd.erase_eq_filter, List.filterMap_filter]
  refine List.filterMap_congr fun a _ => ?_
  by_cases ha : a = k
  · subst ha
    have hout : (f a).filter (fun e => decide (e.1 ≠ a)) = none :=
      Option.filter_eq_none_iff.2 fun e he => by simp [hf a e he]
    rw [hout]
    simp
  · rw [if_pos (by simp [ha]), hg a ha]
    cases h : f a with
    | none => rfl
    | some e =>
      have he : ¬ e.1 = k := fun he => ha ((hf a e h).symm.trans he)
      simp [Option.filter, he]

/-- Writing over the entry of a key is seen at that key and nowhere else. -/
theorem map_filterMap (hf : Keyed f) {e old : K × V} (hold : f e.1 = some old) (ks : List K)
    (hg : ∀ a, g a = if a = e.1 then some e else f a) :
    (ks.filterMap f).map (fun e' => if e'.1 = e.1 then e else e') = ks.filterMap g := by
  rw [List.map_filterMap]
  refine List.filterMap_congr fun a _ => ?_
  rw [hg]
  by_cases ha : a = e.1
  · rw [if_pos ha, ha, hold]
    simp [hf _ _ hold]
  · rw [if_neg ha]
    cases h : f a with
    | none => rfl
    | some e' =>
      have he : ¬ e'.1 = e.1 := fun he => ha ((hf a e' h).symm.trans he)
      simp [he]

end Line

variable {S : Strategy K}

/-! ### Shards -/

namespace Shard

variable {Q : S.Lining} {s : Shard S V} {t : RecordTable K V} {r : Record K V} {k : K}
  {hash : K → UInt64}

/-- The entry that a key finds by its hash. -/
def entryAt (hash : K → UInt64) (t : RecordTable K V) (k : K) : Option (K × V) :=
  (t.find? (hash k) k).map Record.entry

/-- The entries of a shard, in the order of its strategy. -/
def line (Q : S.Lining) (hash : K → UInt64) (s : Shard S V) : List (K × V) :=
  (Q.line s.memory).filterMap (entryAt hash s.table)

/-- A record has an entry under its key. -/
theorem entryAt_of_find? (hr : t.find? (hash k) k = some r) : entryAt hash t k = some r.entry := by
  rw [entryAt, hr, Option.map_some]

/-- What a key finds in a table has the key. -/
theorem keyed_entryAt (hash : K → UInt64) (t : RecordTable K V) : Line.Keyed (entryAt hash t) := by
  intro k e he
  obtain ⟨r, hr, rfl⟩ := Option.map_eq_some_iff.1 he
  exact (RecordTable.of_find? hr).2

/-- The line of the strategy has the keys that are held. -/
theorem Agrees.mem_line (hs : s.Agrees hash Q.toTracking) (k : K) :
    k ∈ Q.line s.memory ↔ s.holds hash k = true :=
  Q.resident_iff.symm.trans (hs.resident_iff k)

/-- The keys in the line of the strategy are those that find an entry. -/
theorem Agrees.isSome_entryAt (hs : s.Agrees hash Q.toTracking) (k : K) :
    (entryAt hash s.table k).isSome = true ↔ k ∈ Q.line s.memory := by
  rw [hs.mem_line, entryAt, Option.isSome_map]
  rfl

/-- A key finds in the line of a shard what it finds in the table. -/
theorem find?_line (hs : s.Agrees hash Q.toTracking) (k : K) :
    Line.find? (s.line Q hash) k = entryAt hash s.table k := by
  rw [line, Line.find?_filterMap (keyed_entryAt hash s.table)]
  split
  · rfl
  · rename_i hk
    have hnone : ¬ (entryAt hash s.table k).isSome = true := mt (hs.isSome_entryAt k).1 hk
    exact (Option.not_isSome_iff_eq_none.1 hnone).symm

/-- There are as many keys in the line of the strategy as records. -/
theorem Agrees.length_line (hs : s.Agrees hash Q.toTracking) :
    (Q.line s.memory).length = s.size := by
  have hkeys : (Q.line s.memory).Perm (s.records.map Record.key) :=
    (List.perm_ext_iff_of_nodup (Q.nodup_line hs.sound) hs.tidy.nodup_key).2 fun k =>
      Q.resident_iff.symm.trans hs.resident_iff_mem_key
  rw [hkeys.length_eq, List.length_map, s.size_eq_length]

/-- There are as many entries in the line of a shard as records. -/
theorem length_line (hs : s.Agrees hash Q.toTracking) : (s.line Q hash).length = s.size := by
  have hall : (s.line Q hash).length = (Q.line s.memory).length := by
    rw [line, List.length_filterMap_eq_countP, List.countP_eq_length]
    exact fun k hk => (hs.isSome_entryAt k).2 hk
  rw [hall, hs.length_line]

/-- A record that is put in gives its key another entry, and leaves the others. -/
theorem entryAt_insert (t : RecordTable K V) (hr : r.hash = hash r.key) (k : K) :
    entryAt hash (t.insert r) k = if k = r.key then some r.entry else entryAt hash t k := by
  rw [entryAt, t.find?_insert_hash hr]
  split
  · rfl
  · rfl

/-- The entries of other keys stay when one is dropped. -/
theorem entryAt_erase (t : RecordTable K V) {a : K} (ha : a ≠ k) :
    entryAt hash (t.erase (hash k) k) a = entryAt hash t a := by
  rw [entryAt, t.find?_erase_hash, if_neg ha, entryAt]

/-- A new key goes to the end. -/
theorem line_place_of_none (hs : s.Agrees hash Q.toTracking) (hr : r.hash = hash r.key)
    (h : s.find? (hash r.key) r.key = none) :
    (s.place r).2.line Q hash = s.line Q hash ++ [r.entry] := by
  have hmem : r.key ∉ Q.line s.memory := by
    rw [hs.mem_line, holds, contains, h]
    exact Bool.false_ne_true
  have hmemory := s.place_memory r
  rw [hr, h] at hmemory
  simp only at hmemory
  rw [line, hmemory, Q.line_push hs.sound hmem, place_table, List.filterMap_append, line]
  congr 1
  · refine List.filterMap_congr fun a ha => ?_
    rw [entryAt_insert _ hr, if_neg fun he : a = r.key => hmem (he ▸ ha)]
  · rw [List.filterMap_cons_some (by rw [entryAt_insert _ hr, if_pos rfl]), List.filterMap_nil]

/-- A use of a key with its entry, or with another one for it. -/
theorem line_use (hs : s.Agrees hash Q.toTracking) {e o : K × V}
    (hold : entryAt hash s.table e.1 = some o)
    (ht : ∀ a, entryAt hash t a = if a = e.1 then some e else entryAt hash s.table a) :
    (Q.line (S.access s.memory e.1)).filterMap (entryAt hash t) =
      Line.use Q.refreshes (s.line Q hash) e := by
  have hmem : e.1 ∈ Q.line s.memory := (hs.isSome_entryAt e.1).1 (by rw [hold]; rfl)
  have hnd := Q.nodup_line hs.sound
  have hkeyed := keyed_entryAt hash s.table
  rw [Q.line_access hs.sound hmem, Line.use, line]
  cases Q.refreshes with
  | false =>
    rw [if_neg Bool.false_ne_true, if_neg Bool.false_ne_true, Line.map_filterMap hkeyed hold _ ht]
  | true =>
    rw [if_pos rfl, if_pos rfl, List.filterMap_append,
      List.filterMap_cons_some (by rw [ht, if_pos rfl]), List.filterMap_nil,
      Line.drop_filterMap (g := entryAt hash t) hkeyed hnd fun a ha => by rw [ht, if_neg ha]]

/-- A key that is held and stored anew is used, with the new entry. -/
theorem line_place_of_some (hs : s.Agrees hash Q.toTracking) (hr : r.hash = hash r.key)
    {old : Record K V} (h : s.find? (hash r.key) r.key = some old) :
    (s.place r).2.line Q hash = Line.use Q.refreshes (s.line Q hash) r.entry := by
  have hmemory := s.place_memory r
  rw [hr, h] at hmemory
  simp only at hmemory
  have hold : entryAt hash s.table r.key = some old.entry := entryAt_of_find? h
  rw [line, hmemory, place_table]
  exact line_use hs (e := r.entry) hold (entryAt_insert s.table hr)

/-- A key that is looked up and found is used. -/
theorem line_lookup (hs : s.Agrees hash Q.toTracking) (h : s.find? (hash k) k = some r) :
    (s.lookup (hash k) k).2.line Q hash = Line.use Q.refreshes (s.line Q hash) r.entry := by
  obtain rfl : r.key = k := (RecordTable.of_find? h).2
  have hentry : entryAt hash s.table r.key = some r.entry := entryAt_of_find? h
  have huse := line_use hs (e := r.entry) (o := r.entry) hentry (t := s.table) fun a => by
    split
    · rename_i ha
      rw [ha]
      exact hentry
    · rfl
  unfold lookup
  rw [h]
  simp only [Q.tracksAccess_eq]
  split
  · exact huse
  · rename_i hrefreshes
    -- who is not told of uses has the line that it would have if it were
    have hmem : r.key ∈ Q.line s.memory := (hs.isSome_entryAt r.key).1 (by rw [hentry]; rfl)
    have haccess := Q.line_access hs.sound hmem
    rw [if_neg hrefreshes] at haccess
    rw [show r.entry.1 = r.key from rfl, haccess] at huse
    exact huse

/-- A key that is not found is not looked up. -/
theorem lookup_of_none {h : UInt64} (hk : s.find? h k = none) : s.lookup h k = (none, s) := by
  rw [lookup, hk]

/-- A key that is taken out leaves its place in the line. -/
theorem line_detach (hs : s.Agrees hash Q.toTracking) (k : K) :
    (s.detach (hash k) k).2.line Q hash = Line.drop (s.line Q hash) k := by
  have hnd := Q.nodup_line hs.sound
  have hkeyed := keyed_entryAt hash s.table
  cases h : s.find? (hash k) k with
  | none =>
    have hmem : k ∉ Q.line s.memory := by
      rw [hs.mem_line, holds, contains, h]
      exact Bool.false_ne_true
    rw [detach_of_none h, line, Line.drop_filterMap hkeyed hnd fun _ _ => rfl,
      List.erase_of_not_mem hmem]
  | some r =>
    rw [detach_of_some h, line, line, Q.line_remove hs.sound,
      Line.drop_filterMap hkeyed hnd fun a ha => entryAt_erase s.table ha]

/-- **The head of the line is given up.** -/
theorem line_evict (hs : s.Agrees hash Q.toTracking) (sh : S.Shared) :
    (s.evict hash sh).1.map Record.entry = (s.line Q hash).head? ∧
      (s.evict hash sh).2.2.line Q hash = (s.line Q hash).tail := by
  have hhead := Q.pop_fst sh hs.sound
  have htail := Q.line_pop sh hs.sound
  have hnd := Q.nodup_line hs.sound
  rcases hs.evict_eq sh with ⟨k, r, hpop, hr, he⟩ | ⟨hpop, he⟩
  · rw [hpop] at hhead
    obtain ⟨rest, hline⟩ := List.head?_eq_some_iff.1 hhead.symm
    rw [hline] at hnd htail
    rw [he, line, line, htail, hline, List.filterMap_cons_some (entryAt_of_find? hr)]
    refine ⟨rfl, List.filterMap_congr fun a ha => entryAt_erase s.table ?_⟩
    rintro rfl
    exact (List.nodup_cons.1 hnd).1 ha
  · rw [hpop] at hhead
    have hline : Q.line s.memory = [] := List.head?_eq_none_iff.1 hhead.symm
    rw [hline] at htail
    rw [he, line, line, htail, hline]
    exact ⟨rfl, rfl⟩

end Shard

end ClusterCache
