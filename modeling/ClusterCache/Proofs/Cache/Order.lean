/-
# A cache gives up its records in order

The entries of the shards of a cache, each in the order of its strategy, are the lists of `Lines`
(`Cache.lines`).  A call does to them what `Lines.perform` says, replies the same and sends the same
entries away, but for clearing, which has no order (`Cache.Steady.perform_lines`).  So a session with
a listener who makes no calls shows what the lists show (`Session.transcript_lines`).
-/

import ClusterCache.Proofs.Cache.ShardLine
import ClusterCache.Proofs.Cache.Steady

namespace ClusterCache

variable {K V : Type} [DecidableEq K] {S : Strategy K}

/-! ### Caches -/

namespace Cache

variable {Q : S.Lining} {c c' : Cache S V} {s : Shard S V} {r : Record K V} {k : K}
  {p : Lines.Rules K} {max i : Nat}

/-- The entries of a cache, shard by shard, in the order of its strategy. -/
def lines (Q : S.Lining) (c : Cache S V) : Lines K V :=
  ⟨c.shards.toList.map (Shard.line Q c.hash), c.isRunning⟩

/-- The line of a shard holds its entries in the order of its strategy. -/
theorem list_lines (hs : c.shards[i]? = some s) : (c.lines Q).list i = s.line Q c.hash := by
  rw [Lines.list, lines, List.getElem?_map, Array.getElem?_toList, hs]
  rfl

/-- Where there is no shard there is no line. -/
theorem list_lines_of_none (hs : c.shards[i]? = none) : (c.lines Q).list i = [] := by
  rw [Lines.list, lines, List.getElem?_map, Array.getElem?_toList, hs]
  rfl

/-- A key belongs to the line of its shard. -/
theorem home_lines (c : Cache S V) (k : K) : (c.lines Q).home p k = c.shardOf (p.hash k) := by
  rw [Lines.home, lines, List.length_map, Array.length_toList, shardOf]

/-- A round through the lines is one through the shards. -/
theorem round_lines (c : Cache S V) (start : Nat) : (c.lines Q).round start = c.round start := by
  rw [Lines.round, lines, List.length_map, Array.length_toList, round]

/-- The lines hold as many entries as the cache holds records. -/
theorem size_lines (h : c.Each fun _ s => s.Agrees c.hash Q.toTracking) :
    (c.lines Q).size = c.stored := by
  have hlength : ∀ s ∈ c.shards.toList, (s.line Q c.hash).length = s.size := fun s hs => by
    obtain ⟨i, hi⟩ := List.getElem?_of_mem hs
    rw [Array.getElem?_toList] at hi
    exact Shard.length_line (h i s hi)
  rw [Lines.size, lines, stored]
  simp only
  generalize c.shards.toList = l at hlength
  induction l with
  | nil => rfl
  | cons s l ih =>
    have hs : (s.line Q c.hash).length = s.size := hlength s (List.mem_cons_self ..)
    have hrest := ih fun t ht => hlength t (List.mem_cons_of_mem s ht)
    rw [List.map_cons, total_cons, total_cons, hs, hrest]

/-- A cache in which one shard was replaced. -/
theorem lines_eq_set (hshards : c'.shards = c.shards.setIfInBounds i s)
    (hhash : c'.hash = c.hash) (hrun : c'.isRunning = c.isRunning) :
    c'.lines Q = (c.lines Q).set i (s.line Q c.hash) := by
  rw [lines, lines, Lines.set, hshards, hhash, hrun, Array.toList_setIfInBounds, List.map_set]

/-- A line that is written as it was changes nothing. -/
theorem set_lines (hs : c.shards[i]? = some s) : (c.lines Q).set i (s.line Q c.hash) = c.lines Q := by
  have hline : (c.shards.toList.map (Shard.line Q c.hash))[i]? = some (s.line Q c.hash) := by
    rw [List.getElem?_map, Array.getElem?_toList, hs]
    rfl
  obtain ⟨hi, hline⟩ := List.getElem?_eq_some_iff.1 hline
  rw [lines, Lines.set, ← hline, List.set_getElem_self]

/-- Other counters make no other lines. -/
theorem Still.lines (h : c.Still c') : c'.lines Q = c.lines Q := by
  rw [Cache.lines, Cache.lines, h.shards, h.hash, h.sameSetup.isRunning]

/-- **A round finds the head of the first list that has entries.** -/
theorem shed_lines (h : c.Each fun _ s => s.Agrees c.hash Q.toTracking) (is : List Nat) :
    (c.lines Q).shed is = ((c.takeFirst is).1.map Record.entry, (c.takeFirst is).2.lines Q) := by
  induction is generalizing c with
  | nil => rfl
  | cons i rest ih =>
    have hagree := h.takeFrom (fun sh hs => hs.evict sh) i
    rw [← (sameSetup_takeFrom c i).hash] at hagree
    unfold Lines.shed takeFirst
    cases hs : c.shards[i]? with
    | none =>
      have htake : c.takeFrom i = (none, c) := by rw [takeFrom, hs]
      rw [list_lines_of_none hs, htake]
      exact ih h
    | some s =>
      have hevict := Shard.line_evict (h i s hs) c.shared
      have htake : c.takeFrom i = ((s.evict c.hash c.shared).1, { c with
          shared := (s.evict c.hash c.shared).2.1
          shards := c.shards.setIfInBounds i (s.evict c.hash c.shared).2.2 }) := by rw [takeFrom, hs]
      have hlines : (c.takeFrom i).2.lines Q = (c.lines Q).set i (s.line Q c.hash).tail := by
        rw [htake, ← hevict.2]
        exact lines_eq_set rfl rfl rfl
      have hfst : (c.takeFrom i).1.map Record.entry = (s.line Q c.hash).head? := by rw [htake, hevict.1]
      have hkeep := set_lines (Q := Q) hs
      rw [list_lines hs]
      rcases ht : c.takeFrom i with ⟨_ | r, c'⟩ <;> rw [ht] at hagree hlines hfst
      · have hline : s.line Q c.hash = [] := List.head?_eq_none_iff.1 hfst.symm
        rw [hline] at hlines hkeep ⊢
        simp only
        rw [← ih hagree, hlines, List.tail_nil, hkeep]
      · obtain ⟨l, hline⟩ := List.head?_eq_some_iff.1 hfst.symm
        rw [hline] at hlines ⊢
        simp only
        rw [hlines]
        rfl

/-! ### Calls -/

/-- What is told of records that leave singly. -/
def told (ds : List (Departure K V)) : List (Reason × K × V) :=
  (ds.filter fun d => d.reason ≠ .clear).map fun d => (d.reason, d.record.entry)

/-- An insertion answers with the new record. -/
theorem insert_fst (c : Cache S V) (k : K) (v : V) : (c.insert k v).1 = c.newRecord k v := by
  have hfst := c.place_fst k v
  unfold insert
  rcases hp : c.place k v with ⟨r, _ | old, c'⟩ <;> rw [hp] at hfst
  · simp only
    split
    · exact hfst
    · exact hfst
  · exact hfst

/-- The answer to a lookup, and the cache afterwards. -/
theorem lookup_of_shard (hs : c.shards[c.shardOf (c.hash k)]? = some s) :
    c.lookup k = (s.find? (c.hash k) k, { c with
      shards := c.shards.setIfInBounds (c.shardOf (c.hash k)) (s.lookup (c.hash k) k).2 }) := by
  unfold lookup
  simp only [hs, Shard.lookup_fst]

/-- A lookup answers with what is found. -/
theorem get_fst (c : Cache S V) (k : K) : (c.get k).1 = (c.lookup k).1 := by
  unfold get
  split <;> rename_i h <;> rw [h]

/-- A lookup changes nothing further but counters. -/
theorem still_get (c : Cache S V) (k : K) : (c.lookup k).2.Still (c.get k).2 := by
  unfold get
  split <;> rename_i h <;> rw [h] <;> exact ⟨rfl, rfl, rfl, rfl, rfl⟩

/-- A removal is one from the shard of the key. -/
theorem detach_of_shard (hs : c.shards[c.shardOf (c.hash k)]? = some s) :
    c.detach k = (s.find? (c.hash k) k, { c with
      shards := c.shards.setIfInBounds (c.shardOf (c.hash k)) (s.detach (c.hash k) k).2
      len := if (s.detach (c.hash k) k).1.isSome then c.len - 1 else c.len }) := by
  unfold detach
  simp only [hs, Shard.detach_fst]

namespace Steady

variable (h : c.Steady Q.toTracking max)

include h

/-- In a steady cache every shard agrees with its strategy. -/
theorem shards_agree : c.Each fun _ s => s.Agrees c.hash Q.toTracking := fun i s hs => (h.each i s hs).2

/-- What is found in the list of a shard is what the shard finds. -/
theorem find?_line (hs : c.shards[i]? = some s) (k : K) :
    Line.find? (s.line Q c.hash) k = (s.find? (c.hash k) k).map Record.entry :=
  Shard.find?_line (h.each i s hs).2 k

/-- The entry of a new key goes to the end of its line. -/
theorem lines_place_of_none (v : V) (hs : c.shards[c.shardOf (c.hash k)]? = some s)
    (hk : s.find? (c.hash k) k = none) :
    (c.place k v).2.1 = none ∧ (c.place k v).2.2.lines Q =
      (c.lines Q).set (c.shardOf (c.hash k)) (s.line Q c.hash ++ [(k, v)]) := by
  have hagree := (h.each _ s hs).2
  have hline := Shard.line_place_of_none (r := c.newRecord k v) hagree rfl hk
  rw [place_of_shard v hs]
  refine ⟨(s.place_fst _).trans hk, ?_⟩
  rw [← show (c.newRecord k v).entry = (k, v) from rfl, ← hline]
  exact lines_eq_set rfl rfl rfl

/-- The entry of a key that is stored is written in its place, or at the end if use matters. -/
theorem lines_place_of_some (v : V) (hs : c.shards[c.shardOf (c.hash k)]? = some s)
    (hk : s.find? (c.hash k) k = some r) :
    (c.place k v).2.1 = some r ∧ (c.place k v).2.2.lines Q =
      (c.lines Q).set (c.shardOf (c.hash k)) (Line.use Q.refreshes (s.line Q c.hash) (k, v)) := by
  have hagree := (h.each _ s hs).2
  have hline := Shard.line_place_of_some (r := c.newRecord k v) hagree rfl hk
  rw [place_of_shard v hs]
  refine ⟨(s.place_fst _).trans hk, ?_⟩
  rw [← show (c.newRecord k v).entry = (k, v) from rfl, ← hline]
  exact lines_eq_set rfl rfl rfl

/-- **An insertion does to the lists what their rules say.** -/
theorem insert_lines (k : K) (v : V) :
    (c.lines Q).perform ⟨c.hash, max, Q.refreshes⟩ (.insert k v : Call S V) =
      (.stored (k, v), told (c.insert k v).2.1, (c.insert k v).2.2.lines Q) := by
  obtain ⟨s, hs⟩ := exists_shard h.size_pos (c.hash k)
  have hcases := h.insert_cases k v
  have hsetup := c.sameSetup_place k v
  have hagree : (c.place k v).2.2.Each fun _ s => s.Agrees c.hash Q.toTracking := fun i t ht =>
    (h.each.place (Shard.kept_agrees c.hash c.shardOf Q.toTracking) k v i t ht).2
  have hagree' : (c.place k v).2.2.Each fun _ s =>
      s.Agrees (c.place k v).2.2.hash Q.toTracking := by rwa [hsetup.hash]
  simp only [Lines.perform, home_lines, list_lines hs, h.find?_line hs]
  generalize (c.insert k v).2.1 = out, (c.insert k v).2.2 = c₁ at hcases ⊢
  cases hk : s.find? (c.hash k) k with
  | some old =>
    obtain ⟨hold, hlines⟩ := h.lines_place_of_some v hs hk
    cases hcases with
    | @replace old' _ hold' hstill =>
      obtain rfl : old = old' := Option.some.inj (hold.symm.trans hold')
      simp only [Option.map_some]
      rw [hstill.lines, hlines]
      rfl
    | grow hnone _ _ => exact absurd (hold.symm.trans hnone) (by simp)
    | evict hnone _ _ _ _ _ _ _ => exact absurd (hold.symm.trans hnone) (by simp)
  | none =>
    obtain ⟨hnone, hlines⟩ := h.lines_place_of_none v hs hk
    have hrun : ((c.place k v).2.2.lines Q).running = c.isRunning := hsetup.isRunning
    simp only [Option.map_none, ← hlines, hrun, size_lines hagree']
    cases hcases with
    | replace hold _ => exact absurd (hnone.symm.trans hold) (by simp)
    | grow _ hroom hstill =>
      rw [if_neg hroom, hstill.lines]
      rfl
    | @evict c₂ c₃ _ r _ hrunning hover hshards hhash hrun₂ htake hstill =>
      have hlines₂ : c₂.lines Q = (c.place k v).2.2.lines Q := by
        rw [lines, lines, hshards, hhash, hrun₂, hsetup.hash, hsetup.isRunning]
      have hstart : c₂.shardOf (c.hash k) = c.shardOf (c.hash k) := by
        rw [shardOf, shardOf, hshards, hsetup.size]
      have hagree₂ : c₂.Each fun _ s => s.Agrees c₂.hash Q.toTracking := by
        rw [hhash]
        exact fun i t ht => hagree i t (hshards ▸ ht)
      have hshed := shed_lines hagree₂ (c₂.round (c₂.shardOf (c.hash k)))
      rw [htake, hlines₂, ← round_lines (Q := Q), hlines₂, hstart] at hshed
      rw [if_pos ⟨hrunning, by omega⟩, hshed, hstill.lines]
      rfl

/-- **A lookup is one in the line of the key.** -/
theorem get_lines (k : K) :
    (c.lines Q).perform ⟨c.hash, max, Q.refreshes⟩ (.get k : Call S V) =
      (.found ((c.get k).1.map Record.entry), [], (c.get k).2.lines Q) := by
  obtain ⟨s, hs⟩ := exists_shard h.size_pos (c.hash k)
  have hagree := (h.each _ s hs).2
  have hlines : (c.lookup k).2.lines Q =
      (c.lines Q).set (c.shardOf (c.hash k)) ((s.lookup (c.hash k) k).2.line Q c.hash) := by
    rw [lookup_of_shard hs]
    exact lines_eq_set rfl rfl rfl
  have hfst : (c.lookup k).1 = s.find? (c.hash k) k := by rw [lookup_of_shard hs]
  rw [get_fst, (still_get c k).lines, hlines, hfst]
  simp only [Lines.perform, home_lines, list_lines hs, h.find?_line hs]
  cases hk : s.find? (c.hash k) k with
  | some r =>
    rw [Shard.line_lookup hagree hk]
    rfl
  | none =>
    rw [Shard.lookup_of_none hk, set_lines hs]
    rfl

/-- **A removal is one from the line of the key.** -/
theorem remove_lines (k : K) :
    (c.lines Q).perform ⟨c.hash, max, Q.refreshes⟩ (.remove k : Call S V) =
      (.found ((c.remove k).1.map Record.entry), told (c.remove k).2.1,
        (c.remove k).2.2.lines Q) := by
  obtain ⟨s, hs⟩ := exists_shard h.size_pos (c.hash k)
  have hagree := (h.each _ s hs).2
  have hlines : (c.detach k).2.lines Q =
      (c.lines Q).set (c.shardOf (c.hash k)) (Line.drop (s.line Q c.hash) k) := by
    rw [← Shard.line_detach hagree k, detach_of_shard hs]
    exact lines_eq_set rfl rfl rfl
  have hfst : (c.detach k).1 = s.find? (c.hash k) k := by rw [detach_of_shard hs]
  simp only [Lines.perform, home_lines, list_lines hs, h.find?_line hs]
  rw [← hlines, ← hfst, remove]
  rcases c.detach k with ⟨_ | r, c'⟩
  · rfl
  · rfl

/-- **Clearing leaves every list empty**, and nobody leaves singly. -/
theorem clear_lines :
    (c.lines Q).perform ⟨c.hash, max, Q.refreshes⟩ (.clear : Call S V) =
      (.done, told c.clear.1, c.clear.2.lines Q) := by
  have hsteady : c.clear.2.Steady Q.toTracking max := h.perform .clear
  have hsetup : c.SameSetup c.clear.2 := sameSetup_perform (x := .clear) (by simp)
  have htold : told c.clear.1 = [] := by
    rw [told, List.map_eq_nil_iff, List.filter_eq_nil_iff]
    intro d hd
    simp [(mem_departures_iff.1 hd).1]
  have hempty : ∀ l ∈ (c.clear.2.lines Q).lists, l = [] := by
    intro l hl
    obtain ⟨s, hs, rfl⟩ := List.mem_map.1 hl
    obtain ⟨i, hi⟩ := List.getElem?_of_mem hs
    rw [Array.getElem?_toList] at hi
    have hsize : s.size = 0 := c.size_eq_zero_of_clear i s hi
    rw [← Shard.length_line (hsteady.shards_agree i s hi)] at hsize
    exact List.eq_nil_of_length_eq_zero hsize
  have hlists : (c.lines Q).lists.map (fun _ => []) = (c.clear.2.lines Q).lists := by
    rw [List.map_const', eq_comm, List.eq_replicate_iff]
    refine ⟨?_, hempty⟩
    rw [lines, lines, List.length_map, List.length_map, Array.length_toList, Array.length_toList,
      hsetup.size]
  have hrun : (c.lines Q).running = (c.clear.2.lines Q).running := hsetup.isRunning.symm
  rw [Lines.perform, htold, hlists, hrun]

/-- **A call does to the lists of a cache what their rules say, and shows the same.** -/
theorem perform_lines (x : Call S V) :
    (c.lines Q).perform ⟨c.hash, max, Q.refreshes⟩ x =
      ((c.perform x).1.reply, told (c.perform x).2.1, (c.perform x).2.2.lines Q) := by
  cases x with
  | insert k v =>
    rw [h.insert_lines, Cache.perform, Answer.reply, insert_fst]
    rfl
  | get k => exact h.get_lines k
  | contains k =>
    obtain ⟨s, hs⟩ := exists_shard h.size_pos (c.hash k)
    simp only [Lines.perform, home_lines, list_lines hs, h.find?_line hs, Option.isSome_map]
    rw [Cache.perform, contains, hs]
    rfl
  | remove k => exact h.remove_lines k
  | clear => exact h.clear_lines
  | sweep =>
    obtain ⟨hcount, hout, hstill⟩ := h.sweep_eq
    show _ = (Reply.count c.sweep.1, told c.sweep.2.1, c.sweep.2.2.lines Q)
    rw [hcount, hout, hstill.lines]
    rfl
  | stop | adjust f => rfl

end Steady

/-! ### New caches -/

/-- A new cache has as many empty lists as shards. -/
theorem lines_of_create (Q : S.Lining) {config : Config} {controller : Controller} {shards : Nat}
    {hash : K → UInt64} (hcontroller : Controller.create config = .ok controller)
    (hcreate : create S V shards controller hash = .ok c) :
    c.lines Q = ⟨List.replicate shards [], true⟩ := by
  have hfresh := (create_eq_ok hcreate).1
  have hsize : c.shards.size = shards := by rw [shards_of_create hcreate, Array.size_replicate]
  rw [lines, create_isRunning hcontroller hcreate]
  congr 1
  rw [List.eq_replicate_iff, List.length_map, Array.length_toList, hsize]
  refine ⟨rfl, fun l hl => ?_⟩
  obtain ⟨s, hs, rfl⟩ := List.mem_map.1 hl
  obtain ⟨i, hi⟩ := List.getElem?_of_mem hs
  rw [Array.getElem?_toList] at hi
  have hagrees := (hfresh.each_agrees Q.toTracking i s hi).2
  obtain ⟨capacity, rfl⟩ := hfresh.shard i s hi
  exact List.eq_nil_of_length_eq_zero (Shard.length_line hagrees)

end Cache

/-! ### Sessions -/

/-- A listener who makes no calls. -/
def Listener.silent (S : Strategy K) (V : Type) : Listener S V where
  State := Unit
  react _ _ := ((), [])
  budget _ := 0
  budget_react _ _ := .inr ⟨rfl, rfl⟩

namespace Session

variable {L : Listener S V} {Q : S.Lining} {max : Nat}

/-- What is seen of a call in a session. -/
def sight (s : Session L) (x : Call S V) : Sight K V :=
  ⟨(s.call x).1.reply, Cache.told ((s.call x).2.since s.log.length), (s.call x).2.cache.size⟩

/-- What is seen of some calls, one after another. -/
def transcript : Session L → List (Call S V) → List (Sight K V)
  | _, [] => []
  | s, x :: xs => s.sight x :: transcript (s.call x).2 xs

/-- A listener who makes no calls is told of the departures, and that is all. -/
theorem run_of_silent (hL : ∀ l d, (L.react l d).2 = []) (s : Session L)
    (ds : List (Departure K V)) :
    (s.run (ds.map .tell)).cache = s.cache ∧ (s.run (ds.map .tell)).log = ds.reverse ++ s.log := by
  induction ds generalizing s with
  | nil =>
    rw [List.map_nil, run]
    exact ⟨rfl, rfl⟩
  | cons d ds ih =>
    have hcalls := hL s.listener d
    rw [List.map_cons, run]
    rcases hr : L.react s.listener d with ⟨l, calls⟩
    rw [hr] at hcalls
    obtain rfl : calls = [] := hcalls
    obtain ⟨hcache, hlog⟩ := ih { s with listener := l, log := d :: s.log }
    refine ⟨hcache, hlog.trans ?_⟩
    rw [List.reverse_cons, List.append_assoc]
    rfl

/-- Before a listener that does not call back, a session does what the cache does, and tells it all.
-/
theorem call_of_silent (hL : ∀ l d, (L.react l d).2 = []) (s : Session L) (x : Call S V) :
    (s.call x).2.cache = (s.cache.perform x).2.2 ∧
      (s.call x).2.since s.log.length = (s.cache.perform x).2.1 := by
  obtain ⟨hcache, hlog⟩ := run_of_silent hL ⟨(s.cache.perform x).2.2, s.listener, s.log⟩
    (s.cache.perform x).2.1
  refine ⟨hcache, ?_⟩
  have hlog : (s.call x).2.log = (s.cache.perform x).2.1.reverse ++ s.log := hlog
  rw [since, hlog, List.length_append, Nat.add_sub_cancel, List.take_left, List.reverse_reverse]

/-- **A session shows what the lists of its cache show.** -/
theorem transcript_lines (hL : ∀ l d, (L.react l d).2 = []) {s : Session L}
    (h : s.cache.Steady Q.toTracking max) (xs : List (Call S V)) :
    s.transcript xs = (s.cache.lines Q).transcript ⟨s.cache.hash, max, Q.refreshes⟩ xs := by
  induction xs generalizing s with
  | nil => rfl
  | cons x xs ih =>
    obtain ⟨hcache, hsince⟩ := call_of_silent hL s x
    have hnext : (s.call x).2.cache.Steady Q.toTracking max := hcache ▸ h.perform x
    have hhash : (s.call x).2.cache.hash = s.cache.hash :=
      hcache ▸ (Cache.sameShape_perform s.cache x).hash
    have hsize : (s.call x).2.cache.size = ((s.cache.perform x).2.2.lines Q).size := by
      rw [hnext.size_eq, hcache, Cache.size_lines (h.perform x).shards_agree]
    rw [transcript, sight, ih hnext, hhash, hsince, hsize, hcache, Lines.transcript,
      h.perform_lines x]
    rfl

/-- **A cache that gives up its records in order is lists of entries.**  A session with a new cache,
for as many records as the settings say, whose listener makes no calls shows what lists show that are
empty at first, one for each shard; and with a single shard, what a single list shows. -/
theorem transcript_eq [Hashable K] (B : Lined K S) {config : Config} {controller : Controller}
    {shards : Nat} {hash : K → UInt64} {c : Cache S V}
    (hcontroller : Controller.create config = .ok controller)
    (hbounded : config.order.isBounded = true)
    (hcreate : Cache.create S V shards controller hash = .ok c)
    (hL : ∀ l d, (L.react l d).2 = []) (l : L.State) (log : List (Departure K V))
    (xs : List (Call S V)) :
    transcript (⟨c, l, log⟩ : Session L) xs = Lines.transcript
      ⟨hash, config.maxEntries.toNat, B.refreshes⟩ ⟨List.replicate shards [], true⟩ xs ∧
    (shards = 1 → transcript (⟨c, l, log⟩ : Session L) xs =
      OneLine.transcript config.maxEntries.toNat B.refreshes ⟨[], true⟩ xs) := by
  have hsteady := Cache.steady_of_create B.lining.toTracking hcontroller hbounded hcreate
  have hlines := transcript_lines (s := ⟨c, l, log⟩) hL hsteady xs
  simp only [Cache.lines_of_create B.lining hcontroller hcreate, (Cache.create_eq_ok hcreate).2.1,
    B.refreshes_lining] at hlines
  refine ⟨hlines, ?_⟩
  rintro rfl
  exact hlines.trans (Lines.transcript_one ⟨[], true⟩ xs)

/-- In a cache for one record in two shards, all in the first of them, the second record takes the
place of the first; and in a cache for two records in one shard, the one used longest ago is given up
for the third, and not the oldest. -/
theorem transcript_eq_of_uses :
    transcript (⟨.forOne, (), []⟩ : Session (.silent (.lru Nat) Nat))
        [.insert 1 10, .insert 2 20, .get 1] =
      [⟨.stored (1, 10), [], 1⟩, ⟨.stored (2, 20), [(.evict, 1, 10)], 1⟩,
        ⟨.found none, [], 1⟩] ∧
    ∃ c : Cache (.lru Nat) Nat, Cache.create (.lru Nat) Nat 1
        ⟨{ maxEntries := 2, wakeUpIntervalMillis := 0, order := .lru }, true, none, true⟩
        Nat.toUInt64 = .ok c ∧
      transcript (⟨c, (), []⟩ : Session (.silent (.lru Nat) Nat))
          [.insert 1 10, .insert 2 20, .get 1, .insert 3 30, .contains 2] =
        [⟨.stored (1, 10), [], 1⟩, ⟨.stored (2, 20), [], 2⟩, ⟨.found (some (1, 10)), [], 2⟩,
          ⟨.stored (3, 30), [(.evict, 2, 20)], 2⟩, ⟨.flag false, [], 2⟩] := by
  have hcontroller : Controller.create
      { maxEntries := 2, wakeUpIntervalMillis := 0, order := .lru } =
    .ok ⟨{ maxEntries := 2, wakeUpIntervalMillis := 0, order := .lru }, true, none, true⟩ := rfl
  have hlines : Lines.transcript ⟨fun _ => 7, 1, true⟩ ⟨[[], []], true⟩
      ([.insert 1 10, .insert 2 20, .get 1] : List (Call (.lru Nat) Nat)) =
    [⟨.stored (1, 10), [], 1⟩, ⟨.stored (2, 20), [(.evict, 1, 10)], 1⟩, ⟨.found none, [], 1⟩] := by
    decide +kernel
  have hone : OneLine.transcript 2 true ⟨[], true⟩
      ([.insert 1 10, .insert 2 20, .get 1, .insert 3 30, .contains 2] :
        List (Call (.lru Nat) Nat)) =
    [⟨.stored (1, 10), [], 1⟩, ⟨.stored (2, 20), [], 2⟩, ⟨.found (some (1, 10)), [], 2⟩,
      ⟨.stored (3, 30), [(.evict, 2, 20)], 2⟩, ⟨.flag false, [], 2⟩] := by
    decide +kernel
  refine ⟨?_, _, rfl, ?_⟩
  · exact (transcript_eq (L := .silent (.lru Nat) Nat) .lru Cache.controller_forOne rfl
      Cache.create_forOne (fun _ _ => rfl) () [] _).1.trans hlines
  · exact ((transcript_eq (L := .silent (.lru Nat) Nat) .lru hcontroller rfl rfl (fun _ _ => rfl) ()
      [] _).2 rfl).trans hone

end Session
end ClusterCache
