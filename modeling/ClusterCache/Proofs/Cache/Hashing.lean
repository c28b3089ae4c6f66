/-
# No result depends on the hash

The hash of a key chooses a shard, and inside a shard it says which records a search looks at.  Among
those the key decides: however many other keys have the same hash, the record with the key is found
(`RecordTable.Tidy.find?_eq_some_iff`).  So two shards that are searched by different hashes, and whose
records carry them, go the same way as long as keys find the same in both (`Shard.Like`), and that holds
of the tables, of what is overwritten and taken out, and of each victim, which is hashed anew.

New caches with a single shard are alike in this sense, be the hash a good one or the same for all keys
(`Cache.like_of_one`), and it shows in nothing but the records that carry it.  In a cache without a
bound the shards do not show either, nor does their number: it is a map that finds the record of the
latest insertion, unless that was taken out or cleared away since (`Session.showings_of_hashes`).
-/

import ClusterCache.Proofs.Cache.Likeness
import ClusterCache.Proofs.Cache.Scan

namespace ClusterCache

section

variable {K V : Type} [DecidableEq K] {S : Strategy K}

/-! ### Two hashes -/

namespace Cache

/-- New caches with one shard are alike whatever the hashes, and their strategies remember the same. -/
theorem like_of_one {controller : Controller} {hash hash' : K → UInt64} {c c' : Cache S V}
    (h : create S V 1 controller hash = .ok c) (h' : create S V 1 controller hash' = .ok c') :
    c'.cursor = c.cursor ∧ c'.metrics = c.metrics ∧
      Like (.eq S) Record.unhashed c c' c c' := by
  have hshards := shards_of_create h
  have hshards' := shards_of_create h'
  have hone : c.shards.size = 1 := by rw [hshards, Array.size_replicate]
  have hone' : c'.shards.size = 1 := by rw [hshards', Array.size_replicate]
  have hlikes : Shard.Likes (.eq S) Record.unhashed c.hash c'.hash c.shards c'.shards := by
    refine ⟨hone'.trans hone.symm, fun i s s' hs hs' => ?_⟩
    have hempty : s = .init S V (shardCapacity controller.config 1) :=
      Array.eq_of_mem_replicate (hshards ▸ Array.mem_of_getElem? hs)
    have hempty' : s' = .init S V (shardCapacity controller.config 1) :=
      Array.eq_of_mem_replicate (hshards' ▸ Array.mem_of_getElem? hs')
    rw [hempty, hempty']
    exact .of_empty rfl
  have hhome : ∀ k, c'.shardOf (c'.hash k) = c.shardOf (c.hash k) := fun k => by
    rw [shardOf_of_one hone, shardOf_of_one hone']
  obtain rfl := Except.ok.inj h
  obtain rfl := Except.ok.inj h'
  refine ⟨rfl, rfl, {
    shards := hlikes
    home := hhome
    made := fun _ _ _ => rfl
    shared := rfl
    config := rfl
    isRunning := rfl
    len := rfl
    cursor := rfl
    metrics := .start .. }⟩

/-- **In a single shard the hash does not show.** -/
theorem showings_of_one {controller : Controller} {hash hash' : K → UInt64} {c c' : Cache S V}
    (h : create S V 1 controller hash = .ok c) (h' : create S V 1 controller hash' = .ok c')
    (xs : List (Call S V)) :
    List.Forall₂ (Showing.Alike Record.unhashed Eq) (showings respond c xs)
      (showings respond c' xs) := by
  obtain ⟨hcursor, hmetrics, hlike⟩ := like_of_one h h'
  have hshow := hlike.showings Record.keyed_unhashed (create_eq_ok h).1.size (.inl hcursor.symm) xs
  rw [hmetrics] at hshow
  exact hshow.imp fun _ _ ha => ⟨ha.answer, ha.told, ha.size, ha.metrics.eq⟩

variable [Hashable K] {controller : Controller} {hash hash' : K → UInt64} {shards shards' : Nat}
  {c c' : Cache S V}

/-- **Without a bound neither the hash shows nor the number of shards.** -/
theorem showings_of_unbounded (hnone : controller.config.order = .none)
    (h : create S V shards controller hash = .ok c)
    (h' : create S V shards' controller hash' = .ok c') (xs : List (Call S V)) :
    List.Forall₂ (Showing.Alike Record.unhashed Eq) (showings respond c xs)
      (showings respond c' xs) := by
  have hmatch : PlainMap.Matches Record.unhashed True {} {}
      (.empty V hash controller.running) (.empty V hash' controller.running) :=
    ⟨fun _ => rfl, fun _ _ _ => rfl, fun _ => rfl, .start ..⟩
  have hboth : Alongside Record.unhashed True {} {} c c' :=
    ⟨_, _, mirrors_of_create h hnone, mirrors_of_create h' hnone, hmatch⟩
  have hshow := hboth.showings id (fun _ _ => rfl) xs
  rw [List.map_id] at hshow
  exact hshow.imp fun _ _ ha => ⟨ha.answer, ha.told, ha.size, ha.metrics.eq⟩

end Cache

/-! ### Sessions -/

variable [Hashable K]

namespace Session

variable {L M : Listener S V}

/-- A session shows of some calls what a map shows that has no records at first, and finds under a key
the record of the latest insertion, unless that was taken out or cleared away since. -/
structure ShowsMap (s : Session L) (hash : K → UInt64) (running : Bool) (xs : List (Call S V)) :
    Prop where
  showings : List.Forall₂ (Showing.Alike id Eq) (ClusterCache.showings respond s xs)
    (ClusterCache.showings PlainMap.respond (.empty V hash running) xs)
  found : ∀ k, ((after respond s xs).call (.get k)).1 = .found (Call.latest? hash k xs.reverse)

/-- **A cache without a bound is a map.** -/
theorem showsMap_of_unbounded (hL : ∀ l d, (L.react l d).2 = []) {controller : Controller}
    {hash : K → UInt64} {shards : Nat} {s : Session L}
    (hnone : controller.config.order = .none)
    (h : Cache.create S V shards controller hash = .ok s.cache) (xs : List (Call S V)) :
    s.ShowsMap hash controller.running xs := by
  obtain ⟨hshow, hafter⟩ := showings_of_silent hL s xs
  have hmirrors := Cache.mirrors_of_create h hnone
  have hremembers := PlainMap.remembers_after (PlainMap.remembers_empty hash controller.running) xs
  rw [List.append_nil] at hremembers
  refine ⟨?_, fun k => ?_⟩
  · rw [hshow]
    exact hmirrors.showings xs
  · show Answer.found ((after respond s xs).cache.get k).1 = _
    rw [hafter, Cache.get_fst, ← (hmirrors.after xs).found, hremembers.found]

/-- **Two sessions that differ in the hash show the same**, but for the hashes that records carry.
Their caches are new and made with the same settings, and nobody who listens makes calls; they have a
single shard each, or any numbers of shards and no bound.  In the latter case each is a map. -/
theorem showings_of_hashes (hL : ∀ l d, (L.react l d).2 = []) (hM : ∀ l d, (M.react l d).2 = [])
    {controller : Controller} {hash hash' : K → UInt64} {shards shards' : Nat} {s : Session L}
    {t : Session M} (h : Cache.create S V shards controller hash = .ok s.cache)
    (h' : Cache.create S V shards' controller hash' = .ok t.cache)
    (hsame : shards = 1 ∧ shards' = 1 ∨ controller.config.order = .none) (xs : List (Call S V)) :
    List.Forall₂ (Showing.Alike Record.unhashed Eq) (showings respond s xs)
      (showings respond t xs) ∧
    (controller.config.order = .none →
      s.ShowsMap hash controller.running xs ∧ t.ShowsMap hash' controller.running xs) := by
  refine ⟨?_, fun hnone =>
    ⟨showsMap_of_unbounded hL hnone h xs, showsMap_of_unbounded hM hnone h' xs⟩⟩
  rw [(showings_of_silent hL s xs).1, (showings_of_silent hM t xs).1]
  rcases hsame with ⟨rfl, rfl⟩ | hnone
  · exact Cache.showings_of_one h h' xs
  · exact Cache.showings_of_unbounded hnone h h' xs

/-- The same hash for all keys, or one of their own, in a single shard that keeps to a bound of one
record, and in two and three shards without a bound. -/
theorem showings_of_hashes_colliding :
    (∃ c c' : Cache (.lru Nat) Nat,
      Cache.create (.lru Nat) Nat 1 Cache.forOne.controller (fun _ => 7) = .ok c ∧
      Cache.create (.lru Nat) Nat 1 Cache.forOne.controller Nat.toUInt64 = .ok c' ∧
      List.Forall₂ (Showing.Alike Record.unhashed Eq)
        (showings respond (⟨c, (), []⟩ : Session (.silent (.lru Nat) Nat))
          [.insert 1 10, .insert 2 20, .get 1, .get 2])
        (showings respond (⟨c', (), []⟩ : Session (.silent (.lru Nat) Nat))
          [.insert 1 10, .insert 2 20, .get 1, .get 2])) ∧
    ∃ c c' : Cache (.unbounded Nat) Nat,
      Cache.create (.unbounded Nat) Nat 2 ⟨{ order := .none }, true, none, true⟩ (fun _ => 7) = .ok c ∧
      Cache.create (.unbounded Nat) Nat 3 ⟨{ order := .none }, true, none, true⟩ Nat.toUInt64 =
        .ok c' ∧
      List.Forall₂ (Showing.Alike Record.unhashed Eq)
        (showings respond (⟨c, (), []⟩ : Session (.silent (.unbounded Nat) Nat))
          [.insert 1 10, .insert 2 20, .insert 1 30, .remove 2])
        (showings respond (⟨c', (), []⟩ : Session (.silent (.unbounded Nat) Nat))
          [.insert 1 10, .insert 2 20, .insert 1 30, .remove 2]) ∧
      ((after respond (⟨c, (), []⟩ : Session (.silent (.unbounded Nat) Nat))
        [.insert 1 10, .insert 2 20, .insert 1 30, .remove 2]).call (.get 1)).1 =
          .found (some ⟨1, 30, 7, 2⟩) := by
  obtain ⟨c, hc⟩ : ∃ c, Cache.create (.lru Nat) Nat 1 Cache.forOne.controller (fun _ => 7) = .ok c :=
    ⟨_, rfl⟩
  obtain ⟨c', hc'⟩ : ∃ c, Cache.create (.lru Nat) Nat 1 Cache.forOne.controller Nat.toUInt64 = .ok c :=
    ⟨_, rfl⟩
  obtain ⟨u, hu⟩ : ∃ u, Cache.create (.unbounded Nat) Nat 2 ⟨{ order := .none }, true, none, true⟩
    (fun _ => 7) = .ok u := ⟨_, rfl⟩
  obtain ⟨u', hu'⟩ : ∃ u, Cache.create (.unbounded Nat) Nat 3 ⟨{ order := .none }, true, none, true⟩
    Nat.toUInt64 = .ok u := ⟨_, rfl⟩
  have hmap := fun xs => showings_of_hashes (L := .silent (.unbounded Nat) Nat)
    (M := .silent (.unbounded Nat) Nat) (fun _ _ => rfl) (fun _ _ => rfl)
    (s := ⟨u, (), []⟩) (t := ⟨u', (), []⟩) hu hu' (.inr rfl) xs
  refine ⟨⟨c, c', hc, hc', ?_⟩, u, u', hu, hu', (hmap _).1, ((hmap _).2 rfl).1.found 1⟩
  exact (showings_of_hashes (fun _ _ => rfl) (fun _ _ => rfl) hc hc' (.inl ⟨rfl, rfl⟩) _).1

end Session
end
end ClusterCache
