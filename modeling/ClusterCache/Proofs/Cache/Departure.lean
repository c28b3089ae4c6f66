/-
# Every record leaves once

Each insertion of a session makes a record of its own, numbered by the insertions before it
(`Course.map_serial_made`).  A record that was made is stored, or was told of, or is on the agenda to
be told, and the three exclude each other: together they are the records that were made, each once
(`Course.accounted`).  For no call makes a record vanish or appear (`Cache.perform_perm`), and telling
a departure only moves it from the agenda to the log.

So when nothing is left to do, each record is stored and was never told of, or is not stored and was
told of once, for the reason of the call that took it out (`Course.reported_once`).
-/

import Mathlib.Data.List.Nodup
import ClusterCache.Proofs.Cache.Course

namespace ClusterCache

namespace Task

variable {K V : Type} {S : Strategy K}

/-- The departures on an agenda. -/
def departures (agenda : List (Task S V)) : List (Departure K V) :=
  agenda.filterMap fun
    | .call _ => none
    | .tell d => some d

/-- The departures on two agendas are those on the one and on the other. -/
@[simp] theorem departures_append (a b : List (Task S V)) :
    departures (a ++ b) = departures a ++ departures b := List.filterMap_append

/-- Departures put on an agenda are on it. -/
@[simp] theorem departures_map_tell (ds : List (Departure K V)) :
    departures (ds.map (tell (S := S))) = ds := by
  rw [departures, List.filterMap_map]
  exact List.filterMap_some

/-- Calls put on an agenda are no departures. -/
@[simp] theorem departures_map_call (xs : List (Call S V)) : departures (xs.map call) = [] := by
  rw [departures, List.filterMap_map]
  exact List.filterMap_eq_nil_iff.2 fun _ _ => rfl

end Task

namespace Record

variable {K V : Type} {r : Record K V} {l : List (Record K V)}

/-- A list without two records of one insertion has one of the insertion of each of its records. -/
theorem countP_same (h : (l.map serial).Nodup) (hr : r ∈ l) : l.countP (·.same r) = 1 := by
  have hcount : l.countP (·.same r) = (l.map serial).count r.serial := by
    rw [List.count, List.countP_map]
    rfl
  rw [hcount]
  exact List.count_eq_one_of_mem h (List.mem_map_of_mem hr)

end Record

section

variable {K V : Type} [DecidableEq K] {S : Strategy K} {P : Call S V → Prop}
  {c₀ : Cache S V} {p : Point S V}

/-- The records that were made, the latest first. -/
def Point.made (p : Point S V) : List (Record K V) := p.past.flatMap fun e => e.2.made e.1

/-- The departures that were told or are to be told. -/
def Point.gone (p : Point S V) : List (Departure K V) := p.log ++ Task.departures p.agenda

/-- A call takes a record out: it was there or is made by the call, it is not there afterwards, and
the call is the cause. -/
structure Cache.TakesOut (c : Cache S V) (x : Call S V) (d : Departure K V) : Prop where
  before : d.record ∈ c.made x ++ c.records
  after : d.record ∉ (c.perform x).2.2.records
  cause : Cache.Cause c x d

namespace Course

/-! ### Records are numbered -/

/-- The cache counts the records that were made. -/
theorem created_eq (hc₀ : c₀.Fresh) (h : Course P c₀ p) : p.cache.created = p.made.length := by
  induction h with
  | start => exact hc₀.created
  | ask _ _ ih => exact ih
  | @perform c past log x rest _ ih =>
    simp only [Point.made, List.flatMap_cons, List.length_append] at ih ⊢
    rw [Cache.created_perform]
    omega
  | tell _ _ _ ih => exact ih

/-- Insertions are numbered in order. -/
theorem map_serial_made (hc₀ : c₀.Fresh) (h : Course P c₀ p) :
    p.made.map Record.serial = (List.range p.made.length).reverse := by
  induction h with
  | start => rfl
  | ask _ _ ih => exact ih
  | @perform c past log x rest h ih =>
    have hcreated : c.created = (past.flatMap fun e => e.2.made e.1).length := h.created_eq hc₀
    cases x with
    | insert k v =>
      have ih : (past.flatMap fun e => e.2.made e.1).map Record.serial =
          (List.range (past.flatMap fun e => e.2.made e.1).length).reverse := ih
      show c.created :: (past.flatMap fun e => e.2.made e.1).map Record.serial =
        (List.range ((past.flatMap fun e => e.2.made e.1).length + 1)).reverse
      rw [List.range_succ, List.reverse_append, ih, hcreated]
      rfl
    | get | contains | remove | clear | sweep | stop | adjust => exact ih
  | tell _ _ _ ih => exact ih

/-- Insertions make different records. -/
theorem nodup_serial_made (hc₀ : c₀.Fresh) (h : Course P c₀ p) :
    (p.made.map Record.serial).Nodup := by
  rw [h.map_serial_made hc₀, List.nodup_reverse]
  exact List.nodup_range

/-! ### No record is lost or told twice -/

/-- **The records that are stored, were told of or are to be told are those that were made.** -/
theorem accounted (hc₀ : c₀.Fresh) (h : Course P c₀ p) :
    (p.gone.map Departure.record ++ p.cache.records).Perm p.made := by
  induction h with
  | start =>
    show (c₀.records).Perm []
    rw [hc₀.records]
  | ask _ _ ih => exact ih
  | @perform c past log x rest h ih =>
    have hperm := Cache.perform_perm (c := c) (h.size_pos hc₀) x
    simp only [Point.gone, Point.made, Task.departures_append, Task.departures_map_tell,
      List.flatMap_cons, List.map_append, List.append_assoc] at ih ⊢
    -- the departures of the call go to the front of what is to be told
    refine (List.Perm.append_left _ (List.perm_append_comm_assoc ..)).trans ?_
    refine (List.Perm.append_left _ (List.Perm.append_left _ hperm)).trans ?_
    refine (List.Perm.append_left _ (List.perm_append_comm_assoc ..)).trans ?_
    exact (List.perm_append_comm_assoc ..).trans (ih.append_left _)
  | @tell calls c past log d rest hcalls h ih =>
    simp only [Point.gone, Point.made, Task.departures_append, Task.departures_map_call,
      List.nil_append] at ih ⊢
    have hmoved : (d :: log ++ Task.departures rest).Perm (log ++ d :: Task.departures rest) :=
      List.perm_middle.symm
    exact ((hmoved.map Departure.record).append_right _).trans ih

/-- No record is twice among those that are stored, were told of or are to be told. -/
theorem nodup_serial_gone (hc₀ : c₀.Fresh) (h : Course P c₀ p) :
    ((p.gone.map Departure.record ++ p.cache.records).map Record.serial).Nodup :=
  (((h.accounted hc₀).map _).nodup_iff).2 (h.nodup_serial_made hc₀)

/-- What a call is about to make or finds stored has no record twice. -/
theorem nodup_before {x : Call S V} {rest : List (Task S V)} (hc₀ : c₀.Fresh) (h : Course P c₀ p)
    (hx : p.agenda = .call x :: rest) : (p.cache.made x ++ p.cache.records).Nodup := by
  obtain ⟨c, past, log, agenda⟩ := p
  subst hx
  have hmade := (perform h).nodup_serial_made hc₀
  have hperm := (h.accounted hc₀).append_left (c.made x)
  have hnodup : (c.made x ++ (Point.gone ⟨c, past, log, .call x :: rest⟩).map Departure.record ++
      c.records).Nodup := by
    rw [List.append_assoc]
    exact hperm.nodup_iff.2 (List.Nodup.of_map _ hmade)
  rw [List.append_assoc] at hnodup
  exact List.Nodup.sublist
    (List.Sublist.append (List.Sublist.refl _) (List.sublist_append_right _ _)) hnodup

/-- **Whatever was told or is to be told was taken out by a call, for the reason told.** -/
theorem takesOut_of_mem_gone (hc₀ : c₀.Fresh) (h : Course P c₀ p) {d : Departure K V}
    (hd : d ∈ p.gone) : ∃ x c, (x, c) ∈ p.past ∧ c.TakesOut x d := by
  induction h with
  | start => cases hd
  | ask _ _ ih => exact ih hd
  | @perform c past log x rest h ih =>
    have hold : d ∈ Point.gone ⟨c, past, log, .call x :: rest⟩ →
        ∃ y c', (y, c') ∈ (x, c) :: past ∧ c'.TakesOut y d := fun hd => by
      obtain ⟨y, c', hmem, htakes⟩ := ih hd
      exact ⟨y, c', List.mem_cons_of_mem _ hmem, htakes⟩
    simp only [Point.gone, Task.departures_append, Task.departures_map_tell] at hd
    rcases List.mem_append.1 hd with hd | hd
    · exact hold (List.mem_append_left _ hd)
    rcases List.mem_append.1 hd with hd | hd
    · have hsize : 0 < c.shards.size := h.size_pos hc₀
      have hperm := Cache.perform_perm hsize x
      have hnodup := hperm.nodup_iff.2 (h.nodup_before hc₀ rfl)
      have hrecord := List.mem_map_of_mem (f := Departure.record) hd
      refine ⟨x, c, List.mem_cons_self .., ?_, ?_, Cache.cause_of_mem_perform hsize hd⟩
      · exact hperm.subset (List.mem_append_left _ hrecord)
      · exact fun hstored => (List.nodup_append.1 hnodup).2.2 _ hrecord _ hstored rfl
    · exact hold (List.mem_append_right _ hd)
  | @tell calls c past log d' rest hcalls h ih =>
    refine ih ?_
    simp only [Point.gone, Task.departures_append, Task.departures_map_call, List.nil_append] at hd
    exact List.perm_middle.symm.subset hd

/-! ### When nothing is left to do -/

/-- When the agenda is done, all that went has been told. -/
theorem gone_eq_log (hidle : p.agenda = []) : p.gone = p.log := by
  rw [Point.gone, hidle]
  exact List.append_nil _

/-- When the agenda is done, a record that was made is stored or was told, and only one of these,
and once. -/
theorem countP_same_append (hc₀ : c₀.Fresh) (h : Course P c₀ p) (hidle : p.agenda = [])
    {r : Record K V} (hr : r ∈ p.made) :
    p.log.countP (·.record.same r) + p.cache.records.countP (·.same r) = 1 := by
  have hnodup := h.nodup_serial_gone hc₀
  have hmem := (h.accounted hc₀).mem_iff.2 hr
  rw [gone_eq_log hidle] at hnodup hmem
  have hone := Record.countP_same hnodup hmem
  rwa [List.countP_append, List.countP_map] at hone

/-- What is told when a cache is given up is what was stored, and all that was made is told then. -/
theorem close_perm (hc₀ : c₀.Fresh) (h : Course P c₀ p) (hidle : p.agenda = []) {L : Listener S V}
    (l : L.State) :
    ((Session.close (⟨p.cache, l, p.log⟩ : Session L)).log.map Departure.record).Perm p.made := by
  have hclear := Cache.perform_perm (c := p.cache) (h.size_pos hc₀) .clear
  have hempty : (p.cache.perform .clear).2.2.records = [] := p.cache.records_clear
  rw [hempty, List.append_nil] at hclear
  have hperm := h.accounted hc₀
  rw [gone_eq_log hidle] at hperm
  show ((p.cache.clear.1.reverse ++ p.log).map Departure.record).Perm p.made
  rw [List.map_append, List.map_reverse]
  refine List.Perm.trans ?_ hperm
  refine List.Perm.trans ?_ List.perm_append_comm
  exact ((List.reverse_perm _).trans hclear).append_right _

/-- **Each record is told of exactly once.**  Whatever the strategy, the calls and the listener, when
nothing is left to do, the records that were made are those that are stored and those that were told
of, each once.  One that is not stored was told of for the reason of the call that took it out.  When
the cache is given up then, those that are stored are cleared, and every record was told of once. -/
theorem reported_once {controller : Controller} {shards : Nat} {hash : K → UInt64}
    (hcreate : Cache.create S V shards controller hash = .ok c₀) (h : Course P c₀ p)
    (hidle : p.agenda = []) :
    (p.made.map Record.serial).Nodup ∧
    (p.log.map Departure.record ++ p.cache.records).Perm p.made ∧
    (∀ r ∈ p.made, r ∈ p.cache.records ∧ p.log.countP (·.record.same r) = 0 ∨
      r ∉ p.cache.records ∧ p.log.countP (·.record.same r) = 1 ∧
        ∃ reason x c, ⟨reason, r⟩ ∈ p.log ∧ (x, c) ∈ p.past ∧ c.TakesOut x ⟨reason, r⟩) ∧
    ∀ (L : Listener S V) (l : L.State), let s := Session.close (⟨p.cache, l, p.log⟩ : Session L)
      s.cache.records = [] ∧ p.log <:+ s.log ∧ ∀ r ∈ p.made,
        s.log.countP (·.record.same r) = 1 ∧ (r ∈ p.cache.records → ⟨.clear, r⟩ ∈ s.log) := by
  have hfresh := (Cache.create_eq_ok hcreate).1
  have hperm := h.accounted hfresh
  rw [gone_eq_log hidle] at hperm
  refine ⟨h.nodup_serial_made hfresh, hperm, fun r hr => ?_, fun L l => ?_⟩
  · have hone := h.countP_same_append hfresh hidle hr
    have hself : r.same r = true := decide_eq_true rfl
    by_cases hstored : r ∈ p.cache.records
    · have hpos : 0 < p.cache.records.countP (·.same r) := List.countP_pos_iff.2 ⟨r, hstored, hself⟩
      exact Or.inl ⟨hstored, by omega⟩
    · have hlog : r ∈ p.log.map Departure.record :=
        (List.mem_append.1 (hperm.mem_iff.2 hr)).resolve_right hstored
      obtain ⟨d, hd, rfl⟩ := List.mem_map.1 hlog
      have hpos : 0 < p.log.countP (·.record.same d.record) := List.countP_pos_iff.2 ⟨d, hd, hself⟩
      obtain ⟨x, c, hmem, htakes⟩ := h.takesOut_of_mem_gone hfresh (gone_eq_log hidle ▸ hd)
      exact Or.inr ⟨hstored, by omega, d.reason, x, c, hd, hmem, htakes⟩
  · have hclose := h.close_perm hfresh hidle l
    refine ⟨p.cache.records_clear, List.suffix_append _ _, fun r hr => ⟨?_, fun hstored => ?_⟩⟩
    · have hnodup := (hclose.map Record.serial).nodup_iff.2 (h.nodup_serial_made hfresh)
      have hone := Record.countP_same hnodup (hclose.mem_iff.2 hr)
      rwa [List.countP_map] at hone
    · have hclear := Cache.perform_perm (c := p.cache) (h.size_pos hfresh) .clear
      have hempty : (p.cache.perform .clear).2.2.records = [] := p.cache.records_clear
      rw [hempty, List.append_nil] at hclear
      obtain ⟨d, hd, rfl⟩ := List.mem_map.1 (hclear.mem_iff.2 hstored)
      obtain ⟨hreason, -⟩ := Cache.mem_departures_iff.1 hd
      have hcleared : ⟨.clear, d.record⟩ ∈ p.cache.clear.1.reverse := by
        rw [← hreason]
        exact List.mem_reverse.2 hd
      exact List.mem_append_left _ hcleared

/-- In a session with a cache for one record, three records are made, one of them by the listener, and
two are told of. -/
theorem reported_once_nested :
    ∃ p, Course (fun _ => True) .forOne p ∧ p.agenda = [] ∧
      p.log = [⟨.evict, ⟨2, 20, 7, 1⟩⟩, ⟨.evict, ⟨1, 10, 7, 0⟩⟩] ∧
      ∀ r ∈ p.made, r ∈ p.cache.records ∧ p.log.countP (·.record.same r) = 0 ∨
        r ∉ p.cache.records ∧ p.log.countP (·.record.same r) = 1 ∧
          ∃ reason x c, ⟨reason, r⟩ ∈ p.log ∧ (x, c) ∈ p.past ∧ c.TakesOut x ⟨reason, r⟩ := by
  obtain ⟨c, past, h⟩ := exists_nested (P := fun _ => True) fun _ _ => trivial
  have hidle := tell [] (fun x hx => absurd hx List.not_mem_nil) h
  exact ⟨_, hidle, rfl, rfl, (hidle.reported_once Cache.create_forOne rfl).2.2.1⟩

end Course
end
end ClusterCache
