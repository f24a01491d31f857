import SyncKit.Proofs.Queue.Segment
import SyncKit.Queue.Chain

namespace SyncKit.Chain

/-- The chain threads its queue through the elements of a list, in that order. -/
structure Threaded (c : Chain) (items : List Item) : Prop where
  head : c.queue.head = items.head?
  tail : c.queue.tail = items.getLast?
  segment : c.links.Segment c.queue.id none items none
  nodup : items.Nodup

structure Touches (c d : Chain) (items : List Item) : Prop where
  id : d.queue.id = c.queue.id
  size : d.links.size = c.links.size
  frame : ∀ j, j ∉ items → d.links.get j = c.links.get j

theorem append_eq (i : Item) (c : Chain) :
    c.append i =
      ⟨{ c.queue with
          head := if c.queue.tail.isNone && c.queue.head.isNone then some i else c.queue.head
          tail := some i },
        (c.links.update i fun l ↦ { l with prev := c.queue.tail, next := none }).relinkNext
          c.queue.tail (some i)⟩ := by
  rw [append]
  cases c.queue.tail <;> rfl

theorem bypass_eq (l : Link) (c : Chain) :
    c.bypass l =
      ⟨{ c.queue with
          head := if l.prev.isNone then l.next else c.queue.head
          tail := if l.next.isNone then l.prev else c.queue.tail },
        (c.links.relinkNext l.prev l.next).relinkPrev l.prev l.next⟩ := by
  rw [bypass]
  cases l.prev <;> cases l.next <;> rfl

variable {c d : Chain} {items : List Item} {i : Item}

theorem pop_of_last (hh : c.queue.head = some i) (hn : (c.links.get i).next = none) :
    c.pop = (some i,
      ⟨{ c.queue with head := none, tail := none }, c.links.update i Link.reset⟩) := by
  simp only [pop, hh, hn]

theorem pop_of_next {n : Item} (hh : c.queue.head = some i)
    (hn : (c.links.get i).next = some n) :
    c.pop = (some i,
      ⟨{ c.queue with head := some n },
        (c.links.relinkPrev none (some n)).update i Link.reset⟩) := by
  simp only [pop, hh, hn]
  rfl

theorem Threaded.lt_size (h : Threaded c items) (hi : i ∈ items) : i < c.links.size :=
  h.segment.lt_size hi

theorem Threaded.isEmpty_eq (h : Threaded c items) : c.queue.isEmpty = items.isEmpty := by
  rw [Queue.isEmpty, h.head]
  cases items <;> rfl

theorem push_of_linked {id : Ident} (hi : (c.links.get i).owner.load = some id) :
    c.push i = (.error (.alreadyLinked (some id)), c) := by
  have hraw : (c.links.get i).owner.raw ≠ Ident.raw none := by
    rw [Ne, IdentCell.raw_eq_iff, hi]
    exact nofun
  rw [push, IdentCell.compareExchange, if_neg hraw, hi]

theorem push_of_free (h : Threaded c items) (hsize : i < c.links.size) (hi : c.links.get i = {}) :
    ∃ d, c.push i = (.ok (), d) ∧ Threaded d (items ++ [i]) ∧ Touches c d (items ++ [i]) := by
  have hfree : i ∉ items := by
    intro hmem
    have howner := h.segment.owner hmem
    rw [hi] at howner
    exact c.queue.id.ne_zero (congrArg IdentCell.raw howner).symm
  have hpush : c.push i = (.ok (),
      { c with
        links := c.links.update i fun l ↦ { l with owner := .new (some c.queue.id) } }.append i) := by
    rw [push, hi]
    rfl
  rw [append_eq] at hpush
  refine ⟨_, hpush, ⟨?_, ?_, ?_, ?_⟩, rfl, ?_, fun j hj ↦ ?_⟩
  · rw [h.head, h.tail]
    cases items with
    | nil => rfl
    | cons x rest => simp
  · exact List.getLast?_concat.symm
  · have hne : c.queue.tail ≠ some i := by
      rw [h.tail]
      exact fun he ↦ hfree (List.mem_of_getLast? he)
    have hframe := h.segment.frame
      (m := (c.links.update i fun l ↦ { l with owner := .new (some c.queue.id) }).update i
        fun l ↦ { l with prev := c.queue.tail, next := none }) fun j hj ↦ by
        have hij : i ≠ j := fun he ↦ hfree (he ▸ hj)
        rw [Links.get_update_of_ne hij, Links.get_update_of_ne hij]
    refine Links.segment_append.2 ⟨?_, ?_, trivial⟩
    · rw [h.tail]
      rw [h.tail] at hframe
      exact hframe.relinkNext h.nodup _
    · rw [Links.get_relinkNext hne, Links.get_update_self (by simpa using hsize),
        Links.get_update_self hsize, h.tail]
      cases items.getLast? <;> rfl
  · exact List.nodup_append.2 ⟨h.nodup, List.pairwise_singleton _ i, fun a ha b hb he ↦
      hfree (List.mem_singleton.1 hb ▸ he ▸ ha)⟩
  · simp
  · have hij : i ≠ j := fun he ↦ hj (he ▸ List.mem_append_right _ (List.mem_singleton_self i))
    have hne : c.queue.tail ≠ some j := by
      rw [h.tail]
      exact fun he ↦ hj (List.mem_append_left _ (List.mem_of_getLast? he))
    rw [Links.get_relinkNext hne, Links.get_update_of_ne hij, Links.get_update_of_ne hij]

theorem pop_nil (h : Threaded c []) : c.pop = (none, c) := by
  rw [pop, h.head]
  rfl

theorem pop_cons {rest : List Item} (h : Threaded c (i :: rest)) :
    ∃ d, c.pop = (some i, d) ∧ Threaded d rest ∧ Touches c d (i :: rest) ∧ d.links.get i = {} := by
  have hsize := h.lt_size List.mem_cons_self
  have hnext : (c.links.get i).next = rest.head? := by
    rw [h.segment.1]
    exact Option.or_none
  obtain ⟨hi, hrest⟩ := List.nodup_cons.1 h.nodup
  cases rest with
  | nil =>
    refine ⟨_, pop_of_last h.head hnext, ⟨rfl, rfl, trivial, .nil⟩,
      ⟨rfl, Links.size_update _ _ _, fun j hj ↦ ?_⟩, Links.get_update_self hsize _⟩
    exact Links.get_update_of_ne (List.ne_of_not_mem_cons hj).symm _
  | cons n later =>
    refine ⟨_, pop_of_next h.head hnext, ⟨rfl, ?_, ?_, hrest⟩, ⟨rfl, ?_, fun j hj ↦ ?_⟩, ?_⟩
    · exact h.tail.trans List.getLast?_cons_cons
    · refine (h.segment.2.relinkPrev hrest none).frame fun j hj ↦ ?_
      exact Links.get_update_of_ne (fun (he : i = j) ↦ hi (he ▸ hj)) _
    · rw [Links.size_update, Links.size_relinkPrev]
    · have hn := (List.ne_of_not_mem_cons (List.not_mem_of_not_mem_cons hj)).symm
      rw [Links.get_update_of_ne (List.ne_of_not_mem_cons hj).symm,
        Links.get_relinkPrev fun he ↦ hn (Option.some.inj he)]
    · exact Links.get_update_self (by rwa [Links.size_relinkPrev]) _

theorem remove?_of_not_linked (hi : (c.links.get i).owner.load ≠ some c.queue.id) :
    c.remove? i = (none, c) := by
  rw [remove?, if_neg]
  rwa [Link.isLinkedTo, beq_iff_eq]

theorem remove?_of_linked (hi : (c.links.get i).owner.load = some c.queue.id) :
    c.remove? i =
      (some i, { c.bypass (c.links.get i) with
        links := (c.bypass (c.links.get i)).links.update i Link.reset }) := by
  rw [remove?, if_pos]
  rwa [Link.isLinkedTo, beq_iff_eq]

/-- Removing an element joins what comes before it to what comes after it. -/
theorem remove?_of_mem {xs ys : List Item} (h : Threaded c (xs ++ i :: ys)) :
    ∃ d, c.remove? i = (some i, d) ∧ Threaded d (xs ++ ys) ∧ Touches c d (xs ++ i :: ys) ∧
      d.links.get i = {} := by
  have hmem : i ∈ xs ++ i :: ys := List.mem_append_right xs List.mem_cons_self
  have hsize := h.lt_size hmem
  have howner : (c.links.get i).owner.load = some c.queue.id := by
    rw [h.segment.owner hmem, IdentCell.load_new]
  obtain ⟨hx, hiy, hxy⟩ := List.nodup_append.1 h.nodup
  obtain ⟨hi, hy⟩ := List.nodup_cons.1 hiy
  obtain ⟨hxs, hget, hys⟩ := Links.segment_append.1 h.segment
  rw [Option.or_none, Option.or_none] at hget
  have hremove := remove?_of_linked howner
  rw [bypass_eq, hget] at hremove
  -- An element next to the gap is at an end of one side, so it is not on the other.
  have hlast {j : Item} (hj : j ∉ xs) : xs.getLast? ≠ some j :=
    fun he ↦ hj (List.mem_of_getLast? he)
  have hfirst {j : Item} (hj : j ∉ ys) : ys.head? ≠ some j :=
    fun he ↦ hj (List.mem_of_head? he)
  refine ⟨_, hremove, ⟨?_, ?_, ?_, ?_⟩, ⟨rfl, ?_, fun j hj ↦ ?_⟩, ?_⟩
  · cases xs with
    | nil => rfl
    | cons x xs => exact h.head
  · have htail := h.tail
    cases ys with
    | nil => simp
    | cons y ys => simpa using htail
  · refine Links.segment_append.2 ⟨?_, ?_⟩
    · rw [Option.or_none]
      refine (hxs.relinkNext hx ys.head?).frame fun j hj ↦ ?_
      have hjy : j ∉ ys := fun hj' ↦ hxy j hj j (List.mem_cons_of_mem i hj') rfl
      rw [Links.get_update_of_ne (hxy j hj i List.mem_cons_self).symm,
        Links.get_relinkPrev (hfirst hjy)]
    · rw [Option.or_none]
      have hframe := hys.frame (m := c.links.relinkNext xs.getLast? ys.head?) fun j hj ↦
        Links.get_relinkNext (hlast fun hj' ↦ hxy j hj' j (List.mem_cons_of_mem i hj) rfl) _
      refine (hframe.relinkPrev hy xs.getLast?).frame fun j hj ↦ ?_
      exact Links.get_update_of_ne (fun (he : i = j) ↦ hi (he ▸ hj)) _
  · exact h.nodup.sublist (List.Sublist.append_left (List.sublist_cons_self i ys) xs)
  · rw [Links.size_update, Links.size_relinkPrev, Links.size_relinkNext]
  · rw [List.mem_append, not_or, List.mem_cons, not_or] at hj
    rw [Links.get_update_of_ne (Ne.symm hj.2.1), Links.get_relinkPrev (hfirst hj.2.2),
      Links.get_relinkNext (hlast hj.1)]
  · exact Links.get_update_self (by rwa [Links.size_relinkPrev, Links.size_relinkNext]) _

theorem drain_of_pop_eq_none (h : c.pop = (none, d)) : c.drain = ([], d) := by
  rw [drain]
  split
  · next he =>
    rw [h] at he
    cases he
    rfl
  · next he =>
    rw [h] at he
    cases he

theorem drain_of_pop_eq_some (h : c.pop = (some i, d)) :
    c.drain = (i :: d.drain.1, d.drain.2) := by
  rw [drain]
  split
  · next he =>
    rw [h] at he
    cases he
  · next he =>
    rw [h] at he
    cases he
    rfl

theorem drain_eq (h : Threaded c items) :
    ∃ d, c.drain = (items, d) ∧ Threaded d [] ∧ Touches c d items ∧
      ∀ i ∈ items, d.links.get i = {} := by
  induction items generalizing c with
  | nil =>
    exact ⟨c, drain_of_pop_eq_none (pop_nil h), h, ⟨rfl, rfl, fun _ _ ↦ rfl⟩,
      fun i hi ↦ absurd hi List.not_mem_nil⟩
  | cons i rest ih =>
    obtain ⟨d, hpop, hd, htouches, hi⟩ := pop_cons h
    obtain ⟨e, hdrain, he, hrest, hreset⟩ := ih hd
    refine ⟨e, by rw [drain_of_pop_eq_some hpop, hdrain], he,
      ⟨hrest.id.trans htouches.id, hrest.size.trans htouches.size, fun j hj ↦ ?_⟩,
      fun j hj ↦ ?_⟩
    · exact (hrest.frame j (List.not_mem_of_not_mem_cons hj)).trans (htouches.frame j hj)
    · rcases List.mem_cons.1 hj with rfl | hj
      · rw [hrest.frame j (List.nodup_cons.1 h.nodup).1, hi]
      · exact hreset j hj

end SyncKit.Chain
