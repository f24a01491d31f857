import Mathlib.Data.List.Perm.Basic
import SyncKit.Proofs.Queue.Determined

namespace SyncKit

namespace Store

def unlinkEach (q : Nat) :
    List Item → Store → Option (List (Except Chain.Fault Item) × Store)
  | [], s => some ([], s)
  | i :: later, s =>
    (s.onQueue q (Chain.unlink i)).bind fun (answer, s) ↦
      (unlinkEach q later s).map fun (answers, s) ↦ (answer :: answers, s)

end Store

namespace ListStore

open Store (Session Operation)

variable {a : ListStore} {s : Session} {q : Nat} {queue : ListQueue} {i : Item}

namespace Represents

/-- The front is taken out by either operation, and both leave the list of the rest. -/
theorem pop_unlinks (hr : Represents a s) (hq : a.queue? q = some queue) {rest : List Item}
    (hitems : queue.items = i :: rest) :
    ∃ store, s.store.onQueue q Chain.pop = some (some i, store) ∧
      s.store.onQueue q (Chain.unlink i) = some (.ok i, store) := by
  have hi : i ∈ queue.items := hitems ▸ List.mem_cons_self
  obtain ⟨popped, hpop, hrest⟩ := hr.onQueue_pop hq hitems
  obtain ⟨unlinked, hunlink, -, herased⟩ := hr.onQueue_unlink hq hi
  rw [hitems, List.erase_cons_head] at herased
  cases hrest.unique herased
  exact ⟨popped, hpop, hunlink⟩

theorem unlink_of_pushed (hr : Represents a s) (hq : a.queue? q = some queue)
    (hi : i < s.store.links.size) (ho : a.owner? i = none) :
    ∃ store, s.store.onQueue q (Chain.push i) = some (.ok (), store) ∧
      store.onQueue q (Chain.unlink i) = some (.ok i, s.store) := by
  obtain ⟨pushed, hpush, hput⟩ := hr.onQueue_push hq hi ho
  have hnew : (a.put q (some { queue with items := queue.items ++ [i] })).queue? q =
      some { queue with items := queue.items ++ [i] } := queue?_put_self hq
  have hout : i ∉ queue.items := owner?_eq_none_iff.1 ho q queue hq
  obtain ⟨back, hunlink, -, herased⟩ :=
    hput.onQueue_unlink hnew (List.mem_append_right _ (List.mem_singleton_self i))
  -- The element is not among the others, so erasing it takes off the end again.
  rw [List.erase_append_right _ hout, List.erase_cons_head, List.append_nil, put_put,
    put_self hq] at herased
  obtain rfl : back = s.store := congrArg Session.store (herased.unique hr)
  exact ⟨pushed, hpush, hunlink⟩

theorem unlinkEach_eq (hr : Represents a s) (hq : a.queue? q = some queue) {xs : List Item}
    (hxs : xs.Nodup) (hmem : ∀ i ∈ xs, i ∈ queue.items) :
    ∃ store, s.store.unlinkEach q xs = some (xs.map .ok, store) ∧
      Represents (a.put q (some { queue with items := queue.items.diff xs }))
        { s with store } := by
  induction xs generalizing a s queue with
  | nil => exact ⟨s.store, rfl, by rwa [List.diff_nil, put_self hq]⟩
  | cons i later ih =>
    obtain ⟨hout, hlater⟩ := List.nodup_cons.1 hxs
    obtain ⟨middle, hunlink, -, herased⟩ := hr.onQueue_unlink hq (hmem i List.mem_cons_self)
    have hstay : ∀ j ∈ later, j ∈ queue.items.erase i := by
      intro j hj
      have hji : j ≠ i := fun he ↦ hout (he ▸ hj)
      exact (List.mem_erase_of_ne hji).2 (hmem j (List.mem_cons_of_mem i hj))
    obtain ⟨last, hrest, hdiff⟩ := ih herased (queue?_put_self hq) hlater hstay
    rw [put_put] at hdiff
    refine ⟨last, ?_, by rwa [List.diff_cons]⟩
    simp only [Store.unlinkEach, hunlink, Option.bind_some, hrest, Option.map_some, List.map_cons]

theorem remove_twice (hr : Represents a s) (hq : a.queue? q = some queue) (i : Item) :
    ∃ answer store, s.store.onQueue q (Chain.remove? i) = some (answer, store) ∧
      store.onQueue q (Chain.remove? i) = some (none, store) := by
  by_cases hi : i ∈ queue.items
  · obtain ⟨store, -, hremove, herased⟩ := hr.onQueue_unlink hq hi
    have hout : i ∉ queue.items.erase i := (hr.valid.nodup hq).not_mem_erase
    exact ⟨some i, store, hremove,
      (herased.onQueue_unlink_of_not_mem (queue?_put_self hq) hout).2⟩
  · have hremove := (hr.onQueue_unlink_of_not_mem hq hi).2
    exact ⟨none, s.store, hremove, hremove⟩

end Represents

end ListStore

namespace Store

/-- Popping a queue that is not empty does what unlinking its head does, to every queue and every
element, whether or not the head is the last element. Only ids may not run out. -/
theorem pop_unlinks_head (ops : List Operation)
    (hids : ∀ r ∈ Session.run ops {}, r.answer ≠ .idsExhausted) {q : Nat} {queue : Queue}
    (hq : (Session.reach ops {}).store.queue? q = some queue) (hne : queue.isEmpty = false) :
    ∃ i store, queue.head = some i ∧
      (Session.reach ops {}).store.onQueue q Chain.pop = some (some i, store) ∧
      (Session.reach ops {}).store.onQueue q (Chain.unlink i) = some (.ok i, store) := by
  obtain ⟨a, hr⟩ := ListStore.Represents.of_reach hids
  obtain ⟨list, hlist, rfl⟩ := hr.exists_list hq
  rw [(hr.threaded hlist).isEmpty_eq, List.isEmpty_eq_false_iff] at hne
  obtain ⟨i, rest, hitems⟩ := List.exists_cons_of_ne_nil hne
  obtain ⟨store, hpop, hunlink⟩ := hr.pop_unlinks hlist hitems
  exact ⟨i, store, by rw [ListQueue.ends, hitems, List.head?_cons], hpop, hunlink⟩

theorem pop_unlinks_head_and_last :
    let ops : List Operation :=
      [.newQueue, .newQueue, .newItem, .newItem, .newItem, .push 0 1, .push 0 0, .push 1 2]
    let s := (Session.reach ops {}).store
    (∀ r ∈ Session.run ops {}, r.answer ≠ .idsExhausted) ∧
      (∃ store, s.onQueue 0 Chain.pop = some (some 1, store) ∧
        s.onQueue 0 (Chain.unlink 1) = some (.ok 1, store)) ∧
      ∃ store, s.onQueue 1 Chain.pop = some (some 2, store) ∧
        s.onQueue 1 (Chain.unlink 2) = some (.ok 2, store) := by
  intro ops s
  have hids : ∀ r ∈ Session.run ops {}, r.answer ≠ .idsExhausted := by decide
  have hfirst : s.queue? 0 = some ⟨⟨1, by decide⟩, some 1, some 0⟩ := by decide
  have hsecond : s.queue? 1 = some ⟨⟨2, by decide⟩, some 2, some 2⟩ := by decide
  obtain ⟨i, store, hi, hpop, hunlink⟩ := pop_unlinks_head ops hids hfirst rfl
  obtain ⟨j, store', hj, hpop', hunlink'⟩ := pop_unlinks_head ops hids hsecond rfl
  cases hi
  cases hj
  exact ⟨hids, ⟨store, hpop, hunlink⟩, ⟨store', hpop', hunlink'⟩⟩

/-- In every store that operations lead to without running out of ids, unlinking undoes pushing,
elements of one queue can be unlinked in any order, and unlinking once more does nothing. -/
theorem unlinks_undo_and_commute (ops : List Operation)
    (hids : ∀ r ∈ Session.run ops {}, r.answer ≠ .idsExhausted) {q : Nat} {queue : Queue}
    (hq : (Session.reach ops {}).store.queue? q = some queue) :
    let s := (Session.reach ops {}).store
    (∀ i < s.links.size, (s.links.get i).state = .unlinked →
      ∃ pushed, s.onQueue q (Chain.push i) = some (.ok (), pushed) ∧
        pushed.onQueue q (Chain.unlink i) = some (.ok i, s)) ∧
    (∀ xs ys : List Item, xs.Nodup → (∀ i ∈ xs, (s.links.get i).state = .linked queue.id) →
      xs.Perm ys → ∃ left, s.unlinkEach q xs = some (xs.map .ok, left) ∧
        s.unlinkEach q ys = some (ys.map .ok, left)) ∧
    ∀ i, ∃ answer left, s.onQueue q (Chain.remove? i) = some (answer, left) ∧
      left.onQueue q (Chain.remove? i) = some (none, left) := by
  obtain ⟨a, hr⟩ := ListStore.Represents.of_reach hids
  obtain ⟨list, hlist, rfl⟩ := hr.exists_list hq
  refine ⟨fun i hi hfree ↦ ?_, fun xs ys hxs hlinked hperm ↦ ?_, hr.remove_twice hlist⟩
  · rw [hr.state_eq, ListStore.state_eq_unlinked_iff] at hfree
    exact hr.unlink_of_pushed hlist hi hfree
  · have hmem : ∀ i ∈ xs, i ∈ list.items := fun i hi ↦
      (hr.mem_iff_state hlist).2 ((hr.state_eq i).symm.trans (hlinked i hi))
    obtain ⟨left, hleft, hdiff⟩ := hr.unlinkEach_eq hlist hxs hmem
    obtain ⟨left', hleft', hdiff'⟩ := hr.unlinkEach_eq hlist (hperm.nodup hxs) fun i hi ↦
      hmem i (hperm.mem_iff.2 hi)
    rw [← hperm.diff_left] at hdiff'
    cases hdiff.unique hdiff'
    exact ⟨left, hleft, hleft'⟩

theorem unlinks_undo_and_commute_of_four :
    let ops : List Operation := [.newQueue, .newItem, .newItem, .newItem, .newItem, .newItem,
      .push 0 0, .push 0 1, .push 0 2, .push 0 3]
    let s := (Session.reach ops {}).store
    (∀ r ∈ Session.run ops {}, r.answer ≠ .idsExhausted) ∧
      (∃ pushed, s.onQueue 0 (Chain.push 4) = some (.ok (), pushed) ∧
        pushed.onQueue 0 (Chain.unlink 4) = some (.ok 4, s)) ∧
      ∃ left, s.unlinkEach 0 [0, 1, 2] = some ([.ok 0, .ok 1, .ok 2], left) ∧
        s.unlinkEach 0 [1, 2, 0] = some ([.ok 1, .ok 2, .ok 0], left) := by
  intro ops s
  have hids : ∀ r ∈ Session.run ops {}, r.answer ≠ .idsExhausted := by decide
  have hq : s.queue? 0 = some ⟨⟨1, by decide⟩, some 0, some 3⟩ := by decide
  obtain ⟨hundo, horder, -⟩ := unlinks_undo_and_commute ops hids hq
  exact ⟨hids, hundo 4 (by decide) (by decide),
    horder [0, 1, 2] [1, 2, 0] (by decide) (by decide) (by decide)⟩

end Store

end SyncKit
