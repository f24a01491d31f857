import SyncKit.Proofs.Queue.Determined

namespace SyncKit

namespace Store

def contents (s : Store) (q : Nat) : List Item :=
  match s.queue? q with
  | some queue => (Chain.mk queue s.links).drain.1
  | none => []

/-- Where an element is, judged by what the queues hold and not by what its link says. -/
def Located (s : Store) (i : Item) : Link.State → Prop
  | .unlinked => ∀ p, i ∉ s.contents p
  | .linked id => ∃ p queue, s.queue? p = some queue ∧ queue.id = id ∧ i ∈ s.contents p

end Store

namespace ListStore

open Store (Session Operation)

namespace Represents

variable {a : ListStore} {s : Session} {q : Nat} {queue : ListQueue} {i : Item}

theorem contents_eq (hr : Represents a s) (hq : a.queue? q = some queue) :
    s.store.contents q = queue.items := by
  obtain ⟨d, hdrain, -⟩ := Chain.drain_eq (hr.threaded hq)
  simp only [Store.contents, hr.queue?_of_list hq, hdrain]

theorem mem_contents_iff (hr : Represents a s) :
    i ∈ s.store.contents q ↔ ∃ queue, a.queue? q = some queue ∧ i ∈ queue.items := by
  cases hq : a.queue? q with
  | none => simp [Store.contents, hr.queue?_eq, hq]
  | some queue => simp [hr.contents_eq hq]

theorem located_iff (hr : Represents a s) (state : Link.State) :
    s.store.Located i state ↔ a.state i = state := by
  cases state with
  | unlinked =>
    rw [state_eq_unlinked_iff, owner?_eq_none_iff]
    simp [Store.Located, hr.mem_contents_iff]
  | linked id =>
    rw [state_eq_linked_iff]
    constructor
    · rintro ⟨q, ends, hends, rfl, hi⟩
      obtain ⟨queue, hq, rfl⟩ := hr.exists_list hends
      exact hr.valid.owner?_eq_some hq (hr.contents_eq hq ▸ hi)
    · intro ho
      obtain ⟨q, queue, hq, hid, hi⟩ := exists_of_owner?_eq_some ho
      exact ⟨q, queue.ends, hr.queue?_of_list hq, hid, hr.contents_eq hq ▸ hi⟩

end Represents

end ListStore

namespace Store

/-- In every store that operations lead to without running out of ids, an element is at one place
only. Pushing it while it is in some queue is refused in the name of that queue, and taking it from
a queue that it is not in is refused in the name of this queue and of the place where it is.
Refusing changes nothing. -/
theorem refusals_name_place (ops : List Operation)
    (hids : ∀ r ∈ Session.run ops {}, r.answer ≠ .idsExhausted) {q : Nat} {queue : Queue}
    (hq : (Session.reach ops {}).store.queue? q = some queue) (i : Item) :
    let s := (Session.reach ops {}).store
    ∃ place, (∀ state, s.Located i state ↔ state = place) ∧
      (∀ id, place = .linked id →
        ∃ f, s.onQueue q (Chain.push i) = some (.error f, s) ∧
          f.message = "Attempt to push an element which is already linked into queue " ++
            toString id.val) ∧
      (place ≠ .linked queue.id →
        (∃ f, s.onQueue q (Chain.unlink i) = some (.error f, s) ∧
          f.message = "Attempt to unlink an element which is not linked into queue " ++
            toString queue.id.val ++ " (state: " ++ place.describe ++ ")") ∧
        s.onQueue q (Chain.remove? i) = some (none, s)) ∧
      (place = .linked queue.id →
        ∃ left, s.onQueue q (Chain.remove? i) = some (some i, left)) := by
  obtain ⟨a, hr⟩ := ListStore.Represents.of_reach hids
  obtain ⟨list, hlist, rfl⟩ := hr.exists_list hq
  refine ⟨a.state i, fun state ↦ ?_, fun id hid ↦ ?_, fun hplace ↦ ?_, fun hplace ↦ ?_⟩
  · rw [hr.located_iff, eq_comm]
  · have howner : a.owner? i = some id := ListStore.state_eq_linked_iff.1 hid
    exact ⟨_, hr.onQueue_push_of_owned hlist howner, rfl⟩
  · have hout : i ∉ list.items := mt (hr.mem_iff_state hlist).1 hplace
    obtain ⟨hunlink, hremove⟩ := hr.onQueue_unlink_of_not_mem hlist hout
    exact ⟨⟨_, hunlink, rfl⟩, hremove⟩
  · obtain ⟨left, -, hremove, -⟩ := hr.onQueue_unlink hlist ((hr.mem_iff_state hlist).2 hplace)
    exact ⟨left, hremove⟩

theorem refusals_name_place_of_two_queues :
    let ops : List Operation := [.newQueue, .newQueue, .newItem, .newItem, .push 0 0, .push 0 1]
    let s := (Session.reach ops {}).store
    (∀ r ∈ Session.run ops {}, r.answer ≠ .idsExhausted) ∧
      (∃ f, s.onQueue 1 (Chain.push 1) = some (.error f, s) ∧
        f.message = "Attempt to push an element which is already linked into queue 1") ∧
      (∃ f, s.onQueue 1 (Chain.unlink 1) = some (.error f, s) ∧
        f.message = "Attempt to unlink an element which is not linked into queue 2" ++
          " (state: Linked(QueueId(1)))") ∧
      s.onQueue 1 (Chain.remove? 1) = some (none, s) := by
  intro ops s
  have hids : ∀ r ∈ Session.run ops {}, r.answer ≠ .idsExhausted := by decide
  have hq : s.queue? 1 = some ⟨⟨2, by decide⟩, none, none⟩ := by decide
  have hcontents : s.contents 0 = [0, 1] := by decide +kernel
  have hplace : s.Located 1 (.linked ⟨1, by decide⟩) :=
    ⟨0, ⟨⟨1, by decide⟩, some 0, some 1⟩, by decide, rfl, by rw [hcontents]; decide⟩
  obtain ⟨place, hlocated, hpush, hunlink, -⟩ := refusals_name_place ops hids hq 1
  obtain rfl := (hlocated _).1 hplace
  obtain ⟨hfault, hremove⟩ := hunlink (by decide)
  exact ⟨hids, hpush _ rfl, hfault, hremove⟩

end Store

end SyncKit
