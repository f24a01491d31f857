import SyncKit.Proofs.Queue.Refinement

namespace SyncKit

namespace Store

def onQueue {α : Type} (s : Store) (q : Nat) (f : Chain → α × Chain) : Option (α × Store) :=
  (s.queue? q).map fun queue ↦
    ((f ⟨queue, s.links⟩).1, s.put q (f ⟨queue, s.links⟩).2)

end Store

namespace ListStore

open Store (Session Operation)

namespace Represents

variable {a : ListStore} {s s' : Session} {q : Nat} {queue : ListQueue} {i : Item}

/-- Lists leave nothing open about the store that they stand for. -/
theorem unique (h : Represents a s) (h' : Represents a s') : s = s' := by
  have hlinks : s.store.links = s'.store.links := by
    refine Links.eq_of_get (h.size.trans h'.size.symm) fun i ↦ ?_
    cases ho : a.owner? i with
    | none => rw [h.unlinked ho, h'.unlinked ho]
    | some id =>
      obtain ⟨q, queue, hq, -, hi⟩ := exists_of_owner?_eq_some ho
      exact (h.segments hq).get_eq_get (h'.segments hq) hi
  have hqueues := h.queues.trans h'.queues.symm
  have hnext := h.nextId.trans h'.nextId.symm
  have hheld := h.held.trans h'.held.symm
  obtain ⟨⟨queues, links, nextId⟩, held⟩ := s
  obtain ⟨⟨queues', links', nextId'⟩, held'⟩ := s'
  cases hlinks
  cases hqueues
  cases hnext
  cases hheld
  rfl

theorem of_reach {ops : List Operation}
    (hids : ∀ r ∈ Session.run ops {}, r.answer ≠ .idsExhausted) :
    ∃ a, Represents a (Session.reach ops {}) :=
  ⟨_, (agree_run represents_empty hids).2⟩

theorem onQueue_eq (hr : Represents a s) (hq : a.queue? q = some queue) {α : Type}
    {f : Chain → α × Chain} {answer : α} {d : Chain}
    (hf : f ⟨queue.ends, s.store.links⟩ = (answer, d)) :
    s.store.onQueue q f = some (answer, s.store.put q d) := by
  rw [Store.onQueue, hr.queue?_of_list hq, Option.map_some, hf]

theorem onQueue_unchanged (hr : Represents a s) (hq : a.queue? q = some queue) {α : Type}
    {f : Chain → α × Chain} {answer : α}
    (hf : f ⟨queue.ends, s.store.links⟩ = (answer, ⟨queue.ends, s.store.links⟩)) :
    s.store.onQueue q f = some (answer, s.store) := by
  rw [hr.onQueue_eq hq hf]
  exact congrArg (fun s : Session ↦ some (answer, s.store)) (put_ends hr hq)

theorem onQueue_push (hr : Represents a s) (hq : a.queue? q = some queue)
    (hi : i < s.store.links.size) (ho : a.owner? i = none) :
    ∃ store, s.store.onQueue q (Chain.push i) = some (.ok (), store) ∧
      Represents (a.put q (some { queue with items := queue.items ++ [i] })) { s with store } := by
  obtain ⟨d, hpush, hput⟩ := agree_putIn hr hq hi ho
  exact ⟨_, hr.onQueue_eq hq hpush, hput⟩

theorem onQueue_push_of_owned (hr : Represents a s) (hq : a.queue? q = some queue) {id : Ident}
    (ho : a.owner? i = some id) :
    s.store.onQueue q (Chain.push i) = some (.error (.alreadyLinked (some id)), s.store) :=
  hr.onQueue_unchanged hq (push_of_owned hr ho)

theorem onQueue_pop (hr : Represents a s) (hq : a.queue? q = some queue) {rest : List Item}
    (hitems : queue.items = i :: rest) :
    ∃ store, s.store.onQueue q Chain.pop = some (some i, store) ∧
      Represents (a.put q (some { queue with items := rest })) { s with store } := by
  obtain ⟨d, hpop, hput⟩ := agree_takeFront hr hq hitems
  exact ⟨_, hr.onQueue_eq hq hpop, hput⟩

theorem onQueue_unlink (hr : Represents a s) (hq : a.queue? q = some queue)
    (hi : i ∈ queue.items) :
    ∃ store, s.store.onQueue q (Chain.unlink i) = some (.ok i, store) ∧
      s.store.onQueue q (Chain.remove? i) = some (some i, store) ∧
      Represents (a.put q (some { queue with items := queue.items.erase i }))
        { s with store } := by
  obtain ⟨d, hremove, hput⟩ := agree_takeOut hr hq hi
  have hunlink : (Chain.mk queue.ends s.store.links).unlink i = (.ok i, d) := by
    rw [Chain.unlink, hremove]
  exact ⟨_, hr.onQueue_eq hq hunlink, hr.onQueue_eq hq hremove, hput⟩

theorem onQueue_unlink_of_not_mem (hr : Represents a s) (hq : a.queue? q = some queue)
    (hi : i ∉ queue.items) :
    s.store.onQueue q (Chain.unlink i) = some (.error (.notLinked queue.id (a.state i)), s.store) ∧
      s.store.onQueue q (Chain.remove? i) = some (none, s.store) := by
  have hremove := remove?_of_not_mem hr hq hi
  refine ⟨hr.onQueue_unchanged hq ?_, hr.onQueue_unchanged hq hremove⟩
  rw [Chain.unlink, hremove, ← hr.state_eq]
  rfl

end Represents

end ListStore

end SyncKit
