import SyncKit.Proofs.Queue.Apart

namespace SyncKit

theorem Links.Follows.unique {ls : Links} {start : Option Item} {xs ys : List Item}
    (h : ls.Follows start xs) (h' : ls.Follows start ys) : xs = ys := by
  induction xs generalizing start ys with
  | nil =>
    cases ys with
    | nil => rfl
    | cons y ys => cases h.symm.trans h'.1
  | cons x xs ih =>
    cases ys with
    | nil => cases h.1.symm.trans h'
    | cons y ys =>
      cases h.1.symm.trans h'.1
      rw [ih h.2 h'.2]

namespace Chain

inductive Emptied : Chain → List Item → Chain → Prop
  | nil {c d : Chain} : c.pop = (none, d) → Emptied c [] d
  | cons {c d e : Chain} {i : Item} {later : List Item} :
      c.pop = (some i, d) → Emptied d later e → Emptied c (i :: later) e

/-- However the links of a chain look, it is emptied in the end. -/
theorem emptied_drain (c : Chain) : c.Emptied c.drain.1 c.drain.2 := by
  induction c using drain.induct with
  | case1 c d hpop =>
    rw [drain_of_pop_eq_none hpop]
    exact .nil hpop
  | case2 c i d hpop _ _ _ _ ih =>
    rw [drain_of_pop_eq_some hpop]
    exact .cons hpop ih

end Chain

namespace Store

/-- A queue is gone, its elements were popped one after the other and are as good as new, and
nothing else has changed. No element refers to a queue that is gone. -/
structure TornDown (q : Nat) (queue : Queue) (items : List Item) (s t : Store) : Prop where
  emptied : ∃ c, (Chain.mk queue s.links).Emptied items c ∧ t.links = c.links
  gone : t.queue? q = none
  released : ∀ i ∈ items, t.links.get i = {}
  reusable : ∀ i ∈ items, ∀ p other, t.queue? p = some other →
    ∃ pushed, t.onQueue p (Chain.push i) = some (.ok (), pushed) ∧
      (pushed.links.get i).state = .linked other.id
  queues : ∀ p ≠ q, t.queue? p = s.queue? p
  links : ∀ i, i ∉ items → t.links.get i = s.links.get i
  owners : ∀ i id, (t.links.get i).state = .linked id →
    id ≠ queue.id ∧ ∃ p other, t.queue? p = some other ∧ other.id = id

end Store

namespace ListStore

open Store (Session Operation)

variable {a : ListStore} {s : Session} {q : Nat} {queue : ListQueue} {i : Item}

theorem queue?_of_put_none (hq : a.queue? q = some queue) {p : Nat} {b : ListQueue}
    (hp : (a.put q none).queue? p = some b) : q ≠ p ∧ a.queue? p = some b := by
  by_cases hpq : q = p
  · subst hpq
    rw [queue?_put_self hq] at hp
    cases hp
  · exact ⟨hpq, by rwa [queue?_put_of_ne hpq] at hp⟩

namespace Valid

theorem owner?_put_none (hv : a.Valid) (hq : a.queue? q = some queue) (hi : i ∈ queue.items) :
    (a.put q none).owner? i = none := by
  refine owner?_eq_none_iff.2 fun p b hp hmem ↦ ?_
  obtain ⟨hpq, hp⟩ := queue?_of_put_none hq hp
  exact hpq (hv.apart hq hp hi hmem)

theorem id_ne_of_put_none (hv : a.Valid) (hq : a.queue? q = some queue) {p : Nat}
    {b : ListQueue} (hp : (a.put q none).queue? p = some b) : b.id ≠ queue.id := by
  obtain ⟨hpq, hp⟩ := queue?_of_put_none hq hp
  exact fun he ↦ hpq (hv.ids hq hp he.symm)

end Valid

theorem perform_drop (hq : a.queue? q = some queue) :
    a.perform (.drop q) = a.drop q queue .done := by
  rw [perform, withQueue, hq]

theorem perform_destroy (hq : a.queue? q = some queue) :
    a.perform (.destroy q) =
      a.drop q queue (if queue.items.isEmpty then .done else .fault (.stillLinked queue.id)) := by
  rw [perform, withQueue, hq]

namespace Represents

/-- Dropping and destroying a queue answer and warn as its list says, and leave the same behind. -/
theorem teardown_eq (hr : Represents a s) (hq : a.queue? q = some queue) :
    let dropped := s.perform (.drop q)
    let destroyed := s.perform (.destroy q)
    dropped.shown = (.done, (a.drop q queue .done).notes) ∧
      destroyed.shown =
        (if queue.items.isEmpty then .done else .fault (.stillLinked queue.id),
          (a.drop q queue .done).notes) ∧
      destroyed.after = dropped.after ∧ Represents (a.put q none) dropped.after ∧
      dropped.after.store.links = (Chain.mk queue.ends s.store.links).drain.2.links := by
  have hlive := hr.queue?_of_list hq
  have htarget : (Operation.drop q).target? = some q := rfl
  have htarget' : (Operation.destroy q).target? = some q := rfl
  obtain ⟨hdropped, hr'⟩ := hr.apply_effect htarget
    (e := ⟨.done, (a.drop q queue .done).notes, none, none⟩) (perform_drop hq)
  obtain ⟨hdestroyed, -⟩ := hr.apply_effect htarget'
    (e := ⟨if queue.items.isEmpty then .done else .fault (.stillLinked queue.id),
      (a.drop q queue .done).notes, none, none⟩) (perform_destroy hq)
  refine ⟨hdropped, hdestroyed, ?_, hr', ?_⟩
  · simp only [Session.perform, Session.withQueue, hlive, Store.destroyQueue]
  · simp only [Session.perform, Session.withQueue, hlive, Store.dropQueue]

theorem tornDown (hr : Represents a s) (hq : a.queue? q = some queue) :
    s.store.TornDown q queue.ends queue.items (s.perform (.drop q)).after.store := by
  obtain ⟨-, -, -, hr', hlinks⟩ := hr.teardown_eq hq
  obtain ⟨d, hdrain, -⟩ := Chain.drain_eq (hr.threaded hq)
  have hemptied := Chain.emptied_drain ⟨queue.ends, s.store.links⟩
  have hfree {i : Item} (hi : i ∈ queue.items) := hr.valid.owner?_put_none hq hi
  have htarget : (Operation.drop q).target? = some q := rfl
  have hchanged := hr.changedOnly hq htarget
  have hgone : (a.put q none).queue? q = none := queue?_put_self hq
  refine ⟨?_, ?_, fun i hi ↦ hr'.unlinked (hfree hi), fun i hi p other hp ↦ ?_, hchanged.queues,
    fun i hi ↦ hchanged.links i ?_ ?_, fun i id hid ↦ ?_⟩
  · rw [hdrain] at hemptied hlinks
    exact ⟨d, hemptied, hlinks⟩
  · rw [hr'.queue?_eq, hgone]
    rfl
  · obtain ⟨list, hlist, rfl⟩ := hr'.exists_list hp
    have hsize : i < (s.perform (.drop q)).after.store.links.size := by
      rw [hr'.size, ListStore.put, ← hr.size]
      exact (hr.threaded hq).lt_size hi
    obtain ⟨pushed, hpush, hput⟩ := hr'.onQueue_push hlist hsize (hfree hi)
    have hmem : i ∈ list.items ++ [i] := List.mem_append_right _ (List.mem_singleton_self i)
    exact ⟨pushed, hpush,
      (hput.state_eq i).trans ((hput.mem_iff_state (queue?_put_self hlist)).1 hmem)⟩
  · rwa [hr.contents_eq hq]
  · rw [hr'.mem_contents_iff, hgone]
    rintro ⟨_, ⟨⟩, -⟩
  · rw [hr'.state_eq, state_eq_linked_iff] at hid
    obtain ⟨p, b, hp, rfl, -⟩ := exists_of_owner?_eq_some hid
    exact ⟨hr.valid.id_ne_of_put_none hq hp, p, b.ends, hr'.queue?_of_list hp, rfl⟩

end Represents

end ListStore

namespace Store

/-- In every store that operations lead to without running out of ids, a queue that is dropped pops
its elements one after the other and sets them free, and warns if there were any. Destroying one
that is not empty is refused, and does the same. -/
theorem teardown_releases (ops : List Operation)
    (hids : ∀ r ∈ Session.run ops {}, r.answer ≠ .idsExhausted) {q : Nat} {queue : Queue}
    (hq : (Session.reach ops {}).store.queue? q = some queue) :
    let s := Session.reach ops {}
    ∃ items, s.store.links.Intact queue items ∧
      let dropped := s.perform (.drop q)
      let destroyed := s.perform (.destroy q)
      let notes : List Note :=
        if items = [] then []
        else [.warn ("Queue " ++ toString queue.id.val ++ " dropped with " ++
          toString items.length ++ " elements still linked; releasing them")]
      s.store.TornDown q queue items dropped.after.store ∧
        dropped.shown = (.done, notes) ∧
        destroyed.shown = (if items = [] then .done else .fault (.stillLinked queue.id), notes) ∧
        destroyed.after = dropped.after := by
  intro s
  obtain ⟨a, hr⟩ := ListStore.Represents.of_reach hids
  obtain ⟨list, hlist, rfl⟩ := hr.exists_list hq
  obtain ⟨hdropped, hdestroyed, hafter, -⟩ := hr.teardown_eq hlist
  refine ⟨list.items, (hr.threaded hlist).intact fun i ↦ hr.mem_iff_owner hlist,
    hr.tornDown hlist, ?_, ?_, hafter⟩
  · rw [hdropped, ListStore.drop]
    simp only [List.isEmpty_iff]
    rfl
  · rw [hdestroyed, ListStore.drop]
    simp only [List.isEmpty_iff]
    rfl

theorem teardown_releases_three :
    let ops : List Operation := [.newQueue, .newQueue, .newItem, .newItem, .newItem, .newItem,
      .push 0 2, .push 0 0, .push 1 1, .push 0 3]
    let s := Session.reach ops {}
    let destroyed := s.perform (.destroy 0)
    (∀ r ∈ Session.run ops {}, r.answer ≠ .idsExhausted) ∧
      s.store.TornDown 0 ⟨⟨1, by decide⟩, some 2, some 3⟩ [2, 0, 3] destroyed.after.store ∧
      destroyed.answer = .fault (.stillLinked ⟨1, by decide⟩) ∧
      destroyed.notes =
        [.warn "Queue 1 dropped with 3 elements still linked; releasing them"] := by
  intro ops s destroyed
  have hids : ∀ r ∈ Session.run ops {}, r.answer ≠ .idsExhausted := by decide
  have hq : s.store.queue? 0 = some ⟨⟨1, by decide⟩, some 2, some 3⟩ := by decide
  obtain ⟨items, hintact, htorn, -, hshown, hafter⟩ := teardown_releases ops hids hq
  have hfollows : s.store.links.Follows (some 2) [2, 0, 3] := ⟨rfl, rfl, rfl, rfl⟩
  obtain rfl : items = [2, 0, 3] := hintact.follows.unique hfollows
  exact ⟨hids, hafter ▸ htorn, congrArg Prod.fst hshown, congrArg Prod.snd hshown⟩

end Store

end SyncKit
