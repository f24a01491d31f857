import SyncKit.Proofs.Queue.Lists
import SyncKit.Proofs.Queue.Threaded

namespace SyncKit

def ListQueue.ends (queue : ListQueue) : Queue :=
  ⟨queue.id, queue.items.head?, queue.items.getLast?⟩

namespace Store

def Result.shown (r : Result) : Answer × List Note := (r.answer, r.notes)

def Session.reach (ops : List Operation) (s : Session) : Session :=
  ops.foldl (fun s op ↦ (s.perform op).after) s

end Store

namespace ListStore

open Store (Session Operation)

/-- The queues and links of a store are those of lists: each live queue is threaded through its
list, and an element in no list has no owner and no neighbours. -/
structure Represents (a : ListStore) (s : Session) : Prop where
  valid : a.Valid
  held : s.held = a.held
  nextId : s.store.nextId = a.nextId
  size : s.store.links.size = a.held.length
  queues : s.store.queues = a.queues.map (·.map ListQueue.ends)
  segments : ∀ {q queue}, a.queue? q = some queue →
    s.store.links.Segment queue.id none queue.items none
  unlinked : ∀ {i}, a.owner? i = none → s.store.links.get i = {}

structure Agree (r : Result) (r' : Store.Result) : Prop where
  answer : r'.answer = r.answer
  notes : r'.notes = r.notes
  represents : Represents r.after r'.after

variable {a : ListStore} {s : Session} {q : Nat} {queue : ListQueue} {i : Item}

theorem queue_eq_of_threaded {c : Chain} {items : List Item} (h : c.Threaded items) :
    c.queue = ListQueue.ends ⟨c.queue.id, items⟩ := by
  rw [ListQueue.ends, ← h.head, ← h.tail]

theorem represents_empty : Represents {} {} where
  valid := ⟨nofun, nofun, nofun, .inr nofun⟩
  held := rfl
  nextId := rfl
  size := rfl
  queues := rfl
  segments := nofun
  unlinked := fun _ ↦ rfl

namespace Represents

theorem queue?_eq (hr : Represents a s) (q : Nat) :
    s.store.queue? q = (a.queue? q).map ListQueue.ends := by
  rw [Store.queue?, hr.queues, List.getElem?_map, queue?]
  cases a.queues[q]? with
  | none => rfl
  | some o => rfl

theorem queue?_of_list (hr : Represents a s) (hq : a.queue? q = some queue) :
    s.store.queue? q = some queue.ends := by
  rw [hr.queue?_eq, hq, Option.map_some]

theorem exists_list (hr : Represents a s) {ends : Queue} (hq : s.store.queue? q = some ends) :
    ∃ queue, a.queue? q = some queue ∧ queue.ends = ends :=
  Option.map_eq_some_iff.1 ((hr.queue?_eq q).symm.trans hq)

theorem threaded (hr : Represents a s) (hq : a.queue? q = some queue) :
    Chain.Threaded ⟨queue.ends, s.store.links⟩ queue.items :=
  ⟨rfl, rfl, hr.segments hq, hr.valid.nodup hq⟩

theorem load_owner (hr : Represents a s) (i : Item) :
    (s.store.links.get i).owner.load = a.owner? i := by
  cases ho : a.owner? i with
  | none =>
    rw [hr.unlinked ho]
    rfl
  | some id =>
    obtain ⟨q, queue, hq, rfl, hi⟩ := exists_of_owner?_eq_some ho
    rw [(hr.segments hq).owner hi, IdentCell.load_new]

theorem state_eq (hr : Represents a s) (i : Item) : (s.store.links.get i).state = a.state i := by
  rw [Link.state, hr.load_owner]
  rfl

theorem mem_iff_owner (hr : Represents a s) (hq : a.queue? q = some queue) :
    i ∈ queue.items ↔ (s.store.links.get i).owner.load = some queue.id := by
  rw [hr.load_owner]
  refine ⟨hr.valid.owner?_eq_some hq, fun ho ↦ ?_⟩
  obtain ⟨p, b, hp, hid, hi⟩ := exists_of_owner?_eq_some ho
  cases hr.valid.ids hp hq hid
  cases hp.symm.trans hq
  exact hi

theorem mem_iff_state (hr : Represents a s) (hq : a.queue? q = some queue) :
    i ∈ queue.items ↔ a.state i = .linked queue.id := by
  rw [hr.mem_iff_owner hq, hr.load_owner, state_eq_linked_iff]

theorem withHeld (hr : Represents a s) {held : List Bool} (hlen : held.length = a.held.length) :
    Represents { a with held } { s with held } :=
  { hr with
    valid := hr.valid.withHeld held
    held := rfl
    size := hr.size.trans hlen.symm
    segments := hr.segments
    unlinked := hr.unlinked }

theorem replace (hr : Represents a s) (hq : a.queue? q = some queue) {new : Option ListQueue}
    {links : Links} (hsize : links.size = s.store.links.size)
    (hnew : ∀ {b}, new = some b → b.id = queue.id ∧ b.items.Nodup ∧
      links.Segment b.id none b.items none)
    (hjoin : ∀ {b}, new = some b → ∀ j ∈ b.items, j ∈ queue.items ∨ a.owner? j = none)
    (hframe : ∀ j, j ∉ queue.items → (∀ {b}, new = some b → j ∉ b.items) →
      links.get j = s.store.links.get j)
    (hgone : ∀ j ∈ queue.items, (∀ {b}, new = some b → j ∉ b.items) → links.get j = {}) :
    Represents (a.put q new)
      { s with
        store :=
          { s.store with queues := s.store.queues.set q (new.map ListQueue.ends), links } } := by
  refine ⟨hr.valid.put hq (fun hb ↦ ⟨(hnew hb).1, (hnew hb).2.1⟩) hjoin, hr.held, hr.nextId,
    hsize.trans hr.size, ?_, fun {p b} hp ↦ ?_, fun {j} ho ↦ ?_⟩
  · change s.store.queues.set q _ = (a.queues.set q new).map _
    rw [List.map_set, hr.queues]
  · by_cases hpq : q = p
    · subst hpq
      rw [queue?_put_self hq] at hp
      exact (hnew hp).2.2
    · rw [queue?_put_of_ne hpq] at hp
      refine (hr.segments hp).frame fun j hj ↦ ?_
      have hj' : j ∉ queue.items := fun hmem ↦ hpq (hr.valid.apart hq hp hmem hj)
      refine hframe j hj' fun hb hmem ↦ ?_
      obtain hold | hfree := hjoin hb j hmem
      · exact hj' hold
      · exact owner?_eq_none_iff.1 hfree p b hp hj
  · rw [owner?_eq_none_iff] at ho
    have hout : ∀ {b}, new = some b → j ∉ b.items := fun hb ↦ ho q _ ((queue?_put_self hq).trans hb)
    by_cases hj : j ∈ queue.items
    · exact hgone j hj hout
    · refine (hframe j hj hout).trans (hr.unlinked (owner?_eq_none_iff.2 fun p b hp hmem ↦ ?_))
      by_cases hpq : q = p
      · subst hpq
        cases hp.symm.trans hq
        exact hj hmem
      · exact ho p b ((queue?_put_of_ne hpq).trans hp) hmem

theorem putChain (hr : Represents a s) (hq : a.queue? q = some queue) {d : Chain}
    {items touched : List Item} (hd : d.Threaded items)
    (ht : Chain.Touches ⟨queue.ends, s.store.links⟩ d touched)
    (htouched : ∀ j ∈ touched, j ∈ queue.items ∨ j ∈ items)
    (hjoin : ∀ j ∈ items, j ∈ queue.items ∨ a.owner? j = none)
    (hgone : ∀ j ∈ queue.items, j ∉ items → d.links.get j = {}) :
    Represents (a.put q (some { queue with items })) { s with store := s.store.put q d } := by
  have hid : d.queue.id = queue.id := ht.id
  have hqueue : d.queue = ListQueue.ends { queue with items } := by
    rw [queue_eq_of_threaded hd, hid]
  have hsegment : d.links.Segment queue.id none items none := hid ▸ hd.segment
  rw [Store.put, hqueue]
  refine hr.replace hq ht.size (fun hb ↦ ?_) (fun hb ↦ ?_) (fun j hj hout ↦ ?_) fun j hj hout ↦ ?_
  · cases hb
    exact ⟨rfl, hd.nodup, hsegment⟩
  · cases hb
    exact hjoin
  · exact ht.frame j fun hmem ↦ (htouched j hmem).elim hj (hout rfl)
  · exact hgone j hj (hout rfl)

end Represents

section Operations

theorem agree_tell (hr : Represents a s) (answer : Store.Answer) :
    Agree (a.tell answer) (s.tell answer) := ⟨rfl, rfl, hr⟩

theorem agree_withQueue (hr : Represents a s) (q : Nat) {f : ListQueue → Result}
    {g : Queue → Store.Result}
    (h : ∀ queue, a.queue? q = some queue → Agree (f queue) (g queue.ends)) :
    Agree (a.withQueue q f) (s.withQueue q g) := by
  rw [withQueue, Session.withQueue, hr.queue?_eq]
  cases hq : a.queue? q with
  | none => exact agree_tell hr .noQueue
  | some queue => exact h queue hq

theorem agree_withItem (hr : Represents a s) (i : Item) {r : Result} {g : Link → Store.Result}
    (h : i < s.store.links.size → Agree r (g (s.store.links.get i))) :
    Agree (a.withItem i r) (s.withItem i g) := by
  have hheld : s.holds i = a.holds i := by rw [Session.holds, hr.held, holds]
  rw [withItem, Session.withItem, hheld]
  split
  · next hi =>
    refine h (Nat.lt_of_not_le fun hle ↦ ?_)
    rw [hr.size] at hle
    rw [holds, List.getElem?_eq_none hle] at hi
    cases hi
  · exact agree_tell hr .noItem

theorem put_ends (hr : Represents a s) (hq : a.queue? q = some queue) :
    { s with store := s.store.put q ⟨queue.ends, s.store.links⟩ } = s := by
  obtain ⟨hlt, hget⟩ :=
    List.getElem?_eq_some_iff.1 (Option.join_eq_some_iff.1 (hr.queue?_of_list hq))
  have hset : s.store.queues.set q (some queue.ends) = s.store.queues := by
    rw [← hget, List.set_getElem_self]
  rw [Store.put, hset]

theorem agree_putIn (hr : Represents a s) (hq : a.queue? q = some queue)
    (hi : i < s.store.links.size) (ho : a.owner? i = none) :
    ∃ d, (Chain.mk queue.ends s.store.links).push i = (.ok (), d) ∧
      Represents (a.put q (some { queue with items := queue.items ++ [i] }))
        { s with store := s.store.put q d } := by
  obtain ⟨d, hpush, hd, ht⟩ := Chain.push_of_free (hr.threaded hq) hi (hr.unlinked ho)
  refine ⟨d, hpush, hr.putChain hq hd ht (fun j hj ↦ .inr hj) (fun j hj ↦ ?_) fun j hj hout ↦ ?_⟩
  · rcases List.mem_append.1 hj with hj | hj
    · exact .inl hj
    · exact .inr (List.mem_singleton.1 hj ▸ ho)
  · exact absurd (List.mem_append_left _ hj) hout

theorem push_of_owned (hr : Represents a s) {id : Ident} (ho : a.owner? i = some id) :
    (Chain.mk queue.ends s.store.links).push i =
      (.error (.alreadyLinked (some id)), ⟨queue.ends, s.store.links⟩) :=
  Chain.push_of_linked ((hr.load_owner i).trans ho)

theorem agree_push (hr : Represents a s) (hq : a.queue? q = some queue)
    (hi : i < s.store.links.size) :
    Agree
      (match a.owner? i with
      | some id => a.tell (.fault (.alreadyLinked (some id)))
      | none => (a.put q (some { queue with items := queue.items ++ [i] })).tell .done)
      (let (result, c) := (Chain.mk queue.ends s.store.links).push i
      Session.tell { s with store := s.store.put q c } (.ofUnit result)) := by
  cases ho : a.owner? i with
  | some id =>
    rw [push_of_owned hr ho]
    simp only [put_ends hr hq]
    exact agree_tell hr _
  | none =>
    obtain ⟨d, hpush, hput⟩ := agree_putIn hr hq hi ho
    rw [hpush]
    exact ⟨rfl, rfl, hput⟩

theorem agree_takeFront (hr : Represents a s) (hq : a.queue? q = some queue) {rest : List Item}
    (hitems : queue.items = i :: rest) :
    ∃ d, (Chain.mk queue.ends s.store.links).pop = (some i, d) ∧
      Represents (a.put q (some { queue with items := rest }))
        { s with store := s.store.put q d } := by
  have hthreaded := hr.threaded hq
  rw [hitems] at hthreaded
  obtain ⟨d, hpop, hd, ht, hreset⟩ := Chain.pop_cons hthreaded
  refine ⟨d, hpop, hr.putChain hq hd ht (fun j hj ↦ .inl (hitems ▸ hj))
    (fun j hj ↦ .inl (hitems ▸ List.mem_cons_of_mem i hj)) fun j hj hout ↦ ?_⟩
  rw [hitems, List.mem_cons] at hj
  exact hj.resolve_right hout ▸ hreset

theorem agree_pop (hr : Represents a s) (hq : a.queue? q = some queue) :
    Agree
      (match queue.items with
      | [] => a.tell (.item none)
      | i :: rest =>
        { a.put q (some { queue with items := rest }) with held := a.held.set i true }.tell
          (.item (some i)))
      (let (item, c) := (Chain.mk queue.ends s.store.links).pop
      (Session.receive { s with store := s.store.put q c } item).tell (.item item)) := by
  cases hitems : queue.items with
  | nil =>
    have hthreaded := hr.threaded hq
    rw [hitems] at hthreaded
    rw [Chain.pop_nil hthreaded]
    simp only [put_ends hr hq]
    exact agree_tell hr _
  | cons i rest =>
    obtain ⟨d, hpop, hput⟩ := agree_takeFront hr hq hitems
    rw [hpop]
    refine ⟨rfl, rfl, ?_⟩
    change Represents _ { store := s.store.put q d, held := s.held.set i true }
    rw [hr.held]
    exact hput.withHeld List.length_set

theorem agree_takeOut (hr : Represents a s) (hq : a.queue? q = some queue) (hi : i ∈ queue.items) :
    ∃ d, (Chain.mk queue.ends s.store.links).remove? i = (some i, d) ∧
      Represents (a.put q (some { queue with items := queue.items.erase i }))
        { s with store := s.store.put q d } := by
  have hthreaded := hr.threaded hq
  obtain ⟨xs, ys, hitems⟩ := List.append_of_mem hi
  have hnodup := hitems ▸ hr.valid.nodup hq
  have hxs : i ∉ xs := fun hmem ↦
    (List.nodup_append.1 hnodup).2.2 i hmem i List.mem_cons_self rfl
  have herase : queue.items.erase i = xs ++ ys := by
    rw [hitems, List.erase_append_right _ hxs, List.erase_cons_head]
  rw [hitems] at hthreaded
  obtain ⟨d, hremove, hd, ht, hreset⟩ := Chain.remove?_of_mem hthreaded
  rw [← herase] at hd
  rw [← hitems] at ht
  refine ⟨d, hremove, hr.putChain hq hd ht (fun j hj ↦ .inl hj)
    (fun j hj ↦ .inl (List.mem_of_mem_erase hj)) fun j hj hout ↦ ?_⟩
  by_cases hij : j = i
  · exact hij ▸ hreset
  · exact absurd ((List.mem_erase_of_ne hij).2 hj) hout

theorem remove?_of_not_mem (hr : Represents a s) (hq : a.queue? q = some queue)
    (hi : i ∉ queue.items) :
    (Chain.mk queue.ends s.store.links).remove? i = (none, ⟨queue.ends, s.store.links⟩) :=
  Chain.remove?_of_not_linked (mt (hr.mem_iff_owner hq).2 hi)

theorem agree_remove (hr : Represents a s) (hq : a.queue? q = some queue) :
    Agree
      (if i ∈ queue.items then
        (a.put q (some { queue with items := queue.items.erase i })).tell (.item (some i))
      else a.tell (.item none))
      (let (item, c) := (Chain.mk queue.ends s.store.links).remove? i
      Session.tell { s with store := s.store.put q c } (.item item)) := by
  split
  · next hi =>
    obtain ⟨d, hremove, hput⟩ := agree_takeOut hr hq hi
    rw [hremove]
    exact ⟨rfl, rfl, hput⟩
  · next hi =>
    rw [remove?_of_not_mem hr hq hi]
    simp only [put_ends hr hq]
    exact agree_tell hr _

theorem agree_unlink (hr : Represents a s) (hq : a.queue? q = some queue) :
    Agree
      (if i ∈ queue.items then
        (a.put q (some { queue with items := queue.items.erase i })).tell (.item (some i))
      else a.tell (.fault (.notLinked queue.id (a.state i))))
      (let (result, c) := (Chain.mk queue.ends s.store.links).unlink i
      Session.tell { s with store := s.store.put q c } (.ofItem result)) := by
  rw [Chain.unlink]
  split
  · next hi =>
    obtain ⟨d, hremove, hput⟩ := agree_takeOut hr hq hi
    rw [hremove]
    exact ⟨rfl, rfl, hput⟩
  · next hi =>
    rw [remove?_of_not_mem hr hq hi, ← hr.state_eq]
    simp only [put_ends hr hq]
    exact agree_tell hr _

theorem agree_drop (hr : Represents a s) (hq : a.queue? q = some queue) (answer : Store.Answer) :
    Agree (a.drop q queue answer)
      (let (notes, store) := s.store.dropQueue q queue.ends
      { answer, notes, after := { s with store } }) := by
  obtain ⟨d, hdrain, -, ht, hreset⟩ := Chain.drain_eq (hr.threaded hq)
  rw [Store.dropQueue, hdrain]
  exact ⟨rfl, rfl, hr.replace hq ht.size nofun nofun (fun j hj _ ↦ ht.frame j hj)
    fun j hj _ ↦ hreset j hj⟩

theorem agree_newQueue (hr : Represents a s)
    (hids : (s.perform .newQueue).answer ≠ .idsExhausted) :
    Agree (a.perform .newQueue) (s.perform .newQueue) := by
  rw [Session.perform, Store.newQueue, hr.nextId] at hids ⊢
  rw [perform]
  cases hid : Ident.ofRaw? a.nextId with
  | none =>
    rw [hid] at hids
    exact absurd rfl hids
  | some id =>
    refine ⟨rfl, rfl, hr.valid.addQueue hid, hr.held, rfl, hr.size, ?_, fun {p b} hp ↦ ?_,
      fun {j} ho ↦ ?_⟩
    · change s.store.queues ++ _ = (a.queues ++ _).map _
      rw [List.map_append, hr.queues]
      rfl
    · change (a.addQueue id).queue? p = some b at hp
      rw [queue?_addQueue] at hp
      split at hp
      · cases hp
        trivial
      · exact hr.segments hp
    · exact hr.unlinked ((owner?_addQueue a id j).symm.trans ho)

theorem agree_newItem (hr : Represents a s) : Agree (a.perform .newItem) (s.perform .newItem) := by
  rw [Session.perform, perform, Store.newItem, hr.size]
  refine ⟨rfl, rfl, hr.valid.withHeld _, ?_, hr.nextId, ?_, hr.queues, fun hq ↦ ?_, fun {j} ho ↦ ?_⟩
  · exact congrArg (· ++ [true]) hr.held
  · change s.store.links.add.size = (a.held ++ [true]).length
    rw [Links.size_add, List.length_append, hr.size, List.length_singleton]
  · exact (hr.segments hq).frame fun j _ ↦ Links.get_add _ j
  · exact (Links.get_add _ j).trans (hr.unlinked ho)

/-- Whatever is done, the store answers as the lists do, unless it runs out of ids. -/
theorem agree_perform (hr : Represents a s) (op : Operation)
    (hids : (s.perform op).answer ≠ .idsExhausted) : Agree (a.perform op) (s.perform op) := by
  cases op with
  | newQueue => exact agree_newQueue hr hids
  | newItem => exact agree_newItem hr
  | push q i =>
    exact agree_withQueue hr q fun queue hq ↦ agree_withItem hr i fun hi ↦ agree_push hr hq hi
  | pop q => exact agree_withQueue hr q fun queue hq ↦ agree_pop hr hq
  | unlink q i =>
    exact agree_withQueue hr q fun queue hq ↦ agree_withItem hr i fun _ ↦ agree_unlink hr hq
  | remove q i =>
    exact agree_withQueue hr q fun queue hq ↦ agree_withItem hr i fun _ ↦ agree_remove hr hq
  | isEmpty q =>
    refine agree_withQueue hr q fun queue hq ↦ ?_
    rw [(hr.threaded hq).isEmpty_eq]
    exact agree_tell hr _
  | id q => exact agree_withQueue hr q fun queue hq ↦ agree_tell hr _
  | describe q =>
    rw [perform, Session.perform]
    refine agree_withQueue hr q fun queue _ ↦ ?_
    unfold Queue.describe
    exact agree_tell hr _
  | compare q p =>
    exact agree_withQueue hr q fun queue hq ↦ agree_withQueue hr p fun other hp ↦ agree_tell hr _
  | state i =>
    rw [perform, Session.perform]
    refine agree_withItem hr i fun _ ↦ ?_
    rw [hr.state_eq]
    exact agree_tell hr _
  | isLinked i =>
    rw [perform, Session.perform]
    refine agree_withItem hr i fun _ ↦ ?_
    rw [Link.isLinked, hr.state_eq, state]
    cases a.owner? i <;> exact agree_tell hr _
  | describeLink i =>
    rw [perform, Session.perform]
    refine agree_withItem hr i fun _ ↦ ?_
    unfold Link.describe
    rw [hr.state_eq]
    exact agree_tell hr _
  | destroy q =>
    refine agree_withQueue hr q fun queue hq ↦ ?_
    have hdrop := agree_drop hr hq
      (if queue.items.isEmpty then .done else .fault (.stillLinked queue.id))
    have hdestroy : Store.Answer.ofUnit (Chain.mk queue.ends s.store.links).destroy =
        if queue.items.isEmpty then .done else .fault (.stillLinked queue.id) := by
      rw [Chain.destroy, (hr.threaded hq).isEmpty_eq]
      split <;> rfl
    rw [← hdestroy] at hdrop ⊢
    exact hdrop
  | drop q =>
    rw [perform, Session.perform]
    exact agree_withQueue hr q fun queue hq ↦ agree_drop hr hq _
  | forget i =>
    rw [perform, Session.perform]
    refine agree_withItem hr i fun _ ↦ ⟨rfl, rfl, ?_⟩
    change Represents _ { s with held := s.held.set i false }
    rw [hr.held]
    exact hr.withHeld List.length_set

end Operations

theorem agree_run (hr : Represents a s) {ops : List Operation}
    (hids : ∀ r ∈ Session.run ops s, r.answer ≠ .idsExhausted) :
    (Session.run ops s).map Store.Result.shown = (run ops a).map Result.shown ∧
      Represents (reach ops a) (Session.reach ops s) := by
  induction ops generalizing a s with
  | nil => exact ⟨rfl, hr⟩
  | cons op ops ih =>
    have hagree := agree_perform hr op (hids _ List.mem_cons_self)
    obtain ⟨hlater, hend⟩ := ih hagree.represents fun r hmem ↦ hids r (List.mem_cons_of_mem _ hmem)
    have hshown : (s.perform op).shown = (a.perform op).shown :=
      Prod.ext hagree.answer hagree.notes
    refine ⟨?_, hend⟩
    rw [Session.run, run, List.map_cons, List.map_cons, hshown, hlater]

theorem drainAll_eq {links : Links} {queues : List (Option ListQueue)}
    (hthreaded : ∀ queue, some queue ∈ queues →
      Chain.Threaded ⟨queue.ends, links⟩ queue.items)
    (hapart : queues.Pairwise fun o o' ↦
      ∀ b b', o = some b → o' = some b' → ∀ i ∈ b.items, i ∉ b'.items) :
    Store.drainAll links (queues.map (·.map ListQueue.ends)) = queues.map (·.map (·.items)) := by
  induction queues generalizing links with
  | nil => rfl
  | cons o later ih =>
    obtain ⟨hfirst, hlater⟩ := List.pairwise_cons.1 hapart
    cases o with
    | none =>
      exact congrArg (none :: ·) (ih (fun b hb ↦ hthreaded b (List.mem_cons_of_mem _ hb)) hlater)
    | some queue =>
      obtain ⟨d, hdrain, -, ht, -⟩ := Chain.drain_eq (hthreaded queue List.mem_cons_self)
      rw [List.map_cons, List.map_cons, Option.map_some, Store.drainAll, hdrain]
      refine congrArg (some queue.items :: ·) (ih (fun b hb ↦ ?_) hlater)
      have hb' := hthreaded b (List.mem_cons_of_mem _ hb)
      exact ⟨rfl, rfl, hb'.segment.frame fun j hj ↦
        ht.frame j fun hmem ↦ hfirst _ hb queue b rfl rfl j hmem hj, hb'.nodup⟩

theorem Represents.drained_eq (hr : Represents a s) :
    s.drained = a.queues.map (·.map (·.items)) := by
  rw [Session.drained, hr.queues]
  refine drainAll_eq (fun queue hmem ↦ ?_) (List.pairwise_iff_getElem.2 fun p q hp hq hlt ↦ ?_)
  · obtain ⟨q, hq⟩ := some_mem_queues_iff.1 hmem
    exact hr.threaded hq
  · intro b b' hb hb' i hi hi'
    have hpb : a.queue? p = some b := by rw [queue?, List.getElem?_eq_getElem hp, hb]; rfl
    have hqb : a.queue? q = some b' := by rw [queue?, List.getElem?_eq_getElem hq, hb']; rfl
    exact Nat.ne_of_lt hlt (hr.valid.apart hpb hqb hi hi')

/-- Whatever is done with any number of queues and elements, the answers are those of plain lists
that have no element in common, and popping everything yields these lists. Only ids may not run
out. -/
theorem answers_as_lists (ops : List Operation)
    (hids : ∀ r ∈ Session.run ops {}, r.answer ≠ .idsExhausted) :
    let lists := reach ops {}
    (Session.run ops {}).map Store.Result.shown = (run ops {}).map Result.shown ∧
      (Session.reach ops {}).drained = lists.queues.map (·.map (·.items)) ∧
      (∀ q queue, lists.queue? q = some queue → queue.items.Nodup) ∧
      ∀ p q a b i, lists.queue? p = some a → lists.queue? q = some b →
        i ∈ a.items → i ∈ b.items → p = q := by
  obtain ⟨hshown, hr⟩ := agree_run represents_empty hids
  exact ⟨hshown, hr.drained_eq, fun _ _ ↦ hr.valid.nodup, fun _ _ _ _ _ ↦ hr.valid.apart⟩

theorem answers_as_lists_of_two_queues :
    let ops : List Operation :=
      [.newQueue, .newQueue, .newItem, .newItem, .newItem, .push 0 0, .push 0 1, .push 0 2,
        .push 1 1, .unlink 0 1, .push 1 1, .unlink 0 1]
    (∀ r ∈ Session.run ops {}, r.answer ≠ .idsExhausted) ∧
      (Session.reach ops {}).drained = [some [0, 2], some [1]] := by
  intro ops
  have hids : ∀ r ∈ Session.run ops {}, r.answer ≠ .idsExhausted := by decide
  obtain ⟨-, hdrained, -⟩ := answers_as_lists ops hids
  exact ⟨hids, hdrained⟩

end ListStore

end SyncKit
