import SyncKit.Proofs.Queue.Refinement

namespace SyncKit

namespace Links

def Follows (ls : Links) : Option Item → List Item → Prop
  | start, [] => start = none
  | start, i :: later => start = some i ∧ ls.Follows (ls.get i).next later

/-- The links of the elements that a queue owns agree with its ends and in both directions. -/
structure Intact (ls : Links) (queue : Queue) (items : List Item) : Prop where
  follows : ls.Follows queue.head items
  once : items.Nodup
  owned : ∀ i, i ∈ items ↔ (ls.get i).owner.load = some queue.id
  last : items.getLast? = queue.tail
  ends : queue.head = none ↔ queue.tail = none
  front : ∀ i, queue.head = some i → (ls.get i).prev = none
  back : ∀ i, queue.tail = some i → (ls.get i).next = none
  inverse : ∀ i j, i ∈ items ∧ (ls.get i).next = some j ↔ j ∈ items ∧ (ls.get j).prev = some i

variable {ls : Links} {id : Ident} {prev next : Option Item} {xs ys items : List Item} {i j : Item}

theorem Segment.get_eq (h : ls.Segment id prev (xs ++ i :: ys) next) :
    ls.get i = ⟨.new (some id), xs.getLast?.or prev, ys.head?.or next⟩ := (segment_append.1 h).2.1

theorem Segment.follows (h : ls.Segment id prev items none) : ls.Follows items.head? items := by
  induction items generalizing prev with
  | nil => rfl
  | cons i later ih =>
    refine ⟨rfl, ?_⟩
    rw [h.1, Option.or_none]
    exact ih h.2

theorem Segment.inverse (h : ls.Segment id none items none) :
    i ∈ items ∧ (ls.get i).next = some j ↔ j ∈ items ∧ (ls.get j).prev = some i := by
  constructor
  · rintro ⟨hi, hnext⟩
    obtain ⟨xs, ys, rfl⟩ := List.append_of_mem hi
    rw [h.get_eq, Option.or_none, Option.or_none] at hnext
    obtain ⟨later, rfl⟩ := List.head?_eq_some_iff.1 hnext
    have hsplit : xs ++ i :: j :: later = (xs ++ [i]) ++ j :: later := by simp
    rw [hsplit] at h
    refine ⟨by simp, ?_⟩
    rw [h.get_eq, List.getLast?_concat]
    rfl
  · rintro ⟨hj, hprev⟩
    obtain ⟨xs, ys, rfl⟩ := List.append_of_mem hj
    rw [h.get_eq, Option.or_none, Option.or_none] at hprev
    obtain ⟨init, rfl⟩ := List.getLast?_eq_some_iff.1 hprev
    rw [List.append_assoc] at h ⊢
    exact ⟨by simp, by rw [Segment.get_eq h]; rfl⟩

end Links

namespace Chain

theorem Threaded.intact {c : Chain} {items : List Item} (h : c.Threaded items)
    (howned : ∀ i, i ∈ items ↔ (c.links.get i).owner.load = some c.queue.id) :
    c.links.Intact c.queue items where
  follows := h.head ▸ h.segment.follows
  once := h.nodup
  owned := howned
  last := h.tail.symm
  ends := by rw [h.head, h.tail, List.head?_eq_none_iff, List.getLast?_eq_none_iff]
  front := by
    intro i hi
    obtain ⟨later, rfl⟩ := List.head?_eq_some_iff.1 (h.head.symm.trans hi)
    rw [h.segment.1]
  back := by
    intro i hi
    obtain ⟨init, rfl⟩ := List.getLast?_eq_some_iff.1 (h.tail.symm.trans hi)
    rw [h.segment.get_eq]
    rfl
  inverse := fun _ _ ↦ h.segment.inverse

end Chain

namespace Store

def madeIds (results : List Result) : List Ident :=
  results.filterMap fun r ↦
    match r.answer with
    | .madeQueue id => some id
    | _ => none

def Answer.concernsIds : Answer → Bool
  | .madeQueue _ | .idsExhausted => true
  | _ => false

structure Quiet (s : Session) (r : Result) : Prop where
  nextId : r.after.store.nextId = s.store.nextId
  silent : r.answer.concernsIds = false

section Quiet

variable {s : Session}

theorem Quiet.exhausted {r : Result} (h : Quiet s r) : r.answer ≠ .idsExhausted := by
  intro he
  have hsilent := h.silent
  rw [he] at hsilent
  cases hsilent

theorem quiet_withQueue (q : Nat) {f : Queue → Result} (h : ∀ queue, Quiet s (f queue)) :
    Quiet s (s.withQueue q f) := by
  rw [Session.withQueue]
  split
  · exact h _
  · exact ⟨rfl, rfl⟩

theorem quiet_withItem (i : Item) {f : Link → Result} (h : ∀ l, Quiet s (f l)) :
    Quiet s (s.withItem i f) := by
  rw [Session.withItem]
  split
  · exact h _
  · exact ⟨rfl, rfl⟩

theorem quiet_perform {op : Operation} (hop : op ≠ .newQueue) : Quiet s (s.perform op) := by
  cases op with
  | newQueue => exact absurd rfl hop
  | newItem => exact ⟨rfl, rfl⟩
  | push q i =>
    refine quiet_withQueue q fun queue ↦ quiet_withItem i fun _ ↦ ?_
    obtain ⟨result, c⟩ := (Chain.mk queue s.store.links).push i
    cases result <;> exact ⟨rfl, rfl⟩
  | pop q =>
    refine quiet_withQueue q fun queue ↦ ?_
    obtain ⟨item, c⟩ := (Chain.mk queue s.store.links).pop
    cases item <;> exact ⟨rfl, rfl⟩
  | unlink q i =>
    refine quiet_withQueue q fun queue ↦ quiet_withItem i fun _ ↦ ?_
    obtain ⟨result, c⟩ := (Chain.mk queue s.store.links).unlink i
    cases result <;> exact ⟨rfl, rfl⟩
  | remove q i =>
    refine quiet_withQueue q fun queue ↦ quiet_withItem i fun _ ↦ ?_
    obtain ⟨item, c⟩ := (Chain.mk queue s.store.links).remove? i
    exact ⟨rfl, rfl⟩
  | destroy q =>
    refine quiet_withQueue q fun queue ↦ ?_
    simp only [destroyQueue, dropQueue]
    cases (Chain.mk queue s.store.links).destroy <;> exact ⟨rfl, rfl⟩
  | drop q => exact quiet_withQueue q fun queue ↦ ⟨rfl, rfl⟩
  | compare q p =>
    exact quiet_withQueue q fun _ ↦ quiet_withQueue p fun _ ↦ ⟨rfl, rfl⟩
  | isEmpty q | id q | describe q =>
    rw [Session.perform]
    exact quiet_withQueue q fun _ ↦ ⟨rfl, rfl⟩
  | state i | isLinked i | describeLink i | forget i =>
    rw [Session.perform]
    exact quiet_withItem i fun _ ↦ ⟨rfl, rfl⟩

end Quiet

section Ids

def Room (s : Session) (n : Nat) : Prop :=
  n = 0 ∨ 0 < s.store.nextId.toNat ∧ s.store.nextId.toNat + n ≤ 2 ^ 64

variable {s : Session}

theorem Quiet.room {r : Result} (h : Quiet s r) {n : Nat} (hroom : Room s n) : Room r.after n := by
  rwa [Room, h.nextId]

theorem Quiet.madeIds_cons {r : Result} (h : Quiet s r) (later : List Result) :
    madeIds (r :: later) = madeIds later := by
  rw [madeIds, List.filterMap_cons]
  split
  · rfl
  · next hid =>
    split at hid
    · next hmade =>
      have hsilent := h.silent
      rw [hmade] at hsilent
      cases hsilent
    · cases hid

theorem perform_newQueue {n : Nat} (hroom : Room s (n + 1)) :
    ∃ id : Ident, id.val = s.store.nextId ∧ (s.perform .newQueue).answer = .madeQueue id ∧
      Room (s.perform .newQueue).after n ∧
      (n = 0 ∨ (s.perform .newQueue).after.store.nextId.toNat = s.store.nextId.toNat + 1) := by
  obtain ⟨hpos, hle⟩ := hroom.resolve_left (Nat.succ_ne_zero n)
  have hne : s.store.nextId ≠ 0 := by
    intro h
    rw [h] at hpos
    exact absurd hpos (by decide)
  have hid : Ident.ofRaw? s.store.nextId = some ⟨s.store.nextId, hne⟩ := dif_pos hne
  have hnext : n = 0 ∨ (s.store.nextId + 1).toNat = s.store.nextId.toNat + 1 := by
    refine (Nat.eq_zero_or_pos n).imp_right fun hn ↦ ?_
    rw [UInt64.toNat_add]
    exact Nat.mod_eq_of_lt (by change s.store.nextId.toNat + 1 < 2 ^ 64; omega)
  refine ⟨⟨s.store.nextId, hne⟩, rfl, ?_⟩
  simp only [Session.perform, newQueue, hid, Session.tell, true_and]
  refine ⟨hnext.imp_right fun h ↦ ?_, hnext⟩
  rw [h]
  omega

theorem madeIds_run {ops : List Operation} (hroom : Room s (ops.count .newQueue)) :
    (madeIds (Session.run ops s)).map (·.val.toNat) =
        List.range' s.store.nextId.toNat (ops.count .newQueue) ∧
      ∀ r ∈ Session.run ops s, r.answer ≠ .idsExhausted := by
  induction ops generalizing s with
  | nil => exact ⟨rfl, fun r hr ↦ absurd hr List.not_mem_nil⟩
  | cons op ops ih =>
    rw [Session.run]
    by_cases hop : op = .newQueue
    · subst hop
      rw [List.count_cons_self] at hroom ⊢
      obtain ⟨id, hid, hanswer, hlater, hnext⟩ := perform_newQueue hroom
      obtain ⟨hmade, hids⟩ := ih hlater
      constructor
      · rw [madeIds, List.filterMap_cons, hanswer, List.range'_succ]
        change id.val.toNat :: (madeIds _).map _ = _
        rw [hmade, hid]
        obtain hzero | hnext := hnext
        · rw [hzero]
          rfl
        · rw [hnext]
      · rintro r (_ | ⟨_, hr⟩)
        · intro he
          cases hanswer.symm.trans he
        · exact hids r hr
    · have hquiet := quiet_perform (s := s) hop
      rw [List.count_cons_of_ne hop] at hroom ⊢
      obtain ⟨hmade, hids⟩ := ih (hquiet.room hroom)
      refine ⟨by rw [hquiet.madeIds_cons, hmade, hquiet.nextId], ?_⟩
      rintro r (_ | ⟨_, hr⟩)
      · exact hquiet.exhausted
      · exact hids r hr

end Ids

/-- In every store that operations lead to, the links of each live queue are intact, an element
outside has no neighbours, owners are live queues, and no two queues were made with the same id. -/
theorem links_intact (ops : List Operation) (hcount : ops.count .newQueue < 2 ^ 64) :
    let s := Session.reach ops {}
    let made := madeIds (Session.run ops {})
    (∀ q queue, s.store.queue? q = some queue → ∃ items, s.store.links.Intact queue items) ∧
      (∀ i, (s.store.links.get i).owner.load = none →
        (s.store.links.get i).prev = none ∧ (s.store.links.get i).next = none) ∧
      (∀ i id, (s.store.links.get i).owner.load = some id →
        ∃ q queue, s.store.queue? q = some queue ∧ queue.id = id) ∧
      made.length = ops.count .newQueue ∧ made.Nodup ∧ ∀ id ∈ made, id.val ≠ 0 := by
  have hroom : Room {} (ops.count .newQueue) :=
    .inr ⟨Nat.one_pos, by change 1 + _ ≤ 2 ^ 64; omega⟩
  obtain ⟨hmade, hids⟩ := madeIds_run hroom
  obtain ⟨-, hr⟩ := ListStore.agree_run ListStore.represents_empty hids
  refine ⟨fun q queue hq ↦ ?_, fun i ho ↦ ?_, fun i id ho ↦ ?_, ?_, ?_, fun id _ ↦ id.ne_zero⟩
  · rw [hr.queue?_eq] at hq
    obtain ⟨list, hlist, rfl⟩ := Option.map_eq_some_iff.1 hq
    exact ⟨list.items, (hr.threaded hlist).intact fun i ↦ hr.mem_iff_owner hlist⟩
  · rw [hr.load_owner] at ho
    rw [hr.unlinked ho]
    exact ⟨rfl, rfl⟩
  · rw [hr.load_owner] at ho
    obtain ⟨q, list, hlist, hid, -⟩ := ListStore.exists_of_owner?_eq_some ho
    exact ⟨q, list.ends, by rw [hr.queue?_eq, hlist]; rfl, hid⟩
  · rw [← List.length_map (f := fun id : Ident ↦ id.val.toNat), hmade, List.length_range']
  · have hnodup : ((madeIds (Session.run ops {})).map fun id ↦ id.val.toNat).Nodup := by
      rw [hmade]
      exact List.nodup_range'
    exact (List.pairwise_map.1 hnodup).imp fun hne he ↦ hne (congrArg (·.val.toNat) he)

theorem links_intact_around_gap :
    let ops : List Operation :=
      [.newQueue, .newItem, .newItem, .newItem, .push 0 0, .push 0 1, .push 0 2, .unlink 0 1]
    ops.count .newQueue < 2 ^ 64 ∧
      ∃ items,
        (Session.reach ops {}).store.links.Intact ⟨⟨1, by decide⟩, some 0, some 2⟩ items := by
  intro ops
  have hcount : ops.count .newQueue < 2 ^ 64 := by decide
  obtain ⟨hintact, -⟩ := links_intact ops hcount
  exact ⟨hcount, hintact 0 _ (by decide)⟩

end Store

end SyncKit
