import Mathlib.Algebra.Group.Nat.Defs
import SyncKit.Queue.Session

namespace SyncKit

/-- What a queue stands for: the elements that were pushed and not taken out again, in order. -/
structure ListQueue where
  id : Ident
  items : List Item := []
  deriving DecidableEq

structure ListStore where
  queues : List (Option ListQueue) := []
  held : List Bool := []
  nextId : UInt64 := 1
  deriving DecidableEq

namespace ListStore

structure Result where
  answer : Store.Answer
  notes : List Note := []
  after : ListStore

def Result.shown (r : Result) : Store.Answer × List Note := (r.answer, r.notes)

def queue? (s : ListStore) (q : Nat) : Option ListQueue := s.queues[q]?.join

def put (s : ListStore) (q : Nat) (queue : Option ListQueue) : ListStore :=
  { s with queues := s.queues.set q queue }

def owner? (s : ListStore) (i : Item) : Option Ident :=
  s.queues.findSome? fun queue ↦ (queue.filter (i ∈ ·.items)).map (·.id)

def state (s : ListStore) (i : Item) : Link.State :=
  match s.owner? i with
  | none => .unlinked
  | some id => .linked id

def addQueue (s : ListStore) (id : Ident) : ListStore :=
  { s with queues := s.queues ++ [some { id }], nextId := s.nextId + 1 }

def holds (s : ListStore) (i : Item) : Bool := s.held[i]?.getD false

def tell (s : ListStore) (answer : Store.Answer) : Result := { answer, after := s }

def withQueue (s : ListStore) (q : Nat) (f : ListQueue → Result) : Result :=
  match s.queue? q with
  | some queue => f queue
  | none => s.tell .noQueue

def withItem (s : ListStore) (i : Item) (r : Result) : Result :=
  if s.holds i then r else s.tell .noItem

def drop (s : ListStore) (q : Nat) (queue : ListQueue) (answer : Store.Answer) : Result where
  answer := answer
  notes :=
    if queue.items.isEmpty then []
    else [.warn ("Queue " ++ toString queue.id.val ++ " dropped with " ++
      toString queue.items.length ++ " elements still linked; releasing them")]
  after := s.put q none

def perform (s : ListStore) : Store.Operation → Result
  | .newQueue =>
    match Ident.ofRaw? s.nextId with
    | some id => (s.addQueue id).tell (.madeQueue id)
    | none => { s with nextId := s.nextId + 1 }.tell .idsExhausted
  | .newItem => { s with held := s.held ++ [true] }.tell (.item (some s.held.length))
  | .push q i =>
    s.withQueue q fun queue ↦ s.withItem i <|
      match s.owner? i with
      | some id => s.tell (.fault (.alreadyLinked (some id)))
      | none => (s.put q (some { queue with items := queue.items ++ [i] })).tell .done
  | .pop q =>
    s.withQueue q fun queue ↦
      match queue.items with
      | [] => s.tell (.item none)
      | i :: rest =>
        { s.put q (some { queue with items := rest }) with held := s.held.set i true }.tell
          (.item (some i))
  | .unlink q i =>
    s.withQueue q fun queue ↦ s.withItem i <|
      if i ∈ queue.items then
        (s.put q (some { queue with items := queue.items.erase i })).tell (.item (some i))
      else s.tell (.fault (.notLinked queue.id (s.state i)))
  | .remove q i =>
    s.withQueue q fun queue ↦ s.withItem i <|
      if i ∈ queue.items then
        (s.put q (some { queue with items := queue.items.erase i })).tell (.item (some i))
      else s.tell (.item none)
  | .isEmpty q => s.withQueue q fun queue ↦ s.tell (.truth queue.items.isEmpty)
  | .id q => s.withQueue q fun queue ↦ s.tell (.id queue.id)
  | .describe q =>
    s.withQueue q fun queue ↦
      s.tell (.text ("ConcurrentQueue \x7b id: QueueId(" ++ toString queue.id.val ++ "), .. \x7d"))
  | .compare q p =>
    s.withQueue q fun a ↦ s.withQueue p fun b ↦
      s.tell (.order (compareOfLessAndEq a.id.val b.id.val))
  | .state i => s.withItem i <| s.tell (.text (s.state i).describe)
  | .isLinked i => s.withItem i <| s.tell (.truth (s.owner? i).isSome)
  | .describeLink i =>
    s.withItem i <| s.tell (.text ("QueueLink \x7b state: " ++ (s.state i).describe ++ " \x7d"))
  | .destroy q =>
    s.withQueue q fun queue ↦
      s.drop q queue (if queue.items.isEmpty then .done else .fault (.stillLinked queue.id))
  | .drop q => s.withQueue q fun queue ↦ s.drop q queue .done
  | .forget i => s.withItem i <| { s with held := s.held.set i false }.tell .done

def run : List Store.Operation → ListStore → List Result
  | [], _ => []
  | op :: later, s => s.perform op :: run later (s.perform op).after

def reach (ops : List Store.Operation) (s : ListStore) : ListStore :=
  ops.foldl (fun s op ↦ (s.perform op).after) s

/-- Each element is in one list at most, and there once. Ids tell queues apart, and new ones are
greater until they have run out. -/
structure Valid (s : ListStore) : Prop where
  nodup : ∀ {q queue}, s.queue? q = some queue → queue.items.Nodup
  apart : ∀ {p q a b i}, s.queue? p = some a → s.queue? q = some b → i ∈ a.items →
    i ∈ b.items → p = q
  ids : ∀ {p q a b}, s.queue? p = some a → s.queue? q = some b → a.id = b.id → p = q
  fresh : s.nextId = 0 ∨ ∀ {q queue}, s.queue? q = some queue → queue.id.val < s.nextId

variable {s : ListStore} {p q : Nat} {queue a b : ListQueue} {new : Option ListQueue} {i : Item}

theorem lt_length_of_queue? (h : s.queue? q = some queue) : q < s.queues.length := by
  refine Nat.lt_of_not_le fun hle ↦ ?_
  rw [queue?, List.getElem?_eq_none hle] at h
  cases h

theorem queue?_put_self (h : s.queue? q = some queue) : (s.put q new).queue? q = new := by
  rw [queue?, put, List.getElem?_set_self (lt_length_of_queue? h)]
  rfl

theorem queue?_put_of_ne (h : q ≠ p) : (s.put q new).queue? p = s.queue? p := by
  rw [queue?, put, List.getElem?_set_ne h]
  rfl

theorem put_self (h : s.queue? q = some queue) : s.put q (some queue) = s := by
  obtain ⟨hlt, hget⟩ := List.getElem?_eq_some_iff.1 (Option.join_eq_some_iff.1 h)
  rw [put, ← hget, List.set_getElem_self]

theorem put_put (s : ListStore) (q : Nat) (first second : Option ListQueue) :
    (s.put q first).put q second = s.put q second := by
  rw [put, put, put, List.set_set]

theorem queue?_addQueue (s : ListStore) (id : Ident) (p : Nat) :
    (s.addQueue id).queue? p = if p = s.queues.length then some { id } else s.queue? p := by
  rw [queue?, addQueue, List.getElem?_append]
  split
  · next hlt => rw [if_neg (Nat.ne_of_lt hlt), queue?]
  · next hle =>
    split
    · next he =>
      rw [he, Nat.sub_self]
      rfl
    · next hne =>
      have hlt : s.queues.length < p := Nat.lt_of_le_of_ne (Nat.le_of_not_lt hle) (Ne.symm hne)
      rw [queue?, List.getElem?_eq_none (Nat.le_of_lt hlt),
        List.getElem?_eq_none (Nat.le_sub_of_add_le' hlt)]

theorem owner?_addQueue (s : ListStore) (id : Ident) (i : Item) :
    (s.addQueue id).owner? i = s.owner? i := by
  rw [owner?, addQueue, List.findSome?_append]
  exact Option.or_none

theorem state_eq_unlinked_iff : s.state i = .unlinked ↔ s.owner? i = none := by
  unfold state
  cases s.owner? i <;> simp

theorem state_eq_linked_iff {id : Ident} : s.state i = .linked id ↔ s.owner? i = some id := by
  unfold state
  cases s.owner? i <;> simp

theorem some_mem_queues_iff : some queue ∈ s.queues ↔ ∃ q, s.queue? q = some queue := by
  rw [List.mem_iff_getElem?]
  refine exists_congr fun q ↦ ?_
  rw [queue?]
  cases s.queues[q]? with
  | none => exact iff_of_false nofun nofun
  | some o => cases o <;> simp

theorem owner?_eq_none_iff :
    s.owner? i = none ↔ ∀ q queue, s.queue? q = some queue → i ∉ queue.items := by
  rw [owner?, List.findSome?_eq_none_iff]
  constructor
  · intro h q queue hq hi
    have := h _ (some_mem_queues_iff.2 ⟨q, hq⟩)
    simp [hi] at this
  · rintro h (_ | queue) hmem
    · rfl
    · obtain ⟨q, hq⟩ := some_mem_queues_iff.1 hmem
      simp [h q queue hq]

theorem exists_of_owner?_eq_some {id : Ident} (h : s.owner? i = some id) :
    ∃ q queue, s.queue? q = some queue ∧ queue.id = id ∧ i ∈ queue.items := by
  obtain ⟨o, hmem, ho⟩ := List.exists_of_findSome?_eq_some h
  obtain ⟨queue, hfilter, hid⟩ := Option.map_eq_some_iff.1 ho
  obtain ⟨rfl, hi⟩ := Option.filter_eq_some_iff.1 hfilter
  obtain ⟨q, hq⟩ := some_mem_queues_iff.1 hmem
  exact ⟨q, queue, hq, hid, of_decide_eq_true hi⟩

namespace Valid

theorem owner?_eq_some (hv : s.Valid) (hq : s.queue? q = some queue) (hi : i ∈ queue.items) :
    s.owner? i = some queue.id := by
  cases ho : s.owner? i with
  | none => exact absurd hi (owner?_eq_none_iff.1 ho q queue hq)
  | some id =>
    obtain ⟨p, a, hp, rfl, ha⟩ := exists_of_owner?_eq_some ho
    cases hv.apart hp hq ha hi
    cases hp.symm.trans hq
    rfl

theorem put (hv : s.Valid) (hq : s.queue? q = some queue)
    (hid : ∀ {b}, new = some b → b.id = queue.id ∧ b.items.Nodup)
    (hjoin : ∀ {b}, new = some b → ∀ j ∈ b.items, j ∈ queue.items ∨ s.owner? j = none) :
    (s.put q new).Valid := by
  have hold {p : Nat} {a : ListQueue} (hp : (s.put q new).queue? p = some a) :
      p = q ∧ new = some a ∨ p ≠ q ∧ s.queue? p = some a := by
    by_cases hpq : p = q
    · subst hpq
      exact .inl ⟨rfl, (queue?_put_self hq).symm.trans hp⟩
    · exact .inr ⟨hpq, (queue?_put_of_ne (Ne.symm hpq)).symm.trans hp⟩
  have helsewhere {p : Nat} {a b : ListQueue} {i : Item} (hnew : new = some b) (hi : i ∈ b.items)
      (hp : s.queue? p = some a) (hne : p ≠ q) : i ∉ a.items := by
    intro ha
    obtain hmem | hfree := hjoin hnew i hi
    · exact hne (hv.apart hp hq ha hmem)
    · exact owner?_eq_none_iff.1 hfree p a hp ha
  refine ⟨fun hp ↦ ?_, fun hp hp' ha hb ↦ ?_, fun hp hp' he ↦ ?_, ?_⟩
  · obtain ⟨-, hnew⟩ | ⟨-, hs⟩ := hold hp
    · exact (hid hnew).2
    · exact hv.nodup hs
  · obtain ⟨rfl, hnew⟩ | ⟨hne, hs⟩ := hold hp <;> obtain ⟨rfl, hnew'⟩ | ⟨hne', hs'⟩ := hold hp'
    · rfl
    · exact absurd hb (helsewhere hnew ha hs' hne')
    · exact absurd ha (helsewhere hnew' hb hs hne)
    · exact hv.apart hs hs' ha hb
  · obtain ⟨rfl, hnew⟩ | ⟨hne, hs⟩ := hold hp <;> obtain ⟨rfl, hnew'⟩ | ⟨hne', hs'⟩ := hold hp'
    · rfl
    · exact hv.ids hq hs' ((hid hnew).1.symm.trans he)
    · exact hv.ids hs hq (he.trans (hid hnew').1)
    · exact hv.ids hs hs' he
  · obtain hzero | hlt := hv.fresh
    · exact .inl hzero
    · refine .inr fun hp ↦ ?_
      obtain ⟨-, hnew⟩ | ⟨-, hs⟩ := hold hp
      · rw [(hid hnew).1]
        exact hlt hq
      · exact hlt hs

theorem withHeld (hv : s.Valid) (held : List Bool) : { s with held }.Valid :=
  ⟨hv.nodup, hv.apart, hv.ids, hv.fresh⟩

theorem addQueue (hv : s.Valid) {id : Ident} (hid : Ident.ofRaw? s.nextId = some id) :
    (s.addQueue id).Valid := by
  have hval : id.val = s.nextId := by
    rw [← Ident.raw_ofRaw? s.nextId, hid]
    rfl
  have hne : s.nextId ≠ 0 := hval ▸ id.ne_zero
  have hlt {q : Nat} {queue : ListQueue} (hq : s.queue? q = some queue) :
      queue.id.val < s.nextId := (hv.fresh.resolve_left hne) hq
  have hold {p : Nat} {a : ListQueue} (hp : (s.addQueue id).queue? p = some a) :
      p = s.queues.length ∧ a = { id } ∨ s.queue? p = some a := by
    rw [queue?_addQueue] at hp
    split at hp
    · next he => exact .inl ⟨he, (Option.some.inj hp).symm⟩
    · exact .inr hp
  refine ⟨fun hp ↦ ?_, fun hp hp' ha hb ↦ ?_, fun hp hp' he ↦ ?_, ?_⟩
  · obtain ⟨-, rfl⟩ | hs := hold hp
    · exact .nil
    · exact hv.nodup hs
  · obtain ⟨-, rfl⟩ | hs := hold hp
    · cases ha
    obtain ⟨-, rfl⟩ | hs' := hold hp'
    · cases hb
    exact hv.apart hs hs' ha hb
  · obtain ⟨rfl, rfl⟩ | hs := hold hp <;> obtain ⟨rfl, rfl⟩ | hs' := hold hp'
    · rfl
    · exact absurd (hval.symm.trans (congrArg Ident.val he)) (UInt64.ne_of_lt (hlt hs')).symm
    · exact absurd ((congrArg Ident.val he).trans hval) (UInt64.ne_of_lt (hlt hs))
    · exact hv.ids hs hs' he
  · by_cases hwrap : s.nextId.toNat + 1 < 2 ^ 64
    · have hnext : (s.nextId + 1).toNat = s.nextId.toNat + 1 := by
        rw [UInt64.toNat_add]
        exact Nat.mod_eq_of_lt hwrap
      refine .inr fun hp ↦ ?_
      rw [ListStore.addQueue, UInt64.lt_iff_toNat_lt, hnext]
      obtain ⟨-, rfl⟩ | hs := hold hp
      · rw [hval]
        exact Nat.lt_succ_self _
      · exact Nat.lt_succ_of_lt (UInt64.lt_iff_toNat_lt.1 (hlt hs))
    · refine .inl (UInt64.toNat_inj.1 ?_)
      have hbound := s.nextId.toNat_lt
      change (s.nextId + 1).toNat = 0
      rw [UInt64.toNat_add]
      change (s.nextId.toNat + 1) % 2 ^ 64 = 0
      omega

end Valid

end ListStore

end SyncKit
