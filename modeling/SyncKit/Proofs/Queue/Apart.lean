import SyncKit.Proofs.Queue.Integrity
import SyncKit.Proofs.Queue.Refused

namespace SyncKit

namespace Store.Operation

def target? : Operation → Option Nat
  | .push q _ | .pop q | .unlink q _ | .remove q _ | .isEmpty q | .id q | .describe q
  | .destroy q | .drop q => some q
  | _ => none

def argument? : Operation → Option Item
  | .push _ i | .unlink _ i | .remove _ i => some i
  | _ => none

end Store.Operation

namespace ListStore

open Store (Session Operation)

/-- What an operation on a queue does: it answers, puts a queue or nothing in the place of the one
it was called on, and may hand out an element. -/
structure Effect where
  answer : Store.Answer
  notes : List Note := []
  queue : Option ListQueue
  given : Option Item := none

def Effect.handOut (e : Effect) (held : List Bool) : List Bool :=
  match e.given with
  | none => held
  | some i => held.set i true

def Effect.apply (e : Effect) (q : Nat) (a : ListStore) : Result where
  answer := e.answer
  notes := e.notes
  after := { a.put q e.queue with held := e.handOut a.held }

structure Effect.Within (queue : ListQueue) (argument : Option Item) (e : Effect) : Prop where
  given : ∀ i, e.given = some i → i ∈ queue.items
  items : ∀ b, e.queue = some b → ∀ i ∈ b.items, i ∈ queue.items ∨ argument = some i

structure Alike (q : Nat) (argument : Option Item) (a b : ListStore) : Prop where
  queue : b.queue? q = a.queue? q
  holds : ∀ i, argument = some i → b.holds i = a.holds i
  owner : ∀ i, argument = some i → b.owner? i = a.owner? i

theorem Alike.refl (q : Nat) (argument : Option Item) (a : ListStore) : Alike q argument a a :=
  ⟨rfl, fun _ _ ↦ rfl, fun _ _ ↦ rfl⟩

/-- Something done to a queue whose effect depends on nothing but this queue, and on who has the
element that it is given. -/
def Local (a : ListStore) (q : Nat) (queue : ListQueue) (argument : Option Item)
    (f : ListStore → Result) : Prop :=
  ∃ e : Effect, e.Within queue argument ∧ ∀ b, Alike q argument a b → f b = e.apply q b

variable {a a' : ListStore} {s s' : Session} {p q : Nat} {queue : ListQueue} {i : Item}
  {argument : Option Item} {f : ListStore → Result} {new : Option ListQueue}

namespace Local

theorem tell (hq : a.queue? q = some queue) (answer : Store.Answer)
    (h : ∀ b, Alike q argument a b → f b = b.tell answer) : Local a q queue argument f := by
  refine ⟨{ answer, queue := some queue }, ⟨nofun, ?_⟩, fun b hb ↦ ?_⟩
  · rintro _ ⟨⟩ i hi
    exact .inl hi
  · rw [h b hb, Effect.apply, put_self (hb.queue.trans hq)]
    rfl

theorem drop (answer : Store.Answer) :
    Local a q queue argument (fun b ↦ b.drop q queue answer) :=
  ⟨{ answer, notes := (a.drop q queue answer).notes, queue := none }, ⟨nofun, nofun⟩,
    fun _ _ ↦ rfl⟩

theorem withQueue (hq : a.queue? q = some queue) {f : ListStore → ListQueue → Result}
    (h : Local a q queue argument (fun b ↦ f b queue)) :
    Local a q queue argument (fun b ↦ b.withQueue q (f b)) := by
  obtain ⟨e, hwithin, hf⟩ := h
  refine ⟨e, hwithin, fun b hb ↦ ?_⟩
  simp only [ListStore.withQueue, hb.queue.trans hq]
  exact hf b hb

theorem withItem (hq : a.queue? q = some queue) (h : Local a q queue (some i) f) :
    Local a q queue (some i) (fun b ↦ b.withItem i (f b)) := by
  cases hheld : a.holds i with
  | false =>
    refine tell hq .noItem fun b hb ↦ ?_
    simp only [ListStore.withItem, hb.holds i rfl, hheld]
    rfl
  | true =>
    obtain ⟨e, hwithin, hf⟩ := h
    refine ⟨e, hwithin, fun b hb ↦ ?_⟩
    simp only [ListStore.withItem, hb.holds i rfl, hheld]
    exact hf b hb

theorem push (hq : a.queue? q = some queue) :
    Local a q queue (some i) fun b ↦
      match b.owner? i with
      | some id => b.tell (.fault (.alreadyLinked (some id)))
      | none => (b.put q (some { queue with items := queue.items ++ [i] })).tell .done := by
  cases howner : a.owner? i with
  | some id =>
    refine tell hq (.fault (.alreadyLinked (some id))) fun b hb ↦ ?_
    simp only [hb.owner i rfl, howner]
  | none =>
    refine ⟨⟨.done, [], some { queue with items := queue.items ++ [i] }, none⟩, ⟨nofun, ?_⟩,
      fun b hb ↦ ?_⟩
    · rintro _ ⟨⟩ j hj
      exact (List.mem_append.1 hj).imp id fun hj ↦ congrArg some (List.mem_singleton.1 hj).symm
    · simp only [hb.owner i rfl, howner]
      rfl

theorem pop (hq : a.queue? q = some queue) :
    Local a q queue argument fun b ↦
      match queue.items with
      | [] => b.tell (.item none)
      | i :: rest =>
        { b.put q (some { queue with items := rest }) with held := b.held.set i true }.tell
          (.item (some i)) := by
  cases hitems : queue.items with
  | nil => exact tell hq _ fun _ _ ↦ rfl
  | cons i rest =>
    refine ⟨⟨.item (some i), [], some { queue with items := rest }, some i⟩, ⟨?_, ?_⟩,
      fun _ _ ↦ rfl⟩
    · rintro _ ⟨⟩
      exact hitems ▸ List.mem_cons_self
    · rintro _ ⟨⟩ j hj
      exact .inl (hitems ▸ List.mem_cons_of_mem i hj)

theorem takeOut (hq : a.queue? q = some queue) {refusal : ListStore → Store.Answer}
    (hrefusal : ∀ b, Alike q argument a b → refusal b = refusal a) :
    Local a q queue argument fun b ↦
      if i ∈ queue.items then
        (b.put q (some { queue with items := queue.items.erase i })).tell (.item (some i))
      else b.tell (refusal b) := by
  by_cases hi : i ∈ queue.items
  · simp only [hi, ↓reduceIte]
    refine ⟨⟨.item (some i), [], some { queue with items := queue.items.erase i }, none⟩,
      ⟨nofun, ?_⟩, fun _ _ ↦ rfl⟩
    rintro _ ⟨⟩ j hj
    exact .inl (List.mem_of_mem_erase hj)
  · simp only [hi, ↓reduceIte]
    exact tell hq _ fun b hb ↦ congrArg b.tell (hrefusal b hb)

theorem perform {op : Operation} (htarget : op.target? = some q) (hq : a.queue? q = some queue) :
    Local a q queue op.argument? (·.perform op) := by
  cases op with
  | push p i =>
    cases htarget
    exact withQueue hq (withItem hq (push hq))
  | pop p =>
    cases htarget
    exact withQueue hq (pop hq)
  | unlink p i =>
    cases htarget
    refine withQueue hq (withItem hq (takeOut hq fun b hb ↦ ?_))
    rw [state, state, hb.owner i rfl]
  | remove p i =>
    cases htarget
    exact withQueue hq (withItem hq (takeOut hq fun _ _ ↦ rfl))
  | destroy p =>
    cases htarget
    exact withQueue hq (drop _)
  | drop p =>
    cases htarget
    exact withQueue hq (drop _)
  | isEmpty p | id p | describe p =>
    cases htarget
    exact withQueue hq (tell hq _ fun _ _ ↦ rfl)
  | _ => cases htarget

end Local

theorem put_comm (hne : q ≠ p) (first second : Option ListQueue) :
    (a.put q first).put p second = (a.put p second).put q first := by
  simp only [put, List.set_comm _ _ hne]

theorem owner?_put (hq : a.queue? q = some queue) (hi : i ∉ queue.items)
    (hnew : ∀ b, new = some b → i ∉ b.items) : (a.put q new).owner? i = a.owner? i := by
  have hput (o : Option ListQueue) (ho : ∀ b, o = some b → i ∉ b.items) :
      (a.put q o).owner? i =
        ({ a with queues := a.queues.take q }.owner? i).or
          ({ a with queues := a.queues.drop (q + 1) }.owner? i) := by
    have hnone : (o.filter (i ∈ ·.items)).map (·.id) = none := by
      cases o with
      | none => rfl
      | some b => simp [ho b rfl]
    rw [owner?, put, List.set_eq_take_append_cons_drop, if_pos (lt_length_of_queue? hq),
      List.findSome?_append, List.findSome?_cons, hnone]
    rfl
  have hkept := hput (some queue) fun b hb ↦ Option.some.inj hb ▸ hi
  rw [put_self hq] at hkept
  rw [hput new hnew, hkept]

namespace Effect

variable {e e' : Effect}

theorem handOut_comm (e e' : Effect) (held : List Bool) :
    e'.handOut (e.handOut held) = e.handOut (e'.handOut held) := by
  unfold handOut
  cases e.given with
  | none => rfl
  | some i =>
    cases e'.given with
    | none => rfl
    | some j =>
      by_cases hij : i = j
      · rw [hij]
      · exact List.set_comm _ _ hij

theorem queue?_apply_of_ne (e : Effect) (hne : p ≠ q) :
    (e.apply q a).after.queue? p = a.queue? p := queue?_put_of_ne hne.symm

theorem apply_comm (e e' : Effect) (hne : q ≠ p) :
    (e'.apply p (e.apply q a).after).after = (e.apply q (e'.apply p a).after).after := by
  have hqueues := congrArg ListStore.queues (put_comm (a := a) hne e.queue e'.queue)
  simp only [apply, put] at hqueues ⊢
  rw [hqueues, handOut_comm]

/-- An effect on one queue is nothing to an operation on another one, unless that is given an
element which the effect concerns. -/
theorem Within.alike (h : e.Within queue argument) (hq : a.queue? q = some queue) (hne : p ≠ q)
    {argument' : Option Item} (hout : ∀ i, argument' = some i → i ∉ queue.items)
    (hother : ∀ i, argument' = some i → argument ≠ some i) :
    Alike p argument' a (e.apply q a).after := by
  refine ⟨e.queue?_apply_of_ne hne, fun i hi ↦ ?_, fun i hi ↦ ?_⟩
  · have hgiven : e.given ≠ some i := fun hg ↦ hout i hi (h.given i hg)
    simp only [apply, handOut, ListStore.holds]
    cases hg : e.given with
    | none => rfl
    | some j =>
      have hji : j ≠ i := fun he ↦ hgiven (he ▸ hg)
      rw [List.getElem?_set_ne hji]
  · refine owner?_put hq (hout i hi) fun b hb hmem ↦ ?_
    exact (h.items b hb i hmem).elim (hout i hi) (hother i hi)

end Effect

namespace Represents

theorem get_eq_get (hr : Represents a s) (hr' : Represents a' s')
    (hsame : ∀ p ≠ q, a'.queue? p = a.queue? p) (hi : i ∉ s.store.contents q)
    (hi' : i ∉ s'.store.contents q) : s'.store.links.get i = s.store.links.get i := by
  rw [hr.mem_contents_iff] at hi
  rw [hr'.mem_contents_iff] at hi'
  cases ho : a.owner? i with
  | none =>
    have ho' : a'.owner? i = none := by
      refine owner?_eq_none_iff.2 fun p b hp hmem ↦ ?_
      by_cases hpq : p = q
      · exact hi' ⟨b, hpq ▸ hp, hmem⟩
      · exact owner?_eq_none_iff.1 ho p b ((hsame p hpq).symm.trans hp) hmem
    rw [hr.unlinked ho, hr'.unlinked ho']
  | some id =>
    obtain ⟨p, b, hp, -, hmem⟩ := exists_of_owner?_eq_some ho
    have hpq : p ≠ q := fun he ↦ hi ⟨b, he ▸ hp, hmem⟩
    exact (hr'.segments ((hsame p hpq).trans hp)).get_eq_get (hr.segments hp) hmem

theorem apply_effect (hr : Represents a s) {op : Operation} (htarget : op.target? = some q)
    {e : Effect} (heffect : a.perform op = e.apply q a) :
    (s.perform op).shown = (e.answer, e.notes) ∧
      Represents (e.apply q a).after (s.perform op).after := by
  have hnew : op ≠ .newQueue := by
    rintro rfl
    cases htarget
  have hagree := agree_perform hr op (Store.quiet_perform hnew).exhausted
  rw [heffect] at hagree
  exact ⟨Prod.ext hagree.answer hagree.notes, hagree.represents⟩

end Represents

end ListStore

namespace Store

/-- Nothing has changed but one queue and the elements that were in it or are in it now. -/
structure ChangedOnly (q : Nat) (s t : Store) : Prop where
  queues : ∀ p ≠ q, t.queue? p = s.queue? p
  links : ∀ i, i ∉ s.contents q → i ∉ t.contents q → t.links.get i = s.links.get i

end Store

namespace ListStore.Represents

open Store (Session Operation)

variable {a : ListStore} {s : Session} {p q : Nat} {queue other : ListQueue} {op op' : Operation}

theorem changedOnly (hr : Represents a s) (hq : a.queue? q = some queue)
    (htarget : op.target? = some q) : s.store.ChangedOnly q (s.perform op).after.store := by
  obtain ⟨e, -, heffect⟩ := Local.perform htarget hq
  obtain ⟨-, hr'⟩ := hr.apply_effect htarget (heffect a (.refl _ _ _))
  have hsame (p : Nat) (hne : p ≠ q) := e.queue?_apply_of_ne (a := a) hne
  refine ⟨fun p hne ↦ ?_, fun i ↦ hr.get_eq_get hr' hsame⟩
  rw [hr'.queue?_eq, hr.queue?_eq, hsame p hne]

theorem perform_comm (hr : Represents a s) (hq : a.queue? q = some queue)
    (hp : a.queue? p = some other) (hne : q ≠ p) (htarget : op.target? = some q)
    (htarget' : op'.target? = some p)
    (hnames : ∀ i, op.argument? = some i → op'.argument? ≠ some i)
    (hout : ∀ i, op.argument? = some i → i ∉ other.items)
    (hout' : ∀ i, op'.argument? = some i → i ∉ queue.items) :
    let first := s.perform op
    let first' := s.perform op'
    (first'.after.perform op).shown = first.shown ∧ (first.after.perform op').shown = first'.shown ∧
      (first.after.perform op').after = (first'.after.perform op).after := by
  intro first first'
  obtain ⟨e, hwithin, heffect⟩ := Local.perform htarget hq
  obtain ⟨e', hwithin', heffect'⟩ := Local.perform htarget' hp
  obtain ⟨hshown, hr₁⟩ := hr.apply_effect htarget (heffect a (.refl _ _ _))
  obtain ⟨hshown', hr₁'⟩ := hr.apply_effect htarget' (heffect' a (.refl _ _ _))
  have halike := hwithin'.alike hp hne hout fun i hi hi' ↦ hnames i hi hi'
  have halike' := hwithin.alike hq hne.symm hout' fun i hi' hi ↦ hnames i hi hi'
  obtain ⟨hlater, hr₂⟩ := hr₁'.apply_effect htarget (heffect _ halike)
  obtain ⟨hlater', hr₂'⟩ := hr₁.apply_effect htarget' (heffect' _ halike')
  rw [e.apply_comm e' hne] at hr₂'
  exact ⟨hlater.trans hshown.symm, hlater'.trans hshown'.symm, hr₂'.unique hr₂⟩

end ListStore.Represents

namespace Store

/-- In every store that operations lead to without running out of ids, an operation on a queue
leaves the other queues and their elements alone. Two operations on different queues, neither of
which is given what the other is given or the other's queue holds, can be swapped. -/
theorem queues_apart (ops : List Operation)
    (hids : ∀ r ∈ Session.run ops {}, r.answer ≠ .idsExhausted) {q : Nat} {queue : Queue}
    (hq : (Session.reach ops {}).store.queue? q = some queue) :
    let s := Session.reach ops {}
    ∀ op : Operation, op.target? = some q →
      s.store.ChangedOnly q (s.perform op).after.store ∧
      ∀ p other op', s.store.queue? p = some other → q ≠ p → op'.target? = some p →
        (∀ i, op.argument? = some i → op'.argument? ≠ some i ∧ i ∉ s.store.contents p) →
        (∀ i, op'.argument? = some i → i ∉ s.store.contents q) →
        let first := s.perform op
        let first' := s.perform op'
        (first'.after.perform op).shown = first.shown ∧
          (first.after.perform op').shown = first'.shown ∧
          (first.after.perform op').after = (first'.after.perform op).after := by
  intro s op htarget
  obtain ⟨a, hr⟩ := ListStore.Represents.of_reach hids
  obtain ⟨list, hlist, rfl⟩ := hr.exists_list hq
  refine ⟨hr.changedOnly hlist htarget, fun p other op' hp hne htarget' hout hout' ↦ ?_⟩
  obtain ⟨list', hlist', rfl⟩ := hr.exists_list hp
  refine hr.perform_comm hlist hlist' hne htarget htarget' (fun i hi ↦ (hout i hi).1)
    (fun i hi ↦ ?_) fun i hi ↦ ?_
  · exact hr.contents_eq hlist' ▸ (hout i hi).2
  · exact hr.contents_eq hlist ▸ hout' i hi

theorem queues_apart_of_two :
    let ops : List Operation := [.newQueue, .newQueue, .newItem, .newItem, .newItem, .newItem,
      .push 0 0, .push 0 1, .push 1 2]
    let s := Session.reach ops {}
    let first := s.perform (.unlink 0 0)
    let first' := s.perform (.push 1 3)
    (∀ r ∈ Session.run ops {}, r.answer ≠ .idsExhausted) ∧
      s.store.ChangedOnly 0 first.after.store ∧
      (first'.after.perform (.unlink 0 0)).shown = (.item (some 0), []) ∧
      (first.after.perform (.push 1 3)).shown = (.done, []) ∧
      (first.after.perform (.push 1 3)).after = (first'.after.perform (.unlink 0 0)).after := by
  intro ops s first first'
  have hids : ∀ r ∈ Session.run ops {}, r.answer ≠ .idsExhausted := by decide
  have hq : s.store.queue? 0 = some ⟨⟨1, by decide⟩, some 0, some 1⟩ := by decide
  have hp : s.store.queue? 1 = some ⟨⟨2, by decide⟩, some 2, some 2⟩ := by decide
  have hcontents : s.store.contents 0 = [0, 1] := by decide +kernel
  have hcontents' : s.store.contents 1 = [2] := by decide +kernel
  obtain ⟨honly, hswap⟩ := queues_apart ops hids hq (.unlink 0 0) rfl
  refine ⟨hids, honly, hswap 1 _ (.push 1 3) hp (by decide) rfl ?_ ?_⟩
  · rintro _ ⟨⟩
    exact ⟨by decide, by rw [hcontents']; decide⟩
  · rintro _ ⟨⟩
    rw [hcontents]
    decide

end Store

end SyncKit
