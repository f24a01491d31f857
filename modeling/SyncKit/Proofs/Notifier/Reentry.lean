import Mathlib.Data.List.DropRight
import SyncKit.Proofs.Notifier.Delivering

namespace SyncKit

def Verdict.accepts : Verdict → Bool
  | .accepted _ => true
  | _ => false

namespace Registration

def notifies (r : Registration) : Bool :=
  match r.task with
  | .notify _ => true
  | _ => false

def panics (r : Registration) : Bool :=
  match r.task with
  | .act (.panic _) => true
  | _ => false

def made (r : Registration) : List Registration :=
  match r.task with
  | .act (.register name payload) => [⟨.act (.send name), payload⟩]
  | _ => []

/-- What tasks that ran registered since the last of them that notified. -/
def pending (ran : List Registration) : List Registration :=
  (ran.rtakeWhile (!·.notifies)).flatMap made

@[simp] theorem pending_nil : pending [] = [] := rfl

theorem pending_concat_of_notifies {r : Registration} (hr : r.notifies = true)
    (ran : List Registration) : pending (ran ++ [r]) = [] := by
  rw [pending, List.rtakeWhile_concat_neg _ _ _ (by simp [hr])]
  rfl

theorem pending_concat {r : Registration} (hr : r.notifies = false) (ran : List Registration) :
    pending (ran ++ [r]) = pending ran ++ r.made := by
  rw [pending, List.rtakeWhile_concat_pos _ _ _ (by simp [hr]), List.flatMap_append]
  simp [pending]

theorem sends_of_pending {ran : List Registration} {r : Registration} (hr : r ∈ pending ran) :
    ∃ name, r.task = .act (.send name) := by
  obtain ⟨maker, -, hmade⟩ := List.mem_flatMap.mp hr
  unfold made at hmade
  split at hmade
  · obtain rfl := List.mem_singleton.mp hmade
    exact ⟨_, rfl⟩
  · cases hmade

end Registration

namespace Notifier

open Registration (pending pending_nil pending_concat pending_concat_of_notifies sends_of_pending)

/-- What a notification goes through for one of its registrations: the notification that the task
asks for, if it does, and then the dispatch. -/
structure Turn where
  inner : List Happening
  dispatch : Dispatch

def Turn.happenings (t : Turn) : List Happening := t.inner ++ [.dispatched t.dispatch]

/-- Whether the task of a registration will accept its event. No task opens or closes a channel. -/
def accepts (n : Notifier) (r : Registration) : Bool :=
  match r.task with
  | .act (.send name) => decide (n.channels name ≠ .closed)
  | .act .refuse => false
  | .act (.panic _) => false
  | _ => true

def sending (n : Notifier) (sender : String) (batch : List Registration) : List Happening :=
  .began sender batch ::
    batch.map (fun r ↦ .dispatched ⟨sender, r, if n.accepts r then .accepted none else .refused⟩) ++
    [.finished (batch.countP n.accepts) batch.length]

def noted (n : Notifier) (ran : List Registration) (r : Registration) : Option Nat :=
  match r.task with
  | .act .count => some (pending ran).length
  | .act (.register _ _) => some ((pending ran).length + 1)
  | .notify _ => some ((pending ran).countP n.accepts)
  | _ => none

def verdict (n : Notifier) (ran : List Registration) (r : Registration) : Verdict :=
  if n.accepts r then .accepted (n.noted ran r) else if r.panics then .panicked else .refused

/-- The turn of a registration, after those that ran. A task that notifies gives an event to each
registration that earlier tasks made and no earlier notification took. -/
def turn (n : Notifier) (sender : String) (ran : List Registration) (r : Registration) : Turn where
  inner :=
    match r.task with
    | .notify again => n.sending again (pending ran)
    | _ => []
  dispatch := ⟨sender, r, n.verdict ran r⟩

def turns (n : Notifier) (sender : String) (ran batch : List Registration) : List Turn :=
  batch.mapIdx fun k r ↦ n.turn sender (ran ++ batch.take k) r

structure Midway (n : Notifier) (ran : List Registration) (m : Notifier) : Prop where
  accepts : m.accepts = n.accepts
  waiting : m.waiting = pending ran

variable {n m m' : Notifier} {sender payload : String} {ran batch rest : List Registration}
variable {r : Registration} {d : Delivery}

theorem midway_nil (n : Notifier) : Midway n [] { n with waiting := [] } := ⟨rfl, rfl⟩

theorem turns_cons : n.turns sender ran (r :: rest) =
    n.turn sender ran r :: n.turns sender (ran ++ [r]) rest := by
  simp [turns, List.mapIdx_cons]

theorem accepts_verdict (n : Notifier) (ran : List Registration) (r : Registration) :
    (n.verdict ran r).accepts = n.accepts r := by
  unfold verdict
  split
  · next h => exact h.symm
  · next h =>
    rw [eq_false_of_ne_true h]
    split <;> rfl

theorem accepts_setChannel {name : String} {c : Channel} (hn : n.channels name ≠ .closed)
    (hc : c ≠ .closed) : (n.setChannel name c).accepts = n.accepts := by
  funext r
  obtain ⟨task, payload⟩ := r
  cases task with
  | notify again => rfl
  | act a =>
    cases a with
    | send other =>
      by_cases ho : other = name
      · subst ho
        simp [accepts, setChannel, hn, hc]
      · simp [accepts, setChannel, ho]
    | refuse => rfl
    | count => rfl
    | register name payload => rfl
    | panic message => rfl

theorem accepts_of_performed {a : Action} {verdict : Verdict}
    (h : a.perform ⟨sender, payload⟩ m = (.ok verdict, m')) : m'.accepts = m.accepts := by
  cases a with
  | send name =>
    simp only [Action.perform] at h
    split at h
    · next hc =>
      cases h
      exact accepts_setChannel (by simp [hc]) (by simp)
    · cases h
      rfl
  | refuse => cases h; rfl
  | count => cases h; rfl
  | register name other => cases h; rfl
  | panic message => cases h

theorem performed_send {name : String} {verdict : Verdict}
    (h : (Action.send name).perform ⟨sender, payload⟩ m = (.ok verdict, m')) :
    verdict = (if m.accepts ⟨.act (.send name), payload⟩ then .accepted none else .refused) ∧
      m'.waiting = m.waiting := by
  simp only [Action.perform] at h
  split at h
  · next hc => cases h; simp [accepts, setChannel, hc]
  · next hc => cases h; simp [accepts, hc]

theorem Midway.verdict_eq {a : Action} {verdict : Verdict} (hm : Midway n ran m)
    (h : a.perform ⟨sender, payload⟩ m = (.ok verdict, m')) :
    verdict = n.verdict ran ⟨.act a, payload⟩ := by
  unfold Notifier.verdict noted
  rw [← hm.accepts, ← hm.waiting]
  cases a with
  | send name => exact (performed_send h).1
  | refuse => cases h; rfl
  | count => cases h; rfl
  | register name other => cases h; simp [Notifier.accepts, Notifier.register]
  | panic message => cases h

theorem Midway.acted {a : Action} {verdict : Verdict} (hm : Midway n ran m)
    (h : a.perform ⟨sender, payload⟩ m = (.ok verdict, m')) :
    Midway n (ran ++ [⟨.act a, payload⟩]) m' where
  accepts := (accepts_of_performed h).trans hm.accepts
  waiting := by
    rw [pending_concat rfl, ← hm.waiting, ← Action.waiting_append_made h]
    cases a <;> rfl

theorem result_following_eq (before : List Happening) (later : Delivery) (d : Dispatch) :
    (later.following before d).result =
      later.result.map (· + if d.verdict.accepts then 1 else 0) := by
  obtain ⟨sender, registration, verdict⟩ := d
  obtain ⟨result, happenings, after⟩ := later
  cases verdict <;> cases result <;> rfl

theorem Delivers.sent (h : Delivers sender batch m d)
    (hbatch : ∀ r ∈ batch, ∃ name, r.task = .act (.send name)) :
    d.result = .ok (batch.countP m.accepts) ∧
      d.happenings = batch.map (fun r ↦
        .dispatched ⟨sender, r, if m.accepts r then .accepted none else .refused⟩) ∧
      d.after.accepts = m.accepts ∧ d.after.waiting = m.waiting := by
  induction h with
  | nil sender m => exact ⟨rfl, rfl, rfl, rfl⟩
  | @acted sender payload a rest m m' verdict later hperform _ ih =>
    obtain ⟨name, htask⟩ := hbatch _ List.mem_cons_self
    cases htask
    obtain ⟨hverdict, hwaiting⟩ := performed_send hperform
    have haccepts := accepts_of_performed hperform
    obtain ⟨hresult, hlog, hafter, hleft⟩ := ih fun r hr ↦ hbatch r (List.mem_cons_of_mem _ hr)
    rw [haccepts] at hresult hlog hafter
    refine ⟨?_, ?_, hafter, hleft.trans hwaiting⟩
    · rw [result_following_eq, hresult, hverdict, List.countP_cons]
      cases m.accepts ⟨.act (.send name), payload⟩ <;> rfl
    · rw [Delivery.happenings_following, hlog, hverdict]
      rfl
  | panicked rest hperform =>
    obtain ⟨rfl, rfl⟩ := Action.eq_panic_of_error hperform
    obtain ⟨name, htask⟩ := hbatch _ List.mem_cons_self
    cases htask
  | nested payload _ _ _ _ _ =>
    obtain ⟨name, htask⟩ := hbatch _ List.mem_cons_self
    cases htask
  | cutShort sender payload rest _ _ _ =>
    obtain ⟨name, htask⟩ := hbatch _ List.mem_cons_self
    cases htask

theorem Midway.notified {again : String} {inner : Delivery} (hm : Midway n ran m)
    (h : Delivers again m.waiting { m with waiting := [] } inner) (payload : String) :
    inner.result = .ok ((pending ran).countP n.accepts) ∧
      (inner.framed again m.waiting).happenings = n.sending again (pending ran) ∧
      Midway n (ran ++ [⟨.notify again, payload⟩]) inner.after := by
  have haccepts : ({ m with waiting := [] } : Notifier).accepts = n.accepts := hm.accepts
  obtain ⟨hresult, hlog, hafter, hleft⟩ := h.sent fun r hr ↦ sends_of_pending (hm.waiting ▸ hr)
  rw [haccepts, hm.waiting] at hresult
  rw [haccepts, hm.waiting] at hlog
  refine ⟨hresult, ?_, hafter.trans haccepts, ?_⟩
  · rw [Delivery.happenings_framed, Delivery.closing, hresult, hlog, hm.waiting]
    rfl
  · rw [hleft, pending_concat_of_notifies rfl]

/-- A registration whose task does not panic has its turn, and the rest of the batch follows. -/
theorem Delivers.first_turn (h : Delivers sender (r :: rest) m d) (hm : Midway n ran m)
    (hr : r.panics = false) :
    ∃ m' later, Delivers sender rest m' later ∧ Midway n (ran ++ [r]) m' ∧
      d = later.following (n.turn sender ran r).inner (n.turn sender ran r).dispatch := by
  cases h with
  | @acted sender payload a rest m m' verdict later hperform hlater =>
    refine ⟨m', later, hlater, hm.acted hperform, ?_⟩
    rw [hm.verdict_eq hperform]
    rfl
  | panicked rest hperform =>
    obtain ⟨rfl, rfl⟩ := Action.eq_panic_of_error hperform
    cases hr
  | @nested sender again payload rest m delivered inner later hinner hresult hlater =>
    obtain ⟨hcount, hlog, hafter⟩ := hm.notified hinner payload
    refine ⟨inner.after, later, hlater, hafter, ?_⟩
    cases hresult.symm.trans hcount
    rw [hlog]
    rfl
  | cutShort sender payload rest hinner hresult =>
    cases hresult.symm.trans (hm.notified hinner payload).1

structure Passed (n : Notifier) (sender : String) (ran batch : List Registration)
    (d later : Delivery) : Prop where
  result : d.result = later.result.map (· + batch.countP n.accepts)
  happenings : d.happenings =
    (n.turns sender ran batch).flatMap Turn.happenings ++ later.happenings
  after : d.after = later.after

theorem Passed.nil (n : Notifier) (sender : String) (ran : List Registration) (d : Delivery) :
    Passed n sender ran [] d d where
  result := by cases d.result <;> rfl
  happenings := rfl
  after := rfl

theorem Passed.cons {later last : Delivery} (h : Passed n sender (ran ++ [r]) batch later last) :
    Passed n sender ran (r :: batch)
      (later.following (n.turn sender ran r).inner (n.turn sender ran r).dispatch) last where
  result := by
    rw [result_following_eq, h.result, List.countP_cons]
    change Except.map (· + if (n.verdict ran r).accepts then 1 else 0) _ = _
    rw [accepts_verdict]
    cases last.result with
    | error message => rfl
    | ok count => exact congrArg Except.ok (Nat.add_assoc _ _ _)
  happenings := by
    rw [turns_cons, List.flatMap_cons, Delivery.happenings_following, h.happenings,
      Turn.happenings]
    simp
  after := h.after

theorem Delivers.passed (h : Delivers sender (batch ++ rest) m d) (hm : Midway n ran m)
    (hbatch : ∀ r ∈ batch, r.panics = false) :
    ∃ m' later, Delivers sender rest m' later ∧ Midway n (ran ++ batch) m' ∧
      Passed n sender ran batch d later := by
  induction batch generalizing ran m d with
  | nil => exact ⟨m, d, h, by rwa [List.append_nil], .nil n sender ran d⟩
  | cons r batch ih =>
    obtain ⟨m', later, hlater, hm', rfl⟩ := h.first_turn hm (hbatch r List.mem_cons_self)
    obtain ⟨m'', last, hlast, hm'', hpassed⟩ :=
      ih hlater hm' fun r' hr' ↦ hbatch r' (List.mem_cons_of_mem r hr')
    exact ⟨m'', last, hlast, by rwa [List.append_assoc] at hm'', hpassed.cons⟩

theorem registrations_turns (n : Notifier) (sender : String) (ran batch : List Registration) :
    (n.turns sender ran batch).map (·.dispatch.registration) = batch := by
  induction batch generalizing ran with
  | nil => rfl
  | cons r batch ih =>
    rw [turns_cons, List.map_cons, ih]
    rfl

theorem countP_turns (n : Notifier) (sender : String) (ran batch : List Registration) :
    (n.turns sender ran batch).countP (·.dispatch.verdict.accepts) = batch.countP n.accepts := by
  induction batch generalizing ran with
  | nil => rfl
  | cons r batch ih =>
    rw [turns_cons, List.countP_cons, List.countP_cons, ih]
    change _ + (if (n.verdict ran r).accepts then 1 else 0) = _
    rw [accepts_verdict]

theorem notes_turns (turns : List Turn) :
    (turns.flatMap Turn.happenings).flatMap Happening.notes =
      turns.flatMap (·.inner.flatMap Happening.notes) := by
  rw [List.flatMap_assoc]
  refine List.flatMap_congr fun t _ ↦ ?_
  rw [Turn.happenings, List.flatMap_append]
  exact List.append_nil _

theorem turns_concat (n : Notifier) (sender : String) (before ran : List Registration)
    (r : Registration) :
    n.turns sender before (ran ++ [r]) =
      n.turns sender before ran ++ [n.turn sender (before ++ ran) r] := by
  induction ran generalizing before with
  | nil => simp [turns]
  | cons first ran ih =>
    rw [List.cons_append, turns_cons, turns_cons, ih, List.append_assoc]
    rfl

theorem notes_finished (delivered total : Nat) (h : delivered ≤ total) :
    Happening.notes (.finished delivered total) =
      .debug ("Destroy notification delivered " ++ toString delivered ++ " of " ++
        toString total ++ " events") ::
      (if delivered < total then
        [.warn (toString (total - delivered) ++
          " destroy events could not be delivered and were dropped")]
      else []) := by
  refine congrArg (_ :: ·) ?_
  by_cases hlt : delivered < total
  · rw [if_pos hlt, if_neg (Nat.ne_of_lt hlt)]
  · rw [if_neg hlt, if_pos (Nat.le_antisymm h (Nat.not_lt.mp hlt))]

/-- How a notification ends in which no task panics. -/
structure Finishes (n : Notifier) (sender : String) (delivered : Nat) (d : Delivery) : Prop where
  result : d.result = .ok delivered
  counted : delivered = (n.turns sender [] n.waiting).countP (·.dispatch.verdict.accepts)
  le_length : delivered ≤ n.waiting.length
  own : (n.turns sender [] n.waiting).map (·.dispatch.registration) = n.waiting
  happenings : d.happenings = .began sender n.waiting ::
    (n.turns sender [] n.waiting).flatMap Turn.happenings ++
    [.finished delivered n.waiting.length]
  /-- What nested notifications write is followed by what this one writes. -/
  notes : d.happenings.flatMap Happening.notes =
    (n.turns sender [] n.waiting).flatMap (·.inner.flatMap Happening.notes) ++
    .debug ("Destroy notification delivered " ++ toString delivered ++ " of " ++
      toString n.waiting.length ++ " events") ::
    (if delivered < n.waiting.length then
      [.warn (toString (n.waiting.length - delivered) ++
        " destroy events could not be delivered and were dropped")]
    else [])
  left : d.after.waiting = pending n.waiting

/-- How a notification ends in which the task of the last registration that ran panics. -/
structure Breaks (n : Notifier) (sender message : String) (ran lost : List Registration)
    (d : Delivery) : Prop where
  result : d.result = .error message
  own : (n.turns sender [] ran).map (·.dispatch.registration) ++ lost = n.waiting
  happenings : d.happenings = .began sender n.waiting ::
    (n.turns sender [] ran).flatMap Turn.happenings ++ [.discarded lost]
  /-- Only nested notifications write anything. -/
  notes : d.happenings.flatMap Happening.notes =
    (n.turns sender [] ran).flatMap (·.inner.flatMap Happening.notes)
  left : d.after.waiting = pending ran

theorem finishes (hn : ∀ r ∈ n.waiting, r.panics = false) (sender : String) :
    Finishes n sender (n.waiting.countP n.accepts) (n.notify sender) := by
  obtain ⟨d, hd, hframed⟩ := n.notify_framed sender
  rw [← n.waiting.append_nil] at hd
  obtain ⟨m', later, hlater, hm', hpassed⟩ := hd.passed (midway_nil n) hn
  cases hlater
  have hresult : d.result = .ok (n.waiting.countP n.accepts) := by
    rw [hpassed.result]
    exact congrArg Except.ok (Nat.zero_add _)
  have hlog : (n.notify sender).happenings = .began sender n.waiting ::
      (n.turns sender [] n.waiting).flatMap Turn.happenings ++
      [.finished (n.waiting.countP n.accepts) n.waiting.length] := by
    rw [hframed, Delivery.happenings_framed, Delivery.closing, hresult, hpassed.happenings]
    simp
  constructor
  case result => rw [hframed]; exact hresult
  case counted => exact (countP_turns n sender [] n.waiting).symm
  case le_length => exact List.countP_le_length
  case own => exact registrations_turns n sender [] n.waiting
  case happenings => exact hlog
  case notes =>
    rw [hlog, List.cons_append, List.flatMap_cons, List.flatMap_append, notes_turns,
      List.flatMap_singleton, notes_finished _ _ List.countP_le_length]
    rfl
  case left =>
    rw [hframed, Delivery.after_framed, hpassed.after, hm'.waiting, List.nil_append]

theorem breaks {message payload : String} {lost : List Registration}
    (hn : n.waiting = ran ++ ⟨.act (.panic message), payload⟩ :: lost)
    (hran : ∀ r ∈ ran, r.panics = false) (sender : String) :
    Breaks n sender message (ran ++ [⟨.act (.panic message), payload⟩]) lost
      (n.notify sender) := by
  obtain ⟨d, hd, hframed⟩ := n.notify_framed sender
  rw [hn] at hd
  obtain ⟨m', later, hlater, hm', hpassed⟩ := hd.passed (midway_nil n) hran
  cases hlater with
  | acted hperform _ => cases hperform
  | panicked lost hperform =>
    cases hperform
    have hresult : d.result = .error message := hpassed.result
    have hlog : (n.notify sender).happenings = .began sender n.waiting ::
        (n.turns sender [] (ran ++ [⟨.act (.panic message), payload⟩])).flatMap Turn.happenings ++
        [.discarded lost] := by
      rw [hframed, Delivery.happenings_framed, Delivery.closing, hresult, hpassed.happenings,
        turns_concat, List.flatMap_append]
      simp [Turn.happenings, turn, verdict, accepts, Registration.panics]
    constructor
    case result => rw [hframed]; exact hresult
    case own => rw [registrations_turns, hn, List.append_assoc, List.singleton_append]
    case happenings => exact hlog
    case notes =>
      rw [hlog, List.cons_append, List.flatMap_cons, List.flatMap_append, notes_turns]
      exact List.append_nil _
    case left =>
      rw [hframed, Delivery.after_framed, hpassed.after, pending_concat rfl]
      exact hm'.waiting.trans (List.append_nil _).symm

/-- Every registration that waited has its turn, in order, up to one whose task panics. What tasks
register meanwhile goes to the next of them that notifies, or waits for the next notification. -/
theorem notifies_in_turns (sender : String) (n : Notifier) :
    (∀ k, ∀ r ∈ pending (n.waiting.take k), ∃ name, r.task = .act (.send name)) ∧
      ((∀ r ∈ n.waiting, r.panics = false) →
        Finishes n sender (n.waiting.countP n.accepts) (n.notify sender)) ∧
      ∀ ran message payload lost, n.waiting = ran ++ ⟨.act (.panic message), payload⟩ :: lost →
        (∀ r ∈ ran, r.panics = false) →
        Breaks n sender message (ran ++ [⟨.act (.panic message), payload⟩]) lost
          (n.notify sender) :=
  ⟨fun _ _ ↦ sends_of_pending, fun hn ↦ finishes hn sender,
    fun _ _ _ _ hn hran ↦ breaks hn hran sender⟩

/-- The second task delivers what the first registered. What the third registers is left, whether
or not a task panics after it. -/
theorem notifies_in_turns_around_nested :
    let batch : List Registration := [⟨.act (.register "c" "early"), "p"⟩, ⟨.notify "inner", "q"⟩,
      ⟨.act (.register "c" "late"), "r"⟩, ⟨.act .refuse, "s"⟩]
    let n : Notifier := { waiting := batch }
    let broken : Notifier :=
      { waiting := batch ++ [⟨.act (.panic "no"), "t"⟩, ⟨.act .count, "u"⟩] }
    (∀ r ∈ batch, r.panics = false) ∧
      (n.notify "outer").result = .ok 3 ∧
      (n.notify "outer").after.waiting = [⟨.act (.send "c"), "late"⟩] ∧
      (broken.notify "outer").result = .error "no" ∧
      (broken.notify "outer").after.waiting = [⟨.act (.send "c"), "late"⟩] := by
  intro batch n broken
  have hbatch : ∀ r ∈ batch, r.panics = false := by decide
  obtain ⟨-, hfinishes, -⟩ := notifies_in_turns "outer" n
  obtain ⟨-, -, hbreaks⟩ := notifies_in_turns "outer" broken
  have hn := hfinishes hbatch
  have hb := hbreaks batch "no" "t" [⟨.act .count, "u"⟩] rfl hbatch
  exact ⟨hbatch, hn.result, hn.left, hb.result, hb.left⟩

end Notifier

end SyncKit
