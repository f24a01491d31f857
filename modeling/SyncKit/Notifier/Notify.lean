import SyncKit.Notifier.Basic

namespace SyncKit

def Action.perform (event : Event) (n : Notifier) : Action → Except String Verdict × Notifier
  | .send name =>
    match n.channels name with
    | .receiving buffer =>
      (.ok (.accepted none), n.setChannel name (.receiving (buffer ++ [event])))
    | .closed => (.ok .refused, n)
  | .refuse => (.ok .refused, n)
  | .count => (.ok (.accepted (some n.waiting.length)), n)
  | .register name payload =>
    let n := n.register ⟨.act (.send name), payload⟩
    (.ok (.accepted (some n.waiting.length)), n)
  | .panic message => (.error message, n)

namespace Registration

/-- How many dispatches a registration can lead to. -/
def weight (r : Registration) : Nat :=
  match r.task with
  | .act (.register _ _) => 2
  | _ => 1

def total : List Registration → Nat
  | [] => 0
  | r :: batch => r.weight + total batch

@[simp] theorem total_nil : total [] = 0 := rfl

@[simp] theorem total_cons (r : Registration) (batch : List Registration) :
    total (r :: batch) = r.weight + total batch := rfl

@[simp] theorem total_append (a b : List Registration) : total (a ++ b) = total a + total b := by
  induction a with
  | nil => exact (Nat.zero_add _).symm
  | cons r a ih => rw [List.cons_append, total_cons, total_cons, ih, Nat.add_assoc]

theorem weight_pos (r : Registration) : 0 < r.weight := by
  unfold weight
  split <;> omega

theorem total_waiting_lt_of_perform (event : Event) (n : Notifier) (a : Action) (payload : String) :
    total (a.perform event n).2.waiting < (mk (.act a) payload).weight + total n.waiting := by
  cases a with
  | send name =>
    unfold Action.perform
    simp only
    split <;> simp [Notifier.setChannel, weight]
  | register name payload => simp [Action.perform, Notifier.register, weight]; omega
  | refuse => simp [Action.perform, weight]
  | count => simp [Action.perform, weight]
  | panic message => simp [Action.perform, weight]

end Registration

structure Delivery where
  result : Except String Nat
  happenings : List Happening := []
  after : Notifier

namespace Delivery

def following (before : List Happening) (d : Dispatch) (later : Delivery) : Delivery :=
  { later with
    result := match d.verdict with
      | .accepted _ => later.result.map (· + 1)
      | _ => later.result
    happenings := before ++ .dispatched d :: later.happenings }

def ended (message : String) (before : List Happening) (d : Dispatch) (rest : List Registration)
    (n : Notifier) : Delivery :=
  { result := .error message
    happenings := before ++ [.dispatched d, .discarded rest]
    after := n }

def framed (sender : String) (batch : List Registration) (d : Delivery) : Delivery :=
  { d with
    happenings := .began sender batch :: d.happenings ++
      match d.result with
      | .ok delivered => [.finished delivered batch.length]
      | .error _ => [] }

@[simp] theorem after_following (before : List Happening) (d : Dispatch) (later : Delivery) :
    (later.following before d).after = later.after := rfl

end Delivery

namespace Notifier

open Registration (total total_nil total_cons weight_pos total_waiting_lt_of_perform)

/-- Dispatches a batch in order. A task may register or notify meanwhile, but what then waits
never weighs more than what was dispatched, and so this ends. -/
def deliver (sender : String) (batch : List Registration) (n : Notifier) :
    { d : Delivery // total d.after.waiting ≤ total batch + total n.waiting } :=
  match batch with
  | [] => ⟨{ result := .ok 0, after := n }, Nat.le_add_left _ _⟩
  | ⟨.act a, payload⟩ :: rest =>
    have hlt := total_waiting_lt_of_perform ⟨sender, payload⟩ n a payload
    match h : a.perform ⟨sender, payload⟩ n with
    | (.ok verdict, n') =>
      let later := deliver sender rest n'
      ⟨later.1.following [] ⟨sender, ⟨.act a, payload⟩, verdict⟩, by
        have := later.2
        simp only [h] at hlt
        simp only [Delivery.after_following, total_cons]
        omega⟩
    | (.error message, n') =>
      ⟨.ended message [] ⟨sender, ⟨.act a, payload⟩, .panicked⟩ rest n', by
        simp only [h] at hlt
        simp only [Delivery.ended, total_cons]
        omega⟩
  | ⟨.notify again, payload⟩ :: rest =>
    have hpos := weight_pos ⟨.notify again, payload⟩
    match deliver again n.waiting { n with waiting := [] } with
    | ⟨inner, hinner⟩ =>
      have hinner : total inner.after.waiting ≤ total n.waiting :=
        Nat.le_trans hinner (Nat.le_of_eq (Nat.add_zero _))
      let happenings := (inner.framed again n.waiting).happenings
      match inner.result with
      | .ok delivered =>
        let later := deliver sender rest inner.after
        ⟨later.1.following happenings
          ⟨sender, ⟨.notify again, payload⟩, .accepted (some delivered)⟩, by
          have := later.2
          simp only [Delivery.after_following, total_cons]
          omega⟩
      | .error message =>
        ⟨.ended message happenings ⟨sender, ⟨.notify again, payload⟩, .cutShort⟩ rest
          inner.after, by
          simp only [Delivery.ended, total_cons]
          omega⟩
termination_by total batch + total n.waiting
decreasing_by
  · simp only [h] at hlt
    simp only [total_cons]
    omega
  · simp only [total_nil, total_cons]
    omega
  · simp only [total_cons]
    omega

/-- Gives every waiting registration its event. The list is taken first: what is registered
meanwhile waits for the next notification. -/
def notify (sender : String) (n : Notifier) : Delivery :=
  (deliver sender n.waiting { n with waiting := [] }).1.framed sender n.waiting

end Notifier

end SyncKit
