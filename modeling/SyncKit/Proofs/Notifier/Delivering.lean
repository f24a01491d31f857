import SyncKit.Notifier.Session

namespace SyncKit

namespace Happening

def begun : Happening → List String
  | .began sender _ => [sender]
  | _ => []

def taken : Happening → List Registration
  | .began _ batch => batch
  | _ => []

def made : Happening → List Registration
  | .dispatched ⟨_, ⟨.act (.register name payload), _⟩, _⟩ => [⟨.act (.send name), payload⟩]
  | _ => []

def dispatches : Happening → List Dispatch
  | .dispatched d => [d]
  | _ => []

def calls : Happening → List String
  | .dispatched ⟨_, ⟨.notify again, _⟩, _⟩ => [again]
  | _ => []

def lost : Happening → List Registration
  | .discarded batch => batch
  | _ => []

def arrivals (name : String) : Happening → List Event
  | .dispatched ⟨sender, ⟨.act (.send channel), payload⟩, .accepted _⟩ =>
    if channel = name then [⟨sender, payload⟩] else []
  | _ => []

end Happening

namespace Delivery

def closing (total : Nat) (d : Delivery) : List Happening :=
  match d.result with
  | .ok delivered => [.finished delivered total]
  | .error _ => []

@[simp] theorem happenings_following (before : List Happening) (d : Dispatch) (later : Delivery) :
    (later.following before d).happenings = before ++ .dispatched d :: later.happenings := rfl

theorem result_following (before : List Happening) (d : Dispatch) (later : Delivery) :
    (∃ count count', later.result = .ok count ∧
      (later.following before d).result = .ok count') ∨
    ∃ message, later.result = .error message ∧
      (later.following before d).result = .error message := by
  obtain ⟨sender, registration, verdict⟩ := d
  obtain ⟨result, happenings, after⟩ := later
  cases result with
  | ok count => cases verdict <;> exact .inl ⟨count, _, rfl, rfl⟩
  | error message => cases verdict <;> exact .inr ⟨message, rfl, rfl⟩

@[simp] theorem happenings_ended (message : String) (before : List Happening) (d : Dispatch)
    (rest : List Registration) (n : Notifier) :
    (ended message before d rest n).happenings = before ++ [.dispatched d, .discarded rest] := rfl

@[simp] theorem after_ended (message : String) (before : List Happening) (d : Dispatch)
    (rest : List Registration) (n : Notifier) : (ended message before d rest n).after = n := rfl

theorem happenings_framed (sender : String) (batch : List Registration) (d : Delivery) :
    (d.framed sender batch).happenings =
      .began sender batch :: (d.happenings ++ d.closing batch.length) := rfl

theorem flatMap_framed {α : Type} {f : Happening → List α}
    (hf : ∀ delivered total, f (.finished delivered total) = []) (sender : String)
    (batch : List Registration) (d : Delivery) :
    (d.framed sender batch).happenings.flatMap f =
      f (.began sender batch) ++ d.happenings.flatMap f := by
  have hclosing : (d.closing batch.length).flatMap f = [] := by
    unfold closing
    split
    · simp [hf]
    · rfl
  rw [happenings_framed, List.flatMap_cons, List.flatMap_append, hclosing, List.append_nil]

@[simp] theorem after_framed (sender : String) (batch : List Registration) (d : Delivery) :
    (d.framed sender batch).after = d.after := rfl

end Delivery

section Perform

variable {n n' : Notifier} {a : Action} {sender payload name : String} {buffer : List Event}

/-- Only a task that is made to panics, and it leaves everything as it was. -/
theorem Action.eq_panic_of_error {event : Event} {message : String}
    (h : a.perform event n = (.error message, n')) : a = .panic message ∧ n' = n := by
  cases a with
  | panic m => cases h; exact ⟨rfl, rfl⟩
  | send channel =>
    simp only [perform] at h
    split at h <;> cases h
  | refuse => cases h
  | count => cases h
  | register channel payload => cases h

theorem Action.waiting_append_made {verdict : Verdict}
    (h : a.perform ⟨sender, payload⟩ n = (.ok verdict, n')) :
    n.waiting ++ Happening.made (.dispatched ⟨sender, ⟨.act a, payload⟩, verdict⟩) =
      n'.waiting := by
  cases a with
  | panic m => cases h
  | send channel =>
    simp only [perform] at h
    split at h <;> cases h <;> simp [Happening.made, Notifier.setChannel]
  | refuse => cases h; simp [Happening.made]
  | count => cases h; simp [Happening.made]
  | register channel payload => cases h; rfl

theorem Action.channels_of_ok {verdict : Verdict}
    (h : a.perform ⟨sender, payload⟩ n = (.ok verdict, n'))
    (hn : n.channels name = .receiving buffer) :
    n'.channels name = .receiving (buffer ++
      Happening.arrivals name (.dispatched ⟨sender, ⟨.act a, payload⟩, verdict⟩)) := by
  cases a with
  | panic m => cases h
  | send channel =>
    simp only [perform] at h
    by_cases hc : channel = name
    · subst hc
      rw [hn] at h
      cases h
      simp [Happening.arrivals, Notifier.setChannel]
    · split at h
      · cases h
        simp [Happening.arrivals, Notifier.setChannel, hc, Ne.symm hc, hn]
      · cases h
        simp [Happening.arrivals, hn]
  | refuse => cases h; simp [Happening.arrivals, hn]
  | count => cases h; simp [Happening.arrivals, hn]
  | register channel payload => cases h; simp [Happening.arrivals, Notifier.register, hn]

end Perform

namespace Notifier

inductive Delivers : String → List Registration → Notifier → Delivery → Prop
  | nil (sender : String) (n : Notifier) : Delivers sender [] n { result := .ok 0, after := n }
  | acted {sender payload : String} {a : Action} {rest : List Registration} {n n' : Notifier}
      {verdict : Verdict} {later : Delivery} :
      a.perform ⟨sender, payload⟩ n = (.ok verdict, n') → Delivers sender rest n' later →
      Delivers sender (⟨.act a, payload⟩ :: rest) n
        (later.following [] ⟨sender, ⟨.act a, payload⟩, verdict⟩)
  | panicked {sender payload message : String} {a : Action} {n n' : Notifier}
      (rest : List Registration) :
      a.perform ⟨sender, payload⟩ n = (.error message, n') →
      Delivers sender (⟨.act a, payload⟩ :: rest) n
        (.ended message [] ⟨sender, ⟨.act a, payload⟩, .panicked⟩ rest n')
  | nested {sender again : String} (payload : String) {rest : List Registration} {n : Notifier}
      {delivered : Nat} {inner later : Delivery} :
      Delivers again n.waiting { n with waiting := [] } inner → inner.result = .ok delivered →
      Delivers sender rest inner.after later →
      Delivers sender (⟨.notify again, payload⟩ :: rest) n
        (later.following (inner.framed again n.waiting).happenings
          ⟨sender, ⟨.notify again, payload⟩, .accepted (some delivered)⟩)
  | cutShort {again message : String} (sender payload : String) (rest : List Registration)
      {n : Notifier} {inner : Delivery} :
      Delivers again n.waiting { n with waiting := [] } inner → inner.result = .error message →
      Delivers sender (⟨.notify again, payload⟩ :: rest) n
        (.ended message (inner.framed again n.waiting).happenings
          ⟨sender, ⟨.notify again, payload⟩, .cutShort⟩ rest inner.after)

open Registration (total total_nil total_cons weight_pos total_waiting_lt_of_perform)

theorem delivers (sender : String) (batch : List Registration) (n : Notifier) :
    Delivers sender batch n (deliver sender batch n).1 := by
  match batch with
  | [] =>
    rw [deliver]
    exact .nil sender n
  | ⟨.act a, payload⟩ :: rest =>
    have hlt := total_waiting_lt_of_perform ⟨sender, payload⟩ n a payload
    rw [deliver]
    split
    · next verdict n' h => exact .acted h (delivers sender rest n')
    · next message n' h => exact .panicked rest h
  | ⟨.notify again, payload⟩ :: rest =>
    have hpos := weight_pos ⟨.notify again, payload⟩
    have hinner := delivers again n.waiting { n with waiting := [] }
    rw [deliver]
    cases hd : deliver again n.waiting { n with waiting := [] } with
    | mk inner hbound =>
      rw [hd] at hinner
      dsimp only
      split
      · next delivered hresult =>
        exact .nested payload hinner hresult (delivers sender rest inner.after)
      · next message hresult => exact .cutShort sender payload rest hinner hresult
termination_by total batch + total n.waiting
decreasing_by
  · rename_i h
    simp only [h, total_cons] at hlt ⊢
    omega
  · simp only [total_nil, total_cons]
    omega
  · rw [total_nil, Nat.add_zero] at hbound
    simp only [total_cons]
    omega

theorem notify_framed (sender : String) (n : Notifier) :
    ∃ d, Delivers sender n.waiting { n with waiting := [] } d ∧
      n.notify sender = d.framed sender n.waiting :=
  ⟨_, delivers sender n.waiting _, rfl⟩

namespace Delivers

open Happening Delivery

variable {sender : String} {batch : List Registration} {n : Notifier} {d : Delivery}

/-- What waited and what was registered meanwhile was taken by a notification within this one, or
still waits. -/
theorem waiting_append_made (h : Delivers sender batch n d) :
    n.waiting ++ d.happenings.flatMap made = d.happenings.flatMap taken ++ d.after.waiting := by
  induction h with
  | nil sender n => simp
  | @acted sender payload a rest n n' verdict later hperform _ ih =>
    have hmade := Action.waiting_append_made hperform
    simp only [happenings_following, List.nil_append, List.flatMap_cons, after_following,
      ← List.append_assoc, hmade, ih]
    rfl
  | panicked rest hperform =>
    obtain ⟨rfl, rfl⟩ := Action.eq_panic_of_error hperform
    simp [made, taken]
  | nested payload _ _ _ ih ih' =>
    -- The inner notification took all that waited. What it leaves waits while the rest goes on.
    rw [happenings_following, List.flatMap_append, List.flatMap_append,
      flatMap_framed fun _ _ ↦ rfl, flatMap_framed fun _ _ ↦ rfl]
    simp only [List.nil_append] at ih
    simp [made, taken, ih, ← ih']
  | cutShort sender payload rest _ _ ih =>
    rw [happenings_ended, List.flatMap_append, List.flatMap_append,
      flatMap_framed fun _ _ ↦ rfl, flatMap_framed fun _ _ ↦ rfl]
    simp only [List.nil_append] at ih
    simp [made, taken, ih]

theorem begun_perm_calls (h : Delivers sender batch n d) :
    (d.happenings.flatMap begun).Perm (d.happenings.flatMap calls) := by
  induction h with
  | nil sender n => exact .refl _
  | acted _ _ ih => exact ih
  | @panicked sender payload message a n n' rest _ => exact .refl _
  | nested payload _ _ _ ih ih' =>
    -- The inner notification begins first, but the dispatch that asked for it is logged last.
    rw [happenings_following, List.flatMap_append, List.flatMap_append,
      flatMap_framed fun _ _ ↦ rfl, flatMap_framed fun _ _ ↦ rfl]
    exact ((ih.append ih').cons _).trans List.perm_middle.symm
  | cutShort sender payload rest _ _ ih =>
    rw [happenings_ended, List.flatMap_append, List.flatMap_append,
      flatMap_framed fun _ _ ↦ rfl, flatMap_framed fun _ _ ↦ rfl]
    exact ((ih.append_right _).cons _).trans List.perm_middle.symm

theorem channels_receiving {name : String} {buffer : List Event} (h : Delivers sender batch n d)
    (hn : n.channels name = .receiving buffer) :
    d.after.channels name =
      .receiving (buffer ++ d.happenings.flatMap (arrivals name)) := by
  induction h generalizing buffer with
  | nil sender n => simpa using hn
  | acted hperform _ ih =>
    rw [after_following, ih (Action.channels_of_ok hperform hn)]
    simp
  | panicked rest hperform =>
    obtain ⟨rfl, rfl⟩ := Action.eq_panic_of_error hperform
    simpa [arrivals] using hn
  | nested payload _ _ _ ih ih' =>
    rw [after_following, ih' (ih hn), happenings_following, List.flatMap_append,
      flatMap_framed fun _ _ ↦ rfl]
    simp [arrivals]
  | cutShort sender payload rest _ _ ih =>
    rw [after_ended, ih hn, happenings_ended, List.flatMap_append,
      flatMap_framed fun _ _ ↦ rfl]
    simp [arrivals]

end Delivers

end Notifier

end SyncKit
