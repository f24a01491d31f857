import SyncKit.Proofs.Notifier.Rounds

namespace SyncKit

namespace Happening

theorem dispatches_of_sighting {h : Happening} {s : Sighting} (hs : h.sighting? = some s) :
    ∃ d ∈ h.dispatches, s.kind = d.registration.task.kind ∧ s.sender = d.sender ∧
      s.payload = d.registration.payload := by
  unfold sighting? at hs
  split at hs <;> cases hs <;> exact ⟨_, List.mem_singleton_self _, rfl, rfl, rfl⟩

theorem dispatches_of_arrivals {h : Happening} {name : String} {e : Event}
    (he : e ∈ h.arrivals name) :
    ∃ d ∈ h.dispatches, e = ⟨d.sender, d.registration.payload⟩ := by
  unfold arrivals at he
  split at he
  · split at he
    · exact ⟨_, List.mem_singleton_self _, List.mem_singleton.mp he⟩
    · cases he
  · cases he

end Happening

namespace Notifier

open Happening

namespace Operation

def made : Operation → Result → List Registration
  | .register r, _ => [r]
  | _, result => result.happenings.flatMap Happening.made

def calls : Operation → List String
  | .notify sender => [sender]
  | _ => []

def received (name : String) (op : Operation) (result : Result) : List Event :=
  match op, result.answer with
  | .receive channel, .events received => if channel = name then received else []
  | _, _ => []

variable (n : Notifier) (op : Operation)

theorem waiting_append_made :
    n.waiting ++ op.made (n.perform op) =
      (n.perform op).happenings.flatMap taken ++ (n.perform op).after.waiting := by
  cases op with
  | register r => rfl
  | notify sender =>
    obtain ⟨d, hd, hframed⟩ := n.notify_framed sender
    have hrest := hd.waiting_append_made
    simp only [made, perform, hframed]
    rw [Delivery.flatMap_framed fun _ _ ↦ rfl, Delivery.flatMap_framed fun _ _ ↦ rfl]
    simpa [Happening.made, taken] using hrest
  | receive name =>
    simp only [perform]
    split <;> simp [made, setChannel]
  | close name => simp [made, perform, setChannel]
  | describe => simp [made, perform]

theorem begun_perm_calls :
    ((n.perform op).happenings.flatMap begun).Perm
      (op.calls ++ (n.perform op).happenings.flatMap Happening.calls) := by
  cases op with
  | notify sender =>
    obtain ⟨d, hd, hframed⟩ := n.notify_framed sender
    simp only [calls, perform, hframed]
    rw [Delivery.flatMap_framed fun _ _ ↦ rfl, Delivery.flatMap_framed fun _ _ ↦ rfl]
    exact hd.begun_perm_calls.cons sender
  | receive name =>
    simp only [perform]
    split <;> exact .refl _
  | register r => exact .refl _
  | close name => exact .refl _
  | describe => exact .refl _

theorem complete : ∃ told, Complete (n.perform op).happenings told := by
  cases op with
  | notify sender =>
    obtain ⟨d, hd, hframed⟩ := n.notify_framed sender
    obtain ⟨c, nested, htraced⟩ := hd.traced
    simp only [perform, hframed]
    exact ⟨_, htraced.framed⟩
  | receive name =>
    simp only [perform]
    split <;> exact ⟨[], .nil⟩
  | register r => exact ⟨[], .nil⟩
  | close name => exact ⟨[], .nil⟩
  | describe => exact ⟨[], .nil⟩

variable {n op}

theorem channels_receiving {name : String} {buffer : List Event}
    (hn : n.channels name = .receiving buffer) (hop : op ≠ .close name) :
    ∃ buffer', (n.perform op).after.channels name = .receiving buffer' ∧
      buffer ++ (n.perform op).happenings.flatMap (arrivals name) =
        op.received name (n.perform op) ++ buffer' := by
  cases op with
  | notify sender =>
    obtain ⟨d, hd, hframed⟩ := n.notify_framed sender
    simp only [perform, hframed]
    refine ⟨_, hd.channels_receiving hn, ?_⟩
    rw [Delivery.flatMap_framed fun _ _ ↦ rfl]
    rfl
  | receive channel =>
    by_cases hc : channel = name
    · subst hc
      simp [perform, hn, received, setChannel]
    · refine ⟨buffer, ?_⟩
      simp only [perform]
      split <;> simp [received, setChannel, hc, Ne.symm hc, hn]
  | close channel =>
    have hc : name ≠ channel := fun h ↦ hop (h ▸ rfl)
    exact ⟨buffer, by simp [perform, setChannel, hc, hn], List.append_nil _⟩
  | register r => exact ⟨buffer, hn, List.append_nil _⟩
  | describe => exact ⟨buffer, hn, List.append_nil _⟩

end Operation

section Session

def log (ops : List Operation) (n : Notifier) : List Happening :=
  (run ops n).flatMap (·.happenings)

def left (ops : List Operation) (n : Notifier) : Notifier :=
  (run ops n).foldl (fun _ result ↦ result.after) n

def made (ops : List Operation) (n : Notifier) : List Registration :=
  (List.zipWith Operation.made ops (run ops n)).flatten

def received (name : String) (ops : List Operation) (n : Notifier) : List Event :=
  (List.zipWith (Operation.received name) ops (run ops n)).flatten

variable (op : Operation) (ops : List Operation) (n : Notifier)

theorem log_cons : log (op :: ops) n =
    (n.perform op).happenings ++ log ops (n.perform op).after := rfl

theorem left_cons : left (op :: ops) n = left ops (n.perform op).after := rfl

theorem made_cons : made (op :: ops) n =
    op.made (n.perform op) ++ made ops (n.perform op).after := rfl

theorem received_cons (name : String) : received name (op :: ops) n =
    op.received name (n.perform op) ++ received name ops (n.perform op).after := rfl

/-- What waited and what was registered was taken by a notification or still waits, all in the
order of registration. -/
theorem waiting_append_made :
    n.waiting ++ made ops n = (log ops n).flatMap taken ++ (left ops n).waiting := by
  induction ops generalizing n with
  | nil => exact List.append_nil _
  | cons op ops ih =>
    rw [made_cons, log_cons, left_cons, ← List.append_assoc, op.waiting_append_made n,
      List.append_assoc, ih, List.flatMap_append, List.append_assoc]

theorem begun_perm_calls :
    ((log ops n).flatMap begun).Perm
      (ops.flatMap Operation.calls ++ (log ops n).flatMap Happening.calls) := by
  induction ops generalizing n with
  | nil => exact .refl _
  | cons op ops ih =>
    rw [log_cons, List.flatMap_append, List.flatMap_append, List.flatMap_cons]
    refine ((op.begun_perm_calls n).append (ih (n.perform op).after)).trans ?_
    simp only [List.append_assoc]
    exact (List.perm_append_comm_assoc _ _ _).append_left _

theorem complete : ∃ told, Complete (log ops n) told := by
  induction ops generalizing n with
  | nil => exact ⟨[], .nil⟩
  | cons op ops ih =>
    obtain ⟨first, hfirst⟩ := op.complete n
    obtain ⟨later, hlater⟩ := ih (n.perform op).after
    exact ⟨first ++ later, hfirst.append hlater⟩

theorem complete_rounds : Complete (log ops n) (rounds (log ops n)) := by
  obtain ⟨told, htold⟩ := complete ops n
  rwa [htold.rounds_eq]

variable {ops n}

theorem channels_receiving {name : String} {buffer : List Event}
    (hn : n.channels name = .receiving buffer) (hops : .close name ∉ ops) :
    ∃ buffer', (left ops n).channels name = .receiving buffer' ∧
      buffer ++ (log ops n).flatMap (arrivals name) = received name ops n ++ buffer' := by
  induction ops generalizing n buffer with
  | nil => exact ⟨buffer, hn, List.append_nil _⟩
  | cons op ops ih =>
    rw [List.mem_cons, not_or] at hops
    obtain ⟨middle, hmiddle, hfirst⟩ := Operation.channels_receiving hn (Ne.symm hops.1)
    obtain ⟨last, hlast, hlater⟩ := ih hmiddle hops.2
    refine ⟨last, hlast, ?_⟩
    rw [log_cons, received_cons, List.flatMap_append, ← List.append_assoc, hfirst,
      List.append_assoc, hlater, List.append_assoc]

end Session

/-- The account of a session on a new notifier. -/
structure Accounted (ops : List Operation) : Prop where
  /-- One notification took a registration, or it still waits. -/
  registered : made ops {} =
    (rounds (log ops {})).flatMap (·.batch) ++ (left ops {}).waiting
  /-- What a notification took was dispatched in order, up to a panic and no further. -/
  settled : Settled (rounds (log ops {}))
  dispatched : ((rounds (log ops {})).flatMap (·.dispatches)).Perm
    ((log ops {}).flatMap dispatches)
  discarded : ((rounds (log ops {})).flatMap (·.discarded)).Perm ((log ops {}).flatMap lost)
  once : (made ops {}).Perm (((log ops {}).flatMap dispatches).map (·.registration) ++
    (log ops {}).flatMap lost ++ (left ops {}).waiting)
  /-- The notifications are those that the caller and the tasks asked for. -/
  called : ((rounds (log ops {})).map (·.sender)).Perm
    (ops.flatMap Operation.calls ++ (log ops {}).flatMap Happening.calls)
  /-- What a task recorded came from its own notification. -/
  sighted : ∀ result ∈ run ops {}, ∀ s ∈ result.sightings,
    ∃ r ∈ rounds (log ops {}), ∃ d ∈ r.dispatches, s.kind = d.registration.task.kind ∧
      s.sender = r.sender ∧ s.payload = d.registration.payload
  arrived : ∀ name, ∀ e ∈ (log ops {}).flatMap (arrivals name),
    ∃ r ∈ rounds (log ops {}), ∃ d ∈ r.dispatches, e = ⟨r.sender, d.registration.payload⟩
  received : ∀ name, .close name ∉ ops →
    ∃ buffer, (left ops {}).channels name = .receiving buffer ∧
      received name ops {} ++ buffer = (log ops {}).flatMap (arrivals name)

/-- Whatever the caller does and the tasks do in turn, and wherever one stops to look, every
registration waits, was dispatched once or fell to a panic of its notification. -/
theorem every_registration_accounted (ops : List Operation) : Accounted ops := by
  have htold := complete_rounds ops {}
  have hmade : made ops {} =
      (rounds (log ops {})).flatMap (·.batch) ++ (left ops {}).waiting := by
    rw [flatMap_rounds (g := taken) (fun _ _ _ ↦ rfl) (fun _ ↦ rfl) (fun _ ↦ rfl) (fun _ _ ↦ rfl)]
    exact waiting_append_made ops {}
  have hdispatched := htold.perm Ledger.tells_dispatches
  have hdiscarded := htold.perm Ledger.tells_discarded
  have hfates : ((rounds (log ops {})).flatMap (·.batch)).Perm
      (((log ops {}).flatMap dispatches).map (·.registration) ++ (log ops {}).flatMap lost) :=
    htold.settled.batches_perm.trans ((hdispatched.map _).append hdiscarded)
  constructor
  case registered => exact hmade
  case settled => exact htold.settled
  case dispatched => exact hdispatched
  case discarded => exact hdiscarded
  case once =>
    rw [hmade]
    exact hfates.append_right _
  case called =>
    rw [List.map_eq_flatMap,
      flatMap_rounds (g := begun) (fun _ _ _ ↦ rfl) (fun _ ↦ rfl) (fun _ ↦ rfl) (fun _ _ ↦ rfl)]
    exact begun_perm_calls ops {}
  case sighted =>
    intro result hresult s hs
    obtain ⟨h, hh, hsight⟩ := List.mem_filterMap.mp hs
    obtain ⟨d, hd, hkind, hsender, hpayload⟩ := dispatches_of_sighting hsight
    have hlog : h ∈ log ops {} := List.mem_flatMap.mpr ⟨result, hresult, hh⟩
    obtain ⟨r, hr, hmem, heq⟩ := htold.round_of_dispatch hlog hd
    exact ⟨r, hr, d, hmem, hkind, hsender.trans heq, hpayload⟩
  case arrived =>
    intro name e he
    obtain ⟨h, hh, harrival⟩ := List.mem_flatMap.mp he
    obtain ⟨d, hd, hevent⟩ := dispatches_of_arrivals harrival
    obtain ⟨r, hr, hmem, heq⟩ := htold.round_of_dispatch hh hd
    exact ⟨r, hr, d, hmem, heq ▸ hevent⟩
  case received =>
    intro name hname
    have hempty : ({} : Notifier).channels name = .receiving [] := rfl
    obtain ⟨buffer, hleft, hflow⟩ := channels_receiving hempty hname
    exact ⟨buffer, hleft, hflow.symm⟩

/-- The second task delivers what the first registered, before the third panics. -/
example :
    (rounds (log [.register ⟨.act (.register "c" "late"), "p"⟩,
        .register ⟨.notify "inner", "q"⟩, .register ⟨.act (.panic "no"), "r"⟩,
        .register ⟨.act .count, "s"⟩, .notify "outer"] {})).map
      (fun r ↦ (r.sender, r.dispatches.map (·.registration.payload),
        r.discarded.map (·.payload))) =
      [("outer", ["p", "q", "r"], ["s"]), ("inner", ["late"], [])] := by
  cbv

end Notifier

end SyncKit
