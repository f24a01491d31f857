import SyncKit.Proofs.Notifier.Delivering

namespace SyncKit

def Verdict.breaks : Verdict → Bool
  | .panicked => true
  | .cutShort => true
  | _ => false

structure Course where
  dispatches : List Dispatch := []
  discarded : List Registration := []

def Course.led (c : Course) (d : Dispatch) : Course := { c with dispatches := d :: c.dispatches }

def Course.broken (c : Course) : Bool := c.dispatches.any (·.verdict.breaks)

theorem Course.broken_led (c : Course) (d : Dispatch) :
    (c.led d).broken = (d.verdict.breaks || c.broken) := rfl

structure Round extends Course where
  sender : String
  batch : List Registration

/-- What a log tells when it is read from its end: the courses of the notifications whose beginning
is still to come, the innermost first, and those that are complete, in the order they began. -/
structure Ledger where
  opened : List Course := []
  rounds : List Round := []

namespace Ledger

def top (l : Ledger) : Course := l.opened.headD {}

def enter : Happening → Ledger → Ledger
  | .finished _ _, l => ⟨{} :: l.opened, l.rounds⟩
  | .discarded rest, l => ⟨⟨[], rest⟩ :: l.opened, l.rounds⟩
  | .dispatched d, l => ⟨l.top.led d :: l.opened.tail, l.rounds⟩
  | .began sender batch, l => ⟨l.opened.tail, ⟨l.top, sender, batch⟩ :: l.rounds⟩

def all {α : Type} (f : Course → List α) (l : Ledger) : List α :=
  l.opened.flatMap f ++ l.rounds.flatMap (f ·.toCourse)

/-- What a course holds of one kind is what a log tells of it between beginnings and endings. -/
structure Tells {α : Type} (f : Course → List α) (g : Happening → List α) : Prop where
  empty : f {} = []
  led : ∀ c d, f (c.led d) = g (.dispatched d) ++ f c
  rest : ∀ rest, f ⟨[], rest⟩ = g (.discarded rest)
  began : ∀ sender batch, g (.began sender batch) = []
  finished : ∀ delivered total, g (.finished delivered total) = []

theorem tells_dispatches : Tells Course.dispatches Happening.dispatches :=
  ⟨rfl, fun _ _ ↦ rfl, fun _ ↦ rfl, fun _ _ ↦ rfl, fun _ _ ↦ rfl⟩

theorem tells_discarded : Tells Course.discarded Happening.lost :=
  ⟨rfl, fun _ _ ↦ rfl, fun _ ↦ rfl, fun _ _ ↦ rfl, fun _ _ ↦ rfl⟩

variable {α : Type} [DecidableEq α] {f : Course → List α} {g : Happening → List α}

theorem count_top_tail (hempty : f {} = []) (a : α) (l : Ledger) :
    (f l.top).count a + (l.opened.tail.flatMap f).count a = (l.opened.flatMap f).count a := by
  unfold top
  cases l.opened with
  | nil => simp [hempty]
  | cons c later => simp

/-- Nothing is lost or doubled by reading a log. -/
theorem all_foldr_perm (ht : Tells f g) (log : List Happening) (l : Ledger) :
    ((log.foldr enter l).all f).Perm (log.flatMap g ++ l.all f) := by
  induction log with
  | nil => exact .refl _
  | cons h log ih =>
    refine List.perm_iff_count.mpr fun a ↦ ?_
    have hcount := List.perm_iff_count.mp ih a
    have hopened := count_top_tail ht.empty a (log.foldr enter l)
    simp only [all, List.count_append, List.foldr_cons, List.flatMap_cons] at hcount ⊢
    cases h <;> simp [enter, ht.empty, ht.led, ht.rest, ht.began, ht.finished] <;> omega

end Ledger

def rounds (log : List Happening) : List Round := (log.foldr Ledger.enter {}).rounds

theorem flatMap_rounds {α : Type} {f : Round → List α} {g : Happening → List α}
    (hbegan : ∀ c sender batch, f ⟨c, sender, batch⟩ = g (.began sender batch))
    (hdispatched : ∀ d, g (.dispatched d) = []) (hdiscarded : ∀ rest, g (.discarded rest) = [])
    (hfinished : ∀ delivered total, g (.finished delivered total) = [])
    (log : List Happening) : (rounds log).flatMap f = log.flatMap g := by
  unfold rounds
  induction log with
  | nil => rfl
  | cons h log ih =>
    cases h <;> simp [Ledger.enter, hbegan, hdispatched, hdiscarded, hfinished, ih]

/-- How a dispatch fits into a notification of this sender. A task that was cut short was
notifying, and that notification is among those that began later. -/
structure Dispatch.Explained (d : Dispatch) (sender : String) (later : List Round) : Prop where
  sender : d.sender = sender
  panicked : d.verdict = .panicked ↔ ∃ message, d.registration.task = .act (.panic message)
  cut : d.verdict = .cutShort →
    ∃ inner ∈ later, d.registration.task = .notify inner.sender ∧ inner.broken

/-- Every registration of a notification is dispatched, in order, unless one before it breaks the
notification. Those behind that one are discarded. -/
structure Round.Accounted (r : Round) (later : List Round) : Prop where
  order : r.dispatches.map (·.registration) ++ r.discarded = r.batch
  explained : ∀ d ∈ r.dispatches, d.Explained r.sender later
  stops : r.dispatches.Pairwise fun d _ ↦ d.verdict.breaks = false
  discards : r.discarded ≠ [] → r.broken

def Settled : List Round → Prop
  | [] => True
  | r :: later => r.Accounted later ∧ Settled later

theorem Action.breaks_of_ok {a : Action} {event : Event} {n n' : Notifier} {verdict : Verdict}
    (h : a.perform event n = (.ok verdict, n')) : verdict.breaks = false := by
  cases a with
  | send channel =>
    simp only [perform] at h
    split at h <;> cases h <;> rfl
  | refuse => cases h; rfl
  | count => cases h; rfl
  | register channel payload => cases h; rfl
  | panic message => cases h

theorem Dispatch.Explained.acted {a : Action} {sender payload : String} {n n' : Notifier}
    {verdict : Verdict} {later : List Round}
    (h : a.perform ⟨sender, payload⟩ n = (.ok verdict, n')) :
    Explained ⟨sender, ⟨.act a, payload⟩, verdict⟩ sender later := by
  have hok := Action.breaks_of_ok h
  refine ⟨rfl, ⟨?_, ?_⟩, ?_⟩
  · rintro rfl
    cases hok
  · rintro ⟨message, hpanic⟩
    cases hpanic
    cases h
  · rintro rfl
    cases hok

theorem Dispatch.Explained.mono {d : Dispatch} {sender : String} {later later' : List Round}
    (h : d.Explained sender later) (hsub : later ⊆ later') : d.Explained sender later' where
  sender := h.sender
  panicked := h.panicked
  cut hcut := by
    obtain ⟨inner, hmem, hinner⟩ := h.cut hcut
    exact ⟨inner, hsub hmem, hinner⟩

theorem Round.Accounted.mono {r : Round} {later later' : List Round} (h : r.Accounted later)
    (hsub : later ⊆ later') : r.Accounted later' :=
  { h with explained := fun d hd ↦ (h.explained d hd).mono hsub }

theorem Round.Accounted.led {c : Course} {sender : String} {rest : List Registration}
    {d : Dispatch} {inner nested : List Round} (h : Accounted ⟨c, sender, rest⟩ nested)
    (hd : d.Explained sender inner) (hok : d.verdict.breaks = false) :
    Accounted ⟨c.led d, sender, d.registration :: rest⟩ (inner ++ nested) where
  order := congrArg (d.registration :: ·) h.order
  explained d' hd' := by
    obtain rfl | hmem := List.mem_cons.mp hd'
    · exact hd.mono (List.subset_append_left _ _)
    · exact (h.explained d' hmem).mono (List.subset_append_right _ _)
  stops := .cons (fun _ _ ↦ hok) h.stops
  discards hrest := by simp [Course.broken_led, h.discards hrest]

theorem Round.Accounted.last {sender : String} {d : Dispatch} {inner : List Round}
    (rest : List Registration) (hd : d.Explained sender inner) (hbreaks : d.verdict.breaks = true) :
    Accounted ⟨⟨[d], rest⟩, sender, d.registration :: rest⟩ inner where
  order := rfl
  explained d' hd' := by
    obtain rfl := List.mem_singleton.mp hd'
    exact hd
  stops := List.pairwise_singleton _ _
  discards _ := by simp [Course.broken, hbreaks]

theorem Settled.append {a b : List Round} (ha : Settled a) (hb : Settled b) :
    Settled (a ++ b) := by
  induction a with
  | nil => exact hb
  | cons r later ih => exact ⟨ha.1.mono (List.subset_append_left _ _), ih ha.2⟩

theorem Settled.batches_perm {rounds : List Round} (h : Settled rounds) :
    (rounds.flatMap (·.batch)).Perm
      ((rounds.flatMap (·.dispatches)).map (·.registration) ++ rounds.flatMap (·.discarded)) := by
  induction rounds with
  | nil => exact .refl _
  | cons r later ih =>
    simp only [List.flatMap_cons, ← h.1.order, List.map_append, List.append_assoc]
    exact (((ih h.2).append_left _).trans (List.perm_append_comm_assoc _ _ _)).append_left _

theorem Settled.accounted {rounds : List Round} (h : Settled rounds) :
    ∀ r ∈ rounds, r.Accounted rounds := by
  induction rounds with
  | nil => exact fun r hr ↦ absurd hr List.not_mem_nil
  | cons r later ih =>
    intro s hs
    refine Round.Accounted.mono ?_ (List.subset_cons_self r later)
    obtain rfl | hmem := List.mem_cons.mp hs
    · exact h.1
    · exact ih h.2 s hmem

/-- A log in which every notification that began has ended. -/
structure Complete (log : List Happening) (rounds : List Round) : Prop where
  read : ∀ l : Ledger, log.foldr Ledger.enter l = ⟨l.opened, rounds ++ l.rounds⟩
  settled : Settled rounds

namespace Complete

variable {log : List Happening} {told : List Round}

theorem nil : Complete [] [] := ⟨fun _ ↦ rfl, trivial⟩

theorem append {a b : List Happening} {ra rb : List Round} (ha : Complete a ra)
    (hb : Complete b rb) : Complete (a ++ b) (ra ++ rb) where
  read l := by rw [List.foldr_append, hb.read, ha.read, List.append_assoc]
  settled := ha.settled.append hb.settled

theorem rounds_eq (h : Complete log told) : rounds log = told := by
  rw [rounds, h.read]
  exact List.append_nil _

theorem perm (h : Complete log told) {α : Type} [DecidableEq α] {f : Course → List α}
    {g : Happening → List α} (ht : Ledger.Tells f g) :
    (told.flatMap (f ·.toCourse)).Perm (log.flatMap g) := by
  have hall := Ledger.all_foldr_perm ht log {}
  rw [h.read] at hall
  simpa [Ledger.all] using hall

theorem round_of_dispatch {h : Happening} {d : Dispatch} (htold : Complete log told)
    (hh : h ∈ log) (hd : d ∈ h.dispatches) :
    ∃ r ∈ told, d ∈ r.dispatches ∧ d.sender = r.sender := by
  have hlog : d ∈ log.flatMap Happening.dispatches := List.mem_flatMap.mpr ⟨h, hh, hd⟩
  have hperm := htold.perm Ledger.tells_dispatches
  obtain ⟨r, hr, hmem⟩ := List.mem_flatMap.mp (hperm.mem_iff.mpr hlog)
  exact ⟨r, hr, hmem, ((htold.settled.accounted r hr).explained d hmem).sender⟩

end Complete

structure Traced (sender : String) (batch : List Registration) (d : Delivery) (c : Course)
    (nested : List Round) : Prop where
  read : ∀ total (l : Ledger), (d.happenings ++ d.closing total).foldr Ledger.enter l =
    ⟨c :: l.opened, nested ++ l.rounds⟩
  settled : Settled (⟨c, sender, batch⟩ :: nested)
  broken : ∀ message, d.result = .error message → c.broken

namespace Traced

variable {sender : String} {rest : List Registration} {before : List Happening} {d : Dispatch}
variable {later : Delivery} {c : Course} {inner nested : List Round}

theorem nil (sender : String) (n : Notifier) :
    Traced sender [] { result := .ok 0, after := n } {} [] where
  read _ _ := rfl
  settled := ⟨⟨rfl, nofun, .nil, fun h ↦ absurd rfl h⟩, trivial⟩
  broken := nofun

theorem following (hbefore : Complete before inner) (h : Traced sender rest later c nested)
    (hd : d.Explained sender inner) (hok : d.verdict.breaks = false) :
    Traced sender (d.registration :: rest) (later.following before d) (c.led d)
      (inner ++ nested) where
  read total l := by
    have hclosing : ((later.following before d).closing total).foldr Ledger.enter l =
        (later.closing total).foldr Ledger.enter l := by
      unfold Delivery.closing
      obtain ⟨count, count', hlater, hled⟩ | ⟨message, hlater, hled⟩ :=
        later.result_following before d
      · rw [hlater, hled]
        rfl
      · rw [hlater, hled]
    -- From the end: what came later, then the dispatch, then what its task notified.
    rw [Delivery.happenings_following, List.append_assoc, List.foldr_append, List.cons_append,
      List.foldr_cons, List.foldr_append, hclosing, ← List.foldr_append, h.read, hbefore.read,
      List.append_assoc]
    rfl
  settled := ⟨h.settled.1.led hd hok, hbefore.settled.append h.settled.2⟩
  broken message hresult := by
    obtain ⟨count, count', hlater, hled⟩ | ⟨message', hlater, hled⟩ :=
      later.result_following before d
    · cases hled.symm.trans hresult
    · simp [Course.broken_led, h.broken message' hlater]

theorem ended (message : String) (rest : List Registration) (n : Notifier)
    (hbefore : Complete before inner) (hd : d.Explained sender inner)
    (hbreaks : d.verdict.breaks = true) :
    Traced sender (d.registration :: rest) (.ended message before d rest n) ⟨[d], rest⟩
      inner where
  read total l := by
    rw [Delivery.happenings_ended, List.foldr_append, List.foldr_append, hbefore.read]
    rfl
  settled := ⟨.last rest hd hbreaks, hbefore.settled⟩
  broken _ _ := by simp [Course.broken, hbreaks]

theorem framed {batch : List Registration} (h : Traced sender batch later c nested) :
    Complete (later.framed sender batch).happenings (⟨c, sender, batch⟩ :: nested) where
  read l := by
    rw [Delivery.happenings_framed, List.foldr_cons, h.read]
    rfl
  settled := h.settled

end Traced

open Notifier in
theorem Notifier.Delivers.traced {sender : String} {batch : List Registration} {n : Notifier}
    {d : Delivery} (h : Delivers sender batch n d) :
    ∃ c nested, Traced sender batch d c nested := by
  induction h with
  | nil sender n => exact ⟨{}, [], .nil sender n⟩
  | acted hperform _ ih =>
    obtain ⟨c, nested, hlater⟩ := ih
    exact ⟨_, _, .following (d := ⟨_, ⟨.act _, _⟩, _⟩) .nil hlater (.acted hperform)
      (Action.breaks_of_ok hperform)⟩
  | panicked rest hperform =>
    obtain ⟨rfl, rfl⟩ := Action.eq_panic_of_error hperform
    exact ⟨_, _, .ended (d := ⟨_, ⟨.act _, _⟩, _⟩) _ rest _ .nil ⟨rfl, by simp, nofun⟩ rfl⟩
  | nested payload _ _ _ ih ih' =>
    obtain ⟨inner, within, hinner⟩ := ih
    obtain ⟨c, nested, hlater⟩ := ih'
    exact ⟨_, _, .following (d := ⟨_, ⟨.notify _, _⟩, _⟩) hinner.framed hlater
      ⟨rfl, by simp, nofun⟩ rfl⟩
  | cutShort sender payload rest _ hresult ih =>
    obtain ⟨inner, within, hinner⟩ := ih
    refine ⟨_, _, .ended (d := ⟨_, ⟨.notify _, _⟩, _⟩) _ rest _ hinner.framed
      ⟨rfl, by simp, fun _ ↦ ?_⟩ rfl⟩
    exact ⟨_, List.mem_cons_self, rfl, hinner.broken _ hresult⟩

end SyncKit
