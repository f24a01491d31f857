import SyncKit.Lock.Session

namespace SyncKit

inductive Demand (κ : Type)
  | call (caller : κ) (m : Mode)
  | request (r : Request)

/-- How many grants of each mode are out: made and not released yet. -/
structure Holds where
  reads : Nat := 0
  writes : Nat := 0
  deriving DecidableEq

namespace Holds

def of : Mode → Holds → Nat
  | .read, h => h.reads
  | .write, h => h.writes

def take : Mode → Holds → Holds
  | .read, h => { h with reads := h.reads + 1 }
  | .write, h => { h with writes := h.writes + 1 }

def release : Mode → Holds → Holds
  | .read, h => { h with reads := h.reads - 1 }
  | .write, h => { h with writes := h.writes - 1 }

def met {κ : Type} : Demand κ → Holds → Holds
  | .call _ m => take m
  | .request (.tryLock m) => take m
  | .request (.unlock m) => release m
  | .request .upgrade => fun h ↦ (h.release .read).take .write
  | .request .downgrade => fun h ↦ (h.release .write).take .read

theorem reads_met_le {κ : Type} (d : Demand κ) (h : Holds) : (h.met d).reads ≤ h.reads + 1 := by
  cases d with
  | call caller m => cases m <;> simp [met, take]
  | request r =>
    cases r with
    | tryLock m => cases m <;> simp [met, take]
    | unlock m =>
      cases m with
      | read => exact Nat.le_trans (Nat.sub_le _ _) (Nat.le_succ _)
      | write => exact Nat.le_succ _
    | upgrade => simp [met, release, take]; omega
    | downgrade => simp [met, release, take]

def total (h : Holds) : Nat := h.reads + h.writes

theorem exists_of_pos {h : Holds} (hpos : 0 < h.total) : ∃ m, 0 < h.of m := by
  rw [total] at hpos
  rcases Nat.eq_zero_or_pos h.reads with hzero | hreads
  · exact ⟨.write, show 0 < h.writes by omega⟩
  · exact ⟨.read, hreads⟩

end Holds

def Reply.faulted {F : Type} : Reply F → Bool
  | .fault _ => true
  | _ => false

def Reply.met {F : Type} : Reply F → Bool
  | .done => true
  | _ => false

namespace Returned

variable {κ F : Type}

def granted (r : Returned κ F) : Bool := r.result.isOk

def welcome (returned : List (Returned κ F)) (h : Holds) : Holds :=
  ⟨h.reads + returned.countP (fun r ↦ r.granted && r.mode == .read),
    h.writes + returned.countP (fun r ↦ r.granted && r.mode == .write)⟩

theorem total_welcome {returned : List (Returned κ F)} (hr : returned.all (·.granted) = true)
    (h : Holds) : (welcome returned h).total = h.total + returned.length := by
  have hcount : returned.length = returned.countP (fun r ↦ r.granted && r.mode == .read) +
      returned.countP (fun r ↦ r.granted && r.mode == .write) := by
    rw [List.length_eq_countP_add_countP (fun r ↦ r.granted && r.mode == .read)]
    refine congrArg _ (List.countP_congr fun r hmem ↦ ?_)
    rw [List.all_eq_true.1 hr r hmem]
    cases r.mode <;> decide
  simp only [welcome, Holds.total]
  omega

end Returned

namespace Contended

variable {L W F κ : Type} [Place W] [RawLock L W F]

def serve (c : Contended L W κ) : Demand κ → Outcome L W F κ
  | .call caller m => c.call caller m
  | .request r => c.request r

def sleeping (c : Contended L W κ) (m : Mode) : Nat := c.sleepers.countP (·.mode == m)

theorem sleeping_le (c : Contended L W κ) (m : Mode) : c.sleeping m ≤ c.sleepers.length :=
  List.countP_le_length

theorem sleepers_ne_nil {c : Contended L W κ} {m : Mode} (h : 0 < c.sleeping m) :
    c.sleepers ≠ [] := by
  obtain ⟨s, hmem, -⟩ := List.countP_pos_iff.1 h
  exact List.ne_nil_of_mem hmem

theorem mode_of_mem_filter_ne {sleepers : List (Sleeper κ W)} {s : Sleeper κ W} {m n : Mode}
    (hne : m ≠ n) (h : s ∈ sleepers.filter (·.mode != m)) : s.mode = n := by
  have hs := bne_iff_ne.1 (List.mem_filter.1 h).2
  cases hm : s.mode <;> cases m <;> cases n <;> simp_all

theorem length_sleepers (c : Contended L W κ) :
    c.sleepers.length = c.sleeping .read + c.sleeping .write := by
  rw [List.length_eq_countP_add_countP (·.mode == .read)]
  refine congrArg _ (List.countP_congr fun s _ ↦ ?_)
  cases s.mode <;> decide

end Contended

namespace Outcome

variable {L W F κ : Type}

def faultless (out : Outcome L W F κ) : Bool := !out.reply.faulted && out.returned.all (·.granted)

def settle (d : Demand κ) (out : Outcome L W F κ) (h : Holds) : Holds :=
  Returned.welcome out.returned (if out.reply.met then h.met d else h)

variable {d : Demand κ} {out : Outcome L W F κ}

theorem unfaulted (hf : out.faultless = true) : out.reply.faulted = false := by
  simpa using (Bool.and_eq_true_iff.1 hf).1

theorem settle_of_done (hr : out.returned = []) (hd : out.reply = .done) (h : Holds) :
    out.settle d h = h.met d := by
  rw [settle, hr, hd]
  rfl

theorem settle_of_asleep (hr : out.returned = []) (ha : out.reply = .asleep) (h : Holds) :
    out.settle d h = h := by
  rw [settle, hr, ha]
  rfl

end Outcome

namespace Guarded

variable {L W F : Type} [Place W] [RawLock L W F]

/-- An operation asks nothing of the lock when it is refused for the sake of a slot, or when it
takes the lock away. -/
def demand? (g : Guarded L W) : Operation → Option (Demand Caller)
  | .lock m label => some (.call (.call label) m)
  | .request r => some (.request r)
  | .acquire slot m => if g.taken slot then none else some (.call (.guard slot) m)
  | .tryAcquire slot m => if g.taken slot then none else some (.request (.tryLock m))
  | .upgrade slot =>
    match g.guard? slot with
    | some ⟨_, .read⟩ => some (.request .upgrade)
    | _ => none
  | .downgrade slot =>
    match g.guard? slot with
    | some ⟨_, .write⟩ => some (.request .downgrade)
    | _ => none
  | .drop slot => (g.guard? slot).map fun guard ↦ .request (.unlock guard.mode)
  | .destroy => none

inductive Makes (g : Guarded L W) : Operation → Demand Caller → Prop
  | lock (m : Mode) (label : String) : Makes g (.lock m label) (.call (.call label) m)
  | request (r : Request) : Makes g (.request r) (.request r)
  | acquire {slot : String} (m : Mode) (hfree : g.taken slot = false) :
      Makes g (.acquire slot m) (.call (.guard slot) m)
  | tryAcquire {slot : String} (m : Mode) (hfree : g.taken slot = false) :
      Makes g (.tryAcquire slot m) (.request (.tryLock m))
  | upgrade {slot owner : String} (hs : g.guard? slot = some ⟨owner, .read⟩) :
      Makes g (.upgrade slot) (.request .upgrade)
  | downgrade {slot owner : String} (hs : g.guard? slot = some ⟨owner, .write⟩) :
      Makes g (.downgrade slot) (.request .downgrade)
  | drop {slot : String} {guard : Guard} (hs : g.guard? slot = some guard) :
      Makes g (.drop slot) (.request (.unlock guard.mode))

omit [Place W] [RawLock L W F] in
theorem makes_of_demand {g : Guarded L W} {op : Operation} {d : Demand Caller}
    (hd : g.demand? op = some d) : g.Makes op d := by
  cases op with
  | lock m label => cases hd; exact .lock m label
  | request r => cases hd; exact .request r
  | acquire slot m =>
    simp only [demand?] at hd
    split at hd <;> cases hd
    next ht => exact .acquire m (Bool.eq_false_iff.2 ht)
  | tryAcquire slot m =>
    simp only [demand?] at hd
    split at hd <;> cases hd
    next ht => exact .tryAcquire m (Bool.eq_false_iff.2 ht)
  | upgrade slot =>
    simp only [demand?] at hd
    split at hd <;> cases hd
    next hs => exact .upgrade hs
  | downgrade slot =>
    simp only [demand?] at hd
    split at hd <;> cases hd
    next hs => exact .downgrade hs
  | drop slot =>
    obtain ⟨guard, hs, rfl⟩ := Option.map_eq_some_iff.1 hd
    exact .drop hs
  | destroy => cases hd

section Free

variable {g : Guarded L W} {slot : String}

theorem acquire_of_free (m : Mode) (hfree : g.taken slot = false) :
    g.acquire (F := F) slot m = g.seat slot m (g.calls.serve (.call (.guard slot) m)) :=
  if_neg (ne_true_of_eq_false hfree)

theorem tryAcquire_of_free (m : Mode) (hfree : g.taken slot = false) :
    g.tryAcquire (F := F) slot m = g.seat slot m (g.calls.serve (.request (.tryLock m))) :=
  if_neg (ne_true_of_eq_false hfree)

omit [Place W] [RawLock L W F] in
theorem seat_of_done {m : Mode} {out : Outcome L W F Caller} (hdone : out.reply = .done) :
    g.seat slot m out = (g.put slot m).absorb out (.reply .done) := by
  rw [seat, hdone]

omit [Place W] [RawLock L W F] in
theorem seat_of_not_done {m : Mode} {out : Outcome L W F Caller} (hdone : out.reply ≠ .done) :
    g.seat slot m out = g.absorb out (.reply out.reply) := by
  rw [seat]
  split
  · next hreply => exact absurd hreply hdone
  · rfl

theorem drop_of_guard {guard : Guard} (hs : g.guard? slot = some guard) :
    g.drop (F := F) slot = g.release slot guard.mode := by
  rw [drop, hs]

end Free

namespace Answer

def faulted : Answer F → Bool
  | .reply r => r.faulted
  | _ => false

def met : Answer F → Bool
  | .reply r => r.met
  | .upgraded => true
  | _ => false

end Answer

namespace Report

variable {σ : Type}

def faultless (r : Report F σ) : Bool := !r.answer.faulted && r.returned.all (·.granted)

def settle (d : Option (Demand Caller)) (r : Report F σ) (h : Holds) : Holds :=
  Returned.welcome r.returned
    (match d with
    | some d => if r.answer.met then h.met d else h
    | none => h)

end Report

def withSleepers (g : Guarded L W) (sleepers : List (Sleeper Caller W)) : Guarded L W :=
  { g with calls := { g.calls with sleepers } }

omit [Place W] in
/-- Guards are told apart by their slots, and slots taken by sleepers in any order. -/
theorem demand?_withSleepers {g : Guarded L W} {sleepers : List (Sleeper Caller W)}
    (hp : sleepers.Perm g.calls.sleepers) (op : Operation) :
    (g.withSleepers sleepers).demand? op = g.demand? op := by
  have htaken (slot : String) : (g.withSleepers sleepers).taken slot = g.taken slot :=
    congrArg _ hp.any_eq
  cases op with
  | acquire slot m => simp only [demand?, htaken]
  | tryAcquire slot m => simp only [demand?, htaken]
  | _ => rfl

/-- The report of an operation that passed on what the lock answered to its demand. A conversion
that faults does more than that: its guard is dropped. -/
structure Relays (out : Outcome L W F Caller) (r : Report F (Guarded L W)) : Prop where
  met : r.answer.met = out.reply.met
  faulted : r.answer.faulted = out.reply.faulted
  calls : out.reply.faulted = false → r.after.calls = out.after
  returned : out.reply.faulted = false → r.returned = out.returned

omit [Place W] [RawLock L W F] in
theorem Relays.faultless_eq {out : Outcome L W F Caller} {r : Report F (Guarded L W)}
    (hr : Relays out r) : r.faultless = out.faultless := by
  cases hf : out.reply.faulted with
  | true => rw [Report.faultless, Outcome.faultless, hr.faulted, hf]; rfl
  | false => rw [Report.faultless, Outcome.faultless, hr.faulted, hr.returned hf]

omit [Place W] [RawLock L W F] in
theorem relays_absorb (g : Guarded L W) (out : Outcome L W F Caller) {answer : Answer F}
    (hm : answer.met = out.reply.met) (hf : answer.faulted = out.reply.faulted) :
    Relays out (g.absorb out answer) := ⟨hm, hf, fun _ ↦ rfl, fun _ ↦ rfl⟩

omit [Place W] [RawLock L W F] in
theorem relays_seat (g : Guarded L W) (slot : String) (m : Mode) (out : Outcome L W F Caller) :
    Relays out (g.seat slot m out) := by
  unfold seat
  split
  · next h => exact relays_absorb _ out (by rw [h]; rfl) (by rw [h]; rfl)
  · exact relays_absorb g out rfl rfl

theorem relays_failed (g : Guarded L W) (slot : String) (m : Mode) (out : Outcome L W F Caller)
    {f : F} (h : out.reply = .fault f) : Relays out (g.failed slot m out f) := by
  have hf : out.reply.faulted = true := by rw [h]; rfl
  refine ⟨by rw [h]; rfl, hf.symm, ?_, ?_⟩ <;> rw [hf] <;> exact nofun

theorem relays_upgrade {g : Guarded L W} {slot owner : String}
    (hs : g.guard? slot = some ⟨owner, .read⟩) :
    Relays (g.calls.request (F := F) .upgrade) (g.upgrade slot) := by
  simp only [upgrade, hs]
  cases h : (g.calls.request (F := F) .upgrade).reply with
  | fault f => exact relays_failed g slot .read _ h
  | _ => exact relays_absorb _ _ (by rw [h]; rfl) (by rw [h]; rfl)

theorem relays_downgrade {g : Guarded L W} {slot owner : String}
    (hs : g.guard? slot = some ⟨owner, .write⟩) :
    Relays (g.calls.request (F := F) .downgrade) (g.downgrade slot) := by
  simp only [downgrade, hs]
  cases h : (g.calls.request (F := F) .downgrade).reply with
  | fault f => exact relays_failed g slot .write _ h
  | _ => exact relays_absorb _ _ (by rw [h]; rfl) (by rw [h]; rfl)

theorem perform_relays {g : Guarded L W} {op : Operation} {d : Demand Caller}
    (hd : g.demand? op = some d) :
    ∃ r, g.perform op = kept r ∧ Relays (g.calls.serve (F := F) d) r := by
  cases makes_of_demand hd with
  | lock m label => exact ⟨_, rfl, relays_absorb g _ rfl rfl⟩
  | request r => exact ⟨_, rfl, relays_absorb g _ rfl rfl⟩
  | acquire m hfree => exact ⟨_, congrArg kept (acquire_of_free m hfree), relays_seat g _ m _⟩
  | tryAcquire m hfree =>
    exact ⟨_, congrArg kept (tryAcquire_of_free m hfree), relays_seat g _ m _⟩
  | upgrade hs => exact ⟨_, rfl, relays_upgrade hs⟩
  | downgrade hs => exact ⟨_, rfl, relays_downgrade hs⟩
  | drop hs =>
    exact ⟨_, congrArg kept (drop_of_guard hs), relays_absorb (g.forget _) _ rfl rfl⟩

theorem perform_denied {g : Guarded L W} {op : Operation} (hd : g.demand? op = none) :
    op = .destroy ∨
      ∃ denial, g.perform (F := F) op = kept { answer := .denied denial, after := g } := by
  cases op with
  | lock m label => cases hd
  | request r => cases hd
  | acquire slot m =>
    simp only [demand?] at hd
    split at hd
    · next ht => exact .inr ⟨_, by rw [perform, acquire, if_pos ht]⟩
    · cases hd
  | tryAcquire slot m =>
    simp only [demand?] at hd
    split at hd
    · next ht => exact .inr ⟨_, by rw [perform, tryAcquire, if_pos ht]⟩
    · cases hd
  | upgrade slot =>
    right
    simp only [demand?] at hd
    simp only [perform, upgrade]
    split at hd
    · cases hd
    · next hn => split <;> first | exact ⟨_, rfl⟩ | exact absurd (by assumption) (hn _)
  | downgrade slot =>
    right
    simp only [demand?] at hd
    simp only [perform, downgrade]
    split at hd
    · cases hd
    · next hn => split <;> first | exact ⟨_, rfl⟩ | exact absurd (by assumption) (hn _)
  | drop slot =>
    simp only [demand?, Option.map_eq_none_iff] at hd
    exact .inr ⟨.noGuard, by simp only [perform, drop, hd]⟩
  | destroy => exact .inl rfl

theorem perform_of_demand_eq_none {g g' : Guarded L W} {op : Operation}
    (hd : g.demand? op = none) (hg : (g.perform (F := F) op).after = some g') :
    g' = g ∧ ∃ denial, g.perform (F := F) op = kept { answer := .denied denial, after := g } := by
  obtain rfl | ⟨denial, hr⟩ := perform_denied (F := F) hd
  · simp only [perform, destroy] at hg
    split at hg <;> cases hg
  · rw [hr] at hg
    cases hg
    exact ⟨rfl, denial, hr⟩

omit [Place W] in
theorem answer_destroy_of_ok {g : Guarded L W}
    (h : RawLock.destroy (F := F) g.calls.lock = .ok ()) :
    (g.destroy (F := F)).answer = .reply .done := by
  simp only [destroy, h]

omit [Place W] in
theorem answer_destroy_of_error {g : Guarded L W} {f : F}
    (h : RawLock.destroy g.calls.lock = .error f) : g.destroy.answer = .reply (.fault f) := by
  simp only [destroy, h]

end Guarded

/-- A lock between two operations, with the grants that are out. -/
structure Situation (L W : Type) where
  guarded : Guarded L W
  holds : Holds := {}

namespace Situation

variable {L W F : Type} [Place W] [RawLock L W F]

def fresh (lock : L) : Situation L W := { guarded := { calls := { lock } } }

def calls (s : Situation L W) : Contended L W Caller := s.guarded.calls

structure Move (L W F : Type) where
  op : Guarded.Operation
  report : Guarded.Report F (Option (Guarded L W))

def returns (moves : List (Move L W F)) : List (Returned Caller F) :=
  moves.flatMap fun (move : Move L W F) ↦ move.report.returned

/-- One operation. The sleepers are taken in any order: it is in the order of the list that signals
pick sleepers and that woken calls run. -/
inductive Step : Situation L W → Move L W F → Situation L W → Prop
  | intro {s : Situation L W} {sleepers : List (Sleeper Caller W)} {g' : Guarded L W}
      (op : Guarded.Operation) (hp : sleepers.Perm s.calls.sleepers)
      (hg : ((s.guarded.withSleepers sleepers).perform (F := F) op).after = some g') :
      Step s ⟨op, (s.guarded.withSleepers sleepers).perform op⟩
        ⟨g', ((s.guarded.withSleepers sleepers).perform (F := F) op).settle
          ((s.guarded.withSleepers sleepers).demand? op) s.holds⟩

theorem Step.of_request (s : Situation L W) (r : Request) {out : Outcome L W F Caller}
    (hout : s.calls.request r = out) :
    Step s ⟨.request r, Guarded.kept (s.guarded.absorb out (.reply out.reply))⟩
      ⟨(s.guarded.absorb out (.reply out.reply)).after, out.settle (.request r) s.holds⟩ := by
  subst hout
  exact .intro (.request r) (.refl _) rfl

/-- A step that makes a demand does to the calls and to the holds what the lock does, unless whoever
made it faults. -/
theorem Step.serves_demand {s t : Situation L W} {move : Move L W F} (h : Step s move t)
    {d : Demand Caller} (hd : s.guarded.demand? move.op = some d) :
    ∃ sleepers, sleepers.Perm s.calls.sleepers ∧
      ∃ out : Outcome L W F Caller, out = Contended.serve { s.calls with sleepers } d ∧
        move.report.faultless = out.faultless ∧ move.report.answer.met = out.reply.met ∧
        (out.reply.faulted = false →
          t.calls = out.after ∧ t.holds = out.settle d s.holds ∧
            move.report.returned = out.returned) := by
  cases h with
  | @intro sleepers g' op hp hg =>
    have hd' := (Guarded.demand?_withSleepers hp op).trans hd
    obtain ⟨r, hr, hrel⟩ := Guarded.perform_relays (F := F) hd'
    rw [hr] at hg
    cases hg
    refine ⟨sleepers, hp, _, rfl, ?_, ?_, fun hreply ↦ ⟨hrel.calls hreply, ?_, ?_⟩⟩
    · rw [hr]
      exact hrel.faultless_eq
    · rw [hr]
      exact hrel.met
    · simp only [Guarded.Report.settle, Outcome.settle, hr, hd', Guarded.kept, hrel.met,
        hrel.returned hreply]
      rfl
    · rw [hr]
      exact hrel.returned hreply

theorem Step.denied {s t : Situation L W} {move : Move L W F} (h : Step s move t)
    (hd : s.guarded.demand? move.op = none) :
    ∃ sleepers, sleepers.Perm s.calls.sleepers ∧ t.calls = { s.calls with sleepers } ∧
      t.holds = s.holds ∧ move.report.returned = [] ∧
      ∃ denial, move.report.answer = .denied denial := by
  cases h with
  | @intro sleepers g' op hp hg =>
    have hd' := (Guarded.demand?_withSleepers hp op).trans hd
    obtain ⟨rfl, denial, hr⟩ := Guarded.perform_of_demand_eq_none hd' hg
    refine ⟨sleepers, hp, rfl, ?_, ?_, denial, ?_⟩
    · simp only [Guarded.Report.settle, hr, hd']
      rfl
    · rw [hr]
      rfl
    · rw [hr]
      rfl

theorem Step.serves {s t : Situation L W} {move : Move L W F} (h : Step s move t)
    (hf : move.report.faultless = true) :
    ∃ sleepers, sleepers.Perm s.calls.sleepers ∧
      (s.guarded.demand? move.op = none ∧ t.calls = { s.calls with sleepers } ∧
          t.holds = s.holds ∧ move.report.returned = [] ∧ move.report.answer.met = false ∨
        ∃ (d : Demand Caller) (out : Outcome L W F Caller),
          s.guarded.demand? move.op = some d ∧
          out = Contended.serve { s.calls with sleepers } d ∧ out.faultless = true ∧
          t.calls = out.after ∧ t.holds = out.settle d s.holds ∧
          move.report.returned = out.returned ∧ move.report.answer.met = out.reply.met) := by
  cases hd : s.guarded.demand? move.op with
  | some d =>
    obtain ⟨sleepers, hp, out, hout, hfaultless, hmet, hserved⟩ := h.serves_demand hd
    have hout' : out.faultless = true := hfaultless.symm.trans hf
    obtain ⟨hcalls, hholds, hreturned⟩ := hserved (Outcome.unfaulted hout')
    exact ⟨sleepers, hp, .inr ⟨d, out, rfl, hout, hout', hcalls, hholds, hreturned, hmet⟩⟩
  | none =>
    obtain ⟨sleepers, hp, hcalls, hholds, hreturned, denial, hanswer⟩ := h.denied hd
    exact ⟨sleepers, hp, .inl ⟨rfl, hcalls, hholds, hreturned, by rw [hanswer]; rfl⟩⟩

/-- Operations one after the other, of which each has to be legal where it is made. -/
inductive Run (legal : Situation L W → Move L W F → Situation L W → Prop) :
    Situation L W → List (Move L W F) → Situation L W → Prop
  | nil (s : Situation L W) : Run legal s [] s
  | cons {s t u : Situation L W} {move : Move L W F} {moves : List (Move L W F)} :
      Step s move t → legal s move t → Run legal t moves u → Run legal s (move :: moves) u

variable {legal : Situation L W → Move L W F → Situation L W → Prop}

theorem Run.preserves {I : Situation L W → Prop}
    (hI : ∀ s move t, I s → Step s move t → legal s move t → I t)
    {s t : Situation L W} {moves : List (Move L W F)} (h : Run legal s moves t) (hs : I s) :
    I t := by
  induction h with
  | nil => exact hs
  | cons hstep hl _ ih => exact ih (hI _ _ _ hs hstep hl)

theorem Run.append {s t u : Situation L W} {moves later : List (Move L W F)}
    (h : Run legal s moves t) (h' : Run legal t later u) : Run legal s (moves ++ later) u := by
  induction h with
  | nil => exact h'
  | cons hstep hl _ ih => exact .cons hstep hl (ih h')

theorem Run.rounds {S : Nat → Situation L W} {ops : List Guarded.Operation} {n : Nat}
    (hround : ∀ i < n, ∃ moves, Run (F := F) legal (S i) moves (S (i + 1)) ∧
      moves.map (·.op) = ops) :
    ∃ moves, Run (F := F) legal (S 0) moves (S n) ∧
      moves.map (·.op) = (List.replicate n ops).flatten := by
  induction n with
  | zero => exact ⟨[], .nil _, rfl⟩
  | succ n ih =>
    obtain ⟨moves, hrun, hops⟩ := ih fun i hi ↦ hround i (Nat.lt_succ_of_lt hi)
    obtain ⟨last, hlast, hops'⟩ := hround n (Nat.lt_succ_self n)
    refine ⟨moves ++ last, hrun.append hlast, ?_⟩
    rw [List.map_append, hops, hops', List.replicate_succ', List.flatten_concat]

end Situation

end SyncKit
