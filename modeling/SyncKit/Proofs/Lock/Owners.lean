import SyncKit.Proofs.Lock.Grants
import SyncKit.Proofs.Lock.Release

namespace SyncKit

def Request.certain : Request → Bool
  | .unlock _ => true
  | .downgrade => true
  | _ => false

theorem Reply.ofAttempt_ne_asleep {F : Type} (result : Except F Attempt) :
    ofAttempt result ≠ .asleep := by
  cases result with
  | ok a => cases a <;> nofun
  | error f => nofun

section Callers

variable {L W F κ : Type} [Place W] [RawLock L W F]

def Outcome.joins (d : Demand κ) (out : Outcome L W F κ) : List κ :=
  match d, out.reply with
  | .call caller _, .asleep => [caller]
  | _, _ => []

omit [Place W] [RawLock L W F] in
theorem Outcome.joins_request (r : Request) (out : Outcome L W F κ) :
    out.joins (.request r) = [] := rfl

omit [Place W] [RawLock L W F] in
theorem Outcome.length_joins_add_le (d : Demand κ) (out : Outcome L W F κ) :
    (out.joins d).length + (if out.reply.met then 1 else 0) ≤ 1 := by
  unfold joins
  split
  · next hasleep =>
    rw [hasleep]
    exact Nat.le_refl 1
  · split <;> simp

namespace Contended

theorem callers_resumeAll (l : L) (ws : List (Sleeper κ W)) :
    ((resumeAll (F := F) l ws).returned.map (·.caller) ++
      (resumeAll (F := F) l ws).asleep.map (·.caller)).Perm (ws.map (·.caller)) := by
  induction ws generalizing l with
  | nil => exact .refl _
  | cons s later ih =>
    have hrest := ih (resume (F := F) s l).lock
    cases hr : (resume (F := F) s l).result with
    | error f =>
      simp only [resumeAll, hr]
      exact hrest.cons s.caller
    | ok turn =>
      cases turn with
      | acquired =>
        rw [resumeAll_cons_acquired later hr]
        exact hrest.cons s.caller
      | asleep wait =>
        rw [resumeAll_cons_asleep later hr]
        exact List.perm_middle.trans (hrest.cons s.caller)

theorem callers_settle {α : Type} (step : Step L F α) (sleepers : List (Sleeper κ W)) :
    ((settle step sleepers).returned.map (·.caller) ++
      (settle step sleepers).asleep.map (·.caller)).Perm (sleepers.map (·.caller)) := by
  have hwake := (wake_perm sleepers step.signals).map (·.caller)
  have hrun := callers_resumeAll (F := F) step.lock (wake sleepers step.signals).1
  simp only [settle, List.map_append] at hwake ⊢
  refine List.Perm.trans ?_ hwake
  refine (List.Perm.append_left _ List.perm_append_comm).trans ?_
  rw [← List.append_assoc]
  exact hrun.append_right _

/-- A demand loses no call: those asleep before it came back or sleep on, and its own may join. -/
theorem callers_serve (c : Contended L W κ) (d : Demand κ) :
    ((c.serve (F := F) d).returned.map (·.caller) ++
      (c.serve (F := F) d).after.sleepers.map (·.caller)).Perm
      (c.sleepers.map (·.caller) ++ (c.serve (F := F) d).joins d) := by
  cases d with
  | request r =>
    rw [Outcome.joins_request, List.append_nil]
    exact callers_settle (RawLock.request r c.lock) c.sleepers
  | call caller m =>
    simp only [serve, call, Outcome.joins, List.map_append]
    generalize enter (F := F) m c.lock = step
    rw [← List.append_assoc]
    refine (callers_settle step c.sleepers).append (.of_eq ?_)
    cases step.result with
    | error f => rfl
    | ok turn => cases turn <;> rfl

theorem length_serve (c : Contended L W κ) (d : Demand κ) :
    (c.serve (F := F) d).returned.length + (c.serve (F := F) d).after.sleepers.length =
      c.sleepers.length + ((c.serve (F := F) d).joins d).length := by
  have hlen := (c.callers_serve (F := F) d).length_eq
  simpa using hlen

theorem reads_settle_le (c : Contended L W κ) (d : Demand κ) (h : Holds) :
    ((c.serve (F := F) d).settle d h).reads + (c.serve (F := F) d).after.sleepers.length ≤
      h.reads + c.sleepers.length + 1 := by
  have hlen := c.length_serve (F := F) d
  have hjoins := (c.serve (F := F) d).length_joins_add_le d
  have hmet := h.reads_met_le d
  have hback : ((c.serve (F := F) d).settle d h).reads ≤
      (if (c.serve (F := F) d).reply.met then h.met d else h).reads +
        (c.serve (F := F) d).returned.length :=
    Nat.add_le_add_left List.countP_le_length _
  split at hback <;> split at hjoins <;> first | contradiction | omega

end Contended

end Callers

namespace Guard

def owner (g : Guard) : Caller := .guard g.slot

def tally (guards : List Guard) : Holds :=
  ⟨guards.countP (·.mode == .read), guards.countP (·.mode == .write)⟩

theorem tally_perm {guards others : List Guard} (hp : guards.Perm others) :
    tally guards = tally others := by
  rw [tally, tally, hp.countP_eq, hp.countP_eq]

theorem tally_cons (g : Guard) (guards : List Guard) :
    tally (g :: guards) = (tally guards).take g.mode := by
  cases hm : g.mode <;> simp [tally, Holds.take, hm]

theorem tally_append_singleton (guards : List Guard) (g : Guard) :
    tally (guards ++ [g]) = (tally guards).take g.mode := by
  rw [tally_perm (List.perm_append_singleton g guards), tally_cons]

theorem total_tally (guards : List Guard) : (tally guards).total = guards.length := by
  induction guards with
  | nil => rfl
  | cons g guards ih =>
    rw [tally_cons, List.length_cons, ← ih]
    cases g.mode <;> simp only [Holds.take, Holds.total] <;> omega

theorem release_tally_cons (g : Guard) (guards : List Guard) :
    (tally (g :: guards)).release g.mode = tally guards := by
  rw [tally_cons]
  cases g.mode <;> rfl

theorem tally_pos_of_mem {g : Guard} {guards : List Guard} (hmem : g ∈ guards) :
    0 < (tally guards).of g.mode := by
  cases hm : g.mode
  · exact List.countP_pos_iff.2 ⟨g, hmem, by rw [hm]; rfl⟩
  · exact List.countP_pos_iff.2 ⟨g, hmem, by rw [hm]; rfl⟩

end Guard

namespace Guarded

variable {L W F : Type} [Place W] [RawLock L W F]

def Operation.byGuard : Operation → Bool
  | .acquire _ _ => true
  | .tryAcquire _ _ => true
  | .upgrade _ => true
  | .downgrade _ => true
  | .drop _ => true
  | _ => false

/-- Who has a hold or waits for one: the guards alive, and the calls asleep. -/
def owners (g : Guarded L W) : List Caller :=
  g.guards.map Guard.owner ++ g.calls.sleepers.map (·.caller)

omit [Place W] [RawLock L W F] in
theorem kept_inj {r r' : Report F (Guarded L W)} (h : kept r = kept r') : r = r' := by
  obtain ⟨answer, returned, notes, after⟩ := r
  cases h
  rfl

omit [Place W] [RawLock L W F] in
theorem guard?_eq_some {g : Guarded L W} {slot : String} {guard : Guard}
    (h : g.guard? slot = some guard) : guard ∈ g.guards ∧ guard.slot = slot :=
  ⟨List.mem_of_find?_eq_some h, by simpa using List.find?_some h⟩

/-- Only an upgrade is refused, where the lock would make it wait. -/
theorem perform_refused {g : Guarded L W} {op : Operation}
    (h : (g.perform (F := F) op).answer = .refused) :
    ∃ slot, op = .upgrade slot ∧ g.guard? slot = some ⟨slot, .read⟩ ∧
      (g.calls.request (F := F) .upgrade).reply = .wouldBlock ∧
      g.perform (F := F) op = kept (g.absorb (g.calls.request .upgrade) .refused) := by
  have hseat (slot : String) (m : Mode) (out : Outcome L W F Caller) :
      (kept (g.seat slot m out)).answer ≠ .refused := by
    unfold seat
    split <;> nofun
  cases hd : g.demand? op with
  | none =>
    obtain rfl | ⟨denial, hr⟩ := perform_denied (F := F) hd
    · simp only [perform, destroy] at h
      split at h <;> cases h
    · rw [hr] at h
      cases h
  | some d =>
    cases makes_of_demand hd with
    | lock m label => cases h
    | request r => cases h
    | @acquire slot m hfree =>
      rw [perform, acquire_of_free m hfree] at h
      exact absurd h (hseat slot m _)
    | @tryAcquire slot m hfree =>
      rw [perform, tryAcquire_of_free m hfree] at h
      exact absurd h (hseat slot m _)
    | @upgrade slot owner hs =>
      obtain ⟨-, rfl⟩ := guard?_eq_some hs
      have hasleep : (g.calls.request (F := F) .upgrade).reply ≠ .asleep :=
        Reply.ofAttempt_ne_asleep _
      simp only [perform, upgrade, hs] at h ⊢
      cases hreply : (g.calls.request (F := F) .upgrade).reply with
      | wouldBlock => exact ⟨owner, rfl, hs, rfl, rfl⟩
      | asleep => exact absurd hreply hasleep
      | done =>
        rw [hreply] at h
        cases h
      | fault f =>
        rw [hreply] at h
        cases h
    | downgrade hs =>
      simp only [perform, kept, downgrade, hs] at h
      split at h <;> cases h
    | drop hs =>
      rw [perform, drop_of_guard hs] at h
      cases h

section Slots

variable {g : Guarded L W} {slot : String} {guard : Guard}

omit [Place W] [RawLock L W F] in
theorem not_mem_owners (h : g.taken slot = false) : .guard slot ∉ g.owners := by
  rw [taken, Bool.or_eq_false_iff, guard?, Option.isSome_eq_false_iff, Option.isNone_iff_eq_none,
    List.find?_eq_none, List.any_eq_false] at h
  obtain ⟨hguards, hsleepers⟩ := h
  rw [owners, List.mem_append, List.mem_map, List.mem_map]
  rintro (⟨guard, hmem, hslot⟩ | ⟨s, hmem, hcaller⟩)
  · exact hguards guard hmem (beq_iff_eq.2 (Caller.guard.inj hslot))
  · exact hsleepers s hmem (beq_iff_eq.2 hcaller)

omit [Place W] [RawLock L W F] in
theorem put_of_not_mem (h : .guard slot ∉ g.owners) (m : Mode) :
    (g.put slot m).guards = g.guards ++ [⟨slot, m⟩] := by
  have hkept : g.guards.filter (·.slot != slot) = g.guards := by
    rw [List.filter_eq_self]
    intro guard hmem
    rw [bne_iff_ne]
    rintro rfl
    exact h (List.mem_append_left _ (List.mem_map_of_mem hmem))
  rw [put, forget, hkept]

omit [Place W] [RawLock L W F] in
theorem guards_perm (hd : g.owners.Nodup) (h : g.guard? slot = some guard) :
    g.guards.Perm (guard :: (g.forget slot).guards) := by
  have hslots := (List.nodup_append.1 hd).1
  simp only [guard?, forget] at h ⊢
  generalize g.guards = guards at h hslots
  induction guards with
  | nil => cases h
  | cons first later ih =>
    rw [List.map_cons, List.nodup_cons] at hslots
    cases hfirst : first.slot == slot with
    | false =>
      simp only [List.find?_cons, List.filter_cons, bne, hfirst] at h ⊢
      exact ((ih h hslots.2).cons first).trans (.swap guard first _)
    | true =>
      have hothers : later.filter (·.slot != slot) = later := by
        rw [List.filter_eq_self]
        intro other hmem
        rw [bne_iff_ne]
        intro hsame
        refine hslots.1 (List.mem_map.2 ⟨other, hmem, ?_⟩)
        rw [Guard.owner, Guard.owner, hsame, beq_iff_eq.1 hfirst]
      simp only [List.find?_cons, List.filter_cons, bne, hfirst] at h hothers ⊢
      cases h
      rw [if_neg (by decide), hothers]

end Slots

section Arrivals

variable {returned : List (Returned Caller F)}

theorem slots_arrivals (hgranted : returned.all (·.granted) = true)
    (hcallers : ∀ r ∈ returned, ∃ slot, r.caller = .guard slot) :
    (arrivals returned).map Guard.owner = returned.map (·.caller) := by
  induction returned with
  | nil => rfl
  | cons r later ih =>
    obtain ⟨⟨slot, hslot⟩, hlater⟩ := List.forall_mem_cons.1 hcallers
    obtain ⟨hfirst, hrest⟩ := Bool.and_eq_true_iff.1 hgranted
    obtain ⟨caller, mode, result⟩ := r
    cases hslot
    cases result with
    | error f => cases hfirst
    | ok u => exact congrArg (Caller.guard slot :: ·) (ih hrest hlater)

theorem tally_append_arrivals (guards : List Guard) (hgranted : returned.all (·.granted) = true)
    (hcallers : ∀ r ∈ returned, ∃ slot, r.caller = .guard slot) :
    Guard.tally (guards ++ arrivals returned) =
      Returned.welcome returned (Guard.tally guards) := by
  induction returned generalizing guards with
  | nil => rw [arrivals, List.filterMap_nil, List.append_nil]; rfl
  | cons r later ih =>
    obtain ⟨⟨slot, hslot⟩, hlater⟩ := List.forall_mem_cons.1 hcallers
    obtain ⟨hfirst, hrest⟩ := Bool.and_eq_true_iff.1 hgranted
    obtain ⟨caller, mode, result⟩ := r
    cases hslot
    cases result with
    | error f => cases hfirst
    | ok u =>
      have harrivals : arrivals (F := F) (⟨.guard slot, mode, .ok u⟩ :: later) =
          ⟨slot, mode⟩ :: arrivals later := rfl
      rw [harrivals, List.append_cons, ih _ hrest hlater, Guard.tally_append_singleton]
      cases mode <;> simp [Returned.welcome, Holds.take, Returned.granted, Except.isOk,
        Except.toBool] <;> omega

end Arrivals

/-- The grants that are out are those of the guards alive, which differ in their slots from each
other and from the guards that are waited for. -/
structure Owned (h : Holds) (g : Guarded L W) : Prop where
  holds : h = Guard.tally g.guards
  distinct : g.owners.Nodup
  callers : ∀ s ∈ g.calls.sleepers, ∃ slot, s.caller = .guard slot

namespace Owned

variable {h : Holds} {g : Guarded L W} {slot : String}

omit [Place W] [RawLock L W F] in
theorem perm (ho : Owned h g) {sleepers : List (Sleeper Caller W)}
    (hp : sleepers.Perm g.calls.sleepers) : Owned h (g.withSleepers sleepers) where
  holds := ho.holds
  distinct := ((hp.map _).append_left _).nodup_iff.2 ho.distinct
  callers := fun s hmem ↦ ho.callers s (hp.mem_iff.1 hmem)

theorem of_served {guards : List Guard} {d : Demand Caller}
    (hgranted : (g.calls.serve (F := F) d).returned.all (·.granted) = true)
    (hdistinct : (guards.map Guard.owner ++
      (g.calls.sleepers.map (·.caller) ++ (g.calls.serve (F := F) d).joins d)).Nodup)
    (hsleepers : ∀ s ∈ g.calls.sleepers, ∃ slot, s.caller = .guard slot)
    (hjoins : ∀ caller ∈ (g.calls.serve (F := F) d).joins d, ∃ slot, caller = .guard slot) :
    Owned (Returned.welcome (g.calls.serve (F := F) d).returned (Guard.tally guards))
      ⟨(g.calls.serve (F := F) d).after,
        guards ++ arrivals (g.calls.serve (F := F) d).returned⟩ := by
  have hmoved := g.calls.callers_serve (F := F) d
  have hguard : ∀ caller ∈ (g.calls.serve (F := F) d).returned.map (·.caller) ++
      (g.calls.serve (F := F) d).after.sleepers.map (·.caller), ∃ slot, caller = .guard slot := by
    intro caller hmem
    rcases List.mem_append.1 (hmoved.mem_iff.1 hmem) with hasleep | hjoining
    · obtain ⟨s, hs, rfl⟩ := List.mem_map.1 hasleep
      exact hsleepers s hs
    · exact hjoins caller hjoining
  have hback : ∀ r ∈ (g.calls.serve (F := F) d).returned, ∃ slot, r.caller = .guard slot :=
    fun r hmem ↦ hguard _ (List.mem_append_left _ (List.mem_map_of_mem hmem))
  refine ⟨(tally_append_arrivals guards hgranted hback).symm, ?_, fun s hmem ↦ ?_⟩
  · rw [owners, List.map_append, slots_arrivals hgranted hback, List.append_assoc]
    exact (hmoved.append_left _).nodup_iff.2 hdistinct
  · exact hguard _ (List.mem_append_right _ (List.mem_map_of_mem hmem))

theorem of_request {guards : List Guard} {r : Request}
    (hgranted : (g.calls.request (F := F) r).returned.all (·.granted) = true)
    (hdistinct : (guards.map Guard.owner ++
      g.calls.sleepers.map (·.caller)).Nodup)
    (hsleepers : ∀ s ∈ g.calls.sleepers, ∃ slot, s.caller = .guard slot) :
    Owned (Returned.welcome (g.calls.request (F := F) r).returned (Guard.tally guards))
      ⟨(g.calls.request (F := F) r).after,
        guards ++ arrivals (g.calls.request (F := F) r).returned⟩ :=
  of_served (d := .request r) hgranted (by rwa [Outcome.joins_request, List.append_nil]) hsleepers
    nofun

omit [Place W] [RawLock L W F] in
theorem distinct_concat (ho : Owned h g) (hfree : .guard slot ∉ g.owners) :
    (g.owners ++ [Caller.guard slot]).Nodup := by
  refine List.nodup_append.2 ⟨ho.distinct, by simp, ?_⟩
  intro a ha b hb he
  rw [List.mem_singleton.1 hb] at he
  exact hfree (he ▸ ha)

omit [Place W] [RawLock L W F] in
theorem joins_of_seat {m : Mode} {d : Demand Caller} (out : Outcome L W F Caller)
    (hd : d = .call (.guard slot) m ∨ d = .request (.tryLock m)) :
    out.joins d = [] ∨ out.joins d = [.guard slot] ∧ out.reply = .asleep := by
  rcases hd with rfl | rfl
  · simp only [Outcome.joins]
    cases out.reply <;> simp
  · exact .inl rfl

theorem seat_of_done (ho : Owned h g) {m : Mode} {d : Demand Caller}
    (hfree : .guard slot ∉ g.owners) (hd : d = .call (.guard slot) m ∨ d = .request (.tryLock m))
    (hgranted : (g.calls.serve (F := F) d).returned.all (·.granted) = true)
    (hdone : (g.calls.serve (F := F) d).reply = .done) :
    Owned ((g.seat slot m (g.calls.serve (F := F) d)).settle (some d) h)
      (g.seat slot m (g.calls.serve (F := F) d)).after := by
  have hput := put_of_not_mem hfree m
  have htally : h.met d = Guard.tally (g.put slot m).guards := by
    rw [hput, Guard.tally_append_singleton, ← ho.holds]
    rcases hd with rfl | rfl <;> rfl
  have hnone : (g.calls.serve (F := F) d).joins d = [] := by
    rcases joins_of_seat (g.calls.serve (F := F) d) hd with hnone | ⟨-, hasleep⟩
    · exact hnone
    · rw [hdone] at hasleep
      cases hasleep
  rw [Guarded.seat_of_done hdone, Report.settle]
  change Owned (Returned.welcome _ (h.met d)) ⟨_, (g.put slot m).guards ++ _⟩
  rw [htally]
  have hnobody : ∀ caller ∈ (g.calls.serve (F := F) d).joins d,
      ∃ slot, caller = .guard slot := by
    intro caller hmem
    rw [hnone] at hmem
    cases hmem
  refine of_served hgranted ?_ ho.callers hnobody
  rw [hnone, List.append_nil, hput, List.map_append, List.append_assoc]
  have hlast := ho.distinct_concat hfree
  rw [owners, List.append_assoc] at hlast
  exact (List.perm_append_comm.append_left _).nodup_iff.1 hlast

theorem seat_of_not_done (ho : Owned h g) {m : Mode} {d : Demand Caller}
    (hfree : .guard slot ∉ g.owners) (hd : d = .call (.guard slot) m ∨ d = .request (.tryLock m))
    (hgranted : (g.calls.serve (F := F) d).returned.all (·.granted) = true)
    (hdone : (g.calls.serve (F := F) d).reply ≠ .done) :
    Owned ((g.seat slot m (g.calls.serve (F := F) d)).settle (some d) h)
      (g.seat slot m (g.calls.serve (F := F) d)).after := by
  have hjoins := joins_of_seat (g.calls.serve (F := F) d) hd
  have hunmet : (g.calls.serve (F := F) d).reply.met = false := by
    cases hreply : (g.calls.serve (F := F) d).reply <;> first | rfl | exact absurd hreply hdone
  have hsettle : (g.absorb (g.calls.serve (F := F) d)
      (.reply (g.calls.serve (F := F) d).reply)).settle (some d) h =
      Returned.welcome (g.calls.serve (F := F) d).returned (Guard.tally g.guards) := by
    simp only [Report.settle, absorb, Answer.met, hunmet, ho.holds]
    rfl
  rw [Guarded.seat_of_not_done hdone, hsettle]
  refine of_served hgranted ?_ ho.callers ?_
  · rw [← List.append_assoc]
    rcases hjoins with hnone | ⟨hone, -⟩
    · rw [hnone, List.append_nil]
      exact ho.distinct
    · rw [hone]
      exact ho.distinct_concat hfree
  · intro caller hmem
    rcases hjoins with hnone | ⟨hone, -⟩
    · rw [hnone] at hmem
      cases hmem
    · rw [hone] at hmem
      exact ⟨slot, List.mem_singleton.1 hmem⟩

theorem seat (ho : Owned h g) {m : Mode} {d : Demand Caller} (hfree : .guard slot ∉ g.owners)
    (hd : d = .call (.guard slot) m ∨ d = .request (.tryLock m))
    (hf : (g.calls.serve (F := F) d).faultless = true) :
    Owned ((g.seat slot m (g.calls.serve (F := F) d)).settle (some d) h)
      (g.seat slot m (g.calls.serve (F := F) d)).after := by
  have hgranted := (Bool.and_eq_true_iff.1 hf).2
  by_cases hdone : (g.calls.serve (F := F) d).reply = .done
  · exact ho.seat_of_done hfree hd hgranted hdone
  · exact ho.seat_of_not_done hfree hd hgranted hdone

omit [Place W] [RawLock L W F] in
theorem put_of_held (ho : Owned h g) {m : Mode} (hs : g.guard? slot = some ⟨slot, m⟩) (m' : Mode) :
    Guard.tally (g.put slot m').guards = (h.release m).take m' ∧
      ((g.put slot m').guards.map Guard.owner ++
        g.calls.sleepers.map (·.caller)).Nodup := by
  have hp := guards_perm ho.distinct hs
  have hput : (g.put slot m').guards.Perm (⟨slot, m'⟩ :: (g.forget slot).guards) :=
    List.perm_append_singleton _ _
  constructor
  · rw [Guard.tally_perm hput, Guard.tally_cons, ho.holds, Guard.tally_perm hp]
    exact congrArg (Holds.take m') (Guard.release_tally_cons ⟨slot, m⟩ _).symm
  · have hsame := (hput.map Guard.owner).trans
      (hp.map Guard.owner).symm
    exact (hsame.append_right _).nodup_iff.2 ho.distinct

omit [Place W] [RawLock L W F] in
theorem permits (ho : Owned h g) {op : Operation} (hop : op.byGuard = true) {r : Request}
    (hd : g.demand? op = some (.request r)) : h.Permits r := by
  have hpos {slot : String} {guard : Guard} (hs : g.guard? slot = some guard) :
      0 < h.of guard.mode := by
    rw [ho.holds]
    exact Guard.tally_pos_of_mem (guard?_eq_some hs).1
  cases makes_of_demand hd with
  | request _ => cases hop
  | tryAcquire m _ => trivial
  | upgrade hs => exact hpos hs
  | downgrade hs => exact hpos hs
  | drop hs => exact hpos hs

theorem upgrade (ho : Owned h g) {owner : String} (hs : g.guard? slot = some ⟨owner, .read⟩)
    (hf : (g.calls.request (F := F) .upgrade).faultless = true) :
    Owned ((g.upgrade (F := F) slot).settle (some (.request .upgrade)) h)
      (g.upgrade (F := F) slot).after := by
  obtain ⟨-, rfl⟩ := guard?_eq_some hs
  have hgranted := (Bool.and_eq_true_iff.1 hf).2
  have hunmet : Owned (Returned.welcome (g.calls.request (F := F) .upgrade).returned h)
      ⟨(g.calls.request (F := F) .upgrade).after,
        g.guards ++ arrivals (g.calls.request (F := F) .upgrade).returned⟩ := by
    rw [ho.holds]
    exact of_request hgranted ho.distinct ho.callers
  simp only [Guarded.upgrade, hs]
  cases hreply : (g.calls.request (F := F) .upgrade).reply with
  | done =>
    obtain ⟨htally, hdistinct⟩ := ho.put_of_held hs .write
    change Owned (Returned.welcome _ ((h.release .read).take .write))
      ⟨_, (g.put _ .write).guards ++ _⟩
    rw [← htally]
    exact of_request hgranted hdistinct ho.callers
  | wouldBlock => exact hunmet
  | asleep => exact hunmet
  | fault f =>
    rw [Outcome.faultless, hreply] at hf
    cases hf

theorem downgrade (ho : Owned h g) {owner : String} (hs : g.guard? slot = some ⟨owner, .write⟩)
    (hf : (g.calls.request (F := F) .downgrade).faultless = true)
    (hdone : (g.calls.request (F := F) .downgrade).reply = .done) :
    Owned ((g.downgrade (F := F) slot).settle (some (.request .downgrade)) h)
      (g.downgrade (F := F) slot).after := by
  obtain ⟨-, rfl⟩ := guard?_eq_some hs
  obtain ⟨htally, hdistinct⟩ := ho.put_of_held hs .read
  simp only [Guarded.downgrade, hs, hdone]
  change Owned (Returned.welcome _ ((h.release .write).take .read)) ⟨_, (g.put _ .read).guards ++ _⟩
  rw [← htally]
  exact of_request (Bool.and_eq_true_iff.1 hf).2 hdistinct ho.callers

theorem drop (ho : Owned h g) {guard : Guard} (hs : g.guard? slot = some guard)
    (hf : (g.calls.request (F := F) (.unlock guard.mode)).faultless = true)
    (hdone : (g.calls.request (F := F) (.unlock guard.mode)).reply = .done) :
    Owned ((g.drop (F := F) slot).settle (some (.request (.unlock guard.mode))) h)
      (g.drop (F := F) slot).after := by
  have hp := guards_perm ho.distinct hs
  have htally : Guard.tally (g.forget slot).guards = h.release guard.mode := by
    rw [ho.holds, Guard.tally_perm hp, Guard.release_tally_cons]
  have hdistinct : ((g.forget slot).guards.map Guard.owner ++
      g.calls.sleepers.map (·.caller)).Nodup := by
    have hall := ((hp.map Guard.owner).append_right _).nodup_iff.1 ho.distinct
    exact (List.nodup_cons.1 hall).2
  have hmet : (g.calls.request (F := F) (.unlock guard.mode)).reply.met = true := by
    rw [hdone]
    rfl
  have hsettle : (g.drop (F := F) slot).settle (some (.request (.unlock guard.mode))) h =
      Returned.welcome (g.calls.request (F := F) (.unlock guard.mode)).returned
        (Guard.tally (g.forget slot).guards) := by
    rw [htally]
    simp only [Guarded.drop, hs, Guarded.release, Guarded.request, absorb, Report.settle,
      Answer.met]
    rw [if_pos (show ((g.forget slot).calls.request (F := F) _).reply.met = true from hmet)]
    rfl
  rw [hsettle]
  simp only [Guarded.drop, hs]
  exact of_request (Bool.and_eq_true_iff.1 hf).2 hdistinct ho.callers

theorem perform (ho : Owned h g) {op : Operation} (hop : op.byGuard = true) {d : Demand Caller}
    (hd : g.demand? op = some d) (hf : (g.calls.serve (F := F) d).faultless = true)
    (hdone : ∀ r, d = .request r → r.certain = true → (g.calls.serve (F := F) d).reply = .done)
    {r : Report F (Guarded L W)} (hr : g.perform op = kept r) :
    Owned (r.settle (some d) h) r.after := by
  cases makes_of_demand hd with
  | lock _ _ => cases hop
  | request _ => cases hop
  | acquire m hfree =>
    rw [← kept_inj hr, acquire_of_free m hfree]
    exact ho.seat (not_mem_owners hfree) (.inl rfl) hf
  | tryAcquire m hfree =>
    rw [← kept_inj hr, tryAcquire_of_free m hfree]
    exact ho.seat (not_mem_owners hfree) (.inr rfl) hf
  | upgrade hs =>
    rw [← kept_inj hr]
    exact ho.upgrade hs hf
  | downgrade hs =>
    rw [← kept_inj hr]
    exact ho.downgrade hs hf (hdone .downgrade rfl rfl)
  | @drop slot guard hs =>
    rw [← kept_inj hr]
    exact ho.drop hs hf (hdone (.unlock guard.mode) rfl rfl)

end Owned

end Guarded

end SyncKit
