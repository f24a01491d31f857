import SyncKit.Proofs.Lock.Admission

namespace SyncKit

theorem Holds.total_release {h : Holds} {m : Mode} (hpos : 0 < h.of m) :
    (h.release m).total + 1 = h.total := by
  cases m <;> simp only [Holds.of, Holds.release, Holds.total] at hpos ⊢ <;> omega

theorem Guarded.teardown_iff {L W F : Type} [Place W] [RawLock L W F] {g : Guarded L W} {P : Prop}
    (h : RawLock.destroy (F := F) g.calls.lock = .ok () ↔ P) :
    ((g.perform (F := F) .destroy).answer = .reply .done ↔ P) ∧
      (¬ P → ∃ f : F, (g.perform .destroy).answer = .reply (.fault f)) := by
  rw [← h]
  cases hd : RawLock.destroy (F := F) g.calls.lock with
  | ok => exact ⟨iff_of_true (answer_destroy_of_ok hd) rfl, fun hn ↦ absurd rfl hn⟩
  | error f =>
    have hfault := answer_destroy_of_error hd
    refine ⟨iff_of_false (fun hdone ↦ ?_) nofun, fun _ ↦ ⟨f, hfault⟩⟩
    cases hfault.symm.trans hdone

namespace Situation

variable {L W F : Type} [Place W] [RawLock L W F]

structure HandsOn (I : Holds → Contended L W Caller → Prop) (h : Holds)
    (sleepers : List (Sleeper Caller W)) (out : Outcome L W F Caller) : Prop where
  reply : out.reply = .done
  granted : out.returned.all (·.granted) = true
  conserved : (out.returned ++ out.after.sleepers.map Sleeper.granted).Perm
    (sleepers.map Sleeper.granted)
  kept : I (Returned.welcome out.returned h) out.after

/-- A property of locks between two operations that releases keep, in whatever order the sleepers
are taken. -/
structure Releasable (I : Holds → Contended L W Caller → Prop) : Prop where
  perm : ∀ {h : Holds} {c : Contended L W Caller} {sleepers : List (Sleeper Caller W)}, I h c →
    sleepers.Perm c.sleepers → I h { c with sleepers }
  unlock : ∀ {h : Holds} {c : Contended L W Caller} {m : Mode}, I h c → 0 < h.of m →
    HandsOn (F := F) I (h.release m) c.sleepers (c.request (.unlock m))

/-- An operation that gives back one of the grants that are out, with a guard or without one. -/
def Releasing (s : Situation L W) (move : Move L W F) (_ : Situation L W) : Prop :=
  ∃ m, s.guarded.demand? move.op = some (.request (.unlock m)) ∧ 0 < s.holds.of m

/-- What came of releases that were made one after the other: nobody faulted, whoever returned has
the lock, and each release took one from the grants and the sleepers together. -/
structure Released (s : Situation L W) (moves : List (Move L W F)) (t : Situation L W) : Prop where
  faultless : ∀ move ∈ moves, move.report.faultless = true
  done : ∀ move ∈ moves, move.report.answer = .reply .done
  count : moves.length + (t.holds.total + t.calls.sleepers.length) =
    s.holds.total + s.calls.sleepers.length
  conserved : (returns moves ++ t.calls.sleepers.map Sleeper.granted).Perm
    (s.calls.sleepers.map Sleeper.granted)

variable {I : Holds → Contended L W Caller → Prop} {s t u : Situation L W} {move : Move L W F}
  {moves : List (Move L W F)}

namespace Released

omit [RawLock L W F] in
theorem nil (s : Situation L W) : Released (F := F) s [] s :=
  ⟨fun _ hmem ↦ absurd hmem List.not_mem_nil, fun _ hmem ↦ absurd hmem List.not_mem_nil,
    Nat.zero_add _, .refl _⟩

omit [RawLock L W F] in
theorem cons (hfirst : Released s [move] t) (hlater : Released t moves u) :
    Released s (move :: moves) u where
  faultless := List.forall_mem_cons.2
    ⟨hfirst.faultless _ (List.mem_singleton_self _), hlater.faultless⟩
  done := List.forall_mem_cons.2 ⟨hfirst.done _ (List.mem_singleton_self _), hlater.done⟩
  count := by
    have hone := hfirst.count
    have hrest := hlater.count
    rw [List.length_singleton] at hone
    rw [List.length_cons]
    omega
  conserved := by
    have hone := hfirst.conserved
    simp only [returns, List.flatMap_cons, List.flatMap_nil, List.append_nil] at hone ⊢
    rw [List.append_assoc]
    exact (hlater.conserved.append_left _).trans hone

end Released

theorem Releasable.step (hI : Releasable (F := F) I) (hs : I s.holds s.calls)
    (hstep : Step s move t) (hrelease : Releasing s move t) :
    I t.holds t.calls ∧ Released s [move] t := by
  obtain ⟨m, hd, hpos⟩ := hrelease
  obtain ⟨sleepers, hp, out, hout, hanswer, hcalls, hholds, hreturned⟩ :=
    hstep.echoes hd (Guarded.converts_of_demand hd rfl)
  have ho := hI.unlock (hI.perm hs hp) hpos
  change _ = Contended.request (.unlock m) { s.calls with sleepers } at hout
  rw [← hout] at ho
  have hdone := hanswer.trans (congrArg Guarded.Answer.reply ho.reply)
  have hafter : t.holds = Returned.welcome out.returned (s.holds.release m) := by
    rw [hholds, Outcome.settle, ho.reply]
    rfl
  have hsum : out.returned.length + out.after.sleepers.length = sleepers.length :=
    Returned.length_of_conserved ho.conserved
  have htotal := Returned.total_welcome ho.granted (s.holds.release m)
  have hgiven := Holds.total_release hpos
  have hlen : sleepers.length = s.calls.sleepers.length := hp.length_eq
  rw [← hafter] at htotal
  refine ⟨by rw [hafter, hcalls]; exact ho.kept, List.forall_mem_singleton.2 ?_,
    List.forall_mem_singleton.2 hdone, ?_, ?_⟩
  · rw [Guarded.Report.faultless, hdone, hreturned, ho.granted]
    rfl
  · rw [List.length_singleton, hcalls]
    omega
  · rw [returns, List.flatMap_cons, List.flatMap_nil, List.append_nil, hreturned, hcalls]
    exact ho.conserved.trans (hp.map _)

theorem Releasable.run (hI : Releasable (F := F) I) (hs : I s.holds s.calls)
    (hrun : Run Releasing s moves t) : I t.holds t.calls ∧ Released s moves t := by
  induction hrun with
  | nil s => exact ⟨hs, .nil s⟩
  | cons hstep hrelease _ ih =>
    obtain ⟨hkept, hfirst⟩ := hI.step hs hstep hrelease
    obtain ⟨hlast, hlater⟩ := ih hkept
    exact ⟨hlast, hfirst.cons hlater⟩

theorem exists_releasing (hpos : 0 < s.holds.total) :
    ∃ (move : Move L W F) (t : Situation L W), Step s move t ∧ Releasing s move t := by
  obtain ⟨m, hm⟩ := Holds.exists_of_pos hpos
  exact ⟨_, _, .intro (.request (.unlock m)) (.refl _) rfl, m, rfl, hm⟩

end Situation

end SyncKit
