import SyncKit.Proofs.Ticket.Line

namespace SyncKit

def Request.Yields : Request → Prop
  | .unlock _ => True
  | .downgrade => True
  | .tryLock _ => False
  | .upgrade => False

namespace TicketLock

/-- Who comes in when a hold is given up, the line being the sleeping writers in the order of their
tickets. Behind a writer the readers come first only if the quota is spent or the line is empty. -/
def heirs {κ : Type} (l : TicketLock) (h : Holds) (readers line : List (Sleeper κ Wait)) :
    Request → List (Sleeper κ Wait)
  | .unlock .write =>
    if readers ≠ [] ∧ (l.writeQuota ≤ l.granted ∨ line = []) then readers else line.take 1
  | .unlock .read => if h.reads = 1 then line.take 1 else []
  | .downgrade => readers
  | .tryLock _ => []
  | .upgrade => []

theorem heirs_perm {κ : Type} (l : TicketLock) (h : Holds)
    {readers readers' : List (Sleeper κ Wait)} (hp : readers.Perm readers')
    (line : List (Sleeper κ Wait)) (r : Request) :
    (l.heirs h readers line r).Perm (l.heirs h readers' line r) := by
  match r with
  | .unlock .read => exact .refl _
  | .unlock .write =>
    have hsome : readers ≠ [] ↔ readers' ≠ [] := by
      rw [← List.length_pos_iff, ← List.length_pos_iff, hp.length_eq]
    simp only [heirs, hsome]
    split
    · exact hp
    · exact .refl _
  | .downgrade => exact hp
  | .tryLock _ => exact .refl _
  | .upgrade => exact .refl _

/-- Exactly the heirs came back with the lock, and everybody else sleeps on as before. Readers that
came in end a sequence of writes, and a writer is counted. -/
structure PassesTo {κ : Type} (heirs sleepers : List (Sleeper κ Wait)) (granted : Int32)
    (returned : List (Returned κ Fault)) (after : Contended TicketLock Wait κ) : Prop where
  arrived : returned.Perm (heirs.map Sleeper.granted)
  asleep : (heirs ++ after.sleepers).Perm sleepers
  granted : after.lock.granted =
    if .read ∈ Returned.modes returned then 0
    else if .write ∈ Returned.modes returned then granted + 1
    else granted

section Settle

variable {κ α : Type} {h : Holds} {step : Step TicketLock Fault α}
  {sleepers : List (Sleeper κ Wait)}

theorem passesTo_nobody (hs : step.signals = []) :
    let run := Contended.settle step sleepers
    PassesTo [] sleepers step.lock.granted run.returned ⟨run.lock, run.asleep⟩ := by
  simp only [Contended.settle_of_silent hs]
  exact ⟨.refl _, .refl _, rfl⟩

theorem Balanced.passesTo_readers (hb : Balanced h ⟨step.lock, sleepers⟩) (hw : h.writes = 0)
    (hr : h.reads + sleepers.countP (·.mode == .read) ≤ 2 ^ 30)
    (hpos : sleepers.filter (·.mode == .read) ≠ []) (hs : step.signals = [.all .read]) :
    let run := Contended.settle step sleepers
    PassesTo (sleepers.filter (·.mode == .read)) sleepers step.lock.granted run.returned
      ⟨run.lock, run.asleep⟩ := by
  intro run
  obtain ⟨readers, hreturned, hreaders, hrest, hp, hgranted, -, -⟩ := hb.settle_readers hw hr rfl hs
  have hin : readers.filter (·.mode == .read) = readers :=
    List.filter_eq_self.2 fun s hmem ↦ beq_iff_eq.2 (hreaders s hmem)
  have hout : run.asleep.filter (·.mode == .read) = [] :=
    List.filter_eq_nil_iff.2 fun s hmem ↦ by rw [hrest s hmem]; decide
  have hall : (sleepers.filter (·.mode == .read)).Perm readers := by
    have hfilter := hp.filter (·.mode == .read)
    rwa [List.filter_append, hin, hout, List.append_nil] at hfilter
  obtain ⟨first, hfirst⟩ := List.exists_mem_of_ne_nil _ hpos
  have hmem := hall.mem_iff.1 hfirst
  refine ⟨?_, (hall.append_right _).trans hp.symm, ?_⟩
  · rw [hreturned]
    exact (hall.map _).symm
  · have hnonempty : readers.isEmpty = false :=
      List.isEmpty_eq_false_iff.2 (List.ne_nil_of_mem hmem)
    have hread : Mode.read ∈ readers.map (·.mode) :=
      List.mem_map.2 ⟨first, hmem, hreaders first hmem⟩
    rw [hreturned, Returned.modes_map_granted, if_pos hread, hgranted, hnonempty]
    rfl

theorem Lined.passesTo_first {n : Nat} {line : List (Sleeper κ Wait)}
    {c : Contended TicketLock Wait κ} (hl : Lined n line c)
    (hb : Balanced h ⟨step.lock, c.sleepers⟩) (hr : h.reads = 0) (hw : h.writes = 0)
    (hlen : c.sleepers.length < 2 ^ 30) (hpos : 0 < c.sleeping .write)
    (hs : step.signals = [.all .write])
    (hrequests : (Contended.settle step c.sleepers).lock.requests = c.lock.requests) :
    let run := Contended.settle step c.sleepers
    PassesTo (line.take 1) c.sleepers step.lock.granted run.returned ⟨run.lock, run.asleep⟩ := by
  intro run
  obtain ⟨first, hfirst, hreturned, hp, hgranted, -, hbal⟩ :=
    hb.settle_writers hr hw hlen hpos rfl hs
  have hmode := mode_of_ticket? hfirst
  have hwriters : (c.sleepers.filter (·.mode == .write)).Perm
      (first :: run.asleep.filter (·.mode == .write)) := by
    have hfilter := hp.filter (·.mode == .write)
    rwa [List.filter_cons_of_pos (by rw [hmode]; rfl)] at hfilter
  have hfew : run.asleep.length < 2 ^ 30 := by
    have hlength : c.sleepers.length = (first :: run.asleep).length := hp.length_eq
    rw [List.length_cons] at hlength
    omega
  obtain ⟨rest, rfl, -⟩ := hl.leave hbal hrequests hwriters hfew
  refine ⟨?_, hp.symm, ?_⟩
  · rw [hreturned]
    exact .refl _
  · have hmodes : Returned.modes run.returned = [.write] := by
      rw [hreturned, ← hmode]
      exact Returned.modes_map_granted [first]
    rw [hmodes]
    exact hgranted

end Settle

section Requests

variable {κ : Type} {h : Holds} {c : Contended TicketLock Wait κ} {n : Nat}
  {line : List (Sleeper κ Wait)}

theorem readers_ne_nil_iff :
    c.sleepers.filter (·.mode == .read) ≠ [] ↔ 0 < c.sleeping .read := by
  rw [← List.length_pos_iff, Contended.sleeping, List.countP_eq_length_filter]

namespace Sound

theorem passesTo_line (hs : Sound h c) (hl : Lined n line c) {r : Request} {h' : Holds}
    (hb : Balanced h' ⟨(RawLock.request (F := Fault) r c.lock).lock, c.sleepers⟩)
    (hr : h'.reads = 0) (hw : h'.writes = 0)
    (hgranted : (RawLock.request (F := Fault) r c.lock).lock.granted = c.lock.granted)
    (hsignals : (RawLock.request (F := Fault) r c.lock).signals =
      if 0 < c.sleeping .write then [.all .write] else []) :
    PassesTo (line.take 1) c.sleepers c.lock.granted (c.request (F := Fault) r).returned
      (c.request (F := Fault) r).after := by
  rw [← hgranted]
  split at hsignals
  · next hpos =>
    exact hl.passesTo_first hb hr hw hs.modest.sleepers hpos hsignals (requests_serve r c)
  · next hnone =>
    obtain rfl := hl.eq_nil_iff.2 (Nat.eq_zero_of_not_pos hnone)
    exact passesTo_nobody hsignals

theorem passesTo_unlockRead (hs : Sound h c) (hl : Lined n line c) (hpos : 0 < h.reads) :
    let out := c.request (F := Fault) (.unlock .read)
    PassesTo (if h.reads = 1 then line.take 1 else []) c.sleepers c.lock.granted out.returned
      out.after := by
  have hstep := unlockRead_of_held hs.balanced hs.modest hpos
  have hleft := balanced_unlockRead hs.balanced hs.modest hpos
  have hgranted : c.lock.unlockRead.lock.granted = c.lock.granted := by rw [hstep]
  have hsignals : c.lock.unlockRead.signals =
      if h.reads = 1 ∧ 0 < c.sleeping .write then [.all .write] else [] := by rw [hstep]
  by_cases hlast : h.reads = 1
  · rw [if_pos hlast]
    refine hs.passesTo_line hl hleft (Nat.sub_eq_zero_of_le (Nat.le_of_eq hlast))
      (hs.balanced.writes_eq_zero hpos) hgranted ?_
    simp only [hlast, true_and] at hsignals
    exact hsignals
  · rw [if_neg hlast]
    have hsilent : c.lock.unlockRead.signals = [] := hsignals.trans (if_neg fun h ↦ hlast h.1)
    exact hgranted ▸ passesTo_nobody hsilent

theorem passesTo_unlockWrite (hs : Sound h c) (hl : Lined n line c) (hw : h.writes = 1) :
    let out := c.request (F := Fault) (.unlock .write)
    PassesTo (c.lock.heirs h (c.sleepers.filter (·.mode == .read)) line (.unlock .write))
      c.sleepers c.lock.granted out.returned out.after := by
  obtain ⟨-, hlock, hsignals⟩ := unlockWrite_of_held hs.balanced hs.modest hw
  have hleft := balanced_unlockWrite hs.balanced hs.modest hw
  have hgranted : c.lock.unlockWrite.lock.granted = c.lock.granted := by rw [hlock]
  have hle := c.sleeping_le .read
  have hlen := hs.modest.sleepers
  rw [release_write_eq hs.balanced hw] at hleft
  simp only [heirs, readers_ne_nil_iff, hl.eq_nil_iff]
  by_cases hreaders : (c.lock.writeQuota ≤ c.lock.granted ∨ c.sleeping .write = 0) ∧
      0 < c.sleeping .read
  · rw [if_pos hreaders] at hsignals
    rw [if_pos hreaders.symm, ← hgranted]
    refine hleft.passesTo_readers rfl ?_ (readers_ne_nil_iff.2 hreaders.2) hsignals
    rw [Contended.sleeping] at hle
    dsimp only
    omega
  · rw [if_neg hreaders] at hsignals
    rw [if_neg (mt And.symm hreaders)]
    exact hs.passesTo_line hl hleft rfl rfl hgranted hsignals

theorem passesTo_downgrade (hs : Sound h c) (hw : h.writes = 1) :
    let out := c.request (F := Fault) .downgrade
    PassesTo (c.sleepers.filter (·.mode == .read)) c.sleepers c.lock.granted out.returned
      out.after := by
  have hstep := downgrade_of_held hs.balanced hw
  have hleft := balanced_downgrade hs.balanced hw
  have hgranted : c.lock.downgrade.lock.granted = c.lock.granted := by rw [hstep]
  have hsignals : c.lock.downgrade.signals =
      if 0 < c.sleeping .read then [.all .read] else [] := by rw [hstep]
  have hle := c.sleeping_le .read
  have hlen := hs.modest.sleepers
  rw [release_write_eq hs.balanced hw] at hleft
  rw [← hgranted]
  split at hsignals
  · next hpos =>
    refine hleft.passesTo_readers rfl ?_ (readers_ne_nil_iff.2 hpos) hsignals
    rw [Contended.sleeping] at hle
    simp only [Holds.take]
    omega
  · next hnone =>
    have hnil : c.sleepers.filter (·.mode == .read) = [] :=
      Classical.not_not.1 (mt readers_ne_nil_iff.1 hnone)
    rw [hnil]
    exact passesTo_nobody hsignals

theorem passesTo_heirs (hs : Sound h c) (hl : Lined n line c) {r : Request} (hy : r.Yields)
    (hheld : h.Permits r) :
    let out := c.request (F := Fault) r
    out.reply = .done ∧
      PassesTo (c.lock.heirs h (c.sleepers.filter (·.mode == .read)) line r) c.sleepers
        c.lock.granted out.returned out.after := by
  have hle := hs.balanced.writes_le
  match r with
  | .unlock .read => exact ⟨(hs.unlockRead hheld).1, hs.passesTo_unlockRead hl hheld⟩
  | .unlock .write =>
    have hw : h.writes = 1 := Nat.le_antisymm hle hheld
    exact ⟨(hs.unlockWrite hw).1, hs.passesTo_unlockWrite hl hw⟩
  | .downgrade =>
    have hw : h.writes = 1 := Nat.le_antisymm hle hheld
    exact ⟨(hs.downgrade hw).1, hs.passesTo_downgrade hw⟩

end Sound

end Requests

section Moves

variable {s : Situation TicketLock Wait} {moves : List (Situation.Move TicketLock Wait Fault)}

/-- When a hold is given up exactly its heirs come in, whatever the order in which sleepers are
woken and run. -/
theorem heirs_follow (q : Quotas)
    (hrun : Situation.Run Peaceful (Situation.fresh (TicketLock.ofQuotas q).1) moves s) :
    let l := s.calls.lock
    let readers := s.calls.sleepers.filter (·.mode == .read)
    ∃ line : List (Sleeper Caller Wait),
      line.Perm (s.calls.sleepers.filter (·.mode == .write)) ∧
      (line.map (·.wait.ticket?) = (List.range line.length).map fun k ↦
        some (l.completions + Int32.ofNat (s.holds.writes + k))) ∧
      ∀ (move : Situation.Move TicketLock Wait Fault) (t : Situation TicketLock Wait) (r : Request),
        Situation.Step s move t → s.guarded.demand? move.op = some (.request r) →
        r.Yields → s.holds.Permits r →
        let heirs := l.heirs s.holds readers line r
        let modes := Returned.modes move.report.returned
        move.report.answer.met = true ∧
          move.report.returned.Perm (heirs.map Sleeper.granted) ∧
          (heirs ++ t.calls.sleepers).Perm s.calls.sleepers ∧
          t.calls.lock.granted =
            if .read ∈ modes then 0 else if .write ∈ modes then l.granted + 1 else l.granted := by
  have hs := Sound.run hrun (sound_fresh q)
  obtain ⟨-, line, -, hl⟩ := (lined_fresh q).run (sound_fresh q) hrun
  refine ⟨line, hl.writers, ?_, fun move t r hstep hd hy hheld ↦ ?_⟩
  · have hnext := hs.balanced.next_eq (hl.requests.trans (by rw [hl.length_eq]))
    rw [hl.tickets, ticketsFrom, List.map_map, ← hnext]
    refine List.map_congr_left fun k _ ↦ congrArg some ?_
    rw [Int32.ofNat_add, ← Int32.add_assoc]
  · obtain ⟨sleepers, hp, out, hout, -, hmet, hserved⟩ := hstep.serves_demand hd
    obtain ⟨hreply, hpass⟩ := (hs.perm hp).passesTo_heirs (hl.perm hp) hy hheld
    change _ = Contended.request r { s.calls with sleepers } at hout
    rw [← hout] at hreply hpass
    obtain ⟨hcalls, -, hreturned⟩ := hserved (by rw [hreply]; rfl)
    have hheirs := heirs_perm s.calls.lock s.holds (hp.filter (·.mode == .read)) line r
    have hasleep := (hheirs.symm.append_right _).trans (hpass.asleep.trans hp)
    dsimp only
    rw [hmet, hreply, hreturned, hcalls]
    exact ⟨rfl, hpass.arrived.trans (hheirs.map _), hasleep, hpass.granted⟩

/-- Two readers and a writer sleep behind the second of two writers, whose quota is two: its release
lets in both readers and ends the sequence of writes. -/
theorem heirs_follow_of_two :
    ∃ moves s,
      Situation.Run Peaceful (Situation.fresh (TicketLock.ofQuotas { write := 2 }).1) moves s ∧
      s.calls.lock.granted = 2 ∧ s.calls.sleepers.length = 3 ∧
      ∃ (move : Situation.Move TicketLock Wait Fault) (t : _), Situation.Step s move t ∧
        (move.report.returned.map (·.caller)).Perm [.guard "fourth", .call "third"] ∧
        t.calls.sleepers.length = 1 ∧ t.calls.lock.granted = 0 := by
  obtain ⟨moves, s, hrun, hgranted, hquota, hreaders, hmodes, hsleepers, hholds, move, t, hstep,
      hd⟩ :
      ∃ moves s,
        Situation.Run Peaceful (Situation.fresh (TicketLock.ofQuotas { write := 2 }).1) moves s ∧
        s.calls.lock.granted = 2 ∧ s.calls.lock.writeQuota = 2 ∧
        (s.calls.sleepers.filter (·.mode == .read)).map (·.caller) =
          [.guard "fourth", .call "third"] ∧
        (s.calls.sleepers.filter (·.mode == .read)).map (·.mode) = [.read, .read] ∧
        s.calls.sleepers.length = 3 ∧ s.holds = ⟨0, 1⟩ ∧
        ∃ (move : Situation.Move TicketLock Wait Fault) (t : _), Situation.Step s move t ∧
          s.guarded.demand? move.op = some (.request (.unlock .write)) :=
    ⟨_, _,
      .cons (.intro (.request (.tryLock .write)) (.refl _) rfl) ⟨rfl, by decide, by decide⟩ <|
      .cons (.intro (.lock .write "first") (.refl _) rfl) ⟨rfl, by decide, by decide⟩ <|
      .cons (.intro (.lock .write "second") (.refl _) rfl) ⟨rfl, by decide, by decide⟩ <|
      .cons (.intro (.lock .read "third") (.refl _) rfl) ⟨rfl, by decide, by decide⟩ <|
      .cons (.intro (.acquire "fourth" .read) (.refl _) rfl) ⟨rfl, by decide, by decide⟩ <|
      .cons (.intro (.request (.unlock .write)) (List.reverse_perm _) rfl)
        ⟨rfl, by decide, by decide⟩ <|
      .nil _, rfl, rfl, rfl, rfl, rfl, rfl,
      _, _, .intro (.request (.unlock .write)) (List.reverse_perm _) rfl, rfl⟩
  obtain ⟨line, -, -, hyield⟩ := heirs_follow { write := 2 } hrun
  obtain ⟨-, hreturned, hasleep, hcount⟩ :=
    hyield move t (.unlock .write) hstep hd trivial (by rw [hholds]; exact Nat.one_pos)
  have hsome : s.calls.sleepers.filter (·.mode == .read) ≠ [] := fun hnil ↦ by
    rw [hnil] at hmodes
    cases hmodes
  have hspent : s.calls.lock.writeQuota ≤ s.calls.lock.granted := by
    rw [hquota, hgranted]
    decide
  simp only [heirs, if_pos (⟨hsome, .inl hspent⟩ : _ ∧ (_ ∨ line = []))] at hreturned hasleep
  have hback := (hreturned.filter (·.granted)).map (·.mode)
  change (Returned.modes _).Perm (Returned.modes _) at hback
  rw [Returned.modes_map_granted, hmodes] at hback
  have hcallers := hreturned.map (·.caller)
  rw [List.map_map] at hcallers
  have hlength := hasleep.length_eq
  rw [List.length_append, ← List.length_map (·.mode), hmodes, hsleepers] at hlength
  exact ⟨moves, s, hrun, hgranted, hsleepers, move, t, hstep, hreaders ▸ hcallers,
    Nat.add_left_cancel hlength, hcount.trans (if_pos (hback.mem_iff.2 List.mem_cons_self))⟩

end Moves

end TicketLock

end SyncKit
