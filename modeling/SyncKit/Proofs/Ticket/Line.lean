import SyncKit.Proofs.Lock.Admission
import SyncKit.Proofs.Ticket.Peace
import SyncKit.Proofs.Ticket.Untouched

namespace SyncKit

def Returned.newWriters {κ F : Type} (returned : List (Returned κ F)) : List κ :=
  (returned.filter fun r ↦ r.granted && r.mode == .write).map (·.caller)

def Reply.slept {F : Type} : Reply F → Bool
  | .asleep => true
  | _ => false

def Demand.writer? {κ : Type} : Demand κ → Option κ
  | .call caller .write => some caller
  | _ => none

def Outcome.sleptWriters {L W F κ : Type} (d : Demand κ) (out : Outcome L W F κ) : List κ :=
  if out.reply.slept then d.writer?.toList else []

namespace Guarded

def Operation.writer? : Operation → Option Caller
  | .lock .write label => some (.call label)
  | .acquire slot .write => some (.guard slot)
  | _ => none

theorem writer?_of_demand {L W : Type} {g : Guarded L W} {op : Operation} {d : Demand Caller}
    (hd : g.demand? op = some d) : d.writer? = op.writer? := by
  cases asks_of_demand hd with
  | lock m label => cases m <;> rfl
  | acquire slot m => cases m <;> rfl
  | _ => rfl

def Answer.slept {F : Type} : Answer F → Bool
  | .reply r => r.slept
  | _ => false

end Guarded

namespace Situation

variable {L W F : Type}

def Move.sleptWriters (move : Move L W F) : List Caller :=
  if move.report.answer.slept then move.op.writer?.toList else []

def sleptWriters (moves : List (Move L W F)) : List Caller := moves.flatMap Move.sleptWriters

/-- The writers that slept and came back, in the order in which they did. -/
def servedWriters (moves : List (Move L W F)) : List Caller :=
  moves.flatMap fun move ↦ Returned.newWriters move.report.returned

end Situation

namespace TicketLock

variable {κ : Type}

section Requests

theorem requests_resume (s : Sleeper κ Wait) (l : TicketLock) :
    (Contended.resume (F := Fault) s l).lock.requests = l.requests := by
  have hresume := (untouched_resume s.wait l).requests
  simp only [Contended.resume, Contended.conclude]
  split
  · split
    · exact hresume
    · exact hresume
  · exact hresume

theorem requests_resumeAll (l : TicketLock) (ws : List (Sleeper κ Wait)) :
    (Contended.resumeAll (F := Fault) l ws).lock.requests = l.requests := by
  induction ws generalizing l with
  | nil => rfl
  | cons s later ih =>
    have hlater := (ih _).trans (requests_resume s l)
    simp only [Contended.resumeAll]
    split <;> exact hlater

theorem requests_serve (r : Request) (c : Contended TicketLock Wait κ) :
    (c.request (F := Fault) r).after.lock.requests = c.lock.requests :=
  (requests_resumeAll _ _).trans (untouched_request r c.lock).requests

end Requests

/-- The ticket that is served next is the one that the first sleeping writer holds. -/
theorem Balanced.next_eq {h : Holds} {c : Contended TicketLock Wait κ} {n : Nat} (hb : Balanced h c)
    (hrequests : c.lock.requests = Int32.ofNat (n + c.sleeping .write)) :
    c.lock.completions + Int32.ofNat h.writes = Int32.ofNat n := by
  have hsum := hrequests.symm.trans hb.requests
  rw [Int32.ofNat_add n, Int32.ofNat_add h.writes, ← Int32.add_assoc] at hsum
  exact ((Int32.add_left_inj _).1 hsum).symm

/-- The sleeping writers in the order of their tickets, of which the first is number `n`. -/
structure Lined (n : Nat) (line : List (Sleeper κ Wait)) (c : Contended TicketLock Wait κ) :
    Prop where
  writers : line.Perm (c.sleepers.filter (·.mode == .write))
  tickets : line.map (·.wait.ticket?) = (ticketsFrom (Int32.ofNat n) line.length).map some
  requests : c.lock.requests = Int32.ofNat (n + line.length)

namespace Lined

variable {h : Holds} {c c' : Contended TicketLock Wait κ} {n : Nat} {line : List (Sleeper κ Wait)}

theorem perm (hl : Lined n line c) {sleepers : List (Sleeper κ Wait)}
    (hp : sleepers.Perm c.sleepers) : Lined n line { c with sleepers } :=
  { hl with writers := hl.writers.trans (hp.symm.filter _) }

theorem length_eq (hl : Lined n line c) : line.length = c.sleeping .write :=
  hl.writers.length_eq.trans List.countP_eq_length_filter.symm

theorem eq_nil_iff (hl : Lined n line c) : line = [] ↔ c.sleeping .write = 0 := by
  rw [← List.length_eq_zero_iff, hl.length_eq]

theorem keep (hl : Lined n line c) (hrequests : c'.lock.requests = c.lock.requests)
    (hp : (c.sleepers.filter (·.mode == .write)).Perm (c'.sleepers.filter (·.mode == .write))) :
    Lined n line c' where
  writers := hl.writers.trans hp
  tickets := hl.tickets
  requests := hrequests.trans hl.requests

theorem join (hl : Lined n line c) {s : Sleeper κ Wait}
    (hs : s.wait.ticket? = some c.lock.requests)
    (hrequests : c'.lock.requests = c.lock.requests + 1) (hc : c'.sleepers = c.sleepers ++ [s]) :
    Lined n (line ++ [s]) c' where
  writers := by
    have hlast : [s].filter (·.mode == .write) = [s] :=
      List.filter_eq_self.2 (List.forall_mem_singleton.2 (beq_iff_eq.2 (mode_of_ticket? hs)))
    rw [hc, List.filter_append, hlast]
    exact hl.writers.append_right [s]
  tickets := by
    rw [List.map_append, hl.tickets, List.length_append, List.length_singleton,
      ticketsFrom_succ_last, List.map_append, List.map_singleton, List.map_singleton, hs,
      hl.requests, Int32.ofNat_add]
  requests := by
    rw [hrequests, hl.requests, List.length_append, ← Nat.add_assoc, Int32.ofNat_add (n + _)]
    rfl

theorem leave (hl : Lined n line c) (hb : Balanced h c') {first : Sleeper κ Wait}
    (hrequests : c'.lock.requests = c.lock.requests)
    (hp : (c.sleepers.filter (·.mode == .write)).Perm
      (first :: c'.sleepers.filter (·.mode == .write))) (hfew : c'.sleepers.length < 2 ^ 30) :
    ∃ rest, line = first :: rest ∧ Lined (n + 1) rest c' := by
  have hline := hl.writers.trans hp
  have hcount : c'.sleeping .write = (c'.sleepers.filter (·.mode == .write)).length :=
    List.countP_eq_length_filter
  have hle := c'.sleeping_le .write
  cases line with
  | nil => cases hline.nil_eq
  | cons head rest =>
    have htickets := hl.tickets
    rw [List.length_cons, ticketsFrom_succ, List.map_cons, List.map_cons] at htickets
    obtain ⟨hhead, hrest⟩ := List.cons_eq_cons.1 htickets
    have hlength : rest.length = c'.sleeping .write := by
      have hlen := hline.length_eq
      rw [List.length_cons, List.length_cons] at hlen
      omega
    have hnext : c'.lock.completions + Int32.ofNat h.writes = Int32.ofNat (n + 1) :=
      hb.next_eq <| by
        rw [hrequests, hl.requests, List.length_cons, hlength, ← Nat.add_assoc, Nat.add_right_comm]
    have hsame : head = first := by
      rcases List.mem_cons.1 (hline.mem_iff.1 List.mem_cons_self) with hsame | hlater
      · exact hsame
      · -- Whoever sleeps on has a later ticket.
        have hmem : Int32.ofNat n ∈ TicketLock.tickets c'.sleepers :=
          List.mem_filterMap.2 ⟨head, (List.mem_filter.1 hlater).1, hhead⟩
        rw [hb.line.mem_iff, hnext, Int32.ofNat_add n, ticketsFrom] at hmem
        obtain ⟨k, hk, he⟩ := List.mem_map.1 hmem
        rw [List.mem_range] at hk
        have hzero : Int32.ofNat n + Int32.ofNat (1 + k) = Int32.ofNat n + Int32.ofNat 0 := by
          rw [Int32.ofNat_add 1, ← Int32.add_assoc]
          exact he.trans (Int32.add_zero _).symm
        rw [Word.add_ofNat_inj _ (by omega) (by omega)] at hzero
        omega
    subst hsame
    refine ⟨rest, rfl, hline.cons_inv, ?_, ?_⟩
    · rw [hrest, Int32.ofNat_add]
      rfl
    · rw [hrequests, hl.requests, List.length_cons]
      congr 1
      omega

theorem newWriters_map_granted (ws : List (Sleeper κ Wait)) :
    Returned.newWriters (F := Fault) (ws.map Sleeper.granted) =
      (ws.filter (·.mode == .write)).map (·.caller) := by
  rw [Returned.newWriters, List.filter_map, List.map_map]
  rfl

/-- A request lets in the first in line, or no writer at all. -/
theorem request (hl : Lined n line c) (hs : Sound h c) (r : Request)
    (hf : (c.request (F := Fault) r).faultless = true) :
    let out := c.request (F := Fault) r
    let served := Returned.newWriters out.returned
    served.length ≤ 1 ∧ ∃ line', served ++ line'.map (·.caller) = line.map (·.caller) ∧
      Lined (n + served.length) line' out.after := by
  have ho := hs.serveRequest r hf
  obtain ⟨gone, hreturned, hp, hone⟩ := ho.left
  have hrequests := requests_serve r c
  have hwriters := hp.filter (·.mode == .write)
  rw [List.filter_append] at hwriters
  rw [List.countP_eq_length_filter] at hone
  dsimp only at hreturned ⊢
  rw [hreturned, newWriters_map_granted, List.length_map]
  refine ⟨hone, ?_⟩
  cases hg : gone.filter (·.mode == .write) with
  | nil =>
    rw [hg] at hwriters
    exact ⟨line, rfl, hl.keep hrequests hwriters⟩
  | cons first later =>
    rw [hg, List.length_cons] at hone
    obtain rfl : later = [] := List.eq_nil_of_length_eq_zero (by omega)
    rw [hg] at hwriters
    have hfew : (c.request (F := Fault) r).after.sleepers.length < 2 ^ 30 := by
      have hlen := hp.length_eq
      have hmodest := hs.modest.sleepers
      rw [List.length_append] at hlen
      omega
    obtain ⟨rest, rfl, hrest⟩ := hl.leave ho.balanced hrequests hwriters hfew
    exact ⟨rest, rfl, hrest⟩

theorem call (hl : Lined n line c) (hs : Sound h c) (caller : κ) (m : Mode) :
    let out := c.call (F := Fault) caller m
    ∃ line', line'.map (·.caller) =
        line.map (·.caller) ++ out.sleptWriters (.call caller m) ∧
      Lined n line' out.after := by
  have hb := hs.balanced
  cases m with
  | read =>
    by_cases hq : 0 < h.writes + c.sleeping .write
    · obtain ⟨k, notes, -, henter⟩ := enter_read_of_queued hb hs.modest hq
      rw [Contended.call_of_refused (m := .read) caller (tryRead_of_queued hb hs.modest hq) henter]
      refine ⟨line, (List.append_nil _).symm, hl.keep rfl (.of_eq ?_)⟩
      dsimp only
      rw [List.filter_append]
      exact (List.append_nil _).symm
    · obtain ⟨spins, -, hcall⟩ := Contended.call_of_won (c := c) (m := .read) caller hb.spins
        (tryRead_of_free hb hs.modest (Nat.eq_zero_of_not_pos hq))
      rw [hcall]
      exact ⟨line, (List.append_nil _).symm, hl.keep rfl (.refl _)⟩
  | write =>
    by_cases hzero : c.lock.word = 0
    · have htry : RawLock.request (.tryLock .write) c.lock =
          Step.done (F := Fault) .done c.lock.jumpQueue := if_pos hzero
      obtain ⟨spins, -, hcall⟩ := Contended.call_of_won caller hb.spins htry
      rw [hcall]
      exact ⟨line, (List.append_nil _).symm, hl.keep rfl (.refl _)⟩
    · obtain ⟨wait, notes, hticket, -, henter⟩ := enter_write_of_busy hb hs.modest hzero
      rw [Contended.call_of_refused (m := .write) caller (if_neg hzero) henter]
      exact ⟨_, List.map_append, hl.join hticket rfl rfl⟩

end Lined

section Moves

variable {s t : Situation TicketLock Wait} {move : Situation.Move TicketLock Wait Fault}
  {moves : List (Situation.Move TicketLock Wait Fault)} {n : Nat}
  {line : List (Sleeper Caller Wait)}

theorem Lined.step (hl : Lined n line s.calls) (hs : Sound s.holds s.calls)
    (hstep : Situation.Step s move t) (hpeace : Peaceful s move t) :
    let served := Returned.newWriters move.report.returned
    served.length ≤ 1 ∧
      ∃ line', served ++ line'.map (·.caller) = line.map (·.caller) ++ move.sleptWriters ∧
        Lined (n + served.length) line' t.calls := by
  cases hd : s.guarded.demand? move.op with
  | none =>
    obtain ⟨sleepers, hp, hcalls, -, hreturned, denial, hanswer⟩ := hstep.denied hd
    have hslept : move.sleptWriters = [] := by
      rw [Situation.Move.sleptWriters, hanswer]
      rfl
    rw [hreturned, hslept, hcalls]
    exact ⟨Nat.zero_le 1, line, (List.append_nil _).symm, hl.perm hp⟩
  | some d =>
    have hwriter := Guarded.writer?_of_demand hd
    cases d with
    | call caller m =>
      obtain ⟨sleepers, hp, out, rfl, hanswer, hcalls, -, hreturned⟩ := hstep.attends hd rfl
      have hs' := hs.perm hp
      have hnobody := (hs'.call caller m).1
      obtain ⟨line', hline, hl'⟩ := (hl.perm hp).call hs' caller m
      have hslept : move.sleptWriters = Outcome.sleptWriters (.call caller m)
          (Contended.call (F := Fault) caller m { s.calls with sleepers }) := by
        rw [Situation.Move.sleptWriters, hanswer, ← hwriter]
        rfl
      have hnone : move.report.returned = [] := hreturned.trans hnobody
      rw [hnone, hslept, hcalls]
      exact ⟨Nat.zero_le 1, line', hline, hl'⟩
    | request r =>
      obtain ⟨sleepers, hp, out, rfl, hfaultless, -, hserved⟩ := hstep.serves_demand hd
      have hf := hfaultless.symm.trans hpeace.faultless
      obtain ⟨hcalls, -, hreturned⟩ := hserved (Outcome.unfaulted hf)
      obtain ⟨hone, line', hline, hl'⟩ := (hl.perm hp).request (hs.perm hp) r hf
      have hslept : move.sleptWriters = [] := by
        rw [Situation.Move.sleptWriters, ← hwriter]
        exact ite_self _
      rw [hreturned, hslept, hcalls]
      exact ⟨hone, line', hline.trans (List.append_nil _).symm, hl'⟩

theorem Lined.run (hl : Lined n line s.calls) (hs : Sound s.holds s.calls)
    (hrun : Situation.Run Peaceful s moves t) :
    (∀ move ∈ moves, (Returned.newWriters move.report.returned).length ≤ 1) ∧
      ∃ line', Situation.servedWriters moves ++ line'.map (·.caller) =
          line.map (·.caller) ++ Situation.sleptWriters moves ∧
        Lined (n + (Situation.servedWriters moves).length) line' t.calls := by
  induction hrun generalizing n line with
  | nil => exact ⟨fun _ hmem ↦ absurd hmem List.not_mem_nil, line, (List.append_nil _).symm, hl⟩
  | @cons s t u move later hstep hpeace _ ih =>
    obtain ⟨hone, middle, hmiddle, hl'⟩ := hl.step hs hstep hpeace
    obtain ⟨hones, last, hlast, hl''⟩ := ih hl' (hs.step hstep hpeace)
    refine ⟨List.forall_mem_cons.2 ⟨hone, hones⟩, last, ?_, ?_⟩
    · calc Situation.servedWriters (move :: later) ++ last.map (·.caller)
          = Returned.newWriters move.report.returned ++
              (Situation.servedWriters later ++ last.map (·.caller)) := List.append_assoc ..
        _ = Returned.newWriters move.report.returned ++ middle.map (·.caller) ++
              Situation.sleptWriters later := by rw [hlast, List.append_assoc]
        _ = line.map (·.caller) ++ Situation.sleptWriters (move :: later) := by
              rw [hmiddle, List.append_assoc]
              rfl
    · have hlength : (Situation.servedWriters (move :: later)).length =
          (Returned.newWriters move.report.returned).length +
            (Situation.servedWriters later).length := List.length_append
      rwa [hlength, ← Nat.add_assoc]

theorem lined_fresh (q : Quotas) :
    Lined 0 [] (Situation.fresh (W := Wait) (TicketLock.ofQuotas q).1).calls where
  writers := .nil
  tickets := rfl
  requests := rfl

/-- The writers that go to sleep come back in the order in which they did so, which is that of their
tickets, the counter wrapping as it may, and no two of them come back at once. -/
theorem writers_served_in_order (q : Quotas)
    (hrun : Situation.Run Peaceful (Situation.fresh (TicketLock.ofQuotas q).1) moves s) :
    (∀ move ∈ moves, (Returned.newWriters move.report.returned).length ≤ 1) ∧
      ∃ line : List (Sleeper Caller Wait),
        line.Perm (s.calls.sleepers.filter (·.mode == .write)) ∧
        Situation.servedWriters moves ++ line.map (·.caller) = Situation.sleptWriters moves ∧
        line.map (·.wait.ticket?) = (List.range line.length).map fun k ↦
          some (Int32.ofNat ((Situation.servedWriters moves).length + k)) := by
  obtain ⟨hone, line, hline, hl⟩ := (lined_fresh q).run (sound_fresh q) hrun
  refine ⟨hone, line, hl.writers, hline, ?_⟩
  rw [hl.tickets, ticketsFrom, List.map_map, Nat.zero_add]
  apply List.map_congr_left
  intro k _
  rw [Int32.ofNat_add]
  rfl

theorem writers_served_in_order_of_three :
    ∃ moves s, Situation.Run Peaceful (Situation.fresh (TicketLock.ofQuotas {}).1) moves s ∧
      Situation.sleptWriters moves = [.call "first", .call "second", .guard "third"] ∧
      Situation.servedWriters moves = [.call "first", .call "second"] ∧
      ∃ last : Sleeper Caller Wait, last ∈ s.calls.sleepers ∧ last.caller = .guard "third" ∧
        last.wait.ticket? = some 2 := by
  -- A reader becomes the writer ahead of all three, and those that it wakes run in reverse.
  obtain ⟨moves, s, hrun, hslept, hserved⟩ :
      ∃ moves s, Situation.Run Peaceful (Situation.fresh (TicketLock.ofQuotas {}).1) moves s ∧
        Situation.sleptWriters moves = [.call "first", .call "second", .guard "third"] ∧
        Situation.servedWriters moves = [.call "first", .call "second"] :=
    ⟨_, _,
      .cons (.intro (.request (.tryLock .read)) (.refl _) rfl) ⟨rfl, by decide, by decide⟩ <|
      .cons (.intro (.lock .write "first") (.refl _) rfl) ⟨rfl, by decide, by decide⟩ <|
      .cons (.intro (.lock .write "second") (.refl _) rfl) ⟨rfl, by decide, by decide⟩ <|
      .cons (.intro (.acquire "third" .write) (.refl _) rfl) ⟨rfl, by decide, by decide⟩ <|
      .cons (.intro (.request .upgrade) (.refl _) rfl) ⟨rfl, by decide, by decide⟩ <|
      .cons (.intro (.request .downgrade) (.refl _) rfl) ⟨rfl, by decide, by decide⟩ <|
      .cons (.intro (.request (.unlock .read)) (List.reverse_perm _) rfl)
        ⟨rfl, by decide, by decide⟩ <|
      .cons (.intro (.request (.unlock .write)) (List.reverse_perm _) rfl)
        ⟨rfl, by decide, by decide⟩ <|
      .nil _, rfl, rfl⟩
  obtain ⟨-, line, hwriters, hline, htickets⟩ := writers_served_in_order {} hrun
  rw [hslept, hserved] at hline
  rw [hserved] at htickets
  have hcallers : line.map (·.caller) = [.guard "third"] := by simpa using hline
  obtain ⟨last, rfl, hcaller⟩ := List.map_eq_singleton_iff.1 hcallers
  have hmem : last ∈ s.calls.sleepers :=
    (List.mem_filter.1 (hwriters.mem_iff.1 List.mem_cons_self)).1
  exact ⟨moves, s, hrun, hslept, hserved, last, hmem, hcaller, (List.cons.inj htickets).1⟩

end Moves

end TicketLock

end SyncKit
