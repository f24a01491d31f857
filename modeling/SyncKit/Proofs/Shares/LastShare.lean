import SyncKit.Proofs.Shares.Count

namespace SyncKit.ShareCount

variable {before later : List Operation} {last op : Operation}

/-- Whatever came before the last share was given back, the count after it is what the calls since
then have added, the refused ones included. -/
theorem toInt_after_last (c : ShareCount) (hkept : .destroy ∉ before)
    (hlast : (c.answerTo before last).any last.reportsLast = true) :
    (c.after (before ++ last :: later)).refs.toInt = (drift later).bmod (2 ^ 32) := by
  rw [answerTo_eq hkept, Option.any_some] at hlast
  have hback := giveBack_of_reportsLast hlast
  have hone := (reportsLast_iff hback).1 hlast
  have hshift : last.shift = -1 := by rcases hback with rfl | rfl <;> rfl
  have hzero : ((c.after before).after [last]).refs.toInt = 0 := by
    change (((c.after before).perform last).2.getD (c.after before)).refs.toInt = 0
    rw [toInt_shifted, hone, hshift]
    rfl
  rw [List.append_cons, after_append, after_append, toInt_after, hzero, Int.zero_add]

/-- Once the last share was given back, the calls made since decide what becomes of the next one. It
is refused as long as the count that they left is not above zero, and a count of one makes the next
share to be given back a last one again. That takes refused increments, or 2^31 calls more that give
back: as long as the increments do not outnumber these, everything is refused. -/
theorem refused_after_last_share (c : ShareCount) (hkept : .destroy ∉ before ++ last :: later)
    (hlast : (c.answerTo before last).any last.reportsLast = true) :
    let earlier := before ++ last :: later
    let left := (drift later).bmod (2 ^ 32)
    let Refused (op : Operation) : Prop := ∃ f, c.answerTo earlier op = some (.fault f)
    (Refused .increment ↔ left ≤ 0 ∨ left = 2 ^ 31 - 1) ∧
      (∀ op, op = .decrement ∨ op = .release → (Refused op ↔ left ≤ 0) ∧
        ((c.answerTo earlier op).any op.reportsLast = true ↔ left = 1)) ∧
      (-2 ^ 31 ≤ drift later → drift later ≤ 0 → ∀ op ∈ [.increment, .decrement, .release],
        Refused op ∧ (c.answerTo earlier op).any op.reportsLast = false) := by
  intro earlier left Refused
  have hbefore : .destroy ∉ before := fun hmem ↦ hkept (List.mem_append_left _ hmem)
  have hleft : (c.after earlier).refs.toInt = left := toInt_after_last c hbefore hlast
  have hanswer (op : Operation) :
      c.answerTo earlier op = some ((c.after earlier).perform op).1 := answerTo_eq hkept
  have hrefused (op : Operation) :
      Refused op ↔ ∃ f, ((c.after earlier).perform op).1 = .fault f := by
    simp only [Refused, hanswer, Option.some.injEq]
  have hincrement : Refused .increment ↔ left ≤ 0 ∨ left = 2 ^ 31 - 1 := by
    rw [hrefused, fault_increment_iff, hleft]
  have hback (op : Operation) (hop : op = .decrement ∨ op = .release) :
      (Refused op ↔ left ≤ 0) ∧
        ((c.answerTo earlier op).any op.reportsLast = true ↔ left = 1) := by
    rw [hrefused, hanswer, Option.any_some, fault_giveBack_iff hop, reportsLast_iff hop, hleft]
    exact ⟨.rfl, .rfl⟩
  refine ⟨hincrement, hback, fun hlow hhigh op hop ↦ ?_⟩
  have hnone : left ≤ 0 := by
    have hsame : left = drift later := Int.bmod_eq_of_le hlow (by omega)
    omega
  have hgiven (hop : op = .decrement ∨ op = .release) :
      Refused op ∧ (c.answerTo earlier op).any op.reportsLast = false := by
    obtain ⟨hrefused, hreports⟩ := hback op hop
    refine ⟨hrefused.2 hnone, Bool.eq_false_iff.2 fun hagain ↦ ?_⟩
    have := hreports.1 hagain
    omega
  simp only [List.mem_cons, List.not_mem_nil, or_false] at hop
  rcases hop with rfl | hop
  · refine ⟨hincrement.2 (.inl hnone), ?_⟩
    rw [hanswer]
    rfl
  · exact hgiven hop

theorem refused_after_last_share_of_two :
    ∃ c, new 2 = .ok c ∧
      (c.answerTo [.decrement] .release).any (Operation.release).reportsLast = true ∧
      drift [.decrement, .increment] = 0 ∧
      ∃ f, c.answerTo [.decrement, .release, .decrement, .increment] .increment =
        some (.fault f) := by
  -- A refused share that is given back makes up for a refused increment.
  refine ⟨⟨2⟩, rfl, rfl, rfl, ?_⟩
  obtain ⟨-, -, hrefused⟩ := @refused_after_last_share [.decrement] [.decrement, .increment]
    .release ⟨2⟩ (by decide) rfl
  exact (hrefused (by decide) (by decide) .increment (by decide)).1

/-- A refused increment brings a counter back that had reached zero: the next one takes a share of
it, and its last share is given back twice. -/
theorem last_share_twice :
    ∃ c, new 1 = .ok c ∧
      (run [.decrement, .increment, .increment, .decrement, .release] (some c)).map (·.1) =
        [.count 0, .fault .fromZero, .count 2, .count 1, .last true] :=
  ⟨⟨1⟩, rfl, rfl⟩

end SyncKit.ShareCount
