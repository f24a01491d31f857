import SyncKit.Queue.Link

namespace SyncKit.Links

/-- A stretch of a queue: its elements are owned by the queue, and each knows the one before and the
one after it. What lies before the first and after the last is given. -/
def Segment (ls : Links) (id : Ident) : Option Item → List Item → Option Item → Prop
  | _, [], _ => True
  | prev, i :: later, next =>
    ls.get i = ⟨.new (some id), prev, later.head?.or next⟩ ∧ ls.Segment id (some i) later next

def relinkNext (ls : Links) (before after : Option Item) : Links :=
  match before with
  | none => ls
  | some p => ls.update p fun l ↦ { l with next := after }

def relinkPrev (ls : Links) (before after : Option Item) : Links :=
  match after with
  | none => ls
  | some n => ls.update n fun l ↦ { l with prev := before }

variable {ls m : Links} {id : Ident} {prev next : Option Item} {xs ys : List Item} {i j : Item}

theorem size_add (ls : Links) : ls.add.size = ls.size + 1 := Array.size_push _

theorem get_add (ls : Links) (j : Item) : ls.add.get j = ls.get j := by
  rw [get, add, Array.getElem?_push]
  split
  · next he => exact (get_eq_of_le (Nat.le_of_eq he.symm)).symm
  · rfl

theorem eq_of_get (hsize : ls.size = m.size) (hget : ∀ i, ls.get i = m.get i) : ls = m := by
  obtain ⟨cells⟩ := ls
  obtain ⟨cells'⟩ := m
  refine congrArg Links.mk (Array.ext hsize fun i hi hi' ↦ ?_)
  simpa [get, hi, hi'] using hget i

theorem get_update_of_ne (h : i ≠ j) (f : Link → Link) : (ls.update i f).get j = ls.get j := by
  rw [get_update, if_neg fun hij ↦ h hij.1]

theorem get_update_self (h : i < ls.size) (f : Link → Link) :
    (ls.update i f).get i = f (ls.get i) := by
  rw [get_update, if_pos ⟨rfl, h⟩]

theorem lt_size_of_owner (h : (ls.get i).owner = .new (some id)) : i < ls.size := by
  refine Nat.lt_of_not_le fun hle ↦ id.ne_zero ?_
  rw [get_eq_of_le hle] at h
  exact (congrArg IdentCell.raw h).symm

@[simp] theorem size_relinkNext (before after : Option Item) :
    (ls.relinkNext before after).size = ls.size := by
  cases before with
  | none => rfl
  | some p => exact size_update _ _ _

@[simp] theorem size_relinkPrev (before after : Option Item) :
    (ls.relinkPrev before after).size = ls.size := by
  cases after with
  | none => rfl
  | some n => exact size_update _ _ _

theorem get_relinkNext {before : Option Item} (h : before ≠ some j) (after : Option Item) :
    (ls.relinkNext before after).get j = ls.get j := by
  cases before with
  | none => rfl
  | some p => exact get_update_of_ne (fun hp ↦ h (congrArg some hp)) _

theorem get_relinkPrev {after : Option Item} (h : after ≠ some j) (before : Option Item) :
    (ls.relinkPrev before after).get j = ls.get j := by
  cases after with
  | none => rfl
  | some n => exact get_update_of_ne (fun hn ↦ h (congrArg some hn)) _

namespace Segment

theorem owner (h : ls.Segment id prev xs next) (hi : i ∈ xs) :
    (ls.get i).owner = .new (some id) := by
  induction xs generalizing prev with
  | nil => cases hi
  | cons x xs ih =>
    rcases List.mem_cons.1 hi with rfl | hi
    · rw [h.1]
    · exact ih h.2 hi

theorem lt_size (h : ls.Segment id prev xs next) (hi : i ∈ xs) : i < ls.size :=
  lt_size_of_owner (h.owner hi)

theorem frame (h : ls.Segment id prev xs next) (hf : ∀ i ∈ xs, m.get i = ls.get i) :
    m.Segment id prev xs next := by
  induction xs generalizing prev with
  | nil => trivial
  | cons x xs ih =>
    exact ⟨(hf x List.mem_cons_self).trans h.1,
      ih h.2 fun i hi ↦ hf i (List.mem_cons_of_mem x hi)⟩

theorem get_eq_get (h : ls.Segment id prev xs next) (h' : m.Segment id prev xs next)
    (hi : i ∈ xs) : ls.get i = m.get i := by
  induction xs generalizing prev with
  | nil => cases hi
  | cons x xs ih =>
    rcases List.mem_cons.1 hi with rfl | hi
    · rw [h.1, h'.1]
    · exact ih h.2 h'.2 hi

end Segment

theorem segment_append :
    ls.Segment id prev (xs ++ ys) next ↔
      ls.Segment id prev xs (ys.head?.or next) ∧ ls.Segment id (xs.getLast?.or prev) ys next := by
  induction xs generalizing prev with
  | nil => exact (and_iff_right trivial).symm
  | cons x xs ih =>
    have hlast : (x :: xs).getLast?.or prev = xs.getLast?.or (some x) := by
      rw [List.getLast?_cons]
      cases xs.getLast? <;> rfl
    rw [List.cons_append, Segment, Segment, ih, hlast, List.head?_append, Option.or_assoc,
      and_assoc]

namespace Segment

theorem relinkNext (h : ls.Segment id prev xs next) (hx : xs.Nodup) (after : Option Item) :
    (ls.relinkNext xs.getLast? after).Segment id prev xs after := by
  cases he : xs.getLast? with
  | none =>
    rw [List.getLast?_eq_none_iff.1 he]
    trivial
  | some last =>
    obtain ⟨init, rfl⟩ := List.getLast?_eq_some_iff.1 he
    have hsize := h.lt_size (List.mem_append_right init (List.mem_singleton_self last))
    obtain ⟨hinit, hlast⟩ := segment_append.1 h
    refine segment_append.2 ⟨hinit.frame fun i hi ↦ get_update_of_ne ?_ _, ?_, trivial⟩
    · rintro rfl
      exact (List.nodup_append.1 hx).2.2 _ hi _ (List.mem_singleton_self _) rfl
    · change (ls.update last _).get last = _
      rw [get_update_self hsize, hlast.1]
      rfl

theorem relinkPrev (h : ls.Segment id prev xs next) (hx : xs.Nodup) (before : Option Item) :
    (ls.relinkPrev before xs.head?).Segment id before xs next := by
  cases xs with
  | nil => trivial
  | cons first rest =>
    refine ⟨?_, h.2.frame fun i hi ↦ ?_⟩
    · change (ls.update first _).get first = _
      rw [get_update_self (h.lt_size List.mem_cons_self), h.1]
    · refine get_update_of_ne ?_ _
      rintro rfl
      exact (List.nodup_cons.1 hx).1 hi

end Segment

end SyncKit.Links
