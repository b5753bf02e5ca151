import Mathlib.Data.List.Sort
import Mathlib.Data.List.Count
import Mathlib.Data.List.TakeDrop

/-!
Retention by rank: a list is ordered by a total preorder, its first `quota`
elements are kept and the rest dropped. Whether one element is kept depends
only on how many others rank ahead of it.
-/

namespace Ranking

variable {α : Type} (le : α → α → Prop) [DecidableRel le]

def kept (quota : Nat) (items : List α) : List α :=
  (items.insertionSort le).take quota

def dropped (quota : Nat) (items : List α) : List α :=
  (items.insertionSort le).drop quota

theorem kept_append_dropped_perm (quota : Nat) (items : List α) :
    (kept le quota items ++ dropped le quota items).Perm items := by
  rw [kept, dropped, List.take_append_drop]
  exact List.perm_insertionSort le items

theorem length_kept (quota : Nat) (items : List α) :
    (kept le quota items).length = min quota items.length := by
  simp [kept]

theorem dropped_eq_nil {quota : Nat} {items : List α} (fits : items.length ≤ quota) :
    dropped le quota items = [] := by
  simpa [dropped] using fits

theorem mem_of_mem_dropped {quota : Nat} {items : List α} {item : α}
    (member : item ∈ dropped le quota items) : item ∈ items :=
  (List.mem_insertionSort le).mp (List.mem_of_mem_drop member)

theorem nodup_dropped {quota : Nat} {items : List α} (distinct : items.Nodup) :
    (dropped le quota items).Nodup :=
  (((List.perm_insertionSort le items).nodup_iff).mpr distinct).sublist (List.drop_sublist _ _)

theorem mem_dropped_or_kept {quota : Nat} {items : List α} {item : α} (member : item ∈ items) :
    item ∈ kept le quota items ∨ item ∈ dropped le quota items := by
  have both := ((kept_append_dropped_perm le quota items).mem_iff).mpr member
  exact List.mem_append.mp both

theorem not_mem_dropped_of_mem_kept {quota : Nat} {items : List α} (distinct : items.Nodup)
    {item : α} (member : item ∈ kept le quota items) : item ∉ dropped le quota items := by
  have unique := (kept_append_dropped_perm le quota items).nodup_iff.mpr distinct
  exact fun also => (List.nodup_append.mp unique).2.2 item member item also rfl

theorem filter_not_dropped_perm [DecidableEq α] {quota : Nat} {items : List α}
    (distinct : items.Nodup) :
    (items.filter fun item => item ∉ dropped le quota items).Perm (kept le quota items) := by
  have unique := (kept_append_dropped_perm le quota items).nodup_iff.mpr distinct
  refine (List.perm_ext_iff_of_nodup (distinct.filter _) (List.nodup_append.mp unique).1).mpr ?_
  intro item
  simp only [List.mem_filter, decide_eq_true_eq]
  constructor
  · rintro ⟨member, stays⟩
    exact (mem_dropped_or_kept le member).resolve_right stays
  · intro member
    refine ⟨?_, not_mem_dropped_of_mem_kept le distinct member⟩
    exact (kept_append_dropped_perm le quota items).mem_iff.mp (List.mem_append_left _ member)

/-- How many other elements rank ahead of `item`. -/
def ahead [DecidableEq α] (item : α) (items : List α) : Nat :=
  items.countP fun other => decide (le other item ∧ other ≠ item)

theorem ahead_eq_length [DecidableEq α] {before after : List α} {item : α}
    (sorted : (before ++ item :: after).Pairwise le)
    (distinct : (before ++ item :: after).Nodup)
    (antisymmetric : ∀ other ∈ after, le other item → le item other → other = item) :
    ahead le item (before ++ item :: after) = before.length := by
  have split := List.pairwise_append.mp sorted
  have separate := List.nodup_append.mp distinct
  rw [ahead, List.countP_append, List.countP_cons]
  have front : before.countP (fun other => decide (le other item ∧ other ≠ item)) =
      before.length := by
    rw [List.countP_eq_length]
    intro other member
    have differs : other ≠ item := separate.2.2 other member item (by simp)
    simpa using ⟨split.2.2 other member item (by simp), differs⟩
  have back : after.countP (fun other => decide (le other item ∧ other ≠ item)) = 0 := by
    rw [List.countP_eq_zero]
    intro other member both
    have facts : le other item ∧ other ≠ item := by simpa using both
    have follows := (List.pairwise_cons.mp split.2.1).1 other member
    exact facts.2 (antisymmetric other member facts.1 follows)
  rw [front, back]
  simp

/-- A count over distinct elements that counts `item` counts one more than the others. -/
theorem countP_others [DecidableEq α] {counted : α → Bool} {items : List α} {item : α}
    (distinct : items.Nodup) (member : item ∈ items) (itself : counted item = true) :
    items.countP counted =
      (items.countP fun other => counted other && decide (other ≠ item)) + 1 := by
  obtain ⟨before, after, rfl⟩ := List.append_of_mem member
  have separate := List.nodup_append.mp distinct
  have unlisted := (List.nodup_cons.mp separate.2.1).1
  have same : ∀ part : List α, item ∉ part →
      part.countP counted = part.countP fun other => counted other && decide (other ≠ item) := by
    intro part absent
    apply List.countP_congr
    intro other listed
    have differs : other ≠ item := fun equal => absent (equal ▸ listed)
    simp [differs]
  have notBefore : item ∉ before := fun early => separate.2.2 item early item (by simp) rfl
  simp only [List.countP_append, List.countP_cons, itself, same before notBefore,
    same after unlisted, if_true, ne_eq, not_true_eq_false, decide_false, Bool.and_false,
    Bool.false_eq_true, if_false]
  omega

variable [Std.Total le] [IsTrans α le]

theorem le_of_kept_of_dropped {quota : Nat} {items : List α} {early late : α}
    (keptEarly : early ∈ kept le quota items) (droppedLate : late ∈ dropped le quota items) :
    le early late := by
  have sorted := List.pairwise_insertionSort le items
  rw [← List.take_append_drop quota (items.insertionSort le)] at sorted
  exact (List.pairwise_append.mp sorted).2.2 early keptEarly late droppedLate

/-- An element is kept exactly when fewer than `quota` others rank ahead of it. -/
theorem mem_kept_iff [DecidableEq α] {quota : Nat} {items : List α} {item : α}
    (distinct : items.Nodup) (member : item ∈ items)
    (antisymmetric : ∀ other ∈ items, le other item → le item other → other = item) :
    item ∈ kept le quota items ↔ ahead le item items < quota := by
  have perm := List.perm_insertionSort le items
  obtain ⟨before, after, shape⟩ := List.append_of_mem (perm.mem_iff.mpr member)
  have sorted := List.pairwise_insertionSort le items
  have unique := perm.nodup_iff.mpr distinct
  have sameCount : ahead le item items = ahead le item (items.insertionSort le) :=
    (perm.countP_eq _).symm
  have inAfter : ∀ other ∈ after, other ∈ items := fun other late =>
    perm.mem_iff.mp (by rw [shape]; simp [late])
  rw [shape] at sorted unique sameCount
  rw [sameCount, ahead_eq_length le sorted unique
    (fun other late => antisymmetric other (inAfter other late)), kept, shape]
  have notBefore : item ∉ before := fun early =>
    (List.nodup_append.mp unique).2.2 item early item (by simp) rfl
  constructor
  · intro found
    by_contra far
    have short : quota ≤ before.length := by omega
    rw [List.take_append_of_le_length short] at found
    exact notBefore (List.mem_of_mem_take found)
  · intro near
    rw [List.take_append, List.mem_append]
    right
    obtain ⟨room, eq⟩ : ∃ room, quota - before.length = room + 1 :=
      ⟨quota - before.length - 1, by omega⟩
    rw [eq, List.take_succ_cons]
    simp

theorem mem_dropped_iff [DecidableEq α] {quota : Nat} {items : List α} {item : α}
    (distinct : items.Nodup) (member : item ∈ items)
    (antisymmetric : ∀ other ∈ items, le other item → le item other → other = item) :
    item ∈ dropped le quota items ↔ quota ≤ ahead le item items := by
  rw [← Nat.not_lt, ← mem_kept_iff le distinct member antisymmetric]
  constructor
  · exact fun late early => not_mem_dropped_of_mem_kept le distinct early late
  · exact (mem_dropped_or_kept le member).resolve_left

end Ranking

namespace Ranking

variable {α β : Type} [LinearOrder β] {key : α → β}

/-- In a list ordered by strictly falling keys, as many elements have a larger key than an
element as precede it. -/
theorem countP_of_getElem? {items : List α}
    (falling : items.Pairwise fun first second => key second < key first) {item : α}
    {position : Nat} (placed : items[position]? = some item) :
    (items.countP fun other => key item < key other) = position := by
  obtain ⟨within, rfl⟩ := List.getElem?_eq_some_iff.mp placed
  generalize same : items[position] = item
  have shape : items = items.take position ++ item :: items.drop (position + 1) := by
    rw [← same, List.getElem_cons_drop, List.take_append_drop]
  have split := List.pairwise_append.mp (shape ▸ falling)
  have front : (items.take position).countP (fun other => decide (key item < key other)) =
      (items.take position).length := by
    rw [List.countP_eq_length]
    intro other early
    exact decide_eq_true (split.2.2 other early item List.mem_cons_self)
  have back : (items.drop (position + 1)).countP (fun other => decide (key item < key other)) =
      0 := by
    rw [List.countP_eq_zero]
    intro other late larger
    have smaller := (List.pairwise_cons.mp split.2.1).1 other late
    exact absurd (of_decide_eq_true larger) (not_lt_of_gt smaller)
  rw [shape, List.countP_append, List.countP_cons, front, back,
    List.length_take_of_le (Nat.le_of_lt within)]
  simp

theorem getElem?_countP {items : List α}
    (falling : items.Pairwise fun first second => key second < key first) {item : α}
    (member : item ∈ items) :
    items[items.countP fun other => key item < key other]? = some item := by
  obtain ⟨position, placed⟩ := List.mem_iff_getElem?.mp member
  rw [countP_of_getElem? falling placed, placed]

end Ranking
