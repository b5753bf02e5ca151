import Mathlib.Data.List.Nodup
import Mathlib.Data.List.Pairwise

/-! Which of two elements comes first in a list. -/

namespace Precedence

variable {α : Type} {items part : List α} {first second : α}

def Precedes (first second : α) (items : List α) : Prop :=
  [first, second].Sublist items

theorem precedes_split (first second : α) (before between after : List α) :
    Precedes first second (before ++ first :: between ++ second :: after) := by
  have tail : [second].Sublist (between ++ second :: after) :=
    List.singleton_sublist.mpr (by simp)
  have whole : [first, second].Sublist (first :: (between ++ second :: after)) :=
    tail.cons_cons first
  rw [List.append_assoc]
  exact whole.trans (List.sublist_append_right _ _)

theorem Precedes.mono (precedes : Precedes first second part) (sublist : part.Sublist items) :
    Precedes first second items :=
  precedes.trans sublist

theorem precedes_total (differs : first ≠ second) (memberFirst : first ∈ items)
    (memberSecond : second ∈ items) :
    Precedes first second items ∨ Precedes second first items := by
  obtain ⟨before, after, rfl⟩ := List.append_of_mem memberFirst
  rcases List.mem_append.mp memberSecond with early | late
  · obtain ⟨head, between, rfl⟩ := List.append_of_mem early
    exact .inr (precedes_split second first head between after)
  · have later : second ∈ after := (List.mem_cons.mp late).resolve_left differs.symm
    obtain ⟨between, last, rfl⟩ := List.append_of_mem later
    have split := precedes_split first second before between last
    rw [List.append_assoc] at split
    exact .inl split

theorem Precedes.asymm (distinct : items.Nodup) (precedes : Precedes first second items) :
    ¬ Precedes second first items := by
  intro other
  induction items with
  | nil => cases precedes
  | cons item rest ih =>
      obtain ⟨fresh, unique⟩ := List.nodup_cons.mp distinct
      cases precedes with
      | cons _ later =>
          cases other with
          | cons _ again => exact ih unique later again
          | cons_cons _ again => exact fresh (later.subset (by simp))
      | cons_cons _ later =>
          cases other with
          | cons _ again => exact fresh (again.subset (by simp))
          | cons_cons _ again => exact fresh (later.subset (by simp))

/-- A part of a list without repetition keeps its order. -/
theorem Precedes.restrict (distinct : items.Nodup) (precedes : Precedes first second items)
    (sublist : part.Sublist items) (memberFirst : first ∈ part) (memberSecond : second ∈ part) :
    Precedes first second part := by
  have differs : first ≠ second := by
    rintro rfl
    exact precedes.asymm distinct precedes
  rcases precedes_total differs memberFirst memberSecond with kept | turned
  · exact kept
  · exact absurd (turned.mono sublist) (precedes.asymm distinct)

/-- What may not be listed after another is listed before it. -/
theorem precedes_of_pairwise {le : α → α → Prop} (sorted : items.Pairwise le)
    (memberFirst : first ∈ items) (memberSecond : second ∈ items) (differs : first ≠ second)
    (never : ¬ le second first) : Precedes first second items := by
  rcases precedes_total differs memberFirst memberSecond with kept | turned
  · exact kept
  · exact absurd (List.pairwise_iff_forall_sublist.mp sorted turned) never

end Precedence
