import Mathlib.Data.List.Basic
import Mathlib.Data.List.Nodup

/-!
Recency lists: elements with a key, the most recently used first, some of them pinned. A use moves
an element to the front; a trim keeps every pinned element and the first few of the others.
-/

namespace Recency

section
variable {α : Type} (isPinned : α → Bool)

def unpinned (items : List α) : List α :=
  items.filter fun item => !isPinned item

def trim : Nat → List α → List α
  | _, [] => []
  | 0, item :: rest => if isPinned item then item :: trim 0 rest else trim 0 rest
  | cap + 1, item :: rest => item :: trim (if isPinned item then cap + 1 else cap) rest

def overflow (cap : Nat) (items : List α) : List α :=
  (unpinned isPinned items).drop cap

section
variable {isPinned} {item : α} {rest items : List α} {cap : Nat}

theorem unpinned_pinned (pinned : isPinned item = true) :
    unpinned isPinned (item :: rest) = unpinned isPinned rest := by
  simp [unpinned, pinned]

theorem unpinned_free (free : isPinned item = false) :
    unpinned isPinned (item :: rest) = item :: unpinned isPinned rest := by
  simp [unpinned, free]

theorem trim_pinned (pinned : isPinned item = true) :
    trim isPinned cap (item :: rest) = item :: trim isPinned cap rest := by
  cases cap <;> simp [trim, pinned]

theorem trim_free (free : isPinned item = false) :
    trim isPinned (cap + 1) (item :: rest) = item :: trim isPinned cap rest := by
  simp [trim, free]

theorem trim_full (free : isPinned item = false) :
    trim isPinned 0 (item :: rest) = trim isPinned 0 rest := by
  simp [trim, free]

theorem unpinned_trim :
    unpinned isPinned (trim isPinned cap items) = (unpinned isPinned items).take cap := by
  induction items generalizing cap with
  | nil => simp [trim, unpinned]
  | cons item rest ih =>
      cases held : isPinned item with
      | true => rw [trim_pinned held, unpinned_pinned held, unpinned_pinned held, ih]
      | false =>
          cases cap with
          | zero =>
              rw [trim_full held, ih]
              simp
          | succ cap =>
              rw [trim_free held, unpinned_free held, unpinned_free held, ih, List.take_succ_cons]

/-- A trim is a filter: it drops the overflow and nothing else. -/
theorem trim_eq_filter [DecidableEq α] (distinct : items.Nodup) :
    trim isPinned cap items = items.filter fun item => item ∉ overflow isPinned cap items := by
  induction items generalizing cap with
  | nil => rfl
  | cons item rest ih =>
      obtain ⟨fresh, distinct⟩ := List.nodup_cons.mp distinct
      have unlisted : item ∉ unpinned isPinned rest := fun listed =>
        fresh (List.mem_of_mem_filter listed)
      cases held : isPinned item with
      | true =>
          have spared : item ∉ overflow isPinned cap rest := fun dropped =>
            unlisted (List.mem_of_mem_drop dropped)
          have same : overflow isPinned cap (item :: rest) = overflow isPinned cap rest := by
            rw [overflow, unpinned_pinned held]
            rfl
          rw [trim_pinned held, ih distinct, same, List.filter_cons_of_pos (by simpa using spared)]
      | false =>
          cases cap with
          | zero =>
              have listed : item ∈ overflow isPinned 0 (item :: rest) := by
                rw [overflow, unpinned_free held]
                exact List.mem_cons_self
              rw [trim_full held, ih distinct,
                List.filter_cons_of_neg (by simpa using listed)]
              apply List.filter_congr
              intro other member
              have differs : other ≠ item := fun same => fresh (same ▸ member)
              simp [overflow, unpinned_free held, differs]
          | succ cap =>
              have same : overflow isPinned (cap + 1) (item :: rest) =
                  overflow isPinned cap rest := by
                rw [overflow, unpinned_free held, List.drop_succ_cons]
                rfl
              have spared : item ∉ overflow isPinned cap rest := fun dropped =>
                unlisted (List.mem_of_mem_drop dropped)
              rw [trim_free held, ih distinct, same,
                List.filter_cons_of_pos (by simpa using spared)]

section
variable {β : Type} {change : α → β} {isHeld : β → Bool}
  (same : ∀ item, isHeld (change item) = isPinned item)
include same

theorem unpinned_map :
    unpinned isHeld (items.map change) = (unpinned isPinned items).map change := by
  have composed : (fun item => !isHeld item) ∘ change = fun item => !isPinned item :=
    funext fun item => congrArg Bool.not (same item)
  rw [unpinned, List.filter_map, composed, unpinned]

theorem overflow_map :
    overflow isHeld cap (items.map change) = (overflow isPinned cap items).map change := by
  rw [overflow, overflow, unpinned_map same, List.map_drop]

theorem trim_map : trim isHeld cap (items.map change) = (trim isPinned cap items).map change := by
  induction items generalizing cap with
  | nil => simp [trim]
  | cons item rest ih =>
      cases held : isPinned item with
      | true => rw [List.map_cons, trim_pinned ((same item).trans held), trim_pinned held, ih,
          List.map_cons]
      | false =>
          cases cap with
          | zero => rw [List.map_cons, trim_full ((same item).trans held), trim_full held, ih]
          | succ cap =>
              rw [List.map_cons, trim_free ((same item).trans held), trim_free held, ih,
                List.map_cons]

end

theorem trim_zero_pinned : ∀ item ∈ trim isPinned 0 items, isPinned item = true := by
  intro item kept
  by_contra free
  have listed : item ∈ unpinned isPinned (trim isPinned 0 items) :=
    List.mem_filter.mpr ⟨kept, by simpa using free⟩
  rw [unpinned_trim, List.take_zero] at listed
  cases listed

theorem trim_sublist : (trim isPinned cap items).Sublist items := by
  induction items generalizing cap with
  | nil => exact List.nil_sublist []
  | cons item rest ih =>
      cases held : isPinned item with
      | true =>
          rw [trim_pinned held]
          exact ih.cons_cons item
      | false =>
          cases cap with
          | zero =>
              rw [trim_full held]
              exact ih.cons item
          | succ cap =>
              rw [trim_free held]
              exact ih.cons_cons item

end

end

section
variable {α κ : Type}

inductive Change (α κ : Type) where
  | push (item : α)
  | use (name : κ)
  | pin (isPinned : Bool) (name : κ)
  | remove (name : κ)
  | trim (cap : Nat)
  | clear

structure Kind (α κ : Type) where
  key : α → κ
  isPinned : α → Bool
  setPin : Bool → α → α
  setPin_key : ∀ value item, key (setPin value item) = key item
  setPin_isPinned : ∀ value item, isPinned (setPin value item) = value

end

section
variable {α κ : Type} [DecidableEq κ] (kind : Kind α κ)

def toFront (name : κ) (items : List α) : List α :=
  match items.find? fun item => kind.key item = name with
  | some item => item :: items.filter fun other => kind.key other ≠ name
  | none => items

def setPinOf (value : Bool) (name : κ) (item : α) : α :=
  if kind.key item = name then kind.setPin value item else item

def Change.apply : Change α κ → List α → List α
  | .push item, items => item :: items
  | .use name, items => toFront kind name items
  | .pin value name, items => items.map (setPinOf kind value name)
  | .remove name, items => items.filter fun item => kind.key item ≠ name
  | .trim cap, items => Recency.trim kind.isPinned cap items
  | .clear, _ => []

def run : List (Change α κ) → List α → List α
  | [], items => items
  | change :: rest, items => run rest (change.apply kind items)

/-- How many unpinned elements come before the one with the key. -/
def rank (name : κ) : List α → Nat
  | [] => 0
  | item :: rest =>
      if kind.key item = name then 0
      else if kind.isPinned item then rank name rest
      else rank name rest + 1

def Change.ages (name : κ) : Change α κ → Bool
  | .push _ => true
  | .use other => decide (other ≠ name)
  | .pin value other => !value && decide (other ≠ name)
  | _ => false

def Change.removes (name : κ) : Change α κ → Bool
  | .remove other => decide (other = name)
  | .clear => true
  | _ => false

def Listed (name : κ) (items : List α) : Prop :=
  ∃ item ∈ items, kind.key item = name

end

section
variable {α κ : Type} [DecidableEq κ] {kind : Kind α κ} {name : κ} {items : List α}

theorem rank_cons_le (item : α) : rank kind name (item :: items) ≤ rank kind name items + 1 := by
  rw [rank]
  split
  · omega
  · split <;> omega

theorem rank_pinned (pinned : ∀ item ∈ items, kind.isPinned item = true) :
    rank kind name items = 0 := by
  induction items with
  | nil => rfl
  | cons item rest ih =>
      obtain ⟨first, others⟩ := List.forall_mem_cons.mp pinned
      rw [rank, if_pos first, ih others, ite_self]

/-- Dropping elements with other keys leaves no more before this one. -/
theorem rank_filter_le {keep : α → Bool} (spares : ∀ item, kind.key item = name → keep item) :
    rank kind name (items.filter keep) ≤ rank kind name items := by
  induction items with
  | nil => exact Nat.le_refl 0
  | cons item rest ih =>
      rw [List.filter_cons]
      split
      · simp only [rank]
        split
        · exact Nat.le_refl 0
        · split
          · exact ih
          · exact Nat.succ_le_succ ih
      · rename_i dropped
        have differs : kind.key item ≠ name := fun same => dropped (spares item same)
        rw [rank, if_neg differs]
        split
        · exact ih
        · exact Nat.le_succ_of_le ih

theorem rank_trim_le (cap : Nat) :
    rank kind name (trim kind.isPinned cap items) ≤ rank kind name items := by
  induction items generalizing cap with
  | nil => exact Nat.le_refl 0
  | cons item rest ih =>
      cases held : kind.isPinned item with
      | true =>
          rw [trim_pinned held, rank, rank, if_pos held, if_pos held]
          split
          · exact Nat.le_refl 0
          · exact ih cap
      | false =>
          cases cap with
          | zero =>
              rw [trim_full held, rank_pinned trim_zero_pinned]
              exact Nat.zero_le _
          | succ cap =>
              have free : ¬ kind.isPinned item = true := by simp [held]
              rw [trim_free held, rank, rank, if_neg free, if_neg free]
              split
              · exact Nat.le_refl 0
              · exact Nat.succ_le_succ (ih cap)

/-- What has fewer than `cap` unpinned elements before it survives a trim. -/
theorem listed_trim {cap : Nat} (listed : Listed kind name items)
    (near : rank kind name items < cap) : Listed kind name (trim kind.isPinned cap items) := by
  induction items generalizing cap with
  | nil => exact listed
  | cons item rest ih =>
      obtain ⟨found, member, named⟩ := listed
      have later : ∀ {cap}, rank kind name rest < cap → kind.key item ≠ name →
          Listed kind name (trim kind.isPinned cap rest) := by
        intro cap near differs
        refine ih ⟨found, ?_, named⟩ near
        exact (List.mem_cons.mp member).resolve_left fun same => differs (same ▸ named)
      by_cases first : kind.key item = name
      · cases held : kind.isPinned item with
        | true =>
            rw [trim_pinned held]
            exact ⟨item, List.mem_cons_self, first⟩
        | false =>
            obtain ⟨less, rfl⟩ := Nat.exists_eq_add_one.mpr (Nat.zero_lt_of_lt near)
            rw [trim_free held]
            exact ⟨item, List.mem_cons_self, first⟩
      · rw [rank, if_neg first] at near
        cases held : kind.isPinned item with
        | true =>
            rw [if_pos held] at near
            obtain ⟨kept, present, same⟩ := later near first
            rw [trim_pinned held]
            exact ⟨kept, List.mem_cons_of_mem _ present, same⟩
        | false =>
            have free : ¬ kind.isPinned item = true := by simp [held]
            rw [if_neg free] at near
            obtain ⟨less, rfl⟩ := Nat.exists_eq_add_one.mpr (Nat.zero_lt_of_lt near)
            obtain ⟨kept, present, same⟩ := later (Nat.lt_of_succ_lt_succ near) first
            rw [trim_free held]
            exact ⟨kept, List.mem_cons_of_mem _ present, same⟩

theorem setPinOf_key (value : Bool) (other : κ) (item : α) :
    kind.key (setPinOf kind value other item) = kind.key item := by
  unfold setPinOf
  split
  · exact kind.setPin_key value item
  · rfl

theorem rank_toFront_le {other : κ} (differs : other ≠ name) :
    rank kind name (toFront kind other items) ≤ rank kind name items + 1 := by
  unfold toFront
  split
  · refine Nat.le_trans (rank_cons_le _) (Nat.succ_le_succ (rank_filter_le ?_))
    rintro item rfl
    exact decide_eq_true differs.symm
  · exact Nat.le_succ _

theorem rank_toFront_self : rank kind name (toFront kind name items) ≤ rank kind name items := by
  unfold toFront
  split
  · rename_i item found
    have named : kind.key item = name := by simpa using List.find?_some found
    rw [rank, if_pos named]
    exact Nat.zero_le _
  · exact Nat.le_refl _

theorem rank_map_pinned (other : κ) :
    rank kind name (items.map (setPinOf kind true other)) ≤ rank kind name items := by
  induction items with
  | nil => exact Nat.le_refl 0
  | cons item rest ih =>
      rw [List.map_cons, rank, rank, setPinOf_key]
      split
      · exact Nat.le_refl 0
      · by_cases named : kind.key item = other
        · rw [setPinOf, if_pos named, kind.setPin_isPinned, if_pos rfl]
          split
          · exact ih
          · exact Nat.le_succ_of_le ih
        · rw [setPinOf, if_neg named]
          split
          · exact ih
          · exact Nat.succ_le_succ ih

theorem map_setPinOf_absent {value : Bool} {other : κ}
    (absent : ∀ item ∈ items, kind.key item ≠ other) :
    items.map (setPinOf kind value other) = items := by
  conv_rhs => rw [← List.map_id items]
  apply List.map_congr_left
  intro item member
  rw [setPinOf, if_neg (absent item member), id]

theorem rank_map_unpinned (distinct : (items.map kind.key).Nodup) (other : κ) :
    rank kind name (items.map (setPinOf kind false other)) ≤ rank kind name items + 1 := by
  induction items with
  | nil => exact Nat.zero_le _
  | cons item rest ih =>
      rw [List.map_cons, List.nodup_cons] at distinct
      by_cases named : kind.key item = other
      · have absent : ∀ later ∈ rest, kind.key later ≠ other := by
          intro later member same
          exact distinct.1 (List.mem_map.mpr ⟨later, member, same.trans named.symm⟩)
        rw [List.map_cons, map_setPinOf_absent absent, rank, rank, setPinOf_key]
        split
        · exact Nat.zero_le _
        · split <;> split <;> omega
      · have kept : setPinOf kind false other item = item := by rw [setPinOf, if_neg named]
        rw [List.map_cons, kept, rank, rank]
        have less := ih distinct.2
        split
        · exact Nat.zero_le _
        · split <;> omega

theorem rank_map_self (value : Bool) :
    rank kind name (items.map (setPinOf kind value name)) = rank kind name items := by
  induction items with
  | nil => rfl
  | cons item rest ih =>
      rw [List.map_cons, rank, rank, setPinOf_key, ih]
      by_cases named : kind.key item = name
      · rw [if_pos named, if_pos named]
      · rw [if_neg named, if_neg named, setPinOf, if_neg named]

def Keyed (kind : Kind α κ) (items : List α) : Prop :=
  (items.map kind.key).Nodup

def Change.Fresh (kind : Kind α κ) (items : List α) : Change α κ → Prop
  | .push item => kind.key item ∉ items.map kind.key
  | _ => True

theorem Keyed.apply (keyed : Keyed kind items) {change : Change α κ}
    (fresh : change.Fresh kind items) : Keyed kind (change.apply kind items) := by
  cases change with
  | push item => exact List.nodup_cons.mpr ⟨fresh, keyed⟩
  | use other =>
      simp only [Change.apply, toFront]
      split
      · rename_i item found
        have named : kind.key item = other := by simpa using List.find?_some found
        refine List.nodup_cons.mpr ⟨?_, keyed.sublist (List.filter_sublist.map _)⟩
        rw [named, List.mem_map]
        rintro ⟨later, member, same⟩
        simp [same] at member
      · exact keyed
  | pin value other =>
      have same : kind.key ∘ setPinOf kind value other = kind.key :=
        funext (setPinOf_key value other)
      simp only [Change.apply, Keyed, List.map_map, same]
      exact keyed
  | remove other => exact keyed.sublist (List.filter_sublist.map _)
  | trim cap => exact keyed.sublist (trim_sublist.map _)
  | clear => exact List.nodup_nil

theorem Change.rank_apply_le (keyed : Keyed kind items) {change : Change α κ}
    (spares : change.removes name = false) :
    rank kind name (change.apply kind items) ≤
      rank kind name items + if change.ages name then 1 else 0 := by
  cases change with
  | push item => exact rank_cons_le item
  | use other =>
      by_cases same : other = name
      · subst same
        simpa [ages, apply] using rank_toFront_self
      · simpa [ages, apply, same] using rank_toFront_le same
  | pin value other =>
      cases value with
      | true => simpa [ages, apply] using rank_map_pinned other
      | false =>
          by_cases same : other = name
          · subst same
            simpa [ages, apply] using Nat.le_of_eq (rank_map_self false)
          · simpa [ages, apply, same] using rank_map_unpinned keyed other
  | remove other =>
      have differs : other ≠ name := by simpa [removes] using spares
      refine rank_filter_le ?_
      rintro item rfl
      exact decide_eq_true differs.symm
  | trim cap => exact rank_trim_le cap
  | clear => simp [removes] at spares

theorem Change.listed_apply (listed : Listed kind name items) {change : Change α κ}
    (spares : change.removes name = false)
    (near : ∀ cap, change = .trim cap → rank kind name items < cap) :
    Listed kind name (change.apply kind items) := by
  obtain ⟨item, member, named⟩ := id listed
  cases change with
  | push new => exact ⟨item, List.mem_cons_of_mem _ member, named⟩
  | use other =>
      simp only [apply, toFront]
      split
      · rename_i front found
        have front_named : kind.key front = other := by simpa using List.find?_some found
        by_cases same : other = name
        · exact ⟨front, List.mem_cons_self, front_named.trans same⟩
        · refine ⟨item, List.mem_cons_of_mem _ (List.mem_filter.mpr ⟨member, ?_⟩), named⟩
          rw [named]
          exact decide_eq_true (Ne.symm same)
      · exact listed
  | pin value other =>
      exact ⟨_, List.mem_map_of_mem member, (setPinOf_key value other item).trans named⟩
  | remove other =>
      have differs : other ≠ name := by simpa [removes] using spares
      refine ⟨item, List.mem_filter.mpr ⟨member, ?_⟩, named⟩
      rw [named]
      exact decide_eq_true differs.symm
  | trim cap => exact listed_trim listed (near cap rfl)
  | clear => simp [removes] at spares

def FreshRun (kind : Kind α κ) : List (Change α κ) → List α → Prop
  | [], _ => True
  | change :: rest, items =>
      change.Fresh kind items ∧ FreshRun kind rest (change.apply kind items)

theorem run_append (first second : List (Change α κ)) :
    run kind (first ++ second) items = run kind second (run kind first items) := by
  induction first generalizing items with
  | nil => rfl
  | cons change rest ih => exact ih

theorem FreshRun.append {first second : List (Change α κ)} (early : FreshRun kind first items)
    (late : FreshRun kind second (run kind first items)) :
    FreshRun kind (first ++ second) items := by
  induction first generalizing items with
  | nil => exact late
  | cons change rest ih => exact ⟨early.1, ih early.2 late⟩

/-- An element stays as long as every trim has room for the unpinned elements that were before it
and for one more for each change since. -/
theorem listed_run (keyed : Keyed kind items) {changes : List (Change α κ)}
    (fresh : FreshRun kind changes items) (listed : Listed kind name items)
    (spares : ∀ change ∈ changes, change.removes name = false)
    (room : ∀ cap, Change.trim cap ∈ changes →
      rank kind name items + changes.countP (Change.ages name) < cap) :
    Listed kind name (run kind changes items) := by
  induction changes generalizing items with
  | nil => exact listed
  | cons change rest ih =>
      obtain ⟨first, others⟩ := List.forall_mem_cons.mp spares
      have near : ∀ cap, change = .trim cap → rank kind name items < cap := by
        rintro cap rfl
        exact Nat.lt_of_le_of_lt (Nat.le_add_right _ _) (room cap List.mem_cons_self)
      refine ih (keyed.apply fresh.1) fresh.2 (change.listed_apply listed first near) others ?_
      intro cap member
      have enough := room cap (List.mem_cons_of_mem _ member)
      have grown := change.rank_apply_le keyed first
      rw [List.countP_cons] at enough
      omega

end

end Recency
