import Mathlib.Data.List.TakeDrop
import Mathlib.Data.List.Infix

/-!
Cutting a list into chunks by a rule that says where the first chunk of what is
left ends. A cut is firm when nothing appended moves it; a rule whose every cut
short of the end is firm keeps the earlier chunks of an edited list, and falls
back into step at the first boundary the two lists share.
-/

/-- Where the first chunk of what is left ends: never at its start, never past its end. -/
structure Cutter (α : Type) where
  cut : List α → Nat
  cut_pos : ∀ rest, rest ≠ [] → 0 < cut rest
  cut_le : ∀ rest, cut rest ≤ rest.length

namespace Cutter

variable {α : Type} (cutter : Cutter α)

def chunks (rest : List α) : List (List α) :=
  match rest with
  | [] => []
  | item :: rest =>
      (item :: rest).take (cutter.cut (item :: rest)) ::
        chunks ((item :: rest).drop (cutter.cut (item :: rest)))
termination_by rest.length
decreasing_by
  have positive := cutter.cut_pos (item :: rest) (by simp)
  simp only [List.length_drop, List.length_cons]
  omega

@[simp] theorem chunks_nil : cutter.chunks [] = [] := by
  rw [chunks]

theorem chunks_cut {rest : List α} (more : rest ≠ []) :
    cutter.chunks rest =
      rest.take (cutter.cut rest) :: cutter.chunks (rest.drop (cutter.cut rest)) := by
  cases rest with
  | nil => exact absurd rfl more
  | cons item rest => rw [chunks]

/-- What holds of the empty list and of a list as soon as it does past its first
chunk holds of every list. -/
theorem cutInduction {motive : List α → Prop} (done : motive [])
    (step : ∀ rest, rest ≠ [] → motive (rest.drop (cutter.cut rest)) → motive rest)
    (rest : List α) : motive rest := by
  induction size : rest.length using Nat.strongRecOn generalizing rest with
  | ind size ih =>
      by_cases empty : rest = []
      · exact empty ▸ done
      · have positive := cutter.cut_pos rest empty
        have length := List.length_pos_iff.mpr empty
        refine step rest empty (ih _ ?_ _ rfl)
        simp only [List.length_drop]
        omega

theorem chunks_eq_nil {rest : List α} : cutter.chunks rest = [] ↔ rest = [] := by
  constructor
  · intro none
    by_contra more
    simp [cutter.chunks_cut more] at none
  · intro empty
    simp [empty]

theorem chunks_flatten (rest : List α) : (cutter.chunks rest).flatten = rest := by
  induction rest using cutter.cutInduction with
  | done => simp
  | step rest more ih => rw [cutter.chunks_cut more, List.flatten_cons, ih, List.take_append_drop]

theorem chunks_ne_nil {rest chunk : List α} (member : chunk ∈ cutter.chunks rest) :
    chunk ≠ [] := by
  induction rest using cutter.cutInduction with
  | done => simp at member
  | step rest more ih =>
      rw [cutter.chunks_cut more, List.mem_cons] at member
      rcases member with rfl | later
      · have positive := cutter.cut_pos rest more
        have length := List.length_pos_iff.mpr more
        rw [← List.length_pos_iff, List.length_take]
        omega
      · exact ih later

theorem chunks_length_le (rest : List α) : (cutter.chunks rest).length ≤ rest.length := by
  induction rest using cutter.cutInduction with
  | done => simp
  | step rest more ih =>
      have positive := cutter.cut_pos rest more
      have length := List.length_pos_iff.mpr more
      rw [cutter.chunks_cut more, List.length_cons]
      simp only [List.length_drop] at ih
      omega

/-- The last chunk is all that was left. -/
theorem cut_getLast {rest last : List α} (final : last ∈ (cutter.chunks rest).getLast?) :
    cutter.cut last = last.length := by
  induction rest using cutter.cutInduction with
  | done => simp at final
  | step rest more ih =>
      rw [cutter.chunks_cut more] at final
      by_cases past : rest.drop (cutter.cut rest) = []
      · have reach : rest.length ≤ cutter.cut rest := List.drop_eq_nil_iff.mp past
        have same : rest = last := by
          simpa [past, List.take_of_length_le reach] using final
        subst same
        exact Nat.le_antisymm (cutter.cut_le rest) reach
      · have later := (not_congr cutter.chunks_eq_nil).mpr past
        rw [List.getLast?_cons_of_ne_nil later] at final
        exact ih final

/-- From a boundary on, the chunks are those of what lies past it. -/
theorem chunks_drop (count : Nat) (rest : List α) :
    (cutter.chunks rest).drop count =
      cutter.chunks (rest.drop ((cutter.chunks rest).take count).flatten.length) := by
  induction rest using cutter.cutInduction generalizing count with
  | done => simp
  | step rest more ih =>
      cases count with
      | zero => simp
      | succ count =>
          have within := cutter.cut_le rest
          rw [cutter.chunks_cut more]
          simp only [List.drop_succ_cons, List.take_succ_cons, List.flatten_cons,
            List.length_append, List.length_take, Nat.min_eq_left within, ← List.drop_drop]
          exact ih count

/-- Every chunk but the last comes from a cut short of the end. -/
theorem cut_of_mem_dropLast {rest chunk : List α}
    (member : chunk ∈ (cutter.chunks rest).dropLast) :
    ∃ tail, cutter.cut tail < tail.length ∧ chunk = tail.take (cutter.cut tail) := by
  induction rest using cutter.cutInduction with
  | done => simp at member
  | step rest more ih =>
      rw [cutter.chunks_cut more] at member
      by_cases past : rest.drop (cutter.cut rest) = []
      · simp [past] at member
      · have later := (not_congr cutter.chunks_eq_nil).mpr past
        rw [List.dropLast_cons_of_ne_nil later, List.mem_cons] at member
        rcases member with rfl | member
        · exact ⟨rest, by simpa [List.drop_eq_nil_iff] using past, rfl⟩
        · exact ih member

section Bounds

variable {least most : Nat}

theorem length_le_of_mem_chunks (capped : ∀ rest, cutter.cut rest ≤ most) {rest chunk : List α}
    (member : chunk ∈ cutter.chunks rest) : chunk.length ≤ most := by
  induction rest using cutter.cutInduction with
  | done => simp at member
  | step rest more ih =>
      rw [cutter.chunks_cut more, List.mem_cons] at member
      rcases member with rfl | later
      · exact Nat.le_trans (List.length_take_le _ _) (capped rest)
      · exact ih later

/-- Only the last chunk may be shorter than what a cut short of the end leaves. -/
theorem le_length_of_mem_dropLast
    (floored : ∀ rest, cutter.cut rest < rest.length → least ≤ cutter.cut rest)
    {rest chunk : List α} (member : chunk ∈ (cutter.chunks rest).dropLast) :
    least ≤ chunk.length := by
  obtain ⟨tail, short, rfl⟩ := cutter.cut_of_mem_dropLast member
  rw [List.length_take, Nat.min_eq_left (Nat.le_of_lt short)]
  exact floored tail short

theorem length_le_mul_chunks (capped : ∀ rest, cutter.cut rest ≤ most) (rest : List α) :
    rest.length ≤ most * (cutter.chunks rest).length := by
  induction rest using cutter.cutInduction with
  | done => simp
  | step rest more ih =>
      have cap := capped rest
      rw [cutter.chunks_cut more, List.length_cons, Nat.mul_succ]
      simp only [List.length_drop] at ih
      omega

end Bounds

/-- Nothing that follows the chunk moves its end. -/
def Firm (chunk : List α) : Prop :=
  ∀ back, cutter.cut (chunk ++ back) = chunk.length

/-- A cut short of the end does not look past itself. -/
def Local : Prop :=
  ∀ rest, cutter.cut rest < rest.length → cutter.Firm (rest.take (cutter.cut rest))

theorem chunks_of_firm {chunk : List α} (some : chunk ≠ []) (firm : cutter.Firm chunk)
    (back : List α) : cutter.chunks (chunk ++ back) = chunk :: cutter.chunks back := by
  rw [cutter.chunks_cut (by simp [some]), firm back, List.take_left, List.drop_left]

theorem chunks_flatten_append {front : List (List α)}
    (firm : ∀ chunk ∈ front, chunk ≠ [] ∧ cutter.Firm chunk) (back : List α) :
    cutter.chunks (front.flatten ++ back) = front ++ cutter.chunks back := by
  induction front with
  | nil => simp
  | cons chunk front ih =>
      have first := firm chunk (by simp)
      rw [List.flatten_cons, List.append_assoc, cutter.chunks_of_firm first.1 first.2,
        ih fun later member => firm later (by simp [member]), List.cons_append]

theorem firm_of_mem_dropLast (islocal : cutter.Local) {rest chunk : List α}
    (member : chunk ∈ (cutter.chunks rest).dropLast) : cutter.Firm chunk := by
  obtain ⟨tail, short, rfl⟩ := cutter.cut_of_mem_dropLast member
  exact islocal tail short

/-- Every chunk but the last stays when more input follows. -/
theorem dropLast_chunks_prefix (islocal : cutter.Local) (front back : List α) :
    (cutter.chunks front).dropLast <+: cutter.chunks (front ++ back) := by
  by_cases empty : front = []
  · simp [empty]
  · have some := (not_congr cutter.chunks_eq_nil).mpr empty
    have whole : front = (cutter.chunks front).dropLast.flatten ++
        (cutter.chunks front).getLast some := by
      conv_lhs => rw [← cutter.chunks_flatten front, ← List.dropLast_append_getLast some]
      simp
    have firm : ∀ chunk ∈ (cutter.chunks front).dropLast, chunk ≠ [] ∧ cutter.Firm chunk :=
      fun chunk member => ⟨cutter.chunks_ne_nil (List.dropLast_subset _ member),
        cutter.firm_of_mem_dropLast islocal member⟩
    have kept := cutter.chunks_flatten_append firm ((cutter.chunks front).getLast some ++ back)
    rw [← List.append_assoc, ← whole] at kept
    rw [kept]
    exact List.prefix_append _ _

/-- The last one stays too when it is firm. -/
theorem chunks_append (islocal : cutter.Local) {front : List α}
    (firm : ∀ last ∈ (cutter.chunks front).getLast?, cutter.Firm last) (back : List α) :
    cutter.chunks (front ++ back) = cutter.chunks front ++ cutter.chunks back := by
  have all : ∀ chunk ∈ cutter.chunks front, chunk ≠ [] ∧ cutter.Firm chunk := by
    intro chunk member
    refine ⟨cutter.chunks_ne_nil member, ?_⟩
    have some := List.ne_nil_of_mem member
    rw [← List.dropLast_append_getLast some, List.mem_append, List.mem_singleton] at member
    rcases member with early | rfl
    · exact cutter.firm_of_mem_dropLast islocal early
    · exact firm _ (List.getLast?_eq_some_getLast some)
  have kept := cutter.chunks_flatten_append all back
  rwa [cutter.chunks_flatten] at kept

/-- A chunk of `data` starts right after `front`, or `data` ends there. -/
def Boundary (data front : List α) : Prop :=
  ∃ count, ((cutter.chunks data).take count).flatten = front

/-- From a boundary on, the chunks are those of the rest alone, whatever came before. -/
theorem chunks_of_boundary {front back : List α}
    (boundary : cutter.Boundary (front ++ back) front) :
    ∃ before, before.flatten = front ∧
      cutter.chunks (front ++ back) = before ++ cutter.chunks back := by
  obtain ⟨count, reach⟩ := boundary
  refine ⟨(cutter.chunks (front ++ back)).take count, reach, ?_⟩
  have tail := cutter.chunks_drop count (front ++ back)
  rw [reach, List.drop_left] at tail
  rw [← tail, List.take_append_drop]

/-- Chunks that end before a boundary come first, then others up to the boundary. -/
theorem chunks_split {front back : List α} (boundary : cutter.Boundary (front ++ back) front)
    {early : List (List α)} (begins : early <+: cutter.chunks (front ++ back))
    (within : early.flatten.length ≤ front.length) :
    ∃ between, cutter.chunks (front ++ back) = early ++ between ++ cutter.chunks back := by
  obtain ⟨before, tiles, split⟩ := cutter.chunks_of_boundary boundary
  rcases List.prefix_or_prefix_of_prefix begins ⟨_, split.symm⟩ with inside | past
  · obtain ⟨between, same⟩ := inside
    exact ⟨between, by rw [split, ← same]⟩
  · -- The chunks of `early` past the boundary would have no bytes.
    obtain ⟨extra, same⟩ := past
    have empty : extra.flatten = [] := by
      rw [← same, List.flatten_append, List.length_append, tiles] at within
      exact List.eq_nil_of_length_eq_zero (by omega)
    have none : extra = [] := by
      by_contra some
      obtain ⟨chunk, member⟩ := List.exists_mem_of_ne_nil extra some
      have there : chunk ∈ early := same ▸ List.mem_append_right _ member
      exact cutter.chunks_ne_nil (begins.subset there) (List.flatten_eq_nil_iff.mp empty _ member)
    refine ⟨[], ?_⟩
    rw [split, ← same, none]
    simp

theorem take_subset_dropLast {items : List (List α)} {count : Nat} (short : count < items.length) :
    ∀ item ∈ items.take count, item ∈ items.dropLast := by
  intro item member
  rw [List.dropLast_eq_take]
  have fewer : count ≤ items.length - 1 := by omega
  rw [← Nat.min_eq_left fewer, ← List.take_take] at member
  exact List.mem_of_mem_take member

/-- The chunks that end within `front`, unless the data ended there, are the same
whatever follows it. -/
theorem take_chunks_append (islocal : cutter.Local) {front back : List α} {count : Nat}
    (within : ((cutter.chunks (front ++ back)).take count).flatten.length ≤ front.length)
    (short : count < (cutter.chunks (front ++ back)).length) (other : List α) :
    (cutter.chunks (front ++ other)).take count = (cutter.chunks (front ++ back)).take count := by
  have firm : ∀ chunk ∈ (cutter.chunks (front ++ back)).take count,
      chunk ≠ [] ∧ cutter.Firm chunk := fun chunk member =>
    ⟨cutter.chunks_ne_nil (List.mem_of_mem_take member),
      cutter.firm_of_mem_dropLast islocal (take_subset_dropLast short chunk member)⟩
  have start : ((cutter.chunks (front ++ back)).take count).flatten <+: front ++ back := by
    conv_rhs => rw [← cutter.chunks_flatten (front ++ back),
      ← List.take_append_drop count (cutter.chunks (front ++ back)), List.flatten_append]
    exact List.prefix_append _ _
  obtain ⟨past, split⟩ := List.prefix_of_prefix_length_le start (List.prefix_append _ _) within
  have kept := cutter.chunks_flatten_append firm (past ++ other)
  rw [← List.append_assoc, split] at kept
  rw [kept, List.take_left']
  rw [List.length_take]
  omega

end Cutter
