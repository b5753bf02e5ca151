import Y4p.Lib.Cutting
import Y4p.Core.Cdc

/-!
What the chunks of `cdc.rs` look like: their sizes, the iterator's size hint, and
which of them an edit leaves alone. The cut point is the first position past the
minimum where the rolled hash matches its mask, so it never looks past itself.
-/

namespace Y4p

def FastCdc.after : Nat → Bytes → Bytes
  | 0, rest => rest
  | count + 1, rest =>
      match FastCdc.next rest with
      | none => rest
      | some (_, rest) => FastCdc.after count rest

def divCeil (dividend divisor : Nat) : Nat :=
  if dividend % divisor > 0 then dividend / divisor + 1 else dividend / divisor

def FastCdc.sizeHint (rest : Bytes) : Nat × Option Nat :=
  (divCeil rest.length cdcMaxChunkBytes, some rest.length)

theorem divCeil_le {dividend divisor count : Nat} (enough : dividend ≤ divisor * count) :
    divCeil dividend divisor ≤ count := by
  by_cases none : divisor = 0
  · subst none
    have empty : dividend = 0 := by omega
    simp [divCeil, empty]
  · have positive : 0 < divisor := Nat.pos_of_ne_zero none
    have whole := Nat.div_add_mod dividend divisor
    unfold divCeil
    split
    · rename_i more
      refine Nat.lt_of_mul_lt_mul_left (a := divisor) ?_
      omega
    · refine Nat.le_of_mul_le_mul_left (c := divisor) ?_ positive
      omega

def rolled (data : Bytes) (pos : Nat) : UInt64 :=
  (slice data cdcMinChunkBytes pos).foldl gearStep 0

def Matches (data : Bytes) (pos : Nat) : Prop :=
  rolled data pos &&& (if pos ≤ cdcAvgChunkBytes then maskStrict else maskLoose) = 0

theorem scan_found {mask : UInt64} {bytes : Bytes} {fp : UInt64} {pos cut : Nat}
    (found : scan mask bytes fp pos = .inl cut) :
    ∃ count, cut = pos + count ∧ 0 < count ∧ count ≤ bytes.length ∧
      (bytes.take count).foldl gearStep fp &&& mask = 0 ∧
      ∀ fewer, 0 < fewer → fewer < count →
        (bytes.take fewer).foldl gearStep fp &&& mask ≠ 0 := by
  induction bytes generalizing fp pos with
  | nil => simp [scan] at found
  | cons byte rest ih =>
      simp only [scan] at found
      split at found
      · rename_i matched
        simp only [Sum.inl.injEq] at found
        refine ⟨1, by omega, by omega, by simp, by simpa using matched, ?_⟩
        intro fewer some below
        omega
      · rename_i missed
        obtain ⟨count, eq, some, within, matched, first⟩ := ih found
        refine ⟨count + 1, by omega, by omega, by simpa using within, by simpa using matched, ?_⟩
        intro fewer positive below
        obtain ⟨fewer, rfl⟩ : ∃ less, fewer = less + 1 := ⟨fewer - 1, by omega⟩
        by_cases start : fewer = 0
        · subst start
          simpa using missed
        · simpa using first fewer (by omega) (by omega)

theorem scan_missed {mask : UInt64} {bytes : Bytes} {fp next : UInt64} {pos stop : Nat}
    (missed : scan mask bytes fp pos = .inr (next, stop)) :
    next = bytes.foldl gearStep fp ∧ stop = pos + bytes.length ∧
      ∀ count, 0 < count → count ≤ bytes.length →
        (bytes.take count).foldl gearStep fp &&& mask ≠ 0 := by
  induction bytes generalizing fp pos with
  | nil =>
      simp only [scan, Sum.inr.injEq, Prod.mk.injEq] at missed
      refine ⟨missed.1.symm, by simp [missed.2], ?_⟩
      intro count some within
      simp only [List.length_nil] at within
      omega
  | cons byte rest ih =>
      simp only [scan] at missed
      split at missed
      · simp at missed
      · rename_i differs
        obtain ⟨hash, stopped, none⟩ := ih missed
        refine ⟨hash, ?_, ?_⟩
        · simp only [List.length_cons]
          omega
        · intro count some within
          obtain ⟨count, rfl⟩ : ∃ less, count = less + 1 := ⟨count - 1, by omega⟩
          by_cases start : count = 0
          · subst start
            simpa using differs
          · have bound : count ≤ rest.length := by simpa using within
            simpa using none count (by omega) bound

theorem slice_take {data : Bytes} {start stop count : Nat} (within : start + count ≤ stop) :
    (slice data start stop).take count = slice data start (start + count) := by
  rw [slice, slice, List.take_drop, List.take_take, Nat.min_eq_left within]

theorem slice_append {data : Bytes} {start middle stop : Nat} (first : start ≤ middle)
    (second : middle ≤ stop) (within : middle ≤ data.length) :
    slice data start middle ++ slice data middle stop = slice data start stop := by
  have whole : data.take middle ++ (data.take stop).drop middle = data.take stop := by
    rw [← Nat.min_eq_left second, ← List.take_take, Nat.min_eq_left second,
      List.take_append_drop]
  have reach : start ≤ (data.take middle).length := by
    rw [List.length_take]
    omega
  rw [slice, slice, slice, ← whole, List.drop_append_of_le_length reach]
  simp [List.length_take, Nat.min_eq_left within]

theorem rolled_min (data : Bytes) : rolled data cdcMinChunkBytes = 0 := by
  simp [rolled, slice]

section Scans

variable {data : Bytes} {start stop : Nat} (past : cdcMinChunkBytes ≤ start)
  (within : stop ≤ data.length)
include past within

theorem rolled_from {count : Nat} (inside : start + count ≤ stop) :
    ((slice data start stop).take count).foldl gearStep (rolled data start) =
      rolled data (start + count) := by
  rw [slice_take inside, rolled, rolled, ← List.foldl_append,
    slice_append past (Nat.le_add_right _ _) (by omega)]

variable (ordered : start ≤ stop)
include ordered

theorem scan_rolled_found {mask : UInt64} {cut : Nat}
    (found : scan mask (slice data start stop) (rolled data start) start = .inl cut) :
    start < cut ∧ cut ≤ stop ∧ rolled data cut &&& mask = 0 ∧
      ∀ pos, start < pos → pos < cut → rolled data pos &&& mask ≠ 0 := by
  obtain ⟨count, rfl, some, inside, matched, first⟩ := scan_found found
  rw [slice_length within] at inside
  rw [rolled_from past within (by omega)] at matched
  refine ⟨by omega, by omega, matched, ?_⟩
  intro pos after before
  obtain ⟨fewer, rfl⟩ := Nat.exists_eq_add_of_lt after
  have missed := first (fewer + 1) (by omega) (by omega)
  rwa [rolled_from past within (by omega), ← Nat.add_assoc] at missed

theorem scan_rolled_missed {mask fp : UInt64} {pos : Nat}
    (missed : scan mask (slice data start stop) (rolled data start) start = .inr (fp, pos)) :
    fp = rolled data stop ∧ pos = stop ∧
      ∀ pos, start < pos → pos ≤ stop → rolled data pos &&& mask ≠ 0 := by
  obtain ⟨hash, stopped, none⟩ := scan_missed missed
  rw [slice_length within] at stopped none
  have inside : start + (stop - start) ≤ stop := by omega
  have whole := rolled_from past within inside
  rw [List.take_of_length_le (by rw [slice_length within]),
    Nat.add_sub_cancel' ordered] at whole
  refine ⟨hash.trans whole, by omega, ?_⟩
  intro pos after before
  obtain ⟨count, rfl⟩ := Nat.exists_eq_add_of_lt after
  have misses := none (count + 1) (by omega) (by omega)
  rwa [rolled_from past within (by omega), ← Nat.add_assoc] at misses

end Scans

/-- What the two loops find: the first match between the minimum and the limit. -/
def FirstMatch (data : Bytes) (limit cut : Nat) : Prop :=
  cdcMinChunkBytes < cut ∧ cut ≤ limit ∧
    (∀ pos, cdcMinChunkBytes < pos → pos < cut → ¬ Matches data pos) ∧
    (Matches data cut ∨ cut = limit)

theorem FirstMatch.unique {data : Bytes} {limit first second : Nat}
    (one : FirstMatch data limit first) (other : FirstMatch data limit second) :
    first = second := by
  obtain ⟨past, within, before, ends⟩ := one
  obtain ⟨pastOther, withinOther, beforeOther, endsOther⟩ := other
  rcases Nat.lt_trichotomy first second with less | same | more
  · have unmatched := beforeOther first past less
    rcases ends with matched | final
    · exact absurd matched unmatched
    · omega
  · exact same
  · have unmatched := before second pastOther more
    rcases endsOther with matched | final
    · exact absurd matched unmatched
    · omega

theorem matches_strict {data : Bytes} {pos : Nat} (early : pos ≤ cdcAvgChunkBytes) :
    Matches data pos ↔ rolled data pos &&& maskStrict = 0 := by
  rw [Matches, if_pos early]

theorem matches_loose {data : Bytes} {pos : Nat} (late : cdcAvgChunkBytes < pos) :
    Matches data pos ↔ rolled data pos &&& maskLoose = 0 := by
  rw [Matches, if_neg (by omega)]

/-- Where the strict region ends, short of the scan limit or at it. -/
theorem strict_region {limit : Nat} (long : cdcMinChunkBytes < limit) :
    cdcMinChunkBytes ≤ min cdcAvgChunkBytes limit ∧
      min cdcAvgChunkBytes limit ≤ cdcAvgChunkBytes ∧ min cdcAvgChunkBytes limit ≤ limit ∧
      (limit = min cdcAvgChunkBytes limit ∨ min cdcAvgChunkBytes limit = cdcAvgChunkBytes) := by
  have order : cdcMinChunkBytes < cdcAvgChunkBytes := by
    simp [cdcMinChunkBytes, cdcAvgChunkBytes]
  omega

/-- Past the minimum, the cut point is the first match, or the scan limit. -/
theorem cutPoint_first {data : Bytes}
    (long : cdcMinChunkBytes < min data.length cdcMaxChunkBytes) :
    FirstMatch data (min data.length cdcMaxChunkBytes) (cutPoint data) := by
  have length : min data.length cdcMaxChunkBytes ≤ data.length := Nat.min_le_left _ _
  simp only [cutPoint, Nat.not_le.mpr long, if_false]
  generalize min data.length cdcMaxChunkBytes = limit at long length
  obtain ⟨region, average, inside, reach⟩ := strict_region long
  generalize min cdcAvgChunkBytes limit = normal at average region inside reach
  rw [← rolled_min data]
  split
  · rename_i cut found
    obtain ⟨past, within, matched, first⟩ :=
      scan_rolled_found (Nat.le_refl _) (by omega) region found
    refine ⟨past, by omega, ?_, .inl ((matches_strict (by omega)).mpr matched)⟩
    intro pos after before
    exact (not_congr (matches_strict (by omega))).mpr (first pos after before)
  · rename_i fp pos missed
    obtain ⟨rfl, rfl, unmatched⟩ :=
      scan_rolled_missed (Nat.le_refl _) (by omega) region missed
    have strict : ∀ early, cdcMinChunkBytes < early → early ≤ pos → ¬ Matches data early :=
      fun early after before =>
        (not_congr (matches_strict (by omega))).mpr (unmatched early after before)
    split
    · rename_i cut found
      obtain ⟨past, within, matched, first⟩ := scan_rolled_found region length inside found
      refine ⟨by omega, within, ?_, .inl ((matches_loose (by omega)).mpr matched)⟩
      intro late after before
      by_cases early : late ≤ pos
      · exact strict late after early
      · exact (not_congr (matches_loose (by omega))).mpr (first late (by omega) before)
    · rename_i last lost
      obtain ⟨_, _, unmatchedLate⟩ := scan_rolled_missed region length inside lost
      refine ⟨long, Nat.le_refl _, ?_, .inr rfl⟩
      intro late after before
      by_cases early : late ≤ pos
      · exact strict late after early
      · exact (not_congr (matches_loose (by omega))).mpr
          (unmatchedLate late (by omega) (by omega))

theorem cutPoint_short {data : Bytes} (short : data.length ≤ cdcMinChunkBytes) :
    cutPoint data = data.length := by
  have order : cdcMinChunkBytes ≤ cdcMaxChunkBytes := by
    simp [cdcMinChunkBytes, cdcMaxChunkBytes]
  have limit : min data.length cdcMaxChunkBytes = data.length := by omega
  simp [cutPoint, limit, short]

theorem cutPoint_le_max (data : Bytes) : cutPoint data ≤ cdcMaxChunkBytes := by
  by_cases long : cdcMinChunkBytes < min data.length cdcMaxChunkBytes
  · exact Nat.le_trans (cutPoint_first long).2.1 (Nat.min_le_right _ _)
  · simp only [cutPoint, if_pos (Nat.not_lt.mp long)]
    exact Nat.min_le_right _ _

theorem min_lt_cutPoint {data : Bytes} (short : cutPoint data < data.length) :
    cdcMinChunkBytes < cutPoint data := by
  by_cases long : cdcMinChunkBytes < min data.length cdcMaxChunkBytes
  · exact (cutPoint_first long).1
  · have order : cdcMinChunkBytes < cdcMaxChunkBytes := by
      simp [cdcMinChunkBytes, cdcMaxChunkBytes]
    have whole : cutPoint data = data.length := cutPoint_short (by omega)
    omega

def EndsOnContent (chunk : Bytes) : Prop :=
  cdcMinChunkBytes < chunk.length ∧ Matches chunk chunk.length

theorem matches_append {data : Bytes} {pos : Nat} (within : pos ≤ data.length) (more : Bytes) :
    Matches (data ++ more) pos ↔ Matches data pos := by
  rw [Matches, Matches, rolled, rolled, slice, slice, List.take_append_of_le_length within]

theorem matches_take {data : Bytes} {pos stop : Nat} (before : pos ≤ stop) :
    Matches (data.take stop) pos ↔ Matches data pos := by
  rw [Matches, Matches, rolled, rolled, slice, slice, List.take_take, Nat.min_eq_left before]

def fastCutter : Cutter UInt8 where
  cut := cutPoint
  cut_pos _ nonempty := cutPoint_pos nonempty
  cut_le := cutPoint_le

theorem firm_of_first {chunk : Bytes} (past : cdcMinChunkBytes < chunk.length)
    (capped : chunk.length ≤ cdcMaxChunkBytes)
    (before : ∀ pos, cdcMinChunkBytes < pos → pos < chunk.length → ¬ Matches chunk pos)
    (ends : Matches chunk chunk.length ∨ chunk.length = cdcMaxChunkBytes) :
    fastCutter.Firm chunk := by
  intro back
  have limit : chunk.length ≤ min (chunk ++ back).length cdcMaxChunkBytes := by
    rw [List.length_append]
    omega
  refine (cutPoint_first (by omega)).unique ⟨past, limit, ?_, ?_⟩
  · intro pos after below
    rw [matches_append (by omega)]
    exact before pos after below
  · rcases ends with matched | full
    · exact .inl ((matches_append (Nat.le_refl _) back).mpr matched)
    · right
      omega

theorem fastCutter_local : fastCutter.Local := by
  intro rest short
  have past : cdcMinChunkBytes < cutPoint rest := min_lt_cutPoint short
  have length : (rest.take (cutPoint rest)).length = cutPoint rest := by
    rw [List.length_take]
    exact Nat.min_eq_left (cutPoint_le rest)
  have capped := cutPoint_le_max rest
  have short : cutPoint rest < rest.length := short
  have long : cdcMinChunkBytes < min rest.length cdcMaxChunkBytes := by omega
  obtain ⟨_, _, before, ends⟩ := cutPoint_first long
  show fastCutter.Firm (rest.take (cutPoint rest))
  refine firm_of_first (by omega) (by omega) ?_ ?_
  · intro pos after below
    rw [length] at below
    rw [matches_take (Nat.le_of_lt below)]
    exact before pos after below
  · rw [length, matches_take (Nat.le_refl _)]
    exact ends.imp_right fun final => by omega

theorem FastCdc.collect_eq (fuel : Nat) (data : Bytes) (enough : data.length ≤ fuel) :
    FastCdc.collect fuel data = fastCutter.chunks data := by
  induction fuel generalizing data with
  | zero =>
      rw [List.eq_nil_of_length_eq_zero (Nat.le_zero.mp enough), FastCdc.collect_nil,
        fastCutter.chunks_nil]
  | succ fuel ih =>
      by_cases empty : data = []
      · rw [empty, FastCdc.collect_nil, fastCutter.chunks_nil]
      · rw [fastCutter.chunks_cut empty, FastCdc.collect_cut fuel empty,
          ih _ (drop_cutPoint_length empty enough)]
        rfl

theorem fastCdc_eq (data : Bytes) : fastCdc data = fastCutter.chunks data :=
  FastCdc.collect_eq data.length data (Nat.le_refl _)

theorem FastCdc.chunks_after (count : Nat) (data : Bytes) :
    fastCutter.chunks (FastCdc.after count data) = (fastCutter.chunks data).drop count := by
  induction count generalizing data with
  | zero => rfl
  | succ count ih =>
      by_cases empty : data = []
      · simp [FastCdc.after, FastCdc.next, empty]
      · rw [fastCutter.chunks_cut empty, List.drop_succ_cons, FastCdc.after,
          FastCdc.next_eq empty]
        exact ih _

theorem FastCdc.next_after (count : Nat) (data : Bytes) :
    (FastCdc.next (FastCdc.after count data)).map Prod.fst = (fastCdc data)[count]? := by
  rw [fastCdc_eq, ← List.head?_drop, ← FastCdc.chunks_after]
  by_cases empty : FastCdc.after count data = []
  · simp [FastCdc.next, empty]
  · rw [FastCdc.next_eq empty, fastCutter.chunks_cut empty]
    rfl

theorem FastCdc.sizeHint_brackets (rest : Bytes) :
    (FastCdc.sizeHint rest).1 ≤ (fastCutter.chunks rest).length ∧
      ∀ upper ∈ (FastCdc.sizeHint rest).2, (fastCutter.chunks rest).length ≤ upper := by
  constructor
  · exact divCeil_le (fastCutter.length_le_mul_chunks cutPoint_le_max rest)
  · rintro upper ⟨⟩
    exact fastCutter.chunks_length_le rest

/-- The iterator ends, its chunks tile the input within the size bounds, its
fallback arm is never taken and its size hint brackets what is still to come. -/
theorem fastCdc_bounds (data : Bytes) :
    (∀ count, (FastCdc.next (FastCdc.after count data)).map Prod.fst = (fastCdc data)[count]?) ∧
      (fastCdc data).flatten = data ∧
      (∀ chunk ∈ fastCdc data, chunk ≠ [] ∧ chunk.length ≤ cdcMaxChunkBytes) ∧
      (∀ chunk ∈ (fastCdc data).dropLast, cdcMinChunkBytes ≤ chunk.length) ∧
      ∀ count,
        cutPoint (FastCdc.after count data) ≤ (FastCdc.after count data).length ∧
        (FastCdc.sizeHint (FastCdc.after count data)).1 ≤ ((fastCdc data).drop count).length ∧
        ∀ upper ∈ (FastCdc.sizeHint (FastCdc.after count data)).2,
          ((fastCdc data).drop count).length ≤ upper := by
  refine ⟨fun count => FastCdc.next_after count data, fastCdc_flatten data, ?_, ?_, ?_⟩
  · intro chunk member
    rw [fastCdc_eq] at member
    exact ⟨fastCutter.chunks_ne_nil member,
      fastCutter.length_le_of_mem_chunks cutPoint_le_max member⟩
  · intro chunk member
    rw [fastCdc_eq] at member
    exact fastCutter.le_length_of_mem_dropLast
      (fun _ short => Nat.le_of_lt (min_lt_cutPoint short)) member
  · intro count
    have brackets := FastCdc.sizeHint_brackets (FastCdc.after count data)
    rw [FastCdc.chunks_after, ← fastCdc_eq] at brackets
    exact ⟨cutPoint_le _, brackets⟩

def FastCdc.Boundary (data front : Bytes) : Prop :=
  ∃ count, ((fastCdc data).take count).flatten = front

theorem FastCdc.boundary_iff {data front : Bytes} :
    FastCdc.Boundary data front ↔ fastCutter.Boundary data front := by
  rw [FastCdc.Boundary, Cutter.Boundary, fastCdc_eq]

theorem firm_of_last {data last : Bytes} (final : last ∈ (fastCdc data).getLast?)
    (ends : EndsOnContent last ∨ last.length = cdcMaxChunkBytes) : fastCutter.Firm last := by
  rw [fastCdc_eq] at final
  have whole : cutPoint last = last.length := fastCutter.cut_getLast final
  have capped : last.length ≤ cdcMaxChunkBytes :=
    fastCutter.length_le_of_mem_chunks cutPoint_le_max (List.mem_of_getLast? final)
  have past : cdcMinChunkBytes < last.length := by
    rcases ends with content | full
    · exact content.1
    · simp [full, cdcMinChunkBytes, cdcMaxChunkBytes]
  have long : cdcMinChunkBytes < min last.length cdcMaxChunkBytes := by omega
  obtain ⟨_, _, before, _⟩ := cutPoint_first long
  rw [whole] at before
  exact firm_of_first past capped before (ends.imp_left And.right)

theorem fastCdc_kept {front back : Bytes}
    (ends : ∀ last ∈ (fastCdc front).getLast?,
      EndsOnContent last ∨ last.length = cdcMaxChunkBytes) :
    fastCdc front <+: fastCdc (front ++ back) := by
  have firm : ∀ last ∈ (fastCutter.chunks front).getLast?, fastCutter.Firm last := by
    intro last final
    rw [← fastCdc_eq] at final
    exact firm_of_last final (ends last final)
  rw [fastCdc_eq, fastCdc_eq, fastCutter.chunks_append fastCutter_local firm]
  exact List.prefix_append _ _

theorem fastCdc_from_boundary {front rest : Bytes}
    (boundary : FastCdc.Boundary (front ++ rest) front) :
    ∃ before, before.flatten = front ∧ fastCdc (front ++ rest) = before ++ fastCdc rest := by
  obtain ⟨before, tiles, split⟩ :=
    fastCutter.chunks_of_boundary (FastCdc.boundary_iff.mp boundary)
  exact ⟨before, tiles, by rw [fastCdc_eq, fastCdc_eq, split]⟩

theorem fastCdc_between {front rest : Bytes} (boundary : FastCdc.Boundary (front ++ rest) front)
    {early : List Bytes} (begins : early <+: fastCdc (front ++ rest))
    (within : early.flatten.length ≤ front.length) :
    ∃ between, fastCdc (front ++ rest) = early ++ between ++ fastCdc rest := by
  rw [fastCdc_eq] at begins
  obtain ⟨between, split⟩ :=
    fastCutter.chunks_split (FastCdc.boundary_iff.mp boundary) begins within
  exact ⟨between, by rw [fastCdc_eq, fastCdc_eq, split]⟩

theorem fastCdc_before {front back : Bytes} {count : Nat}
    (within : ((fastCdc (front ++ back)).take count).flatten.length ≤ front.length)
    (short : count < (fastCdc (front ++ back)).length) (other : Bytes) :
    (fastCdc (front ++ back)).take count <+: fastCdc (front ++ other) := by
  rw [fastCdc_eq] at within short
  rw [fastCdc_eq, fastCdc_eq,
    ← fastCutter.take_chunks_append fastCutter_local within short other]
  exact List.take_prefix _ _

/-- Chunks depend on what comes before their end only: more input keeps all but
the last, and the last too if it ended on a match or at the maximum; two inputs
with a boundary at a common rest have the same chunks from there on; an edit
changes none that end before it and none past a boundary both inputs have. -/
theorem fastCdc_edits :
    (∀ front back, (fastCdc front).dropLast <+: fastCdc (front ++ back)) ∧
      (∀ front back,
        (∀ last ∈ (fastCdc front).getLast?,
          EndsOnContent last ∨ last.length = cdcMaxChunkBytes) →
        fastCdc front <+: fastCdc (front ++ back)) ∧
      (∀ first second early rest,
        FastCdc.Boundary (first ++ early ++ rest) (first ++ early) →
        FastCdc.Boundary (second ++ early ++ rest) (second ++ early) →
        ∃ before beforeOther,
          before.flatten = first ++ early ∧ beforeOther.flatten = second ++ early ∧
          fastCdc (first ++ early ++ rest) = before ++ fastCdc rest ∧
          fastCdc (second ++ early ++ rest) = beforeOther ++ fastCdc rest) ∧
      (∀ front old new early rest count,
        FastCdc.Boundary (front ++ old ++ early ++ rest) (front ++ old ++ early) →
        FastCdc.Boundary (front ++ new ++ early ++ rest) (front ++ new ++ early) →
        ((fastCdc (front ++ old ++ early ++ rest)).take count).flatten.length ≤ front.length →
        count < (fastCdc (front ++ old ++ early ++ rest)).length →
        ∃ changed changedTo,
          fastCdc (front ++ old ++ early ++ rest) =
            (fastCdc (front ++ old ++ early ++ rest)).take count ++ changed ++ fastCdc rest ∧
          fastCdc (front ++ new ++ early ++ rest) =
            (fastCdc (front ++ old ++ early ++ rest)).take count ++ changedTo ++ fastCdc rest) := by
  refine ⟨?_, fun front back => fastCdc_kept, ?_, ?_⟩
  · intro front back
    rw [fastCdc_eq, fastCdc_eq]
    exact fastCutter.dropLast_chunks_prefix fastCutter_local front back
  · intro first second early rest boundary boundaryOther
    obtain ⟨before, tiles, split⟩ := fastCdc_from_boundary boundary
    obtain ⟨beforeOther, tilesOther, splitOther⟩ := fastCdc_from_boundary boundaryOther
    exact ⟨before, beforeOther, tiles, tilesOther, split, splitOther⟩
  · intro front old new early rest count boundary boundaryTo within short
    have kept : (fastCdc (front ++ old ++ early ++ rest)).take count <+:
        fastCdc (front ++ new ++ early ++ rest) := by
      simp only [List.append_assoc] at within short ⊢
      exact fastCdc_before within short _
    obtain ⟨changed, split⟩ := fastCdc_between boundary (List.take_prefix count _)
      (by simp only [List.length_append]; omega)
    obtain ⟨changedTo, splitTo⟩ := fastCdc_between boundaryTo kept
      (by simp only [List.length_append]; omega)
    exact ⟨changed, changedTo, split, splitTo⟩

@[irreducible] def sampleBlock : Bytes := List.replicate 4160 50 ++ [102]

theorem fastCdc_front {front : Bytes} (rest : Bytes) (some : front ≠ [])
    (ends : cutPoint (front ++ rest) = front.length) :
    fastCdc (front ++ rest) = front :: fastCdc rest := by
  have nonempty : front ++ rest ≠ [] := fun empty => some (List.append_eq_nil_iff.mp empty).1
  have cut : fastCutter.cut (front ++ rest) = front.length := ends
  rw [fastCdc_eq, fastCdc_eq, fastCutter.chunks_cut nonempty, cut, List.take_left, List.drop_left]

theorem fastCdc_blocks :
    fastCdc (sampleBlock ++ [] ++ sampleBlock ++ [1, 2, 3]) =
        [sampleBlock, sampleBlock, [1, 2, 3]] ∧
      fastCdc (sampleBlock ++ [7] ++ sampleBlock ++ [1, 2, 3]) =
        [sampleBlock, 7 :: sampleBlock, [1, 2, 3]] := by
  have some : sampleBlock ≠ [] := by decide +kernel
  have last : fastCdc [1, 2, 3] = [[1, 2, 3]] := by decide
  have first : cutPoint (sampleBlock ++ (sampleBlock ++ [1, 2, 3])) = sampleBlock.length := by
    decide +kernel
  have second : cutPoint (sampleBlock ++ [1, 2, 3]) = sampleBlock.length := by decide +kernel
  have firstTo : cutPoint (sampleBlock ++ ((7 :: sampleBlock) ++ [1, 2, 3])) =
      sampleBlock.length := by decide +kernel
  have secondTo : cutPoint ((7 :: sampleBlock) ++ [1, 2, 3]) = (7 :: sampleBlock).length := by
    decide +kernel
  constructor
  · rw [List.append_nil, List.append_assoc, fastCdc_front _ some first,
      fastCdc_front _ some second, last]
  · rw [List.append_assoc, List.append_assoc, List.singleton_append, ← List.cons_append,
      fastCdc_front _ some firstTo, fastCdc_front _ (List.cons_ne_nil _ _) secondTo, last]

/-- A byte is put between two blocks: the first block's chunk is kept, and so is what follows the
second block. -/
theorem fastCdc_edits_sample :
    (∃ before beforeOther,
      before.flatten = sampleBlock ++ [] ++ sampleBlock ∧
      beforeOther.flatten = sampleBlock ++ [7] ++ sampleBlock ∧
      fastCdc (sampleBlock ++ [] ++ sampleBlock ++ [1, 2, 3]) = before ++ fastCdc [1, 2, 3] ∧
      fastCdc (sampleBlock ++ [7] ++ sampleBlock ++ [1, 2, 3]) =
        beforeOther ++ fastCdc [1, 2, 3]) ∧
    ∃ changed changedTo,
      fastCdc (sampleBlock ++ [] ++ sampleBlock ++ [1, 2, 3]) =
        (fastCdc (sampleBlock ++ [] ++ sampleBlock ++ [1, 2, 3])).take 1 ++ changed ++
          fastCdc [1, 2, 3] ∧
      fastCdc (sampleBlock ++ [7] ++ sampleBlock ++ [1, 2, 3]) =
        (fastCdc (sampleBlock ++ [] ++ sampleBlock ++ [1, 2, 3])).take 1 ++ changedTo ++
          fastCdc [1, 2, 3] := by
  have boundary : FastCdc.Boundary (sampleBlock ++ [] ++ sampleBlock ++ [1, 2, 3])
      (sampleBlock ++ [] ++ sampleBlock) := ⟨2, by rw [fastCdc_blocks.1]; simp⟩
  have boundaryTo : FastCdc.Boundary (sampleBlock ++ [7] ++ sampleBlock ++ [1, 2, 3])
      (sampleBlock ++ [7] ++ sampleBlock) := ⟨2, by rw [fastCdc_blocks.2]; simp⟩
  constructor
  · exact fastCdc_edits.2.2.1 (sampleBlock ++ []) (sampleBlock ++ [7]) sampleBlock [1, 2, 3]
      boundary boundaryTo
  · refine fastCdc_edits.2.2.2 sampleBlock [] [7] sampleBlock [1, 2, 3] 1 boundary boundaryTo ?_ ?_
    · rw [fastCdc_blocks.1]
      simp
    · rw [fastCdc_blocks.1]
      simp

end Y4p
