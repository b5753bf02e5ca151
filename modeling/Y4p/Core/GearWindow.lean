import Y4p.Core.FastCdc

/-!
The window of the Gear hash of `cdc.rs`: each step shifts old bytes towards the top, so that
what the hash still knows of the bytes before the last 64 is nothing.
-/

namespace Y4p

structure ScanStep where
  pos : Nat
  fp : UInt64
  mask : UInt64

def ScanStep.Boundary (step : ScanStep) : Prop :=
  step.fp &&& step.mask = 0

def scanSteps (mask : UInt64) : Bytes → UInt64 → Nat → List ScanStep
  | [], _, _ => []
  | byte :: rest, fp, pos =>
      let fp := gearStep fp byte
      ⟨pos + 1, fp, mask⟩ :: if fp &&& mask = 0 then [] else scanSteps mask rest fp (pos + 1)

def cutSteps (data : Bytes) : List ScanStep :=
  let limit := min data.length cdcMaxChunkBytes
  if limit ≤ cdcMinChunkBytes then []
  else
    let normal := min cdcAvgChunkBytes limit
    scanSteps maskStrict (slice data cdcMinChunkBytes normal) 0 cdcMinChunkBytes ++
      match scan maskStrict (slice data cdcMinChunkBytes normal) 0 cdcMinChunkBytes with
      | .inl _ => []
      | .inr (fp, pos) => scanSteps maskLoose (slice data pos limit) fp pos

theorem mem_scanSteps {mask : UInt64} {bytes : Bytes} {fp : UInt64} {pos : Nat} {step : ScanStep} :
    step ∈ scanSteps mask bytes fp pos ↔
      ∃ count, 0 < count ∧ count ≤ bytes.length ∧
        step = ⟨pos + count, (bytes.take count).foldl gearStep fp, mask⟩ ∧
        ∀ fewer, 0 < fewer → fewer < count →
          (bytes.take fewer).foldl gearStep fp &&& mask ≠ 0 := by
  induction bytes generalizing fp pos with
  | nil =>
      refine iff_of_false List.not_mem_nil ?_
      rintro ⟨count, some, within, _⟩
      rw [List.length_nil] at within
      omega
  | cons byte rest ih =>
      simp only [scanSteps, List.mem_cons]
      constructor
      · rintro (rfl | later)
        · exact ⟨1, Nat.one_pos, Nat.le_add_left _ _, rfl, fun fewer some less => by omega⟩
        · split at later
          · exact absurd later List.not_mem_nil
          · rename_i differs
            obtain ⟨count, some, within, rfl, none⟩ := ih.mp later
            refine ⟨count + 1, Nat.succ_pos _, Nat.succ_le_succ within, ?_, ?_⟩
            · rw [Nat.add_assoc, Nat.add_comm 1]
              rfl
            · intro fewer positive less
              obtain ⟨fewer, rfl⟩ : ∃ less, fewer = less + 1 := ⟨fewer - 1, by omega⟩
              by_cases start : fewer = 0
              · subst start
                exact differs
              · exact none fewer (by omega) (by omega)
      · rintro ⟨count, some, within, rfl, none⟩
        obtain ⟨count, rfl⟩ : ∃ less, count = less + 1 := ⟨count - 1, by omega⟩
        by_cases start : count = 0
        · subst start
          exact .inl rfl
        · have differs : gearStep fp byte &&& mask ≠ 0 := none 1 Nat.one_pos (by omega)
          refine .inr ?_
          rw [if_neg differs, ih]
          refine ⟨count, by omega, Nat.le_of_succ_le_succ within, ?_, ?_⟩
          · rw [Nat.add_assoc, Nat.add_comm 1]
            rfl
          · intro fewer positive less
            exact none (fewer + 1) (by omega) (by omega)

def maskAt (pos : Nat) : UInt64 :=
  if pos ≤ cdcAvgChunkBytes then maskStrict else maskLoose

theorem mem_scanSteps_rolled {data : Bytes} {start stop : Nat} (past : cdcMinChunkBytes ≤ start)
    (within : stop ≤ data.length) {mask : UInt64} {step : ScanStep} :
    step ∈ scanSteps mask (slice data start stop) (rolled data start) start ↔
      start < step.pos ∧ step.pos ≤ stop ∧ step.fp = rolled data step.pos ∧ step.mask = mask ∧
        ∀ pos, start < pos → pos < step.pos → rolled data pos &&& mask ≠ 0 := by
  rw [mem_scanSteps, slice_length within]
  constructor
  · rintro ⟨count, some, inside, rfl, none⟩
    refine ⟨by dsimp only; omega, by dsimp only; omega, ?_, rfl, ?_⟩
    · exact rolled_from past within (by omega)
    · intro pos after before
      obtain ⟨fewer, rfl⟩ := Nat.exists_eq_add_of_lt after
      dsimp only at before
      have missed := none (fewer + 1) (by omega) (by omega)
      rwa [rolled_from past within (by omega), ← Nat.add_assoc] at missed
  · rintro ⟨after, inside, hash, same, none⟩
    obtain ⟨pos, fp, stepMask⟩ := step
    dsimp only at after inside hash same none
    subst hash same
    obtain ⟨count, rfl⟩ := Nat.exists_eq_add_of_lt after
    refine ⟨count + 1, Nat.succ_pos _, by omega, ?_, ?_⟩
    · rw [rolled_from past within (by omega), ← Nat.add_assoc]
    · intro fewer some less
      rw [rolled_from past within (by omega)]
      exact none (start + fewer) (by omega) (by omega)

theorem maskAt_strict {pos : Nat} (early : pos ≤ cdcAvgChunkBytes) : maskAt pos = maskStrict :=
  if_pos early

theorem maskAt_loose {pos : Nat} (late : cdcAvgChunkBytes < pos) : maskAt pos = maskLoose :=
  if_neg (Nat.not_le.mpr late)

theorem unmatched_iff (pos : Nat) {mask : UInt64} {data : Bytes} {start stop cut : Nat}
    (within : cut ≤ stop)
    (none : ∀ earlier, start < earlier → earlier < cut → rolled data earlier &&& mask ≠ 0)
    (ends : start < cut ∧ rolled data cut &&& mask = 0 ∨ cut = stop) :
    (pos ≤ stop ∧ ∀ earlier, start < earlier → earlier < pos → rolled data earlier &&& mask ≠ 0) ↔
      pos ≤ cut := by
  constructor
  · rintro ⟨inside, unmatched⟩
    rcases ends with ⟨past, matched⟩ | rfl
    · by_contra beyond
      exact unmatched cut past (Nat.not_le.mp beyond) matched
    · exact inside
  · intro upTo
    exact ⟨Nat.le_trans upTo within,
      fun earlier after before => none earlier after (Nat.lt_of_lt_of_le before upTo)⟩

theorem regions_iff {data : Bytes} {step : ScanStep} {normal limit cut : Nat}
    (region : cdcMinChunkBytes ≤ normal) (average : normal ≤ cdcAvgChunkBytes)
    (reach : limit = normal ∨ normal = cdcAvgChunkBytes)
    (unmatched : ∀ earlier, cdcMinChunkBytes < earlier → earlier ≤ normal →
      rolled data earlier &&& maskStrict ≠ 0)
    (past : normal ≤ cut) (within : cut ≤ limit)
    (none : ∀ earlier, normal < earlier → earlier < cut → rolled data earlier &&& maskLoose ≠ 0)
    (ends : normal < cut ∧ rolled data cut &&& maskLoose = 0 ∨ cut = limit) :
    (cdcMinChunkBytes < step.pos ∧ step.pos ≤ normal ∧ step.fp = rolled data step.pos ∧
        step.mask = maskStrict ∧ ∀ earlier, cdcMinChunkBytes < earlier →
          earlier < step.pos → rolled data earlier &&& maskStrict ≠ 0) ∨
      (normal < step.pos ∧ step.pos ≤ limit ∧ step.fp = rolled data step.pos ∧
        step.mask = maskLoose ∧ ∀ earlier, normal < earlier →
          earlier < step.pos → rolled data earlier &&& maskLoose ≠ 0) ↔
      cdcMinChunkBytes < step.pos ∧ step.pos ≤ cut ∧ step.fp = rolled data step.pos ∧
        step.mask = maskAt step.pos := by
  have upTo := unmatched_iff step.pos within none ends
  constructor
  · rintro (⟨after, reached, hash, same, _⟩ | ⟨after, reached, hash, same, none⟩)
    · rw [maskAt_strict (Nat.le_trans reached average)]
      exact ⟨after, Nat.le_trans reached past, hash, same⟩
    · rw [maskAt_loose (by omega)]
      exact ⟨by omega, upTo.mp ⟨reached, none⟩, hash, same⟩
  · rintro ⟨after, reached, hash, same⟩
    by_cases early : step.pos ≤ normal
    · rw [maskAt_strict (by omega)] at same
      exact .inl ⟨after, early, hash, same,
        fun earlier later before => unmatched earlier later (by omega)⟩
    · rw [maskAt_loose (by omega)] at same
      obtain ⟨reached, none⟩ := upTo.mpr reached
      exact .inr ⟨Nat.not_le.mp early, reached, hash, same, none⟩

/-- The steps are one for each position past the minimum, up to the cut point. -/
theorem mem_cutSteps {data : Bytes} {step : ScanStep} :
    step ∈ cutSteps data ↔
      cdcMinChunkBytes < step.pos ∧ step.pos ≤ cutPoint data ∧ step.fp = rolled data step.pos ∧
        step.mask = maskAt step.pos := by
  have length : min data.length cdcMaxChunkBytes ≤ data.length := Nat.min_le_left _ _
  simp only [cutSteps, cutPoint]
  generalize min data.length cdcMaxChunkBytes = limit at length
  by_cases short : limit ≤ cdcMinChunkBytes
  · rw [if_pos short, if_pos short]
    refine iff_of_false List.not_mem_nil ?_
    omega
  · rw [if_neg short, if_neg short]
    obtain ⟨region, average, inside, reach⟩ := strict_region (Nat.not_le.mp short)
    generalize min cdcAvgChunkBytes limit = normal at average region inside reach
    rw [← rolled_min data, List.mem_append,
      mem_scanSteps_rolled (Nat.le_refl _) (Nat.le_trans inside length)]
    cases first : scan maskStrict (slice data cdcMinChunkBytes normal)
        (rolled data cdcMinChunkBytes) cdcMinChunkBytes with
    | inl cut =>
        obtain ⟨past, within, matched, none⟩ :=
          scan_rolled_found (Nat.le_refl _) (Nat.le_trans inside length) region first
        have upTo := unmatched_iff step.pos within none (.inl ⟨past, matched⟩)
        dsimp only
        rw [or_iff_left List.not_mem_nil]
        constructor
        · rintro ⟨after, reached, hash, same, unmatched⟩
          rw [maskAt_strict (Nat.le_trans reached average)]
          exact ⟨after, upTo.mp ⟨reached, unmatched⟩, hash, same⟩
        · rintro ⟨after, reached, hash, same⟩
          rw [maskAt_strict (by omega)] at same
          obtain ⟨reached, unmatched⟩ := upTo.mpr reached
          exact ⟨after, reached, hash, same, unmatched⟩
    | inr carried =>
        obtain ⟨fp, pos⟩ := carried
        obtain ⟨rfl, rfl, unmatched⟩ :=
          scan_rolled_missed (Nat.le_refl _) (Nat.le_trans inside length) region first
        dsimp only
        rw [mem_scanSteps_rolled region length]
        cases second : scan maskLoose (slice data pos limit) (rolled data pos) pos with
        | inl cut =>
            obtain ⟨past, within, matched, none⟩ := scan_rolled_found region length inside second
            exact regions_iff region average reach unmatched (Nat.le_of_lt past) within none
              (.inl ⟨past, matched⟩)
        | inr lost =>
            obtain ⟨_, _, none⟩ := scan_rolled_missed region length inside second
            exact regions_iff region average reach unmatched inside (Nat.le_refl _)
              (fun earlier after before => none earlier after (Nat.le_of_lt before)) (.inr rfl)

/-- A step whose test fires is the one `cut_point` returns after. -/
theorem cutSteps_boundary {data : Bytes} {step : ScanStep} (member : step ∈ cutSteps data)
    (fires : step.Boundary) : cutPoint data = step.pos := by
  obtain ⟨after, upTo, hash, same⟩ := mem_cutSteps.mp member
  have long : cdcMinChunkBytes < min data.length cdcMaxChunkBytes := by
    by_contra short
    have whole : cutPoint data = min data.length cdcMaxChunkBytes := by
      simp only [cutPoint, if_pos (Nat.not_lt.mp short)]
    omega
  obtain ⟨_, _, none, _⟩ := cutPoint_first long
  have matched : Matches data step.pos := by
    rw [ScanStep.Boundary, hash, same] at fires
    exact fires
  by_contra differs
  exact none step.pos after (by omega) matched

def SameLow (count : Nat) (first second : UInt64) : Prop :=
  first.toNat % 2 ^ count = second.toNat % 2 ^ count

theorem sameLow_whole {count : Nat} (whole : 64 ≤ count) {first second : UInt64} :
    SameLow count first second ↔ first = second := by
  have bound : ∀ hash : UInt64, hash.toNat < 2 ^ count := fun hash =>
    Nat.lt_of_lt_of_le hash.toNat_lt (Nat.pow_le_pow_right (by decide) whole)
  rw [SameLow, Nat.mod_eq_of_lt (bound first), Nat.mod_eq_of_lt (bound second), UInt64.toNat_inj]

theorem SameLow.testBit {count bit : Nat} {first second : UInt64}
    (same : SameLow count first second) (below : bit < count) :
    first.toNat.testBit bit = second.toNat.testBit bit := by
  have bits := congrArg (fun n => n.testBit bit) same
  simpa only [Nat.testBit_mod_two_pow, below, decide_true, Bool.true_and] using bits

theorem toNat_gearStep (fp : UInt64) (byte : UInt8) :
    (gearStep fp byte).toNat = (2 * fp.toNat + (gear.getD byte.toNat 0).toNat) % 2 ^ 64 := by
  have shifted : (fp <<< 1).toNat = 2 * fp.toNat % 2 ^ 64 := by
    have one : UInt64.toNat 1 % 64 = 1 := rfl
    rw [UInt64.toNat_shiftLeft, one, Nat.shiftLeft_eq, Nat.pow_one, Nat.mul_comm]
  rw [gearStep, UInt64.toNat_add, shifted, Nat.mod_add_mod]

theorem SameLow.step {count : Nat} {first second : UInt64} (same : SameLow count first second)
    (byte : UInt8) : SameLow (count + 1) (gearStep first byte) (gearStep second byte) := by
  by_cases whole : 64 ≤ count
  · rw [sameLow_whole whole] at same
    rw [same]
    rfl
  · have divides : 2 ^ (count + 1) ∣ 2 ^ 64 := Nat.pow_dvd_pow 2 (by omega)
    rw [SameLow, toNat_gearStep, toNat_gearStep, Nat.mod_mod_of_dvd _ divides,
      Nat.mod_mod_of_dvd _ divides, Nat.add_mod, Nat.add_mod (2 * second.toNat), Nat.pow_succ',
      Nat.mul_mod_mul_left, Nat.mul_mod_mul_left, same]

/-- After `count` bytes nothing below bit `count` is left of what came before them. -/
theorem SameLow.run {count : Nat} {first second : UInt64} (same : SameLow count first second)
    (bytes : Bytes) :
    SameLow (count + bytes.length) (bytes.foldl gearStep first) (bytes.foldl gearStep second) := by
  induction bytes generalizing count first second with
  | nil => exact same
  | cons byte rest ih =>
      have later := ih (same.step byte)
      rw [Nat.add_assoc, Nat.add_comm 1] at later
      exact later

theorem sameLow_zero (first second : UInt64) : SameLow 0 first second := by
  rw [SameLow, Nat.pow_zero, Nat.mod_one, Nat.mod_one]

def gearHash (bytes : Bytes) : UInt64 :=
  bytes.foldl gearStep 0

def lastBytes (data : Bytes) (p count : Nat) : Bytes :=
  slice data (p + 1 - count) (p + 1)

-- `cut_point`, from the chunk start `s`, consumes the byte at `p` in this step.
structure Scans (data : Bytes) (s p : Nat) (step : ScanStep) : Prop where
  member : step ∈ cutSteps (data.drop s)
  consumed : s + step.pos = p + 1

theorem exists_scans {data : Bytes} {s p : Nat} :
    (∃ step, Scans data s p step) ↔ s + cdcMinChunkBytes ≤ p ∧ p < s + cutPoint (data.drop s) := by
  constructor
  · rintro ⟨step, member, consumed⟩
    obtain ⟨after, upTo, _⟩ := mem_cutSteps.mp member
    omega
  · rintro ⟨after, upTo⟩
    refine ⟨⟨p + 1 - s, rolled (data.drop s) (p + 1 - s), maskAt (p + 1 - s)⟩, ?_, ?_⟩
    · refine mem_cutSteps.mpr ⟨?_, ?_, rfl, rfl⟩
      · dsimp only
        omega
      · dsimp only
        omega
    · dsimp only
      omega

theorem Scans.inside {data : Bytes} {s p : Nat} {step : ScanStep} (scans : Scans data s p step) :
    p < data.length := by
  have upTo := (mem_cutSteps.mp scans.member).2.1
  have length := cutPoint_le (data.drop s)
  have after := (mem_cutSteps.mp scans.member).1
  rw [List.length_drop] at length
  have consumed := scans.consumed
  omega

theorem slice_drop (data : Bytes) (s start stop : Nat) :
    slice (data.drop s) start stop = slice data (s + start) (s + stop) := by
  rw [slice, slice, List.take_drop, List.drop_drop]

theorem Scans.sameLow {data : Bytes} {s p count : Nat} {step : ScanStep}
    (scans : Scans data s p step) (within : s + cdcMinChunkBytes + count ≤ p + 1) :
    SameLow count step.fp (gearHash (lastBytes data p count)) := by
  have inside := scans.inside
  have consumed := scans.consumed
  have length : (slice data (p + 1 - count) (p + 1)).length = count := by
    rw [slice_length (by omega)]
    omega
  have split : slice (data.drop s) cdcMinChunkBytes step.pos =
      slice data (s + cdcMinChunkBytes) (p + 1 - count) ++ slice data (p + 1 - count) (p + 1) := by
    rw [slice_append (by omega) (by omega) (by omega), slice_drop, consumed]
  have run := (sameLow_zero (gearHash (slice data (s + cdcMinChunkBytes) (p + 1 - count))) 0).run
    (slice data (p + 1 - count) (p + 1))
  rw [length, Nat.zero_add] at run
  rw [(mem_cutSteps.mp scans.member).2.2.1, rolled, split, List.foldl_append]
  exact run

theorem Scans.fp_eq {data : Bytes} {s p : Nat} {step : ScanStep} (scans : Scans data s p step)
    (within : s + cdcMinChunkBytes + 64 ≤ p) : step.fp = gearHash (lastBytes data p 64) :=
  (sameLow_whole (Nat.le_refl 64)).mp (scans.sameLow (Nat.le_succ_of_le within))

/-- From 64 bytes beyond the minimum on, whether a chunk ends depends on its last 64 bytes alone,
and on the mask of the region they end in. -/
theorem gear_window :
    (∀ data s p, (∃ step, Scans data s p step) ↔
      s + cdcMinChunkBytes ≤ p ∧ p < s + cutPoint (data.drop s)) ∧
    (∀ data s p step, Scans data s p step → s + cdcMinChunkBytes + 64 ≤ p →
      step.fp = gearHash (lastBytes data p 64) ∧
      (∀ bit < 64, step.fp.toNat.testBit bit =
        (gearHash (lastBytes data p (bit + 1))).toNat.testBit bit) ∧
      (∀ mask ∈ [maskStrict, maskLoose],
        step.fp &&& mask = 0 ↔ gearHash (lastBytes data p 64) &&& mask = 0) ∧
      (step.Boundary → s + cutPoint (data.drop s) = p + 1)) ∧
    ∀ data s p step other t q also, Scans data s p step → Scans other t q also →
      s + cdcMinChunkBytes + 64 ≤ p → t + cdcMinChunkBytes + 64 ≤ q →
      lastBytes data p 64 = lastBytes other q 64 →
      (p + 1 - s ≤ cdcAvgChunkBytes ↔ q + 1 - t ≤ cdcAvgChunkBytes) →
      (step.Boundary ↔ also.Boundary) := by
  refine ⟨fun data s p => exists_scans, ?_, ?_⟩
  · intro data s p step scans within
    refine ⟨scans.fp_eq within, fun bit below => ?_, fun mask _ => ?_, fun fires => ?_⟩
    · exact (@Scans.sameLow data s p (bit + 1) step scans (by omega)).testBit (Nat.lt_succ_self bit)
    · rw [scans.fp_eq within]
    · rw [cutSteps_boundary scans.member fires]
      exact scans.consumed
  · intro data s p step other t q also scans alsoScans within alsoWithin window region
    have mask : step.mask = also.mask := by
      have first := scans.consumed
      have second := alsoScans.consumed
      rw [(mem_cutSteps.mp scans.member).2.2.2, (mem_cutSteps.mp alsoScans.member).2.2.2, maskAt,
        maskAt]
      have pos : step.pos = p + 1 - s := by omega
      have alsoPos : also.pos = q + 1 - t := by omega
      rw [pos, alsoPos]
      simp only [region]
    rw [ScanStep.Boundary, ScanStep.Boundary, scans.fp_eq within, alsoScans.fp_eq alsoWithin,
      window, mask]

end Y4p
