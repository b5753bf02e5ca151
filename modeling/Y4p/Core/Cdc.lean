import Mathlib.Data.List.TakeDrop
import Y4p.Core.Constants

/-!
Content-defined chunking (`crates/core/src/cdc.rs`): a Gear hash is rolled over
the bytes past the minimum size, and a chunk ends where the hash matches a mask,
strict up to the average size and loose from there to the maximum.
-/

namespace Y4p

def normalisationLevel : Nat := 2

def avgBits : Nat := Nat.log2 cdcAvgChunkBytes

def topMask (count : Nat) : UInt64 :=
  0xFFFFFFFFFFFFFFFF <<< UInt64.ofNat (64 - count)

def maskStrict : UInt64 := topMask (avgBits + normalisationLevel)

def maskLoose : UInt64 := topMask (avgBits - normalisationLevel)

def gearSeed : UInt64 := 0x9E3779B97F4A7C15

def gearFrom : Nat → UInt64 → List UInt64
  | 0, _ => []
  | count + 1, state =>
      let state := state + gearSeed
      let z := (state ^^^ (state >>> 30)) * 0xBF58476D1CE4E5B9
      let z := (z ^^^ (z >>> 27)) * 0x94D049BB133111EB
      (z ^^^ (z >>> 31)) :: gearFrom count state

def gear : List UInt64 := gearFrom 256 gearSeed

def gearStep (fp : UInt64) (byte : UInt8) : UInt64 :=
  (fp <<< 1) + gear.getD byte.toNat 0

-- One of the two scans of `cut_point`: the boundary found, or the hash and
-- position to carry on with.
def scan (mask : UInt64) : Bytes → UInt64 → Nat → Nat ⊕ (UInt64 × Nat)
  | [], fp, pos => .inr (fp, pos)
  | byte :: rest, fp, pos =>
      let fp := gearStep fp byte
      if fp &&& mask = 0 then .inl (pos + 1) else scan mask rest fp (pos + 1)

def slice (data : Bytes) (start stop : Nat) : Bytes :=
  (data.take stop).drop start

def cutPoint (data : Bytes) : Nat :=
  let limit := min data.length cdcMaxChunkBytes
  if limit ≤ cdcMinChunkBytes then limit
  else
    let normal := min cdcAvgChunkBytes limit
    match scan maskStrict (slice data cdcMinChunkBytes normal) 0 cdcMinChunkBytes with
    | .inl cut => cut
    | .inr (fp, pos) =>
        match scan maskLoose (slice data pos limit) fp pos with
        | .inl cut => cut
        | .inr _ => limit

-- `next`: the chunk and what is left. A cut past the end would drain the rest.
def FastCdc.next (rest : Bytes) : Option (Bytes × Bytes) :=
  if rest = [] then none
  else if cutPoint rest ≤ rest.length then
    some (rest.take (cutPoint rest), rest.drop (cutPoint rest))
  else some (rest, [])

def FastCdc.collect : Nat → Bytes → List Bytes
  | 0, _ => []
  | fuel + 1, rest =>
      match FastCdc.next rest with
      | none => []
      | some (chunk, rest) => chunk :: FastCdc.collect fuel rest

-- Every chunk takes at least one byte, so the length is fuel enough.
def fastCdc (data : Bytes) : List Bytes :=
  FastCdc.collect data.length data

theorem scan_found_bound {mask : UInt64} {bytes : Bytes} {fp : UInt64} {pos cut : Nat}
    (found : scan mask bytes fp pos = .inl cut) : pos < cut ∧ cut ≤ pos + bytes.length := by
  induction bytes generalizing fp pos with
  | nil => simp [scan] at found
  | cons byte rest ih =>
      simp only [scan] at found
      split at found
      · simp only [Sum.inl.injEq] at found
        simp only [List.length_cons]
        omega
      · have bound := ih found
        simp only [List.length_cons]
        omega

theorem scan_missed_pos {mask : UInt64} {bytes : Bytes} {fp next : UInt64} {pos stop : Nat}
    (missed : scan mask bytes fp pos = .inr (next, stop)) : stop = pos + bytes.length := by
  induction bytes generalizing fp pos with
  | nil =>
      simp only [scan, Sum.inr.injEq, Prod.mk.injEq] at missed
      simp [missed.2]
  | cons byte rest ih =>
      simp only [scan] at missed
      split at missed
      · simp at missed
      · have stopped := ih missed
        simp only [List.length_cons]
        omega

theorem slice_length {data : Bytes} {start stop : Nat} (within : stop ≤ data.length) :
    (slice data start stop).length = stop - start := by
  simp [slice, within]

theorem cutPoint_le (data : Bytes) : cutPoint data ≤ data.length := by
  have limitLength : min data.length cdcMaxChunkBytes ≤ data.length := Nat.min_le_left _ _
  simp only [cutPoint]
  split
  · exact limitLength
  · rename_i long
    split
    · rename_i cut found
      have bound := (scan_found_bound found).2
      rw [slice_length (by omega)] at bound
      omega
    · rename_i fp pos missed
      have stopped := scan_missed_pos missed
      rw [slice_length (by omega)] at stopped
      split
      · rename_i cut found
        have bound := (scan_found_bound found).2
        rw [slice_length (by omega)] at bound
        omega
      · exact limitLength

theorem cutPoint_pos {data : Bytes} (nonempty : data ≠ []) : 0 < cutPoint data := by
  have length := List.length_pos_iff.mpr nonempty
  have limit : 0 < min data.length cdcMaxChunkBytes := by
    simp only [cdcMaxChunkBytes]
    omega
  simp only [cutPoint]
  split
  · exact limit
  · split
    · rename_i found
      have bound := (scan_found_bound found).1
      omega
    · split
      · rename_i found
        have bound := (scan_found_bound found).1
        omega
      · exact limit

theorem FastCdc.next_eq {rest : Bytes} (nonempty : rest ≠ []) :
    FastCdc.next rest = some (rest.take (cutPoint rest), rest.drop (cutPoint rest)) := by
  simp [FastCdc.next, nonempty, cutPoint_le]

theorem FastCdc.collect_nil (fuel : Nat) : FastCdc.collect fuel [] = [] := by
  cases fuel <;> simp [FastCdc.collect, FastCdc.next]

theorem FastCdc.collect_cut (fuel : Nat) {data : Bytes} (nonempty : data ≠ []) :
    FastCdc.collect (fuel + 1) data =
      data.take (cutPoint data) :: FastCdc.collect fuel (data.drop (cutPoint data)) := by
  simp only [FastCdc.collect, FastCdc.next_eq nonempty]

/-- A cut leaves less, so fuel that was enough before is enough for what is left. -/
theorem drop_cutPoint_length {fuel : Nat} {data : Bytes} (nonempty : data ≠ [])
    (enough : data.length ≤ fuel + 1) : (data.drop (cutPoint data)).length ≤ fuel := by
  have positive := cutPoint_pos nonempty
  rw [List.length_drop]
  omega

theorem FastCdc.collect_flatten (fuel : Nat) (data : Bytes) (enough : data.length ≤ fuel) :
    (FastCdc.collect fuel data).flatten = data := by
  induction fuel generalizing data with
  | zero =>
      rw [List.eq_nil_of_length_eq_zero (Nat.le_zero.mp enough), FastCdc.collect_nil]
      rfl
  | succ fuel ih =>
      by_cases empty : data = []
      · rw [empty, FastCdc.collect_nil]
        rfl
      · rw [FastCdc.collect_cut fuel empty, List.flatten_cons,
          ih _ (drop_cutPoint_length empty enough), List.take_append_drop]

theorem fastCdc_nil : fastCdc [] = [] := rfl

theorem fastCdc_flatten (data : Bytes) : (fastCdc data).flatten = data :=
  FastCdc.collect_flatten data.length data (Nat.le_refl _)

end Y4p
