import Y4p.Core.Decimal
import Y4p.Storage.Search

/-!
Targets on the command line (`resolve_target_id` of `crates/cli/src/utils.rs`), and
whether the indices `search` shows are the ones `list` shows.
-/

namespace Y4p

section
variable (tie : TieOrder) (maxHistory : UInt64)

def resolveTargetId (input : Str) (useId : Bool) (db : Db) : Except Str Int :=
  match parseI64 input with
  | none => .error ("invalid numerical value: '".toList ++ input ++ "'".toList)
  | some val =>
      if val.value < 0 then .error ("index cannot be negative: ".toList ++ val.text)
      else if useId then .ok val.value
      else
        match (fetchMetadataUpTo tie db maxHistory)[val.value.toNat]? with
        | some row => .ok row.id
        | none => .error ("index [".toList ++ val.text ++ "] is out of bounds.".toList)

end

section
variable {tie : TieOrder} {db : Db}

def Stamped (db : Db) : Prop :=
  db.clipboard.Pairwise fun first second => first.timestamp ≠ second.timestamp

instance (db : Db) : Decidable (Stamped db) :=
  inferInstanceAs (Decidable (List.Pairwise _ _))

theorem fetchMetadata_falling (stamped : Stamped db) :
    (fetchMetadata tie db).Pairwise fun first second => second.timestamp < first.timestamp := by
  have distinct : (fetchMetadata tie db).Pairwise fun first second =>
      first.timestamp ≠ second.timestamp :=
    (fetchMetadata_perm tie db).symm.pairwise stamped fun differ same => differ same.symm
  refine ((fetchMetadata_sorted tie db).and distinct).imp ?_
  intro first second both
  exact lt_of_le_of_ne both.1 both.2.symm

-- Whether `LIMIT ?` lets through what `rank` rows precede.
def Shown (limit : UInt64) (rank : Nat) : Prop :=
  limit.toNat < 2 ^ 63 → rank < limit.toNat

instance (limit : UInt64) (rank : Nat) : Decidable (Shown limit rank) :=
  inferInstanceAs (Decidable (_ → _))

theorem lt_rowsShown {limit : UInt64} {count rank : Nat} :
    rank < rowsShown limit count ↔ Shown limit rank ∧ rank < count := by
  unfold rowsShown Shown
  split <;> omega

theorem sqlLimit_getElem? {α : Type} (limit : UInt64) (rows : List α) (rank : Nat) :
    (sqlLimit (asI64 limit.toNat) rows)[rank]? =
      if Shown limit rank then rows[rank]? else none := by
  rw [sqlLimit_eq_take, List.getElem?_take]
  simp only [lt_rowsShown]
  by_cases past : rows.length ≤ rank
  · simp only [List.getElem?_eq_none past, ite_self]
  · simp only [Nat.not_le.mp past, and_true]

theorem fetchMetadataUpTo_absIndex (stamped : Stamped db) (limit : UInt64) {row : Row}
    (present : row ∈ db.clipboard) :
    (fetchMetadataUpTo tie db limit)[absIndex db row]? =
      if Shown limit (absIndex db row) then some row.metaRow else none := by
  have perm := fetchMetadata_perm tie db
  have placed : (fetchMetadata tie db)[absIndex db row]? = some row := by
    rw [absIndex, ← perm.countP_eq]
    exact Ranking.getElem?_countP (fetchMetadata_falling stamped) (perm.mem_iff.mpr present)
  rw [fetchMetadataUpTo, sqlLimit_getElem?, List.getElem?_map, placed]
  rfl

end

def newerThan (rows : List Row) (row : Row) : Nat :=
  rows.countP fun other => row.timestamp < other.timestamp

section
variable (readText : Bytes → Str) {maxClauses : Nat} {tie : TieOrder} {db : Db}
  {queries : List Str}

def matching (db : Db) (queries : List Str) : List Row :=
  db.clipboard.filter (isHit readText db queries)

theorem mem_searchMetadata (stamped : Stamped db) (some : queries ≠ [])
    (accepted : Accepted maxClauses queries) (limit : UInt64) (hit : Nat × MetaRow) :
    hit ∈ searchMetadata readText maxClauses tie db queries limit ↔
      ∃ row ∈ matching readText db queries,
        Shown limit (newerThan (matching readText db queries) row) ∧
        hit = (absIndex db row, row.metaRow) := by
  have perm := (fetchMetadata_perm tie db).filter (isHit readText db queries)
  have falling : ((fetchMetadata tie db).filter (isHit readText db queries)).Pairwise
      fun first second => second.timestamp < first.timestamp :=
    (fetchMetadata_falling stamped).filter _
  have count : ∀ row, newerThan (matching readText db queries) row =
      ((fetchMetadata tie db).filter (isHit readText db queries)).countP
        fun other => row.timestamp < other.timestamp :=
    fun row => (perm.countP_eq _).symm
  rw [searchMetadata_accepted accepted some, List.mem_iff_getElem?]
  simp only [sqlLimit_getElem?, List.getElem?_map]
  constructor
  · rintro ⟨rank, found⟩
    by_cases shown : Shown limit rank
    · rw [if_pos shown, Option.map_eq_some_iff] at found
      obtain ⟨row, here, rfl⟩ := found
      refine ⟨row, perm.mem_iff.mp (List.mem_of_getElem? here), ?_, rfl⟩
      rw [count row, Ranking.countP_of_getElem? falling here]
      exact shown
    · rw [if_neg shown] at found
      cases found
  · rintro ⟨row, matched, shown, rfl⟩
    refine ⟨newerThan (matching readText db queries) row, ?_⟩
    rw [if_pos shown, count row, Ranking.getElem?_countP falling (perm.mem_iff.mpr matched)]
    rfl

end

section
variable {tie : TieOrder} {db : Db}

def listable (limit : UInt64) : Nat :=
  min limit.toNat (2 ^ 63)

theorem lt_listable {limit : UInt64} {rank : Nat} :
    rank < listable limit ↔ rank < 2 ^ 63 ∧ Shown limit rank := by
  unfold listable Shown
  omega

theorem resolveTargetId_absIndex (stamped : Stamped db) (limit : UInt64) {row : Row}
    (present : row ∈ db.clipboard) :
    resolveTargetId tie limit (Nat.toDigits 10 (absIndex db row)) false db = .ok row.id ↔
      absIndex db row < listable limit := by
  rw [lt_listable]
  by_cases small : absIndex db row < 2 ^ 63
  · have bounds : -2 ^ 63 ≤ (absIndex db row : Int) ∧ (absIndex db row : Int) < 2 ^ 63 := by omega
    rw [resolveTargetId, parseI64_toDigits _ small, checked_of_bounds bounds]
    simp only [if_neg (Int.not_lt.mpr (Int.natCast_nonneg (absIndex db row))), Int.toNat_natCast,
      fetchMetadataUpTo_absIndex stamped limit present, Bool.false_eq_true, if_false]
    by_cases shown : Shown limit (absIndex db row)
    · rw [if_pos shown]
      exact ⟨fun _ => ⟨small, shown⟩, fun _ => rfl⟩
    · rw [if_neg shown]
      constructor
      · intro resolved
        cases resolved
      · exact fun both => absurd both.2 shown
  · rw [resolveTargetId, parseI64_overflow (Nat.not_lt.mp small)]
    constructor
    · intro resolved
      cases resolved
    · exact fun both => absurd both.1 small

end

section
variable (readText : Bytes → Str) (maxClauses : Nat)

def OneIndexSpace (db : Db) (keywords : List Str) (limit : UInt64) : Prop :=
  ∀ searchTie listTie : TieOrder,
    ∀ hit ∈ searchMetadata readText maxClauses searchTie db keywords limit,
      resolveTargetId listTie limit (Nat.toDigits 10 hit.1) false db = .ok hit.2.id ∧
        (fetchMetadataUpTo listTie db limit)[hit.1]? = some hit.2

end

def pinnedFirst : List FacadeOp :=
  [.insertWithHash 1000 .byRowid "text/plain".toList ⟨sampleText, sampleText_fits⟩ 1,
    .setPinById 1 true,
    .insertWithHash 2000 .byRowid "image/png".toList ⟨sampleImage, sampleImage_fits⟩ 1]

def pinnedFirstDb : Db :=
  (reached sampleSha3 (.reliable fun _ => .none) pinnedFirst).1.db

def FacadeOp.maxHistory? : FacadeOp → Option UInt64
  | insertWithHash _ _ _ _ maxHistory => some maxHistory
  | insertSpooled _ _ _ _ _ maxHistory => some maxHistory
  | _ => none

end Y4p
