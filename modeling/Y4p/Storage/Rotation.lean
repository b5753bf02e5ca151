import Y4p.Core.Config
import Y4p.Core.Payload
import Y4p.Storage.Store

/-!
Rotation: which rows an upsert keeps, in terms of the rows before it.
-/

namespace Y4p

section
variable {db : Db} {tie : TieOrder} {maxHistory : UInt64}

theorem clipboard_nodup (db : Db) : db.clipboard.Nodup :=
  List.Nodup.of_map _ db.idsUnique

theorem unpinned_nodup (db : Db) : (unpinned db).Nodup :=
  (clipboard_nodup db).filter _

theorem mem_unpinned {row : Row} : row ∈ unpinned db ↔ row ∈ db.clipboard ∧ row.isPinned = false := by
  simp [unpinned]

theorem mem_rotated {fetchTie : TieOrder} {row : Row} :
    row ∈ (db.rotated fetchTie tie maxHistory).clipboard ↔
      row ∈ db.clipboard ∧ row ∉ expired tie (quota maxHistory) db := by
  rw [rotated_clipboard, List.mem_filter]
  apply and_congr_right
  intro present
  rw [Bool.not_eq_true', decide_eq_false_iff_not]
  apply not_congr
  constructor
  · exact mem_expired_of_id present
  · exact fun listed => List.mem_map_of_mem listed

theorem unpinned_rotated :
    unpinned (db.rotated tie tie maxHistory) =
      (unpinned db).filter fun row => row ∉ expired tie (quota maxHistory) db := by
  rw [unpinned, rotated_clipboard, List.filter_filter, unpinned, List.filter_filter]
  apply List.filter_congr
  intro row present
  have same : row.id ∈ (expired tie (quota maxHistory) db).map Row.id ↔
      row ∈ expired tie (quota maxHistory) db :=
    ⟨mem_expired_of_id present, fun listed => List.mem_map_of_mem listed⟩
  by_cases listed : row ∈ expired tie (quota maxHistory) db
  · simp [listed, same.mpr listed]
  · have absent : row.id ∉ (expired tie (quota maxHistory) db).map Row.id :=
      fun named => listed (same.mp named)
    rw [decide_eq_true listed, decide_eq_false absent, Bool.not_false, Bool.and_true,
      Bool.true_and]

theorem unpinned_rotated_perm :
    (unpinned (db.rotated tie tie maxHistory)).Perm
      (Ranking.kept (MruLe tie) (quota maxHistory).toNat (unpinned db)) := by
  rw [unpinned_rotated]
  exact Ranking.filter_not_dropped_perm (MruLe tie) (unpinned_nodup db)

theorem rotated_pinned {row : Row} (present : row ∈ db.clipboard) (pinned : row.isPinned = true) :
    row ∈ (db.rotated tie tie maxHistory).clipboard := by
  refine mem_rotated.mpr ⟨present, fun listed => ?_⟩
  simp [(mem_expired listed).2] at pinned

theorem rotated_ordered {kept evicted : Row}
    (stays : kept ∈ (db.rotated tie tie maxHistory).clipboard) (unpinned : kept.isPinned = false)
    (present : evicted ∈ db.clipboard)
    (gone : evicted ∉ (db.rotated tie tie maxHistory).clipboard) :
    evicted.timestamp ≤ kept.timestamp := by
  have listed : evicted ∈ expired tie (quota maxHistory) db := by
    by_contra spared
    exact gone (mem_rotated.mpr ⟨present, spared⟩)
  have ranked := unpinned_rotated_perm.mem_iff.mp (mem_unpinned.mpr ⟨stays, unpinned⟩)
  exact (Ranking.le_of_kept_of_dropped (MruLe tie) ranked listed).timestamp_le

theorem rotated_fits (fits : (unpinned db).length ≤ (quota maxHistory).toNat) :
    (db.rotated tie tie maxHistory).clipboard = db.clipboard := by
  rw [rotated_clipboard, expired, Ranking.dropped_eq_nil (MruLe tie) fits]
  simp

theorem rotated_reports :
    ((expiring tie maxHistory db).filterMap Expiring.hash).Perm
      ((db.clipboard.filter fun row =>
        row ∉ (db.rotated tie tie maxHistory).clipboard).filterMap fun row => row.hash) := by
  have same : (expired tie (quota maxHistory) db).Perm
      (db.clipboard.filter fun row => row ∉ (db.rotated tie tie maxHistory).clipboard) := by
    refine (List.perm_ext_iff_of_nodup ?_ ((clipboard_nodup db).filter _)).mpr ?_
    · exact Ranking.nodup_dropped (MruLe tie) (unpinned_nodup db)
    · intro row
      simp only [List.mem_filter, decide_eq_true_eq, mem_rotated, not_and, not_not]
      constructor
      · intro listed
        exact ⟨(mem_expired listed).1, fun _ => listed⟩
      · rintro ⟨present, listed⟩
        exact listed present
  rw [expiring, List.filterMap_map]
  exact same.filterMap _

end

-- What a rotation with cap `n` should make of the rows that exist after the insert or touch.
structure RotationExact (db : Db) (now : Int) (hash : Str) (placed : List Row) (cap : Nat)
    (outcome : UpsertOutcome) (after : Db) : Prop where
  pinned : ∀ row ∈ db.clipboard, row.isPinned = true →
    (if row.hash = some hash then { row with timestamp := now } else row) ∈ after.clipboard
  evicts : after.clipboard.Sublist placed
  count : (unpinned after).length = min cap (placed.filter fun row => !row.isPinned).length
  ordered : ∀ kept ∈ after.clipboard, kept.isPinned = false →
    ∀ evicted ∈ placed, evicted ∉ after.clipboard → evicted.timestamp ≤ kept.timestamp
  fits : (placed.filter fun row => !row.isPinned).length ≤ cap → after.clipboard = placed
  reported : outcome.expiredHashes.Perm
    ((placed.filter fun row => row ∉ after.clipboard).filterMap fun row => row.hash)

section
variable {sha3 : Bytes → Bytes} {db after : Db} {now : Int} {tie : TieOrder} {mime hash : Str}
  {body : Body} {maxHistory : UInt64} {outcome : UpsertOutcome}

theorem touched_eq (row found : Row) (present : row ∈ db.clipboard)
    (lookup : db.rowByHash hash = some found) :
    row.touch now found.id = if row.hash = some hash then { row with timestamp := now } else row := by
  obtain ⟨foundPresent, foundHash⟩ := Db.rowByHash_eq_some.mp lookup
  unfold Row.touch
  by_cases same : row.hash = some hash
  · rw [if_pos same, if_pos (by rw [Db.eq_of_hash present foundPresent same foundHash])]
  · have differs : row.id ≠ found.id := by
      intro sameId
      rw [Db.eq_of_id present foundPresent sameId] at same
      exact same foundHash
    rw [if_neg same, if_neg differs]

theorem mem_placedRows_of_mem {row : Row} (present : row ∈ db.clipboard) :
    (if row.hash = some hash then { row with timestamp := now } else row) ∈
      placedRows db now mime body hash := by
  unfold placedRows
  cases found : db.rowByHash hash with
  | some other =>
      rw [← touched_eq row other present found]
      exact List.mem_map_of_mem present
  | none =>
      rw [if_neg (Db.rowByHash_eq_none.mp found row present)]
      exact List.mem_append_left _ present

/-- A rotation is exact for the cap that its OFFSET amounts to. -/
theorem Upserted.exact (upserted : Upserted sha3 db now tie mime body hash maxHistory outcome after) :
    RotationExact db now hash (placedRows db now mime body hash) (quota maxHistory).toNat
      outcome after := by
  obtain ⟨placed, places, _, reports, rfl⟩ := upserted
  rw [← places.clipboard]
  constructor
  · intro row present pinned
    apply rotated_pinned
    · rw [places.clipboard]
      exact mem_placedRows_of_mem present
    · split <;> exact pinned
  · rw [rotated_clipboard]
    exact List.filter_sublist
  · exact unpinned_rotated_perm.length_eq.trans (Ranking.length_kept _ _ _)
  · intro kept stays unpinned evicted present gone
    exact rotated_ordered stays unpinned present gone
  · exact rotated_fits
  · rw [reports]
    exact rotated_reports

theorem placedRows_unpinned_eq_nil :
    ((placedRows db now mime body hash).filter fun row => !row.isPinned) = [] ↔
      (∃ row ∈ db.clipboard, row.hash = some hash) ∧ ∀ row ∈ db.clipboard, row.isPinned = true := by
  unfold placedRows
  rw [List.filter_eq_nil_iff]
  cases found : db.rowByHash hash with
  | some row =>
      obtain ⟨present, named⟩ := Db.rowByHash_eq_some.mp found
      have samePin : ∀ other : Row, (other.touch now row.id).isPinned = other.isPinned := by
        intro other
        unfold Row.touch
        split <;> rfl
      simp only [List.forall_mem_map, samePin, Bool.not_eq_true', Bool.not_eq_false]
      constructor
      · exact fun pinned => ⟨⟨row, present, named⟩, pinned⟩
      · exact fun both => both.2
  | none =>
      have absent := Db.rowByHash_eq_none.mp found
      constructor
      · intro pinned
        have last := pinned (insertedRow db now mime body hash)
          (List.mem_append_right _ (List.mem_singleton.mpr rfl))
        simp [insertedRow, newRow] at last
      · rintro ⟨⟨row, present, named⟩, _⟩
        exact absurd named (absent row present)

end

/-- A successful upsert rotates exactly if and only if the cap is below 2^63, or nothing is
unpinned after it. -/
theorem upsert_rotation_iff (sha3 : Bytes → Bytes) (faults : WriteFaults) (db after : Db) (now : Int)
    (tie : TieOrder) (mime : Str) (offer : Offer) (hash : Str) (maxHistory : UInt64)
    (outcome : UpsertOutcome)
    (storable : isSkipped mime offer.body.len = false)
    (succeeded : (StoreOp.upsert now tie mime offer hash maxHistory).run sha3 faults.hits db =
      (.ok outcome, after)) :
    RotationExact db now hash (placedRows db now mime offer.body hash) maxHistory.toNat
        outcome after ↔
      (maxHistory.toNat < 2 ^ 63 ∨
        ((∃ row ∈ db.clipboard, row.hash = some hash) ∧
          ∀ row ∈ db.clipboard, row.isPinned = true)) := by
  have effect := (StoreOp.upsert now tie mime offer hash maxHistory).run_effect sha3 faults db
  rw [succeeded] at effect
  simp only [StoreOp.Effect, UpsertEffect, storable, Bool.false_eq_true, if_false] at effect
  rcases effect with ⟨_, failed, _⟩ | ⟨other, ended, upserted⟩
  · simp at failed
  simp only [Except.ok.injEq] at ended
  subst ended
  have exact := upserted.exact
  rw [quota_toNat] at exact
  rw [← @placedRows_unpinned_eq_nil db now mime hash offer.body]
  by_cases small : maxHistory.toNat < 2 ^ 63
  · rw [if_pos small] at exact
    exact ⟨fun _ => .inl small, fun _ => exact⟩
  · rw [if_neg small] at exact
    constructor
    · intro claimed
      right
      have count := claimed.count
      rw [exact.count] at count
      exact List.eq_nil_of_length_eq_zero (by omega)
    · intro cases
      have empty := cases.resolve_left small
      refine ⟨exact.pinned, exact.evicts, ?_, exact.ordered, ?_, exact.reported⟩
      · rw [exact.count, empty]
        simp
      · intro _
        apply exact.fits
        rw [empty]
        simp

def hugeCap : UInt64 :=
  (Config.parse "[general]\nmax_history = 9223372036854775808".toList).maxHistory

def hugeCapInsert : StoreOp :=
  .upsert 1000 .byRowid "text/plain".toList (.record ⟨sampleText, sampleText_fits⟩)
    (toHex (sampleSha3 sampleText)) hugeCap

/-- A cap that the configuration file may set evicts the only row, in its own transaction. -/
theorem upsert_rotation_counterexample :
    1 ≤ hugeCap.toNat ∧ ∃ outcome,
      (hugeCapInsert.run sampleSha3 noFaults Db.empty).1 = Except.ok outcome ∧
      ¬ RotationExact Db.empty 1000 (toHex (sampleSha3 sampleText))
        (placedRows Db.empty 1000 "text/plain".toList (.bytes sampleText)
          (toHex (sampleSha3 sampleText)))
        hugeCap.toNat outcome (hugeCapInsert.run sampleSha3 noFaults Db.empty).2 := by
  have ended : (hugeCapInsert.run sampleSha3 noFaults Db.empty).1 = Except.ok
      { realId := 1, isImage := false, expiredHashes := [toHex (sampleSha3 sampleText)] } := rfl
  have gone : (hugeCapInsert.run sampleSha3 noFaults Db.empty).2.clipboard = [] := rfl
  have cap : hugeCap = 9223372036854775808 := by decide
  refine ⟨by rw [cap]; decide, _, ended, fun exact => ?_⟩
  have count := exact.count
  rw [cap, unpinned, gone] at count
  exact absurd count (by decide)

def upsertText (now : Int) (data : Slice) (maxHistory : UInt64) : StoreOp :=
  .upsert now .byRowid "text/plain".toList (.record data) (toHex data.bytes) maxHistory

-- A pinned row and, newer than it, three that are not.
def crowdedDb : Db :=
  [upsertText 1000 ⟨sampleText, sampleText_fits⟩ 256, .setPinned 1 true,
    upsertText 1001 ⟨[97], by decide⟩ 256, upsertText 1002 ⟨[98], by decide⟩ 256,
    upsertText 1003 ⟨[99], by decide⟩ 256].foldl
    (fun db op => (op.run sampleSha3 noFaults db).2) Db.empty

theorem upsert_rotation_iff_sample :
    ((upsertText 1004 ⟨[100], by decide⟩ 2).run sampleSha3 noFaults crowdedDb).2.clipboard.map
        Row.id = [1, 4, 5] ∧
      (RotationExact crowdedDb 1004 (toHex [100])
          (placedRows crowdedDb 1004 "text/plain".toList (.bytes [100]) (toHex [100])) 2
          { realId := 5, isImage := false, expiredHashes := [toHex [98], toHex [97]] }
          ((upsertText 1004 ⟨[100], by decide⟩ 2).run sampleSha3 noFaults crowdedDb).2 ↔
        (2 < 2 ^ 63 ∨ ((∃ row ∈ crowdedDb.clipboard, row.hash = some (toHex [100])) ∧
          ∀ row ∈ crowdedDb.clipboard, row.isPinned = true))) :=
  ⟨rfl, upsert_rotation_iff sampleSha3 .none crowdedDb _ 1004 .byRowid "text/plain".toList
    (.record ⟨[100], by decide⟩) (toHex [100]) 2 _ (by decide) rfl⟩

def rivals (db : Db) (now : Int) (tie : TieOrder) (hash : Str) : List Row :=
  db.clipboard.filter fun row =>
    !row.isPinned && decide (row.hash ≠ some hash) &&
      decide (now < row.timestamp ∨
        (row.timestamp = now ∧ tie.le row.id (placedId db hash) = true))

def Survives (db : Db) (now : Int) (tie : TieOrder) (hash : Str) (maxHistory : UInt64) : Prop :=
  (∃ row ∈ db.clipboard, row.hash = some hash ∧ row.isPinned = true) ∨
    (maxHistory.toNat < 2 ^ 63 ∧ (rivals db now tie hash).length < maxHistory.toNat)

section
variable {sha3 : Bytes → Bytes} {db placed after : Db} {now id : Int} {tie : TieOrder}
  {mime hash : Str} {body : Body} {maxHistory : UInt64} {outcome : UpsertOutcome}

/-- The row an upsert returns, before rotation. -/
theorem Places.row (places : Places sha3 db now mime body hash id placed) :
    ∃ row ∈ placed.clipboard, row.id = id ∧ row.timestamp = now ∧
      (row.isPinned = true ↔ ∃ old ∈ db.clipboard, old.hash = some hash ∧ old.isPinned = true) := by
  have named := places.id_eq
  have rows := places.clipboard
  unfold placedId at named
  unfold placedRows at rows
  cases found : db.rowByHash hash with
  | some old =>
      rw [found] at named rows
      obtain ⟨present, oldHash⟩ := Db.rowByHash_eq_some.mp found
      refine ⟨old.touch now old.id, ?_, ?_, ?_, ?_⟩
      · rw [rows]
        exact List.mem_map_of_mem present
      · simp [Row.touch, named]
      · simp [Row.touch]
      · simp only [Row.touch, if_true]
        constructor
        · exact fun pinned => ⟨old, present, oldHash, pinned⟩
        · rintro ⟨other, otherPresent, otherHash, pinned⟩
          rw [Db.eq_of_hash present otherPresent oldHash otherHash]
          exact pinned
  | none =>
      rw [found] at named rows
      refine ⟨insertedRow db now mime body hash, ?_, named.symm, rfl, ?_⟩
      · rw [rows]
        exact List.mem_append_right _ (List.mem_singleton.mpr rfl)
      · constructor
        · intro pinned
          simp [insertedRow, newRow] at pinned
        · rintro ⟨old, present, oldHash, _⟩
          exact absurd oldHash (Db.rowByHash_eq_none.mp found old present)

theorem isRival_iff {row old : Row} (stamped : row.timestamp = now)
    (named : row.id = placedId db hash) (fresh : old.hash ≠ some hash) (differs : old ≠ row) :
    (decide (MruLe tie old row ∧ old ≠ row) && !old.isPinned) =
      (!old.isPinned && decide (old.hash ≠ some hash) &&
        decide (now < old.timestamp ∨
          (old.timestamp = now ∧ tie.le old.id (placedId db hash) = true))) := by
  have listed : (MruLe tie old row ∧ old ≠ row) ↔ (now < old.timestamp ∨
      (old.timestamp = now ∧ tie.le old.id (placedId db hash) = true)) := by
    rw [MruLe, stamped, named]
    simp [differs]
  rw [decide_eq_decide.mpr listed, decide_eq_true fresh, Bool.and_true, Bool.and_comm]

/-- Rotation lists as many unpinned rows ahead of the returned row as there are rivals. -/
theorem Places.ahead (places : Places sha3 db now mime body hash id placed) (tie : TieOrder)
    {row : Row} (present : row ∈ placed.clipboard) (named : row.id = id)
    (stamped : row.timestamp = now) :
    Ranking.ahead (MruLe tie) row (unpinned placed) = (rivals db now tie hash).length := by
  have issued : row.id = placedId db hash := named.trans places.id_eq
  rw [Ranking.ahead, unpinned, List.countP_filter, rivals, ← List.countP_eq_length_filter]
  have rows := places.clipboard
  have unique : ∀ other ∈ placed.clipboard, other.id = row.id → other = row :=
    fun other member same => Db.eq_of_id member present same
  rw [rows] at unique ⊢
  unfold placedRows at unique ⊢
  cases found : db.rowByHash hash with
  | some touched =>
      obtain ⟨touchedPresent, touchedHash⟩ := Db.rowByHash_eq_some.mp found
      have touchedNamed : row.id = touched.id := by
        rw [issued, placedId, found]
      simp only [found] at unique ⊢
      rw [List.countP_map]
      apply List.countP_congr
      intro old member
      by_cases same : old.id = touched.id
      · have equal := Db.eq_of_id member touchedPresent same
        subst equal
        have itself := unique _ (List.mem_map_of_mem member) (by simp [Row.touch, touchedNamed])
        simp [itself, touchedHash]
      · have fresh : old.hash ≠ some hash := fun oldHash =>
          same (by rw [Db.eq_of_hash member touchedPresent oldHash touchedHash])
        have differs : old ≠ row := fun equal => same (by rw [equal, touchedNamed])
        have untouched : old.touch now touched.id = old := by simp [Row.touch, same]
        simp only [Function.comp_apply, untouched]
        rw [isRival_iff stamped issued fresh differs]
  | none =>
      have absent := Db.rowByHash_eq_none.mp found
      have issuedNew : row.id = db.sequence + 1 := by
        rw [issued, placedId, found]
      simp only [found] at unique ⊢
      have itself := unique (insertedRow db now mime body hash)
        (List.mem_append_right _ (List.mem_singleton.mpr rfl)) issuedNew.symm
      rw [List.countP_append, List.countP_singleton]
      simp only [itself, ne_eq, not_true_eq_false, and_false, decide_false, Bool.false_and,
        Bool.false_eq_true, if_false, Nat.add_zero]
      apply List.countP_congr
      intro old member
      have bound := (db.idsIssued old member).2
      have differs : old ≠ row := fun equal => by
        rw [equal] at bound
        omega
      rw [← isRival_iff stamped issued (absent old member) differs]

theorem Upserted.survives_iff
    (upserted : Upserted sha3 db now tie mime body hash maxHistory outcome after) :
    (∃ row ∈ after.clipboard, row.id = outcome.realId) ↔ Survives db now tie hash maxHistory := by
  obtain ⟨placed, places, _, _, rfl⟩ := upserted
  obtain ⟨row, present, named, stamped, pinned⟩ := places.row
  have rank := places.ahead tie present named stamped
  have onlyRow : (∃ other ∈ (placed.rotated tie tie maxHistory).clipboard,
      other.id = outcome.realId) ↔ row ∈ (placed.rotated tie tie maxHistory).clipboard := by
    constructor
    · rintro ⟨other, stays, same⟩
      rw [← Db.eq_of_id (mem_rotated.mp stays).1 present (same.trans named.symm)]
      exact stays
    · exact fun stays => ⟨row, stays, named⟩
  rw [onlyRow, Survives, ← pinned, ← rank]
  cases isPinned : row.isPinned with
  | true => simp [rotated_pinned present isPinned]
  | false =>
      have member : row ∈ unpinned placed := mem_unpinned.mpr ⟨present, isPinned⟩
      have stays : row ∈ (placed.rotated tie tie maxHistory).clipboard ↔
          row ∈ Ranking.kept (MruLe tie) (quota maxHistory).toNat (unpinned placed) := by
        rw [← unpinned_rotated_perm.mem_iff, mem_unpinned]
        simp [isPinned]
      rw [stays, Ranking.mem_kept_iff (MruLe tie) (unpinned_nodup placed) member
        fun other listed first second =>
          Db.eq_of_id (mem_unpinned.mp listed).1 present (MruLe.id_eq first second), quota_toNat]
      rw [or_iff_right (by simp)]
      by_cases small : maxHistory.toNat < 2 ^ 63
      · rw [if_pos small]
        exact ⟨fun near => ⟨small, near⟩, And.right⟩
      · rw [if_neg small]
        exact ⟨fun near => absurd near (Nat.not_lt_zero _), fun both => absurd both.1 small⟩

end

end Y4p
