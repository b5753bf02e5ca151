import Y4p.Storage.Mru

/-!
How long a copy is kept: what each operation can do to the place of a row in the history, and from
it how many operations a row outlives.
-/

namespace Y4p

open Recency (Change)

def StoreOp.ages (id : Int) : StoreOp → Bool
  | .upsert .. => true
  | .updateTimestamp _ other => decide (other ≠ id)
  | .setPinned other isPinned => !isPinned && decide (other ≠ id)
  | _ => false

def StoreOp.removes (id : Int) : StoreOp → Bool
  | .deleteById other => decide (other = id)
  | .wipe => true
  | _ => false

def StoreOp.cap : StoreOp → Option Nat
  | .upsert _ _ _ _ _ maxHistory => some maxHistory.toNat
  | _ => none

structure Changes (id : Int) (ops : List StoreOp) (mru after : Mru)
    (changes : List (Change MruEntry Int)) : Prop where
  fresh : Recency.FreshRun MruEntry.kind changes mru.entries
  made : after.entries = Recency.run MruEntry.kind changes mru.entries
  aged : changes.countP (Change.ages id) ≤ ops.countP (StoreOp.ages id)
  removed : ∀ change ∈ changes, change.removes id = true → ∃ op ∈ ops, op.removes id = true
  trimmed : ∀ cap, Change.trim cap ∈ changes →
    ∃ op ∈ ops, ∃ limit, op.cap = some limit ∧ (limit < 2 ^ 63 → cap = limit)

namespace Changes

variable {id : Int} {mru after : Mru} {op : StoreOp}

theorem none (ops : List StoreOp) : Changes id ops mru mru [] where
  fresh := trivial
  made := rfl
  aged := Nat.zero_le _
  removed _ member := by cases member
  trimmed _ member := by cases member

theorem append {last : Mru} {first second : List StoreOp}
    {early late : List (Change MruEntry Int)} (before : Changes id first mru after early)
    (since : Changes id second after last late) :
    Changes id (first ++ second) mru last (early ++ late) where
  fresh := before.fresh.append (before.made ▸ since.fresh)
  made := by rw [since.made, before.made, Recency.run_append]
  aged := by
    rw [List.countP_append, List.countP_append]
    exact Nat.add_le_add before.aged since.aged
  removed := by
    intro change member removes
    rcases List.mem_append.mp member with first | second
    · obtain ⟨op, listed, same⟩ := before.removed change first removes
      exact ⟨op, List.mem_append_left _ listed, same⟩
    · obtain ⟨op, listed, same⟩ := since.removed change second removes
      exact ⟨op, List.mem_append_right _ listed, same⟩
  trimmed := by
    intro cap member
    rcases List.mem_append.mp member with first | second
    · obtain ⟨op, listed, limited⟩ := before.trimmed cap first
      exact ⟨op, List.mem_append_left _ listed, limited⟩
    · obtain ⟨op, listed, limited⟩ := since.trimmed cap second
      exact ⟨op, List.mem_append_right _ listed, limited⟩

theorem one {change : Change MruEntry Int} (fresh : change.Fresh MruEntry.kind mru.entries)
    (aged : change.ages id = true → op.ages id = true)
    (removed : change.removes id = true → op.removes id = true)
    (untrimmed : ∀ cap, change ≠ .trim cap) :
    Changes id [op] mru (mru.changed change) [change] where
  fresh := ⟨fresh, trivial⟩
  made := rfl
  aged := by
    simp only [List.countP_singleton]
    split
    · rename_i counted
      rw [if_pos (aged counted)]
    · exact Nat.zero_le _
  removed := by
    intro other member removes
    rw [List.mem_singleton.mp member] at removes
    exact ⟨op, List.mem_singleton.mpr rfl, removed removes⟩
  trimmed := by
    intro cap member
    exact absurd (List.mem_singleton.mp member).symm (untrimmed cap)

theorem of_attempts {α : Type} {value : α} {changed : Mru} {result : Except String α}
    {changes : List (Change MruEntry Int)} (attempts : mru.Attempts value changed result after)
    (made : Changes id [op] mru changed changes) :
    ∃ changes, Changes id [op] mru after changes := by
  rcases attempts with ⟨_, _, rfl⟩ | ⟨_, rfl⟩
  · exact ⟨[], .none _⟩
  · exact ⟨changes, made⟩

end Changes

section
variable {tie : TieOrder} {payload : Int → Bytes} {db : Db} {id : Int}

theorem mru_unissued : db.sequence + 1 ∉ (db.mru payload tie).entries.map MruEntry.kind.key := by
  intro listed
  rw [Db.mru, List.map_map] at listed
  obtain ⟨row, member, same⟩ := List.mem_map.mp listed
  have issued := (db.idsIssued row ((fetchMetadata_perm tie db).mem_iff.mp member)).2
  have named : row.id = db.sequence + 1 := same
  omega

theorem mru_keyed : Recency.Keyed MruEntry.kind (db.mru payload tie).entries := by
  rw [Recency.Keyed, Db.mru, List.map_map]
  exact fetchMetadata_ids _ _

theorem placing_fresh (mime : Str) (body : Body) (hash : Str) :
    ((db.mru payload tie).placing mime body hash).Fresh MruEntry.kind (db.mru payload tie).entries := by
  unfold Mru.placing
  split
  · trivial
  · exact mru_unissued

theorem upserts_changes {op : StoreOp} {mime hash : Str} {body : Body} {maxHistory : UInt64}
    {result : Except String UpsertOutcome} {after : Mru}
    (ages : op.ages id = true) (cap : op.cap = some maxHistory.toNat)
    (step : (db.mru payload tie).Upserts mime body hash maxHistory result after) :
    ∃ changes, Changes id [op] (db.mru payload tie) after changes := by
  unfold Mru.Upserts at step
  split at step
  · rw [step.2]
    exact ⟨[], .none _⟩
  · have made : Changes id [op] (db.mru payload tie)
        ((db.mru payload tie).recorded mime body hash maxHistory)
        [(db.mru payload tie).placing mime body hash, .trim (quota maxHistory).toNat] := by
      refine ⟨⟨placing_fresh mime body hash, trivial, trivial⟩, rfl, ?_, ?_, ?_⟩
      · have trims : (Change.trim (quota maxHistory).toNat : Change MruEntry Int).ages id = false :=
          rfl
        simp only [List.countP_cons, List.countP_nil, trims, ages, if_true, Bool.false_eq_true,
          if_false]
        split <;> omega
      · intro change member removes
        rcases List.mem_cons.mp member with rfl | member
        · unfold Mru.placing at removes
          split at removes <;> cases removes
        · rw [List.mem_singleton.mp member] at removes
          cases removes
      · intro other member
        refine ⟨op, List.mem_singleton.mpr rfl, maxHistory.toNat, cap, fun small => ?_⟩
        rcases List.mem_cons.mp member with same | member
        · unfold Mru.placing at same
          split at same <;> cases same
        · cases List.mem_singleton.mp member
          rw [quota_toNat, if_pos small]
    exact Changes.of_attempts step made

theorem moves_changes (id : Int) {op : StoreOp} {result : op.Result} {after : Mru}
    (moves : (db.mru payload tie).Moves op result after) :
    ∃ changes, Changes id [op] (db.mru payload tie) after changes := by
  have never : ∀ {α : Prop}, false = true → α := fun impossible => by cases impossible
  cases op with
  | upsert now opTie mime offer hash maxHistory => exact upserts_changes rfl rfl moves
  | updateTimestamp now other =>
      exact Changes.of_attempts moves (.one trivial (fun aged => aged) never fun _ => nofun)
  | setPinned other isPinned =>
      exact Changes.of_attempts moves (.one trivial (fun aged => aged) never fun _ => nofun)
  | deleteById other =>
      exact Changes.of_attempts moves (.one trivial never (fun removed => removed) fun _ => nofun)
  | wipe => exact Changes.of_attempts moves (.one trivial never (fun _ => rfl) fun _ => nofun)
  | getRowContent other =>
      rw [show after = db.mru payload tie from moves]
      exact ⟨[], .none _⟩
  | getRowLocation other =>
      rw [show after = db.mru payload tie from moves]
      exact ⟨[], .none _⟩

theorem runStore_changes (sha3 : Bytes → Bytes) (id : Int) {attempts : List Attempt}
    (dated : Dated tie db (clockReadings attempts))
    (rising : (clockReadings attempts).Pairwise (· < ·)) :
    ∃ changes, Changes id (attempts.map Attempt.op) (db.mru payload tie)
      ((runStore sha3 attempts db).mru (runPayloads sha3 attempts db payload) tie) changes := by
  induction attempts generalizing db payload with
  | nil => exact ⟨[], .none _⟩
  | cons attempt rest ih =>
      obtain ⟨moves, datedRest⟩ := run_moves sha3 payload dated rising
      obtain ⟨first, made⟩ := moves_changes id moves
      obtain ⟨others, madeLater⟩ := ih datedRest ((List.pairwise_append.mp rising).2.1)
      exact ⟨first ++ others, made.append madeLater⟩

theorem runStore_dated (sha3 : Bytes → Bytes) {before since : List Attempt}
    (dated : Dated tie db (clockReadings (before ++ since)))
    (rising : (clockReadings (before ++ since)).Pairwise (· < ·)) :
    Dated tie (runStore sha3 before db) (clockReadings since) ∧
      (clockReadings since).Pairwise (· < ·) := by
  induction before generalizing db with
  | nil => exact ⟨dated, rising⟩
  | cons attempt rest ih =>
      have next := (run_moves sha3 (fun _ => []) dated rising).2
      exact ih next ((List.pairwise_append.mp rising).2.1)

def unpinnedAhead (db : Db) (row : Row) : Nat :=
  db.clipboard.countP fun other => !other.isPinned && decide (row.timestamp < other.timestamp)

theorem rank_unpinnedAhead (falling : Falling (fetchMetadata tie db)) {row : Row}
    (present : row ∈ db.clipboard) :
    Recency.rank MruEntry.kind row.id (db.mru payload tie).entries = unpinnedAhead db row := by
  have perm := fetchMetadata_perm tie db
  have counted := perm.countP_eq
    fun other => !other.isPinned && decide (row.timestamp < other.timestamp)
  rw [unpinnedAhead, ← counted, Db.mru]
  have member := perm.mem_iff.mpr present
  have unique := fetchMetadata_ids tie db
  revert falling unique member
  generalize fetchMetadata tie db = rows
  intro falling member unique
  induction rows with
  | nil => cases member
  | cons first rest ih =>
      obtain ⟨ahead, falling⟩ := List.pairwise_cons.mp falling
      obtain ⟨fresh, unique⟩ := List.nodup_cons.mp (List.map_cons ▸ unique)
      have key : MruEntry.kind.key (first.mruEntry payload) = first.id := rfl
      have pinned : MruEntry.kind.isPinned (first.mruEntry payload) = first.isPinned := rfl
      rw [List.map_cons, Recency.rank, List.countP_cons, key, pinned]
      rcases List.mem_cons.mp member with rfl | later
      · rw [if_pos rfl, if_neg (by simp)]
        refine (List.countP_eq_zero.mpr fun other behind => ?_).symm
        have older := ahead other behind
        simp [not_lt_of_gt older]
      · have differs : first.id ≠ row.id := fun same =>
          fresh (same ▸ List.mem_map_of_mem later)
        have newer := ahead row later
        rw [if_neg differs, ih falling later unique]
        cases held : first.isPinned <;> simp [newer]

end

/-- A row stays, whatever runs and whatever fails, as long as it is not deleted and every
insertion's cap is below 2^63 (from there on SQLite reads a negative OFFSET) and has room for the
unpinned rows that were newer and for one more for each operation since that may bring another ahead
of it. -/
theorem recent_row_stays (sha3 : Bytes → Bytes) (before since : List Attempt)
    (rising : (clockReadings (before ++ since)).Pairwise (· < ·)) (row : Row)
    (present : row ∈ (runStore sha3 before Db.empty).clipboard)
    (spared : ∀ attempt ∈ since, attempt.op.removes row.id = false)
    (room : ∀ attempt ∈ since, ∀ cap, attempt.op.cap = some cap →
      cap < 2 ^ 63 ∧
        unpinnedAhead (runStore sha3 before Db.empty) row +
          since.countP (fun attempt => attempt.op.ages row.id) < cap) :
    ∃ kept ∈ (runStore sha3 (before ++ since) Db.empty).clipboard, SameRecord row kept := by
  have start : Dated .byRowid Db.empty (clockReadings (before ++ since)) := .empty _
  obtain ⟨dated, later⟩ := runStore_dated sha3 start rising
  obtain ⟨changes, made⟩ := runStore_changes sha3 row.id dated later
  have listed : Recency.Listed MruEntry.kind row.id
      ((runStore sha3 before Db.empty).mru (payloads sha3 before) .byRowid).entries :=
    ⟨row.mruEntry _, List.mem_map_of_mem ((fetchMetadata_perm _ _).mem_iff.mpr present), rfl⟩
  have kept := Recency.listed_run mru_keyed made.fresh listed ?_ ?_
  · rw [← made.made] at kept
    obtain ⟨entry, member, named⟩ := kept
    obtain ⟨stays, there, rfl⟩ := List.mem_map.mp member
    have stays_id : stays.id = row.id := named
    have inAfter := (fetchMetadata_perm _ _).mem_iff.mp there
    rw [runStore_append]
    refine ⟨stays, inAfter, ?_⟩
    rcases (runStore_extends sha3 before since).rows stays inAfter with ⟨old, was, same, _⟩ | new
    · rw [Db.eq_of_id present was (stays_id.symm.trans same.id)]
      exact same
    · have issued := (Db.idsIssued _ row present).2
      omega
  · intro change member
    by_contra removes
    obtain ⟨op, listed, same⟩ := made.removed change member (by simpa using removes)
    obtain ⟨attempt, issued, rfl⟩ := List.mem_map.mp listed
    rw [spared attempt issued] at same
    cases same
  · intro cap member
    obtain ⟨op, listed, limit, capped, same⟩ := made.trimmed cap member
    obtain ⟨attempt, issued, rfl⟩ := List.mem_map.mp listed
    obtain ⟨small, enough⟩ := room attempt issued limit capped
    obtain rfl := same small
    have aged := made.aged
    rw [List.countP_map] at aged
    rw [rank_unpinnedAhead dated.falling present]
    exact lt_of_le_of_lt (Nat.add_le_add_left aged _) enough

-- An image and then a text; under the cap of 2 a second image sends the first one away.
def imageThenText : List Attempt :=
  [⟨imageInsert 999 2, .none⟩, ⟨textInsert 1000 2, .none⟩]

def secondImage : List Attempt :=
  [⟨.upsert 1001 .byRowid "image/png".toList (.detached 1) (toHex (sampleSha3 [0])) 2, .none⟩]

theorem recent_row_stays_sample :
    (runStore sampleSha3 (imageThenText ++ secondImage) Db.empty).rowById 1 = none ∧
    ∃ kept ∈ (runStore sampleSha3 (imageThenText ++ secondImage) Db.empty).clipboard,
      SameRecord
        (insertedRow (runStore sampleSha3 [⟨imageInsert 999 2, .none⟩] Db.empty) 1000
          "text/plain".toList (.bytes sampleText) (toHex (sampleSha3 sampleText))) kept := by
  refine ⟨by decide +kernel, ?_⟩
  refine recent_row_stays sampleSha3 imageThenText secondImage (by decide) _
    (.tail _ (.head _)) (by decide) ?_
  intro attempt member cap capped
  cases List.mem_singleton.mp member
  cases capped
  decide

end Y4p
