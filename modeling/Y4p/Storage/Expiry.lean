import Y4p.Storage.Rotation

/-!
The two queries of one rotation: the SELECT whose rows are released and reported,
and the one nested in the DELETE. SQL lets each list rows of equal timestamp in an
order of its own, so they agree only where no such group straddles the cap.
-/

namespace Y4p

open Programs

def TieOrder.foremost (id : Int) : TieOrder where
  le a b := decide (a = id ∨ (b ≠ id ∧ a ≤ b))
  total a b := by
    simp only [decide_eq_true_eq]
    omega
  trans a b c first second := by
    simp only [decide_eq_true_eq] at first second ⊢
    omega
  antisymm a b first second := by
    simp only [decide_eq_true_eq] at first second
    omega

def TieOrder.hindmost (id : Int) : TieOrder where
  le a b := decide (b = id ∨ (a ≠ id ∧ a ≤ b))
  total a b := by
    simp only [decide_eq_true_eq]
    omega
  trans a b c first second := by
    simp only [decide_eq_true_eq] at first second ⊢
    omega
  antisymm a b first second := by
    simp only [decide_eq_true_eq] at first second
    omega

def newer (rows : List Row) (time : Int) : Nat :=
  (rows.filter fun row => !row.isPinned).countP fun row => decide (time < row.timestamp)

def asNew (rows : List Row) (time : Int) : Nat :=
  (rows.filter fun row => !row.isPinned).countP fun row => decide (time ≤ row.timestamp)

-- The rows of `row`'s timestamp lie on both sides of the OFFSET.
def Straddles (rows : List Row) (offset : Nat) (row : Row) : Prop :=
  newer rows row.timestamp < offset ∧ offset < asNew rows row.timestamp

section
variable {db : Db} {offset : Int} {row : Row}

theorem mem_expired_iff {tie : TieOrder} (listed : row ∈ unpinned db) :
    row ∈ expired tie offset db ↔
      offset.toNat ≤ Ranking.ahead (MruLe tie) row (unpinned db) :=
  Ranking.mem_dropped_iff (MruLe tie) (unpinned_nodup db) listed fun _ other first second =>
    Db.eq_of_id (mem_unpinned.mp other).1 (mem_unpinned.mp listed).1 (first.id_eq second)

theorem newer_le_ahead (db : Db) (row : Row) (tie : TieOrder) :
    newer db.clipboard row.timestamp ≤ Ranking.ahead (MruLe tie) row (unpinned db) := by
  apply List.countP_mono_left
  intro other _ later
  have later : row.timestamp < other.timestamp := by simpa using later
  have differs : other ≠ row := by
    rintro rfl
    omega
  simp [MruLe, later, differs]

theorem asNew_eq (listed : row ∈ unpinned db) :
    asNew db.clipboard row.timestamp =
      ((unpinned db).countP fun other =>
        decide (row.timestamp ≤ other.timestamp) && decide (other ≠ row)) + 1 :=
  Ranking.countP_others (unpinned_nodup db) listed (by simp)

theorem ahead_lt_asNew (tie : TieOrder) (listed : row ∈ unpinned db) :
    Ranking.ahead (MruLe tie) row (unpinned db) < asNew db.clipboard row.timestamp := by
  rw [asNew_eq listed, Nat.lt_succ_iff]
  apply List.countP_mono_left
  intro other _ first
  obtain ⟨before, differs⟩ := of_decide_eq_true first
  simp [before.timestamp_le, differs]

theorem ahead_foremost (listed : row ∈ unpinned db) :
    Ranking.ahead (MruLe (.foremost row.id)) row (unpinned db) ≤
      newer db.clipboard row.timestamp := by
  apply List.countP_mono_left
  intro other member first
  obtain ⟨before, differs⟩ := of_decide_eq_true first
  rcases before with later | ⟨_, tied⟩
  · exact decide_eq_true later
  · have same : other.id = row.id := by simpa [TieOrder.foremost] using tied
    exact absurd (Db.eq_of_id (mem_unpinned.mp member).1 (mem_unpinned.mp listed).1 same) differs

theorem asNew_le_ahead_hindmost (listed : row ∈ unpinned db) :
    asNew db.clipboard row.timestamp ≤
      Ranking.ahead (MruLe (.hindmost row.id)) row (unpinned db) + 1 := by
  rw [asNew_eq listed, Nat.add_le_add_iff_right]
  apply List.countP_mono_left
  intro other _ near
  obtain ⟨recent, differs⟩ : row.timestamp ≤ other.timestamp ∧ other ≠ row := by simpa using near
  have before : MruLe (.hindmost row.id) other row := by
    rcases Int.lt_or_eq_of_le recent with later | same
    · exact .inl later
    · exact .inr ⟨same.symm, by simp [TieOrder.hindmost]⟩
  simp [before, differs]

/-- A group that does not straddle the OFFSET expires, or stays, in every order. -/
theorem mem_expired_ties (fetchTie deleteTie : TieOrder) (listed : row ∈ unpinned db)
    (whole : ¬ Straddles db.clipboard offset.toNat row) :
    row ∈ expired fetchTie offset db ↔ row ∈ expired deleteTie offset db := by
  rw [mem_expired_iff listed, mem_expired_iff listed]
  have fetchLow := newer_le_ahead db row fetchTie
  have deleteLow := newer_le_ahead db row deleteTie
  have fetchHigh := ahead_lt_asNew fetchTie listed
  have deleteHigh := ahead_lt_asNew deleteTie listed
  unfold Straddles at whole
  omega

theorem Straddles.splits (straddles : Straddles db.clipboard offset.toNat row)
    (listed : row ∈ unpinned db) :
    row ∈ expired (.hindmost row.id) offset db ∧ row ∉ expired (.foremost row.id) offset db := by
  rw [mem_expired_iff listed, mem_expired_iff listed]
  have low := ahead_foremost listed
  have high := asNew_le_ahead_hindmost listed
  obtain ⟨above, below⟩ := straddles
  omega

end

-- `release_chunks` ends with this statement, which nothing else issues.
def Stmt.releases : Stmt → Option Int
  | .deleteManifestOf id => some id
  | _ => none

def Stmt.Spares (stmt : Stmt) : Prop :=
  stmt.releases = none

def releasedBy (issued : List Stmt) : List Int :=
  issued.filterMap Stmt.releases

structure QueriesAgree (rows : List Row) (released : List Int) (reported : List Str)
    (after : Db) : Prop where
  releases : ∀ id, id ∈ released ↔
    ∃ row ∈ rows, row ∉ after.clipboard ∧ row.isChunked = true ∧ row.id = id
  reports : ∀ hash, hash ∈ reported ↔
    ∃ row ∈ rows, row ∉ after.clipboard ∧ row.hash = some hash
  keeps : ∀ row ∈ after.clipboard,
    row.id ∉ released ∧ ∀ hash, row.hash = some hash → hash ∉ reported
  clears : ∀ row ∈ rows, row ∉ after.clipboard → row.isChunked = true →
    after.manifestOf row.id = []

section
variable {fetchTie deleteTie : TieOrder} {maxHistory : UInt64} {db after : Db} {α β : Type}

theorem releasedBy_bind {body : Tx α} {rest : α → Tx β} {value : α}
    (ran : Calm body db value after) :
    releasedBy (Program.calls Stmt.run (body >>= rest).run db) =
      releasedBy (Program.calls Stmt.run body.run db) ++
        releasedBy (Program.calls Stmt.run (rest value).run after) := by
  rw [Fallible.calls_bind_ok Stmt.run ran, releasedBy, List.filterMap_append]
  rfl

theorem releasedBy_issues {body : Tx α}
    (issues : Program.Issues Stmt.Spares body.run) :
    releasedBy (Program.calls Stmt.run body.run db) = [] := by
  refine List.filterMap_eq_nil_iff.mpr fun stmt issued => ?_
  have spared : stmt.Spares := Program.mem_calls issues issued
  exact spared

theorem onlyIf_issues {allowed : Stmt → Prop} {condition : Prop} [Decidable condition]
    {action : Tx Unit} (issues : Program.Issues allowed action.run) :
    Program.Issues allowed (onlyIf condition action).run := by
  unfold onlyIf
  split
  · exact issues
  · trivial

theorem releaseAll_calls (rows : List Expiring) :
    releasedBy (Program.calls Stmt.run (releaseAll rows).run db) =
      (rows.filter fun row => row.isChunked).map Expiring.id := by
  induction rows generalizing db with
  | nil => rfl
  | cons row rest ih =>
      rw [releaseAll]
      cases chunked : row.isChunked with
      | true =>
          have released : Calm (onlyIf (true = true) (releaseChunks row.id)) db ()
              (db.release row.id) :=
            calm_onlyIf.mpr (.inl ⟨rfl, calm_releaseChunks.mpr rfl⟩)
          rw [releasedBy_bind released, ih, List.filter_cons_of_pos chunked]
          rfl
      | false =>
          have spared : Calm (onlyIf (false = true) (releaseChunks row.id)) db () db :=
            calm_onlyIf.mpr (.inr ⟨Bool.false_ne_true, rfl⟩)
          rw [releasedBy_bind spared, ih, List.filter_cons_of_neg (by simp [chunked])]
          rfl

theorem fetchAll_issues (rows : List Expiring) :
    Program.Issues Stmt.Spares (fetchAll rows).run := by
  induction rows with
  | nil => exact ⟨rfl, fun _ => trivial⟩
  | cons row rest ih =>
      refine Fallible.issues_bind ⟨rfl, fun _ => trivial⟩ fun found => ?_
      cases found with
      | none => trivial
      | some _ => exact Fallible.issues_bind ih fun _ => trivial

theorem rotate_calls :
    releasedBy (Program.calls Stmt.run (rotate fetchTie deleteTie maxHistory).run db) =
      ((expiring fetchTie maxHistory db).filter fun row => row.isChunked).map Expiring.id := by
  have selected : Calm (execute (.selectExpiring fetchTie (asI64 maxHistory.toNat))) db
      (expiring fetchTie maxHistory db) db := rfl
  have fetched : Calm (fetchAll (expiring fetchTie maxHistory db)) db
      (expiring fetchTie maxHistory db) db := calm_fetchAll.mpr ⟨rfl, rfl⟩
  rw [rotate, releasedBy_bind selected, releasedBy_bind fetched,
    releasedBy_issues (fetchAll_issues _), releasedBy_bind (calm_releaseAll.mpr rfl),
    releaseAll_calls]
  change [] ++ ([] ++ (_ ++ [])) = _
  simp

end

section
variable (sha3 : Bytes → Bytes)

theorem storeChunksFrom_issues (id : Int) (seq : Nat) (pieces : List Bytes) :
    Program.Issues Stmt.Spares (storeChunksFrom sha3 id seq pieces).run := by
  induction pieces generalizing seq with
  | nil => trivial
  | cons piece rest ih =>
      refine Fallible.issues_bind ?_ fun _ => ih (seq + 1)
      refine Fallible.issues_bind ⟨rfl, fun _ => trivial⟩ fun reused => ?_
      refine Fallible.issues_bind ?_ fun _ => ⟨rfl, fun _ => trivial⟩
      exact onlyIf_issues ⟨rfl, fun _ => trivial⟩

theorem touchOrInsert_issues (now : Int) (mime : Str) (body : Body) (hash : Str) :
    Program.Issues Stmt.Spares
      (touchOrInsert sha3 now mime body hash).run := by
  refine Fallible.issues_bind ⟨rfl, fun _ => trivial⟩ fun found => ?_
  cases found with
  | some id => exact Fallible.issues_bind ⟨rfl, fun _ => trivial⟩ fun _ => trivial
  | none =>
      refine Fallible.issues_bind ⟨rfl, fun _ => trivial⟩ fun id => ?_
      split
      · refine Fallible.issues_bind ?_ fun _ => trivial
        refine Fallible.issues_bind ⟨rfl, fun _ => trivial⟩ fun _ => ?_
        refine Fallible.issues_bind ⟨rfl, fun _ => trivial⟩ fun _ => ?_
        refine Fallible.issues_bind ⟨rfl, fun _ => trivial⟩ fun _ => ?_
        exact storeChunksFrom_issues sha3 id 0 _
      · trivial

end

section
variable {fetchTie deleteTie : TieOrder} {maxHistory : UInt64} {db : Db}

theorem mem_released {id : Int} :
    id ∈ ((expiring fetchTie maxHistory db).filter fun row => row.isChunked).map Expiring.id ↔
      ∃ row ∈ expired fetchTie (quota maxHistory) db, row.isChunked = true ∧ row.id = id := by
  simp [expiring, Row.expiring, and_assoc]

theorem mem_reported {hash : Str} :
    hash ∈ (expiring fetchTie maxHistory db).filterMap Expiring.hash ↔
      ∃ row ∈ expired fetchTie (quota maxHistory) db, row.hash = some hash := by
  simp [expiring, Row.expiring]

theorem not_mem_rotated {row : Row} (present : row ∈ db.clipboard) :
    row ∉ (db.rotated fetchTie deleteTie maxHistory).clipboard ↔
      row ∈ expired deleteTie (quota maxHistory) db := by
  rw [mem_rotated, not_and, not_not]
  exact ⟨fun gone => gone present, fun listed _ => listed⟩

theorem rotated_manifestOf_of_expired {row : Row} (chunked : row.isChunked = true)
    (listed : row ∈ expired fetchTie (quota maxHistory) db) :
    (db.rotated fetchTie deleteTie maxHistory).manifestOf row.id = [] := by
  change (db.releaseRows (expiring fetchTie maxHistory db)).manifestOf row.id = []
  rw [releaseRows_manifestOf, if_pos]
  exact ⟨row.expiring, List.mem_map_of_mem listed, chunked, rfl⟩

/-- The three sets agree exactly when both queries list the same rows among those that
have something to release or report. -/
theorem queriesAgree_iff :
    QueriesAgree db.clipboard
        (((expiring fetchTie maxHistory db).filter fun row => row.isChunked).map Expiring.id)
        ((expiring fetchTie maxHistory db).filterMap Expiring.hash)
        (db.rotated fetchTie deleteTie maxHistory) ↔
      ∀ row ∈ db.clipboard, row.isChunked = true ∨ row.hash ≠ none →
        (row ∈ expired fetchTie (quota maxHistory) db ↔
          row ∈ expired deleteTie (quota maxHistory) db) := by
  constructor
  · intro agree row present holds
    rw [← @not_mem_rotated fetchTie deleteTie maxHistory db row present]
    rcases holds with chunked | hashed
    · have released := agree.releases row.id
      rw [mem_released] at released
      constructor
      · intro listed
        obtain ⟨other, otherPresent, gone, _, same⟩ := released.mp ⟨row, listed, chunked, rfl⟩
        rwa [Db.eq_of_id otherPresent present same] at gone
      · intro gone
        obtain ⟨other, listed, _, same⟩ := released.mpr ⟨row, present, gone, chunked, rfl⟩
        rwa [Db.eq_of_id (mem_expired listed).1 present same] at listed
    · obtain ⟨hash, named⟩ := Option.ne_none_iff_exists'.mp hashed
      have reported := agree.reports hash
      rw [mem_reported] at reported
      constructor
      · intro listed
        obtain ⟨other, otherPresent, gone, same⟩ := reported.mp ⟨row, listed, named⟩
        rwa [Db.eq_of_hash otherPresent present same named] at gone
      · intro gone
        obtain ⟨other, listed, same⟩ := reported.mpr ⟨row, present, gone, named⟩
        rwa [Db.eq_of_hash (mem_expired listed).1 present same named] at listed
  · intro same
    refine ⟨?_, ?_, ?_, ?_⟩
    · intro id
      rw [mem_released]
      constructor
      · rintro ⟨row, listed, chunked, named⟩
        have present := (mem_expired listed).1
        have doomed := (same row present (.inl chunked)).mp listed
        exact ⟨row, present, (not_mem_rotated present).mpr doomed, chunked, named⟩
      · rintro ⟨row, present, gone, chunked, named⟩
        have doomed := (not_mem_rotated present).mp gone
        exact ⟨row, (same row present (.inl chunked)).mpr doomed, chunked, named⟩
    · intro hash
      rw [mem_reported]
      constructor
      · rintro ⟨row, listed, named⟩
        have present := (mem_expired listed).1
        have doomed := (same row present (.inr (by simp [named]))).mp listed
        exact ⟨row, present, (not_mem_rotated present).mpr doomed, named⟩
      · rintro ⟨row, present, gone, named⟩
        have doomed := (not_mem_rotated present).mp gone
        exact ⟨row, (same row present (.inr (by simp [named]))).mpr doomed, named⟩
    · intro row kept
      obtain ⟨present, spared⟩ := mem_rotated.mp kept
      constructor
      · intro released
        obtain ⟨other, listed, chunked, sameId⟩ := mem_released.mp released
        have equal : other = row := Db.eq_of_id (mem_expired listed).1 present sameId
        subst other
        exact spared ((same row present (.inl chunked)).mp listed)
      · intro hash named reported
        obtain ⟨other, listed, sameHash⟩ := mem_reported.mp reported
        rw [Db.eq_of_hash (mem_expired listed).1 present sameHash named] at listed
        exact spared ((same row present (.inr (by simp [named]))).mp listed)
    · intro row present gone chunked
      have doomed := (not_mem_rotated present).mp gone
      exact rotated_manifestOf_of_expired chunked ((same row present (.inl chunked)).mpr doomed)

/-- Whatever order each query lists ties in, the three sets agree exactly when no group of
equal timestamps with something to release or report straddles the OFFSET. -/
theorem queriesAgree_always_iff :
    (∀ fetchTie deleteTie : TieOrder,
      QueriesAgree db.clipboard
        (((expiring fetchTie maxHistory db).filter fun row => row.isChunked).map Expiring.id)
        ((expiring fetchTie maxHistory db).filterMap Expiring.hash)
        (db.rotated fetchTie deleteTie maxHistory)) ↔
      ∀ row ∈ db.clipboard, row.isPinned = false → row.isChunked = true ∨ row.hash ≠ none →
        ¬ Straddles db.clipboard (quota maxHistory).toNat row := by
  constructor
  · intro agree row present unpinned holds straddles
    have listed := mem_unpinned.mpr ⟨present, unpinned⟩
    obtain ⟨dropped, kept⟩ := straddles.splits listed
    exact kept ((queriesAgree_iff.mp (agree _ _) row present holds).mp dropped)
  · intro whole fetchTie deleteTie
    refine queriesAgree_iff.mpr fun row present holds => ?_
    cases pinned : row.isPinned with
    | false =>
        have listed := mem_unpinned.mpr ⟨present, pinned⟩
        exact mem_expired_ties fetchTie deleteTie listed (whole row present pinned holds)
    | true =>
        constructor <;> intro listed <;> simp [(mem_expired listed).2] at pinned

end

section
variable (sha3 : Bytes → Bytes)

def upsertReleases (db : Db) (now : Int) (fetchTie deleteTie : TieOrder) (mime : Str)
    (body : Body) (hash : Str) (maxHistory : UInt64) : List Int :=
  releasedBy (Program.calls Stmt.run
    (upsertTx sha3 now fetchTie deleteTie mime body hash maxHistory).run db)

/-- For every order of ties in either query, an upsert that succeeds releases, reports and
deletes the same rows, if and only if no tie group with a hash or chunks straddles the cap
among the rows its touch or insert leaves, or it fails before its rotation. -/
theorem upsert_queries_agree_iff (db : Db) (now : Int) (mime : Str) (body : Body) (hash : Str)
    (maxHistory : UInt64) :
    (∀ fetchTie deleteTie outcome after,
      Calm (upsertTx sha3 now fetchTie deleteTie mime body hash maxHistory) db outcome after →
      QueriesAgree (placedRows db now mime body hash)
        (upsertReleases sha3 db now fetchTie deleteTie mime body hash maxHistory)
        outcome.expiredHashes after) ↔
      ((∃ id placed, Calm (touchOrInsert sha3 now mime body hash) db id placed) →
        ∀ row ∈ placedRows db now mime body hash, row.isPinned = false →
          row.isChunked = true ∨ row.hash ≠ none →
          ¬ Straddles (placedRows db now mime body hash) (quota maxHistory).toNat row) := by
  by_cases reached : ∃ id placed, Calm (touchOrInsert sha3 now mime body hash) db id placed
  · obtain ⟨id, placed, ran⟩ := reached
    have places := calm_touchOrInsert sha3 ran
    rw [← places.clipboard, forall_prop_of_true ⟨id, placed, ran⟩,
      ← queriesAgree_always_iff]
    have whole : ∀ fetchTie deleteTie,
        Calm (upsertTx sha3 now fetchTie deleteTie mime body hash maxHistory) db
          { realId := id, isImage := isCacheClass mime,
            expiredHashes := (expiring fetchTie maxHistory placed).filterMap Expiring.hash }
          (placed.rotated fetchTie deleteTie maxHistory) := fun fetchTie deleteTie =>
      calm_bind.mpr ⟨id, placed, ran, calm_bind.mpr ⟨_, _, calm_rotate.mpr ⟨rfl, rfl⟩, rfl⟩⟩
    have released : ∀ fetchTie deleteTie,
        upsertReleases sha3 db now fetchTie deleteTie mime body hash maxHistory =
          ((expiring fetchTie maxHistory placed).filter fun row => row.isChunked).map
            Expiring.id := by
      intro fetchTie deleteTie
      rw [upsertReleases, upsertTx, releasedBy_bind ran,
        releasedBy_issues (touchOrInsert_issues sha3 now mime body hash),
        releasedBy_bind (calm_rotate.mpr ⟨rfl, rfl⟩), rotate_calls]
      exact List.append_nil _
    simp only [released]
    constructor
    · intro agree fetchTie deleteTie
      exact agree fetchTie deleteTie _ _ (whole fetchTie deleteTie)
    · intro agree fetchTie deleteTie outcome after ended
      obtain ⟨rfl, rfl⟩ := Fallible.Runs.unique Stmt.run (whole fetchTie deleteTie) ended
      exact agree fetchTie deleteTie
  · constructor
    · exact fun _ entered => absurd entered reached
    · intro _ fetchTie deleteTie outcome after ended
      obtain ⟨id, placed, ran, _⟩ := calm_bind.mp ended
      exact absurd ⟨id, placed, ran⟩ reached

end

def tiedUpsert (fetchTie deleteTie : TieOrder) : Tx UpsertOutcome :=
  upsertTx sampleSha3 1000 fetchTie deleteTie "text/plain".toList (.bytes [106]) "6a".toList 1

def tiedDb : Db :=
  ((StoreOp.upsert 1000 .byRowid "text/plain".toList (.record ⟨sampleText, sampleText_fits⟩)
    (toHex (sampleSha3 sampleText)) 1).run sampleSha3 noFaults Db.empty).2

theorem upsert_queries_counterexample :
    ¬ ∀ (sha3 : Bytes → Bytes) (db : Db) (now : Int) (mime : Str) (body : Body) (hash : Str)
        (maxHistory : UInt64) (fetchTie deleteTie : TieOrder) (outcome : UpsertOutcome)
        (after : Db),
      Calm (upsertTx sha3 now fetchTie deleteTie mime body hash maxHistory) db outcome after →
      QueriesAgree (placedRows db now mime body hash)
        (upsertReleases sha3 db now fetchTie deleteTie mime body hash maxHistory)
        outcome.expiredHashes after := by
  intro claimed
  have ended : Calm (tiedUpsert (.hindmost 1) (.foremost 1)) tiedDb
      { realId := 2, isImage := false, expiredHashes := [toHex (sampleSha3 sampleText)] }
      (Program.exec Stmt.run (tiedUpsert (.hindmost 1) (.foremost 1)).run tiedDb).2 := rfl
  have kept : (Program.exec Stmt.run (tiedUpsert (.hindmost 1) (.foremost 1)).run
      tiedDb).2.clipboard = tiedDb.clipboard := rfl
  have agree := claimed _ _ _ _ _ _ _ _ _ _ _ ended
  obtain ⟨row, present⟩ := List.exists_mem_of_ne_nil tiedDb.clipboard (by decide)
  have named : ∀ row ∈ tiedDb.clipboard, row.hash = some (toHex (sampleSha3 sampleText)) := by
    decide
  refine (agree.keeps row ?_).2 _ (named row present) (List.mem_singleton.mpr rfl)
  rw [kept]
  exact present

end Y4p
