import Y4p.Cli.Args
import Y4p.Core.Mimes
import Y4p.Storage.Survival

/-!
`y4p store` (`crates/cli/src/store.rs`) and the two gates against secrets: `is_sensitive` in front
of ingestion (`handlers/data_control/mod.rs`) and `is_skipped` in front of storage.
-/

namespace Y4p

open Programs

def isSensitive (mimes : List Str) : Bool :=
  sensitiveMimeHints.any fun hint =>
    mimes.any fun m => contains (m.map toAsciiLowercase) (hint.map toAsciiLowercase)

-- `stdin` is `none` if it cannot be read. A recorded id is then sent to the daemon.
def storeCommand (sha3 : Bytes → Bytes) (args : List Str) (stdin : Option Slice) (now : Int)
    (tie : TieOrder) (maxHistory : UInt64) : Io (Option (Except String Int)) :=
  let ctx := ArgContext.parse args
  if ctx.unknownFlags ≠ [] ∨ ctx.raw ∨ ctx.full ∨ ctx.force then pure none
  else if 1 < ctx.positionals.length then pure none
  else
    match stdin with
    | none => pure none
    | some buffer =>
        if buffer.bytes = [] then pure none
        else do
          let result ← ClipboardDb.insertRaw sha3 now tie (ctx.positionals.head?.getD defaultMime)
            buffer maxHistory
          pure (some result)

def HoldsHint (mime : Str) : Prop :=
  ∃ hint ∈ sensitiveMimeHints, hint.map toAsciiLowercase <:+: mime.map toAsciiLowercase

def HoldsHintVerbatim (mime : Str) : Prop :=
  ∃ hint ∈ sensitiveMimeHints, hint <:+: mime

theorem isSensitive_singleton (mime : Str) : isSensitive [mime] = true ↔ HoldsHint mime := by
  unfold isSensitive HoldsHint
  simp only [List.any_eq_true, List.mem_singleton, exists_eq_left, contains_iff]

theorem isSkipped_iff {mime : Str} {len : Nat} :
    isSkipped mime len = true ↔ len = 0 ∨ HoldsHintVerbatim mime := by
  unfold isSkipped HoldsHintVerbatim
  simp only [Bool.or_eq_true, decide_eq_true_eq, List.any_eq_true, contains_iff]

theorem isSkipped_always {mime : Str} :
    (∀ len, 0 < len → isSkipped mime len = true) ↔ HoldsHintVerbatim mime := by
  constructor
  · intro skipped
    exact (isSkipped_iff.mp (skipped 1 Nat.one_pos)).resolve_left Nat.one_ne_zero
  · intro verbatim len _
    exact isSkipped_iff.mpr (.inr verbatim)

theorem HoldsHintVerbatim.holdsHint {mime : Str} (verbatim : HoldsHintVerbatim mime) :
    HoldsHint mime := by
  obtain ⟨hint, listed, inside⟩ := verbatim
  exact ⟨hint, listed, inside.map toAsciiLowercase⟩

theorem insertWithHash_skipped {sha3 : Bytes → Bytes}
    {fails : Call → World → IoFailure → Prop} {mime : Str} (verbatim : HoldsHintVerbatim mime)
    (world : World) (now : Int) (tie : TieOrder) (data : Slice) (hash : Str)
    (maxHistory : UInt64) :
    (insertWithHash now tie mime data hash maxHistory).Ensures (Call.May sha3 fails)
      (fun _ => True) (fun _ after => after.db = world.db) world := by
  apply Program.Ensures.ask
  intro answer middle may
  obtain ⟨db, effect, rfl⟩ := may.store
  refine ⟨trivial, ?_⟩
  simp only [StoreOp.Effect, UpsertEffect] at effect
  rw [if_pos (isSkipped_iff.mpr (.inr verbatim))] at effect
  obtain ⟨rfl, rfl⟩ := effect
  rfl

structure NeverStored (mime : Str) : Prop where
  byHash : ∀ sha3 environment state now tie data hash maxHistory,
    (Program.exec (Call.step sha3 environment)
      (insertWithHash now tie mime data hash maxHistory) state).2.1.db = state.1.db
  byInsertRaw : ∀ sha3 environment state now tie data maxHistory,
    (Program.exec (Call.step sha3 environment)
      (ClipboardDb.insertRaw sha3 now tie mime data maxHistory) state).2.1.db = state.1.db
  byCommand : ∀ sha3 environment state args stdin now tie maxHistory,
    (ArgContext.parse args).positionals.head?.getD defaultMime = mime →
    (Program.exec (Call.step sha3 environment)
      (storeCommand sha3 args stdin now tie maxHistory) state).2.1.db = state.1.db

theorem HoldsHintVerbatim.neverStored {mime : Str} (verbatim : HoldsHintVerbatim mime) :
    NeverStored mime := by
  have byHash : ∀ sha3 environment state now tie data hash maxHistory,
      (Program.exec (Call.step sha3 environment)
        (insertWithHash now tie mime data hash maxHistory) state).2.1.db = state.1.db := by
    intro sha3 environment state now tie data hash maxHistory
    have ensures := @insertWithHash_skipped sha3 (fun _ _ _ => True) mime verbatim state.1 now tie
      data hash maxHistory
    exact (Program.Ensures.of_run Prod.fst ensures
      fun issued _ => @Call.step_may _ _ environment _ _ fun _ _ => trivial).2
  refine ⟨byHash, fun _ _ _ _ _ _ _ => byHash _ _ _ _ _ _ _ _, ?_⟩
  rintro sha3 environment state args stdin now tie maxHistory rfl
  unfold storeCommand
  dsimp only
  split
  · rfl
  · split
    · rfl
    · cases stdin with
      | none => rfl
      | some buffer =>
          dsimp only
          split
          · rfl
          · rw [Program.exec_bind]
            exact byHash _ _ _ _ _ _ _ _

def GatesAgree (mime : Str) : Prop :=
  (isSensitive [mime] = true ↔ ∀ len, 0 < len → isSkipped mime len = true) ∧
    (isSensitive [mime] = true → NeverStored mime)

/-- The gates agree on the MIMEs that hold no hint, and on those that hold one as it is spelled. -/
theorem gatesAgree_iff (mime : Str) :
    GatesAgree mime ↔
      (∀ hint ∈ sensitiveMimeHints,
        ¬ hint.map toAsciiLowercase <:+: mime.map toAsciiLowercase) ∨
      ∃ hint ∈ sensitiveMimeHints, hint <:+: mime := by
  have none : (∀ hint ∈ sensitiveMimeHints,
      ¬ hint.map toAsciiLowercase <:+: mime.map toAsciiLowercase) ↔ ¬ HoldsHint mime := by
    unfold HoldsHint
    simp only [not_exists, not_and]
  rw [none]
  change _ ↔ ¬ HoldsHint mime ∨ HoldsHintVerbatim mime
  unfold GatesAgree
  rw [isSensitive_singleton, isSkipped_always]
  constructor
  · rintro ⟨same, _⟩
    by_cases hinted : HoldsHint mime
    · exact .inr (same.mp hinted)
    · exact .inl hinted
  · rintro (free | verbatim)
    · exact ⟨⟨fun hinted => absurd hinted free, HoldsHintVerbatim.holdsHint⟩,
        fun hinted => absurd hinted free⟩
    · exact ⟨⟨fun _ => verbatim, HoldsHintVerbatim.holdsHint⟩, fun _ => verbatim.neverStored⟩

def concealedType : Str := "org.nspasteboard.ConcealedType".toList

/-- Ingestion refuses it, `y4p store` keeps it. -/
theorem gatesAgree_counterexample :
    isSensitive [concealedType] = true ∧ isSkipped concealedType 2 = false ∧
      (∃ row ∈ (Program.exec (Call.step sampleSha3 .calm)
          (storeCommand sampleSha3 ["y4p".toList, "store".toList, concealedType]
            (some ⟨sampleText, sampleText_fits⟩) 1000 .byRowid 256)
          (World.empty, 0)).2.1.db.clipboard, row.mime = concealedType) ∧
      ¬ ∀ mime, GatesAgree mime := by
  have sensitive : isSensitive [concealedType] = true := by decide
  have kept : isSkipped concealedType 2 = false := by decide
  refine ⟨sensitive, kept, ⟨_, List.mem_singleton.mpr rfl, rfl⟩, fun agree => ?_⟩
  have skipped := (agree concealedType).1.mp sensitive 2 (by decide)
  rw [kept] at skipped
  cases skipped

end Y4p
