import Y4p.Daemon.Restore
import Y4p.Storage.Tenants
import Y4p.Wayland.Source

/-!
Pasting a published record: what `handle_restore_request` offers against what the source serves.
-/

namespace Y4p

def OffersText (mime : Str) : Prop :=
  isTextCompatible (mimeBase mime) = true ∨
    (contains mime "text".toList = false ∧ contains mime "UTF8".toList = false)

theorem isTextCompatible_of_html {mime : Str} (markup : isHtmlMime mime = true) :
    isTextCompatible (mimeBase mime) = true := by
  unfold isTextCompatible
  rw [isHtmlMime_mimeBase, markup, Bool.or_true]

theorem mem_offers {mime alt : Str} (offered : alt ∈ offers mime) :
    alt = mime ∨ (isHtmlMime mime = true ∧ alt ∈ htmlMimeAlts) ∨
      ((contains mime "text".toList || contains mime "UTF8".toList) = true ∧
        alt ∈ textMimeAlts) := by
  unfold offers at offered
  rcases List.mem_cons.mp offered with same | other
  · exact .inl same
  · have listed := (List.mem_filter.mp other).1
    split at listed
    · rename_i markup
      exact .inr (.inl ⟨markup, listed⟩)
    · split at listed
      · rename_i hinted
        exact .inr (.inr ⟨hinted, listed⟩)
      · cases listed

/-- Every type offered for a record is answered, exactly unless its type has "text" or "UTF8" in
it without being text. -/
theorem offers_answered (mime : Str) :
    (∀ alt ∈ offers mime, Answered mime alt) ↔ OffersText mime := by
  simp only [answered_iff]
  constructor
  · intro answered
    by_cases text : isTextCompatible (mimeBase mime) = true
    · exact .inl text
    · right
      rw [← Bool.or_eq_false_iff, ← Bool.not_eq_true]
      intro hinted
      refine text ((compatible_string mime).mp (answered "STRING".toList ?_))
      have plain : ¬ isHtmlMime mime = true := fun markup => text (isTextCompatible_of_html markup)
      have other : "STRING".toList ≠ mime := by
        rintro rfl
        revert hinted
        decide
      unfold offers
      rw [if_neg plain, if_pos hinted]
      exact List.mem_cons_of_mem _ (List.mem_filter.mpr ⟨by decide, decide_eq_true other⟩)
  · intro condition alt offered
    rcases mem_offers offered with same | ⟨markup, listed⟩ | ⟨hinted, listed⟩
    · rw [same]
      exact mimeIsCompatible_self mime
    · rcases htmlMimeAlts_markup alt listed with atom | html
      · exact compatible_of_alias atom (isTextCompatible_of_html markup)
      · exact compatible_of_html html ((isHtmlMime_mimeBase mime).trans markup)
    · have text : isTextCompatible (mimeBase mime) = true := by
        refine condition.resolve_right fun bare => ?_
        rw [bare.1, bare.2] at hinted
        cases hinted
      exact compatible_of_alias (textMimeAlts_alias alt listed) text

def Offered (state : WaylandState) (conn : Connection) (mime : Str) (payload : Payload)
    (alt : Str) : Prop :=
  ∃ sent, (publish state conn mime payload).2.requests = conn.requests ++ sent ∧
    .offer conn.next alt ∈ sent

theorem offered_iff {state : WaylandState} {conn : Connection} {mime : Str} {payload : Payload}
    {alt : Str} : Offered state conn mime payload alt ↔ alt ∈ offers mime := by
  have sends := publish_sends state conn mime payload
  rw [List.append_assoc] at sends
  constructor
  · rintro ⟨sent, shape, member⟩
    rw [sends] at shape
    rw [← List.append_cancel_left shape] at member
    rcases List.mem_append.mp member with named | selects
    · rcases List.mem_cons.mp named with created | listed
      · cases created
      · obtain ⟨other, offered, same⟩ := List.mem_map.mp listed
        cases same
        exact offered
    · exfalso
      split at selects
      · cases List.mem_singleton.mp selects
      · cases selects
  · intro offered
    exact ⟨_, sends, List.mem_append_left _
      (List.mem_cons_of_mem _ (List.mem_map_of_mem offered))⟩

/-- Whatever is offered for a record can be had, exactly unless the record's type has "text" or
"UTF8" in it without being text. -/
theorem advertised_served (state : WaylandState) (conn : Connection) (mime : Str)
    (payload : Payload) :
    (∀ alt, Offered state conn mime payload alt → Answered mime alt) ↔ OffersText mime := by
  simp only [offered_iff]
  exact offers_answered mime

theorem advertised_served_counterexample :
    Offered boundDaemon boundConnection "application/vnd.oasis.opendocument.text".toList
        (.memory [104, 105]) "STRING".toList ∧
      mimeIsCompatible "STRING".toList "application/vnd.oasis.opendocument.text".toList = false ∧
      (DataSource.mk 3 "application/vnd.oasis.opendocument.text".toList
        (.memory [104, 105])).paste (fun _ => none) [] [] "STRING".toList = none := by
  refine ⟨offered_iff.mpr (by decide), by decide, ?_⟩
  have refused : mimeIsCompatible "STRING".toList
      "application/vnd.oasis.opendocument.text".toList = false := by decide
  unfold DataSource.paste DataSource.send
  dsimp only
  rw [refused]
  rfl

structure RestoredAs (sha3 : Bytes → Bytes) (located served : World) (state : WaylandState)
    (conn : Connection) (device : ObjectId) (id : Int) (source : DataSource) (data : Bytes) :
    Prop where
  record : served.recordBytes id = some data
  payload : source.payload.denotes served = some data
  publishes : Publishes conn device source (restoreAcross sha3 located served state conn id)

-- A copy in memory stays; a cache file must be there when it is opened.
def Payload.InPlace (world : World) : Payload → Prop
  | .memory _ => True
  | .file hash => (world.cache hash).isSome = true
  | .spooled _ => False

section
variable {sha3 : Bytes → Bytes} {located served : World} {state : WaylandState}
  {conn : Connection} {device : ObjectId} {id : Int} {source : DataSource}

theorem Publishes.fromLocation
    (publishes : Publishes conn device source
      (restoreAcross sha3 located served state conn id)) :
    ∃ location : ContentLocation, source.payload = location.served served := by
  have idle : restoreAcross sha3 located served state conn id ≠ (state, conn) := by
    intro same
    rw [same] at publishes
    obtain ⟨_, sent, shape, created, _⟩ := publishes
    have none : sent = [] := List.append_cancel_left (shape.symm.trans (List.append_nil _).symm)
    rw [none] at created
    cases created
  cases found : located.location id with
  | none => exact absurd (restoreAcross_unlocated found) idle
  | some record =>
      obtain ⟨mime, location⟩ := record
      cases managed : state.manager with
      | none => exact absurd (restoreAcross_unmanaged managed) idle
      | some manager =>
          rw [restoreAcross_located managed found] at publishes
          refine ⟨location, ?_⟩
          have same := Option.some.inj publishes.1
          rw [← same]

/-- In whatever world the source is pasted from, cache files having the names of their digests. -/
theorem RestoredAs.paste_iff {pool : Set Bytes} {later : World} {data : Bytes}
    (restored : RestoredAs sha3 located served state conn device id source data)
    (noCollision : Set.InjOn sha3 pool) (named : Named sha3 pool served)
    (still : Named sha3 pool later) {reads : List Nat} {replies : List SendfileReply}
    (moves : ∀ reply ∈ replies, reply ≠ .failed) :
    source.paste later.cache reads replies source.mime = some data ↔
      source.payload.InPlace later := by
  obtain ⟨location, payload⟩ := restored.publishes.fromLocation
  have denotes := restored.payload
  have plain : (isHtmlMime source.mime && !isHtmlMime source.mime) = false := by
    cases isHtmlMime source.mime <;> rfl
  unfold DataSource.paste DataSource.send
  rw [if_pos (mimeIsCompatible_self source.mime), plain]
  rw [payload] at denotes ⊢
  cases location with
  | inlineBlob row =>
      refine iff_of_true ?_ trivial
      exact denotes
  | cacheFile hash =>
      change (EgressJob.file hash false).run later.cache reads replies = some data ↔
        (later.cache hash).isSome = true
      unfold EgressJob.run
      dsimp only
      cases entry : later.cache hash with
      | none => exact iff_of_false nofun nofun
      | some file =>
          refine iff_of_true ?_ rfl
          dsimp only
          rw [if_neg Bool.false_ne_true, sendFrom_whole moves (Nat.zero_le _), List.drop_zero,
            named.same noCollision still denotes entry]

end

/-- Whatever the daemon and the CLI have stored, rotated out, deleted and wiped since a record was
restored: a request for its own type gets exactly its bytes if they were taken into memory, and
otherwise if the cache file is there when it is opened. -/
theorem selection_pasteable (sha3 : Bytes → Bytes) (sql : Nat → WriteFaults)
    (daemon : List FacadeOp) (commands : List (List FacadeOp))
    (noCollision : Set.InjOn sha3 (sessionPool (daemon ++ commands.flatten)))
    (ofCli : ∀ ops ∈ commands, ∀ op ∈ ops, op.ofCli) (before between after : List Tenant)
    (state : WaylandState) (conn : Connection) (device : ObjectId) (id : Int)
    (source : DataSource) (data : Bytes)
    (restored : RestoredAs sha3
      ((Tenants.start sha3 daemon commands).run sha3 (.reliable sql) before).state.1
      ((Tenants.start sha3 daemon commands).run sha3 (.reliable sql) (before ++ between)).state.1
      state conn device id source data)
    (reads : List Nat) (replies : List SendfileReply) (moves : ∀ reply ∈ replies, reply ≠ .failed) :
    let later := ((Tenants.start sha3 daemon commands).run sha3 (.reliable sql)
      (before ++ between ++ after)).state.1
    source.paste later.cache reads replies source.mime = some data ↔
      source.payload.InPlace later := by
  have housed := @housed_start sha3 daemon commands ofCli
  exact restored.paste_iff noCollision (housed.run (before ++ between)).named
    (housed.run (before ++ between ++ after)).named moves

-- An image is stored and restored; a CLI command deletes its row and then unlinks its file.
def sampleTenants (schedule : List Tenant) : World :=
  ((Tenants.start sampleSha3 [sampleImageOp 1000] [[.deleteById 1]]).run sampleSha3
    (.reliable fun _ => .none) schedule).state.1

def restoredSource : DataSource :=
  ⟨3, "image/png".toList, .file (toHex (sampleSha3 sampleImage))⟩

theorem sample_restoredAs :
    RestoredAs sampleSha3 (sampleTenants [.daemon, .daemon, .daemon])
      (sampleTenants [.daemon, .daemon, .daemon]) boundDaemon boundConnection 2 1 restoredSource
      sampleImage := by
  have found : (sampleTenants [.daemon, .daemon, .daemon]).location 1 =
      some ("image/png".toList, .cacheFile (toHex (sampleSha3 sampleImage))) := rfl
  refine ⟨rfl, rfl, ?_⟩
  rw [restoreAcross_located (rfl : boundDaemon.manager = some 0) found]
  exact publish_publishes rfl _ _

theorem selection_pasteable_sample :
    restoredSource.paste (sampleTenants [.daemon, .daemon, .daemon, .command 0]).cache [] []
        restoredSource.mime = some sampleImage ↔
      restoredSource.payload.InPlace (sampleTenants [.daemon, .daemon, .daemon, .command 0]) := by
  refine selection_pasteable sampleSha3 (fun _ => .none) [sampleImageOp 1000] [[.deleteById 1]]
    sampleSha3_injective.injOn ?_ [.daemon, .daemon, .daemon] [] [.command 0] boundDaemon
    boundConnection 2 1 restoredSource sampleImage sample_restoredAs [] [] nofun
  intro ops listed op member
  rw [List.mem_singleton.mp listed] at member
  rw [List.mem_singleton.mp member]
  trivial

/-- Once the file is unlinked the paste fails, while the record's source is still the selection. -/
theorem selection_pasteable_counterexample :
    RestoredAs sampleSha3 (sampleTenants [.daemon, .daemon, .daemon])
        (sampleTenants [.daemon, .daemon, .daemon]) boundDaemon boundConnection 2 1 restoredSource
        sampleImage ∧
      restoredSource.paste
        (sampleTenants [.daemon, .daemon, .daemon, .command 0, .command 0]).cache [] []
        restoredSource.mime = none := by
  have unlinked : (sampleTenants [.daemon, .daemon, .daemon, .command 0, .command 0]).cache
      (toHex (sampleSha3 sampleImage)) = none := rfl
  exact ⟨sample_restoredAs, paste_unlinked rfl unlinked [] [] _⟩

end Y4p
