import Y4p.Storage.Agreement

/-!
The daemon and any number of CLI commands on one database and one cache directory, interleaved
call by call: whoever runs, a cache file holds the payload its name is the digest of.
-/

namespace Y4p

open Programs

structure Tenants where
  daemon : Io Unit
  commands : List (Io Unit)
  state : World × Nat

inductive Tenant where
  | daemon
  | command (index : Nat)

namespace Tenants

variable (sha3 : Bytes → Bytes) (environment : Environment)

def start (daemon : List FacadeOp) (commands : List (List FacadeOp)) : Tenants where
  daemon := session sha3 daemon
  commands := commands.map (session sha3)
  state := (World.empty, 0)

def take (tenants : Tenants) : Tenant → Tenants
  | .daemon =>
      match tenants.daemon with
      | .ret _ => tenants
      | .call request next =>
          { tenants with
            daemon := next (request.step sha3 environment tenants.state).1
            state := (request.step sha3 environment tenants.state).2 }
  | .command index =>
      match tenants.commands[index]? with
      | some (.call request next) =>
          { tenants with
            commands :=
              tenants.commands.set index (next (request.step sha3 environment tenants.state).1)
            state := (request.step sha3 environment tenants.state).2 }
      | _ => tenants

def run (tenants : Tenants) (schedule : List Tenant) : Tenants :=
  schedule.foldl (take sha3 environment) tenants

end Tenants

def Named (sha3 : Bytes → Bytes) (pool : Set Bytes) (world : World) : Prop :=
  ∀ hash file, world.cache hash = some file → file ∈ pool ∧ hash = toHex (sha3 file)

section
variable {sha3 : Bytes → Bytes} {pool : Set Bytes} {world after : World}

theorem Named.put (named : Named sha3 pool world) {hash : Str} {file : Bytes}
    (right : file ∈ pool ∧ hash = toHex (sha3 file)) :
    Named sha3 pool (world.put hash (some file)) := by
  intro other found entry
  by_cases same : other = hash
  · rw [same, World.put_cache_self] at entry
    cases entry
    rw [same]
    exact right
  · rw [World.put_cache_of_ne _ _ same] at entry
    exact named other found entry

theorem Named.clear (named : Named sha3 pool world) (hash : Str) :
    Named sha3 pool (world.put hash none) := by
  intro other found entry
  by_cases same : other = hash
  · rw [same, World.put_cache_self] at entry
    cases entry
  · rw [World.put_cache_of_ne _ _ same] at entry
    exact named other found entry

/-- Every call of a proper program keeps the names right. -/
theorem Named.call (named : Named sha3 pool world) {files : SpoolFiles} {request : Call}
    {next : request.Answer → Io Unit} {answer : request.Answer}
    (justified : Justified sha3 pool files request next)
    (bound : ∀ source data, world.spool source = some data → files source = some data)
    (may : request.May sha3 (fun _ _ _ => False) world answer after) : Named sha3 pool after := by
  rcases may with ⟨faults, ran⟩ | ⟨_, failed, _⟩
  · cases request with
    | write hash data =>
        rcases Call.run_write ran with ⟨-, rfl⟩ | ⟨-, rfl⟩
        · exact named.put justified
        · exact named
    | rename source hash =>
        rcases Call.run_rename ran with ⟨-, data, spooled, rfl⟩ | ⟨-, rfl⟩
        · exact named.put (justified data (bound source data spooled))
        · exact named
    | copy source hash =>
        rcases Call.run_copy ran with ⟨-, data, spooled, rfl⟩ | ⟨-, rfl⟩
        · exact named.put (justified data (bound source data spooled))
        · exact named
    | remove hash =>
        rw [Call.run] at ran
        split at ran
        · cases ran
          exact named.clear hash
        · cases ran
          exact named
    | removeDirAll =>
        rw [Call.run] at ran
        split at ran
        · cases ran
          intro _ _ entry
          cases entry
        · cases ran
          exact named
    | removeSpool source | openSpool source =>
        rw [Call.run] at ran
        split at ran <;> cases ran <;> exact named
    | store op | spool source data | pathExists hash | read hash | readHandle handle limit
      | createDirAll =>
        cases ran
        exact named
  · exact failed.elim

end

structure Housed (sha3 : Bytes → Bytes) (pool : Set Bytes) (tenants : Tenants) : Prop where
  named : Named sha3 pool tenants.state.1
  daemon : ∃ files, Proper sha3 pool files tenants.daemon ∧
    ∀ source data, tenants.state.1.spool source = some data → files source = some data
  commands : ∀ program ∈ tenants.commands, (∀ files, Proper sha3 pool files program) ∧
    program.Issues fun call => call.spools = false

section
variable {sha3 : Bytes → Bytes} {pool : Set Bytes} {sql : Nat → WriteFaults} {tenants : Tenants}

theorem Housed.take (housed : Housed sha3 pool tenants) (tenant : Tenant) :
    Housed sha3 pool (tenants.take sha3 (.reliable sql) tenant) := by
  obtain ⟨files, proper, bound⟩ := housed.daemon
  cases tenant with
  | daemon =>
      unfold Tenants.take
      cases program : tenants.daemon with
      | ret value => exact housed
      | call request next =>
          rw [program] at proper
          obtain ⟨⟨justified, _⟩, follows⟩ := proper
          have may := @reliable_may sha3 sql request tenants.state
          exact ⟨housed.named.call justified bound may,
            ⟨_, follows _ (may.credible bound), may.spool_bound bound⟩, housed.commands⟩
  | command index =>
      unfold Tenants.take
      dsimp only
      split
      · rename_i request next found
        obtain ⟨others, spoolless, later⟩ := housed.commands _ (List.mem_of_getElem? found)
        obtain ⟨⟨justified, _⟩, _⟩ := others tenants.state.1.spool
        have may := @reliable_may sha3 sql request tenants.state
        refine ⟨housed.named.call justified (fun _ _ held => held) may, ⟨files, proper, ?_⟩, ?_⟩
        · have kept := may.spool_bound bound
          rw [SpoolFiles.after_of_not_spools spoolless] at kept
          exact kept
        · intro program member
          rcases List.mem_or_eq_of_mem_set member with before | moved
          · exact housed.commands program before
          · rw [moved]
            exact ⟨Proper.spoolless others spoolless may, later _⟩
      · exact housed

theorem Housed.run (housed : Housed sha3 pool tenants) (schedule : List Tenant) :
    Housed sha3 pool (tenants.run sha3 (.reliable sql) schedule) := by
  induction schedule generalizing tenants with
  | nil => exact housed
  | cons tenant rest ih => exact ih (housed.take tenant)

theorem housed_start {daemon : List FacadeOp} {commands : List (List FacadeOp)}
    (ofCli : ∀ ops ∈ commands, ∀ op ∈ ops, op.ofCli) :
    Housed sha3 (sessionPool (daemon ++ commands.flatten))
      (Tenants.start sha3 daemon commands) where
  named := nofun
  daemon := by
    refine ⟨fun _ => none, ?_, nofun⟩
    exact session_proper fun op member data => sessionPool_pooled (List.mem_append_left _ member)
  commands := by
    intro program member
    obtain ⟨ops, listed, rfl⟩ := List.mem_map.mp member
    refine ⟨fun files => session_proper fun op found data => ?_, session_issues (ofCli ops listed)⟩
    exact sessionPool_pooled
      (List.mem_append_right _ (List.mem_flatten.mpr ⟨ops, listed, found⟩))

/-- A file that goes and comes again under one name holds the same bytes. -/
theorem Named.same {world after : World} (noCollision : Set.InjOn sha3 pool)
    (before : Named sha3 pool world) (later : Named sha3 pool after) {hash : Str}
    {file other : Bytes} (found : world.cache hash = some file)
    (again : after.cache hash = some other) : other = file := by
  obtain ⟨pooled, key⟩ := before hash file found
  obtain ⟨pooledAgain, keyAgain⟩ := later hash other again
  exact noCollision pooledAgain pooled (toHex_injective (keyAgain.symm.trans key))

end

end Y4p
