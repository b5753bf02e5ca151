import Y4p.Cli.Args
import Y4p.Cli.Range
import Y4p.Storage.Listing
import Y4p.Storage.Survival

/-! `y4p list` (`crates/cli/src/list.rs`). -/

namespace Y4p

def enumerate {α : Type} (items : List α) : List (Nat × α) :=
  items.zipIdx.map Prod.swap

def targetItems {α : Type} (full : Bool) (selection : RangeSelection) (allItems : List α) :
    List (Nat × α) :=
  if full then enumerate allItems
  else
    match selection with
    | .single n => if inside : n < allItems.length then [(n, allItems[n])] else []
    | .range start stop =>
        if allItems.length = 0 then []
        else
          let s := min start (allItems.length - 1)
          let e := min stop (allItems.length - 1)
          if s ≤ e then ((enumerate allItems).drop s).take (e - s + 1) else []
    | .latest limit => (enumerate allItems).take limit

-- What `render_list` is called with. It prints an index before each item, or with `useId` its id.
structure Listing where
  items : List (Nat × MetaRow)
  totalStored : Nat
  raw : Bool
  useId : Bool

def listCommand (tie : TieOrder) (maxHistory : UInt64) (args : List Str) (db : Db) :
    Except Str Listing :=
  let ctx := ArgContext.parse args
  match ctx.unknownFlags with
  | flag :: _ => .error ("unknown option detected: '".toList ++ flag ++ "'".toList)
  | [] =>
      if 1 < ctx.positionals.length then
        .error "command 'list' accepts only one range argument.".toList
      else
        match parseRange ctx.positionals.head? 25 with
        | .error message => .error ("argument error: ".toList ++ message)
        | .ok selection =>
            .ok {
              items := targetItems ctx.full selection (fetchMetadataUpTo tie db maxHistory)
              totalStored := db.clipboard.length
              raw := ctx.raw
              useId := ctx.useId }

def RangeSelection.Includes : RangeSelection → Nat → Prop
  | single n, index => index = n
  | range start stop, index => start ≤ index ∧ index ≤ stop
  | latest limit, index => index < limit

instance (selection : RangeSelection) (index : Nat) : Decidable (selection.Includes index) :=
  match selection with
  | .single n => inferInstanceAs (Decidable (index = n))
  | .range start stop => inferInstanceAs (Decidable (start ≤ index ∧ index ≤ stop))
  | .latest limit => inferInstanceAs (Decidable (index < limit))

def RangeSelection.entries {α : Type} (selection : RangeSelection) (allItems : List α) :
    List (Nat × α) :=
  (enumerate allItems).filter fun entry => selection.Includes entry.1

section
variable {α : Type} {allItems : List α}

theorem length_enumerate : (enumerate allItems).length = allItems.length := by
  rw [enumerate, List.length_map, List.length_zipIdx]

theorem enumerate_index {index : Nat} (inside : index < (enumerate allItems).length) :
    (enumerate allItems)[index].1 = index := by
  simp only [enumerate, List.getElem_map, List.getElem_zipIdx, Prod.fst_swap, Nat.zero_add]

theorem index_of_mem_take {count : Nat} {entry : Nat × α}
    (member : entry ∈ (enumerate allItems).take count) : entry.1 < count := by
  obtain ⟨index, inside, rfl⟩ := List.mem_iff_getElem.mp member
  rw [List.getElem_take, enumerate_index]
  exact (List.length_take_le _ _).trans_lt' inside

theorem index_of_mem_drop {count : Nat} {entry : Nat × α}
    (member : entry ∈ (enumerate allItems).drop count) : count ≤ entry.1 := by
  obtain ⟨index, inside, rfl⟩ := List.mem_iff_getElem.mp member
  rw [List.getElem_drop, enumerate_index]
  exact Nat.le_add_right _ _

/-- The entries from one index to another stand together. -/
theorem entries_range (start stop : Nat) :
    (RangeSelection.range start stop).entries allItems =
      ((enumerate allItems).drop start).take (stop + 1 - start) := by
  have before : ((enumerate allItems).take start).filter
      (fun entry => (RangeSelection.range start stop).Includes entry.1) = [] := by
    rw [List.filter_eq_nil_iff]
    intro entry member
    rw [decide_eq_true_eq]
    exact fun included => Nat.not_le.mpr (index_of_mem_take member) included.1
  have within : ∀ entry ∈ ((enumerate allItems).drop start).take (stop + 1 - start),
      decide ((RangeSelection.range start stop).Includes entry.1) = true := by
    intro entry member
    have early : entry.1 < stop + 1 := by
      rw [← List.drop_take] at member
      exact index_of_mem_take (List.mem_of_mem_drop member)
    exact decide_eq_true
      ⟨index_of_mem_drop (List.mem_of_mem_take member), Nat.le_of_lt_succ early⟩
  have after : (((enumerate allItems).drop start).drop (stop + 1 - start)).filter
      (fun entry => (RangeSelection.range start stop).Includes entry.1) = [] := by
    rw [List.filter_eq_nil_iff, List.drop_drop]
    intro entry member
    have late := index_of_mem_drop member
    rw [decide_eq_true_eq]
    rintro ⟨first, last⟩
    omega
  calc (RangeSelection.range start stop).entries allItems
      = ((enumerate allItems).take start).filter
            (fun entry => (RangeSelection.range start stop).Includes entry.1) ++
          ((((enumerate allItems).drop start).take (stop + 1 - start)).filter
              (fun entry => (RangeSelection.range start stop).Includes entry.1) ++
            (((enumerate allItems).drop start).drop (stop + 1 - start)).filter
              (fun entry => (RangeSelection.range start stop).Includes entry.1)) := by
        rw [← List.filter_append, ← List.filter_append, List.take_append_drop,
          List.take_append_drop, RangeSelection.entries]
    _ = ((enumerate allItems).drop start).take (stop + 1 - start) := by
        rw [before, after, List.filter_eq_self.mpr within, List.nil_append, List.append_nil]

theorem targetItems_single (n : Nat) :
    targetItems false (.single n) allItems = (RangeSelection.single n).entries allItems := by
  have same : (RangeSelection.single n).entries allItems =
      (RangeSelection.range n n).entries allItems := by
    refine List.filter_congr fun entry _ => decide_eq_decide.mpr ?_
    simp only [RangeSelection.Includes]
    omega
  rw [same, entries_range, Nat.add_sub_cancel_left]
  unfold targetItems
  simp only [Bool.false_eq_true, if_false]
  split
  · rename_i inside
    have listed : n < (enumerate allItems).length := by
      rw [length_enumerate]
      exact inside
    rw [List.drop_eq_getElem_cons listed, List.take_succ_cons, List.take_zero]
    simp only [enumerate, List.getElem_map, List.getElem_zipIdx, Nat.zero_add, Prod.swap_prod_mk]
  · rename_i outside
    rw [List.drop_of_length_le (by rw [length_enumerate]; omega), List.take_nil]

theorem targetItems_range_iff {start stop : Nat} (ordered : start ≤ stop) :
    targetItems false (.range start stop) allItems =
        (RangeSelection.range start stop).entries allItems ↔
      allItems = [] ∨ start < allItems.length := by
  rw [entries_range]
  unfold targetItems
  simp only [Bool.false_eq_true, if_false]
  by_cases empty : allItems = []
  · subst empty
    refine iff_of_true ?_ (.inl rfl)
    rw [if_pos List.length_nil, enumerate, List.zipIdx_nil, List.map_nil, List.drop_nil,
      List.take_nil]
  have some : allItems.length ≠ 0 := mt List.length_eq_zero_iff.mp empty
  rw [if_neg some, or_iff_right empty]
  by_cases inside : start < allItems.length
  · have low : min start (allItems.length - 1) = start := by omega
    rw [low, if_pos (Nat.le_min.mpr ⟨ordered, Nat.le_sub_one_of_lt inside⟩)]
    refine iff_of_true (List.take_eq_take_iff.mpr ?_) inside
    rw [List.length_drop, length_enumerate]
    rcases Nat.le_total stop (allItems.length - 1) with short | long
    · rw [Nat.min_eq_left short]
      omega
    · rw [Nat.min_eq_right long]
      omega
  · have low : min start (allItems.length - 1) = allItems.length - 1 := by omega
    have high : min stop (allItems.length - 1) = allItems.length - 1 := by omega
    have past : (enumerate allItems).drop start = [] := by
      rw [List.drop_eq_nil_iff, length_enumerate]
      omega
    rw [low, high, if_pos (Nat.le_refl _), past, List.take_nil]
    refine iff_of_false ?_ inside
    intro nothing
    have length := congrArg List.length nothing
    rw [List.length_take, List.length_drop, length_enumerate, List.length_nil] at length
    omega

end

namespace ArgContext

theorem add_positional (ctx : ArgContext) {arg : Str} (plain : arg.head? ≠ some '-') :
    ctx.add arg = { ctx with positionals := ctx.positionals ++ [arg] } := by
  have undashed : ∀ more : Str, startsWith arg ('-' :: more) = false := by
    intro more
    cases arg with
    | nil => rfl
    | cons c rest =>
        have other : ¬ '-' = c := fun same => plain (same ▸ rfl)
        simp only [startsWith, List.isPrefixOf, beq_eq_false_iff_ne.mpr other, Bool.false_and]
  have long : startsWith arg "--".toList = false := undashed ['-']
  have short : startsWith arg "-".toList = false := undashed []
  rw [add, long, short, if_neg Bool.false_ne_true, Bool.false_and, if_neg Bool.false_ne_true]

theorem add_letters (ctx : ArgContext) {first : Char} {rest : Str} (other : first ≠ '-') :
    ctx.add ('-' :: first :: rest) = (first :: rest).foldl short ctx := by
  have single : startsWith ('-' :: first :: rest) "--".toList = false := by
    change ('-' == '-' && ('-' == first && true)) = false
    rw [beq_eq_false_iff_ne.mpr other.symm]
    rfl
  rw [add, single, if_neg Bool.false_ne_true]
  rfl

theorem short_digit (ctx : ArgContext) {c : Char} (digit : c.isDigit = true) :
    ctx.short c = ctx.unknown ['-', c] := by
  unfold short
  split
  all_goals first
    | cases digit
    | rfl

theorem short_unknown {ctx : ArgContext} (given : ctx.unknownFlags ≠ []) (c : Char) :
    (ctx.short c).unknownFlags ≠ [] := by
  unfold short
  split
  all_goals first
    | exact given
    | exact List.append_ne_nil_of_left_ne_nil given _

theorem shorts_unknown {ctx : ArgContext} (given : ctx.unknownFlags ≠ []) (letters : Str) :
    (letters.foldl short ctx).unknownFlags ≠ [] := by
  induction letters generalizing ctx with
  | nil => exact given
  | cons c rest ih => exact ih (short_unknown given c)

theorem shorts_digit (ctx : ArgContext) {letters : Str} {c : Char} (member : c ∈ letters)
    (digit : c.isDigit = true) : (letters.foldl short ctx).unknownFlags ≠ [] := by
  obtain ⟨before, after, rfl⟩ := List.append_of_mem member
  rw [List.foldl_append, List.foldl_cons, short_digit _ digit]
  exact shorts_unknown (List.append_ne_nil_of_right_ne_nil _ (List.cons_ne_nil _ _)) after

end ArgContext

def renderingFlags : List Str :=
  ["--raw".toList, "-R".toList, "--id".toList, "-i".toList]

theorem add_rendering (ctx : ArgContext) {flag : Str} (listed : flag ∈ renderingFlags) :
    (ctx.add flag).positionals = ctx.positionals ∧
      (ctx.add flag).unknownFlags = ctx.unknownFlags ∧ (ctx.add flag).full = ctx.full := by
  simp only [renderingFlags, List.mem_cons, List.not_mem_nil, or_false] at listed
  rcases listed with rfl | rfl | rfl | rfl <;> exact ⟨rfl, rfl, rfl⟩

theorem rendering_empty {flags : List Str} (listed : ∀ flag ∈ flags, flag ∈ renderingFlags) :
    (flags.foldl ArgContext.add .empty).positionals = [] ∧
      (flags.foldl ArgContext.add .empty).unknownFlags = [] ∧
      (flags.foldl ArgContext.add .empty).full = false := by
  induction flags using List.reverseRecOn with
  | nil => exact ⟨rfl, rfl, rfl⟩
  | append_singleton flags flag ih =>
      obtain ⟨positionals, unknown, full⟩ := ih fun other member =>
        listed other (List.mem_append_left _ member)
      obtain ⟨samePositionals, sameUnknown, sameFull⟩ := add_rendering
        (flags.foldl ArgContext.add .empty)
        (listed flag (List.mem_append_right _ (List.mem_singleton.mpr rfl)))
      rw [List.foldl_append, List.foldl_cons, List.foldl_nil, samePositionals, sameUnknown, sameFull]
      exact ⟨positionals, unknown, full⟩

section
variable {tie : TieOrder} {maxHistory : UInt64} {db : Db} {s y4p list : Str} {flags : List Str}

theorem listCommand_given (listed : ∀ flag ∈ flags, flag ∈ renderingFlags)
    (plain : s.head? ≠ some '-') {selection : RangeSelection}
    (parsed : parseRange (some s) 25 = .ok selection) :
    ∃ listing, listCommand tie maxHistory (y4p :: list :: (flags ++ [s])) db = .ok listing ∧
      listing.items = targetItems false selection (fetchMetadataUpTo tie db maxHistory) := by
  obtain ⟨positionals, unknown, full⟩ := rendering_empty listed
  simp only [listCommand, ArgContext.parse, List.drop_succ_cons, List.drop_zero, List.foldl_append,
    List.foldl_cons, List.foldl_nil, ArgContext.add_positional _ plain, positionals, unknown, full,
    List.nil_append, List.length_singleton, List.head?_cons, parsed]
  exact ⟨_, rfl, rfl⟩

/-- An argument that begins with `-` is no positional. -/
theorem listCommand_option {rest : Str} (plain : '-' ∉ rest) {c : Char} (member : c ∈ rest)
    (digit : c.isDigit = true) :
    ∃ message, listCommand tie maxHistory (y4p :: list :: (flags ++ ['-' :: rest])) db =
      .error message := by
  have unknown : (ArgContext.parse (y4p :: list :: (flags ++ ['-' :: rest]))).unknownFlags ≠ [] := by
    rw [ArgContext.parse, List.drop_succ_cons, List.drop_succ_cons, List.drop_zero,
      List.foldl_append, List.foldl_cons, List.foldl_nil]
    cases rest with
    | nil => exact absurd member List.not_mem_nil
    | cons first more =>
        rw [ArgContext.add_letters _ fun same => plain (same ▸ List.mem_cons_self)]
        exact ArgContext.shorts_digit _ member digit
  obtain ⟨flag, others, isUnknown⟩ := List.exists_cons_of_ne_nil unknown
  simp only [listCommand, isUnknown]
  exact ⟨_, rfl⟩

end

theorem Spells.ordered {defaultLimit start stop : Nat} {s : Str}
    (spells : Spells defaultLimit s (.range start stop)) : start ≤ stop := by
  generalize named : RangeSelection.range start stop = selection at spells
  cases spells with
  | single _ => cases named
  | range _ _ _ =>
      cases named
      exact Nat.le_trans (Nat.min_le_left _ _) (Nat.le_max_left _ _)
  | starting _ number _ =>
      cases named
      exact Nat.le_min.mpr ⟨Nat.le_add_right _ _, number.fits⟩
  | upTo _ _ _ =>
      cases named
      exact Nat.zero_le _

theorem number_not_nil {n : Nat} : ¬ IsNumber (trim []) n :=
  fun number => number.some rfl

/-- Of the ranges only `-b` may begin with `-`. -/
theorem Spells.option {defaultLimit start stop : Nat} {s : Str}
    (spells : Spells defaultLimit s (.range start stop)) (dash : s.head? = some '-') :
    ∃ rest, s = '-' :: rest ∧ '-' ∉ rest ∧ ∃ c ∈ rest, c.isDigit = true := by
  have nothing : ∀ {first second : Str}, s = first ++ '-' :: second → '-' ∉ first → first = [] := by
    intro first second text plain
    cases first with
    | nil => rfl
    | cons c more =>
        rw [text, List.cons_append, List.head?_cons, Option.some_inj] at dash
        exact absurd (dash ▸ List.mem_cons_self) plain
  generalize named : RangeSelection.range start stop = selection at spells
  cases spells with
  | single _ => cases named
  | range text left _ =>
      rw [nothing text left.plain] at left
      exact absurd left number_not_nil
  | starting text left _ =>
      rw [nothing text left.plain] at left
      exact absurd left number_not_nil
  | @upTo first second b text blank right =>
      have empty := nothing text (plain_of_blank blank)
      subst empty
      obtain ⟨c, member⟩ := List.exists_mem_of_ne_nil _ right.some
      exact ⟨second, text, right.plain, c, (trim_part second).subset member, right.digits c member⟩

theorem Spells.single_plain {defaultLimit n : Nat} {s : Str}
    (spells : Spells defaultLimit s (.single n)) : s.head? ≠ some '-' := by
  cases spells with
  | single number => exact fun dash => number.plain (List.mem_of_head? dash)

structure RangeExact (tie : TieOrder) (maxHistory : UInt64) (db : Db) (s : Str) : Prop where
  strict : ∀ defaultLimit selection,
    parseRange (some s) defaultLimit = .ok selection ↔ Spells defaultLimit s selection
  shown : ∀ selection, parseRange (some s) 25 = .ok selection → ∀ y4p list flags,
    (∀ flag ∈ flags, flag ∈ renderingFlags) →
    ∃ listing, listCommand tie maxHistory (y4p :: list :: (flags ++ [s])) db = .ok listing ∧
      listing.items = selection.entries (fetchMetadataUpTo tie db maxHistory)

/-- Ranges are exact unless they are read laxly, taken for options, or beyond the last entry. -/
theorem rangeExact_iff (tie : TieOrder) (maxHistory : UInt64) (db : Db) (s : Str) :
    RangeExact tie maxHistory db s ↔
      ¬ Lax s ∧ ∀ start stop, Spells 25 s (.range start stop) →
        s.head? ≠ some '-' ∧
          (fetchMetadataUpTo tie db maxHistory = [] ∨
            start < (fetchMetadataUpTo tie db maxHistory).length) := by
  have noFlags : ∀ flag ∈ ([] : List Str), flag ∈ renderingFlags :=
    fun _ member => absurd member List.not_mem_nil
  constructor
  · rintro ⟨strict, shown⟩
    refine ⟨(parseRange_strict_iff s).mp strict, ?_⟩
    intro start stop spells
    obtain ⟨listing, listed, items⟩ := shown _ spells.parsed [] [] [] noFlags
    have plain : s.head? ≠ some '-' := by
      intro dash
      obtain ⟨rest, rfl, undashed, c, member, digit⟩ := spells.option dash
      obtain ⟨message, refused⟩ := @listCommand_option tie maxHistory db [] [] [] _ undashed _
        member digit
      rw [refused] at listed
      cases listed
    obtain ⟨again, listedAgain, given⟩ := listCommand_given noFlags plain spells.parsed
    rw [listed] at listedAgain
    cases listedAgain
    exact ⟨plain, (targetItems_range_iff spells.ordered).mp (given.symm.trans items)⟩
  · rintro ⟨careful, inside⟩
    refine ⟨(parseRange_strict_iff s).mpr careful, ?_⟩
    intro selection parsed y4p list flags rendering
    have spells := ((parseRange_strict_iff s).mpr careful 25 selection).mp parsed
    cases selection with
    | single n =>
        obtain ⟨listing, listed, items⟩ := listCommand_given rendering spells.single_plain parsed
        exact ⟨listing, listed, items.trans (targetItems_single n)⟩
    | range start stop =>
        obtain ⟨plain, within⟩ := inside start stop spells
        obtain ⟨listing, listed, items⟩ := listCommand_given rendering plain parsed
        exact ⟨listing, listed, items.trans ((targetItems_range_iff spells.ordered).mpr within)⟩
    | latest limit => cases spells

def oneEntry : Db :=
  (reached sampleSha3 (.reliable fun _ => .none)
    [.insertWithHash 1000 .byRowid "text/plain".toList ⟨sampleText, sampleText_fits⟩ 256]).1.db

def listOneEntry (s : Str) : Except Str Listing :=
  listCommand .byRowid 256 ["y4p".toList, "list".toList, s] oneEntry

theorem lax_sample : Lax "1-2-3".toList := by
  have index : ∀ {text : Str} {n : Nat}, parseIndex (trim text) = some n → Readable text :=
    fun read => .inr ⟨_, parseIndex_iff.mp read⟩
  exact @Lax.range _ ['1'] ['2'] ['-', '3'] ⟨rfl, by decide, by decide, .inr rfl⟩
    (@index _ 1 (by decide)) (@index _ 2 (by decide)) (by decide) (.inl (by decide))

/-- `1-2-3` is read, `9-12` shows the only entry there is, and `-5` is taken for an option. -/
theorem rangeExact_counterexample :
    parseRange (some "1-2-3".toList) 25 = .ok (.range 1 2) ∧
      parseRange (some "5--3".toList) 25 = .ok (.range 5 30) ∧
      parseRange (some "+5".toList) 25 = .ok (.single 5) ∧
      (listOneEntry "9-12".toList).toOption.map (fun listing => listing.items.map Prod.fst) = some [0] ∧
      (listOneEntry "-5".toList).toOption.isNone = true ∧
      ¬ ∀ tie maxHistory db s, RangeExact tie maxHistory db s := by
  refine ⟨rfl, rfl, rfl, by decide +kernel, by decide +kernel, fun claimed => ?_⟩
  have strict := (claimed .byRowid 256 oneEntry "1-2-3".toList).strict
  exact (parseRange_strict_iff _).mp strict lax_sample

end Y4p
