import Y4p.Core.FastCdc
import Y4p.Core.Mimes
import Y4p.Core.StrIndex
import Y4p.Lib.Wildcard
import Y4p.Storage.Listing
import Y4p.Storage.RoundTrip
import Y4p.Storage.Survival

/-!
Search (`search_metadata` and `validate_keywords` of `crates/storage/src/db.rs`):
which rows a keyword matches, through SQLite's LIKE, in the preview or in the
stored body, and what SQLite refuses to search for.
-/

namespace Y4p

open Programs

def nul : Char := Char.ofNat 0

-- SQLite reads what it is given to compare up to the first NUL.
def untilNul (text : Str) : Str :=
  text.takeWhile fun c => c ≠ nul

def likeToken (c : Char) : Wildcard.Token Char :=
  if c = '%' then .many else if c = '_' then .single else .item (toAsciiLowercase c)

def like (pattern text : Str) : Bool :=
  Wildcard.accepts ((untilNul pattern).map likeToken) ((untilNul text).map toAsciiLowercase)

-- `TEXT_MIME_SQL_PREDICATE`
def textMimeSqlPredicate (mime : Str) : Bool :=
  !like "image/%".toList mime &&
    (like "%text%".toList mime || like "%utf8%".toList mime || like "%json%".toList mime ||
      like "%xml%".toList mime || like "%uri-list%".toList mime || like "%string%".toList mime)

-- `group_concat` over no rows is NULL.
def groupConcat (parts : List Bytes) : Option Bytes :=
  if parts = [] then none else some parts.flatten

-- `BODY_TEXT_SQL`
def bodyText (db : Db) (row : Row) : Option Bytes :=
  if row.isChunked then groupConcat (chunkData db row.id) else row.content.bytes?

def likePattern (keyword : Str) : Str :=
  '%' :: (keyword ++ ['%'])

-- `SQLITE_MAX_LIKE_PATTERN_LENGTH`, in bytes: LIKE fails on a longer pattern, whatever the text.
def maxLikePatternBytes : Nat := 50000

def tooComplex (keyword : Str) : Bool :=
  maxLikePatternBytes < (strBytes (likePattern keyword)).length

-- The rows a statement steps to; the first error ends it.
def steppedRows (clause : Row → Option Bool) : List Row → List Row
  | [] => []
  | row :: rest =>
      match clause row with
      | none => []
      | some true => row :: steppedRows clause rest
      | some false => steppedRows clause rest

section
-- How SQLite reads stored bytes as characters, and how many keyword clauses its limit on
-- the depth of an expression (1000) leaves room for: 988 or 989, depending on its version.
variable (readText : Bytes → Str) (maxClauses : Nat)

-- `preview LIKE ? OR BODY_TEXT_SQL LIKE ?`; LIKE of NULL is not true.
def keywordMatches (db : Db) (row : Row) (keyword : Str) : Bool :=
  row.preview.any (like (likePattern keyword)) ||
    (bodyText db row).any fun bytes => like (likePattern keyword) (readText bytes)

def keywordClauses (db : Db) (row : Row) : List Str → Option Bool
  | [] => some true
  | keyword :: rest =>
      if tooComplex keyword then none
      else if keywordMatches readText db row keyword then keywordClauses db row rest
      else some false

-- The WHERE clause of `search_metadata`, none where it fails.
def whereClause (db : Db) (queries : List Str) (row : Row) : Option Bool :=
  if textMimeSqlPredicate row.mime then keywordClauses readText db row queries else some false

def searchMetadata (tie : TieOrder) (db : Db) (queries : List Str) (limit : UInt64) :
    List (Nat × MetaRow) :=
  if queries = [] ∨ maxClauses < queries.length then []
  else
    sqlLimit (asI64 limit.toNat)
      ((steppedRows (whereClause readText db queries) (fetchMetadata tie db)).map fun row =>
        (absIndex db row, row.metaRow))

def validateKeywords (db : Db) (keywords : List Str) : List Str × List Str :=
  keywords.partition fun keyword =>
    !(steppedRows (whereClause readText db [keyword]) db.clipboard).isEmpty

def isHit (db : Db) (queries : List Str) (row : Row) : Bool :=
  textMimeSqlPredicate row.mime && queries.all (keywordMatches readText db row)

structure Accepted (queries : List Str) : Prop where
  few : queries.length ≤ maxClauses
  short : ∀ keyword ∈ queries, tooComplex keyword = false

end

theorem steppedRows_filter {clause : Row → Option Bool} {hit : Row → Bool}
    (decided : ∀ row, clause row = some (hit row)) (rows : List Row) :
    steppedRows clause rows = rows.filter hit := by
  induction rows with
  | nil => rfl
  | cons row rest ih =>
      simp only [steppedRows, decided, List.filter_cons]
      cases hit row with
      | true => simp [ih]
      | false => simp [ih]

theorem steppedRows_nil {clause : Row → Option Bool} (never : ∀ row, clause row ≠ some true)
    (rows : List Row) : steppedRows clause rows = [] := by
  induction rows with
  | nil => rfl
  | cons row rest ih =>
      rw [steppedRows]
      cases decided : clause row with
      | none => rfl
      | some hit =>
          cases hit with
          | true => exact absurd decided (never row)
          | false => exact ih

section
variable {readText : Bytes → Str} {maxClauses : Nat} {db : Db} {queries : List Str}

theorem keywordClauses_short (short : ∀ keyword ∈ queries, tooComplex keyword = false) (row : Row) :
    keywordClauses readText db row queries =
      some (queries.all (keywordMatches readText db row)) := by
  induction queries with
  | nil => rfl
  | cons keyword rest ih =>
      have here := short keyword List.mem_cons_self
      have later := ih fun other listed => short other (List.mem_cons_of_mem keyword listed)
      rw [keywordClauses, here, List.all_cons]
      by_cases found : keywordMatches readText db row keyword = true
      · simp [found, later]
      · simp [found]

theorem keywordClauses_long (long : ∃ keyword ∈ queries, tooComplex keyword = true) (row : Row) :
    keywordClauses readText db row queries ≠ some true := by
  induction queries with
  | nil => simp at long
  | cons keyword rest ih =>
      intro decided
      rw [keywordClauses] at decided
      by_cases here : tooComplex keyword = true
      · simp [here] at decided
      · have later : ∃ other ∈ rest, tooComplex other = true := by
          obtain ⟨other, listed, isLong⟩ := long
          rcases List.mem_cons.mp listed with rfl | behind
          · exact absurd isLong here
          · exact ⟨other, behind, isLong⟩
        by_cases found : keywordMatches readText db row keyword = true
        · simp only [here, found, if_true, if_false, Bool.false_eq_true] at decided
          exact ih later decided
        · simp [here, found] at decided

theorem whereClause_short (short : ∀ keyword ∈ queries, tooComplex keyword = false) (row : Row) :
    whereClause readText db queries row = some (isHit readText db queries row) := by
  rw [whereClause, isHit, keywordClauses_short short]
  cases textMimeSqlPredicate row.mime with
  | true => rfl
  | false => rfl

theorem whereClause_long (long : ∃ keyword ∈ queries, tooComplex keyword = true) (row : Row) :
    whereClause readText db queries row ≠ some true := by
  rw [whereClause]
  split
  · exact keywordClauses_long long row
  · simp

theorem searchMetadata_accepted (accepted : Accepted maxClauses queries) (some : queries ≠ [])
    (tie : TieOrder) (limit : UInt64) :
    searchMetadata readText maxClauses tie db queries limit =
      sqlLimit (asI64 limit.toNat)
        (((fetchMetadata tie db).filter (isHit readText db queries)).map fun row =>
          (absIndex db row, row.metaRow)) := by
  rw [searchMetadata, if_neg (not_or.mpr ⟨some, Nat.not_lt.mpr accepted.few⟩),
    steppedRows_filter (whereClause_short accepted.short)]

theorem searchMetadata_refused (refused : ¬ Accepted maxClauses queries) (tie : TieOrder)
    (limit : UInt64) : searchMetadata readText maxClauses tie db queries limit = [] := by
  rw [searchMetadata]
  split
  · rfl
  · rename_i given
    have few : queries.length ≤ maxClauses := Nat.not_lt.mp fun many => given (.inr many)
    have long : ∃ keyword ∈ queries, tooComplex keyword = true := by
      by_contra none
      exact refused ⟨few, fun keyword listed =>
        Bool.eq_false_iff.mpr fun isLong => none ⟨keyword, listed, isLong⟩⟩
    rw [steppedRows_nil (whereClause_long long), List.map_nil, sqlLimit]
    split <;> simp

theorem mem_validateKeywords {keywords : List Str} {keyword : Str} :
    keyword ∈ (validateKeywords readText db keywords).1 ↔
      keyword ∈ keywords ∧ tooComplex keyword = false ∧
        ∃ row ∈ db.clipboard, isHit readText db [keyword] row = true := by
  rw [validateKeywords, List.partition_eq_filter_filter, List.mem_filter]
  apply and_congr_right
  intro _
  cases long : tooComplex keyword with
  | true =>
      rw [steppedRows_nil (whereClause_long ⟨keyword, List.mem_singleton_self keyword, long⟩)]
      simp
  | false =>
      have short : ∀ other ∈ [keyword], tooComplex other = false :=
        fun other listed => List.mem_singleton.mp listed ▸ long
      rw [steppedRows_filter (whereClause_short short)]
      simp

end

def Occurs (keyword text : Str) : Prop :=
  keyword.map toAsciiLowercase <:+: text.map toAsciiLowercase

instance (keyword text : Str) : Decidable (Occurs keyword text) :=
  inferInstanceAs (Decidable (_ <:+: _))

def IsLiteral (keyword : Str) : Prop :=
  '%' ∉ keyword ∧ '_' ∉ keyword ∧ nul ∉ keyword

theorem untilNul_eq {text : Str} (whole : nul ∉ text) : untilNul text = text := by
  rw [untilNul, List.takeWhile_eq_self_iff]
  intro c member
  exact decide_eq_true fun same => whole (same ▸ member)

theorem untilNul_part (text : Str) : untilNul text <:+: text :=
  (List.takeWhile_prefix _).isInfix

theorem Occurs.whole {keyword text : Str} (occurs : Occurs keyword (untilNul text)) :
    Occurs keyword text :=
  occurs.trans ((untilNul_part text).map toAsciiLowercase)

theorem likeToken_literal {word : Str} (plain : IsLiteral word) :
    word.map likeToken = Wildcard.literal (word.map toAsciiLowercase) := by
  rw [Wildcard.literal, List.map_map]
  apply List.map_congr_left
  intro c member
  have notMany : c ≠ '%' := fun same => plain.1 (same ▸ member)
  have notSingle : c ≠ '_' := fun same => plain.2.1 (same ▸ member)
  simp [likeToken, notMany, notSingle]

theorem likePattern_whole {keyword : Str} (whole : nul ∉ keyword) :
    untilNul (likePattern keyword) = likePattern keyword := by
  refine untilNul_eq ?_
  simp only [likePattern, List.mem_cons, List.mem_append, List.not_mem_nil, or_false]
  rintro (same | listed | same)
  · exact absurd same (by decide)
  · exact whole listed
  · exact absurd same (by decide)

theorem like_around {keyword : Str} (whole : nul ∉ keyword) (text : Str) :
    like (likePattern keyword) text =
      Wildcard.accepts (.many :: (keyword.map likeToken ++ [.many]))
        ((untilNul text).map toAsciiLowercase) := by
  rw [like, likePattern_whole whole]
  simp [likePattern, likeToken]

theorem like_literal {keyword : Str} (plain : IsLiteral keyword) (text : Str) :
    like (likePattern keyword) text = true ↔ Occurs keyword (untilNul text) := by
  rw [like_around plain.2.2, likeToken_literal plain, Wildcard.accepts_around_literal]
  rfl

theorem accepts_itself (keyword : Str) :
    Wildcard.accepts (keyword.map likeToken) (keyword.map toAsciiLowercase) = true := by
  induction keyword with
  | nil => rfl
  | cons c rest ih =>
      rw [List.map_cons, List.map_cons, likeToken]
      by_cases many : c = '%'
      · rw [if_pos many]
        exact Wildcard.accepts_many.mpr ⟨[toAsciiLowercase c], _, rfl, ih⟩
      · by_cases single : c = '_'
        · rw [if_neg many, if_pos single]
          exact ih
        · rw [if_neg many, if_neg single]
          simp only [Wildcard.accepts, decide_true, Bool.true_and]
          exact ih

theorem like_of_occurs {keyword text : Str} (whole : nul ∉ keyword) (wholeText : nul ∉ text)
    (occurs : Occurs keyword text) : like (likePattern keyword) text = true := by
  rw [like_around whole, untilNul_eq wholeText]
  exact Wildcard.accepts_around (accepts_itself keyword) occurs

section
variable (readText : Bytes → Str)

def HoldsKeyword (db : Db) (row : Row) (keyword : Str) : Prop :=
  (∃ text ∈ row.preview, Occurs keyword text) ∨
    ∃ bytes ∈ bodyText db row, Occurs keyword (readText bytes)

instance (db : Db) (row : Row) (keyword : Str) : Decidable (HoldsKeyword readText db row keyword) :=
  inferInstanceAs (Decidable (_ ∨ _))

-- The text rows that hold every keyword, in timestamp order.
def SearchExact (db : Db) (keywords : List Str) (results : List (Nat × MetaRow)) : Prop :=
  ∃ rows : List Row,
    rows.Perm (db.clipboard.filter fun row => textMimeSqlPredicate row.mime &&
      decide (∀ keyword ∈ keywords, HoldsKeyword readText db row keyword)) ∧
    rows.Pairwise (fun first second => second.timestamp ≤ first.timestamp) ∧
    results.map Prod.snd = rows.map Row.metaRow

def HoldsNul (db : Db) (row : Row) : Prop :=
  (∃ text ∈ row.preview, nul ∈ text) ∨ ∃ bytes ∈ bodyText db row, nul ∈ readText bytes

theorem HoldsKeyword.matches {db : Db} {row : Row} {keyword : Str}
    (holds : HoldsKeyword readText db row keyword) (whole : nul ∉ keyword)
    (wholeRow : ¬ HoldsNul readText db row) : keywordMatches readText db row keyword = true := by
  rw [keywordMatches, Bool.or_eq_true, Option.any_eq_true, Option.any_eq_true]
  rcases holds with ⟨text, shown, occurs⟩ | ⟨bytes, stored, occurs⟩
  · have wholeText : nul ∉ text := fun listed => wholeRow (.inl ⟨text, shown, listed⟩)
    exact .inl ⟨text, shown, like_of_occurs whole wholeText occurs⟩
  · have wholeText : nul ∉ readText bytes := fun listed => wholeRow (.inr ⟨bytes, stored, listed⟩)
    exact .inr ⟨bytes, stored, like_of_occurs whole wholeText occurs⟩

theorem holdsKeyword_of_matches {db : Db} {row : Row} {keyword : Str} (plain : IsLiteral keyword)
    (found : keywordMatches readText db row keyword = true) :
    HoldsKeyword readText db row keyword := by
  rw [keywordMatches, Bool.or_eq_true, Option.any_eq_true, Option.any_eq_true] at found
  rcases found with ⟨text, shown, found⟩ | ⟨bytes, stored, found⟩
  · exact .inl ⟨text, shown, ((like_literal plain text).mp found).whole⟩
  · exact .inr ⟨bytes, stored, ((like_literal plain (readText bytes)).mp found).whole⟩

-- What sets a search at odds with its keywords at a text row.
inductive Misread (maxClauses : Nat) (db : Db) (keywords : List Str) (row : Row) : Prop
  -- The row holds every keyword, but SQLite refuses the search.
  | refused (holds : ∀ keyword ∈ keywords, HoldsKeyword readText db row keyword)
      (refused : ¬ Accepted maxClauses keywords)
  -- The row holds every keyword, but LIKE stops at a NUL before it comes to this one.
  | hidden (holds : ∀ keyword ∈ keywords, HoldsKeyword readText db row keyword)
      (keyword : Str) (listed : keyword ∈ keywords) (cut : nul ∈ keyword ∨ HoldsNul readText db row)
      (unseen : keywordMatches readText db row keyword = false)
  -- LIKE finds every keyword, but this one only for its wildcards or for what its NUL cuts off.
  | lookalike (accepted : Accepted maxClauses keywords)
      (found : ∀ keyword ∈ keywords, keywordMatches readText db row keyword = true)
      (keyword : Str) (listed : keyword ∈ keywords) (special : ¬ IsLiteral keyword)
      (lacks : ¬ HoldsKeyword readText db row keyword)

variable {maxClauses : Nat} {db : Db} {keywords : List Str}

theorem not_misread_iff {row : Row} :
    ¬ Misread readText maxClauses db keywords row ↔
      (Accepted maxClauses keywords ∧
          ∀ keyword ∈ keywords, keywordMatches readText db row keyword = true) =
        ∀ keyword ∈ keywords, HoldsKeyword readText db row keyword := by
  rw [eq_iff_iff]
  constructor
  · intro clear
    constructor
    · rintro ⟨accepted, found⟩ keyword listed
      by_contra lacks
      have special : ¬ IsLiteral keyword := fun plain =>
        lacks (holdsKeyword_of_matches readText plain (found keyword listed))
      exact clear (.lookalike accepted found keyword listed special lacks)
    · intro holds
      refine ⟨by_contra fun refused => clear (.refused holds refused), fun keyword listed => ?_⟩
      by_contra unseen
      have cut : nul ∈ keyword ∨ HoldsNul readText db row := by
        by_contra whole
        rw [not_or] at whole
        exact unseen ((holds keyword listed).matches readText whole.1 whole.2)
      exact clear (.hidden holds keyword listed cut (Bool.eq_false_iff.mpr unseen))
  · intro same misread
    cases misread with
    | refused holds refused => exact refused (same.mpr holds).1
    | hidden holds keyword listed cut unseen =>
        exact absurd ((same.mpr holds).2 keyword listed) (Bool.eq_false_iff.mp unseen)
    | lookalike accepted found keyword listed special lacks =>
        exact lacks (same.mp ⟨accepted, found⟩ keyword listed)

instance (maxClauses : Nat) (queries : List Str) : Decidable (Accepted maxClauses queries) :=
  decidable_of_iff
    (queries.length ≤ maxClauses ∧ ∀ keyword ∈ queries, tooComplex keyword = false)
    ⟨fun both => ⟨both.1, both.2⟩, fun accepted => ⟨accepted.few, accepted.short⟩⟩

def isFound (maxClauses : Nat) (db : Db) (keywords : List Str) (row : Row) : Bool :=
  textMimeSqlPredicate row.mime && decide (Accepted maxClauses keywords ∧
    ∀ keyword ∈ keywords, keywordMatches readText db row keyword = true)

theorem searchMetadata_results {tie : TieOrder} {limit : UInt64} (some : keywords ≠ [])
    (enough : db.clipboard.length ≤ limit.toNat) :
    (searchMetadata readText maxClauses tie db keywords limit).map Prod.snd =
      ((fetchMetadata tie db).filter (isFound readText maxClauses db keywords)).map
        Row.metaRow := by
  by_cases accepted : Accepted maxClauses keywords
  · have same : ∀ row, isHit readText db keywords row =
        isFound readText maxClauses db keywords row := by
      intro row
      rw [isHit, isFound, Bool.eq_iff_iff]
      simp only [Bool.and_eq_true, List.all_eq_true, decide_eq_true_eq, accepted, true_and]
    have fits : ((fetchMetadata tie db).filter (isHit readText db keywords)).length ≤
        limit.toNat := by
      refine Nat.le_trans (List.length_filter_le _ _) ?_
      rw [(fetchMetadata_perm tie db).length_eq]
      exact enough
    rw [searchMetadata_accepted accepted some, sqlLimit_all (by rwa [List.length_map]),
      List.map_map, List.filter_congr fun row _ => same row]
    rfl
  · rw [searchMetadata_refused accepted, List.filter_eq_nil_iff.mpr]
    · rfl
    · intro row _
      simp [isFound, accepted]

theorem id_mem_filter {rows : List Row} {wanted : Row → Bool}
    (perm : rows.Perm (db.clipboard.filter wanted)) {row : Row} (present : row ∈ db.clipboard) :
    row.id ∈ rows.map Row.id ↔ wanted row = true := by
  rw [List.mem_map]
  constructor
  · rintro ⟨other, listed, same⟩
    obtain ⟨there, wants⟩ := List.mem_filter.mp (perm.subset listed)
    rwa [← List.inj_on_of_nodup_map db.idsUnique there present same]
  · intro wants
    exact ⟨row, perm.mem_iff.mpr (List.mem_filter.mpr ⟨present, wants⟩), rfl⟩

end

def hiDb : Db :=
  (reached sampleSha3 (.reliable fun _ => .none)
    [.insertWithHash 1000 .byRowid "text/plain".toList ⟨sampleText, sampleText_fits⟩ 256,
      .insertWithHash 2000 .byRowid "text/plain".toList ⟨[72, 105, 108, 108], by decide⟩ 256]).1.db

def Row.inlined (row : Row) (content : Value) : Row :=
  { row with content := content, isChunked := false }

theorem keywordMatches_inlined {readText : Bytes → Str} {db : Db} {row : Row} {content : Value}
    (same : bodyText db row = content.bytes?) (keyword : Str) :
    keywordMatches readText db row keyword =
      keywordMatches readText db (row.inlined content) keyword := by
  have inline : bodyText db (row.inlined content) = content.bytes? := rfl
  rw [keywordMatches, keywordMatches, same, inline]
  rfl

section
variable {sha3 : Bytes → Bytes}

theorem bodyText_chunked {pool : Set Bytes} {payload : Int → Bytes} {db : Db}
    (recorded : Recorded sha3 pool payload db) (noCollision : Set.InjOn sha3 pool) {row : Row}
    (present : row ∈ db.clipboard) (chunked : row.isChunked = true)
    (nonempty : payload row.id ≠ []) : bodyText db row = some (payload row.id) := by
  rw [bodyText, if_pos chunked,
    chunkData_eq recorded.assembled recorded.refs noCollision present chunked, groupConcat,
    if_neg (fastCdc_ne_nil nonempty), fastCdc_flatten]

end

section
variable {sha3 : Bytes → Bytes}

def ChunkedSized (db : Db) : Prop :=
  ∀ row ∈ db.clipboard, row.isChunked = true → row.size ≠ 0

theorem insertedRow_sized {db : Db} {now : Int} {mime hash : Str} {offer : Offer}
    (chunked : (insertedRow db now mime offer.body hash).isChunked = true) :
    (insertedRow db now mime offer.body hash).size ≠ 0 := by
  change (offer.body.parts mime).2.isChunked = true at chunked
  change asI64 offer.body.len ≠ 0
  cases content : (offer.body.parts mime).2 with
  | text bytes | blob bytes | none => simp [content, Content.isChunked] at chunked
  | chunked bytes =>
      have long := Body.chunked_long content
      have isBytes := Body.chunked_bytes content
      cases offer with
      | detached len => cases isBytes
      | record data =>
          have fits := data.fits
          change Body.bytes data.bytes = .bytes bytes at isBytes
          injection isBytes with same
          change asI64 data.bytes.length ≠ 0
          rw [same] at fits ⊢
          unfold asI64
          split <;> omega

theorem StoreOp.Effect.chunkedSized {op : StoreOp} {db after : Db} {result : op.Result}
    (effect : op.Effect sha3 db result after) (sized : ChunkedSized db) : ChunkedSized after := by
  intro row member chunked
  rcases effect.origin member with ⟨old, present, same⟩ | ⟨_, _, _, _, _, _, _, rfl⟩
  · rw [same.size]
    exact sized old present (same.isChunked.symm.trans chunked)
  · exact insertedRow_sized chunked

theorem Call.May.chunkedSized {call : Call} {answer : call.Answer} {world after : World}
    {fails : Call → World → IoFailure → Prop} (may : call.May sha3 fails world answer after)
    (sized : ChunkedSized world.db) : ChunkedSized after.db := by
  cases store : call.isStore with
  | false =>
      rw [may.db_eq store]
      exact sized
  | true =>
      cases call with
      | store op =>
          rcases may with ⟨faults, ran⟩ | ⟨_, _, failed⟩
          · cases ran
            exact (op.run_effect sha3 faults world.db).chunkedSized sized
          · cases failed
      | _ => cases store

theorem reached_chunkedSized (environment : Environment) (ops : List FacadeOp) :
    ChunkedSized (reached sha3 environment ops).1.db := by
  have kept : ∀ (call : Call) (world : World) (answer : call.Answer) (after : World),
      True → ChunkedSized world.db → call.May sha3 (fun _ _ _ => True) world answer after →
      True ∧ ChunkedSized after.db :=
    fun _ _ _ _ _ sized may => ⟨trivial, may.chunkedSized sized⟩
  have start : ChunkedSized World.empty.db := by
    intro row member
    cases member
  have ensures := Program.Ensures.of_issues (Program.issues_any (session sha3 ops)) kept start
  have ran : ∀ issued ∈ Program.trace (Call.step sha3 environment) (session sha3 ops)
      (World.empty, 0), issued.1.May sha3 (fun _ _ _ => True) issued.2.1
        (issued.1.step sha3 environment issued.2).1 (issued.1.step sha3 environment issued.2).2.1 :=
    fun _ _ => Call.step_may fun _ _ => trivial
  exact (Program.Ensures.of_run Prod.fst ensures ran).2

end

/-- In every state a session reaches, the body of a chunked row is the payload of the
insertion that created it, and a keyword matches it as it would inline. -/
theorem session_searchesChunks (sha3 : Bytes → Bytes) (readText : Bytes → Str)
    (ops : List FacadeOp) (sql : Nat → WriteFaults)
    (noCollision : Set.InjOn sha3 (sessionPool ops)) (row : Row)
    (present : row ∈ (reached sha3 (.reliable sql) ops).1.db.clipboard)
    (chunked : row.isChunked = true) :
    (∃ before op after, ops = before ++ op :: after ∧ Creates sha3 sql before op row.id) ∧
    ∀ before op after, ops = before ++ op :: after → Creates sha3 sql before op row.id →
      ∃ data, op.payload = some data ∧
        bodyText (reached sha3 (.reliable sql) ops).1.db row = some data.bytes ∧
        ∀ content : Value, content.bytes? = some data.bytes → ∀ keyword,
          keywordMatches readText (reached sha3 (.reliable sql) ops).1.db row keyword =
            keywordMatches readText (reached sha3 (.reliable sql) ops).1.db
              (row.inlined content) keyword := by
  refine ⟨exists_creates ⟨row, present, rfl⟩, ?_⟩
  rintro before op after rfl creates
  obtain ⟨payload, settled, brought⟩ := creates_payload noCollision creates
  obtain ⟨data, isPayload, same⟩ := Option.map_eq_some_iff.mp brought
  have nonempty : payload row.id ≠ [] := by
    intro empty
    have size := settled.recorded.sized row present
    rw [empty] at size
    exact reached_chunkedSized _ _ row present chunked size
  have body := bodyText_chunked settled.recorded noCollision present chunked nonempty
  rw [← same] at body
  refine ⟨data, isPayload, body, ?_⟩
  intro content stored keyword
  exact keywordMatches_inlined (body.trans stored.symm) keyword

theorem sampleChunksOp_chunked :
    ∃ row ∈ (reached sampleSha3 (.reliable fun _ => .none) [sampleChunksOp 1000]).1.db.clipboard,
      row.isChunked = true := by
  have stored : ((reached sampleSha3 (.reliable fun _ => .none)
      [sampleChunksOp 1000]).1.db.clipboard.any fun row => row.isChunked) = true := by
    decide +kernel
  exact List.any_eq_true.mp stored

theorem session_searchesChunks_sample :
    fastCdc sampleChunks.bytes = [sampleBlock, 7 :: sampleBlock, [1, 2, 3]] ∧
    ∃ row ∈ (reached sampleSha3 (.reliable fun _ => .none) [sampleChunksOp 1000]).1.db.clipboard,
      row.isChunked = true ∧
      (∃ before op after, [sampleChunksOp 1000] = before ++ op :: after ∧
        Creates sampleSha3 (fun _ => .none) before op row.id) ∧
      ∀ before op after, [sampleChunksOp 1000] = before ++ op :: after →
        Creates sampleSha3 (fun _ => .none) before op row.id →
        ∃ data, op.payload = some data ∧
          bodyText (reached sampleSha3 (.reliable fun _ => .none) [sampleChunksOp 1000]).1.db row =
            some data.bytes ∧
          ∀ content : Value, content.bytes? = some data.bytes → ∀ keyword,
            keywordMatches fromUtf8Lossy
                (reached sampleSha3 (.reliable fun _ => .none) [sampleChunksOp 1000]).1.db row keyword =
              keywordMatches fromUtf8Lossy
                (reached sampleSha3 (.reliable fun _ => .none) [sampleChunksOp 1000]).1.db
                (row.inlined content) keyword := by
  obtain ⟨row, present, chunked⟩ := sampleChunksOp_chunked
  exact ⟨fastCdc_blocks.2, row, present, chunked, session_searchesChunks sampleSha3 fromUtf8Lossy
    [sampleChunksOp 1000] (fun _ => .none) sampleSha3_injective.injOn row present chunked⟩

end Y4p
