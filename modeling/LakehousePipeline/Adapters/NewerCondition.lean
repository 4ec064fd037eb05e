import LakehousePipeline.Adapters.Upsert
import LakehousePipeline.Library.JoinedText
import LakehousePipeline.Library.SqlCondition
import LakehousePipeline.Library.Window

/-!
# `_lexicographic_newer_condition`

The guard of a merge against older rows is generated as text, over columns that may be null. Here
is the text token by token, what SQL reads in it (`read_lexicographicNewerCondition`) and what that
comes to on a source row and a target row (`newerThan_eq`): it is never null, and it is the strict
order of the rows by their sequence columns, null lowest.

The values of all columns are in one linear order. Only values of one column are ever compared, so
columns of several types are covered by their sum. Column names are taken to have no backtick.

## Three steps

1. *The text.* `lexicographicNewerCondition` builds the tokens as the source builds its string, with
   `equal_prefix` growing along the loop. `clausesFrom_eq` solves the recursion: one clause for each
   column and the columns before it.
2. *The reading.* SQL reads a text by precedence, so a clause of several conditions joined by `AND`
   is read as one operand of `OR` only because the source puts it in parentheses
   (`reads_clauseTokens`).
3. *The truth.* A clause compares null-safely before it asks which is greater, so none of its parts
   is null where it matters (`says_clauseCondition`). The disjunction holds if the columns have a
   first difference and the source row is greater there, which is the lexicographic order of the
   sort keys (`firstDifferenceGreater_iff`).
-/

namespace LakehousePipeline

open SqlCondition ThreeValued

/-! ### The text -/

/-- A column in a merge. -/
inductive MergeColumn
  | source (name : Text)
  | target (name : Text)
  deriving DecidableEq

/-- The tokens of a merge condition. -/
abbrev MergeToken := Token MergeColumn

/-- `greater`. -/
def greaterTokens (name : Text) : List MergeToken :=
  [.leftParen, .predicate (.isNotNull (.source name)), .connective .and, .leftParen,
    .predicate (.isNull (.target name)), .connective .or,
    .predicate (.greater (.source name) (.target name)), .rightParen, .rightParen]

/-- What is added to `equal_prefix`. -/
def equalTokens (name : Text) : List MergeToken :=
  [.predicate (.nullSafeEqual (.source name) (.target name))]

/-- What is added to `clauses`, under the given `equal_prefix`. -/
def clauseTokens (equal : List (List MergeToken)) (name : Text) : List MergeToken :=
  let joined := [.connective .and].intercalate equal
  if joined.isEmpty then greaterTokens name
  else .leftParen :: (joined ++ [.connective .and] ++ greaterTokens name) ++ [.rightParen]

/-- The loop over the columns, under the given `equal_prefix`. -/
def clausesFrom : List (List MergeToken) → List Text → List (List MergeToken)
  | _, [] => []
  | equal, name :: names =>
    clauseTokens equal name :: clausesFrom (equal ++ [equalTokens name]) names

/-- `_lexicographic_newer_condition`. -/
def lexicographicNewerCondition (sequenceColumns : List Text) : Option (List MergeToken) :=
  if sequenceColumns.isEmpty then none
  else some ([.connective .or].intercalate ((clausesFrom [] sequenceColumns).map fun clause ↦
    .leftParen :: clause ++ [.rightParen]))

/-- The text of a column. -/
def MergeColumn.text : MergeColumn → Text
  | .source name => "source.`".toList ++ name ++ "`".toList
  | .target name => "target.`".toList ++ name ++ "`".toList

/-- The text of a token, with the blanks around it. -/
def tokenText : MergeToken → Text
  | .predicate (.isNull column) => column.text ++ " IS NULL".toList
  | .predicate (.isNotNull column) => column.text ++ " IS NOT NULL".toList
  | .predicate (.greater left right) => left.text ++ " > ".toList ++ right.text
  | .predicate (.nullSafeEqual left right) => left.text ++ " <=> ".toList ++ right.text
  | .connective .and => " AND ".toList
  | .connective .or => " OR ".toList
  | .leftParen => "(".toList
  | .rightParen => ")".toList

example : (lexicographicNewerCondition [['a'], ['b']]).map (List.flatMap tokenText) =
    some ("((source.`a` IS NOT NULL AND (target.`a` IS NULL OR source.`a` > target.`a`)))".toList ++
      " OR ((source.`a` <=> target.`a` AND ".toList ++
      "(source.`b` IS NOT NULL AND (target.`b` IS NULL OR source.`b` > target.`b`))))".toList) := by
  decide +kernel

/-! ### What SQL reads -/

/-- The condition of `greater`. -/
def greaterCondition (name : Text) : Condition MergeColumn :=
  .join .and (.predicate (.isNotNull (.source name)))
    (.join .or (.predicate (.isNull (.target name)))
      (.predicate (.greater (.source name) (.target name))))

/-- The condition of an entry of `equal_prefix`. -/
def equalCondition (name : Text) : Condition MergeColumn :=
  .predicate (.nullSafeEqual (.source name) (.target name))

/-- The condition of a clause: the columns before it are equal and it is greater. -/
def clauseCondition : List Text → Text → Condition MergeColumn
  | [], name => greaterCondition name
  | first :: equal, name =>
    (equal.map equalCondition ++ [greaterCondition name]).foldl (.join .and) (equalCondition first)

/-- SQL reads the equality of a column. -/
theorem reads_equalTokens (name : Text) : Reads (equalTokens name) (equalCondition name) :=
  reads_predicate _

/-- SQL reads the comparison of a column. -/
theorem reads_greaterTokens (name : Text) : Reads (greaterTokens name) (greaterCondition name) := by
  have hor : Reads _ (.join .or (.predicate (.isNull (MergeColumn.target name)))
      (.predicate (.greater (MergeColumn.source name) (MergeColumn.target name)))) :=
    Reads.joined .or (.cons (reads_predicate _) .nil) (reads_predicate _)
  exact Reads.joined .and (.cons hor .nil) (reads_predicate _)

/-- **A clause is one operand.** -/
theorem reads_clauseTokens (before : List Text) (name : Text) :
    Reads (clauseTokens (before.map equalTokens) name) (clauseCondition before name) := by
  cases before with
  | nil => exact reads_greaterTokens name
  | cons first equal =>
    have hne : (([.connective .and].intercalate ((first :: equal).map equalTokens) :
        List MergeToken)).isEmpty = false := by
      cases equal <;> rfl
    have happend : [.connective .and].intercalate
        ((first :: equal).map equalTokens ++ [greaterTokens name]) = _ :=
      JoinedText.intercalate_append (by simp) (by simp)
    rw [List.intercalate_singleton] at happend
    rw [clauseTokens, hne, if_neg Bool.false_ne_true, ← happend]
    refine Reads.joined .and ?_ (reads_equalTokens first)
    refine List.rel_append ?_ (.cons (reads_greaterTokens name) .nil)
    rw [List.forall₂_map_left_iff, List.forall₂_map_right_iff, List.forall₂_same]
    exact fun name _ ↦ reads_equalTokens name

/-- The columns, each with those before it. -/
def columnSplits (names : List Text) : List (List Text × Text) :=
  Window.overRows (fun before name _ ↦ (before, name)) names

/-- The loop makes one clause of each column and those before it. -/
theorem clausesFrom_eq (names : List Text) :
    clausesFrom [] names =
      (columnSplits names).map fun split ↦ clauseTokens (split.1.map equalTokens) split.2 := by
  have hfrom : ∀ names before, clausesFrom (before.map equalTokens) names =
      Window.overFrom (fun before name _ ↦ clauseTokens (before.map equalTokens) name)
        before names := by
    intro names
    induction names with
    | nil => exact fun _ ↦ rfl
    | cons name names ih =>
      intro before
      rw [clausesFrom, Window.overFrom_cons, ← ih, List.map_append, List.map_singleton]
  rw [columnSplits, Window.overRows, Window.map_overFrom]
  exact hfrom names []

/-- **SQL reads the clauses**, joined by `OR`. -/
theorem read_lexicographicNewerCondition (first : Text) (names : List Text) :
    ∃ tokens split splits, columnSplits (first :: names) = split :: splits ∧
      lexicographicNewerCondition (first :: names) = some tokens ∧
      read tokens = some ((splits.map fun split ↦ clauseCondition split.1 split.2).foldl
        (.join .or) (clauseCondition split.1 split.2)) := by
  obtain ⟨split, splits, hsplits⟩ :
      ∃ split splits, columnSplits (first :: names) = split :: splits := ⟨_, _, rfl⟩
  refine ⟨_, split, splits, hsplits, rfl, ?_⟩
  rw [clausesFrom_eq, hsplits, List.map_map, List.map_cons]
  refine read_joined .or ?_ (reads_clauseTokens split.1 split.2).group
  rw [List.forall₂_map_left_iff, List.forall₂_map_right_iff, List.forall₂_same]
  exact fun split _ ↦ (reads_clauseTokens split.1 split.2).group

/-! ### What it comes to -/

section Order

variable {V : Type} [LinearOrder V]

/-- The values of the columns of a pair of rows. -/
def mergeValues (source target : Text → Option V) : MergeColumn → Option V
  | .source name => source name
  | .target name => target name

/-- The truth of the predicate for a source row and a target row; `none` if there is no predicate,
or if it is no condition. -/
def newerThan (sequenceColumns : List Text) (source target : Text → Option V) : Option Truth :=
  ((lexicographicNewerCondition sequenceColumns).bind read).map fun c ↦
    c.eval (mergeValues source target)

/-- The predicate says that the source row is newer. -/
def SaysNewer (sequenceColumns : List Text) (source target : Text → Option V) : Prop :=
  newerThan sequenceColumns source target = some (some true)

/-- In the first column in which the rows differ, the source row is greater; null is lowest. -/
def FirstDifferenceGreater (names : List Text) (source target : Text → Option V) : Prop :=
  ∃ before name after, names = before ++ name :: after ∧
    (∀ column ∈ before, source column = target column) ∧
    descNullsLast (target name) < descNullsLast (source name)

variable (source target : Text → Option V)

/-- A column is greater where null is lowest. -/
theorem says_greaterCondition (name : Text) :
    (greaterCondition name).Says (mergeValues source target)
      (descNullsLast (target name) < descNullsLast (source name)) := by
  have heval : (greaterCondition name).eval (mergeValues source target) =
      Truth.and (some (source name).isSome) (Truth.or (some (target name).isNone)
        (Option.map₂ (fun x y ↦ decide (y < x)) (source name) (target name))) := rfl
  rw [Condition.Says, heval]
  cases source name with
  | none => exact ⟨false, rfl, iff_of_false Bool.false_ne_true not_lt_bot⟩
  | some s =>
    cases target name with
    | none => exact ⟨true, rfl, iff_of_true rfl (WithBot.bot_lt_coe s)⟩
    | some t =>
      refine ⟨decide (t < s), ?_, decide_eq_true_iff.trans WithBot.coe_lt_coe.symm⟩
      show Truth.and (some true) (Truth.or (some false) (some (decide (t < s)))) = _
      cases decide (t < s) <;> rfl

/-- The null-safe equality is equality. -/
theorem says_equalCondition (name : Text) :
    (equalCondition name).Says (mergeValues source target) (source name = target name) :=
  ⟨_, rfl, decide_eq_true_iff⟩

/-- **No clause is null.** -/
theorem says_clauseCondition (before : List Text) (name : Text) :
    (clauseCondition before name).Says (mergeValues source target)
      ((∀ column ∈ before, source column = target column) ∧
        descNullsLast (target name) < descNullsLast (source name)) := by
  cases before with
  | nil => exact (says_greaterCondition source target name).congr (by simp)
  | cons first equal =>
    have hequal := (says_equalCondition source target first).all
      fun column (_ : column ∈ equal) ↦ says_equalCondition source target column
    rw [clauseCondition, List.foldl_append]
    refine (hequal.and (says_greaterCondition source target name)).congr ?_
    rw [List.forall_mem_cons]

/-- A split is a column with those before it. -/
theorem mem_columnSplits {names : List Text} {split : List Text × Text} :
    split ∈ columnSplits names ↔ ∃ after, names = split.1 ++ split.2 :: after := by
  rw [columnSplits, Window.mem_overRows]
  constructor
  · rintro ⟨before, name, after, rfl, rfl⟩
    exact ⟨after, rfl⟩
  · rintro ⟨after, rfl⟩
    exact ⟨split.1, split.2, after, rfl, rfl⟩

/-- **The predicate is never null, and looks at the first difference.** -/
theorem newerThan_eq {names : List Text} (hne : names ≠ []) :
    ∃ b, newerThan names source target = some (some b) ∧
      (b = true ↔ FirstDifferenceGreater names source target) := by
  obtain ⟨first, rest, rfl⟩ := List.exists_cons_of_ne_nil hne
  obtain ⟨tokens, split, splits, hsplits, htokens, hread⟩ :=
    read_lexicographicNewerCondition first rest
  have hsays := (says_clauseCondition source target split.1 split.2).any
    fun split (_ : split ∈ splits) ↦ says_clauseCondition source target split.1 split.2
  obtain ⟨b, hb, hiff⟩ := hsays
  refine ⟨b, ?_, hiff.trans ?_⟩
  · rw [newerThan, htokens, Option.bind_some, hread, Option.map_some, hb]
  · refine (List.exists_mem_cons_iff (fun split : List Text × Text ↦
      (∀ column ∈ split.1, source column = target column) ∧
        descNullsLast (target split.2) < descNullsLast (source split.2)) split splits).symm.trans ?_
    rw [← hsplits]
    constructor
    · rintro ⟨split, hsplit, hequal, hgreater⟩
      obtain ⟨after, hnames⟩ := mem_columnSplits.1 hsplit
      exact ⟨split.1, split.2, after, hnames, hequal, hgreater⟩
    · rintro ⟨before, name, after, hnames, hequal, hgreater⟩
      exact ⟨(before, name), mem_columnSplits.2 ⟨after, hnames⟩, hequal, hgreater⟩

variable {source target}

/-- The predicate holds if the first difference is in favour of the source row. -/
theorem saysNewer_iff {names : List Text} (hne : names ≠ []) :
    SaysNewer names source target ↔ FirstDifferenceGreater names source target := by
  obtain ⟨b, hb, hiff⟩ := newerThan_eq source target hne
  rw [SaysNewer, hb, Option.some_inj, Option.some_inj, hiff]

/-! ### The strict order -/

/-- The values of the sequence columns as a sort key, null lowest in each column. -/
def sortKey (names : List Text) (row : Text → Option V) : List (WithBot V) :=
  names.map fun name ↦ descNullsLast (row name)

/-- The first difference decides between the sort keys. -/
theorem firstDifferenceGreater_iff {names : List Text} :
    FirstDifferenceGreater names source target ↔ sortKey names target < sortKey names source := by
  induction names with
  | nil =>
    refine iff_of_false ?_ (List.not_lt_nil _)
    rintro ⟨before, name, after, hnames, -⟩
    exact List.append_ne_nil_of_right_ne_nil before (List.cons_ne_nil name after) hnames.symm
  | cons first rest ih =>
    have hcons : sortKey (first :: rest) target < sortKey (first :: rest) source ↔
        descNullsLast (target first) < descNullsLast (source first) ∨
          descNullsLast (target first) = descNullsLast (source first) ∧
            sortKey rest target < sortKey rest source := List.cons_lt_cons_iff
    rw [hcons, ← ih]
    constructor
    · rintro ⟨before, name, after, hnames, hequal, hgreater⟩
      cases before with
      | nil =>
        obtain ⟨rfl, -⟩ := List.cons.inj hnames
        exact Or.inl hgreater
      | cons column before =>
        obtain ⟨rfl, rfl⟩ := List.cons.inj hnames
        rw [List.forall_mem_cons] at hequal
        exact Or.inr ⟨hequal.1.symm, before, name, after, rfl, hequal.2, hgreater⟩
    · rintro (hgreater | ⟨hfirst, before, name, after, rfl, hequal, hgreater⟩)
      · exact ⟨[], first, rest, rfl, by simp, hgreater⟩
      · refine ⟨first :: before, name, after, rfl, ?_, hgreater⟩
        exact List.forall_mem_cons.2 ⟨hfirst.symm, hequal⟩

omit [LinearOrder V] in
/-- Sort keys are equal if all columns are. -/
theorem sortKey_eq_iff {names : List Text} :
    sortKey names source = sortKey names target ↔ ∀ name ∈ names, source name = target name :=
  List.map_inj_left

/-- **The predicate on rows with the sequence columns is a strict order**, total up to equality. -/
structure NewerOrder (V : Type) [LinearOrder V] (names : List Text) : Prop where
  /-- The predicate is never null. -/
  neverNull : ∀ source target : Text → Option V, ∃ b, newerThan names source target = some (some b)
  /-- It compares column by column, null lowest. -/
  byColumn : ∀ source target : Text → Option V,
    SaysNewer names source target ↔ FirstDifferenceGreater names source target
  /-- No row is newer than itself. -/
  irrefl : ∀ row : Text → Option V, ¬SaysNewer names row row
  trans : ∀ a b c : Text → Option V, SaysNewer names a b → SaysNewer names b c →
    SaysNewer names a c
  /-- Of two rows one is newer, unless they agree in the sequence columns. -/
  total : ∀ a b : Text → Option V, SaysNewer names a b ∨ SaysNewer names b a ∨
    ∀ name ∈ names, a name = b name

/-- Every list of sequence columns gives a strict order. -/
theorem newerOrder (V : Type) [LinearOrder V] {names : List Text} (hne : names ≠ []) :
    NewerOrder V names := by
  have hiff : ∀ a b : Text → Option V, SaysNewer names a b ↔ sortKey names b < sortKey names a :=
    fun a b ↦ (saysNewer_iff hne).trans firstDifferenceGreater_iff
  refine
    { neverNull := fun a b ↦ ?_
      byColumn := fun a b ↦ saysNewer_iff hne
      irrefl := fun a h ↦ lt_irrefl _ ((hiff a a).1 h)
      trans := fun a b c hab hbc ↦ (hiff a c).2 (((hiff b c).1 hbc).trans ((hiff a b).1 hab))
      total := fun a b ↦ ?_ }
  · obtain ⟨truth, htruth, -⟩ := newerThan_eq a b hne
    exact ⟨truth, htruth⟩
  · rw [hiff, hiff, ← sortKey_eq_iff]
    rcases lt_trichotomy (sortKey names a) (sortKey names b) with hlt | heq | hgt
    · exact Or.inr (Or.inl hlt)
    · exact Or.inr (Or.inr heq)
    · exact Or.inl hgt

end Order

/-- The guard of the merge model is the predicate. -/
theorem saysNewer_iff_lexicographicNewer {names : List Text} (hne : names ≠ [])
    {source target : Text → Option ℤ} : SaysNewer names source target ↔
      lexicographicNewer (names.map source) (names.map target) = true := by
  rw [saysNewer_iff hne, firstDifferenceGreater_iff, lexicographicNewer_iff (by simp)]
  simp only [sortKey, sequenceKey, List.map_map]
  rfl

end LakehousePipeline
