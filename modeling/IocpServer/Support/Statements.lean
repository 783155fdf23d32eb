import Mathlib.Data.List.Perm.Subperm
import Mathlib.Logic.Function.Basic
import Mathlib.Tactic.Common

/-!
# Support — Statements

Prepared statements: a database library in the manner of SQLite, with the calls `prepare`,
`bind_text`, `step`, `column_int64` and `finalize`, each of which may fail.  A call on a statement
that is not there, because it has not been prepared or has been finalized, has no result; nor has the
load of a column without a row.

`Meaning τ ρ` says what queries mean: the rows of type `ρ` that a query selects from contents of type
`τ`, and what becomes of the contents.  `Documented` is what the library promises then, whichever
calls fail; `Reliable`, that none fails without need.  Statements may be under way side by side: of
the rows behind the first one no more is promised than that they are there, once each, when they are
returned.

* `Statement.start`, `bind`, `fetch`, `finish`: a statement from its preparation on.
* `Memory`: for any meaning of the queries there is a library that keeps the promises.
-/

namespace IocpServer.Statements

def SQLITE_OK : Int := 0
def SQLITE_ROW : Int := 100
def SQLITE_DONE : Int := 101

/-- The library: `prepare` returns a result code and a statement. -/
structure Library (σ : Type) where
  prepare : σ → String → Int × Nat × σ
  bindText : σ → Nat → Nat → List UInt8 → Option (Int × σ)
  step : σ → Nat → Option (Int × σ)
  columnInt64 : σ → Nat → Nat → Option Int
  finalize : σ → Nat → Option σ

/-- The parameters of a query, by their index. -/
abbrev Params := Nat → Option (List UInt8)

/-- What these queries mean: in which contents one can be prepared, what it selects, and what it
leaves, unless it must fail. -/
structure Meaning (τ ρ : Type) where
  queries : List String
  prepares : τ → String → Prop
  rows : τ → String → Params → List ρ
  effect : τ → String → Params → Option τ
  column : ρ → Nat → Int

/-- A prepared statement: the rows it has returned, and whether it has ended. -/
structure Statement (ρ : Type) where
  query : String
  params : Params
  fetched : List ρ
  ended : Bool

namespace Statement

variable {ρ : Type}

def start (query : String) : Statement ρ := ⟨query, fun _ => none, [], false⟩

def bind (st : Statement ρ) (index : Nat) (value : List UInt8) : Statement ρ :=
  { st with params := Function.update st.params index (some value) }

/-- It is at a row. -/
def fetch (st : Statement ρ) (row : ρ) : Statement ρ := { st with fetched := st.fetched ++ [row] }

/-- It has completed or failed. -/
def finish (st : Statement ρ) : Statement ρ := { st with ended := true }

end Statement

variable {σ τ ρ : Type}

/-- **What the library promises**, where `table` is what the database contains and `stmts` are the
statements that have been prepared and not finalized. -/
structure Documented (m : Meaning τ ρ) (db : Library σ) (table : σ → τ)
    (stmts : σ → Nat → Option (Statement ρ)) : Prop where
  prepare : ∀ {s s' : σ} {query : String} {stmt : Nat}, query ∈ m.queries →
    db.prepare s query = (SQLITE_OK, stmt, s') → stmts s stmt = none ∧
      stmts s' = Function.update (stmts s) stmt (some (.start query)) ∧ table s' = table s
  prepare_error : ∀ {s s' : σ} {query : String} {result : Int} {stmt : Nat},
    db.prepare s query = (result, stmt, s') → result ≠ SQLITE_OK → stmts s' = stmts s ∧
      table s' = table s
  bindText : ∀ {s : σ} {stmt : Nat} {st : Statement ρ} (index : Nat) (value : List UInt8),
    stmts s stmt = some st → ∃ result s', db.bindText s stmt index value = some (result, s') ∧
      stmts s' = Function.update (stmts s) stmt
        (some (if result = SQLITE_OK then st.bind index value else st)) ∧ table s' = table s
  step : ∀ {s : σ} {stmt : Nat} {st : Statement ρ}, stmts s stmt = some st → st.ended = false →
    ∃ result s', db.step s stmt = some (result, s') ∧
      ((result = SQLITE_ROW ∧ table s' = table s ∧
        ∃ row, (st.fetched ++ [row]).Subperm (m.rows (table s) st.query st.params) ∧
          stmts s' = Function.update (stmts s) stmt (some (st.fetch row))) ∨
      (result = SQLITE_DONE ∧ (st.fetched = [] → m.rows (table s) st.query st.params = []) ∧
        m.effect (table s) st.query st.params = some (table s') ∧
        stmts s' = Function.update (stmts s) stmt (some st.finish)) ∨
      (result ≠ SQLITE_ROW ∧ result ≠ SQLITE_DONE ∧ table s' = table s ∧
        stmts s' = Function.update (stmts s) stmt (some st.finish)))
  columnInt64 : ∀ {s : σ} {stmt : Nat} {st : Statement ρ} {before : List ρ} {row : ρ} (column : Nat),
    stmts s stmt = some st → st.ended = false → st.fetched = before ++ [row] →
      db.columnInt64 s stmt column = some (m.column row column)
  finalize : ∀ {s : σ} {stmt : Nat} {st : Statement ρ}, stmts s stmt = some st →
    ∃ s', db.finalize s stmt = some s' ∧ stmts s' = Function.update (stmts s) stmt none ∧
      table s' = table s

/-- **Nothing fails** but what must. -/
structure Reliable (m : Meaning τ ρ) (db : Library σ) (table : σ → τ)
    (stmts : σ → Nat → Option (Statement ρ)) : Prop extends Documented m db table stmts where
  prepares : ∀ s, ∀ query ∈ m.queries, m.prepares (table s) query →
    (db.prepare s query).1 = SQLITE_OK
  binds : ∀ {s s' : σ} {stmt index : Nat} {value : List UInt8} {st : Statement ρ} {result : Int},
    stmts s stmt = some st → db.bindText s stmt index value = some (result, s') → result = SQLITE_OK
  fetches : ∀ {s s' : σ} {stmt : Nat} {st : Statement ρ} {result : Int}, stmts s stmt = some st →
    st.ended = false → db.step s stmt = some (result, s') → st.fetched = [] →
      m.rows (table s) st.query st.params ≠ [] → result = SQLITE_ROW
  completes : ∀ {s s' : σ} {stmt : Nat} {st : Statement ρ} {result : Int} {t : τ},
    stmts s stmt = some st → st.ended = false → db.step s stmt = some (result, s') → st.fetched = [] →
      m.rows (table s) st.query st.params = [] →
        m.effect (table s) st.query st.params = some t → result = SQLITE_DONE

/-! ### A library in memory -/

def SQLITE_ERROR : Int := 1

/-- The contents, and the statements prepared so far. -/
structure Memory (τ ρ : Type) where
  table : τ
  stmts : List (Option (Statement ρ))

namespace Memory

variable {τ ρ : Type}

/-- The statement, unless it has been finalized. -/
def find (s : Memory τ ρ) (stmt : Nat) : Option (Statement ρ) := s.stmts[stmt]?.join

def put (s : Memory τ ρ) (stmt : Nat) (st : Option (Statement ρ)) : Memory τ ρ :=
  { s with stmts := s.stmts.set stmt st }

/-- A statement returns one row at most. -/
def row (m : Meaning τ ρ) (s : Memory τ ρ) (st : Statement ρ) : Option ρ :=
  if st.fetched.isEmpty then (m.rows s.table st.query st.params).head? else none

/-- One step of a statement. -/
def advance (m : Meaning τ ρ) (s : Memory τ ρ) (stmt : Nat) (st : Statement ρ) : Int × Memory τ ρ :=
  match row m s st, m.effect s.table st.query st.params with
  | some row, _ => (SQLITE_ROW, s.put stmt (some (st.fetch row)))
  | none, some table => (SQLITE_DONE, { s.put stmt (some st.finish) with table })
  | none, none => (SQLITE_ERROR, s.put stmt (some st.finish))

/-- The library. -/
def library (m : Meaning τ ρ) [∀ t query, Decidable (m.prepares t query)] : Library (Memory τ ρ) where
  prepare s query :=
    if m.prepares s.table query then
      (SQLITE_OK, s.stmts.length, { s with stmts := s.stmts ++ [some (.start query)] })
    else (SQLITE_ERROR, 0, s)
  bindText s stmt index value :=
    (s.find stmt).map fun st => (SQLITE_OK, s.put stmt (some (st.bind index value)))
  step s stmt := (s.find stmt).map (advance m s stmt)
  columnInt64 s stmt column :=
    (s.find stmt).bind fun st => st.fetched.getLast?.map fun row => m.column row column
  finalize s stmt := (s.find stmt).map fun _ => s.put stmt none

theorem find_put {s : Memory τ ρ} {stmt : Nat} {st : Statement ρ} (h : s.find stmt = some st)
    (st' : Option (Statement ρ)) : (s.put stmt st').find = Function.update s.find stmt st' := by
  have hlt : stmt < s.stmts.length := by
    by_contra hge
    rw [find, List.getElem?_eq_none (Nat.le_of_not_lt hge)] at h
    cases h
  funext k
  by_cases e : k = stmt
  · subst e
    rw [Function.update_self, find, put, List.getElem?_set_self hlt]
    rfl
  · rw [Function.update_of_ne e, find, put, List.getElem?_set_ne (Ne.symm e)]
    rfl

theorem find_fresh (s : Memory τ ρ) : s.find s.stmts.length = none := by
  rw [find, List.getElem?_eq_none (Nat.le_refl _)]
  rfl

theorem find_append (s : Memory τ ρ) (st : Option (Statement ρ)) :
    Memory.find { s with stmts := s.stmts ++ [st] } = Function.update s.find s.stmts.length st := by
  funext k
  rcases Nat.lt_trichotomy k s.stmts.length with hlt | rfl | hgt
  · rw [Function.update_of_ne (Nat.ne_of_lt hlt), find, List.getElem?_append_left hlt]
    rfl
  · rw [Function.update_self, find, List.getElem?_concat_length]
    rfl
  · rw [Function.update_of_ne (Nat.ne_of_gt hgt), find, find, List.getElem?_eq_none (Nat.le_of_lt hgt),
      List.getElem?_eq_none (by rw [List.length_append]; exact hgt)]

/-- There is a row where the query selects one and none has been returned. -/
theorem row_eq_none {m : Meaning τ ρ} {s : Memory τ ρ} {st : Statement ρ} (h : row m s st = none)
    (hf : st.fetched = []) : m.rows s.table st.query st.params = [] := by
  simpa only [row, hf, List.isEmpty_nil, if_true, List.head?_eq_none_iff] using h

theorem row_eq_some {m : Meaning τ ρ} {s : Memory τ ρ} {st : Statement ρ} {r : ρ}
    (h : row m s st = some r) :
    st.fetched = [] ∧ r ∈ m.rows s.table st.query st.params := by
  unfold row at h
  split at h
  · rename_i hf
    exact ⟨List.isEmpty_iff.mp hf, List.mem_of_head? h⟩
  · cases h

theorem advance_cases (m : Meaning τ ρ) (s : Memory τ ρ) (stmt : Nat) (st : Statement ρ) :
    (∃ r, row m s st = some r ∧ advance m s stmt st = (SQLITE_ROW, s.put stmt (some (st.fetch r)))) ∨
    (row m s st = none ∧ ∃ table, m.effect s.table st.query st.params = some table ∧
      advance m s stmt st = (SQLITE_DONE, { s.put stmt (some st.finish) with table })) ∨
    (row m s st = none ∧ m.effect s.table st.query st.params = none ∧
      advance m s stmt st = (SQLITE_ERROR, s.put stmt (some st.finish))) := by
  cases hr : row m s st with
  | some r => exact .inl ⟨r, rfl, by simp only [advance, hr]⟩
  | none =>
    cases he : m.effect s.table st.query st.params with
    | some table => exact .inr (.inl ⟨rfl, table, rfl, by simp only [advance, hr, he]⟩)
    | none => exact .inr (.inr ⟨rfl, rfl, by simp only [advance, hr, he]⟩)

variable (m : Meaning τ ρ) [∀ t query, Decidable (m.prepares t query)]

theorem library_step {s : Memory τ ρ} {stmt : Nat} {st : Statement ρ} (h : s.find stmt = some st) :
    (library m).step s stmt = some (advance m s stmt st) := by
  simp only [library, h, Option.map_some]

/-- **It keeps the promises**, and nothing fails. -/
theorem reliable : Reliable m (library m) Memory.table Memory.find where
  prepare {s s' query stmt} _ h := by
    simp only [library] at h
    split_ifs at h
    · cases h
      exact ⟨s.find_fresh, s.find_append _, rfl⟩
    · cases h
  prepare_error {s s' query result stmt} h hresult := by
    simp only [library] at h
    split_ifs at h
    · cases h
      exact absurd rfl hresult
    · cases h
      exact ⟨rfl, rfl⟩
  bindText {s stmt st} index value h := by
    refine ⟨SQLITE_OK, s.put stmt (some (st.bind index value)), by simp only [library, h, Option.map_some],
      ?_, rfl⟩
    rw [find_put h, if_pos rfl]
  step {s stmt st} h _ := by
    rcases advance_cases m s stmt st with ⟨r, hr, ha⟩ | ⟨hr, table, he, ha⟩ | ⟨hr, -, ha⟩
    · obtain ⟨hf, hmem⟩ := row_eq_some hr
      refine ⟨SQLITE_ROW, _, (library_step m h).trans (congrArg some ha),
        .inl ⟨rfl, rfl, r, ?_, find_put h _⟩⟩
      rw [hf]
      exact List.singleton_subperm_iff.mpr hmem
    · exact ⟨SQLITE_DONE, _, (library_step m h).trans (congrArg some ha),
        .inr (.inl ⟨rfl, row_eq_none hr, he, find_put h _⟩)⟩
    · exact ⟨SQLITE_ERROR, _, (library_step m h).trans (congrArg some ha),
        .inr (.inr ⟨by decide, by decide, rfl, find_put h _⟩)⟩
  columnInt64 column h _ hf := by
    simp only [library, h, hf, Option.bind_some, List.getLast?_concat, Option.map_some]
  finalize {s stmt st} h :=
    ⟨s.put stmt none, by simp only [library, h, Option.map_some], find_put h none, rfl⟩
  prepares s query _ h := by
    simp only [library, if_pos h]
  binds h hb := by
    simp only [library, h, Option.map_some, Option.some.injEq] at hb
    cases hb
    rfl
  fetches {s s' stmt st result} h _ hs hf hrows := by
    rw [library_step m h] at hs
    rcases advance_cases m s stmt st with ⟨r, -, ha⟩ | ⟨hr, -⟩ | ⟨hr, -⟩
    · rw [ha] at hs
      cases hs
      rfl
    · exact absurd (row_eq_none hr hf) hrows
    · exact absurd (row_eq_none hr hf) hrows
  completes {s s' stmt st result t} h _ hs hf hrows he := by
    rw [library_step m h] at hs
    rcases advance_cases m s stmt st with ⟨r, hr, -⟩ | ⟨-, table, -, ha⟩ | ⟨-, hn, -⟩
    · exact absurd (row_eq_some hr).2 (hrows ▸ List.not_mem_nil)
    · rw [ha] at hs
      cases hs
      rfl
    · cases hn.symm.trans he

end Memory

end IocpServer.Statements
