import IocpServer.Support.Statements

/-!
# Server — DBManager

`Server/DBManager.hpp`, over any database library.  Each call of the library is one step of a call of
`ExecuteNonQuery` or `ExecuteQuery`, so that calls on several threads may interleave; a connection of
SQLite is serialized.  The results of `sqlite3_bind_text` are not looked at, and the `StmtPtr` is
finalized on every way out.

Only what the server uses is here: parameters that are strings, bound up to their first NUL, and
callbacks that store a column in `result`.

* `prepare_spec`, `bind_spec`, `finalize_spec`: the steps that are alike for all queries.
* `Frame`: a step opens, changes or closes the statement of its own call and no other.
-/

namespace IocpServer

open Statements

/-- `value.c_str()`, up to its end. -/
def cStr (value : List UInt8) : List UInt8 := value.takeWhile (· != 0)

namespace DBManager

/-- A call of `ExecuteNonQuery`, or of `ExecuteQuery` with the column that its callback stores. -/
structure Call where
  query : String
  args : List (List UInt8)
  callback : Option Nat

/-- Where a call is: in `Prepare`, in `BindParameter(stmt, index++, args), ...`, at `sqlite3_step`, in
the callback, at the end of the `StmtPtr`; and what it returns. -/
inductive Phase where
  | prepare
  | bind (stmt index : Nat) (args : List (List UInt8))
  | step (stmt : Nat) (result : Int)
  | callback (stmt : Nat) (result : Int)
  | finalize (stmt : Nat) (success : Bool) (result : Int)
  | returned (success : Bool) (result : Int)
  deriving DecidableEq

/-- Behind `sqlite3_step`. -/
def stepped (call : Call) (stmt : Nat) (result code : Int) : Phase :=
  match call.callback with
  | none => .finalize stmt (!(decide (code ≠ SQLITE_DONE) && decide (code ≠ SQLITE_ROW))) result
  | some _ =>
    if code = SQLITE_ROW then .callback stmt result
    else .finalize stmt (!decide (code ≠ SQLITE_DONE)) result

variable {σ τ ρ : Type}

/-- One step of a call. -/
def next (db : Library σ) (call : Call) : Phase → σ → Option (Phase × σ)
  | .prepare, s =>
    match db.prepare s call.query with
    | (code, stmt, s) =>
      -- "Failed to prepare statement"
      if code ≠ SQLITE_OK then some (.returned false 0, s)
      else some (.bind stmt 1 call.args, s)
  | .bind stmt index (value :: args), s => do
      let (_, s) ← db.bindText s stmt index (cStr value)
      return (.bind stmt (index + 1) args, s)
  -- `Prepare` returns; the callers' `result` is 0 so far
  | .bind stmt _ [], s => some (.step stmt 0, s)
  | .step stmt result, s => do
      let (code, s) ← db.step s stmt
      return (stepped call stmt result code, s)
  | .callback stmt _, s => do
      let column ← call.callback
      let result ← db.columnInt64 s stmt column
      return (.step stmt result, s)
  | .finalize stmt success result, s => do
      let s ← db.finalize s stmt
      return (.returned success result, s)
  | .returned _ _, _ => none

/-- The statement that a call holds. -/
def Phase.stmt : Phase → Option Nat
  | .prepare => none
  | .bind stmt _ _ => some stmt
  | .step stmt _ => some stmt
  | .callback stmt _ => some stmt
  | .finalize stmt _ _ => some stmt
  | .returned _ _ => none

theorem stepped_row {call : Call} {column : Nat} (h : call.callback = some column) (stmt : Nat)
    (result : Int) : stepped call stmt result SQLITE_ROW = .callback stmt result := by
  simp only [stepped, h, if_true]

theorem stepped_done (call : Call) (stmt : Nat) (result : Int) :
    stepped call stmt result SQLITE_DONE = .finalize stmt true result := by
  cases h : call.callback with
  | none => simp only [stepped, h]; rfl
  | some column => simp only [stepped, h]; rfl

theorem stepped_error {code : Int} (hrow : code ≠ SQLITE_ROW) (hdone : code ≠ SQLITE_DONE) (call : Call)
    (stmt : Nat) (result : Int) : stepped call stmt result code = .finalize stmt false result := by
  cases h : call.callback with
  | none => simp [stepped, h, hrow, hdone]
  | some column => simp [stepped, h, hrow, hdone]

/-! ### Parameters -/

/-- The parameters are these arguments, counted from 1, as far as they could be bound; `full` says
that they could. -/
structure Bound (full : Prop) (args : List (List UInt8)) (params : Params) : Prop where
  only : ∀ {k value}, params k = some value → ∃ i arg, k = i + 1 ∧ args[i]? = some arg ∧
    value = cStr arg
  all : full → ∀ {i arg}, args[i]? = some arg → params (i + 1) = some (cStr arg)

variable {full : Prop} {args : List (List UInt8)} {params : Params}

theorem bound_nil : Bound full [] fun _ => none where
  only h := by cases h
  all _ _ _ h := by cases h

/-- One of the arguments. -/
theorem Bound.get (h : Bound full args params) {i : Nat} {arg : List UInt8} (hi : args[i]? = some arg) :
    params (i + 1) = some (cStr arg) ∨ ¬ full ∧ params (i + 1) = none := by
  cases hp : params (i + 1) with
  | none =>
    refine .inr ⟨fun hf => ?_, rfl⟩
    rw [h.all hf hi] at hp
    cases hp
  | some value =>
    obtain ⟨j, arg', hj, hget, rfl⟩ := h.only hp
    cases hj
    cases hi.symm.trans hget
    exact .inl rfl

/-- Another argument, bound or not. -/
theorem Bound.snoc (h : Bound full args params) {params' : Params} {value : List UInt8}
    (hother : ∀ k, k ≠ args.length + 1 → params' k = params k)
    (hself : params' (args.length + 1) = some (cStr value) ∨ ¬ full ∧ params' (args.length + 1) = none) :
    Bound full (args ++ [value]) params' := by
  refine ⟨fun {k v} hk => ?_, fun hf {i arg} hi => ?_⟩
  · by_cases e : k = args.length + 1
    · subst e
      refine ⟨args.length, value, rfl, List.getElem?_concat_length, ?_⟩
      rcases hself with hs | ⟨-, hs⟩
      · exact Option.some.inj (hk.symm.trans hs)
      · cases hk.symm.trans hs
    · rw [hother k e] at hk
      obtain ⟨i, arg, rfl, hi, rfl⟩ := h.only hk
      refine ⟨i, arg, rfl, ?_, rfl⟩
      rwa [List.getElem?_append_left (List.getElem?_eq_some_iff.mp hi).1]
  · rcases Nat.lt_trichotomy i args.length with hlt | rfl | hgt
    · rw [List.getElem?_append_left hlt] at hi
      rw [hother _ (by omega)]
      exact h.all hf hi
    · rw [List.getElem?_concat_length] at hi
      cases hi
      exact hself.resolve_right fun hn => hn.1 hf
    · rw [List.getElem?_eq_none (by rw [List.length_append]; exact hgt)] at hi
      cases hi

/-! ### What a step leaves of the statements -/

/-- Only a call's own statement has changed, which was `old` and is `new`. -/
structure Frame (old new : Option Nat) (before after : Nat → Option (Statement ρ)) : Prop where
  other : ∀ {k}, old ≠ some k → new ≠ some k → after k = before k
  opened : ∀ {k}, new = some k → old = some k ∨ before k = none
  closed : ∀ {k}, old = some k → new = some k ∨ after k = none

variable {before after : Nat → Option (Statement ρ)} {stmt : Nat} {st : Statement ρ}

theorem Frame.same (o : Option Nat) : Frame o o before before where
  other _ _ := rfl
  opened := .inl
  closed := .inl

theorem Frame.keep (ha : after = Function.update before stmt (some st)) :
    Frame (some stmt) (some stmt) before after where
  other hk _ := by
    rw [ha, Function.update_of_ne]
    rintro rfl
    exact hk rfl
  opened := .inl
  closed := .inl

theorem Frame.start (hfree : before stmt = none) (ha : after = Function.update before stmt (some st)) :
    Frame none (some stmt) before after where
  other _ hk := by
    rw [ha, Function.update_of_ne]
    rintro rfl
    exact hk rfl
  opened hk := by
    cases hk
    exact .inr hfree
  closed hk := by cases hk

theorem Frame.finish (ha : after = Function.update before stmt none) :
    Frame (some stmt) none before after where
  other hk _ := by
    rw [ha, Function.update_of_ne]
    rintro rfl
    exact hk rfl
  opened hk := by cases hk
  closed hk := by
    cases hk
    exact .inr (by rw [ha, Function.update_self])

/-! ### Steps -/

variable {db : Library σ} {m : Meaning τ ρ} {table : σ → τ} {stmts : σ → Nat → Option (Statement ρ)}
  {s : σ} {call : Call}

/-- **`Prepare`.** -/
theorem prepare_spec (h : Documented m db table stmts) (hq : call.query ∈ m.queries) (s : σ) :
    ∃ s', table s' = table s ∧
      ((next db call .prepare s = some (.returned false 0, s') ∧ stmts s' = stmts s ∧
          (Reliable m db table stmts → ¬ m.prepares (table s) call.query)) ∨
        ∃ stmt, next db call .prepare s = some (.bind stmt 1 call.args, s') ∧ stmts s stmt = none ∧
          stmts s' = Function.update (stmts s) stmt (some (.start call.query))) := by
  rcases hp : db.prepare s call.query with ⟨code, stmt, s'⟩
  by_cases hcode : code = SQLITE_OK
  · subst hcode
    obtain ⟨hfree, hstmts, htable⟩ := h.prepare hq hp
    exact ⟨s', htable, .inr ⟨stmt, by simp [next, hp], hfree, hstmts⟩⟩
  · obtain ⟨hstmts, htable⟩ := h.prepare_error hp hcode
    refine ⟨s', htable, .inl ⟨by simp [next, hp, hcode], hstmts, fun hr hm => hcode ?_⟩⟩
    rw [← hr.prepares s call.query hq hm, hp]

/-- **`BindParameter`.** -/
theorem bind_spec (call : Call) (h : Documented m db table stmts) (hst : stmts s stmt = some st)
    (hb : Bound (Reliable m db table stmts) args st.params) (value : List UInt8)
    (rest : List (List UInt8)) :
    ∃ s' params, next db call (.bind stmt (args.length + 1) (value :: rest)) s =
        some (.bind stmt ((args ++ [value]).length + 1) rest, s') ∧ table s' = table s ∧
      stmts s' = Function.update (stmts s) stmt (some { st with params }) ∧
      Bound (Reliable m db table stmts) (args ++ [value]) params := by
  obtain ⟨code, s', hbind, hstmts, htable⟩ := h.bindText (args.length + 1) (cStr value) hst
  have hnext : next db call (.bind stmt (args.length + 1) (value :: rest)) s =
      some (.bind stmt ((args ++ [value]).length + 1) rest, s') := by
    simp [next, hbind]
  by_cases hcode : code = SQLITE_OK
  · rw [if_pos hcode] at hstmts
    refine ⟨s', _, hnext, htable, hstmts, hb.snoc (fun k hk => ?_) (.inl ?_)⟩
    · rw [Function.update_of_ne hk]
    · rw [Function.update_self]
  · rw [if_neg hcode] at hstmts
    refine ⟨s', st.params, hnext, htable, hstmts, hb.snoc (fun _ _ => rfl) (.inr ⟨fun hr => ?_, ?_⟩)⟩
    · exact hcode (hr.binds hst hbind)
    · cases hp : st.params (args.length + 1) with
      | none => rfl
      | some v =>
        obtain ⟨i, arg, hi, hget, -⟩ := hb.only hp
        have := (List.getElem?_eq_some_iff.mp hget).1
        omega

theorem next_step {code result : Int} {s' : σ} (hs : db.step s stmt = some (code, s')) :
    next db call (.step stmt result) s = some (stepped call stmt result code, s') := by
  simp [next, hs]

/-- **The end of the `StmtPtr`.** -/
theorem finalize_spec (h : Documented m db table stmts) (hst : stmts s stmt = some st) (success : Bool)
    (result : Int) :
    ∃ s', next db call (.finalize stmt success result) s = some (.returned success result, s') ∧
      table s' = table s ∧ stmts s' = Function.update (stmts s) stmt none := by
  obtain ⟨s', hfin, hstmts, htable⟩ := h.finalize hst
  exact ⟨s', by simp [next, hfin], htable, hstmts⟩

end DBManager

end IocpServer
