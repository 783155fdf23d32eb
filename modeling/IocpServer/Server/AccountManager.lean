import IocpServer.Packet.Accounts
import IocpServer.Server.DBManager
import IocpServer.Support.Atomic

/-!
# Server — AccountManager

`Server/AccountManager.cpp` over `Server/DBManager.hpp`, called by any number of threads, whose calls
of the database library interleave in any order.

* `accountsMeaning`: what the three queries mean.
* `step`: one event of the threads.
* `Operation.perform`: what an operation is for, on the table as a whole.
* `serves_done`, `serves_failed`, `serves_row`: what a step of the query's statement has to do with it.
-/

namespace IocpServer

open Statements DBManager Atomic

namespace AccountManager

/-! ### Queries -/

def createAccounts : String :=
  "CREATE TABLE IF NOT EXISTS accounts (" ++ "id INTEGER PRIMARY KEY AUTOINCREMENT," ++
    "username TEXT UNIQUE NOT NULL," ++ "password TEXT NOT NULL);"

def insertAccount : String := "INSERT INTO accounts (username, password) VALUES (?, ?);"

def selectAccount : String := "SELECT id FROM accounts WHERE username = ? AND password = ?;"

/-- The rows with this name and this password. -/
def selected (a : AccountStore) (username password : List Byte) : List AccountRow :=
  a.rows.filter fun row => row.username == username && row.password == password

/-- What the queries mean; there is no table before it is created.  `= NULL` holds of no row, and
`NOT NULL` refuses one. -/
def accountsMeaning : Meaning (Option AccountStore) AccountRow where
  queries := [createAccounts, insertAccount, selectAccount]
  prepares table query := query = createAccounts ∨ table ≠ none
  rows table query params :=
    if query = selectAccount then
      match table, params 1, params 2 with
      | some a, some username, some password => selected a username password
      | _, _, _ => []
    else []
  effect table query params :=
    if query = createAccounts then some (some (table.getD ⟨[], 0⟩))
    else if query = insertAccount then
      match table, params 1, params 2 with
      | some a, some username, some password =>
        match a.registerAccount username password with
        | (true, a) => some (some a)
        | (false, _) => none
      | _, _, _ => none
    else some table
  column row column := if column = 0 then row.id else 0

instance (table : Option AccountStore) (query : String) : Decidable (accountsMeaning.prepares table query) :=
  inferInstanceAs (Decidable (query = createAccounts ∨ table ≠ none))

/-- The constructor, `RegisterAccount` and `Authenticate`. -/
inductive Operation where
  | construct
  | registerAccount (userId password : List Byte)
  | authenticate (userId password : List Byte)
  deriving DecidableEq

/-- The call of the database that an operation is. -/
def Operation.call : Operation → Call
  | .construct => ⟨createAccounts, [], none⟩
  | .registerAccount userId password => ⟨insertAccount, [userId, password], none⟩
  | .authenticate userId password => ⟨selectAccount, [userId, password], some 0⟩

/-- What it returns. -/
inductive Answer where
  | constructed
  | registered (success : Bool)
  | authenticated (result : Int)
  deriving DecidableEq

/-- The answer that becomes of what the call returned. -/
def Operation.answer : Operation → Bool → Int → Answer
  | .construct, _, _ => .constructed
  | .registerAccount _ _, success, _ => .registered success
  | .authenticate _ _, _, result => .authenticated result

theorem create_ne_insert : createAccounts ≠ insertAccount := by decide

theorem create_ne_select : createAccounts ≠ selectAccount := by decide

theorem insert_ne_select : insertAccount ≠ selectAccount := by decide

/-! ### Threads -/

/-- The database, and the calls of the threads that have not returned. -/
structure Threads (σ ι : Type) where
  db : σ
  calls : ι → Option (Operation × Phase)

/-- A thread calls an operation, takes a step of it, or returns from it. -/
inductive Event (ι : Type) where
  | call (t : ι) (op : Operation)
  | next (t : ι)
  | ret (t : ι) (answer : Answer)

variable {σ ι : Type} [DecidableEq ι]

/-- One event. -/
def step (db : Library σ) (w : Threads σ ι) : Event ι → Option (Threads σ ι)
  | .call t op =>
    match w.calls t with
    | none => some { w with calls := Function.update w.calls t (some (op, .prepare)) }
    | some _ => none
  | .next t =>
    match w.calls t with
    | none => none
    | some (op, phase) =>
      (next db op.call phase w.db).map fun (phase, s) =>
        ⟨s, Function.update w.calls t (some (op, phase))⟩
  | .ret t answer =>
    match w.calls t with
    | some (op, .returned success result) =>
      if op.answer success result = answer then
        some { w with calls := Function.update w.calls t none }
      else none
    | _ => none

/-- What is seen of an event from outside. -/
def shown : Event ι → List (Seen ι Operation Answer)
  | .call t op => [.call t op]
  | .next _ => []
  | .ret t answer => [.ret t answer]

/-- No thread has called yet. -/
def start (s : σ) : Threads σ ι := ⟨s, fun _ => none⟩

/-! ### What operations are for -/

/-- The operation, all at once. -/
def Operation.perform : Operation → Option AccountStore → Answer × Option AccountStore
  | .construct, table => (.constructed, some (table.getD ⟨[], 0⟩))
  | .registerAccount _ _, none => (.registered false, none)
  | .registerAccount userId password, some a =>
    match a.registerAccount (cStr userId) (cStr password) with
    | (success, a) => (.registered success, some a)
  | .authenticate _ _, none => (.authenticated 0, none)
  | .authenticate userId password, some a =>
    (.authenticated (a.authenticate (cStr userId) (cStr password)), some a)

theorem cStr_field (packet : List Byte) (off : Nat) : cStr (field packet off) = field packet off :=
  List.takeWhile_idem

/-- **The requests of packets are these operations**: their fields have no NUL to be cut off at. -/
theorem perform_answer {packet : List Byte} {r : Request} (hr : requestOf packet = some r)
    (a : AccountStore) :
    r.id = .kRegister ∧ (Operation.registerAccount r.userId r.password).perform (some a) =
        (.registered (a.answer r).1, some (a.answer r).2) ∨
      r.id = .kLogin ∧ ∃ k, (Operation.authenticate r.userId r.password).perform (some a) =
        (.authenticated k, some (a.answer r).2) ∧ (a.answer r).1 = (k != 0) := by
  rcases PacketHandler.requestOf_cases hr with ⟨-, rfl⟩ | ⟨-, rfl⟩
  · refine .inl ⟨rfl, ?_⟩
    simp only [Operation.perform, cStr_field, AccountStore.answer, if_true]
  · refine .inr ⟨rfl, _, rfl, ?_⟩
    simp only [cStr_field, AccountStore.answer]
    rfl

/-- The operation, or its failure.  With `full` nothing fails. -/
def Serves (full : Prop) (table : Option AccountStore) (op : Operation) (answer : Answer)
    (table' : Option AccountStore) : Prop :=
  op.perform table = (answer, table') ∨ ¬ full ∧ answer = op.answer false 0 ∧ table' = table

/-- The names are different, and so are the keys, which are positive. -/
structure Sound (a : AccountStore) : Prop where
  names : (a.rows.map (·.username)).Nodup
  keys : (a.rows.map (·.id)).Nodup
  handed : ∀ row ∈ a.rows, 0 < row.id ∧ row.id ≤ a.seq
  seq : 0 ≤ a.seq

theorem sound_empty : Sound ⟨[], 0⟩ where
  names := List.nodup_nil
  keys := List.nodup_nil
  handed _ h := absurd h List.not_mem_nil
  seq := le_rfl

/-- A registration either leaves the table or appends a row. -/
theorem registerAccount_cases {a a' : AccountStore} {userId password : List Byte} {success : Bool}
    (h : a.registerAccount userId password = (success, a')) :
    success = false ∧ a' = a ∨ success = true ∧ (∀ row ∈ a.rows, row.username ≠ userId) ∧
      a' = ⟨a.rows ++ [⟨a.seq + 1, userId, password⟩], a.seq + 1⟩ := by
  unfold AccountStore.registerAccount at h
  split_ifs at h with hany hseq
  · cases h
    exact .inl ⟨rfl, rfl⟩
  · cases h
    exact .inl ⟨rfl, rfl⟩
  · cases h
    refine .inr ⟨rfl, fun row hrow he => hany ?_, rfl⟩
    exact List.any_eq_true.mpr ⟨row, hrow, beq_iff_eq.mpr he⟩

theorem registerAccount_sound {a a' : AccountStore} {userId password : List Byte} {success : Bool}
    (ha : Sound a) (h : a.registerAccount userId password = (success, a')) : Sound a' := by
  rcases registerAccount_cases h with ⟨-, rfl⟩ | ⟨-, hnew, rfl⟩
  · exact ha
  · have hseq := ha.seq
    refine ⟨?_, ?_, fun row hrow => ?_, show 0 ≤ a.seq + 1 by omega⟩
    · rw [List.map_append]
      refine ha.names.append (List.nodup_singleton _) ?_
      rintro _ hmem hself
      obtain ⟨row, hrow, rfl⟩ := List.mem_map.mp hmem
      exact hnew row hrow (List.mem_singleton.mp hself)
    · rw [List.map_append]
      refine ha.keys.append (List.nodup_singleton _) ?_
      rintro _ hmem hself
      obtain ⟨row, hrow, rfl⟩ := List.mem_map.mp hmem
      have hid : row.id = a.seq + 1 := List.mem_singleton.mp hself
      have := (ha.handed row hrow).2
      omega
    · rcases List.mem_append.mp hrow with hrow | hrow
      · obtain ⟨hpos, hle⟩ := ha.handed row hrow
        exact ⟨hpos, show row.id ≤ a.seq + 1 by omega⟩
      · rw [List.mem_singleton.mp hrow]
        exact ⟨show 0 < a.seq + 1 by omega, le_rfl⟩

/-- One row at most has this name and this password. -/
theorem selected_length {a : AccountStore} (ha : Sound a) (username password : List Byte) :
    (selected a username password).length ≤ 1 := by
  calc (selected a username password).length
      = a.rows.countP fun row => row.username == username && row.password == password :=
        List.countP_eq_length_filter.symm
    _ ≤ a.rows.countP fun row => row.username == username :=
        List.countP_mono_left fun row _ h => (Bool.and_eq_true _ _ ▸ h).1
    _ = (a.rows.map (·.username)).count username := by
        rw [List.count, List.countP_map]
        rfl
    _ ≤ 1 := List.nodup_iff_count_le_one.mp ha.names username

/-- The table, if there is one. -/
def TableSound (table : Option AccountStore) : Prop := ∀ a, table = some a → Sound a

theorem perform_sound {op : Operation} {table table' : Option AccountStore} {answer : Answer}
    (ht : TableSound table) (h : op.perform table = (answer, table')) : TableSound table' := by
  cases op with
  | construct =>
    cases h
    intro a ha
    cases table with
    | none => cases ha; exact sound_empty
    | some b => cases ha; exact ht _ rfl
  | registerAccount userId password =>
    cases table with
    | none => cases h; exact ht
    | some a =>
      rcases hr : a.registerAccount (cStr userId) (cStr password) with ⟨success, a'⟩
      simp only [Operation.perform, hr, Prod.mk.injEq] at h
      obtain ⟨-, rfl⟩ := h
      rintro _ ⟨⟩
      exact registerAccount_sound (ht a rfl) hr
  | authenticate userId password =>
    cases table with
    | none => cases h; exact ht
    | some a => cases h; exact ht

theorem Serves.sound {full : Prop} {op : Operation} {table table' : Option AccountStore}
    {answer : Answer} (h : Serves full table op answer table') (ht : TableSound table) :
    TableSound table' := by
  rcases h with h | ⟨-, -, rfl⟩
  · exact perform_sound ht h
  · exact ht

/-! ### Queries and operations -/

section Queries

variable {full : Prop} {op : Operation} {params : Params} {table table' : Option AccountStore}

theorem call_query_mem (op : Operation) : op.call.query ∈ accountsMeaning.queries := by
  cases op with
  | construct => exact List.mem_cons_self
  | registerAccount userId password => exact List.mem_cons_of_mem _ List.mem_cons_self
  | authenticate userId password =>
    exact List.mem_cons_of_mem _ (List.mem_cons_of_mem _ List.mem_cons_self)

/-- What a query can be prepared for. -/
theorem perform_unprepared (h : ¬ accountsMeaning.prepares table op.call.query) :
    op.perform table = (op.answer false 0, table) := by
  have htable : table = none := not_not.mp fun hn => h (.inr hn)
  subst htable
  cases op with
  | construct => exact absurd (.inl rfl) h
  | registerAccount userId password => rfl
  | authenticate userId password => rfl

theorem rows_other {query : String} (h : query ≠ selectAccount) :
    accountsMeaning.rows table query params = [] :=
  if_neg h

theorem effect_insert {a : AccountStore} {username password : List Byte} {success : Bool}
    {a' : AccountStore} (h₁ : params 1 = some username) (h₂ : params 2 = some password)
    (h : a.registerAccount username password = (success, a')) :
    accountsMeaning.effect (some a) insertAccount params =
      if success = true then some (some a') else none := by
  simp only [accountsMeaning, if_neg create_ne_insert.symm, if_true, h₁, h₂, h]
  cases success <;> rfl

theorem effect_unbound (h : table = none ∨ params 1 = none ∨ params 2 = none) :
    accountsMeaning.effect table insertAccount params = none := by
  simp only [accountsMeaning, if_neg create_ne_insert.symm, if_true]
  rcases h with rfl | h | h
  · rfl
  · rw [h]
    cases table <;> rfl
  · rw [h]
    cases table with
    | none => rfl
    | some a => cases params 1 <;> rfl

theorem effect_select : accountsMeaning.effect table selectAccount params = some table := by
  simp only [accountsMeaning, if_neg create_ne_select.symm, if_neg insert_ne_select.symm]

/-- What a login selects: rows with its name and its password, or nothing where they could not be
bound. -/
theorem rows_authenticate (table : Option AccountStore) {userId password : List Byte}
    (hb : Bound full (Operation.authenticate userId password).call.args params) :
    (∃ a, table = some a ∧ accountsMeaning.rows table selectAccount params =
      selected a (cStr userId) (cStr password)) ∨
    accountsMeaning.rows table selectAccount params = [] ∧ (full → table = none) := by
  simp only [accountsMeaning, if_true]
  cases table with
  | none => exact .inr ⟨rfl, fun _ => rfl⟩
  | some a =>
    rcases hb.get (i := 0) rfl with h₁ | ⟨hfull, h₁⟩
    · rcases hb.get (i := 1) rfl with h₂ | ⟨hfull, h₂⟩
      · refine .inl ⟨a, rfl, ?_⟩
        rw [h₁, h₂]
      · refine .inr ⟨?_, fun hf => absurd hf hfull⟩
        rw [h₁, h₂]
    · refine .inr ⟨?_, fun hf => absurd hf hfull⟩
      rw [h₁]

/-- **Only a login selects rows.** -/
theorem rows_spec (hb : Bound full op.call.args params)
    (hne : accountsMeaning.rows table op.call.query params ≠ []) :
    ∃ userId password a, op = .authenticate userId password ∧ table = some a ∧
      accountsMeaning.rows table op.call.query params = selected a (cStr userId) (cStr password) := by
  cases op with
  | construct => exact absurd (rows_other create_ne_select) hne
  | registerAccount userId password => exact absurd (rows_other insert_ne_select) hne
  | authenticate userId password =>
    rcases rows_authenticate table hb with ⟨a, htable, hrows⟩ | ⟨hrows, -⟩
    · exact ⟨userId, password, a, rfl, htable, hrows⟩
    · exact absurd hrows hne

/-- **A query that completes** without a row has done what it was for. -/
theorem serves_done (hb : Bound full op.call.args params)
    (hrows : accountsMeaning.rows table op.call.query params = [])
    (he : accountsMeaning.effect table op.call.query params = some table') :
    Serves full table op (op.answer true 0) table' := by
  cases op with
  | construct =>
    cases he
    exact .inl rfl
  | registerAccount userId password =>
    cases table with
    | none => cases (effect_unbound (.inl rfl)).symm.trans he
    | some a =>
      rcases hb.get (i := 0) rfl with h₁ | ⟨-, h₁⟩
      · rcases hb.get (i := 1) rfl with h₂ | ⟨-, h₂⟩
        · rcases hr : a.registerAccount (cStr userId) (cStr password) with ⟨success, a'⟩
          have he' := (effect_insert h₁ h₂ hr).symm.trans he
          split at he'
          · rename_i hsuccess
            subst hsuccess
            cases he'
            refine .inl ?_
            simp only [Operation.perform, hr]
            rfl
          · cases he'
        · cases (effect_unbound (.inr (.inr h₂))).symm.trans he
      · cases (effect_unbound (.inr (.inl h₁))).symm.trans he
  | authenticate userId password =>
    cases effect_select.symm.trans he
    rcases rows_authenticate table hb with ⟨a, rfl, hsel⟩ | ⟨-, hfull⟩
    · refine .inl ?_
      have hempty : selected a (cStr userId) (cStr password) = [] := hsel.symm.trans hrows
      show (Answer.authenticated ((selected a (cStr userId) (cStr password)).foldl
        (fun _ row => row.id) 0), some a) = _
      rw [hempty]
      rfl
    · by_cases hf : full
      · cases hfull hf
        exact .inl rfl
      · exact .inr ⟨hf, rfl, rfl⟩

/-- **A query that must fail** is an operation that is refused. -/
theorem serves_failed (hb : Bound full op.call.args params) (hf : full)
    (hrows : accountsMeaning.rows table op.call.query params = [])
    (he : accountsMeaning.effect table op.call.query params = none) :
    op.perform table = (op.answer false 0, table) := by
  cases op with
  | construct => cases he
  | registerAccount userId password =>
    cases table with
    | none => rfl
    | some a =>
      rcases hr : a.registerAccount (cStr userId) (cStr password) with ⟨success, a'⟩
      have he' := (effect_insert (hb.all hf (i := 0) rfl) (hb.all hf (i := 1) rfl) hr).symm.trans he
      rcases registerAccount_cases hr with ⟨rfl, rfl⟩ | ⟨rfl, -, -⟩
      · simp only [Operation.perform, hr]
        rfl
      · cases he'
  | authenticate userId password => cases effect_select.symm.trans he

/-- **A login that gets a row** gets the key of the only one. -/
theorem serves_row {row : AccountRow} (ht : TableSound table) (hb : Bound full op.call.args params)
    (hsub : [row].Subperm (accountsMeaning.rows table op.call.query params)) :
    (∃ userId password, op = .authenticate userId password) ∧
      accountsMeaning.rows table op.call.query params = [row] ∧
      op.perform table = (.authenticated row.id, table) := by
  have hmem := List.singleton_subperm_iff.mp hsub
  obtain ⟨userId, password, a, rfl, rfl, hrows⟩ := rows_spec hb (List.ne_nil_of_mem hmem)
  have hone : selected a (cStr userId) (cStr password) = [row] := by
    rw [hrows] at hmem
    have hlen := selected_length (ht a rfl) (cStr userId) (cStr password)
    obtain ⟨row', h⟩ := List.length_eq_one_iff.mp
      (Nat.le_antisymm hlen (List.length_pos_of_mem hmem))
    rw [h] at hmem ⊢
    rw [List.mem_singleton.mp hmem]
  refine ⟨⟨userId, password, rfl⟩, hrows.trans hone, ?_⟩
  show (Answer.authenticated ((selected a (cStr userId) (cStr password)).foldl
    (fun _ row => row.id) 0), some a) = _
  rw [hone]
  rfl

end Queries
end AccountManager
end IocpServer
