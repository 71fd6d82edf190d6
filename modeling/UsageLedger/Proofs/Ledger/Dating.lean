import UsageLedger.Ledger.InMemory

/-! Dates apart. A statement carries the time at which it was made, and nothing that a ledger does depends on it:
what a ledger is, dates apart, decides on its answers to the calls, dates apart, and on what it is after them. -/

namespace UsageLedger

/-- A statement without the time at which it was made. -/
def Statement.undated (s : Statement) : Statement := { s with createdAt := Instant.epoch }

namespace Ledger

/-- A call without the time at which its statement was made. -/
def Call.undated : Call → Call
  | create s delta => create s.undated delta
  | call => call

/-- A reply without the times at which its statements were made. -/
def Call.undatedReply : (call : Call) → call.Reply → call.Reply
  | find _, found => Option.map Statement.undated found
  | record _, reply => reply
  | ensure _, reply => reply
  | create _ _, reply => reply
  | balance _, reply => reply

/-- A part of ledgers, all but the dates, that decides on the answers to calls and on itself after them. -/
structure Dateless {σ : Type} (serve : Service σ) where
  Part : Type
  part : σ → Part
  serve_same : ∀ {m m' : σ} (call : Call), part m = part m' →
    (serve call m).1.map call.undatedReply = (serve call m').1.map call.undatedReply ∧
      part (serve call m).2 = part (serve call m').2
  create_same : ∀ {m m' : σ} {s s' : Statement} (delta : Decimal), part m = part m' → s.undated = s'.undated →
    (serve (.create s delta) m).1 = (serve (.create s' delta) m').1 ∧
      part (serve (.create s delta) m).2 = part (serve (.create s' delta) m').2

namespace InMemory

variable {m m' : InMemory} {s s' : Statement}

/-- A ledger, dates apart. -/
def outline (m : InMemory) : List Statement × List Account × List Event :=
  (m.statements.map Statement.undated, m.accounts, m.audit)

theorem find?_undated (m : InMemory) (id : Uuid) :
    (m.find? id).map Statement.undated = m.outline.1.find? fun s => s.event == id := by
  rw [outline, List.find?_map]
  rfl

theorem find?_isSome (m : InMemory) (id : Uuid) :
    (m.find? id).isSome = (m.outline.1.find? fun s => s.event == id).isSome := by
  rw [← find?_undated, Option.isSome_map]

theorem account?_outline (m : InMemory) (user : String) :
    m.account? user = m.outline.2.1.find? fun a => a.user == user := rfl

theorem outline_ensure (m : InMemory) (user : String) :
    (m.ensure user).outline = (m.outline.1,
      if (m.account? user).isSome then m.outline.2.1 else m.outline.2.1 ++ [Account.fresh user], m.outline.2.2) := by
  unfold ensure
  split
  · rename_i hnone
    simp [outline, openAccount, hnone]
  · rename_i a hsome
    simp [outline, hsome]

/-- What a posting comes to, dates apart. -/
theorem outline_create (m : InMemory) (s : Statement) (delta : Decimal) :
    (m.create s delta).map outline =
      if (m.find? s.event).isSome then .error (.duplicateEvent s.event)
      else match m.account? s.user with
        | none => .error (.accountNotFound s.user)
        | some a =>
          match a.balance.add? delta with
          | none => .error (.backend (.overflow s.user delta))
          | some balance =>
            .ok (m.outline.1 ++ [s.undated], setBalance m.outline.2.1 s.user balance, m.outline.2.2) := by
  unfold create
  split
  · rename_i t hold
    rw [hold]
    rfl
  · rename_i hnew
    rw [if_neg (by simp [hnew])]
    cases m.account? s.user with
    | none => rfl
    | some a =>
        dsimp only
        cases a.balance.add? delta with
        | none => rfl
        | some balance => simp [Except.map, outline, addStatement, withBalance]

theorem outline_create_congr (delta : Decimal) (h : m.outline = m'.outline) (hs : s.undated = s'.undated) :
    (m.create s delta).map outline = (m'.create s' delta).map outline := by
  have hevent : s.event = s'.event := by simpa [Statement.undated] using congrArg Statement.event hs
  have huser : s.user = s'.user := by simpa [Statement.undated] using congrArg Statement.user hs
  rw [outline_create, outline_create, find?_isSome, find?_isSome, account?_outline, account?_outline, h, hs, hevent,
    huser]

/-- Of postings that differ at most in dates both are accepted, or both are refused for the same reason. -/
theorem serve_create_congr (delta : Decimal) (h : m.outline = m'.outline) (hs : s.undated = s'.undated) :
    (serve (.create s delta) m).1 = (serve (.create s' delta) m').1 ∧
      (serve (.create s delta) m).2.outline = (serve (.create s' delta) m').2.outline := by
  have hsame := outline_create_congr delta h hs
  rw [serve, serve]
  cases hcreate : m.create s delta with
  | error e =>
      cases hcreate' : m'.create s' delta with
      | error e' =>
          rw [hcreate, hcreate'] at hsame
          exact ⟨congrArg Except.error (Except.error.inj hsame), h⟩
      | ok n' =>
          rw [hcreate, hcreate'] at hsame
          cases hsame
  | ok n =>
      cases hcreate' : m'.create s' delta with
      | error e' =>
          rw [hcreate, hcreate'] at hsame
          cases hsame
      | ok n' =>
          rw [hcreate, hcreate'] at hsame
          exact ⟨rfl, Except.ok.inj hsame⟩

/-- What a ledger in memory is, dates apart, decides on its answers. -/
def dateless : Dateless serve where
  Part := List Statement × List Account × List Event
  part := outline
  serve_same {m m'} call h := by
    cases call with
    | record e => exact ⟨rfl, by simpa [serve, record, outline] using h⟩
    | find id =>
        refine ⟨?_, h⟩
        change Except.ok ((m.find? id).map Statement.undated) = Except.ok ((m'.find? id).map Statement.undated)
        rw [find?_undated, find?_undated, h]
    | ensure user =>
        refine ⟨rfl, ?_⟩
        change (m.ensure user).outline = (m'.ensure user).outline
        rw [outline_ensure, outline_ensure, account?_outline, account?_outline, h]
    | create s delta =>
        obtain ⟨hanswer, hpart⟩ := serve_create_congr delta h (rfl : s.undated = s.undated)
        exact ⟨congrArg _ hanswer, hpart⟩
    | balance user =>
        refine ⟨?_, h⟩
        change (m.balance user).map id = (m'.balance user).map id
        rw [balance, balance, account?_outline, account?_outline, h]
  create_same delta h hs := serve_create_congr delta h hs

end InMemory

end Ledger

end UsageLedger
