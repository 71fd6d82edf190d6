import UsageLedger.Proofs.Delivery.Traces
import UsageLedger.Proofs.Ledger.Atomicity

/-! The audit log along an attempt. An attempt asks for one recording, of the event that it has read, and posts only
once that recording was answered with success, so the event is the last one in the log when its statement is
created. What becomes of the calls makes no difference to that, and the log grows by one event at most. -/

namespace UsageLedger

namespace Ledger

/-- The events that a call records. -/
def Call.recorded : Call → List Event
  | .record e => [e]
  | _ => []

/-- A call adds what it records to the end of the audit log. -/
theorem InMemory.serve_audit (call : Call) (m : InMemory) :
    (InMemory.serve call m).2.audit = m.audit ++ call.recorded := by
  cases call with
  | record e => rfl
  | find id => exact (List.append_nil _).symm
  | ensure user =>
      refine Eq.trans ?_ (List.append_nil _).symm
      change (m.ensure user).audit = m.audit
      unfold InMemory.ensure
      split <;> rfl
  | create s delta =>
      refine Eq.trans ?_ (List.append_nil _).symm
      cases h : m.create s delta with
      | ok m' =>
          rw [serve_create_eq h]
          exact (InMemory.users_of_create h).2
      | error e => rw [serve_create_error h]
  | balance user => exact (List.append_nil _).symm

end Ledger

namespace Delivery

open Ledger Program

variable {rate : Decimal} {payload : Text.Bytes} {e : Event} {s : Statement} {start before log : List Event}
  {number : Nat} {r : Request} {a : r.Answer} {g g' : Standing InMemory}

/-- Where a request leads, the audit log has grown by what a call on the ledger records, or not at all. -/
theorem Responds.audit (h : Responds InMemory.serve number r g a g') :
    g'.ledger.audit = g.ledger.audit ∨
      ∃ e, r = .ledger (.record e) ∧ g'.ledger.audit = g.ledger.audit ++ [e] := by
  rcases h.ledger with hsame | ⟨call, rfl, hserved⟩
  · exact .inl (congrArg InMemory.audit hsame)
  · rw [hserved, InMemory.serve_audit]
    cases call with
    | record e => exact .inr ⟨e, rfl, rfl⟩
    | _ => exact .inl (List.append_nil _)

theorem Responds.audit_prefix (h : Responds InMemory.serve number r g a g') :
    g.ledger.audit <+: g'.ledger.audit := by
  rcases h.audit with hsame | ⟨e, -, hgrown⟩
  · rw [hsame]
  · rw [hgrown]
    exact List.prefix_append _ _

/-- Only a recording makes the audit log grow. -/
theorem Responds.audit_of_not_record (h : Responds InMemory.serve number r g a g')
    (hr : ∀ e, r ≠ .ledger (.record e)) : g'.ledger.audit = g.ledger.audit := by
  rcases h.audit with hsame | ⟨e, hrecord, -⟩
  · exact hsame
  · exact (hr e hrecord).elim

/-! ### What an attempt does to the log -/

/-- Whether a log is as it was, or has grown by the event of a payload. -/
def GrownBy (payload : Text.Bytes) (before after : List Event) : Prop :=
  after = before ∨ ∃ e, Event.decode payload = .ok e ∧ after = before ++ [e]

theorem GrownBy.isPrefix (h : GrownBy payload before log) : before <+: log := by
  rcases h with rfl | ⟨e, -, rfl⟩
  · exact List.prefix_refl _
  · exact List.prefix_append _ _

/-- Whether a statement is the bill of an event. -/
def IsBillOf (rate : Decimal) (e : Event) (s : Statement) : Prop :=
  ∃ x amount, e.details = .ok x ∧ Credit.amount? rate e = some amount ∧
    s = Statement.ofEvent e x amount s.createdAt

/-- What an attempt that began with the log `before` may ask for with which log: it records the event of its payload
first, and posts the bill of that event while it is the last one in the log. -/
def Audits (rate : Decimal) (payload : Text.Bytes) (before : List Event) (log : List Event) : Request → Prop
  | .ledger (.record e) => log = before ∧ Event.decode payload = .ok e
  | .ledger (.create s _) => ∃ e, Event.decode payload = .ok e ∧ IsBillOf rate e s ∧ log = before ++ [e]
  | _ => GrownBy payload before log

theorem Audits.grownBy (h : Audits rate payload before log r) : GrownBy payload before log := by
  cases r with
  | ledger call =>
      cases call with
      | record e => exact .inl h.1
      | create s delta =>
          obtain ⟨e, hdecode, -, hlog⟩ := h
          exact .inr ⟨e, hdecode, hlog⟩
      | _ => exact h
  | _ => exact h

/-- What an attempt asks for leaves a log with the event of its payload at most. -/
theorem Audits.responds (h : Audits rate payload before g.ledger.audit r)
    (hresponds : Responds InMemory.serve number r g a g') : GrownBy payload before g'.ledger.audit := by
  rcases hresponds.audit with hsame | ⟨e, rfl, hgrown⟩
  · exact hsame ▸ h.grownBy
  · obtain ⟨hlog, hdecode⟩ := h
    exact .inr ⟨e, hdecode, hlog ▸ hgrown⟩

theorem Request.IsAside.audits (h : r.IsAside) (hlog : GrownBy payload before log) :
    Audits rate payload before log r := by
  cases r with
  | ledger call =>
      cases call with
      | balance user => exact hlog
      | _ => exact h.elim
  | _ => exact hlog

theorem Request.IsApart.audits (h : r.IsApart) (hlog : GrownBy payload before log) :
    Audits rate payload before log r := by
  cases r with
  | ledger call => exact h.elim
  | _ => exact hlog

/-- The contract of an attempt that began with the log `before`. -/
def auditing {α : Type} (rate : Decimal) (payload : Text.Bytes) (before : List Event) :
    Contract (Standing InMemory) α :=
  ⟨fun r g => Audits rate payload before g.ledger.audit r, fun _ g => GrownBy payload before g.ledger.audit,
    fun g => GrownBy payload before g.ledger.audit⟩

/-- A posting posts only once its event is the last one in the log. -/
theorem post_audits (hdecode : Event.decode payload = .ok e) (hlog : g.ledger.audit = before) :
    (post rate e).run.Meets (Responds InMemory.serve number) (auditing rate payload before) g := by
  have hgrown : ∀ {g : Standing InMemory}, g.ledger.audit = before ++ [e] → GrownBy payload before g.ledger.audit :=
    fun h => .inr ⟨e, hdecode, h⟩
  rw [run_post]
  have hfirst : Audits rate payload before g.ledger.audit (.ledger (.record e)) := ⟨hlog, hdecode⟩
  refine ⟨hfirst, fun answer g₁ h₁ => ?_⟩
  have hrecord := hfirst.responds h₁
  refine Meets.proceed hrecord (fun _ => hrecord) fun _ hreply => ?_
  -- a recording that is answered with success was served
  have hlog₁ : g₁.ledger.audit = before ++ [e] := by
    obtain ⟨t, ht, rfl⟩ := h₁
    obtain ⟨rfl, -⟩ := Treatment.answer_eq_ok (ht.symm.trans hreply)
    exact (InMemory.serve_audit (.record e) g.ledger).trans (congrArg (· ++ [e]) hlog)
  refine ⟨hgrown hlog₁, fun answer g₂ h₂ => ?_⟩
  have hlog₂ : g₂.ledger.audit = before ++ [e] :=
    (Responds.audit_of_not_record (r := .ledger (.find e.id)) h₂ (by simp)).trans hlog₁
  refine Meets.proceed (hgrown hlog₂) (fun _ => hgrown hlog₂) fun found _ => ?_
  cases found with
  | some s => exact hgrown hlog₂
  | none =>
      refine ⟨hgrown hlog₂, fun answer g₃ h₃ => ?_⟩
      have hlog₃ : g₃.ledger.audit = before ++ [e] :=
        (Responds.audit_of_not_record (r := .ledger (.ensure e.user)) h₃ (by simp)).trans hlog₂
      refine Meets.proceed (hgrown hlog₃) (fun _ => hgrown hlog₃) fun _ _ => ?_
      rw [postStatement]
      cases hdetails : e.details with
      | error error => exact hgrown hlog₃
      | ok x =>
          cases hamount : Credit.amount? rate e with
          | none => exact hgrown hlog₃
          | some amount =>
              refine ⟨hgrown hlog₃, fun (createdAt : Instant) g₄ h₄ => ?_⟩
              obtain rfl : g₄ = g₃ := h₄
              have hbill : Audits rate payload before g₄.ledger.audit
                  (.ledger (.create (Statement.ofEvent e x amount createdAt) amount)) :=
                ⟨e, hdecode, ⟨x, amount, hdetails, hamount, rfl⟩, hlog₃⟩
              refine ⟨hbill, fun answer g₅ h₅ => ?_⟩
              have hposted := hbill.responds h₅
              exact Meets.proceed hposted (fun _ => hposted) fun _ _ => hposted

theorem attempt_audits (rate : Decimal) (bound : Nat) (payload : Text.Bytes) (g : Standing InMemory) :
    (attempt rate bound payload).Meets (Responds InMemory.serve number) (auditing rate payload g.ledger.audit) g := by
  cases hdecode : Event.decode payload with
  | error error =>
      rw [attempt_of_error hdecode]
      exact .inl rfl
  | ok e =>
      rw [attempt_of_ok hdecode]
      refine ⟨.inl rfl, fun _ g₁ h₁ => ?_⟩
      obtain rfl : g₁ = g := h₁
      refine Meets.bind (post_audits hdecode rfl) fun posted g₂ h₂ => ?_
      have hkept : ∀ r (g : Standing InMemory) (a : r.Answer) g', r.IsAside →
          GrownBy payload g₁.ledger.audit g.ledger.audit → Responds InMemory.serve number r g a g' →
          GrownBy payload g₁.ledger.audit g'.ledger.audit := by
        intro r g a g' hr hgrown hresponds
        have haudits : Audits rate payload g₁.ledger.audit g.ledger.audit r := hr.audits hgrown
        exact haudits.responds hresponds
      exact ((attemptPosted_meets bound e posted).frame hkept h₂).mono (fun _ _ h => h.1.audits h.2)
        (fun _ _ h => h.2) fun _ h => h.2

/-- An attempt at a message that carries an event begins with its recording. -/
theorem attempt_begins (hdecode : Event.decode payload = .ok e) (rate : Decimal) (bound : Nat) :
    ∃ next, attempt rate bound payload = .ask (.bound bound) fun _ => .ask (.ledger (.record e)) next := by
  rw [attempt_of_ok hdecode, run_post]
  exact ⟨_, rfl⟩

/-! ### What a settlement does to the log -/

/-- The contract of a settlement, with a log that began as `start`: its requests are those of attempts. -/
def trailing {α : Type} (rate : Decimal) (payload : Text.Bytes) (start : List Event) :
    Contract (Standing InMemory) α :=
  ⟨fun r g => ∃ before, start <+: before ∧ Audits rate payload before g.ledger.audit r,
    fun _ g => start <+: g.ledger.audit, fun g => start <+: g.ledger.audit⟩

theorem attemptResults_trails (rate : Decimal) (bound : Nat) (payload : Text.Bytes) (n : Nat)
    (h : start <+: g.ledger.audit) :
    (attemptResults rate bound payload n).Meets (Responds InMemory.serve number) (trailing rate payload start) g := by
  induction n generalizing g with
  | zero => exact h
  | succ n ih =>
      have hattempt : (attempt rate bound payload).Meets (Responds InMemory.serve number)
          (trailing rate payload start) g :=
        (attempt_audits rate bound payload g).mono (fun _ _ haudits => ⟨g.ledger.audit, h, haudits⟩)
          (fun _ _ hgrown => h.trans hgrown.isPrefix) fun _ hgrown => h.trans hgrown.isPrefix
      refine Meets.bind hattempt fun result g₁ h₁ => ?_
      cases result with
      | ok outcome => exact h₁
      | error error =>
          refine Meets.request ⟨g₁.ledger.audit, h₁, .inl rfl⟩ fun a g₂ h₂ => ?_
          have hlater := h₁.trans (Responds.audit_prefix (r := .count .failedAttempts) (a := a) h₂)
          exact Meets.bind (ih hlater) fun _ _ h₃ => h₃

theorem settlement_trails (rate : Decimal) (bound : Nat) (payload : Text.Bytes) (h : start <+: g.ledger.audit) :
    (settlement rate bound payload).Meets (Responds InMemory.serve number) (trailing rate payload start) g := by
  refine Meets.bind (attemptResults_trails rate bound payload Limits.attempts h) fun results g₁ h₁ => ?_
  have hkept : ∀ r (g : Standing InMemory) (a : r.Answer) g', r.IsApart → start <+: g.ledger.audit →
      Responds InMemory.serve number r g a g' → start <+: g'.ledger.audit :=
    fun r g a g' _ hlog hresponds => hlog.trans hresponds.audit_prefix
  exact ((conclude_concludes payload results).frame hkept h₁).mono
    (fun _ g h => ⟨g.ledger.audit, h.2, h.1.audits (.inl rfl)⟩) (fun _ _ h => h.2) fun _ h => h.2

end Delivery

end UsageLedger
