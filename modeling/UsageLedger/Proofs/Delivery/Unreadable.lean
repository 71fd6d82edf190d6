import UsageLedger.Proofs.Delivery.Overflow
import UsageLedger.Proofs.Delivery.Postings
import UsageLedger.Proofs.Delivery.Reordering
import UsageLedger.Proofs.Delivery.Traces

/-! Payloads that cannot be read. Bytes that carry no event are refused before anything is asked of the ledger.
The details of an event are read only once the event was recorded, its statement was looked for and its
account was opened, so an event whose details cannot be read leaves traces: a row for each attempt and the
account; and it counts as billed if it has a statement already. -/

namespace UsageLedger

theorem Event.decode_eq_error {payload : Text.Bytes} {error : Error} (h : decode payload = .error error) :
    ∃ fault, error = .payload (.undecodableEvent payload fault) := by
  unfold decode at h
  split at h
  · cases h
  · exact ⟨_, (Except.error.inj h).symm⟩

theorem Event.details_eq_error {e : Event} {error : Error} (h : e.details = .error error) :
    ∃ fault, error = .payload (.undecodableExtra e.id fault) := by
  unfold details at h
  split at h
  · cases h
  · split at h
    · cases h
    · exact ⟨_, (Except.error.inj h).symm⟩

namespace Delivery

open Ledger Program

variable {payload : Text.Bytes} {e : Event} {error : Error} {rate : Decimal} {bound number : Nat}

/-! ### Bytes without an event -/

/-- Attempts at bytes without an event fail, and ask nothing of the ledger. -/
theorem attemptResults_of_error (h : Event.decode payload = .error error) (rate : Decimal) (bound n : Nat) :
    (attemptResults rate bound payload n).Meets anyhow
      (.plain Request.IsApart (fun results => succeeded results = false) False) () := by
  induction n with
  | zero => rfl
  | succ n ih =>
      rw [attemptResults, attempt_of_error h]
      exact Meets.request trivial fun _ _ _ => Meets.bind ih fun _ _ hfailed => hfailed

theorem settlement_of_error (h : Event.decode payload = .error error) (rate : Decimal) (bound : Nat) :
    (settlement rate bound payload).Meets anyhow
      (.plain Request.IsApart (fun x => x.disposition ≠ .acknowledged) False) () := by
  refine Meets.bind (attemptResults_of_error h rate bound Limits.attempts) fun results _ hfailed => ?_
  refine (conclude_concludes payload results).mono (fun _ _ h => h) ?_ fun _ h => h
  rintro x _ ⟨-, hdisposition⟩ hx
  exact Bool.false_ne_true (hfailed.symm.trans (hdisposition.1 hx))

/-! ### Events without readable details, whatever goes wrong -/

/-- Whether a request is anything but a posting. -/
def Request.IsNoPosting : Request → Prop
  | .ledger (.create _ _) => False
  | _ => True

theorem Request.IsAside.isNoPosting {r : Request} (h : r.IsAside) : r.IsNoPosting := by
  cases r with
  | ledger call =>
      cases call with
      | create s delta => exact h.elim
      | _ => trivial
  | _ => trivial

theorem Request.IsApart.isNoPosting {r : Request} (h : r.IsApart) : r.IsNoPosting := by
  cases r with
  | ledger call => exact h.elim
  | _ => trivial

theorem post_unread (rate : Decimal) (hdetails : e.details = .error error) :
    (post rate e).run.Meets anyhow
      (.plain Request.IsNoPosting (fun posted => ∀ s, posted ≠ .ok (some s)) False) () := by
  rw [run_post]
  refine ⟨trivial, fun _ _ _ => Meets.proceed (fun _ => nofun) (fun _ _ => nofun) fun _ _ => ?_⟩
  refine ⟨trivial, fun _ _ _ => Meets.proceed (fun _ => nofun) (fun _ _ => nofun) fun found _ => ?_⟩
  cases found with
  | some t => exact fun _ => nofun
  | none =>
      refine ⟨trivial, fun _ _ _ => Meets.proceed (fun _ => nofun) (fun _ _ => nofun) fun _ _ => ?_⟩
      rw [postStatement, hdetails]
      exact fun _ => nofun

theorem attempt_unread (hdecode : Event.decode payload = .ok e) (hdetails : e.details = .error error) (rate : Decimal)
    (bound : Nat) :
    (attempt rate bound payload).Meets anyhow (.plain Request.IsNoPosting IsUnposted False) () := by
  rw [attempt_of_ok hdecode]
  refine ⟨trivial, fun _ _ _ => Meets.bind (post_unread rate hdetails) fun posted _ hposted => ?_⟩
  refine (attemptPosted_meets bound e posted).mono (fun _ _ h => h.isNoPosting) ?_ fun _ h => h
  rintro result _ hconcludes s balance rfl
  rcases posted with (_ | error) | (_ | st)
  · cases hconcludes
  · cases hconcludes
  · cases hconcludes
  · exact hposted st rfl

theorem attemptResults_unread (hdecode : Event.decode payload = .ok e) (hdetails : e.details = .error error)
    (rate : Decimal) (bound n : Nat) :
    (attemptResults rate bound payload n).Meets anyhow
      (.plain Request.IsNoPosting (fun results => ∀ result ∈ results, IsUnposted result) False) () := by
  induction n with
  | zero => exact List.forall_mem_nil _
  | succ n ih =>
      apply Meets.bind (attempt_unread hdecode hdetails rate bound)
      intro result _ hresult
      cases result with
      | ok outcome => exact List.forall_mem_singleton.2 hresult
      | error error =>
          exact Meets.request trivial fun _ _ _ => Meets.bind ih fun _ _ hresults =>
            List.forall_mem_cons.2 ⟨hresult, hresults⟩

theorem settlement_unread (hdecode : Event.decode payload = .ok e) (hdetails : e.details = .error error)
    (rate : Decimal) (bound : Nat) :
    (settlement rate bound payload).Meets anyhow
      (.plain Request.IsNoPosting (fun x => ∀ result ∈ x.results, IsUnposted result) False) () := by
  refine Meets.bind (attemptResults_unread hdecode hdetails rate bound Limits.attempts) fun results _ hresults => ?_
  refine (conclude_concludes payload results).mono (fun _ _ h => h.isNoPosting) ?_ fun _ h => h
  rintro ⟨_, _⟩ _ ⟨rfl, -⟩
  exact hresults

/-- The requests of a run are those that its program may make. -/
theorem Run.exchanges_asks {σ α : Type} {s : Setup σ} {m : Message} {w : World σ} {p : Program α}
    {asks : Request → Prop} {ends : α → Prop} {overflows : Prop}
    (hp : p.Meets anyhow (.plain asks ends overflows) ()) : ∀ x ∈ exchanges s m p w, asks x.request := by
  induction p generalizing w with
  | done a => exact List.forall_mem_nil _
  | overflow => exact List.forall_mem_nil _
  | ask r next ih =>
      rcases hexec : exec (answer s m r) w with ⟨halt | a, w'⟩
      · rw [exchanges, hexec]
        exact List.forall_mem_nil _
      · rw [exchanges_ask hexec]
        exact List.forall_mem_cons.2 ⟨hp.1, ih a (hp.2 a () trivial)⟩

theorem Exchange.isHonest_of_isNoPosting {σ : Type} {x : Exchange σ} (h : x.request.IsNoPosting) : x.IsHonest := by
  obtain ⟨r, a, g, g'⟩ := x
  intro hunheard
  cases r with
  | ledger call =>
      cases call with
      | create s delta => exact h.elim
      | _ => exact (hunheard rfl).elim
  | _ => exact (hunheard rfl).elim

/-- What a program that makes no postings leaves, whatever goes wrong. -/
theorem Run.program_traces {α : Type} {rate : Decimal} {attemptTimeout handoff : Nat} {horizon : Option Nat}
    {m : Message} {w w' : World InMemory} {p : Program α} {ends unposted : α → Prop} {count : Nat} {a : α}
    (hplain : p.Meets anyhow (.plain Request.IsNoPosting ends False) ())
    (htraced : p.Meets (Honestly m.number) (tracing payload count w.ledger unposted) w.standing)
    (hends : ∀ a, ends a → unposted a)
    (hexec : exec (program (.inMemory rate attemptTimeout handoff horizon) m p) w = (.ok a, w')) :
    ends a ∧ Traced payload count w.ledger w'.ledger := by
  have hhonest : ∀ x ∈ exchanges (.inMemory rate attemptTimeout handoff horizon) m p w, x.IsHonest :=
    fun x hx => Exchange.isHonest_of_isNoPosting (exchanges_asks hplain x hx)
  have hresult := (program_ends (s := .inMemory rate attemptTimeout handoff horizon)
    (hplain.anywhere _ w.standing)).ok hexec
  exact ⟨hresult, (program_among (s := .inMemory rate attemptTimeout handoff horizon) htraced hhonest).ok hexec
    (hends a hresult)⟩

/-! ### Events without readable details, where nothing goes wrong -/

/-- What an attempt at an event without readable details comes to and leaves on a ledger that answers every
call. -/
inductive Unread (e : Event) (error : Error) (m : InMemory) : Except Error Outcome → InMemory → Prop
  | duplicate {t : Statement} (hfind : m.find? e.id = some t) : Unread e error m (.ok .duplicate) (m.record e)
  | failed (hnew : m.find? e.id = none) : Unread e error m (.error error) ((m.record e).ensure e.user)

theorem attempt_unread_calm (hdecode : Event.decode payload = .ok e) (hdetails : e.details = .error error)
    (rate : Decimal) (bound : Nat) {d : Desk InMemory} (hcalm : d.IsCalm) :
    (attempt rate bound payload).Meets (Desk.Around InMemory.serve) (calmly (Unread e error d.ledger) False) d := by
  refine (attempt_booked hdecode rate bound hcalm).mono (fun _ _ h => h) ?_ ?_
  swap
  · rintro - ⟨x, hreadable, -⟩
    rw [hdetails] at hreadable
    cases hreadable
  rintro result d' ⟨hcalm', posted, hconcludes, hbooked⟩
  refine ⟨hcalm', ?_⟩
  generalize d'.ledger = m' at hbooked ⊢
  cases hbooked with
  | duplicate hfind =>
      obtain rfl : result = _ := hconcludes
      exact .duplicate hfind
  | unread hnew hdetails' =>
      obtain rfl := Except.error.inj (hdetails.symm.trans hdetails')
      obtain rfl : result = _ := hconcludes
      exact .failed hnew
  | refused hnew hreadable =>
      rw [hdetails] at hreadable
      cases hreadable
  | posted hnew hreadable =>
      rw [hdetails] at hreadable
      cases hreadable

/-- An event that has its statement is taken for billed at the first attempt. -/
theorem attemptResults_unread_duplicate (hdecode : Event.decode payload = .ok e) (hdetails : e.details = .error error)
    (rate : Decimal) (bound n : Nat) {d : Desk InMemory} (hcalm : d.IsCalm) {t : Statement}
    (hfind : d.ledger.find? e.id = some t) :
    (attemptResults rate bound payload (n + 1)).Meets (Desk.Around InMemory.serve)
      (calmly (fun results m' => succeeded results = true ∧ m' = d.ledger.record e) False) d := by
  refine Meets.bind (attempt_unread_calm hdecode hdetails rate bound hcalm) fun result d₁ ⟨hcalm₁, hunread⟩ => ?_
  generalize hledger : d₁.ledger = m₁ at hunread
  cases hunread with
  | duplicate _ => exact ⟨hcalm₁, rfl, hledger⟩
  | failed hnew =>
      rw [hfind] at hnew
      cases hnew

/-- Attempts that each fail alike, whatever the ones before have left, are all made. -/
theorem attemptResults_fail {kept : InMemory → Prop} {trace : InMemory → InMemory}
    (hkept : ∀ m, kept m → kept (trace m))
    (hattempt : ∀ d : Desk InMemory, d.IsCalm → kept d.ledger →
      (attempt rate bound payload).Meets (Desk.Around InMemory.serve)
        (calmly (fun result m' => result = .error error ∧ m' = trace d.ledger) False) d)
    (n : Nat) {d : Desk InMemory} (hcalm : d.IsCalm) (hd : kept d.ledger) :
    (attemptResults rate bound payload n).Meets (Desk.Around InMemory.serve)
      (calmly (fun results m' => results = List.replicate n (.error error) ∧ m' = trace^[n] d.ledger) False) d := by
  induction n generalizing d with
  | zero => exact ⟨hcalm, rfl, rfl⟩
  | succ n ih =>
      refine Meets.bind (hattempt d hcalm hd) fun result d₁ ⟨hcalm₁, hresult, hledger⟩ => ?_
      subst hresult
      refine Meets.request trivial fun _ d₂ h₂ => ?_
      obtain rfl : d₂ = d₁ := h₂
      refine Meets.bind (ih hcalm₁ (hledger ▸ hkept _ hd)) fun results d₃ ⟨hcalm₃, hresults, hlast⟩ => ?_
      refine ⟨hcalm₃, by rw [hresults]; rfl, ?_⟩
      rw [hlast, hledger]
      rfl

theorem find?_after_trace {m : InMemory} (hnew : m.find? e.id = none) :
    ((m.record e).ensure e.user).find? e.id = none := by
  rw [InMemory.find?_ensure]
  exact hnew

/-- Any other is recorded at each attempt, and its account is open after the first. -/
theorem attemptResults_unread_failed (hdecode : Event.decode payload = .ok e) (hdetails : e.details = .error error)
    (rate : Decimal) (bound n : Nat) {d : Desk InMemory} (hcalm : d.IsCalm) (hnew : d.ledger.find? e.id = none) :
    (attemptResults rate bound payload n).Meets (Desk.Around InMemory.serve)
      (calmly (fun results m' => succeeded results = false ∧
        m' = (fun m : InMemory => (m.record e).ensure e.user)^[n] d.ledger) False) d := by
  have hattempt : ∀ d : Desk InMemory, d.IsCalm → d.ledger.find? e.id = none →
      (attempt rate bound payload).Meets (Desk.Around InMemory.serve)
        (calmly (fun result m' => result = .error error ∧ m' = (d.ledger.record e).ensure e.user) False) d := by
    intro d hcalm hnew
    refine (attempt_unread_calm hdecode hdetails rate bound hcalm).mono (fun _ _ h => h) ?_ fun _ h => h
    rintro result d₁ ⟨hcalm₁, hunread⟩
    refine ⟨hcalm₁, ?_⟩
    generalize d₁.ledger = m₁ at hunread ⊢
    cases hunread with
    | duplicate hfind =>
        rw [hnew] at hfind
        cases hfind
    | failed _ => exact ⟨rfl, rfl⟩
  have hkept : ∀ m : InMemory, m.find? e.id = none → ((m.record e).ensure e.user).find? e.id = none :=
    fun _ => find?_after_trace
  refine (attemptResults_fail hkept hattempt n hcalm hnew).mono (fun _ _ h => h) ?_ fun _ h => h
  rintro results d' ⟨hcalm', rfl, hledger⟩
  exact ⟨hcalm', by simp [succeeded, Except.isOk, Except.toBool], hledger⟩

/-- After attempts on a calm desk a settlement leaves the ledger as they left it. -/
theorem settlement_of_calm {ends : List (Except Error Outcome) → InMemory → Prop} {overflows : Prop} {d : Desk InMemory}
    (h : (attemptResults rate bound payload Limits.attempts).Meets (Desk.Around InMemory.serve)
      (calmly ends overflows) d) :
    (settlement rate bound payload).Meets (Desk.Around InMemory.serve)
      ⟨fun _ _ => True, fun x d' => (x.disposition = .acknowledged ↔ succeeded x.results = true) ∧
        d'.IsCalm ∧ ends x.results d'.ledger, fun _ => overflows⟩ d := by
  refine settlement_of_attemptResults h ?_
  rintro results r d a d' hr ⟨hcalm, hends⟩ haround
  refine ⟨haround.isCalm hcalm, ?_⟩
  rcases haround.ledger with hsame | ⟨call, rfl, -⟩
  · rwa [hsame]
  · exact hr.elim

/-! ### What is left of a payload that cannot be read -/

variable {attemptTimeout handoff : Nat} {horizon : Option Nat} {m : Message} {w w' : World InMemory} {d : Disposition}

/-- Such a payload has no amount that could overflow, so its attempts and its handling end. -/
theorem Run.returns_of_unreadable (hunreadable : ∀ e x, Event.decode m.payload = .ok e → e.details ≠ .ok x)
    (hhorizon : horizon = none) (hacknowledging : m.acknowledging.delay ≠ none) :
    let s := Setup.inMemory rate attemptTimeout handoff horizon
    (∃ result w', exec (attempt s m) w = (.ok result, w')) ∧ ∃ d w', exec (settle s m) w = (.ok d, w') := by
  intro s
  have hfits : ¬Overflows rate m.payload := by
    rintro ⟨e, x, hdecode, hdetails, -⟩
    exact hunreadable e x hdecode hdetails
  have hattempt := (attempt_meets rate attemptTimeout m.payload).anywhere (Responds s.serve m.number) w.standing
  have hsettlement := (settlement_meets rate attemptTimeout m.payload).anywhere (Responds s.serve m.number) w.standing
  obtain ⟨x, w', hexec⟩ := returns_of_ends (program_ends hsettlement) hhorizon hacknowledging hfits
  exact ⟨returns_of_ends (program_ends hattempt) hhorizon hacknowledging hfits, x.disposition, w',
    exec_settle_eq_ok_iff.2 ⟨x, rfl, hexec⟩⟩

theorem Run.settle_of_error (hdecode : Event.decode m.payload = .error error)
    (hsettled : exec (settle (.inMemory rate attemptTimeout handoff horizon) m) w = (.ok d, w')) :
    d ≠ .acknowledged ∧ w'.ledger = w.ledger := by
  obtain ⟨x, rfl, hexec⟩ := exec_settle_eq_ok_iff.1 hsettled
  have hkept : ∀ r (g : Standing InMemory) (a : r.Answer) g', r.IsApart → g.ledger = w.ledger →
      Responds InMemory.serve m.number r g a g' → g'.ledger = w.ledger :=
    fun r g a g' hr hg hresponds => (hresponds.ledger_of_isApart hr).trans hg
  exact (program_ends (s := .inMemory rate attemptTimeout handoff horizon)
    ((settlement_of_error hdecode rate attemptTimeout).frame hkept rfl)).ok hexec

theorem Run.settle_unread (hdecode : Event.decode m.payload = .ok e) (hdetails : e.details = .error error)
    (hsettled : exec (settle (.inMemory rate attemptTimeout handoff horizon) m) w = (.ok d, w')) :
    Traced m.payload 3 w.ledger w'.ledger := by
  obtain ⟨x, rfl, hexec⟩ := exec_settle_eq_ok_iff.1 hsettled
  have htraced : (settlement rate attemptTimeout m.payload).Meets (Honestly m.number)
      (tracing m.payload 3 w.ledger fun x : Settlement => ∀ result ∈ x.results, IsUnposted result) w.standing :=
    (settlement_traced rate attemptTimeout (.refl m.payload 0 w.ledger)).mono (fun _ _ h => h)
      (fun _ _ h => h.2) fun _ h => h
  exact (program_traces (settlement_unread hdecode hdetails rate attemptTimeout) htraced (fun _ h => h) hexec).2

theorem Run.settle_unread_calm (hdecode : Event.decode m.payload = .ok e) (hdetails : e.details = .error error)
    (hcalm : w.desk.IsCalm)
    (hsettled : exec (settle (.inMemory rate attemptTimeout handoff horizon) m) w = (.ok d, w')) :
    if (w.ledger.find? e.id).isSome then d = .acknowledged ∧ w'.ledger = w.ledger.record e
    else d ≠ .acknowledged ∧ w'.ledger = (((w.ledger.record e).record e).record e).ensure e.user := by
  obtain ⟨x, rfl, hexec⟩ := exec_settle_eq_ok_iff.1 hsettled
  cases hfind : w.ledger.find? e.id with
  | some t =>
      obtain ⟨hdisposition, -, hsucceeded, hledger⟩ :=
        (program_desk (s := .inMemory rate attemptTimeout handoff horizon) (settlement_of_calm
          (attemptResults_unread_duplicate hdecode hdetails rate attemptTimeout 2 hcalm hfind))).ok hexec
      exact ⟨hdisposition.2 hsucceeded, hledger⟩
  | none =>
      obtain ⟨hdisposition, -, hfailed, hledger⟩ :=
        (program_desk (s := .inMemory rate attemptTimeout handoff horizon) (settlement_of_calm
          (attemptResults_unread_failed hdecode hdetails rate attemptTimeout 3 hcalm hfind))).ok hexec
      refine ⟨fun hx => Bool.false_ne_true (hfailed.symm.trans (hdisposition.1 hx)), hledger.trans ?_⟩
      change ((((((w.ledger.record e).ensure e.user).record e).ensure e.user).record e).ensure e.user) = _
      simp only [InMemory.record_ensure, InMemory.ensure_ensure]

/-- A payload that cannot be read is not posted. Bytes without an event are refused at each attempt, and neither an
attempt nor the handling of the message changes the ledger. An event whose details cannot be read leaves a row
for each attempt and an empty account of its user at most, whatever goes wrong. Where nothing goes wrong it
leaves all of that, its attempts are refused and it is not acknowledged, unless it has a statement; then it is
recorded once, and acknowledged as a duplicate. -/
theorem unreadable_payload_leaves_traces (rate : Decimal) (attemptTimeout handoff : Nat) (horizon : Option Nat)
    (m : Message) (w : World InMemory) :
    let s := Setup.inMemory rate attemptTimeout handoff horizon
    ((∀ e x, Event.decode m.payload = .ok e → e.details ≠ .ok x) → horizon = none → m.acknowledging.delay ≠ none →
      (∃ result w', Run.exec (Run.attempt s m) w = (.ok result, w')) ∧
        ∃ d w', Run.exec (Run.settle s m) w = (.ok d, w')) ∧
    (∀ error, Event.decode m.payload = .error error →
      (∃ fault, error = .payload (.undecodableEvent m.payload fault)) ∧
      Run.exec (Run.attempt s m) w = (.ok (.error error), w) ∧
      ∀ d w', Run.exec (Run.settle s m) w = (.ok d, w') → d ≠ .acknowledged ∧ w'.ledger = w.ledger) ∧
    ∀ e error, Event.decode m.payload = .ok e → e.details = .error error →
      (∃ fault, error = .payload (.undecodableExtra e.id fault)) ∧
      (∀ result w', Run.exec (Run.attempt s m) w = (.ok result, w') →
        IsUnposted result ∧ Traced m.payload 1 w.ledger w'.ledger) ∧
      (∀ d w', Run.exec (Run.settle s m) w = (.ok d, w') → Traced m.payload 3 w.ledger w'.ledger) ∧
      (w.desk.IsCalm →
        (∀ result w', Run.exec (Run.attempt s m) w = (.ok result, w') → Unread e error w.ledger result w'.ledger) ∧
        ∀ d w', Run.exec (Run.settle s m) w = (.ok d, w') →
          if (w.ledger.find? e.id).isSome then d = .acknowledged ∧ w'.ledger = w.ledger.record e
          else d ≠ .acknowledged ∧ w'.ledger = (((w.ledger.record e).record e).record e).ensure e.user) := by
  intro s
  refine ⟨Run.returns_of_unreadable, fun error hdecode => ?_, fun e error hdecode hdetails => ?_⟩
  · refine ⟨Event.decode_eq_error hdecode, ?_, fun d w' => Run.settle_of_error hdecode⟩
    rw [Run.attempt, attempt_of_error hdecode]
    rfl
  · refine ⟨Event.details_eq_error hdetails, fun result w' hexec => ?_, fun d w' => Run.settle_unread hdecode hdetails,
      fun hcalm => ⟨fun result w' hexec => ?_, fun d w' => Run.settle_unread_calm hdecode hdetails hcalm⟩⟩
    · exact Run.program_traces (attempt_unread hdecode hdetails rate attemptTimeout)
        (attempt_traced rate attemptTimeout (.refl m.payload 0 w.ledger)) (fun _ h => h) hexec
    · exact ((Run.program_desk (s := s) (attempt_unread_calm hdecode hdetails rate attemptTimeout hcalm)).ok hexec).2

/-- The message whose details cannot be read. -/
def unclearMessage : Message := ⟨1, unclearPayload, Fault.none⟩

theorem unclearMessage_decodes : ∃ e error,
    Event.decode unclearMessage.payload = .ok e ∧ e.details = .error error := by
  have hunclear : ((Event.decode unclearMessage.payload).toOption.any fun e => e.details.toOption.isNone) = true := by
    decide +kernel
  cases hdecode : Event.decode unclearMessage.payload with
  | error error =>
      rw [hdecode] at hunclear
      cases hunclear
  | ok e =>
      rw [hdecode] at hunclear
      cases hdetails : e.details with
      | ok x => simp [hdetails, Except.toOption] at hunclear
      | error error => exact ⟨e, error, rfl, hdetails⟩

/-- One attempt at it in a world in which nothing has happened yet leaves its event in the audit log and an account
of its user. Its handling leaves three rows. -/
theorem unclearMessage_is_recorded : ∃ e error,
    Event.decode unclearMessage.payload = .ok e ∧ e.details = .error error ∧ quietWorld.ledger = InMemory.empty ∧
    let s := Setup.inMemory Credit.defaultRate 5000 1000 none
    let w := (Run.exec (Run.attempt s unclearMessage) quietWorld).2
    w.ledger.audit = [e] ∧ w.ledger.accounts = [Account.fresh "v"] ∧
      (Run.exec (Run.settle s unclearMessage) quietWorld).2.ledger.audit.length = 3 := by
  obtain ⟨e, error, hdecode, hdetails⟩ := unclearMessage_decodes
  have hrows : (Run.exec (Run.attempt (.inMemory Credit.defaultRate 5000 1000 none) unclearMessage)
      quietWorld).2.ledger.audit = (Event.decode unclearMessage.payload).toOption.toList := by
    decide +kernel
  rw [hdecode] at hrows
  exact ⟨e, error, hdecode, hdetails, rfl, hrows, by decide +kernel, by decide +kernel⟩

/-- Its handling ends and leaves it unacknowledged, with three rows and an account. -/
theorem unclearMessage_leaves_traces : ∃ e d w', Event.decode unclearMessage.payload = .ok e ∧
    Run.exec (Run.settle (.inMemory Credit.defaultRate 5000 1000 none) unclearMessage) quietWorld = (.ok d, w') ∧
    d ≠ .acknowledged ∧ w'.ledger = (((quietWorld.ledger.record e).record e).record e).ensure e.user := by
  obtain ⟨e, error, hdecode, hdetails⟩ := unclearMessage_decodes
  obtain ⟨hends, -, hunread⟩ :=
    unreadable_payload_leaves_traces Credit.defaultRate 5000 1000 none unclearMessage quietWorld
  have hunreadable : ∀ e' x, Event.decode unclearMessage.payload = .ok e' → e'.details ≠ .ok x := by
    intro e' x hdecode' hdetails'
    obtain rfl := Except.ok.inj (hdecode.symm.trans hdecode')
    rw [hdetails] at hdetails'
    cases hdetails'
  obtain ⟨-, d, w', hsettled⟩ := hends hunreadable rfl (by decide)
  obtain ⟨-, -, -, hcalm⟩ := hunread e error hdecode hdetails
  have hnobody : quietWorld.ledger.find? e.id = none := rfl
  have hleft := (hcalm fun _ => rfl).2 d w' hsettled
  rw [hnobody] at hleft
  exact ⟨e, d, w', hdecode, hsettled, hleft⟩

end Delivery

end UsageLedger
