import UsageLedger.Proofs.Delivery.Billing
import UsageLedger.Proofs.Delivery.Desk
import UsageLedger.Proofs.Delivery.Exchanges
import UsageLedger.Proofs.Delivery.Reporting
import UsageLedger.Proofs.Ledger.Dating

/-! Side channels have no say in billing. Two runs of the same program on desks that are alike make the same calls
on the ledger and come to the same results, dates apart, however the clock goes and however alerts, dead letters
and acknowledgements are answered: the answers that may differ decide on no call, on no result of an attempt and
on no acknowledgement of a success. -/

namespace UsageLedger.Delivery

open Ledger Program

variable {σ α β : Type} {serve : Service σ}

/-! ### Runs on a desk -/

/-- A request and its answer. -/
structure Asked where
  request : Request
  answer : request.Answer

/-- The call on the ledger that was made, a date apart. -/
def Asked.call? : Asked → Option Call
  | ⟨.ledger call, _⟩ => some call.undated
  | _ => none

/-- The calls on the ledger that were made, dates apart. -/
def calls (log : List Asked) : List Call := log.filterMap Asked.call?

/-- What a program may ask and be told on a desk, and what it may come to; there is no result where it overflows. -/
inductive Runs (serve : Service σ) : Program α → Desk σ → List Asked → Option α → Desk σ → Prop
  | done {a : α} {d : Desk σ} : Runs serve (.done a) d [] (some a) d
  | overflow {d : Desk σ} : Runs serve .overflow d [] none d
  | ask {r : Request} {next : r.Answer → Program α} {a : r.Answer} {d d₁ d' : Desk σ} {log : List Asked}
      {result : Option α} (hanswer : Desk.Around serve r d a d₁) (hrest : Runs serve (next a) d₁ log result d') :
      Runs serve (.ask r next) d (⟨r, a⟩ :: log) result d'

namespace Runs

variable {d d' : Desk σ} {log : List Asked} {p : Program α}

theorem of_ask {r : Request} {next : r.Answer → Program α} {result : Option α}
    (h : Runs serve (.ask r next) d log result d') :
    ∃ a d₁ rest, Desk.Around serve r d a d₁ ∧ Runs serve (next a) d₁ rest result d' ∧ log = ⟨r, a⟩ :: rest := by
  cases h with
  | ask hanswer hrest => exact ⟨_, _, _, hanswer, hrest, rfl⟩

theorem of_request {r : Request} {f : r.Answer → Program α} {result : Option α}
    (h : Runs serve (request r >>= f) d log result d') :
    ∃ a d₁ rest, Desk.Around serve r d a d₁ ∧ Runs serve (f a) d₁ rest result d' ∧ log = ⟨r, a⟩ :: rest :=
  of_ask h

/-- A program in sequence runs one after the other, unless what comes first overflows. -/
theorem of_bind {f : α → Program β} {result : Option β} (h : Runs serve (p >>= f) d log result d') :
    (∃ a d₁ log₁ log₂, Runs serve p d log₁ (some a) d₁ ∧ Runs serve (f a) d₁ log₂ result d' ∧ log = log₁ ++ log₂) ∨
      result = none ∧ Runs serve p d log none d' := by
  induction p generalizing d log with
  | done a => exact .inl ⟨a, d, [], log, .done, h, rfl⟩
  | overflow =>
      change Runs serve .overflow d log result d' at h
      cases h with
      | overflow => exact .inr ⟨rfl, .overflow⟩
  | ask r next ih =>
      change Runs serve (.ask r fun a => (next a).bind f) d log result d' at h
      obtain ⟨a, d₁, rest, hanswer, hrest, rfl⟩ := h.of_ask
      rcases ih a hrest with ⟨b, d₂, log₁, log₂, h₁, h₂, rfl⟩ | ⟨rfl, h₁⟩
      · exact .inl ⟨b, d₂, ⟨r, a⟩ :: log₁, log₂, .ask hanswer h₁, h₂, rfl⟩
      · exact .inr ⟨rfl, .ask hanswer h₁⟩

/-- A program asks for nothing but what it may ask for, however it is answered. -/
theorem asks {asks : Request → Prop} {ends : α → Prop} {overflows : Prop} {result : Option α}
    (h : Runs serve p d log result d') (hp : p.Meets anyhow (.plain asks ends overflows) ()) :
    ∀ x ∈ log, asks x.request := by
  induction h with
  | done => simp
  | overflow => simp
  | @ask r next a d d₁ d' log result _ _ ih =>
      exact List.forall_mem_cons.2 ⟨hp.1, ih (hp.2 a () trivial)⟩

end Runs

namespace Run

variable {s : Setup σ} {m : Message} {w w' : World σ} {p : Program α}

/-- What a program is told in a world. -/
def log (s : Setup σ) (m : Message) (p : Program α) (w : World σ) : List Asked :=
  (exchanges s m p w).map fun x => ⟨x.request, x.answer⟩

/-- A program that runs in a world runs on the desk there. -/
theorem runs_of_exec {result : Option α}
    (hexec : exec (program s m p) w = (result.elim (.error .overflow) .ok, w')) :
    Runs s.serve p w.desk (log s m p w) result w'.desk := by
  induction p generalizing w with
  | done a =>
      obtain ⟨hresult, rfl⟩ := Prod.mk.inj hexec
      cases result with
      | none => cases hresult
      | some b =>
          obtain rfl := Except.ok.inj hresult
          exact .done
  | overflow =>
      obtain ⟨hresult, rfl⟩ := Prod.mk.inj hexec
      cases result with
      | none => exact .overflow
      | some b => cases hresult
  | ask r next ih =>
      change exec (answer s m r >>= fun a => program s m (next a)) w = _ at hexec
      rw [exec_bind] at hexec
      rcases hanswer : exec (answer s m r) w with ⟨halt | a, w₁⟩
      · obtain ⟨rfl, -⟩ := (answer_ends m r).error hanswer
        rw [hanswer] at hexec
        cases result <;> cases hexec
      · rw [hanswer] at hexec
        rw [log, exchanges_ask hanswer]
        exact .ask ((answer_desk m r).ok hanswer) (ih a hexec)

end Run

/-! ### Twins -/

/-- Whether two programs are the same but for what depends on the clock and on the side channels: answers that are
the same, dates apart, lead to programs that are twins again, and so do any two answers where it is asked for the
time or an alert is offered. A call on the ledger is made only while both have the same time left. -/
inductive Twin (R : α → α → Prop) : Bool → Program α → Program α → Prop
  | done {within : Bool} {a b : α} (h : R a b) : Twin R within (.done a) (.done b)
  | overflow {within : Bool} : Twin R within .overflow .overflow
  | time {within : Bool} {next next' : Instant → Program α} (h : ∀ t t', Twin R within (next t) (next' t')) :
      Twin R within (.ask .time next) (.ask .time next')
  | bound {within : Bool} {ms : Nat} {next next' : Unit → Program α} (h : Twin R true (next ()) (next' ())) :
      Twin R within (.ask (.bound ms) next) (.ask (.bound ms) next')
  | call {call : Call} {next next' : Option (Except Error call.Reply) → Program α}
      (h : ∀ a a', a.map (Except.map call.undatedReply) = a'.map (Except.map call.undatedReply) →
        Twin R true (next a) (next' a')) :
      Twin R true (.ask (.ledger call) next) (.ask (.ledger call) next')
  | create {s s' : Statement} {delta : Decimal} {next next' : Option (Except Error Unit) → Program α}
      (hs : s.undated = s'.undated) (h : ∀ a, Twin R true (next a) (next' a)) :
      Twin R true (.ask (.ledger (.create s delta)) next) (.ask (.ledger (.create s' delta)) next')
  | alert {within : Bool} {a a' : Alert} {next next' : Except Rejection Unit → Program α}
      (h : ∀ outcome outcome', Twin R false (next outcome) (next' outcome')) :
      Twin R within (.ask (.alert a) next) (.ask (.alert a') next')
  | count {within : Bool} {metric metric' : Metric} {next next' : Unit → Program α}
      (h : Twin R within (next ()) (next' ())) :
      Twin R within (.ask (.count metric) next) (.ask (.count metric') next')

namespace Twin

variable {R : α → α → Prop} {R' : β → β → Prop} {within : Bool} {p q : Program α}

/-- Twins that do not count on the time left are twins in any case. -/
theorem anyway (h : Twin R within p q) (hwithin : within = false) (within' : Bool) : Twin R within' p q := by
  induction h with
  | done h => exact .done h
  | overflow => exact .overflow
  | time _ ih => exact .time fun t t' => ih t t' hwithin
  | bound h => exact .bound h
  | call => cases hwithin
  | create => cases hwithin
  | alert h => exact .alert h
  | count _ ih => exact .count (ih hwithin)

theorem bind {f f' : α → Program β} (h : Twin R within p q) (hf : ∀ a b, R a b → Twin R' false (f a) (f' b)) :
    Twin R' within (p >>= f) (q >>= f') := by
  induction h with
  | done h => exact (hf _ _ h).anyway rfl _
  | overflow => exact .overflow
  | time _ ih => exact .time fun t t' => ih t t'
  | bound _ ih => exact .bound ih
  | call _ ih => exact .call fun a a' haa => ih a a' haa
  | create hs _ ih => exact .create hs fun a => ih a
  | alert _ ih => exact .alert fun outcome outcome' => ih outcome outcome'
  | count _ ih => exact .count ih

end Twin

/-! ### Attempts are twins of themselves -/

/-- An outcome without the time at which its statement was made. -/
def Outcome.undated : Outcome → Outcome
  | posted statement balance => posted statement.undated balance
  | duplicate => duplicate

/-- Whether two results of a posting are the same, a date apart. -/
def PostedAlike (a b : Except Setback (Option Statement)) : Prop :=
  a.map (Option.map Statement.undated) = b.map (Option.map Statement.undated)

def ResultAlike (a b : Except Error Outcome) : Prop := a.map Outcome.undated = b.map Outcome.undated

/-- The results of some attempts, dates apart. -/
def undatedResults (results : List (Except Error Outcome)) : List (Except Error Outcome) :=
  results.map (Except.map Outcome.undated)

def ResultsAlike (xs ys : List (Except Error Outcome)) : Prop := undatedResults xs = undatedResults ys

theorem ResultsAlike.succeeded {xs ys : List (Except Error Outcome)} (h : ResultsAlike xs ys) :
    succeeded xs = succeeded ys := by
  have hundated : ∀ results : List (Except Error Outcome), Delivery.succeeded (undatedResults results) =
      Delivery.succeeded results := by
    intro results
    rw [Delivery.succeeded, undatedResults, List.any_map, Delivery.succeeded]
    congr 1
    funext result
    cases result <;> rfl
  rw [← hundated xs, ← hundated ys, show undatedResults xs = undatedResults ys from h]

/-- A posting goes on alike with replies that are the same, dates apart, and is set back alike otherwise. -/
theorem Twin.proceed {γ : Type} {f f' : γ → Program (Except Setback (Option Statement))}
    {a a' : Option (Except Error γ)} (undated : γ → γ) (haa : a.map (Except.map undated) = a'.map (Except.map undated))
    (hf : ∀ reply reply', undated reply = undated reply' → Twin PostedAlike true (f reply) (f' reply')) :
    Twin PostedAlike true (Posting.proceed f a) (Posting.proceed f' a') := by
  rcases a with _ | (e | reply) <;> rcases a' with _ | (e' | reply')
  · exact .done rfl
  · cases haa
  · cases haa
  · cases haa
  · obtain rfl : e = e' := Except.error.inj (Option.some.inj haa)
    exact .done rfl
  · cases haa
  · cases haa
  · cases haa
  · exact hf reply reply' (Except.ok.inj (Option.some.inj haa))

theorem postStatement_twin (rate : Decimal) (e : Event) :
    Twin PostedAlike true (postStatement rate e) (postStatement rate e) := by
  rw [postStatement]
  cases e.details with
  | error error => exact .done rfl
  | ok x =>
      cases Credit.amount? rate e with
      | none => exact .overflow
      | some amount =>
          exact .time fun t t' => .create rfl fun a => Twin.proceed id rfl fun _ _ _ => .done rfl

theorem post_twin (rate : Decimal) (e : Event) : Twin PostedAlike true (post rate e).run (post rate e).run := by
  rw [run_post]
  refine .call fun a a' haa => Twin.proceed _ haa fun _ _ _ => .call fun a a' haa => Twin.proceed _ haa ?_
  intro found found' hfound
  have hundated : found.map Statement.undated = found'.map Statement.undated := hfound
  rcases found with _ | t <;> rcases found' with _ | t'
  · exact .call fun a a' haa => Twin.proceed _ haa fun _ _ _ => postStatement_twin rate e
  · cases hundated
  · cases hundated
  · exact .done rfl

theorem alertIfExhausted_twin (e : Event) (balance : Option Decimal) :
    Twin Eq false (alertIfExhausted e balance) (alertIfExhausted e balance) := by
  have hraise : Twin Eq false (raiseAlert e) (raiseAlert e) := by
    rw [raiseAlert]
    refine Twin.time fun t t' => Twin.alert fun outcome outcome' => ?_
    rcases outcome with rejection | accepted <;> rcases outcome' with rejection' | accepted' <;>
      exact .count (.done rfl)
  unfold alertIfExhausted
  split
  · split
    · exact hraise
    · exact .done rfl
  · exact .done rfl

theorem currentBalance_twin (bound : Nat) (user : String) :
    Twin Eq false (currentBalance bound user) (currentBalance bound user) := by
  rw [currentBalance]
  refine Twin.bound (Twin.call fun a a' haa => ?_)
  rcases a with _ | (error | balance) <;> rcases a' with _ | (error' | balance')
  · exact .done rfl
  · cases haa
  · cases haa
  · cases haa
  · exact .done rfl
  · cases haa
  · cases haa
  · cases haa
  · obtain rfl : balance = balance' := Except.ok.inj (Option.some.inj haa)
    exact .done rfl

/-- What follows a posting goes alike for postings that are the same, a date apart. -/
theorem attemptPosted_twin (bound : Nat) (e : Event) {posted posted' : Except Setback (Option Statement)}
    (h : PostedAlike posted posted') :
    Twin ResultAlike false (attemptPosted bound e posted) (attemptPosted bound e posted') := by
  rcases posted with setback | (_ | t) <;> rcases posted' with setback' | (_ | t')
  · obtain rfl : setback = setback' := Except.error.inj h
    rcases setback with _ | error <;> exact .done rfl
  · cases h
  · cases h
  · cases h
  · exact .count (.done rfl)
  · cases h
  · cases h
  · cases h
  · have hundated : t.undated = t'.undated := Option.some.inj (Except.ok.inj h)
    refine .count ((currentBalance_twin bound e.user).bind ?_)
    rintro balance _ rfl
    refine (alertIfExhausted_twin e balance).bind fun _ _ _ => .done ?_
    exact congrArg (fun statement => Except.ok (Outcome.posted statement balance)) hundated

/-- An attempt is its own twin. -/
theorem attempt_twin (rate : Decimal) (bound : Nat) (payload : Text.Bytes) :
    Twin ResultAlike false (attempt rate bound payload) (attempt rate bound payload) := by
  cases hdecode : Event.decode payload with
  | error error =>
      rw [attempt_of_error hdecode]
      exact .done rfl
  | ok e =>
      rw [attempt_of_ok hdecode]
      exact .bound ((post_twin rate e).bind fun _ _ h => attemptPosted_twin bound e h)

theorem attemptResults_twin (rate : Decimal) (bound : Nat) (payload : Text.Bytes) (n : Nat) :
    Twin ResultsAlike false (attemptResults rate bound payload n) (attemptResults rate bound payload n) := by
  induction n with
  | zero => exact .done rfl
  | succ n ih =>
      refine (attempt_twin rate bound payload).bind fun result result' h => ?_
      rcases result with error | outcome <;> rcases result' with error' | outcome'
      · exact .count (ih.bind fun _ _ hrest => .done (congrArg₂ List.cons h hrest))
      · cases h
      · cases h
      · exact .done (congrArg (· :: []) h)

/-! ### Desks that are alike -/

/-- Whether two desks differ at most in dates and, unless it matters, in the time left. -/
structure Desk.Alike (L : Dateless serve) (within : Bool) (d d' : Desk σ) : Prop where
  part : L.part d.ledger = L.part d'.ledger
  script : ∀ call call', Seam.ofCall call = Seam.ofCall call' → d.script call = d'.script call'
  left : within = true → d.left = d'.left

namespace Desk.Alike

variable {L : Dateless serve} {within : Bool} {d d' e e' : Desk σ}

theorem anyhow (h : d.Alike L within d') : d.Alike L false d' := ⟨h.part, h.script, nofun⟩

/-- Time that passes makes no difference where it does not matter. -/
theorem sameBut (h : d.Alike L within d') (he : d.SameBut e) (he' : d'.SameBut e') : e.Alike L false e' where
  part := by rw [he.1, he'.1, h.part]
  script call call' hseam := by rw [he.2, he'.2, h.script call call' hseam]
  left := nofun

theorem inTime (h : d.Alike L true d') (delay : Option Nat) : d.inTime delay = d'.inTime delay := by
  rw [Desk.inTime, Desk.inTime, h.left rfl]

theorem waited (h : d.Alike L true d') (delay : Option Nat) : (d.waited delay).Alike L true (d'.waited delay) where
  part := h.part
  script := h.script
  left _ := by rw [Desk.waited, Desk.waited, h.inTime, h.left rfl]

/-- Calls across the same seam have the same fault and use it up. -/
theorem begin {call call' : Call} (h : d.Alike L true d') (hseam : Seam.ofCall call = Seam.ofCall call') :
    (d.begin call).1 = (d'.begin call').1 ∧ (d.begin call).2.Alike L true (d'.begin call').2 := by
  refine ⟨by rw [Desk.begin, Desk.begin, h.script call call' hseam], h.part, fun other other' hother => ?_, h.left⟩
  simp only [Desk.begin, h.script other other' hother, hother, hseam]

/-- Calls across the same seam that the ledgers answer alike are answered alike on the desks. -/
theorem served {γ : Type} {call call' : Call} (f : Except Error call.Reply → γ) (f' : Except Error call'.Reply → γ)
    (h : d.Alike L true d') (hseam : Seam.ofCall call = Seam.ofCall call') (hfailed : ∀ e, f (.error e) = f' (.error e))
    (hanswer : f (serve call d.ledger).1 = f' (serve call' d'.ledger).1)
    (hpart : L.part (serve call d.ledger).2 = L.part (serve call' d'.ledger).2) :
    (d.call serve call).1.map f = (d'.call serve call').1.map f' ∧
      (d.call serve call).2.Alike L true (d'.call serve call').2 := by
  obtain ⟨hfault, hbegun⟩ := h.begin hseam
  rw [Desk.call, Desk.call]
  generalize d.begin call = begun, d'.begin call' = begun' at hfault hbegun ⊢
  obtain ⟨fault, begun⟩ := begun
  obtain ⟨fault', begun'⟩ := begun'
  obtain rfl : fault = fault' := hfault
  have hwaited := hbegun.waited fault.delay
  dsimp only
  rw [h.inTime]
  refine ⟨?_, ?_, hwaited.script, hwaited.left⟩
  · split
    · cases fault.failure with
      | none => exact congrArg some hanswer
      | some text => exact congrArg some (hfailed _)
    · rfl
  · dsimp only
    split
    · exact hpart
    · exact h.part

theorem call (h : d.Alike L true d') (call : Call) :
    (d.call serve call).1.map (Except.map call.undatedReply) = (d'.call serve call).1.map (Except.map call.undatedReply) ∧
      (d.call serve call).2.Alike L true (d'.call serve call).2 := by
  obtain ⟨hsame, hpart⟩ := L.serve_same call h.part
  exact h.served _ _ rfl (fun _ => rfl) hsame hpart

/-- Postings of statements that differ at most in dates are answered alike. -/
theorem create (h : d.Alike L true d') {s s' : Statement} (delta : Decimal) (hs : s.undated = s'.undated) :
    (d.call serve (.create s delta)).1 = (d'.call serve (.create s' delta)).1 ∧
      (d.call serve (.create s delta)).2.Alike L true (d'.call serve (.create s' delta)).2 := by
  obtain ⟨hsame, hpart⟩ := L.create_same delta h.part hs
  obtain ⟨hanswers, hdesks⟩ := h.served (fun answer : Except Error (Call.create s delta).Reply => answer)
    (fun answer : Except Error (Call.create s' delta).Reply => answer) rfl (fun _ => rfl) hsame hpart
  have hid : ∀ answer : Option (Except Error Unit), answer.map (fun x => x) = answer :=
    fun answer => congrFun Option.map_id_fun' answer
  exact ⟨(hid _).symm.trans (hanswers.trans (hid _)), hdesks⟩

end Desk.Alike

/-- Worlds with ledgers that differ at most in dates and with the same scripts of calls on them are alike. -/
theorem World.desk_alike {L : Dateless serve} {w w' : World σ} (hpart : L.part w.ledger = L.part w'.ledger)
    (hscript : ∀ call, w.faults.script (.ofCall call) = w'.faults.script (.ofCall call)) :
    w.desk.Alike L false w'.desk where
  part := hpart
  script call call' hseam := by
    change w.faults.script (.ofCall call) = w'.faults.script (.ofCall call')
    rw [hscript, hseam]
  left := nofun

/-- What twins are told on desks that are alike, and what they come to. -/
theorem Twin.runs {R : α → α → Prop} {within : Bool} {p q : Program α} {L : Dateless serve} {d d' e e' : Desk σ}
    {log log' : List Asked} {result result' : Option α} (h : Twin R within p q) (hd : d.Alike L within d')
    (hp : Runs serve p d log result e) (hq : Runs serve q d' log' result' e') :
    Option.Rel R result result' ∧ calls log = calls log' ∧ e.Alike L false e' := by
  induction h generalizing d d' log log' with
  | done h =>
      cases hp with
      | done =>
          cases hq with
          | done => exact ⟨.some h, rfl, hd.anyhow⟩
  | overflow =>
      cases hp with
      | overflow =>
          cases hq with
          | overflow => exact ⟨.none, rfl, hd.anyhow⟩
  | time _ ih =>
      obtain ⟨now, d₁, rest, hanswer, hrest, rfl⟩ := hp.of_ask
      obtain ⟨now', d₁', rest', hanswer', hrest', rfl⟩ := hq.of_ask
      obtain rfl : d₁ = d := hanswer
      obtain rfl : d₁' = d' := hanswer'
      obtain ⟨hresults, hcalls, hends⟩ := ih now now' hd hrest hrest'
      exact ⟨hresults, hcalls, hends⟩
  | @bound _ ms _ _ _ ih =>
      obtain ⟨_, d₁, rest, hanswer, hrest, rfl⟩ := hp.of_ask
      obtain ⟨_, d₁', rest', hanswer', hrest', rfl⟩ := hq.of_ask
      obtain rfl : d₁ = { d with left := ms } := hanswer
      obtain rfl : d₁' = { d' with left := ms } := hanswer'
      have hbegun : Desk.Alike L true { d with left := ms } { d' with left := ms } :=
        ⟨hd.part, hd.script, fun _ => rfl⟩
      obtain ⟨hresults, hcalls, hends⟩ := ih hbegun hrest hrest'
      exact ⟨hresults, hcalls, hends⟩
  | @call call _ _ _ ih =>
      obtain ⟨a, d₁, rest, hanswer, hrest, rfl⟩ := hp.of_ask
      obtain ⟨a', d₁', rest', hanswer', hrest', rfl⟩ := hq.of_ask
      obtain ⟨rfl, rfl⟩ : a = (d.call serve call).1 ∧ d₁ = (d.call serve call).2 := Prod.mk.inj hanswer
      obtain ⟨rfl, rfl⟩ : a' = (d'.call serve call).1 ∧ d₁' = (d'.call serve call).2 := Prod.mk.inj hanswer'
      obtain ⟨hanswers, hdesks⟩ := hd.call call
      obtain ⟨hresults, hcalls, hends⟩ := ih _ _ hanswers hdesks hrest hrest'
      exact ⟨hresults, congrArg (call.undated :: ·) hcalls, hends⟩
  | @create s s' delta _ _ hs _ ih =>
      obtain ⟨a, d₁, rest, hanswer, hrest, rfl⟩ := hp.of_ask
      obtain ⟨a', d₁', rest', hanswer', hrest', rfl⟩ := hq.of_ask
      obtain ⟨ha, rfl⟩ : a = (d.call serve (.create s delta)).1 ∧ d₁ = (d.call serve (.create s delta)).2 :=
        Prod.mk.inj hanswer
      obtain ⟨ha', rfl⟩ : a' = (d'.call serve (.create s' delta)).1 ∧ d₁' = (d'.call serve (.create s' delta)).2 :=
        Prod.mk.inj hanswer'
      obtain ⟨hanswers, hdesks⟩ := hd.create delta hs
      obtain rfl : a = a' := ha.trans (hanswers.trans ha'.symm)
      obtain ⟨hresults, hcalls, hends⟩ := ih _ hdesks hrest hrest'
      have hcall : (Call.create s delta).undated = (Call.create s' delta).undated := congrArg (Call.create · delta) hs
      exact ⟨hresults, congrArg₂ List.cons hcall hcalls, hends⟩
  | alert _ ih =>
      obtain ⟨outcome, d₁, rest, hanswer, hrest, rfl⟩ := hp.of_ask
      obtain ⟨outcome', d₁', rest', hanswer', hrest', rfl⟩ := hq.of_ask
      obtain ⟨hresults, hcalls, hends⟩ := ih outcome outcome' (hd.sameBut hanswer hanswer') hrest hrest'
      exact ⟨hresults, hcalls, hends⟩
  | count _ ih =>
      obtain ⟨_, d₁, rest, hanswer, hrest, rfl⟩ := hp.of_ask
      obtain ⟨_, d₁', rest', hanswer', hrest', rfl⟩ := hq.of_ask
      obtain rfl : d₁ = d := hanswer
      obtain rfl : d₁' = d' := hanswer'
      obtain ⟨hresults, hcalls, hends⟩ := ih hd hrest hrest'
      exact ⟨hresults, hcalls, hends⟩

/-! ### Settlements -/

theorem calls_append (log log' : List Asked) : calls (log ++ log') = calls log ++ calls log' := List.filterMap_append

/-- Whether a dead letter with the payload was taken. -/
def takes (payload : Text.Bytes) (log : List Asked) : Prop := (⟨.letter payload, .ok ()⟩ : Asked) ∈ log

/-- Whether a message was acknowledged as one that had a success. -/
def Settlement.isAcknowledged (x : Settlement) : Bool := x.disposition == .acknowledged

/-- What a settlement comes to after some attempts: a message with a success is acknowledged, and any other one is
dead-lettered if the dead letter is taken. There is nothing that it comes to if the attempts overflow. -/
structure Concluded (payload : Text.Bytes) (log : List Asked) (record : Option (List (Except Error Outcome)))
    (result : Option Settlement) : Prop where
  results : result.map Settlement.results = record
  acknowledged : result.any Settlement.isAcknowledged = record.any succeeded
  deadLettered : ∀ x, result = some x → x.isAcknowledged = false → (x.disposition = .deadLettered ↔ takes payload log)

/-- What is done with a message after its attempts calls no ledger. -/
theorem conclude_runs {payload : Text.Bytes} {record : List (Except Error Outcome)} {d d' : Desk σ} {log : List Asked}
    {result : Option Settlement} (h : Runs serve (conclude payload record) d log result d') :
    d.SameBut d' ∧ calls log = [] ∧ Concluded payload log (some record) result := by
  unfold conclude at h
  split at h
  · rename_i hsucceeded
    obtain ⟨a, d₁, rest, hanswer, hrest, rfl⟩ := h.of_request
    cases hrest with
    | done => exact ⟨hanswer, rfl, rfl, hsucceeded.symm, by rintro _ ⟨⟩ ⟨⟩⟩
  · rename_i hfailed
    obtain ⟨outcome, d₁, rest, hanswer, hrest, rfl⟩ := h.of_request
    rcases outcome with rejection | ⟨⟨⟩⟩
    · obtain ⟨_, d₂, _, hcounted, hlast, rfl⟩ := hrest.of_request
      obtain rfl : d₂ = d₁ := hcounted
      cases hlast with
      | done =>
          refine ⟨hanswer, rfl, rfl, (eq_false_of_ne_true hfailed).symm, ?_⟩
          rintro _ ⟨⟩ -
          refine ⟨nofun, fun htaken => ?_⟩
          rcases List.mem_pair.1 htaken with heq | heq <;> cases heq
    · obtain ⟨_, d₂, _, hcounted, hlast, rfl⟩ := hrest.of_request
      obtain rfl : d₂ = d₁ := hcounted
      obtain ⟨_, d₃, _, hacknowledged, hend, rfl⟩ := hlast.of_request
      cases hend with
      | done =>
          refine ⟨⟨hacknowledged.1.trans hanswer.1, hacknowledged.2.trans hanswer.2⟩, rfl, rfl,
            (eq_false_of_ne_true hfailed).symm, ?_⟩
          rintro _ ⟨⟩ -
          exact ⟨fun _ => List.mem_cons_self, fun _ => rfl⟩

section

variable {rate : Decimal} {bound : Nat} {payload : Text.Bytes} {d d' e e' : Desk σ} {log log' : List Asked}
  {result result' : Option Settlement}

/-- A settlement calls the ledger as its attempts do. -/
theorem settlement_runs (h : Runs serve (settlement rate bound payload) d log result e) :
    ∃ record d₁ log₁, Runs serve (attemptResults rate bound payload Limits.attempts) d log₁ record d₁ ∧
      d₁.SameBut e ∧ calls log = calls log₁ ∧ Concluded payload log record result := by
  rcases h.of_bind with ⟨record, d₁, log₁, log₂, h₁, h₂, rfl⟩ | ⟨rfl, h₁⟩
  · obtain ⟨hsame, hcalls, hconcluded⟩ := conclude_runs h₂
    refine ⟨some record, d₁, log₁, h₁, hsame, by rw [calls_append, hcalls, List.append_nil], hconcluded.results,
      hconcluded.acknowledged, fun x hx hnot => (hconcluded.deadLettered x hx hnot).trans ?_⟩
    have hnone : ¬takes payload log₁ := fun htaken => h₁.asks (attemptResults_meets rate bound payload _) _ htaken
    exact (List.mem_append.trans (or_iff_right hnone)).symm
  · exact ⟨none, e, log, h₁, ⟨rfl, rfl⟩, rfl, rfl, rfl, nofun⟩

/-- Settlements of a payload on desks that are alike go alike, whatever becomes of alerts, dead letters and
acknowledgements. -/
theorem settlement_alike {L : Dateless serve} (hd : d.Alike L false d')
    (h : Runs serve (settlement rate bound payload) d log result e)
    (h' : Runs serve (settlement rate bound payload) d' log' result' e') :
    calls log = calls log' ∧
      (result.map Settlement.results).map undatedResults = (result'.map Settlement.results).map undatedResults ∧
      result.any Settlement.isAcknowledged = result'.any Settlement.isAcknowledged ∧ e.Alike L false e' := by
  obtain ⟨record, d₁, log₁, hruns, hsame, hcalls, hconcluded⟩ := settlement_runs h
  obtain ⟨record', d₁', log₁', hruns', hsame', hcalls', hconcluded'⟩ := settlement_runs h'
  obtain ⟨hresults, hequal, hends⟩ := (attemptResults_twin rate bound payload _).runs hd hruns hruns'
  rw [hcalls, hcalls', hequal, hconcluded.results, hconcluded'.results, hconcluded.acknowledged,
    hconcluded'.acknowledged]
  refine ⟨rfl, ?_, ?_, hends.sameBut hsame hsame'⟩
  · cases hresults with
    | none => rfl
    | some hresults => exact congrArg some hresults
  · cases hresults with
    | none => rfl
    | some hresults => exact hresults.succeeded

end

/-! ### Messages one after another -/

/-- The settling of a message: what it came to, unless it overflowed, and the worlds before and after it. -/
structure Episode (σ : Type) where
  message : Message
  before : World σ
  settlement : Option Settlement
  after : World σ

namespace Episode

variable {s : Setup σ} {x : Episode σ}

/-- Whether the message is settled like this. -/
def Occurs (s : Setup σ) (x : Episode σ) : Prop :=
  Run.exec (Run.program s x.message (Delivery.settlement s.rate s.attemptTimeout x.message.payload)) x.before =
    (x.settlement.elim (.error .overflow) .ok, x.after)

/-- What the settlement asked for and was told. -/
def log (s : Setup σ) (x : Episode σ) : List Asked :=
  Run.log s x.message (Delivery.settlement s.rate s.attemptTimeout x.message.payload) x.before

def isAcknowledged (x : Episode σ) : Bool := x.settlement.any Settlement.isAcknowledged

theorem Occurs.runs (h : x.Occurs s) :
    Runs s.serve (Delivery.settlement s.rate s.attemptTimeout x.message.payload) x.before.desk (x.log s) x.settlement
      x.after.desk := Run.runs_of_exec h

/-- What the settlement comes to is the disposition of the message. -/
theorem Occurs.settles (h : x.Occurs s) :
    Run.exec (Run.settle s x.message) x.before =
      ((x.settlement.map Settlement.disposition).elim (.error .overflow) .ok, x.after) := by
  rw [Session.exec_settle, show Run.exec _ x.before = _ from h]
  cases x.settlement <;> rfl

/-- A message that is settled without being acknowledged is dead-lettered if and only if its dead letter is taken. -/
def DeadLettersWhatIsTaken (s : Setup σ) (x : Episode σ) : Prop :=
  ∀ result, x.settlement = some result → result.disposition ≠ .acknowledged →
    (result.disposition = .deadLettered ↔ takes x.message.payload (x.log s))

theorem Occurs.deadLettersWhatIsTaken (h : x.Occurs s) : x.DeadLettersWhatIsTaken s := by
  obtain ⟨_, _, _, _, _, _, hconcluded⟩ := settlement_runs h.runs
  intro result hresult hnot
  exact hconcluded.deadLettered result hresult (by simpa [Settlement.isAcknowledged] using hnot)

end Episode

/-- What there is of billing in the settling of a message, dates apart: the calls on the ledger, the results of the
attempts, whether it is acknowledged, and what the ledger is afterwards. -/
@[ext] structure Billed (L : Dateless serve) where
  calls : List Call
  results : Option (List (Except Error Outcome))
  acknowledged : Bool
  ledger : L.Part

def Episode.billed (L : Dateless serve) (s : Setup σ) (x : Episode σ) : Billed L where
  calls := calls (x.log s)
  results := (x.settlement.map Settlement.results).map undatedResults
  acknowledged := x.isAcknowledged
  ledger := L.part x.after.ledger

/-- Messages that are settled one after another. Between them anything may happen but to the ledger and to what is
left of its script. -/
inductive Episodes (s : Setup σ) : Desk σ → List (Episode σ) → Prop
  | nil {d : Desk σ} : Episodes s d []
  | cons {d : Desk σ} {x : Episode σ} {xs : List (Episode σ)} (hbefore : d.SameBut x.before.desk)
      (hoccurs : x.Occurs s) (hrest : Episodes s x.after.desk xs) : Episodes s d (x :: xs)

/-- The settling of messages one after another in a world. -/
def episodes (s : Setup σ) : World σ → List Message → List (Episode σ)
  | _, [] => []
  | w, m :: rest =>
    match Run.exec (Run.program s m (settlement s.rate s.attemptTimeout m.payload)) w with
    | (.ok result, w') => ⟨m, w, some result, w'⟩ :: episodes s w' rest
    | (.error _, w') => ⟨m, w, none, w'⟩ :: episodes s w' rest

/-- In a world without end in which all acknowledgements return, every message comes to be settled or overflows. -/
theorem episodes_occur {s : Setup σ} (w : World σ) (messages : List Message) (hhorizon : s.horizon = none)
    (hreturns : ∀ m ∈ messages, m.acknowledging.delay ≠ none) :
    Episodes s w.desk (episodes s w messages) ∧ (episodes s w messages).map (·.message) = messages := by
  induction messages generalizing w with
  | nil => exact ⟨.nil, rfl⟩
  | cons m rest ih =>
      obtain ⟨hm, hrest⟩ := List.forall_mem_cons.1 hreturns
      have hends := Run.program_desk (s := s) (m := m) (w := w)
        ((settlement_meets s.rate s.attemptTimeout m.payload).anywhere _ _)
      rw [episodes]
      rcases hexec : Run.exec (Run.program s m (settlement s.rate s.attemptTimeout m.payload)) w
        with ⟨halt | result, w'⟩
      · cases halt with
        | overflow => exact ⟨.cons ⟨rfl, rfl⟩ hexec (ih w' hrest).1, congrArg (m :: ·) (ih w' hrest).2⟩
        | horizon =>
            rcases hends.error hexec with hsome | hnever
            · rw [hhorizon] at hsome
              cases hsome
            · exact (hm hnever).elim
      · exact ⟨.cons ⟨rfl, rfl⟩ hexec (ih w' hrest).1, congrArg (m :: ·) (ih w' hrest).2⟩

/-- A setup with another bound on handoffs and another end of the world. -/
def Setup.bounded (s : Setup σ) (handoff : Nat) (horizon : Option Nat) : Setup σ :=
  { s with handoff := handoff, horizon := horizon }

/-- A message on two desks that are alike is settled alike. -/
theorem Episode.Occurs.alike {s : Setup σ} {L : Dateless s.serve} {handoff : Nat} {horizon : Option Nat}
    {x y : Episode σ} (hx : x.Occurs s) (hy : y.Occurs (s.bounded handoff horizon))
    (hpayload : x.message.payload = y.message.payload) (hdesks : x.before.desk.Alike L false y.before.desk) :
    x.billed L s = y.billed L (s.bounded handoff horizon) ∧ x.after.desk.Alike L false y.after.desk := by
  have hruns : Runs s.serve (Delivery.settlement s.rate s.attemptTimeout x.message.payload) y.before.desk
      (y.log (s.bounded handoff horizon)) y.settlement y.after.desk := by
    rw [hpayload]
    exact hy.runs
  obtain ⟨hcalls, hresults, hacknowledged, hends⟩ := settlement_alike hdesks hx.runs hruns
  exact ⟨Billed.ext hcalls hresults hacknowledged hends.part, hends⟩

/-- Billing is the same whatever becomes of alerts, dead letters and acknowledgements and however long a producer
waits for them: it follows from the payloads, the ledger and its script. All that becomes of dead letters is that
a message without a success is dead-lettered where its dead letter is taken. -/
theorem side_channels_have_no_say {s : Setup σ} (L : Dateless s.serve) {handoff : Nat} {horizon : Option Nat}
    {d d' : Desk σ} {xs ys : List (Episode σ)} (hd : d.Alike L false d') (hxs : Episodes s d xs)
    (hys : Episodes (s.bounded handoff horizon) d' ys)
    (hpayloads : xs.map (·.message.payload) = ys.map (·.message.payload)) :
    xs.map (·.billed L s) = ys.map (·.billed L (s.bounded handoff horizon)) ∧
      (∀ x ∈ xs, x.DeadLettersWhatIsTaken s) ∧ ∀ y ∈ ys, y.DeadLettersWhatIsTaken (s.bounded handoff horizon) := by
  induction hxs generalizing d' ys with
  | nil =>
      cases hys with
      | nil => exact ⟨by rw [List.map_nil, List.map_nil], List.forall_mem_nil _, List.forall_mem_nil _⟩
      | cons => cases hpayloads
  | @cons d x xs hbefore hoccurs _ ih =>
      cases hys with
      | nil => cases hpayloads
      | @cons _ y ys hbefore' hoccurs' hrest' =>
          obtain ⟨hpayload, hrest⟩ := List.cons.inj hpayloads
          obtain ⟨hsame, hends⟩ := hoccurs.alike hoccurs' hpayload (hd.sameBut hbefore hbefore')
          obtain ⟨hbilled, hletters, hletters'⟩ := ih hends hrest' hrest
          exact ⟨congrArg₂ List.cons hsame hbilled,
            List.forall_mem_cons.2 ⟨hoccurs.deadLettersWhatIsTaken, hletters⟩,
            List.forall_mem_cons.2 ⟨hoccurs'.deadLettersWhatIsTaken, hletters'⟩⟩

/-- A world in which a posting fails at first and side channels take what they are offered. -/
def openWorld : World InMemory :=
  World.start InMemory.empty Queue.undrained Queue.undrained [(.create, [⟨some 0, some "down", false⟩])] [] []

/-- The same world with side channels that take nothing. -/
def shutWorld : World InMemory := { openWorld with alerts := Queue.closed, letters := Queue.closed }

/-- A debit and a message that cannot be read. -/
def debitAndNonsense (acknowledging : Fault) : List Message :=
  [⟨1, debit.payload, acknowledging⟩, ⟨2, [], acknowledging⟩]

/-- Where side channels are shut and acknowledgements fail, the debit is billed as elsewhere, and the message that
cannot be read is dead-lettered elsewhere only. -/
theorem shutWorld_bills_as_openWorld :
    let taken := episodes punctual openWorld (debitAndNonsense Fault.none)
    let refused := episodes (punctual.bounded 0 none) shutWorld (debitAndNonsense ⟨some 7, some "gone", false⟩)
    taken.map (·.settlement.map (·.disposition)) = [some .acknowledged, some .deadLettered] ∧
      refused.map (·.settlement.map (·.disposition)) = [some .acknowledged, some .leftForRedelivery] ∧
      openWorld.desk.Alike InMemory.dateless false shutWorld.desk ∧ Episodes punctual openWorld.desk taken ∧
      Episodes (punctual.bounded 0 none) shutWorld.desk refused ∧
      taken.map (·.message.payload) = refused.map (·.message.payload) ∧
      taken.map (·.billed InMemory.dateless punctual) =
        refused.map (·.billed InMemory.dateless (punctual.bounded 0 none)) ∧
      (∀ x ∈ taken, x.DeadLettersWhatIsTaken punctual) ∧
      ∀ y ∈ refused, y.DeadLettersWhatIsTaken (punctual.bounded 0 none) := by
  intro taken refused
  have hdispositions : taken.map (·.settlement.map (·.disposition)) = [some .acknowledged, some .deadLettered] ∧
      refused.map (·.settlement.map (·.disposition)) = [some .acknowledged, some .leftForRedelivery] := by
    decide +kernel
  have halike : openWorld.desk.Alike InMemory.dateless false shutWorld.desk :=
    World.desk_alike rfl fun _ => rfl
  obtain ⟨htaken, hmessages⟩ : Episodes punctual openWorld.desk taken ∧ taken.map (·.message) = _ :=
    episodes_occur openWorld _ rfl (by simp [debitAndNonsense, Fault.none])
  obtain ⟨hrefused, hmessages'⟩ :
      Episodes (punctual.bounded 0 none) shutWorld.desk refused ∧ refused.map (·.message) = _ :=
    episodes_occur shutWorld _ rfl (by simp [debitAndNonsense])
  have hpayloads : taken.map (·.message.payload) = refused.map (·.message.payload) := by
    have hmap : ∀ xs : List (Episode InMemory),
        xs.map (·.message.payload) = (xs.map (·.message)).map (·.payload) := fun xs => List.map_map.symm
    rw [hmap, hmap, hmessages, hmessages']
    rfl
  exact ⟨hdispositions.1, hdispositions.2, halike, htaken, hrefused, hpayloads,
    side_channels_have_no_say InMemory.dateless halike htaken hrefused hpayloads⟩

end UsageLedger.Delivery
