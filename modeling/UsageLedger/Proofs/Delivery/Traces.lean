import UsageLedger.Proofs.Delivery.Billing
import UsageLedger.Proofs.Delivery.Desk
import UsageLedger.Proofs.Delivery.Exchanges
import UsageLedger.Proofs.Ledger.Posting

/-! What a message leaves in the ledger when it is not billed. Attempts that come to nothing stop anywhere on
their way, and each of them may have recorded the event and opened the account before. As long as postings
that fail or are given up do nothing, these are all the traces: rows of the event at the end of the audit
log, one for each attempt, and one empty account. -/

namespace UsageLedger.Delivery

open Ledger Program

/-! ### Traces -/

/-- Whether a ledger in memory became another one by the traces of a payload that was not posted: rows of its
event at the end of the audit log, so many at most, and an empty account of its user if there was none. -/
structure Traced (payload : Text.Bytes) (count : Nat) (m m' : InMemory) : Prop where
  statements : m'.statements = m.statements
  accounts : m'.accounts = m.accounts ∨ ∃ e, Event.decode payload = .ok e ∧ m.account? e.user = none ∧
    m'.accounts = m.accounts ++ [Account.fresh e.user]
  audit : ∃ rows, m'.audit = m.audit ++ rows ∧ rows.length ≤ count ∧ ∀ row ∈ rows, Event.decode payload = .ok row

variable {payload : Text.Bytes} {count : Nat} {m m' : InMemory} {e : Event}

namespace Traced

theorem refl (payload : Text.Bytes) (count : Nat) (m : InMemory) : Traced payload count m m where
  statements := rfl
  accounts := .inl rfl
  audit := ⟨[], (List.append_nil _).symm, Nat.zero_le _, by simp⟩

theorem mono {count' : Nat} (h : Traced payload count m m') (hle : count ≤ count') : Traced payload count' m m' where
  statements := h.statements
  accounts := h.accounts
  audit := by
    obtain ⟨rows, haudit, hlength, hrows⟩ := h.audit
    exact ⟨rows, haudit, hlength.trans hle, hrows⟩

theorem record (h : Traced payload count m m') (hdecode : Event.decode payload = .ok e) :
    Traced payload (count + 1) m (m'.record e) where
  statements := h.statements
  accounts := h.accounts
  audit := by
    obtain ⟨rows, haudit, hlength, hrows⟩ := h.audit
    refine ⟨rows ++ [e], ?_, ?_, ?_⟩
    · rw [InMemory.record, haudit, List.append_assoc]
    · simpa using hlength
    · simpa [or_imp, forall_and] using ⟨hrows, hdecode⟩

/-- The account of the event's user is opened once. -/
theorem ensure (h : Traced payload count m m') (hdecode : Event.decode payload = .ok e) :
    Traced payload count m (m'.ensure e.user) := by
  unfold InMemory.ensure
  split
  · rename_i hnone
    have hsame : m'.accounts = m.accounts := by
      rcases h.accounts with hsame | ⟨e', hdecode', -, hopened⟩
      · exact hsame
      · obtain rfl : e' = e := Except.ok.inj (hdecode'.symm.trans hdecode)
        rw [InMemory.account?, hopened] at hnone
        simp [Account.fresh] at hnone
    have hnew : m.account? e.user = none := by
      rwa [InMemory.account?, hsame] at hnone
    exact ⟨h.statements, .inr ⟨e, hdecode, hnew, hsame ▸ rfl⟩, h.audit⟩
  · exact h

end Traced

/-- Whether a request, if it changes the ledger at all, opens the account of a user. -/
def Request.IsSlight (user : String) : Request → Prop
  | .ledger (.record _) => False
  | .ledger (.create _ _) => False
  | .ledger (.ensure other) => other = user
  | _ => True

theorem Request.IsAside.isSlight {r : Request} (h : r.IsAside) (user : String) : r.IsSlight user := by
  cases r with
  | ledger call =>
      cases call with
      | balance other => trivial
      | _ => exact h.elim
  | _ => trivial

/-- Whether a request is none of the ledger's business. -/
def Request.IsApart : Request → Prop
  | .ledger _ => False
  | _ => True

theorem Responds.ledger_of_isApart {σ : Type} {serve : Service σ} {number : Nat} {r : Request} {a : r.Answer}
    {g g' : Standing σ} (h : Responds serve number r g a g') (hr : r.IsApart) : g'.ledger = g.ledger := by
  rcases h.ledger with hsame | ⟨call, rfl, -⟩
  · exact hsame
  · exact hr.elim

section Responses

variable {number : Nat} {r : Request} {a : r.Answer} {g g' : Standing InMemory}

theorem Traced.slight (h : Traced payload count m g.ledger) (hdecode : Event.decode payload = .ok e)
    (hr : r.IsSlight e.user) (hresponds : Responds InMemory.serve number r g a g') :
    Traced payload count m g'.ledger := by
  rcases hresponds.ledger with hsame | ⟨call, rfl, hserved⟩
  · rwa [hsame]
  · rw [hserved]
    cases call with
    | record e' => exact hr.elim
    | find id => exact h
    | ensure user =>
        obtain rfl : user = e.user := hr
        exact h.ensure hdecode
    | create s delta => exact hr.elim
    | balance user => exact h

/-- A recording adds a row at most, also where it fails or is given up. -/
theorem Traced.recorded {a : Option (Except Error Unit)} (h : Traced payload count m g.ledger)
    (hdecode : Event.decode payload = .ok e)
    (hresponds : Responds InMemory.serve number (.ledger (.record e)) g a g') :
    Traced payload (count + 1) m g'.ledger := by
  rcases Responds.ledger (r := .ledger (.record e)) hresponds with hsame | ⟨call, hcall, hserved⟩
  · rw [hsame]
    exact h.mono (Nat.le_succ _)
  · obtain rfl := Request.ledger.inj hcall
    rw [hserved]
    exact h.record hdecode

end Responses

/-! ### Runs in which something is known of all exchanges -/

/-- The surroundings of a program in which all exchanges are of some kind. -/
def Among {σ : Type} (serve : Service σ) (number : Nat) (kind : Exchange σ → Prop) : Surroundings (Standing σ) :=
  fun r g a g' => Responds serve number r g a g' ∧ kind ⟨r, a, g, g'⟩

/-- A program that meets a contract among exchanges of a kind meets it in a world where its exchanges are of that
kind. -/
theorem Run.program_among {σ α : Type} {s : Setup σ} {m : Message} {w : World σ} {kind : Exchange σ → Prop}
    {p : Program α} {c : Contract (Standing σ) α} (hp : p.Meets (Among s.serve m.number kind) c w.standing)
    (hkind : ∀ x ∈ exchanges s m p w, kind x) :
    Ends (program s m p) w (fun a w' => c.ends a w'.standing) fun _ _ => True := by
  induction p generalizing w with
  | done a => exact hp
  | overflow => trivial
  | ask r next ih =>
      change Ends (answer s m r >>= fun a => program s m (next a)) w _ _
      rw [Ends, exec_bind]
      rcases hexec : exec (answer s m r) w with ⟨halt | a, w'⟩
      · trivial
      · rw [exchanges_ask hexec] at hkind
        obtain ⟨hfirst, hrest⟩ := List.forall_mem_cons.1 hkind
        exact ih a (hp.2 a _ ⟨(answer_ends m r).ok hexec, hfirst⟩) hrest

/-- Whether an exchange, if it is a posting that was answered with a failure or not at all, did nothing. -/
def Exchange.IsHonest {σ : Type} (x : Exchange σ) : Prop := x.unheard? ≠ none → x.after.ledger = x.before.ledger

abbrev Honestly (number : Nat) : Surroundings (Standing InMemory) := Among InMemory.serve number Exchange.IsHonest

/-! ### What attempts leave -/

variable {rate : Decimal} {bound number : Nat} {g : Standing InMemory} {α : Type}

/-- A contract that says what is left in the ledger by whatever comes to a result of some kind. -/
def tracing (payload : Text.Bytes) (count : Nat) (m : InMemory) (unposted : α → Prop) :
    Contract (Standing InMemory) α :=
  ⟨fun _ _ => True, fun a g => unposted a → Traced payload count m g.ledger, fun _ => True⟩

/-- A posting that did not post leaves a row and an account at most. -/
theorem post_traced (rate : Decimal) (hdecode : Event.decode payload = .ok e) (h : Traced payload count m g.ledger) :
    (post rate e).run.Meets (Honestly number)
      (tracing payload (count + 1) m fun posted => ∀ s, posted ≠ .ok (some s)) g := by
  rw [run_post]
  refine ⟨trivial, fun _ g₁ h₁ => ?_⟩
  have htraced₁ := h.recorded hdecode h₁.1
  refine Meets.proceed (fun _ => htraced₁) (fun _ _ => htraced₁) fun _ _ => ⟨trivial, fun _ g₂ h₂ => ?_⟩
  have htraced₂ := htraced₁.slight (r := .ledger (.find e.id)) hdecode trivial h₂.1
  refine Meets.proceed (fun _ => htraced₂) (fun _ _ => htraced₂) fun found _ => ?_
  cases found with
  | some t => exact fun _ => htraced₂
  | none =>
      refine ⟨trivial, fun _ g₃ h₃ => ?_⟩
      have htraced₃ := htraced₂.slight (r := .ledger (.ensure e.user)) hdecode rfl h₃.1
      refine Meets.proceed (fun _ => htraced₃) (fun _ _ => htraced₃) fun _ _ => ?_
      rw [postStatement]
      split
      · exact fun _ => htraced₃
      · split
        · trivial
        · rename_i x _ amount _
          refine ⟨trivial, fun (createdAt : Instant) g₄ h₄ => ⟨trivial, fun answer g₅ h₅ => ?_⟩⟩
          obtain rfl : g₄ = g₃ := h₄.1
          obtain ⟨-, hhonest⟩ := h₅
          -- the statement is posted only with an answer that it was
          rcases answer with _ | (error | reply)
          · have hsame : g₅.ledger = g₄.ledger := hhonest (Option.some_ne_none _)
            exact fun _ => hsame ▸ htraced₃
          · have hsame : g₅.ledger = g₄.ledger := hhonest (Option.some_ne_none _)
            exact fun _ => hsame ▸ htraced₃
          · exact fun hunposted => (hunposted _ rfl).elim

/-- Whether an attempt came to anything but a posting. -/
def IsUnposted (result : Except Error Outcome) : Prop := ∀ s balance, result ≠ .ok (.posted s balance)

theorem attempt_traced (rate : Decimal) (bound : Nat) (h : Traced payload count m g.ledger) :
    (attempt rate bound payload).Meets (Honestly number) (tracing payload (count + 1) m IsUnposted) g := by
  cases hdecode : Event.decode payload with
  | error error =>
      rw [attempt_of_error hdecode]
      exact fun _ => h.mono (Nat.le_succ _)
  | ok e =>
      rw [attempt_of_ok hdecode]
      refine ⟨trivial, fun _ g₁ ⟨h₁, _⟩ => ?_⟩
      obtain rfl : g₁ = g := h₁
      apply Meets.bind (post_traced rate hdecode h)
      intro posted g₂ h₂
      have hkept : ∀ r (g : Standing InMemory) (a : r.Answer) g', r.IsAside →
          ((∀ s, posted ≠ .ok (some s)) → Traced payload (count + 1) m g.ledger) → Honestly number r g a g' →
          (∀ s, posted ≠ .ok (some s)) → Traced payload (count + 1) m g'.ledger :=
        fun r g a g' haside h hhonestly hposted => (h hposted).slight hdecode (haside.isSlight _) hhonestly.1
      refine ((attemptPosted_meets bound e posted).frame hkept h₂).mono (fun _ _ _ => trivial) ?_ fun _ _ => trivial
      rintro result g₃ ⟨hconcludes, htraced⟩ hunposted
      refine htraced fun s hposted => ?_
      subst hposted
      obtain ⟨balance, hresult⟩ := hconcludes
      exact hunposted s balance hresult

/-- Attempts leave a row each. -/
theorem attemptResults_traced (rate : Decimal) (bound n : Nat) (h : Traced payload count m g.ledger) :
    (attemptResults rate bound payload n).Meets (Honestly number)
      (tracing payload (count + n) m fun results => ∀ result ∈ results, IsUnposted result) g := by
  induction n generalizing count g with
  | zero => exact fun _ => h
  | succ n ih =>
      apply Meets.bind (attempt_traced rate bound h)
      intro result g₁ h₁
      cases result with
      | ok outcome => exact fun hunposted => (h₁ (hunposted _ List.mem_cons_self)).mono (by omega)
      | error error =>
          have htraced : Traced payload (count + 1) m g₁.ledger := h₁ fun _ _ => nofun
          apply Meets.request trivial
          rintro _ g₂ ⟨rfl, -⟩
          refine Meets.bind (ih htraced) fun results g₃ h₃ hunposted => ?_
          rw [Nat.add_right_comm] at h₃
          exact h₃ fun result hresult => hunposted result (List.mem_cons_of_mem _ hresult)

/-- After its attempts a settlement asks nothing of the ledger, and it acknowledges as done what has succeeded. -/
theorem conclude_concludes (payload : Text.Bytes) (results : List (Except Error Outcome)) :
    (conclude payload results).Meets anyhow
      (.plain Request.IsApart
        (fun x => x.results = results ∧ (x.disposition = .acknowledged ↔ succeeded results = true)) False) () := by
  unfold conclude
  split
  · rename_i hsucceeded
    apply Meets.request trivial
    exact fun _ _ _ => ⟨rfl, fun _ => hsucceeded, fun _ => rfl⟩
  · rename_i hfailed
    apply Meets.request trivial
    intro outcome _ _
    cases outcome with
    | ok accepted =>
        apply Meets.request trivial
        intro _ _ _
        apply Meets.request trivial
        exact fun _ _ _ => ⟨rfl, nofun, fun h => (hfailed h).elim⟩
    | error rejection =>
        apply Meets.request trivial
        exact fun _ _ _ => ⟨rfl, nofun, fun h => (hfailed h).elim⟩

/-- What the attempts come to holds of the settlement, if the requests after them keep it. -/
theorem settlement_of_attemptResults {γ : Type} {around : Surroundings γ} {bound : Nat}
    {ends : List (Except Error Outcome) → γ → Prop} {overflows : γ → Prop} {g : γ}
    (h : (attemptResults rate bound payload Limits.attempts).Meets around ⟨fun _ _ => True, ends, overflows⟩ g)
    (hkept : ∀ results r g (a : r.Answer) g', r.IsApart → ends results g → around r g a g' → ends results g') :
    (settlement rate bound payload).Meets around
      ⟨fun _ _ => True,
        fun x g => (x.disposition = .acknowledged ↔ succeeded x.results = true) ∧ ends x.results g, overflows⟩ g := by
  refine Meets.bind h fun results g₁ h₁ => ?_
  refine ((conclude_concludes payload results).frame (hkept results) h₁).mono (fun _ _ _ => trivial) ?_
    fun _ h => h.1.elim
  rintro ⟨disposition, _⟩ g₂ ⟨⟨rfl, hdisposition⟩, hends⟩
  exact ⟨hdisposition, hends⟩

theorem settlement_traced (rate : Decimal) (bound : Nat) (h : Traced payload count m g.ledger) :
    (settlement rate bound payload).Meets (Honestly number)
      ⟨fun _ _ => True,
        fun x g => (x.disposition = .acknowledged ↔ succeeded x.results = true) ∧
          ((∀ result ∈ x.results, IsUnposted result) → Traced payload (count + Limits.attempts) m g.ledger),
        fun _ => True⟩ g := by
  refine settlement_of_attemptResults (attemptResults_traced rate bound Limits.attempts h) ?_
  intro results r g a g' hr h hhonestly hunposted
  rw [hhonestly.1.ledger_of_isApart hr]
  exact h hunposted

/-- What becomes of a message is the disposition of its settlement. -/
theorem Run.exec_settle_eq_ok_iff {σ : Type} {s : Setup σ} {m : Message} {w w' : World σ} {d : Disposition} :
    exec (settle s m) w = (.ok d, w') ↔ ∃ x : Settlement, x.disposition = d ∧
      exec (program s m (settlement s.rate s.attemptTimeout m.payload)) w = (.ok x, w') := by
  rw [Session.exec_settle]
  rcases exec (program s m (settlement s.rate s.attemptTimeout m.payload)) w with ⟨halt | x, w₁⟩
  · simp [Except.map]
  · simp [Except.map]

/-- A message that is not acknowledged as billed was not billed. If postings that fail or are given up do nothing,
its handling leaves all statements and all accounts with their balances as they are; what may be new is an empty
account of the event's user, and three rows of the event at the end of the audit log. -/
theorem unacknowledged_leaves_traces {rate : Decimal} {attemptTimeout handoff : Nat} {horizon : Option Nat}
    {m : Message} {w w' : World InMemory} {d : Disposition}
    (hhonest : ∀ x ∈ Run.exchanges (.inMemory rate attemptTimeout handoff horizon) m
      (settle rate attemptTimeout m.payload) w, x.IsHonest)
    (hsettled : Run.exec (Run.settle (.inMemory rate attemptTimeout handoff horizon) m) w = (.ok d, w'))
    (hd : d ≠ .acknowledged) : Traced m.payload 3 w.ledger w'.ledger := by
  rw [settle_eq, Run.exchanges_map] at hhonest
  obtain ⟨x, rfl, hexec⟩ := Run.exec_settle_eq_ok_iff.1 hsettled
  have hbegin : Traced m.payload 0 w.standing.ledger w.standing.ledger := .refl _ _ _
  obtain ⟨hdisposition, htraced⟩ := (Run.program_among (s := .inMemory rate attemptTimeout handoff horizon)
    (settlement_traced rate attemptTimeout hbegin) hhonest).ok hexec
  have hfailed : ∀ result ∈ x.results, IsUnposted result := by
    rintro result hmem s balance rfl
    exact hd (hdisposition.2 (List.any_eq_true.2 ⟨_, hmem, rfl⟩))
  exact htraced hfailed

/-! ### Honest schedules -/

namespace Desk

variable {d d' : Desk InMemory}

/-- Whether every posting that is slow or fails would do its work only after the wait. -/
def PostsLast (d : Desk InMemory) : Prop := ∀ s delta, ∀ fault ∈ d.script (.create s delta), fault.workFirst = false

theorem PostsLast.sameBut (h : d.PostsLast) (hsame : d.SameBut d') : d'.PostsLast := by
  intro s delta
  rw [hsame.2]
  exact h s delta

theorem PostsLast.around {r : Request} {a : r.Answer} (h : d.PostsLast) (haround : Around InMemory.serve r d a d') :
    d'.PostsLast := by
  cases r with
  | time =>
      obtain rfl : d' = _ := haround
      exact h
  | bound ms =>
      obtain rfl : d' = _ := haround
      exact h
  | ledger call =>
      obtain rfl : d' = _ := congrArg Prod.snd haround
      intro s delta fault hfault
      simp only [Desk.call, begin, waited] at hfault
      split at hfault
      · exact h s delta fault (List.mem_of_mem_tail hfault)
      · exact h s delta fault hfault
  | alert a => exact h.sameBut haround
  | letter payload => exact h.sameBut haround
  | acknowledge => exact h.sameBut haround
  | count metric =>
      obtain rfl : d' = _ := haround
      exact h

/-- A posting that would work last and is answered with a failure or not at all does nothing. -/
theorem PostsLast.ledger_eq {s : Statement} {delta : Decimal} {a : Option (Except Error Unit)} (h : d.PostsLast)
    (haround : Around InMemory.serve (.ledger (.create s delta)) d a d') (ha : a ≠ some (.ok ())) :
    d'.ledger = d.ledger := by
  have hcall : (a, d') = d.call InMemory.serve (.create s delta) := haround
  have hfault : (d.begin (.create s delta)).1.workFirst = false := by
    rw [Desk.begin]
    cases hscript : d.script (.create s delta) with
    | nil => rfl
    | cons fault rest => exact h s delta fault (by rw [hscript]; exact List.mem_cons_self)
  rcases hbegin : d.begin (.create s delta) with ⟨fault, begun⟩
  have hlast : fault.workFirst = false := by rwa [hbegin] at hfault
  simp only [Desk.call, hbegin, hlast, Bool.false_or] at hcall
  obtain ⟨rfl, rfl⟩ := Prod.mk.inj hcall
  cases htimely : d.inTime fault.delay with
  | false => simp
  | true =>
      cases hfailure : fault.failure with
      | some text => simp
      | none =>
          -- it was carried out, and the ledger itself refused it
          cases hcreate : d.ledger.create s delta with
          | ok m' =>
              rw [htimely, hfailure, serve_create_eq hcreate] at ha
              exact (ha rfl).elim
          | error error => simp [serve_create_error hcreate]

theorem PostsLast.honest {w w' : World InMemory} {r : Request} {a : r.Answer} (h : w.desk.PostsLast)
    (haround : Around InMemory.serve r w.desk a w'.desk) : Exchange.IsHonest ⟨r, a, w.standing, w'.standing⟩ := by
  intro hunheard
  cases r with
  | ledger call =>
      cases call with
      | create s delta =>
          refine h.ledger_eq haround fun hanswer => hunheard ?_
          change a = _ at hanswer
          rw [hanswer]
          rfl
      | _ => exact (hunheard rfl).elim
  | _ => exact (hunheard rfl).elim

end Desk

/-- Where postings work last, whatever is slow or fails, all exchanges are honest. -/
theorem Run.exchanges_honest {rate : Decimal} {attemptTimeout handoff : Nat} {horizon : Option Nat} {m : Message}
    {w : World InMemory} (h : w.desk.PostsLast) (p : Program α) :
    ∀ x ∈ exchanges (.inMemory rate attemptTimeout handoff horizon) m p w, x.IsHonest := by
  induction p generalizing w with
  | done a => exact List.forall_mem_nil _
  | overflow => exact List.forall_mem_nil _
  | ask r next ih =>
      rcases hexec : exec (answer (.inMemory rate attemptTimeout handoff horizon) m r) w with ⟨halt | a, w'⟩
      · rw [exchanges, hexec]
        exact List.forall_mem_nil _
      · have haround := (answer_desk m r).ok hexec
        rw [exchanges_ask hexec]
        exact List.forall_mem_cons.2 ⟨h.honest haround, ih a (h.around haround)⟩

/-- A world in which no posting comes through: one never ends, one fails, and one takes too long. -/
def shakyWorld : World InMemory :=
  World.start InMemory.empty Queue.undrained Queue.undrained
    [(.create, [⟨none, none, false⟩, ⟨some 0, some "down", false⟩, ⟨some 6000, none, false⟩])] [] []

theorem shakyWorld_leaves_traces : ∃ w',
    Run.exec (Run.settle (.inMemory Credit.defaultRate 5000 1000 none) ⟨1, creditPayload, Fault.none⟩) shakyWorld =
      (.ok .deadLettered, w') ∧
    w'.ledger.audit.length = 3 ∧ w'.ledger.accounts = [Account.fresh "u"] ∧
    Traced creditPayload 3 shakyWorld.ledger w'.ledger := by
  have hlast : shakyWorld.desk.PostsLast := by
    intro s delta fault hfault
    change fault ∈ [_, _, _] at hfault
    simp only [List.mem_cons, List.not_mem_nil, or_false] at hfault
    rcases hfault with rfl | rfl | rfl <;> rfl
  have hrun : (Run.exec (Run.settle (.inMemory Credit.defaultRate 5000 1000 none) ⟨1, creditPayload, Fault.none⟩)
        shakyWorld).1.toOption = some .deadLettered ∧
      (Run.exec (Run.settle (.inMemory Credit.defaultRate 5000 1000 none) ⟨1, creditPayload, Fault.none⟩)
        shakyWorld).2.ledger.audit.length = 3 ∧
      (Run.exec (Run.settle (.inMemory Credit.defaultRate 5000 1000 none) ⟨1, creditPayload, Fault.none⟩)
        shakyWorld).2.ledger.accounts = [Account.fresh "u"] := by
    decide +kernel
  rcases hexec : Run.exec (Run.settle (.inMemory Credit.defaultRate 5000 1000 none) ⟨1, creditPayload, Fault.none⟩)
    shakyWorld with ⟨halt | d, w'⟩
  · rw [hexec] at hrun
    cases hrun.1
  · rw [hexec] at hrun
    obtain ⟨hd, haudit, haccounts⟩ := hrun
    obtain rfl : d = .deadLettered := Option.some.inj hd
    exact ⟨w', rfl, haudit, haccounts,
      unacknowledged_leaves_traces (Run.exchanges_honest hlast _) hexec (by decide)⟩

end UsageLedger.Delivery
