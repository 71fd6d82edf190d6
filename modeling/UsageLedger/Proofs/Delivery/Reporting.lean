import UsageLedger.Proofs.Delivery.Billing
import UsageLedger.Proofs.Delivery.Exchanges
import UsageLedger.Proofs.Ledger.Posting

/-! Reports of postings. A posting that a consumer hears of is counted, the balance that it has left is read
next, and where nothing is left an alert is raised; nothing else is counted as a posting, and no other
alert is raised. A posting that is done without the consumer hearing of it is not made up for: the next
attempt finds the statement and takes the message for a duplicate. -/

namespace UsageLedger.Delivery

open Ledger Program

variable {σ α : Type} {serve : Service σ} {number : Nat} {t t' : Told σ} {e : Event}

/-- Whether a request neither posts nor counts a posting nor offers an alert. -/
def Request.isQuiet : Request → Bool
  | .ledger (.create _ _) => false
  | .count .statementsPosted => false
  | .alert _ => false
  | _ => true

namespace Exchange

def offered? : Exchange σ → Option Alert
  | ⟨.alert alert, _, _, _⟩ => some alert
  | _ => none

/-- The balance that was read. -/
def reading? : Exchange σ → Option Decimal
  | ⟨.ledger (.balance _), some (.ok balance), _, _⟩ => some balance
  | _ => none

/-- Whether nothing is heard of a posting, counted as one or alerted about. -/
structure IsQuiet (x : Exchange σ) : Prop where
  heard : x.heard? = none
  counted : x.request ≠ .count .statementsPosted
  offered : x.offered? = none

/-- Whether the balance of a user was asked for, and read as the ledger gives it. -/
structure IsReading (serve : Service σ) (m : σ) (user : String) (x : Exchange σ) : Prop where
  request : x.request = .ledger (.balance user)
  ledger : x.before.ledger = m
  served : ∀ balance, x.reading? = some balance → (serve (.balance user) m).1 = .ok balance

/-- Whether the alert was offered that a posting has left nothing. -/
def IsOffer (st : Statement) (x : Exchange σ) : Prop :=
  ∃ createdAt, x.request = .alert ⟨st.event, st.user, createdAt, .lackBalance, "insufficient funds"⟩

end Exchange

def offers (exchanges : List (Exchange σ)) : List Alert := exchanges.filterMap Exchange.offered?

section Lists

variable (xs ys : List (Exchange σ)) (x : Exchange σ)

@[simp] theorem offers_append : offers (xs ++ ys) = offers xs ++ offers ys := List.filterMap_append

@[simp] theorem offers_nil : offers ([] : List (Exchange σ)) = [] := rfl

@[simp] theorem offers_cons : offers (x :: xs) = x.offered?.toList ++ offers xs := by
  rw [offers, offers, List.filterMap_cons]
  cases x.offered? <;> rfl

end Lists

/-- Whether a balance is known and nothing is left. -/
def isExhausted : Option Decimal → Bool
  | some balance => balance.isNonpositive
  | none => false

/-- What follows a posting in a ledger `m`: it is counted and the balance is read, and if nothing is left an
alert is offered. -/
inductive IsReport (serve : Service σ) (m : σ) (st : Statement) : List (Exchange σ) → Prop
  | silent {counting bounding reading : Exchange σ} (hcounting : counting.request = .count .statementsPosted)
      (hbounding : bounding.IsQuiet) (hreading : reading.IsReading serve m st.user)
      (hleft : isExhausted reading.reading? = false) : IsReport serve m st [counting, bounding, reading]
  | alerting {counting bounding reading timing offering : Exchange σ}
      (hcounting : counting.request = .count .statementsPosted) (hbounding : bounding.IsQuiet)
      (hreading : reading.IsReading serve m st.user) (hexhausted : isExhausted reading.reading? = true)
      (htiming : timing.IsQuiet) (hoffering : offering.IsOffer st) :
      IsReport serve m st [counting, bounding, reading, timing, offering]

/-- Whether every posting that was heard is followed by its report, and all else is quiet. -/
inductive Reported (serve : Service σ) : List (Exchange σ) → Prop
  | nil : Reported serve []
  | quiet {exchanges : List (Exchange σ)} {x : Exchange σ} (h : Reported serve exchanges) (hx : x.IsQuiet) :
      Reported serve (exchanges ++ [x])
  | posting {exchanges report : List (Exchange σ)} {x : Exchange σ} {st : Statement}
      (h : Reported serve exchanges) (hx : x.heard? = some st) (hreport : IsReport serve x.after.ledger st report) :
      Reported serve (exchanges ++ x :: report)

/-- Whether the posting of a statement is reported among some exchanges. -/
def IsReported (serve : Service σ) (exchanges : List (Exchange σ)) (st : Statement) : Prop :=
  ∃ before x report after, exchanges = before ++ x :: (report ++ after) ∧ x.heard? = some st ∧
    IsReport serve x.after.ledger st report

/-! ### What is reported -/

namespace Exchange

variable {x : Exchange σ} {r : Request}

theorem heard?_of_request (hrequest : x.request = r) (hr : ∀ s delta, r ≠ .ledger (.create s delta)) :
    x.heard? = none := by
  obtain ⟨request, answer, before, after⟩ := x
  obtain rfl : request = r := hrequest
  cases request with
  | ledger call =>
      cases call with
      | create s delta => exact (hr s delta rfl).elim
      | _ => rfl
  | _ => rfl

theorem offered?_of_request (hrequest : x.request = r) (hr : ∀ alert, r ≠ .alert alert) :
    x.offered? = none := by
  obtain ⟨request, answer, before, after⟩ := x
  obtain rfl : request = r := hrequest
  cases request with
  | alert alert => exact (hr alert rfl).elim
  | _ => rfl

theorem isQuiet_of_request (hr : x.request.isQuiet = true) : x.IsQuiet where
  heard := heard?_of_request rfl fun s delta h => by rw [h] at hr; cases hr
  counted h := by rw [h] at hr; cases hr
  offered := offered?_of_request rfl fun alert h => by rw [h] at hr; cases hr

theorem exists_of_heard? {st : Statement} (h : x.heard? = some st) :
    ∃ delta, x.request = .ledger (.create st delta) := by
  unfold heard? at h
  split at h
  · exact ⟨_, congrArg (fun st => Request.ledger (.create st _)) (Option.some.inj h)⟩
  · cases h

theorem IsReading.isQuiet {m : σ} {user : String} (h : x.IsReading serve m user) : x.IsQuiet :=
  isQuiet_of_request (by rw [h.request]; rfl)

theorem IsOffer.offered? {st : Statement} (h : x.IsOffer st) :
    ∃ alert : Alert, x.offered? = some alert ∧ alert.event = st.event := by
  obtain ⟨createdAt, hrequest⟩ := h
  obtain ⟨request, answer, before, after⟩ := x
  obtain rfl : request = _ := hrequest
  exact ⟨_, rfl, rfl⟩

end Exchange

/-- A report tells of no posting, counts one, and offers no alert but the one about it. -/
theorem IsReport.summary {m : σ} {st : Statement} {report : List (Exchange σ)}
    (h : IsReport serve m st report) : heard report = [] ∧ countings .statementsPosted report = 1 ∧
      ((offers report).map (·.event)).Sublist [st.event] := by
  cases h with
  | silent hcounting hbounding hreading hleft =>
      have hread := hreading.isQuiet
      have hheard := Exchange.heard?_of_request hcounting (by simp)
      have hoffered := Exchange.offered?_of_request hcounting (by simp)
      simp [hheard, hoffered, hcounting, hbounding.heard, hbounding.counted, hbounding.offered, hread.heard,
        hread.counted, hread.offered]
  | alerting hcounting hbounding hreading hexhausted htiming hoffering =>
      have hread := hreading.isQuiet
      have hheard := Exchange.heard?_of_request hcounting (by simp)
      have hoffered := Exchange.offered?_of_request hcounting (by simp)
      obtain ⟨alert, halert, hevent⟩ := hoffering.offered?
      obtain ⟨createdAt, hrequest⟩ := hoffering
      have hlast := Exchange.heard?_of_request hrequest (by simp)
      simp [hheard, hoffered, hcounting, hbounding.heard, hbounding.counted, hbounding.offered, hread.heard,
        hread.counted, hread.offered, htiming.heard, htiming.counted, htiming.offered, hlast, hrequest, halert,
        hevent]

namespace Reported

variable {exchanges : List (Exchange σ)}

/-- Postings are counted when they are heard of, and alerts are about them and in their order. -/
theorem summary (h : Reported serve exchanges) :
    countings .statementsPosted exchanges = (heard exchanges).length ∧
      ((offers exchanges).map (·.event)).Sublist ((heard exchanges).map (·.event)) := by
  induction h with
  | nil => exact ⟨rfl, List.Sublist.slnil⟩
  | quiet h hx ih =>
      obtain ⟨hcount, hoffers⟩ := ih
      simpa [hx.heard, hx.counted, hx.offered] using ⟨hcount, hoffers⟩
  | @posting exchanges report x st h hx hreport ih =>
      obtain ⟨hcount, hoffers⟩ := ih
      obtain ⟨hheard, hcounted, hoffered⟩ := hreport.summary
      obtain ⟨delta, hrequest⟩ := Exchange.exists_of_heard? hx
      have hquiet := Exchange.offered?_of_request hrequest (by simp)
      refine ⟨?_, ?_⟩
      · simp [hcount, hx, hheard, hcounted, hrequest]
      · simpa [hx, hheard, hquiet] using hoffers.append hoffered

theorem isReported (h : Reported serve exchanges) {st : Statement} (hst : st ∈ heard exchanges) :
    IsReported serve exchanges st := by
  induction h with
  | nil => cases hst
  | @quiet exchanges x h hx ih =>
      rw [heard_append, heard_cons, hx.heard] at hst
      obtain ⟨before, y, report, after, rfl, hy, hreport⟩ := ih (by simpa using hst)
      exact ⟨before, y, report, after ++ [x], by simp, hy, hreport⟩
  | @posting exchanges report x st' h hx hreport ih =>
      rw [heard_append, heard_cons, hx, hreport.summary.1] at hst
      rcases List.mem_append.1 hst with hold | hlast
      · obtain ⟨before, y, report', after, rfl, hy, hreport'⟩ := ih hold
        exact ⟨before, y, report', after ++ x :: report, by simp, hy, hreport'⟩
      · obtain rfl : st = st' := by simpa using hlast
        exact ⟨exchanges, x, report, [], by simp, hx, hreport⟩

end Reported

theorem IsReported.mem_heard {exchanges : List (Exchange σ)} {st : Statement}
    (h : IsReported serve exchanges st) : st ∈ heard exchanges := by
  obtain ⟨before, x, report, after, rfl, hx, -⟩ := h
  simp [hx]

/-! ### Programs that report -/

variable {bound : Nat} {before : List (Exchange σ)}

/-- Programs that ask for anything, end as is said, and leave all reported where they overflow. -/
def telling (serve : Service σ) (ends : α → Told σ → Prop) : Contract (Told σ) α :=
  ⟨fun _ _ => True, ends, fun t => Reported serve t.exchanges⟩

/-- Programs that leave every posting that is heard reported. -/
def reporting (serve : Service σ) : Contract (Told σ) α := telling serve fun _ t => Reported serve t.exchanges

/-- A quiet exchange needs no report. -/
theorem Reported.tells {r : Request} {a : r.Answer} (h : Reported serve t.exchanges)
    (htells : Tells serve number r t a t') (hquiet : Exchange.IsQuiet ⟨r, a, t.standing, t'.standing⟩) :
    Reported serve t'.exchanges := by
  rw [htells.2]
  exact h.quiet hquiet

theorem currentBalance_tells (bound : Nat) (user : String) :
    (currentBalance bound user).Meets (Tells serve number)
      (telling serve fun balance t' => ∃ bounding reading, t'.exchanges = t.exchanges ++ [bounding, reading] ∧
        bounding.IsQuiet ∧ reading.IsReading serve t.standing.ledger user ∧ reading.reading? = balance) t := by
  rw [currentBalance]
  apply Meets.request trivial
  intro _ t₁ h₁
  apply Meets.request trivial
  intro answer t₂ h₂
  obtain ⟨hbound, hexchanges₁⟩ := h₁
  obtain ⟨hread, hexchanges₂⟩ := h₂
  have hledger : t₁.standing.ledger = t.standing.ledger := congrArg Standing.ledger hbound
  have hserved : ∀ balance, answer = some (.ok balance) →
      (serve (.balance user) t.standing.ledger).1 = .ok balance := by
    intro balance hbalance
    obtain ⟨treatment, hanswer, -⟩ := hread
    rw [hledger] at hanswer
    exact (Treatment.answer_eq_ok (hanswer.symm.trans hbalance)).2
  have hexchanges := hexchanges₂.trans (congrArg (· ++ _) hexchanges₁)
  rw [List.append_assoc] at hexchanges
  have hquiet := Exchange.isQuiet_of_request (x := ⟨.bound bound, (), t.standing, t₁.standing⟩) rfl
  rcases answer with _ | (error | balance)
  · exact ⟨_, _, hexchanges, hquiet, ⟨rfl, hledger, fun _ h => by cases h⟩, rfl⟩
  · exact ⟨_, _, hexchanges, hquiet, ⟨rfl, hledger, fun _ h => by cases h⟩, rfl⟩
  · refine ⟨_, _, hexchanges, hquiet, ⟨rfl, hledger, fun _ h => ?_⟩, rfl⟩
    obtain rfl := Option.some.inj h
    exact hserved _ rfl

theorem raiseAlert_tells {st : Statement} (hevent : st.event = e.id) (huser : st.user = e.user) :
    (raiseAlert e).Meets (Tells serve number)
      (telling serve fun _ t' => ∃ timing offering noting : Exchange σ,
        t'.exchanges = t.exchanges ++ [timing, offering, noting] ∧ timing.IsQuiet ∧ offering.IsOffer st ∧
          noting.IsQuiet) t := by
  rw [raiseAlert]
  apply Meets.request trivial
  intro createdAt t₁ h₁
  apply Meets.request trivial
  intro outcome t₂ h₂
  have hoffer : Request.alert (Alert.lackOfBalance e createdAt) =
      .alert ⟨st.event, st.user, createdAt, .lackBalance, "insufficient funds"⟩ := by
    rw [hevent, huser]
    rfl
  have hlast : ∀ metric t₃, Request.isQuiet (.count metric) = true → Tells serve number (.count metric) t₂ () t₃ →
      ∃ timing offering noting : Exchange σ,
        t₃.exchanges = t.exchanges ++ [timing, offering, noting] ∧ timing.IsQuiet ∧ offering.IsOffer st ∧
          noting.IsQuiet := by
    intro metric t₃ hmetric h₃
    have hexchanges := h₃.2
    rw [h₂.2, h₁.2, List.append_assoc, List.append_assoc] at hexchanges
    exact ⟨_, _, _, hexchanges, Exchange.isQuiet_of_request rfl, ⟨createdAt, hoffer⟩,
      Exchange.isQuiet_of_request hmetric⟩
  cases outcome with
  | ok accepted => exact ⟨trivial, fun _ t₃ h₃ => hlast .alertsSent t₃ rfl h₃⟩
  | error rejection => exact ⟨trivial, fun _ t₃ h₃ => hlast .alertsDropped t₃ rfl h₃⟩

/-- What comes after a posting that was heard is its report. -/
theorem attemptPosted_reporting {st : Statement} {x : Exchange σ} (hbefore : Reported serve before)
    (hexchanges : t.exchanges = before ++ [x]) (hx : x.heard? = some st) (hledger : x.after = t.standing)
    (hevent : st.event = e.id) (huser : st.user = e.user) :
    (attemptPosted bound e (.ok (some st))).Meets (Tells serve number) (reporting serve) t := by
  apply Meets.request trivial
  intro _ t₁ h₁
  obtain ⟨counting, hcounting, hexchanges₁⟩ : ∃ counting : Exchange σ,
      counting.request = .count .statementsPosted ∧ t₁.exchanges = t.exchanges ++ [counting] := ⟨_, rfl, h₁.2⟩
  have hcounted : t₁.standing = { t.standing with metrics := t.standing.metrics.count .statementsPosted } := h₁.1
  refine Meets.bind (currentBalance_tells bound e.user) ?_
  rintro balance t₂ ⟨bounding, reading, hexchanges₂, hbounding, hreading, rfl⟩
  have hkept : t₁.standing.ledger = x.after.ledger := by
    rw [hledger, hcounted]
  rw [hkept, ← huser] at hreading
  rw [hexchanges₁, hexchanges] at hexchanges₂
  have halert : alertIfExhausted e reading.reading? =
      if isExhausted reading.reading? then raiseAlert e else return () := by
    cases reading.reading? <;> rfl
  rw [halert]
  cases hexhausted : isExhausted reading.reading? with
  | false =>
      have hreport := hbefore.posting hx (.silent hcounting hbounding hreading hexhausted)
      change Reported serve t₂.exchanges
      rw [hexchanges₂]
      simpa using hreport
  | true =>
      refine Meets.bind (raiseAlert_tells hevent huser) ?_
      rintro _ t₃ ⟨timing, offering, noting, hexchanges₃, htiming, hoffering, hnoting⟩
      rw [hexchanges₂] at hexchanges₃
      have hreport := (hbefore.posting hx
        (.alerting hcounting hbounding hreading hexhausted htiming hoffering)).quiet hnoting
      change Reported serve t₃.exchanges
      rw [hexchanges₃]
      simpa using hreport

/-- What a posting comes to: a statement is heard of last, or all is quiet. -/
def PostsLast (serve : Service σ) (e : Event) : Except Setback (Option Statement) → Told σ → Prop
  | .ok (some st), t => ∃ before x, t.exchanges = before ++ [x] ∧ Reported serve before ∧ x.heard? = some st ∧
      x.after = t.standing ∧ st.event = e.id ∧ st.user = e.user
  | .ok none, t => Reported serve t.exchanges
  | .error _, t => Reported serve t.exchanges

theorem post_reporting {rate : Decimal} (h : Reported serve t.exchanges) :
    (post rate e).run.Meets (Tells serve number)
      (telling serve (PostsLast serve e)) t := by
  rw [run_post]
  refine ⟨trivial, fun _ t₁ h₁ => ?_⟩
  have hreported₁ := h.tells h₁ (Exchange.isQuiet_of_request rfl)
  refine Meets.proceed hreported₁ (fun _ => hreported₁) fun _ _ => ⟨trivial, fun answer t₂ h₂ => ?_⟩
  have hreported₂ := hreported₁.tells h₂ (Exchange.isQuiet_of_request rfl)
  refine Meets.proceed hreported₂ (fun _ => hreported₂) fun found _ => ?_
  cases found with
  | some st => exact hreported₂
  | none =>
      refine ⟨trivial, fun _ t₃ h₃ => ?_⟩
      have hreported₃ := hreported₂.tells h₃ (Exchange.isQuiet_of_request rfl)
      refine Meets.proceed hreported₃ (fun _ => hreported₃) fun _ _ => ?_
      rw [postStatement]
      split
      · exact hreported₃
      · split
        · exact hreported₃
        · rename_i x _ amount hamount
          refine ⟨trivial, fun createdAt t₄ h₄ => ⟨trivial, fun answer t₅ h₅ => ?_⟩⟩
          have hreported₄ := hreported₃.tells h₄ (Exchange.isQuiet_of_request rfl)
          rcases answer with _ | (error | accepted)
          · exact hreported₄.tells h₅ ⟨rfl, by simp, rfl⟩
          · exact hreported₄.tells h₅ ⟨rfl, by simp, rfl⟩
          · exact ⟨t₄.exchanges, _, h₅.2, hreported₄, rfl, rfl, rfl, rfl⟩

/-! ### Whole settlements -/

theorem attempt_reporting (rate : Decimal) (bound : Nat) (payload : Text.Bytes)
    (h : Reported serve t.exchanges) :
    (attempt rate bound payload).Meets (Tells serve number) (reporting serve) t := by
  cases hdecode : Event.decode payload with
  | error error =>
      rw [attempt_of_error hdecode]
      exact h
  | ok e =>
      rw [attempt_of_ok hdecode]
      refine ⟨trivial, fun _ t₁ h₁ => ?_⟩
      refine Meets.bind (post_reporting (h.tells h₁ (Exchange.isQuiet_of_request rfl))) ?_
      rintro ((_ | error) | (_ | st)) t₂ h₂
      · exact h₂
      · exact h₂
      · exact Meets.request trivial fun _ t₃ h₃ => h₂.tells h₃ (Exchange.isQuiet_of_request rfl)
      · obtain ⟨before, x, hexchanges, hbefore, hx, hledger, hevent, huser⟩ := h₂
        exact attemptPosted_reporting hbefore hexchanges hx hledger hevent huser

theorem attemptResults_reporting (rate : Decimal) (bound : Nat) (payload : Text.Bytes) (n : Nat)
    (h : Reported serve t.exchanges) :
    (attemptResults rate bound payload n).Meets (Tells serve number) (reporting serve) t := by
  induction n generalizing t with
  | zero => exact h
  | succ n ih =>
      refine Meets.bind (attempt_reporting rate bound payload h) fun result t₁ h₁ => ?_
      cases result with
      | ok outcome => exact h₁
      | error error =>
          apply Meets.request trivial
          intro _ t₂ h₂
          exact Meets.bind (ih (Reported.tells h₁ h₂ (Exchange.isQuiet_of_request rfl))) fun _ _ h₃ => h₃

theorem conclude_reporting (payload : Text.Bytes) (results : List (Except Error Outcome))
    (h : Reported serve t.exchanges) :
    (conclude payload results).Meets (Tells serve number) (reporting serve) t := by
  unfold conclude
  split
  · exact Meets.request trivial fun _ _ h₁ => h.tells h₁ (Exchange.isQuiet_of_request rfl)
  · apply Meets.request trivial
    intro outcome t₁ h₁
    have hreported₁ := h.tells h₁ (Exchange.isQuiet_of_request rfl)
    cases outcome with
    | ok accepted =>
        apply Meets.request trivial
        intro _ t₂ h₂
        have hreported₂ := hreported₁.tells h₂ (Exchange.isQuiet_of_request rfl)
        exact Meets.request trivial fun _ _ h₃ => hreported₂.tells h₃ (Exchange.isQuiet_of_request rfl)
    | error rejection =>
        exact Meets.request trivial fun _ _ h₂ => hreported₁.tells h₂ (Exchange.isQuiet_of_request rfl)

theorem settlement_reporting (rate : Decimal) (bound : Nat) (payload : Text.Bytes)
    (h : Reported serve t.exchanges) :
    (settlement rate bound payload).Meets (Tells serve number) (reporting serve) t :=
  Meets.bind (attemptResults_reporting rate bound payload Limits.attempts h) fun results _ h₁ =>
    conclude_reporting payload results h₁

/-- What is known after deliveries: postings that were heard of are reported, all that the ledger has gained is
accounted for, and the counter has counted what it was asked to. -/
structure Audited (books : Books serve) (w : World σ) (t : Told σ) : Prop where
  reported : Reported serve t.exchanges
  accounts : Accounts books w.ledger t
  counts : Counts .statementsPosted (w.metrics.get .statementsPosted) t

theorem settlement_audited {s : Setup σ} {books : Books s.serve} {w : World σ} (m : Message)
    (h : Audited books w t) :
    (settlement s.rate s.attemptTimeout m.payload).Meets (Tells s.serve m.number)
      ⟨fun _ _ => True, fun _ t => Audited books w t, Audited books w⟩ t := by
  have hplain := settlement_meets s.rate s.attemptTimeout m.payload
  have hreported : (settlement s.rate s.attemptTimeout m.payload).Meets (Tells s.serve m.number) _ t :=
    settlement_reporting s.rate s.attemptTimeout m.payload h.reported
  have haccounts : (settlement s.rate s.attemptTimeout m.payload).Meets (Tells s.serve m.number) _ t :=
    hplain.frame (fun _ _ _ _ _ hkept htells => Accounts.tells hkept htells) h.accounts
  have hcounts : (settlement s.rate s.attemptTimeout m.payload).Meets (Tells s.serve m.number) _ t :=
    hplain.frame (fun _ _ _ _ _ hkept htells => Counts.tells hkept htells) h.counts
  exact ((hreported.and haccounts).and hcounts).mono (fun _ _ _ => trivial)
    (fun _ _ hends => ⟨hends.1.1, hends.1.2.2, hends.2.2⟩) fun _ hends => ⟨hends.1.1, hends.1.2.2, hends.2.2⟩

theorem deliveries_audited {s : Setup σ} {books : Books s.serve} {w w' : World σ}
    {exchanges : List (Exchange σ)} (hsound : books.sound w.ledger) (h : Deliveries s w exchanges w') :
    Audited books w ⟨w'.standing, exchanges⟩ := by
  refine h.holds ?_ (fun m t => settlement_audited m) ?_
  · exact ⟨.nil, ⟨hsound, [], List.nil_sublist _, .refl⟩, rfl⟩
  · rintro t g ⟨hreported, haccounts, hcounts⟩ hledger hcount
    refine ⟨hreported, ⟨?_, ?_⟩, hcount.trans hcounts⟩
    · rw [hledger]
      exact haccounts.sound
    · rw [hledger]
      exact haccounts.posts

/-- Whatever is delivered and however its exchanges go, each statement that the ledger has gained was heard of
or is lost. The statements that were heard of are counted, and each of them is reported as soon as it is
heard of; the lost ones are neither counted nor reported nor alerted about. -/
theorem postings_reported_unless_lost {s : Setup σ} (books : Books s.serve) {w w' : World σ}
    {exchanges : List (Exchange σ)} (hsound : books.sound w.ledger) (h : Deliveries s w exchanges w') :
    w'.metrics.get .statementsPosted = w.metrics.get .statementsPosted + (heard exchanges).length ∧
      ∃ lost : List Statement, lost.Sublist (unheard exchanges) ∧
        Posts books w.ledger w'.ledger (heard exchanges ++ lost) ∧
        (∀ st ∈ heard exchanges ++ lost, IsReported s.serve exchanges st ↔ st ∉ lost) ∧
        ((offers exchanges).map (·.event)).Sublist ((heard exchanges).map (·.event)) ∧
        ∀ st ∈ lost, ∀ alert ∈ offers exchanges, alert.event ≠ st.event := by
  obtain ⟨hreported, ⟨-, lost, hlost, hposts⟩, hcounts⟩ := deliveries_audited hsound h
  obtain ⟨hcount, hoffers⟩ := hreported.summary
  have hapart : ∀ st ∈ heard exchanges, ∀ st' ∈ lost, st.event ≠ st'.event := by
    have hnodup := hposts.events_nodup
    rw [List.map_append, List.nodup_append] at hnodup
    exact fun st hst st' hst' => hnodup.2.2 _ (List.mem_map_of_mem hst) _ (List.mem_map_of_mem hst')
  refine ⟨?_, lost, hlost, hposts, fun st hst => ⟨fun hst' hmem => ?_, fun hnot => ?_⟩, hoffers, ?_⟩
  · rw [← hcount]
    exact hcounts
  · exact hapart st hst'.mem_heard st hmem rfl
  · exact hreported.isReported ((List.mem_append.1 hst).resolve_right hnot)
  · intro st hst alert halert heq
    obtain ⟨st', hst', hevent⟩ := List.mem_map.1 (hoffers.subset (List.mem_map_of_mem halert))
    exact hapart st' hst' st hst (hevent.trans heq)

/-- A world in which the first posting is done at once and answered after six seconds. -/
def lateReply : World InMemory :=
  World.start InMemory.empty Queue.undrained Queue.undrained [(.create, [⟨some 6000, none, true⟩])] [] []

/-- A message that leaves a user who has nothing with less. -/
def debit : Message where
  number := 1
  payload := Text.encode
    "\x7b\"uuid\":\"00000000-0000-0000-0000-000000000001\",\"user_id\":\"u\",\"value\":-1,\"created_at\":\"2020-01-01T00:00:00Z\"\x7d".toList
  acknowledging := Fault.none

def punctual : Setup InMemory := Setup.inMemory Credit.defaultRate 5000 1000 none

def lateReplySettled : World InMemory := (Run.exec (Run.settle punctual debit) lateReply).2

def lateReplyExchanges : List (Exchange InMemory) :=
  Run.exchanges punctual debit (settle punctual.rate punctual.attemptTimeout debit.payload) lateReply

theorem lateReply_deliveries : Deliveries punctual lateReply lateReplyExchanges lateReplySettled := by
  refine .settled debit .start fun hend => ?_
  have hok : (Run.exec (Run.settle punctual debit) lateReply).1.isOk = true := by decide +kernel
  rw [hend] at hok
  cases hok

theorem lateReply_is_lost :
    Deliveries punctual lateReply lateReplyExchanges lateReplySettled ∧
      (heard lateReplyExchanges).length = 0 ∧ (unheard lateReplyExchanges).length = 1 ∧
      ∃ lost : List Statement, lost.Sublist (unheard lateReplyExchanges) ∧
        Posts InMemory.books lateReply.ledger lateReplySettled.ledger (heard lateReplyExchanges ++ lost) := by
  refine ⟨lateReply_deliveries, by decide +kernel, by decide +kernel, ?_⟩
  obtain ⟨-, lost, hlost, hposts, -⟩ :=
    postings_reported_unless_lost InMemory.books trivial lateReply_deliveries
  exact ⟨lost, hlost, hposts⟩

/-- The message is acknowledged and its statement is in the ledger, where nothing is left to the user; it was
never counted, and no alert was offered. -/
theorem lateReply_goes_unreported :
    (Run.exec (Run.settle punctual debit) lateReply).1.toOption = some .acknowledged ∧
      lateReplySettled.ledger.statements.map (·.user) = ["u"] ∧
      (lateReplySettled.ledger.balance "u").toOption.map Decimal.isNonpositive = some true ∧
      lateReplySettled.metrics.get .statementsPosted = 0 ∧
      lateReplySettled.history.all (fun x => match x.2 with | .offered _ _ => false | _ => true) = true := by
  decide +kernel

end UsageLedger.Delivery
