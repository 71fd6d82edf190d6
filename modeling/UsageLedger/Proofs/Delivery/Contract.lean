import UsageLedger.Delivery.Program

/-! Contracts of programs. A contract says in which states a program may make which requests, what holds
when it is done and what holds if it ends in an overflow; a program meets it from a state if it does so
whatever answers it gets, within what its surroundings can answer. A program in sequence is taken apart
at its `bind`. -/

namespace UsageLedger.Delivery

/-- What surrounds a program: from which state a request can be answered how, and to which state. -/
abbrev Surroundings (γ : Type) := (r : Request) → γ → r.Answer → γ → Prop

/-- What is asked of a program in surroundings with states of type `γ`. -/
structure Contract (γ α : Type) where
  asks : Request → γ → Prop
  ends : α → γ → Prop
  overflows : γ → Prop

variable {α β γ : Type}

def Contract.ending (c : Contract γ β) (ends : α → γ → Prop) : Contract γ α := { c with ends := ends }

abbrev anyhow : Surroundings Unit := fun _ _ _ _ => True

/-- A contract that says nothing of states. -/
def Contract.plain (asks : Request → Prop) (ends : α → Prop) (overflows : Prop) : Contract Unit α :=
  ⟨fun r _ => asks r, fun a _ => ends a, fun _ => overflows⟩

namespace Program

/-- A program meets a contract from a state. -/
def Meets (around : Surroundings γ) (c : Contract γ α) : Program α → γ → Prop
  | done a, g => c.ends a g
  | overflow, g => c.overflows g
  | ask r next, g => c.asks r g ∧ ∀ a g', around r g a g' → (next a).Meets around c g'

variable {around : Surroundings γ} {c : Contract γ α} {g : γ}

theorem meets_done {a : α} : (done a).Meets around c g ↔ c.ends a g := Iff.rfl

theorem Meets.mono {p : Program α} {c' : Contract γ α} (h : p.Meets around c g)
    (hasks : ∀ r g, c.asks r g → c'.asks r g) (hends : ∀ a g, c.ends a g → c'.ends a g)
    (hoverflows : ∀ g, c.overflows g → c'.overflows g) : p.Meets around c' g := by
  induction p generalizing g with
  | done a => exact hends a g h
  | overflow => exact hoverflows g h
  | ask r next ih =>
      obtain ⟨hask, hnext⟩ := h
      exact ⟨hasks r g hask, fun a g' hanswer => ih a (hnext a g' hanswer)⟩

/-- A program in sequence meets a contract if what comes first ends where what follows meets it. -/
theorem Meets.bind {c : Contract γ β} {mid : α → γ → Prop} {p : Program α} {f : α → Program β}
    (hp : p.Meets around (c.ending mid) g) (hf : ∀ a g, mid a g → (f a).Meets around c g) :
    (p >>= f).Meets around c g := by
  induction p generalizing g with
  | done a => exact hf a g hp
  | overflow => exact hp
  | ask r next ih =>
      obtain ⟨hask, hnext⟩ := hp
      exact ⟨hask, fun a g' hanswer => ih a (hnext a g' hanswer)⟩

theorem Meets.map {c : Contract γ β} {p : Program α} {f : α → β}
    (hp : p.Meets around (c.ending fun a g => c.ends (f a) g) g) : (f <$> p).Meets around c g := by
  rw [map_eq_pure_bind]
  exact hp.bind fun _ _ h => h

theorem Meets.request {c : Contract γ β} {r : Request} {f : r.Answer → Program β} (hask : c.asks r g)
    (hf : ∀ a g', around r g a g' → (f a).Meets around c g') :
    (request r >>= f).Meets around c g := ⟨hask, hf⟩

theorem Meets.and {p : Program α} {c' : Contract γ α} (h : p.Meets around c g) (h' : p.Meets around c' g) :
    p.Meets around
      ⟨fun r g => c.asks r g ∧ c'.asks r g, fun a g => c.ends a g ∧ c'.ends a g,
        fun g => c.overflows g ∧ c'.overflows g⟩ g := by
  induction p generalizing g with
  | done a => exact ⟨h, h'⟩
  | overflow => exact ⟨h, h'⟩
  | ask r next ih =>
      exact ⟨⟨h.1, h'.1⟩, fun a g' hanswer => ih a (h.2 a g' hanswer) (h'.2 a g' hanswer)⟩

/-! ### Programs by themselves -/

/-- What the requests of a program keep, whoever answers them, holds all along it. -/
theorem Meets.frame {asks : Request → Prop} {ends : α → Prop} {overflows : Prop} {kept : γ → Prop}
    {p : Program α} (hp : p.Meets anyhow (.plain asks ends overflows) ())
    (hkept : ∀ r g a g', asks r → kept g → around r g a g' → kept g') (hg : kept g) :
    p.Meets around
      ⟨fun r g => asks r ∧ kept g, fun a g => ends a ∧ kept g, fun g => overflows ∧ kept g⟩ g := by
  induction p generalizing g with
  | done a => exact ⟨hp, hg⟩
  | overflow => exact ⟨hp, hg⟩
  | ask r next ih =>
      obtain ⟨hask, hnext⟩ := hp
      exact ⟨⟨hask, hg⟩, fun a g' hanswer => ih a (hnext a () trivial) (hkept r g a g' hask hg hanswer)⟩

/-- A contract that says nothing of states is met in all surroundings. -/
theorem Meets.anywhere {asks : Request → Prop} {ends : α → Prop} {overflows : Prop} {p : Program α}
    (hp : p.Meets anyhow (.plain asks ends overflows) ()) (around : Surroundings γ) (g : γ) :
    p.Meets around ⟨fun r _ => asks r, fun a _ => ends a, fun _ => overflows⟩ g := by
  have hframed : p.Meets around
      ⟨fun r _ => asks r ∧ True, fun a _ => ends a ∧ True, fun _ => overflows ∧ True⟩ g :=
    hp.frame (fun _ _ _ _ _ _ _ => trivial) trivial
  exact hframed.mono (fun _ _ h => h.1) (fun _ _ h => h.1) fun _ h => h.1

/-- Whether a program makes at most so many requests, however they are answered. -/
def AsksAtMost : Nat → Program α → Prop
  | _, done _ => True
  | _, overflow => True
  | 0, ask _ _ => False
  | n + 1, ask _ next => ∀ a, (next a).AsksAtMost n

theorem AsksAtMost.mono {p : Program α} {n m : Nat} (h : p.AsksAtMost n) (hle : n ≤ m) : p.AsksAtMost m := by
  induction p generalizing n m with
  | done a => cases m <;> trivial
  | overflow => cases m <;> trivial
  | ask r next ih =>
      cases n with
      | zero => exact h.elim
      | succ n =>
          obtain ⟨k, rfl⟩ : ∃ k, m = k + 1 := ⟨m - 1, by omega⟩
          exact fun a => ih a (h a) (by omega)

theorem AsksAtMost.bind {p : Program α} {f : α → Program β} {n m : Nat} (hp : p.AsksAtMost n)
    (hf : ∀ a, (f a).AsksAtMost m) : (p >>= f).AsksAtMost (n + m) := by
  induction p generalizing n with
  | done a => exact (hf a).mono (Nat.le_add_left m n)
  | overflow => cases n + m <;> trivial
  | ask r next ih =>
      cases n with
      | zero => exact hp.elim
      | succ n =>
          rw [Nat.succ_add]
          exact fun a => ih a (hp a)

end Program

end UsageLedger.Delivery
