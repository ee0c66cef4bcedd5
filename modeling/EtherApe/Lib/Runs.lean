import Mathlib.Data.List.Basic

/-!
# Runs of a state machine

A run of a machine is the list of its events, each with the state it found, and the state at the end.
Where a machine meets a property only as long as its events meet a condition, one invariant says so in
both directions: the condition keeps it, and an event that breaks the condition breaks the property.
-/

/-- A machine with a step that may be refused. -/
structure Machine (σ ε : Type*) where
  start : σ
  step : σ → ε → Option σ

namespace Machine

variable {σ ε : Type*}

/-- The runs of a machine, with the state before each event. -/
inductive Run (m : Machine σ ε) : List (σ × ε) → σ → Prop
  | start : Run m [] m.start
  | step {past : List (σ × ε)} {s s' : σ} (h : Run m past s) (e : ε) (hstep : m.step s e = some s') :
      Run m (past ++ [(s, e)]) s'

/-- `P` holds in the states of a run, the last one with them. -/
def Always (P : σ → Prop) (past : List (σ × ε)) (s : σ) : Prop := (∀ x ∈ past, P x.1) ∧ P s

/-- `I` says when events that meet `C` keep `P`: it implies `P`, an event that meets `C` keeps it, and
one that keeps `P` meets `C`. -/
structure Characterizes (m : Machine σ ε) (I P : σ → Prop) (C : σ → ε → Prop) : Prop where
  start : I m.start
  sound {s : σ} : I s → P s
  step {s s' : σ} {e : ε} : I s → m.step s e = some s' → C s e → I s'
  needed {s s' : σ} {e : ε} : I s → m.step s e = some s' → P s' → C s e

variable {m : Machine σ ε} {I P : σ → Prop} {C : σ → ε → Prop} {past : List (σ × ε)} {s : σ}

theorem Always.mono {Q : σ → Prop} (hPQ : ∀ {s}, P s → Q s) (h : Always P past s) :
    Always Q past s :=
  ⟨fun x hx => hPQ (h.1 x hx), hPQ h.2⟩

/-- What holds at the start and is kept by events that meet `C` holds throughout a run of such events. -/
theorem Run.always (hstart : I m.start)
    (hstep : ∀ {s s' : σ} {e : ε}, I s → m.step s e = some s' → C s e → I s') (h : m.Run past s)
    (hC : ∀ x ∈ past, C x.1 x.2) : Always I past s := by
  induction h with
  | start => exact ⟨by simp, hstart⟩
  | @step past s s' _ e hs ih =>
      obtain ⟨hpast, hlast⟩ := ih fun x hx => hC x (List.mem_append_left _ hx)
      refine ⟨fun x hx => ?_, hstep hlast hs (hC (s, e) (by simp))⟩
      rcases List.mem_append.mp hx with hx | hx
      · exact hpast x hx
      · obtain rfl := List.mem_singleton.mp hx
        exact hlast

/-- **Runs.** A property holds throughout a run just when every event of it meets the condition. -/
theorem Characterizes.always_iff (hm : m.Characterizes I P C) (h : m.Run past s) :
    Always P past s ↔ ∀ x ∈ past, C x.1 x.2 := by
  constructor
  · intro hP
    induction h with
    | start => simp
    | @step past s s' h e hs ih =>
        have hpast : Always P past s :=
          ⟨fun x hx => hP.1 x (List.mem_append_left _ hx), hP.1 (s, e) (by simp)⟩
        have hC := ih hpast
        have hI : I s := (Run.always hm.start hm.step h hC).2
        intro x hx
        rcases List.mem_append.mp hx with hx | hx
        · exact hC x hx
        · obtain rfl := List.mem_singleton.mp hx
          exact hm.needed hI hs hP.2
  · intro hC
    exact (Run.always hm.start hm.step h hC).mono hm.sound

def stepAll (m : Machine σ ε) (s : σ) : List ε → Option σ
  | [] => some s
  | e :: events => (m.step s e).bind fun s' => m.stepAll s' events

theorem Run.stepAll {s' : σ} {events : List ε} (h : m.Run past s)
    (hsteps : m.stepAll s events = some s') :
    ∃ past', m.Run past' s' ∧ past'.map Prod.snd = past.map Prod.snd ++ events := by
  induction events generalizing past s with
  | nil =>
      obtain rfl := Option.some.inj hsteps
      exact ⟨past, h, (List.append_nil _).symm⟩
  | cons e events ih =>
      obtain ⟨s₁, hstep, hrest⟩ := Option.bind_eq_some_iff.mp hsteps
      obtain ⟨past', hrun, hevents⟩ := ih (h.step e hstep) hrest
      refine ⟨past', hrun, hevents.trans ?_⟩
      rw [List.map_append, List.append_assoc]
      rfl

end Machine
