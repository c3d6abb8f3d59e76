import Mathlib.Data.Option.Basic

/-!
# Runs of a machine

A machine takes one action after another, each of which may be impossible in the
state it is in.  What one step preserves holds along a run, and a function that
commutes with the steps of two machines commutes with their runs.
-/

namespace Machine

variable {State State' Action : Type*}

/-- Take the actions one after another. -/
def run (step : State → Action → Option State) : State → List Action → Option State
  | state, [] => some state
  | state, action :: actions =>
      (step state action).bind (fun next => run step next actions)

theorem run_cons
    {step : State → Action → Option State}
    {start final : State}
    {action : Action}
    {actions : List Action} :
    run step start (action :: actions) = some final ↔
      ∃ next, step start action = some next ∧ run step next actions = some final := by
  rw [run, Option.bind_eq_some_iff]

theorem run_append
    (step : State → Action → Option State)
    (start : State)
    (first second : List Action) :
    run step start (first ++ second) =
      (run step start first).bind (fun state => run step state second) := by
  induction first generalizing start with
  | nil => rfl
  | cons action first inductionHypothesis =>
      rw [List.cons_append, run, run, Option.bind_assoc]
      congr 1
      funext next
      exact inductionHypothesis next

/-- A property that every step preserves holds at the end of a run. -/
theorem run_preserves
    {step : State → Action → Option State}
    (Property : State → Prop)
    (preserves : ∀ {state action next},
      Property state → step state action = some next → Property next)
    {start final : State}
    {actions : List Action}
    (runs : run step start actions = some final)
    (initial : Property start) :
    Property final := by
  induction actions generalizing start with
  | nil =>
      cases runs
      exact initial
  | cons action actions inductionHypothesis =>
      obtain ⟨next, steps, rest⟩ := run_cons.mp runs
      exact inductionHypothesis rest (preserves initial steps)

/-- Every action of the run is taken in a state in which it is allowed. -/
def Along
    (allowed : State → Action → Prop)
    (step : State → Action → Option State) : State → List Action → Prop
  | _, [] => True
  | state, action :: actions =>
      allowed state action ∧
        ∀ next, step state action = some next → Along allowed step next actions

instance decidableAlong
    {allowed : State → Action → Prop}
    {step : State → Action → Option State}
    [∀ state action, Decidable (allowed state action)]
    (state : State) :
    (actions : List Action) → Decidable (Along allowed step state actions)
  | [] => .isTrue trivial
  | action :: actions =>
      match steps : step state action with
      | none => decidable_of_iff (allowed state action)
          ⟨fun isAllowed => ⟨isAllowed, fun _ steps' => nomatch steps.symm.trans steps'⟩,
            And.left⟩
      | some next =>
          have : Decidable (Along allowed step next actions) := decidableAlong next actions
          decidable_of_iff (allowed state action ∧ Along allowed step next actions)
            ⟨fun ⟨isAllowed, later⟩ =>
                ⟨isAllowed, fun _ steps' => Option.some.inj (steps.symm.trans steps') ▸ later⟩,
              fun ⟨isAllowed, later⟩ => ⟨isAllowed, later next steps⟩⟩

/-- What is allowed at a point of such a run. -/
theorem Along.allowed
    {allowed : State → Action → Prop}
    {step : State → Action → Option State}
    {start state : State}
    {front back : List Action}
    {action : Action}
    (along : Along allowed step start (front ++ action :: back))
    (runs : run step start front = some state) :
    allowed state action := by
  induction front generalizing start with
  | nil =>
      cases runs
      exact along.1
  | cons first front inductionHypothesis =>
      obtain ⟨next, steps, rest⟩ := run_cons.mp runs
      exact inductionHypothesis (along.2 next steps) rest

/-- What is allowed at every point of a run. -/
theorem along_iff
    {allowed allowed' : State → Action → Prop}
    (same : ∀ state action, allowed state action ↔ allowed' state action)
    (step : State → Action → Option State)
    (start : State)
    (actions : List Action) :
    Along allowed step start actions ↔ Along allowed' step start actions := by
  induction actions generalizing start with
  | nil => exact .rfl
  | cons action actions inductionHypothesis =>
      exact and_congr (same start action)
        (forall₂_congr fun next _ => inductionHypothesis next)

/-- A property that every allowed step preserves holds at the end of a run of such
steps. -/
theorem run_preserves_along
    {step : State → Action → Option State}
    {allowed : State → Action → Prop}
    (Property : State → Prop)
    (preserves : ∀ {state action next},
      Property state → allowed state action → step state action = some next →
        Property next)
    {start final : State}
    {actions : List Action}
    (runs : run step start actions = some final)
    (along : Along allowed step start actions)
    (initial : Property start) :
    Property final := by
  induction actions generalizing start with
  | nil =>
      cases runs
      exact initial
  | cons action actions inductionHypothesis =>
      obtain ⟨next, steps, rest⟩ := run_cons.mp runs
      obtain ⟨isAllowed, later⟩ := along
      exact inductionHypothesis rest (later next steps) (preserves initial isAllowed steps)

/-- A property that every allowed action preserves holds at the end of a run of such
actions. -/
theorem run_preserves_allowed
    {step : State → Action → Option State}
    {allowed : Action → Prop}
    (Property : State → Prop)
    (preserves : ∀ {state action next},
      Property state → allowed action → step state action = some next → Property next)
    {start final : State}
    {actions : List Action}
    (runs : run step start actions = some final)
    (allow : ∀ action ∈ actions, allowed action)
    (initial : Property start) :
    Property final := by
  induction actions generalizing start with
  | nil =>
      cases runs
      exact initial
  | cons action actions inductionHypothesis =>
      obtain ⟨next, steps, rest⟩ := run_cons.mp runs
      exact inductionHypothesis rest
        (fun other isOther => allow other (List.mem_cons_of_mem _ isOther))
        (preserves initial (allow action List.mem_cons_self) steps)

/-- In a run of allowed actions, those that work are no more than the effort that there is,
and what others add to it. -/
theorem countP_le_of_effort
    {step : State → Action → Option State}
    {allowed : Action → Prop}
    (Property : State → Prop)
    (effort : State → Nat)
    (works adds : Action → Bool)
    (preserves : ∀ {state action next},
      Property state → allowed action → step state action = some next → Property next)
    (costs : ∀ {state action next},
      Property state → allowed action → step state action = some next →
        effort next + (works action).toNat ≤ effort state + (adds action).toNat)
    {start final : State}
    {actions : List Action}
    (runs : run step start actions = some final)
    (allow : ∀ action ∈ actions, allowed action)
    (initial : Property start) :
    effort final + actions.countP works ≤ effort start + actions.countP adds := by
  induction actions generalizing start with
  | nil =>
      cases runs
      exact Nat.le_refl _
  | cons action actions inductionHypothesis =>
      obtain ⟨next, steps, rest⟩ := run_cons.mp runs
      have isAllowed := allow action List.mem_cons_self
      have later := inductionHypothesis rest
        (fun other isOther => allow other (List.mem_cons_of_mem _ isOther))
        (preserves initial isAllowed steps)
      have one := costs initial isAllowed steps
      have counts (counted : Action → Bool) :
          (action :: actions).countP counted =
            actions.countP counted + (counted action).toNat := by
        rw [List.countP_cons]
        cases counted action <;> rfl
      rw [counts works, counts adds]
      omega

/-- A function that commutes with every step commutes with the runs. -/
theorem run_map
    {step : State → Action → Option State}
    {step' : State' → Action → Option State'}
    {image : State → State'}
    (commutes : ∀ state action,
      (step state action).map image = step' (image state) action)
    (start : State)
    (actions : List Action) :
    (run step start actions).map image = run step' (image start) actions := by
  induction actions generalizing start with
  | nil => rfl
  | cons action actions inductionHypothesis =>
      rw [run, run, ← commutes, Option.map_bind, Option.bind_map]
      congr 1
      funext next
      exact inductionHypothesis next

/-- Results that keep a relation keep every weaker one. -/
theorem rel_mono
    {Related Related' : State → State' → Prop}
    (weaker : ∀ {state state'}, Related state state' → Related' state state')
    {result : Option State}
    {result' : Option State'}
    (related : Option.Rel Related result result') :
    Option.Rel Related' result result' := by
  cases related with
  | none => exact .none
  | some related => exact .some (weaker related)

/-- A machine whose every step is a step of another one, for some choice that the other
leaves open, runs as the other does for some choices; and it stops where the other does. -/
theorem run_refines
    {Choice : Type*}
    {step : State → Action → Option State}
    {step' : State' → Action × Choice → Option State'}
    {Related : State → State' → Prop}
    (refines : ∀ {state state'}, Related state state' → ∀ action, ∃ choice,
      Option.Rel Related (step state action) (step' state' (action, choice)))
    {start : State}
    {start' : State'}
    (related : Related start start')
    (actions : List Action) :
    ∃ choices : List Choice, choices.length = actions.length ∧
      Option.Rel Related (run step start actions)
        (run step' start' (actions.zip choices)) := by
  induction actions generalizing start start' with
  | nil => exact ⟨[], rfl, .some related⟩
  | cons action actions inductionHypothesis =>
      obtain ⟨choice, relatedNext⟩ := refines related action
      generalize nextEq : step start action = next,
        nextEq' : step' start' (action, choice) = next' at relatedNext
      cases relatedNext with
      | none =>
          -- What is chosen after the stop does not matter.
          refine ⟨choice :: actions.map (fun _ => choice), by simp, ?_⟩
          rw [List.zip_cons_cons, run, run, nextEq, nextEq']
          exact .none
      | some relatedNext =>
          obtain ⟨choices, sameLength, relatedFinal⟩ := inductionHypothesis relatedNext
          refine ⟨choice :: choices, congrArg (· + 1) sameLength, ?_⟩
          rw [List.zip_cons_cons, run, run, nextEq, nextEq']
          exact relatedFinal

/-! ## Machines with outputs -/

section Outputs

variable {Output Output' : Type*}
  {step : State → Action → List Output × State}
  {step' : State' → Action → List Output' × State'}

/-- Take the actions one after another and collect what they put out. -/
def produce (step : State → Action → List Output × State) :
    State → List Action → List Output × State
  | state, [] => ([], state)
  | state, action :: actions =>
      let now := step state action
      let later := produce step now.2 actions
      (now.1 ++ later.1, later.2)

/-- Two machines put out the same, up to `image`, as long as a relation of their states is
kept. -/
theorem produce_related
    {allowed : State → Action → Prop}
    {Related : State → State' → Prop}
    {image : Output' → Output}
    {start : State}
    {start' : State'}
    {actions : List Action}
    (along : Along allowed (fun state action => some (step state action).2) start actions)
    (related : Related start start')
    (simulates : ∀ state state' action,
      Related state state' → allowed state action →
        (step state action).1 = (step' state' action).1.map image ∧
          Related (step state action).2 (step' state' action).2) :
    (produce step start actions).1 = (produce step' start' actions).1.map image ∧
      Related (produce step start actions).2 (produce step' start' actions).2 := by
  induction actions generalizing start start' with
  | nil => exact ⟨rfl, related⟩
  | cons action actions inductionHypothesis =>
      obtain ⟨isAllowed, later⟩ := along
      obtain ⟨sameNow, relatedNext⟩ := simulates start start' action related isAllowed
      obtain ⟨sameLater, relatedFinal⟩ := inductionHypothesis (later _ rfl) relatedNext
      refine ⟨?_, relatedFinal⟩
      rw [produce, produce, List.map_append, ← sameNow, ← sameLater]

/-- What every step preserves of the state and of all that has been put out. -/
theorem produce_preserves
    (Property : List Output → State → Prop)
    {actions : List Action}
    (preserves : ∀ {past state action}, action ∈ actions → Property past state →
      Property (past ++ (step state action).1) (step state action).2)
    {past : List Output}
    {start : State}
    (initial : Property past start) :
    Property (past ++ (produce step start actions).1) (produce step start actions).2 := by
  induction actions generalizing past start with
  | nil =>
      rw [produce, List.append_nil]
      exact initial
  | cons action actions inductionHypothesis =>
      rw [produce, ← List.append_assoc]
      apply inductionHypothesis
      · intro past state action member
        exact preserves (List.mem_cons_of_mem _ member)
      · exact preserves (List.mem_cons_self ..) initial

end Outputs

end Machine
