import RocksUtil.Library.Machine
import RocksUtil.ThreadLocal.Sessions

/-!
# Isolation of the objects

What a thread reads through an object is what it has last stored through that object,
however often the ids are used again.  This needs the ids not to run out.
-/

namespace RocksUtil
namespace ThreadLocal

variable {Pointer Handler : Type}

/-- An action and what it returned. -/
structure Event (Pointer Handler : Type) where
  action : Action Pointer Handler
  response : Response Pointer Handler
  deriving DecidableEq, Repr

/-- What the thread has last stored through the object, in a history whose last event
comes first: by `Reset`, `Swap` or a `CompareAndSwap` that succeeded, since the object
was constructed and since it was last scraped. -/
def lastStored (thread object : Nat) : List (Event Pointer Handler) → Option Pointer
  | [] => none
  | event :: events =>
      match event.action, event.response.answer with
      | .construct _, .object name =>
          if name = object then none else lastStored thread object events
      | .scrape name _, _ =>
          if name = object then none else lastStored thread object events
      | .reset thread' name ptr, _ =>
          if thread = thread' ∧ object = name then ptr
          else lastStored thread object events
      | .swap thread' name ptr, _ =>
          if thread = thread' ∧ object = name then ptr
          else lastStored thread object events
      | .compareAndSwap thread' name ptr _, .compared true _ =>
          if thread = thread' ∧ object = name then ptr
          else lastStored thread object events
      | _, _ => lastStored thread object events

/-- A session and its history. -/
structure Recording (Pointer Handler : Type) where
  session : Session Pointer Handler
  events : List (Event Pointer Handler)

namespace Recording

def new : Recording Pointer Handler :=
  ⟨.new, []⟩

variable [DecidableEq Pointer]

/-- Take an action, and record it. -/
def step
    (recording : Recording Pointer Handler)
    (action : Action Pointer Handler) : Option (Recording Pointer Handler) :=
  (recording.session.step action).map (fun (response, session) =>
    ⟨session, ⟨action, response⟩ :: recording.events⟩)

/-- Take an action that does not exhaust the ids. -/
def fittingStep
    (recording : Recording Pointer Handler)
    (action : Action Pointer Handler) : Option (Recording Pointer Handler) :=
  if recording.session.Fits action then recording.step action else none

/-- The slots hold what was last stored. -/
def Isolated (recording : Recording Pointer Handler) : Prop :=
  recording.session.Agrees (fun thread object =>
    lastStored thread object recording.events)

section Steps

variable {recording recording' : Recording Pointer Handler}

/-- The history after an action, and what is stored then. -/
theorem lastStored_cons
    {session : Session Pointer Handler}
    {events : List (Event Pointer Handler)}
    {action : Action Pointer Handler}
    {response : Response Pointer Handler}
    (answers : session.Answers (fun thread object => lastStored thread object events)
      action response.answer)
    (nullScrape : ∀ name replacement, action = .scrape name replacement →
      replacement = none)
    (thread object : Nat) :
    lastStored thread object (⟨action, response⟩ :: events) =
      session.storedNext (fun thread object => lastStored thread object events) action
        thread object := by
  cases action with
  | construct handler =>
      have answer : response.answer = .object session.nextObject := answers
      simp only [lastStored, answer, Session.storedNext, eq_comm]
  | compareAndSwap thread' name ptr expected =>
      rw [Session.Answers] at answers
      rw [Session.storedNext]
      split at answers
      · rename_i succeeds
        rw [if_pos succeeds]
        simp only [lastStored, answers, Session.storedAfter]
      · rename_i fails
        rw [if_neg fails]
        simp only [lastStored, answers]
  | scrape name replacement =>
      have null := nullScrape name replacement rfl
      simp only [lastStored, Session.storedNext]
      by_cases same : object = name
      · rw [if_pos same.symm, if_pos ⟨same, .inl null⟩, null]
      · rw [if_neg (fun equal => same equal.symm), if_neg (fun both => same both.1)]
  | reset thread' name ptr => rfl
  | swap thread' name ptr => rfl
  | setHandler name => rfl
  | destroy name => rfl
  | threadStarts => rfl
  | threadExits thread' => rfl
  | get thread' name => rfl

/-- An action that the program can take and that does not exhaust the ids has a
result, and the slots hold what was last stored. -/
theorem Isolated.step
    (isolated : Isolated recording)
    {action : Action Pointer Handler}
    (offers : recording.session.Offers action)
    (fits : recording.session.Fits action) :
    ∃ next, recording.step action = some next ∧
      ((∀ name replacement, action = .scrape name replacement → replacement = none) →
        Isolated next) := by
  obtain ⟨response, session, steps, answers, -, agrees⟩ :=
    Session.Agrees.step isolated offers fits
  refine ⟨⟨session, ⟨action, response⟩ :: recording.events⟩, ?_, ?_⟩
  · rw [Recording.step, steps]
    rfl
  · intro nullScrape
    refine agrees.congr ?_
    intro object _ thread _
    exact lastStored_cons answers nullScrape thread object.name

theorem of_fittingStep
    {action : Action Pointer Handler}
    (steps : recording.fittingStep action = some recording') :
    recording.session.Offers action ∧ recording.session.Fits action ∧
      recording.step action = some recording' ∧
      ∃ event, event.action = action ∧ recording'.events = event :: recording.events := by
  unfold fittingStep at steps
  split at steps
  · obtain ⟨⟨response, session⟩, stepped, rfl⟩ := Option.map_eq_some_iff.mp steps
    exact ⟨Session.offers_of_step stepped, ‹_›, steps, _, rfl, rfl⟩
  · cases steps

/-- In every run that does not exhaust the ids, and whose replacements are null: the
ids of the objects differ, `Get` returns what the thread has last stored through the
object, and every action that the program can take has a result. -/
theorem isolated_of_run
    {actions : List (Action Pointer Handler)}
    (runs : Machine.run fittingStep (new : Recording Pointer Handler) actions =
      some recording)
    (nullScrapes : ∀ event ∈ recording.events, ∀ name replacement,
      event.action = .scrape name replacement → replacement = none) :
    (recording.session.objects.map (fun object => object.id)).Nodup ∧
      (∀ thread name object, recording.session.used? thread name = some object →
        ∃ static, recording.session.static.get thread object.id =
          some (lastStored thread name recording.events, static)) ∧
      (∀ action, recording.session.Offers action → recording.session.Fits action →
        (recording.step action).isSome = true) := by
  have isolated : Isolated recording := by
    refine Machine.run_preserves (fun recording : Recording Pointer Handler =>
      (∀ event ∈ recording.events, ∀ name replacement,
        event.action = .scrape name replacement → replacement = none) →
          Isolated recording) ?_ runs (fun _ => Session.agrees_new) nullScrapes
    intro before action after inductionHypothesis steps nullScrapes
    obtain ⟨offers, fits, stepped, event, isAction, events⟩ := of_fittingStep steps
    have earlier := inductionHypothesis (fun event isEvent =>
      nullScrapes event (events ▸ List.mem_cons_of_mem _ isEvent))
    obtain ⟨next, stepped', isolated⟩ := earlier.step offers fits
    rw [stepped] at stepped'
    cases stepped'
    apply isolated
    intro name replacement isScrape
    refine nullScrapes event (events ▸ List.mem_cons_self) name replacement ?_
    rw [isAction, isScrape]
  refine ⟨Session.Agrees.ids_nodup isolated, ?_, ?_⟩
  · intro thread name object found
    obtain ⟨running, isObject, rfl, -⟩ := Session.of_used? found
    obtain ⟨static, got, -⟩ := Session.Agrees.get isolated isObject running
    exact ⟨static, got⟩
  · intro action offers fits
    obtain ⟨next, stepped, -⟩ := isolated.step offers fits
    rw [stepped]
    rfl

/-- The history of a run holds the actions. -/
theorem events_of_run
    {actions : List (Action Pointer Handler)}
    (runs : Machine.run fittingStep recording actions = some recording') :
    recording'.events.map (fun event => event.action) =
      actions.reverse ++ recording.events.map (fun event => event.action) := by
  induction actions generalizing recording with
  | nil =>
      cases runs
      rfl
  | cons action actions inductionHypothesis =>
      obtain ⟨next, steps, rest⟩ := Machine.run_cons.mp runs
      obtain ⟨-, -, -, event, isAction, events⟩ := of_fittingStep steps
      rw [inductionHypothesis rest, events, List.map_cons, isAction, List.reverse_cons,
        List.append_assoc]
      rfl

end Steps

/-- The second object gets the id of the first, and does not see its pointer. -/
theorem isolated_of_run_sample :
    ∃ recording : Recording Nat Nat,
      Machine.run fittingStep new
          [.threadStarts, .construct none, .reset 0 0 (some 5), .destroy 0,
            .construct none] = some recording ∧
        recording.session.used? 0 1 = some ⟨1, 0, none, true⟩ ∧
        ∃ static, recording.session.static.get 0 0 =
          some (lastStored 0 1 recording.events, static) := by
  have found : (Machine.run fittingStep (new : Recording Nat Nat)
      [.threadStarts, .construct none, .reset 0 0 (some 5), .destroy 0,
        .construct none]).bind (fun recording => recording.session.used? 0 1) =
      some ⟨1, 0, none, true⟩ := by
    decide
  obtain ⟨recording, runs, found⟩ := Option.bind_eq_some_iff.mp found
  refine ⟨recording, runs, found, (isolated_of_run runs ?_).2.1 0 1 _ found⟩
  intro event isEvent name replacement isScrape
  have isAction := List.mem_map_of_mem (f := fun event => event.action) isEvent
  rw [events_of_run runs, isScrape] at isAction
  simp [new] at isAction

/-! ## More objects than ids -/

/-- With one object more than there are ids, two objects share one. -/
theorem ids_collide :
    ∃ session : Session Nat Nat,
      Machine.run Session.next .new (List.replicate (2 ^ 32 + 1) (.construct none)) =
          some session ∧
        ⟨0, 0, none, true⟩ ∈ session.objects ∧
        ⟨2 ^ 32, 0, none, true⟩ ∈ session.objects ∧
        ¬(session.objects.map (fun object => object.id)).Nodup := by
  have runs := Session.run_construct (.new : Session Nat Nat) rfl (2 ^ 32 + 1)
  have isObject (index : Nat) (inRange : index < 2 ^ 32 + 1) :
      (⟨index, UInt32.ofNat index, none, true⟩ : Object Nat) ∈
        (Session.constructed (.new : Session Nat Nat) (2 ^ 32 + 1)).objects := by
    refine List.mem_append_right _ (List.mem_map.mpr ⟨index, List.mem_range.mpr inRange, ?_⟩)
    simp [Session.new, StaticMeta.new]
  have first := isObject 0 (by omega)
  have last := isObject (2 ^ 32) (by omega)
  refine ⟨_, runs, first, last, ?_⟩
  intro nodup
  have same := List.inj_on_of_nodup_map nodup first last rfl
  exact absurd (congrArg Object.name same) (by decide)

end Recording
end ThreadLocal
end RocksUtil
