import Mathlib.Data.List.Induction
import Mathlib.Data.List.Nodup

/-!
# Maps that may forget

A map from keys to items that may forget whatever nobody holds, as it is seen from outside:
a history of what was stored under which key, found, handed out, taken back and destroyed.
A history is legal if a key is found to lead to what was last stored under it, and if an
item is destroyed after it has come in, once, and while nobody holds it.
-/

namespace ForgetfulMap

/-- What happens to a map.  An item is known by the name that it comes in under. -/
inductive Event (Key Id Item : Type)
  /-- An item is stored under a key, and handed out if `handed`. -/
  | stored (key : Key) (id : Id) (item : Item) (handed : Bool)
  /-- An item comes in and is forgotten at once. -/
  | dropped (key : Key) (id : Id) (item : Item)
  /-- The item that a key leads to is handed out. -/
  | found (key : Key) (id : Id)
  /-- An item is handed back. -/
  | released (id : Id)
  /-- A key is made to lead nowhere. -/
  | erased (key : Key)
  /-- An item is destroyed. -/
  | destroyed (id : Id)
  deriving DecidableEq

variable {Key Id Item : Type}

namespace Event

/-- The item that comes in. -/
def issue : Event Key Id Item → Option (Id × Item)
  | stored _ id item _ => some (id, item)
  | dropped _ id item => some (id, item)
  | _ => none

/-- The item that is destroyed. -/
def destroy : Event Key Id Item → Option Id
  | destroyed id => some id
  | _ => none

/-- How often an item is held behind the event. -/
def hold [DecidableEq Id] (id : Id) (before : Nat) : Event Key Id Item → Nat
  | stored _ other _ handed => if other = id ∧ handed then before + 1 else before
  | found _ other => if other = id then before + 1 else before
  | released other => if other = id then before - 1 else before
  | _ => before

/-- Where a key leads behind the event. -/
def lead [DecidableEq Key] (key : Key) (before : Option Id) : Event Key Id Item → Option Id
  | stored other id _ _ => if other = key then some id else before
  | erased other => if other = key then none else before
  | _ => before

end Event

/-- The items that came in. -/
def issued (history : List (Event Key Id Item)) : List (Id × Item) :=
  history.filterMap Event.issue

/-- The items that were destroyed. -/
def destroyed (history : List (Event Key Id Item)) : List Id :=
  history.filterMap Event.destroy

theorem issued_append (history rest : List (Event Key Id Item)) :
    issued (history ++ rest) = issued history ++ issued rest :=
  List.filterMap_append

theorem destroyed_append (history rest : List (Event Key Id Item)) :
    destroyed (history ++ rest) = destroyed history ++ destroyed rest :=
  List.filterMap_append

theorem issued_map_destroyed (gone : List Id) :
    issued (gone.map (Event.destroyed : Id → Event Key Id Item)) = [] := by
  rw [issued, List.filterMap_map]
  exact List.filterMap_none gone

theorem destroyed_map_destroyed (gone : List Id) :
    destroyed (gone.map (Event.destroyed : Id → Event Key Id Item)) = gone := by
  rw [destroyed, List.filterMap_map]
  exact List.filterMap_some

section Names

variable [DecidableEq Id]

/-- How often an item is held. -/
def held (history : List (Event Key Id Item)) (id : Id) : Nat :=
  history.foldl (Event.hold id) 0

theorem held_append (history rest : List (Event Key Id Item)) (id : Id) :
    held (history ++ rest) id = rest.foldl (Event.hold id) (held history id) :=
  List.foldl_append

/-- An event hands an item out once, at most. -/
theorem Event.hold_le (id : Id) (before : Nat) (event : Event Key Id Item) :
    event.hold id before ≤ before + 1 := by
  cases event with
  | stored key other item handed =>
      rw [hold]
      split <;> omega
  | found key other =>
      rw [hold]
      split <;> omega
  | released other =>
      rw [hold]
      split <;> omega
  | _ => exact Nat.le_succ before

theorem foldl_hold_destroyed (gone : List Id) (id : Id) (before : Nat) :
    (gone.map (Event.destroyed : Id → Event Key Id Item)).foldl (Event.hold id) before =
      before := by
  induction gone with
  | nil => rfl
  | cons other gone inductionHypothesis => exact inductionHypothesis

end Names

section Keys

variable [DecidableEq Key]

/-- The item that a key leads to, unless it has been forgotten. -/
def latest (history : List (Event Key Id Item)) (key : Key) : Option Id :=
  history.foldl (Event.lead key) none

theorem latest_append (history rest : List (Event Key Id Item)) (key : Key) :
    latest (history ++ rest) key = rest.foldl (Event.lead key) (latest history key) :=
  List.foldl_append

theorem foldl_lead_destroyed (gone : List Id) (key : Key) (before : Option Id) :
    (gone.map (Event.destroyed : Id → Event Key Id Item)).foldl (Event.lead key) before =
      before := by
  induction gone with
  | nil => rfl
  | cons other gone inductionHypothesis => exact inductionHypothesis

/-- A key leads where it led before, or to what has been stored under it. -/
theorem foldl_lead
    {events : List (Event Key Id Item)}
    {key : Key}
    {before : Option Id}
    {id : Id}
    (leads : events.foldl (Event.lead key) before = some id) :
    before = some id ∨ ∃ item handed, Event.stored key id item handed ∈ events := by
  induction events generalizing before with
  | nil => exact Or.inl leads
  | cons event events inductionHypothesis =>
      rcases inductionHypothesis leads with one | ⟨item, handed, isStored⟩
      · cases event with
        | stored other id' item handed =>
            by_cases same : other = key
            · subst same
              obtain rfl := Option.some.inj ((if_pos rfl).symm.trans one)
              exact Or.inr ⟨item, handed, List.mem_cons_self⟩
            · exact Or.inl ((if_neg same).symm.trans one)
        | erased other =>
            by_cases same : other = key
            · cases (if_pos same).symm.trans one
            · exact Or.inl ((if_neg same).symm.trans one)
        | _ => exact Or.inl one
      · exact Or.inr ⟨item, handed, List.mem_cons_of_mem _ isStored⟩

end Keys

variable [DecidableEq Key] [DecidableEq Id]

/-- What may happen behind a history. -/
def Allowed (history : List (Event Key Id Item)) : Event Key Id Item → Prop
  | .stored _ id _ _ => id ∉ (issued history).map Prod.fst
  | .dropped _ id _ => id ∉ (issued history).map Prod.fst
  | .found key id => latest history key = some id ∧ id ∉ destroyed history
  | .released id => 0 < held history id
  | .erased _ => True
  | .destroyed id => id ∈ (issued history).map Prod.fst ∧ id ∉ destroyed history ∧
      held history id = 0

/-- Histories of maps that may forget. -/
inductive Legal : List (Event Key Id Item) → Prop
  | nil : Legal []
  | concat
      {history : List (Event Key Id Item)}
      {event : Event Key Id Item}
      (before : Legal history)
      (allowed : Allowed history event) :
      Legal (history ++ [event])

/-- Items that nobody holds may be destroyed one by one. -/
theorem Legal.destroy
    {history : List (Event Key Id Item)}
    {gone : List Id}
    (legal : Legal history)
    (distinct : gone.Nodup)
    (idle : ∀ id ∈ gone, id ∈ (issued history).map Prod.fst ∧ id ∉ destroyed history ∧
      held history id = 0) :
    Legal (history ++ gone.map .destroyed) := by
  induction gone using List.reverseRecOn with
  | nil =>
      rw [List.map_nil, List.append_nil]
      exact legal
  | append_singleton gone id inductionHypothesis =>
      rw [List.nodup_append] at distinct
      have before := inductionHypothesis distinct.1
        (fun other within => idle other (List.mem_append_left _ within))
      obtain ⟨isIssued, alive, free⟩ := idle id (List.mem_append_right _ List.mem_cons_self)
      rw [List.map_append, ← List.append_assoc]
      refine before.concat ⟨?_, ?_, ?_⟩
      · rw [issued_append, issued_map_destroyed, List.append_nil]
        exact isIssued
      · rw [destroyed_append, destroyed_map_destroyed, List.mem_append, not_or]
        exact ⟨alive, fun within => distinct.2.2 id within id List.mem_cons_self rfl⟩
      · rw [held_append, foldl_hold_destroyed]
        exact free

/-- Every event of a legal history was allowed when it happened. -/
theorem Legal.allowed
    {history before after : List (Event Key Id Item)}
    {event : Event Key Id Item}
    (legal : Legal history)
    (splits : history = before ++ event :: after) :
    Allowed before event := by
  induction legal generalizing after with
  | nil => exact absurd splits (by simp)
  | @concat earlier last legal allowed inductionHypothesis =>
      rcases List.eq_nil_or_concat after with rfl | ⟨rest, other, rfl⟩
      · obtain ⟨rfl, isLast⟩ := List.append_inj' splits rfl
        rw [← List.singleton_inj.mp isLast]
        exact allowed
      · have parts : earlier ++ [last] = (before ++ event :: rest) ++ [other] := by
          rw [splits]
          simp
        exact inductionHypothesis (List.append_inj' parts rfl).1

/-- What is destroyed has come in. -/
theorem Legal.destroyed_subset
    {history : List (Event Key Id Item)}
    (legal : Legal history) :
    destroyed history ⊆ (issued history).map Prod.fst := by
  induction legal with
  | nil => exact List.Subset.refl []
  | @concat history event legal allowed inductionHypothesis =>
      intro id within
      rw [issued_append, List.map_append, List.mem_append]
      rw [destroyed_append, List.mem_append] at within
      rcases within with earlier | now
      · exact Or.inl (inductionHypothesis earlier)
      · cases event with
        | destroyed other =>
            obtain rfl := List.mem_singleton.mp now
            exact Or.inl allowed.1
        | _ => cases now

/-- No name is used twice. -/
theorem Legal.nodup_issued
    {history : List (Event Key Id Item)}
    (legal : Legal history) :
    ((issued history).map Prod.fst).Nodup := by
  induction legal with
  | nil => exact List.nodup_nil
  | @concat history event legal allowed inductionHypothesis =>
      have fresh {id : Id} (isNew : id ∉ (issued history).map Prod.fst) :
          ((issued history).map Prod.fst ++ [id]).Nodup := by
        refine List.nodup_append.mpr ⟨inductionHypothesis, List.nodup_singleton id, ?_⟩
        rintro other within _ isHere rfl
        rw [List.mem_singleton.mp isHere] at within
        exact isNew within
      rw [issued_append, List.map_append]
      cases event with
      | stored key id item handed => exact fresh allowed
      | dropped key id item => exact fresh allowed
      | _ =>
          rw [show issued [_] = [] from rfl, List.map_nil, List.append_nil]
          exact inductionHypothesis

end ForgetfulMap
