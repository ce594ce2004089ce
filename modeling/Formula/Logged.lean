import Formula.Event

/-!
# Computations that report

A `Logged` computation has a value and the events on the way to it, in order. A `Reading`
is one that may fail with an error of reading, and a failed one keeps the events that came
before the error. `Reading.result` and `Reading.events` are the two views of a reading, and
the lemmas beside them say what each way to build a reading does to both.
-/

namespace Formula

/-- A value with the events on the way to it. -/
structure Logged (α : Type) where
  events : List Event
  value : α

namespace Logged

variable {α β : Type}

/-- Report one event. -/
def report (event : Event) : Logged Unit :=
  ⟨[event], ()⟩

instance : Monad Logged where
  pure a := ⟨[], a⟩
  bind x f := ⟨x.events ++ (f x.value).events, (f x.value).value⟩

@[simp] theorem value_pure (a : α) : (pure a : Logged α).value = a :=
  rfl

@[simp] theorem events_pure (a : α) : (pure a : Logged α).events = [] :=
  rfl

@[simp] theorem value_bind (x : Logged α) (f : α → Logged β) :
    (x >>= f).value = (f x.value).value :=
  rfl

@[simp] theorem events_bind (x : Logged α) (f : α → Logged β) :
    (x >>= f).events = x.events ++ (f x.value).events :=
  rfl

@[simp] theorem value_report (event : Event) : (report event).value = () :=
  rfl

@[simp] theorem events_report (event : Event) : (report event).events = [event] :=
  rfl

instance : LawfulMonad Logged :=
  LawfulMonad.mk' Logged
    (fun x => by simp [Functor.map])
    (fun a f => by simp [bind, pure])
    (fun x f g => by simp [bind, List.append_assoc])

end Logged

/-- A computation that reports events and may fail. -/
abbrev Reading := ExceptT ParseError Logged

namespace Reading

variable {α β : Type}

/-- The result of a reading, without its events. -/
def result (r : Reading α) : Except ParseError α :=
  r.run.value

/-- The events of a reading, up to its end or its error. -/
def events (r : Reading α) : List Event :=
  r.run.events

/-- Report an event. -/
def report (event : Event) : Reading Unit :=
  ExceptT.lift (Logged.report event)

@[simp] theorem result_pure (a : α) : result (pure a) = .ok a :=
  rfl

@[simp] theorem events_pure (a : α) : events (pure a) = [] :=
  rfl

@[simp] theorem result_throw (e : ParseError) : result (throw e : Reading α) = .error e :=
  rfl

@[simp] theorem events_throw (e : ParseError) : events (throw e : Reading α) = [] :=
  rfl

@[simp] theorem result_report (event : Event) : result (report event) = .ok () :=
  rfl

@[simp] theorem events_report (event : Event) : events (report event) = [event] :=
  rfl

/-- The steps behind a reading are chosen from its result. -/
theorem run_bind (r : Reading α) (f : α → Reading β) :
    (r >>= f).run = r.run >>= ExceptT.bindCont f :=
  rfl

/-- The result of a bind is the bind of the results. -/
theorem result_bind (r : Reading α) (f : α → Reading β) :
    result (r >>= f) = r.result >>= fun a => (f a).result := by
  unfold result
  rw [run_bind, Logged.value_bind]
  cases r.run.value <;> rfl

/-- Behind an error there are no more events. -/
theorem events_bind (r : Reading α) (f : α → Reading β) :
    events (r >>= f) =
      r.events ++ match r.result with
        | .ok a => (f a).events
        | .error _ => [] := by
  unfold events result
  rw [run_bind, Logged.events_bind]
  cases r.run.value <;> rfl

/-- A bind succeeds if both of its parts do. -/
theorem result_bind_eq_ok_iff {r : Reading α} {f : α → Reading β} {b : β} :
    result (r >>= f) = .ok b ↔ ∃ a, r.result = .ok a ∧ (f a).result = .ok b := by
  rw [result_bind]
  cases r.result with
  | error e => simp [bind, Except.bind]
  | ok a => simp [bind, Except.bind]

/-- A bind fails if one of its parts does, with the error of the first that does. -/
theorem result_bind_eq_error_iff {r : Reading α} {f : α → Reading β} {e : ParseError} :
    result (r >>= f) = .error e ↔
      r.result = .error e ∨ ∃ a, r.result = .ok a ∧ (f a).result = .error e := by
  rw [result_bind]
  cases r.result with
  | error e => simp [bind, Except.bind]
  | ok a => simp [bind, Except.bind]

end Reading

end Formula
