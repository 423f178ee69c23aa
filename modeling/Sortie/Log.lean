/-! What a computation reports while it runs. An event has a level, a message and named fields; a
traced computation returns its events together with its result, and events that precede a failure
are kept. -/
namespace Sortie

inductive Level where
  | warn
  | info
  | debug
  deriving DecidableEq, Repr

namespace Level

def label : Level → String
  | warn => "WARN"
  | info => "INFO"
  | debug => "DEBUG"

/-- Verbosity 0 shows warnings, 1 adds information, 2 and more add debugging. -/
def shownAt (verbosity : Nat) : Level → Bool
  | warn => true
  | info => 1 ≤ verbosity
  | debug => 2 ≤ verbosity

end Level

structure Event where
  level : Level
  message : String
  fields : List (String × String)
  deriving DecidableEq, Repr

def Event.debug (message : String) (fields : List (String × String)) : Event :=
  ⟨.debug, message, fields⟩

def Event.info (message : String) (fields : List (String × String)) : Event :=
  ⟨.info, message, fields⟩

def Event.warn (message : String) (fields : List (String × String)) : Event :=
  ⟨.warn, message, fields⟩

/-- A result with the events reported on the way to it. -/
structure Traced (ε α : Type) where
  events : List Event
  result : Except ε α

namespace Traced
variable {ε ε' α β : Type}

protected def pure (a : α) : Traced ε α := ⟨[], .ok a⟩

protected def bind (x : Traced ε α) (f : α → Traced ε β) : Traced ε β :=
  match x.result with
  | .ok a => ⟨x.events ++ (f a).events, (f a).result⟩
  | .error e => ⟨x.events, .error e⟩

instance : Monad (Traced ε) where
  pure := Traced.pure
  bind := Traced.bind

def fail (e : ε) : Traced ε α := ⟨[], .error e⟩

def ofExcept (r : Except ε α) : Traced ε α := ⟨[], r⟩

def emit (e : Event) : Traced ε Unit := ⟨[e], .ok ()⟩

def emitAll (es : List Event) : Traced ε Unit := ⟨es, .ok ()⟩

def mapError (f : ε → ε') (x : Traced ε α) : Traced ε' α := ⟨x.events, x.result.mapError f⟩

@[simp] theorem result_pure (a : α) : (pure a : Traced ε α).result = .ok a := rfl
@[simp] theorem result_fail (e : ε) : (fail e : Traced ε α).result = .error e := rfl
@[simp] theorem result_ofExcept (r : Except ε α) : (ofExcept r).result = r := rfl
@[simp] theorem result_emit (e : Event) : (emit e : Traced ε Unit).result = .ok () := rfl
@[simp] theorem result_emitAll (es : List Event) : (emitAll es : Traced ε Unit).result = .ok () := rfl

@[simp] theorem result_bind (x : Traced ε α) (f : α → Traced ε β) :
    (x >>= f).result = x.result >>= fun a => (f a).result := by
  obtain ⟨es, _ | _⟩ := x <;> rfl

@[simp] theorem result_mapError (f : ε → ε') (x : Traced ε α) :
    (x.mapError f).result = x.result.mapError f := rfl

end Traced
end Sortie
