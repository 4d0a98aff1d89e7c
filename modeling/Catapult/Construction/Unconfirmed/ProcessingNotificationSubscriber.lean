import Catapult.Construction.Types

/-
This file models the subscriber that validates and executes notifications and undoes them again.
-/

namespace Catapult.Unconfirmed

abbrev ValidationResult := UInt32

abbrev Timestamp := UInt64

/-- The upper two bits hold the severity. -/
def getSeverity (result : ValidationResult) : UInt32 := result >>> 30

def isValidationResultSuccess (result : ValidationResult) : Bool := getSeverity result = 0

def isValidationResultFailure (result : ValidationResult) : Bool := getSeverity result = 2

/-- The aggregate only changes to a more severe result. -/
def aggregateValidationResult (aggregate value : ValidationResult) : ValidationResult :=
  if getSeverity value ≤ getSeverity aggregate then aggregate else value

/-- A notification is passed to the validators, to the observers or to both. -/
structure Notification (N : Type) where
  content : N
  isValidatorSet : Bool
  isObserverSet : Bool

inductive NotifyMode where
  | commit
  | rollback
  deriving DecidableEq

structure ValidatorContext where
  height : Height
  blockTime : Timestamp

structure ObserverContext where
  height : Height
  mode : NotifyMode

variable {C N : Type}

def Validator (C N : Type) : Type := ValidatorContext → Notification N → C → ValidationResult

def Observer (C N : Type) : Type := ObserverContext → Notification N → C → C

/-- Every observer gets the notification, in reverse order during a rollback. -/
def notifyObservers (observers : List (Observer C N)) (context : ObserverContext) (notification : Notification N)
    (cache : C) : C :=
  match context.mode with
  | .commit => observers.foldl (fun cache observer => observer context notification cache) cache
  | .rollback => observers.reverse.foldl (fun cache observer => observer context notification cache) cache

structure ProcessingNotificationSubscriber (C N : Type) where
  validator : Validator C N
  validatorContext : ValidatorContext
  observers : List (Observer C N)
  observerContext : ObserverContext
  cache : C
  notificationBuffers : List (Notification N)
  aggregateResult : ValidationResult

namespace ProcessingNotificationSubscriber

/-- Undo is enabled before the first notification. -/
def create (validator : Validator C N) (validatorContext : ValidatorContext) (observers : List (Observer C N))
    (observerContext : ObserverContext) (cache : C) : ProcessingNotificationSubscriber C N :=
  ⟨validator, validatorContext, observers, observerContext, cache, [], 0⟩

def validate (subscriber : ProcessingNotificationSubscriber C N) (notification : Notification N) :
    ProcessingNotificationSubscriber C N :=
  if notification.isValidatorSet then
    { subscriber with
      aggregateResult := aggregateValidationResult subscriber.aggregateResult
        (subscriber.validator subscriber.validatorContext notification subscriber.cache) }
  else subscriber

def observe (subscriber : ProcessingNotificationSubscriber C N) (notification : Notification N) :
    ProcessingNotificationSubscriber C N :=
  if notification.isObserverSet then
    { subscriber with
      cache := notifyObservers subscriber.observers subscriber.observerContext notification subscriber.cache
      notificationBuffers := subscriber.notificationBuffers ++ [notification] }
  else subscriber

def notify (subscriber : ProcessingNotificationSubscriber C N) (notification : Notification N) :
    ProcessingNotificationSubscriber C N :=
  if isValidationResultSuccess subscriber.aggregateResult then
    let validated := subscriber.validate notification
    if isValidationResultSuccess validated.aggregateResult then validated.observe notification else validated
  else subscriber

def undoMode : NotifyMode → NotifyMode
  | .commit => .rollback
  | .rollback => .commit

/-- The stored notifications are passed to the observers in reverse order. -/
def undo (subscriber : ProcessingNotificationSubscriber C N) : ProcessingNotificationSubscriber C N :=
  let undoObserverContext := ⟨subscriber.observerContext.height, undoMode subscriber.observerContext.mode⟩
  { subscriber with
    cache := subscriber.notificationBuffers.reverse.foldl
      (fun cache notification => notifyObservers subscriber.observers undoObserverContext notification cache)
      subscriber.cache
    notificationBuffers := [] }

end ProcessingNotificationSubscriber

end Catapult.Unconfirmed
