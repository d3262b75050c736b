import Posta.Js.Value

/-!
# Classification of a failed flush

A failed flush is a fault of its rows or a failure of the infrastructure. Only the SQLSTATE
decides: the first string `code` along the chain of causes, of the classes 22 (data exception)
and 23 (integrity constraint violation).
-/

namespace Posta

open Js

inductive FlushErrorClassification where
  | rowFault
  | infrastructure
deriving DecidableEq

def rowFaultSqlstateClasses : List JsString := [lit "22", lit "23"]

def maxCauseDepth : Nat := 5

/-- The first string `code` among the next `depth` links of the chain of causes. -/
def extractSqlStateFrom : Nat → Option Thrown → Option JsString
  | _ + 1, some (.error _ _ (some code) ..) => some code
  | depth + 1, some (.error _ _ none _ _ cause) => extractSqlStateFrom depth cause
  | _, _ => none

def extractSqlState (error : Thrown) : Option JsString :=
  extractSqlStateFrom maxCauseDepth (some error)

def classifyFlushError (error : Thrown) : FlushErrorClassification :=
  if !error.isError then .infrastructure
  else match extractSqlState error with
    | none => .infrastructure
    | some sqlstate =>
      if rowFaultSqlstateClasses.contains (sqlstate.take 2) then .rowFault else .infrastructure

/-- A row fault is an `Error` with an SQLSTATE of class 22 or 23. -/
theorem classifyFlushError_rowFault {error : Thrown} :
    classifyFlushError error = .rowFault ↔
      ∃ sqlstate, extractSqlState error = some sqlstate ∧
        sqlstate.take 2 ∈ rowFaultSqlstateClasses := by
  unfold classifyFlushError
  cases error with
  | value text => simp [Thrown.isError, extractSqlState, extractSqlStateFrom, maxCauseDepth]
  | error name message code throttling status cause =>
    simp only [Thrown.isError, Bool.not_true, Bool.false_eq_true, if_false]
    cases h : extractSqlState (.error name message code throttling status cause) with
    | none => simp
    | some s => simp

/-- Only an `Error` is a row fault. -/
theorem isError_of_rowFault {error : Thrown} (h : classifyFlushError error = .rowFault) :
    error.isError = true := by
  cases error with
  | value text => cases h
  | error => rfl

end Posta
