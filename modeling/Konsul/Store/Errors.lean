import Konsul.Lib.Decimal

/-!
# Strings, times and errors of the stores

A Go string is a byte string, and an `error` a value of `GoError`: the two typed
errors of the store package, errors known by identity, and texts.
-/

namespace Konsul

open GoLib

abbrev GoString := Bytes

/-- A string constant of the source. -/
def str (s : String) : GoString := s.toUTF8.data.toList

/-- Nanoseconds since the epoch. -/
abbrev Time := ℤ

/-- `time.Duration`, in nanoseconds. -/
abbrev Duration := ℤ

/-- `Time.Unix`. -/
def Time.unix (t : Time) : ℤ := t / 1000000000

inductive GoError where
  /-- `*store.CASConflictError`. -/
  | casConflict (key : GoString) (expectedIndex currentIndex : UInt64) (operationType : GoString)
  /-- `*store.NotFoundError`. -/
  | notFound (type key : GoString)
  /-- A package's error variable, told apart from every other error. -/
  | sentinel (package message : GoString)
  | text (message : GoString)
  /-- `fmt.Errorf("message: %w", cause)`. -/
  | wrap (message : GoString) (cause : GoError)
  deriving DecidableEq

namespace GoError

/-- The text of `Error()`. -/
def error : GoError → GoString
  | casConflict key expectedIndex currentIndex operationType =>
    str "CAS conflict for " ++ operationType ++ str " '" ++ key ++
      str "': expected ModifyIndex " ++ decimal expectedIndex.toNat ++
      str ", but current is " ++ decimal currentIndex.toNat
  | notFound type key => type ++ str " '" ++ key ++ str "' not found"
  | sentinel _ message => message
  | text message => message
  | wrap message cause => message ++ str ": " ++ cause.error

end GoError

/-- `store.IsCASConflict`: the error itself, not one it wraps. -/
def isCASConflict : GoError → Bool
  | .casConflict .. => true
  | _ => false

/-- `store.IsNotFound`. -/
def isNotFound : GoError → Bool
  | .notFound .. => true
  | _ => false

end Konsul
