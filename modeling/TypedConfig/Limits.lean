/-! # Limits

Bounds on the size of sources and documents and on the nesting of types and expressions.
-/

namespace TypedConfig

structure Limits where
  maxSourceBytes : Nat
  maxDepth : Nat
  maxOutputBytes : Nat
deriving DecidableEq, Repr

/-- Limits of which some may be left open. -/
structure LimitOverrides where
  maxSourceBytes : Option Nat
  maxDepth : Option Nat
  maxOutputBytes : Option Nat
deriving DecidableEq, Repr, Inhabited

inductive Sized
  | source
  | output
deriving DecidableEq, Repr

structure LimitExceeded where
  what : Sized
  limit : Nat
  actual : Nat
deriving DecidableEq, Repr

namespace Limits

/-- Four mebibytes of source, 128 levels of nesting and sixteen mebibytes of output. -/
def standard : Limits := ⟨4 * 1024 * 1024, 128, 16 * 1024 * 1024⟩

instance : Inhabited Limits := ⟨standard⟩

def override (l : Limits) (o : LimitOverrides) : Limits :=
  ⟨o.maxSourceBytes.getD l.maxSourceBytes, o.maxDepth.getD l.maxDepth,
    o.maxOutputBytes.getD l.maxOutputBytes⟩

def checkSize (what : Sized) (actual limit : Nat) : Except LimitExceeded Unit :=
  if limit < actual then .error ⟨what, limit, actual⟩ else .ok ()

def checkSource (l : Limits) (source : String) : Except LimitExceeded Unit :=
  checkSize .source source.utf8ByteSize l.maxSourceBytes

def checkOutput (l : Limits) (output : String) : Except LimitExceeded Unit :=
  checkSize .output output.utf8ByteSize l.maxOutputBytes

theorem checkSize_eq_ok_iff {what : Sized} {actual limit : Nat} :
    checkSize what actual limit = .ok () ↔ actual ≤ limit := by
  unfold checkSize
  split <;> simp_all

end Limits

def Sized.word : Sized → String
  | .source => "source"
  | .output => "output"

def LimitExceeded.message (e : LimitExceeded) : String :=
  s!"{e.what.word} exceeds maximum size of {e.limit} bytes ({e.actual} bytes)"

end TypedConfig
