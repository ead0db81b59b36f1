import Wireform.Bytes
import Wireform.Fault
/-! The bounds under which sized fields are read, and what a codec is configured with. -/

set_option autoImplicit false

namespace Wireform

structure Limits where
  /-- The longest payload, in bytes, that a length may declare. -/
  frame : Nat
  /-- The most elements that a list may declare. -/
  list : Nat
  deriving DecidableEq, Repr

/-- Only what a 64-bit size can count. -/
def Limits.unbounded : Limits := ⟨2 ^ 64 - 1, 2 ^ 64 - 1⟩

instance : LE Limits := ⟨fun small large => small.frame ≤ large.frame ∧ small.list ≤ large.list⟩

structure Config where
  maxFrameLen : Nat
  maxListLen : Nat
  listSeparator : Char
  deriving DecidableEq, Repr

namespace Config

instance : Inhabited Config := ⟨⟨16 * 1024 * 1024, 1024 * 1024, '\n'⟩⟩

def limits (config : Config) : Limits := ⟨config.maxFrameLen, config.maxListLen⟩

/-- The first thing that makes a configuration unusable. -/
def fault? (config : Config) : Option ConfigFault :=
  if config.maxFrameLen = 0 then some .zeroFrameLimit
  else if 2 ^ 31 - 1 < config.maxFrameLen then some (.frameLimitTooLarge config.maxFrameLen)
  else if config.maxListLen = 0 then some .zeroListLimit
  else if config.listSeparator.isDigit ∨ config.listSeparator = '-' then
    some (.ambiguousSeparator config.listSeparator)
  else none

theorem fault?_eq_none_iff (config : Config) : config.fault? = none ↔
    0 < config.maxFrameLen ∧ config.maxFrameLen < 2 ^ 31 ∧ 0 < config.maxListLen ∧
      config.listSeparator.isDigit = false ∧ config.listSeparator ≠ '-' := by
  unfold fault?
  split
  · simp_all
  split
  · simp_all; omega
  split
  · simp_all
  split
  · rename_i ambiguous
    simp only [reduceCtorEq, false_iff, not_and]
    intro _ _ _ digit
    simpa [digit] using ambiguous
  · simp_all
    omega

theorem fault?_default : (default : Config).fault? = none := by decide

def validate (config : Config) : Except Fault Config :=
  match config.fault? with
  | none => .ok config
  | some fault => .error (.invalidConfig fault)

theorem validate_eq_ok_iff (config : Config) : config.validate = .ok config ↔ config.fault? = none := by
  unfold validate
  cases config.fault? <;> simp

end Config

end Wireform
